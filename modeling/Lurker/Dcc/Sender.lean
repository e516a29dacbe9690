import Lurker.Dcc.Receiver
import Mathlib.Data.List.MinMax

/-!
# Sending a file

One file into one socket. The receiver's acknowledgements are its byte counts modulo 2^32, in any
pieces; they are lifted to counts by what has been sent. A send is done when the last byte is
confirmed, or when a receiver that never acknowledged closed after everything had left the socket.
-/

namespace Lurker.Dcc.Sender

open Receiver (Bytes uint32BE)

def ackModulus : Nat := 4294967296

structure DccSendOptions where
  size : Nat
  startOffset : Option Nat
  idleTimeoutMs : Option Nat

def DccSendOptions.offset (o : DccSendOptions) : Nat := o.startOffset.getD 0

structure Socket where
  timeoutMs : Nat
  /-- Written and still in the socket's buffer. -/
  writableLength : Nat
  needDrain : Bool
  /-- We ended our side. -/
  ended : Bool
  /-- The receiver ended its side. -/
  remoteEnded : Bool
  /-- Written to after the receiver ended its side: an error is on its way. -/
  broken : Bool
  destroyed : Bool
  closed : Bool
  deriving DecidableEq

structure ReadStream where
  paused : Bool
  ended : Bool
  destroyed : Bool
  /-- Bytes up to the end it was opened with. -/
  left : Nat
  deriving DecidableEq

/-- The timer armed when everything is sent. -/
inductive Grace
  | firstAck
  | finalAck
  deriving DecidableEq

inductive Call
  | onProgress (confirmed : Nat)
  | onDone (size : Nat)
  | onError (err : String) (confirmed : Nat)
  deriving DecidableEq

structure DccSender where
  started : Bool
  socket : Socket
  stream : Option ReadStream
  sent : Nat
  acks : Bool
  confirmed : Nat
  grace : Option Grace
  unflushedAtEnd : Nat
  finishedReading : Bool
  settled : Bool
  reported : Nat
  ackBuf : Bytes
  calls : List Call
  /-- The counts the receiver has acknowledged. -/
  acked : List Nat
  /-- What it wrote that has not come yet. -/
  wire : Bytes
  /-- How many whole ACKs were read. -/
  noted : Nat
  deriving DecidableEq

variable (highWaterMark : Nat) (o : DccSendOptions)

/-- The constructor, around a socket that is connected already. -/
def create : DccSender where
  started := false
  socket := ⟨0, 0, false, false, false, false, false, false⟩
  stream := none
  sent := o.offset
  acks := false
  confirmed := o.offset
  grace := none
  unflushedAtEnd := 0
  finishedReading := false
  settled := false
  reported := o.offset
  ackBuf := []
  calls := []
  acked := []
  wire := []
  noted := 0

def bytesConfirmed (s : DccSender) : Nat := if s.acks then s.confirmed else s.sent

def settle (err : Option String) (s : DccSender) : DccSender :=
  if s.settled then s
  else
    let call := match err with
      | some e => .onError e (bytesConfirmed s)
      | none => .onDone o.size
    { s with
      settled := true
      grace := none
      stream := s.stream.map fun stream => { stream with destroyed := true }
      socket := { s.socket with destroyed := true }
      calls := s.calls ++ [call] }

def report (n : Nat) (s : DccSender) : DccSender :=
  if n ≤ s.reported then s else { s with reported := n, calls := s.calls ++ [.onProgress n] }

/-- How far behind what we sent the receiver is. -/
def back (sent ack : Nat) : Int :=
  (((sent : Int) - ack).tmod ackModulus + ackModulus).tmod ackModulus

def noteAck (ack : Nat) (s : DccSender) : DccSender :=
  let abs : Int := s.sent - back s.sent ack
  let s := { s with acks := true, noted := s.noted + 1 }
  if abs > s.confirmed then report abs.toNat { s with confirmed := abs.toNat } else s

def readUInt32BE (a b c d : UInt8) : Nat :=
  a.toNat * 16777216 + b.toNat * 65536 + c.toNat * 256 + d.toNat

/-- The whole words at the front. -/
def words : Bytes → List Nat
  | a :: b :: c :: d :: rest => readUInt32BE a b c d :: words rest
  | _ => []

/-- Whole words are read off, and the rest is kept. -/
def noteAcks (bytes : Bytes) (s : DccSender) : DccSender :=
  { (words bytes).foldl (fun s ack => noteAck ack s) s with
    ackBuf := bytes.drop (4 * (words bytes).length) }

/-- Everything was read, and all of it is confirmed. -/
def confirmedAll (s : DccSender) : Bool := s.finishedReading && s.confirmed == o.size

def onData (chunk : Bytes) (s : DccSender) : DccSender :=
  let s := noteAcks (s.ackBuf ++ chunk) s
  if confirmedAll o s then settle o none s else s

def onClose (s : DccSender) : DccSender :=
  if s.settled then s
  else if ¬ s.finishedReading then
    settle o (some "receiver closed before the transfer finished") s
  else if s.acks ∧ s.confirmed ≠ o.size then
    settle o
      (some s!"receiver closed having confirmed {s.confirmed} of {o.size} bytes") s
  else if ¬ s.acks ∧ s.unflushedAtEnd > 0 then
    settle o (some "receiver closed before the transfer finished") s
  else settle o none s

/-- What `write` does to the socket, and what it returns. -/
def Socket.write (n : Nat) (sock : Socket) : Socket × Bool :=
  if sock.remoteEnded then ({ sock with broken := true }, false)
  else
    let ok := decide (sock.writableLength + n < highWaterMark)
    ({ sock with
        writableLength := sock.writableLength + n
        needDrain := sock.needDrain || !ok }, ok)

/-- `n` bytes of the file. -/
def onRead (n : Nat) (s : DccSender) : DccSender :=
  if s.settled then s
  else
    let s := { s with sent := s.sent + n }
    let s := if s.acks then s else report s.sent s
    let (sock, ok) := s.socket.write highWaterMark n
    { s with
      socket := sock
      stream := if ok then s.stream else s.stream.map fun stream => { stream with paused := true } }

def onReadEnd (s : DccSender) : DccSender :=
  if s.settled then s
  else
    let s := { s with finishedReading := true }
    if s.sent ≠ o.size then
      -- the file shrank under us
      settle o (some s!"the file ended at {s.sent} of {o.size} bytes") s
    else if s.confirmed = o.size then settle o none s
    else { s with grace := some .firstAck }

inductive Event
  | start
  -- the receiver
  | ack (count : Nat)
  | junk (bytes : Bytes)
  | remoteEnd
  -- our socket
  | data (n : Nat)
  | flush (n : Nat)
  | drain
  | socketError (e : String)
  | timeout
  | close
  -- the file
  | read (n : Nat)
  | readEnd
  | readError (e : String)
  | graceOver
  | cancel

def start (s : DccSender) : DccSender :=
  if s.started then s
  else
    let s := { s with
      started := true
      socket := { s.socket with timeoutMs := o.idleTimeoutMs.getD 120000 } }
    -- nothing left to send
    if o.size ≤ o.offset then
      { s with finishedReading := true, socket := { s.socket with ended := true } }
    else { s with stream := some ⟨false, false, false, o.size - o.offset⟩ }

def ReadStream.flows (stream : ReadStream) : Bool :=
  !stream.paused && !stream.ended && !stream.destroyed

/-- Our listeners are on the socket, and it is not destroyed. -/
def listens (s : DccSender) : Bool := s.started && !s.socket.destroyed && !s.socket.closed

/-- One event. One that cannot happen where it stands changes nothing. -/
def step (s : DccSender) : Event → DccSender
  | .start => start o s
  | .ack count =>
    if s.socket.remoteEnded then s
    else { s with acked := s.acked ++ [count], wire := s.wire ++ uint32BE (count % ackModulus) }
  | .junk bytes => if s.socket.remoteEnded then s else { s with wire := s.wire ++ bytes }
  -- what the receiver wrote comes before its end
  | .remoteEnd =>
    if listens s && s.wire.isEmpty then
      { s with
        unflushedAtEnd := s.socket.writableLength
        socket := { s.socket with remoteEnded := true, ended := true } }
    else s
  | .data n =>
    if listens s && !(s.wire.take n).isEmpty then
      onData o (s.wire.take n) { s with wire := s.wire.drop n }
    else s
  | .flush n =>
    { s with socket := { s.socket with writableLength := s.socket.writableLength - n } }
  | .drain =>
    if s.socket.needDrain ∧ s.socket.writableLength = 0 then
      let s := { s with socket := { s.socket with needDrain := false } }
      if s.settled then s
      else { s with stream := s.stream.map fun stream => { stream with paused := false } }
    else s
  | .socketError e => if s.started then settle o (some e) s else s
  | .timeout => if s.socket.timeoutMs ≠ 0 then settle o (some "DCC send timed out") s else s
  -- after an error, or once both sides have ended
  | .close =>
    if s.started ∧ (s.socket.destroyed ∨ (s.socket.remoteEnded ∧ ¬ s.socket.broken)) then
      onClose o { s with socket := { s.socket with closed := true } }
    else s
  | .read n =>
    match s.stream with
    | some stream =>
      if stream.flows ∧ 0 < n ∧ n ≤ stream.left then
        onRead highWaterMark n { s with stream := some { stream with left := stream.left - n } }
      else s
    | none => s
  | .readEnd =>
    match s.stream with
    | some stream =>
      if stream.flows then onReadEnd o { s with stream := some { stream with ended := true } }
      else s
    | none => s
  | .readError e => if s.stream.isSome then settle o (some e) s else s
  | .graceOver =>
    match s.grace with
    | some .firstAck =>
      if s.acks then { s with grace := some .finalAck }
      else { s with grace := none, socket := { s.socket with ended := true } }
    | some .finalAck => { s with grace := none, socket := { s.socket with ended := true } }
    | none => s
  | .cancel => settle o (some "cancelled") s

def run (es : List Event) : DccSender := Run.after (step highWaterMark o) (create o) es

def Call.progress : Call → Option Nat
  | .onProgress n => some n
  | _ => none

/-- What the caller was told of the progress. -/
def progress (s : DccSender) : List Nat := s.calls.filterMap Call.progress

/-- Every count is in its place, whatever the receiver writes. -/
structure Counts (o : DccSendOptions) (s : DccSender) : Prop where
  resumed : o.offset ≤ s.confirmed
  credited : s.confirmed ≤ s.sent
  bounded : s.sent ≤ o.size
  reported : s.reported ≤ s.sent
  increasing : (progress s).Pairwise (· < ·)
  latest : ∀ n ∈ progress s, n ≤ s.reported
  acks : s.acks = true ↔ 0 < s.noted
  unacked : s.noted = 0 → s.confirmed = o.offset

variable {highWaterMark o} {s : DccSender}

theorem counts_create (h : o.offset ≤ o.size) : Counts o (create o) where
  resumed := le_rfl
  credited := le_rfl
  bounded := h
  reported := le_rfl
  increasing := .nil
  latest := nofun
  acks := by simp [create]
  unacked := fun _ => rfl

/-- Nothing but what an ACK can change has changed. -/
structure Notes (s t : DccSender) : Prop where
  started : t.started = s.started
  socket : t.socket = s.socket
  stream : t.stream = s.stream
  sent : t.sent = s.sent
  grace : t.grace = s.grace
  unflushedAtEnd : t.unflushedAtEnd = s.unflushedAtEnd
  finishedReading : t.finishedReading = s.finishedReading
  settled : t.settled = s.settled
  acked : t.acked = s.acked
  wire : t.wire = s.wire
  done : ∀ n, .onDone n ∈ t.calls ↔ .onDone n ∈ s.calls

theorem Notes.trans {s t u : DccSender} (h : Notes s t) (h' : Notes t u) : Notes s u where
  started := h'.started.trans h.started
  socket := h'.socket.trans h.socket
  stream := h'.stream.trans h.stream
  sent := h'.sent.trans h.sent
  grace := h'.grace.trans h.grace
  unflushedAtEnd := h'.unflushedAtEnd.trans h.unflushedAtEnd
  finishedReading := h'.finishedReading.trans h.finishedReading
  settled := h'.settled.trans h.settled
  acked := h'.acked.trans h.acked
  wire := h'.wire.trans h.wire
  done := fun n => (h'.done n).trans (h.done n)

theorem report_cases (n : Nat) (s : DccSender) :
    (n ≤ s.reported ∧ report n s = s) ∨
    (s.reported < n ∧
      report n s = { s with reported := n, calls := s.calls ++ [.onProgress n] }) := by
  unfold report
  split
  · exact .inl ⟨‹_›, rfl⟩
  · exact .inr ⟨by omega, rfl⟩

theorem progress_append (c : Call) (s : DccSender) :
    (s.calls ++ [c]).filterMap Call.progress = progress s ++ c.progress.toList := by
  rw [List.filterMap_append]
  cases c <;> rfl

theorem Counts.report (h : Counts o s) {n : Nat} (hn : n ≤ s.sent) : Counts o (report n s) := by
  obtain ⟨-, hr⟩ | ⟨hlt, hr⟩ := report_cases n s
  · rw [hr]; exact h
  · have hp : progress { s with reported := n, calls := s.calls ++ [.onProgress n] } =
        progress s ++ [n] := progress_append ..
    rw [hr]
    refine { h with reported := hn, increasing := ?_, latest := ?_ }
    · rw [hp, List.pairwise_append]
      refine ⟨h.increasing, List.pairwise_singleton .., fun a ha b hb => ?_⟩
      obtain rfl := List.mem_singleton.mp hb
      exact (h.latest a ha).trans_lt hlt
    · rw [hp]
      intro m hm
      rcases List.mem_append.mp hm with hm | hm
      · exact (h.latest m hm).trans hlt.le
      · exact (List.mem_singleton.mp hm).le

/-- The remainder of the source, which keeps the sign of what it divides. -/
theorem back_eq (sent ack : Nat) : back sent ack = ((sent : Int) - ack) % ackModulus := by
  have hpos : (0 : Int) < ackModulus := by decide
  have hlow : -(ackModulus : Int) < ((sent : Int) - ack).tmod ackModulus :=
    Int.lt_tmod_of_pos _ hpos
  rw [back, Int.tmod_eq_emod_of_nonneg (by omega), Int.add_emod_right, Int.tmod_def,
    Int.sub_mul_emod_self_left]

theorem back_nonneg (sent ack : Nat) : 0 ≤ back sent ack := by
  rw [back_eq]
  exact Int.emod_nonneg _ (by decide)

/-- The low bits of a count that is less than 2^32 behind give the count. -/
theorem back_of_near {sent count : Nat} (hle : count ≤ sent) (hnear : sent < count + ackModulus) :
    (sent : Int) - back sent (count % ackModulus) = count := by
  rw [back_eq]
  simp only [ackModulus] at *
  omega

theorem report_notes (n : Nat) (s : DccSender) : Notes s (report n s) := by
  obtain ⟨-, hr⟩ | ⟨-, hr⟩ := report_cases n s
  · rw [hr]; constructor <;> first | rfl | exact fun _ => Iff.rfl
  · rw [hr]; constructor <;> first | rfl | simp

theorem report_counts (n : Nat) (s : DccSender) :
    (report n s).acks = s.acks ∧ (report n s).noted = s.noted ∧
    (report n s).confirmed = s.confirmed ∧ (report n s).ackBuf = s.ackBuf := by
  obtain ⟨-, hr⟩ | ⟨-, hr⟩ := report_cases n s <;> rw [hr] <;> exact ⟨rfl, rfl, rfl, rfl⟩

theorem noteAck_cases (ack : Nat) (s : DccSender) :
    ((s.confirmed : Int) < s.sent - back s.sent ack ∧ ∃ count : Nat,
      (count : Int) = s.sent - back s.sent ack ∧
      noteAck ack s =
        report count { s with acks := true, noted := s.noted + 1, confirmed := count }) ∨
    ((s.sent : Int) - back s.sent ack ≤ s.confirmed ∧
      noteAck ack s = { s with acks := true, noted := s.noted + 1 }) := by
  unfold noteAck
  dsimp only
  split
  · rename_i hgt
    exact .inl ⟨hgt, _, Int.toNat_of_nonneg (by omega), rfl⟩
  · exact .inr ⟨by omega, rfl⟩

theorem noteAck_notes (ack : Nat) (s : DccSender) : Notes s (noteAck ack s) := by
  obtain ⟨-, count, -, hr⟩ | ⟨-, hr⟩ := noteAck_cases ack s
  · rw [hr]
    refine Notes.trans ?_ (report_notes ..)
    constructor <;> first | rfl | exact fun _ => Iff.rfl
  · rw [hr]
    constructor <;> first | rfl | exact fun _ => Iff.rfl

theorem noteAck_noted (ack : Nat) (s : DccSender) :
    (noteAck ack s).noted = s.noted + 1 ∧ (noteAck ack s).ackBuf = s.ackBuf := by
  obtain ⟨-, count, -, hr⟩ | ⟨-, hr⟩ := noteAck_cases ack s
  · rw [hr]
    obtain ⟨-, hn, -, hb⟩ := report_counts count
      { s with acks := true, noted := s.noted + 1, confirmed := count }
    exact ⟨hn, hb⟩
  · rw [hr]; exact ⟨rfl, rfl⟩

theorem Counts.noteAck (h : Counts o s) (ack : Nat) : Counts o (noteAck ack s) := by
  have hback := back_nonneg s.sent ack
  obtain ⟨hlt, count, hc, hr⟩ | ⟨-, hr⟩ := noteAck_cases ack s
  · have hle : count ≤ s.sent := by omega
    have hge := h.resumed
    have hcount : Counts o { s with acks := true, noted := s.noted + 1, confirmed := count } :=
      { h with resumed := by dsimp only; omega, credited := hle, acks := by simp, unacked := nofun }
    rw [hr]
    exact hcount.report hle
  · rw [hr]
    exact { h with acks := by simp, unacked := nofun }

/-- An honest ACK is credited in full. -/
theorem noteAck_confirmed {count : Nat} (hle : count ≤ s.sent)
    (hnear : s.sent < count + ackModulus) :
    (noteAck (count % ackModulus) s).confirmed = max s.confirmed count := by
  have habs := back_of_near hle hnear
  obtain ⟨hlt, c, hc, hr⟩ | ⟨hge, hr⟩ := noteAck_cases (count % ackModulus) s
  · rw [hr, (report_counts ..).2.2.1]
    dsimp only
    omega
  · rw [hr]
    dsimp only
    omega

theorem words_length (bytes : Bytes) : (words bytes).length = bytes.length / 4 := by
  fun_induction words bytes with
  | case1 a b c d rest ih => simp only [List.length_cons]; omega
  | case2 bytes hshort =>
    match bytes, hshort with
    | a :: b :: c :: d :: rest, hshort => exact (hshort a b c d rest rfl).elim
    | [], _ | [_], _ | [_, _], _ | [_, _, _], _ => simp

/-- Nothing but the counts is touched by the words. -/
theorem foldl_notes (acks : List Nat) (s : DccSender) :
    Notes s (acks.foldl (fun s ack => noteAck ack s) s) := by
  induction acks generalizing s with
  | nil => constructor <;> first | rfl | exact fun _ => Iff.rfl
  | cons ack acks ih => exact (noteAck_notes ack s).trans (ih _)

theorem foldl_noted (acks : List Nat) (s : DccSender) :
    (acks.foldl (fun s ack => noteAck ack s) s).noted = s.noted + acks.length := by
  induction acks generalizing s with
  | nil => rfl
  | cons ack acks ih =>
    rw [List.foldl_cons, ih, (noteAck_noted ack s).1, List.length_cons]
    omega

theorem Counts.foldl (h : Counts o s) (acks : List Nat) :
    Counts o (acks.foldl (fun s ack => Sender.noteAck ack s) s) := by
  induction acks generalizing s with
  | nil => exact h
  | cons ack acks ih => exact ih (h.noteAck ack)

theorem noteAcks_notes (bytes : Bytes) (s : DccSender) : Notes s (noteAcks bytes s) :=
  (foldl_notes (words bytes) s).trans
    (by constructor <;> first | rfl | exact fun _ => Iff.rfl)

theorem Counts.noteAcks (h : Counts o s) (bytes : Bytes) : Counts o (noteAcks bytes s) :=
  { h.foldl (words bytes) with }

/-- Whole words are counted, and what is left is less than a word. -/
theorem noteAcks_words (bytes : Bytes) (s : DccSender) :
    (noteAcks bytes s).noted = s.noted + bytes.length / 4 ∧
    (noteAcks bytes s).ackBuf = bytes.drop (4 * (bytes.length / 4)) := by
  rw [← words_length]
  exact ⟨foldl_noted .., rfl⟩

theorem settle_cases (err : Option String) (s : DccSender) (hs : s.settled = false) :
    ∃ call, (∀ n, call ≠ .onProgress n) ∧
      (∀ n, call = .onDone n ↔ err = none ∧ n = o.size) ∧
      settle o err s = { s with
        settled := true
        grace := none
        stream := s.stream.map fun stream => { stream with destroyed := true }
        socket := { s.socket with destroyed := true }
        calls := s.calls ++ [call] } := by
  unfold settle
  rw [if_neg (by simp [hs])]
  cases err with
  | some e => exact ⟨.onError e (bytesConfirmed s), nofun, by simp, rfl⟩
  | none => exact ⟨.onDone o.size, nofun, by simp [eq_comm], rfl⟩

theorem settle_settles (err : Option String) (s : DccSender) : (settle o err s).settled := by
  by_cases hs : s.settled
  · simp [settle, hs]
  · obtain ⟨_, _, _, hr⟩ := settle_cases (o := o) err s (by simpa using hs)
    rw [hr]

theorem settle_settled {err : Option String} (hs : s.settled) : settle o err s = s := by
  simp [settle, hs]

theorem Counts.settle (h : Counts o s) (err : Option String) : Counts o (settle o err s) := by
  by_cases hs : s.settled
  · rw [settle_settled hs]; exact h
  obtain ⟨call, hcall, -, hr⟩ := settle_cases (o := o) err s (by simpa using hs)
  have hp : (s.calls ++ [call]).filterMap Call.progress = progress s := by
    rw [progress_append]
    cases call with
    | onProgress n => exact absurd rfl (hcall n)
    | onDone n => simp [Call.progress]
    | onError e n => simp [Call.progress]
  rw [hr]
  refine { h with increasing := ?_, latest := ?_ }
  · rw [progress, hp]; exact h.increasing
  · rw [progress, hp]; exact h.latest

/-- How a send ends. -/
structure Ends (o : DccSendOptions) (s : DccSender) : Prop where
  destroyed : s.socket.destroyed = s.settled
  fresh : s.started = false → s.sent = o.offset
  left : ∀ stream, s.stream = some stream → s.started ∧ o.offset < o.size ∧
    (s.settled = false → s.sent + stream.left ≤ o.size)
  finished : s.settled = false → s.finishedReading → s.sent = o.size
  remote : s.socket.remoteEnded → s.wire = [] ∧
    (s.socket.broken = false → s.socket.writableLength ≤ s.unflushedAtEnd)
  done : ∀ n, .onDone n ∈ s.calls → s.settled ∧ s.finishedReading ∧ s.sent = o.size ∧
    ((s.confirmed = o.size ∧ (0 < s.noted ∨ s.ackBuf ≠ [])) ∨
      (s.noted = 0 ∧ s.socket.remoteEnded ∧ s.socket.closed ∧ s.socket.writableLength = 0))

theorem ends_create : Ends o (create o) where
  destroyed := rfl
  fresh := fun _ => rfl
  left := nofun
  finished := nofun
  remote := nofun
  done := nofun

theorem Ends.unsaid (h : Ends o s) (hs : s.settled = false) (n : Nat) : .onDone n ∉ s.calls :=
  fun hm => by
    have := (h.done n hm).1
    rw [hs] at this
    cases this

/-- The only way to be told of the end. -/
theorem Ends.settle (h : Ends o s) {err : Option String}
    (hdone : s.settled = false → err = none → s.finishedReading ∧ s.sent = o.size ∧
      ((s.confirmed = o.size ∧ (0 < s.noted ∨ s.ackBuf ≠ [])) ∨
        (s.noted = 0 ∧ s.socket.remoteEnded ∧ s.socket.closed ∧ s.socket.writableLength = 0))) :
    Ends o (settle o err s) := by
  by_cases hs : s.settled
  · rw [settle_settled hs]; exact h
  have hs' : s.settled = false := by simpa using hs
  obtain ⟨call, -, hcall, hr⟩ := settle_cases (o := o) err s hs'
  rw [hr]
  refine ⟨rfl, h.fresh, fun stream hst => ?_, nofun, h.remote, fun n hm => ?_⟩
  · obtain ⟨st, hst', rfl⟩ := Option.map_eq_some_iff.mp hst
    obtain ⟨hst, hlt, -⟩ := h.left st hst'
    exact ⟨hst, hlt, nofun⟩
  · rcases List.mem_append.mp hm with hm | hm
    · exact absurd hm (h.unsaid hs' n)
    · obtain ⟨herr, -⟩ := (hcall n).mp (List.mem_singleton.mp hm).symm
      exact ⟨rfl, hdone hs' herr⟩

/-- Reading ACKs ends nothing. -/
theorem Ends.notes (h : Ends o s) (hs : s.settled = false) {t : DccSender} (hn : Notes s t) :
    Ends o t where
  destroyed := by rw [hn.socket, hn.settled]; exact h.destroyed
  fresh := by rw [hn.started, hn.sent]; exact h.fresh
  left := by rw [hn.stream, hn.settled, hn.sent, hn.started]; exact h.left
  finished := by rw [hn.settled, hn.finishedReading, hn.sent]; exact h.finished
  remote := by rw [hn.socket, hn.wire, hn.unflushedAtEnd]; exact h.remote
  done := fun n hm => absurd ((hn.done n).mp hm) (h.unsaid hs n)

structure Kept (o : DccSendOptions) (s : DccSender) : Prop where
  counts : Counts o s
  ends : Ends o s

theorem kept_create (h : o.offset ≤ o.size) : Kept o (create o) := ⟨counts_create h, ends_create⟩

theorem Kept.settle_error (h : Kept o s) (e : String) : Kept o (settle o (some e) s) :=
  ⟨h.counts.settle _, h.ends.settle nofun⟩

theorem Kept.onData (h : Kept o s) (hs : s.settled = false) {chunk : Bytes} (hc : chunk ≠ []) :
    Kept o (onData o chunk s) := by
  have hn := noteAcks_notes (s.ackBuf ++ chunk) s
  obtain ⟨hnoted, hbuf⟩ := noteAcks_words (s.ackBuf ++ chunk) s
  have hk : Kept o (noteAcks (s.ackBuf ++ chunk) s) :=
    ⟨h.counts.noteAcks _, h.ends.notes hs hn⟩
  unfold Sender.onData
  dsimp only
  split
  · rename_i hall
    obtain ⟨hfin, hconf⟩ : (noteAcks (s.ackBuf ++ chunk) s).finishedReading = true ∧
        (noteAcks (s.ackBuf ++ chunk) s).confirmed = o.size := by
      simpa [confirmedAll] using hall
    refine ⟨hk.counts.settle none,
      hk.ends.settle fun hs' _ => ⟨hfin, hk.ends.finished hs' hfin, ?_⟩⟩
    refine .inl ⟨hconf, ?_⟩
    by_cases hw : (s.ackBuf ++ chunk).length / 4 = 0
    · rw [hbuf, hw]
      exact .inr (by simp [hc])
    · exact .inl (by omega)
  · exact hk

theorem Kept.onClose (h : Kept o s) (hcl : s.socket.closed)
    (hr : s.settled = false → s.socket.remoteEnded ∧ s.socket.broken = false) :
    Kept o (onClose o s) := by
  unfold Sender.onClose
  split
  · exact h
  rename_i hs
  have hs' : s.settled = false := by simpa using hs
  split
  · exact h.settle_error _
  rename_i hfin
  have hfin' : s.finishedReading = true := by simpa using hfin
  split
  · exact h.settle_error _
  rename_i hacks
  split
  · exact h.settle_error _
  rename_i hun
  refine ⟨h.counts.settle none, h.ends.settle fun _ _ => ⟨hfin', h.ends.finished hs' hfin', ?_⟩⟩
  obtain ⟨hrem, hbr⟩ := hr hs'
  by_cases ha : s.acks = true
  · exact .inl ⟨by_contra fun hne => hacks ⟨ha, hne⟩, .inl (h.counts.acks.mp ha)⟩
  · have hz : s.unflushedAtEnd = 0 := by
      by_contra hne
      exact hun ⟨ha, by omega⟩
    have hle := (h.ends.remote hrem).2 hbr
    have hnoted : s.noted = 0 := by
      by_contra hne
      exact ha (h.counts.acks.mpr (by omega))
    exact .inr ⟨hnoted, hrem, hcl, by omega⟩

theorem Socket.write_frame (n : Nat) (sock : Socket) :
    (sock.write highWaterMark n).1.destroyed = sock.destroyed ∧
    (sock.write highWaterMark n).1.remoteEnded = sock.remoteEnded ∧
    (sock.remoteEnded → (sock.write highWaterMark n).1.broken) := by
  unfold Socket.write
  split
  · exact ⟨rfl, rfl, fun _ => rfl⟩
  · rename_i hr
    exact ⟨rfl, rfl, fun h => absurd h hr⟩

/-- A read takes from what is left, and what was read is written to the socket. -/
theorem Kept.onRead (h : Kept o s) {stream : ReadStream} (hst : s.stream = some stream) {n : Nat}
    (hpos : 0 < n) (hn : n ≤ stream.left) :
    Kept o (onRead highWaterMark n
      { s with stream := some { stream with left := stream.left - n } }) := by
  obtain ⟨hstarted, hlt, hleft⟩ := h.ends.left stream hst
  unfold Sender.onRead
  split
  · rename_i hs
    have hs' : s.settled = true := hs
    refine ⟨{ h.counts with }, { h.ends with left := ?_ }⟩
    rintro st ⟨⟩
    exact ⟨hstarted, hlt, fun hf => by rw [hs'] at hf; cases hf⟩
  rename_i hs
  have hs' : s.settled = false := by simpa using hs
  have hroom := hleft hs'
  dsimp only
  -- the count of what was sent
  set s₁ : DccSender := { s with
    stream := some { stream with left := stream.left - n }
    sent := s.sent + n } with hs₁
  have hc₁ : Counts o s₁ :=
    { h.counts with
      credited := h.counts.credited.trans (Nat.le_add_right ..)
      bounded := show s.sent + n ≤ o.size by omega
      reported := h.counts.reported.trans (Nat.le_add_right ..) }
  have he₁ : Ends o s₁ :=
    { h.ends with
      fresh := fun hf => by rw [show s₁.started = s.started from rfl, hstarted] at hf; cases hf
      left := by
        rintro st ⟨⟩
        exact ⟨hstarted, hlt, fun _ => show s.sent + n + (stream.left - n) ≤ o.size by omega⟩
      finished := fun _ hf => by
        have := h.ends.finished hs' hf
        omega
      done := fun m hm => absurd hm (h.ends.unsaid hs' m) }
  -- what the caller hears
  have h₂ : Kept o (if s₁.acks then s₁ else report s₁.sent s₁) := by
    split
    · exact ⟨hc₁, he₁⟩
    · exact ⟨hc₁.report le_rfl, he₁.notes hs' (report_notes ..)⟩
  have hs₂ : (if s₁.acks then s₁ else report s₁.sent s₁).settled = false := by
    split
    · exact hs'
    · rw [(report_notes ..).settled]; exact hs'
  generalize (if s₁.acks then s₁ else report s₁.sent s₁) = s₂ at h₂ hs₂
  obtain ⟨hd, hre, hb⟩ := @Socket.write_frame highWaterMark n s₂.socket
  refine ⟨{ h₂.counts with }, ⟨hd.trans h₂.ends.destroyed, h₂.ends.fresh, fun st hst => ?_,
    h₂.ends.finished, fun hrem => ?_, fun m hm => absurd hm (h₂.ends.unsaid hs₂ m)⟩⟩
  · dsimp only at hst
    split at hst
    · exact h₂.ends.left st hst
    · obtain ⟨st', hst', rfl⟩ := Option.map_eq_some_iff.mp hst
      exact h₂.ends.left st' hst'
  · have hrem' : s₂.socket.remoteEnded = true := hre.symm.trans hrem
    refine ⟨(h₂.ends.remote hrem').1, fun hbr => ?_⟩
    rw [hb hrem'] at hbr
    cases hbr

theorem Kept.onReadEnd (h : Kept o s) {stream : ReadStream} (hst : s.stream = some stream) :
    Kept o (onReadEnd o { s with stream := some { stream with ended := true } }) := by
  obtain ⟨hstarted, hlt, hleft⟩ := h.ends.left stream hst
  have h₁ : Kept o { s with stream := some { stream with ended := true } } :=
    ⟨{ h.counts with }, { h.ends with left := by rintro st ⟨⟩; exact ⟨hstarted, hlt, hleft⟩ }⟩
  unfold Sender.onReadEnd
  split
  · exact h₁
  rename_i hs
  have hs' : s.settled = false := by simpa using hs
  set s₁ : DccSender := { s with stream := some { stream with ended := true } }
  have hc : Counts o { s₁ with finishedReading := true } := { h₁.counts with }
  change Kept o (if s.sent ≠ o.size then _ else _)
  split
  · -- an error, whatever the file's end
    have he : ∀ e, Kept o (settle o (some e) { s₁ with finishedReading := true }) := fun e => by
      have hk := h₁.settle_error e
      have hset : (settle o (some e) s₁).settled = true := settle_settles ..
      have hcomm : settle o (some e) { s₁ with finishedReading := true } =
          { settle o (some e) s₁ with finishedReading := true } := by
        unfold settle
        rw [if_neg (by simp [s₁, hs']), if_neg (by simp [s₁, hs'])]
        rfl
      rw [hcomm]
      refine ⟨{ hk.counts with }, { hk.ends with
        finished := fun hf => by rw [show _ = true from hset] at hf; cases hf
        done := fun m hm => ?_ }⟩
      obtain ⟨hs, -, hrest⟩ := hk.ends.done m hm
      exact ⟨hs, rfl, hrest⟩
    exact he _
  · rename_i hsize
    have hall : s.sent = o.size := by simpa using hsize
    have hk : Kept o { s₁ with finishedReading := true } :=
      ⟨hc, { h₁.ends with
        finished := fun _ _ => hall
        done := fun m hm => absurd hm (h₁.ends.unsaid hs' m) }⟩
    change Kept o (if s.confirmed = o.size then _ else _)
    split
    · rename_i hconf
      refine ⟨hk.counts.settle none, hk.ends.settle fun _ _ => ⟨rfl, hall, .inl ⟨hconf, .inl ?_⟩⟩⟩
      -- the last byte is past the offset, so an ACK confirmed it
      by_contra hz
      have := h.counts.unacked (show s.noted = 0 from Nat.eq_zero_of_not_pos hz)
      omega
    · exact ⟨{ hk.counts with }, { hk.ends with }⟩

theorem Kept.start (h : Kept o s) (hsize : o.offset ≤ o.size) : Kept o (start o s) := by
  unfold Sender.start
  split
  · exact h
  rename_i hst
  have hsent : s.sent = o.offset := h.ends.fresh (by simpa using hst)
  dsimp only
  split
  · rename_i hle
    refine ⟨{ h.counts with },
      { h.ends with fresh := nofun, left := ?_, finished := ?_, done := ?_ }⟩
    · intro st hst'
      obtain ⟨-, hlt, hleft⟩ := h.ends.left st hst'
      exact ⟨rfl, hlt, hleft⟩
    · exact fun _ _ => hsent.trans (le_antisymm hsize hle)
    · intro n hm
      obtain ⟨hs, -, hrest⟩ := h.ends.done n hm
      exact ⟨hs, rfl, hrest⟩
  · rename_i hlt
    refine ⟨{ h.counts with }, { h.ends with fresh := nofun, left := ?_ }⟩
    rintro st ⟨⟩
    exact ⟨rfl, by omega, fun _ => show s.sent + (o.size - o.offset) ≤ o.size by omega⟩

/-- What the receiver writes, it writes before it ends its side. -/
theorem Kept.ack (h : Kept o s) (count : Nat) : Kept o (Sender.step highWaterMark o s (.ack count)) := by
  unfold Sender.step
  dsimp only
  split
  · exact h
  · rename_i hr
    exact ⟨{ h.counts with }, { h.ends with remote := fun hr' => absurd hr' hr }⟩

theorem Kept.junk (h : Kept o s) (bytes : Bytes) :
    Kept o (Sender.step highWaterMark o s (.junk bytes)) := by
  unfold Sender.step
  dsimp only
  split
  · exact h
  · rename_i hr
    exact ⟨{ h.counts with }, { h.ends with remote := fun hr' => absurd hr' hr }⟩

theorem Kept.remoteEnd (h : Kept o s) : Kept o (Sender.step highWaterMark o s .remoteEnd) := by
  unfold Sender.step
  dsimp only
  split
  · rename_i hl
    obtain ⟨hl, hw⟩ : listens s = true ∧ s.wire = [] := by simpa using hl
    refine ⟨{ h.counts with },
      { h.ends with remote := fun _ => ⟨hw, fun _ => le_rfl⟩, done := fun n hm => ?_ }⟩
    obtain ⟨hs, hf, hsent, hwhy⟩ := h.ends.done n hm
    exact ⟨hs, hf, hsent, hwhy.imp id fun ⟨hn, _, hcl, hz⟩ => ⟨hn, rfl, hcl, hz⟩⟩
  · exact h

theorem Kept.data (h : Kept o s) (n : Nat) : Kept o (Sender.step highWaterMark o s (.data n)) := by
  unfold Sender.step
  dsimp only
  split
  · rename_i hl
    obtain ⟨hl, hw⟩ : listens s = true ∧ s.wire.take n ≠ [] := by simpa using hl
    have hs : s.settled = false := by
      rw [← h.ends.destroyed]
      simp only [listens, Bool.and_eq_true, Bool.not_eq_true'] at hl
      exact hl.1.2
    refine Kept.onData (s := { s with wire := s.wire.drop n }) ⟨{ h.counts with }, ?_⟩ hs hw
    refine { h.ends with remote := fun hr => ⟨?_, (h.ends.remote hr).2⟩ }
    simp [(h.ends.remote hr).1]
  · exact h

/-- A flush only lessens what is unflushed. -/
theorem Kept.flush (h : Kept o s) (n : Nat) : Kept o (Sender.step highWaterMark o s (.flush n)) := by
  refine ⟨{ h.counts with }, { h.ends with remote := fun hr => ?_, done := fun m hm => ?_ }⟩
  · obtain ⟨hw, hle⟩ := h.ends.remote hr
    exact ⟨hw, fun hb => (Nat.sub_le ..).trans (hle hb)⟩
  · obtain ⟨hs, hf, hsent, hwhy⟩ := h.ends.done m hm
    refine ⟨hs, hf, hsent, hwhy.imp id fun ⟨hn, hr, hcl, hz⟩ => ⟨hn, hr, hcl, ?_⟩⟩
    change s.socket.writableLength - n = 0
    omega

theorem Kept.drain (h : Kept o s) : Kept o (Sender.step highWaterMark o s .drain) := by
  unfold Sender.step
  dsimp only
  split
  · split
    · exact ⟨{ h.counts with }, { h.ends with }⟩
    · refine ⟨{ h.counts with }, { h.ends with left := fun st hst => ?_ }⟩
      obtain ⟨st', hst', rfl⟩ := Option.map_eq_some_iff.mp hst
      exact h.ends.left st' hst'
  · exact h

/-- What an event does that can only end the transfer with an error. -/
theorem Kept.error (h : Kept o s) (c : Prop) [Decidable c] (e : String) :
    Kept o (if c then settle o (some e) s else s) := by
  split
  · exact h.settle_error e
  · exact h

theorem Kept.close (h : Kept o s) : Kept o (Sender.step highWaterMark o s .close) := by
  unfold Sender.step
  dsimp only
  split
  · rename_i hc
    refine Kept.onClose (s := { s with socket := { s.socket with closed := true } })
      ⟨{ h.counts with }, { h.ends with done := fun n hm => ?_ }⟩ rfl fun hs => ?_
    · obtain ⟨hs, hf, hsent, hwhy⟩ := h.ends.done n hm
      exact ⟨hs, hf, hsent, hwhy.imp id fun ⟨hn, hr, _, hz⟩ => ⟨hn, hr, rfl, hz⟩⟩
    · have hd : s.socket.destroyed = false := h.ends.destroyed.trans hs
      obtain ⟨-, hr, hb⟩ : s.started ∧ s.socket.remoteEnded ∧ s.socket.broken = false := by
        simpa [hd] using hc
      exact ⟨hr, hb⟩
  · exact h

theorem Kept.read (h : Kept o s) (n : Nat) : Kept o (Sender.step highWaterMark o s (.read n)) := by
  unfold Sender.step
  cases hst : s.stream with
  | none => exact h
  | some stream =>
    dsimp only
    split
    · rename_i hn
      exact h.onRead hst hn.2.1 hn.2.2
    · exact h

theorem Kept.readEnd (h : Kept o s) : Kept o (Sender.step highWaterMark o s .readEnd) := by
  unfold Sender.step
  cases hst : s.stream with
  | none => exact h
  | some stream =>
    dsimp only
    split
    · exact h.onReadEnd hst
    · exact h

theorem Kept.graceOver (h : Kept o s) : Kept o (Sender.step highWaterMark o s .graceOver) := by
  unfold Sender.step
  dsimp only
  split
  · split
    · exact ⟨{ h.counts with }, { h.ends with }⟩
    · exact ⟨{ h.counts with }, { h.ends with }⟩
  · exact ⟨{ h.counts with }, { h.ends with }⟩
  · exact h

/-- Every event keeps the counts and the ends, whatever the receiver writes. -/
theorem Kept.step (h : Kept o s) (hsize : o.offset ≤ o.size) (e : Event) :
    Kept o (step highWaterMark o s e) := by
  cases e with
  | start => exact h.start hsize
  | ack count => exact h.ack count
  | junk bytes => exact h.junk bytes
  | remoteEnd => exact h.remoteEnd
  | data n => exact h.data n
  | flush n => exact h.flush n
  | drain => exact h.drain
  | socketError e => exact h.error (s.started = true) e
  | timeout => exact h.error (s.socket.timeoutMs ≠ 0) _
  | close => exact h.close
  | read n => exact h.read n
  | readEnd => exact h.readEnd
  | readError e => exact h.error (s.stream.isSome = true) e
  | graceOver => exact h.graceOver
  | cancel => exact h.settle_error "cancelled"

theorem kept_run (h : o.offset ≤ o.size) (es : List Event) : Kept o (run highWaterMark o es) :=
  Run.invariant _ (kept_create h) (fun _ e hk => hk.step h e) es

def encodeAcks (counts : List Nat) : Bytes := counts.flatMap fun c => uint32BE (c % ackModulus)

/-- The counts whose ACK is whole once these bytes are there. -/
def completed (s : DccSender) (chunk : Bytes) : List Nat :=
  (s.acked.drop s.noted).take ((s.ackBuf ++ chunk).length / 4)

/-- The receiver acknowledges what it has, and is not 2^32 bytes behind. -/
def Honest (o : DccSendOptions) (s : DccSender) : Event → Prop
  | .ack count => o.offset ≤ count ∧ count ≤ s.sent ∧ ∀ c ∈ s.acked, c ≤ count
  | .junk _ => False
  | .data n => ∀ c ∈ completed s (s.wire.take n), s.sent < c + ackModulus
  | _ => True

instance decidableHonest (s : DccSender) : ∀ e, Decidable (Honest o s e)
  | .ack count =>
    inferInstanceAs (Decidable (o.offset ≤ count ∧ count ≤ s.sent ∧ ∀ c ∈ s.acked, c ≤ count))
  | .data n =>
    inferInstanceAs (Decidable (∀ c ∈ completed s (s.wire.take n), s.sent < c + ackModulus))
  | .junk _ => .isFalse id
  | .start | .remoteEnd | .flush _ | .drain | .socketError _ | .timeout | .close | .read _
  | .readEnd | .readError _ | .graceOver | .cancel => .isTrue trivial

/-- What we know of the receiver is what it said. -/
structure Tracks (o : DccSendOptions) (s : DccSender) : Prop where
  short : s.ackBuf.length < 4
  pending : s.ackBuf ++ s.wire = encodeAcks (s.acked.drop s.noted)
  confirmed : s.confirmed = (s.acked.take s.noted).foldl max o.offset
  ordered : s.acked.Pairwise (· ≤ ·)
  had : ∀ c ∈ s.acked, o.offset ≤ c ∧ c ≤ s.sent
  within : s.noted ≤ s.acked.length

theorem tracks_create : Tracks o (create o) where
  short := Nat.zero_lt_succ _
  pending := rfl
  confirmed := rfl
  ordered := .nil
  had := nofun
  within := le_rfl

theorem read_uint32BE {n : Nat} (hn : n < ackModulus) :
    readUInt32BE (UInt8.ofNat (n / 16777216)) (UInt8.ofNat (n / 65536)) (UInt8.ofNat (n / 256))
      (UInt8.ofNat n) = n := by
  simp only [readUInt32BE, UInt8.toNat_ofNat', ackModulus] at *
  omega

/-- The words of what was read are the counts modulo 2^32, as far as it goes. -/
theorem words_encodeAcks (cs : List Nat) {bytes rest : Bytes} (hb : bytes ++ rest = encodeAcks cs) :
    bytes.length / 4 ≤ cs.length ∧
    words bytes = (cs.take (bytes.length / 4)).map (· % ackModulus) ∧
    bytes.drop (4 * (bytes.length / 4)) ++ rest = encodeAcks (cs.drop (bytes.length / 4)) := by
  induction cs generalizing bytes with
  | nil =>
    obtain ⟨rfl, rfl⟩ := List.append_eq_nil_iff.mp hb
    exact ⟨le_rfl, rfl, rfl⟩
  | cons c cs ih =>
    match bytes with
    | [] | [_] | [_, _] | [_, _, _] => simpa [words] using hb
    | w :: x :: y :: z :: bytes =>
      generalize hword : c % ackModulus = word
      obtain ⟨hw, hx, hy, hz, hb'⟩ :
          w = UInt8.ofNat (word / 16777216) ∧ x = UInt8.ofNat (word / 65536) ∧
          y = UInt8.ofNat (word / 256) ∧ z = UInt8.ofNat word ∧ bytes ++ rest = encodeAcks cs := by
        simpa [encodeAcks, uint32BE, hword] using hb
      have hlen : (w :: x :: y :: z :: bytes).length / 4 = bytes.length / 4 + 1 := by
        simp only [List.length_cons]; omega
      obtain ⟨hle, hwords, hdrop⟩ := ih hb'
      rw [hlen]
      refine ⟨Nat.succ_le_succ hle, ?_, ?_⟩
      · have hread : readUInt32BE w x y z = word := by
          rw [hw, hx, hy, hz]
          exact read_uint32BE (hword ▸ Nat.mod_lt _ (by decide))
        rw [words, hread, hwords, List.take_succ_cons, List.map_cons, hword]
      · rw [Nat.mul_add]
        exact hdrop

/-- Honest ACKs are credited one after the other. -/
theorem foldl_honest (cs : List Nat) (s : DccSender)
    (hc : ∀ c ∈ cs, c ≤ s.sent ∧ s.sent < c + ackModulus) :
    ((cs.map (· % ackModulus)).foldl (fun s ack => noteAck ack s) s).confirmed =
      cs.foldl max s.confirmed := by
  induction cs generalizing s with
  | nil => rfl
  | cons c cs ih =>
    obtain ⟨hle, hnear⟩ := hc c List.mem_cons_self
    rw [List.map_cons, List.foldl_cons, ih, noteAck_confirmed hle hnear]
    · rfl
    · rw [(noteAck_notes _ s).sent]
      exact fun d hd => hc d (List.mem_cons_of_mem _ hd)

/-- The fields of the receiver are as they were, and no less was sent. -/
theorem Tracks.of_eq (h : Tracks o s) {t : DccSender} (ha : t.acked = s.acked)
    (hw : t.wire = s.wire) (hb : t.ackBuf = s.ackBuf) (hn : t.noted = s.noted)
    (hc : t.confirmed = s.confirmed) (hs : s.sent ≤ t.sent) : Tracks o t where
  short := by rw [hb]; exact h.short
  pending := by rw [hb, hw, ha, hn]; exact h.pending
  confirmed := by rw [hc, ha, hn]; exact h.confirmed
  ordered := by rw [ha]; exact h.ordered
  had := by
    rw [ha]
    exact fun c hm => ⟨(h.had c hm).1, (h.had c hm).2.trans hs⟩
  within := by rw [hn, ha]; exact h.within

theorem Tracks.settle (h : Tracks o s) (err : Option String) : Tracks o (settle o err s) := by
  by_cases hs : s.settled
  · rw [settle_settled hs]; exact h
  · obtain ⟨_, _, _, hr⟩ := settle_cases (o := o) err s (by simpa using hs)
    rw [hr]
    exact h.of_eq rfl rfl rfl rfl rfl le_rfl

theorem Tracks.onData (h : Tracks o s) {n : Nat}
    (hnear : ∀ c ∈ completed s (s.wire.take n), s.sent < c + ackModulus) :
    Tracks o (onData o (s.wire.take n) { s with wire := s.wire.drop n }) := by
  have hbytes : (s.ackBuf ++ s.wire.take n) ++ s.wire.drop n =
      encodeAcks (s.acked.drop s.noted) := by
    rw [List.append_assoc, List.take_append_drop]
    exact h.pending
  obtain ⟨hle, hwords, hbuf⟩ := words_encodeAcks _ hbytes
  obtain ⟨hnoted, hrest⟩ := noteAcks_words (s.ackBuf ++ s.wire.take n)
    { s with wire := s.wire.drop n }
  have hconf := foldl_honest (completed s (s.wire.take n)) { s with wire := s.wire.drop n }
    fun c hc => ⟨(h.had c (List.mem_of_mem_drop (List.mem_of_mem_take hc))).2, hnear c hc⟩
  have hn := noteAcks_notes (s.ackBuf ++ s.wire.take n) { s with wire := s.wire.drop n }
  set k := (s.ackBuf ++ s.wire.take n).length / 4 with hk
  set t := noteAcks (s.ackBuf ++ s.wire.take n) { s with wire := s.wire.drop n }
  have ht : Tracks o t := by
    constructor
    · rw [hrest, List.length_drop]; omega
    · rw [hn.wire, hn.acked, hnoted, hrest]
      change _ = encodeAcks (s.acked.drop (s.noted + k))
      rw [← List.drop_drop]
      exact hbuf
    · have ht : t.confirmed = (completed s (s.wire.take n)).foldl max s.confirmed := by
        rw [← hconf, completed, ← hwords]
        rfl
      rw [ht, hn.acked, hnoted, h.confirmed, ← List.foldl_append]
      change _ = (s.acked.take (s.noted + k)).foldl max o.offset
      rw [List.take_add]
      rfl
    · rw [hn.acked]; exact h.ordered
    · rw [hn.acked, hn.sent]; exact h.had
    · rw [hn.acked, hnoted]
      have := h.within
      rw [List.length_drop] at hle
      change s.noted + k ≤ s.acked.length
      omega
  change Tracks o (if confirmedAll o t then Sender.settle o none t else t)
  split
  · exact ht.settle none
  · exact ht

theorem Tracks.ack (h : Tracks o s) {count : Nat}
    (hc : o.offset ≤ count ∧ count ≤ s.sent ∧ ∀ c ∈ s.acked, c ≤ count) :
    Tracks o { s with
      acked := s.acked ++ [count], wire := s.wire ++ uint32BE (count % ackModulus) } := by
  constructor
  · exact h.short
  · change s.ackBuf ++ (s.wire ++ uint32BE (count % ackModulus)) =
      encodeAcks ((s.acked ++ [count]).drop s.noted)
    rw [← List.append_assoc, h.pending, List.drop_append_of_le_length h.within]
    simp [encodeAcks]
  · change s.confirmed = ((s.acked ++ [count]).take s.noted).foldl max o.offset
    rw [List.take_append_of_le_length h.within]
    exact h.confirmed
  · refine List.pairwise_append.mpr ⟨h.ordered, List.pairwise_singleton .., fun c hm d hd => ?_⟩
    obtain rfl := List.mem_singleton.mp hd
    exact hc.2.2 c hm
  · intro c hm
    rcases List.mem_append.mp hm with hm | hm
    · exact h.had c hm
    · obtain rfl := List.mem_singleton.mp hm
      exact ⟨hc.1, hc.2.1⟩
  · change s.noted ≤ (s.acked ++ [count]).length
    rw [List.length_append]
    exact h.within.trans (Nat.le_add_right ..)

theorem Tracks.onClose (h : Tracks o s) : Tracks o (onClose o s) := by
  unfold Sender.onClose
  split
  · exact h
  split
  · exact h.settle _
  split
  · exact h.settle _
  split
  · exact h.settle _
  · exact h.settle none

theorem Tracks.onRead (h : Tracks o s) (n : Nat) : Tracks o (onRead highWaterMark n s) := by
  unfold Sender.onRead
  split
  · exact h
  · have hn := report_notes (s.sent + n) { s with sent := s.sent + n }
    obtain ⟨-, hnoted, hconf, hbuf⟩ := report_counts (s.sent + n) { s with sent := s.sent + n }
    have hsent : Tracks o { s with sent := s.sent + n } :=
      h.of_eq rfl rfl rfl rfl rfl (Nat.le_add_right ..)
    have hrep : Tracks o (if s.acks then { s with sent := s.sent + n }
        else report (s.sent + n) { s with sent := s.sent + n }) := by
      split
      · exact hsent
      · exact hsent.of_eq hn.acked hn.wire hbuf hnoted hconf hn.sent.ge
    exact hrep.of_eq rfl rfl rfl rfl rfl le_rfl

theorem Tracks.onReadEnd (h : Tracks o s) : Tracks o (onReadEnd o s) := by
  have hf : Tracks o { s with finishedReading := true } := h.of_eq rfl rfl rfl rfl rfl le_rfl
  unfold Sender.onReadEnd
  split
  · exact h
  dsimp only
  split
  · exact hf.settle _
  split
  · exact hf.settle none
  · exact hf.of_eq rfl rfl rfl rfl rfl le_rfl

theorem Tracks.start (h : Tracks o s) : Tracks o (start o s) := by
  unfold Sender.start
  split
  · exact h
  dsimp only
  split <;> exact h.of_eq rfl rfl rfl rfl rfl le_rfl

/-- An honest receiver is known as it is, whatever else happens in between. -/
theorem Tracks.step (h : Tracks o s) {e : Event} (he : Honest o s e) :
    Tracks o (step highWaterMark o s e) := by
  cases e with
  | start => exact h.start
  | ack count =>
    unfold Sender.step
    dsimp only
    split
    · exact h
    · exact h.ack he
  | junk bytes => exact he.elim
  | remoteEnd =>
    unfold Sender.step
    dsimp only
    split
    · exact h.of_eq rfl rfl rfl rfl rfl le_rfl
    · exact h
  | data n =>
    unfold Sender.step
    dsimp only
    split
    · exact h.onData he
    · exact h
  | flush n => exact h.of_eq rfl rfl rfl rfl rfl le_rfl
  | drain =>
    unfold Sender.step
    dsimp only
    split
    · split <;> exact h.of_eq rfl rfl rfl rfl rfl le_rfl
    · exact h
  | socketError e =>
    unfold Sender.step
    dsimp only
    split
    · exact h.settle _
    · exact h
  | timeout =>
    unfold Sender.step
    dsimp only
    split
    · exact h.settle _
    · exact h
  | close =>
    unfold Sender.step
    dsimp only
    split
    · exact Tracks.onClose (h.of_eq rfl rfl rfl rfl rfl le_rfl)
    · exact h
  | read n =>
    unfold Sender.step
    cases s.stream with
    | none => exact h
    | some stream =>
      dsimp only
      split
      · refine Tracks.onRead ?_ n
        exact h.of_eq rfl rfl rfl rfl rfl le_rfl
      · exact h
  | readEnd =>
    unfold Sender.step
    cases s.stream with
    | none => exact h
    | some stream =>
      dsimp only
      split
      · exact Tracks.onReadEnd (h.of_eq rfl rfl rfl rfl rfl le_rfl)
      · exact h
  | readError e =>
    unfold Sender.step
    dsimp only
    split
    · exact h.settle _
    · exact h
  | graceOver =>
    unfold Sender.step
    dsimp only
    split
    · split <;> exact h.of_eq rfl rfl rfl rfl rfl le_rfl
    · exact h.of_eq rfl rfl rfl rfl rfl le_rfl
    · exact h
  | cancel => exact h.settle (some "cancelled")

theorem tracks_run {es : List Event}
    (hh : Run.Within (step highWaterMark o) (Honest o) (create o) es) :
    Tracks o (run highWaterMark o es) :=
  Run.invariant_within _ tracks_create (fun _ _ h he => h.step he) es hh

theorem foldl_max_le {cs : List Nat} {m n : Nat} (hm : m ≤ n) (hc : ∀ c ∈ cs, c ≤ n) :
    cs.foldl max m ≤ n := by
  induction cs generalizing m with
  | nil => exact hm
  | cons c cs ih =>
    exact ih (max_le hm (hc c List.mem_cons_self)) fun d hd => hc d (List.mem_cons_of_mem _ hd)

theorem encodeAcks_length (cs : List Nat) : (encodeAcks cs).length = 4 * cs.length := by
  induction cs with
  | nil => rfl
  | cons c cs ih =>
    have : (encodeAcks (c :: cs)).length = 4 + (encodeAcks cs).length := by
      simp [encodeAcks, uint32BE]
      omega
    rw [this, ih, List.length_cons]
    omega

/-- Everything confirmed means that the last ACK was for everything. -/
theorem Tracks.last (h : Tracks o s) (hb : s.sent ≤ o.size) (hconf : s.confirmed = o.size)
    (hne : s.acked ≠ []) : s.acked.getLast? = some o.size := by
  rw [List.getLast?_eq_some_getLast hne]
  have hlast := List.getLast_mem hne
  have hle : s.acked.getLast hne ≤ o.size := (h.had _ hlast).2.trans hb
  have hall : ∀ c ∈ s.acked, c ≤ s.acked.getLast hne := by
    intro c hc
    have hp := h.ordered
    rw [← List.dropLast_append_getLast hne] at hc hp
    rcases List.mem_append.mp hc with hc | hc
    · exact (List.pairwise_append.mp hp).2.2 c hc _ (List.mem_singleton_self _)
    · exact (List.mem_singleton.mp hc).le
  have hge : o.size ≤ s.acked.getLast hne := by
    rw [← hconf, h.confirmed]
    exact foldl_max_le (h.had _ hlast).1 fun c hc => hall c (List.mem_of_mem_take hc)
  exact congrArg some (le_antisymm hle hge)

/-- Whatever the receiver writes, no more is confirmed than was sent, the progress goes up to the
size, and done comes after the read. From an honest receiver, what is confirmed is what it
acknowledged, and done is its word for the whole file, or its silent end after all of it. -/
theorem progress_confirmed (highWaterMark : Nat) (o : DccSendOptions) (hsize : o.offset ≤ o.size)
    (es : List Event) :
    let s := run highWaterMark o es
    s.confirmed ≤ s.sent ∧ (progress s).Pairwise (· ≤ ·) ∧ (∀ n ∈ progress s, n ≤ o.size) ∧
    (∀ n, .onDone n ∈ s.calls → s.finishedReading ∧ s.sent = o.size) ∧
    (Run.Within (step highWaterMark o) (Honest o) (create o) es →
      s.ackBuf.length < 4 ∧ s.ackBuf ++ s.wire = encodeAcks (s.acked.drop s.noted) ∧
      s.confirmed = (s.acked.take s.noted).foldl max o.offset ∧
      ∀ n, .onDone n ∈ s.calls →
        s.acked.getLast? = some o.size ∨
        (s.acked = [] ∧ s.finishedReading ∧ s.sent = o.size ∧
          s.socket.remoteEnded ∧ s.socket.closed ∧ s.socket.writableLength = 0)) := by
  intro s
  have hk : Kept o s := kept_run hsize es
  refine ⟨hk.counts.credited, hk.counts.increasing.imp fun h => h.le, fun n hn => ?_,
    fun n hm => ?_, fun hh => ?_⟩
  · exact ((hk.counts.latest n hn).trans hk.counts.reported).trans hk.counts.bounded
  · obtain ⟨-, hf, hs, -⟩ := hk.ends.done n hm
    exact ⟨hf, hs⟩
  have ht : Tracks o s := tracks_run hh
  refine ⟨ht.short, ht.pending, ht.confirmed, fun n hm => ?_⟩
  obtain ⟨-, hf, hs, ⟨hconf, hsome⟩ | ⟨hn, hr, hc, hw⟩⟩ := hk.ends.done n hm
  · left
    refine ht.last hk.counts.bounded hconf fun hnil => ?_
    rcases hsome with hpos | hbuf
    · have := ht.within
      rw [hnil, List.length_nil] at this
      omega
    · have := ht.pending
      rw [hnil, List.drop_nil] at this
      exact hbuf (List.append_eq_nil_iff.mp this).1
  · right
    have hwire := (hk.ends.remote hr).1
    have hlen := congrArg List.length ht.pending
    rw [hwire, List.append_nil, hn, List.drop_zero, encodeAcks_length] at hlen
    have hshort := ht.short
    exact ⟨List.eq_nil_of_length_eq_zero (by omega), hf, hs, hr, hc, hw⟩

/-- A file of 4 bytes, the ACK of which comes in two pieces before the end of the read. -/
theorem progress_confirmed_pieces :
    (run 16384 ⟨4, none, none⟩ [.start, .read 4, .ack 4, .data 3, .data 1, .readEnd]).confirmed =
      4 :=
  ((progress_confirmed 16384 ⟨4, none, none⟩ (by decide)
    [.start, .read 4, .ack 4, .data 3, .data 1, .readEnd]).2.2.2.2 (by decide +kernel)).2.2.1.trans
    (by decide +kernel)

end Lurker.Dcc.Sender
