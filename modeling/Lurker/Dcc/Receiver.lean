import Lurker.Lib.Crc32
import Lurker.Lib.Run
import Lurker.Lib.WriteStream

/-!
# Receiving a file

One socket into one file. The socket, the file and the caller act in any order, and one flag says
who settled the transfer. A transfer is settled as complete when its last byte is accepted; what
the file makes of the bytes is known later.
-/

namespace Lurker.Dcc.Receiver

abbrev Bytes := List UInt8

structure DccReceiveOptions where
  /-- A connection the sender made to us is there already. -/
  provided : Bool
  /-- 0 is unknown. -/
  size : Nat
  startOffset : Option Nat
  idleTimeoutMs : Option Nat

def DccReceiveOptions.offset (o : DccReceiveOptions) : Nat := o.startOffset.getD 0

structure Socket where
  connected : Bool
  paused : Bool
  ended : Bool
  closed : Bool
  timeoutMs : Nat
  /-- What was written to it. -/
  acks : List Bytes
  deriving DecidableEq

/-- What the caller is told. -/
inductive Call
  | onProgress (received : Nat)
  | onDone (received : Nat) (crc : UInt32)
  | onError (err : String) (received : Nat)
  deriving DecidableEq

def Call.isVerdict : Call → Bool
  | .onProgress _ => false
  | .onDone _ _ => true
  | .onError _ _ => true

structure DccReceiver where
  socket : Option Socket
  out : Option WriteStream
  received : Nat
  crc : UInt32
  settled : Bool
  /-- What the peer has not sent yet. -/
  coming : Bytes
  calls : List Call
  deriving DecidableEq

/-- The constructor. The peer sends the bytes of `stream` from the offset on. -/
def create (o : DccReceiveOptions) (stream : Bytes) : DccReceiver where
  socket := none
  out := none
  received := o.offset
  crc := 0
  settled := false
  coming := stream.drop o.offset
  calls := []

variable (highWaterMark : Nat) (o : DccReceiveOptions)

def idleTimeout : Nat := o.idleTimeoutMs.getD 60000

def finish (err : Option String) (s : DccReceiver) : DccReceiver :=
  match err with
  | some e => { s with calls := s.calls ++ [.onError e s.received] }
  | none => { s with calls := s.calls ++ [.onDone s.received s.crc] }

def closeSocket (err : Option String) (sock : Socket) : Socket :=
  match err with
  | some _ => { sock with closed := true }
  -- end() lets the last ACK out
  | none => { sock with ended := true }

def settle (err : Option String) (s : DccReceiver) : DccReceiver :=
  if s.settled then s
  else
    let s := { s with settled := true, socket := s.socket.map (closeSocket err) }
    match err, s.out with
    | some _, out => finish err { s with out := out.map WriteStream.destroy }
    | none, some out => { s with out := some out.end }
    | none, none => finish none s

/-- A count as four bytes, the high byte first. -/
def uint32BE (n : Nat) : Bytes :=
  [UInt8.ofNat (n / 16777216), UInt8.ofNat (n / 65536), UInt8.ofNat (n / 256), UInt8.ofNat n]

/-- The part of a chunk within the advertised size. -/
def capped (s : DccReceiver) (chunk : Bytes) : Bytes :=
  if o.size > 0 then chunk.take (o.size - s.received) else chunk

/-- The last byte of a known size is there. -/
def reached (received : Nat) : Bool := decide (o.size > 0) && decide (received ≥ o.size)

/-- `data` taken from the socket: counted, hashed, handed to the file and acknowledged. -/
def accept (out : WriteStream) (sock : Socket) (data : Bytes) (s : DccReceiver) : DccReceiver :=
  let received := s.received + data.length
  let (out, ok) := out.write highWaterMark data
  -- the disk is behind: no reads, and no idle timeout meanwhile
  let sock := if ok then sock else { sock with timeoutMs := 0, paused := true }
  { s with
    received := received
    crc := Crc32.update s.crc data
    out := some out
    socket := some { sock with acks := sock.acks ++ [uint32BE (received % 4294967296)] }
    calls := s.calls ++ [.onProgress received] }

/-- After `onProgress`, within which the caller may cancel. -/
def afterProgress (cancels : Bool) (s : DccReceiver) : DccReceiver :=
  let s := if cancels then settle (some "cancelled") s else s
  if reached o s.received then settle none s else s

def onData (cancels : Bool) (chunk : Bytes) (s : DccReceiver) : DccReceiver :=
  match s.out, s.socket with
  | some out, some sock =>
    if s.settled then s
    -- already have the whole file
    else if reached o s.received then s
    else afterProgress o cancels (accept highWaterMark out sock (capped o s chunk) s)
  | _, _ => s

inductive Event
  | start
  /-- A dialled socket is ready. -/
  | ready
  | data (n : Nat) (cancels : Bool)
  | timeout
  | socketError (e : String)
  | close
  | cancel
  -- the file
  | open
  | reach (n : Nat)
  | fail (e : String)
  | outError
  | drain
  | endCallback

/-- The file is opened once connected, and the socket held until it is open. -/
def onConnected (sock : Socket) (s : DccReceiver) : DccReceiver :=
  { s with
    socket := some { sock with connected := true, paused := true }
    out := some (WriteStream.create o.offset) }

def start (s : DccReceiver) : DccReceiver :=
  match s.socket with
  | some _ => s
  | none =>
    let sock := ⟨false, false, false, false, idleTimeout o, []⟩
    if o.provided then onConnected o sock s else { s with socket := some sock }

def Socket.flows (sock : Socket) : Bool := sock.connected && !sock.paused && !sock.closed

/-- A close counts as the end of the file. -/
def complete (received : Nat) : Bool :=
  if o.size > 0 then decide (received ≥ o.size) else decide (received > 0)

def onClose (s : DccReceiver) : DccReceiver :=
  if s.settled then s
  else
    let err := if complete o s.received then none
      else some "connection closed before the transfer completed"
    settle err s

/-- What the stream's events do to it. -/
def onOut (f : WriteStream → WriteStream) (s : DccReceiver) : DccReceiver :=
  { s with out := s.out.map f }

def resume (s : DccReceiver) : DccReceiver :=
  if s.settled then s
  else { s with socket := s.socket.map fun sock => { sock with paused := false } }

/-- One event. One that cannot happen where it stands changes nothing. -/
def step (s : DccReceiver) : Event → DccReceiver
  | .start => start o s
  | .ready =>
    match s.socket with
    | some sock => if sock.connected || sock.closed then s else onConnected o sock s
    | none => s
  | .data n cancels =>
    if s.socket.any (·.flows) then
      onData highWaterMark o cancels (s.coming.take n) { s with coming := s.coming.drop n }
    else s
  | .timeout =>
    if s.socket.any (·.timeoutMs ≠ 0) then settle (some "DCC transfer timed out") s else s
  | .socketError e => if s.socket.isSome then settle (some e) s else s
  | .close =>
    if s.socket.isSome then
      onClose o { s with socket := s.socket.map fun sock => { sock with closed := true } }
    else s
  | .cancel => settle (some "cancelled") s
  | .open =>
    if s.out.any (fun out => !out.opened && out.failure.isNone) then
      resume (onOut WriteStream.open s)
    else s
  | .reach n => onOut (·.reach n) s
  | .fail e => onOut (·.fail e) s
  | .outError =>
    match s.out.bind (·.failure) with
    | some e => settle (some e) s
    | none => s
  | .drain =>
    if s.out.any (fun out => out.needDrain && out.pending.isEmpty && out.failure.isNone) then
      let s := onOut (fun out => { out with needDrain := false }) s
      if s.settled then s
      else
        { s with
          socket := s.socket.map fun sock =>
            { sock with timeoutMs := idleTimeout o, paused := false } }
    else s
  | .endCallback =>
    if s.out.any (·.endDue) then finish none (onOut (fun out => { out with ending := false }) s)
    else s

def run (stream : Bytes) (es : List Event) : DccReceiver :=
  Run.after (step highWaterMark o) (create o stream) es

def handed (s : DccReceiver) : Bytes := (s.out.map (·.handed)).getD []

def written (s : DccReceiver) : Bytes := (s.out.map (·.written)).getD []

/-- The file has bytes to write yet, or an error to report, before the caller is told. -/
def flushing (s : DccReceiver) : Bool := s.out.any (·.ending)

def verdicts (s : DccReceiver) : List Call := s.calls.filter (·.isVerdict)

structure Promised (stream : Bytes) (s : DccReceiver) : Prop where
  /-- One verdict once settled, that of a complete transfer when the file is flushed. -/
  once : (verdicts s).length = if s.settled && !flushing s then 1 else 0
  told : flushing s → s.out.any (·.endDue) →
    (verdicts (step highWaterMark o s .endCallback)).length = 1
  bounded : o.size > 0 → s.received ≤ o.size
  counted : s.received = o.offset + (handed s).length
  inOrder : handed s <+: stream.drop o.offset
  placed : ∀ out, s.out = some out → out.start = o.offset
  crc : s.crc = Crc32.crc32 (handed s)
  whole : ∀ n c, .onDone n c ∈ s.calls →
    n = s.received ∧ c = s.crc ∧ written s = handed s ∧ (o.size > 0 → s.received = o.size)

@[simp] theorem finish_fields (err : Option String) (s : DccReceiver) :
    (finish err s).received = s.received ∧ (finish err s).crc = s.crc ∧
    (finish err s).coming = s.coming ∧ (finish err s).settled = s.settled ∧
    (finish err s).out = s.out ∧ (finish err s).socket = s.socket := by
  cases err <;> exact ⟨rfl, rfl, rfl, rfl, rfl, rfl⟩

/-- The bytes counted, hashed and handed over are those of the stream so far. -/
structure Accounted (stream : Bytes) (s : DccReceiver) : Prop where
  counted : s.received = o.offset + (handed s).length
  inOrder : handed s <+: stream.drop o.offset
  placed : ∀ out, s.out = some out → out.start = o.offset
  crc : s.crc = Crc32.crc32 (handed s)
  sound : ∀ out, s.out = some out → out.Sound
  rest : s.settled = false → reached o s.received = false → s.coming = stream.drop s.received
  within : o.size > 0 → handed s = [] ∨ s.received ≤ o.size
  opened : s.out.isSome = s.socket.any (·.connected)

/-- Who was told what, and when. -/
structure Judged (s : DccReceiver) : Prop where
  once : (verdicts s).length = if s.settled && !flushing s then 1 else 0
  owed : flushing s → s.settled ∧ (o.size > 0 → o.size ≤ s.received)
  living : ∀ out, s.out = some out → out.destroyed → s.settled ∧ out.ending = false
  done : ∀ n c, .onDone n c ∈ s.calls → s.settled ∧ flushing s = false ∧ n = s.received ∧
    c = s.crc ∧ (o.size > 0 → o.size ≤ s.received)

variable {highWaterMark o} {stream : Bytes} {s : DccReceiver}

theorem accounted_create : Accounted o stream (create o stream) where
  counted := rfl
  inOrder := List.nil_prefix
  placed := nofun
  crc := (Crc32.update_nil 0).symm
  sound := nofun
  rest := fun _ _ => rfl
  within := fun _ => .inl rfl
  opened := rfl

theorem judged_create : Judged o (create o stream) where
  once := rfl
  owed := nofun
  living := nofun
  done := nofun

theorem Accounted.onOut {f : WriteStream → WriteStream}
    (hf : ∀ w, (f w).start = w.start ∧ (f w).handed = w.handed ∧ (w.Sound → (f w).Sound))
    (h : Accounted o stream s) : Accounted o stream (onOut f s) := by
  have hh : handed (Receiver.onOut f s) = handed s := by
    unfold handed Receiver.onOut
    cases s.out with
    | none => rfl
    | some w => exact (hf w).2.1
  constructor
  · rw [hh]; exact h.counted
  · rw [hh]; exact h.inOrder
  · intro out ho
    obtain ⟨w, hw, rfl⟩ := Option.map_eq_some_iff.mp ho
    rw [(hf w).1]; exact h.placed w hw
  · rw [hh]; exact h.crc
  · intro out ho
    obtain ⟨w, hw, rfl⟩ := Option.map_eq_some_iff.mp ho
    exact (hf w).2.2 (h.sound w hw)
  · exact h.rest
  · rw [hh]; exact h.within
  · simpa [Receiver.onOut] using h.opened

theorem Judged.onOut {f : WriteStream → WriteStream}
    (hf : ∀ w, (f w).ending = w.ending ∧ (f w).destroyed = w.destroyed)
    (h : Judged o s) : Judged o (onOut f s) := by
  have hh : flushing (Receiver.onOut f s) = flushing s := by
    unfold flushing Receiver.onOut
    cases s.out with
    | none => rfl
    | some w => exact (hf w).1
  constructor
  · rw [hh]; exact h.once
  · rw [hh]; exact h.owed
  · intro out ho hd
    obtain ⟨w, hw, rfl⟩ := Option.map_eq_some_iff.mp ho
    rw [(hf w).1]
    exact h.living w hw ((hf w).2 ▸ hd)
  · rw [hh]; exact h.done

theorem settle_cases (err : Option String) (s : DccReceiver) (hs : s.settled = false) :
    (∃ e, err = some e ∧ settle err s =
      { s with
        settled := true
        socket := s.socket.map (closeSocket err)
        out := s.out.map WriteStream.destroy
        calls := s.calls ++ [.onError e s.received] }) ∨
    (∃ out, err = none ∧ s.out = some out ∧ settle err s =
      { s with settled := true, socket := s.socket.map (closeSocket err), out := some out.end }) ∨
    (err = none ∧ s.out = none ∧ settle err s =
      { s with
        settled := true
        socket := s.socket.map (closeSocket err)
        calls := s.calls ++ [.onDone s.received s.crc] }) := by
  unfold settle
  rw [if_neg (by simp [hs])]
  cases err with
  | some e => exact .inl ⟨e, rfl, rfl⟩
  | none =>
    cases ho : s.out with
    | some out => exact .inr (.inl ⟨out, rfl, rfl, rfl⟩)
    | none => exact .inr (.inr ⟨rfl, rfl, rfl⟩)

theorem settle_settles (err : Option String) (s : DccReceiver) : (settle err s).settled := by
  by_cases hs : s.settled
  · simp [settle, hs]
  · obtain ⟨_, _, hr⟩ | ⟨_, _, _, hr⟩ | ⟨_, _, hr⟩ := settle_cases err s (by simpa using hs) <;>
      rw [hr]

theorem settle_settled {err : Option String} (hs : s.settled) : settle err s = s := by
  simp [settle, hs]

theorem closeSocket_connected (err : Option String) (sock : Socket) :
    (closeSocket err sock).connected = sock.connected := by
  cases err <;> rfl

theorem Accounted.settle (h : Accounted o stream s) (err : Option String) :
    Accounted o stream (settle err s) := by
  by_cases hs : s.settled
  · rw [settle_settled hs]; exact h
  have hopen : (s.socket.map (closeSocket err)).any (·.connected) = s.socket.any (·.connected) := by
    cases s.socket <;> simp [closeSocket_connected]
  obtain ⟨e, rfl, hr⟩ | ⟨out, rfl, ho, hr⟩ | ⟨rfl, ho, hr⟩ := settle_cases err s (by simpa using hs)
  · have hd : Accounted o stream (Receiver.onOut WriteStream.destroy s) :=
      h.onOut fun w => ⟨rfl, rfl, fun hw => hw.destroy⟩
    rw [hr]
    exact ⟨hd.counted, hd.inOrder, hd.placed, hd.crc, hd.sound, nofun, hd.within,
      hopen ▸ hd.opened⟩
  · have hd : Accounted o stream (Receiver.onOut WriteStream.end s) :=
      h.onOut fun w => ⟨rfl, rfl, fun hw => hw.end⟩
    have hout : some out.end = s.out.map WriteStream.end := by rw [ho]; rfl
    rw [hr, hout]
    exact ⟨hd.counted, hd.inOrder, hd.placed, hd.crc, hd.sound, nofun, hd.within,
      hopen ▸ hd.opened⟩
  · rw [hr]
    exact ⟨h.counted, h.inOrder, h.placed, h.crc, h.sound, nofun, h.within,
      hopen ▸ h.opened⟩

/-- Nothing has been said while the transfer is open. -/
theorem Judged.silent (h : Judged o s) (hs : s.settled = false) : (verdicts s).length = 0 := by
  rw [h.once, hs]; rfl

theorem Judged.open (h : Judged o s) (hs : s.settled = false) {out : WriteStream}
    (ho : s.out = some out) : out.ending = false ∧ out.destroyed = false := by
  constructor
  · by_contra he
    have hf := (h.owed (by simpa [flushing, ho] using he)).1
    rw [hs] at hf
    cases hf
  · by_contra hd
    have hf := (h.living out ho (by simpa using hd)).1
    rw [hs] at hf
    cases hf

theorem Judged.unsaid (h : Judged o s) (hs : s.settled = false) {n : Nat} {c : UInt32} :
    .onDone n c ∉ s.calls := fun hm => by
  have hf := (h.done n c hm).1
  rw [hs] at hf
  cases hf

theorem Judged.settle (h : Judged o s) {err : Option String}
    (hok : err = none → o.size > 0 → o.size ≤ s.received) : Judged o (settle err s) := by
  by_cases hs : s.settled
  · rw [settle_settled hs]; exact h
  have hs' : s.settled = false := by simpa using hs
  have hlen := h.silent hs'
  obtain ⟨e, rfl, hr⟩ | ⟨out, rfl, ho, hr⟩ | ⟨rfl, ho, hr⟩ := settle_cases err s hs'
  · have hfl : (s.out.map WriteStream.destroy).any (·.ending) = false := by
      cases hout : s.out with
      | none => rfl
      | some w => simpa [WriteStream.destroy] using (h.open hs' hout).1
    rw [hr]
    constructor
    · simpa [verdicts, flushing, hfl, Call.isVerdict] using hlen
    · intro hf; rw [flushing, hfl] at hf; cases hf
    · intro w hw _
      obtain ⟨v, hv, rfl⟩ := Option.map_eq_some_iff.mp hw
      exact ⟨rfl, (h.open hs' hv).1⟩
    · intro n c hm
      rcases List.mem_append.mp hm with hm | hm
      · exact absurd hm (h.unsaid hs')
      · simp at hm
  · rw [hr]
    constructor
    · simpa [verdicts, flushing, WriteStream.end] using hlen
    · exact fun _ => ⟨rfl, hok rfl⟩
    · intro w hw hd
      cases hw
      have := (h.open hs' ho).2
      simp [WriteStream.end, this] at hd
    · exact fun n c hm => absurd hm (h.unsaid hs')
  · rw [hr]
    constructor
    · simpa [verdicts, flushing, ho, Call.isVerdict] using hlen
    · intro hf; simp [flushing, ho] at hf
    · intro w hw; rw [ho] at hw; cases hw
    · intro n c hm
      rcases List.mem_append.mp hm with hm | hm
      · exact absurd hm (h.unsaid hs')
      · obtain ⟨rfl, rfl⟩ : n = s.received ∧ c = s.crc := by simpa using hm
        exact ⟨rfl, by simp [flushing, ho], rfl, rfl, hok rfl⟩

theorem reached_iff {n : Nat} : reached o n ↔ o.size > 0 ∧ n ≥ o.size := by
  simp [reached]

/-- What comes next is what the file lacks. -/
theorem Accounted.split (h : Accounted o stream s) :
    stream.drop o.offset = handed s ++ stream.drop s.received := by
  obtain ⟨t, ht⟩ := h.inOrder
  have hd : stream.drop s.received = t := by
    rw [h.counted, ← List.drop_drop, ← ht, List.drop_left]
  rw [hd, ht]

theorem accept_out (out : WriteStream) (sock : Socket) (data : Bytes) :
    (accept highWaterMark out sock data s).out = some (out.write highWaterMark data).1 := rfl

theorem capped_prefix (chunk : Bytes) : capped o s chunk <+: chunk := by
  unfold capped; split
  · exact List.take_prefix ..
  · exact List.prefix_rfl

theorem capped_room (chunk : Bytes) (hz : o.size > 0) :
    (capped o s chunk).length ≤ o.size - s.received := by
  rw [capped, if_pos hz]; exact List.length_take_le ..

theorem capped_eq {chunk : Bytes}
    (h : o.size > 0 → (capped o s chunk).length < o.size - s.received) :
    capped o s chunk = chunk := by
  by_cases hz : o.size > 0
  · have hlt := h hz
    rw [capped, if_pos hz] at hlt ⊢
    rw [List.length_take] at hlt
    exact List.take_of_length_le (by omega)
  · rw [capped, if_neg hz]

theorem drop_length_take {α : Type*} (l : List α) (n : Nat) :
    l.drop (l.take n).length = l.drop n := by
  rw [List.length_take]
  by_cases hn : n ≤ l.length
  · rw [Nat.min_eq_left hn]
  · rw [Nat.min_eq_right (by omega), List.drop_length, List.drop_eq_nil_of_le (by omega)]

theorem Accounted.accept (h : Accounted o stream s) (hs : s.settled = false)
    (hr : reached o s.received = false) {out : WriteStream} (ho : s.out = some out) {sock : Socket}
    (hsock : sock.connected) (n : Nat) :
    Accounted o stream (accept highWaterMark out sock (capped o s (s.coming.take n))
      { s with coming := s.coming.drop n }) := by
  have hrest := h.rest hs hr
  have hnot : o.size > 0 → s.received < o.size := by
    intro hz
    by_contra hge
    rw [reached_iff.mpr ⟨hz, by omega⟩] at hr
    cases hr
  generalize hdata : capped o s (s.coming.take n) = data
  have hpre : data <+: s.coming := hdata ▸ ( capped_prefix _).trans (List.take_prefix ..)
  have hroom : o.size > 0 → s.received + data.length ≤ o.size := by
    intro hz
    have := capped_room (s := s) (s.coming.take n) hz
    have := hnot hz
    rw [hdata] at *
    omega
  have hh : handed
      (Receiver.accept highWaterMark out sock data { s with coming := s.coming.drop n }) =
      handed s ++ data := by
    simp [handed, accept_out, ho]
  constructor
  · rw [hh, List.length_append, ← Nat.add_assoc, ← h.counted]
    rfl
  · rw [hh, h.split]
    exact (List.prefix_append_right_inj _).mpr (hrest ▸ hpre)
  · intro w hw
    rw [accept_out] at hw
    cases hw
    rw [(WriteStream.write_frame _ _).1]
    exact h.placed out ho
  · rw [hh, Crc32.crc32_append, ← h.crc]
    rfl
  · intro w hw
    rw [accept_out] at hw
    cases hw
    exact (h.sound out ho).write _ _
  · intro _ hr'
    change reached o (s.received + data.length) = false at hr'
    change s.coming.drop n = stream.drop (s.received + data.length)
    -- short of the size the whole chunk was taken
    have hall : data = s.coming.take n := by
      rw [← hdata]
      refine capped_eq fun hz => ?_
      rw [hdata]
      by_contra hge
      have := hnot hz
      rw [reached_iff.mpr ⟨hz, by omega⟩] at hr'
      cases hr'
    rw [← List.drop_drop, ← hrest, hall, drop_length_take]
  · exact fun hz => .inr (hroom hz)
  · change true = Socket.connected (ite _ _ _)
    split <;> exact hsock.symm

theorem Judged.accept (h : Judged o s) (hs : s.settled = false) {out : WriteStream}
    (ho : s.out = some out) (sock : Socket) (data coming : Bytes) :
    Judged o (accept highWaterMark out sock data { s with coming := coming }) := by
  obtain ⟨hend, hdes⟩ := h.open hs ho
  obtain ⟨-, he, hd, -, -⟩ := WriteStream.write_frame (w := out) highWaterMark data
  have hfl : flushing
      (Receiver.accept highWaterMark out sock data { s with coming := coming }) = false := by
    simp [flushing, accept_out, he, hend]
  have hlen := h.silent hs
  constructor
  · change (List.filter _ (s.calls ++ [_])).length = if (s.settled && _) = true then 1 else 0
    rw [hs]
    simpa [Call.isVerdict, verdicts] using hlen
  · rw [hfl]; nofun
  · intro w hw hdw
    rw [accept_out] at hw
    cases hw
    rw [hd, hdes] at hdw
    cases hdw
  · intro n c hm
    rcases List.mem_append.mp hm with hm | hm
    · exact absurd hm (h.unsaid hs)
    · simp at hm

structure Kept (o : DccReceiveOptions) (stream : Bytes) (s : DccReceiver) : Prop where
  accounted : Accounted o stream s
  judged : Judged o s

theorem kept_create : Kept o stream (create o stream) := ⟨accounted_create, judged_create⟩

theorem Kept.settle (h : Kept o stream s) {err : Option String}
    (hok : err = none → o.size > 0 → o.size ≤ s.received) : Kept o stream (settle err s) :=
  ⟨h.accounted.settle err, h.judged.settle hok⟩

/-- The socket alone changed. -/
theorem Kept.socket (h : Kept o stream s) {socket : Option Socket}
    (hc : socket.any (·.connected) = s.socket.any (·.connected)) :
    Kept o stream { s with socket := socket } :=
  ⟨{ h.accounted with opened := hc ▸ h.accounted.opened },
    ⟨h.judged.once, h.judged.owed, h.judged.living, h.judged.done⟩⟩

theorem Kept.socket_map (h : Kept o stream s) {f : Socket → Socket}
    (hf : ∀ sock, (f sock).connected = sock.connected) :
    Kept o stream { s with socket := s.socket.map f } := by
  refine h.socket ?_
  cases s.socket with
  | none => rfl
  | some sock => exact hf sock

theorem Kept.onOut (h : Kept o stream s) {f : WriteStream → WriteStream}
    (hf : ∀ w, (f w).start = w.start ∧ (f w).handed = w.handed ∧ (w.Sound → (f w).Sound) ∧
      (f w).ending = w.ending ∧ (f w).destroyed = w.destroyed) :
    Kept o stream (onOut f s) :=
  ⟨h.accounted.onOut fun w => ⟨(hf w).1, (hf w).2.1, (hf w).2.2.1⟩,
    h.judged.onOut fun w => (hf w).2.2.2⟩

/-- What comes is not looked at again once settled, or with the whole file there. -/
theorem Kept.coming (h : Kept o stream s) (hdone : s.settled = true ∨ reached o s.received = true)
    (coming : Bytes) : Kept o stream { s with coming := coming } := by
  refine ⟨{ h.accounted with rest := fun hs hr => ?_ }, ⟨h.judged.once, h.judged.owed,
    h.judged.living, h.judged.done⟩⟩
  rcases hdone with hd | hd
  · rw [hd] at hs; cases hs
  · rw [hd] at hr; cases hr

theorem onData_ignored {cancels : Bool} {chunk : Bytes}
    (hdone : s.settled = true ∨ reached o s.received = true) :
    onData highWaterMark o cancels chunk s = s := by
  unfold onData
  split
  · rcases hdone with hd | hd <;> simp [hd]
  · rfl

theorem onData_taken {cancels : Bool} {chunk : Bytes} {out : WriteStream} {sock : Socket}
    (ho : s.out = some out) (hsock : s.socket = some sock) (hs : s.settled = false)
    (hr : reached o s.received = false) :
    onData highWaterMark o cancels chunk s =
      afterProgress o cancels (accept highWaterMark out sock (capped o s chunk) s) := by
  unfold onData
  rw [ho, hsock]
  simp only [hs, hr, Bool.false_eq_true, if_false]

theorem afterProgress_cancelled : afterProgress o true s = settle (some "cancelled") s := by
  have hset : settle none (settle (some "cancelled") s) = settle (some "cancelled") s :=
    settle_settled (settle_settles ..)
  simp only [afterProgress, if_true, hset, ite_self]

theorem afterProgress_going :
    afterProgress o false s = if reached o s.received then settle none s else s := rfl

theorem Kept.afterProgress (h : Kept o stream s) (cancels : Bool) :
    Kept o stream (afterProgress o cancels s) := by
  cases cancels with
  | true =>
    rw [afterProgress_cancelled]
    exact h.settle nofun
  | false =>
    rw [afterProgress_going]
    split
    · rename_i hr
      exact h.settle fun _ _ => (reached_iff.mp hr).2
    · exact h

theorem connected_of_flows (hf : s.socket.any (·.flows)) :
    ∃ sock, s.socket = some sock ∧ sock.connected := by
  cases hsock : s.socket with
  | none => simp [hsock] at hf
  | some sock =>
    simp only [hsock, Option.any_some, Socket.flows, Bool.and_eq_true] at hf
    exact ⟨sock, rfl, hf.1.1⟩

theorem Kept.onData (h : Kept o stream s) {sock : Socket} (hsock : s.socket = some sock)
    (hconn : sock.connected) (cancels : Bool) (n : Nat) :
    Kept o stream
      (onData highWaterMark o cancels (s.coming.take n) { s with coming := s.coming.drop n }) := by
  by_cases hdone : s.settled = true ∨ reached o s.received = true
  · rw [onData_ignored (s := { s with coming := s.coming.drop n }) hdone]
    exact h.coming hdone _
  · obtain ⟨hs, hr⟩ : s.settled = false ∧ reached o s.received = false := by simpa using hdone
    obtain ⟨out, ho⟩ := Option.isSome_iff_exists.mp
      (h.accounted.opened.trans (by simpa [hsock] using hconn))
    rw [onData_taken (s := { s with coming := s.coming.drop n }) ho hsock hs hr]
    refine Kept.afterProgress ⟨?_, h.judged.accept hs ho sock _ _⟩ cancels
    exact h.accounted.accept hs hr ho hconn n

/-- The file is opened once. -/
theorem Kept.onConnected (h : Kept o stream s) (hnew : s.out = none) (sock : Socket) :
    Kept o stream (onConnected o sock s) := by
  have hh : handed (Receiver.onConnected o sock s) = handed s := by
    simp [handed, Receiver.onConnected, WriteStream.create, hnew]
  have hfl : flushing (Receiver.onConnected o sock s) = flushing s := by
    simp [flushing, Receiver.onConnected, WriteStream.create, hnew]
  constructor
  · constructor
    · rw [hh]; exact h.accounted.counted
    · rw [hh]; exact h.accounted.inOrder
    · intro w hw; cases hw; rfl
    · rw [hh]; exact h.accounted.crc
    · intro w hw; cases hw; exact WriteStream.sound_create _
    · exact h.accounted.rest
    · rw [hh]; exact h.accounted.within
    · rfl
  · constructor
    · rw [hfl]; exact h.judged.once
    · rw [hfl]; exact h.judged.owed
    · intro w hw hd; cases hw; simp [WriteStream.create] at hd
    · rw [hfl]; exact h.judged.done

theorem Kept.start (h : Kept o stream s) : Kept o stream (start o s) := by
  unfold Receiver.start
  cases hsock : s.socket with
  | some sock => exact h
  | none =>
    have hout : s.out = none := by simpa [hsock] using h.accounted.opened
    dsimp only
    split
    · exact h.onConnected hout _
    · exact h.socket (by simp [hsock])

theorem Kept.onClose (h : Kept o stream s) : Kept o stream (onClose o s) := by
  unfold Receiver.onClose
  split
  · exact h
  · refine h.settle fun hn hz => ?_
    have hc : complete o s.received = true := by
      by_contra hc
      rw [if_neg hc] at hn
      cases hn
    simpa [complete, hz] using hc

theorem flushing_of_due (hdue : s.out.any (·.endDue)) :
    ∃ out, s.out = some out ∧ out.endDue ∧ flushing s := by
  cases ho : s.out with
  | none => simp [ho] at hdue
  | some out =>
    have hd : out.endDue = true := by simpa [ho] using hdue
    refine ⟨out, rfl, hd, ?_⟩
    simp only [WriteStream.endDue, Bool.and_eq_true] at hd
    simpa [flushing, ho] using hd.1

theorem Kept.endCallback (h : Kept o stream s) (hdue : s.out.any (·.endDue)) :
    Kept o stream (finish none (Receiver.onOut (fun out => { out with ending := false }) s)) := by
  obtain ⟨out, ho, -, hend⟩ := flushing_of_due hdue
  obtain ⟨hset, hsize⟩ := h.judged.owed hend
  have hacc : Accounted o stream (Receiver.onOut (fun out => { out with ending := false }) s) :=
    h.accounted.onOut fun w => ⟨rfl, rfl, fun hw => ⟨hw.accounted, hw.kept⟩⟩
  have hnone : (verdicts s).length = 0 := by rw [h.judged.once, hset, hend]; rfl
  have hover : flushing
      (finish none (Receiver.onOut (fun out => { out with ending := false }) s)) = false := by
    simp [flushing, finish, Receiver.onOut, ho]
  refine ⟨{ hacc with }, ?_, ?_, ?_, ?_⟩
  · rw [hover]
    change (List.filter _ (s.calls ++ [_])).length = if (s.settled && !false) = true then 1 else 0
    rw [hset]
    simpa [verdicts, Call.isVerdict] using hnone
  · rw [hover]; nofun
  · intro w hw hdw
    obtain ⟨v, hv, rfl⟩ := Option.map_eq_some_iff.mp hw
    exact ⟨hset, rfl⟩
  · intro n c hm
    refine ⟨hset, hover, ?_⟩
    rcases List.mem_append.mp hm with hm | hm
    · obtain ⟨-, hf, -⟩ := h.judged.done n c hm
      rw [hend] at hf
      cases hf
    · obtain ⟨rfl, rfl⟩ : n = s.received ∧ c = s.crc := by simpa [Receiver.onOut] using hm
      exact ⟨rfl, rfl, hsize⟩

theorem Kept.resume (h : Kept o stream s) : Kept o stream (resume s) := by
  unfold Receiver.resume
  split
  · exact h
  · exact h.socket_map fun _ => rfl

theorem Kept.step (h : Kept o stream s) (e : Event) : Kept o stream (step highWaterMark o s e) := by
  cases e with
  | start => exact h.start
  | ready =>
    unfold Receiver.step
    cases hsock : s.socket with
    | none => exact h
    | some sock =>
      dsimp only
      split
      · exact h
      · rename_i hc
        have hc' : sock.connected = false ∧ sock.closed = false := by simpa using hc
        exact h.onConnected (by simpa [hsock, hc'.1] using h.accounted.opened) sock
  | data n cancels =>
    unfold Receiver.step
    dsimp only
    split
    · rename_i hf
      obtain ⟨sock, hsock, hc⟩ := connected_of_flows hf
      exact h.onData hsock hc cancels n
    · exact h
  | timeout =>
    unfold Receiver.step
    dsimp only
    split
    · exact h.settle nofun
    · exact h
  | socketError e =>
    unfold Receiver.step
    dsimp only
    split
    · exact h.settle nofun
    · exact h
  | close =>
    unfold Receiver.step
    dsimp only
    split
    · exact Kept.onClose (h.socket_map fun _ => rfl)
    · exact h
  | cancel =>
    change Kept o stream (Receiver.settle (some _) s)
    exact h.settle nofun
  | «open» =>
    unfold Receiver.step
    dsimp only
    split
    · refine Kept.resume (h.onOut fun w => ?_)
      refine ⟨?_, ?_, fun hw => hw.open, ?_, ?_⟩ <;> · unfold WriteStream.open; split <;> rfl
    · exact h
  | reach n =>
    refine h.onOut fun w => ?_
    obtain ⟨hs, he, hd, -, hh⟩ := WriteStream.reach_frame (w := w) n
    exact ⟨hs, hh, fun hw => hw.reach n, he, hd⟩
  | fail e =>
    refine h.onOut fun w => ?_
    obtain ⟨hs, he, hd, -, hh, -⟩ := WriteStream.fail_frame (w := w) e
    exact ⟨hs, hh, fun hw => hw.fail e, he, hd⟩
  | outError =>
    unfold Receiver.step
    dsimp only
    split
    · exact h.settle nofun
    · exact h
  | drain =>
    unfold Receiver.step
    dsimp only
    have hout : Kept o stream (Receiver.onOut (fun out => { out with needDrain := false }) s) :=
      h.onOut fun w => ⟨rfl, rfl, fun hw => ⟨hw.accounted, hw.kept⟩, rfl, rfl⟩
    split
    · split
      · exact hout
      · exact hout.socket_map fun _ => rfl
    · exact h
  | endCallback =>
    unfold Receiver.step
    dsimp only
    split
    · rename_i hdue
      exact h.endCallback hdue
    · exact h

theorem kept_run (highWaterMark : Nat) (o : DccReceiveOptions) (stream : Bytes) (es : List Event) :
    Kept o stream (run highWaterMark o stream es) :=
  Run.invariant _ kept_create (fun _ e h => h.step e) es

@[simp] theorem settle_received (err : Option String) (s : DccReceiver) :
    (settle err s).received = s.received := by
  by_cases hs : s.settled
  · rw [settle_settled hs]
  · obtain ⟨_, _, hr⟩ | ⟨_, _, _, hr⟩ | ⟨_, _, hr⟩ := settle_cases err s (by simpa using hs) <;>
      rw [hr]

theorem afterProgress_received (cancels : Bool) :
    (afterProgress o cancels s).received = s.received := by
  cases cancels with
  | true => rw [afterProgress_cancelled, settle_received]
  | false =>
    rw [afterProgress_going]
    split
    · exact settle_received none s
    · rfl

theorem onData_received_le (cancels : Bool) (chunk : Bytes) :
    s.received ≤ (onData highWaterMark o cancels chunk s).received := by
  unfold onData
  split
  · split
    · exact le_rfl
    · split
      · exact le_rfl
      · rw [afterProgress_received]
        exact Nat.le_add_right ..
  · exact le_rfl

theorem onClose_received : (onClose o s).received = s.received := by
  unfold onClose; split
  · rfl
  · exact settle_received _ s

theorem start_received : (start o s).received = s.received := by
  unfold start
  cases s.socket with
  | some sock => rfl
  | none => dsimp only; split <;> rfl

theorem resume_received : (resume s).received = s.received := by
  unfold resume; split <;> rfl

theorem step_received_le (s : DccReceiver) (e : Event) :
    s.received ≤ (step highWaterMark o s e).received := by
  cases e with
  | start => exact start_received.ge
  | ready =>
    unfold step
    cases s.socket with
    | none => exact le_rfl
    | some sock => dsimp only; split <;> exact le_rfl
  | data n cancels =>
    unfold step
    dsimp only
    split
    · exact onData_received_le (s := { s with coming := s.coming.drop n }) _ _
    · exact le_rfl
  | timeout => unfold step; dsimp only; split <;> simp
  | socketError e => unfold step; dsimp only; split <;> simp
  | close =>
    unfold step
    dsimp only
    split
    · rw [onClose_received]
    · exact le_rfl
  | cancel => exact (settle_received _ _).ge
  | «open» =>
    unfold step
    dsimp only
    split
    · exact (resume_received (s := onOut WriteStream.open s)).ge
    · exact le_rfl
  | reach n => exact le_rfl
  | fail e => exact le_rfl
  | outError => unfold step; dsimp only; split <;> simp
  | drain =>
    unfold step
    dsimp only
    split
    · split <;> exact le_rfl
    · exact le_rfl
  | endCallback => unfold step; dsimp only; split <;> exact le_rfl

theorem after_received_le (s : DccReceiver) (es : List Event) :
    s.received ≤ (Run.after (step highWaterMark o) s es).received := by
  induction es generalizing s with
  | nil => exact le_rfl
  | cons e es ih => exact (step_received_le s e).trans (ih _)

/-- The file failed, and accepted bytes are not in it. -/
def lost (s : DccReceiver) : Bool := s.out.any (·.lost)

/-- The event settles the transfer as complete. -/
def completes (o : DccReceiveOptions) (s : DccReceiver) : Event → Bool
  | .data n cancels =>
    s.socket.any (·.flows) && !s.settled && !cancels && !reached o s.received &&
      reached o (s.received + (s.coming.take n).length)
  | .close => s.socket.isSome && !s.settled && complete o s.received
  | _ => false

/-- No write fails after the transfer was settled as complete, and it is not settled as complete
with a failure on its way. -/
def InTime (o : DccReceiveOptions) (s : DccReceiver) : Event → Prop
  | .fail _ =>
    flushing s → s.out.any (fun out => out.failure.isNone && !out.pending.isEmpty) = false
  | .data n cancels => completes o s (.data n cancels) → s.out.any (·.failure.isSome) = false
  | .close => completes o s .close → lost s = false
  | _ => True

/-- The transfer was settled as complete. -/
def Completed (s : DccReceiver) : Prop := flushing s ∨ ∃ n c, .onDone n c ∈ s.calls

structure Flushed (s : DccReceiver) : Prop where
  intact : flushing s → lost s = false
  done : ∀ n c, .onDone n c ∈ s.calls → written s = handed s

theorem Judged.completed (h : Judged o s) (hc : Completed s) : s.settled := by
  rcases hc with hf | ⟨n, c, hm⟩
  · exact (h.owed hf).1
  · exact (h.done n c hm).1

theorem flushed_of_not_completed (h : ¬ Completed s) : Flushed s :=
  ⟨fun hf => absurd (.inl hf) h, fun n c hm => absurd (.inr ⟨n, c, hm⟩) h⟩

theorem Judged.flushed (h : Judged o s) (hs : s.settled = false) : Flushed s :=
  flushed_of_not_completed fun hc => by rw [h.completed hc] at hs; cases hs

theorem flushed_create : Flushed (create o stream) := judged_create.flushed rfl

/-- An error completes nothing. -/
theorem Judged.settle_error (h : Judged o s) (hfl : Flushed s) (e : String) :
    Flushed (Receiver.settle (some e) s) := by
  by_cases hs : s.settled
  · rw [settle_settled hs]; exact hfl
  have hs' : s.settled = false := by simpa using hs
  refine flushed_of_not_completed ?_
  obtain ⟨e', he, hr⟩ | ⟨_, he, _⟩ | ⟨he, _⟩ := settle_cases (some e) s hs'
  · rw [hr]
    rintro (hf | ⟨n, c, hm⟩)
    · cases ho : s.out with
      | none => simp [flushing, ho] at hf
      | some out => simp [flushing, ho, WriteStream.destroy, (h.open hs' ho).1] at hf
    · rcases List.mem_append.mp hm with hm | hm
      · exact h.unsaid hs' hm
      · simp at hm
  · cases he
  · cases he

theorem Kept.settle_complete (h : Kept o stream s) (hs : s.settled = false)
    (hl : lost s = false) : Flushed (Receiver.settle none s) := by
  obtain ⟨e', he, hr⟩ | ⟨out, he, ho, hr⟩ | ⟨he, ho, hr⟩ := settle_cases none s hs
  · cases he
  · rw [hr]
    refine ⟨fun _ => ?_, fun n c hm => absurd hm (h.judged.unsaid hs)⟩
    simpa [lost, ho, WriteStream.lost, WriteStream.end] using hl
  · rw [hr]
    refine ⟨fun hf => ?_, fun n c hm => ?_⟩
    · simp [flushing, ho] at hf
    · simp [written, handed, ho]

/-- What the file's own events do to a transfer settled as complete. -/
theorem Flushed.onOut (h : Flushed s) {f : WriteStream → WriteStream}
    (hf : ∀ w, s.out = some w → (f w).handed = w.handed ∧ (f w).ending = w.ending ∧
      (w.ending → w.lost = false → (f w).lost = false) ∧
      (w.written = w.handed → (f w).written = w.written)) :
    Flushed (Receiver.onOut f s) := by
  cases ho : s.out with
  | none =>
    refine ⟨fun hfl => by simp [flushing, Receiver.onOut, ho] at hfl, fun n c hm => ?_⟩
    simp [written, handed, Receiver.onOut, ho]
  | some w =>
    obtain ⟨hh, he, hl, hw⟩ := hf w ho
    constructor
    · intro hfl
      have hend : w.ending = true := by simpa [flushing, Receiver.onOut, ho, he] using hfl
      have hlost := h.intact (by simpa [flushing, ho] using hend)
      simpa [lost, Receiver.onOut, ho] using hl hend (by simpa [lost, ho] using hlost)
    · intro n c hm
      have hall : w.written = w.handed := by simpa [written, handed, ho] using h.done n c hm
      simp [written, handed, Receiver.onOut, ho, hh, hw hall, hall]

theorem Flushed.same_out (h : Flushed s) {t : DccReceiver} (ho : t.out = s.out)
    (hc : t.calls = s.calls) : Flushed t := by
  constructor
  · intro hf
    have := h.intact (by simpa [flushing, ho] using hf)
    simpa [lost, ho] using this
  · intro n c hm
    have := h.done n c (hc ▸ hm)
    simpa [written, handed, ho] using this

/-- The cap does not keep a chunk from reaching the size. -/
theorem reached_capped {chunk : Bytes} :
    reached o (s.received + (capped o s chunk).length) = reached o (s.received + chunk.length) := by
  by_cases hz : o.size > 0
  · rw [capped, if_pos hz, List.length_take, reached, reached]
    congr 1
    by_cases hr : s.received + chunk.length ≥ o.size
    · have hm : s.received + min (o.size - s.received) chunk.length ≥ o.size := by omega
      rw [decide_eq_true hr, decide_eq_true hm]
    · have hm : ¬ s.received + min (o.size - s.received) chunk.length ≥ o.size := by omega
      rw [decide_eq_false hr, decide_eq_false hm]
  · simp [reached, hz]

theorem lost_write {w : WriteStream} (hw : w.failure = none) (data : Bytes) :
    (w.write highWaterMark data).1.lost = false := by
  simp [WriteStream.lost, (WriteStream.write_frame highWaterMark data).2.2.2.1, hw]

theorem Kept.flushed_onData (h : Kept o stream s) (hfl : Flushed s) {n : Nat} {cancels : Bool}
    (hflow : s.socket.any (·.flows)) (hin : InTime o s (.data n cancels)) :
    Flushed (Receiver.onData highWaterMark o cancels (s.coming.take n)
      { s with coming := s.coming.drop n }) := by
  by_cases hdone : s.settled = true ∨ reached o s.received = true
  · rw [onData_ignored (s := { s with coming := s.coming.drop n }) hdone]
    exact hfl.same_out rfl rfl
  obtain ⟨hs, hr⟩ : s.settled = false ∧ reached o s.received = false := by simpa using hdone
  obtain ⟨sock, hsock, hconn⟩ := connected_of_flows hflow
  obtain ⟨out, ho⟩ := Option.isSome_iff_exists.mp
    (h.accounted.opened.trans (by simpa [hsock] using hconn))
  rw [onData_taken (s := { s with coming := s.coming.drop n }) ho hsock hs hr]
  set t := accept highWaterMark out sock (capped o s (s.coming.take n))
    { s with coming := s.coming.drop n } with ht
  have hkt : Kept o stream t :=
    ⟨h.accounted.accept hs hr ho hconn n, h.judged.accept hs ho sock _ _⟩
  change Flushed (Receiver.afterProgress o cancels t)
  cases cancels with
  | true =>
    rw [afterProgress_cancelled]
    exact hkt.judged.settle_error (hkt.judged.flushed hs) _
  | false =>
    rw [afterProgress_going]
    split
    · rename_i hre
      refine hkt.settle_complete hs ?_
      have hc : completes o s (.data n false) = true := by
        simp only [completes, hflow, hs, hr, Bool.not_false, Bool.and_true, Bool.true_and]
        exact reached_capped.symm.trans hre
      have hf := hin hc
      rw [ho, Option.any_some] at hf
      have hw : (out.write highWaterMark (capped o s (s.coming.take n))).1.lost = false :=
        lost_write (by simpa using hf) _
      simpa [lost, ht, accept_out] using hw
    · exact hkt.judged.flushed hs

theorem Flushed.onConnected (sock : Socket) : Flushed (Receiver.onConnected o sock s) :=
  ⟨fun hf => by simp [flushing, Receiver.onConnected, WriteStream.create] at hf, fun _ _ _ => rfl⟩

theorem Kept.flushed_onClose (h : Kept o stream s) (hfl : Flushed s)
    (hin : s.settled = false → complete o s.received → lost s = false) :
    Flushed (Receiver.onClose o s) := by
  unfold Receiver.onClose
  split
  · exact hfl
  rename_i hs
  have hs' : s.settled = false := by simpa using hs
  by_cases hc : complete o s.received = true
  · rw [if_pos hc]
    exact h.settle_complete hs' (hin hs' hc)
  · rw [if_neg hc]
    exact h.judged.settle_error hfl _

theorem Flushed.start (hfl : Flushed s) : Flushed (Receiver.start o s) := by
  unfold Receiver.start
  cases hsock : s.socket with
  | some sock => exact hfl
  | none =>
    dsimp only
    split
    · exact Flushed.onConnected _
    · exact hfl.same_out rfl rfl

theorem Flushed.ready (hfl : Flushed s) : Flushed (Receiver.step highWaterMark o s .ready) := by
  unfold Receiver.step
  cases s.socket with
  | none => exact hfl
  | some sock =>
    dsimp only
    split
    · exact hfl
    · exact Flushed.onConnected _

theorem Kept.flushed_data (h : Kept o stream s) (hfl : Flushed s) {n : Nat} {cancels : Bool}
    (hin : InTime o s (.data n cancels)) :
    Flushed (Receiver.step highWaterMark o s (.data n cancels)) := by
  unfold Receiver.step
  dsimp only
  split
  · rename_i hflow
    exact h.flushed_onData hfl hflow hin
  · exact hfl

/-- What an event does that can only end the transfer with an error. -/
theorem Kept.flushed_error (h : Kept o stream s) (hfl : Flushed s) (b : Bool) (e : String) :
    Flushed (if b then Receiver.settle (some e) s else s) := by
  split
  · exact h.judged.settle_error hfl e
  · exact hfl

theorem Kept.flushed_close (h : Kept o stream s) (hfl : Flushed s) (hin : InTime o s .close) :
    Flushed (Receiver.step highWaterMark o s .close) := by
  unfold Receiver.step
  dsimp only
  split
  · rename_i hsock
    refine Kept.flushed_onClose (h.socket_map fun _ => rfl) (hfl.same_out rfl rfl) fun hs hc => ?_
    exact hin (by simpa [completes, hsock, complete] using And.intro hs hc)
  · exact hfl

theorem Flushed.resume (hfl : Flushed s) : Flushed (Receiver.resume s) := by
  unfold Receiver.resume
  split
  · exact hfl
  · exact hfl.same_out rfl rfl

theorem Flushed.open (hfl : Flushed s) : Flushed (Receiver.step highWaterMark o s .open) := by
  unfold Receiver.step
  dsimp only
  split
  · refine Flushed.resume (hfl.onOut fun w _ => ?_)
    unfold WriteStream.open
    split <;> exact ⟨rfl, rfl, fun _ hl => hl, fun _ => rfl⟩
  · exact hfl

/-- A file that has all it was handed has nothing left to write. -/
theorem Kept.pending_nil (h : Kept o stream s) {w : WriteStream} (hw : s.out = some w)
    (hall : w.written = w.handed) : w.pending = [] := by
  have hle := (h.accounted.sound w hw).accounted.length_le
  rw [List.length_append, hall] at hle
  exact List.eq_nil_of_length_eq_zero (by omega)

theorem Kept.flushed_reach (h : Kept o stream s) (hfl : Flushed s) (n : Nat) :
    Flushed (Receiver.step highWaterMark o s (.reach n)) := by
  refine hfl.onOut fun w hw => ?_
  obtain ⟨-, he, -, hf, hh⟩ := WriteStream.reach_frame (w := w) n
  refine ⟨hh, he, fun _ hl => ?_, fun hall => ?_⟩
  · unfold WriteStream.reach
    split
    · rename_i hw'
      simp [WriteStream.lost, hw'.2]
    · exact hl
  · have hp := h.pending_nil hw hall
    unfold WriteStream.reach
    split
    · simp [hp]
    · rfl

/-- A file that is being ended is not destroyed. -/
theorem Kept.undestroyed (h : Kept o stream s) {w : WriteStream} (hw : s.out = some w)
    (hend : w.ending = true) : w.destroyed = false := by
  by_contra hd
  rw [(h.judged.living w hw (by simpa using hd)).2] at hend
  cases hend

theorem Kept.flushed_fail (h : Kept o stream s) (hfl : Flushed s) {e : String}
    (hin : InTime o s (.fail e)) : Flushed (Receiver.step highWaterMark o s (.fail e)) := by
  refine hfl.onOut fun w hw => ?_
  obtain ⟨-, he, -, -, hh, hwr⟩ := WriteStream.fail_frame (w := w) e
  refine ⟨hh, he, fun hend hl => ?_, fun _ => hwr⟩
  unfold WriteStream.fail
  split
  · rename_i hf
    -- in time means that nothing is left to write
    have hp : w.pending = [] := by
      have hflush := hin (by simpa [flushing, hw] using hend)
      simpa [hw, hf.1] using hflush
    have hall : w.written = w.handed := by
      simpa [hp] using (h.accounted.sound w hw).kept hf.1 (h.undestroyed hw hend)
    simp [WriteStream.lost, hall]
  · exact hl

theorem Kept.flushed_outError (h : Kept o stream s) (hfl : Flushed s) :
    Flushed (Receiver.step highWaterMark o s .outError) := by
  unfold Receiver.step
  dsimp only
  split
  · exact h.judged.settle_error hfl _
  · exact hfl

theorem Flushed.drain (hfl : Flushed s) : Flushed (Receiver.step highWaterMark o s .drain) := by
  unfold Receiver.step
  dsimp only
  split
  · have hout : Flushed (Receiver.onOut (fun out => { out with needDrain := false }) s) :=
      hfl.onOut fun w _ => ⟨rfl, rfl, fun _ hl => hl, fun _ => rfl⟩
    split
    · exact hout
    · exact hout.same_out rfl rfl
  · exact hfl

/-- When the end is due and nothing was lost, the file has all it was handed. -/
theorem Kept.flushed_endCallback (h : Kept o stream s) (hfl : Flushed s) :
    Flushed (Receiver.step highWaterMark o s .endCallback) := by
  unfold Receiver.step
  dsimp only
  split
  · rename_i hdue
    obtain ⟨w, hw, hd, hend⟩ := flushing_of_due hdue
    have hdes : w.destroyed = false := h.undestroyed hw (by simpa [flushing, hw] using hend)
    have hall : w.written = w.handed := by
      refine (h.accounted.sound w hw).complete hd hdes ?_
      simpa [lost, hw] using hfl.intact hend
    refine ⟨fun hf => ?_, fun n c _ => ?_⟩
    · simp [flushing, finish, Receiver.onOut, hw] at hf
    · simpa [written, handed, finish, Receiver.onOut, hw] using hall
  · exact hfl

theorem Kept.flushed_step (h : Kept o stream s) (hfl : Flushed s) {e : Event} (hin : InTime o s e) :
    Flushed (Receiver.step highWaterMark o s e) := by
  cases e with
  | start => exact hfl.start
  | ready => exact hfl.ready
  | data n cancels => exact h.flushed_data hfl hin
  | timeout => exact h.flushed_error hfl _ _
  | socketError e => exact h.flushed_error hfl _ _
  | close => exact h.flushed_close hfl hin
  | cancel => exact h.judged.settle_error hfl _
  | «open» => exact hfl.open
  | reach n => exact h.flushed_reach hfl n
  | fail e => exact h.flushed_fail hfl hin
  | outError => exact h.flushed_outError hfl
  | drain => exact hfl.drain
  | endCallback => exact h.flushed_endCallback hfl

theorem flushed_run {es : List Event}
    (hin : Run.Within (step highWaterMark o) (InTime o) (create o stream) es) :
    Flushed (run highWaterMark o stream es) :=
  (Run.invariant_within (P := fun s => Kept o stream s ∧ Flushed s) _ ⟨kept_create, flushed_create⟩
    (fun _ e h he => ⟨h.1.step e, h.1.flushed_step h.2 he⟩) es hin).2

theorem settle_lost {w : WriteStream} (hs : s.settled = false) (ho : s.out = some w)
    (hl : w.lost) : flushing (settle none s) ∧ lost (settle none s) := by
  obtain ⟨e', he, _⟩ | ⟨out, _, hout, hr⟩ | ⟨_, hout, _⟩ := settle_cases none s hs
  · cases he
  · rw [ho] at hout
    cases hout
    rw [hr]
    exact ⟨rfl, hl⟩
  · rw [ho] at hout
    cases hout

/-- A failure that comes too late leaves a transfer settled as complete with bytes missing. -/
theorem Kept.too_late (h : Kept o stream s) {e : Event} (hin : ¬ InTime o s e) :
    flushing (Receiver.step highWaterMark o s e) ∧ lost (Receiver.step highWaterMark o s e) := by
  cases e with
  | fail e =>
    obtain ⟨hf, hany⟩ : flushing s = true ∧
        s.out.any (fun out => out.failure.isNone && !out.pending.isEmpty) = true := by
      simpa [InTime] using hin
    cases ho : s.out with
    | none => simp [ho] at hany
    | some w =>
      obtain ⟨hnone, hp⟩ : w.failure = none ∧ w.pending ≠ [] := by simpa [ho] using hany
      have hend : w.ending = true := by simpa [flushing, ho] using hf
      have hne : w.written ≠ w.handed := fun he => by
        have := (h.accounted.sound w ho).kept hnone (h.undestroyed ho hend)
        rw [← he] at this
        exact hp (by simpa using this)
      have hfail : w.fail e = { w with failure := some e } := by
        rw [WriteStream.fail, if_pos ⟨hnone, .inr hp⟩]
      constructor
      · simpa [flushing, Receiver.step, Receiver.onOut, ho, hfail] using hend
      · simpa [lost, WriteStream.lost, Receiver.step, Receiver.onOut, ho, hfail] using hne
  | data n cancels =>
    obtain ⟨hc, hany⟩ : completes o s (.data n cancels) = true ∧
        s.out.any (·.failure.isSome) = true := by
      simpa [InTime] using hin
    simp only [completes, Bool.and_eq_true, Bool.not_eq_true'] at hc
    obtain ⟨⟨⟨⟨hflow, hs⟩, rfl⟩, hr⟩, hreach⟩ := hc
    obtain ⟨sock, hsock, hconn⟩ := connected_of_flows hflow
    cases ho : s.out with
    | none => simp [ho] at hany
    | some out =>
      have hfail : out.failure.isSome = true := by simpa [ho] using hany
      have hstep : Receiver.step highWaterMark o s (.data n false) =
          Receiver.settle none (Receiver.accept highWaterMark out sock
            (capped o s (s.coming.take n)) { s with coming := s.coming.drop n }) := by
        rw [← reached_capped] at hreach
        unfold Receiver.step
        dsimp only
        rw [if_pos hflow, onData_taken (s := { s with coming := s.coming.drop n }) ho hsock hs hr,
          afterProgress_going]
        exact if_pos hreach
      rw [hstep]
      refine settle_lost hs (accept_out ..) ?_
      obtain ⟨-, -, -, hf, hw⟩ := WriteStream.write_frame (w := out) highWaterMark
        (capped o s (s.coming.take n))
      have hne : out.written ≠ out.handed ++ capped o s (s.coming.take n) := fun he => by
        have hle := (h.accounted.sound out ho).accounted.length_le
        have hlen := congrArg List.length he
        simp only [List.length_append] at hle hlen
        have hnil : (capped o s (s.coming.take n)).length = 0 := by omega
        rw [← reached_capped, hnil, Nat.add_zero, hr] at hreach
        cases hreach
      simpa [WriteStream.lost, hf, hfail, hw] using hne
  | close =>
    obtain ⟨hc, hl⟩ : completes o s .close = true ∧ lost s = true := by
      simpa [InTime] using hin
    simp only [completes, Bool.and_eq_true, Bool.not_eq_true'] at hc
    obtain ⟨⟨hsock, hs⟩, hcomp⟩ := hc
    cases ho : s.out with
    | none => simp [lost, ho] at hl
    | some w =>
      unfold Receiver.step Receiver.onClose
      dsimp only
      rw [if_pos hsock, if_neg (by simp [hs]), if_pos hcomp]
      exact settle_lost hs ho (by simpa [lost, ho] using hl)
  | start | ready | timeout | socketError | cancel | «open» | reach | outError | drain
  | endCallback =>
    exact absurd trivial hin

/-- The caller is told it is done all the same. -/
theorem done_of_lost (hf : flushing s) (hl : lost s) :
    let t := step highWaterMark o s .endCallback
    .onDone t.received t.crc ∈ t.calls ∧ written t ≠ handed t := by
  cases ho : s.out with
  | none => simp [flushing, ho] at hf
  | some w =>
    have hend : w.ending = true := by simpa [flushing, ho] using hf
    obtain ⟨hfail, hne⟩ : w.failure.isSome = true ∧ w.written ≠ w.handed := by
      simpa [lost, ho, WriteStream.lost] using hl
    have hdue : s.out.any (·.endDue) = true := by simp [ho, WriteStream.endDue, hend, hfail]
    unfold step
    dsimp only
    rw [if_pos hdue]
    refine ⟨List.mem_append_right _ (List.mem_singleton_self _), ?_⟩
    simpa [written, handed, finish, onOut, ho] using hne

theorem Kept.promised (h : Kept o stream s) (hfl : Flushed s)
    (hsize : o.size > 0 → o.offset ≤ o.size) : Promised highWaterMark o stream s := by
  have hbound : o.size > 0 → s.received ≤ o.size := by
    intro hz
    rcases h.accounted.within hz with hn | hle
    · rw [h.accounted.counted, hn]
      exact hsize hz
    · exact hle
  refine ⟨h.judged.once, fun hf hdue => ?_, hbound, h.accounted.counted, h.accounted.inOrder,
    h.accounted.placed, h.accounted.crc, fun n c hm => ?_⟩
  · have hk : Kept o stream (Receiver.step highWaterMark o s .endCallback) := h.step .endCallback
    obtain ⟨out, ho, -, -⟩ := flushing_of_due hdue
    rw [hk.judged.once, if_pos]
    simp only [Receiver.step, if_pos hdue]
    simp [finish, Receiver.onOut, flushing, ho, (h.judged.owed hf).1]
  · obtain ⟨-, -, hn, hc, hz⟩ := h.judged.done n c hm
    exact ⟨hn, hc, hfl.done n c hm, fun h0 => le_antisymm (hbound h0) (hz h0)⟩

/-- Every receive keeps its promises exactly when its offset is within the size and no failure of
the file comes too late. -/
theorem received_whole (highWaterMark : Nat) (o : DccReceiveOptions) (stream : Bytes)
    (es : List Event) :
    ((o.size > 0 → o.offset ≤ o.size) ∧
      Run.Within (step highWaterMark o) (InTime o) (create o stream) es) ↔
    ∀ es', es' <+: es →
      Promised highWaterMark o stream (run highWaterMark o stream es') ∧
      Promised highWaterMark o stream (run highWaterMark o stream (es' ++ [.endCallback])) ∧
      (run highWaterMark o stream es').received ≤ (run highWaterMark o stream es).received := by
  constructor
  · rintro ⟨hsize, hin⟩ es' ⟨es'', rfl⟩
    have hin' := ((Run.within_append _).mp hin).1
    refine ⟨(kept_run ..).promised (flushed_run hin') hsize, ?_, ?_⟩
    · exact (kept_run ..).promised
        (flushed_run ((Run.within_concat _).mpr ⟨hin', trivial⟩)) hsize
    · unfold run
      rw [Run.after_append]
      exact after_received_le _ _
  · intro h
    refine ⟨(h [] List.nil_prefix).1.bounded, Run.within_of_after _ fun es' e es'' he => ?_⟩
    by_contra hlate
    obtain ⟨hf, hl⟩ : flushing (step highWaterMark o (run highWaterMark o stream es') e) ∧
        lost (step highWaterMark o (run highWaterMark o stream es') e) :=
      (kept_run ..).too_late hlate
    have hprefix : es' ++ [e] <+: es := ⟨es'', by simp [he]⟩
    have hp := (h _ hprefix).2.1
    rw [show run highWaterMark o stream (es' ++ [e] ++ [.endCallback]) =
      step highWaterMark o (step highWaterMark o (run highWaterMark o stream es') e) .endCallback by
        rw [run, Run.after_concat, Run.after_concat]; rfl] at hp
    obtain ⟨hm, hne⟩ := @done_of_lost highWaterMark o _ hf hl
    exact hne (hp.whole _ _ hm).2.2.1

/-- A disk that is full at the last byte. -/
def fullDisk : DccReceiver :=
  run 16384 ⟨true, 3, none, none⟩ [1, 2, 3]
    [.start, .open, .data 3 false, .fail "ENOSPC", .endCallback]

/-- Nothing is on disk, and the caller hears of a finished receive. -/
theorem full_disk_done :
    ¬ ∀ highWaterMark o stream es,
      Promised highWaterMark o stream (run highWaterMark o stream es) := fun h => by
  have hdone : .onDone 3 fullDisk.crc ∈ fullDisk.calls := by decide +kernel
  have hnone : written fullDisk ≠ handed fullDisk := by decide +kernel
  exact hnone ((h _ _ _ _).whole _ _ hdone).2.2.1

end Lurker.Dcc.Receiver
