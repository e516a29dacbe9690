import Mathlib.Algebra.BigOperators.Group.List.Basic
import Mathlib.Algebra.Order.BigOperators.Group.List
import Mathlib.Algebra.Order.Group.Nat
import Mathlib.Algebra.Order.Ring.Int
import Lurker.Engine.Protocol

/-!
# The per-connection backlog

`LineBuffer` keeps every inbound line the app has not acked, numbered from 1.
The pending lines always carry consecutive seqs ending just below `nextSeq`,
`bytes` is the sum of their sizes, and a recorded hole lies below all of them;
these facts are fields of the buffer, so every operation re-establishes them.
-/

namespace Lurker.Engine

structure BufferedLine where
  seq : Nat
  line : String
  deriving DecidableEq, Repr

def lineBytes (line : String) : Int := line.utf8ByteSize + 2

def totalBytes (lines : List BufferedLine) : Int := (lines.map (fun b => lineBytes b.line)).sum

structure LineBuffer where
  maxBytes : Int
  lines : List BufferedLine
  nextSeq : Nat
  gap : Option Gap
  bytes : Int
  seqs : lines.map BufferedLine.seq = List.range' (nextSeq - lines.length) lines.length
  length_lt : lines.length < nextSeq
  bytes_eq : bytes = totalBytes lines
  gap_below : ∀ g, gap = some g → 1 ≤ g.firstDroppedSeq ∧ g.firstDroppedSeq ≤ g.lastDroppedSeq ∧
    g.lastDroppedSeq + lines.length < nextSeq

namespace LineBuffer

def new (maxBytes : Int) : LineBuffer where
  maxBytes := maxBytes
  lines := []
  nextSeq := 1
  gap := none
  bytes := 0
  seqs := rfl
  length_lt := by decide
  bytes_eq := rfl
  gap_below := by intro g hg; exact nomatch hg

def length (b : LineBuffer) : Nat := b.lines.length

/-- Latest seq handed out; 0 before the first line. -/
def lastSeq (b : LineBuffer) : Nat := b.nextSeq - 1

/-- The seq of the oldest pending line, or of the next one when none is pending. -/
def front (b : LineBuffer) : Nat := b.nextSeq - b.length

/-- `k` is the seq of a pending line. -/
def Pending (b : LineBuffer) (k : Nat) : Prop := b.front ≤ k ∧ k < b.nextSeq

/-- `k` lies in the recorded hole. -/
def InGap (b : LineBuffer) (k : Nat) : Prop := ∃ g, b.gap = some g ∧ g.covers k

theorem front_add_length (b : LineBuffer) : b.front + b.length = b.nextSeq := by
  have := b.length_lt
  simp only [front, length]
  omega

theorem front_pos (b : LineBuffer) : 1 ≤ b.front := by
  have := b.length_lt
  simp only [front, length]
  omega

theorem seq_getElem (b : LineBuffer) (i : Nat) (hi : i < b.lines.length) :
    b.lines[i].seq = b.front + i := by
  have h : (b.lines.map BufferedLine.seq)[i]? = (List.range' b.front b.lines.length)[i]? :=
    congrArg (·[i]?) b.seqs
  rw [List.getElem?_map, List.getElem?_eq_getElem hi, List.getElem?_range' hi] at h
  simpa using h

theorem mem_lines_pending {b : LineBuffer} {l : BufferedLine} (h : l ∈ b.lines) :
    b.Pending l.seq := by
  obtain ⟨i, hi, rfl⟩ := List.mem_iff_getElem.mp h
  have hf := b.front_add_length
  rw [seq_getElem b i hi]
  simp only [length] at hf
  exact ⟨Nat.le_add_right _ _, by omega⟩

theorem inGap_bounds {b : LineBuffer} {k : Nat} (h : b.InGap k) : 1 ≤ k ∧ k < b.front := by
  obtain ⟨g, hg, hlo, hhi⟩ := h
  obtain ⟨h1, -, h3⟩ := b.gap_below g hg
  exact ⟨by omega, by simp only [front, length]; omega⟩

/-- Number a line and append it; the byte caps are enforced afterwards. -/
def append (b : LineBuffer) (line : String) : LineBuffer where
  maxBytes := b.maxBytes
  lines := b.lines ++ [⟨b.nextSeq, line⟩]
  nextSeq := b.nextSeq + 1
  gap := b.gap
  bytes := b.bytes + lineBytes line
  seqs := by
    have h := b.length_lt
    rw [List.map_append, b.seqs, List.length_append, List.length_singleton, Nat.add_sub_add_right,
      ← List.range'_append_1]
    congr 1
    simp only [List.map_cons, List.map_nil, List.range'_one, List.cons.injEq, and_true]
    omega
  length_lt := by have := b.length_lt; simp; omega
  bytes_eq := by rw [b.bytes_eq]; simp [totalBytes]
  gap_below := by
    intro g hg
    have := b.gap_below g hg
    simp only [List.length_append, List.length_singleton]
    omega

private theorem seqs_drop (b : LineBuffer) (i : Nat) :
    (b.lines.drop i).map BufferedLine.seq =
      List.range' (b.nextSeq - (b.lines.drop i).length) (b.lines.drop i).length := by
  have hlt := b.length_lt
  rw [List.map_drop, b.seqs, List.drop_range']
  by_cases hi : i ≤ b.lines.length
  · rw [List.length_drop]
    congr 1
    omega
  · simp [Nat.sub_eq_zero_of_le (Nat.le_of_not_le hi)]

private theorem bytes_drop (b : LineBuffer) (i : Nat) :
    b.bytes - totalBytes (b.lines.take i) = totalBytes (b.lines.drop i) := by
  have h : totalBytes (b.lines.take i) + totalBytes (b.lines.drop i) = totalBytes b.lines := by
    rw [totalBytes, totalBytes, totalBytes, ← List.sum_append, ← List.map_append,
      List.take_append_drop]
  rw [b.bytes_eq]
  omega

/-- Open a gap at a dropped line, or extend the one that is open. -/
def extendGap (gap : Option Gap) (seq : Nat) (now : Int) : Gap :=
  match gap with
  | some g => { g with lastDroppedSeq := seq, at_ := now }
  | none => ⟨seq, seq, now⟩

def dropOldest (now : Int) (b : LineBuffer) : LineBuffer where
  maxBytes := b.maxBytes
  lines := b.lines.drop 1
  nextSeq := b.nextSeq
  gap := match b.lines with
    | [] => b.gap
    | dropped :: _ => some (extendGap b.gap dropped.seq now)
  bytes := b.bytes - totalBytes (b.lines.take 1)
  seqs := seqs_drop b 1
  length_lt := by have := b.length_lt; simp; omega
  bytes_eq := bytes_drop b 1
  gap_below := by
    intro g hg
    cases hl : b.lines with
    | nil =>
        rw [hl] at hg
        simpa [hl] using b.gap_below g hg
    | cons d rest =>
        simp only [hl, Option.some.injEq] at hg
        have hd : d.seq = b.front := by simpa [hl] using b.seq_getElem 0 (by simp [hl])
        have hf := b.front_add_length
        have hp := b.front_pos
        simp only [length, hl, List.length_cons] at hf
        subst hg
        cases hgap : b.gap with
        | none =>
            simp only [extendGap, List.drop_succ_cons, List.drop_zero]
            omega
        | some g' =>
            have hb := b.gap_below g' hgap
            simp only [hl, List.length_cons] at hb
            simp only [extendGap, List.drop_succ_cons, List.drop_zero]
            omega

/-- What an ack leaves of a recorded hole. -/
def Gap.ackTo (g : Gap) (seq : Int) : Option Gap :=
  if (g.lastDroppedSeq : Int) ≤ seq then none
  else if (g.firstDroppedSeq : Int) ≤ seq then some { g with firstDroppedSeq := (seq + 1).toNat }
  else some g

/-- How many pending lines an ack frees. -/
def ackedCount (b : LineBuffer) (seq : Int) : Nat :=
  (b.lines.takeWhile (fun l => decide ((l.seq : Int) ≤ seq))).length

def ack (b : LineBuffer) (seq : Int) : LineBuffer where
  maxBytes := b.maxBytes
  lines := b.lines.drop (b.ackedCount seq)
  nextSeq := b.nextSeq
  gap := b.gap.bind (fun g => Gap.ackTo g seq)
  bytes := b.bytes - totalBytes (b.lines.take (b.ackedCount seq))
  seqs := seqs_drop b _
  length_lt := by have := b.length_lt; rw [List.length_drop]; omega
  bytes_eq := bytes_drop b _
  gap_below := by
    intro g hg
    obtain ⟨g', hg', ha⟩ := Option.bind_eq_some_iff.mp hg
    have hb := b.gap_below g' hg'
    simp only [Gap.ackTo] at ha
    rw [List.length_drop]
    split at ha
    · simp at ha
    · split at ha
      · obtain rfl := Option.some.inj ha
        refine ⟨?_, ?_, ?_⟩ <;> simp only <;> omega
      · obtain rfl := Option.some.inj ha
        omega

/-- Hand over the recorded hole and forget it. -/
def takeGap (b : LineBuffer) : LineBuffer :=
  { b with gap := none, gap_below := by intro g hg; exact nomatch hg }

/-- Release the buffer's bytes when its connection ends. -/
def dispose (b : LineBuffer) : LineBuffer :=
  { b with
    lines := []
    bytes := 0
    seqs := rfl
    length_lt := by have := b.length_lt; simp; omega
    bytes_eq := rfl
    gap_below := by
      intro g hg
      have := b.gap_below g hg
      simp only [List.length_nil]
      omega }

section Effects

variable {b : LineBuffer} {k : Nat}

@[simp] theorem nextSeq_append (line : String) : (b.append line).nextSeq = b.nextSeq + 1 := rfl

@[simp] theorem front_append (line : String) : (b.append line).front = b.front := by
  have := b.length_lt
  simp only [front, length, append, List.length_append, List.length_singleton]
  omega

theorem pending_append {line : String} :
    (b.append line).Pending k ↔ b.Pending k ∨ k = b.nextSeq := by
  have := b.front_add_length
  simp only [Pending, front_append, nextSeq_append]
  omega

@[simp] theorem inGap_append {line : String} : (b.append line).InGap k ↔ b.InGap k := Iff.rfl

@[simp] theorem nextSeq_dropOldest (now : Int) : (b.dropOldest now).nextSeq = b.nextSeq := rfl

@[simp] theorem length_dropOldest (now : Int) : (b.dropOldest now).length = b.length - 1 := by
  simp [length, dropOldest]

theorem front_dropOldest (now : Int) (h : 0 < b.length) :
    (b.dropOldest now).front = b.front + 1 := by
  have := b.length_lt
  simp only [front, length_dropOldest, nextSeq_dropOldest]
  simp only [length] at h ⊢
  omega

theorem gap_dropOldest (now : Int) (h : 0 < b.length) :
    (b.dropOldest now).gap = some (extendGap b.gap b.front now) := by
  cases hl : b.lines with
  | nil => simp [length, hl] at h
  | cons d rest =>
      have hd : d.seq = b.front := by simpa [hl] using b.seq_getElem 0 (by simp [hl])
      simp only [dropOldest, hl, hd]

theorem dropOldest_of_empty (now : Int) (h : b.length = 0) : b.dropOldest now = b := by
  have hl : b.lines = [] := List.length_eq_zero_iff.mp h
  cases b
  simp only at hl
  subst hl
  simp [dropOldest, totalBytes]

theorem pending_dropOldest (now : Int) (h : 0 < b.length) :
    (b.dropOldest now).Pending k ↔ b.Pending k ∧ k ≠ b.front := by
  simp only [Pending, front_dropOldest now h, nextSeq_dropOldest]
  omega

/-- The dropped line joins the hole, which keeps everything it had. -/
theorem inGap_dropOldest_of_inGap (now : Int) (h : b.InGap k) : (b.dropOldest now).InGap k := by
  by_cases hl : 0 < b.length
  · obtain ⟨hk1, hk2⟩ := inGap_bounds h
    obtain ⟨g, hg, hlo, hhi⟩ := h
    refine ⟨_, gap_dropOldest now hl, ?_⟩
    simp only [hg, extendGap, Gap.covers]
    omega
  · rwa [dropOldest_of_empty now (by omega)]

theorem inGap_dropOldest_front (now : Int) (h : 0 < b.length) :
    (b.dropOldest now).InGap b.front := by
  refine ⟨_, gap_dropOldest now h, ?_⟩
  cases hg : b.gap with
  | none => simp [extendGap, Gap.covers]
  | some g =>
      have := b.gap_below g hg
      simp only [extendGap, Gap.covers, front, length]
      omega

private theorem takeWhile_length_spec {α : Type*} (p : α → Bool) (l : List α) :
    (∀ (i : Nat) (hi : i < l.length), i < (l.takeWhile p).length → p l[i] = true) ∧
      ∀ h : (l.takeWhile p).length < l.length, p (l[(l.takeWhile p).length]) = false := by
  induction l with
  | nil => simp
  | cons a l ih =>
    obtain ⟨ih1, ih2⟩ := ih
    by_cases hp : p a
    · rw [List.takeWhile_cons_of_pos hp]
      constructor
      · intro i hi h
        cases i with
        | zero => exact hp
        | succ i =>
          exact ih1 i (by simpa using hi) (by simpa using h)
      · intro h
        simp only [List.length_cons, List.getElem_cons_succ]
        exact ih2 (by simpa using h)
    · rw [List.takeWhile_cons_of_neg hp]
      exact ⟨fun i hi h => by simp at h, fun h => by simpa using hp⟩

theorem ackedCount_le (seq : Int) : b.ackedCount seq ≤ b.length :=
  (List.takeWhile_sublist _).length_le

/-- The freed lines are those the ack covers, and the next one is not. -/
theorem ackedCount_spec (seq : Int) :
    (∀ i, i < b.ackedCount seq → ((b.front + i : Nat) : Int) ≤ seq) ∧
      (b.ackedCount seq < b.length → seq < ((b.front + b.ackedCount seq : Nat) : Int)) := by
  obtain ⟨hle, hgt⟩ := takeWhile_length_spec (fun l => decide ((l.seq : Int) ≤ seq)) b.lines
  have hcl : b.ackedCount seq ≤ b.length := ackedCount_le seq
  constructor
  · intro i hi
    have hil : i < b.lines.length := Nat.lt_of_lt_of_le hi hcl
    have h := of_decide_eq_true (hle i hil hi)
    rwa [seq_getElem b i hil] at h
  · intro hc
    have hc' : b.ackedCount seq < b.lines.length := hc
    have h : ¬ (b.lines[b.ackedCount seq].seq : Int) ≤ seq := of_decide_eq_false (hgt hc)
    rw [seq_getElem b _ hc'] at h
    omega

theorem front_ack (seq : Int) : (b.ack seq).front = b.front + b.ackedCount seq := by
  have h1 := b.length_lt
  have h2 : b.ackedCount seq ≤ b.length := ackedCount_le seq
  simp only [length] at h2
  simp only [front, length, ack, List.length_drop]
  omega

@[simp] theorem nextSeq_ack (seq : Int) : (b.ack seq).nextSeq = b.nextSeq := rfl

/-- An ack frees exactly the pending lines it covers. -/
theorem pending_ack {seq : Int} : (b.ack seq).Pending k ↔ b.Pending k ∧ seq < k := by
  obtain ⟨hle, hgt⟩ := b.ackedCount_spec seq
  have hlen := b.front_add_length
  have hcl : b.ackedCount seq ≤ b.length := ackedCount_le seq
  simp only [Pending, front_ack, nextSeq_ack]
  constructor
  · rintro ⟨hk, hlt⟩
    have h := hgt (by omega)
    exact ⟨⟨by omega, hlt⟩, by omega⟩
  · rintro ⟨⟨hk, hlt⟩, hs⟩
    refine ⟨?_, hlt⟩
    by_contra hn
    have h := hle (k - b.front) (by omega)
    omega

/-- An ack takes exactly what it covers out of the recorded hole. -/
theorem inGap_ack {seq : Int} : (b.ack seq).InGap k ↔ b.InGap k ∧ seq < k := by
  constructor
  · rintro ⟨g, hg, hc⟩
    obtain ⟨g', hg', ha⟩ := Option.bind_eq_some_iff.mp hg
    simp only [Gap.ackTo] at ha
    split at ha
    · simp at ha
    · split at ha
      · obtain rfl := Option.some.inj ha
        obtain ⟨hlo, hhi⟩ := hc
        simp only at hlo hhi
        exact ⟨⟨g', hg', by omega, hhi⟩, by omega⟩
      · obtain rfl := Option.some.inj ha
        obtain ⟨hlo, hhi⟩ := hc
        exact ⟨⟨g', hg', hlo, hhi⟩, by omega⟩
  · rintro ⟨⟨g, hg, hlo, hhi⟩, hs⟩
    simp only [InGap, ack, hg, Option.bind_some, Gap.ackTo]
    rw [if_neg (by omega)]
    split
    · exact ⟨_, rfl, by simp only; omega, hhi⟩
    · exact ⟨_, rfl, hlo, hhi⟩

@[simp] theorem pending_takeGap : b.takeGap.Pending k ↔ b.Pending k := Iff.rfl

@[simp] theorem inGap_takeGap : ¬ b.takeGap.InGap k := by
  rintro ⟨g, hg, -⟩
  exact nomatch hg

end Effects

/-- `dropOldest`, `k` times. -/
def drops (now : Int) : Nat → LineBuffer → LineBuffer
  | 0, b => b
  | k + 1, b => drops now k (b.dropOldest now)

theorem drops_succ (now : Int) (k : Nat) (b : LineBuffer) :
    b.drops now (k + 1) = (b.drops now k).dropOldest now := by
  induction k generalizing b with
  | zero => rfl
  | succ k ih => rw [drops, ih, drops]

theorem drops_drops (now : Int) (i j : Nat) (b : LineBuffer) :
    (b.drops now i).drops now j = b.drops now (i + j) := by
  induction i generalizing b with
  | zero => rw [Nat.zero_add]; rfl
  | succ i ih => rw [Nat.add_right_comm]; exact ih (b.dropOldest now)

theorem nextSeq_drops (now : Int) (j : Nat) (b : LineBuffer) :
    (b.drops now j).nextSeq = b.nextSeq := by
  induction j generalizing b with
  | zero => rfl
  | succ j ih => exact ih (b.dropOldest now)

/-- A property every drop preserves is preserved by several. -/
theorem drops_induct {P : LineBuffer → Prop} (now : Int) (hstep : ∀ b, P b → P (b.dropOldest now))
    (k : Nat) {b : LineBuffer} (h : P b) : P (b.drops now k) := by
  induction k generalizing b with
  | zero => exact h
  | succ k ih => exact ih (hstep b h)

private def trimLoop (now : Int) : Nat → LineBuffer → LineBuffer
  | 0, b => b
  | k + 1, b =>
      if 1 < b.length ∧ b.maxBytes < b.bytes then trimLoop now k (b.dropOldest now) else b

/-- Drop oldest lines, one at least staying, until the buffer's own cap holds. -/
def trim (now : Int) (b : LineBuffer) : LineBuffer := trimLoop now b.length b

private theorem trimLoop_spec (now : Int) (n : Nat) (b : LineBuffer) (hn : b.length ≤ n + 1) :
    (∃ k, trimLoop now n b = b.drops now k ∧ (k < b.length ∨ k = 0)) ∧
      ¬ (1 < (trimLoop now n b).length ∧
        (trimLoop now n b).maxBytes < (trimLoop now n b).bytes) := by
  induction n generalizing b with
  | zero => exact ⟨⟨0, rfl, Or.inr rfl⟩, fun h => by simp only [trimLoop] at h; omega⟩
  | succ n ih =>
    simp only [trimLoop]
    split
    · rename_i hc
      have hd : (b.dropOldest now).length = b.length - 1 := length_dropOldest now
      obtain ⟨⟨k, hk, hkl⟩, hrest⟩ := ih (b.dropOldest now) (by omega)
      exact ⟨⟨k + 1, hk, Or.inl (by omega)⟩, hrest⟩
    · rename_i hc
      exact ⟨⟨0, rfl, Or.inr rfl⟩, hc⟩

/-- Trimming is some number of drops that leave a line standing, and it ends
with the cap respected or a single line left. -/
theorem trim_spec (now : Int) (b : LineBuffer) :
    (∃ k, b.trim now = b.drops now k ∧ (k < b.length ∨ k = 0)) ∧
      ¬ (1 < (b.trim now).length ∧ (b.trim now).maxBytes < (b.trim now).bytes) :=
  trimLoop_spec now b.length b (by omega)

end LineBuffer

/-- The byte total shared by every buffer of the process, and the buffers it
may shed from, in the order they were registered. -/
structure ByteBudget (κ : Type) where
  max : Int
  used : Int
  buffers : List κ

namespace ByteBudget

variable {κ : Type}

def register (g : ByteBudget κ) (b : κ) : ByteBudget κ := { g with buffers := g.buffers ++ [b] }

/-- One turn of the search for the largest buffer. -/
def larger (content : κ → LineBuffer) (best : Option κ) (b : κ) : Option κ :=
  if 1 < (content b).length ∧ ∀ a ∈ best, (content a).bytes < (content b).bytes then some b
  else best

/-- The largest buffer of more than one line, the first registered among equals. -/
def largest (content : κ → LineBuffer) (buffers : List κ) : Option κ :=
  buffers.foldl (larger content) none

theorem largest_some {content : κ → LineBuffer} {buffers : List κ} {b : κ}
    (h : largest content buffers = some b) : b ∈ buffers ∧ 1 < (content b).length := by
  have key : ∀ (l : List κ) (best : Option κ),
      (∀ a ∈ best, a ∈ buffers ∧ 1 < (content a).length) → (∀ a ∈ l, a ∈ buffers) →
      ∀ a ∈ l.foldl (larger content) best, a ∈ buffers ∧ 1 < (content a).length := by
    intro l
    induction l with
    | nil => intro best hb _; exact hb
    | cons c l ih =>
      intro best hb hl
      refine ih (larger content best c) ?_ (fun a ha => hl a (List.mem_cons_of_mem _ ha))
      intro a ha
      simp only [larger] at ha
      split at ha
      · rename_i hc
        obtain rfl := Option.some.inj ha
        exact ⟨hl c List.mem_cons_self, hc.1⟩
      · exact hb a ha
  exact key buffers none (by simp) (fun a ha => ha) b h

/-- How many lines the registered buffers hold. -/
def backlog (content : κ → LineBuffer) (buffers : List κ) : Nat :=
  (buffers.map (fun b => (content b).length)).sum

variable [DecidableEq κ]

def unregister (g : ByteBudget κ) (b : κ) : ByteBudget κ :=
  { g with buffers := g.buffers.filter (· ≠ b) }

private def reclaimLoop (now : Int) : Nat → ByteBudget κ → (κ → LineBuffer) →
    ByteBudget κ × (κ → LineBuffer)
  | 0, g, content => (g, content)
  | n + 1, g, content =>
      if g.max < g.used then
        match largest content g.buffers with
        | none => (g, content)
        | some b =>
          let dropped := (content b).dropOldest now
          reclaimLoop now n { g with used := g.used + (dropped.bytes - (content b).bytes) }
            (Function.update content b dropped)
      else (g, content)

/-- Drop oldest lines from the largest buffer until the total fits. -/
def reclaim (now : Int) (g : ByteBudget κ) (content : κ → LineBuffer) :
    ByteBudget κ × (κ → LineBuffer) :=
  reclaimLoop now (backlog content g.buffers) g content

private theorem reclaimLoop_drops (now : Int) (n : Nat) (g : ByteBudget κ)
    (content : κ → LineBuffer) (b : κ) :
    ∃ k, (reclaimLoop now n g content).2 b = (content b).drops now k ∧
      (k < (content b).length ∨ k = 0) ∧ (b ∉ g.buffers → k = 0) := by
  induction n generalizing g content with
  | zero => exact ⟨0, rfl, Or.inr rfl, fun _ => rfl⟩
  | succ n ih =>
    simp only [reclaimLoop]
    split
    · split
      · exact ⟨0, rfl, Or.inr rfl, fun _ => rfl⟩
      · rename_i a ha
        obtain ⟨ham, hal⟩ := largest_some ha
        obtain ⟨k, hk, hkl, hkr⟩ := ih
          { g with used := g.used + (((content a).dropOldest now).bytes - (content a).bytes) }
          (Function.update content a ((content a).dropOldest now))
        by_cases hba : b = a
        · subst hba
          rw [Function.update_self] at hk hkl
          rw [LineBuffer.length_dropOldest] at hkl
          exact ⟨k + 1, hk, Or.inl (by omega), fun hn => absurd ham hn⟩
        · rw [Function.update_of_ne hba] at hk hkl
          exact ⟨k, hk, hkl, hkr⟩
    · exact ⟨0, rfl, Or.inr rfl, fun _ => rfl⟩

/-- Reclaiming acts on every buffer by some drops that leave it a line, and
leaves an unregistered buffer alone. -/
theorem reclaim_drops (now : Int) (g : ByteBudget κ) (content : κ → LineBuffer) (b : κ) :
    ∃ k, (g.reclaim now content).2 b = (content b).drops now k ∧
      (k < (content b).length ∨ k = 0) ∧ (b ∉ g.buffers → k = 0) :=
  reclaimLoop_drops now _ g content b

private theorem reclaimLoop_frame (now : Int) (n : Nat) (g : ByteBudget κ)
    (content : κ → LineBuffer) :
    (reclaimLoop now n g content).1.max = g.max ∧
      (reclaimLoop now n g content).1.buffers = g.buffers := by
  induction n generalizing g content with
  | zero => exact ⟨rfl, rfl⟩
  | succ n ih =>
    simp only [reclaimLoop]
    split
    · split
      · exact ⟨rfl, rfl⟩
      · exact ih _ _
    · exact ⟨rfl, rfl⟩

@[simp] theorem reclaim_max (now : Int) (g : ByteBudget κ) (content : κ → LineBuffer) :
    (g.reclaim now content).1.max = g.max := (reclaimLoop_frame now _ g content).1

@[simp] theorem reclaim_buffers (now : Int) (g : ByteBudget κ) (content : κ → LineBuffer) :
    (g.reclaim now content).1.buffers = g.buffers := (reclaimLoop_frame now _ g content).2

omit [DecidableEq κ] in
/-- Where no largest backlog is found, none has a line to spare. -/
theorem largest_none {content : κ → LineBuffer} {buffers : List κ}
    (h : largest content buffers = none) : ∀ b ∈ buffers, (content b).length ≤ 1 := by
  have hkey (l : List κ) : ∀ best, l.foldl (larger content) best = none →
      best = none ∧ ∀ b ∈ l, (content b).length ≤ 1 := by
    induction l with
    | nil => exact fun best hbest => ⟨hbest, fun b hb => by cases hb⟩
    | cons c l ih =>
      intro best hfold
      obtain ⟨hnone, hl⟩ := ih (larger content best c) hfold
      unfold larger at hnone
      split at hnone
      · cases hnone
      · rename_i hsmall
        subst hnone
        refine ⟨rfl, fun b hb => ?_⟩
        rcases List.mem_cons.mp hb with rfl | hb
        · simpa using hsmall
        · exact hl b hb
  exact (hkey buffers none h).2

theorem backlog_update_lt {content : κ → LineBuffer} {buffers : List κ} {b : κ}
    (hb : b ∈ buffers) {buffer : LineBuffer} (hlt : buffer.length < (content b).length) :
    backlog (Function.update content b buffer) buffers < backlog content buffers := by
  refine List.sum_lt_sum _ _ (fun c _ => ?_) ⟨b, hb, ?_⟩
  · by_cases hc : c = b
    · rw [hc, Function.update_self]
      exact hlt.le
    · rw [Function.update_of_ne hc]
  · rw [Function.update_self]
    exact hlt

private theorem reclaimLoop_spec (now : Int) (n : Nat) (g : ByteBudget κ)
    (content : κ → LineBuffer) (hn : backlog content g.buffers ≤ n) :
    (reclaimLoop now n g content).1.used ≤ g.max ∨
      ∀ b ∈ g.buffers, ((reclaimLoop now n g content).2 b).length ≤ 1 := by
  induction n generalizing g content with
  | zero =>
    refine Or.inr fun b hb => ?_
    have hle := List.single_le_sum (l := g.buffers.map fun b => (content b).length)
      (fun _ _ => Nat.zero_le _) _ (List.mem_map_of_mem hb)
    unfold backlog at hn
    show (content b).length ≤ 1
    omega
  | succ n ih =>
    simp only [reclaimLoop]
    split
    · split
      · rename_i hnone
        exact Or.inr (largest_none hnone)
      · rename_i b hb
        obtain ⟨hmem, hlen⟩ := largest_some hb
        refine ih _ _ (Nat.le_of_lt_succ (Nat.lt_of_lt_of_le (backlog_update_lt hmem ?_) hn))
        rw [LineBuffer.length_dropOldest]
        omega
    · rename_i hfits
      exact Or.inl (not_lt.mp hfits)

/-- Reclaiming ends with the total within the budget, or with no line to spare. -/
theorem reclaim_spec (now : Int) (g : ByteBudget κ) (content : κ → LineBuffer) :
    (g.reclaim now content).1.used ≤ g.max ∨
      ∀ b ∈ g.buffers, ((g.reclaim now content).2 b).length ≤ 1 :=
  reclaimLoop_spec now _ g content le_rfl

/-- What putting a registered backlog down adds to the total. -/
theorem sum_update {content : κ → LineBuffer} {buffers : List κ} (hnodup : buffers.Nodup) {b : κ}
    (hb : b ∈ buffers) (buffer : LineBuffer) :
    (buffers.map fun c => (Function.update content b buffer c).bytes).sum =
      (buffers.map fun c => (content c).bytes).sum + (buffer.bytes - (content b).bytes) := by
  induction buffers with
  | nil => cases hb
  | cons c l ih =>
    obtain ⟨hc, hl⟩ := List.nodup_cons.mp hnodup
    simp only [List.map_cons, List.sum_cons]
    by_cases hbc : b = c
    · subst hbc
      have hsame : (l.map fun c => (Function.update content b buffer c).bytes) =
          l.map fun c => (content c).bytes :=
        List.map_congr_left fun d hd => by
          rw [Function.update_of_ne (ne_of_mem_of_not_mem hd hc)]
      rw [hsame, Function.update_self]
      omega
    · rw [ih hl ((List.mem_cons.mp hb).resolve_left hbc), Function.update_of_ne (Ne.symm hbc)]
      omega

private theorem reclaimLoop_used (now : Int) (n : Nat) (g : ByteBudget κ)
    (content : κ → LineBuffer) (hnodup : g.buffers.Nodup)
    (hused : g.used = (g.buffers.map fun b => (content b).bytes).sum) :
    (reclaimLoop now n g content).1.used =
      (g.buffers.map fun b => ((reclaimLoop now n g content).2 b).bytes).sum := by
  induction n generalizing g content with
  | zero => exact hused
  | succ n ih =>
    simp only [reclaimLoop]
    split
    · split
      · exact hused
      · rename_i b hb
        refine ih _ _ hnodup ?_
        rw [sum_update hnodup (largest_some hb).1, ← hused]
    · exact hused

/-- Reclaiming keeps the total the sum of the backlogs. -/
theorem reclaim_used (now : Int) (g : ByteBudget κ) (content : κ → LineBuffer)
    (hnodup : g.buffers.Nodup) (hused : g.used = (g.buffers.map fun b => (content b).bytes).sum) :
    (g.reclaim now content).1.used =
      (g.buffers.map fun b => ((g.reclaim now content).2 b).bytes).sum :=
  reclaimLoop_used now _ g content hnodup hused

end ByteBudget

end Lurker.Engine
