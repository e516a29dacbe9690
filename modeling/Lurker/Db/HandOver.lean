import Mathlib.Data.List.GetD
import Mathlib.Order.Lattice
import Lurker.Db.EngineMarks

/-!
# A hand-over stores every row once

Below the mark every line is stored whole, but for the lines a process has begun
and not ended; above it nothing is. A process has the rows of a line it has begun
up to the one it is at, and no other process begins that line.
-/
namespace Lurker.Db.EngineMarks
namespace Socket

/-- All rows of a line are stored. -/
def Full (s : Socket) (seq : Nat) : Prop :=
  ∀ index < (s.rows seq).length, HasRow s.db seq index

/-- A process has stored rows of the line in hand. -/
def Begun (p : Process) (seq index : Nat) : Prop :=
  p.inHand = some (seq, index) ∧ p.ours seq = true

def mark (s : Socket) : Nat := s.db.mark.getD 0

/-- A line that publishes nothing, or that somebody has begun to store. -/
def Reached (s : Socket) (seq : Nat) : Prop := s.rows seq = [] ∨ seq ≤ s.mark

/-- What holds of a process on its feet. -/
structure Fits (s : Socket) (p : Process) : Prop where
  next_le : p.next ≤ s.lines.length + 1
  given : ∀ seq < p.next, (∀ index, p.inHand ≠ some (seq, index)) → s.Reached seq
  hand : ∀ seq index, p.inHand = some (seq, index) →
    seq < p.next ∧ index ≤ (s.rows seq).length ∧ (0 < index → s.Reached seq)
  stored : ∀ seq, p.storedUnderSeq = some seq → seq < p.next
  begun : ∀ seq index, Begun p seq index →
    seq ≤ s.mark ∧ ∀ i, HasRow s.db seq i ↔ i < index

structure Inv (s : Socket) : Prop where
  mark_le : s.mark ≤ s.lines.length
  acked_le : s.acked ≤ s.lines.length
  acked : ∀ seq ≤ s.acked, s.Reached seq
  once : (s.db.messages.map fun m => (m.seq, m.index)).Nodup
  authentic : ∀ m ∈ s.db.messages, (s.rows m.seq)[m.index]? = some m.row
  below : ∀ m ∈ s.db.messages, m.seq ≤ s.mark
  full : ∀ seq ≤ s.mark, s.Full seq ∨
    ∃ pid p index, s.running pid = some p ∧ Begun p seq index
  fits : ∀ pid p, s.running pid = some p → s.Fits p
  alone : ∀ pid pid' p p' seq index index', s.running pid = some p → s.running pid' = some p' →
    Begun p seq index → Begun p' seq index' → pid = pid'
  live : ∀ p ∈ s.processes, ∀ next ∈ p.liveAt, next ≤ s.lines.length + 1 ∧
    ∀ seq < next, s.Full seq

theorem full_of_nil {s : Socket} {seq : Nat} (h : s.rows seq = []) : s.Full seq := by
  intro index hi
  rw [h] at hi
  exact absurd hi (Nat.not_lt_zero _)

theorem inv_start : Inv start where
  mark_le := Nat.le_refl _
  acked_le := Nat.le_refl _
  acked seq h := .inl (by rw [Nat.le_zero.mp h]; rfl)
  once := List.nodup_nil
  authentic _ h := by cases h
  below _ h := by cases h
  full seq h := .inl (full_of_nil (by rw [Nat.le_zero.mp h]; rfl))
  fits pid p h := by
    cases pid with
    | zero =>
      cases h
      refine ⟨Nat.le_refl _, fun seq hs _ => .inl ?_, fun _ _ hh => (by cases hh),
        fun _ hs => (by cases hs), fun _ _ hb => (by cases hb.1)⟩
      rw [Nat.lt_one_iff.mp hs]
      rfl
    | succ n => cases h
  alone pid pid' p p' seq index index' h _ hb _ := by
    cases pid with
    | zero =>
      cases h
      cases hb.1
    | succ n => cases h
  live p hp next hn := by
    cases List.mem_singleton.mp hp
    cases hn
    refine ⟨Nat.le_refl _, fun seq hs => full_of_nil ?_⟩
    rw [Nat.lt_one_iff.mp hs]
    rfl

theorem running_eq_some {s : Socket} {pid : Nat} {p : Process} :
    s.running pid = some p ↔ s.processes[pid]? = some p ∧ p.alive = true := by
  unfold running
  rw [Option.filter_eq_some_iff]

theorem running_put {s : Socket} {pid : Nat} {p : Process} (h : s.running pid = some p)
    (p' : Process) (pid' : Nat) : (s.put pid p').running pid' =
      if pid' = pid then (if p'.alive then some p' else none) else s.running pid' := by
  have hlt := (List.getElem?_eq_some_iff.mp (running_eq_some.mp h).1).1
  unfold running put
  rw [List.getElem?_set]
  by_cases hp : pid = pid'
  · subst hp
    rw [if_pos rfl, if_pos hlt, if_pos rfl]
    cases ha : p'.alive <;> simp [Option.filter, ha]
  · rw [if_neg hp, if_neg (Ne.symm hp)]

/-- What a process fits reads the lines and the database only. -/
theorem Fits.among {s : Socket} {p : Process} (h : s.Fits p) (acked : Nat)
    (processes : List Process) (claim : Option Nat) :
    ({ s with acked, processes, claim } : Socket).Fits p :=
  ⟨h.next_le, h.given, h.hand, h.stored, h.begun⟩

/-- A step that stores nothing changes one process, which loses no line it has begun but one that
is stored whole. -/
theorem Inv.quiet {s : Socket} (h : Inv s) {pid : Nat} {p : Process} (hp : s.running pid = some p)
    {p' : Process} (hfits : p'.alive = true → s.Fits p')
    (hkept : ∀ seq index, Begun p seq index → s.Full seq ∨ (p'.alive = true ∧ Begun p' seq index))
    (hback : ∀ seq index, Begun p' seq index → Begun p seq index)
    (hlive : ∀ next ∈ p'.liveAt, next ≤ s.lines.length + 1 ∧ ∀ seq < next, s.Full seq) :
    Inv (s.put pid p') where
  mark_le := h.mark_le
  acked_le := h.acked_le
  acked := h.acked
  once := h.once
  authentic := h.authentic
  below := h.below
  full seq hseq := by
    rcases h.full seq hseq with hf | ⟨q, r, index, hr, hb⟩
    · exact .inl hf
    · by_cases hq : q = pid
      · subst hq
        cases hp.symm.trans hr
        rcases hkept seq index hb with hf | ⟨ha, hb'⟩
        · exact .inl hf
        · exact .inr ⟨q, p', index, by rw [running_put hp, if_pos rfl, if_pos ha], hb'⟩
      · exact .inr ⟨q, r, index, by rw [running_put hp, if_neg hq, hr], hb⟩
  fits q r hr := by
    rw [running_put hp] at hr
    split_ifs at hr with hq ha
    · cases hr
      exact (hfits ha).among s.acked _ s.claim
    · exact (h.fits q r hr).among s.acked _ s.claim
  alone q q' r r' seq index index' hr hr' hb hb' := by
    rw [running_put hp] at hr hr'
    by_cases hq : q = pid <;> by_cases hq' : q' = pid
    · exact hq.trans hq'.symm
    · rw [if_pos hq] at hr
      rw [if_neg hq'] at hr'
      split_ifs at hr
      cases hr
      rw [hq]
      exact h.alone pid q' p r' seq index index' hp hr' (hback seq index hb) hb'
    · rw [if_neg hq] at hr
      rw [if_pos hq'] at hr'
      split_ifs at hr'
      cases hr'
      rw [hq']
      exact h.alone q pid r p seq index index' hr hp hb (hback seq index' hb')
    · rw [if_neg hq] at hr
      rw [if_neg hq'] at hr'
      exact h.alone q q' r r' seq index index' hr hr' hb hb'
  live r hr next hn := by
    rcases List.mem_or_eq_of_mem_set hr with hr | rfl
    · exact h.live r hr next hn
    · exact hlive next hn

theorem rows_arrives {s : Socket} {new : List Row} {seq : Nat} (h : seq ≤ s.lines.length) :
    ({ s with lines := s.lines ++ [new] } : Socket).rows seq = s.rows seq := by
  unfold rows
  by_cases hz : seq = 0
  · rw [if_pos hz, if_pos hz]
  · rw [if_neg hz, if_neg hz, List.getD_append _ _ _ _ (by omega)]

theorem Inv.arrives {s : Socket} (h : Inv s) (new : List Row) :
    Inv { s with lines := s.lines ++ [new] } := by
  have hlen : (s.lines ++ [new]).length = s.lines.length + 1 := List.length_append
  have hrows : ∀ seq ≤ s.lines.length,
      ({ s with lines := s.lines ++ [new] } : Socket).rows seq = s.rows seq :=
    fun seq hs => rows_arrives hs
  have hreached : ∀ seq ≤ s.lines.length, s.Reached seq →
      ({ s with lines := s.lines ++ [new] } : Socket).Reached seq := by
    intro seq hs hr
    unfold Reached
    rw [hrows seq hs]
    exact hr
  have hfull : ∀ seq ≤ s.lines.length, s.Full seq →
      ({ s with lines := s.lines ++ [new] } : Socket).Full seq := by
    intro seq hs hf
    unfold Full
    rw [hrows seq hs]
    exact hf
  have hmark := h.mark_le
  have hacked := h.acked_le
  constructor
  · exact hmark.trans (by rw [hlen]; exact Nat.le_succ _)
  · exact hacked.trans (by rw [hlen]; exact Nat.le_succ _)
  · exact fun seq hs => hreached seq (hs.trans hacked) (h.acked seq hs)
  · exact h.once
  · intro m hm
    rw [hrows _ ((h.below m hm).trans hmark)]
    exact h.authentic m hm
  · exact h.below
  · exact fun seq hs => (h.full seq hs).imp_left (hfull seq (le_trans hs hmark))
  · intro pid p hp
    have hf := h.fits pid p hp
    have hnext := hf.next_le
    refine ⟨hnext.trans (by rw [hlen]; exact Nat.le_succ _), fun seq hs hno => ?_,
      fun seq index hh => ?_, hf.stored, hf.begun⟩
    · exact hreached seq (by omega) (hf.given seq hs hno)
    · obtain ⟨hlt, hle, hpos⟩ := hf.hand seq index hh
      rw [hrows seq (by omega)]
      exact ⟨hlt, hle, fun hi => hreached seq (by omega) (hpos hi)⟩
  · exact h.alone
  · intro p hp next hn
    obtain ⟨hle, hall⟩ := h.live p hp next hn
    exact ⟨hle.trans (by rw [hlen]; exact Nat.le_succ _),
      fun seq hs => hfull seq (by omega) (hall seq hs)⟩

theorem Inv.attaches {s : Socket} (h : Inv s) (maxId replayMaxId : Option Nat) (claim : Option Nat)
    (backlog : Nat) :
    Inv { s with
      processes := s.processes ++
        [⟨true, true, maxId, replayMaxId, none, s.acked + 1, none, backlog, none⟩]
      claim } := by
  let new : Process := ⟨true, true, maxId, replayMaxId, none, s.acked + 1, none, backlog, none⟩
  have hrun : ∀ pid p,
      ({ s with processes := s.processes ++ [new], claim } : Socket).running pid = some p →
        s.running pid = some p ∨ p = new := by
    intro pid p hp
    obtain ⟨hget, ha⟩ := running_eq_some.mp hp
    rcases lt_or_ge pid s.processes.length with hlt | hge
    · rw [List.getElem?_append_left hlt] at hget
      exact .inl (running_eq_some.mpr ⟨hget, ha⟩)
    · rw [List.getElem?_append_right hge, List.getElem?_singleton] at hget
      split_ifs at hget
      exact .inr (Option.some.inj hget).symm
  have hold : ∀ pid p, s.running pid = some p →
      ({ s with processes := s.processes ++ [new], claim } : Socket).running pid = some p := by
    intro pid p hp
    obtain ⟨hget, ha⟩ := running_eq_some.mp hp
    refine running_eq_some.mpr ⟨?_, ha⟩
    rw [List.getElem?_append_left (List.getElem?_eq_some_iff.mp hget).1]
    exact hget
  have hidle : ∀ seq index, ¬Begun new seq index := fun _ _ hb => (by cases hb.1)
  constructor
  · exact h.mark_le
  · exact h.acked_le
  · exact h.acked
  · exact h.once
  · exact h.authentic
  · exact h.below
  · intro seq hs
    refine (h.full seq hs).imp_right ?_
    rintro ⟨pid, p, index, hp, hb⟩
    exact ⟨pid, p, index, hold pid p hp, hb⟩
  · intro pid p hp
    rcases hrun pid p hp with hp | rfl
    · exact (h.fits pid p hp).among s.acked _ claim
    · refine ⟨Nat.succ_le_succ h.acked_le, fun seq hs _ => ?_, fun _ _ hh => (by cases hh),
        fun _ hh => (by cases hh), fun seq index hb => absurd hb (hidle seq index)⟩
      exact h.acked seq (Nat.lt_succ_iff.mp hs)
  · intro pid pid' p p' seq index index' hp hp' hb hb'
    rcases hrun pid p hp with hp | rfl
    · rcases hrun pid' p' hp' with hp' | rfl
      · exact h.alone pid pid' p p' seq index index' hp hp' hb hb'
      · exact absurd hb' (hidle seq index')
    · exact absurd hb (hidle seq index)
  · intro p hp next hn
    rcases List.mem_append.mp hp with hp | hp
    · exact h.live p hp next hn
    · cases List.mem_singleton.mp hp
      cases hn

/-- The process with the claim is given its next line, of which it has stored nothing. -/
theorem Inv.given {s : Socket} (h : Inv s) {pid : Nat} {p : Process} (hp : s.running pid = some p)
    (hidle : p.inHand = none) (hnext : p.next ≤ s.lines.length) :
    Inv (s.put pid { p with inHand := some (p.next, 0), next := p.next + 1 }) := by
  have hf := h.fits pid p hp
  have hbegun : ∀ seq index, ¬Begun p seq index := by
    rintro seq index ⟨hh, -⟩
    rw [hidle] at hh
    cases hh
  have hnew : ∀ seq index,
      ¬Begun { p with inHand := some (p.next, 0), next := p.next + 1 } seq index := by
    rintro seq index ⟨hh, ho⟩
    cases hh
    exact absurd (hf.stored p.next (of_decide_eq_true ho)) (Nat.lt_irrefl _)
  refine h.quiet hp (fun _ => ?_) (fun seq index hb => absurd hb (hbegun seq index))
    (fun seq index hb => absurd hb (hnew seq index)) (h.live p ?_)
  · refine ⟨Nat.succ_le_succ hnext, fun seq hs hno => ?_, fun seq index hh => ?_,
      fun seq hs => (hf.stored seq hs).trans (Nat.lt_succ_self _),
      fun seq index hb => absurd hb (hnew seq index)⟩
    · have hne : seq ≠ p.next := by
        intro he
        exact hno 0 (by rw [he])
      have hlt : seq < p.next + 1 := hs
      refine hf.given seq (by omega) fun index hh => ?_
      rw [hidle] at hh
      cases hh
    · cases hh
      exact ⟨Nat.lt_succ_self _, Nat.zero_le _, fun hi => absurd hi (Nat.lt_irrefl _)⟩
  · exact List.mem_of_getElem? (running_eq_some.mp hp).1

/-- A process that is done with a line it has begun has stored it whole. -/
theorem Fits.full {s : Socket} {p : Process} (hf : s.Fits p) {seq index : Nat}
    (hb : Begun p seq index) (hend : ¬index < (s.rows seq).length) : s.Full seq := by
  intro i hi
  exact ((hf.begun seq index hb).2 i).mpr (by omega)

theorem Inv.done {s : Socket} (h : Inv s) {pid : Nat} {p : Process} (hp : s.running pid = some p)
    {seq : Nat} (hh : p.inHand = some (seq, (s.rows seq).length)) (acked : Nat)
    (hacked : acked = s.acked ∨ acked = max s.acked seq) :
    Inv ({ s with acked }.put pid { p with inHand := none }) := by
  have hf := h.fits pid p hp
  obtain ⟨hlt, -, hpos⟩ := hf.hand seq _ hh
  have hnext := hf.next_le
  have hreached : s.Reached seq := by
    by_cases hnil : s.rows seq = []
    · exact .inl hnil
    · exact hpos (List.length_pos_iff.mpr hnil)
  have hgiven : ∀ seq' < p.next, s.Reached seq' := by
    intro seq' hs
    by_cases he : seq' = seq
    · rw [he]
      exact hreached
    · refine hf.given seq' hs fun index hi => he ?_
      rw [hh] at hi
      cases hi
      rfl
  have hput : Inv (s.put pid { p with inHand := none }) := by
    refine h.quiet hp (fun _ => ?_) (fun seq' index hb => .inl ?_) (fun _ _ hb => (by cases hb.1))
      (h.live p (List.mem_of_getElem? (running_eq_some.mp hp).1))
    · exact ⟨hnext, fun seq' hs _ => hgiven seq' hs, fun _ _ hi => (by cases hi), hf.stored,
        fun _ _ hb => (by cases hb.1)⟩
    · have hi := hh.symm.trans hb.1
      cases hi
      exact hf.full hb (Nat.lt_irrefl _)
  have hle : acked ≤ s.lines.length := by
    have := h.acked_le
    omega
  have hall : ∀ seq' ≤ acked, s.Reached seq' := by
    intro seq' hs
    by_cases hs' : seq' ≤ s.acked
    · exact h.acked seq' hs'
    · exact hgiven seq' (by omega)
  exact { hput with
    acked_le := hle, acked := hall
    fits := fun q r hr => (hput.fits q r hr).among acked _ s.claim }

/-- When nobody is between the rows of a line, every line up to the mark is stored whole. -/
theorem Inv.full_of_rest {s : Socket} (h : Inv s) (hrest : ∀ p ∈ s.processes, ¬Between s p)
    {seq : Nat} (hr : s.Reached seq) : s.Full seq := by
  rcases hr with hnil | hle
  · exact full_of_nil hnil
  · rcases h.full seq hle with hf | ⟨pid, p, index, hp, hb⟩
    · exact hf
    · obtain ⟨hget, ha⟩ := running_eq_some.mp hp
      refine (h.fits pid p hp).full hb fun hlt => ?_
      exact hrest p (List.mem_of_getElem? hget) ⟨ha, (seq, index), hb.1, hb.2, hlt⟩

theorem Inv.goesLive {s : Socket} (h : Inv s) {pid : Nat} {p : Process}
    (hp : s.running pid = some p) (hidle : p.inHand = none)
    (hrest : ∀ p ∈ s.processes, ¬Between s p) :
    Inv (s.put pid { p with catchingUp := false, catchUpMaxId := none, liveAt := some p.next }) := by
  have hf := h.fits pid p hp
  refine h.quiet hp (fun _ => ⟨hf.next_le, hf.given, hf.hand, hf.stored, hf.begun⟩)
    (fun seq index hb => .inr ⟨(running_eq_some.mp hp).2, hb⟩) (fun seq index hb => hb) ?_
  intro next hn
  cases hn
  refine ⟨hf.next_le, fun seq hs => h.full_of_rest hrest (hf.given seq hs fun index hh => ?_)⟩
  rw [hidle] at hh
  cases hh

theorem Inv.dies {s : Socket} (h : Inv s) {pid : Nat} {p : Process} (hp : s.running pid = some p)
    (hrest : ¬Between s p) : Inv (s.put pid { p with alive := false }) := by
  obtain ⟨hget, ha⟩ := running_eq_some.mp hp
  refine h.quiet hp (fun hd => by cases hd) (fun seq index hb => .inl ?_)
    (fun seq index hb => hb) (h.live p (List.mem_of_getElem? hget))
  refine (h.fits pid p hp).full hb fun hlt => ?_
  exact hrest ⟨ha, (seq, index), hb.1, hb.2, hlt⟩

theorem setEngineMark_mark {db : Tables} {seq : Nat} (h : db.mark.getD 0 ≤ seq) :
    (db.setEngineMark seq).mark.getD 0 = seq := by
  unfold Tables.setEngineMark
  cases hm : db.mark with
  | none => rfl
  | some mark =>
    rw [hm] at h
    dsimp only
    split_ifs with hlt
    · rfl
    · rw [hm]
      exact le_antisymm h (Nat.not_lt.mp hlt)

theorem setEngineMark_messages (db : Tables) (seq : Nat) :
    (db.setEngineMark seq).messages = db.messages := by
  unfold Tables.setEngineMark
  split
  · rfl
  · split_ifs <;> rfl

/-- A row of a line others have begun, or that is stored, is left alone. -/
theorem Inv.skips {s : Socket} (h : Inv s) {pid : Nat} {p : Process} (hp : s.running pid = some p)
    {seq index : Nat} (hh : p.inHand = some (seq, index)) (hi : index < (s.rows seq).length)
    (hours : p.ours seq = false) (hle : seq ≤ s.mark) :
    Inv (s.put pid { p with inHand := some (seq, index + 1) }) := by
  have hf := h.fits pid p hp
  have hidle : ∀ seq' index' (hand : Option (Nat × Nat)), (∀ x ∈ hand, x.1 = seq) →
      ¬Begun { p with inHand := hand } seq' index' := by
    rintro seq' index' hand hhand ⟨hh', ho⟩
    have he : seq' = seq := hhand _ hh'
    rw [he] at ho
    exact Bool.false_ne_true (hours.symm.trans ho)
  refine h.quiet hp (fun _ => ⟨hf.next_le, fun seq' hs hno => ?_, fun seq' index' hh' => ?_,
    hf.stored, fun seq' index' hb => ?_⟩) (fun seq' index' hb => ?_) (fun seq' index' hb => ?_)
    (h.live p (List.mem_of_getElem? (running_eq_some.mp hp).1))
  · refine hf.given seq' hs fun index' hh' => ?_
    cases hh.symm.trans hh'
    exact hno (index + 1) rfl
  · cases hh'
    exact ⟨(hf.hand seq index hh).1, hi, fun _ => .inr hle⟩
  · exact absurd hb (hidle seq' index' _ fun x hx => by cases hx; rfl)
  · exact absurd hb (hidle seq' index' p.inHand fun x hx => by cases hh.symm.trans hx; rfl)
  · exact absurd hb (hidle seq' index' _ fun x hx => by cases hx; rfl)

/-- The row of a line stored, and the mark raised to the line. -/
def withRow (s : Socket) (seq index : Nat) (row : Row) : Socket :=
  { s with db := (s.db.insertMessage row seq index).setEngineMark seq }

/-- The process that stored it, with the next row of the line before it. -/
def hasStored (p : Process) (seq index : Nat) : Process :=
  { p with storedUnderSeq := some seq, inHand := some (seq, index + 1) }

/-- The row before a process is of a line that it has begun and the mark is at, or that is above
the mark. -/
structure Due (s : Socket) (pid : Nat) (p : Process) (seq index : Nat) (row : Row) : Prop where
  running : s.running pid = some p
  hand : p.inHand = some (seq, index)
  row : (s.rows seq)[index]? = some row
  ours : (p.ours seq = true ∧ s.mark = seq) ∨ s.mark < seq

section Stores

variable {s : Socket} {pid : Nat} {p : Process} {seq index : Nat} {row : Row}

theorem withRow_mark (h : s.mark ≤ seq) : (s.withRow seq index row).mark = seq :=
  setEngineMark_mark h

theorem withRow_messages : (s.withRow seq index row).db.messages =
    s.db.messages ++ [⟨s.db.maxMessageId + 1, row, seq, index⟩] :=
  setEngineMark_messages _ _

theorem hasRow_withRow {a b : Nat} :
    HasRow (s.withRow seq index row).db a b ↔ HasRow s.db a b ∨ (a = seq ∧ b = index) := by
  unfold HasRow
  rw [withRow_messages]
  simp only [List.mem_append, List.mem_singleton, or_and_right, exists_or, exists_eq_left]
  exact or_congr_right (and_congr eq_comm eq_comm)

theorem Full.withRow {a : Nat} (h : s.Full a) : (s.withRow seq index row).Full a :=
  fun i hi => hasRow_withRow.mpr (.inl (h i hi))

theorem Reached.withRow {a : Nat} (h : s.Reached a) (hmark : s.mark ≤ seq) :
    (s.withRow seq index row).Reached a := by
  refine h.imp_right fun hle => ?_
  rw [withRow_mark hmark]
  exact hle.trans hmark

theorem begun_hasStored : Begun (hasStored p seq index) seq (index + 1) :=
  ⟨rfl, by simp [hasStored, Process.ours]⟩

theorem begun_hasStored_eq {a b : Nat} (h : Begun (hasStored p seq index) a b) :
    a = seq ∧ b = index + 1 := by
  cases h.1
  exact ⟨rfl, rfl⟩

namespace Due

theorem mark_le (hdue : Due s pid p seq index row) : s.mark ≤ seq := by
  rcases hdue.ours with ⟨-, hmark⟩ | hmark
  · exact hmark.le
  · exact hmark.le

theorem mark_after (hdue : Due s pid p seq index row) : (s.withRow seq index row).mark = seq :=
  withRow_mark hdue.mark_le

theorem index_lt (hdue : Due s pid p seq index row) : index < (s.rows seq).length :=
  (List.getElem?_eq_some_iff.mp hdue.row).1

/-- What is stored of the line so far. -/
theorem below (hdue : Due s pid p seq index row) (h : Inv s) {i : Nat} :
    HasRow s.db seq i ↔ i < index := by
  have hf := h.fits pid p hdue.running
  rcases hdue.ours with ⟨hours, -⟩ | hmark
  · exact (hf.begun seq index ⟨hdue.hand, hours⟩).2 i
  · have hzero : index = 0 := by
      by_contra hne
      rcases (hf.hand seq index hdue.hand).2.2 (Nat.pos_of_ne_zero hne) with hnil | hle
      · have hi := hdue.index_lt
        rw [hnil] at hi
        exact absurd hi (Nat.not_lt_zero _)
      · exact absurd hle (Nat.not_le.mpr hmark)
    rw [hzero]
    refine iff_of_false ?_ (Nat.not_lt_zero _)
    rintro ⟨m, hm, rfl, -⟩
    exact absurd (h.below m hm) (Nat.not_le.mpr hmark)

/-- Nobody else has begun the line. -/
theorem sole (hdue : Due s pid p seq index row) (h : Inv s) {q : Nat} {r : Process} {index' : Nat}
    (hq : q ≠ pid) (hr : s.running q = some r) : ¬Begun r seq index' := by
  intro hb
  rcases hdue.ours with ⟨hours, -⟩ | hmark
  · exact hq (h.alone q pid r p seq index' index hr hdue.running hb ⟨hdue.hand, hours⟩)
  · exact absurd ((h.fits q r hr).begun seq index' hb).1 (Nat.not_le.mpr hmark)

theorem running_after (hdue : Due s pid p seq index row) (q : Nat) :
    ((s.withRow seq index row).put pid (hasStored p seq index)).running q =
      if q = pid then some (hasStored p seq index) else s.running q := by
  rw [running_put (s := s.withRow seq index row) hdue.running]
  have halive : (hasStored p seq index).alive = true := (running_eq_some.mp hdue.running).2
  rw [if_pos halive]
  rfl

theorem once (hdue : Due s pid p seq index row) (h : Inv s) :
    ((s.withRow seq index row).db.messages.map fun m => (m.seq, m.index)).Nodup := by
  rw [withRow_messages, List.map_append, List.nodup_append]
  refine ⟨h.once, List.pairwise_singleton _ _, fun x hx y hy he => ?_⟩
  obtain ⟨m, hm, hmx⟩ := List.mem_map.mp hx
  have hnew : (m.seq, m.index) = (seq, index) := by
    rw [hmx, he]
    simpa using hy
  obtain ⟨hms, hmi⟩ := Prod.mk.inj hnew
  exact absurd ((hdue.below h).mp ⟨m, hm, hms, hmi⟩) (Nat.lt_irrefl _)

/-- A row stored is one that was, or the new one. -/
theorem stored (hdue : Due s pid p seq index row) (h : Inv s) {m : Message}
    (hm : m ∈ (s.withRow seq index row).db.messages) :
    (s.rows m.seq)[m.index]? = some m.row ∧ m.seq ≤ seq := by
  rw [withRow_messages] at hm
  rcases List.mem_append.mp hm with hm | hm
  · exact ⟨h.authentic m hm, (h.below m hm).trans hdue.mark_le⟩
  · cases List.mem_singleton.mp hm
    exact ⟨hdue.row, Nat.le_refl _⟩

/-- Up to the line, every line is stored whole or begun: one between the old mark and the line
publishes nothing. -/
theorem full (hdue : Due s pid p seq index row) (h : Inv s) {a : Nat} (ha : a ≤ seq) :
    (s.withRow seq index row).Full a ∨ ∃ q r index',
      ((s.withRow seq index row).put pid (hasStored p seq index)).running q = some r ∧
        Begun r a index' := by
  by_cases hae : a = seq
  · subst hae
    exact .inr ⟨pid, _, index + 1, by rw [hdue.running_after, if_pos rfl], begun_hasStored⟩
  by_cases ham : a ≤ s.mark
  · refine (h.full a ham).imp Full.withRow ?_
    rintro ⟨q, r, index', hr, hb⟩
    have hq : q ≠ pid := by
      rintro rfl
      cases hdue.running.symm.trans hr
      cases hdue.hand.symm.trans hb.1
      exact hae rfl
    exact ⟨q, r, index', by rw [hdue.running_after, if_neg hq, hr], hb⟩
  · have hf := h.fits pid p hdue.running
    have hlt := (hf.hand seq index hdue.hand).1
    have hr := hf.given a (by omega) fun index' hh => hae (by cases hdue.hand.symm.trans hh; rfl)
    exact .inl (full_of_nil (hr.resolve_right ham)).withRow

/-- The process that stored the row has the rows up to the next. -/
theorem fits_self (hdue : Due s pid p seq index row) (h : Inv s) :
    (s.withRow seq index row).Fits (hasStored p seq index) := by
  have hf := h.fits pid p hdue.running
  have hlt := (hf.hand seq index hdue.hand).1
  have hmark := hdue.mark_after
  refine ⟨hf.next_le, fun a ha hno => ?_, fun a b hb => ?_, fun a ha => ?_, fun a b hb => ?_⟩
  · refine (hf.given a ha fun index' hh => ?_).withRow hdue.mark_le
    cases hdue.hand.symm.trans hh
    exact hno (index + 1) rfl
  · cases hb
    exact ⟨hlt, hdue.index_lt, fun _ => .inr hmark.ge⟩
  · cases ha
    exact hlt
  · obtain ⟨rfl, rfl⟩ := begun_hasStored_eq hb
    refine ⟨hmark.ge, fun i => ?_⟩
    rw [hasRow_withRow, hdue.below h]
    omega

/-- The other processes have begun other lines. -/
theorem fits_other (hdue : Due s pid p seq index row) (h : Inv s) {q : Nat} {r : Process}
    (hq : q ≠ pid) (hr : s.running q = some r) : (s.withRow seq index row).Fits r := by
  have hf := h.fits q r hr
  refine ⟨hf.next_le, fun a ha hno => (hf.given a ha hno).withRow hdue.mark_le,
    fun a b hb => ?_, hf.stored, fun a b hb => ?_⟩
  · obtain ⟨hlt, hlen, hpos⟩ := hf.hand a b hb
    exact ⟨hlt, hlen, fun hb0 => (hpos hb0).withRow hdue.mark_le⟩
  · obtain ⟨hle, hiff⟩ := hf.begun a b hb
    have hne : a ≠ seq := by
      rintro rfl
      exact hdue.sole h hq hr hb
    refine ⟨(hle.trans hdue.mark_le).trans hdue.mark_after.ge, fun i => ?_⟩
    rw [hasRow_withRow, hiff]
    simp [hne]

theorem fits (hdue : Due s pid p seq index row) (h : Inv s) {q : Nat} {r : Process}
    (hr : ((s.withRow seq index row).put pid (hasStored p seq index)).running q = some r) :
    (s.withRow seq index row).Fits r := by
  rw [hdue.running_after] at hr
  split_ifs at hr with hq
  · cases hr
    exact hdue.fits_self h
  · exact hdue.fits_other h hq hr

/-- Whoever has begun a line after the step had begun it before, or is the process that stored
the row of it. -/
theorem begun (hdue : Due s pid p seq index row) {q a b : Nat} {r : Process}
    (hr : ((s.withRow seq index row).put pid (hasStored p seq index)).running q = some r)
    (hb : Begun r a b) : (q = pid ∧ a = seq) ∨ (q ≠ pid ∧ s.running q = some r) := by
  rw [hdue.running_after] at hr
  split_ifs at hr with hq
  · cases hr
    exact .inl ⟨hq, (begun_hasStored_eq hb).1⟩
  · exact .inr ⟨hq, hr⟩

theorem alone (hdue : Due s pid p seq index row) (h : Inv s) {q q' a b b' : Nat} {r r' : Process}
    (hr : ((s.withRow seq index row).put pid (hasStored p seq index)).running q = some r)
    (hr' : ((s.withRow seq index row).put pid (hasStored p seq index)).running q' = some r')
    (hb : Begun r a b) (hb' : Begun r' a b') : q = q' := by
  rcases hdue.begun hr hb with ⟨hq, ha⟩ | ⟨hq, hrun⟩ <;>
    rcases hdue.begun hr' hb' with ⟨hq', ha'⟩ | ⟨hq', hrun'⟩
  · exact hq.trans hq'.symm
  · subst ha
    exact absurd hb' (hdue.sole h hq' hrun')
  · subst ha'
    exact absurd hb (hdue.sole h hq hrun)
  · exact h.alone q q' r r' a b b' hrun hrun' hb hb'

end Due

/-- A row above the mark, or of a line this process has begun, is stored. -/
theorem Inv.stores (h : Inv s) (hdue : Due s pid p seq index row) :
    Inv ((s.withRow seq index row).put pid (hasStored p seq index)) where
  mark_le := by
    have hf := h.fits pid p hdue.running
    have hlt := (hf.hand seq index hdue.hand).1
    have hmark := hdue.mark_after
    have hnext := hf.next_le
    change (s.withRow seq index row).mark ≤ s.lines.length
    omega
  acked_le := h.acked_le
  acked a ha := (h.acked a ha).withRow hdue.mark_le
  once := hdue.once h
  authentic m hm := (hdue.stored h hm).1
  below m hm := (hdue.stored h hm).2.trans hdue.mark_after.ge
  full a ha := hdue.full h (ha.trans hdue.mark_after.le)
  fits q r hr := (hdue.fits h hr).among s.acked _ s.claim
  alone q q' r r' a b b' hr hr' hb hb' := hdue.alone h hr hr' hb hb'
  live r hr next hn := by
    have hwas : ∃ r₀ ∈ s.processes, r₀.liveAt = some next := by
      rcases List.mem_or_eq_of_mem_set hr with hr | rfl
      · exact ⟨r, hr, hn⟩
      · exact ⟨p, List.mem_of_getElem? (running_eq_some.mp hdue.running).1, hn⟩
    obtain ⟨r₀, hr₀, hn₀⟩ := hwas
    obtain ⟨hle, hall⟩ := h.live r₀ hr₀ next hn₀
    exact ⟨hle, fun a ha => (hall a ha).withRow⟩

end Stores

theorem publish_skips {p : Process} {db : Tables} {seq index : Nat} {row : Row}
    (hours : p.ours seq = false) (hle : seq ≤ db.mark.getD 0) :
    publish p db seq index row = (p, db) := by
  unfold publish storeUnderCatchUpMark Tables.storeUnderMark
  simp [hours, hle]

theorem publish_stores {p : Process} {db : Tables} {seq index : Nat} {row : Row}
    (hours : (p.ours seq = true ∧ p.catchingUp = false ∧ db.mark.getD 0 = seq) ∨
      (p.ours seq = false ∧ db.mark.getD 0 < seq)) (hprobe : probed p db row = false) :
    publish p db seq index row = ({ p with storedUnderSeq := some seq },
      (db.insertMessage row seq index).setEngineMark seq) := by
  have hnew : alreadyPersisted p db seq row = false := by
    unfold alreadyPersisted
    rcases hours with ⟨-, hc, -⟩ | ⟨-, hm⟩
    · simp [hc, hprobe]
    · simp [hprobe, hm]
  have hstore : db.storeUnderMark seq (fun db => db.insertMessage row seq index) (p.ours seq)
      = some ((db.insertMessage row seq index).setEngineMark seq) := by
    unfold Tables.storeUnderMark
    rcases hours with ⟨ho, -, hm⟩ | ⟨ho, hm⟩
    · simp [ho, hm]
    · simp [ho, hm]
  unfold publish storeUnderCatchUpMark
  rw [hnew, hstore]
  rfl

theorem Inv.step {s : Socket} (h : Inv s) (e : Event) (hmeets : Meets s e) : Inv (step s e) := by
  cases e with
  | arrives new => exact h.arrives new
  | attaches => exact h.attaches _ _ _ _
  | given =>
    simp only [Socket.step]
    split
    case h_1 => exact h
    case h_2 pid p hclaim =>
      obtain ⟨q, -, hq⟩ := Option.bind_eq_some_iff.mp hclaim
      obtain ⟨r, hr, he⟩ := Option.map_eq_some_iff.mp hq
      cases he
      split_ifs with hready
      · exact h.given hr hready.1 hready.2
      · exact h
  | publishes pid =>
    simp only [Socket.step]
    split
    case h_1 => exact h
    case h_2 p hp =>
      split
      case h_1 => exact h
      case h_2 seq index hh =>
        split
        case h_1 => exact h
        case h_2 row hrow =>
          obtain ⟨hown, hprobe⟩ := hmeets p hp (seq, index) hh row hrow
          have hi := (List.getElem?_eq_some_iff.mp hrow).1
          cases ho : p.ours seq with
          | true =>
            obtain ⟨hc, hm⟩ := hown ho
            have hmark : s.mark = seq := by
              unfold mark
              rw [hm]
              rfl
            have hstored := h.stores ⟨hp, hh, hrow, .inl ⟨ho, hmark⟩⟩
            rw [publish_stores (.inl ⟨ho, hc, hmark⟩) (hprobe (.inl ho))]
            exact hstored
          | false =>
            by_cases hm : s.mark < seq
            · have hstored := h.stores ⟨hp, hh, hrow, .inr hm⟩
              rw [publish_stores (.inr ⟨ho, hm⟩) (hprobe (.inr hm))]
              exact hstored
            · rw [publish_skips ho (Nat.not_lt.mp hm)]
              exact h.skips hp hh hi ho (Nat.not_lt.mp hm)
  | done pid =>
    simp only [Socket.step]
    split
    case h_1 => exact h
    case h_2 p hp =>
      split
      case h_1 => exact h
      case h_2 seq index hh =>
        split
        case isTrue hend =>
          subst hend
          refine h.done hp hh _ ?_
          split_ifs
          · exact .inr rfl
          · exact .inl rfl
        case isFalse => exact h
  | live =>
    simp only [Socket.step]
    split
    case h_1 => exact h
    case h_2 pid p hclaim =>
      obtain ⟨q, -, hq⟩ := Option.bind_eq_some_iff.mp hclaim
      obtain ⟨r, hr, he⟩ := Option.map_eq_some_iff.mp hq
      cases he
      split_ifs with hready
      · exact h.goesLive hr hready.2.1 hmeets
      · exact h
  | dies pid =>
    simp only [Socket.step]
    split
    case h_1 => exact h
    case h_2 p hp => exact h.dies hp (hmeets p hp)

instance (s : Socket) (e : Event) : Decidable (Meets s e) := by
  unfold Meets
  split <;> infer_instance

/-- A line of text in a channel. -/
def said (text : String) : Row :=
  ⟨"#a", "message", some "bob", some text, 0, none, false, false⟩

def quit (channel : String) : Row :=
  ⟨channel, "quit", some "bob", none, 1000, none, false, false⟩

end Socket
end Lurker.Db.EngineMarks
