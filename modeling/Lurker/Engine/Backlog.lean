import Lurker.Engine.LineBuffer
import Lurker.Lib.Run

/-!
# Backlogs under one budget

Any number of backlogs share one byte budget. Each operation on one of them adjusts its own
byte count and the shared one, and under pressure a push drops lines of others. The counts
always agree with the lines, and a push leaves every backlog and the total within their caps,
or with no line to spare.
-/

namespace Lurker.Engine

/-- The backlogs of a process, numbered as they are made. -/
structure Backlogs where
  budget : ByteBudget Nat
  content : Nat → LineBuffer
  made : Nat

namespace Backlogs

inductive Op where
  | make (maxBytes : Nat)
  | push (now : Int) (b : Nat) (line : String)
  | ack (b : Nat) (seq : Int)
  | takeGap (b : Nat)
  | dispose (b : Nat)

/-- A backlog that is made and not disposed. -/
def Registered (s : Backlogs) (b : Nat) : Prop := b ∈ s.budget.buffers

instance (s : Backlogs) (b : Nat) : Decidable (s.Registered b) :=
  inferInstanceAs (Decidable (_ ∈ _))

/-- Put a backlog down, and what it gained or freed. -/
def put (s : Backlogs) (b : Nat) (buffer : LineBuffer) : Backlogs :=
  { s with
    budget := { s.budget with used := s.budget.used + (buffer.bytes - (s.content b).bytes) }
    content := Function.update s.content b buffer }

def reclaim (now : Int) (s : Backlogs) : Backlogs :=
  let r := s.budget.reclaim now s.content
  { s with budget := r.1, content := r.2 }

def step (s : Backlogs) : Op → Backlogs
  | .make maxBytes =>
    { budget := s.budget.register s.made
      content := Function.update s.content s.made (.new maxBytes)
      made := s.made + 1 }
  | .push now b line =>
    -- nothing is pushed to a disposed backlog
    if s.Registered b then (s.put b (((s.content b).append line).trim now)).reclaim now else s
  | .ack b seq => if b < s.made then s.put b ((s.content b).ack seq) else s
  | .takeGap b =>
    if b < s.made then { s with content := Function.update s.content b (s.content b).takeGap } else s
  | .dispose b =>
    if b < s.made then
      let s := s.put b (s.content b).dispose
      { s with budget := s.budget.unregister b }
    else s

/-- No backlog is made yet. -/
def start (max : Int) : Backlogs := ⟨⟨max, 0, []⟩, fun _ => .new 0, 0⟩

/-- Every count agrees with the lines it is about. -/
structure Consistent (s : Backlogs) : Prop where
  bytes : ∀ b, (s.content b).bytes = totalBytes (s.content b).lines
  used : s.budget.used = (s.budget.buffers.map fun b => (s.content b).bytes).sum
  seqs : ∀ b, (s.content b).lines.map BufferedLine.seq =
    List.range' ((s.content b).lastSeq + 1 - (s.content b).length) (s.content b).length
  gap : ∀ b g, (s.content b).gap = some g → g.firstDroppedSeq ≤ g.lastDroppedSeq ∧
    ∀ l ∈ (s.content b).lines, g.lastDroppedSeq < l.seq

/-- Every backlog is within its cap or down to one line, and the total is within the budget's
or no backlog has a line to spare. -/
structure Capped (s : Backlogs) : Prop where
  own : ∀ b, (s.content b).bytes ≤ (s.content b).maxBytes ∨ (s.content b).length = 1
  shared : s.budget.used ≤ s.budget.max ∨ ∀ b, s.Registered b → (s.content b).length ≤ 1

/-- An operation that neither pushes to a backlog, nor disposes it, nor acks a seq of it. -/
def Op.Keeps (b seq : Nat) : Op → Prop
  | .push _ c _ => c ≠ b
  | .ack c k => c = b → k < seq
  | .dispose c => c ≠ b
  | .make _ => True
  | .takeGap _ => True

/-- The accounts of a process after some operations. -/
structure Accounted (max : Int) (ops : List Op) : Prop where
  consistent : (Run.after step (start max) ops).Consistent
  capped : (Run.after step (start max) ops).Capped
  /-- The line pushed last is pending until it is acked or its backlog disposed. -/
  newest : ∀ ops₁ now b line ops₂, ops = ops₁ ++ .push now b line :: ops₂ →
    (Run.after step (start max) ops₁).Registered b →
    (∀ op ∈ ops₂, op.Keeps b ((Run.after step (start max) ops₁).content b).nextSeq) →
    ⟨((Run.after step (start max) ops₁).content b).nextSeq, line⟩ ∈
      ((Run.after step (start max) ops).content b).lines
  /-- A hole lies above what was acked since it was recorded. -/
  above : ∀ ops₁ ops₂ b, ops = ops₁ ++ ops₂ →
    (∀ ops', ops' <+: ops₂ → ((Run.after step (start max) (ops₁ ++ ops')).content b).gap ≠ none) →
    ∀ k : Int, .ack b k ∈ ops₂ → ∀ g, ((Run.after step (start max) ops).content b).gap = some g →
      k < g.firstDroppedSeq
  /-- The loop of `reclaim` comes to its end. -/
  reclaims : ∀ now,
    ((Run.after step (start max) ops).budget.reclaim now
      (Run.after step (start max) ops).content).1.used ≤
        (Run.after step (start max) ops).budget.max ∨
    ∀ b, (Run.after step (start max) ops).Registered b →
      (((Run.after step (start max) ops).budget.reclaim now
        (Run.after step (start max) ops).content).2 b).length ≤ 1

end Backlogs

namespace LineBuffer

variable {b : LineBuffer}

theorem lineBytes_nonneg (line : String) : 0 ≤ lineBytes line := by
  unfold lineBytes
  omega

theorem totalBytes_nonneg (lines : List BufferedLine) : 0 ≤ totalBytes lines := by
  refine List.sum_nonneg fun n hn => ?_
  obtain ⟨l, -, rfl⟩ := List.mem_map.mp hn
  exact lineBytes_nonneg l.line

theorem totalBytes_drop_le (lines : List BufferedLine) (n : Nat) :
    totalBytes (lines.drop n) ≤ totalBytes lines := by
  have hsplit : totalBytes (lines.take n) + totalBytes (lines.drop n) = totalBytes lines := by
    unfold totalBytes
    rw [← List.sum_append, ← List.map_append, List.take_append_drop]
  have hpos := totalBytes_nonneg (lines.take n)
  omega

theorem drops_lines (now : Int) (k : Nat) (b : LineBuffer) :
    (b.drops now k).lines = b.lines.drop k := by
  induction k with
  | zero => rfl
  | succ k ih =>
    rw [drops_succ]
    show (b.drops now k).lines.drop 1 = _
    rw [ih, List.drop_drop]

theorem drops_maxBytes (now : Int) (k : Nat) (b : LineBuffer) :
    (b.drops now k).maxBytes = b.maxBytes := by
  induction k with
  | zero => rfl
  | succ k ih =>
    rw [drops_succ]
    exact ih

theorem drops_bytes_le (now : Int) (k : Nat) (b : LineBuffer) :
    (b.drops now k).bytes ≤ b.bytes := by
  rw [bytes_eq, bytes_eq, drops_lines]
  exact totalBytes_drop_le _ _

theorem ack_bytes_le (seq : Int) (b : LineBuffer) : (b.ack seq).bytes ≤ b.bytes := by
  rw [bytes_eq, bytes_eq]
  exact totalBytes_drop_le _ _

theorem bytes_of_nil (h : b.lines = []) : b.bytes = 0 := by
  rw [bytes_eq, h]
  rfl

/-- A hole that stays keeps its start when lines are dropped. -/
theorem drops_gap (now : Int) (k : Nat) {g : Gap} (hg : b.gap = some g) :
    ∃ g', (b.drops now k).gap = some g' ∧ g'.firstDroppedSeq = g.firstDroppedSeq := by
  induction k with
  | zero => exact ⟨g, hg, rfl⟩
  | succ k ih =>
    obtain ⟨g', hg', hfirst⟩ := ih
    rw [drops_succ]
    by_cases hempty : 0 < (b.drops now k).length
    · refine ⟨_, gap_dropOldest now hempty, ?_⟩
      rw [hg']
      exact hfirst
    · rw [dropOldest_of_empty now (by omega)]
      exact ⟨g', hg', hfirst⟩

/-- An ack leaves a hole only above what it acks, and not below where it was. -/
theorem ack_gap {seq : Int} {g' : Gap} (hg' : (b.ack seq).gap = some g') :
    seq < g'.firstDroppedSeq ∧ ∃ g, b.gap = some g ∧ g.firstDroppedSeq ≤ g'.firstDroppedSeq := by
  have hin : (b.ack seq).InGap g'.firstDroppedSeq :=
    ⟨g', hg', le_rfl, ((b.ack seq).gap_below g' hg').2.1⟩
  obtain ⟨⟨g, hg, hle, -⟩, hlt⟩ := inGap_ack.mp hin
  exact ⟨hlt, g, hg, hle⟩

end LineBuffer

namespace Backlogs

open LineBuffer

variable {s : Backlogs}

/-- What holds in every state reached. -/
structure Inv (s : Backlogs) : Prop where
  nodup : s.budget.buffers.Nodup
  made : ∀ b, s.Registered b → b < s.made
  used : s.budget.used = (s.budget.buffers.map fun b => (s.content b).bytes).sum
  cap : ∀ b, 0 ≤ (s.content b).maxBytes
  idle : ∀ b, ¬ s.Registered b → (s.content b).lines = []
  unmade : ∀ b, s.made ≤ b → (s.content b).gap = none
  capped : s.Capped

theorem inv_start (max : Int) : Inv (start max) where
  nodup := List.nodup_nil
  made b hb := by cases hb
  used := rfl
  cap _ := le_rfl
  idle _ _ := rfl
  unmade _ _ := rfl
  capped := ⟨fun _ => Or.inl le_rfl, Or.inr fun b hb => by cases hb⟩

theorem content_put (b c : Nat) (buffer : LineBuffer) :
    (s.put b buffer).content c = if c = b then buffer else s.content c := by
  simp only [put, Function.update_apply]

/-- A backlog put down keeps the total the sum of the registered ones. -/
theorem used_put (h : Inv s) {b : Nat} {buffer : LineBuffer}
    (hidle : ¬ s.Registered b → buffer.lines = []) :
    (s.put b buffer).budget.used =
      (s.budget.buffers.map fun c => ((s.put b buffer).content c).bytes).sum := by
  by_cases hb : s.Registered b
  · simp only [put, ByteBudget.sum_update h.nodup hb, h.used]
  · have hsame : (s.budget.buffers.map fun c => ((s.put b buffer).content c).bytes) =
        s.budget.buffers.map fun c => (s.content c).bytes :=
      List.map_congr_left fun c hc => by
        rw [content_put, if_neg (ne_of_mem_of_not_mem hc hb)]
    rw [hsame, ← h.used]
    simp only [put, bytes_of_nil (hidle hb), bytes_of_nil (h.idle b hb), sub_self, add_zero]

/-- A backlog that has given up lines is within its cap still. -/
theorem own_of_fewer {b b' : LineBuffer} (hcap : 0 ≤ b.maxBytes)
    (h : b.bytes ≤ b.maxBytes ∨ b.length = 1) (hmax : b'.maxBytes = b.maxBytes)
    (hbytes : b'.bytes ≤ b.bytes) (hlength : b'.length ≤ b.length) :
    b'.bytes ≤ b'.maxBytes ∨ b'.length = 1 := by
  rw [hmax]
  rcases h with h | h
  · exact Or.inl (hbytes.trans h)
  · by_cases hone : b'.length = 1
    · exact Or.inr hone
    · have hnil : b'.lines = [] := by
        refine List.length_eq_zero_iff.mp ?_
        unfold length at hone hlength h
        omega
      rw [bytes_of_nil hnil]
      exact Or.inl hcap

/-- An operation by which one backlog gives up lines. -/
theorem inv_fewer (h : Inv s) {b : Nat} (buffer : LineBuffer) (hb : b < s.made)
    (hmax : buffer.maxBytes = (s.content b).maxBytes)
    (hbytes : buffer.bytes ≤ (s.content b).bytes) (hlength : buffer.length ≤ (s.content b).length) :
    Inv (s.put b buffer) := by
  have hidle (hout : ¬ s.Registered b) : buffer.lines = [] := by
    refine List.length_eq_zero_iff.mp (Nat.le_zero.mp (hlength.trans ?_))
    exact (congrArg List.length (h.idle b hout)).le
  refine ⟨h.nodup, h.made, used_put h hidle, fun c => ?_, fun c hc => ?_, fun c hc => ?_,
    fun c => ?_, ?_⟩
  · rw [content_put]
    split
    · rw [hmax]
      exact h.cap b
    · exact h.cap c
  · rw [content_put]
    split
    next heq => exact hidle (heq ▸ hc)
    next => exact h.idle c hc
  · rw [content_put, if_neg (hb.trans_le hc).ne']
    exact h.unmade c hc
  · rw [content_put]
    split
    · exact own_of_fewer (h.cap b) (h.capped.own b) hmax hbytes hlength
    · exact h.capped.own c
  · refine h.capped.shared.imp (fun hfits => ?_) fun hfew c hc => ?_
    · show s.budget.used + (buffer.bytes - (s.content b).bytes) ≤ s.budget.max
      omega
    · rw [content_put]
      split
      next heq => exact hlength.trans (hfew b (heq ▸ hc))
      next => exact hfew c hc

/-- A line comes to a backlog, which gives up its own oldest ones over its cap. -/
theorem append_trim_spec (now : Int) (b : LineBuffer) (line : String) :
    ∃ k, (b.append line).trim now = (b.append line).drops now k ∧ k < b.length + 1 ∧
      (((b.append line).trim now).bytes ≤ ((b.append line).trim now).maxBytes ∨
        ((b.append line).trim now).length = 1) := by
  obtain ⟨⟨k, heq, hk⟩, hstop⟩ := trim_spec now (b.append line)
  have hlength : (b.append line).length = b.length + 1 := by
    simp [length, LineBuffer.append]
  have hk' : k < b.length + 1 := by omega
  refine ⟨k, heq, hk', ?_⟩
  have hleft : ((b.append line).trim now).length = b.length + 1 - k := by
    rw [heq, ← hlength]
    unfold length
    rw [drops_lines, List.length_drop]
  omega

theorem content_push {now : Int} {b : Nat} {line : String} (hb : s.Registered b) (c : Nat) :
    ∃ k, (s.step (.push now b line)).content c =
        ((if c = b then (s.content b).append line else s.content c)).drops now k ∧
      (k < (if c = b then (s.content b).append line else s.content c).length ∨ k = 0) := by
  simp only [step, if_pos hb, reclaim]
  obtain ⟨k, heq, hk, -⟩ := (s.put b (((s.content b).append line).trim now)).budget.reclaim_drops now
    (s.put b (((s.content b).append line).trim now)).content c
  rw [heq]
  rw [content_put] at hk ⊢
  split
  next hc =>
    obtain ⟨j, htrim, hj, -⟩ := append_trim_spec now (s.content b) line
    rw [if_pos hc, htrim] at hk
    rw [htrim, drops_drops]
    refine ⟨j + k, rfl, Or.inl ?_⟩
    have hlength : ((s.content b).append line).lines.length = (s.content b).lines.length + 1 := by
      simp [LineBuffer.append]
    simp only [length, drops_lines, List.length_drop] at hj hk ⊢
    omega
  next hc =>
    rw [if_neg hc] at hk
    exact ⟨k, rfl, hk⟩

theorem registered_push {now : Int} {b c : Nat} {line : String} (hc : s.Registered c) :
    (s.step (.push now c line)).Registered b ↔ s.Registered b := by
  simp only [step, if_pos hc]
  unfold Registered reclaim
  rw [ByteBudget.reclaim_buffers]
  rfl

theorem inv_push (h : Inv s) {now : Int} {b : Nat} {line : String} (hb : s.Registered b) :
    Inv (s.step (.push now b line)) := by
  set t := s.put b (((s.content b).append line).trim now) with ht
  obtain ⟨j, htrim, -, hown⟩ := append_trim_spec now (s.content b) line
  have hmade : b < s.made := h.made b hb
  have hstep : s.step (.push now b line) = t.reclaim now := by
    simp only [step, if_pos hb, ht]
  have hused : t.budget.used = (s.budget.buffers.map fun c => (t.content c).bytes).sum :=
    used_put h fun hout => absurd hb hout
  have hcontent (c : Nat) : t.content c =
      if c = b then ((s.content b).append line).trim now else s.content c := content_put ..
  have hmax (c : Nat) : (t.content c).maxBytes = (s.content c).maxBytes := by
    rw [hcontent]
    split
    next heq =>
      rw [htrim, drops_maxBytes, heq]
      rfl
    next => rfl
  have htown (c : Nat) : (t.content c).bytes ≤ (t.content c).maxBytes ∨ (t.content c).length = 1 := by
    rw [hcontent]
    split
    · exact hown
    · exact h.capped.own c
  rw [hstep]
  have hbuffers : (t.reclaim now).budget.buffers = s.budget.buffers :=
    ByteBudget.reclaim_buffers now t.budget t.content
  have hregistered (c : Nat) : (t.reclaim now).Registered c ↔ s.Registered c := by
    unfold Registered
    rw [hbuffers]
  have hleft (c : Nat) : ∃ k, (t.reclaim now).content c = (t.content c).drops now k ∧
      (¬ s.Registered c → k = 0) := by
    obtain ⟨k, heq, -, hzero⟩ := t.budget.reclaim_drops now t.content c
    exact ⟨k, heq, hzero⟩
  refine ⟨hbuffers ▸ h.nodup, fun c hc => h.made c ((hregistered c).mp hc), ?_, fun c => ?_,
    fun c hc => ?_, fun c hc => ?_, fun c => ?_, ?_⟩
  · rw [hbuffers]
    exact ByteBudget.reclaim_used now t.budget t.content h.nodup hused
  · obtain ⟨k, heq, -⟩ := hleft c
    rw [heq, drops_maxBytes, hmax]
    exact h.cap c
  · have hout := mt (hregistered c).mpr hc
    obtain ⟨k, heq, -⟩ := hleft c
    rw [heq, drops_lines, hcontent, if_neg (ne_of_mem_of_not_mem hb hout).symm, h.idle c hout]
    exact List.drop_nil
  · obtain ⟨k, heq, hzero⟩ := hleft c
    have hout : ¬ s.Registered c := fun hin => absurd (h.made c hin) (not_lt.mpr hc)
    rw [heq, hzero hout, hcontent, if_neg (hmade.trans_le hc).ne']
    exact h.unmade c hc
  · obtain ⟨k, heq, -⟩ := hleft c
    rw [heq]
    refine own_of_fewer ?_ (htown c) (drops_maxBytes now k _) (drops_bytes_le now k _) ?_
    · rw [hmax]
      exact h.cap c
    · unfold length
      rw [drops_lines, List.length_drop]
      exact Nat.sub_le _ _
  · refine (ByteBudget.reclaim_spec now t.budget t.content).imp (fun hfits => ?_) fun hfew c hc => ?_
    · exact hfits.trans_eq (ByteBudget.reclaim_max now t.budget t.content).symm
    · exact hfew c ((hregistered c).mp hc)

theorem inv_make (h : Inv s) (maxBytes : Nat) : Inv (s.step (.make maxBytes)) := by
  have hnew : ¬ s.Registered s.made := fun hin => absurd (h.made _ hin) (lt_irrefl _)
  have hregistered (c : Nat) : (s.step (.make maxBytes)).Registered c ↔
      s.Registered c ∨ c = s.made := by
    simp [step, Registered, ByteBudget.register]
  have hcontent (c : Nat) : (s.step (.make maxBytes)).content c =
      if c = s.made then LineBuffer.new maxBytes else s.content c := by
    simp only [step, Function.update_apply]
  refine ⟨?_, fun c hc => ?_, ?_, fun c => ?_, fun c hc => ?_, fun c hc => ?_, fun c => ?_, ?_⟩
  · exact List.nodup_append.mpr ⟨h.nodup, List.pairwise_singleton _ _, fun a ha c hc =>
      ne_of_mem_of_not_mem ha (List.mem_singleton.mp hc ▸ hnew)⟩
  · rcases (hregistered c).mp hc with hc | rfl
    · exact (h.made c hc).trans (Nat.lt_succ_self _)
    · exact Nat.lt_succ_self _
  · show s.budget.used = _
    have hsame : (s.budget.buffers.map fun c => ((s.step (.make maxBytes)).content c).bytes) =
        s.budget.buffers.map fun c => (s.content c).bytes :=
      List.map_congr_left fun c hc => by
        rw [hcontent, if_neg (ne_of_mem_of_not_mem hc hnew)]
    show _ = ((s.budget.buffers ++ [s.made]).map _).sum
    rw [List.map_append, List.sum_append, hsame, ← h.used]
    simp only [List.map_cons, List.map_nil, List.sum_singleton]
    rw [hcontent, if_pos rfl]
    exact (add_zero _).symm
  · rw [hcontent]
    split
    · exact Int.natCast_nonneg maxBytes
    · exact h.cap c
  · rw [hcontent]
    split
    · rfl
    · exact h.idle c fun hin => hc ((hregistered c).mpr (Or.inl hin))
  · have hlt : s.made < c := hc
    rw [hcontent, if_neg hlt.ne']
    exact h.unmade c hlt.le
  · rw [hcontent]
    split
    · exact Or.inl (Int.natCast_nonneg maxBytes)
    · exact h.capped.own c
  · refine h.capped.shared.imp id fun hfew c hc => ?_
    rw [hcontent]
    split
    · exact Nat.zero_le 1
    · next hother => exact hfew c (((hregistered c).mp hc).resolve_right hother)

theorem inv_dispose (h : Inv s) {b : Nat} (hb : b < s.made) : Inv (s.step (.dispose b)) := by
  have hput := inv_fewer h (s.content b).dispose hb rfl ?_ (Nat.zero_le _)
  · set t := s.put b (s.content b).dispose with ht
    have hstep : s.step (.dispose b) = { t with budget := t.budget.unregister b } := by
      simp only [step, if_pos hb, ht]
    have hregistered (c : Nat) : (s.step (.dispose b)).Registered c ↔ t.Registered c ∧ c ≠ b := by
      rw [hstep]
      simp [Registered, ByteBudget.unregister]
    rw [hstep] at hregistered ⊢
    have hzero : (t.content b).bytes = 0 := by
      rw [ht, content_put, if_pos rfl]
      rfl
    refine ⟨hput.nodup.filter _, fun c hc => hput.made c ((hregistered c).mp hc).1, ?_, hput.cap,
      fun c hc => ?_, hput.unmade, hput.capped.own, ?_⟩
    · show t.budget.used = ((t.budget.buffers.filter (· ≠ b)).map fun c => (t.content c).bytes).sum
      rw [hput.used]
      clear_value t
      induction t.budget.buffers with
      | nil => rfl
      | cons c l ih =>
        rw [List.filter_cons]
        split
        · rw [List.map_cons, List.map_cons, List.sum_cons, List.sum_cons, ih]
        · next heq =>
          have hcb : c = b := by simpa using heq
          rw [List.map_cons, List.sum_cons, ih, hcb, hzero, zero_add]
    · by_cases hcb : c = b
      · rw [hcb, ht]
        show ((s.put b (s.content b).dispose).content b).lines = []
        rw [content_put, if_pos rfl]
        rfl
      · exact hput.idle c fun hin => hc ((hregistered c).mpr ⟨hin, hcb⟩)
    · exact hput.capped.shared.imp id fun hfew c hc => hfew c ((hregistered c).mp hc).1
  · rw [bytes_eq]
    exact (totalBytes_nonneg _).trans_eq (s.content b).bytes_eq.symm

theorem inv_step (h : Inv s) (op : Op) : Inv (s.step op) := by
  cases op with
  | make maxBytes => exact inv_make h maxBytes
  | push now b line =>
    by_cases hb : s.Registered b
    · exact inv_push h hb
    · simp only [step, if_neg hb]
      exact h
  | ack b seq =>
    simp only [step]
    split
    · next hb =>
      refine inv_fewer h _ hb rfl (ack_bytes_le seq _) ?_
      simp [length, LineBuffer.ack]
    · exact h
  | takeGap b =>
    simp only [step]
    split
    · next hb =>
      have hput := inv_fewer h (s.content b).takeGap hb rfl le_rfl le_rfl
      have hused : s.budget.used + ((s.content b).takeGap.bytes - (s.content b).bytes) =
          s.budget.used := by
        show s.budget.used + ((s.content b).bytes - (s.content b).bytes) = _
        omega
      unfold put at hput
      rw [hused] at hput
      exact hput
    · exact h
  | dispose b =>
    by_cases hb : b < s.made
    · exact inv_dispose h hb
    · simp only [step, if_neg hb]
      exact h

theorem inv_run (max : Int) (ops : List Op) : Inv (Run.after step (start max) ops) :=
  Run.invariant step (inv_start max) (fun _ op h => inv_step h op) ops

theorem consistent_of_inv (h : Inv s) : s.Consistent where
  bytes b := (s.content b).bytes_eq
  used := h.used
  seqs b := by
    have hlt := (s.content b).length_lt
    rw [(s.content b).seqs]
    unfold lastSeq length
    congr 1
    omega
  gap b g hg := by
    obtain ⟨-, hle, hbelow⟩ := (s.content b).gap_below g hg
    refine ⟨hle, fun l hl => ?_⟩
    have hpending := (mem_lines_pending hl).1
    unfold front length at hpending
    omega

/-- The line pushed last stays the last of its backlog. -/
theorem last_step (h : Inv s) {b : Nat} {l : BufferedLine}
    (hl : (s.content b).lines.getLast? = some l) (hb : s.Registered b) {op : Op}
    (hop : op.Keeps b l.seq) :
    ((s.step op).content b).lines.getLast? = some l ∧ (s.step op).Registered b := by
  have hdrop (n : Nat) (hn : n < (s.content b).lines.length) :
      ((s.content b).lines.drop n).getLast? = some l := by
    rw [List.getLast?_drop, if_neg (not_le.mpr hn)]
    exact hl
  cases op with
  | make maxBytes =>
    have hne : b ≠ s.made := (h.made b hb).ne
    refine ⟨?_, List.mem_append_left _ hb⟩
    simp only [step, Function.update_of_ne hne]
    exact hl
  | push now c line =>
    by_cases hc : s.Registered c
    · obtain ⟨k, heq, hk⟩ := content_push hc b
      rw [if_neg (Ne.symm hop)] at heq hk
      refine ⟨?_, ?_⟩
      · rw [heq, drops_lines]
        rcases hk with hk | rfl
        · exact hdrop k hk
        · exact hl
      · exact (registered_push hc).mpr hb
    · simp only [step, if_neg hc]
      exact ⟨hl, hb⟩
  | ack c k =>
    simp only [step]
    split
    · refine ⟨?_, hb⟩
      rw [content_put]
      split
      · next hbc =>
        subst hbc
        -- the last line is above what is acked, so not all are freed
        show ((s.content b).lines.drop _).getLast? = _
        refine hdrop _ ?_
        have hcount := (s.content b).ackedCount_le k
        have hspec := ((s.content b).ackedCount_spec k).1
        by_contra hall
        have hne : (s.content b).lines ≠ [] := fun hnil => by
          rw [hnil] at hl
          cases hl
        have hpos := List.length_pos_iff.mpr hne
        have hseq := seq_getElem (s.content b) ((s.content b).lines.length - 1) (by omega)
        have hlast : (s.content b).lines[(s.content b).lines.length - 1] = l := by
          rw [List.getLast?_eq_getElem?, List.getElem?_eq_getElem (by omega)] at hl
          exact Option.some.inj hl
        rw [hlast] at hseq
        have hacked := hspec ((s.content b).lines.length - 1) (by omega)
        have hkept : k < l.seq := hop rfl
        omega
      · exact hl
    · exact ⟨hl, hb⟩
  | takeGap c =>
    simp only [step]
    split
    · refine ⟨?_, hb⟩
      simp only [Function.update_apply]
      split
      · next hbc =>
        subst hbc
        exact hl
      · exact hl
    · exact ⟨hl, hb⟩
  | dispose c =>
    simp only [step]
    split
    · refine ⟨?_, List.mem_filter.mpr ⟨hb, decide_eq_true (Ne.symm hop)⟩⟩
      show ((s.put c (s.content c).dispose).content b).lines.getLast? = _
      rw [content_put, if_neg (Ne.symm hop)]
      exact hl
    · exact ⟨hl, hb⟩

theorem last_run (h : Inv s) {b : Nat} {l : BufferedLine}
    (hl : (s.content b).lines.getLast? = some l) (hb : s.Registered b) {ops : List Op}
    (hops : ∀ op ∈ ops, op.Keeps b l.seq) :
    ((Run.after step s ops).content b).lines.getLast? = some l := by
  induction ops generalizing s with
  | nil => exact hl
  | cons op ops ih =>
    obtain ⟨hl, hb⟩ := last_step h hl hb (hops op List.mem_cons_self)
    exact ih (inv_step h op) hl hb fun op hop => hops op (List.mem_cons_of_mem _ hop)

/-- A pushed line is the last of its backlog. -/
theorem last_push {now : Int} {b : Nat} {line : String} (hb : s.Registered b) :
    ((s.step (.push now b line)).content b).lines.getLast? =
      some ⟨(s.content b).nextSeq, line⟩ := by
  obtain ⟨k, heq, hk⟩ := content_push hb b
  rw [if_pos rfl] at heq hk
  have hlast : ((s.content b).append line).lines.getLast? = some ⟨(s.content b).nextSeq, line⟩ :=
    List.getLast?_concat
  rw [heq, drops_lines]
  rcases hk with hk | rfl
  · unfold length at hk
    rw [List.getLast?_drop, if_neg (not_le.mpr hk)]
    exact hlast
  · exact hlast

/-- What a step leaves of a hole starts no lower, and above what the step acks. -/
theorem gap_step (h : Inv s) {b : Nat} {g g' : Gap} (hg : (s.content b).gap = some g) {op : Op}
    (hg' : ((s.step op).content b).gap = some g') :
    g.firstDroppedSeq ≤ g'.firstDroppedSeq ∧ ∀ k : Int, op = .ack b k → k < g'.firstDroppedSeq := by
  have hmade : b < s.made := by
    by_contra hout
    rw [h.unmade b (not_lt.mp hout)] at hg
    cases hg
  have hsame (heq : g' = g) (hop : ∀ k, op ≠ .ack b k) :
      g.firstDroppedSeq ≤ g'.firstDroppedSeq ∧ ∀ k : Int, op = .ack b k → k < g'.firstDroppedSeq :=
    ⟨heq ▸ le_rfl, fun k hk => absurd hk (hop k)⟩
  cases op with
  | make maxBytes =>
    simp only [step, Function.update_of_ne hmade.ne] at hg'
    exact hsame (Option.some.inj (hg'.symm.trans hg)) fun k hk => by cases hk
  | push now c line =>
    by_cases hc : s.Registered c
    · obtain ⟨k, heq, -⟩ := content_push hc b
      have hbefore : (if b = c then (s.content c).append line else s.content b).gap = some g := by
        split
        · next hbc => exact hbc ▸ hg
        · exact hg
      obtain ⟨g'', hg'', hfirst⟩ := drops_gap now k hbefore
      rw [heq, hg''] at hg'
      obtain rfl := Option.some.inj hg'
      exact ⟨hfirst.ge, fun k hk => by cases hk⟩
    · simp only [step, if_neg hc] at hg'
      exact hsame (Option.some.inj (hg'.symm.trans hg)) fun k hk => by cases hk
  | ack c k =>
    simp only [step] at hg'
    split at hg'
    · rw [content_put] at hg'
      split at hg'
      · next hbc =>
        subst hbc
        obtain ⟨hlt, g₁, hg₁, hle⟩ := ack_gap hg'
        obtain rfl := Option.some.inj (hg.symm.trans hg₁)
        refine ⟨hle, fun k' hk' => ?_⟩
        cases hk'
        exact hlt
      · next hbc =>
        refine hsame (Option.some.inj (hg'.symm.trans hg)) fun k' hk' => ?_
        cases hk'
        exact hbc rfl
    · next hout =>
      refine hsame (Option.some.inj (hg'.symm.trans hg)) fun k' hk' => ?_
      cases hk'
      exact hout hmade
  | takeGap c =>
    simp only [step] at hg'
    split at hg'
    · simp only [Function.update_apply] at hg'
      split at hg'
      · cases hg'
      · exact hsame (Option.some.inj (hg'.symm.trans hg)) fun k hk => by cases hk
    · exact hsame (Option.some.inj (hg'.symm.trans hg)) fun k hk => by cases hk
  | dispose c =>
    simp only [step] at hg'
    split at hg'
    · have hsplit : ((s.put c (s.content c).dispose).content b).gap = some g' := hg'
      rw [content_put] at hsplit
      split at hsplit
      · next hbc =>
        subst hbc
        exact hsame (Option.some.inj (hsplit.symm.trans hg)) fun k hk => by cases hk
      · exact hsame (Option.some.inj (hsplit.symm.trans hg)) fun k hk => by cases hk
    · exact hsame (Option.some.inj (hg'.symm.trans hg)) fun k hk => by cases hk

/-- A hole that is there all along lies above all that was acked. -/
theorem gap_run (h : Inv s) {b : Nat} {ops : List Op}
    (hthere : ∀ ops', ops' <+: ops → ((Run.after step s ops').content b).gap ≠ none) {k : Int}
    (hk : .ack b k ∈ ops) {g : Gap} (hg : ((Run.after step s ops).content b).gap = some g) :
    k < g.firstDroppedSeq := by
  induction ops using List.reverseRecOn generalizing g with
  | nil => cases hk
  | append_singleton ops op ih =>
    have hinv : Inv (Run.after step s ops) := Run.invariant step h (fun _ op h => inv_step h op) ops
    obtain ⟨g₀, hg₀⟩ := Option.ne_none_iff_exists'.mp (hthere ops (List.prefix_append ops [op]))
    rw [Run.after_concat] at hg
    obtain ⟨hle, hacked⟩ := gap_step hinv hg₀ hg
    rcases List.mem_append.mp hk with hk | hk
    · have hlt := ih (fun ops' hpre => hthere ops' (hpre.trans (List.prefix_append ops [op]))) hk hg₀
      omega
    · exact hacked k (List.mem_singleton.mp hk).symm

/-- The accounts of backlogs under one budget are right after any operations. -/
theorem backlogs_accounted (max : Int) (ops : List Op) : Accounted max ops where
  consistent := consistent_of_inv (inv_run max ops)
  capped := (inv_run max ops).capped
  newest ops₁ now b line ops₂ heq hb hkeeps := by
    have hinv := inv_run max ops₁
    subst heq
    rw [Run.after_append, Run.after_cons]
    exact List.mem_of_getLast?
      (last_run (inv_step hinv _) (last_push hb) ((registered_push hb).mpr hb) hkeeps)
  above ops₁ ops₂ b heq hthere k hk g hg := by
    subst heq
    rw [Run.after_append] at hg
    refine gap_run (inv_run max ops₁) (fun ops' hpre => ?_) hk hg
    rw [← Run.after_append]
    exact hthere ops' hpre
  reclaims now := by
    obtain hfits | hfew := (Run.after step (start max) ops).budget.reclaim_spec now
      (Run.after step (start max) ops).content
    · exact Or.inl hfits
    · exact Or.inr hfew

end Backlogs

end Lurker.Engine
