import Lurker.Engine.Session

/-!
# What one attachment is told

Within one attachment the lines go out in order and every seq passed over was
reported lost or acked by somebody. The invariant ties the announcements made
so far to the sink's position, the moving front of the backlog and the
recorded hole.
-/

namespace Lurker.Engine

open EngineToApp (Announces Before)

namespace LineBuffer

/-- The recorded hole ends where the pending lines begin. -/
def Tight (b : LineBuffer) : Prop := ∀ g, b.gap = some g → g.lastDroppedSeq + 1 = b.front

variable {b : LineBuffer}

theorem Tight.append (h : b.Tight) (line : String) : (b.append line).Tight := by
  intro g hg
  rw [front_append]
  exact h g hg

theorem Tight.dropOldest (h : b.Tight) (now : Int) : (b.dropOldest now).Tight := by
  by_cases hl : 0 < b.length
  · intro g hg
    rw [gap_dropOldest now hl] at hg
    obtain rfl := Option.some.inj hg
    rw [front_dropOldest now hl]
    cases hb : b.gap <;> rfl
  · rw [dropOldest_of_empty now (by omega)]
    exact h

theorem Tight.drops (h : b.Tight) (now : Int) (k : Nat) : (b.drops now k).Tight :=
  drops_induct (P := Tight) now (fun _ hb => hb.dropOldest now) k h

theorem Tight.ack (h : b.Tight) (seq : Int) : (b.ack seq).Tight := by
  intro g hg
  obtain ⟨g', hg', ha⟩ := Option.bind_eq_some_iff.mp hg
  have hfront := h g' hg'
  -- an ack that leaves some of the hole frees no line
  have hnone : seq < (g'.lastDroppedSeq : Int) → b.ackedCount seq = 0 := by
    intro hlt
    by_contra hne
    have := b.ackedCount_spec seq |>.1 0 (by omega)
    omega
  rw [front_ack]
  simp only [Gap.ackTo] at ha
  split at ha
  · cases ha
  · rename_i hlt
    rw [hnone (by omega)]
    split at ha
    · obtain rfl := Option.some.inj ha; exact hfront
    · obtain rfl := Option.some.inj ha; exact hfront

end LineBuffer

/-- What has been told to a sink, against the upstream that told it. -/
structure Tidy (covered : Nat) (acked : Nat → Prop) (u : Upstream) (told : List EngineToApp) :
    Prop where
  tight : u.buffer.Tight
  sent_lt : u.sentSeq < u.buffer.nextSeq
  burstEnd_lt : u.burstEndSeq < u.buffer.nextSeq
  covered_le : covered ≤ u.sentSeq
  ordered : told.Pairwise Before
  lines : ∀ id seq text, .line id seq text ∈ told → covered < seq ∧ seq ≤ u.sentSeq
  gaps : ∀ id h, .gap id h ∈ told → h.lastDroppedSeq < u.buffer.front ∧
    ∀ g, u.buffer.gap = some g → h.lastDroppedSeq < g.firstDroppedSeq
  accounted : ∀ f ∈ told, ∀ lo k, f.Announces lo → lo ≤ k → k < u.buffer.nextSeq →
    (∃ f ∈ told, f.Announces k) ∨ acked k ∨
      u.sentSeq < k ∧ (u.buffer.Pending k ∨ u.buffer.InGap k)

namespace Tidy

variable {covered : Nat} {acked acked' : Nat → Prop} {u v : Upstream} {told fs : List EngineToApp}
  {f : EngineToApp}

/-- Nothing that a delivery is decided by has changed. -/
theorem same (h : Tidy covered acked u told) (hb : v.buffer = u.buffer) (hs : v.sentSeq = u.sentSeq)
    (he : v.burstEndSeq < u.buffer.nextSeq) : Tidy covered acked v told where
  tight := hb ▸ h.tight
  sent_lt := by rw [hb, hs]; exact h.sent_lt
  burstEnd_lt := hb ▸ he
  covered_le := hs ▸ h.covered_le
  ordered := h.ordered
  lines := by rw [hs]; exact h.lines
  gaps := by rw [hb]; exact h.gaps
  accounted := by rw [hb, hs]; exact h.accounted

theorem keeps (h : Tidy covered acked u told) (hk : u.Keeps v) : Tidy covered acked v told :=
  h.same hk.buffer hk.sentSeq (hk.burstEnd.elim (fun he => he ▸ h.burstEnd_lt) And.right)

theorem emitGap (h : Tidy covered acked u told) {g : Gap} (hg : u.gapToReport = some g) :
    Tidy covered acked u.takeGap (told ++ [.gap u.id g]) := by
  obtain ⟨hgap, hnew⟩ := Option.filter_eq_some_iff.mp hg
  have hnew : u.sentSeq < g.lastDroppedSeq := of_decide_eq_true hnew
  have hfront := h.tight g hgap
  refine ⟨nofun, h.sent_lt, h.burstEnd_lt, h.covered_le, ?_, ?_, ?_, ?_⟩
  · refine List.pairwise_append.mpr ⟨h.ordered, List.pairwise_singleton _ _, fun f hf f' hf' => ?_⟩
    obtain rfl := List.mem_singleton.mp hf'
    cases f with
    | gap id g' => exact (h.gaps id g' hf).2 g hgap
    | _ => trivial
  · intro id seq text hm
    rcases List.mem_append.mp hm with hm | hm
    · exact h.lines id seq text hm
    · exact nomatch List.mem_singleton.mp hm
  · intro id g' hm
    refine ⟨?_, nofun⟩
    rcases List.mem_append.mp hm with hm | hm
    · exact (h.gaps id g' hm).1
    · cases List.mem_singleton.mp hm
      change g.lastDroppedSeq < u.buffer.front
      omega
  · intro f hf lo k hlo hle hlt
    -- what the gap covers is announced by it, what follows it is pending
    by_cases hk : g.firstDroppedSeq ≤ k
    · by_cases hk' : k ≤ g.lastDroppedSeq
      · exact .inl ⟨_, List.mem_append_right _ (List.mem_singleton_self _), hk, hk'⟩
      · exact .inr (.inr ⟨by change u.sentSeq < k; omega, .inl ⟨by change u.buffer.front ≤ k; omega, hlt⟩⟩)
    · have hf : f ∈ told := by
        rcases List.mem_append.mp hf with hf | hf
        · exact hf
        · obtain rfl := List.mem_singleton.mp hf
          have : g.firstDroppedSeq ≤ lo := hlo.1
          omega
      rcases h.accounted f hf lo k hlo hle hlt with ⟨f', hf', ha⟩ | ha | ⟨hs, hp | hp⟩
      · exact .inl ⟨f', List.mem_append_left _ hf', ha⟩
      · exact .inr (.inl ha)
      · exact .inr (.inr ⟨hs, .inl hp⟩)
      · obtain ⟨g', hg', hc⟩ := hp
        obtain rfl := Option.some.inj (hg'.symm.trans hgap)
        exact absurd hc.1 hk

theorem emitLine (h : Tidy covered acked u told) {b : BufferedLine} (hb : b ∈ u.buffer.lines)
    (hseq : b.seq = max (u.sentSeq + 1) u.buffer.front) (hgap : u.gapToReport = none) :
    Tidy covered acked (u.sentUpTo b.seq) (told ++ [.line u.id b.seq b.line]) := by
  obtain ⟨hlo, hhi⟩ := LineBuffer.mem_lines_pending hb
  have hnone : ∀ k, u.sentSeq < k → ¬ u.buffer.InGap k := by
    rintro k hk ⟨g, hg, hc⟩
    have hle := Option.filter_eq_none_iff.mp hgap g hg
    simp only [decide_eq_true_eq] at hle
    exact hle (Nat.lt_of_lt_of_le hk hc.2)
  refine ⟨h.tight, hhi, h.burstEnd_lt, ?_, ?_, ?_, ?_, ?_⟩
  · have := h.covered_le
    change covered ≤ b.seq
    omega
  · refine List.pairwise_append.mpr ⟨h.ordered, List.pairwise_singleton _ _, fun f hf f' hf' => ?_⟩
    obtain rfl := List.mem_singleton.mp hf'
    cases f with
    | line id seq text =>
      have := (h.lines id seq text hf).2
      change seq < b.seq
      omega
    | gap id g =>
      have := (h.gaps id g hf).1
      change g.lastDroppedSeq < b.seq
      omega
    | _ => trivial
  · intro id seq text hm
    rcases List.mem_append.mp hm with hm | hm
    · have := h.lines id seq text hm
      exact ⟨this.1, by change seq ≤ b.seq; omega⟩
    · cases List.mem_singleton.mp hm
      have := h.covered_le
      exact ⟨by omega, Nat.le_refl _⟩
  · intro id g hm
    rcases List.mem_append.mp hm with hm | hm
    · exact h.gaps id g hm
    · exact nomatch List.mem_singleton.mp hm
  · intro f hf lo k hlo' hle hlt
    have hself : ∃ f' ∈ told ++ [.line u.id b.seq b.line], f'.Announces b.seq :=
      ⟨_, List.mem_append_right _ (List.mem_singleton_self _), rfl⟩
    by_cases hk : k = b.seq
    · exact .inl (hk ▸ hself)
    · by_cases hgt : b.seq < k
      · exact .inr (.inr ⟨hgt, .inl ⟨by change u.buffer.front ≤ k; omega, hlt⟩⟩)
      · -- below this line nothing is owed any more
        have hf : f ∈ told := by
          rcases List.mem_append.mp hf with hf | hf
          · exact hf
          · obtain rfl := List.mem_singleton.mp hf
            have : b.seq = lo := hlo'
            omega
        rcases h.accounted f hf lo k hlo' hle hlt with ⟨f', hf', ha⟩ | ha | ⟨hs, hp | hp⟩
        · exact .inl ⟨f', List.mem_append_left _ hf', ha⟩
        · exact .inr (.inl ha)
        · have := hp.1
          omega
        · exact absurd hp (hnone k hs)

/-- A frame that announces nothing may come at any time. -/
theorem aside (h : Tidy covered acked u told) (hl : ∀ id seq text, f ≠ .line id seq text)
    (hg : ∀ id g, f ≠ .gap id g) : Tidy covered acked u (told ++ [f]) where
  tight := h.tight
  sent_lt := h.sent_lt
  burstEnd_lt := h.burstEnd_lt
  covered_le := h.covered_le
  ordered := by
    refine List.pairwise_append.mpr ⟨h.ordered, List.pairwise_singleton _ _, fun f' hf f'' hf' => ?_⟩
    obtain rfl := List.mem_singleton.mp hf'
    cases f'' with
    | line id seq text => exact absurd rfl (hl id seq text)
    | gap id g => exact absurd rfl (hg id g)
    | _ => cases f' <;> trivial
  lines id seq text hm :=
    (List.mem_append.mp hm).elim (h.lines id seq text)
      (fun hm => absurd (List.mem_singleton.mp hm).symm (hl id seq text))
  gaps id g hm :=
    (List.mem_append.mp hm).elim (h.gaps id g)
      (fun hm => absurd (List.mem_singleton.mp hm).symm (hg id g))
  accounted f' hf lo k hlo hle hlt := by
    have hf : f' ∈ told := by
      rcases List.mem_append.mp hf with hf | hf
      · exact hf
      · obtain rfl := List.mem_singleton.mp hf
        cases f' with
        | line id seq text => exact absurd rfl (hl id seq text)
        | gap id g => exact absurd rfl (hg id g)
        | _ => exact absurd hlo id
    exact (h.accounted f' hf lo k hlo hle hlt).imp_left
      (fun ⟨f'', hf'', ha⟩ => ⟨f'', List.mem_append_left _ hf'', ha⟩)

theorem emit (h : Tidy covered acked u told) (he : Upstream.Emit u f v) :
    Tidy covered acked v (told ++ [f]) := by
  cases he with
  | gap hg => exact h.emitGap hg
  | line hb hseq hgap => exact h.emitLine hb hseq hgap
  | live => exact h.aside nofun nofun

theorem emits (h : Tidy covered acked u told) (he : Upstream.Emits u fs v) :
    Tidy covered acked v (told ++ fs) := by
  induction he with
  | refl => rw [List.append_nil]; exact h
  | note _ stalled live ih => exact ih.same rfl rfl ih.burstEnd_lt
  | emit _ hf ih => rw [← List.append_assoc]; exact ih.emit hf

theorem append (h : Tidy covered acked u told) (text : String) :
    Tidy covered acked { u with buffer := u.buffer.append text } told where
  tight := h.tight.append text
  sent_lt := Nat.lt_succ_of_lt h.sent_lt
  burstEnd_lt := Nat.lt_succ_of_lt h.burstEnd_lt
  covered_le := h.covered_le
  ordered := h.ordered
  lines := h.lines
  gaps id g hm := by
    rw [LineBuffer.front_append]
    exact h.gaps id g hm
  accounted f hf lo k hlo hle hlt := by
    by_cases hk : k = u.buffer.nextSeq
    · exact .inr (.inr ⟨hk ▸ h.sent_lt, .inl (LineBuffer.pending_append.mpr (.inr hk))⟩)
    · have hlt' : k < u.buffer.nextSeq + 1 := hlt
      refine (h.accounted f hf lo k hlo hle (by omega)).imp_right (Or.imp_right fun ⟨hs, hp⟩ => ?_)
      exact ⟨hs, hp.imp_left (fun hp => LineBuffer.pending_append.mpr (.inl hp))⟩

theorem dropOldest (h : Tidy covered acked u told) (now : Int) :
    Tidy covered acked { u with buffer := u.buffer.dropOldest now } told := by
  by_cases hl : 0 < u.buffer.length
  · refine ⟨h.tight.dropOldest now, h.sent_lt, h.burstEnd_lt, h.covered_le, h.ordered, h.lines, ?_, ?_⟩
    · intro id g hm
      obtain ⟨h1, h2⟩ := h.gaps id g hm
      refine ⟨by rw [LineBuffer.front_dropOldest now hl]; omega, fun g' hg' => ?_⟩
      rw [LineBuffer.gap_dropOldest now hl] at hg'
      obtain rfl := Option.some.inj hg'
      cases hb : u.buffer.gap with
      | none => exact h1
      | some g'' => exact h2 g'' hb
    · intro f hf lo k hlo hle hlt
      refine (h.accounted f hf lo k hlo hle hlt).imp_right (Or.imp_right fun ⟨hs, hp⟩ => ⟨hs, ?_⟩)
      rcases hp with hp | hp
      · by_cases hk : k = u.buffer.front
        · exact .inr (hk ▸ LineBuffer.inGap_dropOldest_front now hl)
        · exact .inl ((LineBuffer.pending_dropOldest now hl).mpr ⟨hp, hk⟩)
      · exact .inr (LineBuffer.inGap_dropOldest_of_inGap now hp)
  · rw [LineBuffer.dropOldest_of_empty now (by omega)]
    exact h.same rfl rfl h.burstEnd_lt

theorem drops (h : Tidy covered acked u told) (now : Int) (j : Nat) :
    Tidy covered acked { u with buffer := u.buffer.drops now j } told :=
  LineBuffer.drops_induct (P := fun b => Tidy covered acked { u with buffer := b } told) now
    (fun _ hb => hb.dropOldest now) j (h.same rfl rfl h.burstEnd_lt)

theorem store (h : Tidy covered acked u told) (now : Int) (forced : Nat) (text : String) :
    Tidy covered acked (u.store now forced text) told := by
  obtain ⟨⟨i, hi, -⟩, -⟩ := (u.buffer.append text).trim_spec now
  unfold Upstream.store
  rw [hi, LineBuffer.drops_drops]
  exact (h.append text).drops now (i + forced)

theorem ack (h : Tidy covered acked u told) (seq : Int) (hacked : ∀ k, acked k → acked' k)
    (hseq : ∀ k, u.sentSeq < k → (k : Int) ≤ seq → acked' k) :
    Tidy covered acked' (u.ack seq) told where
  tight := h.tight.ack seq
  sent_lt := h.sent_lt
  burstEnd_lt := h.burstEnd_lt
  covered_le := h.covered_le
  ordered := h.ordered
  lines := h.lines
  gaps id g hm := by
    obtain ⟨h1, h2⟩ := h.gaps id g hm
    refine ⟨?_, fun g' hg' => ?_⟩
    · change g.lastDroppedSeq < (u.buffer.ack seq).front
      rw [LineBuffer.front_ack]
      omega
    · obtain ⟨g'', hg'', ha⟩ := Option.bind_eq_some_iff.mp hg'
      have := h2 g'' hg''
      simp only [LineBuffer.Gap.ackTo] at ha
      split at ha
      · cases ha
      · split at ha
        · obtain rfl := Option.some.inj ha
          simp only
          omega
        · obtain rfl := Option.some.inj ha
          exact this
  accounted f hf lo k hlo hle hlt := by
    rcases h.accounted f hf lo k hlo hle hlt with ha | ha | ⟨hs, hp⟩
    · exact .inl ha
    · exact .inr (.inl (hacked k ha))
    · by_cases hk : (k : Int) ≤ seq
      · exact .inr (.inl (hseq k hs hk))
      · refine .inr (.inr ⟨hs, ?_⟩)
        exact hp.imp (fun hp => LineBuffer.pending_ack.mpr ⟨hp, by omega⟩)
          (fun hp => LineBuffer.inGap_ack.mpr ⟨hp, by omega⟩)

/-- Nothing has been told yet. -/
theorem start (htight : u.buffer.Tight) (hs : u.sentSeq < u.buffer.nextSeq)
    (he : u.burstEndSeq < u.buffer.nextSeq) (hc : covered ≤ u.sentSeq) :
    Tidy covered acked u [] where
  tight := htight
  sent_lt := hs
  burstEnd_lt := he
  covered_le := hc
  ordered := .nil
  lines _ _ _ hm := absurd hm List.not_mem_nil
  gaps _ _ hm := absurd hm List.not_mem_nil
  accounted _ hf := absurd hf List.not_mem_nil

theorem attach (h : Tidy covered acked u told) (sink : LinkId) (frame : Nat) (now : Int)
    (ok : Nat → Bool) :
    Tidy (match (u.attach now sink frame).2 with | .payload _ => u.burstEndSeq | _ => 0) acked'
      (u.attachTo sink frame now ok).1 (u.attachTo sink frame now ok).2 := by
  unfold Upstream.attachTo
  rcases u.attach_cases now sink frame with ⟨p, he, -⟩ | ⟨he, -⟩ | ⟨he, -⟩ <;> rw [he]
  · have hstart : Tidy u.burstEndSeq acked' (u.takeSink sink frame).skipBurst [] :=
      .start (h.tight.ack _) h.burstEnd_lt h.burstEnd_lt (Nat.le_refl _)
    exact hstart.emits (Upstream.flushAfterAttach_emits ok _)
  · exact .start h.tight h.sent_lt h.burstEnd_lt (Nat.zero_le _)
  · exact .start h.tight (Nat.zero_lt_of_lt h.sent_lt) h.burstEnd_lt (Nat.le_refl _)

theorem onLine (h : Tidy covered acked u told) (env : Platform) (text : String) (now : Int)
    (forced : Nat) (ok : Nat → Bool) :
    Tidy covered acked (u.onLine env text now forced ok).1
      (told ++ (u.onLine env text now forced ok).2) := by
  unfold Upstream.onLine
  split
  · rw [List.append_nil]; exact h
  · rename_i msg _
    split
    · rw [List.append_nil]; exact h.keeps (Upstream.keeps_answerPing u msg.params)
    · have hk := Upstream.keeps_trackLine env u text msg
      have hstore := (h.keeps hk).store now forced text
      have hn : (u.trackLine env text msg).1.buffer.nextSeq <
          ((u.trackLine env text msg).1.store now forced text).buffer.nextSeq := by
        obtain ⟨⟨i, hi, -⟩, -⟩ :=
          ((u.trackLine env text msg).1.buffer.append text).trim_spec now
        simp only [Upstream.store]
        rw [hi, LineBuffer.drops_drops]
        have hd : ∀ b : LineBuffer, (b.drops now (i + forced)).nextSeq = b.nextSeq := fun b =>
          LineBuffer.drops_induct (P := fun b' => b'.nextSeq = b.nextSeq) now (fun _ h => h) _ rfl
        rw [hd]
        exact Nat.lt_succ_self _
      obtain ⟨fs, hfs, he⟩ := Upstream.flush_emits ok
        (((u.trackLine env text msg).1.store now forced text).noteBurstEnd
          (u.trackLine env text msg).1.buffer.nextSeq) []
      simp only
      rw [hfs, List.nil_append]
      exact (hstore.keeps (Upstream.keeps_noteBurstEnd _ hn)).emits he

theorem onOpen (h : Tidy covered acked u told) (l r : Endpoint) :
    Tidy covered acked (u.onOpen l r).1 (told ++ (u.onOpen l r).2) := by
  unfold Upstream.onOpen
  split
  · rw [List.append_nil]; exact h
  · have hv : Tidy covered acked (u.openedAt (u.localEnd.getD l) (u.remoteEnd.getD r)) told :=
      h.same rfl rfl h.burstEnd_lt
    cases u.sink with
    | none => simpa using hv
    | some l' => exact hv.aside nofun nofun

theorem act (h : Tidy covered acked u told) (env : Platform) {a : Act}
    (hack : ∀ seq, a ≠ .ack seq) (hattach : ∀ sink frame now ok, a ≠ .attach sink frame now ok) :
    Tidy covered acked (u.act env a).1 (told ++ (u.act env a).2) := by
  cases a with
  | dial =>
    simp only [Upstream.act, List.append_nil]
    cases hd : u.dial env with
    | error e => exact h
    | ok v =>
      obtain ⟨-, -, -, -, -, -, hb, hs, he, -⟩ := Upstream.dial_spec hd
      exact h.same hb hs (he ▸ h.burstEnd_lt)
  | tunnel l r =>
    simp only [Upstream.act, List.append_nil]
    split
    · exact h.same rfl rfl h.burstEnd_lt
    · exact h
  | opened l r =>
    simp only [Upstream.act]
    split
    · exact h.onOpen l r
    · rw [List.append_nil]; exact h
  | line text now forced ok => exact h.onLine env text now forced ok
  | shed now forced =>
    simp only [Upstream.act, List.append_nil]
    exact h.drops now forced
  | write line =>
    simp only [Upstream.act, List.append_nil]
    exact h.keeps (Upstream.keeps_rawWrite u line)
  | ack seq => exact absurd rfl (hack seq)
  | resume ok =>
    have hu : Tidy covered acked u.unstall told := h.same rfl rfl h.burstEnd_lt
    obtain ⟨fs, hfs, he⟩ := Upstream.flush_emits ok u.unstall []
    simp only [Upstream.act, Upstream.resume]
    rw [hfs, List.nil_append]
    exact hu.emits he
  | attach sink frame now ok => exact absurd rfl (hattach sink frame now ok)
  | detach now =>
    simp only [Upstream.act, List.append_nil]
    unfold Upstream.detach
    split
    · exact h
    · exact h.same rfl rfl h.burstEnd_lt
  | close =>
    simp only [Upstream.act, List.append_nil]
    exact h.keeps (Upstream.keeps_close u)

end Tidy

namespace Attachment

/-- An upstream that has not been dialed yet. -/
def init (env : Platform) (socketId : SocketId) (opts : UpstreamOptions) (bufferBytes : Int) :
    Attachment where
  upstream := .new env socketId opts bufferBytes

theorem step_tidy (env : Platform) {w : Attachment}
    (h : Tidy w.covered w.AckedUnsent w.upstream w.told) (a : Act) :
    Tidy (w.step env a).covered (w.step env a).AckedUnsent (w.step env a).upstream
      (w.step env a).told := by
  cases a with
  | attach sink frame now ok => exact h.attach sink frame now ok
  | ack seq =>
    simp only [step, Upstream.act, List.append_nil]
    refine h.ack seq ?_ ?_
    · rintro k ⟨a, ha, hk⟩
      exact ⟨a, List.mem_append_left _ ha, hk⟩
    · exact fun k hk hs => ⟨(w.upstream.sentSeq, seq), List.mem_append_right _ (List.mem_singleton_self _), hk, hs⟩
  | _ => exact h.act env nofun nofun

/-- In every run of an upstream, within every attachment: the lines go out in
order, all of them after the replayed burst; a seq between two announced ones is
announced or was acked before it was sent; a gap that has been reported covers
no line sent later, and no gap overlaps another. -/
theorem announced_in_order (env : Platform) (socketId : SocketId) (opts : UpstreamOptions)
    (bufferBytes : Int) (es : List Act) :
    let w := Run.after (step env) (init env socketId opts bufferBytes) es
    w.told.Pairwise Before ∧
      (∀ id seq text, .line id seq text ∈ w.told → w.covered < seq) ∧
      ∀ f ∈ w.told, ∀ f' ∈ w.told, ∀ lo hi k, f.Announces lo → f'.Announces hi → lo ≤ k → k ≤ hi →
        (∃ f'' ∈ w.told, f''.Announces k) ∨ w.AckedUnsent k := by
  intro w
  have h0 : LineBuffer.Tight (.new bufferBytes) := fun g hg => nomatch (hg : none = some g)
  have h : Tidy w.covered w.AckedUnsent w.upstream w.told :=
    Run.invariant (step env) (s := init env socketId opts bufferBytes)
      (P := fun w => Tidy w.covered w.AckedUnsent w.upstream w.told)
      (.start h0 Nat.one_pos Nat.one_pos (Nat.le_refl _)) (fun _ a h => step_tidy env h a) es
  refine ⟨h.ordered, fun id seq text hm => (h.lines id seq text hm).1, ?_⟩
  intro f hf f' hf' lo hi k hlo hhi hle hle'
  cases f' with
  | line id seq text =>
    have hsent := (h.lines id seq text hf').2
    have hlt := h.sent_lt
    have hseq : seq = hi := hhi
    rcases h.accounted f hf lo k hlo hle (by omega) with ha | ha | ⟨hs, -⟩
    · exact .inl ha
    · exact .inr ha
    · omega
  | gap id g =>
    obtain ⟨hfront, hnew⟩ := h.gaps id g hf'
    have hlast : hi ≤ g.lastDroppedSeq := hhi.2
    have hlen := w.upstream.buffer.front_add_length
    rcases h.accounted f hf lo k hlo hle (by omega) with ha | ha | ⟨-, hp | ⟨g', hg', hc⟩⟩
    · exact .inl ha
    · exact .inr ha
    · have := hp.1
      omega
    · have := hnew g' hg'
      have := hc.1
      omega
  | _ => exact absurd hhi id

/-- A socket that registers under its first sink, and hears three lines more. -/
def threeLinesOn : List Act :=
  [.dial, .attach 0 0 0 (fun _ => true), .opened ⟨"10.0.0.1", 6667⟩ ⟨"10.0.0.2", 6667⟩] ++
    [":srv 001 me :hi", ":srv 376 me :end", ":a PRIVMSG me :x", ":a PRIVMSG me :y",
      ":a PRIVMSG me :z"].map (fun text => .line text 0 0 (fun _ => true))

/-- Its next sink is full after one line, and drains. -/
theorem announced_in_order_resumed :
    let w := Run.after (step .plain)
      (init .plain 0 .blank 1000)
      (threeLinesOn ++ [.attach 1 0 0 (fun _ => false), .resume (fun _ => true)])
    (∃ f ∈ w.told, f.Announces 4) ∨ w.AckedUnsent 4 := by
  intro w
  have h := announced_in_order .plain 0 .blank 1000
    (threeLinesOn ++ [.attach 1 0 0 (fun _ => false), .resume (fun _ => true)])
  exact h.2.2 (.line "" 3 ":a PRIVMSG me :x") (by decide +kernel)
    (.line "" 5 ":a PRIVMSG me :z") (by decide +kernel) 3 5 4 rfl rfl (by decide) (by decide)

/-- Its next sink is full after one line, and the first one's app acks the next
line meanwhile: the new sink is never told of it. -/
theorem acked_line_not_announced :
    ¬ ∀ (env : Platform) (socketId : SocketId) (opts : UpstreamOptions) (bufferBytes : Int)
      (es : List Act),
      let w := Run.after (step env) (init env socketId opts bufferBytes) es
      ∀ f ∈ w.told, ∀ f' ∈ w.told, ∀ lo hi k, f.Announces lo → f'.Announces hi → lo ≤ k → k ≤ hi →
        ∃ f'' ∈ w.told, f''.Announces k := by
  intro h
  obtain ⟨f, hf, ha⟩ := h .plain 0 .blank 1000
    (threeLinesOn ++ [.attach 1 0 0 (fun _ => false), .ack 4, .resume (fun _ => true)])
    (.line "" 3 ":a PRIVMSG me :x") (by decide +kernel)
    (.line "" 5 ":a PRIVMSG me :z") (by decide +kernel) 3 5 4 rfl rfl (by decide) (by decide)
  have htold : (Run.after (step .plain) (init .plain 0 .blank 1000)
      (threeLinesOn ++ [.attach 1 0 0 (fun _ => false), .ack 4, .resume (fun _ => true)])).told =
      [.line "" 3 ":a PRIVMSG me :x", .line "" 5 ":a PRIVMSG me :z", .live ""] := by
    decide +kernel
  rw [htold] at hf
  simp only [List.mem_cons, List.not_mem_nil, or_false] at hf
  rcases hf with rfl | rfl | rfl
  · exact absurd (show (3 : Nat) = 4 from ha) (by decide)
  · exact absurd (show (5 : Nat) = 4 from ha) (by decide)
  · exact ha

end Attachment

end Lurker.Engine
