import Lurker.Engine.Upstream

/-!
# What an upstream's operations may do

Two relations say once what the operations of `EngineUpstream` can change.
`Keeps` covers everything that tracks, writes or closes: it leaves the buffer
and the delivery position alone. `Emits` takes a flush apart into single
frames, each with the upstream it leaves; it is the induction every result
about delivery runs on.
-/

namespace Lurker.Engine

namespace Upstream

/-- A socket whose dial threw: it never produces an event. -/
def Inert (u : Upstream) : Prop :=
  u.hasSocket = false ∧ u.proxyDialPending = false ∧ u.state = .dialing

/-- A socket on its way out, or gone, that nobody hears from again. -/
def Over (u : Upstream) : Prop := u.sink = none ∧ (u.closing = true ∨ u.state = .closed)

/-- A socket that registered over a connection whose two ends are known. -/
def Ready (u : Upstream) : Prop :=
  u.localEnd.isSome = true ∧ u.remoteEnd.isSome = true ∧ u.burstDone = true

/-- `v` differs from `u` in nothing that decides who hears what. -/
structure Keeps (u v : Upstream) : Prop where
  id : v.id = u.id
  instanceId : v.opts.instanceId = u.opts.instanceId
  socketId : v.socketId = u.socketId
  buffer : v.buffer = u.buffer
  state : v.state = u.state
  sink : v.sink = u.sink
  attachedBy : v.attachedBy = u.attachedBy
  stalled : v.stalled = u.stalled
  sentSeq : v.sentSeq = u.sentSeq
  closing : u.closing = true → v.closing = true
  quiet : u.quietClose = true → v.quietClose = true
  inert : u.Inert → v.Inert
  burstEnd : v.burstEndSeq = u.burstEndSeq ∨ u.burstEndSeq = 0 ∧ v.burstEndSeq < u.buffer.nextSeq
  ready : u.Ready → v.Ready

namespace Keeps

variable {u v w : Upstream}

theorem refl (u : Upstream) : Keeps u u :=
  ⟨rfl, rfl, rfl, rfl, rfl, rfl, rfl, rfl, rfl, fun h => h, fun h => h, fun h => h, .inl rfl, fun h => h⟩

theorem trans (h : Keeps u v) (h' : Keeps v w) : Keeps u w where
  id := h'.id.trans h.id
  instanceId := h'.instanceId.trans h.instanceId
  socketId := h'.socketId.trans h.socketId
  buffer := h'.buffer.trans h.buffer
  state := h'.state.trans h.state
  sink := h'.sink.trans h.sink
  attachedBy := h'.attachedBy.trans h.attachedBy
  stalled := h'.stalled.trans h.stalled
  sentSeq := h'.sentSeq.trans h.sentSeq
  closing := h'.closing ∘ h.closing
  quiet := h'.quiet ∘ h.quiet
  inert := h'.inert ∘ h.inert
  burstEnd := by
    rcases h'.burstEnd with h1 | h1
    · rw [h1]; exact h.burstEnd
    · rw [h.buffer] at h1
      rcases h.burstEnd with h2 | h2
      · exact .inr ⟨h2 ▸ h1.1, h1.2⟩
      · exact .inr ⟨h2.1, h1.2⟩
  ready := h'.ready ∘ h.ready

end Keeps

section

variable (env : Platform) (u : Upstream)

theorem keeps_onTcpConnect (l r : Endpoint) : Keeps u (u.onTcpConnect l r) := by
  unfold onTcpConnect
  split
  · exact .refl u
  · exact { Keeps.refl u with ready := fun h => ⟨rfl, rfl, h.2.2⟩ }

theorem burstDone_onTcpConnect (l r : Endpoint) :
    (u.onTcpConnect l r).burstDone = u.burstDone := by
  unfold onTcpConnect; split <;> rfl

theorem keeps_onTunnel (h : u.proxyDialPending = true) (l r : Endpoint) :
    Keeps u (u.onTunnel l r) :=
  { Keeps.refl u with
    inert := fun hi => by rw [hi.2.1] at h; exact nomatch h
    ready := fun h => ⟨rfl, rfl, h.2.2⟩ }

theorem keeps_tunnelOver : Keeps u { u with proxyDialPending := false } :=
  { Keeps.refl u with inert := fun h => ⟨h.1, rfl, h.2.2⟩ }

theorem keeps_lastError (e : Option String) : Keeps u { u with lastError := e } :=
  { Keeps.refl u with }

theorem keeps_dropPeer (why : String) : Keeps u (u.dropPeer why) := { Keeps.refl u with }

theorem keeps_rawWrite (line : String) : Keeps u (u.rawWrite line) := by
  unfold rawWrite
  split
  · exact { Keeps.refl u with }
  · exact .refl u

theorem burstDone_rawWrite (line : String) : (u.rawWrite line).burstDone = u.burstDone := by
  unfold rawWrite; split <;> rfl

theorem burstDone_answerPing (params : List String) :
    (u.answerPing params).burstDone = u.burstDone := by
  simp only [answerPing]
  split
  · exact burstDone_rawWrite u _
  · exact burstDone_rawWrite u _

theorem keeps_answerPing (params : List String) : Keeps u (u.answerPing params) := by
  have hw := keeps_rawWrite u (params.getLast?.elim "PONG" ("PONG :" ++ ·))
  unfold answerPing
  simp only
  split
  · exact hw.trans { Keeps.refl _ with }
  · exact hw

theorem keeps_startClose : Keeps u u.startClose :=
  { Keeps.refl u with closing := fun _ => rfl, quiet := fun _ => rfl }

theorem keeps_close : Keeps u u.close.1 := by
  unfold close
  split
  · exact .refl u
  · split
    · exact keeps_startClose u
    · exact (keeps_startClose u).trans { Keeps.refl _ with closing := fun _ => rfl }

theorem burstDone_close : u.close.1.burstDone = u.burstDone := by
  unfold close
  split
  · rfl
  · split <;> rfl

theorem closing_close : u.close.1.closing = true := by
  unfold close
  split
  · assumption
  · split <;> rfl

theorem burstEndSeq_close : u.close.1.burstEndSeq = u.burstEndSeq := by
  unfold close
  split
  · rfl
  · split <;> rfl

theorem keeps_setNick (nick : String) : Keeps u (u.setNick nick) := { Keeps.refl u with }

theorem keeps_setHostmask (userhost : String) : Keeps u (u.setHostmask userhost) :=
  { Keeps.refl u with }

theorem keeps_enter (chan : String) : Keeps u (u.enter env chan) := { Keeps.refl u with }

theorem keeps_leave (chan : String) : Keeps u (u.leave env chan) := { Keeps.refl u with }

theorem keeps_noteHostmask (source : Option String) : Keeps u (u.noteHostmask source) := by
  unfold noteHostmask
  split
  · exact keeps_setHostmask u _
  · exact .refl u

/-- What a line may do to our own state. -/
inductive Tracks : Upstream → Prop
  | self (source : Option String) : Tracks (u.noteHostmask source)
  | nick (nick : String) (source : Option String) : Tracks ((u.setNick nick).noteHostmask source)
  | join (chan : String) (source : Option String) : Tracks ((u.enter env chan).noteHostmask source)
  | leave (chan : String) : Tracks (u.leave env chan)
  | rename (old new : String) : Tracks ((u.leave env old).enter env new)
  | host (userhost : String) : Tracks (u.setHostmask userhost)
  | same : Tracks u

theorem tracks_track (command : String) (source : Option String) (params : List String) :
    Tracks env u (u.track env command source params).1 := by
  have hite : ∀ {c : Prop} [Decidable c] {x y : Upstream × Bool}, Tracks env u x.1 →
      Tracks env u y.1 → Tracks env u (if c then x else y).1 := by
    intro c _ x y hx hy
    split
    · exact hx
    · exact hy
  unfold track
  refine hite ?_ (hite ?_ (hite (.leave _) (hite (.leave _) (hite ?_ (hite ?_ .same)))))
  · dsimp only
    split
    · exact .self source
    · exact .nick _ source
  · dsimp only
    split
    · exact .self source
    · exact .join _ source
  · exact hite .same (hite .same (hite (.rename _ _) .same))
  · dsimp only
    split
    · exact .host _
    · exact .same

theorem keeps_track (command : String) (source : Option String) (params : List String) :
    Keeps u (u.track env command source params).1 := by
  have htracks := tracks_track env u command source params
  generalize (u.track env command source params).1 = v at htracks ⊢
  cases htracks with
  | self source => exact keeps_noteHostmask u source
  | nick n source => exact (keeps_setNick u n).trans (keeps_noteHostmask _ source)
  | join chan source => exact (keeps_enter env u chan).trans (keeps_noteHostmask _ source)
  | leave chan => exact keeps_leave env u chan
  | rename old new => exact (keeps_leave env u old).trans (keeps_enter env _ new)
  | host userhost => exact keeps_setHostmask u userhost
  | same => exact .refl u

theorem keeps_recordBurst (line : String) (params : List String) (force : Bool) :
    Keeps u (u.recordBurst env line params force) := by
  simp only [recordBurst]
  split
  · exact { Keeps.refl u with }
  · exact { Keeps.refl u with }

theorem keeps_trackState (msg : IrcMessage) : Keeps u (u.trackState env msg).1 := by
  have h1 : ∀ v : Upstream,
      Keeps v (if env.toUpperCase msg.command = "001" then v.noteWelcome msg else v) := by
    intro v
    split
    · exact { Keeps.refl v with }
    · exact .refl v
  have h2 : ∀ v : Upstream,
      Keeps v (if env.toUpperCase msg.command = "CAP" then v.trackCaps env msg.params else v) := by
    intro v
    split
    · exact { Keeps.refl v with }
    · exact .refl v
  simp only [trackState]
  generalize hv : (if env.toUpperCase msg.command = "001" then u.noteWelcome msg else u) = v
  have hw := h2 v
  generalize (if env.toUpperCase msg.command = "CAP" then v.trackCaps env msg.params else v) = w at hw
  have h := (hv ▸ h1 u : Keeps u v).trans hw
  split
  · exact h.trans (keeps_track env w _ _ _)
  · exact h

theorem keeps_trackLine (line : String) (msg : IrcMessage) :
    Keeps u (u.trackLine env line msg).1 := by
  have ht := keeps_trackState env u msg
  have hr : ∀ (v : Upstream) (own : Bool), Keeps v (if own then v
      else v.recordBurst env line msg.params (endsBurst (env.toUpperCase msg.command))) := by
    intro v own
    split
    · exact .refl v
    · exact keeps_recordBurst env v _ _ _
  simp only [trackLine]
  split
  · exact ht
  · split
    · exact (ht.trans (hr _ _)).trans { Keeps.refl _ with ready := fun h => ⟨h.1, h.2.1, rfl⟩ }
    · exact ht.trans (hr _ _)

theorem burstDone_noteBurstEnd (seq : Nat) : (u.noteBurstEnd seq).burstDone = u.burstDone := by
  unfold noteBurstEnd; split <;> rfl

theorem closing_noteBurstEnd (seq : Nat) : (u.noteBurstEnd seq).closing = u.closing := by
  unfold noteBurstEnd; split <;> rfl

theorem keeps_noteBurstEnd {seq : Nat} (h : seq < u.buffer.nextSeq) :
    Keeps u (u.noteBurstEnd seq) := by
  unfold noteBurstEnd
  split
  · rename_i hn
    exact { Keeps.refl u with burstEnd := .inr ⟨hn.2, h⟩ }
  · exact .refl u

@[simp] theorem burstDone_noteHostmask (source : Option String) :
    (u.noteHostmask source).burstDone = u.burstDone := by
  unfold noteHostmask
  split <;> rfl

theorem burstDone_track (command : String) (source : Option String) (params : List String) :
    (u.track env command source params).1.burstDone = u.burstDone := by
  have htracks := tracks_track env u command source params
  generalize (u.track env command source params).1 = v at htracks ⊢
  cases htracks with
  | self | nick | join => exact burstDone_noteHostmask _ _
  | leave | rename | host | same => rfl

theorem burstDone_trackState (msg : IrcMessage) :
    (u.trackState env msg).1.burstDone = u.burstDone := by
  simp only [trackState]
  split_ifs <;> simp only [burstDone_track] <;> rfl

@[simp] theorem closing_noteHostmask (source : Option String) :
    (u.noteHostmask source).closing = u.closing := by
  unfold noteHostmask
  split <;> rfl

theorem closing_track (command : String) (source : Option String) (params : List String) :
    (u.track env command source params).1.closing = u.closing := by
  have htracks := tracks_track env u command source params
  generalize (u.track env command source params).1 = v at htracks ⊢
  cases htracks with
  | self | nick | join => exact closing_noteHostmask _ _
  | leave | rename | host | same => rfl

/-- Tracking a line ends nothing. -/
theorem closing_trackLine (line : String) (msg : IrcMessage) :
    (u.trackLine env line msg).1.closing = u.closing := by
  have ht : (u.trackState env msg).1.closing = u.closing := by
    simp only [trackState]
    split_ifs <;> simp only [closing_track] <;> rfl
  have hr : ∀ (v : Upstream) (own : Bool), (if own then v else v.recordBurst env line msg.params
      (endsBurst (env.toUpperCase msg.command))).closing = v.closing := by
    intro v own
    simp only [recordBurst]
    split_ifs <;> rfl
  simp only [trackLine]
  split
  · exact ht
  · split <;> exact (hr _ _).trans ht

/-- Registration completes in the step that says so, and only there. -/
theorem trackLine_registered (line : String) (msg : IrcMessage) :
    ((u.trackLine env line msg).2 = none ∧
        (u.trackLine env line msg).1.burstDone = u.burstDone) ∨
      (u.burstDone = false ∧ (u.trackLine env line msg).1.burstDone = true ∧
        (u.trackLine env line msg).2 = some u.sink.isNone) := by
  have hb := burstDone_trackState env u msg
  have hk := (keeps_trackState env u msg).sink
  have hr : ∀ (v : Upstream) (params : List String) (force : Bool),
      (v.recordBurst env line params force).burstDone = v.burstDone ∧
        (v.recordBurst env line params force).sink = v.sink := by
    intro v params force
    simp only [recordBurst]
    split <;> exact ⟨rfl, rfl⟩
  simp only [trackLine]
  split
  · exact .inl ⟨rfl, hb⟩
  · rename_i hn
    split
    · refine .inr ⟨by simpa [hb] using hn, rfl, ?_⟩
      split <;> simp [hk, hr]
    · refine .inl ⟨rfl, ?_⟩
      split <;> simp [hb, hr]

/-- Which lines complete a registration with nobody attached. -/
theorem trackLine_unattended (line : String) (msg : IrcMessage) :
    (u.trackLine env line msg).2 = some true ↔
      u.burstDone = false ∧ u.sink = none ∧ endsBurst (env.toUpperCase msg.command) = true := by
  have hb := burstDone_trackState env u msg
  have hk := (keeps_trackState env u msg).sink
  have hr : ∀ (v : Upstream) (own : Bool), (if own then v else v.recordBurst env line msg.params
      (endsBurst (env.toUpperCase msg.command))).sink = v.sink := by
    intro v own
    simp only [recordBurst]
    split_ifs <;> rfl
  simp only [trackLine, hb]
  cases hd : u.burstDone with
  | true => simp
  | false =>
    cases he : endsBurst (env.toUpperCase msg.command) with
    | false => simp
    | true =>
      have hsink := (hr (u.trackState env msg).1 (u.trackState env msg).2).trans hk
      rw [he] at hsink
      simp [hsink]

end

/-- What writing one frame of a flush to the sink does to the upstream. -/
inductive Emit : Upstream → EngineToApp → Upstream → Prop
  | gap {u : Upstream} {g : Gap} (h : u.gapToReport = some g) :
      Emit u (.gap u.id g) u.takeGap
  | line {u : Upstream} {b : BufferedLine} (hb : b ∈ u.buffer.lines)
      (hseq : b.seq = max (u.sentSeq + 1) u.buffer.front) (hgap : u.gapToReport = none) :
      Emit u (.line u.id b.seq b.line) (u.sentUpTo b.seq)
  | live {u : Upstream} : Emit u (.live u.id) u

/-- A flush in progress: the frames written so far, in order. What the upstream
notes about the sink's backpressure may change in between. -/
inductive Emits (u : Upstream) : List EngineToApp → Upstream → Prop
  | refl : Emits u [] u
  | note {fs : List EngineToApp} {v : Upstream} (h : Emits u fs v) (stalled : Bool)
      (liveAfterSeq : Option Nat) : Emits u fs (v.noteSink stalled liveAfterSeq)
  | emit {fs : List EngineToApp} {v w : Upstream} {f : EngineToApp} (h : Emits u fs v)
      (hf : Emit v f w) : Emits u (fs ++ [f]) w

namespace Emits

variable {u v w : Upstream} {fs gs : List EngineToApp}

theorem trans (h : Emits u fs v) (h' : Emits v gs w) : Emits u (fs ++ gs) w := by
  induction h' with
  | refl => simpa using h
  | note _ st la ih => exact ih.note st la
  | emit _ hf ih => rw [← List.append_assoc]; exact ih.emit hf

end Emits

theorem emits_sendLive (u : Upstream) (hs : u.sink.isSome = true) (fs : List EngineToApp) :
    ∃ gs, (sendLive (u, fs)).2 = fs ++ gs ∧ Emits u gs (sendLive (u, fs)).1 := by
  refine ⟨[.live u.id], by simp [sendLive, hs], ?_⟩
  exact (Emits.refl.emit .live).note u.stalled none

/-- The first owed line's place follows from the two positions. -/
theorem firstOwed_eq {u : Upstream} (h : u.buffer.lines ≠ []) :
    u.firstOwed = u.sentSeq + 1 - u.buffer.front := by
  cases hl : u.buffer.lines with
  | nil => exact absurd hl h
  | cons a as =>
    have ha : a.seq = u.buffer.front := by simpa [hl] using u.buffer.seq_getElem 0 (by simp [hl])
    simp only [firstOwed, hl]
    split <;> omega

/-- The next owed line, and what is owed after it. -/
theorem drop_firstOwed {u : Upstream} {b : BufferedLine} {rest : List BufferedLine}
    (h : u.buffer.lines.drop u.firstOwed = b :: rest) :
    b ∈ u.buffer.lines ∧ b.seq = max (u.sentSeq + 1) u.buffer.front ∧
      u.buffer.lines.drop (u.sentUpTo b.seq).firstOwed = rest := by
  have hlt : u.firstOwed < u.buffer.lines.length := by
    by_contra hn
    rw [List.drop_eq_nil_of_le (by omega)] at h
    exact nomatch h
  have hne : u.buffer.lines ≠ [] := List.ne_nil_of_length_pos (by omega)
  have hfirst := firstOwed_eq hne
  have hne' : (u.sentUpTo b.seq).buffer.lines ≠ [] := hne
  rw [List.drop_eq_getElem_cons hlt, List.cons.injEq] at h
  obtain ⟨hb, hrest⟩ := h
  have hseq : b.seq = u.buffer.front + u.firstOwed := by rw [← hb, u.buffer.seq_getElem _ hlt]
  have hnext : (u.sentUpTo b.seq).firstOwed = b.seq + 1 - u.buffer.front := firstOwed_eq hne'
  refine ⟨hb ▸ List.getElem_mem _, by omega, ?_⟩
  rw [hnext, ← hrest]
  congr 1
  omega

theorem gapToReport_of_le {u : Upstream} {k : Nat} (h : u.gapToReport = none) (hk : u.sentSeq ≤ k) :
    (u.sentUpTo k).gapToReport = none := by
  simp only [gapToReport, Option.filter_eq_none_iff, decide_eq_true_eq] at h ⊢
  intro g hg
  have hle := h g hg
  simp only [sentUpTo]
  omega

/-- What `flush` must still be true of while it sends lines. -/
theorem flushLines_emits (ok : Nat → Bool) (ls : List BufferedLine) (u : Upstream)
    (out : List EngineToApp) (hls : u.buffer.lines.drop u.firstOwed = ls)
    (hgap : u.gapToReport = none) (hs : u.sink.isSome = true) :
    ∃ fs, (flushLines ok ls (u, out)).2 = out ++ fs ∧ Emits u fs (flushLines ok ls (u, out)).1 := by
  induction ls generalizing u out with
  | nil => exact ⟨[], by simp [flushLines], .refl⟩
  | cons b rest ih =>
    obtain ⟨hb, hseq, hrest⟩ := drop_firstOwed hls
    have hline : Emits u [.line u.id b.seq b.line] (u.sentUpTo b.seq) :=
      Emits.refl.emit (.line hb hseq hgap)
    -- the frame for this line, with `live` behind it when it is due
    obtain ⟨v, fs, hv, hd, hlines, hsent, hgap', hsink⟩ : ∃ v fs, Emits u fs v ∧
        (if u.liveAfterSeq.any (· ≤ b.seq) then
            sendLive (u.sentUpTo b.seq, out ++ [.line u.id b.seq b.line])
          else (u.sentUpTo b.seq, out ++ [.line u.id b.seq b.line]) : Delivery) =
            (v, out ++ fs) ∧
        v.buffer = u.buffer ∧ v.sentSeq = b.seq ∧ v.gapToReport = none ∧ v.sink = u.sink := by
      have hnone := gapToReport_of_le (k := b.seq) hgap (by omega)
      split
      · obtain ⟨gs, hgs, he⟩ := emits_sendLive (u.sentUpTo b.seq) hs
          (out ++ [.line u.id b.seq b.line])
        refine ⟨_, _, hline.trans he, Prod.ext rfl ?_, rfl, rfl, hnone, rfl⟩
        rw [hgs, List.append_assoc]
      · exact ⟨_, _, hline, rfl, rfl, rfl, hnone, rfl⟩
    simp only [flushLines]
    rw [hd]
    split
    · have hfirst : v.firstOwed = (u.sentUpTo b.seq).firstOwed := by
        unfold firstOwed
        rw [hlines, hsent]
        rfl
      have hdrop : v.buffer.lines.drop v.firstOwed = rest := by
        rw [hfirst, hlines, hrest]
      obtain ⟨gs, hgs, he⟩ := ih v (out ++ fs) hdrop hgap' (by rw [hsink]; exact hs)
      exact ⟨fs ++ gs, by rw [hgs, List.append_assoc], hv.trans he⟩
    · exact ⟨fs, rfl, hv.note true v.liveAfterSeq⟩

theorem flushPending_emits (ok : Nat → Bool) (u : Upstream) (out : List EngineToApp)
    (hgap : u.gapToReport = none) (hs : u.sink.isSome = true) :
    ∃ fs, (flushPending ok (u, out)).2 = out ++ fs ∧ Emits u fs (flushPending ok (u, out)).1 := by
  obtain ⟨fs, hfs, he⟩ := flushLines_emits ok _ u out rfl hgap hs
  simp only [flushPending]
  generalize hd : flushLines ok (u.buffer.lines.drop u.firstOwed) (u, out) = d at hfs he
  split
  · exact ⟨fs, hfs, he⟩
  · split
    · refine ⟨fs ++ (if d.1.sink.isSome then [.live d.1.id] else []), ?_, ?_⟩
      · simp only [sendLive, hfs]
        split <;> simp
      · split
        · exact (he.emit .live).note d.1.stalled none
        · rw [List.append_nil]
          exact he.note d.1.stalled none
    · exact ⟨fs, hfs, he⟩

/-- A flush is a sequence of single frames. -/
theorem flush_emits (ok : Nat → Bool) (u : Upstream) (out : List EngineToApp) :
    ∃ fs, (flush ok (u, out)).2 = out ++ fs ∧ Emits u fs (flush ok (u, out)).1 := by
  simp only [flush]
  split
  · exact ⟨[], by simp, .refl⟩
  · rename_i hc
    have hs : u.sink.isSome = true := by
      cases h : u.sink <;> simp [h] at hc ⊢
    split
    · rename_i hg
      exact flushPending_emits ok u out hg hs
    · rename_i g hg
      have hgap : Emits u [.gap u.id g] u.takeGap :=
        Emits.refl.emit (.gap hg)
      split
      · obtain ⟨fs, hfs, he⟩ := flushPending_emits ok u.takeGap
          (out ++ [.gap u.id g]) rfl hs
        exact ⟨.gap u.id g :: fs, by rw [hfs]; simp, hgap.trans he⟩
      · exact ⟨[.gap u.id g], rfl, hgap.note true u.liveAfterSeq⟩

theorem resume_emits (ok : Nat → Bool) (u : Upstream) :
    Emits u (u.resume ok).2 (u.resume ok).1 := by
  obtain ⟨fs, hfs, he⟩ := flush_emits ok u.unstall []
  simp only [resume]
  rw [hfs]
  exact (Emits.refl.note false u.liveAfterSeq).trans he

theorem flushAfterAttach_emits (ok : Nat → Bool) (u : Upstream) :
    Emits u (u.flushAfterAttach ok).2 (u.flushAfterAttach ok).1 := by
  have h0 : ∃ fs v, (if u.liveAfterSeq = some 0 then sendLive (u, []) else (u, []) : Delivery) =
      (v, fs) ∧ Emits u fs v := by
    split
    · refine ⟨_, _, rfl, ?_⟩
      simp only
      split
      · exact (Emits.refl.emit .live).note u.stalled none
      · exact Emits.refl.note u.stalled none
    · exact ⟨_, _, rfl, .refl⟩
  obtain ⟨fs, v, hd, hv⟩ := h0
  obtain ⟨gs, hgs, he⟩ := flush_emits ok v fs
  simp only [flushAfterAttach]
  rw [hd, hgs]
  exact hv.trans he

/-- `v` is `u` as far as the socket itself goes; who listens may have changed. -/
structure SameSocket (u v : Upstream) : Prop where
  opts : v.opts = u.opts
  socketId : v.socketId = u.socketId
  state : v.state = u.state
  closing : v.closing = u.closing
  burstDone : v.burstDone = u.burstDone
  burstEndSeq : v.burstEndSeq = u.burstEndSeq
  hasSocket : v.hasSocket = u.hasSocket
  proxyDialPending : v.proxyDialPending = u.proxyDialPending
  nextSeq : v.buffer.nextSeq = u.buffer.nextSeq

namespace SameSocket

variable {u v : Upstream}

theorem refl (u : Upstream) : SameSocket u u := ⟨rfl, rfl, rfl, rfl, rfl, rfl, rfl, rfl, rfl⟩

theorem id (h : SameSocket u v) : v.id = u.id := congrArg (·.dial.id) h.opts

theorem isOver (h : SameSocket u v) (hs : v.sink = none) (hu : u.Over) : v.Over :=
  ⟨hs, by rw [h.closing, h.state]; exact hu.2⟩

theorem inert (h : SameSocket u v) (hu : u.Inert) : v.Inert :=
  ⟨h.hasSocket.trans hu.1, h.proxyDialPending.trans hu.2.1, h.state.trans hu.2.2⟩

end SameSocket

/-- A flush changes the sink's position, the hole, and what is noted of the
sink's backpressure. -/
theorem Emits.sameSocket {u v : Upstream} {fs : List EngineToApp} (h : Emits u fs v) :
    SameSocket u v ∧ v.sink = u.sink ∧ v.attachedBy = u.attachedBy ∧
      v.quietClose = u.quietClose := by
  induction h with
  | refl => exact ⟨.refl u, rfl, rfl, rfl⟩
  | note _ _ _ ih =>
    obtain ⟨⟨h1, h2, h3, h4, h5, h6, h7, h8, h9⟩, h⟩ := ih
    exact ⟨⟨h1, h2, h3, h4, h5, h6, h7, h8, h9⟩, h⟩
  | emit _ hf ih =>
    obtain ⟨⟨h1, h2, h3, h4, h5, h6, h7, h8, h9⟩, h⟩ := ih
    cases hf
    all_goals exact ⟨⟨h1, h2, h3, h4, h5, h6, h7, h8, h9⟩, h⟩

/-- Everything a flush writes is about its own connection. -/
theorem Emits.about {u v : Upstream} {fs : List EngineToApp} (h : Emits u fs v) :
    ∀ f ∈ fs, f.about = some u.id := by
  induction h with
  | refl => exact fun f hf => absurd hf List.not_mem_nil
  | note _ _ _ ih => exact ih
  | emit h hf ih =>
    intro f hm
    rcases List.mem_append.mp hm with hm | hm
    · exact ih f hm
    · rw [List.mem_singleton.mp hm, ← h.sameSocket.1.id]
      cases hf <;> rfl

theorem about_onOpen (u : Upstream) (l r : Endpoint) :
    ∀ f ∈ (u.onOpen l r).2, f.about = some u.id := by
  unfold onOpen
  split
  · exact fun f hf => absurd hf List.not_mem_nil
  · cases u.sink with
    | none => exact fun f hf => absurd hf List.not_mem_nil
    | some l' => exact fun f hf => by rw [List.mem_singleton.mp hf]; rfl

theorem about_onClose (u : Upstream) : ∀ f ∈ u.onClose.2, f.about = some u.id := by
  unfold onClose
  split
  · exact fun f hf => absurd hf List.not_mem_nil
  · simp only
    split
    · exact fun f hf => by rw [List.mem_singleton.mp hf]; rfl
    · exact fun f hf => absurd hf List.not_mem_nil

/-- The three outcomes of an attachment. -/
theorem attach_cases (u : Upstream) (now : Int) (l : LinkId) (k : Nat) :
    (∃ p, u.attach now l k = ((u.takeSink l k).skipBurst, .payload p) ∧ u.Ready ∧
        u.state = .opened) ∨
      (u.attach now l k = (u.takeSink l k, .unregistered) ∧ u.burstDone = false) ∨
      u.attach now l k = ((u.takeSink l k).rewind, .dialing) ∧ ¬ (u.Ready ∧ u.state = .opened) := by
  simp only [attach]
  split
  · rename_i l r hst hl hr
    split
    · rename_i h
      exact .inl ⟨_, rfl, ⟨by rw [hl]; rfl, by rw [hr]; rfl, h⟩, hst⟩
    · rename_i h
      exact .inr (.inl ⟨rfl, Bool.eq_false_iff.mpr h⟩)
  · rename_i hno
    refine .inr (.inr ⟨rfl, fun ⟨⟨hl, hr, _⟩, hst⟩ => ?_⟩)
    obtain ⟨l, hl⟩ := Option.isSome_iff_exists.mp hl
    obtain ⟨r, hr⟩ := Option.isSome_iff_exists.mp hr
    exact hno l r hst hl hr

theorem sameSocket_attach (u : Upstream) (now : Int) (l : LinkId) (k : Nat) :
    SameSocket u (u.attach now l k).1 ∧ (u.attach now l k).1.sink = some l ∧
      (u.attach now l k).1.attachedBy = k ∧ (u.attach now l k).1.quietClose = u.quietClose ∧
      (u.attach now l k).1.stalled = false := by
  simp only [attach]
  split
  · split
    · exact ⟨⟨rfl, rfl, rfl, rfl, rfl, rfl, rfl, rfl, rfl⟩, rfl, rfl, rfl, rfl⟩
    · exact ⟨⟨rfl, rfl, rfl, rfl, rfl, rfl, rfl, rfl, rfl⟩, rfl, rfl, rfl, rfl⟩
  · exact ⟨⟨rfl, rfl, rfl, rfl, rfl, rfl, rfl, rfl, rfl⟩, rfl, rfl, rfl, rfl⟩

/-- Detaching leaves the backlog, the hole and the position alone. -/
theorem sameSocket_detach (u : Upstream) (now : Int) :
    SameSocket u (u.detach now) ∧ (u.detach now).sink = none ∧
      (u.detach now).buffer = u.buffer ∧ (u.detach now).quietClose = u.quietClose ∧
      (u.detach now).attachedBy = u.attachedBy := by
  unfold detach
  split
  · rename_i h
    exact ⟨.refl u, by simpa using h, rfl, rfl, rfl⟩
  · exact ⟨⟨rfl, rfl, rfl, rfl, rfl, rfl, rfl, rfl, rfl⟩, rfl, rfl, rfl, rfl⟩

theorem sameSocket_silence (u : Upstream) (now : Int) :
    SameSocket u (u.silence now) ∧ (u.silence now).sink = none ∧
      (u.silence now).buffer = u.buffer ∧ (u.silence now).quietClose = true := by
  obtain ⟨⟨h1, h2, h3, h4, h5, h6, h7, h8, h9⟩, hs, hb, -⟩ := sameSocket_detach u now
  exact ⟨⟨h1, h2, h3, h4, h5, h6, h7, h8, h9⟩, hs, hb, rfl⟩

theorem detach_of_none {u : Upstream} (h : u.sink = none) (now : Int) : u.detach now = u := by
  simp only [detach, h, Option.isNone_none, ↓reduceIte]

/-- A dial that starts changes nothing that is decided by id, sink or backlog. -/
theorem dial_spec {env : Platform} {u v : Upstream} (h : u.dial env = .ok v) :
    v.id = u.id ∧ v.opts.instanceId = u.opts.instanceId ∧ v.sink = u.sink ∧ v.state = u.state ∧
      v.burstDone = u.burstDone ∧ v.attachedBy = u.attachedBy ∧ v.buffer = u.buffer ∧
      v.sentSeq = u.sentSeq ∧ v.burstEndSeq = u.burstEndSeq ∧ v.quietClose = u.quietClose := by
  unfold dial at h
  split at h
  · exact nomatch h
  · split at h
    · obtain rfl := Except.ok.inj h
      exact ⟨rfl, rfl, rfl, rfl, rfl, rfl, rfl, rfl, rfl, rfl⟩
    · split at h
      · exact nomatch h
      · obtain rfl := Except.ok.inj h
        exact ⟨rfl, rfl, rfl, rfl, rfl, rfl, rfl, rfl, rfl, rfl⟩

theorem dial_ready {env : Platform} {u v : Upstream} (h : u.dial env = .ok v) :
    v.closing = u.closing ∧ (u.Ready → v.Ready) := by
  unfold dial at h
  split at h
  · exact nomatch h
  · split at h
    · obtain rfl := Except.ok.inj h
      exact ⟨rfl, fun h => h⟩
    · split at h
      · exact nomatch h
      · obtain rfl := Except.ok.inj h
        exact ⟨rfl, fun h => h⟩

/-- The end of a socket: nobody listens any more, and the backlog is gone. -/
theorem onClose_spec {u : Upstream} (h : u.state ≠ .closed) :
    u.onClose.1.opts = u.opts ∧ u.onClose.1.state = .closed ∧ u.onClose.1.sink = none ∧
      u.onClose.1.burstDone = u.burstDone ∧ u.onClose.1.attachedBy = u.attachedBy ∧
      u.onClose.1.buffer = u.buffer.dispose ∧ u.onClose.1.quietClose = u.quietClose := by
  unfold onClose
  rw [if_neg h]
  exact ⟨rfl, rfl, rfl, rfl, rfl, rfl, rfl⟩

end Upstream

end Lurker.Engine
