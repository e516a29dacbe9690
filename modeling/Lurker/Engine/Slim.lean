import Lurker.Engine.Sizes
import Lurker.Engine.Delivery
import Lurker.Engine.Claims

/-!
# What an upstream holds fits a frame

A frame is refused when it is too long, and a frame is as long as what it carries. What an
upstream carries into frames later (its id, its ends, its last error, its backlog and the
hole in it) leaves room for them from the moment it is taken in.
-/

namespace Lurker.Engine

/-- A reader takes the frame. -/
def Fits (env : Platform) (f : EngineToApp) : Prop := f.size env.showSocket ≤ MAX_FRAME_BYTES

instance (env : Platform) (f : EngineToApp) : Decidable (Fits env f) :=
  inferInstanceAs (Decidable (_ ≤ _))

/-- An id leaves room for any frame that carries nothing else than the engine's own texts
and numbers. -/
def RoomFor (id : String) : Prop := 120 + width id ≤ MAX_FRAME_BYTES

instance (id : String) : Decidable (RoomFor id) := inferInstanceAs (Decidable (_ ≤ _))

/-- The two ends of a socket leave room for the frame that tells them. -/
def EndsFit (env : Platform) (u : Upstream) (l r : Endpoint) : Prop :=
  88 + width u.id + width l.address + shown l.port + width r.address + shown r.port +
    width (env.showSocket u.socketId) ≤ MAX_FRAME_BYTES

instance (env : Platform) (u : Upstream) (l r : Endpoint) : Decidable (EndsFit env u l r) :=
  inferInstanceAs (Decidable (_ ≤ _))

/-- An error leaves room for the frame that closes a connection with it. -/
def ErrorFits (id error : String) : Prop := 30 + width id + width error ≤ MAX_FRAME_BYTES

instance (id error : String) : Decidable (ErrorFits id error) := inferInstanceAs (Decidable (_ ≤ _))

/-- A line leaves room for the frame that delivers it. -/
def LineFits (id : String) (seq : Nat) (line : String) : Prop :=
  34 + width id + shown seq + width line ≤ MAX_FRAME_BYTES

instance (id : String) (seq : Nat) (line : String) : Decidable (LineFits id seq line) :=
  inferInstanceAs (Decidable (_ ≤ _))

/-- The backlog of an id fits line by line, and its numbers are numbers of the platform. -/
structure SlimBuffer (id : String) (b : LineBuffer) : Prop where
  lines : ∀ l ∈ b.lines, LineFits id l.seq l.line
  seqs : b.nextSeq ≤ numberLimit
  gap : ∀ g, b.gap = some g → g.at_.natAbs < numberLimit

structure SlimUpstream (env : Platform) (u : Upstream) : Prop where
  id : RoomFor u.id
  ends : (u.localEnd = none ∧ u.remoteEnd = none) ∨
    ∃ l r, u.localEnd = some l ∧ u.remoteEnd = some r ∧ EndsFit env u l r
  error : ∀ e, u.lastError = some e → ErrorFits u.id e
  buffer : SlimBuffer u.id u.buffer

section Ids

variable {env : Platform} {id : String}

theorem RoomFor.dialing (h : RoomFor id) : Fits env (.dialing id) := by
  unfold RoomFor at h
  rw [Fits, size_dialing]
  omega

theorem RoomFor.live (h : RoomFor id) : Fits env (.live id) := by
  unfold RoomFor at h
  rw [Fits, size_live]
  omega

theorem RoomFor.held (h : RoomFor id) : Fits env (.held id) := by
  unfold RoomFor at h
  rw [Fits, size_held]
  omega

theorem RoomFor.detached (h : RoomFor id) : Fits env (.detached id) := by
  unfold RoomFor at h
  rw [Fits, size_detached]
  omega

theorem RoomFor.closed (h : RoomFor id) : Fits env (.closed id none) := by
  unfold RoomFor at h
  rw [Fits, size_closed, Option.elim_none]
  omega

theorem ErrorFits.closed {e : String} (h : ErrorFits id e) : Fits env (.closed id (some e)) := by
  unfold ErrorFits at h
  rw [Fits, size_closed, Option.elim_some]
  omega

/-- A short text of the engine's own closes any connection there is room for. -/
theorem RoomFor.errorFits (h : RoomFor id) {e : String} (he : width e ≤ 90) : ErrorFits id e := by
  unfold RoomFor at h
  unfold ErrorFits
  omega

/-- A short refusal of the engine's own, to the id it is about. -/
theorem RoomFor.refused (h : RoomFor id) {message : String} (hm : width message ≤ 89) :
    Fits env (.error ((some id).filter (· ≠ "")) message) := by
  unfold RoomFor at h
  rw [Fits, size_error]
  cases hid : (some id).filter (· ≠ "") with
  | none =>
    rw [Option.elim_none]
    omega
  | some id' =>
    obtain ⟨hid, -⟩ := Option.filter_eq_some_iff.mp hid
    obtain rfl := Option.some.inj hid
    rw [Option.elim_some]
    omega

theorem pong_fits : Fits env .pong := by
  rw [Fits, show EngineToApp.pong.size env.showSocket = EngineToApp.pong.size (fun _ => "") from rfl]
  decide +kernel

theorem LineFits.line {seq : Nat} {line : String} (h : LineFits id seq line) :
    Fits env (.line id seq line) := by
  unfold LineFits at h
  rw [Fits, size_line]
  omega

theorem SlimBuffer.gap_fits {b : LineBuffer} (h : SlimBuffer id b) (hid : RoomFor id) {g : Gap}
    (hg : b.gap = some g) : Fits env (.gap id g) := by
  obtain ⟨-, hle, hlt⟩ := b.gap_below g hg
  have hseqs := h.seqs
  have hfirst := shown_le (n := g.firstDroppedSeq) (by rw [Int.natAbs_natCast]; omega)
  have hlast := shown_le (n := g.lastDroppedSeq) (by rw [Int.natAbs_natCast]; omega)
  have hat := shown_le (h.gap g hg)
  unfold RoomFor at hid
  rw [Fits, size_gap]
  omega

end Ids

section Buffers

variable {id : String} {b : LineBuffer}

theorem SlimBuffer.append (h : SlimBuffer id b) {line : String} (hseq : b.nextSeq < numberLimit)
    (hline : LineFits id b.nextSeq line) : SlimBuffer id (b.append line) where
  lines := by
    intro l hl
    rcases List.mem_append.mp hl with hl | hl
    · exact h.lines l hl
    · rw [List.mem_singleton.mp hl]
      exact hline
  seqs := hseq
  gap := h.gap

theorem SlimBuffer.dropOldest (h : SlimBuffer id b) {now : Int} (hnow : now.natAbs < numberLimit) :
    SlimBuffer id (b.dropOldest now) where
  lines := fun l hl => h.lines l (List.mem_of_mem_drop hl)
  seqs := h.seqs
  gap := by
    intro g hg
    simp only [LineBuffer.dropOldest] at hg
    split at hg
    · exact h.gap g hg
    · obtain rfl := Option.some.inj hg
      unfold LineBuffer.extendGap
      split <;> exact hnow

theorem SlimBuffer.drops (h : SlimBuffer id b) {now : Int} (hnow : now.natAbs < numberLimit)
    (k : Nat) : SlimBuffer id (b.drops now k) :=
  LineBuffer.drops_induct now (fun _ h => h.dropOldest hnow) k h

theorem SlimBuffer.trim (h : SlimBuffer id b) {now : Int} (hnow : now.natAbs < numberLimit) :
    SlimBuffer id (b.trim now) := by
  obtain ⟨⟨k, hk, -⟩, -⟩ := LineBuffer.trim_spec now b
  rw [hk]
  exact h.drops hnow k

theorem SlimBuffer.ack (h : SlimBuffer id b) (seq : Int) : SlimBuffer id (b.ack seq) where
  lines := fun l hl => h.lines l (List.mem_of_mem_drop hl)
  seqs := h.seqs
  gap := by
    intro g hg
    obtain ⟨g', hg', hack⟩ := Option.bind_eq_some_iff.mp hg
    have hat := h.gap g' hg'
    unfold LineBuffer.Gap.ackTo at hack
    split at hack
    · cases hack
    · split at hack
      · obtain rfl := Option.some.inj hack
        exact hat
      · obtain rfl := Option.some.inj hack
        exact hat

theorem SlimBuffer.takeGap (h : SlimBuffer id b) : SlimBuffer id b.takeGap where
  lines := h.lines
  seqs := h.seqs
  gap := fun _ hg => by cases hg

theorem SlimBuffer.dispose (h : SlimBuffer id b) : SlimBuffer id b.dispose where
  lines := fun _ hl => by cases hl
  seqs := h.seqs
  gap := h.gap

theorem slimBuffer_new (maxBytes : Int) : SlimBuffer id (.new maxBytes) where
  lines := fun _ hl => by cases hl
  seqs := by
    show 1 ≤ numberLimit
    decide
  gap := fun _ hg => by cases hg

end Buffers

namespace Upstream

variable {env : Platform} {u v : Upstream}

/-- `v` carries into frames what `u` does. -/
structure Carries (u v : Upstream) : Prop where
  id : v.id = u.id
  socketId : v.socketId = u.socketId
  localEnd : v.localEnd = u.localEnd
  remoteEnd : v.remoteEnd = u.remoteEnd
  lastError : v.lastError = u.lastError
  buffer : v.buffer = u.buffer

namespace Carries

theorem refl (u : Upstream) : Carries u u := ⟨rfl, rfl, rfl, rfl, rfl, rfl⟩

theorem trans {w : Upstream} (h : Carries u v) (h' : Carries v w) : Carries u w :=
  ⟨h'.id.trans h.id, h'.socketId.trans h.socketId, h'.localEnd.trans h.localEnd,
    h'.remoteEnd.trans h.remoteEnd, h'.lastError.trans h.lastError, h'.buffer.trans h.buffer⟩

theorem slim (hu : SlimUpstream env u) (h : Carries u v) : SlimUpstream env v := by
  obtain ⟨hid, hends, herror, hbuffer⟩ := hu
  obtain ⟨h1, h2, h3, h4, h5, h6⟩ := h
  refine ⟨h1 ▸ hid, ?_, ?_, ?_⟩
  · rw [h3, h4]
    refine hends.imp_right fun ⟨l, r, hl, hr, hfit⟩ => ⟨l, r, hl, hr, ?_⟩
    unfold EndsFit at hfit ⊢
    rwa [h1, h2]
  · rw [h5, h1]
    exact herror
  · rw [h6, h1]
    exact hbuffer

end Carries

theorem carries_rawWrite (line : String) : Carries u (u.rawWrite line) := by
  unfold rawWrite
  split <;> exact ⟨rfl, rfl, rfl, rfl, rfl, rfl⟩

theorem carries_answerPing (params : List String) : Carries u (u.answerPing params) := by
  have hw := carries_rawWrite (u := u) (params.getLast?.elim "PONG" ("PONG :" ++ ·))
  unfold answerPing
  simp only
  split
  · exact hw.trans ⟨rfl, rfl, rfl, rfl, rfl, rfl⟩
  · exact hw

theorem carries_close : Carries u u.close.1 := by
  unfold close
  split
  · exact .refl u
  · split <;> exact ⟨rfl, rfl, rfl, rfl, rfl, rfl⟩

theorem carries_noteHostmask (source : Option String) : Carries u (u.noteHostmask source) := by
  unfold noteHostmask
  split <;> exact ⟨rfl, rfl, rfl, rfl, rfl, rfl⟩

theorem carries_track (command : String) (source : Option String) (params : List String) :
    Carries u (u.track env command source params).1 := by
  have htracks := tracks_track env u command source params
  generalize (u.track env command source params).1 = v at htracks ⊢
  cases htracks with
  | self source => exact carries_noteHostmask source
  | nick n source =>
    exact (show Carries u (u.setNick n) from ⟨rfl, rfl, rfl, rfl, rfl, rfl⟩).trans
      (carries_noteHostmask source)
  | join chan source =>
    exact (show Carries u (u.enter env chan) from ⟨rfl, rfl, rfl, rfl, rfl, rfl⟩).trans
      (carries_noteHostmask source)
  | leave | rename | host | same => exact ⟨rfl, rfl, rfl, rfl, rfl, rfl⟩

theorem carries_trackState (msg : IrcMessage) : Carries u (u.trackState env msg).1 := by
  have hwelcome : Carries u
      (if env.toUpperCase msg.command = "001" then u.noteWelcome msg else u) := by
    split <;> exact ⟨rfl, rfl, rfl, rfl, rfl, rfl⟩
  have hcap (v : Upstream) : Carries v
      (if env.toUpperCase msg.command = "CAP" then v.trackCaps env msg.params else v) := by
    split <;> exact ⟨rfl, rfl, rfl, rfl, rfl, rfl⟩
  simp only [trackState]
  generalize (if env.toUpperCase msg.command = "001" then u.noteWelcome msg else u) = v at hwelcome
  have hv := hwelcome.trans (hcap v)
  generalize (if env.toUpperCase msg.command = "CAP" then v.trackCaps env msg.params else v) = w
    at hv
  split
  · exact hv.trans (carries_track _ _ _)
  · exact hv

theorem carries_recordBurst (line : String) (params : List String) (force : Bool) :
    Carries u (u.recordBurst env line params force) := by
  simp only [recordBurst]
  split <;> exact ⟨rfl, rfl, rfl, rfl, rfl, rfl⟩

theorem carries_trackLine (line : String) (msg : IrcMessage) :
    Carries u (u.trackLine env line msg).1 := by
  have hstate := @carries_trackState env u msg
  have hrecord (v : Upstream) (own : Bool) : Carries v (if own then v
      else v.recordBurst env line msg.params (endsBurst (env.toUpperCase msg.command))) := by
    split
    · exact .refl v
    · exact carries_recordBurst _ _ _
  simp only [trackLine]
  split
  · exact hstate
  · split
    · exact (hstate.trans (hrecord _ _)).trans ⟨rfl, rfl, rfl, rfl, rfl, rfl⟩
    · exact hstate.trans (hrecord _ _)

theorem carries_noteBurstEnd (seq : Nat) : Carries u (u.noteBurstEnd seq) := by
  unfold noteBurstEnd
  split <;> exact ⟨rfl, rfl, rfl, rfl, rfl, rfl⟩

theorem carries_detach (now : Int) : Carries u (u.detach now) := by
  unfold detach
  split <;> exact ⟨rfl, rfl, rfl, rfl, rfl, rfl⟩

theorem carries_silence (now : Int) : Carries u (u.silence now) :=
  (carries_detach now).trans ⟨rfl, rfl, rfl, rfl, rfl, rfl⟩

theorem carries_dial (h : u.dial env = .ok v) : Carries u v := by
  unfold dial at h
  split at h
  · cases h
  · split at h
    · obtain rfl := Except.ok.inj h
      exact ⟨rfl, rfl, rfl, rfl, rfl, rfl⟩
    · split at h
      · cases h
      · obtain rfl := Except.ok.inj h
        exact ⟨rfl, rfl, rfl, rfl, rfl, rfl⟩

theorem dial_error {e : String} (h : u.dial env = .error e) (hnew : u.dialed = false) :
    env.dialThrows u.opts = some e := by
  unfold dial at h
  rw [hnew] at h
  split at h
  · contradiction
  · split at h
    · cases h
    · split at h
      · rename_i e' he
        obtain rfl := Except.error.inj h
        exact he
      · cases h

/-- Another backlog of the same connection. -/
theorem slim_buffer {b : LineBuffer} (hu : SlimUpstream env u) (hb : SlimBuffer u.id b) :
    SlimUpstream env { u with buffer := b } :=
  ⟨hu.id, hu.ends, hu.error, hb⟩

theorem slim_ack (hu : SlimUpstream env u) (seq : Int) : SlimUpstream env (u.ack seq) :=
  slim_buffer hu (hu.buffer.ack seq)

theorem slim_lastError (hu : SlimUpstream env u) {e : String} (he : ErrorFits u.id e) :
    SlimUpstream env { u with lastError := some e } :=
  ⟨hu.id, hu.ends, fun _ h => Option.some.inj h ▸ he, hu.buffer⟩

theorem slim_dropPeer (hu : SlimUpstream env u) {why : String} (hwhy : width why ≤ 90) :
    SlimUpstream env (u.dropPeer why) :=
  ⟨hu.id, hu.ends, fun _ h => Option.some.inj h ▸ hu.id.errorFits hwhy, hu.buffer⟩

theorem slim_ends (hu : SlimUpstream env u) {l r : Endpoint} (h : EndsFit env u l r) :
    SlimUpstream env { u with localEnd := some l, remoteEnd := some r } :=
  ⟨hu.id, .inr ⟨l, r, rfl, rfl, h⟩, hu.error, hu.buffer⟩

theorem slim_onTcpConnect (hu : SlimUpstream env u) {l r : Endpoint} (h : EndsFit env u l r) :
    SlimUpstream env (u.onTcpConnect l r) := by
  unfold onTcpConnect
  split
  · exact hu
  · exact slim_ends hu h

theorem slim_onTunnel (hu : SlimUpstream env u) {l r : Endpoint} (h : EndsFit env u l r) :
    SlimUpstream env (u.onTunnel l r) :=
  ⟨hu.id, .inr ⟨l, r, rfl, rfl, h⟩, hu.error, hu.buffer⟩

theorem slim_onOpen (hu : SlimUpstream env u) {l r : Endpoint} (h : EndsFit env u l r) :
    SlimUpstream env (u.onOpen l r).1 ∧ ∀ f ∈ (u.onOpen l r).2, Fits env f := by
  have hends : EndsFit env u (u.localEnd.getD l) (u.remoteEnd.getD r) := by
    rcases hu.ends with ⟨hl, hr⟩ | ⟨l', r', hl, hr, hfit⟩
    · rwa [hl, hr]
    · rwa [hl, hr]
  unfold onOpen
  split
  · exact ⟨hu, fun _ hf => by cases hf⟩
  · refine ⟨⟨hu.id, .inr ⟨_, _, rfl, rfl, hends⟩, hu.error, hu.buffer⟩, fun f hf => ?_⟩
    cases hsink : u.sink with
    | none =>
      rw [hsink] at hf
      cases hf
    | some sink =>
      rw [hsink] at hf
      rw [List.mem_singleton.mp hf, Fits, size_opened]
      exact hends

theorem slim_onClose (hu : SlimUpstream env u) :
    SlimUpstream env u.onClose.1 ∧ ∀ f ∈ u.onClose.2, Fits env f := by
  unfold onClose
  split
  · exact ⟨hu, fun _ hf => by cases hf⟩
  · refine ⟨⟨hu.id, hu.ends, hu.error, hu.buffer.dispose⟩, fun f hf => ?_⟩
    split at hf
    · rw [List.mem_singleton.mp hf]
      cases he : nonEmpty u.lastError with
      | none => exact hu.id.closed
      | some e => exact (hu.error e (Option.filter_eq_some_iff.mp he).1).closed
    · cases hf

/-- A flush writes what the upstream carries. -/
theorem Emits.slim {fs : List EngineToApp} (h : Emits u fs v) (hu : SlimUpstream env u) :
    SlimUpstream env v ∧ ∀ f ∈ fs, Fits env f := by
  induction h with
  | refl => exact ⟨hu, fun _ hf => by cases hf⟩
  | note _ stalled live ih => exact ⟨Carries.slim ih.1 ⟨rfl, rfl, rfl, rfl, rfl, rfl⟩, ih.2⟩
  | emit _ hf ih =>
    obtain ⟨hv, hfs⟩ := ih
    cases hf with
    | gap hgap =>
      refine ⟨slim_buffer hv hv.buffer.takeGap, fun f hf => ?_⟩
      rcases List.mem_append.mp hf with hf | hf
      · exact hfs f hf
      · rw [List.mem_singleton.mp hf]
        exact hv.buffer.gap_fits hv.id (Option.filter_eq_some_iff.mp hgap).1
    | line hb _ _ =>
      refine ⟨Carries.slim hv ⟨rfl, rfl, rfl, rfl, rfl, rfl⟩, fun f hf => ?_⟩
      rcases List.mem_append.mp hf with hf | hf
      · exact hfs f hf
      · rw [List.mem_singleton.mp hf]
        exact (hv.buffer.lines _ hb).line
    | live =>
      refine ⟨hv, fun f hf => ?_⟩
      rcases List.mem_append.mp hf with hf | hf
      · exact hfs f hf
      · rw [List.mem_singleton.mp hf]
        exact hv.id.live

theorem slim_attach (hu : SlimUpstream env u) (now : Int) (l : LinkId) (k : Nat) :
    SlimUpstream env (u.attach now l k).1 := by
  have hsink : SlimUpstream env (u.takeSink l k) := Carries.slim hu ⟨rfl, rfl, rfl, rfl, rfl, rfl⟩
  rcases attach_cases u now l k with ⟨p, h, -⟩ | ⟨h, -⟩ | ⟨h, -⟩
  · rw [h]
    have hacked := slim_buffer hsink (hsink.buffer.ack u.burstEndSeq)
    exact Carries.slim hacked ⟨rfl, rfl, rfl, rfl, rfl, rfl⟩
  · rw [h]
    exact hsink
  · rw [h]
    exact Carries.slim hsink ⟨rfl, rfl, rfl, rfl, rfl, rfl⟩

end Upstream

end Lurker.Engine
