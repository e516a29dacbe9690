import Mathlib.Logic.Function.Basic
import Lurker.Engine.Announce
import Lurker.Lib.Channel

/-!
# Holes and lost links

One held socket, the links its frames travel on, and what the apps at their
ends have received. A link keeps its frames in order; one that dies delivers
nothing more. A recorded hole is forgotten once it is written to a link, so a
line in it can be lost without a word when that link dies.
-/

namespace Lurker.Engine

/-- One held socket and its links. -/
structure Wire where
  upstream : Upstream
  chan : LinkId → Channel EngineToApp
  dead : LinkId → Bool
  /-- The link that attached last. -/
  latest : Option LinkId
  /-- The acks the engine has read. -/
  acks : List Int

inductive WireEvent
  | act (a : Act)
  | receive (l : LinkId)
  | die (l : LinkId)

namespace EngineToApp

/-- The frame hands over the line `k` with the burst its replay stands for. -/
def Replays (burstEnd : Nat) (f : EngineToApp) (k : Nat) : Prop :=
  match f with
  | .attached .. => k ≤ burstEnd
  | _ => False

/-- Whoever receives the frame has the line `k`, or knows that it is lost. -/
def Covers (burstEnd : Nat) (f : EngineToApp) (k : Nat) : Prop := f.Announces k ∨ f.Replays burstEnd k

end EngineToApp

/-- Somebody listens to the socket, or may attach to it. -/
def Upstream.Heard (u : Upstream) : Prop := u.closing = false ∨ u.sink.isSome = true

namespace Wire

def init (env : Platform) (socketId : SocketId) (opts : UpstreamOptions) (bufferBytes : Int) :
    Wire where
  upstream := .new env socketId opts bufferBytes
  chan _ := .empty
  dead _ := false
  latest := none
  acks := []

/-- An upstream wrote frames to its sink's link. -/
def wrote (w : Wire) (l : LinkId) (fs : List EngineToApp) (u : Upstream) : Wire :=
  { w with upstream := u, chan := Function.update w.chan l ((w.chan l).sendAll fs) }

def deliver (w : Wire) (d : Upstream.Delivery) : Wire :=
  match d.1.sink with
  | none => { w with upstream := d.1 }
  | some l => w.wrote l d.2 d.1

/-- The replay, and the backlog that follows it. -/
def handOver (w : Wire) (v : Upstream) (l : LinkId) (p : AttachedPayload) (ok : Nat → Bool) : Wire :=
  let d := v.flushAfterAttach ok
  { w with latest := some l }.wrote l (.attached v.id p :: d.2) d.1

/-- A `connect` that means the held socket. One on its way out is not attached to,
and one that cannot be handed over is ended. -/
def attach (env : Platform) (w : Wire) (l : LinkId) (frame : Nat) (now : Int) (ok : Nat → Bool) :
    Wire :=
  if w.upstream.closing then w
  else
    match w.upstream.attach now l frame with
    | (v, .dialing) => { w with upstream := v, latest := some l }
    | (v, .unregistered) => { w with upstream := (v.silence now).close.1 }
    | (v, .payload p) =>
      if MAX_FRAME_BYTES < utf16Length (encodeFrame env.showSocket (.attached v.id p)) then
        { w with upstream := (v.silence now).close.1 }
      else w.handOver v l p ok

def step (env : Platform) (w : Wire) : WireEvent → Wire
  | .act (.attach l frame now ok) => w.attach env l frame now ok
  | .act (.ack seq) => { w with upstream := w.upstream.ack seq, acks := w.acks ++ [seq] }
  | .act a => w.deliver (w.upstream.act env a)
  | .receive l =>
      if w.dead l then w else { w with chan := Function.update w.chan l (w.chan l).receive }
  | .die l => { w with dead := Function.update w.dead l true }

/-- Some app has received the line `k`, by itself, in a replayed burst or as part
of a reported hole, or has acked it. -/
def Accounted (w : Wire) (k : Nat) : Prop :=
  (∃ l, ∃ f ∈ (w.chan l).received, f.Covers w.upstream.burstEndSeq k) ∨ ∃ s ∈ w.acks, (k : Int) ≤ s

/-- The line `k` is in a hole that was written to a link. -/
def Reported (w : Wire) (k : Nat) : Prop :=
  ∃ l id g, .gap id g ∈ (w.chan l).log ∧ g.covers k

/-- The line `k` is not lost without a word, or not before a link is. -/
def Known (w : Wire) (k : Nat) : Prop := w.Accounted k ∨ w.Reported k

/-- The line `k` is in the burst that was replayed to the link that attached last. -/
def Replayed (w : Wire) (k : Nat) : Prop :=
  ∃ l, w.latest = some l ∧ ∃ f ∈ (w.chan l).log, f.Replays w.upstream.burstEndSeq k

/-- Whoever has received a line can tell what became of every line before it. -/
def Told (w : Wire) : Prop :=
  ∀ l id n text, .line id n text ∈ (w.chan l).received → ∀ k, 1 ≤ k → k ≤ n → w.Accounted k

/-- The condition on a step: when an app reads the line `n`, a line before it that
lies in an unread hole, on whichever link, has been received or acked by some app. -/
def Tells (w : Wire) : WireEvent → Prop
  | .receive l => w.dead l = false → ∀ id n text, (w.chan l).next? = some (.line id n text) →
      ∀ l' id' g k, .gap id' g ∈ (w.chan l').inFlight → g.covers k → 1 ≤ k → k < n → w.Accounted k
  | _ => True

/-- Where every line is: pending, in the recorded hole, with an app, in a hole that
was written to a link, or with the link that attached last; and that each link's
log leaves none out. -/
structure Sound (w : Wire) : Prop where
  tight : w.upstream.buffer.Tight
  sent_lt : w.upstream.sentSeq < w.upstream.buffer.nextSeq
  burstEnd_lt : w.upstream.burstEndSeq < w.upstream.buffer.nextSeq
  sink : ∀ l, w.upstream.sink = some l → w.latest = some l
  ready : ∀ l id p, .attached id p ∈ (w.chan l).log →
    w.upstream.Ready ∧ w.upstream.state = .opened
  kept : w.upstream.Heard → ∀ k, 1 ≤ k → k < w.upstream.buffer.nextSeq →
    w.upstream.buffer.Pending k ∨ w.upstream.buffer.InGap k ∨ w.Known k ∨ w.Replayed k
  owed : ∀ l, w.upstream.sink = some l → ∀ k, 1 ≤ k → k ≤ w.upstream.sentSeq →
    w.Known k ∨ ∃ f ∈ (w.chan l).log, f.Covers w.upstream.burstEndSeq k
  written : ∀ l p id n text, (w.chan l).log[p]? = some (.line id n text) → ∀ k, 1 ≤ k → k < n →
    w.Known k ∨ ∃ f ∈ (w.chan l).log.take p, f.Covers w.upstream.burstEndSeq k
  told : w.Told

section

variable {env : Platform} {w w' : Wire} {l : LinkId} {u v : Upstream} {f : EngineToApp}
  {fs : List EngineToApp} {i j k : Nat}

theorem replays_mono (h : f.Replays i k) (hij : i ≤ j) : f.Replays j k := by
  cases f with
  | attached id p => exact Nat.le_trans h hij
  | _ => exact h

theorem covers_mono (h : f.Covers i k) (hij : i ≤ j) : f.Covers j k :=
  h.imp_right (replays_mono · hij)

/-- What the apps have heard, and what was written to them, only grows. -/
structure Grows (w w' : Wire) : Prop where
  burstEnd : w.upstream.burstEndSeq ≤ w'.upstream.burstEndSeq
  received : ∀ l, (w.chan l).received ⊆ (w'.chan l).received
  log : ∀ l, (w.chan l).log ⊆ (w'.chan l).log
  acks : w.acks ⊆ w'.acks

theorem Grows.accounted (hg : w.Grows w') (h : w.Accounted k) : w'.Accounted k := by
  rcases h with ⟨l, f, hf, hc⟩ | ⟨s, hs, hk⟩
  · exact .inl ⟨l, f, hg.received l hf, covers_mono hc hg.burstEnd⟩
  · exact .inr ⟨s, hg.acks hs, hk⟩

theorem Grows.known (hg : w.Grows w') (h : w.Known k) : w'.Known k :=
  h.imp hg.accounted (fun ⟨l, id, g, hm, hc⟩ => ⟨l, id, g, hg.log l hm, hc⟩)

theorem Grows.told (hg : w.Grows w') (hr : ∀ l, (w'.chan l).received = (w.chan l).received)
    (h : w.Told) : w'.Told :=
  fun l id n text hm k h1 hk => hg.accounted (h l id n text (hr l ▸ hm) k h1 hk)

/-- The upstream changed, and nothing was written. -/
theorem Grows.ofUpstream (he : w.upstream.burstEndSeq ≤ v.burstEndSeq) :
    w.Grows { w with upstream := v } :=
  ⟨he, fun _ => List.Subset.refl _, fun _ => List.Subset.refl _, List.Subset.refl _⟩

theorem wrote_chan (w : Wire) (l l' : LinkId) (fs : List EngineToApp) (u : Upstream) :
    (w.wrote l fs u).chan l' = if l' = l then (w.chan l).sendAll fs else w.chan l' := by
  simp only [wrote, Function.update_apply]

theorem wrote_received (w : Wire) (l l' : LinkId) (fs : List EngineToApp) (u : Upstream) :
    ((w.wrote l fs u).chan l').received = (w.chan l').received := by
  rw [wrote_chan]
  split
  · rename_i h; rw [h, Channel.received_sendAll]
  · rfl

theorem wrote_log (w : Wire) (l l' : LinkId) (fs : List EngineToApp) (u : Upstream) :
    ((w.wrote l fs u).chan l').log = (w.chan l').log ++ if l' = l then fs else [] := by
  rw [wrote_chan]
  split
  · rename_i h; rw [h, Channel.log_sendAll]
  · rw [List.append_nil]

theorem wrote_wrote (w : Wire) (l : LinkId) (fs gs : List EngineToApp) (u v : Upstream) :
    (w.wrote l fs u).wrote l gs v = w.wrote l (fs ++ gs) v := by
  simp only [wrote, Function.update_self, Function.update_idem, Channel.sendAll, List.append_assoc]

theorem Grows.ofWrote (he : w.upstream.burstEndSeq ≤ u.burstEndSeq) : w.Grows (w.wrote l fs u) := by
  refine ⟨he, fun l' => ?_, fun l' => ?_, List.Subset.refl _⟩
  · rw [wrote_received]
    exact List.Subset.refl _
  · rw [wrote_log]
    exact List.subset_append_left _ _

theorem Replayed.wrote (h : w.Replayed k) (he : w.upstream.burstEndSeq ≤ u.burstEndSeq) :
    (w.wrote l fs u).Replayed k := by
  obtain ⟨l', hl', f, hf, hh⟩ := h
  refine ⟨l', hl', f, ?_, replays_mono hh he⟩
  rw [wrote_log]
  exact List.mem_append_left _ hf

/-- An old entry of a log keeps its place, and what stands before it. -/
theorem log_append {log fs : List EngineToApp} {p : Nat} {f : EngineToApp}
    (h : (log ++ fs)[p]? = some f) :
    log[p]? = some f ∧ (log ++ fs).take p = log.take p ∨ log.length ≤ p ∧ f ∈ fs := by
  by_cases hp : p < log.length
  · rw [List.getElem?_append_left hp] at h
    exact .inl ⟨h, List.take_append_of_le_length (Nat.le_of_lt hp)⟩
  · rw [List.getElem?_append_right (Nat.le_of_not_lt hp)] at h
    exact .inr ⟨Nat.le_of_not_lt hp, List.mem_of_getElem? h⟩

namespace Sound

/-- The upstream changed in nothing that delivery goes by, or lost its sink. -/
theorem upstream (h : w.Sound) (hb : v.buffer = w.upstream.buffer)
    (hs : v.sentSeq = w.upstream.sentSeq) (hk : v.sink = w.upstream.sink ∨ v.sink = none)
    (hc : v.closing = false → w.upstream.closing = false)
    (he : w.upstream.burstEndSeq ≤ v.burstEndSeq) (he' : v.burstEndSeq < v.buffer.nextSeq)
    (hr : w.upstream.Ready ∧ w.upstream.state = .opened → v.Ready ∧ v.state = .opened) :
    ({ w with upstream := v } : Wire).Sound := by
  have hsink : ∀ {l}, v.sink = some l → w.upstream.sink = some l := by
    intro l hl
    rcases hk with hk | hk
    · rw [← hk]; exact hl
    · rw [hk] at hl; exact nomatch hl
  have hg : w.Grows { w with upstream := v } := .ofUpstream he
  have hheard : v.Heard → w.upstream.Heard := by
    rintro (hcl | hl)
    · exact .inl (hc hcl)
    · obtain ⟨l, hl⟩ := Option.isSome_iff_exists.mp hl
      exact .inr (by rw [hsink hl]; rfl)
  refine ⟨?_, ?_, he', fun l hl => h.sink l (hsink hl), fun l id p hm => hr (h.ready l id p hm),
    fun hcl k h1 hk => ?_, fun l hl k h1 hk => ?_, fun l p id n text hp k h1 hk => ?_,
    hg.told (fun _ => rfl) h.told⟩
  · rw [hb]; exact h.tight
  · rw [hb, hs]; exact h.sent_lt
  · rw [hb] at hk ⊢
    rcases h.kept (hheard hcl) k h1 hk with hp | hgap | ha | ⟨l, hl, f, hf, hh⟩
    · exact .inl hp
    · exact .inr (.inl hgap)
    · exact .inr (.inr (.inl (hg.known ha)))
    · exact .inr (.inr (.inr ⟨l, hl, f, hf, replays_mono hh he⟩))
  · rw [hs] at hk
    exact (h.owed l (hsink hl) k h1 hk).imp hg.known (fun ⟨f, hf, hc⟩ => ⟨f, hf, covers_mono hc he⟩)
  · exact (h.written l p id n text hp k h1 hk).imp hg.known
      (fun ⟨f, hf, hc⟩ => ⟨f, hf, covers_mono hc he⟩)

theorem keeps (h : w.Sound) (hk : w.upstream.Keeps v) : ({ w with upstream := v } : Wire).Sound := by
  refine h.upstream hk.buffer hk.sentSeq (.inl hk.sink) (fun hcl => ?_) ?_ ?_
    (fun hr => ⟨hk.ready hr.1, hk.state.trans hr.2⟩)
  · cases hc : w.upstream.closing with
    | false => rfl
    | true => rw [hk.closing hc] at hcl; exact nomatch hcl
  · rcases hk.burstEnd with he | he
    · exact Nat.le_of_eq he.symm
    · rw [he.1]; exact Nat.zero_le _
  · rw [hk.buffer]
    rcases hk.burstEnd with he | he
    · rw [he]; exact h.burstEnd_lt
    · exact he.2

/-- A line the sink is passed over was lost before, or acked, or handed to it. -/
theorem skipped (h : w.Sound) (hl : w.upstream.sink = some l) (hgap : w.upstream.gapToReport = none)
    (h1 : 1 ≤ k) (hk : k < max (w.upstream.sentSeq + 1) w.upstream.buffer.front)
    (hn : k < w.upstream.buffer.nextSeq) :
    w.Known k ∨ ∃ f ∈ (w.chan l).log, f.Covers w.upstream.burstEndSeq k := by
  by_cases hs : k ≤ w.upstream.sentSeq
  · exact h.owed l hl k h1 hs
  · rcases h.kept (.inr (by rw [hl]; rfl)) k h1 hn with hp | ⟨g, hg, hc⟩ | ha | ⟨l', hl', f, hf, hh⟩
    · have := hp.1
      omega
    · have hle := Option.filter_eq_none_iff.mp hgap g hg
      simp only [decide_eq_true_eq] at hle
      have := hc.2
      omega
    · exact .inl ha
    · obtain rfl := Option.some.inj ((h.sink l hl).symm.trans hl')
      exact .inr ⟨f, hf, .inr hh⟩

/-- One frame written to the sink's link: the lines it takes out of the hole it
hands over, and a line it sends leaves none out. -/
theorem write (h : w.Sound) (hl : w.upstream.sink = some l)
    (hsame : v.sink = w.upstream.sink ∧ v.closing = w.upstream.closing ∧
      v.burstEndSeq = w.upstream.burstEndSeq ∧ v.buffer.nextSeq = w.upstream.buffer.nextSeq)
    (htight : v.buffer.Tight) (hsent : v.sentSeq < w.upstream.buffer.nextSeq)
    (hready : w.upstream.Ready ∧ w.upstream.state = .opened → v.Ready ∧ v.state = .opened)
    (hattached : ∀ id p, f ≠ .attached id p)
    (hpending : ∀ k, w.upstream.buffer.Pending k → v.buffer.Pending k)
    (hgap : ∀ k, w.upstream.buffer.InGap k →
      v.buffer.InGap k ∨ ∃ id g, f = .gap id g ∧ g.covers k)
    (howed : ∀ k, 1 ≤ k → w.upstream.sentSeq < k → k ≤ v.sentSeq → w.Known k ∨
      ∃ f' ∈ (w.chan l).log ++ [f], f'.Covers w.upstream.burstEndSeq k)
    (hline : ∀ id n text, f = .line id n text → ∀ k, 1 ≤ k → k < n → w.Known k ∨
      ∃ f' ∈ (w.chan l).log, f'.Covers w.upstream.burstEndSeq k) :
    (w.wrote l [f] v).Sound := by
  obtain ⟨hsink, hcl, he, hn⟩ := hsame
  have hg : w.Grows (w.wrote l [f] v) := .ofWrote (Nat.le_of_eq he.symm)
  have hself : ((w.wrote l [f] v).chan l).log = (w.chan l).log ++ [f] := by
    rw [wrote_log, if_pos rfl]
  refine ⟨htight, hn.symm ▸ hsent, by change v.burstEndSeq < _; rw [he]; exact hn ▸ h.burstEnd_lt,
    fun l' hl' => h.sink l' (hsink ▸ hl'),
    fun l' id p hm => ?_, fun hc k h1 hk => ?_, fun l' hl' k h1 hk => ?_,
    fun l' p id n text hp k h1 hk => ?_, hg.told (fun l' => wrote_received w l l' [f] v) h.told⟩
  · rw [wrote_log] at hm
    refine hready ((List.mem_append.mp hm).elim (h.ready l' id p) (fun hm => ?_))
    split at hm
    · exact absurd (List.mem_singleton.mp hm).symm (hattached id p)
    · exact absurd hm List.not_mem_nil
  · have hheard : w.upstream.Heard := hc.imp (hcl ▸ ·) (hsink ▸ ·)
    rcases h.kept hheard k h1 (hn ▸ hk) with hp | hin | ha | hh
    · exact .inl (hpending k hp)
    · rcases hgap k hin with hin | ⟨id, g, rfl, hcov⟩
      · exact .inr (.inl hin)
      · refine .inr (.inr (.inl (.inr ⟨l, id, g, ?_, hcov⟩)))
        rw [hself]
        exact List.mem_append_right _ (List.mem_singleton_self _)
    · exact .inr (.inr (.inl (hg.known ha)))
    · exact .inr (.inr (.inr (hh.wrote (Nat.le_of_eq he.symm))))
  · obtain rfl : l = l' := Option.some.inj (hl.symm.trans (hsink ▸ hl'))
    change k ≤ v.sentSeq at hk
    have hall : w.Known k ∨
        ∃ f' ∈ (w.chan l).log ++ [f], f'.Covers w.upstream.burstEndSeq k := by
      by_cases hs : w.upstream.sentSeq < k
      · exact howed k h1 hs hk
      · exact (h.owed l hl k h1 (by omega)).imp_right
          (fun ⟨f', hf, hc⟩ => ⟨f', List.mem_append_left _ hf, hc⟩)
    refine hall.imp hg.known (fun ⟨f', hf, hc⟩ => ⟨f', ?_, covers_mono hc (Nat.le_of_eq he.symm)⟩)
    rw [hself]
    exact hf
  · rw [wrote_log] at hp ⊢
    rcases log_append hp with ⟨hp, htake⟩ | ⟨hlen, hf⟩
    · rw [htake]
      exact (h.written l' p id n text hp k h1 hk).imp hg.known
        (fun ⟨f', hf, hc⟩ => ⟨f', hf, covers_mono hc (Nat.le_of_eq he.symm)⟩)
    · split at hf
      · rename_i hl'
        subst hl'
        refine (hline id n text (List.mem_singleton.mp hf).symm k h1 hk).imp hg.known
          (fun ⟨f', hf, hc⟩ => ⟨f', ?_, covers_mono hc (Nat.le_of_eq he.symm)⟩)
        refine List.mem_take_iff_getElem.mpr ?_
        obtain ⟨q, hq, rfl⟩ := List.mem_iff_getElem.mp hf
        refine ⟨q, ?_, ?_⟩
        · rw [if_pos rfl, List.length_append]; omega
        · rw [List.getElem_append_left hq]
      · exact absurd hf List.not_mem_nil

theorem emit (h : w.Sound) (hl : w.upstream.sink = some l) (he : Upstream.Emit w.upstream f v) :
    (w.wrote l [f] v).Sound := by
  have hnot : ∀ {k}, w.upstream.sentSeq < k → k ≤ w.upstream.sentSeq → False :=
    fun h h' => by omega
  cases he with
  | @gap g hg =>
    obtain ⟨hgap, -⟩ := Option.filter_eq_some_iff.mp hg
    refine h.write hl ⟨rfl, rfl, rfl, rfl⟩ nofun h.sent_lt id nofun (fun _ hp => hp)
      (fun k hk => .inr ?_) (fun k _ hs hk => (hnot hs hk).elim) nofun
    obtain ⟨g', hg', hc⟩ := hk
    obtain rfl := Option.some.inj (hg'.symm.trans hgap)
    exact ⟨_, _, rfl, hc⟩
  | @line b hb hseq hgap =>
    obtain ⟨hlo, hhi⟩ := LineBuffer.mem_lines_pending hb
    refine h.write hl ⟨rfl, rfl, rfl, rfl⟩ h.tight hhi id nofun (fun _ hp => hp)
      (fun _ hg => .inl hg) (fun k h1 hs hk => ?_) (fun id n text hf k h1 hk => ?_)
    · by_cases heq : k = b.seq
      · exact .inr ⟨_, List.mem_append_right _ (List.mem_singleton_self _), .inl heq.symm⟩
      · have hk' : k ≤ b.seq := hk
        exact (h.skipped hl hgap h1 (by omega) (by omega)).imp_right
          (fun ⟨f', hf, hc⟩ => ⟨f', List.mem_append_left _ hf, hc⟩)
    · cases hf
      exact h.skipped hl hgap h1 (by omega) (by omega)
  | live =>
    exact h.write hl ⟨rfl, rfl, rfl, rfl⟩ h.tight h.sent_lt id nofun (fun _ hp => hp)
      (fun _ hg => .inl hg) (fun k _ hs hk => (hnot hs hk).elim) nofun

theorem emits (h : w.Sound) (hl : w.upstream.sink = some l) (he : Upstream.Emits w.upstream fs v) :
    (w.wrote l fs v).Sound := by
  induction he with
  | refl =>
    have hw : w.wrote l [] w.upstream = w := by
      have hc : (w.chan l).sendAll [] = w.chan l := by
        unfold Channel.sendAll; simp
      simp only [wrote, hc, Function.update_eq_self]
    rw [hw]
    exact h
  | note _ stalled live ih =>
    exact ih.upstream rfl rfl (.inl rfl) id (Nat.le_refl _) ih.burstEnd_lt id
  | @emit gs v v' f he hf ih =>
    have hsink : (w.wrote l gs v).upstream.sink = some l := he.sameSocket.2.1.trans hl
    have h' := ih.emit hsink hf
    rwa [wrote_wrote] at h'

/-- The backlog changed, every line in it staying somewhere. -/
theorem buffer (h : w.Sound) {b : LineBuffer} (htight : b.Tight)
    (hn : w.upstream.buffer.nextSeq ≤ b.nextSeq)
    (hkept : ∀ k, 1 ≤ k → k < b.nextSeq →
      (w.upstream.buffer.Pending k ∨ w.upstream.buffer.InGap k ∨ w.upstream.buffer.nextSeq ≤ k) →
      b.Pending k ∨ b.InGap k ∨ w.Accounted k) :
    ({ w with upstream := { w.upstream with buffer := b } } : Wire).Sound := by
  have hg : w.Grows { w with upstream := { w.upstream with buffer := b } } :=
    .ofUpstream (Nat.le_refl _)
  refine ⟨htight, Nat.lt_of_lt_of_le h.sent_lt hn, Nat.lt_of_lt_of_le h.burstEnd_lt hn, h.sink,
    h.ready, fun hc k h1 hk => ?_, fun l hl k h1 hk => (h.owed l hl k h1 hk).imp_left hg.known,
    fun l p id n text hp k h1 hk => (h.written l p id n text hp k h1 hk).imp_left hg.known,
    hg.told (fun _ => rfl) h.told⟩
  have hlift : b.Pending k ∨ b.InGap k ∨ w.Accounted k → b.Pending k ∨ b.InGap k ∨
      ({ w with upstream := { w.upstream with buffer := b } } : Wire).Known k ∨
      ({ w with upstream := { w.upstream with buffer := b } } : Wire).Replayed k :=
    fun h => h.imp_right (Or.imp_right fun h => .inl (hg.known (.inl h)))
  by_cases hk' : k < w.upstream.buffer.nextSeq
  · rcases h.kept hc k h1 hk' with hp | hin | ha | hh
    · exact hlift (hkept k h1 hk (.inl hp))
    · exact hlift (hkept k h1 hk (.inr (.inl hin)))
    · exact .inr (.inr (.inl (hg.known ha)))
    · exact .inr (.inr (.inr hh))
  · exact hlift (hkept k h1 hk (.inr (.inr (by omega))))

theorem append (h : w.Sound) (text : String) :
    ({ w with upstream := { w.upstream with buffer := w.upstream.buffer.append text } } : Wire).Sound := by
  refine h.buffer (h.tight.append text) (Nat.le_succ _) (fun k h1 hk hor => ?_)
  rcases hor with hp | hg | hn
  · exact .inl (LineBuffer.pending_append.mpr (.inl hp))
  · exact .inr (.inl hg)
  · have hk' : k < w.upstream.buffer.nextSeq + 1 := hk
    exact .inl (LineBuffer.pending_append.mpr (.inr (by omega)))

theorem dropOldest (h : w.Sound) (now : Int) :
    ({ w with upstream := { w.upstream with buffer := w.upstream.buffer.dropOldest now } } : Wire).Sound := by
  refine h.buffer (h.tight.dropOldest now) (Nat.le_refl _) (fun k h1 hk hor => ?_)
  by_cases hl : 0 < w.upstream.buffer.length
  · rcases hor with hp | hg | hn
    · by_cases hfront : k = w.upstream.buffer.front
      · exact .inr (.inl (hfront ▸ LineBuffer.inGap_dropOldest_front now hl))
      · exact .inl ((LineBuffer.pending_dropOldest now hl).mpr ⟨hp, hfront⟩)
    · exact .inr (.inl (LineBuffer.inGap_dropOldest_of_inGap now hg))
    · exact absurd hk (Nat.not_lt.mpr hn)
  · rw [LineBuffer.dropOldest_of_empty now (by omega)]
    rcases hor with hp | hg | hn
    · exact .inl hp
    · exact .inr (.inl hg)
    · exact absurd hk (Nat.not_lt.mpr (by rw [LineBuffer.nextSeq_dropOldest]; exact hn))

theorem drops (h : w.Sound) (now : Int) (j : Nat) :
    ({ w with upstream := { w.upstream with buffer := w.upstream.buffer.drops now j } } : Wire).Sound :=
  LineBuffer.drops_induct
    (P := fun b => ({ w with upstream := { w.upstream with buffer := b } } : Wire).Sound) now
    (fun _ hb => hb.dropOldest now) j h

theorem store (h : w.Sound) (now : Int) (forced : Nat) (text : String) :
    ({ w with upstream := w.upstream.store now forced text } : Wire).Sound := by
  obtain ⟨⟨i, hi, -⟩, -⟩ := (w.upstream.buffer.append text).trim_spec now
  unfold Upstream.store
  rw [hi, LineBuffer.drops_drops]
  exact (h.append text).drops now (i + forced)

/-- An ack accounts for what it frees. -/
theorem ack (h : w.Sound) (seq : Int) :
    ({ w with upstream := w.upstream.ack seq, acks := w.acks ++ [seq] } : Wire).Sound := by
  have hacks : ({ w with acks := w.acks ++ [seq] } : Wire).Sound := by
    have hg : w.Grows { w with acks := w.acks ++ [seq] } :=
      ⟨Nat.le_refl _, fun _ => List.Subset.refl _, fun _ => List.Subset.refl _,
        List.subset_append_left _ _⟩
    exact ⟨h.tight, h.sent_lt, h.burstEnd_lt, h.sink, h.ready,
      fun hc k h1 hk => (h.kept hc k h1 hk).imp_right (Or.imp_right (Or.imp_left hg.known)),
      fun l hl k h1 hk => (h.owed l hl k h1 hk).imp_left hg.known,
      fun l p id n text hp k h1 hk => (h.written l p id n text hp k h1 hk).imp_left hg.known,
      hg.told (fun _ => rfl) h.told⟩
  refine hacks.buffer (h.tight.ack seq) (Nat.le_refl _) (fun k h1 hk hor => ?_)
  by_cases hs : (k : Int) ≤ seq
  · exact .inr (.inr (.inr ⟨seq, List.mem_append_right _ (List.mem_singleton_self _), hs⟩))
  · rcases hor with hp | hg | hn
    · exact .inl (LineBuffer.pending_ack.mpr ⟨hp, by omega⟩)
    · exact .inr (.inl (LineBuffer.inGap_ack.mpr ⟨hg, by omega⟩))
    · exact absurd hk (Nat.not_lt.mpr hn)

theorem deliver_upstream (w : Wire) (u : Upstream) (d : Upstream.Delivery) :
    ({ w with upstream := u } : Wire).deliver d = w.deliver d := by
  unfold deliver
  split <;> rfl

theorem deliver_nil (w : Wire) (u : Upstream) :
    w.deliver (u, []) = { w with upstream := u } := by
  unfold deliver
  split
  · rfl
  · rename_i l _
    have hc : (w.chan l).sendAll [] = w.chan l := by
      unfold Channel.sendAll; simp
    simp only [wrote, hc, Function.update_eq_self]

theorem flush (h : w.Sound) (ok : Nat → Bool) :
    (w.deliver (Upstream.flush ok (w.upstream, []))).Sound := by
  cases hl : w.upstream.sink with
  | none =>
    have hf : Upstream.flush ok (w.upstream, []) = (w.upstream, []) := by
      simp only [Upstream.flush, hl, Option.isNone_none, Bool.true_or, ↓reduceIte]
    rw [hf, deliver_nil]
    exact h
  | some l =>
    obtain ⟨fs, hfs, he⟩ := Upstream.flush_emits ok w.upstream []
    have hsink := he.sameSocket.2.1.trans hl
    have hd : w.deliver (Upstream.flush ok (w.upstream, [])) =
        w.wrote l fs (Upstream.flush ok (w.upstream, [])).1 := by
      simp only [deliver, hsink, hfs, List.nil_append]
    rw [hd]
    exact h.emits hl he

theorem onLine (h : w.Sound) (text : String) (now : Int) (forced : Nat) (ok : Nat → Bool) :
    (w.deliver (w.upstream.onLine env text now forced ok)).Sound := by
  unfold Upstream.onLine
  split
  · rw [deliver_nil]; exact h
  · rename_i msg _
    split
    · rw [deliver_nil]; exact h.keeps (Upstream.keeps_answerPing _ _)
    · have hstore := (h.keeps (Upstream.keeps_trackLine env w.upstream text msg)).store now forced text
      generalize (w.upstream.trackLine env text msg).1 = v at hstore ⊢
      have hn : v.buffer.nextSeq < (v.store now forced text).buffer.nextSeq := by
        obtain ⟨⟨i, hi, -⟩, -⟩ := (v.buffer.append text).trim_spec now
        simp only [Upstream.store]
        rw [hi, LineBuffer.drops_drops, LineBuffer.nextSeq_drops]
        exact Nat.lt_succ_self _
      have hnoted := (hstore.keeps (Upstream.keeps_noteBurstEnd _ hn)).flush ok
      rwa [deliver_upstream, deliver_upstream, deliver_upstream] at hnoted

theorem onOpen (h : w.Sound) (hd : w.upstream.state = .dialing) (a b : Endpoint) :
    (w.deliver (w.upstream.onOpen a b)).Sound := by
  unfold Upstream.onOpen
  split
  · rw [deliver_nil]; exact h
  · have hno : w.upstream.Ready ∧ w.upstream.state = .opened → False := by
      rintro ⟨-, ho⟩
      rw [hd] at ho
      exact nomatch ho
    simp only
    cases hl : w.upstream.sink with
    | none =>
      rw [Option.elim_none, deliver_nil]
      exact h.upstream rfl rfl (.inl rfl) id (Nat.le_refl _) h.burstEnd_lt (fun hr => (hno hr).elim)
    | some l =>
      have hw := h.write hl (f := .opened w.upstream.id (w.upstream.localEnd.getD a)
          (w.upstream.remoteEnd.getD b) w.upstream.socketId)
        (v := w.upstream.openedAt (w.upstream.localEnd.getD a) (w.upstream.remoteEnd.getD b))
        ⟨rfl, rfl, rfl, rfl⟩ h.tight h.sent_lt (fun hr => (hno hr).elim) nofun (fun _ hp => hp)
        (fun _ hg => .inl hg) (fun k _ hs hk => by
          change k ≤ w.upstream.sentSeq at hk
          omega) nofun
      have hsink : (w.upstream.openedAt (w.upstream.localEnd.getD a)
          (w.upstream.remoteEnd.getD b)).sink = some l := hl
      simp only [Option.elim_some, deliver, hsink]
      exact hw

/-- What an upstream does by itself leaves no line unaccounted for. -/
theorem act (h : w.Sound) {a : Act} (hack : ∀ seq, a ≠ .ack seq)
    (hattach : ∀ sink frame now ok, a ≠ .attach sink frame now ok) :
    (w.deliver (w.upstream.act env a)).Sound := by
  cases a with
  | dial =>
    simp only [Upstream.act]
    rw [deliver_nil]
    cases hd : w.upstream.dial env with
    | error e => exact h
    | ok v =>
      obtain ⟨-, -, hk, hst, -, -, hbuf, hs, he, -⟩ := Upstream.dial_spec hd
      obtain ⟨hcl, hr⟩ := Upstream.dial_ready hd
      exact h.upstream hbuf hs (.inl hk) (fun hc => hcl ▸ hc) (Nat.le_of_eq he.symm)
        (by change v.burstEndSeq < v.buffer.nextSeq; rw [he, hbuf]; exact h.burstEnd_lt)
        (fun h => ⟨hr h.1, hst.trans h.2⟩)
  | tunnel l r =>
    simp only [Upstream.act]
    rw [deliver_nil]
    split
    · exact h.upstream rfl rfl (.inl rfl) id (Nat.le_refl _) h.burstEnd_lt
        (fun hr => ⟨⟨rfl, rfl, hr.1.2.2⟩, hr.2⟩)
    · exact h
  | opened l r =>
    simp only [Upstream.act]
    split
    · rename_i hd; exact h.onOpen hd l r
    · rw [deliver_nil]; exact h
  | line text now forced ok => exact h.onLine text now forced ok
  | shed now forced =>
    simp only [Upstream.act]
    rw [deliver_nil]
    exact h.drops now forced
  | write line =>
    simp only [Upstream.act]
    rw [deliver_nil]
    exact h.keeps (Upstream.keeps_rawWrite _ line)
  | ack seq => exact absurd rfl (hack seq)
  | resume ok =>
    have hu : ({ w with upstream := w.upstream.unstall } : Wire).Sound :=
      h.upstream rfl rfl (.inl rfl) id (Nat.le_refl _) h.burstEnd_lt id
    have hf := hu.flush ok
    rwa [deliver_upstream] at hf
  | attach sink frame now ok => exact absurd rfl (hattach sink frame now ok)
  | detach now =>
    simp only [Upstream.act]
    rw [deliver_nil]
    unfold Upstream.detach
    split
    · exact h
    · exact h.upstream rfl rfl (.inr rfl) id (Nat.le_refl _) h.burstEnd_lt id
  | close =>
    simp only [Upstream.act]
    rw [deliver_nil]
    exact h.keeps (Upstream.keeps_close _)

/-- A burst is only replayed by a socket that is up. -/
theorem replayed (h : w.Sound) (hk : w.Replayed k) :
    (w.upstream.Ready ∧ w.upstream.state = .opened) ∧ k ≤ w.upstream.burstEndSeq := by
  obtain ⟨l, -, f, hf, hh⟩ := hk
  cases f with
  | attached id p => exact ⟨h.ready l id p hf, hh⟩
  | _ => exact hh.elim

/-- A new sink, and the replay that was written to it if there was one. -/
theorem taken (h : w.Sound) (hclosing : w.upstream.closing = false)
    (hl : v.sink = some l) (htight : v.buffer.Tight)
    (hn : v.buffer.nextSeq = w.upstream.buffer.nextSeq)
    (he : v.burstEndSeq = w.upstream.burstEndSeq)
    (hr : w.upstream.Ready ∧ w.upstream.state = .opened → v.Ready ∧ v.state = .opened)
    (hfs : ∀ f ∈ fs, ∃ id p, f = .attached id p ∧ v.Ready ∧ v.state = .opened)
    (hburst : w.upstream.Ready ∧ w.upstream.state = .opened → ∀ k ≤ w.upstream.burstEndSeq,
      ∃ f ∈ fs, f.Replays w.upstream.burstEndSeq k)
    (hsent : v.sentSeq = 0 ∨ v.sentSeq = w.upstream.burstEndSeq ∧
      w.upstream.Ready ∧ w.upstream.state = .opened)
    (hkept : ∀ k, w.upstream.buffer.Pending k ∨ w.upstream.buffer.InGap k →
      v.buffer.Pending k ∨ v.buffer.InGap k ∨
        (w.upstream.Ready ∧ w.upstream.state = .opened) ∧ k ≤ w.upstream.burstEndSeq) :
    (({ w with latest := some l } : Wire).wrote l fs v).Sound := by
  have hw : ({ w with latest := some l } : Wire).Grows
      (({ w with latest := some l } : Wire).wrote l fs v) := .ofWrote (Nat.le_of_eq he.symm)
  have hg : w.Grows (({ w with latest := some l } : Wire).wrote l fs v) :=
    ⟨hw.burstEnd, hw.received, hw.log, hw.acks⟩
  have hlog : ∀ l', ((({ w with latest := some l } : Wire).wrote l fs v).chan l').log =
      (w.chan l').log ++ if l' = l then fs else [] := fun l' => wrote_log _ _ _ _ _
  have hreplayed : ∀ {k}, (w.upstream.Ready ∧ w.upstream.state = .opened) ∧
      k ≤ w.upstream.burstEndSeq → (({ w with latest := some l } : Wire).wrote l fs v).Replayed k := by
    rintro k ⟨ho, hk⟩
    obtain ⟨f, hf, hh⟩ := hburst ho k hk
    refine ⟨l, rfl, f, ?_, replays_mono hh (Nat.le_of_eq he.symm)⟩
    rw [hlog, if_pos rfl]
    exact List.mem_append_right _ hf
  refine ⟨htight, ?_, ?_, fun l' hl' => hl.symm.trans hl', fun l' id p hm => ?_,
    fun _ k h1 hk => ?_, fun l' hl' k h1 hk => ?_, fun l' p id n text hp k h1 hk => ?_,
    hg.told (fun l' => wrote_received _ l l' fs v) h.told⟩
  · change v.sentSeq < v.buffer.nextSeq
    have hpos := h.sent_lt
    have hlt := h.burstEnd_lt
    rw [hn]
    omega
  · exact (he.trans_lt h.burstEnd_lt).trans_eq hn.symm
  · rw [hlog] at hm
    rcases List.mem_append.mp hm with hm | hm
    · exact hr (h.ready l' id p hm)
    · split at hm
      · obtain ⟨_, _, -, ho⟩ := hfs _ hm
        exact ho
      · exact absurd hm List.not_mem_nil
  · rcases h.kept (.inl hclosing) k h1 (hn ▸ hk) with hp | hin | ha | hh
    · exact (hkept k (.inl hp)).imp_right (Or.imp_right fun h => .inr (hreplayed h))
    · exact (hkept k (.inr hin)).imp_right (Or.imp_right fun h => .inr (hreplayed h))
    · exact .inr (.inr (.inl (hg.known ha)))
    · exact .inr (.inr (.inr (hreplayed (h.replayed hh))))
  · obtain rfl := Option.some.inj (hl.symm.trans hl')
    change k ≤ v.sentSeq at hk
    rcases hsent with hs | ⟨hs, ho⟩
    · omega
    · obtain ⟨f, hf, hh⟩ := hburst ho k (hs ▸ hk)
      refine .inr ⟨f, ?_, .inr (replays_mono hh (Nat.le_of_eq he.symm))⟩
      rw [hlog, if_pos rfl]
      exact List.mem_append_right _ hf
  · rw [hlog] at hp ⊢
    rcases log_append hp with ⟨hp, htake⟩ | ⟨-, hf⟩
    · rw [htake]
      exact (h.written l' p id n text hp k h1 hk).imp hg.known
        (fun ⟨f, hf, hc⟩ => ⟨f, hf, covers_mono hc (Nat.le_of_eq he.symm)⟩)
    · split at hf
      · obtain ⟨_, _, hne, -⟩ := hfs _ hf
        exact nomatch hne
      · exact absurd hf List.not_mem_nil

/-- Nobody will be sent anything more, and the logs are as they were. -/
theorem ended (h : w.Sound) (hsink : v.sink = none) (hcl : v.closing = true)
    (htight : v.buffer.Tight) (hn : v.buffer.nextSeq = w.upstream.buffer.nextSeq)
    (hs : v.sentSeq < v.buffer.nextSeq) (he : v.burstEndSeq = w.upstream.burstEndSeq)
    (hr : w.upstream.Ready ∧ w.upstream.state = .opened → v.Ready ∧ v.state = .opened) :
    ({ w with upstream := v } : Wire).Sound := by
  have hnone : ∀ {l}, v.sink ≠ some l := fun hl => nomatch hsink.symm.trans hl
  have hg : w.Grows { w with upstream := v } := .ofUpstream (Nat.le_of_eq he.symm)
  refine ⟨htight, hs, (he.trans_lt h.burstEnd_lt).trans_eq hn.symm, fun l hl => (hnone hl).elim,
    fun l id p hm => hr (h.ready l id p hm), fun hc => ?_, fun l hl => (hnone hl).elim,
    fun l p id n text hp k h1 hk => ?_, hg.told (fun _ => rfl) h.told⟩
  · rcases hc with hc | hc
    · exact nomatch hcl.symm.trans hc
    · exact nomatch (congrArg Option.isSome hsink).symm.trans hc
  · exact (h.written l p id n text hp k h1 hk).imp hg.known
      (fun ⟨f, hf, hc⟩ => ⟨f, hf, covers_mono hc (Nat.le_of_eq he.symm)⟩)

/-- A socket that cannot be handed over is ended. -/
theorem silenced (h : w.Sound) (now : Int) (hsame : w.upstream.SameSocket v)
    (htight : v.buffer.Tight) (hs : v.sentSeq < v.buffer.nextSeq)
    (hr : w.upstream.Ready → v.Ready) :
    ({ w with upstream := (v.silence now).close.1 } : Wire).Sound := by
  obtain ⟨hq, hsink, hbuf, -⟩ := Upstream.sameSocket_silence v now
  have hk := Upstream.keeps_close (v.silence now)
  have hsil : (v.silence now).sentSeq = v.sentSeq ∧ (v.Ready → (v.silence now).Ready) := by
    unfold Upstream.silence Upstream.detach
    split <;> exact ⟨rfl, fun h => h⟩
  have hb : (v.silence now).close.1.buffer = v.buffer := hk.buffer.trans hbuf
  have he : (v.silence now).close.1.burstEndSeq = w.upstream.burstEndSeq := by
    rw [Upstream.burstEndSeq_close, hq.burstEndSeq, hsame.burstEndSeq]
  refine h.ended (hk.sink.trans hsink) (Upstream.closing_close _) (hb ▸ htight)
    (by rw [hb, hsame.nextSeq]) ?_ he (fun ho => ⟨hk.ready (hsil.2 (hr ho.1)), ?_⟩)
  · rw [hb, hk.sentSeq, hsil.1]
    exact hs
  · rw [hk.state, hq.state, hsame.state]
    exact ho.2

theorem attach (h : w.Sound) (l : LinkId) (frame : Nat) (now : Int) (ok : Nat → Bool) :
    (w.attach env l frame now ok).Sound := by
  have hsame := (w.upstream.sameSocket_attach now l frame).1
  unfold Wire.attach
  split
  · exact h
  · rename_i hcl
    have hclosing : w.upstream.closing = false := Bool.eq_false_iff.mpr hcl
    rcases w.upstream.attach_cases now l frame with ⟨p, hp, hready⟩ | ⟨hp, -⟩ | ⟨hp, hno⟩ <;>
      rw [hp] at hsame <;> simp only [hp]
    · have htight := h.tight.ack (w.upstream.burstEndSeq : Int)
      split
      · exact h.silenced now hsame htight h.burstEnd_lt (fun h => h)
      · obtain he := Upstream.flushAfterAttach_emits ok (w.upstream.takeSink l frame).skipBurst
        have htaken := @taken _ _ (w.upstream.takeSink l frame).skipBurst
          [.attached w.upstream.id p] h hclosing rfl htight rfl rfl (fun h => h)
          (fun f hf => ⟨_, _, List.mem_singleton.mp hf, hready⟩)
          (fun _ k hk => ⟨_, List.mem_singleton_self _, hk⟩) (.inr ⟨rfl, hready⟩) (fun k hk => ?_)
        · have hdone := htaken.emits rfl he
          rwa [wrote_wrote] at hdone
        · by_cases hle : k ≤ w.upstream.burstEndSeq
          · exact .inr (.inr ⟨hready, hle⟩)
          · have hlt : (w.upstream.burstEndSeq : Int) < k := by omega
            rcases hk with hk | hk
            · exact .inl (LineBuffer.pending_ack.mpr ⟨hk, hlt⟩)
            · exact .inr (.inl (LineBuffer.inGap_ack.mpr ⟨hk, hlt⟩))
    · exact h.silenced now hsame h.tight h.sent_lt (fun h => h)
    · have htaken := @taken _ _ (w.upstream.takeSink l frame).rewind [] h hclosing
        rfl h.tight rfl rfl (fun h => h) (fun f hf => absurd hf List.not_mem_nil)
        (fun ho => (hno ho).elim) (.inl rfl) (fun k hk => hk.imp_right .inl)
      have hw : ({ w with latest := some l } : Wire).wrote l []
          (w.upstream.takeSink l frame).rewind =
          { w with upstream := (w.upstream.takeSink l frame).rewind, latest := some l } := by
        have hc : (w.chan l).sendAll [] = w.chan l := by
          unfold Channel.sendAll; simp
        simp only [wrote, hc, Function.update_eq_self]
      rwa [hw] at htaken

/-- An app that reads its link learns more: when it reads a line, every line before
it is covered by what it read before, or lies in a hole. -/
theorem receive (h : w.Sound) (l : LinkId) (hdead : w.dead l = false) (ht : w.Tells (.receive l)) :
    ({ w with chan := Function.update w.chan l (w.chan l).receive } : Wire).Sound := by
  generalize hw' : ({ w with chan := Function.update w.chan l (w.chan l).receive } : Wire) = w'
  have hu : w'.upstream = w.upstream := by rw [← hw']
  have hchan : ∀ l', w'.chan l' = if l' = l then (w.chan l).receive else w.chan l' := by
    intro l'
    rw [← hw']
    simp only [Function.update_apply]
  have hlog : ∀ l', (w'.chan l').log = (w.chan l').log := by
    intro l'
    rw [hchan]
    split
    · rename_i hl; rw [hl, Channel.log_receive]
    · rfl
  have hrec : ∀ l', (w.chan l').received ⊆ (w'.chan l').received := by
    intro l'
    rw [hchan]
    split
    · rename_i hl; rw [hl]; exact Channel.received_subset_receive _
    · exact List.Subset.refl _
  have hacks : w'.acks = w.acks := by rw [← hw']
  have hlatest : w'.latest = w.latest := by rw [← hw']
  have hg : w.Grows w' := ⟨by rw [hu], hrec, fun l' => by rw [hlog]; exact List.Subset.refl _,
    hacks ▸ List.Subset.refl _⟩
  have hreplayed : ∀ {k}, w.Replayed k → w'.Replayed k := by
    rintro k ⟨l', hl', f, hf, hh⟩
    exact ⟨l', hlatest.trans hl', f, (hlog l').symm ▸ hf, hu.symm ▸ hh⟩
  refine ⟨hu.symm ▸ h.tight, hu.symm ▸ h.sent_lt, hu.symm ▸ h.burstEnd_lt, fun l' hl' => ?_,
    fun l' id p hm => ?_, fun hc k h1 hk => ?_, fun l' hl' k h1 hk => ?_,
    fun l' p id n text hp k h1 hk => ?_, fun l' id n text hm k h1 hk => ?_⟩
  · exact hlatest.trans (h.sink l' (hu ▸ hl'))
  · exact hu.symm ▸ h.ready l' id p (hlog l' ▸ hm)
  · rw [hu] at hc hk ⊢
    exact (h.kept hc k h1 hk).imp_right (Or.imp_right (Or.imp hg.known hreplayed))
  · rw [hu] at hl' hk ⊢
    rw [hlog]
    exact (h.owed l' hl' k h1 hk).imp_left hg.known
  · rw [hlog] at hp ⊢
    rw [hu]
    exact (h.written l' p id n text hp k h1 hk).imp_left hg.known
  · by_cases hold : .line id n text ∈ (w.chan l').received
    · exact hg.accounted (h.told l' id n text hold k h1 hk)
    · obtain rfl : l' = l := by
        by_contra hne
        rw [hchan, if_neg hne] at hm
        exact hold hm
      have hnext : (w.chan l').next? = some (.line id n text) := by
        rw [hchan, if_pos rfl] at hm
        cases hx : (w.chan l').next? with
        | none => rw [Channel.receive_of_none hx] at hm; exact absurd hm hold
        | some x =>
          rw [(Channel.receive_of_next hx).1] at hm
          rcases List.mem_append.mp hm with hm | hm
          · exact absurd hm hold
          · rw [List.mem_singleton.mp hm]
      by_cases hkn : k = n
      · exact .inl ⟨l', _, hm, .inl hkn.symm⟩
      · rcases h.written l' _ id n text hnext k h1 (by omega) with (ha | ⟨j, id', g, hj, hc⟩) | hpre
        · exact hg.accounted ha
        · rw [← (w.chan j).received_append_inFlight] at hj
          rcases List.mem_append.mp hj with hj | hj
          · exact hg.accounted (.inl ⟨j, _, hj, .inl hc⟩)
          · exact hg.accounted (ht hdead id n text hnext j id' g k hj hc h1 (by omega))
        · obtain ⟨f, hf, hc⟩ := hpre
          exact hg.accounted (.inl ⟨l', f, hf, hc⟩)

end Sound

theorem step_sound (env : Platform) (h : w.Sound) (e : WireEvent) (ht : w.Tells e) :
    (w.step env e).Sound := by
  cases e with
  | act a =>
    cases a with
    | attach l frame now ok => exact h.attach l frame now ok
    | ack seq => exact h.ack seq
    | _ => exact h.act (fun _ => nofun) (fun _ _ _ _ => nofun)
  | receive l =>
    simp only [step]
    split
    · exact h
    · rename_i hdead
      exact h.receive l (Bool.eq_false_iff.mpr hdead) ht
  | die l =>
    exact ⟨h.tight, h.sent_lt, h.burstEnd_lt, h.sink, h.ready, h.kept, h.owed, h.written, h.told⟩

/-- An app that reads a line and can tell what became of the lines before it could
tell so before. -/
theorem tells_of_told (env : Platform) (e : WireEvent) (h : (w.step env e).Told) : w.Tells e := by
  cases e with
  | receive l =>
    intro hdead id n text hnext l' id' g k hg hc h1 hk
    simp only [step, hdead, Bool.false_eq_true, ↓reduceIte] at h
    have hrec := (Channel.receive_of_next hnext).1
    have hm : .line id n text ∈ ((Function.update w.chan l (w.chan l).receive) l).received := by
      rw [Function.update_self, hrec]
      exact List.mem_append_right _ (List.mem_singleton_self _)
    rcases h l id n text hm k h1 (Nat.le_of_lt hk) with ⟨j, f, hf, hcov⟩ | hack
    · by_cases hj : j = l
      · subst hj
        change f ∈ ((Function.update w.chan j (w.chan j).receive) j).received at hf
        rw [Function.update_self, hrec] at hf
        rcases List.mem_append.mp hf with hf | hf
        · exact .inl ⟨j, f, hf, hcov⟩
        · rw [List.mem_singleton.mp hf] at hcov
          rcases hcov with ha | hr
          · exact absurd ha (Nat.ne_of_gt hk)
          · exact hr.elim
      · change f ∈ ((Function.update w.chan l (w.chan l).receive) j).received at hf
        rw [Function.update_of_ne hj] at hf
        exact .inl ⟨j, f, hf, hcov⟩
    · exact .inr hack
  | _ => exact trivial

theorem init_sound (env : Platform) (socketId : SocketId) (opts : UpstreamOptions)
    (bufferBytes : Int) : (init env socketId opts bufferBytes).Sound where
  tight := fun g hg => nomatch (hg : none = some g)
  sent_lt := Nat.one_pos
  burstEnd_lt := Nat.one_pos
  sink := nofun
  ready := fun l id p hm => absurd hm List.not_mem_nil
  kept := fun _ k h1 hk => by
    change k < 1 at hk
    omega
  owed := nofun
  written := fun l p id n text hp => nomatch hp
  told := fun l id n text hm => absurd hm List.not_mem_nil

end

theorem sink_act (env : Platform) (u : Upstream) {a : Act}
    (hattach : ∀ sink frame now ok, a ≠ .attach sink frame now ok) :
    (u.act env a).1.sink = u.sink ∨ (u.act env a).1.sink = none := by
  have hflush : ∀ (ok : Nat → Bool) (v : Upstream), v.sink = u.sink →
      (Upstream.flush ok (v, [])).1.sink = u.sink := by
    intro ok v hv
    obtain ⟨fs, -, he⟩ := Upstream.flush_emits ok v []
    exact he.sameSocket.2.1.trans hv
  cases a with
  | dial =>
    cases hd : u.dial env with
    | error e => exact .inl (by simp only [Upstream.act, hd, Except.toOption, Option.getD_none])
    | ok v =>
      refine .inl ?_
      simp only [Upstream.act, hd, Except.toOption, Option.getD_some]
      exact (Upstream.dial_spec hd).2.2.1
  | tunnel l r =>
    simp only [Upstream.act]
    split <;> exact .inl rfl
  | opened l r =>
    simp only [Upstream.act]
    split
    · unfold Upstream.onOpen
      split <;> exact .inl rfl
    · exact .inl rfl
  | line text now forced ok =>
    refine .inl ?_
    simp only [Upstream.act, Upstream.onLine]
    split
    · rfl
    · split
      · exact (Upstream.keeps_answerPing _ _).sink
      · rename_i msg _ _
        refine hflush ok _ ?_
        unfold Upstream.noteBurstEnd
        split <;> exact (Upstream.keeps_trackLine env u text msg).sink
  | shed now forced => exact .inl rfl
  | write line => exact .inl (Upstream.keeps_rawWrite u line).sink
  | ack seq => exact .inl rfl
  | resume ok => exact .inl (hflush ok u.unstall rfl)
  | attach sink frame now ok => exact absurd rfl (hattach sink frame now ok)
  | detach now => exact .inr (u.sameSocket_detach now).2.1
  | close => exact .inl (Upstream.keeps_close u).sink

/-- Only links in `P` have been written to, or are listening. -/
def Silent (P : LinkId → Prop) (w : Wire) : Prop :=
  (∀ l, w.upstream.sink = some l → P l) ∧ ∀ l, ¬P l → (w.chan l).log = []

theorem wrote_silent {P : LinkId → Prop} {w : Wire} {l : LinkId} {fs : List EngineToApp}
    {u : Upstream} (h : ∀ l, ¬P l → (w.chan l).log = []) (hl : P l) (hu : u.sink = some l) :
    (w.wrote l fs u).Silent P := by
  refine ⟨fun l' hl' => Option.some.inj (hu.symm.trans hl') ▸ hl, fun l' hl' => ?_⟩
  rw [wrote_log, h l' hl', if_neg (fun heq : l' = l => hl' (heq ▸ hl))]
  rfl

theorem step_silent (env : Platform) {P : LinkId → Prop} {w : Wire} {e : WireEvent}
    (h : w.Silent P) (hP : ∀ l frame now ok, e = .act (.attach l frame now ok) → P l) :
    (w.step env e).Silent P := by
  have hdeliver : ∀ d : Upstream.Delivery, (d.1.sink = w.upstream.sink ∨ d.1.sink = none) →
      (w.deliver d).Silent P := by
    intro d hd
    unfold deliver
    split
    · rename_i hn
      exact ⟨fun l hl => (nomatch hn.symm.trans hl), h.2⟩
    · rename_i l hl
      refine wrote_silent h.2 ?_ hl
      rcases hd with hd | hd
      · exact h.1 l (hd.symm.trans hl)
      · exact nomatch hd.symm.trans hl
  have hended : ∀ (v : Upstream) (now : Int),
      ({ w with upstream := (v.silence now).close.1 } : Wire).Silent P := by
    intro v now
    have hn := (Upstream.keeps_close (v.silence now)).sink.trans (v.sameSocket_silence now).2.1
    exact ⟨fun l hl => (nomatch hn.symm.trans hl), h.2⟩
  cases e with
  | act a =>
    cases a with
    | attach l frame now ok =>
      have hPl := hP l frame now ok rfl
      simp only [step, Wire.attach]
      split
      · exact h
      · rcases w.upstream.attach_cases now l frame with ⟨p, hp, -⟩ | ⟨hp, -⟩ | ⟨hp, -⟩ <;>
          simp only [hp]
        · split
          · exact hended _ now
          · refine wrote_silent h.2 hPl ?_
            exact (Upstream.flushAfterAttach_emits ok _).sameSocket.2.1
        · exact hended _ now
        · exact ⟨fun l' hl' => Option.some.inj hl' ▸ hPl, h.2⟩
    | ack seq => exact ⟨h.1, h.2⟩
    | _ => exact hdeliver _ (sink_act env w.upstream (fun _ _ _ _ => nofun))
  | receive l =>
    simp only [step]
    split
    · exact h
    · refine ⟨h.1, fun l' hl' => ?_⟩
      simp only [Function.update_apply]
      split
      · rename_i heq
        rw [Channel.log_receive]
        exact h.2 l (heq ▸ hl')
      · exact h.2 l' hl'
  | die l => exact ⟨h.1, h.2⟩

/-- A link that never attaches is never written to. -/
theorem silent_links (env : Platform) {socketId : SocketId} {opts : UpstreamOptions}
    {bufferBytes : Int} {es : List WireEvent} {P : LinkId → Prop}
    (hP : ∀ e ∈ es, ∀ l frame now ok, e = .act (.attach l frame now ok) → P l) (l : LinkId)
    (hl : ¬P l) : ((Run.after (step env) (init env socketId opts bufferBytes) es).chan l).log = [] := by
  have hinit : (init env socketId opts bufferBytes).Silent P := ⟨fun _ hl => (nomatch hl), fun _ _ => rfl⟩
  refine (Run.invariant_within (step env) hinit (fun _ e h he => step_silent env h he) es ?_).2 l hl
  refine Run.within_of_after (step env) (fun es' e es'' he => hP e ?_)
  rw [he]
  exact List.mem_append_right _ List.mem_cons_self

/-- Whoever has received a line can tell, at every moment of a run, what became of
the lines before it, just when the app that reads a line never reads past an
unread hole. -/
theorem no_silent_hole (env : Platform) (socketId : SocketId) (opts : UpstreamOptions)
    (bufferBytes : Int) (es : List WireEvent) :
    let init := init env socketId opts bufferBytes
    (∀ es' es'', es = es' ++ es'' → (Run.after (step env) init es').Told) ↔
      Run.Within (step env) Tells init es := by
  intro init
  constructor
  · intro h
    refine Run.within_of_after (step env) (fun es' e es'' he => ?_)
    refine tells_of_told env e ?_
    rw [← Run.after_concat (step env)]
    exact h (es' ++ [e]) es'' (by rw [he, List.append_assoc]; rfl)
  · rintro hrun es' es'' rfl
    exact (Run.invariant_within (step env) (init_sound env socketId opts bufferBytes)
      (fun _ e h ht => step_sound env h e ht) es' ((Run.within_append (step env)).mp hrun).1).told

/-- The first link hears the burst; two lines follow while nobody is attached, and
the first of them is dropped. -/
def droppedUnattended : List WireEvent :=
  [.act .dial, .act (.attach 0 0 0 (fun _ => true)),
    .act (.opened ⟨"10.0.0.1", 6667⟩ ⟨"10.0.0.2", 6667⟩)] ++
    [":srv 001 me :hi", ":srv 376 me :end"].map (fun text => .act (.line text 0 0 fun _ => true)) ++
    [.receive 0, .receive 0, .receive 0, .act (.ack 2), .die 0, .act (.detach 0),
      .act (.line ":a PRIVMSG me :x" 0 0 fun _ => true), .act (.shed 0 1),
      .act (.line ":a PRIVMSG me :y" 0 0 fun _ => true)]

/-- The next link hears of the hole and dies; the one after it gets the line behind
the hole, and `live`. -/
def holeLost : List WireEvent :=
  droppedUnattended ++ [.act (.attach 1 0 0 fun _ => true), .die 1, .act (.detach 0),
    .act (.attach 2 0 0 fun _ => true), .receive 2, .receive 2, .receive 2]

/-- What both links are sent on attaching. -/
def replayedBurst : AttachedPayload where
  localEnd := ⟨"10.0.0.1", 6667⟩
  remoteEnd := ⟨"10.0.0.2", 6667⟩
  socket := 0
  replay := [":srv 001 me :hi", ":srv 376 me :end"]
  nick := some "me"
  channels := []
  detachedForMs := 0
  unattended := false

theorem replayedBurst_fits : utf16Length
    (encodeFrame Platform.plain.showSocket (.attached "" replayedBurst)) ≤ MAX_FRAME_BYTES := by
  simp only [encodeFrame, jsonObject, EngineToApp.fields, AttachedPayload.fields, replayedBurst,
    Endpoint.json, jsonArray, List.map, List.cons_append, List.nil_append, joinWith, jsonString,
    jsonNullable, Option.elim, jsonBool, utf16Length_append, utf16Length_ofList]
  decide +kernel

def replayTo (w : Wire) (l : LinkId) : Wire :=
  w.handOver (w.upstream.takeSink l 0).skipBurst l replayedBurst fun _ => true

theorem attach_replayedBurst {w : Wire} {l : LinkId} (hc : w.upstream.closing = false)
    (hid : w.upstream.id = "") (hp : (w.upstream.attach 0 l 0).2 = .payload replayedBurst) :
    w.step .plain (.act (.attach l 0 0 fun _ => true)) = w.replayTo l := by
  simp only [step, Wire.attach, hc, Bool.false_eq_true, ↓reduceIte]
  rcases w.upstream.attach_cases 0 l 0 with ⟨p, hq, -⟩ | ⟨hq, -⟩ | ⟨hq, -⟩ <;> rw [hq] at hp
  · obtain rfl := Upstream.AttachResult.payload.inj hp
    have hfit := replayedBurst_fits
    have hid' : (w.upstream.takeSink l 0).skipBurst.id = "" := hid
    simp only [hq, hid', if_neg (Nat.not_lt.mpr hfit), replayTo]
  · exact nomatch hp
  · exact nomatch hp

/-- How that run ends. -/
def holeLostEnd : Wire :=
  let dropped := Run.after (step .plain) (init .plain 0 .blank 1000) droppedUnattended
  let died := Run.after (step .plain) (dropped.replayTo 1) [.die 1, .act (.detach 0)]
  Run.after (step .plain) (died.replayTo 2) [.receive 2, .receive 2, .receive 2]

theorem holeLost_after :
    Run.after (step .plain) (init .plain 0 .blank 1000) holeLost = holeLostEnd := by
  rw [holeLost, Run.after_append, Run.after_cons, attach_replayedBurst (by decide +kernel)
    (by decide +kernel) (by decide +kernel), Run.after_cons, Run.after_cons, Run.after_cons,
    attach_replayedBurst (by decide +kernel) (by decide +kernel) (by decide +kernel)]
  rfl

theorem holeLostEnd_silent (l : LinkId) (hl : ¬l < 3) : (holeLostEnd.chan l).log = [] := by
  rw [← holeLost_after]
  refine silent_links .plain (P := (· < 3)) (fun e he l frame now ok heq => ?_) l hl
  subst heq
  simp only [holeLost, droppedUnattended, List.map, List.cons_append, List.nil_append,
    List.mem_cons, WireEvent.act.injEq, Act.attach.injEq, reduceCtorEq, false_or, or_false,
    List.not_mem_nil] at he
  rcases he with h | h | h <;> rw [h.1] <;> decide

/-- The app behind the third link is live, and is never told of line 3. -/
theorem hole_lost_with_link :
    ¬ ∀ (env : Platform) (socketId : SocketId) (opts : UpstreamOptions) (bufferBytes : Int)
      (es : List WireEvent), let w := Run.after (step env) (init env socketId opts bufferBytes) es
      ∀ l id id' n text, .live id ∈ (w.chan l).received → .line id' n text ∈ (w.chan l).received →
        ∀ k, 1 ≤ k → k ≤ n → w.Accounted k := by
  intro h
  have hrun := h .plain 0 .blank 1000 holeLost 2 "" "" 4 ":a PRIVMSG me :y"
  rw [holeLost_after] at hrun
  have h2 : (holeLostEnd.chan 2).received = [.attached "" replayedBurst,
      .line "" 4 ":a PRIVMSG me :y", .live ""] := by decide +kernel
  have h1 : (holeLostEnd.chan 1).received = [] := by decide +kernel
  have h0 : (holeLostEnd.chan 0).received = [.opened "" ⟨"10.0.0.1", 6667⟩ ⟨"10.0.0.2", 6667⟩ 0,
      .line "" 1 ":srv 001 me :hi", .line "" 2 ":srv 376 me :end"] := by decide +kernel
  have hburst : holeLostEnd.upstream.burstEndSeq = 2 := by decide +kernel
  have hacks : holeLostEnd.acks = [2] := by decide +kernel
  rcases hrun (by rw [h2]; simp) (by rw [h2]; simp) 3 (by decide) (by decide) with
    ⟨l, f, hf, hc⟩ | ⟨s, hs, hle⟩
  · rw [hburst] at hc
    rcases Nat.lt_or_ge l 3 with hl | hl
    · have hcases : ∀ i : Nat, i < 3 → i = 0 ∨ i = 1 ∨ i = 2 := by omega
      have hl : l = (0 : LinkId) ∨ l = (1 : LinkId) ∨ l = (2 : LinkId) := hcases l hl
      rcases hl with rfl | rfl | rfl
      · rw [h0] at hf
        simp only [List.mem_cons, List.not_mem_nil, or_false] at hf
        rcases hf with rfl | rfl | rfl <;>
          simp [EngineToApp.Covers, EngineToApp.Announces, EngineToApp.Replays] at hc
      · rw [h1] at hf
        exact absurd hf List.not_mem_nil
      · rw [h2] at hf
        simp only [List.mem_cons, List.not_mem_nil, or_false] at hf
        rcases hf with rfl | rfl | rfl <;>
          simp [EngineToApp.Covers, EngineToApp.Announces, EngineToApp.Replays] at hc
    · rw [Channel.received, holeLostEnd_silent l (Nat.not_lt.mpr hl), List.take_nil] at hf
      exact absurd hf List.not_mem_nil
  · rw [hacks, List.mem_singleton] at hs
    omega

end Wire

end Lurker.Engine
