import Lurker.E2e.Message

/-!
# A chunk is rendered once

A run of inbound lines. The session is looked up without case, the associated
data binds the channel as spelled, and the replay cache knows a chunk by the
handle as spelled. Between two lines of one chunk the clock moves less than the
time an entry lives, so the second is a replay as long as the two spell the
handle alike.
-/

namespace Lurker.E2e.Manager

/-- One call of `decryptIncoming`. -/
structure Call where
  now : Nat
  handle : Text
  channel : Text
  line : Text

variable (aead : Aead)

def outcome (m : Manager) (c : Call) : DecryptOutcome :=
  (decryptIncoming aead m c.now c.handle c.channel c.line).1

def decryptStep (m : Manager) (c : Call) : Manager :=
  (decryptIncoming aead m c.now c.handle c.channel c.line).2

/-- The call returned plaintext. -/
def Renders (m : Manager) (c : Call) : Prop := ∃ text, outcome aead m c = .plaintext text

/-- Two calls resolve to one session and carry the same message id and part. -/
def SameChunk (m : Manager) (c c' : Call) : Prop :=
  ∃ sess w w', m.keyring.getIncomingSession c.handle c.channel = some sess ∧
    m.keyring.getIncomingSession c'.handle c'.channel = some sess ∧
    parseChunk c.line = .chunk w ∧ parseChunk c'.line = .chunk w' ∧ w.msgid = w'.msgid ∧
    w.part = w'.part

/-- What authenticates in the calls was sealed by a holder of the key, who
seals nothing twice under one message id and part. -/
structure Genuine (m : Manager) (calls : List Call) (seals : Key → Bytes → Prop) : Prop where
  unforged : ∀ c ∈ calls, ∀ sess w aad pt,
    m.keyring.getIncomingSession c.handle c.channel = some sess → parseChunk c.line = .chunk w →
    buildAad c.channel w.msgid w.ts w.part w.total = some aad →
    aead.decrypt sess.sk w.nonce aad w.ciphertext = some pt → seals sess.sk aad
  once : ∀ sk channel channel' id ts ts' part total total' aad aad',
    buildAad channel id ts part total = some aad →
    buildAad channel' id ts' part total' = some aad' →
    seals sk aad → seals sk aad' → aad = aad'

/-- Recording the chunk of a call does not take the replay cache past its cap. -/
def WithinCap (m : Manager) (c : Call) : Prop :=
  ∀ w, parseChunk c.line = .chunk w →
    m.replay.overflows c.now (m.replayKey c.handle c.channel w.msgid w.part) m.replayTtl = false

/-- A chunk that opens and that the cache holds under some spelling of the
sender's handle, it holds under the spelling of this call. -/
def SpelledAlike (m : Manager) (c : Call) : Prop :=
  ∀ w text, parseChunk c.line = .chunk w → openChunk aead m c.now c.handle c.channel w = .ok text →
    ∀ handle, nocase handle = nocase c.handle →
      m.replay.live c.now (m.replayKey handle c.channel w.msgid w.part) = true →
      m.replay.live c.now (m.replayKey c.handle c.channel w.msgid w.part) = true

variable {aead} {m : Manager} {c : Call}

/-- What a chunk that opens met on the way. -/
theorem openChunk_ok {now : Nat} {handle channel text : Text} {w : WireChunk}
    (h : openChunk aead m now handle channel w = .ok text) :
    ∃ sess aad pt, skew now w.ts ≤ m.tsToleranceSecs ∧
      m.keyring.getIncomingSession handle channel = some sess ∧ sess.status = .trusted ∧
      buildAad channel w.msgid w.ts w.part w.total = some aad ∧
      aead.decrypt sess.sk w.nonce aad w.ciphertext = some pt ∧ decoder pt = some text := by
  unfold openChunk at h
  split at h; · cases h
  rename_i hskew
  split at h; · cases h
  rename_i sess hsess
  split at h; · cases h
  rename_i htrusted
  split at h; · cases h
  rename_i aad haad
  split at h; · cases h
  rename_i pt hpt
  split at h; · cases h
  rename_i text' htext
  cases h
  exact ⟨sess, aad, pt, Nat.not_lt.mp hskew, hsess, not_not.mp htrusted, haad, hpt, htext⟩

/-- A call leaves the manager alone or records the chunk it opened. -/
theorem decryptStep_cases (aead : Aead) (m : Manager) (c : Call) :
    (decryptStep aead m c = m ∧ ¬ Renders aead m c) ∨
      ∃ w text, parseChunk c.line = .chunk w ∧
        openChunk aead m c.now c.handle c.channel w = .ok text ∧
        let key := m.replayKey c.handle c.channel w.msgid w.part
        decryptStep aead m c = { m with replay := (m.replay.observe c.now key m.replayTtl).2 } ∧
          (Renders aead m c ↔ m.replay.live c.now key = false) := by
  unfold decryptStep Renders outcome decryptIncoming
  split
  · exact .inl ⟨rfl, nofun⟩
  · exact .inl ⟨rfl, nofun⟩
  case h_3 w hw =>
    split
    case h_1 outcome hopen =>
      refine .inl ⟨rfl, ?_⟩
      rintro ⟨text, rfl⟩
      unfold openChunk at hopen
      split at hopen; · cases hopen
      split at hopen; · cases hopen
      split at hopen; · cases hopen
      split at hopen; · cases hopen
      split at hopen; · cases hopen
      split at hopen <;> cases hopen
    case h_2 text hopen =>
      refine .inr ⟨w, text, hw, hopen, rfl, ?_⟩
      simp only [ReplayCache.observe_fst]
      cases m.replay.live c.now (m.replayKey c.handle c.channel w.msgid w.part) <;> simp

/-- Only the replay cache moves. -/
theorem decryptStep_eq (m : Manager) (c : Call) :
    ∃ replay, decryptStep aead m c = { m with replay := replay } := by
  rcases decryptStep_cases aead m c with ⟨h, -⟩ | ⟨w, text, -, -, h, -⟩
  · exact ⟨m.replay, h⟩
  · exact ⟨_, h⟩

theorem after_eq (aead : Aead) (m : Manager) (calls : List Call) :
    ∃ replay, Run.after (decryptStep aead) m calls = { m with replay := replay } := by
  induction calls using List.reverseRecOn with
  | nil => exact ⟨m.replay, rfl⟩
  | append_singleton calls c ih =>
    obtain ⟨replay, heq⟩ := ih
    rw [Run.after_concat, heq]
    exact decryptStep_eq { m with replay := replay } c

/-- An entry stays while it has not expired and the cap is not passed. -/
theorem decryptStep_keeps {key : Text} {expiry : Nat} (hcap : WithinCap m c)
    (hentry : m.replay.seen.get? key = some expiry) (hnow : c.now < expiry) :
    (decryptStep aead m c).replay.seen.get? key = some expiry := by
  rcases decryptStep_cases aead m c with ⟨h, -⟩ | ⟨w, text, hw, -, h, -⟩
  · rwa [h]
  rw [h]
  change (m.replay.observe _ _ _).2.seen.get? key = _
  cases hlive : m.replay.live c.now (m.replayKey c.handle c.channel w.msgid w.part) with
  | true => rwa [ReplayCache.observe_of_live hlive]
  | false =>
    rw [ReplayCache.get?_observe hlive (hcap w hw) hnow]
    split
    case isFalse => exact hentry
    case isTrue heq =>
      -- the entry itself is live, so the key would be
      rw [← heq] at hlive
      simp [ReplayCache.live, hentry, hnow] at hlive

theorem after_keeps {calls : List Call} {key : Text} {expiry : Nat}
    (hcap : Run.Within (decryptStep aead) WithinCap m calls)
    (hentry : m.replay.seen.get? key = some expiry) (hnow : ∀ c ∈ calls, c.now < expiry) :
    (Run.after (decryptStep aead) m calls).replay.seen.get? key = some expiry := by
  induction calls generalizing m with
  | nil => exact hentry
  | cons c calls ih =>
    exact ih hcap.2 (decryptStep_keeps hcap.1 hentry (hnow c List.mem_cons_self))
      fun d hd => hnow d (List.mem_cons_of_mem _ hd)

/-- A call that rendered leaves an entry for the life of its chunk. -/
theorem renders_entry {w : WireChunk} (hw : parseChunk c.line = .chunk w)
    (hcap : WithinCap m c) (h : Renders aead m c) :
    (decryptStep aead m c).replay.seen.get? (m.replayKey c.handle c.channel w.msgid w.part) =
      some (c.now + m.replayTtl) := by
  rcases decryptStep_cases aead m c with ⟨-, hno⟩ | ⟨w', text, hw', -, hstep, hiff⟩
  · exact absurd h hno
  obtain rfl : w = w' := by rw [hw] at hw'; injection hw'
  rw [hstep]
  have hnow : c.now < c.now + m.replayTtl := by
    unfold replayTtl
    omega
  exact (ReplayCache.get?_observe (hiff.mp h) (hcap w hw) hnow).mpr (by rw [if_pos rfl])

theorem Renders.opens (h : Renders aead m c) : ∃ w text, parseChunk c.line = .chunk w ∧
    openChunk aead m c.now c.handle c.channel w = .ok text ∧
    m.replay.live c.now (m.replayKey c.handle c.channel w.msgid w.part) = false := by
  rcases decryptStep_cases aead m c with ⟨-, hno⟩ | ⟨w, text, hw, hopen, -, hiff⟩
  · exact absurd h hno
  · exact ⟨w, text, hw, hopen, hiff.mp h⟩

/-- The window of the timestamps is shorter than the life of an entry. -/
theorem window_lt_ttl {ts : Int} {t t' : Nat} (h : skew t ts ≤ m.tsToleranceSecs)
    (h' : skew t' ts ≤ m.tsToleranceSecs) : t' < t + m.replayTtl := by
  unfold skew nowUnix at h h'
  unfold replayTtl
  omega

/-- No two calls for one chunk both render it, as long as every call spells the
sender's handle as the cache has it and the cap is not passed in between. -/
theorem chunk_rendered_once {calls : List Call} {seals : Key → Bytes → Prop}
    (hclock : calls.Pairwise fun c c' => c.now ≤ c'.now) (hgenuine : Genuine aead m calls seals)
    (hspelled : Run.Within (decryptStep aead) (SpelledAlike aead) m calls)
    {before between after : List Call} {a b : Call}
    (hcalls : calls = before ++ a :: (between ++ b :: after))
    (hcap : Run.Within (decryptStep aead) WithinCap (Run.after (decryptStep aead) m before)
      (a :: between)) (hsame : SameChunk m a b) :
    ¬ (Renders aead (Run.after (decryptStep aead) m before) a ∧
      Renders aead (Run.after (decryptStep aead) m (before ++ a :: between)) b) := by
  subst hcalls
  rintro ⟨ha, hb⟩
  rw [List.append_cons, ← List.append_assoc, Run.within_append] at hspelled
  have hspelledb := hspelled.2.1
  rw [List.append_assoc, List.singleton_append] at hspelledb
  obtain ⟨replay, hm⟩ := after_eq aead m before
  obtain ⟨replay', hm'⟩ := after_eq aead m (before ++ a :: between)
  obtain ⟨sess, w, w', hsess, hsess', hw, hw', hid, hpart⟩ := hsame
  obtain ⟨wa, texta, hwa, hopena, -⟩ := ha.opens
  obtain ⟨wb, textb, hwb, hopenb, hfresh⟩ := hb.opens
  obtain rfl : w = wa := by rw [hw] at hwa; injection hwa
  obtain rfl : w' = wb := by rw [hw'] at hwb; injection hwb
  obtain ⟨sa, aada, pta, hskewa, hsa, -, haada, hpta, -⟩ := openChunk_ok hopena
  obtain ⟨sb, aadb, ptb, hskewb, hsb, -, haadb, hptb, -⟩ := openChunk_ok hopenb
  rw [hm] at hsa hskewa
  rw [hm'] at hsb hskewb
  obtain rfl : sess = sa := Option.some.inj (hsess.symm.trans hsa)
  obtain rfl : sess = sb := Option.some.inj (hsess'.symm.trans hsb)
  -- one chunk: the same channel as spelled and the same timestamp
  have haad : aada = aadb := by
    refine hgenuine.once sess.sk _ _ _ _ _ _ _ _ _ _ haada (hid ▸ hpart ▸ haadb)
      (hgenuine.unforged a (by simp) _ _ _ _ hsess hw haada hpta)
      (hgenuine.unforged b (by simp) _ _ _ _ hsess' hw' haadb hptb)
  obtain ⟨hchannel, -, hts, -, -⟩ := buildAad_injective haada (haad ▸ haadb)
  have hnocase : nocase a.handle = nocase b.handle := by
    have hkey := (Table.get?_key hsess).symm.trans (Table.get?_key hsess')
    exact (Prod.mk.inj hkey).1
  -- the entry of the first call is there at the second
  have hbefore : b.now < a.now + m.replayTtl := window_lt_ttl hskewa (hts ▸ hskewb)
  have hbetween : ∀ c ∈ between, c.now ≤ b.now := by
    intro c hc
    have htail := (List.pairwise_append.mp hclock).2.1
    exact (List.pairwise_append.mp (List.pairwise_cons.mp htail).2).2.2 c hc b List.mem_cons_self
  have hentry := renders_entry hw hcap.1 ha
  have hkept := after_keeps hcap.2 hentry fun c hc => by
    rw [hm]
    exact (hbetween c hc).trans_lt hbefore
  have hlive : (Run.after (decryptStep aead) m (before ++ a :: between)).replay.live b.now
      ((Run.after (decryptStep aead) m (before ++ a :: between)).replayKey a.handle b.channel
        w'.msgid w'.part) = true := by
    rw [← Run.after_cons, ← Run.after_append, hm] at hkept
    have hkey : ({ m with replay := replay } : Manager).replayKey a.handle a.channel w.msgid w.part =
        (Run.after (decryptStep aead) m (before ++ a :: between)).replayKey a.handle b.channel
          w'.msgid w'.part := by
      rw [hm', hchannel, hid, hpart]
      rfl
    rw [hkey] at hkept
    unfold ReplayCache.live
    rw [hkept]
    exact decide_eq_true hbefore
  rw [hspelledb w' textb hw' hopenb a.handle hnocase hlive] at hfresh
  cases hfresh

section Sample

open Sample

/-- A line of the sample message, from a handle. -/
def sampleCall (handle : Text) : Call := ⟨1000000, handle, channel, (lines ['h', 'i']).getD 0 []⟩

/-- The chunk of the line. -/
def sampleChunk : WireChunk where
  msgid := msgid.1
  ts := 1000
  part := 1
  total := 1
  nonce := (nonces 0).1
  ciphertext := xchacha.encrypt sk (nonces 0).1 ((buildAad channel msgid.1 1000 1 1).getD [])
    (utf8Encode ['h', 'i'])

theorem parse_sampleCall (handle : Text) :
    parseChunk (sampleCall handle).line = .chunk sampleChunk := by
  change parseChunk ((lines ['h', 'i']).getD 0 []) = .chunk sampleChunk
  decide +kernel

/-- The sender sealed that line and nothing else. -/
theorem genuine_sampleCall (handles : List Text) :
    Genuine xchacha receiver (handles.map sampleCall)
      fun _ aad => aad = (buildAad channel msgid.1 1000 1 1).getD [] where
  unforged := by
    intro c hc sess w aad pt _ hw haad _
    obtain ⟨handle, -, rfl⟩ := List.mem_map.mp hc
    rw [parse_sampleCall] at hw
    cases hw
    change buildAad channel msgid.1 1000 1 1 = some aad at haad
    rw [haad]
    rfl
  once := fun _ _ _ _ _ _ _ _ _ _ _ _ _ h h' => h.trans h'.symm

/-- The line twice from one handle: the second time it is a replay. -/
theorem chunk_rendered_once_twice :
    ¬ (Renders xchacha receiver (sampleCall handle) ∧
      Renders xchacha (decryptStep xchacha receiver (sampleCall handle)) (sampleCall handle)) := by
  refine @chunk_rendered_once _ receiver [sampleCall handle, sampleCall handle] _
    (by decide +kernel) (genuine_sampleCall [handle, handle]) ⟨?_, ?_, trivial⟩
    [] [] [] _ _ rfl ⟨?_, trivial⟩ ?_
  · intro w text _ _ handle _ hlive
    cases hlive
  · intro w text hw _ _ _ _
    rw [parse_sampleCall] at hw
    cases hw
    decide +kernel
  · intro w hw
    rw [parse_sampleCall] at hw
    cases hw
    decide +kernel
  · exact ⟨incoming, sampleChunk, sampleChunk, by decide +kernel, by decide +kernel,
      parse_sampleCall handle, parse_sampleCall handle, rfl, rfl⟩

/-- The line from `u@h` and then from `U@h`: one session, and it renders twice. -/
theorem renders_twice :
    ∃ calls : List Call, calls = [sampleCall handle, sampleCall ['U', '@', 'h']] ∧
      calls.Pairwise (fun c c' => c.now ≤ c'.now) ∧
      (∃ seals, Genuine xchacha receiver calls seals) ∧
      Run.Within (decryptStep xchacha) WithinCap receiver calls ∧
      SameChunk receiver (sampleCall handle) (sampleCall ['U', '@', 'h']) ∧
      Renders xchacha receiver (sampleCall handle) ∧
      Renders xchacha (decryptStep xchacha receiver (sampleCall handle))
        (sampleCall ['U', '@', 'h']) := by
  refine ⟨_, rfl, by decide +kernel, ⟨_, genuine_sampleCall [handle, ['U', '@', 'h']]⟩,
    ⟨?_, ?_, trivial⟩, ?_, ⟨['h', 'i'], by decide +kernel⟩, ⟨['h', 'i'], by decide +kernel⟩⟩
  · intro w hw
    rw [parse_sampleCall] at hw
    cases hw
    decide +kernel
  · intro w hw
    rw [parse_sampleCall] at hw
    cases hw
    decide +kernel
  · exact ⟨incoming, sampleChunk, sampleChunk, by decide +kernel, by decide +kernel,
      parse_sampleCall _, parse_sampleCall _, rfl, rfl⟩

end Sample

end Lurker.E2e.Manager
