import Lurker.E2e.Manager
import Lurker.Lib.Run
import Lurker.Lib.XChaCha20Poly1305

/-!
# Messages

Encrypting a message into lines and decrypting one line. The receiver looks the
session up by handle and channel without case, authenticates the chunk together
with the channel as it is spelled, decodes its text, and only then asks the
replay cache.
-/

namespace Lurker.E2e

/-- An authenticated cipher with associated data. -/
structure Aead where
  encrypt : Key → Bytes → Bytes → Bytes → Bytes
  decrypt : Key → Bytes → Bytes → Bytes → Option Bytes

/-- Decrypting what was encrypted under the same key, nonce and data gives it back. -/
def Aead.Correct (a : Aead) : Prop :=
  ∀ sk nonce aad pt, a.decrypt sk nonce aad (a.encrypt sk nonce aad pt) = some pt

inductive EncryptOutcome where
  | disabled
  | encrypted (lines : List Text)
  | error (reason : String)
  deriving DecidableEq

inductive DecryptOutcome where
  | plaintext (text : Text)
  | cleartext (text : Text)
  | missingKey
  | replay
  | rejected (reason : String)
  deriving DecidableEq

namespace Manager

variable (aead : Aead)

/-- The line of one chunk; nothing where the source throws. -/
def encryptChunk (sk : Key) (channel : Text) (msgid : Bytes) (ts : Int) (part total : Nat)
    (nonce chunk : Bytes) : Option Text := do
  let aad ← buildAad channel msgid ts part total
  encodeChunk { msgid, ts, part, total, nonce, ciphertext := aead.encrypt sk nonce aad chunk }

/-- Encrypt `plaintext` for `channel`. -/
def encryptOutgoing (wrappable : Bytes → Bool) (m : Manager) (now : Nat) (fresh : Key)
    (msgid : Random msgidLen) (nonces : Nat → Random nonceLen) (channel plaintext : Text) :
    EncryptOutcome × Manager :=
  match m.keyring.getChannelConfig channel with
  | none => (.disabled, m)
  | some cfg =>
    if !cfg.enabled then (.disabled, m)
    else
      match splitPlaintext plaintext with
      | .error reason => (.error reason, m)
      | .ok chunks =>
        let (sk, m) := getOrGenerateOutgoingKey wrappable m fresh channel
        let lines := (List.range chunks.length).mapM fun i =>
          encryptChunk aead sk channel msgid.1 (nowUnix now) (i + 1) chunks.length (nonces i).1
            (chunks.getD i [])
        match lines with
        | some lines => (.encrypted lines, m)
        | none => (.error "internal error", m)

/-- What the replay cache knows a chunk by: the handle and the channel as the caller spells them. -/
def replayKey (m : Manager) (handle channel : Text) (msgid : Bytes) (part : Nat) : Text :=
  m.tenantKey ++ ':' :: (channel ++ ':' :: (handle ++ ':' :: (hex msgid ++ ':' :: decimal part)))

def replayTtl (m : Manager) : Nat := (m.tsToleranceSecs * 2 + 5) * 1000

def skew (now : Nat) (ts : Int) : Nat := ((nowUnix now : Int) - ts).natAbs

/-- Decrypt a chunk under a session, up to the replay check. -/
def openChunk (m : Manager) (now : Nat) (handle channel : Text) (w : WireChunk) :
    Except DecryptOutcome Text :=
  if m.tsToleranceSecs < skew now w.ts then
    .error (.rejected ("ts outside tolerance window (" ++ toString (skew now w.ts) ++ "s skew)"))
  else
    match m.keyring.getIncomingSession handle channel with
    | none => .error .missingKey
    | some sess =>
      if sess.status ≠ .trusted then .error (.rejected "peer not trusted")
      else
        match buildAad channel w.msgid w.ts w.part w.total with
        | none => .error (.rejected "internal error")
        | some aad =>
          match aead.decrypt sess.sk w.nonce aad w.ciphertext with
          | none => .error (.rejected "authentication failed")
          | some pt =>
            match decoder pt with
            | none => .error (.rejected "invalid utf-8")
            | some text => .ok text

/-- Decrypt one inbound wire line. -/
def decryptIncoming (m : Manager) (now : Nat) (handle channel line : Text) :
    DecryptOutcome × Manager :=
  match parseChunk line with
  | .malformed => (.rejected "malformed RPE2E line", m)
  | .cleartext => (.cleartext line, m)
  | .chunk w =>
    match openChunk aead m now handle channel w with
    | .error outcome => (outcome, m)
    | .ok text =>
      let key := m.replayKey handle channel w.msgid w.part
      let (isFresh, replay) := m.replay.observe now key m.replayTtl
      (if isFresh then .plaintext text else .replay, { m with replay := replay })

/-- The lines of one message decrypted one after another: which line, and when. -/
def receiveAll (m : Manager) (handle channel : Text) (lines : List Text) :
    List (Nat × Nat) → List (Nat × DecryptOutcome)
  | [] => []
  | (i, now) :: rest =>
    let (outcome, m) := decryptIncoming aead m now handle channel (lines.getD i [])
    (i, outcome) :: receiveAll m handle channel lines rest

/-- Every line gave plaintext, and the texts in part order make up the message. -/
def RoundTrips (plaintext : Text) (outcomes : List (Nat × DecryptOutcome)) : Prop :=
  ∃ texts : List Text, (∀ o ∈ outcomes, o.2 = .plaintext (texts.getD o.1 [])) ∧
    texts.length = outcomes.length ∧ texts.flatten = plaintext

end Manager

private theorem mapM_eq_some {α β : Type*} {f : α → Option β} {xs : List α} {ys : List β}
    (h : xs.mapM f = some ys) : xs.map f = ys.map some := by
  induction xs generalizing ys with
  | nil =>
    rw [List.mapM_nil] at h
    cases h
    rfl
  | cons x xs ih =>
    rw [List.mapM_cons] at h
    obtain ⟨y, hy, h⟩ := Option.bind_eq_some_iff.mp h
    obtain ⟨ys', hys, h⟩ := Option.bind_eq_some_iff.mp h
    cases h
    rw [List.map_cons, List.map_cons, hy, ih hys]

namespace Manager

variable {aead} {wrappable : Bytes → Bool} {m m' : Manager} {now : Nat} {fresh : Key}
  {msgid : Random msgidLen} {nonces : Nat → Random nonceLen} {channel plaintext : Text}
  {lines : List Text}

/-- What encrypting did: each chunk sealed under the session's key and encoded. -/
theorem encryptOutgoing_encrypted
    (h : encryptOutgoing aead wrappable m now fresh msgid nonces channel plaintext =
      (.encrypted lines, m')) :
    ∃ chunks sess, splitPlaintext plaintext = .ok chunks ∧
      m'.keyring.getOutgoingSession channel = some sess ∧ lines.length = chunks.length ∧
      ∀ i < chunks.length, encryptChunk aead sess.sk channel msgid.1 (nowUnix now) (i + 1)
        chunks.length (nonces i).1 (chunks.getD i []) = some (lines.getD i []) := by
  unfold encryptOutgoing at h
  split at h; · cases h
  split at h; · cases h
  split at h; · cases h
  rename_i chunks hchunks
  obtain ⟨sess, hsess, hsk, -⟩ := getOrGenerateOutgoingKey_session wrappable m fresh channel
  dsimp only at h
  split at h
  case h_2 => cases h
  case h_1 lines' hlines =>
    cases h
    have hmap := mapM_eq_some hlines
    have hlen : lines.length = chunks.length := by
      have := congrArg List.length hmap
      simpa using this.symm
    refine ⟨chunks, sess, hchunks, hsess, hlen, fun i hi => ?_⟩
    have hget := congrArg (·[i]?) hmap
    simp only [List.getElem?_map, List.getElem?_range hi, Option.map_some,
      List.getElem?_eq_getElem (hlen.symm ▸ hi : i < lines.length)] at hget
    rw [hsk, Option.some.inj hget, List.getD_eq_getElem]

/-- What the decoder leaves of a piece of text. -/
def decoded (text : Text) : Text := if bom <+: utf8Encode text then text.tail else text

/-- A fresh line of ours under a session with our key gives its decoded text. -/
theorem decryptIncoming_encryptChunk (haead : aead.Correct) {r : Manager} {handle line text : Text}
    {inc : IncomingSession} {id nonce : Bytes} {ts : Int} {part total t : Nat}
    (hline : encryptChunk aead inc.sk channel id ts part total nonce (utf8Encode text) = some line)
    (hsess : r.keyring.getIncomingSession handle channel = some inc)
    (htrusted : inc.status = .trusted) (hskew : skew t ts ≤ r.tsToleranceSecs)
    (hfresh : r.replay.live t (r.replayKey handle channel id part) = false) :
    decryptIncoming aead r t handle channel line = (.plaintext (decoded text),
      { r with replay := (r.replay.observe t (r.replayKey handle channel id part)
          r.replayTtl).2 }) := by
  obtain ⟨aad, haad, hline⟩ := Option.bind_eq_some_iff.mp hline
  have hts := (buildAad_eq_some haad).2.1
  have hopen : openChunk aead r t handle channel ⟨id, ts, part, total, nonce,
      aead.encrypt inc.sk nonce aad (utf8Encode text)⟩ = .ok (decoded text) := by
    unfold openChunk
    rw [if_neg (Nat.not_lt.mpr hskew), hsess]
    simp only
    rw [if_neg (not_not_intro htrusted), haad]
    simp only
    rw [haead]
    simp only
    rw [decoder_utf8Encode]
    rfl
  unfold decryptIncoming
  rw [parseChunk_encodeChunk hline hts]
  simp only
  rw [hopen]
  simp only [ReplayCache.observe_fst, hfresh, Bool.not_false, if_true]

/-- A receiver that holds the key of a message's chunks and has not seen them. -/
structure Receives (r : Manager) (handle channel : Text) (inc : IncomingSession) (id : Bytes)
    (ts : Int) (arrivals : List (Nat × Nat)) : Prop where
  session : r.keyring.getIncomingSession handle channel = some inc
  trusted : inc.status = .trusted
  /-- Each line arrives within the tolerance. -/
  skew : ∀ a ∈ arrivals, skew a.2 ts ≤ r.tsToleranceSecs
  unseen : ∀ a ∈ arrivals, r.replay.live a.2 (r.replayKey handle channel id (a.1 + 1)) = false

theorem decimal_injective {n k : Nat} (h : decimal n = decimal k) : n = k := by
  have := congrArg (Nat.ofDigitChars 10 · 0) h
  simpa [decimal, Nat.ofDigitChars_ten_toDigits] using this

/-- The chunks of a message have keys of their own. -/
theorem replayKey_part {r : Manager} {handle channel : Text} {id : Bytes} {part part' : Nat}
    (h : r.replayKey handle channel id part = r.replayKey handle channel id part') :
    part = part' := by
  unfold replayKey at h
  refine decimal_injective ?_
  simpa using h

/-- Every line gives its decoded text, in whatever order the lines arrive. -/
theorem receiveAll_decoded (haead : aead.Correct) {r : Manager} {handle : Text}
    {inc : IncomingSession} {id : Bytes} {ts : Int} {parts : List Text} (nonce : Nat → Bytes)
    (hlines : ∀ i < parts.length, encryptChunk aead inc.sk channel id ts (i + 1) parts.length
      (nonce i) (utf8Encode (parts.getD i [])) = some (lines.getD i []))
    {arrivals : List (Nat × Nat)} (hr : Receives r handle channel inc id ts arrivals)
    (hnodup : (arrivals.map Prod.fst).Nodup) (hbound : ∀ a ∈ arrivals, a.1 < parts.length) :
    receiveAll aead r handle channel lines arrivals =
      arrivals.map fun a => (a.1, .plaintext (decoded (parts.getD a.1 []))) := by
  induction arrivals generalizing r with
  | nil => rfl
  | cons a rest ih =>
    obtain ⟨i, t⟩ := a
    rw [List.map_cons, List.nodup_cons] at hnodup
    have hstep := decryptIncoming_encryptChunk haead (hlines i (hbound _ List.mem_cons_self))
      hr.session hr.trusted (hr.skew _ List.mem_cons_self) (hr.unseen _ List.mem_cons_self)
    simp only [receiveAll, hstep, List.map_cons]
    rw [ih ?_ hnodup.2 fun a ha => hbound a (List.mem_cons_of_mem _ ha)]
    refine ⟨hr.session, hr.trusted, fun a ha => hr.skew a (List.mem_cons_of_mem _ ha), ?_⟩
    intro a ha
    refine ReplayCache.live_observe_of_ne (fun hkey => ?_) (hr.unseen a (List.mem_cons_of_mem _ ha))
    have hpart := replayKey_part hkey
    exact hnodup.1 (List.mem_map.mpr ⟨a, ha, by simpa using hpart⟩)

theorem length_decoded_le (text : Text) : (decoded text).length ≤ text.length := by
  unfold decoded
  split
  · rw [List.length_tail]
    omega
  · exact le_rfl

/-- Decoding the pieces gives the message exactly when no piece starts with the mark. -/
theorem flatten_decoded (parts : List Text) :
    (parts.map decoded).flatten = parts.flatten ↔ ∀ p ∈ parts, ¬ bom <+: utf8Encode p := by
  have hle (ps : List Text) : (ps.map decoded).flatten.length ≤ ps.flatten.length := by
    induction ps with
    | nil => exact le_rfl
    | cons p ps ih =>
      simp only [List.map_cons, List.flatten_cons, List.length_append]
      have := length_decoded_le p
      omega
  constructor
  · intro h p hp hbom
    obtain ⟨before, after, rfl⟩ := List.append_of_mem hp
    have hlen := congrArg List.length h
    simp only [List.map_append, List.map_cons, List.flatten_append, List.flatten_cons,
      List.length_append] at hlen
    have hbefore := hle before
    have hafter := hle after
    have hshort : (decoded p).length < p.length := by
      rw [decoded, if_pos hbom, List.length_tail]
      cases p with
      | nil => exact absurd hbom (by decide)
      | cons c cs => simp
    omega
  · intro h
    have hsame : parts.map decoded = parts :=
      (List.map_congr_left fun p hp => if_neg (h p hp)).trans (List.map_id parts)
    rw [hsame]

/-- A message round-trips, whatever the order its lines arrive in, exactly when
none of its chunks starts with the bytes of a byte order mark. -/
theorem message_round_trip (haead : aead.Correct)
    (h : encryptOutgoing aead wrappable m now fresh msgid nonces channel plaintext =
      (.encrypted lines, m'))
    {r : Manager} {handle : Text} {inc : IncomingSession} {out : OutgoingSession}
    (hout : m'.keyring.getOutgoingSession channel = some out) (hkey : inc.sk = out.sk)
    {arrivals : List (Nat × Nat)} (horder : (arrivals.map Prod.fst).Perm (List.range lines.length))
    (hr : Receives r handle channel inc msgid.1 (nowUnix now) arrivals) :
    RoundTrips plaintext (receiveAll aead r handle channel lines arrivals) ↔
      ∀ chunks, splitPlaintext plaintext = .ok chunks → ∀ c ∈ chunks, ¬ bom <+: c := by
  obtain ⟨chunks, sess, hchunks, hsess, hlen, hlines⟩ := encryptOutgoing_encrypted h
  obtain ⟨parts, hparts, rfl, -⟩ := splitPlaintext_parts hchunks
  obtain rfl : sess = out := Option.some.inj (hsess.symm.trans hout)
  rw [List.length_map] at hlen hlines
  have hbound (a : Nat × Nat) (ha : a ∈ arrivals) : a.1 < parts.length := by
    have := horder.subset (List.mem_map_of_mem ha)
    rw [List.mem_range] at this
    omega
  have hreceived : receiveAll aead r handle channel lines arrivals =
      arrivals.map fun a => (a.1, .plaintext (decoded (parts.getD a.1 []))) := by
    refine receiveAll_decoded haead (fun i => (nonces i).1) (fun i hi => ?_) hr
      (horder.nodup_iff.mpr List.nodup_range) hbound
    have := hlines i hi
    rwa [List.getD_eq_getElem _ _ (by simpa using hi), List.getElem_map,
      ← List.getD_eq_getElem _ [] hi, ← hkey] at this
  have hcount : arrivals.length = parts.length := by
    have := horder.length_eq
    rw [List.length_map, List.length_range] at this
    omega
  rw [hreceived]
  have hiff : RoundTrips plaintext
      (arrivals.map fun a => (a.1, .plaintext (decoded (parts.getD a.1 [])))) ↔
      (parts.map decoded).flatten = plaintext := by
    constructor
    · rintro ⟨texts, htexts, hlength, rfl⟩
      rw [List.length_map, hcount] at hlength
      congr 1
      refine List.ext_getElem (by simpa using hlength.symm) fun i hi hi' => ?_
      obtain ⟨a, ha, rfl⟩ : ∃ a ∈ arrivals, a.1 = i := by
        have hmem := horder.symm.subset (List.mem_range.mpr (by omega : i < lines.length))
        obtain ⟨a, ha, hai⟩ := List.mem_map.mp hmem
        exact ⟨a, ha, hai⟩
      have := htexts _ (List.mem_map_of_mem ha)
      rw [DecryptOutcome.plaintext.injEq, List.getD_eq_getElem _ _ (hbound a ha),
        List.getD_eq_getElem _ _ hi'] at this
      rw [List.getElem_map, this]
    · intro heq
      refine ⟨parts.map decoded, ?_, by simp [hcount], heq⟩
      intro o ho
      obtain ⟨a, ha, rfl⟩ := List.mem_map.mp ho
      have hlt := hbound a ha
      rw [List.getD_eq_getElem _ _ hlt, List.getD_eq_getElem _ _ (by simpa using hlt),
        List.getElem_map]
  rw [hiff, ← hparts, flatten_decoded, hparts, hchunks]
  constructor
  · intro hall chunks hok c hc
    cases hok
    obtain ⟨p, hp, rfl⟩ := List.mem_map.mp hc
    exact hall p hp
  · intro hall p hp
    exact hall _ rfl _ (List.mem_map_of_mem hp)

end Manager

/-- The cipher itself. -/
def xchacha : Aead where
  encrypt sk nonce aad pt := XChaCha20Poly1305.encrypt sk.1 nonce aad pt
  decrypt sk nonce aad ct := XChaCha20Poly1305.decrypt sk.1 nonce aad ct

theorem xchacha_correct : xchacha.Correct := fun _ _ _ _ => XChaCha20Poly1305.decrypt_encrypt ..

namespace Sample

def channel : Text := ['#', 'c']

def handle : Text := ['u', '@', 'h']

def sk : Key := ⟨List.replicate 32 7, rfl⟩

/-- A sender on an enabled channel. -/
def sender : Manager :=
  .start 1 1 [] [] (Keyring.fresh.setChannelConfig ⟨channel, true, .normal⟩)

def incoming : IncomingSession := ⟨handle, channel, [1], sk, .trusted⟩

/-- A receiver with the channel's key. -/
def receiver : Manager :=
  .start 2 1 [] [] { Keyring.fresh with incoming := ⟨[incoming], List.nodup_singleton _⟩ }

def msgid : Random msgidLen := ⟨List.replicate 8 9, rfl⟩

def nonces (i : Nat) : Random nonceLen := ⟨List.replicate 24 (UInt8.ofNat i), List.length_replicate⟩

/-- What the sender makes of a text at second 1000. -/
def encrypted (plaintext : Text) : EncryptOutcome × Manager :=
  Manager.encryptOutgoing xchacha (fun _ => true) sender 1000000 sk msgid nonces channel plaintext

def lines (plaintext : Text) : List Text :=
  match (encrypted plaintext).1 with
  | .encrypted lines => lines
  | _ => []

end Sample

namespace Manager

open Sample

/-- A one-line message that arrives two seconds later. -/
theorem message_round_trip_hi :
    RoundTrips ['h', 'i']
      (receiveAll xchacha receiver handle channel (lines ['h', 'i']) [(0, 1002000)]) ↔
      ∀ chunks, splitPlaintext ['h', 'i'] = .ok chunks → ∀ c ∈ chunks, ¬ bom <+: c :=
  @message_round_trip xchacha _ sender (encrypted ['h', 'i']).2 _ _ _ _ _ _ _ xchacha_correct
    (Prod.ext (by decide +kernel) rfl) _ _ incoming ⟨channel, sk, false⟩
    (by decide +kernel) rfl _ (by decide +kernel)
    ⟨by decide +kernel, rfl, by decide +kernel, by decide +kernel⟩

/-- A message that starts with U+FEFF arrives without it. -/
theorem bom_lost : ∃ m', encrypted [Char.ofNat 0xfeff, 'h', 'i'] =
      (.encrypted (lines [Char.ofNat 0xfeff, 'h', 'i']), m') ∧
    m'.keyring.getOutgoingSession channel = some ⟨channel, incoming.sk, false⟩ ∧
    Receives receiver handle channel incoming msgid.1 (nowUnix 1000000) [(0, 1000000)] ∧
    ¬ RoundTrips [Char.ofNat 0xfeff, 'h', 'i']
      (receiveAll xchacha receiver handle channel (lines [Char.ofNat 0xfeff, 'h', 'i'])
        [(0, 1000000)]) := by
  refine ⟨_, Prod.ext (by decide +kernel) rfl, by decide +kernel,
    ⟨by decide +kernel, rfl, by decide +kernel, by decide +kernel⟩, ?_⟩
  have hreceived : receiveAll xchacha receiver handle channel
      (lines [Char.ofNat 0xfeff, 'h', 'i']) [(0, 1000000)] = [(0, .plaintext ['h', 'i'])] := by
    decide +kernel
  rw [hreceived]
  rintro ⟨texts, htexts, hlength, hflat⟩
  obtain ⟨text, rfl⟩ := List.length_eq_one_iff.mp hlength
  have := htexts _ List.mem_cons_self
  simp only [List.getD_cons_zero, DecryptOutcome.plaintext.injEq] at this
  subst this
  exact absurd hflat (by decide)

end Manager

end Lurker.E2e
