import Lurker.E2e.Encoding
import Lurker.Lib.Trim

/-!
# Secrets at rest

A secret is stored as it is while no key is configured, and as an envelope that names its
key once one is. Both share a column and are told apart by shape. A secret that has not the
shape of an envelope is read back by every configuration that still has the key it was
sealed under, however often it was written again in between. One that has the shape is
taken for sealed already and stored as it is.
-/

namespace Lurker.Db.SecretCrypto

open E2e (Bytes Text utf8Encode hex unhex isHex isSpace)

/-- The platform's hash, cipher and lenient decoder. Opening undoes sealing under one key. -/
structure Platform where
  sha256 : Bytes → Bytes
  length_sha256 (bs : Bytes) : (sha256 bs).length = 32
  /-- AES-256-GCM: the tag and the ciphertext for a key, an initialisation vector and a text. -/
  encrypt : Bytes → Bytes → Bytes → Bytes × Bytes
  length_tag (key iv plain : Bytes) : (encrypt key iv plain).1.length = 16
  /-- The text for a key, an initialisation vector, a tag and a ciphertext, or what is thrown. -/
  decrypt : Bytes → Bytes → Bytes → Bytes → Except String Bytes
  decrypt_encrypt (key iv plain : Bytes) :
    decrypt key iv (encrypt key iv plain).1 (encrypt key iv plain).2 = .ok plain
  /-- `toString('utf8')` of bytes that are not UTF-8. -/
  replaced : Bytes → Text

/-- The bytes of `randomBytes(IV_BYTES)`. -/
structure Iv where
  bytes : Bytes
  length_bytes : bytes.length = 12

def keyBytes : Nat := 32
def ivBytes : Nat := 12
def tagBytes : Nat := 16
def keyidHexLen : Nat := 8
def envelopePrefix : Text := "lk1".toList

variable (platform : Platform)

/-- `Buffer.from(s, 'base64')`: both alphabets, other characters passed over, up to a
padding sign. -/
def fromBase64 (s : Text) : Bytes :=
  Base64.urlDecode ((s.takeWhile (· ≠ '=')).filter fun c =>
    Base64.inAlphabet c || Base64.inUrlAlphabet c)

def bufferToString (bs : Bytes) : Text :=
  match bs.toByteArray.utf8Decode? with
  | some cs => cs.toList
  | none => platform.replaced bs

structure KeyEntry where
  keyid : Text
  key : Bytes
deriving DecidableEq

structure Registry where
  primary : KeyEntry
  byId : List KeyEntry
deriving DecidableEq

def decodeKey (raw : Text) : Except String Bytes :=
  let trimmed := Trim.trim isSpace raw
  let buf := if trimmed.length = 64 ∧ trimmed.all isHex then unhex trimmed else fromBase64 trimmed
  if buf.length ≠ keyBytes then
    .error ("LURKER_SECRET_KEY must decode to 32 bytes (got " ++ toString buf.length ++
      "); generate one with: openssl rand -base64 32")
  else .ok buf

def fingerprint (key : Bytes) : Text := (hex (platform.sha256 key)).take keyidHexLen

/-- The registry of an environment, none without a key. -/
def buildRegistry (env : Option Text) : Except String (Option Registry) :=
  match env with
  | none => .ok none
  | some primaryRaw =>
    if primaryRaw = [] ∨ Trim.trim isSpace primaryRaw = [] then .ok none
    else match decodeKey primaryRaw with
      | .error e => .error e
      | .ok key =>
        let primary : KeyEntry := ⟨fingerprint platform key, key⟩
        .ok (some ⟨primary, [primary]⟩)

def Registry.get (reg : Registry) (keyid : Text) : Option KeyEntry :=
  reg.byId.find? fun e => e.keyid = keyid

def isLowerHex (c : Char) : Bool := c.isDigit || ('a' ≤ c && c ≤ 'f')

/-- `ENVELOPE_RE`: the prefix, a key id of eight digits and a payload, dots between them. -/
def isEncrypted (value : Text) : Bool :=
  value.take 4 = "lk1.".toList && ((value.drop 4).take keyidHexLen).length = keyidHexLen &&
    ((value.drop 4).take keyidHexLen).all isLowerHex && (value.drop 12).take 1 = ['.'] &&
    value.drop 13 ≠ [] && (value.drop 13).all Base64.inUrlAlphabet

def encryptSecret (env : Option Text) (iv : Iv) (plain : Option Text) :
    Except String (Option Text) :=
  match plain with
  | none => .ok none
  | some s =>
    if s = [] then .ok (some s)
    else if isEncrypted s then .ok (some s)
    else match buildRegistry platform env with
      | .error e => .error e
      | .ok none => .ok (some s)
      | .ok (some reg) =>
        let sealed := platform.encrypt reg.primary.key iv.bytes (utf8Encode s)
        let payload := Base64.urlEncode (iv.bytes ++ sealed.1 ++ sealed.2)
        .ok (some (envelopePrefix ++ ['.'] ++ reg.primary.keyid ++ ['.'] ++ payload))

def decryptSecret (env : Option Text) (stored : Option Text) : Except String (Option Text) :=
  match stored with
  | none => .ok none
  | some v =>
    if isEncrypted v = false then .ok (some v)
    else match v.splitOn '.' with
      | [_, keyid, payloadB64] =>
        match buildRegistry platform env with
        | .error e => .error e
        | .ok reg =>
          match reg.bind fun reg => reg.get keyid with
          | none => .error ("secretCrypto: no key for id \"" ++ String.ofList keyid ++
              "\" — is LURKER_SECRET_KEY set to the right value?")
          | some entry =>
            let payload := Base64.urlDecode payloadB64
            if payload.length < ivBytes + tagBytes then .error "secretCrypto: truncated envelope"
            else
              let iv := payload.take ivBytes
              let tag := (payload.drop ivBytes).take tagBytes
              let ct := payload.drop (ivBytes + tagBytes)
              match platform.decrypt entry.key iv tag ct with
              | .error err => .error
                  ("secretCrypto: failed to decrypt (wrong key or tampered ciphertext): " ++ err)
              | .ok plain => .ok (some (bufferToString platform plain))
      | _ => .error "secretCrypto: malformed envelope"

/-- The envelope of a text under a key. -/
def envelope (key : Bytes) (iv : Iv) (s : Text) : Text :=
  let sealed := platform.encrypt key iv.bytes (utf8Encode s)
  envelopePrefix ++ ['.'] ++ fingerprint platform key ++ ['.'] ++
    Base64.urlEncode (iv.bytes ++ sealed.1 ++ sealed.2)

variable {platform}

theorem length_fingerprint (key : Bytes) : (fingerprint platform key).length = 8 := by
  rw [fingerprint, List.length_take, E2e.length_hex, platform.length_sha256]
  rfl

theorem isLowerHex_hexDigit (n : Nat) (h : n < 16) : isLowerHex (E2e.hexDigit n) = true := by
  have hall : ∀ m : Fin 16, isLowerHex (E2e.hexDigit m) = true := by decide
  exact hall ⟨n, h⟩

theorem isLowerHex_fingerprint {key : Bytes} {c : Char} (h : c ∈ fingerprint platform key) :
    isLowerHex c = true := by
  obtain ⟨b, -, hc⟩ := List.mem_flatMap.mp (List.mem_of_mem_take h)
  have hb := b.toNat_lt
  simp only [List.mem_cons, List.not_mem_nil, or_false] at hc
  rcases hc with rfl | rfl
  all_goals exact isLowerHex_hexDigit _ (by omega)

theorem isEncrypted_iff {v : Text} : isEncrypted v = true ↔
    ∃ keyid payload, v = envelopePrefix ++ ['.'] ++ keyid ++ ['.'] ++ payload ∧
      keyid.length = 8 ∧ (∀ c ∈ keyid, isLowerHex c = true) ∧ payload ≠ [] ∧
      ∀ c ∈ payload, Base64.inUrlAlphabet c = true := by
  constructor
  · intro h
    simp only [isEncrypted, Bool.and_eq_true, decide_eq_true_iff, keyidHexLen] at h
    obtain ⟨⟨⟨⟨⟨hpre, hlen⟩, hhex⟩, hdot⟩, hne⟩, hurl⟩ := h
    refine ⟨(v.drop 4).take 8, v.drop 13, ?_, of_decide_eq_true hlen, List.all_eq_true.mp hhex, hne,
      List.all_eq_true.mp hurl⟩
    calc
      v = v.take 4 ++ ((v.drop 4).take 8 ++ ((v.drop 12).take 1 ++ v.drop 13)) := by
        rw [show v.drop 13 = (v.drop 12).drop 1 by rw [List.drop_drop], List.take_append_drop,
          show v.drop 12 = (v.drop 4).drop 8 by rw [List.drop_drop], List.take_append_drop,
          List.take_append_drop]
      _ = envelopePrefix ++ ['.'] ++ (v.drop 4).take 8 ++ ['.'] ++ v.drop 13 := by
        rw [hpre, hdot, show "lk1.".toList = envelopePrefix ++ ['.'] by decide]
        simp only [List.append_assoc]
  · rintro ⟨keyid, payload, rfl, hlen, hhex, hne, hurl⟩
    have hlk : envelopePrefix ++ ['.'] = "lk1.".toList := by decide
    have hfour : ("lk1.".toList).length = 4 := by decide
    have hsplit : envelopePrefix ++ ['.'] ++ keyid ++ ['.'] ++ payload =
        "lk1.".toList ++ (keyid ++ '.' :: payload) := by
      rw [hlk]
      simp only [List.append_assoc, List.singleton_append]
    have htake4 := @List.take_left' _ _ (keyid ++ '.' :: payload) _ hfour
    have hdrop4 := @List.drop_left' _ _ (keyid ++ '.' :: payload) _ hfour
    have hdrop12 : ("lk1.".toList ++ (keyid ++ '.' :: payload)).drop 12 = '.' :: payload := by
      rw [show (12 : Nat) = 4 + 8 by rfl, ← List.drop_drop, hdrop4, List.drop_left' hlen]
    have hdrop13 : ("lk1.".toList ++ (keyid ++ '.' :: payload)).drop 13 = payload := by
      rw [show (13 : Nat) = 12 + 1 by rfl, ← List.drop_drop, hdrop12]
      rfl
    simp only [hsplit, isEncrypted, keyidHexLen, Bool.and_eq_true, decide_eq_true_iff]
    rw [htake4, hdrop4, List.take_left' hlen, hdrop12, hdrop13]
    exact ⟨⟨⟨⟨⟨rfl, hlen⟩, List.all_eq_true.mpr hhex⟩, rfl⟩, hne⟩, List.all_eq_true.mpr hurl⟩

theorem isEncrypted_envelope (key : Bytes) (iv : Iv) (s : Text) :
    isEncrypted (envelope platform key iv s) = true := by
  refine isEncrypted_iff.mpr ⟨_, _, rfl, length_fingerprint key, fun c hc =>
    isLowerHex_fingerprint hc, fun hnil => ?_, fun c hc => Base64.mem_urlEncode hc⟩
  have hback := congrArg Base64.urlDecode hnil
  rw [Base64.urlDecode_urlEncode] at hback
  have hlen := congrArg List.length hback
  rw [List.length_append, List.length_append, iv.length_bytes, platform.length_tag] at hlen
  simp [Base64.urlDecode] at hlen

theorem splitOn_envelope (key : Bytes) (iv : Iv) (s : Text) :
    (envelope platform key iv s).splitOn '.' =
      [envelopePrefix, fingerprint platform key, Base64.urlEncode (iv.bytes ++
        (platform.encrypt key iv.bytes (utf8Encode s)).1 ++
        (platform.encrypt key iv.bytes (utf8Encode s)).2)] := by
  have hfingerprint : '.' ∉ fingerprint platform key := fun h =>
    absurd (isLowerHex_fingerprint h) (by decide)
  have hpayload (bs : Bytes) : '.' ∉ Base64.urlEncode bs := fun h =>
    absurd (Base64.mem_urlEncode h) (by decide)
  have hjoined : envelope platform key iv s = ['.'].intercalate
      [envelopePrefix, fingerprint platform key, Base64.urlEncode (iv.bytes ++
        (platform.encrypt key iv.bytes (utf8Encode s)).1 ++
        (platform.encrypt key iv.bytes (utf8Encode s)).2)] := by
    simp [envelope, List.intercalate]
  rw [hjoined]
  refine List.splitOn_intercalate '.' (fun part hpart => ?_) (by simp)
  simp only [List.mem_cons, List.not_mem_nil, or_false] at hpart
  rcases hpart with rfl | rfl | rfl
  · decide
  · exact hfingerprint
  · exact hpayload _

theorem bufferToString_utf8Encode (s : Text) : bufferToString platform (utf8Encode s) = s := by
  have h := E2e.utf8Decode_utf8Encode s
  unfold bufferToString
  cases hdec : (utf8Encode s).toByteArray.utf8Decode? with
  | none =>
    rw [hdec] at h
    cases h
  | some cs =>
    rw [hdec] at h
    exact Option.some.inj h

/-- The key a registry is made of is its own under its fingerprint. -/
theorem buildRegistry_spec {env : Option Text} {reg : Registry}
    (h : buildRegistry platform env = .ok (some reg)) :
    ∃ key, reg = ⟨⟨fingerprint platform key, key⟩, [⟨fingerprint platform key, key⟩]⟩ := by
  unfold buildRegistry at h
  split at h
  · cases h
  · split at h
    · cases h
    · split at h
      · cases h
      · rename_i key _
        cases h
        exact ⟨key, rfl⟩

/-- The key a writing of a secret seals it under, none where it leaves it as it is. -/
def keyUsed (platform : Platform) (env : Option Text) (s : Text) : Option Bytes :=
  if s = [] ∨ isEncrypted s = true then none
  else match buildRegistry platform env with
    | .ok (some reg) => some reg.primary.key
    | _ => none

/-- A secret written under some configuration, and what was stored written again under
others; with the key it was sealed under. -/
inductive Stored (platform : Platform) (s : Text) : Text → Option Bytes → Prop
  | written (env : Option Text) (iv : Iv) {v : Text}
      (h : encryptSecret platform env iv (some s) = .ok (some v)) :
      Stored platform s v (keyUsed platform env s)
  | again (env : Option Text) (iv : Iv) {v v' : Text} {used : Option Bytes}
      (hv : Stored platform s v used)
      (h : encryptSecret platform env iv (some v) = .ok (some v')) :
      Stored platform s v' (used.or (keyUsed platform env v))

/-- A configuration has a key. -/
def Holds (platform : Platform) (env : Option Text) (key : Bytes) : Prop :=
  ∃ reg, buildRegistry platform env = .ok (some reg) ∧
    reg.get (fingerprint platform key) = some ⟨fingerprint platform key, key⟩

/-- Nothing sealed under the one key opens under the other. -/
def Rejects (platform : Platform) (key other : Bytes) : Prop :=
  ∀ iv plain, ∃ err, platform.decrypt other iv (platform.encrypt key iv plain).1
    (platform.encrypt key iv plain).2 = .error err

/-- One writing leaves a secret as it is or makes it an envelope under the key used. -/
theorem encryptSecret_cases {env : Option Text} {iv : Iv} {s v : Text}
    (h : encryptSecret platform env iv (some s) = .ok (some v)) :
    (v = s ∧ keyUsed platform env s = none) ∨
      (isEncrypted s = false ∧
        ∃ key, v = envelope platform key iv s ∧ keyUsed platform env s = some key) := by
  unfold encryptSecret at h
  unfold keyUsed
  dsimp only at h
  by_cases hempty : s = []
  · rw [if_pos hempty] at h
    cases h
    exact Or.inl ⟨rfl, if_pos (Or.inl hempty)⟩
  · rw [if_neg hempty] at h
    by_cases hshape : isEncrypted s = true
    · rw [if_pos hshape] at h
      cases h
      exact Or.inl ⟨rfl, if_pos (Or.inr hshape)⟩
    · rw [if_neg hshape] at h
      rw [if_neg (not_or.mpr ⟨hempty, hshape⟩)]
      split at h
      · cases h
      · rename_i hreg
        cases h
        rw [hreg]
        exact Or.inl ⟨rfl, rfl⟩
      · rename_i reg hreg
        obtain ⟨key, rfl⟩ := buildRegistry_spec hreg
        cases h
        rw [hreg]
        exact Or.inr ⟨eq_false_of_ne_true hshape, key, rfl, rfl⟩

theorem encryptSecret_envelope {env : Option Text} {iv : Iv} {v : Text}
    (h : isEncrypted v = true) : encryptSecret platform env iv (some v) = .ok (some v) := by
  unfold encryptSecret
  dsimp only
  rw [if_pos h, ite_self]

/-- However often it was written, a secret is stored as it is, or as one envelope of it. -/
theorem Stored.cases {s v : Text} {used : Option Bytes} (h : Stored platform s v used) :
    (v = s ∧ used = none) ∨
      (isEncrypted s = false ∧ ∃ key iv, v = envelope platform key iv s ∧ used = some key) := by
  induction h with
  | written env iv h =>
    rcases encryptSecret_cases h with hplain | ⟨hshape, key, hv, hkey⟩
    · exact Or.inl hplain
    · exact Or.inr ⟨hshape, key, iv, hv, hkey⟩
  | again env iv hv h ih =>
    rcases ih with ⟨rfl, rfl⟩ | ⟨hshape, key, iv', rfl, rfl⟩
    · rcases encryptSecret_cases h with ⟨rfl, hkey⟩ | ⟨hshape, key, hv, hkey⟩
      · exact Or.inl ⟨rfl, hkey⟩
      · exact Or.inr ⟨hshape, key, iv, hv, hkey⟩
    · rw [encryptSecret_envelope (isEncrypted_envelope key iv' s)] at h
      cases h
      exact Or.inr ⟨hshape, key, iv', rfl, rfl⟩

theorem decryptSecret_plain {env : Option Text} {v : Text} (h : isEncrypted v = false) :
    decryptSecret platform env (some v) = .ok (some v) := if_pos h

/-- A payload is cut where it was put together. -/
theorem payload_parts {iv tag : Bytes} (hiv : iv.length = ivBytes) (htag : tag.length = tagBytes)
    (ct : Bytes) :
    ¬ (iv ++ tag ++ ct).length < ivBytes + tagBytes ∧ (iv ++ tag ++ ct).take ivBytes = iv ∧
      ((iv ++ tag ++ ct).drop ivBytes).take tagBytes = tag ∧
      (iv ++ tag ++ ct).drop (ivBytes + tagBytes) = ct := by
  refine ⟨?_, ?_, ?_, ?_⟩
  · rw [List.length_append, List.length_append, hiv, htag]
    omega
  · rw [List.append_assoc, List.take_left' hiv]
  · rw [List.append_assoc, List.drop_left' hiv, List.take_left' htag]
  · rw [List.drop_left' (by rw [List.length_append, hiv, htag])]

/-- An envelope is taken to the key its id leads to. -/
theorem decryptSecret_envelope (env : Option Text) (key : Bytes) (iv : Iv) (s : Text) :
    decryptSecret platform env (some (envelope platform key iv s)) =
      match buildRegistry platform env with
      | .error e => .error e
      | .ok reg =>
        match reg.bind fun reg => reg.get (fingerprint platform key) with
        | none => .error ("secretCrypto: no key for id \"" ++
            String.ofList (fingerprint platform key) ++
            "\" — is LURKER_SECRET_KEY set to the right value?")
        | some entry =>
          match platform.decrypt entry.key iv.bytes
            (platform.encrypt key iv.bytes (utf8Encode s)).1
            (platform.encrypt key iv.bytes (utf8Encode s)).2 with
          | .error err => .error
              ("secretCrypto: failed to decrypt (wrong key or tampered ciphertext): " ++ err)
          | .ok plain => .ok (some (bufferToString platform plain)) := by
  obtain ⟨hlong, htake, hmid, hdrop⟩ := payload_parts iv.length_bytes
    (platform.length_tag key iv.bytes (utf8Encode s))
    (platform.encrypt key iv.bytes (utf8Encode s)).2
  unfold decryptSecret
  dsimp only
  rw [if_neg (by rw [isEncrypted_envelope]; decide), splitOn_envelope]
  dsimp only
  rw [Base64.urlDecode_urlEncode]
  cases buildRegistry platform env with
  | error e => rfl
  | ok reg =>
    dsimp only
    cases reg.bind fun reg => reg.get (fingerprint platform key) with
    | none => rfl
    | some entry =>
      dsimp only
      rw [if_neg hlong, htake, hmid, hdrop]

/-- A configuration that has the key opens the envelope to the secret. -/
theorem decryptSecret_holds {env : Option Text} {key : Bytes} (h : Holds platform env key)
    (iv : Iv) (s : Text) :
    decryptSecret platform env (some (envelope platform key iv s)) = .ok (some s) := by
  obtain ⟨reg, hreg, hget⟩ := h
  rw [decryptSecret_envelope, hreg]
  dsimp only [Option.bind_some]
  rw [hget]
  dsimp only
  rw [platform.decrypt_encrypt]
  dsimp only
  rw [bufferToString_utf8Encode]

/-- One that has not the key refuses it: it has none for the id, or one that does not open it. -/
theorem decryptSecret_refuses {env : Option Text} {key : Bytes}
    (hother : ∀ other, Holds platform env other → other ≠ key → Rejects platform key other)
    (h : ¬ Holds platform env key) (iv : Iv) (s : Text) :
    ∃ err, decryptSecret platform env (some (envelope platform key iv s)) = .error err := by
  rw [decryptSecret_envelope]
  cases hreg : buildRegistry platform env with
  | error e => exact ⟨e, rfl⟩
  | ok reg =>
    dsimp only
    cases hget : reg.bind fun reg => reg.get (fingerprint platform key) with
    | none => exact ⟨_, rfl⟩
    | some entry =>
      obtain ⟨reg, rfl, hentry⟩ := Option.bind_eq_some_iff.mp hget
      obtain ⟨other, rfl⟩ := buildRegistry_spec hreg
      have hown : entry = ⟨fingerprint platform other, other⟩ := by
        simpa using List.mem_of_find?_eq_some hentry
      have hid : entry.keyid = fingerprint platform key := by
        simpa using List.find?_some hentry
      have hholds : Holds platform env other := ⟨_, hreg, by simp [Registry.get]⟩
      have hne : other ≠ key := fun heq => h (heq ▸ hholds)
      obtain ⟨err, herr⟩ := hother other hholds hne iv.bytes (utf8Encode s)
      rw [hown]
      dsimp only
      rw [herr]
      exact ⟨_, rfl⟩

/-- A stored secret that had not the shape of an envelope is read back by every configuration
with the key it is sealed under. What is stored in place of it is an envelope, and opens to
the secret or not at all. -/
theorem secrets_read_back {s v : Text} {used : Option Bytes} (h : Stored platform s v used) :
    (isEncrypted s = false → ∀ env, (∀ key, used = some key → Holds platform env key) →
      decryptSecret platform env (some v) = .ok (some s)) ∧
    (v ≠ s → isEncrypted v = true ∧ ∀ env,
      (∀ key other, used = some key → Holds platform env other → other ≠ key →
        Rejects platform key other) →
      decryptSecret platform env (some v) = .ok (some s) ∨
        ∃ err, decryptSecret platform env (some v) = .error err) := by
  rcases h.cases with ⟨rfl, -⟩ | ⟨-, key, iv, rfl, rfl⟩
  · exact ⟨fun hshape _ _ => decryptSecret_plain hshape, fun hne => absurd rfl hne⟩
  · refine ⟨fun _ env hholds => decryptSecret_holds (hholds key rfl) iv s,
      fun _ => ⟨isEncrypted_envelope key iv s, fun env hother => ?_⟩⟩
    by_cases hholds : Holds platform env key
    · exact Or.inl (decryptSecret_holds hholds iv s)
    · exact Or.inr (decryptSecret_refuses (hother key · rfl) hholds iv s)

def sampleKey : Bytes := (List.range 32).map UInt8.ofNat
def sampleEnv : Text := hex sampleKey
def samplePlain : Bytes := utf8Encode "hunter2".toList
def sampleIv : Iv := ⟨(List.range 12).map fun i => UInt8.ofNat (100 + i), by decide⟩
def sampleTag : Bytes :=
  [103, 182, 247, 33, 191, 44, 187, 35, 213, 196, 134, 202, 222, 146, 178, 110]
def sampleCt : Bytes := [32, 110, 176, 18, 28, 155, 100]
def sampleDigest : Bytes :=
  [99, 13, 205, 41, 102, 196, 51, 102, 145, 18, 84, 72, 187, 178, 91, 79, 244, 18, 164, 156, 115,
    45, 178, 200, 171, 193, 184, 88, 27, 215, 16, 221]
def sampleEnvelope : Text := "lk1.630dcd29.ZGVmZ2hpamtsbW5vZ7b3Ib8suyPVxIbK3pKybiBusBIcm2Q".toList

/-- A tag that is of the key alone. -/
def keyTag (key : Bytes) : Bytes := (key ++ List.replicate 16 0).take 16

theorem length_keyTag (key : Bytes) : (keyTag key).length = 16 := by simp [keyTag]

/-- The hash and the cipher on the sample, and elsewhere ones of the same laws. -/
def sample : Platform where
  sha256 bs := if bs = sampleKey then sampleDigest else List.replicate 32 0
  length_sha256 bs := by split <;> rfl
  encrypt key iv plain :=
    if key = sampleKey ∧ iv = sampleIv.bytes ∧ plain = samplePlain then (sampleTag, sampleCt)
    else (keyTag key, plain)
  length_tag key iv plain := by
    split
    · rfl
    · exact length_keyTag key
  decrypt key iv tag ct :=
    if key = sampleKey ∧ iv = sampleIv.bytes ∧ tag = sampleTag ∧ ct = sampleCt then .ok samplePlain
    else if tag = keyTag key then .ok ct
    else .error "Unsupported state or unable to authenticate data"
  decrypt_encrypt key iv plain := by
    have htag : keyTag sampleKey ≠ sampleTag := by decide
    split
    · rename_i h
      rw [if_pos ⟨h.1, h.2.1, rfl, rfl⟩, h.2.2]
    · have hother : ¬ (key = sampleKey ∧ iv = sampleIv.bytes ∧ keyTag key = sampleTag ∧
          plain = sampleCt) := fun h => htag (h.1 ▸ h.2.2.1)
      rw [if_neg hother, if_pos rfl]
  replaced _ := []

def otherKey : Bytes := List.replicate 32 7

theorem sample_rejects {other : Bytes} (hne : other ≠ sampleKey) (hreal : keyTag other ≠ sampleTag)
    (htag : keyTag other ≠ keyTag sampleKey) : Rejects sample sampleKey other := by
  intro iv plain
  refine ⟨"Unsupported state or unable to authenticate data", ?_⟩
  have hmade : (sample.encrypt sampleKey iv plain).1 = sampleTag ∨
      (sample.encrypt sampleKey iv plain).1 = keyTag sampleKey := by
    unfold sample
    dsimp only
    split
    · exact Or.inl rfl
    · exact Or.inr rfl
  have hcase : (sample.encrypt sampleKey iv plain).1 ≠ keyTag other := by
    rcases hmade with h | h <;> rw [h]
    · exact hreal.symm
    · exact htag.symm
  generalize sample.encrypt sampleKey iv plain = made at hcase
  have hother : ¬ (other = sampleKey ∧ iv = sampleIv.bytes ∧ made.1 = sampleTag ∧
      made.2 = sampleCt) := fun h => hne h.1
  unfold sample
  dsimp only
  rw [if_neg hother, if_neg hcase]

theorem secrets_read_back_sample :
    decryptSecret sample (some sampleEnv) (some sampleEnvelope) = .ok (some "hunter2".toList) ∧
      isEncrypted sampleEnvelope = true ∧
      (decryptSecret sample (some (hex otherKey)) (some sampleEnvelope) =
          .ok (some "hunter2".toList) ∨
        ∃ err, decryptSecret sample (some (hex otherKey)) (some sampleEnvelope) = .error err) := by
  have hwritten : encryptSecret sample (some sampleEnv) sampleIv (some "hunter2".toList) =
      .ok (some sampleEnvelope) := by decide +kernel
  have hused : keyUsed sample (some sampleEnv) "hunter2".toList = some sampleKey := by decide +kernel
  have hstored : Stored sample "hunter2".toList sampleEnvelope (some sampleKey) :=
    hused ▸ Stored.written (some sampleEnv) sampleIv hwritten
  have hread := secrets_read_back hstored
  have hkey : Holds sample (some sampleEnv) sampleKey :=
    ⟨⟨⟨fingerprint sample sampleKey, sampleKey⟩, [⟨fingerprint sample sampleKey, sampleKey⟩]⟩,
      by decide +kernel, by decide +kernel⟩
  have hother : buildRegistry sample (some (hex otherKey)) =
      .ok (some ⟨⟨fingerprint sample otherKey, otherKey⟩,
        [⟨fingerprint sample otherKey, otherKey⟩]⟩) := by decide +kernel
  have henvelope := hread.2 (by decide +kernel)
  refine ⟨hread.1 (by decide +kernel) _ fun key hsome => Option.some.inj hsome ▸ hkey, henvelope.1,
    henvelope.2 (some (hex otherKey)) fun key other hsome hholds hne => ?_⟩
  obtain ⟨reg, hreg, hget⟩ := hholds
  cases Except.ok.inj (hother.symm.trans hreg)
  have heq : other = otherKey := congrArg KeyEntry.key
    (List.mem_singleton.mp (List.mem_of_find?_eq_some hget))
  rw [← Option.some.inj hsome, heq]
  exact sample_rejects (by decide +kernel) (by decide +kernel) (by decide +kernel)

/-- A secret of an envelope's shape is stored as it is, and is not read back. -/
theorem look_alike_not_read_back :
    encryptSecret sample none sampleIv (some "lk1.00000000.AA".toList) =
        .ok (some "lk1.00000000.AA".toList) ∧
      decryptSecret sample none (some "lk1.00000000.AA".toList) ≠
        .ok (some "lk1.00000000.AA".toList) := by
  decide +kernel

end Lurker.Db.SecretCrypto
