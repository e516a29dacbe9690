import Lurker.E2e.Chunk
import Lurker.E2e.HandshakeCodec
import Mathlib.Data.Rat.Lemmas

/-!
# What is authenticated

The payload a handshake is signed over, and the associated data a chunk is sealed with,
put their fields one after another. The channel is the one field whose length is not known
beforehand, so the length of the whole tells it, and no two messages, and no two chunks,
are authenticated by the same bytes.
-/

namespace Lurker.E2e

/-- Fields of the same lengths, each after a colon. -/
theorem parts_injective {ps qs : List Bytes} (hlength : ps.map List.length = qs.map List.length)
    (h : ps.flatMap (0x3a :: ·) = qs.flatMap (0x3a :: ·)) : ps = qs := by
  induction ps generalizing qs with
  | nil => exact (List.map_eq_nil_iff.mp hlength.symm).symm
  | cons p ps ih =>
    cases qs with
    | nil => cases hlength
    | cons q qs =>
      obtain ⟨hfirst, hrest⟩ := List.cons.inj hlength
      obtain ⟨hp, htail⟩ := List.append_inj (List.cons.inj h).2 hfirst
      rw [hp, ih hrest htail]

theorem length_parts {ps qs : List Bytes} (hlength : ps.map List.length = qs.map List.length) :
    (ps.flatMap ((0x3a : UInt8) :: ·)).length = (qs.flatMap ((0x3a : UInt8) :: ·)).length := by
  have hsum (rs : List Bytes) : (rs.flatMap ((0x3a : UInt8) :: ·)).length =
      ((rs.map List.length).map (· + 1)).sum := by
    rw [List.length_flatMap, List.map_map]
    rfl
  rw [hsum, hsum, hlength]

theorem sigPayload_injective {label channel channel' : Text} {ps qs : List Bytes}
    (hlength : ps.map List.length = qs.map List.length)
    (h : sigPayload label channel ps = sigPayload label channel' qs) :
    channel = channel' ∧ ps = qs := by
  obtain ⟨hfront, hparts⟩ := List.append_inj' h (length_parts hlength)
  obtain ⟨-, hchannel⟩ := List.append_inj hfront rfl
  exact ⟨utf8Encode_injective hchannel, parts_injective hlength hparts⟩

namespace HandshakeMsg

/-- What a message of each kind is signed over. -/
def sigPayload : HandshakeMsg → Bytes
  | .keyReq msg => sigPayloadKeyReq msg
  | .keyRsp msg => sigPayloadKeyRsp msg
  | .rekey msg => sigPayloadKeyRekey msg

/-- The message but for its signature. -/
def unsigned : HandshakeMsg → HandshakeMsg
  | .keyReq msg => .keyReq { msg with sig := [] }
  | .keyRsp msg => .keyRsp { msg with sig := [] }
  | .rekey msg => .rekey { msg with sig := [] }

/-- The fields have their lengths, and a wrapped key that of a sealed 32-byte key. -/
def Sealed (m : HandshakeMsg) : Prop :=
  m.Sized ∧
    match m with
    | .keyReq _ => True
    | .keyRsp msg | .rekey msg => msg.wrapCt.length = 32 + 16

/-- The first five bytes of a label. -/
def labelHead : HandshakeKind → Bytes
  | .keyReq => [75, 69, 89, 82, 69]
  | .keyRsp => [75, 69, 89, 82, 83]
  | .rekey => [82, 69, 75, 69, 89]

/-- The labels tell the kinds apart. -/
theorem kind_of_sigPayload {m₁ m₂ : HandshakeMsg} (h : m₁.sigPayload = m₂.sigPayload) :
    m₁.kind = m₂.kind := by
  have hlabel (m : HandshakeMsg) : m.sigPayload.take 5 = labelHead m.kind := by cases m <;> rfl
  have h₁ := hlabel m₁
  rw [h, hlabel m₂] at h₁
  cases hk₁ : m₁.kind <;> cases hk₂ : m₂.kind <;> rw [hk₁, hk₂] at h₁ <;> first | rfl | cases h₁

theorem keyWrap_unsigned {label : Text} {r s : KeyWrap}
    (hr : r.pubkey.length = 32 ∧ r.ephemeralPub.length = 32 ∧ r.wrapNonce.length = 24 ∧
      r.wrapCt ≠ [] ∧ r.nonce.length = 16 ∧ r.sig.length = 64) (hrct : r.wrapCt.length = 32 + 16)
    (hs : s.pubkey.length = 32 ∧ s.ephemeralPub.length = 32 ∧ s.wrapNonce.length = 24 ∧
      s.wrapCt ≠ [] ∧ s.nonce.length = 16 ∧ s.sig.length = 64) (hsct : s.wrapCt.length = 32 + 16)
    (h : E2e.sigPayload label r.channel (wrapParts r) = E2e.sigPayload label s.channel (wrapParts s)) :
    { r with sig := [] } = { s with sig := [] } := by
  obtain ⟨hp, he, hwn, -, hn, -⟩ := hr
  obtain ⟨hp', he', hwn', -, hn', -⟩ := hs
  obtain ⟨hchannel, hparts⟩ := sigPayload_injective
    (by simp [wrapParts, hp, he, hwn, hrct, hn, hp', he', hwn', hsct, hn']) h
  simp only [wrapParts, List.cons.injEq, and_true] at hparts
  obtain ⟨hpub, heph, hwnonce, hct, hnonce⟩ := hparts
  rw [hchannel, hpub, heph, hwnonce, hct, hnonce]

theorem unsigned_of_sigPayload {m₁ m₂ : HandshakeMsg} (h₁ : m₁.Sealed) (h₂ : m₂.Sealed)
    (h : m₁.sigPayload = m₂.sigPayload) : m₁.unsigned = m₂.unsigned := by
  have hkind := kind_of_sigPayload h
  obtain ⟨hsized₁, hct₁⟩ := h₁
  obtain ⟨hsized₂, hct₂⟩ := h₂
  cases m₁ with
  | keyReq r =>
    cases m₂ with
    | keyReq s =>
      obtain ⟨hp, he, hn, -⟩ := hsized₁
      obtain ⟨hp', he', hn', -⟩ := hsized₂
      obtain ⟨hchannel, hparts⟩ := sigPayload_injective (by simp [hp, he, hn, hp', he', hn']) h
      simp only [List.cons.injEq, and_true] at hparts
      obtain ⟨hpub, heph, hnonce⟩ := hparts
      simp only [unsigned, hchannel, hpub, heph, hnonce]
    | keyRsp s => cases hkind
    | rekey s => cases hkind
  | keyRsp r =>
    cases m₂ with
    | keyReq s => cases hkind
    | keyRsp s => exact congrArg HandshakeMsg.keyRsp (keyWrap_unsigned hsized₁ hct₁ hsized₂ hct₂ h)
    | rekey s => cases hkind
  | rekey r =>
    cases m₂ with
    | keyReq s => cases hkind
    | keyRsp s => cases hkind
    | rekey s => exact congrArg HandshakeMsg.rekey (keyWrap_unsigned hsized₁ hct₁ hsized₂ hct₂ h)

end HandshakeMsg

/-- A timestamp as it is given: a number or a big integer. -/
inductive Timestamp where
  | number (n : ℚ)
  | bigint (n : Int)
  deriving DecidableEq

/-- An exact integer within the i64 range. -/
def toI64 : Timestamp → Option Int
  | .number n => if n.isInt ∧ n.num.natAbs ≤ maxSafeInteger then some n.num else none
  | .bigint n => if n < -(2 : Int) ^ 63 ∨ (2 : Int) ^ 63 - 1 < n then none else some n

/-- A single-byte field, which is not truncated. -/
def u8 (n : ℚ) : Option UInt8 :=
  if n.isInt ∧ 0 ≤ n.num ∧ n.num ≤ 255 then some (UInt8.ofNat n.num.toNat) else none

/-- The associated data of one chunk, whatever numbers it is given; nothing where the source
throws. -/
def buildAadOf (channel : Text) (msgid : Bytes) (ts : Timestamp) (part total : ℚ) : Option Bytes :=
  if msgid.length ≠ msgidLen then none
  else do
    let ts ← toI64 ts
    let part ← u8 part
    let total ← u8 total
    let chan := utf8Encode channel
    return utf8Encode proto ++ be16 (min chan.length 65535) ++ chan ++ be16 8 ++ msgid ++
      be16 8 ++ be64 ts ++ be16 1 ++ [part] ++ be16 1 ++ [total]

theorem toI64_range {ts : Timestamp} {n : Int} (h : toI64 ts = some n) :
    -(2 : Int) ^ 63 ≤ n ∧ n ≤ (2 : Int) ^ 63 - 1 := by
  unfold toI64 at h
  split at h
  · split at h
    · rename_i hn
      obtain rfl := Option.some.inj h
      have hsafe := hn.2
      unfold maxSafeInteger at hsafe
      omega
    · cases h
  · split at h
    · cases h
    · obtain rfl := Option.some.inj h
      omega

theorem u8_injective {n m : ℚ} {b : UInt8} (hn : u8 n = some b) (hm : u8 m = some b) : n = m := by
  have hval : ∀ q : ℚ, u8 q = some b → q.isInt ∧ q.num = b.toNat := by
    intro q hq
    unfold u8 at hq
    split at hq
    · rename_i h
      rw [← Option.some.inj hq]
      refine ⟨h.1, ?_⟩
      rw [UInt8.toNat_ofNat']
      omega
    · cases hq
  obtain ⟨hin, hnum⟩ := hval n hn
  obtain ⟨him, hmum⟩ := hval m hm
  exact Rat.ext (hnum.trans hmum.symm) ((of_decide_eq_true hin).trans (of_decide_eq_true him).symm)

/-- Integer numbers are what `buildAad` is given. -/
theorem buildAadOf_number (channel : Text) (msgid : Bytes) (ts : Int) (part total : Nat) :
    buildAadOf channel msgid (.number ts) part total = buildAad channel msgid ts part total := by
  have hu8 (n : Nat) : u8 n = if 255 < n then none else some (UInt8.ofNat n) := by
    unfold u8
    split
    · rename_i h
      rw [if_neg (by simp at h; omega)]
      simp
    · rename_i h
      rw [if_pos (by simp [Rat.isInt] at h; omega)]
  have hi64 : toI64 (.number ts) = if maxSafeInteger < ts.natAbs then none else some ts := by
    unfold toI64
    dsimp only
    split
    · rename_i h
      rw [if_neg (by simp at h; omega)]
      simp
    · rename_i h
      rw [if_pos (by simp [Rat.isInt] at h; omega)]
  unfold buildAadOf buildAad
  rw [hi64, hu8, hu8]
  split
  · rfl
  split
  · rfl
  by_cases hp : 255 < part
  · simp [hp]
  by_cases ht : 255 < total
  · simp [hp, ht]
  · simp [hp, ht]

theorem buildAadOf_eq_some {channel : Text} {msgid : Bytes} {ts : Timestamp} {part total : ℚ}
    {aad : Bytes} (h : buildAadOf channel msgid ts part total = some aad) :
    ∃ n p t, toI64 ts = some n ∧ u8 part = some p ∧ u8 total = some t ∧ msgid.length = msgidLen ∧
      utf8Encode proto ++ be16 (min (utf8Encode channel).length 65535) ++ utf8Encode channel ++
        be16 8 ++ msgid ++ be16 8 ++ be64 n ++ be16 1 ++ [p] ++ be16 1 ++ [t] = aad := by
  unfold buildAadOf at h
  split at h
  · cases h
  rename_i hmsgid
  obtain ⟨n, hn, h⟩ := Option.bind_eq_some_iff.mp h
  obtain ⟨p, hp, h⟩ := Option.bind_eq_some_iff.mp h
  obtain ⟨t, ht, h⟩ := Option.bind_eq_some_iff.mp h
  exact ⟨n, p, t, hn, hp, ht, not_not.mp hmsgid, Option.some.inj h⟩

theorem buildAadOf_injective {channel channel' : Text} {msgid msgid' : Bytes}
    {ts ts' : Timestamp} {part part' total total' : ℚ} {aad : Bytes}
    (h : buildAadOf channel msgid ts part total = some aad)
    (h' : buildAadOf channel' msgid' ts' part' total' = some aad) :
    channel = channel' ∧ msgid = msgid' ∧ toI64 ts = toI64 ts' ∧ part = part' ∧ total = total' := by
  obtain ⟨n, p, t, hn, hp, ht, hmsgid, rfl⟩ := buildAadOf_eq_some h
  obtain ⟨n', p', t', hn', hp', ht', hmsgid', heq⟩ := buildAadOf_eq_some h'
  obtain ⟨hchannel, hid, hts, hpart, htotal⟩ :=
    aad_injective hmsgid' hmsgid (toI64_range hn') (toI64_range hn) heq
  refine ⟨hchannel.symm, hid.symm, by rw [hn, hn', hts], ?_, ?_⟩
  · exact u8_injective hp (hpart ▸ hp')
  · exact u8_injective ht (htotal ▸ ht')

/-- No two handshakes are signed over the same bytes, and no two chunks are sealed with the
same associated data. -/
theorem authenticated_unambiguous :
    (∀ m₁ m₂ : HandshakeMsg, m₁.Sealed → m₂.Sealed → m₁.sigPayload = m₂.sigPayload →
      m₁.unsigned = m₂.unsigned) ∧
    ∀ (channel channel' : Text) (msgid msgid' : Bytes) (ts ts' : Timestamp)
      (part part' total total' : ℚ) (aad : Bytes),
      buildAadOf channel msgid ts part total = some aad →
      buildAadOf channel' msgid' ts' part' total' = some aad →
        channel = channel' ∧ msgid = msgid' ∧ toI64 ts = toI64 ts' ∧ part = part' ∧ total = total' :=
  ⟨fun _ _ => HandshakeMsg.unsigned_of_sigPayload, fun _ _ _ _ _ _ _ _ _ _ _ => buildAadOf_injective⟩

theorem authenticated_unambiguous_resigned :
    (HandshakeMsg.keyReq (blankReq ['#', 'a'])).unsigned =
      (HandshakeMsg.keyReq { blankReq ['#', 'a'] with sig := List.replicate 64 1 }).unsigned :=
  authenticated_unambiguous.1 _ _ (by simp [HandshakeMsg.Sealed, HandshakeMsg.Sized, blankReq])
    (by simp [HandshakeMsg.Sealed, HandshakeMsg.Sized, blankReq]) rfl

end Lurker.E2e
