import Lurker.E2e.Encoding
import Mathlib.Data.List.GetD

/-!
# Encrypted chunks

A message is split into pieces on character boundaries, each piece is sealed by
itself with its place in the message as associated data, and each sealed piece
is one line: `+RPE2E01 <msgid> <ts> <part>/<total> <nonce>:<ciphertext>`. A
receiver decrypts every line alone and never reassembles.
-/

namespace Lurker.E2e

/-- Max plaintext bytes per chunk before ciphertext expansion. -/
def maxPlaintextPerChunk : Nat := 180

/-- Max chunks per logical message. -/
def maxChunks : Nat := 16

def chunkLimitError (count : Nat) : String := "too many chunks: " ++ toString count

/-- Walk back to a UTF-8 boundary if we landed mid-sequence. -/
def walkBack (bytes : Bytes) (cursor : Nat) : Nat → Nat
  | 0 => 0
  | stop + 1 =>
    if cursor < stop + 1 ∧ stop + 1 < bytes.length ∧ isContinuation (bytes.getD (stop + 1) 0) then
      walkBack bytes cursor stop
    else stop + 1

/-- The loop of `splitPlaintext` from `cursor`, with `room` chunks left to the limit. -/
def splitFrom (bytes : Bytes) (room cursor : Nat) : Except String (List Bytes) :=
  if cursor < bytes.length then
    let stop := walkBack bytes cursor (min (cursor + maxPlaintextPerChunk) bytes.length)
    if stop = cursor then .error "cannot split: single UTF-8 char exceeds chunk budget"
    else
      match room with
      | 0 => .error (chunkLimitError (maxChunks + 1))
      | room + 1 => (splitFrom bytes room stop).map ((bytes.drop cursor).take (stop - cursor) :: ·)
  else .ok []

/-- Split `plaintext` into UTF-8 chunks. Empty input is refused. -/
def splitPlaintext (plaintext : Text) : Except String (List Bytes) :=
  if plaintext = [] then .error "empty plaintext"
  else splitFrom (utf8Encode plaintext) maxChunks 0

theorem walkBack_le (bytes : Bytes) (cursor : Nat) (stop : Nat) :
    walkBack bytes cursor stop ≤ stop := by
  induction stop with
  | zero => exact le_rfl
  | succ stop ih =>
    unfold walkBack
    split
    · exact ih.trans (Nat.le_succ stop)
    · exact le_rfl

theorem le_walkBack {bytes : Bytes} {cursor stop : Nat} (h : cursor ≤ stop) :
    cursor ≤ walkBack bytes cursor stop := by
  induction stop with
  | zero => exact h
  | succ stop ih =>
    unfold walkBack
    split
    case isTrue hc => exact ih (Nat.lt_succ_iff.mp hc.1)
    case isFalse => exact h

/-- Walking back ends on a boundary, or found none after `cursor`. -/
theorem walkBack_boundary {bytes : Bytes} {cursor stop : Nat} (h : cursor ≤ stop) :
    walkBack bytes cursor stop = cursor ∨ bytes.length ≤ walkBack bytes cursor stop ∨
      isContinuation (bytes.getD (walkBack bytes cursor stop) 0) = false := by
  induction stop with
  | zero => exact .inl (Nat.le_zero.mp h).symm
  | succ stop ih =>
    unfold walkBack
    split
    case isTrue hc => exact ih (Nat.lt_succ_iff.mp hc.1)
    case isFalse hc =>
      by_cases hcur : cursor = stop + 1
      · exact .inl hcur.symm
      by_cases hlen : stop + 1 < bytes.length
      · refine .inr (.inr (Bool.eq_false_iff.mpr fun hcont => ?_))
        exact hc ⟨by omega, hlen, hcont⟩
      · exact .inr (.inl (by omega))

/-- A position of encoded text where no character is cut. -/
theorem exists_split_of_boundary {cs : Text} {i : Nat} (hi : i ≤ (utf8Encode cs).length)
    (h : (utf8Encode cs).length ≤ i ∨ isContinuation ((utf8Encode cs).getD i 0) = false) :
    ∃ p q, cs = p ++ q ∧ (utf8Encode p).length = i := by
  induction cs generalizing i with
  | nil => exact ⟨[], [], rfl, (Nat.le_zero.mp hi).symm⟩
  | cons c cs ih =>
    obtain ⟨b, bs, heq, -, -, hcont⟩ := utf8EncodeChar_shape c
    rw [utf8Encode_cons, heq] at hi h
    obtain rfl | ⟨i, rfl⟩ : i = 0 ∨ ∃ j, i = j + 1 := by cases i <;> simp
    · exact ⟨[], c :: cs, rfl, rfl⟩
    simp only [List.cons_append, List.length_cons, List.length_append, List.getD_cons_succ] at hi h
    by_cases hlt : i < bs.length
    · -- inside the character
      rw [List.getD_append _ _ _ _ hlt, List.getD_eq_getElem _ _ hlt,
        hcont _ (List.getElem_mem hlt)] at h
      rcases h with h | h
      · omega
      · cases h
    · rw [List.getD_append_right _ _ _ _ (Nat.not_lt.mp hlt)] at h
      obtain ⟨p, q, rfl, hp⟩ := ih (i := i - bs.length) (by omega) (h.imp (by omega) id)
      refine ⟨c :: p, q, rfl, ?_⟩
      rw [utf8Encode_cons, heq, List.length_append, List.length_cons, hp]
      omega

/-- From a boundary the loop cuts the rest of the text into encoded pieces. -/
theorem splitFrom_parts {room : Nat} {ds cs : Text} {chunks : List Bytes}
    (h : splitFrom (utf8Encode (ds ++ cs)) room (utf8Encode ds).length = .ok chunks) :
    ∃ parts : List Text, parts.flatten = cs ∧ chunks = parts.map utf8Encode ∧
      parts.length ≤ room := by
  induction room generalizing ds cs chunks with
  | zero =>
    unfold splitFrom at h
    split at h
    · dsimp only at h
      split at h <;> cases h
    case isFalse hlt =>
      cases h
      rw [utf8Encode_append, List.length_append] at hlt
      have hnil := utf8Encode_eq_nil (List.length_eq_zero_iff.mp (by omega : (utf8Encode cs).length = 0))
      exact ⟨[], hnil.symm, rfl, le_rfl⟩
  | succ room ih =>
    unfold splitFrom at h
    split at h
    case isFalse hlt =>
      cases h
      rw [utf8Encode_append, List.length_append] at hlt
      have hnil := utf8Encode_eq_nil (List.length_eq_zero_iff.mp (by omega : (utf8Encode cs).length = 0))
      exact ⟨[], hnil.symm, rfl, Nat.zero_le _⟩
    case isTrue hlt =>
      dsimp only at h
      split at h
      · cases h
      rename_i hne
      set bytes := utf8Encode (ds ++ cs) with hbytes
      set stop := walkBack bytes (utf8Encode ds).length
        (min ((utf8Encode ds).length + maxPlaintextPerChunk) bytes.length) with hstop
      have hmin : (utf8Encode ds).length ≤
          min ((utf8Encode ds).length + maxPlaintextPerChunk) bytes.length := by omega
      have hle : (utf8Encode ds).length ≤ stop := le_walkBack hmin
      have hge : stop ≤ bytes.length := (walkBack_le _ _ _).trans (min_le_right _ _)
      have hb := (@walkBack_boundary bytes _ _ hmin).resolve_left hne
      rw [← hstop] at hb
      obtain ⟨rest, hrest, rfl⟩ : ∃ rest, splitFrom bytes room stop = .ok rest ∧
          (bytes.drop (utf8Encode ds).length).take (stop - (utf8Encode ds).length) :: rest =
            chunks := by
        cases hr : splitFrom bytes room stop with
        | error e => rw [hr] at h; cases h
        | ok rest => rw [hr] at h; exact ⟨rest, rfl, Except.ok.inj h⟩
      have hlen : bytes = utf8Encode ds ++ utf8Encode cs := utf8Encode_append ds cs
      -- the boundary lies in `cs`
      obtain ⟨p, q, rfl, hp⟩ : ∃ p q, cs = p ++ q ∧
          (utf8Encode p).length = stop - (utf8Encode ds).length := by
        refine exists_split_of_boundary ?_ ?_
        · rw [hlen, List.length_append] at hge
          omega
        · rw [hlen, List.length_append, List.getD_append_right _ _ _ _ hle] at hb
          exact hb.imp (by omega) id
      have hstop' : stop = (utf8Encode (ds ++ p)).length := by
        rw [utf8Encode_append, List.length_append, hp]
        omega
      rw [hbytes, hstop', ← List.append_assoc] at hrest
      obtain ⟨parts, rfl, rfl, hparts⟩ := ih hrest
      refine ⟨p :: parts, rfl, ?_, Nat.succ_le_succ hparts⟩
      rw [List.map_cons, hlen, List.drop_left, utf8Encode_append, ← hp, List.take_left]

/-- The chunks of a message are its consecutive pieces, encoded. -/
theorem splitPlaintext_parts {plaintext : Text} {chunks : List Bytes}
    (h : splitPlaintext plaintext = .ok chunks) :
    ∃ parts : List Text, parts.flatten = plaintext ∧ chunks = parts.map utf8Encode ∧
      parts.length ≤ maxChunks := by
  unfold splitPlaintext at h
  split at h
  · cases h
  · exact @splitFrom_parts _ [] _ _ h

def msgidLen : Nat := 8

def nonceLen : Nat := 24

def proto : Text := ['R', 'P', 'E', '2', 'E', '0', '1']

def wirePrefix : Text := '+' :: proto

structure WireChunk where
  /-- Message id, shared across all chunks of one message. -/
  msgid : Bytes
  /-- Unix seconds. -/
  ts : Int
  part : Nat
  total : Nat
  nonce : Bytes
  ciphertext : Bytes
  deriving DecidableEq

/-- Serialize a chunk into a single line; nothing where the source throws. -/
def encodeChunk (w : WireChunk) : Option Text :=
  if w.msgid.length ≠ msgidLen then none
  else if w.nonce.length ≠ nonceLen then none
  else if w.total = 0 ∨ maxChunks < w.total then none
  else if w.part = 0 ∨ w.total < w.part then none
  else
    some (wirePrefix ++ ' ' :: (hex w.msgid ++ ' ' :: (decimalInt w.ts ++ ' ' ::
      (decimal w.part ++ '/' :: decimal w.total ++ ' ' ::
        (Base64.encode w.nonce ++ ':' :: Base64.encode w.ciphertext)))))

/-- What `parseChunk` makes of a line: no chunk at all, a malformed one, or a chunk. -/
inductive Parsed where
  | cleartext
  | malformed
  | chunk (w : WireChunk)
  deriving DecidableEq

def tryDecodeStdBase64 (s : Text) : Option Bytes :=
  if Base64.wellFormed s then some (Base64.decode s) else none

def parseMsgid (s : Text) : Option Bytes :=
  if s.length = msgidLen * 2 ∧ s.all isHex then some (unhex s) else none

def parsePartTotal (s : Text) : Option (Nat × Nat) := do
  let (p, t) ← splitFirst '/' s
  let part ← parseUintStrict p
  let total ← parseUintStrict t
  if total = 0 ∨ maxChunks < total ∨ part = 0 ∨ total < part then none else some (part, total)

def parseBody (s : Text) : Option (Bytes × Bytes) := do
  let (n, c) ← splitFirst ':' s
  let nonce ← tryDecodeStdBase64 n
  if nonce.length ≠ nonceLen then none
  else
    let ciphertext ← tryDecodeStdBase64 c
    some (nonce, ciphertext)

def parseFields : List Text → Option WireChunk
  | [msgidHex, tsStr, partTot, body] => do
    let msgid ← parseMsgid msgidHex
    let ts ← parseIntStrict tsStr
    let (part, total) ← parsePartTotal partTot
    let (nonce, ciphertext) ← parseBody body
    some { msgid, ts, part, total, nonce, ciphertext }
  | _ => none

/-- Parse an incoming line. -/
def parseChunk (line : Text) : Parsed :=
  if wirePrefix <+: line then
    match parseFields (fields (line.drop wirePrefix.length)) with
    | some w => .chunk w
    | none => .malformed
  else .cleartext

theorem tryDecodeStdBase64_encode (bs : Bytes) :
    tryDecodeStdBase64 (Base64.encode bs) = some bs := by
  rw [tryDecodeStdBase64, if_pos (Base64.wellFormed_encode bs), Base64.decode_encode]

theorem parseMsgid_hex {bs : Bytes} (h : bs.length = msgidLen) : parseMsgid (hex bs) = some bs := by
  rw [parseMsgid, if_pos ⟨by rw [length_hex, h], List.all_eq_true.mpr fun _ hc => isHex_hex hc⟩,
    unhex_hex]

theorem parsePartTotal_encode {part total : Nat} (ht : ¬ (total = 0 ∨ maxChunks < total))
    (hp : ¬ (part = 0 ∨ total < part)) :
    parsePartTotal (decimal part ++ '/' :: decimal total) = some (part, total) := by
  have hslash : '/' ∉ decimal part := fun h => absurd (isDigit_decimal h) (by decide)
  have hbig : maxChunks ≤ maxSafeInteger := by decide
  unfold parsePartTotal
  rw [splitFirst_append hslash]
  simp only [Option.bind_eq_bind, Option.bind_some]
  rw [parseUintStrict_decimal (by omega), parseUintStrict_decimal (by omega)]
  simp only [Option.bind_some]
  exact if_neg (by omega)

theorem colon_notMem_encode (bs : Bytes) : ':' ∉ Base64.encode bs := by
  intro h
  rcases Base64.mem_encode h with h | h
  · exact absurd h (by decide)
  · exact absurd h (by decide)

theorem parseBody_encode {nonce ciphertext : Bytes} (h : nonce.length = nonceLen) :
    parseBody (Base64.encode nonce ++ ':' :: Base64.encode ciphertext) =
      some (nonce, ciphertext) := by
  unfold parseBody
  rw [splitFirst_append (colon_notMem_encode nonce)]
  simp only [Option.bind_eq_bind, Option.bind_some, tryDecodeStdBase64_encode]
  exact if_neg (not_not_intro h)

private theorem isSpace_low : ∀ n : Fin 128, isSpace (Char.ofNat n) = true →
    n.val ≤ 32 := by
  decide

theorem isSpace_eq_false {c : Char} (h : 33 ≤ c.toNat) (h' : c.toNat ≤ 127) :
    isSpace c = false := by
  refine Bool.eq_false_iff.mpr fun hc => ?_
  have := isSpace_low ⟨c.toNat, by omega⟩ (by simpa using hc)
  simp only at this
  omega

theorem isSpace_of_isDigit {c : Char} (h : c.isDigit = true) : isSpace c = false := by
  simp only [Char.isDigit, Bool.and_eq_true, decide_eq_true_eq, UInt32.le_iff_toNat_le] at h
  exact isSpace_eq_false (Nat.le_trans (by decide) h.1) (Nat.le_trans h.2 (by decide))

private theorem isSpace_between {a b c : Char} (ha : 33 ≤ a.toNat) (hb : b.toNat ≤ 127)
    (h : a ≤ c) (h' : c ≤ b) : isSpace c = false := by
  simp only [Char.le_def, UInt32.le_iff_toNat_le] at h h'
  exact isSpace_eq_false (Nat.le_trans ha h) (Nat.le_trans h' hb)

theorem isSpace_of_isHex {c : Char} (h : isHex c = true) : isSpace c = false := by
  simp only [isHex, Bool.or_eq_true, Bool.and_eq_true, decide_eq_true_eq] at h
  obtain (h | ⟨h, h'⟩) | ⟨h, h'⟩ := h
  · exact isSpace_of_isDigit h
  · exact isSpace_between (by decide) (by decide) h h'
  · exact isSpace_between (by decide) (by decide) h h'

theorem isSpace_of_inAlphabet {c : Char} (h : Base64.inAlphabet c = true) : isSpace c = false := by
  simp only [Base64.inAlphabet, Char.isAlphanum] at h
  delta Char.isAlpha Char.isUpper Char.isLower at h
  simp only [Bool.or_eq_true, Bool.and_eq_true, decide_eq_true_eq, ge_iff_le] at h
  obtain (((⟨h, h'⟩ | ⟨h, h'⟩) | h) | rfl) | rfl := h
  · exact isSpace_between (a := 'A') (b := 'Z') (by decide) (by decide) h h'
  · exact isSpace_between (a := 'a') (b := 'z') (by decide) (by decide) h h'
  · exact isSpace_of_isDigit h
  · decide
  · decide

theorem isSpace_of_mem_encode {bs : Bytes} {c : Char} (h : c ∈ Base64.encode bs) :
    isSpace c = false := by
  rcases Base64.mem_encode h with h | rfl
  · exact isSpace_of_inAlphabet h
  · decide

theorem isSpace_of_mem_decimalInt {n : Int} {c : Char} (h : c ∈ decimalInt n) :
    isSpace c = false := by
  rcases mem_decimalInt h with rfl | h
  · decide
  · exact isSpace_of_isDigit h

/-- The four fields of an encoded line. -/
theorem fields_encode (w : WireChunk) (hmsgid : w.msgid.length = msgidLen) :
    fields (' ' :: (hex w.msgid ++ ' ' :: (decimalInt w.ts ++ ' ' ::
      (decimal w.part ++ '/' :: decimal w.total ++ ' ' ::
        (Base64.encode w.nonce ++ ':' :: Base64.encode w.ciphertext))))) =
      [hex w.msgid, decimalInt w.ts, decimal w.part ++ '/' :: decimal w.total,
        Base64.encode w.nonce ++ ':' :: Base64.encode w.ciphertext] := by
  have hblank (s : Text) : fields (' ' :: s) = fields s := by
    unfold fields
    rw [List.splitOnP_cons_eq_if_modifyHead, if_pos (by decide), List.filter_cons_of_neg (by simp)]
  have hhex : hex w.msgid ≠ [] := by
    intro h
    have hlen := length_hex w.msgid
    rw [h, hmsgid] at hlen
    cases hlen
  have hts : decimalInt w.ts ≠ [] := by
    cases w.ts with
    | ofNat n => exact decimal_ne_nil n
    | negSucc n => exact List.cons_ne_nil _ _
  rw [hblank, fields_cons (fun c hc => isSpace_of_isHex (isHex_hex hc)) hhex,
    fields_cons (fun c hc => isSpace_of_mem_decimalInt hc) hts, fields_cons ?_ (by simp),
    fields_word ?_ (by simp)]
  · intro c hc
    rcases List.mem_append.mp hc with hc | hc
    · exact isSpace_of_mem_encode hc
    · rcases List.mem_cons.mp hc with rfl | hc
      · decide
      · exact isSpace_of_mem_encode hc
  · intro c hc
    rcases List.mem_append.mp hc with hc | hc
    · exact isSpace_of_isDigit (isDigit_decimal hc)
    · rcases List.mem_cons.mp hc with rfl | hc
      · decide
      · exact isSpace_of_isDigit (isDigit_decimal hc)

/-- What a chunk is encoded to parses back to it. -/
theorem parseChunk_encodeChunk {w : WireChunk} {line : Text} (h : encodeChunk w = some line)
    (hts : w.ts.natAbs ≤ maxSafeInteger) : parseChunk line = .chunk w := by
  unfold encodeChunk at h
  split at h; · cases h
  split at h; · cases h
  split at h; · cases h
  split at h; · cases h
  rename_i hmsgid hnonce htotal hpart
  cases h
  rw [parseChunk, if_pos (List.prefix_append _ _), List.drop_left,
    fields_encode w (not_not.mp hmsgid)]
  simp only [parseFields, Option.bind_eq_bind]
  rw [parseMsgid_hex (not_not.mp hmsgid), Option.bind_some, parseIntStrict_decimalInt hts,
    Option.bind_some, parsePartTotal_encode htotal hpart, Option.bind_some,
    parseBody_encode (not_not.mp hnonce), Option.bind_some]

def be16 (n : Nat) : Bytes := bigEndian 2 n

/-- A signed integer in eight bytes, two's complement. -/
def be64 (n : Int) : Bytes := bigEndian 8 (n % 18446744073709551616).toNat

/-- The associated data of one chunk; nothing where the source throws. -/
def buildAad (channel : Text) (msgid : Bytes) (ts : Int) (part total : Nat) : Option Bytes :=
  if msgid.length ≠ msgidLen then none
  else if maxSafeInteger < ts.natAbs then none
  else if 255 < part ∨ 255 < total then none
  else
    let chan := utf8Encode channel
    some (utf8Encode proto ++ be16 (min chan.length 65535) ++ chan ++ be16 8 ++ msgid ++
      be16 8 ++ be64 ts ++ be16 1 ++ [UInt8.ofNat part] ++ be16 1 ++ [UInt8.ofNat total])

theorem be64_injective {n m : Int} (hn : -(2 : Int) ^ 63 ≤ n ∧ n ≤ (2 : Int) ^ 63 - 1)
    (hm : -(2 : Int) ^ 63 ≤ m ∧ m ≤ (2 : Int) ^ 63 - 1) (h : be64 n = be64 m) : n = m := by
  have hmod := bigEndian_injective (by omega) (by omega) h
  omega

/-- Associated data in bytes tells all its fields. -/
theorem aad_injective {channel channel' : Text} {msgid msgid' : Bytes} {n n' : Int}
    {p p' t t' : UInt8} (hmsgid : msgid.length = msgidLen) (hmsgid' : msgid'.length = msgidLen)
    (hn : -(2 : Int) ^ 63 ≤ n ∧ n ≤ (2 : Int) ^ 63 - 1)
    (hn' : -(2 : Int) ^ 63 ≤ n' ∧ n' ≤ (2 : Int) ^ 63 - 1)
    (heq : utf8Encode proto ++ be16 (min (utf8Encode channel).length 65535) ++ utf8Encode channel ++
        be16 8 ++ msgid ++ be16 8 ++ be64 n ++ be16 1 ++ [p] ++ be16 1 ++ [t] =
      utf8Encode proto ++ be16 (min (utf8Encode channel').length 65535) ++ utf8Encode channel' ++
        be16 8 ++ msgid' ++ be16 8 ++ be64 n' ++ be16 1 ++ [p'] ++ be16 1 ++ [t']) :
    channel = channel' ∧ msgid = msgid' ∧ n = n' ∧ p = p' ∧ t = t' := by
  -- the fields after the channel have fixed lengths, so the channels are of one length
  have hlen := congrArg List.length heq
  simp only [List.length_append, be16, be64, length_bigEndian, hmsgid, hmsgid',
    List.length_singleton] at hlen
  obtain ⟨heq, htotal⟩ := List.append_inj' heq rfl
  obtain ⟨heq, -⟩ := List.append_inj' heq rfl
  obtain ⟨heq, hpart⟩ := List.append_inj' heq rfl
  obtain ⟨heq, -⟩ := List.append_inj' heq rfl
  obtain ⟨heq, hts⟩ := List.append_inj' heq (by simp [be64])
  obtain ⟨heq, -⟩ := List.append_inj' heq rfl
  obtain ⟨heq, hid⟩ := List.append_inj' heq (by rw [hmsgid, hmsgid'])
  obtain ⟨heq, -⟩ := List.append_inj' heq rfl
  obtain ⟨-, hchannel⟩ := List.append_inj' heq (by omega)
  exact ⟨utf8Encode_injective hchannel, hid, be64_injective hn hn' hts, (List.cons.inj hpart).1,
    (List.cons.inj htotal).1⟩

theorem buildAad_eq_some {channel : Text} {msgid : Bytes} {ts : Int} {part total : Nat}
    {aad : Bytes} (h : buildAad channel msgid ts part total = some aad) :
    msgid.length = msgidLen ∧ ts.natAbs ≤ maxSafeInteger ∧ part ≤ 255 ∧ total ≤ 255 ∧
      utf8Encode proto ++ be16 (min (utf8Encode channel).length 65535) ++ utf8Encode channel ++
        be16 8 ++ msgid ++ be16 8 ++ be64 ts ++ be16 1 ++ [UInt8.ofNat part] ++ be16 1 ++
          [UInt8.ofNat total] = aad := by
  unfold buildAad at h
  split at h; · cases h
  split at h; · cases h
  split at h; · cases h
  rename_i hmsgid hts hpart
  refine ⟨not_not.mp hmsgid, by omega, by omega, by omega, Option.some.inj h⟩

/-- No two chunks have the same associated data. -/
theorem buildAad_injective {channel channel' : Text} {msgid msgid' : Bytes} {ts ts' : Int}
    {part part' total total' : Nat} {aad : Bytes}
    (h : buildAad channel msgid ts part total = some aad)
    (h' : buildAad channel' msgid' ts' part' total' = some aad) :
    channel = channel' ∧ msgid = msgid' ∧ ts = ts' ∧ part = part' ∧ total = total' := by
  obtain ⟨hmsgid, hts, hpart, htotal, rfl⟩ := buildAad_eq_some h
  obtain ⟨hmsgid', hts', hpart', htotal', heq⟩ := buildAad_eq_some h'
  unfold maxSafeInteger at hts hts'
  obtain ⟨hchannel, hid, hn, hp, ht⟩ := aad_injective hmsgid' hmsgid (by omega) (by omega) heq
  have hp := congrArg UInt8.toNat hp
  have ht := congrArg UInt8.toNat ht
  simp only [UInt8.toNat_ofNat', Nat.reducePow] at hp ht
  exact ⟨hchannel.symm, hid.symm, hn.symm, by omega, by omega⟩

end Lurker.E2e
