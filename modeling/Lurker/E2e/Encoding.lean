import Lurker.Lib.Base64
import Lurker.Lib.Delimited
import Mathlib.Algebra.Group.Int.Defs
import Mathlib.Algebra.GroupWithZero.Nat
import Mathlib.Data.List.Flatten
import Mathlib.Data.List.TakeWhile

/-!
# Text and bytes

UTF-8 as `TextEncoder` and `TextDecoder` treat it, the number formats of the
wire (hexadecimal and base64 bytes, decimal integers) and the splitting of a line into
fields. Text is a list of characters, so it is well-formed Unicode by its type.
-/

namespace Lurker.E2e

inductive E2eErrorKind where
  | wire
  | handshake
  | crypto
  | chunkLimit
  | keyring
  deriving DecidableEq

structure E2eError where
  kind : E2eErrorKind
  message : String
  deriving DecidableEq

def wireError (msg : String) : E2eError := ⟨.wire, msg⟩

def handshakeError (msg : String) : E2eError := ⟨.handshake, msg⟩

abbrev Bytes := List UInt8

abbrev Text := List Char

def utf8Encode (cs : Text) : Bytes := cs.flatMap String.utf8EncodeChar

/-- True if `b` is a UTF-8 continuation byte (0b10xxxxxx). -/
def isContinuation (b : UInt8) : Bool := b &&& 0xc0 = 0x80

/-- The byte order mark, U+FEFF. -/
def bom : Bytes := [0xef, 0xbb, 0xbf]

/-- `new TextDecoder('utf-8', { fatal: true })`: a leading byte order mark is
dropped, and what is not UTF-8 is refused. -/
def decoder (bs : Bytes) : Option Text :=
  let bs := if bom <+: bs then bs.drop bom.length else bs
  bs.toByteArray.utf8Decode?.map Array.toList

theorem utf8Encode_append (cs ds : Text) :
    utf8Encode (cs ++ ds) = utf8Encode cs ++ utf8Encode ds :=
  List.flatMap_append

theorem utf8Encode_cons (c : Char) (cs : Text) :
    utf8Encode (c :: cs) = String.utf8EncodeChar c ++ utf8Encode cs :=
  List.flatMap_cons

theorem utf8Encode_bom : utf8Encode [Char.ofNat 0xfeff] = bom := by decide

theorem utf8Decode_utf8Encode (cs : Text) :
    (utf8Encode cs).toByteArray.utf8Decode?.map Array.toList = some cs := by
  change cs.utf8Encode.utf8Decode?.map Array.toList = some cs
  rw [List.utf8Decode?_utf8Encode]
  rfl

private theorem isContinuation_first : ∀ n : Fin 256, (UInt8.ofNat n).IsUTF8FirstByte →
    isContinuation (UInt8.ofNat n) = false := by
  decide +kernel

private theorem isContinuation_last : ∀ n : Fin 256,
    isContinuation (UInt8.ofNat n &&& 0x3f ||| 0x80) = true := by
  decide +kernel

theorem isContinuation_mask (x : UInt8) : isContinuation (x &&& 0x3f ||| 0x80) = true := by
  simpa using isContinuation_last ⟨x.toNat, x.toNat_lt⟩

/-- A character is one byte that starts it and continuation bytes. -/
theorem utf8EncodeChar_shape (c : Char) : ∃ b bs, String.utf8EncodeChar c = b :: bs ∧
    isContinuation b = false ∧ bs.length ≤ 3 ∧ ∀ x ∈ bs, isContinuation x = true := by
  have hfirst (b : UInt8) (bs : Bytes) (h : String.utf8EncodeChar c = b :: bs) :
      isContinuation b = false := by
    have hb := UInt8.isUTF8FirstByte_getElem_zero_utf8EncodeChar (c := c)
    simp only [h, List.getElem_cons_zero] at hb
    simpa using isContinuation_first ⟨b.toNat, b.toNat_lt⟩ (by simpa using hb)
  have hsize := c.utf8Size_pos
  have hsize' := c.utf8Size_le_four
  obtain h | h | h | h : c.utf8Size = 1 ∨ c.utf8Size = 2 ∨ c.utf8Size = 3 ∨ c.utf8Size = 4 := by
    omega
  · have heq := String.utf8EncodeChar_eq_singleton h
    exact ⟨_, _, heq, hfirst _ _ heq, by simp, by simp⟩
  · have heq := String.utf8EncodeChar_eq_cons_cons h
    exact ⟨_, _, heq, hfirst _ _ heq, by simp, by simp [isContinuation_mask]⟩
  · have heq := String.utf8EncodeChar_eq_cons_cons_cons h
    exact ⟨_, _, heq, hfirst _ _ heq, by simp, by simp [isContinuation_mask]⟩
  · have heq := String.utf8EncodeChar_eq_cons_cons_cons_cons h
    exact ⟨_, _, heq, hfirst _ _ heq, by simp, by simp [isContinuation_mask]⟩

theorem utf8Encode_eq_nil {cs : Text} (h : utf8Encode cs = []) : cs = [] := by
  cases cs with
  | nil => rfl
  | cons c cs =>
    obtain ⟨b, bs, heq, -, -, -⟩ := utf8EncodeChar_shape c
    rw [utf8Encode_cons, heq] at h
    cases h

theorem utf8Encode_injective {cs ds : Text} (h : utf8Encode cs = utf8Encode ds) : cs = ds := by
  have hc := utf8Decode_utf8Encode cs
  rw [h, utf8Decode_utf8Encode] at hc
  exact (Option.some.inj hc).symm

/-- What the decoder gives back of encoded text: all of it, or all but the
byte order mark it starts with. -/
theorem decoder_utf8Encode (cs : Text) :
    decoder (utf8Encode cs) = some (if bom <+: utf8Encode cs then cs.tail else cs) := by
  unfold decoder
  split
  case isFalse h => exact utf8Decode_utf8Encode cs
  case isTrue h =>
    cases cs with
    | nil => exact absurd h (by decide)
    | cons c cs =>
      -- the first character is the one whose bytes are the mark
      have hc : String.utf8EncodeChar c = bom := by
        obtain ⟨rest, hrest⟩ := h
        have hx : utf8Encode (c :: cs) = utf8Encode [Char.ofNat 0xfeff] ++ rest := by
          rw [utf8Encode_bom, hrest]
        have h1 := List.utf8DecodeChar?_utf8Encode_cons (l := cs) (c := c)
        have h2 : (c :: cs).utf8Encode.utf8DecodeChar? 0 = some (Char.ofNat 0xfeff) := by
          change (utf8Encode (c :: cs)).toByteArray.utf8DecodeChar? 0 = _
          rw [hx, List.toByteArray_append]
          exact List.utf8DecodeChar?_utf8Encode_singleton_append
        rw [h1] at h2
        rw [Option.some.inj h2]
        decide
      rw [utf8Encode_cons, hc, List.drop_left]
      exact utf8Decode_utf8Encode cs

/-- The largest integer a number holds exactly, with every smaller one. -/
def maxSafeInteger : Nat := 9007199254740991

def decimal (n : Nat) : Text := Nat.toDigits 10 n

/-- Parse a canonical unsigned decimal integer. -/
def parseUintStrict (s : Text) : Option Nat :=
  if s ≠ [] ∧ s.all Char.isDigit then
    let n := Nat.ofDigitChars 10 s 0
    if n ≤ maxSafeInteger then some n else none
  else none

/-- A decimal integer with an optional minus sign. -/
def parseIntStrict : Text → Option Int
  | '-' :: s => (parseUintStrict s).map fun n : Nat => -(n : Int)
  | s => (parseUintStrict s).map Int.ofNat

/-- An integer as a template string writes it. -/
def decimalInt : Int → Text
  | .ofNat n => decimal n
  | .negSucc n => '-' :: decimal (n + 1)

theorem isDigit_decimal {n : Nat} {c : Char} (h : c ∈ decimal n) : c.isDigit = true :=
  Nat.isDigit_of_mem_toDigits (by decide) (by decide) h

theorem parseUintStrict_decimal {n : Nat} (h : n ≤ maxSafeInteger) :
    parseUintStrict (decimal n) = some n := by
  unfold parseUintStrict
  rw [if_pos ⟨Nat.toDigits_ne_nil, List.all_eq_true.mpr fun _ hc => isDigit_decimal hc⟩]
  simp only [decimal, Nat.ofDigitChars_ten_toDigits, if_pos h]

theorem decimal_ne_nil (n : Nat) : decimal n ≠ [] := Nat.toDigits_ne_nil

theorem parseIntStrict_decimal {n : Nat} (h : n ≤ maxSafeInteger) :
    parseIntStrict (decimal n) = some (n : Int) := by
  unfold parseIntStrict
  split
  case h_1 s heq =>
    have hc := isDigit_decimal (n := n) (c := '-') (by rw [heq]; exact List.mem_cons_self)
    exact absurd hc (by decide)
  case h_2 s _ =>
    rw [parseUintStrict_decimal h]
    rfl

theorem parseIntStrict_decimalInt {n : Int} (h : n.natAbs ≤ maxSafeInteger) :
    parseIntStrict (decimalInt n) = some n := by
  cases n with
  | ofNat n => exact parseIntStrict_decimal h
  | negSucc n =>
    simp only [decimalInt, parseIntStrict]
    rw [parseUintStrict_decimal (n := n + 1) h]
    rfl

theorem mem_decimalInt {n : Int} {c : Char} (h : c ∈ decimalInt n) : c = '-' ∨ c.isDigit = true := by
  cases n with
  | ofNat n => exact .inr (isDigit_decimal h)
  | negSucc n => exact (List.mem_cons.mp h).imp id isDigit_decimal

/-- An unsigned integer in `k` bytes, the high byte first. -/
def bigEndian : Nat → Nat → Bytes
  | 0, _ => []
  | k + 1, n => bigEndian k (n / 256) ++ [UInt8.ofNat n]

@[simp] theorem length_bigEndian (k n : Nat) : (bigEndian k n).length = k := by
  induction k generalizing n with
  | zero => rfl
  | succ k ih => simp [bigEndian, ih]

theorem bigEndian_injective {k n m : Nat} (hn : n < 256 ^ k) (hm : m < 256 ^ k)
    (h : bigEndian k n = bigEndian k m) : n = m := by
  induction k generalizing n m with
  | zero => simp only [Nat.pow_zero] at hn hm; omega
  | succ k ih =>
    obtain ⟨hhigh, hlow⟩ := List.append_inj' h rfl
    have hdiv := ih (by rw [Nat.pow_succ] at hn; omega) (by rw [Nat.pow_succ] at hm; omega) hhigh
    have hmod := congrArg UInt8.toNat (List.cons.inj hlow).1
    simp only [UInt8.toNat_ofNat', Nat.reducePow] at hmod
    omega

def hexDigit (n : Nat) : Char := if n < 10 then Char.ofNat (48 + n) else Char.ofNat (87 + n)

def isHex (c : Char) : Bool :=
  c.isDigit || ('a' ≤ c && c ≤ 'f') || ('A' ≤ c && c ≤ 'F')

def hexValue (c : Char) : Nat :=
  if c.isDigit then c.toNat - 48 else if 'a' ≤ c then c.toNat - 87 else c.toNat - 55

/-- `Buffer.from(bs).toString('hex')` -/
def hex (bs : Bytes) : Text :=
  bs.flatMap fun b => [hexDigit (b.toNat / 16), hexDigit (b.toNat % 16)]

/-- `Buffer.from(s, 'hex')` on hexadecimal characters. -/
def unhex : Text → Bytes
  | c :: d :: rest => UInt8.ofNat (hexValue c * 16 + hexValue d) :: unhex rest
  | _ => []

theorem hexValue_hexDigit (n : Nat) (h : n < 16) :
    hexValue (hexDigit n) = n ∧ isHex (hexDigit n) = true := by
  have hall : ∀ m : Fin 16, hexValue (hexDigit m) = m ∧ isHex (hexDigit m) = true := by decide
  exact hall ⟨n, h⟩

theorem unhex_hex (bs : Bytes) : unhex (hex bs) = bs := by
  induction bs with
  | nil => rfl
  | cons b bs ih =>
    have hb := b.toNat_lt
    change UInt8.ofNat (hexValue (hexDigit (b.toNat / 16)) * 16 +
      hexValue (hexDigit (b.toNat % 16))) :: unhex (hex bs) = b :: bs
    rw [(hexValue_hexDigit _ (by omega)).1, (hexValue_hexDigit _ (by omega)).1, ih,
      show b.toNat / 16 * 16 + b.toNat % 16 = b.toNat by omega, UInt8.ofNat_toNat]

theorem length_hex (bs : Bytes) : (hex bs).length = bs.length * 2 := by
  induction bs with
  | nil => rfl
  | cons b bs ih =>
    change (hex bs).length + 1 + 1 = _
    rw [ih, List.length_cons]
    omega

theorem isHex_hex {bs : Bytes} {c : Char} (h : c ∈ hex bs) : isHex c = true := by
  obtain ⟨b, -, hc⟩ := List.mem_flatMap.mp h
  have hb := b.toNat_lt
  simp only [List.mem_cons, List.not_mem_nil, or_false] at hc
  rcases hc with rfl | rfl
  all_goals exact (hexValue_hexDigit _ (by omega)).2

/-- Strict url-safe-no-pad base64 decode. -/
def tryDecodeUrlBase64 (s : Text) : Option Bytes :=
  if Base64.urlWellFormed s then some (Base64.urlDecode s) else none

theorem tryDecodeUrlBase64_urlEncode (bs : Bytes) :
    tryDecodeUrlBase64 (Base64.urlEncode bs) = some bs := by
  rw [tryDecodeUrlBase64, if_pos (Base64.urlWellFormed_urlEncode bs), Base64.urlDecode_urlEncode]

/-- White space to a regular expression: the space separators, the line ends,
the tabs and the byte order mark. -/
def isSpace (c : Char) : Bool :=
  let n := c.toNat
  (9 ≤ n && n ≤ 13) || n = 0x20 || n = 0xa0 || n = 0x1680 || (0x2000 ≤ n && n ≤ 0x200a) ||
    n = 0x2028 || n = 0x2029 || n = 0x202f || n = 0x205f || n = 0x3000 || n = 0xfeff

/-- `split(/\s+/)` without the empty pieces. -/
def fields (s : Text) : List Text := (s.splitOnP isSpace).filter (· ≠ [])

/-- What stands before and after the first `c`. -/
def splitFirst (c : Char) (s : Text) : Option (Text × Text) :=
  if c ∈ s then some (s.takeWhile (· ≠ c), (s.dropWhile (· ≠ c)).tail) else none

theorem fields_cons {w s : Text} (hw : ∀ c ∈ w, isSpace c = false) (hne : w ≠ []) :
    fields (w ++ ' ' :: s) = w :: fields s := by
  unfold fields
  rw [List.splitOnP_append_cons_of_forall_mem (fun c hc => hw c hc) ' ' (by decide),
    List.filter_cons_of_pos (by simpa using hne)]

theorem fields_word {w : Text} (hw : ∀ c ∈ w, isSpace c = false) (hne : w ≠ []) :
    fields w = [w] := by
  unfold fields
  rw [List.splitOnP_eq_singleton hw]
  exact List.filter_cons_of_pos (by simpa using hne)

theorem of_mem_fields {s w : Text} (h : w ∈ fields s) : w ≠ [] ∧ ∀ c ∈ w, isSpace c = false := by
  obtain ⟨hmem, hne⟩ := List.mem_filter.mp h
  exact ⟨of_decide_eq_true hne, (Delimited.of_mem_splitOnP hmem).1⟩

theorem splitFirst_append {c : Char} {s t : Text} (h : c ∉ s) :
    splitFirst c (s ++ c :: t) = some (s, t) := by
  have hs : ∀ d ∈ s, decide (d ≠ c) = true := fun d hd => by
    simpa using fun hdc : d = c => h (hdc ▸ hd)
  unfold splitFirst
  rw [if_pos (by simp), List.takeWhile_append_of_pos hs, List.dropWhile_append_of_pos hs]
  simp

end Lurker.E2e
