import Mathlib.Data.List.Infix
import Mathlib.Tactic.FinCases

/-!
# Base64

Three bytes are four digits of the alphabet. Decoding undoes encoding, and what
encoding writes has the shape a strict reader asks for: with padding, a length divisible by
four, alphabet characters, and at most two padding signs at the end; in the URL-safe
alphabet, which has no padding, a length that is not one more than a multiple of four.
-/

namespace Base64

/-- The character of a digit below 64. -/
def char (n : Nat) : Char :=
  if n < 26 then Char.ofNat (65 + n)
  else if n < 52 then Char.ofNat (71 + n)
  else if n < 62 then Char.ofNat (n - 4)
  else if n = 62 then '+'
  else '/'

/-- The digit of a character of the alphabet. -/
def digit (c : Char) : Nat :=
  let n := c.toNat
  if 65 ≤ n ∧ n ≤ 90 then n - 65
  else if 97 ≤ n ∧ n ≤ 122 then n - 71
  else if 48 ≤ n ∧ n ≤ 57 then n + 4
  else if n = 43 then 62
  else 63

def inAlphabet (c : Char) : Bool := c.isAlphanum || c = '+' || c = '/'

/-- The digits of one group of bytes. -/
def group (a b c : Nat) : List Char :=
  [char (a / 4), char (a % 4 * 16 + b / 16), char (b % 16 * 4 + c / 64), char (c % 64)]

def encode : List UInt8 → List Char
  | [] => []
  | [a] => [char (a.toNat / 4), char (a.toNat % 4 * 16), '=', '=']
  | [a, b] =>
    [char (a.toNat / 4), char (a.toNat % 4 * 16 + b.toNat / 16), char (b.toNat % 16 * 4), '=']
  | a :: b :: c :: rest => group a.toNat b.toNat c.toNat ++ encode rest

def byte (n : Nat) : UInt8 := UInt8.ofNat n

/-- The bytes of one group of digits. -/
def bytes (w x y z : Char) : List UInt8 :=
  let a := byte (digit w * 4 + digit x / 16)
  if y = '=' then [a]
  else
    let b := byte (digit x % 16 * 16 + digit y / 4)
    if z = '=' then [a, b] else [a, b, byte (digit y % 4 * 64 + digit z)]

def decode : List Char → List UInt8
  | w :: x :: y :: z :: rest => bytes w x y z ++ decode rest
  | _ => []

/-- What a strict reader asks for. -/
def wellFormed (s : List Char) : Bool :=
  s.length % 4 = 0 && (s.dropWhile inAlphabet).length ≤ 2 &&
    (s.dropWhile inAlphabet).all (fun c => c = '=')

theorem digit_char (n : Nat) (h : n < 64) : digit (char n) = n := by
  have hall : ∀ m : Fin 64, digit (char m) = m := by decide
  exact hall ⟨n, h⟩

theorem inAlphabet_char (n : Nat) (h : n < 64) : inAlphabet (char n) = true ∧ char n ≠ '=' := by
  have hall : ∀ m : Fin 64, inAlphabet (char m) = true ∧ char m ≠ '=' := by decide
  exact hall ⟨n, h⟩

theorem byte_toNat (a : UInt8) : byte a.toNat = a := UInt8.ofNat_toNat

/-- Decoding undoes encoding. -/
theorem decode_encode (bs : List UInt8) : decode (encode bs) = bs := by
  induction bs using encode.induct with
  | case1 => rfl
  | case2 a =>
    have ha := a.toNat_lt
    simp only [encode, decode, bytes, List.append_nil, ↓reduceIte]
    rw [digit_char _ (by omega), digit_char _ (by omega)]
    rw [show a.toNat / 4 * 4 + a.toNat % 4 * 16 / 16 = a.toNat by omega, byte_toNat]
  | case3 a b =>
    have ha := a.toNat_lt
    have hb := b.toNat_lt
    simp only [encode, decode, bytes, List.append_nil, ↓reduceIte]
    rw [if_neg (inAlphabet_char _ (by omega)).2, digit_char _ (by omega), digit_char _ (by omega),
      digit_char _ (by omega)]
    rw [show a.toNat / 4 * 4 + (a.toNat % 4 * 16 + b.toNat / 16) / 16 = a.toNat by omega,
      show (a.toNat % 4 * 16 + b.toNat / 16) % 16 * 16 + b.toNat % 16 * 4 / 4 = b.toNat by omega,
      byte_toNat, byte_toNat]
  | case4 a b c rest ih =>
    have ha := a.toNat_lt
    have hb := b.toNat_lt
    have hc := c.toNat_lt
    simp only [encode, group, List.cons_append, List.nil_append, decode, bytes, ih]
    rw [if_neg (inAlphabet_char _ (by omega)).2, if_neg (inAlphabet_char _ (by omega)).2,
      digit_char _ (by omega), digit_char _ (by omega), digit_char _ (by omega),
      digit_char _ (by omega)]
    rw [show a.toNat / 4 * 4 + (a.toNat % 4 * 16 + b.toNat / 16) / 16 = a.toNat by omega,
      show (a.toNat % 4 * 16 + b.toNat / 16) % 16 * 16 + (b.toNat % 16 * 4 + c.toNat / 64) / 4 =
        b.toNat by omega,
      show (b.toNat % 16 * 4 + c.toNat / 64) % 4 * 64 + c.toNat % 64 = c.toNat by omega,
      byte_toNat, byte_toNat, byte_toNat]
    rfl

/-- Alphabet characters, then at most two padding signs. -/
theorem encode_shape (bs : List UInt8) :
    ∃ digits pad, encode bs = digits ++ pad ∧ (∀ c ∈ digits, inAlphabet c = true) ∧
      pad.length ≤ 2 ∧ (∀ c ∈ pad, c = '=') ∧ (encode bs).length % 4 = 0 := by
  induction bs using encode.induct with
  | case1 => exact ⟨[], [], rfl, by simp, by simp, by simp, rfl⟩
  | case2 a =>
    have ha := a.toNat_lt
    refine ⟨[char (a.toNat / 4), char (a.toNat % 4 * 16)], ['=', '='], rfl, ?_, le_rfl, by simp,
      by simp [encode]⟩
    intro c hc
    simp only [List.mem_cons, List.not_mem_nil, or_false] at hc
    rcases hc with rfl | rfl
    all_goals exact (inAlphabet_char _ (by omega)).1
  | case3 a b =>
    have ha := a.toNat_lt
    have hb := b.toNat_lt
    refine ⟨[char (a.toNat / 4), char (a.toNat % 4 * 16 + b.toNat / 16), char (b.toNat % 16 * 4)],
      ['='], rfl, ?_, by simp, by simp, by simp [encode]⟩
    intro c hc
    simp only [List.mem_cons, List.not_mem_nil, or_false] at hc
    rcases hc with rfl | rfl | rfl
    all_goals exact (inAlphabet_char _ (by omega)).1
  | case4 a b c rest ih =>
    have ha := a.toNat_lt
    have hb := b.toNat_lt
    have hc := c.toNat_lt
    obtain ⟨digits, pad, heq, hdigits, hpad, hsign, hlen⟩ := ih
    refine ⟨group a.toNat b.toNat c.toNat ++ digits, pad, ?_, ?_, hpad, hsign, ?_⟩
    · rw [encode, heq, List.append_assoc]
    · intro x hx
      rcases List.mem_append.mp hx with hx | hx
      · simp only [group, List.mem_cons, List.not_mem_nil, or_false] at hx
        rcases hx with rfl | rfl | rfl | rfl
        all_goals exact (inAlphabet_char _ (by omega)).1
      · exact hdigits x hx
    · simp only [encode, group, List.length_append, List.length_cons, List.length_nil]
      omega

theorem wellFormed_encode (bs : List UInt8) : wellFormed (encode bs) = true := by
  obtain ⟨digits, pad, heq, hdigits, hpad, hsign, hlen⟩ := encode_shape bs
  have hdrop : (encode bs).dropWhile inAlphabet = pad.dropWhile inAlphabet := by
    rw [heq, List.dropWhile_append_of_pos hdigits]
  have hsuffix := List.dropWhile_suffix (l := pad) inAlphabet
  simp only [wellFormed, Bool.and_eq_true, decide_eq_true_eq, List.all_eq_true]
  rw [hdrop]
  exact ⟨⟨hlen, hsuffix.length_le.trans hpad⟩, fun c hc => hsign c (hsuffix.subset hc)⟩

/-- What encoding writes has no character outside the alphabet and the padding sign. -/
theorem mem_encode {bs : List UInt8} {c : Char} (h : c ∈ encode bs) :
    inAlphabet c = true ∨ c = '=' := by
  obtain ⟨digits, pad, heq, hdigits, -, hsign, -⟩ := encode_shape bs
  rw [heq] at h
  exact (List.mem_append.mp h).imp (hdigits c) (hsign c)

/-- The character of a digit below 64. -/
def urlChar (n : Nat) : Char := if n = 62 then '-' else if n = 63 then '_' else char n

/-- The digit of a character of the alphabet. -/
def urlDigit (c : Char) : Nat := if c = '-' then 62 else if c = '_' then 63 else digit c

def inUrlAlphabet (c : Char) : Bool := c.isAlphanum || c = '-' || c = '_'

def urlEncode : List UInt8 → List Char
  | [] => []
  | [a] => [urlChar (a.toNat / 4), urlChar (a.toNat % 4 * 16)]
  | [a, b] =>
    [urlChar (a.toNat / 4), urlChar (a.toNat % 4 * 16 + b.toNat / 16), urlChar (b.toNat % 16 * 4)]
  | a :: b :: c :: rest =>
    urlChar (a.toNat / 4) :: urlChar (a.toNat % 4 * 16 + b.toNat / 16) ::
      urlChar (b.toNat % 16 * 4 + c.toNat / 64) :: urlChar (c.toNat % 64) :: urlEncode rest

def urlDecode : List Char → List UInt8
  | w :: x :: y :: z :: rest =>
    byte (urlDigit w * 4 + urlDigit x / 16) :: byte (urlDigit x % 16 * 16 + urlDigit y / 4) ::
      byte (urlDigit y % 4 * 64 + urlDigit z) :: urlDecode rest
  | [w, x, y] =>
    [byte (urlDigit w * 4 + urlDigit x / 16), byte (urlDigit x % 16 * 16 + urlDigit y / 4)]
  | [w, x] => [byte (urlDigit w * 4 + urlDigit x / 16)]
  | _ => []

/-- What a strict reader asks for. -/
def urlWellFormed (s : List Char) : Bool := s.length % 4 ≠ 1 && s.all inUrlAlphabet

theorem urlDigit_urlChar {n : Nat} (h : n < 64) : urlDigit (urlChar n) = n := by
  have hall : ∀ m : Fin 64, urlDigit (urlChar m) = m := by decide
  exact hall ⟨n, h⟩

theorem inUrlAlphabet_urlChar {n : Nat} (h : n < 64) : inUrlAlphabet (urlChar n) = true := by
  have hall : ∀ m : Fin 64, inUrlAlphabet (urlChar m) = true := by decide
  exact hall ⟨n, h⟩

/-- Decoding undoes encoding. -/
theorem urlDecode_urlEncode (bs : List UInt8) : urlDecode (urlEncode bs) = bs := by
  induction bs using urlEncode.induct with
  | case1 => rfl
  | case2 a =>
    have ha := a.toNat_lt
    simp only [urlEncode, urlDecode]
    rw [urlDigit_urlChar (by omega), urlDigit_urlChar (by omega),
      show a.toNat / 4 * 4 + a.toNat % 4 * 16 / 16 = a.toNat by omega, byte_toNat]
  | case3 a b =>
    have ha := a.toNat_lt
    have hb := b.toNat_lt
    simp only [urlEncode, urlDecode]
    rw [urlDigit_urlChar (by omega), urlDigit_urlChar (by omega), urlDigit_urlChar (by omega),
      show a.toNat / 4 * 4 + (a.toNat % 4 * 16 + b.toNat / 16) / 16 = a.toNat by omega,
      show (a.toNat % 4 * 16 + b.toNat / 16) % 16 * 16 + b.toNat % 16 * 4 / 4 = b.toNat by omega,
      byte_toNat, byte_toNat]
  | case4 a b c rest ih =>
    have ha := a.toNat_lt
    have hb := b.toNat_lt
    have hc := c.toNat_lt
    simp only [urlEncode, urlDecode, ih]
    rw [urlDigit_urlChar (by omega), urlDigit_urlChar (by omega), urlDigit_urlChar (by omega),
      urlDigit_urlChar (by omega),
      show a.toNat / 4 * 4 + (a.toNat % 4 * 16 + b.toNat / 16) / 16 = a.toNat by omega,
      show (a.toNat % 4 * 16 + b.toNat / 16) % 16 * 16 + (b.toNat % 16 * 4 + c.toNat / 64) / 4 =
        b.toNat by omega,
      show (b.toNat % 16 * 4 + c.toNat / 64) % 4 * 64 + c.toNat % 64 = c.toNat by omega,
      byte_toNat, byte_toNat, byte_toNat]

theorem mem_urlEncode {bs : List UInt8} {c : Char} (h : c ∈ urlEncode bs) :
    inUrlAlphabet c = true := by
  induction bs using urlEncode.induct with
  | case1 => cases h
  | case2 a =>
    have ha := a.toNat_lt
    simp only [urlEncode, List.mem_cons, List.not_mem_nil, or_false] at h
    rcases h with rfl | rfl
    all_goals exact inUrlAlphabet_urlChar (by omega)
  | case3 a b =>
    have ha := a.toNat_lt
    have hb := b.toNat_lt
    simp only [urlEncode, List.mem_cons, List.not_mem_nil, or_false] at h
    rcases h with rfl | rfl | rfl
    all_goals exact inUrlAlphabet_urlChar (by omega)
  | case4 a b d rest ih =>
    have ha := a.toNat_lt
    have hb := b.toNat_lt
    have hd := d.toNat_lt
    simp only [urlEncode, List.mem_cons] at h
    rcases h with rfl | rfl | rfl | rfl | h
    · exact inUrlAlphabet_urlChar (by omega)
    · exact inUrlAlphabet_urlChar (by omega)
    · exact inUrlAlphabet_urlChar (by omega)
    · exact inUrlAlphabet_urlChar (by omega)
    · exact ih h

theorem urlWellFormed_urlEncode (bs : List UInt8) : urlWellFormed (urlEncode bs) = true := by
  have hlength : (urlEncode bs).length % 4 ≠ 1 := by
    induction bs using urlEncode.induct with
    | case1 => decide
    | case2 a => simp [urlEncode]
    | case3 a b => simp [urlEncode]
    | case4 a b c rest ih =>
      simp only [urlEncode, List.length_cons]
      omega
  rw [urlWellFormed, Bool.and_eq_true, decide_eq_true_eq, List.all_eq_true]
  exact ⟨hlength, fun c hc => mem_urlEncode hc⟩

end Base64
