import Lurker.Lib.Json
import Mathlib.Data.List.TakeWhile
import Mathlib.Algebra.Order.Field.Rat
import Mathlib.Algebra.Order.Field.Power

/-!
# JSON text read back

A value whose numbers are read back from the numerals they are written to is read back from the
text it is written to: the lexer takes the text apart into the tokens of the value, and the
grammar takes these for it. Whole numbers are read back where nothing is rounded.
-/

namespace Json

section Writing

variable {Num : Type} (N : Arithmetic Num)

/-- A number is read back from the numeral it is written to. -/
structure Arithmetic.ReadsBack (n : Num) : Prop where
  finite : N.finite n = true
  numeral : isNumeral (N.text n) = true
  read : N.read (N.text n) = n

mutual

/-- What holds of every number of a value. -/
def Numbers (p : Num → Prop) : Json Num → Prop
  | .num n => p n
  | .arr vs => NumbersOfElements p vs
  | .obj ms => NumbersOfMembers p ms
  | _ => True

def NumbersOfElements (p : Num → Prop) : List (Json Num) → Prop
  | [] => True
  | v :: vs => Numbers p v ∧ NumbersOfElements p vs

def NumbersOfMembers (p : Num → Prop) : List (CodeUnits × Json Num) → Prop
  | [] => True
  | (_, v) :: ms => Numbers p v ∧ NumbersOfMembers p ms

end

mutual

/-- The tokens of the text of a value. -/
def tokens : Json Num → List (Token Num)
  | .str s => [.string s]
  | .arr [] => [.beginArray, .endArray]
  | .arr (v :: vs) => .beginArray :: (tokens v ++ (tokensOfElements vs ++ [.endArray]))
  | .obj [] => [.beginObject, .endObject]
  | .obj ((k, v) :: ms) =>
    .beginObject :: .string k :: .colon :: (tokens v ++ (tokensOfMembers ms ++ [.endObject]))
  | v => [.scalar v]

def tokensOfElements : List (Json Num) → List (Token Num)
  | [] => []
  | v :: vs => .comma :: (tokens v ++ tokensOfElements vs)

def tokensOfMembers : List (CodeUnits × Json Num) → List (Token Num)
  | [] => []
  | (k, v) :: ms => .comma :: .string k :: .colon :: (tokens v ++ tokensOfMembers ms)

end

variable {N}

theorem lex_cons (l : Lexing) (c : UInt16) (cs : CodeUnits) :
    lex N l (c :: cs) = (lexStep N l c).bind fun (tokens, l) => (lex N l cs).map (tokens ++ ·) := rfl

/-- A step that emits nothing. -/
theorem lex_silent {l l' : Lexing} {c : UInt16} (h : lexStep N l c = some ([], l')) (cs : CodeUnits) :
    lex N l (c :: cs) = lex N l' cs := by
  rw [lex_cons, h, Option.bind_some]
  simp only [List.nil_append, Option.map_id']

theorem lex_emit {l l' : Lexing} {c : UInt16} {t : Token Num} (h : lexStep N l c = some ([t], l'))
    (cs : CodeUnits) : lex N l (c :: cs) = (lex N l' cs).map (t :: ·) := by
  rw [lex_cons, h, Option.bind_some]
  rfl

theorem lex_newline (depth : Nat) (rest : CodeUnits) :
    lex N .between (newline depth ++ rest) = lex N .between rest := by
  rw [newline, List.cons_append, lex_silent rfl]
  induction 2 * depth with
  | zero => rfl
  | succ n ih => rw [List.replicate_succ, List.cons_append, lex_silent rfl, ih]

theorem hexValue_hexDigit : ∀ n < 16, hexValue (hexDigit n) = some n := by decide

theorem lex_unicodeEscape (s : CodeUnits) (c : UInt16) (rest : CodeUnits) :
    lex N (.quoted s) (unicodeEscape c ++ rest) = lex N (.quoted (s ++ [c])) rest := by
  have hc := c.toNat_lt
  have hdigit (k value n : Nat) (hk : k < 3) (hn : n < 16) :
      lexStep N (.unicode s k value) (hexDigit n) = some ([], .unicode s (k + 1) (16 * value + n)) := by
    rw [lexStep, hexValue_hexDigit n hn, Option.map_some, if_neg (by omega)]
  have hlast (value n : Nat) (hn : n < 16) : lexStep N (.unicode s 3 value) (hexDigit n) =
      some ([], .quoted (s ++ [UInt16.ofNat (16 * value + n)])) := by
    rw [lexStep, hexValue_hexDigit n hn, Option.map_some, if_pos rfl]
  have hvalue : UInt16.ofNat (16 * (16 * (16 * (16 * 0 + c.toNat / 4096) + c.toNat / 256 % 16) +
      c.toNat / 16 % 16) + c.toNat % 16) = c := by
    rw [show 16 * (16 * (16 * (16 * 0 + c.toNat / 4096) + c.toNat / 256 % 16) +
      c.toNat / 16 % 16) + c.toNat % 16 = c.toNat by omega]
    exact UInt16.ofNat_toNat
  simp only [unicodeEscape, List.cons_append, List.nil_append]
  rw [lex_silent rfl, lex_silent rfl, lex_silent (hdigit 0 0 _ (by decide) (by omega)),
    lex_silent (hdigit 1 _ _ (by decide) (by omega)), lex_silent (hdigit 2 _ _ (by decide) (by omega)),
    lex_silent (hlast _ _ (by omega)), hvalue]

/-- A unit that needs no escape. -/
theorem lex_plain {c : UInt16} (hquote : c ≠ 0x22) (hescape : c ≠ 0x5c) (hcontrol : ¬ c < 0x20)
    (s : CodeUnits) (rest : CodeUnits) :
    lex N (.quoted s) (c :: rest) = lex N (.quoted (s ++ [c])) rest := by
  refine lex_silent ?_ rest
  rw [lexStep, if_neg hquote, if_neg hescape, if_neg hcontrol]

theorem lex_quoteUnit (s : CodeUnits) (c : UInt16) (rest : CodeUnits) :
    lex N (.quoted s) (quoteUnit c ++ rest) = lex N (.quoted (s ++ [c])) rest := by
  unfold quoteUnit
  split
  · next h => obtain rfl | rfl := h <;> exact (lex_silent rfl _).trans (lex_silent rfl _)
  split
  · next h => obtain rfl := h; exact (lex_silent rfl _).trans (lex_silent rfl _)
  split
  · next h => obtain rfl := h; exact (lex_silent rfl _).trans (lex_silent rfl _)
  split
  · next h => obtain rfl := h; exact (lex_silent rfl _).trans (lex_silent rfl _)
  split
  · next h => obtain rfl := h; exact (lex_silent rfl _).trans (lex_silent rfl _)
  split
  · next h => obtain rfl := h; exact (lex_silent rfl _).trans (lex_silent rfl _)
  split
  · exact lex_unicodeEscape s c rest
  · next hquote _ _ _ _ _ hplain =>
    exact lex_plain (fun h => hquote (Or.inl h)) (fun h => hquote (Or.inr h))
      (fun h => hplain (Or.inl h)) s rest

/-- Half of a pair needs no escape. -/
theorem lex_surrogate {c : UInt16} (h : 0xd800 ≤ c) (s : CodeUnits) (rest : CodeUnits) :
    lex N (.quoted s) (c :: rest) = lex N (.quoted (s ++ [c])) rest := by
  have h : 0xd800 ≤ c.toNat := UInt16.le_iff_toNat_le.mp h
  refine lex_plain ?_ ?_ ?_ s rest
  · rintro rfl
    revert h
    decide
  · rintro rfl
    revert h
    decide
  · rw [UInt16.lt_iff_toNat_lt, show (0x20 : UInt16).toNat = 32 from rfl]
    omega

theorem lex_quoteUnits (s s' : CodeUnits) (rest : CodeUnits) :
    lex N (.quoted s) (quoteUnits s' ++ rest) = lex N (.quoted (s ++ s')) rest := by
  induction s' using quoteUnits.induct generalizing s with
  | case1 => rw [quoteUnits, List.nil_append, List.append_nil]
  | case2 c => exact lex_quoteUnit s c rest
  | case3 c d cs hpair ih =>
    rw [quoteUnits, if_pos hpair, List.cons_append, List.cons_append]
    simp only [isLead, isTrail, Bool.and_eq_true, decide_eq_true_eq] at hpair
    rw [lex_surrogate hpair.1.1, lex_surrogate (UInt16.le_trans (by decide) hpair.2.1), ih]
    simp only [List.append_assoc, List.cons_append, List.nil_append]
  | case4 c d cs hpair ih =>
    rw [quoteUnits, if_neg hpair, List.append_assoc, lex_quoteUnit, ih]
    simp only [List.append_assoc, List.cons_append, List.nil_append]

theorem lex_quote (s : CodeUnits) (rest : CodeUnits) :
    lex N .between (quote s ++ rest) = (lex N .between rest).map (.string s :: ·) := by
  rw [quote, List.cons_append, lex_silent rfl, List.append_assoc, lex_quoteUnits]
  exact lex_emit rfl rest

/-- A value ends before a comma, a line break or the end of the text. -/
def Stops (rest : CodeUnits) : Prop := ∀ c ∈ rest.head?, c = 0x2c ∨ c = 0x0a

theorem stops_newline (depth : Nat) (rest : CodeUnits) : Stops (newline depth ++ rest) := by
  intro c hc
  exact Or.inr (Option.some.inj hc).symm

/-- A token that the next unit ends. -/
theorem lex_flush {l : Lexing} {t : Token Num} {rest : CodeUnits} (hflush : flush N l = some [t])
    (hnext : ∀ c ∈ rest.head?, lexStep N l c = turn N l c) :
    lex N l rest = (lex N .between rest).map (t :: ·) := by
  cases rest with
  | nil => exact hflush
  | cons c cs =>
    rw [lex_cons, hnext c rfl, turn, hflush, Option.bind_some, lex_cons]
    show ((lexStart c).map _).bind _ = ((lexStart c).bind _).map _
    cases lexStart c with
    | none => rfl
    | some step => simp [Function.comp_def]

theorem lex_letters {s : CodeUnits} {v : Json Num} (h : word s = some v) {rest : CodeUnits}
    (hrest : Stops rest) : lex N (.letters s) rest = (lex N .between rest).map (.scalar v :: ·) := by
  refine lex_flush (by rw [flush, h]; rfl) fun c hc => ?_
  obtain rfl | rfl := hrest c hc <;> rfl

theorem Numeral.next_stops (n : Numeral) {c : UInt16} (h : c = 0x2c ∨ c = 0x0a) :
    n.next c = none := by
  obtain rfl | rfl := h <;> cases n <;> rfl

theorem lex_digits {s cs : CodeUnits} {n n' : Numeral} (h : cs.foldlM Numeral.next n = some n')
    (hcomplete : n'.complete) {rest : CodeUnits} (hrest : Stops rest) :
    lex N (.numeral s n) (cs ++ rest) =
      (lex N .between rest).map (.scalar (.num (N.read (s ++ cs))) :: ·) := by
  induction cs generalizing s n with
  | nil =>
    obtain rfl := Option.some.inj h
    rw [List.append_nil]
    refine lex_flush (by rw [flush, if_pos hcomplete]) fun c hc => ?_
    rw [lexStep, n.next_stops (hrest c hc)]
  | cons c cs ih =>
    rw [List.foldlM_cons] at h
    obtain ⟨m, hm, h⟩ := Option.bind_eq_some_iff.mp h
    rw [List.cons_append, lex_silent (by rw [lexStep, hm]), ih h, List.append_assoc,
      List.singleton_append]

theorem exists_digit {c : UInt16} (h : isDigit c) : ∃ d < 10, c = UInt16.ofNat (0x30 + d) := by
  rw [isDigit, Bool.and_eq_true, decide_eq_true_eq, decide_eq_true_eq] at h
  have hlow : 48 ≤ c.toNat := UInt16.le_iff_toNat_le.mp h.1
  have hhigh : c.toNat ≤ 57 := UInt16.le_iff_toNat_le.mp h.2
  refine ⟨c.toNat - 48, by omega, ?_⟩
  rw [show 0x30 + (c.toNat - 48) = c.toNat by omega]
  exact UInt16.ofNat_toNat.symm

theorem lexStart_numeral {c : UInt16} {n : Numeral} (h : Numeral.start c = some n) :
    lexStart c = some (([] : List (Token Num)), .numeral [c] n) := by
  have hother : isSpace c = false ∧ c ≠ 0x22 ∧ isLetter c = false := by
    by_cases hdigit : isDigit c
    · obtain ⟨d, hd, rfl⟩ := exists_digit hdigit
      exact (by decide : ∀ d < 10, isSpace (UInt16.ofNat (0x30 + d)) = false ∧
        UInt16.ofNat (0x30 + d) ≠ 0x22 ∧ isLetter (UInt16.ofNat (0x30 + d)) = false) d hd
    · unfold Numeral.start at h
      split at h
      · next hminus => obtain rfl := hminus; decide
      · split at h
        · next hzero => obtain rfl := hzero; decide
        · cases h
  unfold lexStart
  simp only [hother, Bool.false_eq_true, if_false, h]

theorem lex_numeral {s : CodeUnits} (h : isNumeral s) {rest : CodeUnits} (hrest : Stops rest) :
    lex N .between (s ++ rest) = (lex N .between rest).map (.scalar (.num (N.read s)) :: ·) := by
  cases s with
  | nil => cases h
  | cons c cs =>
    obtain ⟨n', hrun, hcomplete⟩ := (Option.any_eq_true ..).mp h
    obtain ⟨n, hstart, hrun⟩ := Option.bind_eq_some_iff.mp hrun
    have hstep : lexStep N .between c = some ([], .numeral [c] n) := lexStart_numeral hstart
    rw [List.cons_append, lex_silent hstep, lex_digits hrun hcomplete hrest]
    rfl

theorem stops_writeElements {depth : Nat} {vs : List (Json Num)} {rest : CodeUnits}
    (hrest : Stops rest) : Stops (writeElements N depth vs ++ rest) := by
  cases vs with
  | nil => exact hrest
  | cons v vs => exact fun c hc => Or.inl (Option.some.inj hc).symm

theorem stops_writeMembers {depth : Nat} {ms : List (CodeUnits × Json Num)} {rest : CodeUnits}
    (hrest : Stops rest) : Stops (writeMembers N depth ms ++ rest) := by
  cases ms with
  | nil => exact hrest
  | cons m ms => exact fun c hc => Or.inl (Option.some.inj hc).symm

mutual

/-- A text that was written is its value's tokens. -/
theorem lex_write (depth : Nat) {rest : CodeUnits} (hrest : Stops rest) :
    ∀ v : Json Num, v.Numbers N.ReadsBack →
      lex N .between (write N depth v ++ rest) = (lex N .between rest).map (tokens v ++ ·)
  | .null, _ => by
    refine Eq.trans ?_ (lex_letters (s := units "null") rfl hrest)
    iterate 4 refine (lex_silent rfl _).trans ?_
    rfl
  | .bool b, _ => by
    cases b with
    | true =>
      refine Eq.trans ?_ (lex_letters (s := units "true") rfl hrest)
      iterate 4 refine (lex_silent rfl _).trans ?_
      rfl
    | false =>
      refine Eq.trans ?_ (lex_letters (s := units "false") rfl hrest)
      iterate 5 refine (lex_silent rfl _).trans ?_
      rfl
  | .num n, hn => by
    have hn : N.ReadsBack n := hn
    rw [write, if_pos hn.finite, lex_numeral hn.numeral hrest, hn.read]
    rfl
  | .str s, _ => lex_quote s rest
  | .arr [], _ => by
    refine (lex_emit rfl _).trans ?_
    refine (congrArg _ (lex_emit rfl _)).trans ?_
    rw [Option.map_map]
    rfl
  | .arr (v :: vs), hn => by
    have hn : v.Numbers N.ReadsBack ∧ NumbersOfElements N.ReadsBack vs := hn
    have hends := stops_newline depth (0x5d :: rest)
    simp only [write, List.cons_append, List.append_assoc, List.nil_append]
    rw [lex_emit rfl, lex_newline, lex_write (depth + 1) (stops_writeElements hends) v hn.1,
      lex_writeElements (depth + 1) hends vs hn.2, lex_newline, lex_emit rfl]
    simp only [tokens, Option.map_map, Function.comp_def, List.cons_append, List.append_assoc,
      List.nil_append]
  | .obj [], _ => by
    refine (lex_emit rfl _).trans ?_
    refine (congrArg _ (lex_emit rfl _)).trans ?_
    rw [Option.map_map]
    rfl
  | .obj ((k, v) :: ms), hn => by
    have hn : v.Numbers N.ReadsBack ∧ NumbersOfMembers N.ReadsBack ms := hn
    have hends := stops_newline depth (0x7d :: rest)
    simp only [write, List.cons_append, List.append_assoc, List.nil_append]
    rw [lex_emit rfl, lex_newline, lex_quote, lex_emit rfl, lex_silent rfl,
      lex_write (depth + 1) (stops_writeMembers hends) v hn.1,
      lex_writeMembers (depth + 1) hends ms hn.2, lex_newline, lex_emit rfl]
    simp only [tokens, Option.map_map, Function.comp_def, List.cons_append, List.append_assoc,
      List.nil_append]

theorem lex_writeElements (depth : Nat) {rest : CodeUnits} (hrest : Stops rest) :
    ∀ vs : List (Json Num), NumbersOfElements N.ReadsBack vs →
      lex N .between (writeElements N depth vs ++ rest) =
        (lex N .between rest).map (tokensOfElements vs ++ ·)
  | [], _ => by
    simp only [tokensOfElements, List.nil_append, Option.map_id']
    rfl
  | v :: vs, hn => by
    have hn : v.Numbers N.ReadsBack ∧ NumbersOfElements N.ReadsBack vs := hn
    simp only [writeElements, List.cons_append, List.append_assoc]
    rw [lex_emit rfl, lex_newline, lex_write depth (stops_writeElements hrest) v hn.1,
      lex_writeElements depth hrest vs hn.2]
    simp only [tokensOfElements, Option.map_map, Function.comp_def, List.cons_append,
      List.append_assoc]

theorem lex_writeMembers (depth : Nat) {rest : CodeUnits} (hrest : Stops rest) :
    ∀ ms : List (CodeUnits × Json Num), NumbersOfMembers N.ReadsBack ms →
      lex N .between (writeMembers N depth ms ++ rest) =
        (lex N .between rest).map (tokensOfMembers ms ++ ·)
  | [], _ => by
    simp only [tokensOfMembers, List.nil_append, Option.map_id']
    rfl
  | (k, v) :: ms, hn => by
    have hn : v.Numbers N.ReadsBack ∧ NumbersOfMembers N.ReadsBack ms := hn
    simp only [writeMembers, List.cons_append, List.append_assoc]
    rw [lex_emit rfl, lex_newline, lex_quote, lex_emit rfl, lex_silent rfl,
      lex_write depth (stops_writeMembers hrest) v hn.1, lex_writeMembers depth hrest ms hn.2]
    simp only [tokensOfMembers, Option.map_map, Function.comp_def, List.cons_append,
      List.append_assoc]

end

theorem feed_firstElement_tokens (v : Json Num) (within : List (Frame Num)) :
    (tokens v).foldlM feed (.firstElement within) =
      (tokens v).foldlM feed (.value (.elements [] :: within)) := by
  cases v with
  | arr vs => cases vs <;> rfl
  | obj ms => rcases ms with _ | ⟨m, ms⟩ <;> rfl
  | _ => rfl

mutual

/-- The tokens of a value are taken for it. -/
theorem feed_tokens (within : List (Frame Num)) :
    ∀ v : Json Num, (tokens v).foldlM feed (.value within) = some (.after v within)
  | .null => rfl
  | .bool _ => rfl
  | .num _ => rfl
  | .str _ => rfl
  | .arr [] => rfl
  | .arr (v :: vs) => by
    rw [tokens, List.foldlM_cons]
    show (tokens v ++ _).foldlM feed (.firstElement within) = _
    rw [List.foldlM_append, feed_firstElement_tokens, feed_tokens, Option.bind_eq_bind,
      Option.bind_some]
    exact feed_tokensOfElements within [] v vs
  | .obj [] => rfl
  | .obj ((k, v) :: ms) => by
    rw [tokens, List.foldlM_cons]
    show (tokens v ++ _).foldlM feed (.value (.members [] k :: within)) = _
    rw [List.foldlM_append, feed_tokens, Option.bind_eq_bind, Option.bind_some]
    exact feed_tokensOfMembers within [] k v ms

theorem feed_tokensOfElements (within : List (Frame Num)) (done : List (Json Num)) (v : Json Num) :
    ∀ vs : List (Json Num),
      (tokensOfElements vs ++ [Token.endArray]).foldlM feed (.after v (.elements done :: within)) =
        some (.after (.arr (done ++ v :: vs)) within)
  | [] => rfl
  | w :: vs => by
    rw [tokensOfElements, List.cons_append, List.foldlM_cons]
    show (_ : List _).foldlM feed (.value (.elements (done ++ [v]) :: within)) = _
    rw [List.append_assoc, List.foldlM_append, feed_tokens, Option.bind_eq_bind, Option.bind_some,
      feed_tokensOfElements within (done ++ [v]) w vs, List.append_assoc, List.singleton_append]

theorem feed_tokensOfMembers (within : List (Frame Num)) (done : List (CodeUnits × Json Num))
    (k : CodeUnits) (v : Json Num) :
    ∀ ms : List (CodeUnits × Json Num),
      (tokensOfMembers ms ++ [Token.endObject]).foldlM feed (.after v (.members done k :: within)) =
        some (.after (.obj (done ++ (k, v) :: ms)) within)
  | [] => rfl
  | (l, w) :: ms => by
    rw [tokensOfMembers, List.cons_append, List.foldlM_cons]
    show (tokens w ++ _ ++ _).foldlM feed (.value (.members (done ++ [(k, v)]) l :: within)) = _
    rw [List.append_assoc, List.foldlM_append, feed_tokens, Option.bind_eq_bind, Option.bind_some,
      feed_tokensOfMembers within (done ++ [(k, v)]) l w ms, List.append_assoc,
      List.singleton_append]

end

/-- A value is read back from its text. -/
theorem parse_stringify {v : Json Num} (h : v.Numbers N.ReadsBack) :
    parse N (stringify N v) = some v := by
  have hend : Stops [] := fun c hc => (by cases hc)
  have hlex := lex_write 0 hend v h
  rw [List.append_nil] at hlex
  rw [parse, stringify, hlex]
  show (((tokens v ++ []).foldlM feed (.value [])).bind Expect.result) = some v
  rw [List.append_nil, feed_tokens]
  rfl

end Writing

section Exact

def digitsValue (ds : CodeUnits) : Nat := ds.foldl (fun n c => 10 * n + (c.toNat - 0x30)) 0

/-- The value of a numeral. -/
def exactValue (s : CodeUnits) : ℚ :=
  let unsigned := s.dropWhile (· = 0x2d)
  let whole := unsigned.takeWhile isDigit
  let rest := unsigned.dropWhile isDigit
  let (fraction, rest) :=
    if rest.head? = some 0x2e then (rest.tail.takeWhile isDigit, rest.tail.dropWhile isDigit)
    else ([], rest)
  let power : ℤ := match rest.tail with
    | [] => 0
    | c :: ds =>
      if c = 0x2d then -digitsValue ds else if c = 0x2b then digitsValue ds else digitsValue (c :: ds)
  let value := (digitsValue (whole ++ fraction) : ℚ) * 10 ^ (power - fraction.length)
  if s.head? = some 0x2d then -value else value

def natText (n : Nat) : CodeUnits := (Nat.toDigits 10 n).map fun c => UInt16.ofNat c.toNat

def intText : ℤ → CodeUnits
  | .ofNat n => natText n
  | .negSucc n => 0x2d :: natText (n + 1)

/-- Rationals; one that is not whole is shown as a ratio. -/
def exact : Arithmetic ℚ where
  read := exactValue
  text q := intText q.num ++ if q.den = 1 then [] else 0x2f :: natText q.den
  finite _ := true

theorem natText_spec (n : Nat) (h : 0 < n) : ∃ c cs, natText n = c :: cs ∧ isDigit c ∧ c ≠ 0x30 ∧
    cs.all isDigit ∧ digitsValue (natText n) = n := by
  have hdigit (d : Nat) (hd : d < 10) : isDigit (UInt16.ofNat (Nat.digitChar d).toNat) ∧
      (UInt16.ofNat (Nat.digitChar d).toNat).toNat - 0x30 = d ∧
      (0 < d → UInt16.ofNat (Nat.digitChar d).toNat ≠ 0x30) := by
    revert d
    decide
  induction n using Nat.strong_induction_on with
  | _ n ih =>
    by_cases hn : n < 10
    · obtain ⟨hone, hvalue, hpos⟩ := hdigit n hn
      have htext : natText n = [UInt16.ofNat (Nat.digitChar n).toNat] := by
        rw [natText, Nat.toDigits_of_lt_base hn]
        rfl
      refine ⟨_, [], htext, hone, hpos h, rfl, ?_⟩
      rw [htext]
      simpa [digitsValue] using hvalue
    · obtain ⟨c, cs, htext, hc, hzero, hcs, hvalue⟩ := ih (n / 10) (by omega) (by omega)
      obtain ⟨hone, hlast, -⟩ := hdigit (n % 10) (by omega)
      have happend : natText n = natText (n / 10) ++ [UInt16.ofNat (Nat.digitChar (n % 10)).toNat] := by
        rw [natText, Nat.toDigits_of_base_le (by decide) (by omega), List.map_append]
        rfl
      refine ⟨c, cs ++ [_], by rw [happend, htext]; rfl, hc, hzero, ?_, ?_⟩
      · simpa using ⟨by simpa using hcs, hone⟩
      · rw [happend, digitsValue, List.foldl_append]
        show 10 * digitsValue (natText (n / 10)) + _ = n
        rw [hvalue, hlast]
        omega

theorem ne_minus {c : UInt16} (h : isDigit c) : c ≠ 0x2d := by
  rintro rfl
  cases h

theorem next_whole {cs : CodeUnits} (h : cs.all isDigit) :
    cs.foldlM Numeral.next .whole = some .whole := by
  induction cs with
  | nil => rfl
  | cons c cs ih =>
    obtain ⟨hc, hcs⟩ := List.all_cons (f := isDigit) ▸ h |> Bool.and_eq_true_iff.mp
    rw [List.foldlM_cons, Numeral.next, if_pos hc]
    exact ih hcs

/-- The digits of a positive number, alone or behind a minus. -/
theorem isNumeral_natText {n : Nat} (h : 0 < n) :
    isNumeral (natText n) ∧ isNumeral (0x2d :: natText n) := by
  obtain ⟨c, cs, htext, hc, hzero, hcs, -⟩ := natText_spec n h
  have hstart : Numeral.start c = some .whole := by
    rw [Numeral.start, if_neg (ne_minus hc), if_neg hzero, if_pos hc]
  have hminus : Numeral.minus.next c = some .whole := by
    rw [Numeral.next, if_neg hzero, if_pos hc]
  have hrun := next_whole hcs
  rw [htext]
  constructor
  · rw [isNumeral, hstart, Option.bind_some, hrun]
    rfl
  · show ((Numeral.start 0x2d).bind fun n => (c :: cs).foldlM Numeral.next n).any Numeral.complete
    rw [show Numeral.start 0x2d = some .minus from rfl, Option.bind_some, List.foldlM_cons, hminus]
    show (cs.foldlM Numeral.next .whole).any _
    rw [hrun]
    rfl

theorem exactValue_digits {ds : CodeUnits} (h : ds.all isDigit) (hne : ds ≠ []) :
    exactValue ds = digitsValue ds ∧ exactValue (0x2d :: ds) = -digitsValue ds := by
  obtain ⟨c, cs, rfl⟩ := List.exists_cons_of_ne_nil hne
  have hall : ∀ d ∈ c :: cs, isDigit d := List.all_eq_true.mp h
  have hc := ne_minus (hall c List.mem_cons_self)
  have hunsigned : (c :: cs).dropWhile (· = 0x2d) = c :: cs :=
    List.dropWhile_cons_of_neg (by simpa using hc)
  have htake : (c :: cs).takeWhile isDigit = c :: cs := List.takeWhile_eq_self_iff.mpr hall
  have hdrop : (c :: cs).dropWhile isDigit = [] := List.dropWhile_eq_nil_iff.mpr hall
  constructor
  · unfold exactValue
    simp [hunsigned, htake, hdrop, hc]
  · unfold exactValue
    rw [List.dropWhile_cons_of_pos (by rfl)]
    simp [hunsigned, htake, hdrop]

/-- A whole number is read back. -/
theorem exact_readsBack (z : ℤ) : exact.ReadsBack z := by
  have htext : exact.text z = intText z := by
    show intText (z : ℚ).num ++ _ = _
    rw [Rat.num_intCast, Rat.den_intCast, if_pos rfl, List.append_nil]
  have hnat (n : Nat) (hn : 0 < n) : exactValue (natText n) = n ∧ exactValue (0x2d :: natText n) = -n := by
    obtain ⟨c, cs, heq, hc, -, hcs, hvalue⟩ := natText_spec n hn
    have hall : (natText n).all isDigit := by rw [heq, List.all_cons, hc, hcs]; rfl
    have hne : natText n ≠ [] := by rw [heq]; exact List.cons_ne_nil _ _
    have hread := exactValue_digits hall hne
    rwa [hvalue] at hread
  refine ⟨rfl, ?_, ?_⟩
  · rw [htext]
    cases z with
    | ofNat n =>
      obtain rfl | hn := Nat.eq_zero_or_pos n
      · rfl
      · exact (isNumeral_natText hn).1
    | negSucc n => exact (isNumeral_natText n.succ_pos).2
  · rw [htext]
    cases z with
    | ofNat n =>
      obtain rfl | hn := Nat.eq_zero_or_pos n
      · decide +kernel
      · exact (hnat n hn).1.trans (Int.cast_natCast n).symm
    | negSucc n =>
      rw [Int.cast_negSucc]
      exact (hnat _ n.succ_pos).2

end Exact

end Json
