import Mathlib.Data.List.TakeWhile
import Lurker.Chat.TextMatch

/-!
# Formatting read one way

The client paints a message by `parseIrcFormatting`, a state machine written by hand. The
matchers read it by `stripFormatting`, a pattern. Both are of one grammar: what the runs
say, one after the other, is the stripped text. An offset in it leads to a cut of the raw
text between two codes, so each side of the cut is read as it was in the whole.
-/

namespace Lurker.Chat

/-- A slot of the palette, or a colour as sent. -/
inductive IrcColor where
  | slot (n : Nat)
  | hex (digits : Text)
deriving DecidableEq, Repr

/-- The attributes in effect. -/
structure Style where
  bold : Bool := false
  italic : Bool := false
  underline : Bool := false
  strike : Bool := false
  reverse : Bool := false
  fg : Option IrcColor := none
  bg : Option IrcColor := none
deriving DecidableEq, Repr

structure IrcRun where
  text : Text
  style : Style
deriving DecidableEq, Repr

/-- The digits the loop takes from the start of a text, no more than `max`. -/
def readDigits : Nat → Text → Text
  | max + 1, c :: rest => if isDigit c then c :: readDigits max rest else []
  | _, _ => []

/-- `parseInt(digits, 10)`. -/
def parseInt (digits : Text) : Nat :=
  digits.foldl (fun n c => 10 * n + (c.toNat - (unit '0').toNat)) 0

/-- Six hex digits at the start of a text. -/
def readHex (s : Text) : Option Text :=
  if 6 ≤ s.length ∧ (s.take 6).all isHexDigit then some (s.take 6) else none

/-- `toLowerCase` of hex digits. -/
def lowerHex (digits : Text) : Text :=
  digits.map fun c => if unit 'A' ≤ c ∧ c ≤ unit 'F' then c + 32 else c

/-- What stands after `\x03`: the style it leaves and how many units it takes. -/
def readColour (style : Style) (rest : Text) : Style × Nat :=
  let digits := readDigits 2 rest
  if digits = [] then ({ style with fg := none, bg := none }, 0)
  else
    let style := { style with fg := some (.slot (parseInt digits)) }
    match rest.drop digits.length with
    | comma :: d :: more =>
      if comma = unit ',' ∧ isDigit d then
        let bgDigits := readDigits 2 (d :: more)
        ({ style with bg := some (.slot (parseInt bgDigits)) }, digits.length + 1 + bgDigits.length)
      else (style, digits.length)
    | _ => (style, digits.length)

/-- What stands after `\x04`. -/
def readHexColour (style : Style) (rest : Text) : Style × Nat :=
  match readHex rest with
  | none => ({ style with fg := none, bg := none }, 0)
  | some hex =>
    let style := { style with fg := some (.hex (lowerHex hex)) }
    match rest.drop 6 with
    | [] => (style, 6)
    | c :: more =>
      match if c = unit ',' then readHex more else none with
      | some bgHex => ({ style with bg := some (.hex (lowerHex bgHex)) }, 6 + 7)
      | none => (style, 6)

/-- The control code a unit is: the style after it and how many units of the rest are its own. -/
def readCode (style : Style) (code : CodeUnit) (rest : Text) : Option (Style × Nat) :=
  if code = 0x02 then some ({ style with bold := !style.bold }, 0)
  else if code = 0x1d then some ({ style with italic := !style.italic }, 0)
  else if code = 0x1f then some ({ style with underline := !style.underline }, 0)
  else if code = 0x1e then some ({ style with strike := !style.strike }, 0)
  else if code = 0x16 then some ({ style with reverse := !style.reverse }, 0)
  else if code = 0x11 then some (style, 0)
  else if code = 0x0f then some ({}, 0)
  else if code = 0x03 then some (readColour style rest)
  else if code = 0x04 then some (readHexColour style rest)
  else none

/-- `flush`: the run of what is buffered, none of nothing. -/
def flush (style : Style) (buf : Text) : List IrcRun :=
  if buf = [] then [] else [⟨buf, style⟩]

/-- The walk of `parseIrcFormatting`: units still of a code, the style, what is buffered. -/
def parseFrom : Nat → Style → Text → Text → List IrcRun
  | _, style, buf, [] => flush style buf
  | skip + 1, style, buf, _ :: rest => parseFrom skip style buf rest
  | 0, style, buf, code :: rest =>
    match readCode style code rest with
    | some (style', used) => flush style buf ++ parseFrom used style' [] rest
    | none => parseFrom 0 style (buf ++ [code]) rest

def parseIrcFormatting (text : Text) : List IrcRun := parseFrom 0 {} [] text

theorem readDigits_eq (max : Nat) (s : Text) : readDigits max s = (s.take max).takeWhile isDigit := by
  induction s generalizing max with
  | nil => cases max <;> rfl
  | cons c rest ih =>
    cases max with
    | zero => rfl
    | succ max =>
      rw [readDigits, List.take_succ_cons, List.takeWhile_cons, ih]

theorem readDigits_length (max : Nat) (s : Text) :
    (readDigits max s).length = runLength isDigit max s := by
  rw [readDigits_eq, runLength]

/-- A run of at least one digit begins with one. -/
theorem one_le_runLength {p : CodeUnit → Bool} {max : Nat} {d : CodeUnit} {rest : Text} :
    1 ≤ runLength p (max + 1) (d :: rest) ↔ p d = true := by
  rw [runLength, List.take_succ_cons, List.takeWhile_cons]
  cases p d <;> simp

theorem readColour_used (style : Style) (rest : Text) :
    (readColour style rest).2 = colourLength isDigit 1 2 rest := by
  unfold readColour colourLength
  dsimp only
  rw [readDigits_length]
  by_cases hnone : readDigits 2 rest = []
  · have hzero : runLength isDigit 2 rest = 0 := by rw [← readDigits_length, hnone]; rfl
    rw [if_pos hnone, if_pos (by omega)]
  · have hpos : ¬ runLength isDigit 2 rest < 1 := by
      rw [← readDigits_length]
      exact fun h => hnone (List.eq_nil_of_length_eq_zero (by omega))
    rw [if_neg hnone, if_neg hpos]
    cases rest.drop (runLength isDigit 2 rest) with
    | nil => rfl
    | cons comma more =>
      cases more with
      | nil =>
        have : ¬ (comma = unit ',' ∧ 1 ≤ runLength isDigit 2 []) := fun h => by
          simp [runLength] at h
        exact (if_neg this).symm
      | cons d more =>
        dsimp only
        simp only [one_le_runLength, readDigits_length]
        split <;> rfl

/-- Six digits at the start are a run of six. -/
theorem readHex_isSome (s : Text) : (readHex s).isSome = true ↔ 6 ≤ runLength isHexDigit 6 s := by
  have hlen : (s.take 6).length ≤ 6 := List.length_take_le ..
  have hrun := (List.takeWhile_prefix (l := s.take 6) isHexDigit).length_le
  constructor
  · intro h
    unfold readHex at h
    split at h
    · rename_i hsix
      have hall : (s.take 6).takeWhile isHexDigit = s.take 6 := by
        rw [List.takeWhile_eq_self_iff]
        exact fun c hc => List.all_eq_true.mp hsix.2 c hc
      rw [runLength, hall, List.length_take]
      omega
    · cases h
  · intro h
    rw [runLength] at h
    have hwhole : (s.take 6).takeWhile isHexDigit = s.take 6 :=
      (List.takeWhile_prefix _).eq_of_length (by omega)
    have hall : (s.take 6).all isHexDigit = true :=
      List.all_eq_true.mpr fun c hc => (List.takeWhile_eq_self_iff.mp hwhole) c hc
    have hsix : 6 ≤ s.length := by
      have := List.length_take_le' 6 s
      omega
    rw [readHex, if_pos ⟨hsix, hall⟩]
    rfl

theorem readHex_cases (s : Text) :
    (readHex s = none ∧ runLength isHexDigit 6 s < 6) ∨
      ∃ hex, readHex s = some hex ∧ runLength isHexDigit 6 s = 6 := by
  have hle : runLength isHexDigit 6 s ≤ 6 :=
    (List.takeWhile_prefix _).length_le.trans (List.length_take_le ..)
  have hsome := readHex_isSome s
  cases h : readHex s with
  | none => exact Or.inl ⟨rfl, by simpa [h] using hsome⟩
  | some hex => exact Or.inr ⟨hex, rfl, le_antisymm hle (by simpa [h] using hsome)⟩

theorem readHexColour_used (style : Style) (rest : Text) :
    (readHexColour style rest).2 = colourLength isHexDigit 6 6 rest := by
  unfold readHexColour colourLength
  dsimp only
  rcases readHex_cases rest with ⟨hnone, hshort⟩ | ⟨hex, hhex, hrun⟩
  · rw [hnone, if_pos hshort]
  · rw [hhex, hrun, if_neg (lt_irrefl 6)]
    dsimp only
    cases rest.drop 6 with
    | nil => rfl
    | cons c more =>
      dsimp only
      by_cases hc : c = unit ','
      · rw [if_pos hc]
        rcases readHex_cases more with ⟨hnone, hshort⟩ | ⟨bgHex, hbg, hbgrun⟩
        · rw [hnone, if_neg fun h => absurd h.2 (by omega)]
        · rw [hbg, hbgrun, if_pos ⟨hc, le_rfl⟩]
      · rw [if_neg hc, if_neg fun h => hc h.1]

/-- The state machine takes a unit for a code when the pattern does, and as much of it. -/
theorem readCode_spec (style : Style) (code : CodeUnit) (rest : Text) :
    match readCode style code rest with
    | none => formatLength (code :: rest) = 0
    | some (_, used) => formatLength (code :: rest) = used + 1 := by
  unfold readCode formatLength
  by_cases h3 : code = 0x03
  · subst h3
    simp [← readColour_used style rest, Nat.add_comm]
  · by_cases h4 : code = 0x04
    · subst h4
      simp [← readHexColour_used style rest, Nat.add_comm]
    · simp only [h3, h4, if_false, isToggle]
      grind

/-- What the runs of a list say. -/
def texts (runs : List IrcRun) : Text := runs.flatMap IrcRun.text

theorem texts_flush (style : Style) (buf : Text) : texts (flush style buf) = buf := by
  unfold flush
  split
  · rename_i h
    exact h.symm
  · simp [texts]

/-- From any place of the walk, what is buffered and then what is visible of the rest. -/
theorem texts_parseFrom (skip : Nat) (style : Style) (buf rest : Text) :
    texts (parseFrom skip style buf rest) = buf ++ stripFrom skip rest := by
  induction rest generalizing skip style buf with
  | nil => cases skip <;> simp [parseFrom, stripFrom, texts_flush]
  | cons code rest ih =>
    cases skip with
    | succ skip => exact ih skip style buf
    | zero =>
      have hcode := readCode_spec style code rest
      rw [parseFrom]
      cases hread : readCode style code rest with
      | none =>
        rw [hread] at hcode
        rw [stripFrom, hcode]
        dsimp only
        rw [ih, List.append_assoc]
        rfl
      | some next =>
        obtain ⟨style', used⟩ := next
        rw [hread] at hcode
        rw [stripFrom, hcode]
        dsimp only
        rw [texts, List.flatMap_append, ← texts, ← texts, texts_flush, ih, List.nil_append]

-- A comma behind no digit, or before none, is text.
example : (parseIrcFormatting ([0x03] ++ text ",4a" ++ [0x03] ++ text "123,b")).map IrcRun.text =
    [text ",4a", text "3,b"] := by decide

/-- No run is empty: every one has text to paint. -/
theorem parseFrom_nonempty {skip : Nat} {style : Style} {buf rest : Text} :
    ∀ run ∈ parseFrom skip style buf rest, run.text ≠ [] := by
  have hflush (style : Style) (buf : Text) : ∀ run ∈ flush style buf, run.text ≠ [] := by
    intro run hrun
    unfold flush at hrun
    split at hrun
    · cases hrun
    · rename_i hbuf
      rwa [List.mem_singleton.mp hrun]
  induction rest generalizing skip style buf with
  | nil => cases skip <;> exact hflush style buf
  | cons code rest ih =>
    cases skip with
    | succ skip => exact ih
    | zero =>
      rw [parseFrom]
      cases readCode style code rest with
      | none => exact ih
      | some next =>
        intro run hrun
        rcases List.mem_append.mp hrun with hrun | hrun
        · exact hflush style buf run hrun
        · exact ih run hrun

theorem runLength_take (p : CodeUnit → Bool) (max m : Nat) (s : Text) :
    runLength p max (s.take m) = min m (runLength p max s) := by
  unfold runLength
  induction s generalizing max m with
  | nil => simp
  | cons c rest ih =>
    cases m with
    | zero => simp
    | succ m =>
      cases max with
      | zero => simp
      | succ max =>
        simp only [List.take_succ_cons, List.takeWhile_cons]
        cases p c with
        | false => simp
        | true =>
          simp only [if_true, List.length_cons, ih]
          omega

/-- A text cut behind its colour code has the whole code still, and no longer one. -/
theorem colourLength_take {p : CodeUnit → Bool} {least max m : Nat} {s : Text}
    (h : colourLength p least max s ≤ m) :
    colourLength p least max (s.take m) = colourLength p least max s := by
  unfold colourLength at h ⊢
  dsimp only at h ⊢
  rw [runLength_take]
  by_cases hfew : runLength p max s < least
  · rw [if_pos hfew, if_pos (by omega)]
  · rw [if_neg hfew] at h ⊢
    have hfg : runLength p max s ≤ m := by
      revert h
      cases s.drop (runLength p max s) with
      | nil => exact id
      | cons c rest =>
        dsimp only
        split <;> omega
    rw [Nat.min_eq_right hfg, if_neg hfew, List.drop_take]
    cases hrest : s.drop (runLength p max s) with
    | nil => rw [List.take_nil]
    | cons c rest =>
      rw [hrest] at h
      dsimp only at h ⊢
      cases hroom : m - runLength p max s with
      | zero =>
        have hnone : ¬ (c = unit ',' ∧ least ≤ runLength p max rest) := fun hbg => by
          rw [if_pos hbg] at h
          omega
        exact (if_neg hnone).symm
      | succ room =>
        rw [List.take_succ_cons]
        dsimp only
        rw [runLength_take]
        by_cases hbg : c = unit ',' ∧ least ≤ runLength p max rest
        · rw [if_pos hbg] at h ⊢
          rw [Nat.min_eq_right (by omega), if_pos hbg]
        · rw [if_neg hbg, if_neg fun h' => hbg ⟨h'.1, h'.2.trans (Nat.min_le_right ..)⟩]

theorem colourLength_le (p : CodeUnit → Bool) (least max : Nat) (s : Text) :
    colourLength p least max s ≤ s.length := by
  have hrun (s : Text) : runLength p max s ≤ s.length :=
    (List.takeWhile_prefix _).length_le.trans (List.length_take_le' ..)
  unfold colourLength
  dsimp only
  split
  · exact Nat.zero_le _
  · cases hrest : s.drop (runLength p max s) with
    | nil => exact hrun s
    | cons c rest =>
      have hlen := congrArg List.length hrest
      rw [List.length_drop, List.length_cons] at hlen
      have := hrun rest
      dsimp only
      split <;> omega

theorem formatLength_take {c : CodeUnit} {n m : Nat} {rest : Text}
    (hn : formatLength (c :: rest) = n + 1) (hm : n ≤ m) :
    formatLength (c :: rest.take m) = n + 1 := by
  unfold formatLength at hn ⊢
  dsimp only at hn ⊢
  by_cases h3 : c = 0x03
  · rw [if_pos h3] at hn ⊢
    rw [colourLength_take (by omega), hn]
  · rw [if_neg h3] at hn ⊢
    by_cases h4 : c = 0x04
    · rw [if_pos h4] at hn ⊢
      rw [colourLength_take (by omega), hn]
    · rw [if_neg h4] at hn ⊢
      exact hn

theorem formatLength_le {c : CodeUnit} {n : Nat} {rest : Text}
    (hn : formatLength (c :: rest) = n + 1) : n ≤ rest.length := by
  unfold formatLength at hn
  dsimp only at hn
  have h2 := colourLength_le isDigit 1 2 rest
  have h6 := colourLength_le isHexDigit 6 6 rest
  split at hn
  · omega
  · split at hn
    · omega
    · split at hn <;> omega

/-- The walk does not stop within a code. -/
theorem le_rawIndexFrom {skip left : Nat} {s : Text} (h : skip ≤ s.length) :
    skip ≤ rawIndexFrom skip left s := by
  induction s generalizing skip with
  | nil => exact h.trans (Nat.zero_le _)
  | cons c rest ih =>
    cases skip with
    | zero => exact Nat.zero_le _
    | succ skip =>
      have := ih (Nat.le_of_succ_le_succ h)
      rw [rawIndexFrom]
      omega

/-- What stands before the raw index is, stripped, what stands before the offset. -/
theorem stripFrom_take (skip left : Nat) (s : Text) (h : skip ≤ s.length) :
    stripFrom skip (s.take (rawIndexFrom skip left s)) = (stripFrom skip s).take left := by
  induction s generalizing skip left with
  | nil => cases skip <;> simp [rawIndexFrom, stripFrom]
  | cons c rest ih =>
    cases skip with
    | succ skip =>
      rw [rawIndexFrom, Nat.add_comm 1 (rawIndexFrom skip left rest), List.take_succ_cons]
      exact ih skip left (Nat.le_of_succ_le_succ h)
    | zero =>
      cases left with
      | zero => simp [rawIndexFrom, stripFrom]
      | succ left =>
        cases hc : formatLength (c :: rest) with
        | zero =>
          have hc' := formatLength_eq_zero.mp hc
          simp only [rawIndexFrom, hc]
          rw [Nat.add_comm, List.take_succ_cons, stripFrom_visible hc', stripFrom_visible hc',
            List.take_succ_cons, ih 0 left (Nat.zero_le _)]
        | succ n =>
          have hn := formatLength_le hc
          have hkept : formatLength (c :: rest.take (rawIndexFrom n (left + 1) rest)) = n + 1 :=
            formatLength_take hc (le_rawIndexFrom hn)
          simp only [rawIndexFrom, hc]
          rw [Nat.add_comm, List.take_succ_cons, stripFrom, hkept, stripFrom, hc]
          exact ih n (left + 1) hn

/-- The client and the matchers read one grammar. What the runs say is the stripped text,
and a cut at a visible offset leaves on each side what the whole has there. -/
theorem formatting_one_way (raw : Text) :
    texts (parseIrcFormatting raw) = stripFormatting raw ∧
      ∀ visibleOffset : Nat,
        stripFormatting (raw.drop (rawIndexForVisibleOffset raw visibleOffset)) =
          (stripFormatting raw).drop visibleOffset ∧
        stripFormatting (raw.take (rawIndexForVisibleOffset raw visibleOffset)) =
          (stripFormatting raw).take visibleOffset :=
  ⟨texts_parseFrom 0 {} [] raw, fun visibleOffset =>
    ⟨stripFormatting_drop raw visibleOffset, stripFrom_take 0 visibleOffset raw (Nat.zero_le _)⟩⟩

end Lurker.Chat
