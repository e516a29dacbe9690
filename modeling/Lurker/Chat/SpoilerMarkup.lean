import Mathlib.Data.List.Infix
import Lurker.Chat.Formatting
import Lurker.Lib.Utf16

/-!
# Spoilers as they are written and as they are sent

`||text||` goes out as text in grey on grey, which a client hides. What the markup makes of
a text reads, by the formatting state machine, as the text with the paired delimiters taken
out and their contents hidden. The sender then cuts the line without knowing of the colour:
a message hides what it has of a spoiler exactly where it has the code that opens it too.
-/

namespace Lurker.Chat.SpoilerMarkup

open Utf16 (utf8Bytes)

/-- The code that opens a spoiler, grey on grey. -/
def spoilerOpen : Text := 0x03 :: text "14,14"

def spoilerCloseBeforeDigit : Text := 0x03 :: text "99,99"

def spoilerClose (next : Option CodeUnit) : Text :=
  if next.any isDigit then spoilerCloseBeforeDigit else [0x03]

structure Token where
  delim : Bool
  value : Text
deriving DecidableEq

def bar : Text := text "||"

/-- The text token of what is buffered, none of nothing. -/
def flushToken (buf : Text) : List Token := if buf = [] then [] else [⟨false, buf⟩]

/-- The walk of `tokenize`: units still of a match, and what is buffered. -/
def tokenizeFrom : Nat → Text → Text → List Token
  | _, buf, [] => flushToken buf
  | skip + 1, buf, _ :: rest => tokenizeFrom skip buf rest
  | 0, buf, c :: rest =>
    if (text "\\||").isPrefixOf (c :: rest) then tokenizeFrom 2 (buf ++ bar) rest
    else if bar.isPrefixOf (c :: rest) then flushToken buf ++ ⟨true, bar⟩ :: tokenizeFrom 1 [] rest
    else tokenizeFrom 0 (buf ++ [c]) rest

def tokenize (s : Text) : List Token := tokenizeFrom 0 [] s

/-- The content up to the next delimiter, and how many tokens it and the delimiter are. -/
def gather : List Token → Option (Text × Nat)
  | [] => none
  | t :: tokens =>
    if t.delim then some ([], 1)
    else (gather tokens).map fun found => (t.value ++ found.1, found.2 + 1)

/-- The first unit of the text token that follows a close. -/
def following (tokens : List Token) : Option CodeUnit :=
  match tokens with
  | [] => none
  | t :: _ => if t.delim then none else t.value.head?

/-- What the loop puts out: literal text, or a spoiler. -/
inductive Part
  | plain (s : Text)
  | spoiler (content close : Text)
deriving DecidableEq

def Part.render : Part → Text
  | .plain s => s
  | .spoiler content close => spoilerOpen ++ content ++ close

def render (parts : List Part) : Text := parts.flatMap Part.render

/-- The loop of `applySpoilerMarkup`, with the tokens it has already passed. -/
def assemble : Nat → List Token → List Part
  | _, [] => []
  | skip + 1, _ :: tokens => assemble skip tokens
  | 0, t :: tokens =>
    if t.delim then
      match gather tokens with
      | some (c :: content, n) =>
        .spoiler (c :: content) (spoilerClose (following (tokens.drop n))) :: assemble n tokens
      | _ => .plain bar :: assemble 0 tokens
    else .plain t.value :: assemble 0 tokens

def includes (pattern : Text) : Text → Bool
  | [] => pattern.isEmpty
  | c :: rest => pattern.isPrefixOf (c :: rest) || includes pattern rest

def applySpoilerMarkup (s : Text) : Text :=
  if includes bar s then render (assemble 0 (tokenize s)) else s

def hidesText (fg bg : Option IrcColor) : Bool :=
  if fg = none ∨ fg ≠ bg then false
  else
    match fg with
    | some (.hex _) => true
    | some (.slot n) => n ≤ 15
    | none => false

def hiddenIn (style : Style) : Bool := hidesText style.fg style.bg

/-- The visible units of a text, each with whether a client hides it. -/
def shown (s : Text) : List (CodeUnit × Bool) :=
  (parseIrcFormatting s).flatMap fun run => run.text.map (·, hiddenIn run.style)

/-- Where the visible units of a text stand in it, after the units still of a code. -/
def visibleFrom : Nat → Nat → Text → List Nat
  | _, _, [] => []
  | skip + 1, i, _ :: rest => visibleFrom skip (i + 1) rest
  | 0, i, c :: rest =>
    match formatLength (c :: rest) with
    | 0 => i :: visibleFrom 0 (i + 1) rest
    | n + 1 => visibleFrom n (i + 1) rest

/-- The visible units with where they stand. -/
def shownAt (s : Text) : List (Nat × CodeUnit × Bool) := (visibleFrom 0 0 s).zip (shown s)

/-- A piece of a line by where it starts and stops. -/
structure Cut where
  start : Nat
  stop : Nat

-- the platform's line breaker: the pieces of a line for a budget of bytes
variable (lineBreak : Text → Nat → List Cut)

/-- The pieces of a line with where they start. -/
def chunk (s : Text) (bytes : Nat) : List (Nat × Text) :=
  let pieces := (lineBreak s bytes).map fun cut =>
    (cut.start, (s.drop cut.start).take (cut.stop - cut.start))
  if pieces = [] ∧ s ≠ [] ∧ utf8Bytes s ≤ bytes then [(0, s)] else pieces

/-- The walk of `split(/\r\n|\n|\r/)`: units still of a break, where the line started, and
the line so far. -/
def splitLinesFrom : Nat → Nat → Text → Text → List (Nat × Text)
  | _, start, line, [] => [(start, line)]
  | skip + 1, start, line, _ :: rest => splitLinesFrom skip start line rest
  | 0, start, line, c :: rest =>
    if (text "\r\n").isPrefixOf (c :: rest) then
      (start, line) :: splitLinesFrom 1 (start + line.length + 2) [] rest
    else if c = unit '\n' ∨ c = unit '\r' then
      (start, line) :: splitLinesFrom 0 (start + line.length + 1) [] rest
    else splitLinesFrom 0 start (line ++ [c]) rest

/-- The message bodies with where they start in the text. -/
def splitSayAt (s : Text) (bytes : Nat) : List (Nat × Text) :=
  if s = [] then []
  else (splitLinesFrom 0 0 [] s).flatMap fun line =>
    if line.2 = [] then []
    else (chunk lineBreak line.2 bytes).map fun piece => (line.1 + piece.1, piece.2)

def splitSay (s : Text) (bytes : Nat) : List Text := (splitSayAt lineBreak s bytes).map Prod.snd

/-- A unit as it reads, or a delimiter. -/
inductive Mark
  | char (c : CodeUnit)
  | delim
deriving DecidableEq

/-- `\||` is two literal units, any other `||` a delimiter. -/
def marksFrom : Nat → Text → List Mark
  | _, [] => []
  | skip + 1, _ :: rest => marksFrom skip rest
  | 0, c :: rest =>
    if (text "\\||").isPrefixOf (c :: rest) then bar.map .char ++ marksFrom 2 rest
    else if bar.isPrefixOf (c :: rest) then .delim :: marksFrom 1 rest
    else .char c :: marksFrom 0 rest

/-- What stands before the next delimiter, where there is one. -/
def between : List Mark → Option Text
  | [] => none
  | .delim :: _ => some []
  | .char c :: marks => (between marks).map (c :: ·)

/-- A delimiter pairs with the next one when there is something between; else it is literal.
Each unit reads with whether it is in a pair. -/
def readFrom : Nat → List Mark → List (CodeUnit × Bool)
  | _, [] => []
  | skip + 1, _ :: marks => readFrom skip marks
  | 0, .char c :: marks => (c, false) :: readFrom 0 marks
  | 0, .delim :: marks =>
    match between marks with
    | some (c :: content) =>
      (c :: content).map (·, true) ++ readFrom (content.length + 2) marks
    | _ => bar.map (·, false) ++ readFrom 0 marks

def reading (s : Text) : List (CodeUnit × Bool) := readFrom 0 (marksFrom 0 s)

/-- A text as it is composed, without formatting control characters. -/
structure Composed where
  units : Text
  plain : ∀ c ∈ units, isControl c = false

/-- What the author hid, by the reading: where each unit of it stands on the wire. -/
def contents (t : Composed) : List (Nat × CodeUnit) :=
  ((visibleFrom 0 0 (applySpoilerMarkup t.units)).zip (reading t.units)).filterMap fun u =>
    if u.2.2 then some (u.1, u.2.1) else none

/-- What the author hid stays hidden: the text reads as it was meant, and each message body
hides on its own what it has of the paired contents. -/
structure StaysHidden (t : Composed) (bytes : Nat) : Prop where
  reads : shown (applySpoilerMarkup t.units) = reading t.units
  wire : ∀ body ∈ splitSayAt lineBreak (applySpoilerMarkup t.units) bytes,
    ∀ u ∈ contents t, body.1 ≤ u.1 → u.1 < body.1 + body.2.length →
      (u.1 - body.1, u.2, true) ∈ shownAt body.2

/-- No cut falls between the code that opens a spoiler and a unit of its content: of each unit
that a body has, the code stands no earlier than the body. -/
def Carried (t : Composed) (bytes : Nat) : Prop :=
  ∀ body ∈ splitSayAt lineBreak (applySpoilerMarkup t.units) bytes,
    ∀ u ∈ contents t, body.1 ≤ u.1 → u.1 < body.1 + body.2.length →
      ∃ code, body.1 ≤ code ∧ code < u.1 ∧ (applySpoilerMarkup t.units)[code]? = some 0x03

theorem plain_of_all {s : Text} (h : s.all (fun c => !isControl c) = true) :
    ∀ c ∈ s, isControl c = false := fun c hc => by
  simpa using List.all_eq_true.mp h c hc

theorem bar_plain : ∀ c ∈ bar, isControl c = false := plain_of_all (by decide)

theorem colour_plain : ∀ c ∈ text "14,14", isControl c = false := plain_of_all (by decide)

/-- A colour code has one control unit, the first. -/
theorem colour_control {code : CodeUnit} {digits : Text}
    (h : digits.all (fun c => !isControl c) = true) :
    ∀ c ∈ code :: digits, isControl c = true → c = code := by
  intro c hc hcontrol
  rcases List.mem_cons.mp hc with rfl | hc
  · rfl
  · rw [plain_of_all h c hc] at hcontrol
    cases hcontrol

/-- The walk of the state machine, each visible unit with where it stands and whether it is
hidden. -/
def placeFrom : Nat → Nat → Style → Text → List (Nat × CodeUnit × Bool)
  | _, _, _, [] => []
  | skip + 1, i, style, _ :: rest => placeFrom skip (i + 1) style rest
  | 0, i, style, c :: rest =>
    match readCode style c rest with
    | some (style', used) => placeFrom used (i + 1) style' rest
    | none => (i, c, hiddenIn style) :: placeFrom 0 (i + 1) style rest

theorem shown_parseFrom (skip i : Nat) (style : Style) (buf rest : Text) :
    (parseFrom skip style buf rest).flatMap (fun run => run.text.map (·, hiddenIn run.style)) =
      buf.map (·, hiddenIn style) ++ (placeFrom skip i style rest).map Prod.snd := by
  have hflush (style : Style) (buf : Text) :
      (flush style buf).flatMap (fun run => run.text.map (·, hiddenIn run.style)) =
        buf.map (·, hiddenIn style) := by
    rw [flush]
    split
    · rename_i h
      rw [h]
      rfl
    · exact List.append_nil _
  induction rest generalizing skip i style buf with
  | nil => cases skip <;> simp [parseFrom, placeFrom, hflush]
  | cons c rest ih =>
    cases skip with
    | succ skip => exact ih skip (i + 1) style buf
    | zero =>
      rw [parseFrom, placeFrom]
      cases hcode : readCode style c rest with
      | none =>
        dsimp only
        rw [ih 0 (i + 1), List.map_append, List.append_assoc]
        rfl
      | some next =>
        obtain ⟨style', used⟩ := next
        dsimp only
        rw [List.flatMap_append, hflush, ih used (i + 1)]
        rfl

theorem visible_placeFrom (skip i : Nat) (style : Style) (s : Text) :
    visibleFrom skip i s = (placeFrom skip i style s).map Prod.fst := by
  induction s generalizing skip i style with
  | nil => cases skip <;> rfl
  | cons c rest ih =>
    cases skip with
    | succ skip => exact ih skip (i + 1) style
    | zero =>
      have hspec := readCode_spec style c rest
      rw [placeFrom, visibleFrom]
      cases hcode : readCode style c rest with
      | none =>
        rw [hcode] at hspec
        rw [hspec]
        exact congrArg (i :: ·) (ih 0 (i + 1) style)
      | some next =>
        obtain ⟨style', used⟩ := next
        rw [hcode] at hspec
        rw [hspec]
        exact ih used (i + 1) style'

theorem shown_eq (s : Text) : shown s = (placeFrom 0 0 {} s).map Prod.snd :=
  shown_parseFrom 0 0 {} [] s

theorem shownAt_eq (s : Text) : shownAt s = placeFrom 0 0 {} s := by
  rw [shownAt, shown_eq, visible_placeFrom 0 0 {} s]
  exact (List.zip_of_prod rfl rfl).symm

/-- Literal units from a place on. -/
def labelled (hidden : Bool) : Nat → Text → List (Nat × CodeUnit × Bool)
  | _, [] => []
  | i, c :: s => (i, c, hidden) :: labelled hidden (i + 1) s

theorem labelled_snd (hidden : Bool) (i : Nat) (s : Text) :
    (labelled hidden i s).map Prod.snd = s.map (·, hidden) := by
  induction s generalizing i with
  | nil => rfl
  | cons c s ih => exact congrArg ((c, hidden) :: ·) (ih (i + 1))

theorem mem_labelled {hidden : Bool} {i : Nat} {s : Text} {u : Nat × CodeUnit × Bool} :
    u ∈ labelled hidden i s ↔
      ∃ front back, s = front ++ u.2.1 :: back ∧ u.1 = i + front.length ∧ u.2.2 = hidden := by
  induction s generalizing i with
  | nil => simp [labelled]
  | cons c s ih =>
    rw [labelled, List.mem_cons, ih]
    constructor
    · rintro (rfl | ⟨front, back, rfl, hi, hh⟩)
      · exact ⟨[], s, rfl, rfl, rfl⟩
      · exact ⟨c :: front, back, rfl, by rw [hi, List.length_cons]; omega, hh⟩
    · rintro ⟨front, back, hs, hi, hh⟩
      cases front with
      | nil =>
        cases hs
        exact .inl (Prod.ext hi (Prod.ext rfl hh))
      | cons d front =>
        cases hs
        exact .inr ⟨front, back, rfl, by rw [hi, List.length_cons]; omega, hh⟩

theorem readCode_plain {c : CodeUnit} (hc : isControl c = false) (style : Style) (rest : Text) :
    readCode style c rest = none := by
  have hspec := readCode_spec style c rest
  rw [formatLength_eq_zero.mpr hc] at hspec
  cases hcode : readCode style c rest with
  | none => rfl
  | some next =>
    rw [hcode] at hspec
    cases hspec

/-- Literal text is shown in the style it meets. -/
theorem placeFrom_plain {s : Text} (hs : ∀ c ∈ s, isControl c = false) (i : Nat) (style : Style)
    (rest : Text) : placeFrom 0 i style (s ++ rest) =
      labelled (hiddenIn style) i s ++ placeFrom 0 (i + s.length) style rest := by
  induction s generalizing i with
  | nil => rfl
  | cons c s ih =>
    rw [List.cons_append, placeFrom, readCode_plain (hs c List.mem_cons_self)]
    dsimp only
    rw [ih (fun d hd => hs d (List.mem_cons_of_mem c hd)), labelled, List.length_cons,
      show i + 1 + s.length = i + (s.length + 1) by omega]
    rfl

theorem placeFrom_skip (s : Text) (i : Nat) (style : Style) (rest : Text) :
    placeFrom s.length i style (s ++ rest) = placeFrom 0 (i + s.length) style rest := by
  induction s generalizing i with
  | nil => rfl
  | cons c s ih =>
    rw [List.length_cons, List.cons_append, placeFrom, ih,
      show i + 1 + s.length = i + (s.length + 1) by omega]

def grey : Option IrcColor := some (.slot 14)

theorem placeFrom_open (i : Nat) (style : Style) (rest : Text) :
    placeFrom 0 i style (spoilerOpen ++ rest) =
      placeFrom 0 (i + spoilerOpen.length) { style with fg := grey, bg := grey } rest :=
  placeFrom_skip (text "14,14") (i + 1) { style with fg := grey, bg := grey } rest

def noColour : Option IrcColor := some (.slot 99)

theorem placeFrom_closeBeforeDigit (i : Nat) (style : Style) (rest : Text) :
    placeFrom 0 i style (spoilerCloseBeforeDigit ++ rest) =
      placeFrom 0 (i + spoilerCloseBeforeDigit.length)
        { style with fg := noColour, bg := noColour } rest :=
  placeFrom_skip (text "99,99") (i + 1) { style with fg := noColour, bg := noColour } rest

theorem placeFrom_close (i : Nat) (style : Style) {rest : Text}
    (hrest : ∀ d ∈ rest.head?, isDigit d = false) :
    placeFrom 0 i style ([0x03] ++ rest) =
      placeFrom 0 (i + 1) { style with fg := none, bg := none } rest := by
  have hdigits : readDigits 2 rest = [] := by
    cases rest with
    | nil => rfl
    | cons d rest => rw [readDigits, hrest d rfl]; rfl
  have hcode : readCode style 0x03 rest = some ({ style with fg := none, bg := none }, 0) := by
    change some (readColour style rest) = _
    rw [readColour, hdigits]
    rfl
  rw [List.singleton_append, placeFrom, hcode]

/-- The visible units of the parts with where they stand. -/
def partsPlaced : Nat → List Part → List (Nat × CodeUnit × Bool)
  | _, [] => []
  | i, .plain s :: parts => labelled false i s ++ partsPlaced (i + s.length) parts
  | i, .spoiler content close :: parts =>
    labelled true (i + spoilerOpen.length) content ++
      partsPlaced (i + spoilerOpen.length + content.length + close.length) parts

def Part.read : Part → List (CodeUnit × Bool)
  | .plain s => s.map (·, false)
  | .spoiler content _ => content.map (·, true)

theorem partsPlaced_snd (i : Nat) (parts : List Part) :
    (partsPlaced i parts).map Prod.snd = parts.flatMap Part.read := by
  induction parts generalizing i with
  | nil => rfl
  | cons part parts ih =>
    cases part with
    | plain s => rw [partsPlaced, List.map_append, labelled_snd, ih]; rfl
    | spoiler content close => rw [partsPlaced, List.map_append, labelled_snd, ih]; rfl

/-- What a part of the markup meets: the text is literal, and a close ends the colour. -/
def Closed : List Part → Prop
  | [] => True
  | .plain s :: parts => (∀ c ∈ s, isControl c = false) ∧ Closed parts
  | .spoiler content close :: parts =>
    (∀ c ∈ content, isControl c = false) ∧
      (close = spoilerCloseBeforeDigit ∨
        close = [0x03] ∧ ∀ d ∈ (render parts).head?, isDigit d = false) ∧
      Closed parts

/-- The state machine reads closed parts as they were put together. -/
theorem placeFrom_render {parts : List Part} (hparts : Closed parts) (i : Nat) {style : Style}
    (hstyle : hiddenIn style = false) :
    placeFrom 0 i style (render parts) = partsPlaced i parts := by
  induction parts generalizing i style with
  | nil => rfl
  | cons part parts ih =>
    rw [render, List.flatMap_cons]
    change placeFrom 0 i style (part.render ++ render parts) = _
    cases part with
    | plain s =>
      rw [Part.render, placeFrom_plain hparts.1, hstyle, ih hparts.2 _ hstyle, partsPlaced]
    | spoiler content close =>
      obtain ⟨hcontent, hclose, hrest⟩ := hparts
      rw [Part.render, List.append_assoc, List.append_assoc, placeFrom_open,
        placeFrom_plain hcontent, partsPlaced]
      refine congrArg (labelled true _ content ++ ·) ?_
      rcases hclose with rfl | ⟨rfl, hhead⟩
      · rw [placeFrom_closeBeforeDigit, ih hrest _ rfl]
      · rw [placeFrom_close _ _ hhead, ih hrest _ rfl]
        rfl

def Token.marks (t : Token) : List Mark := if t.delim then [.delim] else t.value.map .char

theorem flushToken_marks (buf : Text) : (flushToken buf).flatMap Token.marks = buf.map .char := by
  rw [flushToken]
  split
  · rename_i h
    rw [h]
    rfl
  · exact List.append_nil _

theorem tokenizeFrom_marks (skip : Nat) (buf s : Text) :
    (tokenizeFrom skip buf s).flatMap Token.marks = buf.map .char ++ marksFrom skip s := by
  induction s generalizing skip buf with
  | nil => cases skip <;> simp [tokenizeFrom, marksFrom, flushToken_marks]
  | cons c rest ih =>
    cases skip with
    | succ skip => exact ih skip buf
    | zero =>
      rw [tokenizeFrom, marksFrom]
      split
      · rw [ih, List.map_append, List.append_assoc]
      split
      · rw [List.flatMap_append, flushToken_marks, List.flatMap_cons, ih]
        rfl
      · rw [ih, List.map_append, List.append_assoc]
        rfl

/-- What is gathered is what the marks have before the next delimiter. -/
theorem gather_some {tokens : List Token} {content : Text} {n : Nat}
    (h : gather tokens = some (content, n)) :
    tokens.flatMap Token.marks =
      content.map .char ++ .delim :: (tokens.drop n).flatMap Token.marks := by
  induction tokens generalizing content n with
  | nil => cases h
  | cons t tokens ih =>
    rw [gather] at h
    split at h
    · rename_i hdelim
      cases h
      rw [List.flatMap_cons, Token.marks, if_pos hdelim]
      rfl
    · rename_i htext
      obtain ⟨⟨content', n'⟩, hfound, heq⟩ := Option.map_eq_some_iff.mp h
      cases heq
      rw [List.flatMap_cons, Token.marks, if_neg htext, ih hfound, List.map_append,
        List.append_assoc, List.drop_succ_cons]

theorem between_chars (content : Text) (marks : List Mark) :
    between (content.map .char ++ marks) = (between marks).map (content ++ ·) := by
  induction content with
  | nil => cases h : between marks <;> simp [h]
  | cons c content ih =>
    rw [List.map_cons, List.cons_append, between, ih, Option.map_map]
    rfl

theorem between_gather (tokens : List Token) :
    between (tokens.flatMap Token.marks) = (gather tokens).map Prod.fst := by
  induction tokens with
  | nil => rfl
  | cons t tokens ih =>
    rw [List.flatMap_cons, Token.marks, gather]
    split
    · rfl
    · rw [between_chars, ih, Option.map_map, Option.map_map]
      rfl

theorem readFrom_drop (skip : Nat) (marks : List Mark) :
    readFrom skip marks = readFrom 0 (marks.drop skip) := by
  induction marks generalizing skip with
  | nil => cases skip <;> rfl
  | cons m marks ih =>
    cases skip with
    | zero => rfl
    | succ skip => exact ih skip

theorem assemble_drop (skip : Nat) (tokens : List Token) :
    assemble skip tokens = assemble 0 (tokens.drop skip) := by
  induction tokens generalizing skip with
  | nil => cases skip <;> rfl
  | cons t tokens ih =>
    cases skip with
    | zero => rfl
    | succ skip => exact ih skip

theorem readFrom_chars (content : Text) (marks : List Mark) :
    readFrom 0 (content.map .char ++ marks) = content.map (·, false) ++ readFrom 0 marks := by
  induction content with
  | nil => rfl
  | cons c content ih => exact congrArg ((c, false) :: ·) ih

/-- The loop reads the tokens as the marks are read. -/
theorem assemble_read (tokens : List Token) :
    (assemble 0 tokens).flatMap Part.read = readFrom 0 (tokens.flatMap Token.marks) := by
  induction hlen : tokens.length using Nat.strong_induction_on generalizing tokens with
  | _ length ih =>
    subst hlen
    cases tokens with
    | nil => rfl
    | cons t tokens =>
      have hnext : (assemble 0 tokens).flatMap Part.read =
          readFrom 0 (tokens.flatMap Token.marks) := ih _ (Nat.lt_succ_self _) tokens rfl
      rw [assemble, List.flatMap_cons, Token.marks]
      by_cases hdelim : t.delim = true
      · have hbetween := between_gather tokens
        rw [if_pos hdelim, if_pos hdelim, List.singleton_append, readFrom]
        match hgather : gather tokens with
        | some (c :: content, n) =>
          have hmarks := gather_some hgather
          have hdrop : (tokens.flatMap Token.marks).drop (content.length + 2) =
              (tokens.drop n).flatMap Token.marks := by
            rw [hmarks, List.map_cons, List.cons_append, List.drop_succ_cons,
              List.append_cons]
            exact List.drop_left' (by simp)
          rw [hgather] at hbetween
          rw [hbetween]
          dsimp only [Option.map_some]
          rw [readFrom_drop, hdrop, List.flatMap_cons, assemble_drop,
            ih _ (by rw [List.length_drop, List.length_cons]; omega) _ rfl]
          rfl
        | some ([], n) =>
          rw [hgather] at hbetween
          rw [hbetween]
          exact congrArg (bar.map (·, false) ++ ·) hnext
        | none =>
          rw [hgather] at hbetween
          rw [hbetween]
          exact congrArg (bar.map (·, false) ++ ·) hnext
      · rw [if_neg hdelim, if_neg hdelim, List.flatMap_cons, hnext, readFrom_chars]
        rfl

/-- Text tokens say something, and nothing that formats. -/
def Clean (tokens : List Token) : Prop :=
  ∀ t ∈ tokens, t.delim = false → t.value ≠ [] ∧ ∀ c ∈ t.value, isControl c = false

theorem flushToken_clean {buf : Text} (hbuf : ∀ c ∈ buf, isControl c = false) :
    Clean (flushToken buf) := by
  intro t ht _
  rw [flushToken] at ht
  split at ht
  · cases ht
  · rename_i hne
    rw [List.mem_singleton.mp ht]
    exact ⟨hne, hbuf⟩

theorem tokenizeFrom_clean {skip : Nat} {buf s : Text} (hbuf : ∀ c ∈ buf, isControl c = false)
    (hs : ∀ c ∈ s, isControl c = false) : Clean (tokenizeFrom skip buf s) := by
  induction s generalizing skip buf with
  | nil => cases skip <;> exact flushToken_clean hbuf
  | cons c rest ih =>
    have hrest : ∀ d ∈ rest, isControl d = false := fun d hd => hs d (List.mem_cons_of_mem c hd)
    cases skip with
    | succ skip => exact ih hbuf hrest
    | zero =>
      rw [tokenizeFrom]
      split
      · refine ih (fun d hd => ?_) hrest
        rcases List.mem_append.mp hd with hd | hd
        · exact hbuf d hd
        · exact bar_plain d hd
      split
      · intro t ht hdelim
        rcases List.mem_append.mp ht with ht | ht
        · exact flushToken_clean hbuf t ht hdelim
        rcases List.mem_cons.mp ht with rfl | ht
        · cases hdelim
        · exact ih (fun _ h => absurd h List.not_mem_nil) hrest t ht hdelim
      · refine ih (fun d hd => ?_) hrest
        rcases List.mem_append.mp hd with hd | hd
        · exact hbuf d hd
        · rw [List.mem_singleton.mp hd]
          exact hs c List.mem_cons_self

theorem Clean.tail {t : Token} {tokens : List Token} (h : Clean (t :: tokens)) : Clean tokens :=
  fun u hu => h u (List.mem_cons_of_mem t hu)

theorem Clean.drop {tokens : List Token} (h : Clean tokens) (n : Nat) : Clean (tokens.drop n) :=
  fun u hu => h u (List.mem_of_mem_drop hu)

theorem gather_clean {tokens : List Token} (h : Clean tokens) {content : Text} {n : Nat}
    (hgather : gather tokens = some (content, n)) : ∀ c ∈ content, isControl c = false := by
  induction tokens generalizing content n with
  | nil => cases hgather
  | cons t tokens ih =>
    rw [gather] at hgather
    split at hgather
    · cases hgather
      exact fun _ hc => absurd hc List.not_mem_nil
    · rename_i htext
      obtain ⟨⟨content', n'⟩, hfound, heq⟩ := Option.map_eq_some_iff.mp hgather
      cases heq
      intro c hc
      rcases List.mem_append.mp hc with hc | hc
      · exact (h t List.mem_cons_self (by simpa using htext)).2 c hc
      · exact ih h.tail hfound c hc

theorem render_cons (part : Part) (parts : List Part) :
    render (part :: parts) = part.render ++ render parts := List.flatMap_cons

/-- A digit comes next only as the first unit of a text. -/
theorem render_head {tokens : List Token} (h : Clean tokens) {d : CodeUnit}
    (hd : d ∈ (render (assemble 0 tokens)).head?) (hdigit : isDigit d = true) :
    following tokens = some d := by
  cases tokens with
  | nil => cases hd
  | cons t tokens =>
    rw [assemble] at hd
    rw [following]
    by_cases hdelim : t.delim = true
    · have hnot {first : CodeUnit} {rest : Text} (hfirst : isDigit first = false)
          (hd : d ∈ (first :: rest).head?) : False := by
        cases hd
        rw [hfirst] at hdigit
        cases hdigit
      rw [if_pos hdelim] at hd
      split at hd
      · rw [render_cons] at hd
        exact (hnot (by decide : isDigit 0x03 = false) hd).elim
      · rw [render_cons] at hd
        exact (hnot (by decide : isDigit (unit '|') = false) hd).elim
    · have hne := (h t List.mem_cons_self (by simpa using hdelim)).1
      rw [if_neg hdelim, render_cons, Part.render] at hd
      rw [if_neg hdelim]
      obtain ⟨c, v, hv⟩ := List.exists_cons_of_ne_nil hne
      rw [hv] at hd ⊢
      exact hd

theorem assemble_closed {tokens : List Token} (h : Clean tokens) : Closed (assemble 0 tokens) := by
  induction hlen : tokens.length using Nat.strong_induction_on generalizing tokens with
  | _ length ih =>
    subst hlen
    cases tokens with
    | nil => trivial
    | cons t tokens =>
      have hnext : Closed (assemble 0 tokens) := ih _ (Nat.lt_succ_self _) h.tail rfl
      rw [assemble]
      split
      · split
        · rename_i c content n hgather
          rw [assemble_drop]
          refine ⟨gather_clean h.tail hgather, ?_, ih _
            (by rw [List.length_drop, List.length_cons]; omega) (h.tail.drop n) rfl⟩
          rw [spoilerClose]
          split
          · exact Or.inl rfl
          · rename_i hplain
            refine Or.inr ⟨rfl, fun d hd => ?_⟩
            by_contra hdigit
            rw [Bool.not_eq_false] at hdigit
            rw [render_head (h.tail.drop n) hd hdigit] at hplain
            exact hplain hdigit
        · exact ⟨bar_plain, hnext⟩
      · rename_i htext
        exact ⟨(h t List.mem_cons_self (by simpa using htext)).2, hnext⟩

/-- Without a delimiter there is nothing to pair. -/
theorem marksFrom_literal {s : Text} (h : includes bar s = false) :
    marksFrom 0 s = s.map .char := by
  induction s with
  | nil => rfl
  | cons c rest ih =>
    rw [includes, Bool.or_eq_false_iff] at h
    have hescape : ¬ (text "\\||").isPrefixOf (c :: rest) = true := by
      intro hstart
      have hrest : bar.isPrefixOf rest = true := (Bool.and_eq_true_iff.mp hstart).2
      have hin : includes bar rest = true := by
        cases rest with
        | nil => cases hrest
        | cons d more => rw [includes, hrest, Bool.true_or]
      rw [hin] at h
      cases h.2
    rw [marksFrom, if_neg hescape, if_neg (by rw [h.1]; exact Bool.false_ne_true), ih h.2]
    rfl

/-- The parts a composed text is put together from. -/
theorem markup_parts (t : Composed) : ∃ parts, Closed parts ∧
    applySpoilerMarkup t.units = render parts ∧ parts.flatMap Part.read = reading t.units := by
  rw [applySpoilerMarkup]
  split
  · refine ⟨_, assemble_closed (tokenizeFrom_clean (fun _ h => absurd h List.not_mem_nil) t.plain),
      rfl, ?_⟩
    rw [assemble_read, tokenizeFrom_marks]
    rfl
  · rename_i hnone
    refine ⟨[.plain t.units], ⟨t.plain, trivial⟩, (List.append_nil _).symm, ?_⟩
    have hread := readFrom_chars t.units []
    rw [List.append_nil] at hread
    rw [reading, marksFrom_literal (by simpa using hnone), hread]
    rfl

/-- The markup reads as the text was meant. -/
theorem shown_markup (t : Composed) : shown (applySpoilerMarkup t.units) = reading t.units := by
  obtain ⟨parts, hclosed, hmarkup, hread⟩ := markup_parts t
  rw [shown_eq, hmarkup, placeFrom_render hclosed 0 rfl, partsPlaced_snd, hread]

theorem runLength_before {p : CodeUnit → Bool} {code : CodeUnit} (hcode : p code = false)
    (max : Nat) (front rest : Text) : runLength p max (front ++ code :: rest) ≤ front.length := by
  unfold runLength
  induction front generalizing max with
  | nil => cases max <;> simp [hcode]
  | cons c front ih =>
    cases max with
    | zero => exact Nat.zero_le _
    | succ max =>
      rw [List.cons_append, List.take_succ_cons, List.takeWhile_cons]
      split
      · exact Nat.succ_le_succ (ih max)
      · exact Nat.zero_le _

/-- A colour ends before the next code. -/
theorem colourLength_before (front rest : Text) :
    colourLength isDigit 1 2 (front ++ 0x03 :: rest) ≤ front.length := by
  have hfg := runLength_before (by decide : isDigit 0x03 = false) 2 front rest
  unfold colourLength
  dsimp only
  split
  · exact Nat.zero_le _
  rw [List.drop_append_of_le_length hfg]
  cases hmore : front.drop (runLength isDigit 2 (front ++ 0x03 :: rest)) with
  | nil =>
    have hcomma : ¬ ((0x03 : CodeUnit) = unit ',' ∧ 1 ≤ runLength isDigit 2 rest) :=
      fun h => absurd h.1 (by decide)
    rw [List.nil_append]
    dsimp only
    rw [if_neg hcomma]
    exact hfg
  | cons comma more =>
    have hlen := congrArg List.length hmore
    rw [List.length_drop, List.length_cons] at hlen
    have hbg := runLength_before (by decide : isDigit 0x03 = false) 2 more rest
    rw [List.cons_append]
    dsimp only
    split <;> omega

/-- Where the colour code is the only one, the machine stops at each of them. -/
theorem placeFrom_front {front : Text} (hfront : ∀ c ∈ front, isControl c = true → c = 0x03)
    (rest : Text) {skip : Nat} (hskip : skip ≤ front.length) (i : Nat) (style : Style) :
    ∃ before style', placeFrom skip i style (front ++ 0x03 :: rest) =
      before ++ placeFrom 0 (i + front.length) style' (0x03 :: rest) := by
  induction front generalizing skip i style with
  | nil =>
    rw [Nat.le_zero.mp hskip]
    exact ⟨[], style, rfl⟩
  | cons c front ih =>
    have hmore : ∀ d ∈ front, isControl d = true → d = 0x03 :=
      fun d hd => hfront d (List.mem_cons_of_mem c hd)
    have hi : i + (c :: front).length = i + 1 + front.length := by
      rw [List.length_cons]
      omega
    rw [hi, List.cons_append]
    cases skip with
    | succ skip => exact ih hmore (Nat.le_of_succ_le_succ hskip) (i + 1) style
    | zero =>
      have hspec := readCode_spec style c (front ++ 0x03 :: rest)
      rw [placeFrom]
      cases hcode : readCode style c (front ++ 0x03 :: rest) with
      | none =>
        obtain ⟨before, style', h⟩ := ih hmore (Nat.zero_le _) (i + 1) style
        exact ⟨(i, c, hiddenIn style) :: before, style', congrArg (_ :: ·) h⟩
      | some next =>
        obtain ⟨style', used⟩ := next
        rw [hcode] at hspec
        have hcontrol : isControl c = true := by
          by_contra hplain
          rw [formatLength_eq_zero.mpr (by simpa using hplain)] at hspec
          cases hspec
        rw [hfront c List.mem_cons_self hcontrol] at hspec
        have hlen : formatLength (0x03 :: (front ++ 0x03 :: rest)) =
            1 + colourLength isDigit 1 2 (front ++ 0x03 :: rest) := rfl
        have hused := colourLength_before front rest
        rw [hlen] at hspec
        exact ih hmore (by omega) (i + 1) style'

theorem le_of_mem_placeFrom {skip i : Nat} {style : Style} {s : Text}
    {u : Nat × CodeUnit × Bool} (hu : u ∈ placeFrom skip i style s) : i ≤ u.1 := by
  induction s generalizing skip i style with
  | nil => cases skip <;> cases hu
  | cons c rest ih =>
    cases skip with
    | succ skip => exact Nat.le_of_succ_le (ih hu)
    | zero =>
      rw [placeFrom] at hu
      split at hu
      · exact Nat.le_of_succ_le (ih hu)
      · rcases List.mem_cons.mp hu with rfl | hu
        · exact le_rfl
        · exact Nat.le_of_succ_le (ih hu)

/-- Behind the code that opens it, a unit is hidden, whatever the message began with. -/
theorem hidden_behind {front content : Text} {c : CodeUnit}
    (hfront : ∀ d ∈ front, isControl d = true → d = 0x03)
    (hcontent : ∀ d ∈ content, isControl d = false) (hc : isControl c = false) (rest : Text) :
    (front.length + spoilerOpen.length + content.length, c, true) ∈
      placeFrom 0 0 {} (front ++ (spoilerOpen ++ (content ++ c :: rest))) := by
  obtain ⟨before, style, h⟩ := placeFrom_front hfront
    (text "14,14" ++ (content ++ c :: rest)) (Nat.zero_le _) 0 {}
  have hopen := placeFrom_open (0 + front.length) style (content ++ c :: rest)
  rw [placeFrom_plain hcontent, placeFrom, readCode_plain hc] at hopen
  change placeFrom 0 0 {} (front ++ (spoilerOpen ++ (content ++ c :: rest))) =
    before ++ placeFrom 0 (0 + front.length) style
      (spoilerOpen ++ (content ++ c :: rest)) at h
  rw [h, hopen, Nat.zero_add]
  exact List.mem_append_right _ (List.mem_append_right _ List.mem_cons_self)

/-- With no code in front of it, a unit is in the clear. -/
theorem clear_without {front : Text} {c : CodeUnit} (hfront : ∀ d ∈ front, isControl d = false)
    (hc : isControl c = false) (rest : Text) :
    (front.length, c, true) ∉ placeFrom 0 0 {} (front ++ c :: rest) := by
  rw [placeFrom_plain hfront, placeFrom, readCode_plain hc]
  intro hmem
  rcases List.mem_append.mp hmem with hmem | hmem
  · obtain ⟨_, _, _, _, hlabel⟩ := mem_labelled.mp hmem
    cases hlabel
  rcases List.mem_cons.mp hmem with heq | hmem
  · cases congrArg (·.2.2) heq
  · have := le_of_mem_placeFrom hmem
    dsimp only at this
    omega

/-- A unit of a content by what stands around it. -/
structure Placed (s : Text) (p : Nat) (c : CodeUnit) where
  before : Text
  content : Text
  after : Text
  whole : s = before ++ (spoilerOpen ++ (content ++ c :: after))
  place : p = before.length + spoilerOpen.length + content.length
  plain : ∀ d ∈ content, isControl d = false
  plainUnit : isControl c = false

theorem placed_of_mem {parts : List Part} (hparts : Closed parts) {i p : Nat} {c : CodeUnit}
    (h : (p, c, true) ∈ partsPlaced i parts) :
    ∃ q, p = i + q ∧ Nonempty (Placed (render parts) q c) := by
  induction parts generalizing i with
  | nil => cases h
  | cons part parts ih =>
    have hlater {j : Nat} (hrest : Closed parts) (hj : j = i + part.render.length)
        (h : (p, c, true) ∈ partsPlaced j parts) :
        ∃ q, p = i + q ∧ Nonempty (Placed (render (part :: parts)) q c) := by
      obtain ⟨q, hp, ⟨before, content, after, hwhole, hplace, hplain, hc⟩⟩ := ih hrest h
      refine ⟨part.render.length + q, by omega, ⟨part.render ++ before, content, after, ?_, ?_,
        hplain, hc⟩⟩
      · rw [render_cons, hwhole, List.append_assoc]
      · rw [List.length_append]
        omega
    cases part with
    | plain s =>
      rcases List.mem_append.mp h with h | h
      · obtain ⟨_, _, _, _, hlabel⟩ := mem_labelled.mp h
        cases hlabel
      · exact hlater hparts.2 rfl h
    | spoiler content close =>
      rcases List.mem_append.mp h with h | h
      · obtain ⟨front, back, hcontent, hp, _⟩ := mem_labelled.mp h
        dsimp only at hcontent hp
        have hplain := hparts.1
        rw [hcontent] at hplain
        refine ⟨spoilerOpen.length + front.length, by omega, ⟨[], front,
          back ++ (close ++ render parts), ?_, by rw [List.length_nil]; omega,
          fun d hd => hplain d (List.mem_append_left _ hd),
          hplain c (List.mem_append_right _ List.mem_cons_self)⟩⟩
        rw [render_cons, Part.render, hcontent]
        simp only [List.append_assoc, List.cons_append, List.nil_append]
      · refine hlater hparts.2.2 ?_ h
        rw [Part.render, List.length_append, List.length_append]
        omega

theorem contents_mem {t : Composed} {p : Nat} {c : CodeUnit} :
    (p, c) ∈ contents t ↔ (p, c, true) ∈ placeFrom 0 0 {} (applySpoilerMarkup t.units) := by
  have hzip : (visibleFrom 0 0 (applySpoilerMarkup t.units)).zip (reading t.units) =
      placeFrom 0 0 {} (applySpoilerMarkup t.units) := by
    rw [← shown_markup, ← shownAt_eq]
    rfl
  rw [contents, hzip, List.mem_filterMap]
  constructor
  · rintro ⟨⟨q, d, hidden⟩, hmem, heq⟩
    cases hidden with
    | false => cases heq
    | true =>
      cases heq
      exact hmem
  · exact fun hmem => ⟨_, hmem, rfl⟩

theorem contents_placed {t : Composed} {u : Nat × CodeUnit} (hu : u ∈ contents t) :
    Nonempty (Placed (applySpoilerMarkup t.units) u.1 u.2) := by
  obtain ⟨parts, hclosed, hmarkup, -⟩ := markup_parts t
  have hmem := contents_mem.mp hu
  rw [hmarkup, placeFrom_render hclosed 0 rfl] at hmem
  obtain ⟨q, hq, hplaced⟩ := placed_of_mem hclosed hmem
  rw [Nat.zero_add] at hq
  rw [hmarkup, hq]
  exact hplaced

/-- The markup writes no code but the colour. -/
theorem render_control {parts : List Part} (hparts : Closed parts) :
    ∀ c ∈ render parts, isControl c = true → c = 0x03 := by
  have hplain {s : Text} (hs : ∀ c ∈ s, isControl c = false) :
      ∀ c ∈ s, isControl c = true → c = 0x03 := fun c hc hcontrol => by
    rw [hs c hc] at hcontrol
    cases hcontrol
  induction parts with
  | nil => exact fun _ hc => absurd hc List.not_mem_nil
  | cons part parts ih =>
    rw [render_cons]
    intro c hc
    cases part with
    | plain s =>
      rcases List.mem_append.mp hc with hc | hc
      · exact hplain hparts.1 c hc
      · exact ih hparts.2 c hc
    | spoiler content close =>
      obtain ⟨hcontent, hclose, hrest⟩ := hparts
      rcases List.mem_append.mp hc with hc | hc
      · rcases List.mem_append.mp hc with hc | hc
        · rcases List.mem_append.mp hc with hc | hc
          · exact colour_control (by decide) c hc
          · exact hplain hcontent c hc
        · rcases hclose with rfl | ⟨rfl, -⟩
          · exact colour_control (by decide) c hc
          · exact fun _ => List.mem_singleton.mp hc
      · exact ih hrest c hc

theorem markup_control (t : Composed) :
    ∀ c ∈ applySpoilerMarkup t.units, isControl c = true → c = 0x03 := by
  obtain ⟨parts, hclosed, hmarkup, -⟩ := markup_parts t
  rw [hmarkup]
  exact render_control hclosed

theorem splitLinesFrom_stretch {s : Text} {skip start : Nat} {line rest : Text}
    (h : s.drop start = line ++ rest.drop skip) :
    ∀ entry ∈ splitLinesFrom skip start line rest, entry.2 <+: s.drop entry.1 := by
  have hhere {start : Nat} {line more : Text} (h : s.drop start = line ++ more) :
      line <+: s.drop start := h ▸ List.prefix_append line more
  induction rest generalizing skip start line with
  | nil =>
    intro entry hentry
    cases skip <;> (rw [List.mem_singleton.mp hentry]; exact hhere h)
  | cons c rest ih =>
    cases skip with
    | succ skip => exact ih h
    | zero =>
      have hafter (n : Nat) : s.drop (start + line.length + n) = (c :: rest).drop n := by
        rw [Nat.add_assoc, ← List.drop_drop, h, List.drop_zero, ← List.drop_drop, List.drop_left]
      rw [splitLinesFrom]
      split
      · refine List.forall_mem_cons.mpr ⟨hhere h, ih ?_⟩
        rw [hafter 2, List.nil_append, List.drop_succ_cons]
      split
      · refine List.forall_mem_cons.mpr ⟨hhere h, ih ?_⟩
        rw [hafter 1]
        rfl
      · refine ih ?_
        rw [h, List.append_assoc]
        rfl

theorem chunk_stretch {line : Text} {bytes : Nat} :
    ∀ piece ∈ chunk lineBreak line bytes, piece.2 <+: line.drop piece.1 := by
  intro piece hpiece
  unfold chunk at hpiece
  dsimp only at hpiece
  split at hpiece
  · rw [List.mem_singleton.mp hpiece]
    exact List.prefix_rfl
  · obtain ⟨cut, -, rfl⟩ := List.mem_map.mp hpiece
    exact List.take_prefix _ _

theorem splitSayAt_stretch {s : Text} {bytes : Nat} :
    ∀ body ∈ splitSayAt lineBreak s bytes, body.2 <+: s.drop body.1 := by
  intro body hbody
  unfold splitSayAt at hbody
  split at hbody
  · cases hbody
  obtain ⟨line, hline, hbody⟩ := List.mem_flatMap.mp hbody
  split at hbody
  · cases hbody
  obtain ⟨piece, hpiece, rfl⟩ := List.mem_map.mp hbody
  have hwhole : line.2 <+: s.drop line.1 := splitLinesFrom_stretch rfl line hline
  have hcut : line.2.drop piece.1 <+: (s.drop line.1).drop piece.1 := List.IsPrefix.drop hwhole piece.1
  rw [List.drop_drop] at hcut
  exact (chunk_stretch lineBreak piece hpiece).trans hcut

/-- A stretch that reaches past a unit has all that stands in front of it, and it. -/
theorem stretch_through {body front after : Text} {c : CodeUnit}
    (hbody : body <+: front ++ c :: after) (hlen : front.length < body.length) :
    ∃ rest, body = front ++ c :: rest := by
  have hunit : front ++ [c] <+: front ++ c :: after :=
    (List.prefix_append_right_inj front).mpr ⟨after, rfl⟩
  obtain ⟨rest, hrest⟩ := List.prefix_of_prefix_length_le hunit hbody 
    (by rw [List.length_append]; exact hlen)
  exact ⟨rest, by rw [← hrest, List.append_assoc]; rfl⟩

/-- Between a code that opens a spoiler and a unit of its content there is no other. -/
theorem code_before_unit {s : Text} {p : Nat} {c : CodeUnit} (placed : Placed s p c) (start : Nat) :
    (∃ code, start ≤ code ∧ code < p ∧ s[code]? = some 0x03) ↔ start ≤ placed.before.length := by
  obtain ⟨before, content, after, rfl, rfl, hplain, -⟩ := placed
  have hopen : spoilerOpen.length = 6 := rfl
  dsimp only
  constructor
  · rintro ⟨code, hstart, hcode, hunit⟩
    by_contra hlate
    have hinner : ∀ d ∈ text "14,14" ++ content, isControl d = false := by
      intro d hd
      rcases List.mem_append.mp hd with hd | hd
      · exact colour_plain d hd
      · exact hplain d hd
    have hlen : (text "14,14" ++ content).length = 5 + content.length := List.length_append
    rw [List.getElem?_append_right (by omega),
      show code - before.length = (code - before.length - 1) + 1 by omega] at hunit
    change (text "14,14" ++ (content ++ c :: after))[code - before.length - 1]? = some 0x03 at hunit
    rw [← List.append_assoc, List.getElem?_append_left (by omega)] at hunit
    cases hinner 0x03 (List.mem_of_getElem? hunit)
  · intro hstart
    refine ⟨before.length, hstart, by omega, ?_⟩
    rw [List.getElem?_append_right le_rfl, Nat.sub_self]
    rfl

/-- A body that reaches a unit of a content hides it exactly when the code that opens the
spoiler is in the body. -/
theorem hidden_iff {s : Text} {p : Nat} {c : CodeUnit} (placed : Placed s p c)
    (hs : ∀ d ∈ s, isControl d = true → d = 0x03) {start : Nat} {body : Text}
    (hbody : body <+: s.drop start) (hfirst : start ≤ p) (hlast : p < start + body.length) :
    (p - start, c, true) ∈ shownAt body ↔ start ≤ placed.before.length := by
  obtain ⟨before, content, after, rfl, rfl, hplain, hc⟩ := placed
  have hopen : spoilerOpen.length = 6 := rfl
  dsimp only
  rw [shownAt_eq]
  by_cases hstart : start ≤ before.length
  · refine iff_of_true ?_ hstart
    rw [List.drop_append_of_le_length hstart] at hbody
    have hlen : (before.drop start).length = before.length - start := List.length_drop
    have hassoc : before.drop start ++ (spoilerOpen ++ (content ++ c :: after)) =
        (before.drop start ++ spoilerOpen ++ content) ++ c :: after := by
      simp only [List.append_assoc]
    rw [hassoc] at hbody
    obtain ⟨rest, rfl⟩ := stretch_through hbody
      (by rw [List.length_append, List.length_append]; omega)
    have hfront : ∀ d ∈ before.drop start, isControl d = true → d = 0x03 :=
      fun d hd => hs d (List.mem_append_left _ (List.mem_of_mem_drop hd))
    have hmem := hidden_behind hfront hplain hc rest
    rw [hlen] at hmem
    rw [List.append_assoc, List.append_assoc,
      show before.length + spoilerOpen.length + content.length - start =
        before.length - start + spoilerOpen.length + content.length by omega]
    exact hmem
  · refine iff_of_false ?_ hstart
    obtain ⟨k, rfl⟩ : ∃ k, start = before.length + (k + 1) :=
      ⟨start - before.length - 1, by omega⟩
    have hinner : ∀ d ∈ (text "14,14" ++ content).drop k, isControl d = false := by
      intro d hd
      rcases List.mem_append.mp (List.mem_of_mem_drop hd) with hd | hd
      · exact colour_plain d hd
      · exact hplain d hd
    have hlen : (text "14,14" ++ content).length = 5 + content.length := List.length_append
    have hlate : (before ++ (spoilerOpen ++ (content ++ c :: after))).drop
        (before.length + (k + 1)) = (text "14,14" ++ content).drop k ++ c :: after := by
      rw [List.drop_length_add_append, ← List.drop_append_of_le_length (by omega),
        List.append_assoc]
      rfl
    rw [hlate] at hbody
    have hdropped : ((text "14,14" ++ content).drop k).length =
        before.length + spoilerOpen.length + content.length - (before.length + (k + 1)) := by
      rw [List.length_drop]
      omega
    obtain ⟨rest, rfl⟩ := stretch_through hbody (by omega)
    rw [← hdropped]
    exact clear_without hinner hc rest

/-- What the author hid stays hidden exactly when no cut falls between the code that opens a
spoiler and what a message has of its content. -/
theorem stays_hidden_iff (t : Composed) (bytes : Nat) :
    StaysHidden lineBreak t bytes ↔ Carried lineBreak t bytes := by
  have hunit {body : Nat × Text} (hbody : body ∈ splitSayAt lineBreak (applySpoilerMarkup t.units) bytes)
      {u : Nat × CodeUnit} (hu : u ∈ contents t) (hfirst : body.1 ≤ u.1)
      (hlast : u.1 < body.1 + body.2.length) : (u.1 - body.1, u.2, true) ∈ shownAt body.2 ↔
        ∃ code, body.1 ≤ code ∧ code < u.1 ∧ (applySpoilerMarkup t.units)[code]? = some 0x03 := by
    obtain ⟨placed⟩ := contents_placed hu
    rw [code_before_unit placed, hidden_iff placed (markup_control t)
      (splitSayAt_stretch lineBreak body hbody) hfirst hlast]
  constructor
  · intro h body hbody u hu hfirst hlast
    exact (hunit hbody hu hfirst hlast).mp (h.wire body hbody u hu hfirst hlast)
  · intro h
    refine ⟨shown_markup t, fun body hbody u hu hfirst hlast => ?_⟩
    exact (hunit hbody hu hfirst hlast).mpr (h body hbody u hu hfirst hlast)

/-- Two lines in one spoiler. -/
def twoLines : Composed := ⟨text "||a\nb||", plain_of_all (by decide)⟩

/-- The line breaker leaves a short line whole. -/
def wholeLine (s : Text) (_ : Nat) : List Cut := [⟨0, s.length⟩]

/-- The second line goes out without a code: the author hid it and every reader sees it. -/
theorem second_line_clear : ¬ StaysHidden wholeLine twoLines 350 := by
  intro h
  have hbodies : splitSayAt wholeLine (applySpoilerMarkup twoLines.units) 350 =
      [(0, spoilerOpen ++ text "a"), (8, text "b" ++ [0x03])] := by decide
  have hhidden : (8, unit 'b') ∈ contents twoLines := by decide
  have hwire := h.wire (8, text "b" ++ [0x03])
    (by rw [hbodies]; exact List.mem_cons_of_mem _ List.mem_cons_self) _ hhidden (by decide)
    (by decide)
  revert hwire
  decide

end Lurker.Chat.SpoilerMarkup
