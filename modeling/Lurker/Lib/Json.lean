import Mathlib.Data.List.Basic
import Mathlib.Data.Nat.Notation

/-!
# JSON text

The values of a JSON text, its reading and its pretty writing, over strings of UTF-16 code units.
Reading is a lexer that takes one unit at a time and a grammar that takes one token at a time,
each with its state. A number is read from its numeral and written to one by the caller's own
arithmetic.
-/

/-- A string, by its UTF-16 code units. -/
abbrev CodeUnits := List UInt16

/-- The code units of a text without characters beyond U+FFFF. -/
def units (s : String) : CodeUnits := s.toList.map fun c => UInt16.ofNat c.toNat

inductive Json (Num : Type) where
  | null
  | bool (b : Bool)
  | num (n : Num)
  | str (s : CodeUnits)
  | arr (elements : List (Json Num))
  /-- The members in the order of the text, a later one over an earlier of its name. -/
  | obj (members : List (CodeUnits × Json Num))

namespace Json

/-- A type of numbers and its decimal texts. -/
structure Arithmetic (Num : Type) where
  /-- The value of a numeral. -/
  read : CodeUnits → Num
  /-- A number as a string. -/
  text : Num → CodeUnits
  finite : Num → Bool

def isDigit (c : UInt16) : Bool := 0x30 ≤ c && c ≤ 0x39

/-- How much of a numeral is behind. -/
inductive Numeral where
  | minus
  | zero
  | whole
  | point
  | fraction
  | exponent
  | sign
  | power
  deriving DecidableEq

namespace Numeral

def start (c : UInt16) : Option Numeral :=
  if c = 0x2d then some minus
  else if c = 0x30 then some zero
  else if isDigit c then some whole
  else none

def next (n : Numeral) (c : UInt16) : Option Numeral :=
  match n with
  | minus => if c = 0x30 then some zero else if isDigit c then some whole else none
  | zero => ended c
  | whole => if isDigit c then some whole else ended c
  | point => if isDigit c then some fraction else none
  | fraction => if isDigit c then some fraction else exponents c
  | exponent =>
    if isDigit c then some power else if c = 0x2b || c = 0x2d then some sign else none
  | sign => if isDigit c then some power else none
  | power => if isDigit c then some power else none
where
  /-- After the last digit of the whole part. -/
  ended (c : UInt16) : Option Numeral := if c = 0x2e then some point else exponents c
  /-- Where an exponent may begin. -/
  exponents (c : UInt16) : Option Numeral := if c = 0x65 || c = 0x45 then some exponent else none

/-- A numeral may end here. -/
def complete : Numeral → Bool
  | zero | whole | fraction | power => true
  | _ => false

end Numeral

/-- Whether a text is a numeral of the grammar. -/
def isNumeral : CodeUnits → Bool
  | [] => false
  | c :: cs => ((Numeral.start c).bind fun n => cs.foldlM Numeral.next n).any Numeral.complete

inductive Token (Num : Type) where
  | beginArray
  | endArray
  | beginObject
  | endObject
  | colon
  | comma
  | string (s : CodeUnits)
  /-- A number or one of the three words. -/
  | scalar (v : Json Num)

def punctuation {Num : Type} (c : UInt16) : Option (Token Num) :=
  if c = 0x5b then some .beginArray
  else if c = 0x5d then some .endArray
  else if c = 0x7b then some .beginObject
  else if c = 0x7d then some .endObject
  else if c = 0x3a then some .colon
  else if c = 0x2c then some .comma
  else none

def isSpace (c : UInt16) : Bool := c = 0x20 || c = 0x09 || c = 0x0a || c = 0x0d

def isLetter (c : UInt16) : Bool := 0x61 ≤ c && c ≤ 0x7a

/-- The value of a hexadecimal digit. -/
def hexValue (c : UInt16) : Option Nat :=
  if isDigit c then some (c.toNat - 0x30)
  else if 0x61 ≤ c ∧ c ≤ 0x66 then some (c.toNat - 0x57)
  else if 0x41 ≤ c ∧ c ≤ 0x46 then some (c.toNat - 0x37)
  else none

/-- A lowercase hexadecimal digit. -/
def hexDigit (n : Nat) : UInt16 := UInt16.ofNat (if n < 10 then 0x30 + n else 0x57 + n)

/-- The unit a one-letter escape stands for. -/
def unescape (c : UInt16) : Option UInt16 :=
  if c = 0x22 ∨ c = 0x5c ∨ c = 0x2f then some c
  else if c = 0x62 then some 0x08
  else if c = 0x66 then some 0x0c
  else if c = 0x6e then some 0x0a
  else if c = 0x72 then some 0x0d
  else if c = 0x74 then some 0x09
  else none

def word {Num : Type} (s : CodeUnits) : Option (Json Num) :=
  if s = units "null" then some .null
  else if s = units "true" then some (.bool true)
  else if s = units "false" then some (.bool false)
  else none

inductive Lexing where
  | between
  /-- Within a string, after its units so far. -/
  | quoted (s : CodeUnits)
  | escape (s : CodeUnits)
  /-- Within a `\u` escape, after so many of its digits. -/
  | unicode (s : CodeUnits) (digits : Nat) (value : Nat)
  | numeral (s : CodeUnits) (n : Numeral)
  | letters (s : CodeUnits)

section Reading

variable {Num : Type} (N : Arithmetic Num)

/-- A unit that no token before it takes. -/
def lexStart (c : UInt16) : Option (List (Token Num) × Lexing) :=
  if isSpace c then some ([], .between)
  else if c = 0x22 then some ([], .quoted [])
  else if isLetter c then some ([], .letters [c])
  else match Numeral.start c with
    | some n => some ([], .numeral [c] n)
    | none => (punctuation c).map fun t => ([t], .between)

/-- The token that ends where none of its own units follows. -/
def flush : Lexing → Option (List (Token Num))
  | .between => some []
  | .numeral s n => if n.complete then some [.scalar (.num (N.read s))] else none
  | .letters s => (word s).map fun v => [.scalar v]
  | _ => none

/-- The token before `c` ends, and `c` begins the next. -/
def turn (l : Lexing) (c : UInt16) : Option (List (Token Num) × Lexing) :=
  (flush N l).bind fun before => (lexStart c).map fun (after, l) => (before ++ after, l)

def lexStep (l : Lexing) (c : UInt16) : Option (List (Token Num) × Lexing) :=
  match l with
  | .between => lexStart c
  | .quoted s =>
    if c = 0x22 then some ([.string s], .between)
    else if c = 0x5c then some ([], .escape s)
    else if c < 0x20 then none
    else some ([], .quoted (s ++ [c]))
  | .escape s =>
    if c = 0x75 then some ([], .unicode s 0 0)
    else (unescape c).map fun c => ([], .quoted (s ++ [c]))
  | .unicode s digits value => (hexValue c).map fun d =>
    if digits = 3 then ([], .quoted (s ++ [UInt16.ofNat (16 * value + d)]))
    else ([], .unicode s (digits + 1) (16 * value + d))
  | .numeral s n =>
    match n.next c with
    | some n => some ([], .numeral (s ++ [c]) n)
    | none => turn N l c
  | .letters s => if isLetter c then some ([], .letters (s ++ [c])) else turn N l c

/-- The tokens of a text. -/
def lex (l : Lexing) : CodeUnits → Option (List (Token Num))
  | [] => flush N l
  | c :: cs => (lexStep N l c).bind fun (tokens, l) => (lex l cs).map (tokens ++ ·)

/-- What a value that is being read is part of. -/
inductive Frame (Num : Type) where
  | elements (done : List (Json Num))
  | members (done : List (CodeUnits × Json Num)) (name : CodeUnits)

/-- What the grammar expects, within which frames. -/
inductive Expect (Num : Type) where
  | value (within : List (Frame Num))
  | firstElement (within : List (Frame Num))
  | firstName (within : List (Frame Num))
  | name (done : List (CodeUnits × Json Num)) (within : List (Frame Num))
  | colon (done : List (CodeUnits × Json Num)) (name : CodeUnits) (within : List (Frame Num))
  /-- The end of the text, or of what `v` is part of, or more of it. -/
  | after (v : Json Num) (within : List (Frame Num))

def feedValue (within : List (Frame Num)) : Token Num → Option (Expect Num)
  | .scalar v => some (.after v within)
  | .string s => some (.after (.str s) within)
  | .beginArray => some (.firstElement within)
  | .beginObject => some (.firstName within)
  | _ => none

def feed : Expect Num → Token Num → Option (Expect Num)
  | .value within, t => feedValue within t
  | .firstElement within, .endArray => some (.after (.arr []) within)
  | .firstElement within, t => feedValue (.elements [] :: within) t
  | .firstName within, .endObject => some (.after (.obj []) within)
  | .firstName within, .string s => some (.colon [] s within)
  | .name done within, .string s => some (.colon done s within)
  | .colon done s within, .colon => some (.value (.members done s :: within))
  | .after v (.elements done :: within), .comma => some (.value (.elements (done ++ [v]) :: within))
  | .after v (.elements done :: within), .endArray => some (.after (.arr (done ++ [v])) within)
  | .after v (.members done s :: within), .comma => some (.name (done ++ [(s, v)]) within)
  | .after v (.members done s :: within), .endObject => some (.after (.obj (done ++ [(s, v)])) within)
  | _, _ => none

def Expect.result : Expect Num → Option (Json Num)
  | .after v [] => some v
  | _ => none

/-- The value of a JSON text, where it is one. -/
def parse (text : CodeUnits) : Option (Json Num) :=
  (lex N .between text).bind fun tokens => (tokens.foldlM feed (.value [])).bind Expect.result

end Reading

section Values

variable {Num : Type} (N : Arithmetic Num)

/-- A property of a value: the last member of that name. -/
def member (v : Json Num) (name : CodeUnits) : Option (Json Num) :=
  match v with
  | .obj ms => (ms.reverse.find? (·.1 = name)).map (·.2)
  | _ => none

def isNull : Json Num → Bool
  | .null => true
  | _ => false

mutual

/-- A value as a string. A member `toString` stands over the inherited function, and no value of
a text can be called. -/
def asString : Json Num → Option CodeUnits
  | .null => some (units "null")
  | .bool b => some (units (if b then "true" else "false"))
  | .num n => some (N.text n)
  | .str s => some s
  | .arr vs => (asStrings vs).map List.tail
  | .obj ms => if ms.any (·.1 = units "toString") then none else some (units "[object Object]")

/-- The elements, each behind a comma; null is empty. -/
def asStrings : List (Json Num) → Option CodeUnits
  | [] => some []
  | v :: vs =>
    (if v.isNull then some [] else asString v).bind fun s =>
      (asStrings vs).map fun rest => 0x2c :: (s ++ rest)

end

end Values

def isLead (c : UInt16) : Bool := 0xd800 ≤ c && c ≤ 0xdbff

def isTrail (c : UInt16) : Bool := 0xdc00 ≤ c && c ≤ 0xdfff

def unicodeEscape (c : UInt16) : CodeUnits :=
  [0x5c, 0x75, hexDigit (c.toNat / 4096), hexDigit (c.toNat / 256 % 16),
    hexDigit (c.toNat / 16 % 16), hexDigit (c.toNat % 16)]

/-- A unit that is not half of a pair. -/
def quoteUnit (c : UInt16) : CodeUnits :=
  if c = 0x22 ∨ c = 0x5c then [0x5c, c]
  else if c = 0x08 then [0x5c, 0x62]
  else if c = 0x0c then [0x5c, 0x66]
  else if c = 0x0a then [0x5c, 0x6e]
  else if c = 0x0d then [0x5c, 0x72]
  else if c = 0x09 then [0x5c, 0x74]
  else if c < 0x20 ∨ isLead c ∨ isTrail c then unicodeEscape c
  else [c]

/-- The units between the quotes. -/
def quoteUnits : CodeUnits → CodeUnits
  | [] => []
  | [c] => quoteUnit c
  | c :: d :: cs =>
    if isLead c && isTrail d then c :: d :: quoteUnits cs else quoteUnit c ++ quoteUnits (d :: cs)

def quote (s : CodeUnits) : CodeUnits := 0x22 :: (quoteUnits s ++ [0x22])

/-- A new line at a depth, two spaces for each level. -/
def newline (depth : Nat) : CodeUnits := 0x0a :: List.replicate (2 * depth) 0x20

section Writing

variable {Num : Type} (N : Arithmetic Num)

mutual

/-- The text of a value, its own lines at a depth. -/
def write (depth : Nat) : Json Num → CodeUnits
  | .null => units "null"
  | .bool b => if b then units "true" else units "false"
  | .num n => if N.finite n then N.text n else units "null"
  | .str s => quote s
  | .arr [] => [0x5b, 0x5d]
  | .arr (v :: vs) =>
    0x5b :: (newline (depth + 1) ++ (write (depth + 1) v ++
      (writeElements (depth + 1) vs ++ (newline depth ++ [0x5d]))))
  | .obj [] => [0x7b, 0x7d]
  | .obj ((k, v) :: ms) =>
    0x7b :: (newline (depth + 1) ++ (quote k ++ 0x3a :: 0x20 :: (write (depth + 1) v ++
      (writeMembers (depth + 1) ms ++ (newline depth ++ [0x7d])))))

/-- The elements after the first. -/
def writeElements (depth : Nat) : List (Json Num) → CodeUnits
  | [] => []
  | v :: vs => 0x2c :: (newline depth ++ (write depth v ++ writeElements depth vs))

/-- The members after the first. -/
def writeMembers (depth : Nat) : List (CodeUnits × Json Num) → CodeUnits
  | [] => []
  | (k, v) :: ms =>
    0x2c :: (newline depth ++ (quote k ++ 0x3a :: 0x20 :: (write depth v ++ writeMembers depth ms)))

end

/-- The text of a value, pretty: an indent of two spaces. -/
def stringify (v : Json Num) : CodeUnits := write N 0 v

end Writing

end Json
