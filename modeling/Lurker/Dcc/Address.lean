import Lurker.Dcc.Literal
import Mathlib.Data.List.DropRight

/-!
# DCC addresses

A DCC offer names the address to dial as a 32-bit number, as a dotted quad or as an
IPv6 literal. `decodeDccAddress` turns the field into a host, `isBlockedDccHost` judges
the host, and the dialler reads it again. All three name one address, except where the
field is a dotted quad with a leading zero in it: the decoder lets it through, and it is
no literal.
-/

namespace Lurker.Dcc

open Lurker.E2e

-- `Number(s)` of a text that spells an integer, none of any other
variable (Number : Text → Option Int)

def trim (s : Text) : Text := (s.dropWhile isSpace).rdropWhile isSpace

/-- `/^\d{1,3}(\.\d{1,3}){3}$/` -/
def isDottedQuad (s : Text) : Bool :=
  (s.splitOn '.').length = 4 &&
    (s.splitOn '.').all fun o => o ≠ [] && o.length ≤ 3 && o.all Char.isDigit

/-- An address in network byte order as a dotted quad. -/
def packedQuad (n : Nat) : Text :=
  quadText (n / 2 ^ 24 % 256) (n / 2 ^ 16 % 256) (n / 2 ^ 8 % 256) (n % 256)

/-- Whether a text is a number of at most 255. -/
def isByte (o : Text) : Bool :=
  match Number o with
  | some n => n ≤ 255
  | none => false

/-- Decode a DCC address field to a printable host. None when it is malformed. -/
def decodeDccAddress (addr : Text) : Option Text :=
  let s := trim addr
  if s = [] then none
  else if ':' ∈ s then if isIPv6 s then some s else none
  else if isDottedQuad s then if (s.splitOn '.').all (isByte Number) then some s else none
  else if s.all Char.isDigit then
    match Number s with
    | none => none
    | some n => if n < 0 ∨ n > 0xffffffff then none else some (packedQuad n.toNat)
  else none

/-- Encode a host for a DCC offer field. -/
def encodeDccAddress (host : Text) : Option Text :=
  let h := trim host
  if ':' ∈ h then if isIPv6 h then some h else none
  else if isDottedQuad h then
    match (h.splitOn '.').map Number with
    | [some a, some b, some c, some d] =>
      if a > 255 ∨ b > 255 ∨ c > 255 ∨ d > 255 then none
      else some (decimal (a * 2 ^ 24 + b * 2 ^ 16 + c * 2 ^ 8 + d).toNat)
    | _ => none
  else none

/-- A range the cell must not dial. -/
def isBlockedIpv4 (ip : Text) : Bool :=
  match (ip.splitOn '.').map Number with
  | [some a, some b, some c, some d] =>
    if a < 0 ∨ a > 255 ∨ b < 0 ∨ b > 255 ∨ c < 0 ∨ c > 255 ∨ d < 0 ∨ d > 255 then true
    else if a = 0 then true
    else if a = 10 then true
    else if a = 127 then true
    else if a = 169 ∧ b = 254 then true
    else if a = 172 ∧ b ≥ 16 ∧ b ≤ 31 then true
    else if a = 192 ∧ b = 168 then true
    else if a = 100 ∧ b ≥ 64 ∧ b ≤ 127 then true
    else if a ≥ 224 then true
    else false
  | _ => true

/-- What stands before and after the last colon. -/
def cutLastColon (s : Text) : Option (Text × Text) :=
  if ':' ∈ s then some ((s.rdropWhile (· ≠ ':')).dropLast, s.rtakeWhile (· ≠ ':')) else none

/-- The line ends, which a dot in a pattern does not match. -/
def isLineEnd (c : Char) : Bool := c = '\n' || c = '\r' || c.toNat = 0x2028 || c.toNat = 0x2029

/-- Two octets as one hexadecimal group. -/
def pair (a b : Int) : Text := Nat.toDigits 16 (a * 256 + b).toNat

/-- Rewrite a dotted quad at the end into two groups. None when its octets are out of range. -/
def rewriteQuad (input : Text) : Option Text :=
  match cutLastColon input with
  | some (before, last) =>
    if before.any isLineEnd || !isDottedQuad last then some input
    else
      match (last.splitOn '.').map Number with
      | [some a, some b, some c, some d] =>
        if a < 0 ∨ a > 255 ∨ b < 0 ∨ b > 255 ∨ c < 0 ∨ c > 255 ∨ d < 0 ∨ d > 255 then none
        else some (before ++ ':' :: pair a b ++ ':' :: pair c d)
      | _ => none
  | none => some input

/-- One colon-separated run of groups. None when anything in it is malformed. -/
def groupsOf (part : Text) : Option (List Nat) :=
  if part = [] then some [] else (part.splitOn ':').mapM readGroup

/-- `split('::')`, with as many cuts as the text has room for. -/
def splitElision : Nat → Text → List Text
  | 0, s => [s]
  | n + 1, s =>
    match cutElision s with
    | none => [s]
    | some (before, after) => before :: splitElision n after

/-- The eight groups of a text that has no dotted quad in it. -/
def expandGroups (text : Text) : Option (List Nat) :=
  match splitElision text.length text with
  | [_] =>
    match groupsOf text with
    | some groups => if groups.length = 8 then some groups else none
    | none => none
  | [before, after] =>
    match groupsOf before, groupsOf after with
    | some left, some right =>
      if left.length + right.length ≥ 8 then none
      else some (left ++ List.replicate (8 - left.length - right.length) 0 ++ right)
    | _, _ => none
  | _ => none

/-- Expand an IPv6 literal to its eight groups. None when it is not one. -/
def parseIpv6 (input : Text) : Option (List Nat) :=
  match rewriteQuad Number input with
  | none => none
  | some text => expandGroups text

/-- The IPv4 embedded in an IPv6 address, for the notations that end in it. -/
def embeddedIpv4 (groups : List Nat) : Option Text :=
  let g (i : Nat) : Nat := groups.getD i 0
  let last32 := quadText (g 6 / 256) (g 6 % 256) (g 7 / 256) (g 7 % 256)
  if [0, 1, 2, 3, 4].all (g · = 0) && g 5 = 0xffff then some last32
  else if [0, 1, 2, 3, 4, 5].all (g · = 0) then some last32
  else if g 0 = 0x64 && g 1 = 0xff9b && [2, 3, 4, 5].all (g · = 0) then some last32
  else none

/-- `replace(/^\[|\]$/g, '')` -/
def stripBrackets (h : Text) : Text :=
  let h := if h.head? = some '[' then h.tail else h
  if h.getLast? = some ']' then h.dropLast else h

/-- Whether a literal is one the cell must not dial. -/
def isBlockedIpLiteral (host : Text) : Bool :=
  let h := lower (trim host)
  if h = [] then true
  else
    let bare := stripBrackets h
    if bare = [] then true
    else if ':' ∉ bare then isBlockedIpv4 Number bare
    else
      match parseIpv6 Number bare with
      | none => true
      | some groups =>
        match embeddedIpv4 groups with
        | some embedded => isBlockedIpv4 Number embedded
        | none =>
          if groups.getD 0 0 = 0x2002 then true
          else if groups.getD 0 0 = 0x2001 ∧ groups.getD 1 0 = 0 then true
          else groups.getD 0 0 / 0x2000 % 8 ≠ 1

def isBlockedDccHost (host : Text) : Bool := isBlockedIpLiteral Number host

end Lurker.Dcc
