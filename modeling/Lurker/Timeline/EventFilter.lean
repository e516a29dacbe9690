import Mathlib.Data.List.Basic

/-!
# Churn, noise and the page unit

Which rows of a buffer are presence noise, which mode rows are member-status churn,
and which rows spend the budget of a page sized in a given unit.
-/
namespace Lurker.Timeline

/-- The class the server stamps on a mode change. -/
inductive ModeChangeKind
  | member
  | list
  | chan
  deriving DecidableEq, Repr

/-- A change of a MODE message; `kind` is missing on rows older than the stamp. -/
structure ModeChange where
  mode : String
  param : Option String
  kind : Option ModeChangeKind
  deriving DecidableEq, Repr

/-- The sign a change is read with: a token with no sign grants. -/
inductive Sign
  | plus
  | minus
  deriving DecidableEq, Repr

def modeLetter (mode : String) : String :=
  match mode.toList with
  | '+' :: letter | '-' :: letter => String.ofList letter
  | _ => mode

def modeSign (mode : String) : Sign :=
  match mode.toList with
  | '-' :: _ => .minus
  | _ => .plus

/-- The nick a change grants member status to or takes it from. -/
def ModeChange.member? (c : ModeChange) : Option String :=
  if c.kind = some .member then c.param.filter (· ≠ "") else none

/-- At least one change, and every one about a member; a stored list can hold a null. -/
def isChurnMode : Option (List (Option ModeChange)) → Bool
  | none | some [] => false
  | some modes => modes.all fun c => (c.bind ModeChange.member?).isSome

def consolidatableTypes : List String := ["join", "part", "quit", "nick", "chghost"]

def noiseTypes : List String := consolidatableTypes ++ ["mode"]

/-- What the limit of a page counts. -/
inductive PageUnit
  | event
  | renderable
  | chat
  deriving DecidableEq, Repr

/-- The parts of a row that decide whether it spends page budget. -/
structure PageCountable where
  type : String
  modes : Option (List (Option ModeChange))
  deriving DecidableEq, Repr

def countsTowardPage (row : PageCountable) : PageUnit → Bool
  | .renderable =>
    !consolidatableTypes.contains row.type && !(row.type == "mode" && isChurnMode row.modes)
  | .chat => !noiseTypes.contains row.type
  | .event => true

end Lurker.Timeline
