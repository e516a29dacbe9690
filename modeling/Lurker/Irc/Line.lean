import Lurker.Irc.Casemapping
import Mathlib.Data.List.DropRight
import Mathlib.Data.List.TakeWhile

/-!
# Lines as the bouncer parses them

`parseLine` takes a line apart with searches for a space and for a space and a
colon. `serverReads` is the reading the protocol prescribes, one character at a
time: an optional tag block, an optional source, the command, and parameters
separated by runs of spaces. The two agree on every line whose command does not
start with a colon.
-/

namespace Lurker.Irc

/-- A line split into the parts the rules read. -/
structure ClientLine where
  /-- `key` or `key=value` items in wire order. -/
  tags : List Str
  source : Option Str
  command : Str
  params : List Str
  /-- Whether the last param arrived as a `:` trailing param. -/
  trailing : Bool
  deriving DecidableEq, Repr

/-- What stands before and after the first space. -/
def cutSpace (s : Str) : Option (Str × Str) :=
  if ' ' ∈ s then some (s.takeWhile (· ≠ ' '), (s.dropWhile (· ≠ ' ')).tail) else none

/-- What stands before and after the first space that a colon follows. -/
def cutTrailing : Str → Str × Option Str
  | [] => ([], none)
  | c :: rest =>
    if c = ' ' ∧ rest.head? = some ':' then ([], some rest.tail)
    else (c :: (cutTrailing rest).1, (cutTrailing rest).2)

/-- `split(sep).filter(Boolean)` -/
def pieces (sep : Char) (s : Str) : List Str := (s.splitOn sep).filter (· ≠ [])

def skipSpaces (s : Str) : Str := s.dropWhile (· = ' ')

-- `toUpperCase` of the platform
variable (upper : Str → Str)

/-- Read the source, the command and the params. -/
def parseRest (tags : List Str) (rest : Str) : Option ClientLine :=
  let finish (source : Option Str) (rest : Str) : Option ClientLine :=
    let (head, trailing) := cutTrailing rest
    match pieces ' ' head with
    | [] => none
    | command :: params =>
      let command := upper command
      if command = [] then none
      else some { tags, source, command, params := params ++ trailing.toList
                  trailing := trailing.isSome }
  if rest.head? = some ':' then
    match cutSpace rest with
    | none => none
    | some (source, rest) => finish (some source.tail) rest
  else finish none rest

/-- Parse a line. None when it has no command. -/
def parseLine (line : Str) : Option ClientLine :=
  if line.head? = some '@' then
    match cutSpace line with
    | none => none
    | some (tags, rest) => parseRest upper (pieces ';' tags.tail) (skipSpaces rest)
  else parseRest upper [] (skipSpaces line)

/-- The parameters of a line from a place on, inside one (`some` of what was read
of it) or between two. -/
def readParams : Option Str → Str → List Str
  | none, [] => []
  | some w, [] => [w]
  | none, c :: rest =>
    if c = ' ' then readParams none rest
    else if c = ':' then [rest]
    else readParams (some [c]) rest
  | some w, c :: rest =>
    if c = ' ' then w :: readParams none rest else readParams (some (w ++ [c])) rest

/-- Drop a leading word that starts with a mark, and the spaces after it. -/
def dropMarked (mark : Char) (s : Str) : Str :=
  if s.head? = some mark then skipSpaces (s.dropWhile (· ≠ ' ')) else s

/-- The command and the parameters of a line, as a server reads them. -/
def serverReads (line : Str) : Option (Str × List Str) :=
  let s := dropMarked ':' (dropMarked '@' (skipSpaces line))
  let command := s.takeWhile (· ≠ ' ')
  if command = [] then none else some (command, readParams none (s.dropWhile (· ≠ ' ')))

section Agreement

theorem pieces_skip (s : Str) : pieces ' ' (' ' :: s) = pieces ' ' s := by
  unfold pieces
  rw [show ' ' :: s = [] ++ ' ' :: s from rfl,
    List.splitOn_append_cons_self_of_not_mem List.not_mem_nil]
  rfl

theorem pieces_word {sep : Char} {w : Str} (hw : sep ∉ w) (hne : w ≠ []) :
    pieces sep w = [w] := by
  unfold pieces
  rw [List.splitOn_eq_singleton hw]
  exact List.filter_cons_of_pos (by simpa using hne)

theorem pieces_word_space {w : Str} (s : Str) (hw : ' ' ∉ w) (hne : w ≠ []) :
    pieces ' ' (w ++ ' ' :: s) = w :: pieces ' ' s := by
  unfold pieces
  rw [List.splitOn_append_cons_self_of_not_mem hw]
  exact List.filter_cons_of_pos (by simpa using hne)

/-- What `parseLine` makes of the params of a line from a place on. -/
def cutParams (w : Str) (rest : Str × Option Str) : List Str :=
  pieces ' ' (w ++ rest.1) ++ rest.2.toList

theorem cutTrailing_cons_of_ne {c : Char} {rest : Str} (hc : c ≠ ' ') :
    cutTrailing (c :: rest) = (c :: (cutTrailing rest).1, (cutTrailing rest).2) :=
  if_neg fun h => hc h.1

/-- What is cut off from a space on is empty or starts with it. -/
theorem cutTrailing_space (rest : Str) :
    (cutTrailing (' ' :: rest)).1 = [] ∨ ∃ h, (cutTrailing (' ' :: rest)).1 = ' ' :: h := by
  rw [cutTrailing]
  split
  · exact .inl rfl
  · exact .inr ⟨_, rfl⟩

theorem cutParams_space {w rest : Str} (hw : ' ' ∉ w) (hne : w ≠ []) :
    cutParams w (cutTrailing (' ' :: rest)) = w :: cutParams [] (cutTrailing (' ' :: rest)) := by
  unfold cutParams
  rcases cutTrailing_space rest with h | ⟨h', h⟩
  · rw [h, List.append_nil, pieces_word hw hne]
    rfl
  · rw [h, pieces_word_space h' hw hne, List.nil_append, pieces_skip]
    rfl

/-- Both readings of the params agree, inside a param and after a space. -/
theorem readParams_eq (s : Str) :
    (∀ w, ' ' ∉ w → w ≠ [] → readParams (some w) s = cutParams w (cutTrailing s)) ∧
      readParams none s = cutParams [] (cutTrailing (' ' :: s)) := by
  induction s with
  | nil =>
    refine ⟨fun w hw hne => ?_, ?_⟩
    · simp [readParams, cutParams, cutTrailing, pieces_word hw hne]
    · have h : pieces ' ' [' '] = [] := by decide
      simp [readParams, cutParams, cutTrailing, h]
  | cons c rest ih =>
    obtain ⟨ihWord, ihBetween⟩ := ih
    constructor
    · intro w hw hne
      rw [readParams]
      split
      · rename_i hc
        subst hc
        rw [cutParams_space hw hne, ihBetween]
      · rename_i hc
        rw [ihWord (w ++ [c]) (by simp [hw, Ne.symm hc]) (by simp), cutTrailing_cons_of_ne hc]
        unfold cutParams
        rw [List.append_assoc]
        rfl
    · rw [readParams]
      split
      · rename_i hc
        subst hc
        have hcut : cutTrailing (' ' :: ' ' :: rest) =
            (' ' :: (cutTrailing (' ' :: rest)).1, (cutTrailing (' ' :: rest)).2) :=
          if_neg (by simp)
        rw [ihBetween, hcut]
        unfold cutParams
        rw [List.nil_append, List.nil_append, pieces_skip]
      · rename_i hc
        split
        · rename_i hcolon
          subst hcolon
          rfl
        · rename_i hcolon
          have hcut : cutTrailing (' ' :: c :: rest) =
              (' ' :: (cutTrailing (c :: rest)).1, (cutTrailing (c :: rest)).2) :=
            if_neg (by simpa using hcolon)
          rw [ihWord [c] (by simpa using Ne.symm hc) (by simp), hcut, cutTrailing_cons_of_ne hc]
          unfold cutParams
          rw [List.nil_append, pieces_skip]
          rfl

theorem cutTrailing_word {w : Str} (hw : ' ' ∉ w) (d : Str) :
    cutTrailing (w ++ d) = (w ++ (cutTrailing d).1, (cutTrailing d).2) := by
  induction w with
  | nil => rfl
  | cons c w ih =>
    rw [List.cons_append, cutTrailing_cons_of_ne (fun h => hw (h ▸ List.mem_cons_self)),
      ih fun h => hw (List.mem_cons_of_mem _ h)]
    rfl

/-- The first piece is the command, and the rest are the params. -/
theorem pieces_command {s : Str} (hne : s.takeWhile (· ≠ ' ') ≠ []) :
    ∃ ps, pieces ' ' (cutTrailing s).1 = s.takeWhile (· ≠ ' ') :: ps ∧
      ps ++ (cutTrailing s).2.toList = readParams none (s.dropWhile (· ≠ ' ')) := by
  set w := s.takeWhile (· ≠ ' ') with hw
  set d := s.dropWhile (· ≠ ' ') with hd
  have hsplit : s = w ++ d := (List.takeWhile_append_dropWhile).symm
  have hspace : ' ' ∉ w := fun h => by simpa using List.mem_takeWhile_imp h
  rw [hsplit, cutTrailing_word hspace]
  cases hd' : d with
  | nil => exact ⟨[], by simpa [cutTrailing] using pieces_word hspace hne, rfl⟩
  | cons c rest =>
    have hc : c = ' ' := by
      have h := List.head?_dropWhile_not (fun x => decide (x ≠ ' ')) s
      rw [← hd, hd'] at h
      simpa using h
    subst hc
    refine ⟨pieces ' ' (cutTrailing (' ' :: rest)).1, ?_, ?_⟩
    · rcases cutTrailing_space rest with h | ⟨h', h⟩
      · rw [h, List.append_nil, pieces_word hspace hne]
        rfl
      · rw [h, pieces_word_space h' hspace hne, pieces_skip]
    · have h := (readParams_eq rest).2
      rw [readParams, if_pos rfl, h]
      rfl

/-- Leading spaces make no difference before a command. -/
theorem pieces_skipSpaces (rest : Str) (h : (skipSpaces rest).head? ≠ some ':') :
    pieces ' ' (cutTrailing rest).1 = pieces ' ' (cutTrailing (skipSpaces rest)).1 ∧
      (cutTrailing rest).2 = (cutTrailing (skipSpaces rest)).2 := by
  induction rest with
  | nil => exact ⟨rfl, rfl⟩
  | cons c rest ih =>
    by_cases hc : c = ' '
    · subst hc
      have hskip : skipSpaces (' ' :: rest) = skipSpaces rest := rfl
      rw [hskip] at h ⊢
      have hcolon : rest.head? ≠ some ':' := by
        intro hhead
        obtain ⟨t, rfl⟩ : ∃ t, rest = ':' :: t := List.head?_eq_some_iff.mp hhead
        exact h rfl
      have hcut : cutTrailing (' ' :: rest) = (' ' :: (cutTrailing rest).1, (cutTrailing rest).2) :=
        if_neg fun h' => hcolon h'.2
      rw [hcut, pieces_skip]
      exact ih h
    · have hskip : skipSpaces (c :: rest) = c :: rest := by
        unfold skipSpaces
        rw [List.dropWhile_cons_of_neg (by simpa using hc)]
      rw [hskip]
      exact ⟨rfl, rfl⟩

theorem skipSpaces_idem (s : Str) : skipSpaces (skipSpaces s) = skipSpaces s := by
  unfold skipSpaces
  exact List.dropWhile_idempotent _ _

/-- The rest of a word up to a space, with and without the space. -/
theorem cutSpace_eq {s : Str} (h : skipSpaces (s.dropWhile (· ≠ ' ')) ≠ []) :
    ∃ word rest, cutSpace s = some (word, rest) ∧
      skipSpaces rest = skipSpaces (s.dropWhile (· ≠ ' ')) := by
  have hmem : ' ' ∈ s := by
    by_contra hno
    apply h
    have hall : s.dropWhile (· ≠ ' ') = [] :=
      List.dropWhile_eq_nil_iff.mpr fun c hc => by simpa using fun he : c = ' ' => hno (he ▸ hc)
    rw [hall]
    rfl
  refine ⟨_, _, if_pos hmem, ?_⟩
  cases hd : s.dropWhile (· ≠ ' ') with
  | nil => rfl
  | cons c rest =>
    have hc : c = ' ' := by
      have h := List.head?_dropWhile_not (fun x => decide (x ≠ ' ')) s
      rw [hd] at h
      simpa using h
    subst hc
    rfl

variable {upper} {command : Str} {params : List Str}

theorem parseRest_eq {s : Str} (tags : List Str)
    (hcommand : (dropMarked ':' s).takeWhile (· ≠ ' ') = command) (hne : command ≠ [])
    (hparams : readParams none ((dropMarked ':' s).dropWhile (· ≠ ' ')) = params)
    (hcolon : command.head? ≠ some ':') (hupper : upper command ≠ []) :
    ∃ msg, parseRest upper tags s = some msg ∧ msg.command = upper command ∧ msg.params = params := by
  subst hcommand hparams
  set m := dropMarked ':' s with hm
  have hhead : (m.takeWhile (· ≠ ' ')).head? = m.head? := by
    cases hcases : m with
    | nil => rfl
    | cons c rest =>
      rw [hcases] at hne
      rw [List.takeWhile_cons] at hne ⊢
      split
      · rfl
      · rename_i hc
        rw [if_neg hc] at hne
        exact absurd rfl hne
  have hskip : skipSpaces m = m := by
    cases hcases : m with
    | nil => rfl
    | cons c rest =>
      unfold skipSpaces
      refine List.dropWhile_cons_of_neg fun hc => hne ?_
      rw [hcases, List.takeWhile_cons_of_neg (by simpa using hc)]
  obtain ⟨ps, hpieces, hps⟩ := pieces_command hne
  have hfinish (rest : Str) (hrest : skipSpaces rest = m) :
      pieces ' ' (cutTrailing rest).1 = m.takeWhile (· ≠ ' ') :: ps ∧
        ps ++ (cutTrailing rest).2.toList = readParams none (m.dropWhile (· ≠ ' ')) := by
    obtain ⟨h1, h2⟩ := pieces_skipSpaces rest (by rw [hrest, ← hhead]; exact hcolon)
    rw [h1, h2, hrest]
    exact ⟨hpieces, hps⟩
  unfold parseRest
  dsimp only
  by_cases hmark : s.head? = some ':'
  · have hdrop : m = skipSpaces (s.dropWhile (· ≠ ' ')) := if_pos hmark
    obtain ⟨word, rest, hcut, hrest⟩ := cutSpace_eq (s := s) (by
      rw [← hdrop]
      intro h
      rw [h] at hne
      exact hne rfl)
    obtain ⟨h1, h2⟩ := hfinish rest (hrest.trans hdrop.symm)
    rw [if_pos hmark, hcut]
    simp only [h1, if_neg hupper, h2]
    exact ⟨_, rfl, rfl, rfl⟩
  · have hdrop : m = s := if_neg hmark
    obtain ⟨h1, h2⟩ := hfinish s (by rw [← hdrop]; exact hskip)
    rw [if_neg hmark]
    simp only [h1, if_neg hupper, h2]
    exact ⟨_, rfl, rfl, rfl⟩

/-- A line is parsed as a server reads it. -/
theorem parseLine_of_serverReads {line : Str} (h : serverReads line = some (command, params))
    (hcolon : command.head? ≠ some ':') (hupper : upper command ≠ []) :
    ∃ msg, parseLine upper (skipSpaces line) = some msg ∧ msg.command = upper command ∧
      msg.params = params := by
  unfold serverReads at h
  dsimp only at h
  split at h
  · cases h
  rename_i hne
  obtain ⟨hcommand, hparams⟩ := Prod.mk.inj (Option.some.inj h)
  rw [hcommand] at hne
  unfold parseLine
  by_cases hmark : (skipSpaces line).head? = some '@'
  · have hdrop : dropMarked '@' (skipSpaces line) =
        skipSpaces ((skipSpaces line).dropWhile (· ≠ ' ')) := if_pos hmark
    rw [hdrop] at hcommand hparams
    obtain ⟨tags, rest, hcut, hrest⟩ := cutSpace_eq (s := skipSpaces line) (by
      intro h
      rw [h] at hcommand
      exact hne hcommand.symm)
    rw [if_pos hmark, hcut]
    dsimp only
    rw [hrest]
    exact parseRest_eq _ hcommand hne hparams hcolon hupper
  · have hdrop : dropMarked '@' (skipSpaces line) = skipSpaces line := if_neg hmark
    rw [hdrop] at hcommand hparams
    rw [if_neg hmark, skipSpaces_idem]
    exact parseRest_eq _ hcommand hne hparams hcolon hupper

end Agreement

end Lurker.Irc
