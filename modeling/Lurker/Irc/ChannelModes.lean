import Lurker.Irc.Casemapping
import Lurker.Lib.Packing
import Mathlib.Data.PNat.Basic

/-!
# Batching mode changes

`batchModeLines` packs a list of mode changes into `MODE` lines, with the letters in one
word and the params after it in the same order. A sign is written where it changes, and
again at the start of each line. A line is closed at the network's number of params, or
where one more change would take it over the byte budget. The lines are the greedy packing
of the changes, so they are as few as can be.
-/

namespace Lurker.Irc

open Packing

inductive Sign where
  | plus
  | minus
  deriving DecidableEq, Repr

def Sign.char : Sign → Char
  | .plus => '+'
  | .minus => '-'

/-- One mode letter, which is no sign and ends no word. -/
abbrev ModeLetter := {c : Char // c ≠ '+' ∧ c ≠ '-' ∧ c ≠ ' '}

/-- What the network's ISUPPORT says of the modes of a channel. -/
structure ModeSpec where
  /-- List modes. -/
  list : List Char
  /-- Always with a param. -/
  always : List Char
  /-- With a param only when set. -/
  onSet : List Char
  /-- Letters of the membership modes. -/
  prefixModes : List Char
  /-- Param-taking changes allowed per line, none for no limit. -/
  maxModes : Option ℕ+

/-- Whether a change to `letter` carries a param. -/
def modeTakesParam (spec : ModeSpec) (letter : Char) (sign : Sign) : Bool :=
  if letter ∈ spec.prefixModes then true
  else if letter ∈ spec.list ∨ letter ∈ spec.always then true
  else if letter ∈ spec.onSet then sign = .plus
  else false

/-- One change to send. -/
structure OutgoingModeChange where
  sign : Sign
  letter : ModeLetter
  param : Option Str
  deriving DecidableEq

/-- The param of a change that carries one. -/
def OutgoingModeChange.sent (c : OutgoingModeChange) : Option Str := c.param.filter (· ≠ [])

/-- A param is there exactly when the mode takes one, and is one middle param of a line. -/
structure Proper (spec : ModeSpec) (c : OutgoingModeChange) : Prop where
  present : c.param.isSome = modeTakesParam spec c.letter c.sign
  nonempty : ∀ p ∈ c.param, p ≠ []
  spaceless : ∀ p ∈ c.param, ' ' ∉ p
  colonless : ∀ p ∈ c.param, p.head? ≠ some ':'

def modeLineBudget : Nat := 400

variable (target : Str)

def renderModes (letters : Str) (params : List Str) : Str :=
  "MODE ".toList ++ target ++ ' ' :: letters ++
    if params = [] then [] else ' ' :: [' '].intercalate params

/-- The variables of the loop. -/
structure ModeBatch where
  lines : List Str
  letters : Str
  params : List Str
  lastSign : Option Sign
  paramCount : Nat

def ModeBatch.empty : ModeBatch := ⟨[], [], [], none, 0⟩

def ModeBatch.flush (b : ModeBatch) : ModeBatch where
  lines := if b.letters ≠ [] then b.lines ++ [renderModes target b.letters b.params] else b.lines
  letters := []
  params := []
  lastSign := none
  paramCount := 0

/-- What is added to the letters of a line. -/
def modePiece (lastSign : Option Sign) (c : OutgoingModeChange) : Str :=
  if some c.sign = lastSign then [c.letter.val] else [c.sign.char, c.letter.val]

/-- The change goes on the line under way. -/
def ModeBatch.put (b : ModeBatch) (piece : Str) (c : OutgoingModeChange) : ModeBatch :=
  { b with
    letters := b.letters ++ piece
    lastSign := some c.sign
    params := b.params ++ c.sent.toList
    paramCount := b.paramCount + c.sent.toList.length }

/-- The byte limit. -/
def ModeBatch.fit (b : ModeBatch) (c : OutgoingModeChange) : ModeBatch :=
  let piece := modePiece b.lastSign c
  let nextParams := b.params ++ c.sent.toList
  if b.letters ≠ [] ∧
      modeLineBudget < byteLength (renderModes target (b.letters ++ piece) nextParams) then
    (b.flush target).put [c.sign.char, c.letter.val] c
  else b.put piece c

/-- One change of the loop. -/
def ModeBatch.add (maxModes : Option ℕ+) (b : ModeBatch) (c : OutgoingModeChange) : ModeBatch :=
  if c.sent.isSome ∧ ∃ n ∈ maxModes, n ≤ b.paramCount then (b.flush target).fit target c
  else b.fit target c

def batchModeLines (changes : List OutgoingModeChange) (maxModes : Option ℕ+) : List Str :=
  ((changes.foldl (ModeBatch.add target maxModes) .empty).flush target).lines

/-- The letters of a run after a sign. -/
def lettersFrom : Option Sign → List OutgoingModeChange → Str
  | _, [] => []
  | last, c :: cs => modePiece last c ++ lettersFrom (some c.sign) cs

def paramsOf (cs : List OutgoingModeChange) : List Str := cs.filterMap (·.sent)

/-- The line that carries a run of changes. -/
def modeLine (cs : List OutgoingModeChange) : Str :=
  renderModes target (lettersFrom none cs) (paramsOf cs)

/-- Both limits of a line. -/
def WithinLimits (maxModes : Option ℕ+) (cs : List OutgoingModeChange) : Prop :=
  (∀ n ∈ maxModes, (paramsOf cs).length ≤ n) ∧
    (byteLength (modeLine target cs) ≤ modeLineBudget ∨ cs.length ≤ 1)

instance (maxModes : Option ℕ+) : DecidablePred (WithinLimits target maxModes) := fun _ =>
  inferInstanceAs (Decidable (_ ∧ _))

@[simp] theorem paramsOf_append (cs ds : List OutgoingModeChange) :
    paramsOf (cs ++ ds) = paramsOf cs ++ paramsOf ds := List.filterMap_append

theorem paramsOf_singleton (c : OutgoingModeChange) : paramsOf [c] = c.sent.toList := by
  cases h : c.sent with
  | none => simp [paramsOf, h]
  | some p => simp [paramsOf, h]

theorem modePiece_none (c : OutgoingModeChange) :
    modePiece none c = [c.sign.char, c.letter.val] := by
  simp [modePiece]

/-- The sign in force after a run. -/
def lastSignOf (last : Option Sign) (cs : List OutgoingModeChange) : Option Sign :=
  cs.foldl (fun _ c => some c.sign) last

theorem lettersFrom_append (last : Option Sign) (cs ds : List OutgoingModeChange) :
    lettersFrom last (cs ++ ds) = lettersFrom last cs ++ lettersFrom (lastSignOf last cs) ds := by
  induction cs generalizing last with
  | nil => rfl
  | cons c cs ih =>
    rw [List.cons_append, lettersFrom, lettersFrom, ih, List.append_assoc]
    rfl

theorem lettersFrom_eq_nil {cs : List OutgoingModeChange} : lettersFrom none cs = [] ↔ cs = [] := by
  cases cs with
  | nil => simp [lettersFrom]
  | cons c cs => simp [lettersFrom, modePiece_none]

theorem lettersFrom_singleton (last : Option Sign) (c : OutgoingModeChange) :
    lettersFrom last [c] = modePiece last c := by
  simp [lettersFrom]

theorem intercalate_space (w : Str) (ws : List Str) :
    [' '].intercalate (w :: ws) = w ++ ws.flatMap (' ' :: ·) := by
  induction ws generalizing w with
  | nil => simp
  | cons v ws ih => rw [List.intercalate_cons_cons, ih]; simp

/-- The words of a line: the letters and the params. -/
theorem renderModes_eq (letters : Str) (params : List Str) :
    renderModes target letters params =
      "MODE ".toList ++ target ++ ' ' :: (letters ++ params.flatMap (' ' :: ·)) := by
  unfold renderModes
  cases params with
  | nil => simp
  | cons p ps => rw [if_neg (List.cons_ne_nil p ps), intercalate_space]; simp

/-- The loop's variables, with some lines out and a run on the line under way. -/
def ModeBatch.of (done : List (List OutgoingModeChange)) (cur : List OutgoingModeChange) :
    ModeBatch where
  lines := done.map (modeLine target)
  letters := lettersFrom none cur
  params := paramsOf cur
  lastSign := lastSignOf none cur
  paramCount := (paramsOf cur).length

variable {target}

theorem ModeBatch.flush_of (done : List (List OutgoingModeChange)) (cur : List OutgoingModeChange) :
    (ModeBatch.of target done cur).flush target =
      .of target (if cur = [] then done else done ++ [cur]) [] := by
  by_cases h : cur = []
  · subst h
    simp [flush, ModeBatch.of, lettersFrom, paramsOf, lastSignOf]
  · have hl : lettersFrom none cur ≠ [] := fun h0 => h (lettersFrom_eq_nil.mp h0)
    simp [flush, ModeBatch.of, h, hl, modeLine, paramsOf, lastSignOf, lettersFrom]

/-- A change on the line under way. -/
theorem ModeBatch.put_of (done : List (List OutgoingModeChange)) (cur : List OutgoingModeChange)
    (c : OutgoingModeChange) :
    (ModeBatch.of target done cur).put (modePiece (lastSignOf none cur) c) c =
      .of target done (cur ++ [c]) := by
  simp [put, ModeBatch.of, lettersFrom_append, lettersFrom_singleton, paramsOf_singleton, lastSignOf]

/-- The params of the line under way are not yet at the limit, or the change brings none. -/
theorem room_iff {maxModes : Option ℕ+} {cur : List OutgoingModeChange}
    (hcur : ∀ n ∈ maxModes, (paramsOf cur).length ≤ n) (c : OutgoingModeChange) :
    ¬ (c.sent.isSome ∧ ∃ n ∈ maxModes, n ≤ (paramsOf cur).length) ↔
      ∀ n ∈ maxModes, (paramsOf (cur ++ [c])).length ≤ n := by
  rw [paramsOf_append, paramsOf_singleton, List.length_append]
  cases hc : c.sent with
  | none => simpa using hcur
  | some p =>
    have hroom (n : Nat) : ¬ n ≤ (paramsOf cur).length ↔ (paramsOf cur).length + 1 ≤ n := by omega
    simp only [Option.isSome_some, true_and, not_exists, not_and, hroom, Option.toList_some,
      List.length_singleton]

theorem within_singleton {maxModes : Option ℕ+} (c : OutgoingModeChange) :
    WithinLimits target maxModes [c] := by
  refine ⟨fun n _ => ?_, Or.inr le_rfl⟩
  have hpos := n.pos
  have hlen : (paramsOf [c]).length ≤ 1 := List.length_filterMap_le _ _
  omega

theorem ModeBatch.fit_of (done : List (List OutgoingModeChange)) (cur : List OutgoingModeChange)
    (c : OutgoingModeChange) :
    (ModeBatch.of target done cur).fit target c =
      if cur ≠ [] ∧ modeLineBudget < byteLength (modeLine target (cur ++ [c])) then
        .of target (done ++ [cur]) [c]
      else .of target done (cur ++ [c]) := by
  have hover : (lettersFrom none cur ≠ [] ∧ modeLineBudget < byteLength (renderModes target
      (lettersFrom none cur ++ modePiece (lastSignOf none cur) c) (paramsOf cur ++ c.sent.toList))) ↔
      cur ≠ [] ∧ modeLineBudget < byteLength (modeLine target (cur ++ [c])) := by
    rw [modeLine, lettersFrom_append, lettersFrom_singleton, paramsOf_append, paramsOf_singleton,
      Ne, lettersFrom_eq_nil]
  unfold fit
  by_cases h : cur ≠ [] ∧ modeLineBudget < byteLength (modeLine target (cur ++ [c]))
  · rw [if_pos h]
    refine (if_pos (hover.mpr h)).trans ?_
    rw [flush_of, if_neg h.1, ← modePiece_none]
    exact put_of _ [] c
  · rw [if_neg h]
    exact (if_neg (mt hover.mp h)).trans (put_of done cur c)

theorem ModeBatch.add_of {maxModes : Option ℕ+} {done : List (List OutgoingModeChange)}
    {cur : List OutgoingModeChange} (hcur : cur = [] ∨ WithinLimits target maxModes cur)
    (c : OutgoingModeChange) :
    (ModeBatch.of target done cur).add target maxModes c =
      if cur = [] ∨ WithinLimits target maxModes (cur ++ [c]) then .of target done (cur ++ [c])
      else .of target (done ++ [cur]) [c] := by
  have hcount : ∀ n ∈ maxModes, (paramsOf cur).length ≤ n := by
    obtain rfl | h := hcur
    · exact fun n _ => Nat.zero_le _
    · exact h.1
  have hroom := room_iff hcount c
  have hlen : cur ≠ [] → ¬ (cur ++ [c]).length ≤ 1 := by
    intro hne
    have := List.length_pos_iff.mpr hne
    rw [List.length_append, List.length_singleton]
    omega
  unfold add
  by_cases hfull : c.sent.isSome ∧ ∃ n ∈ maxModes, n ≤ (paramsOf cur).length
  · -- no room for the param, so the line under way has one
    have hne : cur ≠ [] := by
      rintro rfl
      obtain ⟨-, n, -, hn⟩ := hfull
      simp [paramsOf] at hn
    have hno : ¬ (cur = [] ∨ WithinLimits target maxModes (cur ++ [c])) := by
      rintro (h | h)
      · exact hne h
      · exact hroom.mpr h.1 hfull
    rw [if_neg hno]
    refine (if_pos hfull).trans ?_
    rw [flush_of, if_neg hne, fit_of, if_neg (fun h => h.1 rfl), List.nil_append]
  · refine (if_neg hfull).trans ?_
    rw [fit_of]
    by_cases h : cur ≠ [] ∧ modeLineBudget < byteLength (modeLine target (cur ++ [c]))
    · rw [if_pos h, if_neg]
      rintro (h0 | ⟨-, h0 | h0⟩)
      · exact h.1 h0
      · exact absurd h.2 (not_lt.mpr h0)
      · exact hlen h.1 h0
    · rw [if_neg h, if_pos]
      by_cases hnil : cur = []
      · exact Or.inl hnil
      · right
        refine ⟨hroom.mp hfull, Or.inl ?_⟩
        exact not_lt.mp fun h0 => h ⟨hnil, h0⟩

/-- What is out and what is to come are the greedy lines. -/
theorem ModeBatch.run_of {maxModes : Option ℕ+} {done : List (List OutgoingModeChange)}
    {cur : List OutgoingModeChange} (hcur : cur = [] ∨ WithinLimits target maxModes cur)
    (changes : List OutgoingModeChange) :
    ((changes.foldl (ModeBatch.add target maxModes) (.of target done cur)).flush target).lines =
      (done ++ pack (WithinLimits target maxModes) cur changes).map (modeLine target) := by
  induction changes generalizing done cur with
  | nil =>
    rw [List.foldl_nil, flush_of, pack]
    split
    · rw [List.append_nil]
      rfl
    · rfl
  | cons c changes ih =>
    rw [List.foldl_cons, add_of hcur]
    by_cases h : cur = [] ∨ WithinLimits target maxModes (cur ++ [c])
    · rw [if_pos h, pack_step changes h]
      apply ih
      right
      obtain rfl | h := h
      · exact within_singleton c
      · exact h
    · rw [if_neg h, pack_close changes h, ih (Or.inr (within_singleton c)), List.append_assoc]
      rfl

theorem batchModeLines_eq (changes : List OutgoingModeChange) (maxModes : Option ℕ+) :
    batchModeLines target changes maxModes =
      (greedy (WithinLimits target maxModes) changes).map (modeLine target) :=
  @ModeBatch.run_of target maxModes [] [] (Or.inl rfl) changes

theorem lettersFrom_append_left (cs ds : List OutgoingModeChange) :
    byteLength (lettersFrom none ds) ≤ byteLength (lettersFrom none (cs ++ ds)) := by
  induction cs with
  | nil => exact le_rfl
  | cons c cs ih =>
    refine ih.trans ?_
    have hc := Char.utf8Size_pos c.letter.val
    have hs := Char.utf8Size_pos c.sign.char
    rw [List.cons_append, lettersFrom, modePiece_none]
    -- without the change before it, the run's own first sign is written
    cases cs ++ ds with
    | nil => simp [lettersFrom]
    | cons e es =>
      simp only [lettersFrom, modePiece_none, byteLength_append]
      unfold modePiece
      split
      · next h =>
        rw [Option.some.inj h]
        simp only [byteLength_cons, byteLength_nil]
        omega
      · simp

theorem modeLine_within {cs ds : List OutgoingModeChange} (h : cs <:+: ds) :
    byteLength (modeLine target cs) ≤ byteLength (modeLine target ds) := by
  obtain ⟨before, after, rfl⟩ := h
  have hletters := lettersFrom_append_left before cs
  simp only [modeLine, renderModes_eq, lettersFrom_append none (before ++ cs) after,
    paramsOf_append, List.flatMap_append, byteLength_append, byteLength_cons] at hletters ⊢
  omega

theorem WithinLimits.of_infix {maxModes : Option ℕ+} (ds cs : List OutgoingModeChange)
    (h : cs <:+: ds) (hds : WithinLimits target maxModes ds) : WithinLimits target maxModes cs := by
  constructor
  · intro n hn
    have := (h.sublist.filterMap (·.sent)).length_le
    exact this.trans (hds.1 n hn)
  · exact hds.2.imp (modeLine_within h).trans h.length_le.trans

/-- The letters of a line with the params they take. -/
def readModes (spec : ModeSpec) : Option Sign → Str → List Str → Option (List OutgoingModeChange)
  | _, [], [] => some []
  | _, [], _ :: _ => none
  | sign, l :: letters, params =>
    if l = '+' then readModes spec (some .plus) letters params
    else if l = '-' then readModes spec (some .minus) letters params
    else if h : l ≠ '+' ∧ l ≠ '-' ∧ l ≠ ' ' then
      match sign with
      | none => none
      | some s =>
        if modeTakesParam spec l s then
          match params with
          | [] => none
          | p :: params => (readModes spec sign letters params).map (⟨s, ⟨l, h⟩, some p⟩ :: ·)
        else (readModes spec sign letters params).map (⟨s, ⟨l, h⟩, none⟩ :: ·)
    else none

/-- The params of a line from its words: one that begins with a colon takes all that follows. -/
def paramWords : List Str → List Str
  | [] => []
  | w :: ws =>
    if w.head? = some ':' then [[' '].intercalate (w.tail :: ws)] else w :: paramWords ws

/-- The changes of a `MODE` line to a target. -/
def readModeLine (target : Str) (spec : ModeSpec) (line : Str) : Option (List OutgoingModeChange) :=
  let start := "MODE ".toList ++ target ++ [' ']
  if start <+: line then
    match paramWords ((line.drop start.length).splitOn ' ') with
    | [] => none
    | letters :: params => readModes spec none letters params
  else none

theorem Proper.sent_eq {spec : ModeSpec} {c : OutgoingModeChange} (h : Proper spec c) :
    c.sent = c.param := by
  unfold OutgoingModeChange.sent
  cases hp : c.param with
  | none => rfl
  | some p => simp [h.nonempty p hp]

theorem paramWords_eq {ws : List Str} (h : ∀ w ∈ ws, w.head? ≠ some ':') : paramWords ws = ws := by
  induction ws with
  | nil => rfl
  | cons w ws ih =>
    rw [paramWords, if_neg (h w List.mem_cons_self),
      ih fun v hv => h v (List.mem_cons_of_mem w hv)]

theorem readModes_sign (spec : ModeSpec) (last : Option Sign) (s : Sign) (letters : Str)
    (params : List Str) :
    readModes spec last (s.char :: letters) params = readModes spec (some s) letters params := by
  cases s with
  | plus => simp [readModes, Sign.char]
  | minus => simp [readModes, Sign.char]

/-- A change is read back, with the rest of the line after it. -/
theorem readModes_letter {spec : ModeSpec} {c : OutgoingModeChange} (h : Proper spec c)
    (letters : Str) (params : List Str) :
    readModes spec (some c.sign) (c.letter.val :: letters) (c.sent.toList ++ params) =
      (readModes spec (some c.sign) letters params).map (c :: ·) := by
  obtain ⟨sign, ⟨letter, hl⟩, param⟩ := c
  have hsent := h.sent_eq
  have hpresent := h.present
  simp only at hsent hpresent ⊢
  rw [readModes, if_neg hl.1, if_neg hl.2.1, dif_pos hl, hsent]
  cases param with
  | none =>
    rw [Option.isSome_none] at hpresent
    simp [← hpresent]
  | some p =>
    rw [Option.isSome_some] at hpresent
    simp [← hpresent]

theorem readModes_lettersFrom {spec : ModeSpec} {cs : List OutgoingModeChange}
    (h : ∀ c ∈ cs, Proper spec c) (last : Option Sign) :
    readModes spec last (lettersFrom last cs) (paramsOf cs) = some cs := by
  induction cs generalizing last with
  | nil => rfl
  | cons c cs ih =>
    have hc := h c List.mem_cons_self
    have hcs := ih (fun d hd => h d (List.mem_cons_of_mem c hd)) (some c.sign)
    have hparams : paramsOf (c :: cs) = c.sent.toList ++ paramsOf cs := by
      rw [← paramsOf_singleton, ← paramsOf_append]
      rfl
    have hletter : readModes spec (some c.sign) (c.letter.val :: lettersFrom (some c.sign) cs)
        (paramsOf (c :: cs)) = some (c :: cs) := by
      rw [hparams, readModes_letter hc, hcs]
      rfl
    rw [lettersFrom]
    unfold modePiece
    split
    · next hlast =>
      rw [← hlast]
      exact hletter
    · rw [List.cons_append, readModes_sign]
      exact hletter

theorem space_not_mem_lettersFrom (last : Option Sign) (cs : List OutgoingModeChange) :
    ' ' ∉ lettersFrom last cs := by
  induction cs generalizing last with
  | nil => exact List.not_mem_nil
  | cons c cs ih =>
    have hsign : ' ' ≠ c.sign.char := by
      cases c.sign with
      | plus => decide
      | minus => decide
    have hletter : ' ' ≠ c.letter.val := c.letter.property.2.2.symm
    rw [lettersFrom, List.mem_append, not_or]
    refine ⟨?_, ih (some c.sign)⟩
    unfold modePiece
    split
    · simpa using hletter
    · simpa using ⟨hsign, hletter⟩

/-- A line is read back as the changes it carries. -/
theorem readModeLine_modeLine {spec : ModeSpec} {cs : List OutgoingModeChange}
    (h : ∀ c ∈ cs, Proper spec c) (hne : cs ≠ []) :
    readModeLine target spec (modeLine target cs) = some cs := by
  have hline : modeLine target cs = ("MODE ".toList ++ target ++ [' ']) ++
      [' '].intercalate (lettersFrom none cs :: paramsOf cs) := by
    rw [modeLine, renderModes_eq, intercalate_space]
    simp
  have hparam : ∀ p ∈ paramsOf cs, ' ' ∉ p ∧ p.head? ≠ some ':' := by
    intro p hp
    obtain ⟨c, hc, hsent⟩ := List.mem_filterMap.mp hp
    rw [(h c hc).sent_eq] at hsent
    exact ⟨(h c hc).spaceless p hsent, (h c hc).colonless p hsent⟩
  have hfirst : (lettersFrom none cs).head? ≠ some ':' := by
    obtain ⟨c, cs, rfl⟩ := List.exists_cons_of_ne_nil hne
    rw [lettersFrom, modePiece_none]
    cases c.sign with
    | plus => simp [Sign.char]
    | minus => simp [Sign.char]
  have hwords : (([' '].intercalate (lettersFrom none cs :: paramsOf cs)).splitOn ' ') =
      lettersFrom none cs :: paramsOf cs := by
    apply List.splitOn_intercalate ' ' _ (List.cons_ne_nil _ _)
    intro w hw
    obtain rfl | hw := List.mem_cons.mp hw
    · exact space_not_mem_lettersFrom none cs
    · exact (hparam w hw).1
  unfold readModeLine
  simp only
  rw [hline, if_pos (List.prefix_append _ _), List.drop_left, hwords, paramWords_eq]
  · exact readModes_lettersFrom h none
  · intro w hw
    obtain rfl | hw := List.mem_cons.mp hw
    · exact hfirst
    · exact (hparam w hw).2

theorem mapM_readModeLine {spec : ModeSpec} {parts : List (List OutgoingModeChange)}
    (h : ∀ cs ∈ parts, cs ≠ [] ∧ ∀ c ∈ cs, Proper spec c) :
    (parts.map (modeLine target)).mapM (readModeLine target spec) = some parts := by
  induction parts with
  | nil => rfl
  | cons cs parts ih =>
    have hcs := h cs List.mem_cons_self
    rw [List.map_cons, List.mapM_cons, readModeLine_modeLine hcs.2 hcs.1,
      ih fun ds hds => h ds (List.mem_cons_of_mem cs hds)]
    rfl

/-- The lines of a batch read back as its changes in order, each line is within its limits, and
no way of cutting the batch into lines within the limits has fewer. -/
theorem batchModeLines_packs (spec : ModeSpec) (target : Str) (changes : List OutgoingModeChange)
    (hproper : ∀ c ∈ changes, Proper spec c) :
    ((batchModeLines target changes spec.maxModes).mapM (readModeLine target spec)).map
        List.flatten = some changes ∧
      (∀ line ∈ batchModeLines target changes spec.maxModes, ∃ cs,
        readModeLine target spec line = some cs ∧
        (∀ n ∈ spec.maxModes, (cs.filterMap (·.param)).length ≤ n) ∧
        (byteLength line ≤ modeLineBudget ∨ cs.length = 1)) ∧
      ∀ parts : List (List OutgoingModeChange), parts.flatten = changes →
        (∀ cs ∈ parts, WithinLimits target spec.maxModes cs) →
        (batchModeLines target changes spec.maxModes).length ≤ parts.length := by
  have hflat := @greedy_flatten _ (WithinLimits target spec.maxModes) _ changes
  have hall := greedy_all within_singleton (fun _ h => h) changes
    (p := WithinLimits target spec.maxModes)
  have hprop : ∀ cs ∈ greedy (WithinLimits target spec.maxModes) changes, ∀ c ∈ cs,
      Proper spec c := by
    intro cs hcs c hc
    apply hproper
    rw [← hflat]
    exact List.mem_flatten_of_mem hcs hc
  rw [batchModeLines_eq]
  refine ⟨?_, ?_, ?_⟩
  · rw [mapM_readModeLine fun cs hcs => ⟨(hall cs hcs).1, hprop cs hcs⟩, Option.map_some, hflat]
  · intro line hline
    obtain ⟨cs, hcs, rfl⟩ := List.mem_map.mp hline
    have hsent : cs.filterMap (·.param) = paramsOf cs :=
      List.filterMap_congr fun c hc => (hprop cs hcs c hc).sent_eq.symm
    refine ⟨cs, readModeLine_modeLine (hprop cs hcs) (hall cs hcs).1, ?_, ?_⟩
    · rw [hsent]
      exact (hall cs hcs).2.1
    · have hpos := List.length_pos_iff.mpr (hall cs hcs).1
      exact (hall cs hcs).2.2.imp id fun h => by omega
  · rintro parts rfl hparts
    rw [List.length_map]
    exact greedy_length_le WithinLimits.of_infix hparts

/-- An op, a flag and a deop, at one param a line. -/
theorem batchModeLines_packs_ops :
    (batchModeLines "#a".toList
      [⟨.plus, ⟨'o', by decide⟩, some "b".toList⟩, ⟨.plus, ⟨'n', by decide⟩, none⟩,
        ⟨.minus, ⟨'o', by decide⟩, some "c".toList⟩] (some 1)).length ≤ 2 := by
  have h := (batchModeLines_packs ⟨['b'], ['k'], ['l'], ['o'], some 1⟩ "#a".toList
    [⟨.plus, ⟨'o', by decide⟩, some "b".toList⟩, ⟨.plus, ⟨'n', by decide⟩, none⟩,
      ⟨.minus, ⟨'o', by decide⟩, some "c".toList⟩] (by
        intro c hc
        simp only [List.mem_cons, List.not_mem_nil, or_false] at hc
        obtain rfl | rfl | rfl := hc
        · exact ⟨by decide, by decide, by decide, by decide⟩
        · exact ⟨by decide, by decide, by decide, by decide⟩
        · exact ⟨by decide, by decide, by decide, by decide⟩)).2.2
    [[⟨.plus, ⟨'o', by decide⟩, some "b".toList⟩, ⟨.plus, ⟨'n', by decide⟩, none⟩],
      [⟨.minus, ⟨'o', by decide⟩, some "c".toList⟩]] rfl
  apply h
  intro cs hcs
  simp only [List.mem_cons, List.not_mem_nil, or_false] at hcs
  obtain rfl | rfl := hcs
  · decide
  · decide

end Lurker.Irc
