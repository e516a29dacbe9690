import Lurker.Chat.TextMatch
import Mathlib.Data.Int.Order.Basic
import Mathlib.Data.List.Infix
import Mathlib.Order.MinMax

/-!
# Ignore rules

A rule names senders, channels, texts and levels, and hides what it matches, or with
`isExcept` keeps it; of the rules that match an event the one with the longest mask wins.
`evaluateIgnores` gives an event's verdict. `isMemberHidden` says who is left out of the
member list, where there is no event to ask about: it looks for a rule that covers everything
the member does, and passes over the exceptions.
-/

namespace Lurker.Chat

/-- The types of events: those with a sender to ignore, and the rest. -/
inductive EventType where
  | message
  | action
  | notice
  | join
  | part
  | quit
  | nick
  | kick
  | mode
  | topic
  | chghost
  | other (name : String)
  deriving DecidableEq, Repr

inductive Level where
  | all
  | publics
  | msgs
  | notices
  | actions
  | joins
  | parts
  | quits
  | nicks
  | kicks
  | modes
  | topics
  | ctcps
  | nohighlight
  | nounread
  | nonotify
  deriving DecidableEq, Repr

/-- What a level covers: types, and messages of channels or of queries. -/
structure LevelDef where
  types : List EventType
  dm : Option Bool

def levelDefs : Level → Option LevelDef
  | .publics => some ⟨[.message], some false⟩
  | .msgs => some ⟨[.message], some true⟩
  | .notices => some ⟨[.notice], none⟩
  | .actions => some ⟨[.action], none⟩
  | .joins => some ⟨[.join], none⟩
  | .parts => some ⟨[.part], none⟩
  | .quits => some ⟨[.quit, .chghost], none⟩
  | .nicks => some ⟨[.nick], none⟩
  | .kicks => some ⟨[.kick], none⟩
  | .modes => some ⟨[.mode], none⟩
  | .topics => some ⟨[.topic], none⟩
  | .ctcps => some ⟨[], none⟩
  | .all | .nohighlight | .nounread | .nonotify => none

/-- The types an ALL rule covers. -/
def allTypes : List EventType :=
  [.message, .action, .notice, .join, .part, .quit, .nick, .kick, .mode, .topic, .chghost]

def highlightable : List EventType := [.message, .action]

/-- The levels that do not hide. -/
def modifierLevels : List Level := [.nohighlight, .nounread, .nonotify]

/-- What the platform and the URL pattern decide. -/
structure Platform where
  /-- A unit as case-insensitive matching compares it. -/
  canonicalize : CodeUnit → CodeUnit
  toLowerCase : Text → Text
  /-- `new RegExp(source, flags)` with its `test`, none for a source it refuses. -/
  regExp : Text → Text → Option (Text → Bool)
  /-- Every URL of a text replaced by a space. -/
  stripUrls : Text → Text
  /-- `Date.parse` in milliseconds, none for `NaN`. -/
  dateParse : Text → Option Int

structure Mask where
  nick : Text
  user : Text
  host : Text
  deriving DecidableEq

/-- A part of a mask that was left empty matches anything. -/
def orStar (s : Text) : Text := if s = [] then text "*" else s

/-- What stands before and after the first of a unit. -/
def cutAt (c : CodeUnit) (s : Text) : Option (Text × Text) :=
  if c ∈ s then some (s.takeWhile (· ≠ c), (s.dropWhile (· ≠ c)).tail) else none

def splitMask (mask : Text) : Mask :=
  match cutAt (unit '@') mask with
  | some (pre, host) =>
    match cutAt (unit '!') pre with
    | some (nick, user) => ⟨orStar nick, orStar user, orStar host⟩
    | none => ⟨text "*", orStar pre, orStar host⟩
  | none =>
    match cutAt (unit '!') mask with
    | some (nick, user) => ⟨orStar nick, orStar user, text "*"⟩
    | none => ⟨orStar mask, text "*", text "*"⟩

/-- A glob against a whole text: `*` is any run and `?` any one unit but a line terminator. -/
def globTest (fold : CodeUnit → CodeUnit) : Text → Text → Bool
  | [], s => s.isEmpty
  | p :: pattern, s =>
    if p = unit '*' then
      (List.range ((s.takeWhile (!isLineTerminator ·)).length + 1)).any fun n =>
        globTest fold pattern (s.drop n)
    else match s with
      | [] => false
      | c :: rest =>
        (if p = unit '?' then !isLineTerminator c else fold p = fold c) &&
          globTest fold pattern rest

variable (p : Platform)

def splitUserhost (userhost : Text) : Option (Text × Text) :=
  (cutAt (unit '!') userhost).bind fun parts => cutAt (unit '@') parts.2

/-- Whether a mask names a sender. -/
def buildMaskMatcher (mask : Option Text) (nick userhost : Option Text) : Bool :=
  let mask := mask.getD []
  let nick := nick.getD []
  let userhost := userhost.getD []
  if mask = [] ∨ mask = text "*" then true
  else if unit '!' ∈ mask ∨ unit '@' ∈ mask then
    let parts := splitMask mask
    let anyUserhost := parts.user = text "*" ∧ parts.host = text "*"
    if nick = [] ∨ globTest p.canonicalize parts.nick nick = false then false
    else if userhost = [] then anyUserhost
    else match splitUserhost userhost with
      | none => anyUserhost
      | some (user, host) => globTest id parts.user user && globTest id parts.host host
  else nick ≠ [] ∧ globTest p.canonicalize mask nick

def buildChannelMatcher (channels : Option (List Text)) (target : Text) : Bool :=
  let channels := channels.getD []
  if channels = [] then true
  else target ≠ [] ∧ channels.any fun channel => globTest p.canonicalize channel target

inductive PatternKind where
  | substr
  | full
  | regex
  deriving DecidableEq, Repr

def escapeRegex (s : Text) : Text :=
  s.flatMap fun c => if c ∈ text ".*+?^$\x7b\x7d()|[]\\" then [unit '\\', c] else [c]

def wordChar : Text := text "[\\p\x7bL\x7d\\p\x7bN\x7d_]"

def nonWordChar : Text := text "[^\\p\x7bL\x7d\\p\x7bN\x7d_]"

/-- A predicate on texts, none where the pattern does not compile. -/
def buildTextTest (pattern : Text) (kind : PatternKind) : Option (Text → Bool) :=
  match kind with
  | .substr => some fun s => p.toLowerCase pattern <:+: p.toLowerCase s
  | .regex => p.regExp pattern (text "i")
  | .full =>
    p.regExp (text "(?:^|" ++ nonWordChar ++ text ")(?:" ++ escapeRegex pattern ++ text ")(?!" ++
      wordChar ++ text ")") (text "iu")

def cleanForMatch (s : Text) : Text := p.stripUrls (stripFormatting s)

structure IgnoreRule where
  mask : Option Text
  channels : Option (List Text)
  pattern : Option Text
  patternKind : PatternKind
  levels : List Level
  isExcept : Bool
  expiresAt : Option Text
  deriving DecidableEq

structure CompiledIgnoreRule where
  isExcept : Bool
  maskLen : Nat
  /-- None for no expiry, and within it none for a date that is not one. -/
  expiresAt : Option (Option Int)
  hides : Bool
  nohilight : Bool
  nonotify : Bool
  /-- Has a content pattern. -/
  pattern : Bool
  hasAll : Bool
  matchesNick : Option Text → Option Text → Bool
  matchesChannel : Text → Bool
  matchesText : Text → Bool
  hideLevel : EventType → Bool → Bool

def compileIgnoreRule (rule : IgnoreRule) : CompiledIgnoreRule :=
  let hideLevels := rule.levels.filter (· ∉ modifierLevels)
  let hasAll := .all ∈ hideLevels
  { isExcept := rule.isExcept
    maskLen := (rule.mask.getD []).length
    expiresAt := (rule.expiresAt.filter (· ≠ [])).map p.dateParse
    hides := hideLevels ≠ []
    nohilight := .nohighlight ∈ rule.levels
    nonotify := .nonotify ∈ rule.levels
    pattern := rule.pattern.getD [] ≠ []
    hasAll := hasAll
    matchesNick := buildMaskMatcher p rule.mask
    matchesChannel := buildChannelMatcher p rule.channels
    matchesText :=
      if rule.pattern.getD [] = [] then fun _ => true
      else (buildTextTest p (rule.pattern.getD []) rule.patternKind).getD fun _ => false
    hideLevel := fun type isDm =>
      if hasAll then type ∈ allTypes
      else hideLevels.any fun level => (levelDefs level).any fun d =>
        type ∈ d.types && d.dm.all (· = isDm) }

def compileIgnoreRules (rules : List IgnoreRule) : List CompiledIgnoreRule :=
  rules.map (compileIgnoreRule p)

/-- An expiry that is not a date is never reached. -/
def CompiledIgnoreRule.expired (r : CompiledIgnoreRule) (now : Int) : Bool :=
  match r.expiresAt with
  | some (some t) => t ≤ now
  | _ => false

structure IgnoreInput where
  nick : Option Text
  userhost : Option Text
  target : Text
  text : Text
  type : EventType
  isDm : Bool

structure IgnoreVerdict where
  hide : Bool
  nohilight : Bool
  nonotify : Bool
  deriving DecidableEq, Repr

/-- The longest masks seen, of the rules and of the exceptions. -/
structure Best where
  plain : Int
  excepted : Int

def Best.start : Best := ⟨-1, -1⟩

def Best.see (b : Best) (r : CompiledIgnoreRule) : Best :=
  if r.isExcept then if r.maskLen > b.excepted then { b with excepted := r.maskLen } else b
  else if r.maskLen > b.plain then { b with plain := r.maskLen } else b

def Best.wins (b : Best) : Bool := 0 ≤ b.plain ∧ b.excepted < b.plain

def anyHasPattern (compiled : List CompiledIgnoreRule) : Bool := compiled.any (·.pattern)

/-- What of a rule applies to an event's type. -/
def CompiledIgnoreRule.hideApplies (r : CompiledIgnoreRule) (input : IgnoreInput) : Bool :=
  r.hides && r.hideLevel input.type input.isDm

def CompiledIgnoreRule.noApplies (r : CompiledIgnoreRule) (input : IgnoreInput) : Bool :=
  r.nohilight && (input.type ∈ highlightable) &&
    (if r.hides then r.hideLevel input.type input.isDm else true)

def CompiledIgnoreRule.notifyApplies (r : CompiledIgnoreRule) (input : IgnoreInput) : Bool :=
  r.nonotify && (if r.hides then r.hideLevel input.type input.isDm else true)

/-- Whether a rule matches an event whose text has been cleaned. -/
def CompiledIgnoreRule.matchesEvent (r : CompiledIgnoreRule) (input : IgnoreInput) (s : Text) : Bool :=
  r.matchesNick input.nick input.userhost && r.matchesChannel input.target && r.matchesText s

/-- The best of hiding, of no highlight and of no notification. -/
structure Bests where
  hide : Best
  no : Best
  notify : Best

/-- One rule of the loop. -/
def Bests.rule (input : IgnoreInput) (s : Text) (now : Int) (b : Bests) (r : CompiledIgnoreRule) :
    Bests :=
  if r.expired now then b
  else if !r.hideApplies input && !r.noApplies input && !r.notifyApplies input then b
  else if !r.matchesEvent input s then b
  else
    { hide := if r.hideApplies input then b.hide.see r else b.hide
      no := if r.noApplies input then b.no.see r else b.no
      notify := if r.notifyApplies input then b.notify.see r else b.notify }

def evaluateIgnores (compiled : List CompiledIgnoreRule) (input : IgnoreInput) (now : Int) :
    IgnoreVerdict :=
  if compiled.isEmpty then ⟨false, false, false⟩
  else
    let s := if input.text ≠ [] ∧ anyHasPattern compiled then cleanForMatch p input.text else []
    let b := compiled.foldl (Bests.rule input s now) ⟨.start, .start, .start⟩
    ⟨b.hide.wins, b.no.wins, b.notify.wins⟩

/-- Whether a rule would erase a member's whole presence. -/
def isMemberHidden (compiled : List CompiledIgnoreRule) (nick : Text) (userhost : Option Text)
    (channel : Text) (now : Int) : Bool :=
  compiled.any fun r =>
    if r.isExcept || r.pattern || !r.hasAll then false
    else if r.expired now then false
    else if !r.matchesChannel channel then false
    else r.matchesNick (some nick) userhost

/-- Some rule applies, and every exception that does has a shorter mask than some rule. -/
structure Prevails (rs : List CompiledIgnoreRule) (applies : CompiledIgnoreRule → Bool) : Prop where
  covered : ∃ r ∈ rs, applies r = true ∧ r.isExcept = false
  outranked : ∀ e ∈ rs, applies e = true → e.isExcept = true →
    ∃ r ∈ rs, applies r = true ∧ r.isExcept = false ∧ e.maskLen < r.maskLen

/-- The rules of a list that apply, seen one after another. -/
def bestFrom (applies : CompiledIgnoreRule → Bool) (b : Best) (rs : List CompiledIgnoreRule) :
    Best :=
  rs.foldl (fun b r => if applies r then b.see r else b) b

theorem Best.see_eq (b : Best) (r : CompiledIgnoreRule) :
    b.see r = if r.isExcept then { b with excepted := max b.excepted r.maskLen }
      else { b with plain := max b.plain r.maskLen } := by
  have hmax (m : Int) : (if r.maskLen > m then (r.maskLen : Int) else m) = max m r.maskLen := by
    split <;> omega
  unfold Best.see
  rw [← hmax, ← hmax]
  split
  · split <;> rfl
  · split <;> rfl

theorem le_plain_iff (applies : CompiledIgnoreRule → Bool) (b : Best)
    (rs : List CompiledIgnoreRule) (m : Int) :
    m ≤ (bestFrom applies b rs).plain ↔
      m ≤ b.plain ∨ ∃ r ∈ rs, applies r = true ∧ r.isExcept = false ∧ m ≤ r.maskLen := by
  induction rs generalizing b with
  | nil => simp [bestFrom]
  | cons r rs ih =>
    have hsee : m ≤ (if applies r then b.see r else b).plain ↔
        m ≤ b.plain ∨ (applies r = true ∧ r.isExcept = false ∧ m ≤ r.maskLen) := by
      rw [Best.see_eq]
      cases applies r <;> cases hexcept : r.isExcept <;> simp
    refine (ih _).trans ?_
    rw [hsee, List.exists_mem_cons_iff, or_assoc]

theorem le_excepted_iff (applies : CompiledIgnoreRule → Bool) (b : Best)
    (rs : List CompiledIgnoreRule) (m : Int) :
    m ≤ (bestFrom applies b rs).excepted ↔
      m ≤ b.excepted ∨ ∃ r ∈ rs, applies r = true ∧ r.isExcept = true ∧ m ≤ r.maskLen := by
  induction rs generalizing b with
  | nil => simp [bestFrom]
  | cons r rs ih =>
    have hsee : m ≤ (if applies r then b.see r else b).excepted ↔
        m ≤ b.excepted ∨ (applies r = true ∧ r.isExcept = true ∧ m ≤ r.maskLen) := by
      rw [Best.see_eq]
      cases applies r <;> cases hexcept : r.isExcept <;> simp
    refine (ih _).trans ?_
    rw [hsee, List.exists_mem_cons_iff, or_assoc]

theorem wins_iff (applies : CompiledIgnoreRule → Bool) (rs : List CompiledIgnoreRule) :
    (bestFrom applies .start rs).wins = true ↔ Prevails rs applies := by
  have hplain := le_plain_iff applies .start rs
  have hexcepted := le_excepted_iff applies .start rs
  generalize bestFrom applies .start rs = b at hplain hexcepted ⊢
  simp only [Best.start] at hplain hexcepted
  simp only [Best.wins, decide_eq_true_eq]
  constructor
  · rintro ⟨hpos, hlt⟩
    obtain h | ⟨r, hr, happlies, hexcept, hlen⟩ := (hplain b.plain).mp (Int.le_refl _)
    · omega
    refine ⟨⟨r, hr, happlies, hexcept⟩, fun e he happlies' hexcept' => ?_⟩
    have := (hexcepted e.maskLen).mpr (Or.inr ⟨e, he, happlies', hexcept', Int.le_refl _⟩)
    exact ⟨r, hr, happlies, hexcept, by omega⟩
  · rintro ⟨⟨r, hr, happlies, hexcept⟩, houtranked⟩
    have hlen := (hplain r.maskLen).mpr (Or.inr ⟨r, hr, happlies, hexcept, Int.le_refl _⟩)
    refine ⟨by omega, ?_⟩
    by_contra hnot
    obtain h | ⟨e, he, happlies', hexcept', hlen'⟩ := (hexcepted b.excepted).mp (Int.le_refl _)
    · omega
    · obtain ⟨r', hr', happlies', hexcept', hlonger⟩ := houtranked e he happlies' hexcept'
      have := (hplain r'.maskLen).mpr (Or.inr ⟨r', hr', happlies', hexcept', Int.le_refl _⟩)
      omega

/-- The text that patterns see. -/
def subject (input : IgnoreInput) : Text :=
  if input.text = [] then [] else cleanForMatch p input.text

/-- Whether a rule whose levels apply is in force and matches the event. -/
def CompiledIgnoreRule.applied (levels : CompiledIgnoreRule → Bool) (input : IgnoreInput)
    (now : Int) (r : CompiledIgnoreRule) : Bool :=
  !r.expired now && levels r && r.matchesEvent input (subject p input)

variable {p}

/-- A rule without a pattern matches any text. -/
theorem matchesText_of_plain {rules : List IgnoreRule} {r : CompiledIgnoreRule}
    (hr : r ∈ compileIgnoreRules p rules) (hplain : r.pattern = false) (s : Text) :
    r.matchesText s = true := by
  obtain ⟨rule, -, rfl⟩ := List.mem_map.mp hr
  have hpattern : rule.pattern.getD [] = [] := by simpa [compileIgnoreRule] using hplain
  simp [compileIgnoreRule, hpattern]

/-- The text is cleaned only where a pattern sees it. -/
theorem matchesEvent_subject {rules : List IgnoreRule} {r : CompiledIgnoreRule}
    (hr : r ∈ compileIgnoreRules p rules) (input : IgnoreInput) :
    r.matchesEvent input (if input.text ≠ [] ∧ anyHasPattern (compileIgnoreRules p rules) then
      cleanForMatch p input.text else []) = r.matchesEvent input (subject p input) := by
  unfold CompiledIgnoreRule.matchesEvent
  cases hpattern : r.pattern with
  | false => rw [matchesText_of_plain hr hpattern, matchesText_of_plain hr hpattern]
  | true =>
    have hany : anyHasPattern (compileIgnoreRules p rules) = true :=
      List.any_eq_true.mpr ⟨r, hr, hpattern⟩
    unfold subject
    by_cases htext : input.text = []
    · simp [htext]
    · simp [htext, hany]

/-- One rule of the loop on one of the three bests. -/
theorem Bests.rule_eq (input : IgnoreInput) (s : Text) (now : Int) (b : Bests)
    (r : CompiledIgnoreRule) :
    Bests.rule input s now b r =
      { hide := if !r.expired now && r.hideApplies input && r.matchesEvent input s then
          b.hide.see r else b.hide
        no := if !r.expired now && r.noApplies input && r.matchesEvent input s then
          b.no.see r else b.no
        notify := if !r.expired now && r.notifyApplies input && r.matchesEvent input s then
          b.notify.see r else b.notify } := by
  unfold Bests.rule
  cases r.expired now <;> cases r.hideApplies input <;> cases r.noApplies input <;>
    cases r.notifyApplies input <;> cases r.matchesEvent input s <;> rfl

/-- The three bests of a run of the loop, each on its own. -/
theorem foldl_rule (input : IgnoreInput) (s : Text) (now : Int) (b : Bests)
    (rs : List CompiledIgnoreRule) :
    rs.foldl (Bests.rule input s now) b =
      { hide := bestFrom (fun r => !r.expired now && r.hideApplies input && r.matchesEvent input s)
          b.hide rs
        no := bestFrom (fun r => !r.expired now && r.noApplies input && r.matchesEvent input s)
          b.no rs
        notify := bestFrom
          (fun r => !r.expired now && r.notifyApplies input && r.matchesEvent input s)
          b.notify rs } := by
  induction rs generalizing b with
  | nil => rfl
  | cons r rs ih =>
    rw [List.foldl_cons, ih, Bests.rule_eq]
    rfl

theorem bestFrom_congr {applies applies' : CompiledIgnoreRule → Bool}
    {rs : List CompiledIgnoreRule} (h : ∀ r ∈ rs, applies r = applies' r) (b : Best) :
    bestFrom applies b rs = bestFrom applies' b rs := by
  induction rs generalizing b with
  | nil => rfl
  | cons r rs ih =>
    unfold bestFrom at ih ⊢
    rw [List.foldl_cons, List.foldl_cons, h r List.mem_cons_self]
    exact ih (fun r' hr' => h r' (List.mem_cons_of_mem r hr')) _

/-- A verdict is that of the bests of the rules that apply. -/
theorem evaluateIgnores_eq (rules : List IgnoreRule) (input : IgnoreInput) (now : Int) :
    evaluateIgnores p (compileIgnoreRules p rules) input now =
      let best levels :=
        bestFrom (CompiledIgnoreRule.applied p levels input now) .start (compileIgnoreRules p rules)
      ⟨(best (·.hideApplies input)).wins, (best (·.noApplies input)).wins,
        (best (·.notifyApplies input)).wins⟩ := by
  have hcongr (levels : CompiledIgnoreRule → Bool) :
      bestFrom (fun r => !r.expired now && levels r && r.matchesEvent input
        (if input.text ≠ [] ∧ anyHasPattern (compileIgnoreRules p rules) then
          cleanForMatch p input.text else [])) .start (compileIgnoreRules p rules) =
        bestFrom (CompiledIgnoreRule.applied p levels input now) .start
          (compileIgnoreRules p rules) := by
    apply bestFrom_congr
    intro r hr
    rw [matchesEvent_subject hr]
    rfl
  unfold evaluateIgnores
  split
  · next hempty =>
    rw [List.isEmpty_iff.mp hempty]
    rfl
  · simp only
    rw [foldl_rule, ← hcongr, ← hcongr, ← hcongr]

theorem evaluateIgnores_hide (rules : List IgnoreRule) (input : IgnoreInput) (now : Int) :
    (evaluateIgnores p (compileIgnoreRules p rules) input now).hide = true ↔
      Prevails (compileIgnoreRules p rules)
        (CompiledIgnoreRule.applied p (·.hideApplies input) input now) := by
  rw [evaluateIgnores_eq]
  exact wins_iff _ _

theorem Prevails.of_mem {rs rs' : List CompiledIgnoreRule} (h : ∀ r, r ∈ rs ↔ r ∈ rs')
    {applies : CompiledIgnoreRule → Bool} (hrs : Prevails rs applies) : Prevails rs' applies := by
  obtain ⟨⟨r, hr, happlies⟩, houtranked⟩ := hrs
  refine ⟨⟨r, (h r).mp hr, happlies⟩, fun e he happlies' hexcept => ?_⟩
  obtain ⟨r', hr', hlonger⟩ := houtranked e ((h e).mpr he) happlies' hexcept
  exact ⟨r', (h r').mp hr', hlonger⟩

theorem mem_insert {before after : List CompiledIgnoreRule} {r r' : CompiledIgnoreRule} :
    r' ∈ before ++ r :: after ↔ r' = r ∨ r' ∈ before ++ after := by
  rw [List.mem_append, List.mem_cons, List.mem_append]
  tauto

/-- One more exception hides nothing more. -/
theorem Prevails.of_except {before after : List CompiledIgnoreRule} {r : CompiledIgnoreRule}
    (hr : r.isExcept = true) {applies : CompiledIgnoreRule → Bool}
    (h : Prevails (before ++ r :: after) applies) : Prevails (before ++ after) applies := by
  have hplain : ∀ r' ∈ before ++ r :: after, r'.isExcept = false → r' ∈ before ++ after := by
    intro r' hr' hexcept
    obtain rfl | hr' := mem_insert.mp hr'
    · rw [hr] at hexcept
      cases hexcept
    · exact hr'
  obtain ⟨⟨r', hr', happlies, hexcept⟩, houtranked⟩ := h
  refine ⟨⟨r', hplain r' hr' hexcept, happlies, hexcept⟩, fun e he happlies' hexcept' => ?_⟩
  obtain ⟨r', hr', happlies', hexcept', hlonger⟩ :=
    houtranked e (mem_insert.mpr (Or.inr he)) happlies' hexcept'
  exact ⟨r', hplain r' hr' hexcept', happlies', hexcept', hlonger⟩

/-- One more rule that is no exception shows nothing more. -/
theorem Prevails.of_plain {before after : List CompiledIgnoreRule} {r : CompiledIgnoreRule}
    (hr : r.isExcept = false) {applies : CompiledIgnoreRule → Bool}
    (h : Prevails (before ++ after) applies) : Prevails (before ++ r :: after) applies := by
  obtain ⟨⟨r', hr', happlies⟩, houtranked⟩ := h
  refine ⟨⟨r', mem_insert.mpr (Or.inr hr'), happlies⟩, fun e he happlies' hexcept' => ?_⟩
  obtain rfl | he := mem_insert.mp he
  · rw [hr] at hexcept'
    cases hexcept'
  · obtain ⟨r', hr', hlonger⟩ := houtranked e he happlies' hexcept'
    exact ⟨r', mem_insert.mpr (Or.inr hr'), hlonger⟩

/-- The order of the rules does not matter. -/
theorem evaluateIgnores_perm {rules rules' : List IgnoreRule} (h : rules.Perm rules')
    (input : IgnoreInput) (now : Int) :
    evaluateIgnores p (compileIgnoreRules p rules) input now =
      evaluateIgnores p (compileIgnoreRules p rules') input now := by
  have hmem (r : CompiledIgnoreRule) :
      r ∈ compileIgnoreRules p rules ↔ r ∈ compileIgnoreRules p rules' :=
    (h.map (compileIgnoreRule p)).mem_iff
  have hwins (applies : CompiledIgnoreRule → Bool) :
      (bestFrom applies .start (compileIgnoreRules p rules)).wins =
        (bestFrom applies .start (compileIgnoreRules p rules')).wins := by
    rw [Bool.eq_iff_iff, wins_iff, wins_iff]
    exact ⟨Prevails.of_mem hmem, Prevails.of_mem fun r => (hmem r).symm⟩
  rw [evaluateIgnores_eq, evaluateIgnores_eq]
  simp only [hwins]

/-- A rule that covers whatever a member does in a channel. -/
structure Erases (nick : Text) (userhost : Option Text) (channel : Text) (now : Int)
    (r : CompiledIgnoreRule) : Prop where
  plain : r.isExcept = false
  textless : r.pattern = false
  all : r.hasAll = true
  inForce : r.expired now = false
  channel : r.matchesChannel channel = true
  nick : r.matchesNick (some nick) userhost = true

theorem isMemberHidden_iff (compiled : List CompiledIgnoreRule) (nick : Text)
    (userhost : Option Text) (channel : Text) (now : Int) :
    isMemberHidden compiled nick userhost channel now = true ↔
      ∃ r ∈ compiled, Erases nick userhost channel now r := by
  unfold isMemberHidden
  rw [List.any_eq_true]
  refine exists_congr fun r => and_congr_right fun _ => ⟨fun h => ?_, fun h => ?_⟩
  · simp at h
    obtain ⟨⟨⟨hplain, htextless⟩, hall⟩, hforce, hchannel, hnick⟩ := h
    exact ⟨hplain, htextless, hall, hforce, hchannel, hnick⟩
  · simp [h.plain, h.textless, h.all, h.inForce, h.channel, h.nick]

/-- A rule that erases a member hides every event of theirs, as far as it goes. -/
theorem Erases.applied {rules : List IgnoreRule} {r : CompiledIgnoreRule}
    (hr : r ∈ compileIgnoreRules p rules) {nick : Text} {userhost : Option Text} {channel : Text}
    {now : Int} (h : Erases nick userhost channel now r) {type : EventType} (htype : type ∈ allTypes)
    (s : Text) (isDm : Bool) :
    r.applied p (·.hideApplies ⟨some nick, userhost, channel, s, type, isDm⟩)
      ⟨some nick, userhost, channel, s, type, isDm⟩ now = true := by
  have htext := matchesText_of_plain hr h.textless
    (subject p ⟨some nick, userhost, channel, s, type, isDm⟩)
  have hlevels : r.hides = true ∧ r.hideLevel type isDm = true := by
    obtain ⟨rule, -, rfl⟩ := List.mem_map.mp hr
    have hall := h.all
    simp only [compileIgnoreRule, decide_eq_true_eq] at hall ⊢
    exact ⟨List.ne_nil_of_mem hall, by rw [if_pos hall]; exact decide_eq_true htype⟩
  simp [CompiledIgnoreRule.applied, CompiledIgnoreRule.hideApplies, CompiledIgnoreRule.matchesEvent,
    h.inForce, h.channel, h.nick, htext, hlevels]

/-- Every exception that covers an event of the member has a shorter mask than some rule that
covers the same event. -/
def Outranked (p : Platform) (compiled : List CompiledIgnoreRule) (nick : Text)
    (userhost : Option Text) (channel : Text) (now : Int) (isDm : Bool) : Prop :=
  ∀ e ∈ compiled, e.isExcept = true → ∀ type ∈ allTypes, ∀ s,
    let input : IgnoreInput := ⟨some nick, userhost, channel, s, type, isDm⟩
    e.applied p (·.hideApplies input) input now = true →
      ∃ r ∈ compiled, r.applied p (·.hideApplies input) input now = true ∧ r.isExcept = false ∧
        e.maskLen < r.maskLen

/-- The member list and the filter agree on a member where the exceptions for them are
outranked; verdicts do not depend on the order of the rules, and go one way as rules are added. -/
theorem ignores_agree (p : Platform) (rules : List IgnoreRule) (now : Int) :
    (∀ nick userhost channel isDm,
      ((isMemberHidden (compileIgnoreRules p rules) nick userhost channel now = true →
          ∀ type ∈ allTypes, ∀ s, (evaluateIgnores p (compileIgnoreRules p rules)
            ⟨some nick, userhost, channel, s, type, isDm⟩ now).hide = true) ↔
        ((∃ r ∈ compileIgnoreRules p rules, Erases nick userhost channel now r) →
          Outranked p (compileIgnoreRules p rules) nick userhost channel now isDm))) ∧
      (∀ rules', rules.Perm rules' → ∀ input,
        evaluateIgnores p (compileIgnoreRules p rules') input now =
          evaluateIgnores p (compileIgnoreRules p rules) input now) ∧
      ∀ before after rule input, rules = before ++ after →
        (rule.isExcept = true →
          (evaluateIgnores p (compileIgnoreRules p rules) input now).hide = false →
          (evaluateIgnores p (compileIgnoreRules p (before ++ rule :: after)) input now).hide =
            false) ∧
        (rule.isExcept = false →
          (evaluateIgnores p (compileIgnoreRules p rules) input now).hide = true →
          (evaluateIgnores p (compileIgnoreRules p (before ++ rule :: after)) input now).hide =
            true) := by
  refine ⟨fun nick userhost channel isDm => ?_, fun rules' h input => ?_, ?_⟩
  · rw [isMemberHidden_iff]
    refine ⟨fun hagree herased e he hexcept type htype s happlies => ?_,
      fun houtranked herased type htype s => ?_⟩
    · exact ((evaluateIgnores_hide rules _ now).mp (hagree herased type htype s)).outranked e he
        happlies hexcept
    · rw [evaluateIgnores_hide]
      obtain ⟨r, hr, herases⟩ := herased
      refine ⟨⟨r, hr, herases.applied hr htype s isDm, herases.plain⟩, fun e he happlies hexcept => ?_⟩
      exact houtranked ⟨r, hr, herases⟩ e he hexcept type htype s happlies
  · exact (evaluateIgnores_perm h input now).symm
  · rintro before after rule input rfl
    have hinsert : compileIgnoreRules p (before ++ rule :: after) = compileIgnoreRules p before ++
        compileIgnoreRule p rule :: compileIgnoreRules p after := by
      simp [compileIgnoreRules]
    have happend : compileIgnoreRules p (before ++ after) =
        compileIgnoreRules p before ++ compileIgnoreRules p after := List.map_append
    constructor
    · intro hexcept hshown
      rw [← Bool.not_eq_true, evaluateIgnores_hide] at hshown ⊢
      intro hhidden
      apply hshown
      rw [hinsert] at hhidden
      rw [happend]
      exact hhidden.of_except hexcept
    · intro hexcept hhidden
      rw [evaluateIgnores_hide] at hhidden ⊢
      rw [happend] at hhidden
      rw [hinsert]
      exact hhidden.of_plain hexcept

/-- ASCII folding, no regular expressions and no dates. -/
def samplePlatform : Platform where
  canonicalize c := if unit 'a' ≤ c ∧ c ≤ unit 'z' then c - 32 else c
  toLowerCase s := s.map fun c => if unit 'A' ≤ c ∧ c ≤ unit 'Z' then c + 32 else c
  regExp _ _ := none
  stripUrls s := s
  dateParse _ := none

/-- Everybody is ignored but Bob. -/
def allButBob : List IgnoreRule :=
  [⟨none, none, none, .substr, [.all], false, none⟩,
    ⟨some (text "bob"), none, none, .substr, [.all], true, none⟩]

/-- Bob is left out of the member list, and his messages are shown. -/
theorem excepted_member_hidden :
    isMemberHidden (compileIgnoreRules samplePlatform allButBob) (text "Bob") none (text "#a") 0 =
        true ∧
      (evaluateIgnores samplePlatform (compileIgnoreRules samplePlatform allButBob)
        ⟨some (text "Bob"), none, text "#a", text "hi", .message, false⟩ 0).hide = false := by
  decide +kernel

/-- Al's joins stay hidden with one more rule. -/
theorem ignores_agree_al :
    (evaluateIgnores samplePlatform (compileIgnoreRules samplePlatform
      ([⟨none, none, none, .substr, [.all], false, none⟩] ++
        ⟨some (text "al"), none, none, .substr, [.joins], false, none⟩ :: []))
      ⟨some (text "al"), none, text "#a", [], .join, false⟩ 0).hide = true := by
  refine ((ignores_agree samplePlatform [⟨none, none, none, .substr, [.all], false, none⟩] 0).2.2
    [⟨none, none, none, .substr, [.all], false, none⟩] [] _ _ rfl).2 rfl ?_
  decide +kernel

end Lurker.Chat
