import Lurker.Chat.TextMatch
import Mathlib.Data.List.Induction

/-!
# Relay envelopes

A relay bot posts other people's messages in a fixed envelope, which a template with
placeholders describes. The template is matched against the body without its formatting. A
message that is the last placeholder is then cut from the raw body, as many visible units
from the end as the match has, so that it keeps its formatting. That is the message when
nothing follows it; a literal behind it is taken for its end.
-/

namespace Lurker.Chat

inductive Slot where
  | source
  | nick
  | message
  deriving DecidableEq, Repr

def Slot.name : Slot → Text
  | .source => text "source"
  | .nick => text "nick"
  | .message => text "message"

/-- How a placeholder is written. -/
def Slot.spelled (slot : Slot) : Text := unit '\x7b' :: (slot.name ++ [unit '\x7d'])

/-- A template taken apart: each placeholder with the literal before it, and the rest. -/
structure Compiled where
  groups : List (Text × Slot)
  tail : Text
  deriving DecidableEq

def Compiled.slots (c : Compiled) : List Slot := c.groups.map (·.2)

/-- The placeholder at the start of a text. -/
def placeholderAt (s : Text) : Option Slot :=
  [Slot.source, Slot.nick, Slot.message].find? fun slot => slot.spelled.isPrefixOf s

/-- The search for placeholders: units still of one, and the literal so far. -/
def compileFrom : Nat → Text → Text → Compiled
  | _, literal, [] => ⟨[], literal⟩
  | skip + 1, literal, _ :: rest => compileFrom skip literal rest
  | 0, literal, c :: rest =>
    match placeholderAt (c :: rest) with
    | none => compileFrom 0 (literal ++ [c]) rest
    | some slot =>
      let compiled := compileFrom (slot.spelled.length - 1) [] rest
      { compiled with groups := (literal, slot) :: compiled.groups }

def compileRelayTemplate (template : Text) : Option Compiled :=
  let compiled := compileFrom 0 [] template
  if .nick ∈ compiled.slots ∧ .message ∈ compiled.slots then some compiled else none

/-- The template with values for its placeholders. -/
def Compiled.substitute (c : Compiled) (values : List Text) : Text :=
  (c.groups.zipWith (fun group value => group.1 ++ value) values).flatten ++ c.tail

/-- What a group's units are. -/
def Slot.allows : Slot → CodeUnit → Bool
  | .nick, c => !isSpace c
  | .source, c => !isLineTerminator c
  | .message, c => !isLineTerminator c

/-- The lengths a group tries, in order: a message is greedy, the others are lazy. -/
def Slot.lengths (slot : Slot) (s : Text) : List Nat :=
  let longest := (s.takeWhile slot.allows).length
  match slot with
  | .message => (List.range (longest + 1)).reverse
  | _ => List.range' 1 longest

/-- The first match of the groups, each tried in its order. -/
def matchGroups (tail : Text) : List (Text × Slot) → Text → Option (List Text)
  | [], s => if s = tail then some [] else none
  | (literal, slot) :: groups, s =>
    if literal <+: s then
      let s := s.drop literal.length
      (slot.lengths s).findSome? fun n =>
        (matchGroups tail groups (s.drop n)).map (s.take n :: ·)
    else none

def Compiled.exec (c : Compiled) (s : Text) : Option (List Text) := matchGroups c.tail c.groups s

/-- Parsed envelope. -/
structure RelayParse where
  source : Option Text
  nick : Text
  text : Text
  deriving DecidableEq, Repr

/-- One value of the match. -/
def RelayParse.assign (parsed : RelayParse) (slot : Slot × Text) : RelayParse :=
  match slot with
  | (.source, value) => { parsed with source := some value }
  | (.nick, value) => { parsed with nick := value }
  | (.message, value) => { parsed with text := value }

/-- A leading run of these is not part of a nick. -/
def isMemberPrefix (c : CodeUnit) : Bool := c ∈ text "~&@%+"

/-- One template of the loop. -/
def parseTemplate (body template : Text) : Option RelayParse := do
  let stripped := stripFormatting body
  let compiled ← compileRelayTemplate template
  let values ← compiled.exec stripped
  let parsed := (compiled.slots.zip values).foldl RelayParse.assign ⟨none, [], []⟩
  let nick := parsed.nick.dropWhile isMemberPrefix
  if nick = [] then none
  else
    let displayText :=
      if compiled.slots.getLast? = some .message then
        body.drop (rawIndexForVisibleOffset body (stripped.length - parsed.text.length))
      else parsed.text
    some { source := parsed.source, nick, text := displayText }

/-- `trim` -/
def trim (s : Text) : Text := ((s.dropWhile isSpace).reverse.dropWhile isSpace).reverse

def defaultRelayTemplates : List Text :=
  [text "[\x7bsource\x7d] <\x7bnick\x7d> \x7bmessage\x7d", text "<\x7bnick\x7d> \x7bmessage\x7d"]

/-- The templates that are tried. -/
def relayTemplates (customPattern : Option Text) : List Text :=
  let custom := trim (customPattern.getD [])
  if custom ≠ [] then [custom] else defaultRelayTemplates

def parseRelayMessage (body customPattern : Option Text) : Option RelayParse :=
  if body.getD [] = [] then none
  else (relayTemplates customPattern).findSome? (parseTemplate (body.getD []))

def maxRelayDepth : Nat := 4

/-- The hops after the first. -/
def followRelays (relayPattern : Text → Option Text) : Nat → RelayParse → RelayParse
  | 0, parsed => parsed
  | depth + 1, parsed =>
    match relayPattern parsed.nick with
    | none => parsed
    | some innerPattern =>
      match parseRelayMessage (some parsed.text) (some innerPattern) with
      | none => parsed
      | some next => followRelays relayPattern depth
          { source := next.source.or parsed.source, nick := next.nick, text := next.text }

def parseRelayChain (body pattern : Option Text) (relayPattern : Text → Option Text) :
    Option RelayParse :=
  (parseRelayMessage body pattern).map (followRelays relayPattern (maxRelayDepth - 1))

/-- The template with its placeholders as they are written. -/
theorem compileFrom_spells (skip : Nat) (literal s : Text) :
    (compileFrom skip literal s).substitute ((compileFrom skip literal s).slots.map Slot.spelled) =
      literal ++ s.drop skip := by
  induction s generalizing skip literal with
  | nil => simp [compileFrom, Compiled.substitute, Compiled.slots]
  | cons c rest ih =>
    cases skip with
    | succ skip => exact ih skip literal
    | zero =>
      unfold compileFrom
      cases hp : placeholderAt (c :: rest) with
      | none =>
        refine (ih 0 (literal ++ [c])).trans ?_
        simp
      | some slot =>
        have hspelled := List.find?_some hp
        have hpos : slot.spelled.length = slot.spelled.length - 1 + 1 := by simp [Slot.spelled]
        obtain ⟨after, hafter⟩ := List.isPrefixOf_iff_prefix.mp hspelled
        have hrest := ih (slot.spelled.length - 1) []
        simp only [Compiled.substitute, Compiled.slots, List.map_cons, List.zipWith_cons_cons,
          List.flatten_cons, List.append_assoc, List.nil_append] at hrest ⊢
        rw [hrest, List.drop_zero, ← hafter, ← List.drop_succ_cons, ← hpos, ← hafter,
          List.drop_left]

theorem matchGroups_length {tail s : Text} {groups : List (Text × Slot)} {values : List Text}
    (h : matchGroups tail groups s = some values) : values.length = groups.length := by
  induction groups generalizing s values with
  | nil =>
    rw [matchGroups] at h
    split at h
    · rw [← Option.some.inj h]
      rfl
    · cases h
  | cons group groups ih =>
    rw [matchGroups] at h
    split at h
    · obtain ⟨n, -, hn⟩ := List.exists_of_findSome?_eq_some h
      obtain ⟨rest, hrest, rfl⟩ := Option.map_eq_some_iff.mp hn
      rw [List.length_cons, List.length_cons, ih hrest]
    · cases h

/-- What matches is the template with the values of the match. -/
theorem matchGroups_substitute {tail s : Text} {groups : List (Text × Slot)} {values : List Text}
    (h : matchGroups tail groups s = some values) :
    Compiled.substitute ⟨groups, tail⟩ values = s := by
  induction groups generalizing s values with
  | nil =>
    rw [matchGroups] at h
    split at h
    · next hs =>
      rw [← Option.some.inj h, hs]
      rfl
    · cases h
  | cons group groups ih =>
    rw [matchGroups] at h
    split at h
    · next hliteral =>
      obtain ⟨after, rfl⟩ := hliteral
      obtain ⟨n, -, hn⟩ := List.exists_of_findSome?_eq_some h
      obtain ⟨rest, hrest, rfl⟩ := Option.map_eq_some_iff.mp hn
      have hsub := ih hrest
      rw [List.drop_left] at hsub ⊢
      simp only [Compiled.substitute, List.zipWith_cons_cons, List.flatten_cons,
        List.append_assoc] at hsub ⊢
      rw [hsub, List.take_append_drop]
    · cases h

/-- The value of a placeholder: of its last one, where it is repeated. -/
def valueOf (slot : Slot) (pairs : List (Slot × Text)) : Option Text :=
  ((pairs.filter (·.1 = slot)).map (·.2)).getLast?

theorem valueOf_concat (slot : Slot) (pairs : List (Slot × Text)) (last : Slot × Text) :
    valueOf slot (pairs ++ [last]) = if last.1 = slot then some last.2 else valueOf slot pairs := by
  unfold valueOf
  split
  · next h => simp [h]
  · next h => simp [h]

/-- The loop over the groups leaves each placeholder's value. -/
theorem foldl_assign (pairs : List (Slot × Text)) :
    pairs.foldl RelayParse.assign ⟨none, [], []⟩ =
      ⟨valueOf .source pairs, (valueOf .nick pairs).getD [], (valueOf .message pairs).getD []⟩ := by
  induction pairs using List.reverseRecOn with
  | nil => rfl
  | append_singleton pairs last ih =>
    obtain ⟨slot, value⟩ := last
    rw [List.foldl_concat, ih]
    simp only [valueOf_concat]
    cases slot <;> rfl

theorem valueOf_isSome {slot : Slot} {slots : List Slot} {values : List Text}
    (hlength : values.length = slots.length) (h : slot ∈ slots) :
    ∃ value, valueOf slot (slots.zip values) = some value := by
  induction slots using List.reverseRecOn generalizing values with
  | nil => exact absurd h List.not_mem_nil
  | append_singleton slots last ih =>
    obtain ⟨values, value, rfl⟩ : ∃ init value, values = init ++ [value] := by
      refine ⟨_, _, (List.dropLast_append_getLast ?_).symm⟩
      rintro rfl
      simp at hlength
    have hlength' : values.length = slots.length := by simpa using hlength
    rw [List.zip_append hlength'.symm]
    change ∃ v, valueOf slot (slots.zip values ++ [(last, value)]) = some v
    rw [valueOf_concat]
    by_cases hlast : last = slot
    · exact ⟨value, if_pos hlast⟩
    · obtain ⟨v, hv⟩ := ih hlength' (by simpa [Ne.symm hlast] using h)
      exact ⟨v, (if_neg hlast).trans hv⟩

/-- A template stands for a body, with the source, the nick (after any member prefix) and the
stripped text as the values of its placeholders. -/
def Stands (body template : Text) (parsed : RelayParse) : Prop :=
  ∃ compiled values nick, compileRelayTemplate template = some compiled ∧
    values.length = compiled.slots.length ∧
    compiled.substitute values = stripFormatting body ∧
    parsed.source = valueOf .source (compiled.slots.zip values) ∧
    valueOf .nick (compiled.slots.zip values) = some nick ∧
    parsed.nick = nick.dropWhile isMemberPrefix ∧
    valueOf .message (compiled.slots.zip values) = some (stripFormatting parsed.text)

/-- Where the message is the template's last placeholder, what the body has for it ends, with
the literal behind it, in itself again; it does so when there is no literal. -/
def EndsInMessage (body template : Text) : Prop :=
  ∀ compiled ∈ compileRelayTemplate template, ∀ values ∈ compiled.exec (stripFormatting body),
    compiled.slots.getLast? = some .message →
      ∀ message ∈ values.getLast?, message <:+ message ++ compiled.tail

theorem compileRelayTemplate_eq_some {template : Text} {compiled : Compiled}
    (h : compileRelayTemplate template = some compiled) :
    compiled = compileFrom 0 [] template ∧ .nick ∈ compiled.slots ∧ .message ∈ compiled.slots := by
  unfold compileRelayTemplate at h
  simp only at h
  split at h
  · next hslots =>
    obtain rfl := Option.some.inj h
    exact ⟨rfl, hslots⟩
  · cases h

/-- What a template that parses leaves. -/
theorem parseTemplate_eq_some {body template : Text} {parsed : RelayParse}
    (h : parseTemplate body template = some parsed) :
    ∃ compiled values nick message, compileRelayTemplate template = some compiled ∧
      compiled.exec (stripFormatting body) = some values ∧
      valueOf .nick (compiled.slots.zip values) = some nick ∧
      valueOf .message (compiled.slots.zip values) = some message ∧
      parsed = ⟨valueOf .source (compiled.slots.zip values), nick.dropWhile isMemberPrefix,
        if compiled.slots.getLast? = some .message then
          body.drop (rawIndexForVisibleOffset body ((stripFormatting body).length - message.length))
        else message⟩ := by
  obtain ⟨compiled, hcompiled, h⟩ := Option.bind_eq_some_iff.mp h
  obtain ⟨values, hvalues, h⟩ := Option.bind_eq_some_iff.mp h
  obtain ⟨-, hnick, hmessage⟩ := compileRelayTemplate_eq_some hcompiled
  have hlength : values.length = compiled.slots.length := by
    rw [matchGroups_length hvalues, Compiled.slots, List.length_map]
  obtain ⟨nick, hnick⟩ := valueOf_isSome hlength hnick
  obtain ⟨message, hmessage⟩ := valueOf_isSome hlength hmessage
  refine ⟨compiled, values, nick, message, hcompiled, hvalues, hnick, hmessage, ?_⟩
  rw [foldl_assign, hnick, hmessage] at h
  simp only [Option.getD_some] at h
  split at h
  · cases h
  · exact (Option.some.inj h).symm

/-- A template whose last placeholder has a value ends in that value and the tail. -/
theorem substitute_concat {compiled : Compiled} {values : List Text} {slot : Slot}
    (hlength : values.length = compiled.slots.length)
    (hlast : compiled.slots.getLast? = some slot) :
    ∃ start init last, values = init ++ [last] ∧
      compiled.substitute values = start ++ (last ++ compiled.tail) ∧
      valueOf slot (compiled.slots.zip values) = some last := by
  obtain ⟨groups, tail⟩ := compiled
  unfold Compiled.slots at hlast hlength ⊢
  simp only [List.getLast?_map, List.length_map, Option.map_eq_some_iff] at hlast hlength ⊢
  obtain ⟨⟨literal, slot⟩, hgroup, rfl⟩ := hlast
  obtain ⟨groups, rfl⟩ := List.getLast?_eq_some_iff.mp hgroup
  obtain ⟨init, last, rfl⟩ : ∃ init value, values = init ++ [value] := by
    refine ⟨_, _, (List.dropLast_append_getLast ?_).symm⟩
    rintro rfl
    simp at hlength
  have hinit : groups.length = init.length := by simpa using hlength.symm
  refine ⟨(groups.zipWith (fun group value => group.1 ++ value) init).flatten ++ literal, init, last,
    rfl, ?_, ?_⟩
  · simp [Compiled.substitute, List.zipWith_append hinit]
  · rw [List.map_append, List.zip_append (by simpa using hinit)]
    exact (valueOf_concat slot _ (slot, last)).trans (if_pos rfl)

/-- The values of placeholders are of the text they are in. -/
theorem mem_flatten_of_mem_zip {groups : List (Text × Slot)} {values : List Text}
    {pair : Slot × Text} (h : pair ∈ (groups.map (·.2)).zip values) {c : CodeUnit}
    (hc : c ∈ pair.2) :
    c ∈ (groups.zipWith (fun group value => group.1 ++ value) values).flatten := by
  induction groups generalizing values with
  | nil => simp at h
  | cons group groups ih =>
    cases values with
    | nil => simp at h
    | cons v values =>
      rw [List.zipWith_cons_cons, List.flatten_cons]
      rw [List.map_cons, List.zip_cons_cons] at h
      obtain rfl | h := List.mem_cons.mp h
      · exact List.mem_append_left _ (List.mem_append_right _ hc)
      · exact List.mem_append_right _ (ih h)

/-- A value of a match on stripped text is itself stripped. -/
theorem stripFormatting_value {body : Text} {compiled : Compiled} {values : List Text} {slot : Slot}
    {value : Text} (hsub : compiled.substitute values = stripFormatting body)
    (h : valueOf slot (compiled.slots.zip values) = some value) : stripFormatting value = value := by
  apply stripFormatting_eq_self
  intro c hc
  obtain ⟨pair, hpair, rfl⟩ := List.mem_map.mp (List.mem_of_getLast? h)
  have hstripped : c ∈ stripFormatting body → isControl c = false := not_control_of_mem_stripFrom
  apply hstripped
  rw [← hsub]
  exact List.mem_append_left _ (mem_flatten_of_mem_zip (List.mem_of_mem_filter hpair) hc)

/-- The visible text that is cut from the end of the body. -/
theorem stripFormatting_cut {body start message tail : Text}
    (h : stripFormatting body = start ++ (message ++ tail)) :
    stripFormatting (body.drop (rawIndexForVisibleOffset body
      ((stripFormatting body).length - message.length))) = (message ++ tail).drop tail.length := by
  have hoffset : (stripFormatting body).length - message.length = start.length + tail.length := by
    rw [h, List.length_append, List.length_append]
    omega
  rw [hoffset, stripFormatting_drop, h, ← List.drop_drop, List.drop_left]

/-- As many units as the message has, from the end, are the message where it ends the text. -/
theorem drop_tail_eq_iff (message tail : Text) :
    (message ++ tail).drop tail.length = message ↔ message <:+ message ++ tail := by
  constructor
  · intro h
    have hsuffix := List.drop_suffix tail.length (message ++ tail)
    rwa [h] at hsuffix
  · rintro ⟨start, hstart⟩
    have hlength := congrArg List.length hstart
    rw [List.length_append, List.length_append] at hlength
    have htail : tail.length = start.length := by omega
    rw [htail, ← hstart, List.drop_left]

/-- Only the values of the match are asked about. -/
theorem endsInMessage_iff {body template : Text} {compiled : Compiled} {values : List Text}
    (hcompiled : compileRelayTemplate template = some compiled)
    (hvalues : compiled.exec (stripFormatting body) = some values) :
    EndsInMessage body template ↔ (compiled.slots.getLast? = some .message →
      ∀ message ∈ values.getLast?, message <:+ message ++ compiled.tail) := by
  constructor
  · exact fun h => h compiled hcompiled values hvalues
  · intro h compiled' hcompiled' values' hvalues'
    obtain rfl : compiled = compiled' := Option.some.inj (hcompiled.symm.trans hcompiled')
    obtain rfl : values = values' := Option.some.inj (hvalues.symm.trans hvalues')
    exact h

/-- The template is its compiled form with each placeholder as it is written. -/
theorem substitute_spelled {template : Text} {compiled : Compiled}
    (h : compileRelayTemplate template = some compiled) :
    compiled.substitute (compiled.slots.map Slot.spelled) = template := by
  obtain ⟨rfl, -, -⟩ := compileRelayTemplate_eq_some h
  exact compileFrom_spells 0 [] template

/-- A template with nothing behind its last placeholder. -/
theorem endsInMessage_of_tail {template : Text} {compiled : Compiled}
    (hcompiled : compileRelayTemplate template = some compiled) (htail : compiled.tail = [])
    (body : Text) : EndsInMessage body template := by
  intro compiled' hcompiled' values _ _ message _
  obtain rfl : compiled = compiled' := Option.some.inj (hcompiled.symm.trans hcompiled')
  rw [htail]
  exact ⟨[], (List.append_nil message).symm⟩

/-- The built-in templates are always stripped exactly. -/
theorem endsInMessage_default (body : Text) :
    ∀ template ∈ defaultRelayTemplates, EndsInMessage body template := by
  intro template htemplate
  have hcases : template = text "[{source}] <{nick}> {message}" ∨
      template = text "<{nick}> {message}" := by
    simpa [defaultRelayTemplates] using htemplate
  obtain rfl | rfl := hcases
  · exact @endsInMessage_of_tail _ ⟨[(text "[", .source), (text "] <", .nick),
      (text "> ", .message)], []⟩ (by decide +kernel) rfl body
  · exact @endsInMessage_of_tail _ ⟨[(text "<", .nick), (text "> ", .message)], []⟩
      (by decide +kernel) rfl body

/-- The values of the match stand, so far as the text is that of the message. -/
theorem stands_of_match {body template : Text} {compiled : Compiled} {values : List Text}
    {nick message displayText : Text} (hcompiled : compileRelayTemplate template = some compiled)
    (hlength : values.length = compiled.slots.length)
    (hsub : compiled.substitute values = stripFormatting body)
    (hnick : valueOf .nick (compiled.slots.zip values) = some nick)
    (hmessage : valueOf .message (compiled.slots.zip values) = some message)
    (htext : stripFormatting displayText = message) :
    Stands body template ⟨valueOf .source (compiled.slots.zip values),
      nick.dropWhile isMemberPrefix, displayText⟩ := by
  refine ⟨compiled, values, nick, hcompiled, hlength, hsub, rfl, hnick, rfl, ?_⟩
  rw [hmessage, htext]

theorem stands_iff {body template : Text} {parsed : RelayParse}
    (h : parseTemplate body template = some parsed) :
    Stands body template parsed ↔ EndsInMessage body template := by
  obtain ⟨compiled, values, nick, message, hcompiled, hvalues, hnick, hmessage, rfl⟩ :=
    parseTemplate_eq_some h
  have hsub : compiled.substitute values = stripFormatting body := matchGroups_substitute hvalues
  have hlength : values.length = compiled.slots.length := by
    rw [matchGroups_length hvalues, Compiled.slots, List.length_map]
  rw [endsInMessage_iff hcompiled hvalues]
  by_cases hlast : compiled.slots.getLast? = some .message
  · obtain ⟨start, init, last, rfl, hends, hvalue⟩ := substitute_concat hlength hlast
    obtain rfl : last = message := Option.some.inj (hvalue.symm.trans hmessage)
    have hcut := stripFormatting_cut (hsub.symm.trans hends)
    rw [if_pos hlast]
    constructor
    · rintro ⟨compiled', values', -, hcompiled', hlength', hsub', -, -, -, hmessage'⟩ - m hm
      obtain rfl : compiled = compiled' := Option.some.inj (hcompiled.symm.trans hcompiled')
      obtain ⟨start', init', last', rfl, hends', hvalue'⟩ := substitute_concat hlength' hlast
      obtain rfl : last = m := by simpa using hm
      -- another reading has the same tail, and a message as long at the same place
      have hlast' : last' = (last ++ compiled.tail).drop compiled.tail.length := by
        rw [← hcut]
        exact Option.some.inj (hvalue'.symm.trans hmessage')
      have hsame : start' ++ (last' ++ compiled.tail) = start ++ (last ++ compiled.tail) := by
        rw [← hends', ← hends, hsub, hsub']
      have hlen : last'.length = last.length := by
        rw [hlast', List.length_drop, List.length_append, Nat.add_sub_cancel]
      rw [← List.append_assoc, ← List.append_assoc] at hsame
      have heq := (List.append_inj' (List.append_cancel_right hsame) hlen).2
      exact (drop_tail_eq_iff last compiled.tail).mp (hlast'.symm.trans heq)
    · intro hsuffix
      refine stands_of_match hcompiled hlength hsub hnick hvalue (hcut.trans ?_)
      exact (drop_tail_eq_iff last compiled.tail).mpr (hsuffix hlast last (by simp))
  · -- the text is the match's own, which has no formatting
    rw [if_neg hlast]
    refine ⟨fun _ h => absurd h hlast, fun _ => ?_⟩
    exact stands_of_match hcompiled hlength hsub hnick hmessage (stripFormatting_value hsub hmessage)

/-- One envelope of a chain: the text it is parsed from, the template, and what came of it. -/
structure Hop where
  body : Text
  template : Text
  parsed : RelayParse

/-- A chain of envelopes, each parsed from the text of the one before it by a template of the
nick it revealed. -/
inductive Hops (relayPattern : Text → Option Text) : Hop → List Hop → Prop where
  | last (hop : Hop) : Hops relayPattern hop []
  | next (hop inner : Hop) (hops : List Hop) (pattern : Text)
      (marked : relayPattern hop.parsed.nick = some pattern)
      (body : inner.body = hop.parsed.text)
      (template : inner.template ∈ relayTemplates (some pattern))
      (parses : parseTemplate inner.body inner.template = some inner.parsed)
      (rest : Hops relayPattern inner hops) :
      Hops relayPattern hop (inner :: hops)

/-- What a chain comes to: the innermost speaker and text, and the innermost source present. -/
def outcome (first : RelayParse) (hops : List Hop) : RelayParse :=
  hops.foldl (fun parsed hop => { hop.parsed with source := hop.parsed.source.or parsed.source }) first

theorem parseRelayMessage_eq_some {body customPattern : Option Text} {parsed : RelayParse}
    (h : parseRelayMessage body customPattern = some parsed) :
    ∃ template ∈ relayTemplates customPattern,
      parseTemplate (body.getD []) template = some parsed := by
  unfold parseRelayMessage at h
  split at h
  · cases h
  · exact List.exists_of_findSome?_eq_some h

/-- The loop follows the envelopes one by one. -/
theorem followRelays_hops (relayPattern : Text → Option Text) (depth : Nat) (hop : Hop)
    (parsed : RelayParse) (hnick : parsed.nick = hop.parsed.nick)
    (htext : parsed.text = hop.parsed.text) :
    ∃ hops, Hops relayPattern hop hops ∧ hops.length ≤ depth ∧
      followRelays relayPattern depth parsed = outcome parsed hops := by
  induction depth generalizing hop parsed with
  | zero => exact ⟨[], .last hop, Nat.le_refl _, rfl⟩
  | succ depth ih =>
    unfold followRelays
    split
    · exact ⟨[], .last hop, Nat.zero_le _, rfl⟩
    · next pattern hpattern =>
      split
      · exact ⟨[], .last hop, Nat.zero_le _, rfl⟩
      · next next hnext =>
        obtain ⟨template, htemplate, hparses⟩ := parseRelayMessage_eq_some hnext
        rw [Option.getD_some] at hparses
        obtain ⟨hops, hchain, hlength, hfollow⟩ := ih ⟨parsed.text, template, next⟩
          { source := next.source.or parsed.source, nick := next.nick, text := next.text } rfl rfl
        refine ⟨⟨parsed.text, template, next⟩ :: hops, ?_, Nat.succ_le_succ hlength, hfollow⟩
        exact .next hop _ hops pattern (hnick ▸ hpattern) htext htemplate hparses hchain

theorem Hops.parses {relayPattern : Text → Option Text} {hop : Hop} {hops : List Hop}
    (h : Hops relayPattern hop hops) :
    ∀ inner ∈ hops, parseTemplate inner.body inner.template = some inner.parsed := by
  induction h with
  | last hop => exact fun inner hinner => absurd hinner List.not_mem_nil
  | next hop first hops pattern _ _ _ parses _ ih =>
    intro inner hinner
    obtain rfl | hinner := List.mem_cons.mp hinner
    · exact parses
    · exact ih inner hinner

/-- A message's envelope is stripped exactly when it ends in its message, and so is every
envelope of a chain. -/
theorem relay_stripped (body pattern : Option Text) (relayPattern : Text → Option Text) :
    (∀ parsed, parseRelayMessage body pattern = some parsed →
      ∃ template ∈ relayTemplates pattern, parseTemplate (body.getD []) template = some parsed ∧
        (Stands (body.getD []) template parsed ↔ EndsInMessage (body.getD []) template)) ∧
    ∀ parsed, parseRelayChain body pattern relayPattern = some parsed →
      ∃ first hops, first.body = body.getD [] ∧ first.template ∈ relayTemplates pattern ∧
        parseTemplate first.body first.template = some first.parsed ∧
        Hops relayPattern first hops ∧ parsed = outcome first.parsed hops ∧
        ∀ hop ∈ first :: hops,
          Stands hop.body hop.template hop.parsed ↔ EndsInMessage hop.body hop.template := by
  constructor
  · intro parsed h
    obtain ⟨template, htemplate, hparses⟩ := parseRelayMessage_eq_some h
    exact ⟨template, htemplate, hparses, stands_iff hparses⟩
  · intro parsed h
    obtain ⟨outer, houter, rfl⟩ := Option.map_eq_some_iff.mp h
    obtain ⟨template, htemplate, hparses⟩ := parseRelayMessage_eq_some houter
    obtain ⟨hops, hchain, -, hfollow⟩ := followRelays_hops relayPattern (maxRelayDepth - 1)
      ⟨body.getD [], template, outer⟩ outer rfl rfl
    refine ⟨⟨body.getD [], template, outer⟩, hops, rfl, htemplate, hparses, hchain, hfollow, ?_⟩
    intro hop hhop
    obtain rfl | hhop := List.mem_cons.mp hhop
    · exact stands_iff hparses
    · exact stands_iff (hchain.parses hop hhop)

/-- A built-in template, with the nick's status. -/
theorem relay_stripped_default :
    ∃ template ∈ relayTemplates none, Stands (text "<+a> hi") template ⟨none, text "a", text "hi"⟩ := by
  obtain ⟨template, htemplate, -, hiff⟩ := (relay_stripped (some (text "<+a> hi")) none
    fun _ => none).1 ⟨none, text "a", text "hi"⟩ (by decide +kernel)
  refine ⟨template, htemplate, hiff.mpr (endsInMessage_default _ template ?_)⟩
  rwa [show relayTemplates none = defaultRelayTemplates by decide +kernel] at htemplate

/-- A closing tag behind the message is taken for its end. -/
theorem closing_tag_taken :
    parseRelayMessage (some (text "<a> hi [end]"))
        (some (text "<{nick}> {message} [end]")) = some ⟨none, text "a", text "d]"⟩ ∧
      ¬ Stands (text "<a> hi [end]") (text "<{nick}> {message} [end]")
        ⟨none, text "a", text "d]"⟩ := by
  have hparses : parseTemplate (text "<a> hi [end]")
      (text "<{nick}> {message} [end]") = some ⟨none, text "a", text "d]"⟩ := by
    decide +kernel
  refine ⟨by decide +kernel, fun hstands => ?_⟩
  have hends := (stands_iff hparses).mp hstands
  have hmatch : Compiled.exec ⟨[(text "<", .nick), (text "> ", .message)], text " [end]"⟩
      (stripFormatting (text "<a> hi [end]")) = some [text "a", text "hi"] := by decide +kernel
  have hsuffix := hends ⟨[(text "<", .nick), (text "> ", .message)], text " [end]"⟩
    (by decide +kernel) _ hmatch rfl (text "hi") rfl
  revert hsuffix
  decide +kernel

end Lurker.Chat
