import Lurker.E2e.Keyring
import Lurker.Irc.Line
import Lurker.Lib.OrderedMap
import Mathlib.Data.Char
import Mathlib.Data.List.Lex

/-!
# The guard on raw lines

Whether a raw line would put cleartext on an encrypted channel, and what a server
delivers the line to: each target of its list, with any STATUSMSG prefixes in
front of a channel name stripped, under the network's own set of prefixes and
case folding. The guard strips a fixed set of prefixes.
-/

namespace Lurker.E2e

open Lurker.Irc

attribute [local instance] str_lawfulBEq

/-- The channel prefixes. -/
def channelPrefixChars : List Char := ['#', '&', '+', '!']

def isChannelTarget (target : Text) : Bool :=
  match target with
  | c :: _ => c ∈ channelPrefixChars
  | [] => false

/-- The STATUSMSG prefixes the guard knows. -/
def statusmsgPrefixes : List Char := ['~', '&', '@', '%', '+']

/-- Every channel a target could be read as naming, prefixes peeled one at a time. -/
def channelReadings : Text → List Text
  | [] => []
  | c :: rest =>
    (if isChannelTarget (c :: rest) then [c :: rest] else []) ++
      if c ∈ statusmsgPrefixes then channelReadings rest else []

/-- The verbs refused in the clear on an encrypted channel. -/
def cleartextVerbs : List Text :=
  [['P', 'R', 'I', 'V', 'M', 'S', 'G'], ['N', 'O', 'T', 'I', 'C', 'E'],
    ['T', 'A', 'G', 'M', 'S', 'G']]

structure CleartextLeak where
  command : Text
  channel : Text
  deriving DecidableEq

def listChannelConfigs (k : Keyring) : List ChannelConfig :=
  k.configs.rows.mergeSort fun c d => nocase c.channel ≤ nocase d.channel

/-- The encrypted channels by the folding of their names. -/
def enabledChannelsByFold (fold : Text → Text) (k : Keyring) : OrderedMap Text Text :=
  (listChannelConfigs k).foldl
    (fun out cfg => if cfg.enabled then out.set (fold cfg.channel) cfg.channel else out) .empty

/-- What `raw()` writes of a line. -/
def scrub (line : Text) : Text := line.filter fun c => c ≠ '\r' ∧ c ≠ '\n' ∧ c ≠ '\x00'

def targetsOf (params : List Text) : List Text := ((params.head?).getD []).splitOn ','

/-- The encrypted channel a line would deliver cleartext to. The keyring is none
when it cannot be read. -/
def cleartextE2eLeak (upper fold : Text → Text) (k : Option Keyring) (line : Text) :
    Option CleartextLeak :=
  match parseLine upper (skipSpaces (scrub line)) with
  | none => none
  | some msg =>
    if msg.command ∉ cleartextVerbs then none
    else
      let targets := targetsOf msg.params
      match k with
      | none =>
        let channel := ((targets.flatMap channelReadings).head?).getD ((targets.head?).getD [])
        some ⟨msg.command, channel⟩
      | some k =>
        (targets.flatMap channelReadings).findSome? fun reading =>
          ((enabledChannelsByFold fold k).get? (fold reading)).map fun channel =>
            ⟨msg.command, channel⟩

/-- The command of a line in upper case, with its target list. -/
def delivers (line : Text) : Option (List Text) :=
  match serverReads (scrub line) with
  | none => none
  | some (command, params) =>
    if command.map Char.toUpper ∈ cleartextVerbs then some (targetsOf params) else none

/-- A target reaches a channel: it is the channel's name, with STATUSMSG prefixes before it. -/
def Names (statusmsg : List Char) (target channel : Text) : Prop :=
  ∃ marks, target = marks ++ channel ∧ (∀ c ∈ marks, c ∈ statusmsg) ∧ isChannelTarget channel = true

/-- A line reaches an encrypted channel. -/
def Reaches (fold : Text → Text) (statusmsg : List Char) (k : Keyring) (line : Text) : Prop :=
  ∃ targets, delivers line = some targets ∧ ∃ target ∈ targets, ∃ channel,
    Names statusmsg target channel ∧
    ∃ cfg ∈ k.configs.rows, cfg.enabled = true ∧ fold channel = fold cfg.channel

/-- The guard refuses a line that reaches an encrypted channel, and every message
when the keyring cannot be read. -/
structure Guarded (upper fold : Text → Text) (statusmsg : List Char) (k : Keyring) (line : Text) :
    Prop where
  leak : Reaches fold statusmsg k line → (cleartextE2eLeak upper fold (some k) line).isSome = true
  unreadable : (delivers line).isSome = true → (cleartextE2eLeak upper fold none line).isSome = true

/-- `toUpperCase` folds the ASCII letters, and these alone in an ASCII text. -/
def UppersAscii (upper : Text → Text) : Prop :=
  ∀ s : Text, (∀ c ∈ s, c.toNat < 128) → upper s = s.map Char.toUpper

variable {upper fold : Text → Text} {statusmsg : List Char} {k : Keyring} {line : Text}

theorem mem_channelReadings {target channel : Text} :
    channel ∈ channelReadings target ↔ Names statusmsgPrefixes target channel := by
  induction target with
  | nil =>
    refine iff_of_false List.not_mem_nil ?_
    rintro ⟨marks, h, -, hchannel⟩
    obtain ⟨-, rfl⟩ := List.append_eq_nil_iff.mp h.symm
    cases hchannel
  | cons c rest ih =>
    rw [channelReadings, List.mem_append]
    constructor
    · rintro (h | h)
      · split at h
        · obtain rfl := List.mem_singleton.mp h
          exact ⟨[], rfl, fun _ h => absurd h List.not_mem_nil, ‹_›⟩
        · cases h
      · split at h
        · obtain ⟨marks, rfl, hmarks, hchannel⟩ := ih.mp h
          exact ⟨c :: marks, rfl, List.forall_mem_cons.mpr ⟨‹_›, hmarks⟩, hchannel⟩
        · cases h
    · rintro ⟨marks, h, hmarks, hchannel⟩
      cases marks with
      | nil =>
        rw [List.nil_append] at h
        subst h
        exact .inl (by rw [if_pos hchannel]; exact List.mem_singleton_self _)
      | cons d marks =>
        obtain ⟨rfl, rfl⟩ := List.cons.inj h
        obtain ⟨hc, hmarks⟩ := List.forall_mem_cons.mp hmarks
        exact .inr (by rw [if_pos hc]; exact ih.mpr ⟨marks, rfl, hmarks, hchannel⟩)

/-- A folded name is a key exactly when an encrypted channel folds to it. -/
theorem get?_enabledChannelsByFold {name : Text} :
    ((enabledChannelsByFold fold k).get? name).isSome = true ↔
      ∃ cfg ∈ k.configs.rows, cfg.enabled = true ∧ name = fold cfg.channel := by
  have hfold (cfgs : List ChannelConfig) (out : OrderedMap Text Text) :
      ((cfgs.foldl (fun out cfg =>
        if cfg.enabled then out.set (fold cfg.channel) cfg.channel else out) out).get?
          name).isSome = true ↔
        (out.get? name).isSome = true ∨
          ∃ cfg ∈ cfgs, cfg.enabled = true ∧ name = fold cfg.channel := by
    induction cfgs generalizing out with
    | nil => simp
    | cons cfg cfgs ih =>
      rw [List.foldl_cons, ih]
      split
      · rename_i hen
        rw [OrderedMap.get?_set]
        split
        · rename_i hname
          simp [hen, hname]
        · rename_i hname
          simp [hen, hname]
      · rename_i hen
        simp [hen]
  unfold enabledChannelsByFold listChannelConfigs
  rw [hfold]
  simp

/-- The letters of a verb, in any case. -/
theorem mem_verb {command : Text} (hverb : command.map Char.toUpper ∈ cleartextVerbs) {c : Char}
    (hc : c ∈ command) : c.toNat < 128 ∧ c ≠ ':' := by
  have hletters : ∀ verb ∈ cleartextVerbs, verb.all (fun d => d.toNat < 128 ∧ d ≠ ':') = true := by
    decide
  obtain ⟨hascii, hcolon⟩ : (c.toUpper).toNat < 128 ∧ c.toUpper ≠ ':' :=
    of_decide_eq_true (List.all_eq_true.mp (hletters _ hverb) _ (List.mem_map_of_mem hc))
  refine ⟨?_, ?_⟩
  · rcases Irc.toUpper_eq c with h | h
    · exact h ▸ hascii
    · exact h
  · rintro rfl
    exact hcolon (by decide)

/-- A verb in any case is the verb to the guard. -/
theorem command_of_delivers (hupper : UppersAscii upper) {targets : List Text}
    (h : delivers line = some targets) :
    ∃ msg, parseLine upper (skipSpaces (scrub line)) = some msg ∧ msg.command ∈ cleartextVerbs ∧
      targets = targetsOf msg.params := by
  unfold delivers at h
  split at h
  · cases h
  rename_i command params hreads
  split at h
  · rename_i hverb
    cases h
    have hascii : upper command = command.map Char.toUpper :=
      hupper command fun c hc => (mem_verb hverb hc).1
    have hcolon : command.head? ≠ some ':' := fun hhead =>
      (mem_verb hverb (List.mem_of_mem_head? hhead)).2 rfl
    have hne : upper command ≠ [] := by
      have hempty : [] ∉ cleartextVerbs := by decide
      rw [hascii]
      exact fun h => hempty (h ▸ hverb)
    obtain ⟨msg, hmsg, hcommand, hparams⟩ := parseLine_of_serverReads hreads hcolon hne
    exact ⟨msg, hmsg, by rw [hcommand, hascii]; exact hverb, by rw [hparams]⟩
  · cases h

/-- On a message, the guard refuses exactly what its own prefixes reach. -/
theorem cleartextE2eLeak_iff (hupper : UppersAscii upper) {targets : List Text}
    (h : delivers line = some targets) :
    (cleartextE2eLeak upper fold (some k) line).isSome = true ↔
      Reaches fold statusmsgPrefixes k line := by
  obtain ⟨msg, hmsg, hverb, rfl⟩ := command_of_delivers hupper h
  have hleak : cleartextE2eLeak upper fold (some k) line =
      ((targetsOf msg.params).flatMap channelReadings).findSome? fun reading =>
        ((enabledChannelsByFold fold k).get? (fold reading)).map fun channel =>
          ⟨msg.command, channel⟩ := by
    unfold cleartextE2eLeak
    rw [hmsg]
    exact if_neg (not_not.mpr hverb)
  rw [hleak, List.findSome?_isSome_iff]
  constructor
  · rintro ⟨reading, hreading, hsome⟩
    obtain ⟨target, htarget, hreading⟩ := List.mem_flatMap.mp hreading
    rw [Option.isSome_map] at hsome
    obtain ⟨cfg, hcfg, hen, hfold⟩ := get?_enabledChannelsByFold.mp hsome
    exact ⟨_, h, target, htarget, reading, mem_channelReadings.mp hreading, cfg, hcfg, hen, hfold⟩
  · rintro ⟨targets, htargets, target, htarget, channel, hnames, cfg, hcfg, hen, hfold⟩
    obtain rfl := Option.some.inj (h.symm.trans htargets)
    refine ⟨channel, List.mem_flatMap.mpr ⟨target, htarget, mem_channelReadings.mpr hnames⟩, ?_⟩
    rw [Option.isSome_map]
    exact get?_enabledChannelsByFold.mpr ⟨cfg, hcfg, hen, hfold⟩

theorem cleartextE2eLeak_unreadable (hupper : UppersAscii upper)
    (h : (delivers line).isSome = true) : (cleartextE2eLeak upper fold none line).isSome = true := by
  obtain ⟨targets, htargets⟩ := Option.isSome_iff_exists.mp h
  obtain ⟨msg, hmsg, hverb, -⟩ := command_of_delivers hupper htargets
  unfold cleartextE2eLeak
  rw [hmsg]
  dsimp only
  rw [if_neg (not_not.mpr hverb)]
  rfl

/-- The guard reads a line as the server will, unless the line reaches encrypted
channels only through prefixes it does not know. -/
theorem guard_reads_as_server (hupper : UppersAscii upper) :
    Guarded upper fold statusmsg k line ↔
      (Reaches fold statusmsg k line → Reaches fold statusmsgPrefixes k line) := by
  constructor
  · intro h hreaches
    obtain ⟨targets, htargets, -⟩ := id hreaches
    exact (cleartextE2eLeak_iff hupper htargets).mp (h.leak hreaches)
  · intro h
    refine ⟨fun hreaches => ?_, cleartextE2eLeak_unreadable hupper⟩
    obtain ⟨targets, htargets, -⟩ := id hreaches
    exact (cleartextE2eLeak_iff hupper htargets).mpr (h hreaches)

namespace Sample

def secret : Text := ['#', 's']

def keyed : Keyring := Keyring.fresh.setChannelConfig ⟨secret, true, .normal⟩

/-- `PRIVMSG !#s :hi` -/
def marked : Text := "PRIVMSG !#s :hi".toList

end Sample

/-- A network whose prefixes the guard knows. -/
theorem guard_reads_as_server_known :
    Guarded (List.map Char.toUpper) (List.map Char.toLower) ['@', '+'] Sample.keyed
        "privmsg @#S :hi".toList ↔
      (Reaches (List.map Char.toLower) ['@', '+'] Sample.keyed "privmsg @#S :hi".toList →
        Reaches (List.map Char.toLower) statusmsgPrefixes Sample.keyed
          "privmsg @#S :hi".toList) :=
  guard_reads_as_server fun _ _ => rfl

/-- On a network that takes `!` as a prefix, a line to the members it marks passes. -/
theorem unknown_prefix_leaks :
    ¬ Guarded (List.map Char.toUpper) (List.map Char.toLower) ['!', '@', '+'] Sample.keyed
      Sample.marked := by
  intro h
  have hreaches : Reaches (List.map Char.toLower) ['!', '@', '+'] Sample.keyed Sample.marked :=
    ⟨[['!', '#', 's']], by decide, ['!', '#', 's'], List.mem_singleton_self _, Sample.secret,
      ⟨['!'], rfl, by simp, rfl⟩, ⟨Sample.secret, true, .normal⟩, by decide, rfl, rfl⟩
  have htargets : delivers Sample.marked = some [['!', '#', 's']] := by decide
  have hupper : UppersAscii (List.map Char.toUpper) := fun _ _ => rfl
  obtain ⟨targets, h', target, htarget, channel, hnames, cfg, hcfg, -, hfold⟩ :=
    (cleartextE2eLeak_iff hupper htargets).mp (h.leak hreaches)
  obtain rfl := Option.some.inj (htargets.symm.trans h')
  -- `!` reads as a channel sigil, so the only reading is the marked name itself
  have hreading : ∀ t ∈ [['!', '#', 's']], ∀ c ∈ channelReadings t,
      ∀ row ∈ Sample.keyed.configs.rows,
        c.map Char.toLower ≠ row.channel.map Char.toLower := by decide
  exact hreading target htarget channel (mem_channelReadings.mpr hnames) cfg hcfg hfold

end Lurker.E2e
