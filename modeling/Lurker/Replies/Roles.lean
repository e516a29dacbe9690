import Lurker.Replies.Router

/-!
# What a query is to the lines

A query keeps its form, its names and its asker as it is read. The commands that answer each
form are few, and only a WHOIS and a batch hear others.
-/

namespace Lurker.Replies

open Irc (Str)
open Irc.History (QueryEnd)

attribute [local instance] Irc.str_lawfulBEq

/-- The same query, whatever it has read. -/
structure Reads (q q' : Query) : Prop where
  form : q'.form = q.form
  command : q'.command = q.command
  targets : q'.targets = q.targets
  ends : q'.ends = q.ends
  channel : q'.channel = q.channel
  letter : q'.letter = q.letter
  abort : q'.abort = q.abort
  sub : q'.sub = q.sub
  id : q'.id = q.id
  asker : q'.asker = q.asker
  line : q'.line = q.line
  sent : q'.sent = q.sent

section Roles

variable {env : Env} {l : Line} {q q' : Query} {role : Role}

theorem Reads.refl (q : Query) : Reads q q :=
  ⟨rfl, rfl, rfl, rfl, rfl, rfl, rfl, rfl, rfl, rfl, rfl, rfl⟩

theorem Reads.trans {q x q' : Query} (h : Reads q x) (h' : Reads x q') : Reads q q' :=
  ⟨h'.form.trans h.form, h'.command.trans h.command, h'.targets.trans h.targets,
    h'.ends.trans h.ends, h'.channel.trans h.channel, h'.letter.trans h.letter,
    h'.abort.trans h.abort, h'.sub.trans h.sub, h'.id.trans h.id, h'.asker.trans h.asker,
    h'.line.trans h.line, h'.sent.trans h.sent⟩

theorem Reads.reading (q : Query) (batchRef : Str) (inner : List Str) :
    Reads q { q with batchRef := batchRef, inner := inner } :=
  ⟨rfl, rfl, rfl, rfl, rfl, rfl, rfl, rfl, rfl, rfl, rfl, rfl⟩

theorem reads_hears {r : Role} (h : hears q r = some (role, q')) : Reads q q' := by
  obtain ⟨rfl, rfl⟩ := Prod.mk.inj (Option.some.inj h)
  exact ⟨rfl, rfl, rfl, rfl, rfl, rfl, rfl, rfl, rfl, rfl, rfl, rfl⟩

theorem bodyIf_eq_some {cond : Bool} :
    bodyIf q cond = some (role, q') ↔ cond = true ∧ hears q .body = some (role, q') := by
  unfold bodyIf
  split <;> simp_all only [true_and, Bool.not_eq_true, Bool.false_eq_true, false_and, reduceCtorEq]

theorem endIf_eq_some {cond : Bool} :
    endIf q cond = some (role, q') ↔ cond = true ∧ hears q .ends = some (role, q') := by
  unfold endIf
  split <;> simp_all only [true_and, Bool.not_eq_true, Bool.false_eq_true, false_and, reduceCtorEq]

theorem bodyIf_cond {cond : Bool} (h : bodyIf q cond = some (role, q')) :
    role = .body ∧ cond = true := by
  obtain ⟨hcond, h⟩ := bodyIf_eq_some.mp h
  exact ⟨(Prod.mk.inj (Option.some.inj h)).1.symm, hcond⟩

theorem endIf_cond {cond : Bool} (h : endIf q cond = some (role, q')) :
    role = .ends ∧ cond = true := by
  obtain ⟨hcond, h⟩ := endIf_eq_some.mp h
  exact ⟨(Prod.mk.inj (Option.some.inj h)).1.symm, hcond⟩

theorem reads_bodyIf {cond : Bool} (h : bodyIf q cond = some (role, q')) : Reads q q' :=
  reads_hears (bodyIf_eq_some.mp h).2

theorem reads_endIf {cond : Bool} (h : endIf q cond = some (role, q')) : Reads q q' :=
  reads_hears (endIf_eq_some.mp h).2

theorem reads_metadataRole (h : metadataRole env l q = some (role, q')) : Reads q q' := by
  unfold metadataRole at h
  split at h
  · split at h
    · split at h
      · cases h
      · dsimp only at h
        split at h
        · exact (Reads.reading q _ _).trans (reads_hears h)
        · cases h
    · exact reads_endIf h
  · split at h
    · exact reads_bodyIf h
    · repeat' split at h
      all_goals first | exact reads_endIf h | cases h

theorem reads_chathistoryRole (h : chathistoryRole env l q = some (role, q')) :
    Reads q q' := by
  unfold chathistoryRole at h
  split at h
  · split at h
    · split at h
      · dsimp only at h
        generalize (if q.sub = "TARGETS".toList then _ else _ : Bool) = mine at h
        split at h
        · exact (Reads.reading q _ _).trans (reads_hears h)
        · cases h
      · split at h
        · exact (Reads.reading q _ _).trans (reads_hears h)
        · cases h
    · split at h
      · cases h
      · split at h
        · exact reads_hears h
        · split at h
          · exact (Reads.reading q _ _).trans (reads_hears h)
          · cases h
  · exact reads_bodyIf h

theorem reads_roleOf (h : roleOf env l q = some (role, q')) : Reads q q' := by
  unfold roleOf at h
  split at h
  case h_14 => exact reads_metadataRole h
  case h_15 => exact reads_chathistoryRole h
  all_goals repeat' split at h
  all_goals
    first
    | exact reads_endIf h
    | exact reads_bodyIf h
    | exact reads_hears h
    | cases h

end Roles

/-- The commands that answer a query of a form. A WHOIS hears more, and so does a batch. -/
def commandsOf : Form → List Str
  | .who => ["352", "354", "416", "315"].map String.toList
  | .whois => ["318"].map String.toList
  | .whowas => "369".toList :: WHOWAS_REPLIES
  | .list => ["321", "322", "323"].map String.toList
  | .names => ["353", "366"].map String.toList
  | .mode => ["324"].map String.toList
  | .modelist => ["367", "368", "348", "349", "346", "347", "728", "729"].map String.toList
  | .umode => ["221"].map String.toList
  | .topic => ["331", "332"].map String.toList
  | .ison => ["303"].map String.toList
  | .userhost => ["302"].map String.toList
  | .away => ["305", "306"].map String.toList
  | .accept => ["281", "282"].map String.toList
  | .metadata => ["BATCH", "761", "766", "772", "METADATA", "770", "771", "774"].map String.toList
  | .chathistory => ["BATCH"].map String.toList

section Lines

variable {env : Env} {l : Line} {q q' : Query} {role : Role}

theorem mem_commands_of_is {a : String} {cs : List String} (h : is l a = true) (ha : a ∈ cs) :
    l.command ∈ cs.map String.toList := by
  rw [show l.command = a.toList from of_decide_eq_true h]
  exact List.mem_map_of_mem ha

theorem listMode_commands {c : Char} {item ending : Str}
    (h : LIST_MODE_NUMERICS c = some (item, ending)) :
    item ∈ commandsOf .modelist ∧ ending ∈ commandsOf .modelist := by
  unfold LIST_MODE_NUMERICS at h
  split at h
  case h_5 => cases h
  all_goals
    obtain ⟨rfl, rfl⟩ := Prod.mk.inj (Option.some.inj h)
    decide

theorem listMode_ending {c : Char} {item ending : Str}
    (h : LIST_MODE_NUMERICS c = some (item, ending)) :
    ending ∈ ["368", "349", "347", "729"].map String.toList := by
  unfold LIST_MODE_NUMERICS at h
  split at h
  case h_5 => cases h
  all_goals
    obtain ⟨rfl, rfl⟩ := Prod.mk.inj (Option.some.inj h)
    decide

theorem metadata_commands (h : metadataRole env l q = some (role, q')) :
    l.command ∈ commandsOf .metadata := by
  unfold metadataRole at h
  split at h
  · rename_i hbatch
    exact mem_commands_of_is hbatch (by decide)
  · split at h
    · have hcond := (bodyIf_cond h).2
      simp only [Bool.and_eq_true, Bool.or_eq_true] at hcond
      rcases hcond.2 with ((hc | hc) | hc) | hc <;> exact mem_commands_of_is hc (by decide)
    · split at h
      · rename_i hc
        simp only [Bool.and_eq_true, Bool.or_eq_true] at hc
        rcases hc.1 with hc | hc <;> exact mem_commands_of_is hc (by decide)
      · repeat' split at h
        all_goals first | cases h | exact mem_commands_of_is ‹_› (by decide)

/-- A line is to a query what one of its form's commands is, a WHOIS's line, or a line of its
batch. -/
theorem roleOf_command (h : roleOf env l q = some (role, q')) :
    l.command ∈ commandsOf q.form ∨ q.form = .whois ∧ isWhoisReply l.command = true ∨
      q.form = .chathistory ∧ role = .body ∧ q.batchRef ≠ [] ∧ insideBatch l q = true := by
  unfold roleOf at h
  split at h
  all_goals rename_i hform; rw [hform]
  case h_14 => exact .inl (metadata_commands h)
  case h_15 =>
    unfold chathistoryRole at h
    split at h
    · rename_i hc
      exact .inl (mem_commands_of_is hc (by decide))
    · obtain ⟨hrole, hcond⟩ := bodyIf_cond h
      simp only [Bool.and_eq_true, decide_eq_true_eq] at hcond
      exact .inr (.inr ⟨rfl, hrole, hcond⟩)
  case h_2 =>
    split at h
    · rename_i hc
      exact .inl (mem_commands_of_is hc (by decide))
    · split at h
      · cases h
      · rename_i hc
        simp only [Bool.or_eq_true, Bool.not_eq_true', not_or, Bool.not_eq_false] at hc
        exact .inr (.inl ⟨rfl, hc.1⟩)
  case h_7 =>
    left
    split at h
    · cases h
    · rename_i item ending hletter
      obtain ⟨c, -, hc⟩ := Option.bind_eq_some_iff.mp hletter
      obtain ⟨hitem, hending⟩ := listMode_commands hc
      split at h
      · cases h
      · split at h
        · rename_i heq
          rwa [heq]
        · rwa [of_decide_eq_true (endIf_cond h).2]
  case h_3 =>
    left
    split at h
    · rename_i hc
      rw [show l.command = "369".toList from of_decide_eq_true hc]
      exact List.mem_cons_self
    · have hcond := (bodyIf_cond h).2
      simp only [Bool.and_eq_true, List.contains_iff_mem] at hcond
      exact List.mem_cons_of_mem _ hcond.1
  all_goals left
  case h_9 =>
    have hcond := (endIf_cond h).2
    simp only [Bool.and_eq_true, Bool.or_eq_true] at hcond
    rcases hcond.1 with hc | hc <;> exact mem_commands_of_is hc (by decide)
  case h_12 =>
    rcases Bool.or_eq_true_iff.mp (endIf_cond h).2 with hc | hc <;>
      exact mem_commands_of_is hc (by decide)
  all_goals repeat' split at h
  case h_1.isTrue hc =>
    simp only [Bool.or_eq_true] at hc
    rcases hc with (hc | hc) | hc <;> exact mem_commands_of_is hc (by decide)
  case h_4.isTrue hc =>
    rcases Bool.or_eq_true_iff.mp hc with hc | hc <;> exact mem_commands_of_is hc (by decide)
  all_goals
    first
    | exact mem_commands_of_is (endIf_cond h).2 (by decide)
    | exact mem_commands_of_is (Bool.and_eq_true_iff.mp (endIf_cond h).2).1 (by decide)
    | exact mem_commands_of_is ‹is l _ = true› (by decide)

/-- Only a METADATA query ends put off. -/
theorem ends_774 (h : roleOf env l q = some (.ends, q')) (hlate : is l "774" = true) :
    q.form = .metadata := by
  have hcommand : l.command = "774".toList := of_decide_eq_true hlate
  rcases roleOf_command h with hof | ⟨-, hof⟩ | ⟨-, hrole, -⟩
  · rw [hcommand] at hof
    revert hof
    cases q.form <;> decide
  · rw [hcommand] at hof
    exact absurd hof (by decide)
  · cases hrole

end Lines

/-- A client's end numeric is of a form that nothing follows, and that no cache answers. -/
def Fits (s : Spec) : Prop :=
  s.abort ≠ none → s.form ≠ .mode ∧ s.form ≠ .topic ∧ s.form ≠ .metadata

/-- Either branch may have given what came out. -/
theorem of_ite {p : Prop} [Decidable p] {a b : Option Spec} {s : Spec}
    (h : (if p then a else b) = some s) : a = some s ∨ b = some s := by
  by_cases hp : p
  · rw [if_pos hp] at h
    exact .inl h
  · rw [if_neg hp] at h
    exact .inr h

/-- A query just made has read no batch. -/
structure New (s : Spec) : Prop where
  fits : Fits s
  batchRef : s.batchRef = []

theorem New.quiet {s s' : Spec} (h : some s = some s') (habort : s.abort = none)
    (href : s.batchRef = []) : New s' := by
  rw [← Option.some.inj h]
  exact ⟨fun hsome => absurd habort hsome, href⟩

theorem New.told {s s' : Spec} (form : Form)
    (hquiet : form ≠ .mode ∧ form ≠ .topic ∧ form ≠ .metadata) (h : some s = some s')
    (hform : s.form = form) (href : s.batchRef = []) : New s' := by
  rw [← Option.some.inj h]
  exact ⟨fun _ => hform ▸ hquiet, href⟩

theorem classifyMode_new {env : Env} {command : Str} {params : List Str} {s : Spec}
    (h : classifyMode env command params = some s) : New s := by
  unfold classifyMode at h
  dsimp only at h
  split at h
  · split at h
    · exact .quiet h rfl rfl
    · obtain ⟨letter, -, h⟩ := Option.bind_eq_some_iff.mp h
      obtain ⟨numerics, -, h⟩ := Option.bind_eq_some_iff.mp h
      split at h
      · cases h
      · exact .told .modelist (by decide) h rfl rfl
    · cases h
  · split at h
    · exact .quiet h rfl rfl
    · split at h
      · exact .quiet h rfl rfl
      · cases h
    · cases h

theorem classify_new {env : Env} {line : Str} {s : Spec} (h : classify env line = some s) :
    New s := by
  obtain ⟨⟨command, params⟩, -, h⟩ := Option.bind_eq_some_iff.mp h
  unfold classifyCommand at h
  rcases of_ite h with h | h
  · exact .told .who (by decide) h rfl rfl
  rcases of_ite h with h | h
  · exact .told .whois (by decide) h rfl rfl
  rcases of_ite h with h | h
  · exact .told .whowas (by decide) h rfl rfl
  rcases of_ite h with h | h
  · exact .told .list (by decide) h rfl rfl
  rcases of_ite h with h | h
  · exact .told .names (by decide) h rfl rfl
  rcases of_ite h with h | h
  · exact classifyMode_new h
  rcases of_ite h with h | h
  · split at h
    · exact .quiet h rfl rfl
    · rcases of_ite h with h | h
      · exact .quiet h rfl rfl
      · cases h
    · cases h
  rcases of_ite h with h | h
  · exact .quiet h rfl rfl
  rcases of_ite h with h | h
  · exact .quiet h rfl rfl
  rcases of_ite h with h | h
  · exact .quiet h rfl rfl
  rcases of_ite h with h | h
  · rcases of_ite h with h | h
    · exact .told .accept (by decide) h rfl rfl
    · cases h
  rcases of_ite h with h | h
  · rcases of_ite h with h | h
    · cases h
    · exact .quiet h rfl rfl
  rcases of_ite h with h | h
  · rcases of_ite h with h | h
    · cases h
    · exact .quiet h rfl rfl
  · cases h

end Lurker.Replies
