import Lurker.Bouncer.Windows

/-!
# A chat history client pages through a buffer

The client asks for the latest rows and then for those before the oldest time it was sent,
or from the beginning of time for those after the newest, until an answer is short. Bounds
are exclusive and a time does not tell the rows of one instant apart, so what it misses is
what a full answer left out of the instant it stopped at.
-/

namespace Lurker.Bouncer

open Lurker.Irc (Str)
open Lurker.Outbound (Breaks Spaced Blank isSpace chunk splitLines unixEndings)
open Pages (IsFirst Serves past readPages)
open OrderDual (toDual)

-- `toLowerCase` of the platform, and its line breaker
variable (toLower : Str → Str) (lineBreak : List Char → Nat → List (List Char))

def sentTimes (answer : Answer) : List Nat := answer.lines.filterMap (·.tags.time)

def oldestSent (answer : Answer) : Option Nat := (sentTimes answer).min?

def newestSent (answer : Answer) : Option Nat := (sentTimes answer).max?

/-- LATEST, or BEFORE a time. -/
def askBack : Option Nat → Ask
  | none => .latest none
  | some time => .before time

/-- LATEST, and then BEFORE the oldest time sent, until an answer is short of the limit. -/
def pageBack (c : Session) (s : Store) (target : Str) (n fuel : Nat) : Option (List Answer) :=
  readPages
    (fun bound => handleChatHistory toLower lineBreak c s target (askBack bound) n)
    (·.rows.length) oldestSent n fuel none

/-- AFTER a time, and then AFTER the newest time sent, until an answer is short of the limit. -/
def pageForward (c : Session) (s : Store) (target : Str) (beginning n fuel : Nat) :
    Option (List Answer) :=
  readPages
    (fun bound => handleChatHistory toLower lineBreak c s target (.after (bound.getD beginning)) n)
    (·.rows.length) newestSent n fuel none

/-- The answer holds a row, and the client gets its lines. -/
def Answer.Sends (c : Session) (target : Str) (answer : Answer) (row : HistoryRow) : Prop :=
  row ∈ answer.rows ∧ rowLines toLower lineBreak c target (isChannelName target) row ≠ [] ∧
    ∀ line ∈ rowLines toLower lineBreak c target (isChannelName target) row, line ∈ answer.lines

/-- A full answer stopped at the instant of a row without it. -/
def CutOff (n : Nat) (furthest : Answer → Option Nat) (answers : List Answer) (row : HistoryRow) :
    Prop :=
  ∃ answer ∈ answers, answer.rows.length = n ∧ furthest answer = some row.time ∧ row ∉ answer.rows

/-- What a client that pages through some rows is sent. -/
structure Paged (c : Session) (target : Str) (n : Nat) (all : List HistoryRow)
    (furthest : Answer → Option Nat) (answers : List Answer) : Prop where
  oldest_first : ∀ answer ∈ answers, answer.rows.Pairwise (HistoryRow.key · < HistoryRow.key ·)
  admitted : ∀ answer ∈ answers, ∀ row ∈ answer.rows, row ∈ all
  sent : ∀ row ∈ all,
    (∃ answer ∈ answers, answer.Sends toLower lineBreak c target row) ↔
      ¬ CutOff n furthest answers row

/-- A row has what its line needs: an event its nick and what it is about, a message some
text other than white space. -/
def hasItsParts : HistoryRow → Bool
  | .reaction _ => true
  | .line m =>
    if m.type ∈ historyEventTypes then
      m.nick.any (· ≠ []) && (m.type ≠ .nick || m.newNick.any (· ≠ [])) &&
        (m.type ≠ .kick || m.kicked.any (· ≠ [])) && (m.type ≠ .mode || m.text.any (· ≠ []))
    else m.type = .action || m.text.any fun text => text.any fun ch => !isSpace ch

theorem mem_splitOn {text : List Char} {sep ch : Char} (h : ch ∈ text) (hne : ch ≠ sep) :
    ∃ line ∈ text.splitOn sep, ch ∈ line := by
  induction text with
  | nil => cases h
  | cons c text ih =>
    rw [List.splitOn_cons_eq_if_modifyHead]
    split
    · rename_i hc
      obtain ⟨line, hline, hmem⟩ := ih ((List.mem_cons.mp h).resolve_left fun heq =>
        hne (heq.trans (eq_of_beq hc)))
      exact ⟨line, List.mem_cons_of_mem _ hline, hmem⟩
    · cases hsplit : text.splitOn sep with
      | nil => exact absurd hsplit (List.splitOn_ne_nil _ _)
      | cons first rest =>
        rw [List.modifyHead_cons]
        rcases List.mem_cons.mp h with rfl | h
        · exact ⟨_, List.mem_cons_self .., List.mem_cons_self ..⟩
        · obtain ⟨line, hline, hmem⟩ := ih h
          rw [hsplit] at hline
          rcases List.mem_cons.mp hline with rfl | hline
          · exact ⟨_, List.mem_cons_self .., List.mem_cons_of_mem _ hmem⟩
          · exact ⟨line, List.mem_cons_of_mem _ hline, hmem⟩

theorem mem_unixEndings {text : List Char} {ch : Char} (h : ch ∈ text) (hn : ch ≠ '\n')
    (hr : ch ≠ '\r') : ch ∈ unixEndings text := by
  fun_induction unixEndings text with
  | case1 => cases h
  | case2 rest ih => exact List.mem_cons_of_mem _ (ih (by simpa [hn, hr] using h))
  | case3 rest _ ih => exact List.mem_cons_of_mem _ (ih (by simpa [hr] using h))
  | case4 c rest _ _ ih =>
    rcases List.mem_cons.mp h with rfl | h
    exacts [List.mem_cons_self .., List.mem_cons_of_mem _ (ih h)]

/-- A line with something to see in it goes out as a piece at least. -/
theorem chunk_ne_nil (hbreaks : Breaks lineBreak) {line : List Char} {bytes : Nat}
    (hbytes : 64 ≤ bytes) (hline : ¬ Blank line) : chunk lineBreak line bytes ≠ [] := by
  have hpieces : lineBreak line bytes ≠ [] := by
    intro hnil
    have hspaced := hbreaks.spaced line bytes hbytes hline
    rw [hnil] at hspaced
    cases hspaced with
    | nil _ hblank => exact hline hblank
  simp [chunk, hpieces]

theorem splitSay_ne_nil (hbreaks : Breaks lineBreak) {text : List Char} {bytes : Nat}
    (hbytes : 64 ≤ bytes) {ch : Char} (hmem : ch ∈ text) (hch : isSpace ch = false) :
    splitSay lineBreak text bytes ≠ [] := by
  have hn : ch ≠ '\n' := fun heq => by rw [heq] at hch; exact absurd hch (by decide)
  have hr : ch ≠ '\r' := fun heq => by rw [heq] at hch; exact absurd hch (by decide)
  obtain ⟨line, hline, hin⟩ := mem_splitOn (mem_unixEndings hmem hn hr) hn
  rw [← Lurker.Outbound.splitLines_eq] at hline
  have hblank : ¬ Blank line := fun hblank => by
    rw [Blank, List.all_eq_true] at hblank
    rw [hblank ch hin] at hch
    cases hch
  have hne : line ≠ [] := List.ne_nil_of_mem hin
  intro hnil
  refine chunk_ne_nil lineBreak hbreaks hbytes hblank ?_
  exact List.flatMap_eq_nil_iff.mp hnil line (List.mem_filter.mpr ⟨hline, by simpa using hne⟩)

theorem messageLines_ne_nil (hbreaks : Breaks lineBreak) (c : Session) (head : Str)
    {bodies : List Str} (tags : ReplayTags) {body : Str} (hbody : body ∈ bodies) {ch : Char}
    (hmem : ch ∈ body) (hch : isSpace ch = false) :
    messageLines lineBreak c head bodies tags ≠ [] := by
  intro hnil
  have hpieces : messagePieces lineBreak head bodies = [] := List.mapIdx_eq_nil_iff.mp hnil
  have hne : body ≠ [] := List.ne_nil_of_mem hmem
  have hnone := List.flatMap_eq_nil_iff.mp hpieces body
    (List.mem_filter.mpr ⟨hbody, by simpa using hne⟩)
  exact splitSay_ne_nil lineBreak hbreaks (Nat.le_max_left minTextBudget _) hmem hch hnone

/-- Every message has a body line with something to see. -/
theorem bodies_seen {m : MessageRow} {text : Str} (h : m.type = .action ∨ ∃ ch ∈ text, !isSpace ch) :
    ∃ body ∈ bodies m text, ∃ ch ∈ body, isSpace ch = false := by
  unfold bodies
  split
  · exact ⟨_, List.mem_singleton_self _, Char.ofNat 1, by simp, by decide⟩
  · rename_i htype
    obtain ⟨ch, hmem, hch⟩ := h.resolve_left htype
    have hch : isSpace ch = false := by simpa using hch
    have hn : ch ≠ '\n' := fun heq => by rw [heq] at hch; exact absurd hch (by decide)
    obtain ⟨line, hline, hin⟩ := mem_splitOn hmem hn
    exact ⟨line, hline, ch, hin, hch⟩

theorem eventLine_some {c : Session} {m : MessageRow} {target : Str}
    (htype : m.type ∈ historyEventTypes) (hparts : hasItsParts (.line m) = true) :
    ∃ line, eventLine c m target = some line := by
  simp only [hasItsParts, htype, if_true, Bool.and_eq_true, Bool.or_eq_true, decide_eq_true_eq,
    Option.any_eq_true] at hparts
  obtain ⟨⟨⟨⟨nick, hnick, hne⟩, hnew⟩, hkick⟩, hmode⟩ := hparts
  obtain ⟨ch, nick, rfl⟩ := List.exists_cons_of_ne_nil hne
  simp only [eventLine, hnick]
  cases ht : m.type <;> simp only [ht, historyEventTypes] at htype hnew hkick hmode ⊢
  case nick =>
    obtain ⟨newNick, hnew, hne⟩ := hnew.resolve_left (by simp)
    simp [hnew, hne]
  case kick =>
    obtain ⟨kicked, hkicked, hne⟩ := hkick.resolve_left (by simp)
    simp [hkicked, hne]
  case mode =>
    obtain ⟨text, htext, hne⟩ := hmode.resolve_left (by simp)
    simp [htext, hne]
  all_goals simp at htype ⊢

/-- A message row that a window holds. -/
theorem message_of_mem {c : Session} {s : Store} {target : Str} {m : MessageRow}
    (hrow : .line m ∈ historyRows toLower c s target) (htype : m.type ∉ historyEventTypes) :
    chathistoryMsgFilter m = true ∧
      (m.self && !c.replaysSelfLine toLower (isChannelName target) target) = false := by
  unfold historyRows at hrow
  split at hrow
  · cases hrow
  · rcases List.mem_append.mp hrow with h | h
    · obtain ⟨m', hm', heq⟩ := List.mem_map.mp h
      obtain rfl := HistoryRow.line.inj heq
      obtain ⟨-, hm'⟩ := List.mem_filter.mp hm'
      simp only [Bool.and_eq_true, Bool.or_eq_true, Bool.not_eq_true'] at hm'
      obtain ⟨⟨-, hfilter⟩, hself⟩ := hm'
      refine ⟨?_, ?_⟩
      · unfold historyFilter at hfilter
        split at hfilter
        · exact hfilter
        · simpa [htype] using hfilter
      · rcases hself with h | h
        · simp only [Bool.not_eq_false'] at h
          simp [h]
        · simp [h]
    · split at h
      · obtain ⟨r, -, heq⟩ := List.mem_map.mp h
        cases heq
      · cases h

/-- A row that a window holds puts a line on the wire. -/
theorem rowLines_ne_nil (hbreaks : Breaks lineBreak) {c : Session} {s : Store} {target : Str}
    {row : HistoryRow} (hrow : row ∈ historyRows toLower c s target)
    (hparts : hasItsParts row = true) :
    rowLines toLower lineBreak c target (isChannelName target) row ≠ [] := by
  cases row with
  | reaction r => exact List.cons_ne_nil _ _
  | line m =>
    simp only [rowLines]
    split
    · rename_i htype
      obtain ⟨line, hline⟩ := eventLine_some (c := c) htype hparts
      rw [hline]
      exact List.cons_ne_nil _ _
    · rename_i htype
      obtain ⟨hfilter, hself⟩ := message_of_mem toLower hrow htype
      simp only [chathistoryMsgFilter, Bool.and_eq_true, decide_eq_true_eq, Bool.not_eq_true']
        at hfilter
      obtain ⟨⟨⟨hkind, hmirrored⟩, hnone⟩, hempty⟩ := hfilter
      obtain ⟨text, htext⟩ := Option.ne_none_iff_exists'.mp hnone
      obtain ⟨ch, text, rfl⟩ : ∃ ch rest, text = ch :: rest :=
        List.exists_cons_of_ne_nil fun hnil => hempty (by rw [htext, hnil])
      rw [if_neg (not_not.mpr hkind)]
      simp only [htext, hmirrored, hself, Bool.false_eq_true, if_false]
      have hseen : m.type = .action ∨ ∃ c ∈ ch :: text, !isSpace c := by
        simpa [hasItsParts, htype, htext] using hparts
      obtain ⟨body, hbody, c, hmem, hc⟩ := bodies_seen hseen
      exact messageLines_ne_nil lineBreak hbreaks _ _ _ hbody hmem hc

theorem eventLine_tags {c : Session} {m : MessageRow} {target : Str} {line : ClientLine}
    (h : eventLine c m target = some line) : line.tags = formatTags c { time := some m.time } := by
  simp only [eventLine] at h
  split at h
  · cases h
  · cases h
  · cases ht : m.type <;> simp only [ht] at h
    case nick =>
      obtain ⟨newNick, -, rfl⟩ := Option.map_eq_some_iff.mp h
      rfl
    case kick =>
      obtain ⟨kicked, -, rfl⟩ := Option.map_eq_some_iff.mp h
      rfl
    case mode =>
      split at h
      · obtain rfl := Option.some.inj h
        rfl
      · cases h
    all_goals
      cases h
      try rfl

/-- A line carries the time of its row. -/
theorem rowLines_time {c : Session} (htime : c.has .serverTime = true) {target : Str}
    {isChannel : Bool} {row : HistoryRow} :
    ∀ line ∈ rowLines toLower lineBreak c target isChannel row, line.tags.time = some row.time := by
  have hformat (tags : ReplayTags) : (formatTags c tags).time = tags.time := if_pos htime
  intro line hline
  cases row with
  | reaction r =>
    obtain rfl := List.mem_singleton.mp hline
    exact hformat _
  | line m =>
    simp only [rowLines] at hline
    split at hline
    · rw [eventLine_tags (Option.mem_toList.mp hline)]
      exact hformat _
    · split at hline
      · cases hline
      · split at hline
        · cases hline
        · cases hline
        · split at hline
          · cases hline
          · split at hline
            · cases hline
            · obtain ⟨i, hi, rfl⟩ := List.mem_mapIdx.mp hline
              rw [hformat]
              split <;> rfl

section Answers

variable {toLower lineBreak} {c : Session} {s : Store} {target : Str} {n : Nat}

/-- The answer to a command with its limit in range. -/
theorem handleChatHistory_eq (hmax : n ≤ maxChathistory) (ask : Ask) :
    handleChatHistory toLower lineBreak c s target ask n =
      ⟨loadChatHistory toLower c s target ask n,
        playbackLines toLower lineBreak c (loadChatHistory toLower c s target ask n) target
          (isChannelName target)⟩ :=
  if_neg (not_lt.mpr hmax)

/-- A row of an answer puts its lines in it. -/
theorem sends_of_mem (hbreaks : Breaks lineBreak)
    (hparts : ∀ row ∈ historyRows toLower c s target, hasItsParts row = true)
    (hmax : n ≤ maxChathistory) {ask : Ask} {row : HistoryRow}
    (hrow : row ∈ (handleChatHistory toLower lineBreak c s target ask n).rows)
    (hin : row ∈ historyRows toLower c s target) :
    (handleChatHistory toLower lineBreak c s target ask n).Sends toLower lineBreak c target row := by
  refine ⟨hrow, rowLines_ne_nil toLower lineBreak hbreaks hin (hparts row hin), fun line hline => ?_⟩
  rw [handleChatHistory_eq hmax] at hrow ⊢
  exact List.mem_flatMap.mpr ⟨row, hrow, hline⟩

theorem mem_sentTimes (hbreaks : Breaks lineBreak) (htime : c.has .serverTime = true)
    (hparts : ∀ row ∈ historyRows toLower c s target, hasItsParts row = true)
    (hmax : n ≤ maxChathistory) {ask : Ask}
    (hsub : ∀ row ∈ (handleChatHistory toLower lineBreak c s target ask n).rows,
      row ∈ historyRows toLower c s target) {time : Nat} :
    time ∈ sentTimes (handleChatHistory toLower lineBreak c s target ask n) ↔
      ∃ row ∈ (handleChatHistory toLower lineBreak c s target ask n).rows, row.time = time := by
  rw [sentTimes, List.mem_filterMap]
  constructor
  · rintro ⟨line, hline, htag⟩
    rw [handleChatHistory_eq hmax] at hline ⊢
    obtain ⟨row, hrow, hline⟩ := List.mem_flatMap.mp hline
    rw [rowLines_time toLower lineBreak htime line hline] at htag
    exact ⟨row, hrow, Option.some.inj htag⟩
  · rintro ⟨row, hrow, rfl⟩
    obtain ⟨-, hne, hlines⟩ := sends_of_mem hbreaks hparts hmax hrow (hsub row hrow)
    obtain ⟨line, hline⟩ := List.exists_mem_of_ne_nil _ hne
    exact ⟨line, hlines line hline, rowLines_time toLower lineBreak htime line hline⟩

theorem oldestSent_spec (hbreaks : Breaks lineBreak) (htime : c.has .serverTime = true)
    (hparts : ∀ row ∈ historyRows toLower c s target, hasItsParts row = true)
    (hmax : n ≤ maxChathistory) {ask : Ask}
    (hsub : ∀ row ∈ (handleChatHistory toLower lineBreak c s target ask n).rows,
      row ∈ historyRows toLower c s target)
    (hne : (handleChatHistory toLower lineBreak c s target ask n).rows ≠ []) :
    ∃ row ∈ (handleChatHistory toLower lineBreak c s target ask n).rows,
      oldestSent (handleChatHistory toLower lineBreak c s target ask n) = some row.time ∧
      ∀ row' ∈ (handleChatHistory toLower lineBreak c s target ask n).rows,
        row.time ≤ row'.time := by
  have hmem (time : Nat) : _ ↔ _ := @mem_sentTimes _ _ _ _ _ _ hbreaks htime hparts hmax _ hsub time
  obtain ⟨row, hrow⟩ := List.exists_mem_of_ne_nil _ hne
  have hsent : sentTimes (handleChatHistory toLower lineBreak c s target ask n) ≠ [] :=
    List.ne_nil_of_mem ((hmem _).mpr ⟨row, hrow, rfl⟩)
  obtain ⟨time, hmin⟩ := Option.isSome_iff_exists.mp (List.isSome_min?_iff.mpr hsent)
  obtain ⟨hin, hleast⟩ := List.min?_eq_some_iff.mp hmin
  obtain ⟨oldest, holdest, rfl⟩ := (hmem time).mp hin
  exact ⟨oldest, holdest, hmin, fun row' hrow' => hleast _ ((hmem _).mpr ⟨row', hrow', rfl⟩)⟩

theorem newestSent_spec (hbreaks : Breaks lineBreak) (htime : c.has .serverTime = true)
    (hparts : ∀ row ∈ historyRows toLower c s target, hasItsParts row = true)
    (hmax : n ≤ maxChathistory) {ask : Ask}
    (hsub : ∀ row ∈ (handleChatHistory toLower lineBreak c s target ask n).rows,
      row ∈ historyRows toLower c s target)
    (hne : (handleChatHistory toLower lineBreak c s target ask n).rows ≠ []) :
    ∃ row ∈ (handleChatHistory toLower lineBreak c s target ask n).rows,
      newestSent (handleChatHistory toLower lineBreak c s target ask n) = some row.time ∧
      ∀ row' ∈ (handleChatHistory toLower lineBreak c s target ask n).rows,
        row'.time ≤ row.time := by
  have hmem (time : Nat) : _ ↔ _ := @mem_sentTimes _ _ _ _ _ _ hbreaks htime hparts hmax _ hsub time
  obtain ⟨row, hrow⟩ := List.exists_mem_of_ne_nil _ hne
  have hsent : sentTimes (handleChatHistory toLower lineBreak c s target ask n) ≠ [] :=
    List.ne_nil_of_mem ((hmem _).mpr ⟨row, hrow, rfl⟩)
  obtain ⟨time, hmax'⟩ := Option.isSome_iff_exists.mp (List.isSome_max?_iff.mpr hsent)
  obtain ⟨hin, hmost⟩ := List.max?_eq_some_iff.mp hmax'
  obtain ⟨newest, hnewest, rfl⟩ := (hmem time).mp hin
  exact ⟨newest, hnewest, hmax', fun row' hrow' => hmost _ ((hmem _).mpr ⟨row', hrow', rfl⟩)⟩

theorem key_time {row row' : HistoryRow} (h : row.key < row'.key) : row.time ≤ row'.time := by
  cases row <;> cases row' <;> simp only [HistoryRow.key, Prod.Lex.toLex_lt_toLex] at h <;>
    simp only [HistoryRow.time] <;> omega

theorem past_before (bound : Option Nat) (all : List HistoryRow) :
    @past HistoryRow Natᵒᵈ _ (fun row => toDual row.time) bound all =
      all.filter fun row => within none bound row.time := by
  refine List.filter_congr fun row _ => ?_
  cases bound <;> rfl

theorem past_after (bound : Option Nat) (all : List HistoryRow) :
    past HistoryRow.time bound all = all.filter fun row => within bound none row.time := by
  refine List.filter_congr fun row _ => ?_
  cases bound <;> simp [within]

theorem back_newest (hmax : n ≤ maxChathistory) (bound : Option Nat) :
    Newest n ((historyRows toLower c s target).filter fun row => within none bound row.time)
      (handleChatHistory toLower lineBreak c s target (askBack bound) n).rows := by
  rw [handleChatHistory_eq hmax]
  cases bound <;> exact newest_window toLower c s target none _ n

theorem after_earliest (hmax : n ≤ maxChathistory) (time : Nat) :
    Earliest n ((historyRows toLower c s target).filter fun row => within (some time) none row.time)
      (handleChatHistory toLower lineBreak c s target (.after time) n).rows := by
  rw [handleChatHistory_eq hmax]
  exact earliest_window toLower c s target (some time) none n

section Runs

variable (hbreaks : Breaks lineBreak) (hn : 1 ≤ n) (hmax : n ≤ maxChathistory)
  (htime : c.has .serverTime = true)
  (hparts : ∀ row ∈ historyRows toLower c s target, hasItsParts row = true)

include hbreaks hn hmax htime hparts

theorem serves_back :
    @Serves HistoryRow (Nat ×ₗ Nat ×ₗ Nat)ᵒᵈ Natᵒᵈ _ _ Answer (fun row => toDual row.key)
      (fun row => toDual row.time) n (historyRows toLower c s target)
      (fun bound => handleChatHistory toLower lineBreak c s target (askBack bound) n)
      (·.rows.reverse) oldestSent where
  pos := hn
  mono := fun _ _ h => key_time h
  first := fun bound => by
    have hpast := past_before bound (historyRows toLower c s target)
    rw [hpast]
    exact back_newest hmax bound
  furthest := fun bound hne => by
    have hnewest := @back_newest toLower lineBreak c s target _ hmax bound
    obtain ⟨row, hrow, hold, hleast⟩ := oldestSent_spec hbreaks htime hparts hmax
      (fun row hrow => List.mem_of_mem_filter (hnewest.sub row (List.mem_reverse.mpr hrow)))
      (fun hnil => hne (by rw [hnil]; rfl))
    exact ⟨row, List.mem_reverse.mpr hrow, hold, fun b hb => hleast b (List.mem_reverse.mp hb)⟩

theorem serves_forward {beginning : Nat}
    (hbeginning : ∀ row ∈ historyRows toLower c s target, beginning < row.time) :
    Serves HistoryRow.key HistoryRow.time n (historyRows toLower c s target)
      (fun bound => handleChatHistory toLower lineBreak c s target
        (.after (bound.getD beginning)) n)
      (·.rows) newestSent where
  pos := hn
  mono := fun _ _ h => key_time h
  first := fun bound => by
    have hpast : past HistoryRow.time bound (historyRows toLower c s target) =
        (historyRows toLower c s target).filter
          fun row => within (some (bound.getD beginning)) none row.time := by
      rw [past_after]
      refine List.filter_congr fun row hrow => ?_
      cases bound with
      | none => simp [within, hbeginning row hrow]
      | some time => rfl
    rw [hpast]
    exact after_earliest hmax _
  furthest := fun bound hne => by
    have hearliest := @after_earliest toLower lineBreak c s target _ hmax
      (bound.getD beginning)
    exact newestSent_spec hbreaks htime hparts hmax
      (fun row hrow => List.mem_of_mem_filter (hearliest.sub row hrow)) hne

theorem pageBack_paged : ∃ answers,
    pageBack toLower lineBreak c s target n ((historyRows toLower c s target).length + 1) =
      some answers ∧
    Paged toLower lineBreak c target n (historyRows toLower c s target) oldestSent answers := by
  have hserves := serves_back hbreaks hn hmax htime hparts
  obtain ⟨answers, hread⟩ := Pages.readPages_total hserves
    
    (Nat.lt_succ_of_le (List.length_filter_le _ _))
  have hasked := Pages.readPages_asked hserves hread
  have hmem : ∀ answer ∈ answers, ∀ row ∈ answer.rows, row ∈ historyRows toLower c s target := by
    intro answer hanswer row hrow
    obtain ⟨-, -, hin⟩ := hasked answer hanswer
    exact List.mem_of_mem_filter (hin row (List.mem_reverse.mpr hrow))
  refine ⟨answers, ?_, ?_, hmem, fun row hrow => ?_⟩
  · simp only [List.length_reverse] at hread
    exact hread
  · intro answer hanswer
    obtain ⟨bound, rfl, -⟩ := hasked answer hanswer
    exact List.pairwise_reverse.mp (back_newest hmax bound).ascends
  · have hexact := Pages.readPages_exact hserves hread row (List.mem_filter.mpr ⟨hrow, rfl⟩)
    have hcut : Pages.CutOff (fun row => toDual (HistoryRow.time row)) n (·.rows.reverse)
        oldestSent answers row ↔ CutOff n oldestSent answers row := by
      simp only [Pages.CutOff, CutOff, List.length_reverse, List.mem_reverse]
      rfl
    rw [hcut] at hexact
    rw [← hexact]
    refine exists_congr fun answer => and_congr_right fun hanswer => ?_
    obtain ⟨bound, rfl, -⟩ := hasked answer hanswer
    exact ⟨fun hsent => List.mem_reverse.mpr hsent.1, fun hin =>
      sends_of_mem hbreaks hparts hmax (List.mem_reverse.mp hin) hrow⟩

theorem pageForward_paged {beginning : Nat}
    (hbeginning : ∀ row ∈ historyRows toLower c s target, beginning < row.time) : ∃ answers,
    pageForward toLower lineBreak c s target beginning n
      ((historyRows toLower c s target).length + 1) = some answers ∧
    Paged toLower lineBreak c target n (historyRows toLower c s target) newestSent answers := by
  have hserves := serves_forward hbreaks hn hmax htime hparts hbeginning
  obtain ⟨answers, hread⟩ := Pages.readPages_total hserves
    
    (Nat.lt_succ_of_le (List.length_filter_le _ _))
  have hasked := Pages.readPages_asked hserves hread
  refine ⟨answers, hread, fun answer hanswer => ?_, fun answer hanswer row hrow => ?_,
    fun row hrow => ?_⟩
  · obtain ⟨bound, rfl, -⟩ := hasked answer hanswer
    exact (hserves.first bound).ascends
  · obtain ⟨-, -, hin⟩ := hasked answer hanswer
    exact List.mem_of_mem_filter (hin row hrow)
  · have hexact := Pages.readPages_exact hserves hread row (List.mem_filter.mpr ⟨hrow, rfl⟩)
    refine Iff.trans (exists_congr fun answer => and_congr_right fun hanswer => ?_) hexact
    obtain ⟨bound, rfl, -⟩ := hasked answer hanswer
    exact ⟨fun hsent => hsent.1, fun hin => sends_of_mem hbreaks hparts hmax hin hrow⟩

end Runs

end Answers

/-- AROUND a time: the newest rows strictly before it and the earliest strictly after. -/
def AroundTime (n time : Nat) (all rows : List HistoryRow) : Prop :=
  ∃ older newer, rows = older ++ newer ∧
    Newest (n - n / 2) (all.filter fun row => within none (some time) row.time) older ∧
    Earliest (n / 2) (all.filter fun row => within (some time) none row.time) newer ∧
    ∀ row ∈ rows, row.time ≠ time

theorem around_time (c : Session) (s : Store) (target : Str) {n : Nat} (hmax : n ≤ maxChathistory)
    (time : Nat) : AroundTime n time (historyRows toLower c s target)
      (handleChatHistory toLower lineBreak c s target (.around time) n).rows := by
  rw [handleChatHistory_eq hmax]
  have holder := newest_window toLower c s target none (some time) (n - n / 2)
  have hnewer := earliest_window toLower c s target (some time) none (n / 2)
  refine ⟨_, _, rfl, holder, hnewer, fun row hrow => ?_⟩
  rcases List.mem_append.mp hrow with h | h
  · have hin := (List.mem_filter.mp (holder.sub row (List.mem_reverse.mpr h))).2
    simp only [within, Option.all_none, Option.all_some, Bool.true_and, decide_eq_true_eq] at hin
    exact hin.ne
  · have hin := (List.mem_filter.mp (hnewer.sub row h)).2
    simp only [within, Option.all_none, Option.all_some, Bool.and_true, decide_eq_true_eq] at hin
    exact hin.ne'

theorem between_swapped (c : Session) (s : Store) (target : Str) {n : Nat}
    (hmax : n ≤ maxChathistory) {a b : Nat} (hab : b < a) :
    Newest n ((historyRows toLower c s target).filter fun row => within (some b) (some a) row.time)
      (handleChatHistory toLower lineBreak c s target (.between a b) n).rows := by
  rw [handleChatHistory_eq hmax]
  simp only [loadChatHistory, if_neg (not_le.mpr hab)]
  exact newest_window toLower c s target (some b) (some a) n

/-- A client is sent all of history but for what a full answer left out of the instant it
stopped at. -/
theorem history_paged (hbreaks : Breaks lineBreak) (c : Session) (s : Store) (target : Str) (n : Nat)
    (hn : 1 ≤ n) (hmax : n ≤ maxChathistory) (htime : c.has .serverTime = true)
    (hparts : ∀ row ∈ historyRows toLower c s target, hasItsParts row = true) (beginning : Nat)
    (hbeginning : ∀ row ∈ historyRows toLower c s target, beginning < row.time) :
    (∃ answers,
      pageBack toLower lineBreak c s target n ((historyRows toLower c s target).length + 1) =
        some answers ∧
      Paged toLower lineBreak c target n (historyRows toLower c s target) oldestSent answers) ∧
    (∃ answers,
      pageForward toLower lineBreak c s target beginning n
          ((historyRows toLower c s target).length + 1) = some answers ∧
      Paged toLower lineBreak c target n (historyRows toLower c s target) newestSent answers) ∧
    (∀ row ∈ historyRows toLower c s target,
      rowLines toLower lineBreak c target (isChannelName target) row ≠ []) ∧
    (∀ time, AroundTime n time (historyRows toLower c s target)
      (handleChatHistory toLower lineBreak c s target (.around time) n).rows) ∧
    ∀ a b, b < a →
      Newest n
        ((historyRows toLower c s target).filter fun row => within (some b) (some a) row.time)
        (handleChatHistory toLower lineBreak c s target (.between a b) n).rows := by
  refine ⟨pageBack_paged hbreaks hn hmax htime hparts,
    pageForward_paged hbreaks hn hmax htime hparts hbeginning, fun row hrow => ?_,
    fun time => around_time toLower lineBreak c s target hmax time,
    fun a b hab => between_swapped toLower lineBreak c s target hmax hab⟩
  exact rowLines_ne_nil toLower lineBreak hbreaks hrow (hparts row hrow)

def someone (id time : Nat) (text : String) : MessageRow :=
  ⟨id, 1, time, .message, some "bob".toList, none, some text.toList, false, false, none, none,
    some "m".toList, none, false⟩

/-- Two lines of one millisecond after a first one, and a reaction on it. -/
def threeLines : Store where
  messages := [someone 1 1 "a", someone 2 2 "b", someone 3 2 "c"]
  reactions := [⟨1, 1, 1, "eve".toList, none, false, "+1".toList, 3, none⟩]
  messages_nodup := by decide
  reactions_nodup := by decide

/-- A client with some caps, on a network with one channel. -/
def attached (caps : List Cap) : Session :=
  ⟨1, caps, "me".toList, "me".toList, "me".toList, none,
    fun target => if target = "#c".toList then some 1 else none⟩

/-- The messages and events of an answer, its reactions apart. -/
def messagesAndEvents (answer : Answer) : List HistoryRow :=
  answer.rows.filter fun row =>
    match row with
    | .line _ => true
    | .reaction _ => false

theorem latest_with_reaction :
    (handleChatHistory id Lurker.Outbound.packBreak
      (attached [.serverTime, .messageTags, .eventPlayback]) threeLines "#c".toList
      (.latest none) 3).rows =
        [.line (someone 2 2 "b"), .line (someone 3 2 "c"),
          .reaction ⟨1, 3, "eve".toList, none, false, "+1".toList, "m".toList, false⟩] := by
  have hlines : loadHistoryWindowRows id threeLines 1 none none none 3
      ⟨true, some ⟨some "me".toList⟩, true, false⟩ =
        [someone 3 2 "c", someone 2 2 "b", someone 1 1 "a"] := by decide +kernel
  have hreacted : loadReactionWindow threeLines 1 1 none none 3 true false =
      [⟨1, 3, "eve".toList, none, false, "+1".toList, "m".toList, false⟩] := by decide +kernel
  rw [handleChatHistory_eq (by decide)]
  show (((mergeHistory ((loadHistoryWindowRows id threeLines 1 none none none 3
    ⟨true, some ⟨some "me".toList⟩, true, false⟩).map HistoryRow.line)
    (loadReactionWindow threeLines 1 1 none none 3 true false) true).take 3).reverse) = _
  rw [hlines, hreacted]
  simp [mergeHistory, lineFirst, HistoryRow.time, someone]

theorem history_paged_three_lines :
    Breaks Lurker.Outbound.packBreak ∧
    (∃ answers,
      pageBack id Lurker.Outbound.packBreak (attached [.serverTime]) threeLines "#c".toList 2 4 =
        some answers ∧
      Paged id Lurker.Outbound.packBreak (attached [.serverTime]) "#c".toList 2
        (historyRows id (attached [.serverTime]) threeLines "#c".toList) oldestSent answers) :=
  ⟨Lurker.Outbound.packBreak_breaks,
    (history_paged id Lurker.Outbound.packBreak Lurker.Outbound.packBreak_breaks
      (attached [.serverTime]) threeLines "#c".toList 2 (by decide) (by decide) (by decide)
      (by decide) 0 (by decide)).1⟩

/-- Line by line, the reader is sent the second line of an instant and never the first;
AROUND the instant holds neither; and a reaction makes a full answer look short. -/
theorem tied_line_never_sent :
    (∃ answers,
      pageBack id Lurker.Outbound.packBreak (attached [.serverTime]) threeLines "#c".toList 1 4 =
        some answers ∧
      .line (someone 2 2 "b") ∈ historyRows id (attached [.serverTime]) threeLines "#c".toList ∧
      ∀ answer ∈ answers, .line (someone 2 2 "b") ∉ answer.rows) ∧
    (∀ row ∈ (handleChatHistory id Lurker.Outbound.packBreak (attached [.serverTime]) threeLines
      "#c".toList (.around 2) 10).rows, row.time ≠ 2) ∧
    (messagesAndEvents (handleChatHistory id Lurker.Outbound.packBreak
        (attached [.serverTime, .messageTags, .eventPlayback]) threeLines "#c".toList
        (.latest none) 3)).length < 3 ∧
    .line (someone 1 1 "a") ∉ (handleChatHistory id Lurker.Outbound.packBreak
        (attached [.serverTime, .messageTags, .eventPlayback]) threeLines "#c".toList
        (.latest none) 3).rows := by
  refine ⟨⟨_, rfl, by decide +kernel, by decide +kernel⟩, by decide +kernel, ?_, ?_⟩
  · rw [messagesAndEvents, latest_with_reaction]
    decide
  · rw [latest_with_reaction]
    decide

end Lurker.Bouncer
