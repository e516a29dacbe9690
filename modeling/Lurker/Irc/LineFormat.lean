import Lurker.Irc.Line
import Lurker.Lib.Delimited

/-!
# Lines as the bouncer rewrites them

A rewritten line is parsed, changed, and serialized again. What `parseLine` gives has a
shape (`Formed`), and a shape that is serialized is read back as it was, unless the line
comes out starting with a command that starts with the mark of a tag block.
-/

namespace Lurker.Irc

/-- The params of a line: the last takes a colon where it needs one, or had one. -/
def formatParams (trailing : Bool) : List Str → List Str
  | [] => []
  | [p] => [if trailing || p = [] || ' ' ∈ p || p.head? = some ':' then ':' :: p else p]
  | p :: q :: ps => p :: formatParams trailing (q :: ps)

/-- Serialize a parsed line back to the wire form. -/
def formatLine (msg : ClientLine) : Str :=
  let tags := if msg.tags = [] then [] else ['@' :: [';'].intercalate msg.tags]
  let source := (msg.source.map (':' :: ·)).toList
  [' '].intercalate (tags ++ source ++ msg.command :: formatParams msg.trailing msg.params)

def tagKey (tag : Str) : Str := tag.takeWhile (· ≠ '=')

-- `toUpperCase` of the platform
variable (upper : Str → Str)

/-- The line with only the tags whose key `keep` accepts. None when it has no command. -/
def restrictTags (line : Str) (keep : Str → Bool) : Option Str :=
  (parseLine upper line).map fun msg =>
    let kept := msg.tags.filter fun tag => keep (tagKey tag)
    -- an emptied (or already empty) tag block goes entirely
    if kept.length = msg.tags.length ∧ (0 < kept.length ∨ line.head? ≠ some '@') then line
    else formatLine { msg with tags := kept }

/-- What stands after the tag block, if any, and the spaces there. -/
def bare (line : Str) : Str :=
  if line.head? = some '@' then skipSpaces (line.dropWhile (· ≠ ' ')).tail else skipSpaces line

/-- What is relied on of `toUpperCase`: what is upper case stays, a text is not emptied, and
spaces and marks neither come nor go. -/
structure Uppercases : Prop where
  idem : ∀ s, upper (upper s) = upper s
  ne_nil : ∀ s, s ≠ [] → upper s ≠ []
  space : ∀ s, ' ' ∉ s → ' ' ∉ upper s
  mark : ∀ s c, c = ':' ∨ c = '@' → ((upper s).head? = some c ↔ s.head? = some c)

/-- Text between spaces. -/
def Word (w : Str) : Prop := w ≠ [] ∧ ' ' ∉ w

/-- The shape of what `parseLine` gives. -/
structure Formed (msg : ClientLine) : Prop where
  tags : ∀ t ∈ msg.tags, Word t ∧ ';' ∉ t
  source : ∀ s ∈ msg.source, ' ' ∉ s
  command : Word msg.command
  upper : upper msg.command = msg.command
  colon : msg.source = none → msg.command.head? ≠ some ':'
  params : ∃ (words : List Str) (last : Option Str), msg.params = words ++ last.toList ∧ msg.trailing = last.isSome ∧
    ∀ w ∈ words, Word w ∧ w.head? ≠ some ':'

theorem of_mem_pieces {sep : Char} {s w : Str} (h : w ∈ pieces sep s) :
    w ≠ [] ∧ sep ∉ w ∧ w ⊆ s := by
  obtain ⟨hmem, hne⟩ := List.mem_filter.mp h
  exact ⟨of_decide_eq_true hne, Delimited.of_mem_splitOn hmem⟩

theorem head_of_splitOn {sep : Char} {s first : Str} {more : List Str} {c : Char}
    (h : s.splitOn sep = first :: more) (hc : first.head? = some c) : s.head? = some c := by
  cases s with
  | nil =>
    rw [List.splitOn_nil] at h
    rw [← (List.cons.inj h).1] at hc
    cases hc
  | cons d s =>
    rw [List.splitOn_cons_eq_if_modifyHead] at h
    split at h
    · rw [← (List.cons.inj h).1] at hc
      cases hc
    · cases hs : s.splitOn sep with
      | nil => exact absurd hs (List.splitOn_ne_nil _ _)
      | cons first' more' =>
        rw [hs, List.modifyHead_cons] at h
        rw [← (List.cons.inj h).1] at hc
        exact hc

theorem head_of_cutTrailing {s : Str} {c : Char} (h : (cutTrailing s).1.head? = some c) :
    s.head? = some c := by
  cases s with
  | nil => exact h
  | cons d s =>
    rw [cutTrailing] at h
    split at h
    · cases h
    · exact h

/-- Only the first piece before the trailing param can start with a colon. -/
theorem colon_splitOn (s : Str) :
    ∀ w ∈ ((cutTrailing s).1.splitOn ' ').tail, w.head? ≠ some ':' := by
  induction s with
  | nil => exact fun w hw => (by cases hw)
  | cons c rest ih =>
    rw [cutTrailing]
    split
    · exact fun w hw => (by cases hw)
    · rename_i hcut
      rw [List.splitOn_cons_eq_if_modifyHead]
      cases hs : (cutTrailing rest).1.splitOn ' ' with
      | nil => exact absurd hs (List.splitOn_ne_nil _ _)
      | cons first pieces =>
        rw [hs] at ih
        split
        · rename_i hc
          intro w hw
          rcases List.mem_cons.mp hw with rfl | hw
          · intro hw
            exact hcut ⟨eq_of_beq hc, head_of_cutTrailing (head_of_splitOn hs hw)⟩
          · exact ih w hw
        · exact ih

theorem colon_pieces (s : Str) {w : Str} {ws : List Str} (h : pieces ' ' (cutTrailing s).1 = w :: ws) :
    (∀ v ∈ ws, v.head? ≠ some ':') ∧ (s.head? ≠ some ':' → w.head? ≠ some ':') := by
  have htail := colon_splitOn s
  unfold pieces at h
  cases hs : (cutTrailing s).1.splitOn ' ' with
  | nil => exact absurd hs (List.splitOn_ne_nil _ _)
  | cons first more =>
    rw [hs] at h htail
    rw [List.filter_cons] at h
    split at h
    · obtain ⟨rfl, rfl⟩ := List.cons.inj h
      refine ⟨fun v hv => htail v (List.mem_filter.mp hv).1, fun hcolon hw => hcolon ?_⟩
      exact head_of_cutTrailing (head_of_splitOn hs hw)
    · have hmem : ∀ v ∈ w :: ws, v.head? ≠ some ':' := fun v hv =>
        htail v (List.mem_filter.mp (h ▸ hv)).1
      exact ⟨fun v hv => hmem v (List.mem_cons_of_mem _ hv), fun _ => hmem w List.mem_cons_self⟩

section Formed

variable {upper}

theorem formed_finish (hupper : Uppercases upper) {tags : List Str} {source : Option Str}
    {rest command : Str} {params : List Str}
    (htags : ∀ t ∈ tags, Word t ∧ ';' ∉ t) (hsource : ∀ s ∈ source, ' ' ∉ s)
    (hcolon : source = none → rest.head? ≠ some ':')
    (h : pieces ' ' (cutTrailing rest).1 = command :: params) :
    Formed upper ⟨tags, source, upper command, params ++ (cutTrailing rest).2.toList,
      (cutTrailing rest).2.isSome⟩ where
  tags := htags
  source := hsource
  command := by
    obtain ⟨hne, hspace, -⟩ := of_mem_pieces (h ▸ List.mem_cons_self : command ∈ pieces ' ' _)
    exact ⟨hupper.ne_nil _ hne, hupper.space _ hspace⟩
  upper := hupper.idem command
  colon := fun hnone hhead =>
    (colon_pieces rest h).2 (hcolon hnone) ((hupper.mark _ _ (.inl rfl)).mp hhead)
  params := by
    refine ⟨params, _, rfl, rfl, fun w hw => ⟨?_, (colon_pieces rest h).1 w hw⟩⟩
    obtain ⟨hne, hspace, -⟩ := of_mem_pieces (h ▸ List.mem_cons_of_mem _ hw : w ∈ pieces ' ' _)
    exact ⟨hne, hspace⟩

theorem parseRest_some {tags : List Str} {rest : Str} {msg : ClientLine}
    (h : parseRest upper tags rest = some msg) :
    ∃ source after command params,
      (rest.head? ≠ some ':' ∧ source = none ∧ after = rest ∨
        rest.head? = some ':' ∧ ∃ word, cutSpace rest = some (word, after) ∧ source = some word.tail) ∧
      pieces ' ' (cutTrailing after).1 = command :: params ∧
      msg = ⟨tags, source, upper command, params ++ (cutTrailing after).2.toList,
        (cutTrailing after).2.isSome⟩ := by
  unfold parseRest at h
  dsimp only at h
  split at h
  · rename_i hcolon
    cases hcut : cutSpace rest with
    | none => rw [hcut] at h; cases h
    | some cut =>
      obtain ⟨word, after⟩ := cut
      rw [hcut] at h
      dsimp only at h
      cases hpieces : pieces ' ' (cutTrailing after).1 with
      | nil => rw [hpieces] at h; cases h
      | cons command params =>
        rw [hpieces] at h
        dsimp only at h
        split at h
        · cases h
        · exact ⟨_, after, command, params, .inr ⟨hcolon, word, rfl, rfl⟩, hpieces,
            (Option.some.inj h).symm⟩
  · rename_i hcolon
    cases hpieces : pieces ' ' (cutTrailing rest).1 with
    | nil => rw [hpieces] at h; cases h
    | cons command params =>
      rw [hpieces] at h
      dsimp only at h
      split at h
      · cases h
      · exact ⟨none, rest, command, params, .inl ⟨hcolon, rfl, rfl⟩, hpieces,
          (Option.some.inj h).symm⟩

theorem cutSpace_some {s word after : Str} (h : cutSpace s = some (word, after)) :
    word = s.takeWhile (· ≠ ' ') ∧ after = (s.dropWhile (· ≠ ' ')).tail := by
  unfold cutSpace at h
  split at h
  · obtain ⟨hword, hafter⟩ := Prod.mk.inj (Option.some.inj h)
    exact ⟨hword.symm, hafter.symm⟩
  · cases h

theorem space_not_mem_takeWhile (s : Str) : ' ' ∉ s.takeWhile (· ≠ ' ') :=
  fun h => by simpa using List.mem_takeWhile_imp h

theorem first_piece {s w : Str} {ws : List Str} (hs : s.head? ≠ some ' ')
    (h : pieces ' ' (cutTrailing s).1 = w :: ws) : w.head? = s.head? := by
  cases s with
  | nil => cases h
  | cons d s =>
    have hd : d ≠ ' ' := fun heq => hs (congrArg some heq)
    rw [cutTrailing_cons_of_ne hd, pieces, List.splitOn_cons_eq_if_modifyHead,
      if_neg (by simpa using hd)] at h
    cases hsplit : (cutTrailing s).1.splitOn ' ' with
    | nil => exact absurd hsplit (List.splitOn_ne_nil _ _)
    | cons first more =>
      rw [hsplit, List.modifyHead_cons, List.filter_cons_of_pos (by simp)] at h
      rw [← (List.cons.inj h).1]
      rfl

theorem formed_parseRest (hupper : Uppercases upper) {tags : List Str} {rest : Str} {msg : ClientLine}
    (htags : ∀ t ∈ tags, Word t ∧ ';' ∉ t) (h : parseRest upper tags rest = some msg) :
    Formed upper msg := by
  obtain ⟨source, after, command, params, hsource, hpieces, rfl⟩ := parseRest_some h
  refine formed_finish hupper htags ?_ ?_ hpieces
  · rcases hsource with ⟨-, rfl, -⟩ | ⟨-, word, hcut, rfl⟩
    · exact fun s hs => (by cases hs)
    · intro s hs
      obtain rfl := Option.some.inj hs
      rw [(cutSpace_some hcut).1]
      exact fun hmem => space_not_mem_takeWhile rest (List.mem_of_mem_tail hmem)
  · rcases hsource with ⟨hcolon, -, rfl⟩ | ⟨-, word, -, rfl⟩
    · exact fun _ => hcolon
    · exact fun hnone => (by cases hnone)

/-- What is parsed has no source and a command that starts with the mark of a tag block just
when the text after the tag block starts with it. -/
theorem marked_iff (hupper : Uppercases upper) {tags : List Str} {rest : Str} {msg : ClientLine}
    (hrest : rest.head? ≠ some ' ') (h : parseRest upper tags rest = some msg) :
    (msg.source = none ∧ msg.command.head? = some '@') ↔ rest.head? = some '@' := by
  obtain ⟨source, after, command, params, hsource, hpieces, rfl⟩ := parseRest_some h
  rcases hsource with ⟨-, rfl, rfl⟩ | ⟨hcolon, word, -, rfl⟩
  · rw [hupper.mark _ _ (.inr rfl), first_piece hrest hpieces]
    exact ⟨fun hm => hm.2, fun hm => ⟨rfl, hm⟩⟩
  · rw [hcolon]
    exact ⟨fun hm => (by cases hm.1), fun hm => (by cases hm)⟩

theorem head_skipSpaces (s : Str) : (skipSpaces s).head? ≠ some ' ' := by
  intro h
  have hnot := List.head?_dropWhile_not (fun c => decide (c = ' ')) s
  unfold skipSpaces at h
  rw [h] at hnot
  simp at hnot

theorem parseLine_some {line : Str} {msg : ClientLine} (h : parseLine upper line = some msg) :
    ∃ tags, parseRest upper tags (bare line) = some msg ∧ (∀ t ∈ tags, Word t ∧ ';' ∉ t) ∧
      (line.head? ≠ some '@' → tags = []) := by
  unfold parseLine at h
  unfold bare
  split at h
  · rename_i hmark
    rw [if_pos hmark]
    cases hcut : cutSpace line with
    | none => rw [hcut] at h; cases h
    | some cut =>
      obtain ⟨block, rest⟩ := cut
      rw [hcut] at h
      obtain ⟨rfl, rfl⟩ := cutSpace_some hcut
      refine ⟨_, h, fun t ht => ?_, fun hno => absurd hmark hno⟩
      obtain ⟨hne, hsep, hsub⟩ := of_mem_pieces ht
      exact ⟨⟨hne, fun hmem => space_not_mem_takeWhile line (List.mem_of_mem_tail (hsub hmem))⟩, hsep⟩
  · rename_i hmark
    rw [if_neg hmark]
    exact ⟨[], h, fun t ht => (by cases ht), fun _ => rfl⟩

theorem head_bare (line : Str) : (bare line).head? ≠ some ' ' := by
  unfold bare
  split <;> exact head_skipSpaces _

theorem formed_parseLine (hupper : Uppercases upper) {line : Str} {msg : ClientLine}
    (h : parseLine upper line = some msg) : Formed upper msg := by
  obtain ⟨tags, hrest, htags, -⟩ := parseLine_some h
  exact formed_parseRest hupper htags hrest

end Formed

section ReadBack

/-- How a trailing param stands in a line. -/
def closing (last : Option Str) : Str := (last.map fun t => ' ' :: ':' :: t).getD []

theorem formatParams_words {words : List Str} {last : Option Str}
    (hwords : ∀ w ∈ words, Word w ∧ w.head? ≠ some ':') :
    formatParams last.isSome (words ++ last.toList) = words ++ (last.map (':' :: ·)).toList := by
  induction words with
  | nil => cases last <;> rfl
  | cons w ws ih =>
    have ih := ih fun v hv => hwords v (List.mem_cons_of_mem _ hv)
    obtain ⟨⟨hne, hspace⟩, hcolon⟩ := hwords w List.mem_cons_self
    cases hrest : ws ++ last.toList with
    | nil =>
      obtain ⟨rfl, hlast⟩ := List.append_eq_nil_iff.mp hrest
      obtain rfl := Option.toList_eq_nil_iff.mp hlast
      simp [formatParams, hne, hspace, hcolon]
    | cons v vs =>
      rw [hrest] at ih
      rw [List.cons_append, hrest, formatParams, ih]
      rfl

theorem intercalate_closing (w : Str) (ws : List Str) (last : Option Str) :
    [' '].intercalate (w :: (ws ++ (last.map (':' :: ·)).toList)) =
      [' '].intercalate (w :: ws) ++ closing last := by
  induction ws generalizing w with
  | nil => cases last <;> simp [closing, List.intercalate]
  | cons v ws ih =>
    rw [List.cons_append, List.intercalate_cons_cons, ih, List.intercalate_cons_cons,
      List.append_assoc, List.append_assoc, List.append_assoc]

theorem cutTrailing_closing (last : Option Str) : cutTrailing (closing last) = ([], last) := by
  cases last <;> rfl

theorem cutTrailing_words {w : Str} {ws : List Str} (hw : ' ' ∉ w)
    (hws : ∀ v ∈ ws, Word v ∧ v.head? ≠ some ':') (last : Option Str) :
    cutTrailing ([' '].intercalate (w :: ws) ++ closing last) =
      ([' '].intercalate (w :: ws), last) := by
  induction ws generalizing w with
  | nil =>
    rw [List.intercalate_singleton, cutTrailing_word hw, cutTrailing_closing, List.append_nil]
  | cons v ws ih =>
    obtain ⟨⟨hne, hspace⟩, hcolon⟩ := hws v List.mem_cons_self
    have ih := ih hspace fun u hu => hws u (List.mem_cons_of_mem _ hu)
    have hhead : ([' '].intercalate (v :: ws) ++ closing last).head? ≠ some ':' := by
      cases v with
      | nil => exact absurd rfl hne
      | cons c v => cases ws <;> exact hcolon
    rw [List.intercalate_cons_cons, List.append_assoc, List.append_assoc, cutTrailing_word hw,
      List.singleton_append, cutTrailing, if_neg fun h => hhead h.2, ih, List.append_assoc]
    rfl

theorem pieces_words {sep : Char} {ws : List Str} (hws : ∀ v ∈ ws, v ≠ [] ∧ sep ∉ v) :
    pieces sep ([sep].intercalate ws) = ws := by
  cases ws with
  | nil => rfl
  | cons w ws =>
    rw [pieces, List.splitOn_intercalate sep (fun v hv => (hws v hv).2) (by simp)]
    exact List.filter_eq_self.mpr fun v hv => decide_eq_true (hws v hv).1

variable {upper}

/-- The command and the params of a line, serialized. -/
def body (msg : ClientLine) : Str :=
  [' '].intercalate (msg.command :: formatParams msg.trailing msg.params)

/-- The source, if any, and the rest. -/
def sourced (msg : ClientLine) : Str :=
  (msg.source.map fun s => ':' :: s ++ [' ']).getD [] ++ body msg

theorem formatLine_eq (msg : ClientLine) :
    formatLine msg =
      if msg.tags = [] then sourced msg
      else '@' :: [';'].intercalate msg.tags ++ ' ' :: sourced msg := by
  have hsource : [' '].intercalate ((msg.source.map (':' :: ·)).toList ++
      msg.command :: formatParams msg.trailing msg.params) = sourced msg := by
    unfold sourced body
    cases msg.source with
    | none => rfl
    | some s => simp [List.intercalate_cons_cons]
  unfold formatLine
  split
  · exact hsource
  · dsimp only
    rw [List.append_assoc, List.singleton_append,
      List.intercalate_cons_of_ne_nil (by simp), hsource]
    simp

theorem head_body {msg : ClientLine} (hf : Formed upper msg) :
    (body msg).head? = msg.command.head? := by
  unfold body
  cases hc : msg.command with
  | nil => exact absurd hc hf.command.1
  | cons c command =>
    cases formatParams msg.trailing msg.params <;> rfl

theorem parts_body {msg : ClientLine} (hf : Formed upper msg) :
    ∃ words last, msg.params = words ++ last.toList ∧ msg.trailing = last.isSome ∧
      (∀ w ∈ words, Word w ∧ w.head? ≠ some ':') ∧
      body msg = [' '].intercalate (msg.command :: words) ++ closing last ∧
      cutTrailing (body msg) = ([' '].intercalate (msg.command :: words), last) ∧
      pieces ' ' ([' '].intercalate (msg.command :: words)) = msg.command :: words := by
  obtain ⟨words, last, hparams, htrailing, hwords⟩ := hf.params
  have hbody : body msg = [' '].intercalate (msg.command :: words) ++ closing last := by
    rw [body, hparams, htrailing, formatParams_words hwords, intercalate_closing]
  refine ⟨words, last, hparams, htrailing, hwords, hbody, ?_, ?_⟩
  · rw [hbody]
    exact cutTrailing_words hf.command.2 hwords last
  · refine pieces_words fun v hv => ?_
    rcases List.mem_cons.mp hv with rfl | hv
    exacts [hf.command, (hwords v hv).1]

theorem cutSpace_word {w rest : Str} (hw : ' ' ∉ w) : cutSpace (w ++ ' ' :: rest) = some (w, rest) := by
  have hpos : ∀ c ∈ w, decide (c ≠ ' ') = true := fun c hc =>
    decide_eq_true fun heq => hw (heq ▸ hc)
  unfold cutSpace
  rw [if_pos (by simp), List.takeWhile_append_of_pos hpos, List.dropWhile_append_of_pos hpos]
  simp

theorem parseRest_sourced {msg : ClientLine} (hf : Formed upper msg) (tags : List Str) :
    parseRest upper tags (sourced msg) = some { msg with tags := tags } := by
  obtain ⟨words, last, hparams, htrailing, -, -, hcut, hpieces⟩ := parts_body hf
  unfold sourced parseRest
  cases hsource : msg.source with
  | none =>
    have hcolon : (body msg).head? ≠ some ':' := head_body hf ▸ hf.colon hsource
    simp only [Option.map_none, Option.getD_none, List.nil_append, if_neg hcolon, hcut, hpieces,
      hf.upper, if_neg hf.command.1]
    rw [← hparams, ← htrailing, ← hsource]
  | some s =>
    have hs : ' ' ∉ ':' :: s := by
      intro hmem
      rcases List.mem_cons.mp hmem with h | h
      · cases h
      · exact hf.source s hsource h
    have hcutSpace : cutSpace (':' :: s ++ ' ' :: body msg) = some (':' :: s, body msg) :=
      cutSpace_word hs
    have heq : ':' :: s ++ [' '] ++ body msg = ':' :: s ++ ' ' :: body msg := by
      rw [List.append_assoc]
      rfl
    simp only [Option.map_some, Option.getD_some, heq, hcutSpace, hcut, hpieces, hf.upper,
      if_neg hf.command.1]
    have hhead : (':' :: s ++ ' ' :: body msg).head? = some ':' := rfl
    rw [if_pos hhead, ← hparams, ← htrailing]
    rfl

theorem head_sourced {msg : ClientLine} (hf : Formed upper msg) (hsource : msg.source = none) :
    (sourced msg).head? = msg.command.head? := by
  unfold sourced
  rw [hsource]
  exact head_body hf

theorem head_sourced_some {msg : ClientLine} {s : Str} (hsource : msg.source = some s) :
    (sourced msg).head? = some ':' := by
  unfold sourced
  rw [hsource]
  rfl

theorem skipSpaces_of_head {s : Str} (h : s.head? ≠ some ' ') : skipSpaces s = s := by
  unfold skipSpaces
  cases s with
  | nil => rfl
  | cons c rest => exact List.dropWhile_cons_of_neg fun hc => h (congrArg some (of_decide_eq_true hc))

theorem mem_intercalate {sep c : Char} {ws : List Str} (h : c ∈ [sep].intercalate ws) :
    c = sep ∨ ∃ w ∈ ws, c ∈ w := by
  induction ws with
  | nil => cases h
  | cons w ws ih =>
    cases ws with
    | nil =>
      rw [List.intercalate_singleton] at h
      exact .inr ⟨w, List.mem_cons_self, h⟩
    | cons v ws =>
      rw [List.intercalate_cons_cons, List.append_assoc] at h
      rcases List.mem_append.mp h with h | h
      · exact .inr ⟨w, List.mem_cons_self, h⟩
      rcases List.mem_cons.mp h with h | h
      · exact .inl h
      · exact (ih h).imp_right fun ⟨u, hu, hc⟩ => ⟨u, List.mem_cons_of_mem _ hu, hc⟩

theorem skipSpaces_sourced {msg : ClientLine} (hf : Formed upper msg) :
    skipSpaces (sourced msg) = sourced msg := by
  have hhead : (sourced msg).head? ≠ some ' ' := by
    cases hsource : msg.source with
    | none =>
      rw [head_sourced hf hsource]
      exact fun h => hf.command.2 (List.mem_of_head? h)
    | some s =>
      rw [head_sourced_some hsource]
      decide
  exact skipSpaces_of_head hhead

/-- A shape that is serialized is read back as it was. -/
theorem parseLine_formatLine {msg : ClientLine} (hf : Formed upper msg)
    (hmark : msg.tags = [] → msg.source = none → msg.command.head? ≠ some '@') :
    parseLine upper (formatLine msg) = some msg := by
  rw [formatLine_eq]
  split
  · rename_i htags
    have hhead : (sourced msg).head? ≠ some '@' := by
      cases hsource : msg.source with
      | none =>
        rw [head_sourced hf hsource]
        exact hmark htags hsource
      | some s =>
        rw [head_sourced_some hsource]
        decide
    rw [parseLine, if_neg hhead, skipSpaces_sourced hf, parseRest_sourced hf, ← htags]
  · rename_i htags
    have hspace : ' ' ∉ '@' :: [';'].intercalate msg.tags := by
      intro hmem
      rcases List.mem_cons.mp hmem with h | h
      · cases h
      · rcases mem_intercalate h with h | ⟨t, ht, h⟩
        · cases h
        · exact (hf.tags t ht).1.2 h
    have hcut : cutSpace ('@' :: [';'].intercalate msg.tags ++ ' ' :: sourced msg) =
        some ('@' :: [';'].intercalate msg.tags, sourced msg) := cutSpace_word hspace
    have hhead : ('@' :: [';'].intercalate msg.tags ++ ' ' :: sourced msg).head? = some '@' := rfl
    rw [parseLine, if_pos hhead, hcut]
    dsimp only [List.tail_cons]
    rw [skipSpaces_sourced hf, parseRest_sourced hf,
      pieces_words fun t ht => ⟨(hf.tags t ht).1.1, (hf.tags t ht).2⟩]

/-- Serialized without tags and source, a command that starts with the mark is taken for a
tag block. -/
theorem parseLine_formatLine_marked {msg : ClientLine} (hf : Formed upper msg)
    (htags : msg.tags = []) (hsource : msg.source = none) (hmark : msg.command.head? = some '@') :
    parseLine upper (formatLine msg) ≠ some msg := by
  intro h
  have hhead : (sourced msg).head? = some '@' := (head_sourced hf hsource).trans hmark
  have hbody : sourced msg = body msg := by
    unfold sourced
    rw [hsource]
    rfl
  obtain ⟨words, last, hparams, -, hwords, heq, -⟩ := parts_body hf
  rw [formatLine_eq, if_pos htags, parseLine, if_pos hhead, hbody, heq] at h
  cases words with
  | nil =>
    rw [List.intercalate_singleton] at h
    cases last with
    | none =>
      -- nothing is left for a command
      have hcut : cutSpace (msg.command ++ closing none) = none := by
        unfold cutSpace
        rw [closing, Option.map_none, Option.getD_none, List.append_nil, if_neg hf.command.2]
      rw [hcut] at h
      cases h
    | some t =>
      -- the trailing param is taken for the source
      have hcut : cutSpace (msg.command ++ closing (some t)) = some (msg.command, ':' :: t) :=
        cutSpace_word hf.command.2
      rw [hcut] at h
      obtain ⟨source, after, command, params, hcolon | ⟨-, word, -, hword⟩, -, hmsg⟩ :=
        parseRest_some h
      · have hskip : skipSpaces (':' :: t) = ':' :: t := List.dropWhile_cons_of_neg (by decide)
        exact hcolon.1 (hskip ▸ rfl)
      · rw [hmsg, hword] at hsource
        cases hsource
  | cons w ws =>
    -- the first param is taken for the command, and one less is left
    obtain ⟨⟨hne, hspace⟩, hcolon⟩ := hwords w List.mem_cons_self
    have hws : ∀ v ∈ ws, Word v ∧ v.head? ≠ some ':' := fun v hv =>
      hwords v (List.mem_cons_of_mem _ hv)
    have hcut : cutSpace ([' '].intercalate (msg.command :: w :: ws) ++ closing last) =
        some (msg.command, [' '].intercalate (w :: ws) ++ closing last) := by
      rw [List.intercalate_cons_cons, List.append_assoc, List.append_assoc]
      exact cutSpace_word hf.command.2
    have hfirst : ([' '].intercalate (w :: ws) ++ closing last).head? = w.head? := by
      cases w with
      | nil => exact absurd rfl hne
      | cons c w => cases ws <;> rfl
    have hskip := skipSpaces_of_head (s := [' '].intercalate (w :: ws) ++ closing last)
      (hfirst ▸ fun hhead => hspace (List.mem_of_head? hhead))
    rw [hcut] at h
    dsimp only at h
    rw [hskip] at h
    obtain ⟨source, after, command, params, hafter, hpieces, hmsg⟩ := parseRest_some h
    rcases hafter with ⟨-, -, rfl⟩ | ⟨hhead, -⟩
    · have hall : ∀ v ∈ w :: ws, v ≠ [] ∧ ' ' ∉ v := by
        intro v hv
        rcases List.mem_cons.mp hv with rfl | hv
        exacts [⟨hne, hspace⟩, (hws v hv).1]
      rw [cutTrailing_words hspace hws, pieces_words hall] at hpieces
      rw [cutTrailing_words hspace hws, ← (List.cons.inj hpieces).2] at hmsg
      have hlength := congrArg List.length ((congrArg ClientLine.params hmsg).symm.trans hparams)
      simp only [List.length_append, List.length_cons] at hlength
      omega
    · exact hcolon (hfirst ▸ hhead)

theorem Formed.keep {msg : ClientLine} (hf : Formed upper msg) (p : Str → Bool) :
    Formed upper { msg with tags := msg.tags.filter p } :=
  { hf with tags := fun t ht => hf.tags t (List.mem_filter.mp ht).1 }

/-- The bouncer's rewriting of a line keeps its meaning, whatever tags are kept, just when
what stands after the tag block does not start with the mark of one. -/
theorem rewrite_keeps_meaning (hupper : Uppercases upper) {line : Str} {msg : ClientLine}
    (hmsg : parseLine upper line = some msg) :
    (parseLine upper (formatLine msg) = some msg ∧
      ∀ keep : Str → Bool, ∃ out, restrictTags upper line keep = some out ∧
        parseLine upper out =
          some { msg with tags := msg.tags.filter fun tag => keep (tagKey tag) }) ↔
      (bare line).head? ≠ some '@' := by
  have hf := formed_parseLine hupper hmsg
  obtain ⟨tags, hrest, -, hnone⟩ := parseLine_some hmsg
  have htags : msg.tags = tags := by
    obtain ⟨source, after, command, params, -, -, rfl⟩ := parseRest_some hrest
    rfl
  have hmarked := marked_iff hupper (head_bare line) hrest
  constructor
  · rintro ⟨hback, hkeep⟩ hhead
    obtain ⟨hsource, hmark⟩ := hmarked.mpr hhead
    by_cases hempty : msg.tags = []
    · exact parseLine_formatLine_marked hf hempty hsource hmark hback
    · -- with every tag dropped
      obtain ⟨out, hout, hparse⟩ := hkeep fun _ => false
      have hdropped : (msg.tags.filter fun _ => false) = [] := by simp
      have hlength : 0 < msg.tags.length := List.length_pos_iff.mpr hempty
      rw [restrictTags, hmsg, Option.map_some] at hout
      dsimp only at hout
      rw [hdropped, List.length_nil, if_neg (by omega)] at hout
      rw [hdropped, ← Option.some.inj hout] at hparse
      have hbare : Formed upper { msg with tags := [] } :=
        { hf with tags := fun t ht => (by cases ht) }
      exact parseLine_formatLine_marked hbare rfl hsource hmark hparse
  · intro hhead
    have hplain : msg.source = none → msg.command.head? ≠ some '@' := fun hsource hmark =>
      hhead (hmarked.mp ⟨hsource, hmark⟩)
    refine ⟨parseLine_formatLine hf fun _ => hplain, fun keep => ?_⟩
    have hkept := hf.keep fun tag => keep (tagKey tag)
    rw [restrictTags, hmsg, Option.map_some]
    dsimp only
    split
    · rename_i hsame
      refine ⟨line, rfl, ?_⟩
      rw [hmsg, List.Sublist.eq_of_length List.filter_sublist hsame.1]
    · exact ⟨_, rfl, parseLine_formatLine hkept fun _ => hplain⟩

end ReadBack

theorem toUpper_marks (c : Char) :
    c.toUpper.toUpper = c.toUpper ∧ (c.toUpper = ' ' → c = ' ') ∧
      ∀ m, m = ':' ∨ m = '@' → (c.toUpper = m ↔ c = m) := by
  have hascii : ∀ n : Fin 128, (Char.ofNat n).toUpper.toUpper = (Char.ofNat n).toUpper ∧
      ((Char.ofNat n).toUpper = ' ' → Char.ofNat n = ' ') ∧
        ((Char.ofNat n).toUpper = ':' ↔ Char.ofNat n = ':') ∧
          ((Char.ofNat n).toUpper = '@' ↔ Char.ofNat n = '@') := by decide +kernel
  rcases toUpper_eq c with h | h
  · rw [h]
    exact ⟨h, id, fun _ _ => Iff.rfl⟩
  · obtain ⟨hidem, hspace, hcolon, hat⟩ := hascii ⟨c.toNat, h⟩
    rw [Char.ofNat_toNat] at hidem hspace hcolon hat
    refine ⟨hidem, hspace, fun m hm => ?_⟩
    rcases hm with rfl | rfl
    exacts [hcolon, hat]

/-- Upper-casing the ASCII letters alone is an upper-casing. -/
theorem uppercases_ascii : Uppercases (List.map Char.toUpper) where
  idem s := by
    rw [List.map_map]
    exact List.map_congr_left fun c _ => (toUpper_marks c).1
  ne_nil s hs := by simpa using hs
  space s hs := by
    intro hmem
    obtain ⟨c, hc, hcs⟩ := List.mem_map.mp hmem
    exact hs ((toUpper_marks c).2.1 hcs ▸ hc)
  mark s m hm := by
    cases s with
    | nil => exact Iff.rfl
    | cons c s => simpa using (toUpper_marks c).2.2 m hm

/-- A tagged PRIVMSG. -/
theorem rewrite_keeps_meaning_privmsg :
    parseLine (List.map Char.toUpper) (formatLine
      ⟨["time=1".toList], some "a!b@c".toList, "PRIVMSG".toList, ["#x".toList, "hi there".toList], true⟩) =
      some ⟨["time=1".toList], some "a!b@c".toList, "PRIVMSG".toList, ["#x".toList, "hi there".toList], true⟩ :=
  ((@rewrite_keeps_meaning _ uppercases_ascii "@time=1 :a!b@c privmsg  #x :hi there".toList _
    (by decide)).mpr (by decide)).1

/-- A command after a space that starts with the mark of a tag block is read back as one. -/
theorem marked_command_lost :
    parseLine (List.map Char.toUpper) " @a b".toList =
        some ⟨[], none, "@A".toList, ["b".toList], false⟩ ∧
      parseLine (List.map Char.toUpper) (formatLine ⟨[], none, "@A".toList, ["b".toList], false⟩) ≠
        some ⟨[], none, "@A".toList, ["b".toList], false⟩ := by
  decide

end Lurker.Irc
