import Lurker.Irc.LineFormat

/-!
# A client's line on its way upstream

`parseClientLine` takes the tags and the source of a client's line away and keeps its
client-only tags; `rebuildLine` puts together what is sent to the network. The network reads
the command and the params that were dispatched on, unless the command comes to the front of
the rebuilt line and starts with the mark of a tag block. The bound on the tags counts code
units where the network counts bytes.
-/

namespace Lurker.Bouncer.ClientLine

open Irc

structure ParsedClientLine where
  command : Str
  params : List Str
  /-- The client-only tags as the client sent them, joined by `;` without the mark. -/
  clientTags : Option Str
deriving DecidableEq, Repr

def maxClientTagBytes : Nat := 4094

/-- `joined.length`: UTF-16 code units. -/
def utf16Length (s : Str) : Nat := (s.map fun c => if c.toNat < 0x10000 then 1 else 2).sum

/-- Bytes in UTF-8. -/
def utf8Length (s : Str) : Nat := (s.map Char.utf8Size).sum

/-- CR, LF and NUL. -/
def isBreak (c : Char) : Bool := c.toNat = 13 || c.toNat = 10 || c.toNat = 0

def stripBreaks (raw : Str) : Str := raw.filter fun c => !isBreak c

/-- `t.startsWith('+') && t.length > 1` -/
def isClientTag (t : Str) : Bool := t.head? = some '+' && 1 < t.length

def clientTagsOf (block : Str) : List Str := (block.splitOn ';').filter isClientTag

/-- The tags relayed of a block: all client-only ones, or none of too many. -/
def keptTags (block : Str) : Option Str :=
  let kept := clientTagsOf block
  let joined := [';'].intercalate kept
  if 0 < kept.length ∧ utf16Length joined ≤ maxClientTagBytes then some joined else none

/-- The tags kept and what stands after the tag block. None when the block has no end. -/
def afterTags (line : Str) : Option (Option Str × Str) :=
  if line.head? = some '@' then
    (cutSpace line).map fun cut => (keptTags cut.1.tail, skipSpaces cut.2)
  else some (none, skipSpaces line)

/-- What stands after the source. None when it has no end. -/
def afterPrefix (line : Str) : Option Str :=
  if line.head? = some ':' then (cutSpace line).map fun cut => skipSpaces cut.2 else some line

-- `toUpperCase` of the platform
variable (upper : Str → Str)

def parseCommand (clientTags : Option Str) (line : Str) : Option ParsedClientLine :=
  if line = [] then none
  else if line.head? = some ':' then none
  else
    let (head, trailing) := cutTrailing line
    match pieces ' ' head with
    | [] => none
    | command :: params => some ⟨upper command, params ++ trailing.toList, clientTags⟩

/-- Parse one line from a client. None when it has no command. -/
def parseClientLine (raw : Str) : Option ParsedClientLine :=
  match afterTags (stripBreaks raw) with
  | none => none
  | some (clientTags, rest) =>
    match afterPrefix rest with
    | none => none
    | some line => parseCommand upper clientTags line

def needsTrailing (last : Str) : Bool := last = [] || ' ' ∈ last || last.head? = some ':'

/-- Put a parsed line together for the network. -/
def rebuildLine (p : ParsedClientLine) : Str :=
  let block := match p.clientTags with
    | some tags => if tags = [] then [] else '@' :: tags ++ [' ']
    | none => []
  match p.params.getLast? with
  | none => block ++ p.command
  | some last =>
    block ++ [' '].intercalate
      (p.command :: p.params.dropLast ++ [if needsTrailing last then ':' :: last else last])

/-- A line as the network reads it. -/
structure Reading where
  tags : List Str
  source : Option Str
  command : Str
  params : List Str
deriving DecidableEq, Repr

/-- An optional tag block, an optional source, the command and the params. -/
def networkReads (line : Str) : Option Reading :=
  let s := skipSpaces line
  let tags := if s.head? = some '@' then pieces ';' (s.takeWhile (· ≠ ' ')).tail else []
  let s := dropMarked '@' s
  let source := if s.head? = some ':' then some (s.takeWhile (· ≠ ' ')).tail else none
  let s := dropMarked ':' s
  let command := s.takeWhile (· ≠ ' ')
  if command = [] then none
  else some ⟨tags, source, command, readParams none (s.dropWhile (· ≠ ' '))⟩

/-- The tag block of a line, with its mark and the space after it. -/
def tagBlock (line : Str) : Str :=
  if line.head? = some '@' then line.takeWhile (· ≠ ' ') ++ [' '] else []

/-- The client-only tags of a raw line. -/
def clientOnly (raw : Str) : List Str :=
  if (stripBreaks raw).head? = some '@' then
    clientTagsOf ((stripBreaks raw).takeWhile (· ≠ ' ')).tail
  else []

/-- The text of a raw line that the command is read from. -/
def commandText (raw : Str) : Option Str :=
  (afterTags (stripBreaks raw)).bind fun after => afterPrefix after.2

/-- The network reads what the bouncer read, and what it is sent fits and reads back. -/
structure Faithful (raw : Str) (p : ParsedClientLine) : Prop where
  reads : ∃ tags, networkReads (rebuildLine p) = some ⟨tags, none, p.command, p.params⟩ ∧
    (tags = clientOnly raw ∨ tags = [])
  fits : utf8Length (tagBlock (rebuildLine p)) ≤ 4096
  unbroken : ∀ c ∈ rebuildLine p, isBreak c = false
  back : parseClientLine upper (rebuildLine p) = some p

/-- Tags are relayed of a raw line: there are some, within the bound in code units. -/
def Tagged (raw : Str) : Prop :=
  0 < (clientOnly raw).length ∧
    utf16Length ([';'].intercalate (clientOnly raw)) ≤ maxClientTagBytes

instance (raw : Str) : Decidable (Tagged raw) := inferInstanceAs (Decidable (_ ∧ _))

/-- The lines that mean upstream what the bouncer read them as. -/
structure Sound (raw : Str) : Prop where
  /-- Tags that are relayed are within the bound in bytes too. -/
  bytes : Tagged raw → utf8Length ([';'].intercalate (clientOnly raw)) ≤ maxClientTagBytes
  /-- Without a tag block before it, the command has not the mark of one. -/
  unmarked : ¬ Tagged raw → ∀ text, commandText raw = some text → text.head? ≠ some '@'

/-- What is relied on of `toUpperCase`: as for any line, and no line break comes in. -/
structure UppercasesLine : Prop extends Uppercases upper where
  unbroken : ∀ s, (∀ c ∈ s, isBreak c = false) → ∀ c ∈ upper s, isBreak c = false

variable {upper}

/-- How a line that is accepted was taken apart. -/
theorem parseClientLine_some {raw : Str} {p : ParsedClientLine}
    (h : parseClientLine upper raw = some p) :
    ∃ tags rest text command params, afterTags (stripBreaks raw) = some (tags, rest) ∧
      afterPrefix rest = some text ∧ text.head? ≠ some ':' ∧
      pieces ' ' (cutTrailing text).1 = command :: params ∧
      p = ⟨upper command, params ++ (cutTrailing text).2.toList, tags⟩ := by
  unfold parseClientLine at h
  cases hafter : afterTags (stripBreaks raw) with
  | none => rw [hafter] at h; cases h
  | some after =>
    obtain ⟨tags, rest⟩ := after
    rw [hafter] at h
    dsimp only at h
    cases htext : afterPrefix rest with
    | none => rw [htext] at h; cases h
    | some text =>
      rw [htext] at h
      dsimp only [parseCommand] at h
      split at h
      · cases h
      · split at h
        · cases h
        · rename_i hcolon
          cases hpieces : pieces ' ' (cutTrailing text).1 with
          | nil => rw [hpieces] at h; cases h
          | cons command params =>
            rw [hpieces] at h
            exact ⟨tags, rest, text, command, params, rfl, htext, hcolon, hpieces,
              (Option.some.inj h).symm⟩

/-- The tags of an accepted line are the client-only ones within the bound, or none. -/
theorem afterTags_tags {raw : Str} {tags : Option Str} {rest : Str}
    (h : afterTags (stripBreaks raw) = some (tags, rest)) :
    (Tagged raw ∧ tags = some ([';'].intercalate (clientOnly raw))) ∨
      (¬ Tagged raw ∧ tags = none) := by
  unfold afterTags at h
  unfold Tagged clientOnly
  split at h
  · rename_i hmark
    obtain ⟨cut, hcut, heq⟩ := Option.map_eq_some_iff.mp h
    obtain ⟨block, after⟩ := cut
    rw [if_pos hmark, ← (cutSpace_some hcut).1]
    rw [← (Prod.mk.inj heq).1]
    dsimp only [keptTags]
    split
    · rename_i hkept
      exact Or.inl ⟨hkept, rfl⟩
    · rename_i hkept
      exact Or.inr ⟨hkept, rfl⟩
  · rename_i hmark
    rw [if_neg hmark]
    exact Or.inr ⟨fun hpos => absurd hpos.1 (lt_irrefl 0),
      (Prod.mk.inj (Option.some.inj h)).1.symm⟩

/-- A client-only tag is a word without a separator. -/
theorem mem_clientOnly {raw t : Str} (h : t ∈ clientOnly raw) :
    isClientTag t = true ∧ Word t ∧ ';' ∉ t ∧ t ⊆ stripBreaks raw := by
  unfold clientOnly at h
  split at h
  · obtain ⟨hmem, htag⟩ := List.mem_filter.mp h
    obtain ⟨hsep, hsub⟩ := Delimited.of_mem_splitOn hmem
    have hhead : t.head? = some '+' := of_decide_eq_true (Bool.and_eq_true_iff.mp htag).1
    refine ⟨htag, ⟨fun hnil => ?_, fun hspace => ?_⟩, hsep, fun c hc => ?_⟩
    · rw [hnil] at hhead
      cases hhead
    · exact space_not_mem_takeWhile (stripBreaks raw) (List.mem_of_mem_tail (hsub hspace))
    · exact (List.takeWhile_prefix _).subset (List.mem_of_mem_tail (hsub hc))
  · cases h

/-- A parsed line under a tag list, as the lines of the network are written. -/
def message (p : ParsedClientLine) (tags : List Str) : ClientLine :=
  ⟨tags, none, p.command, p.params, (p.params.getLast?.map needsTrailing).getD false⟩

/-- A trailing param that needs no colon is one param more. -/
theorem message_params {words : List Str} {last : Option Str}
    (hwords : ∀ w ∈ words, Word w ∧ w.head? ≠ some ':') :
    ∃ (words' : List Str) (last' : Option Str), words ++ last.toList = words' ++ last'.toList ∧
      (((words ++ last.toList).getLast?.map needsTrailing).getD false) = last'.isSome ∧
      ∀ w ∈ words', Word w ∧ w.head? ≠ some ':' := by
  have hplain {w : Str} (hw : Word w ∧ w.head? ≠ some ':') : needsTrailing w = false := by
    unfold needsTrailing
    simp [hw.1.1, hw.1.2, hw.2]
  cases last with
  | none =>
    refine ⟨words, none, rfl, ?_, hwords⟩
    rw [Option.toList_none, List.append_nil]
    cases hlast : words.getLast? with
    | none => rfl
    | some w =>
      have hw := hplain (hwords w (List.mem_of_getLast? hlast))
      simpa using hw
  | some t =>
    have hlast : (words ++ [t]).getLast? = some t := List.getLast?_concat
    cases ht : needsTrailing t with
    | true => exact ⟨words, some t, rfl, by simp [ht], hwords⟩
    | false =>
      refine ⟨words ++ [t], none, by simp, by simp [ht], fun w hw => ?_⟩
      rcases List.mem_append.mp hw with hw | hw
      · exact hwords w hw
      · rw [List.mem_singleton.mp hw]
        unfold needsTrailing at ht
        simp only [Bool.or_eq_false_iff, decide_eq_false_iff_not] at ht
        exact ⟨⟨ht.1.1, ht.1.2⟩, ht.2⟩

/-- The tags that are relayed of a raw line. -/
def relayedTags (raw : Str) : List Str := if Tagged raw then clientOnly raw else []

theorem relayedTags_of_mem {raw t : Str} (h : t ∈ relayedTags raw) : t ∈ clientOnly raw := by
  unfold relayedTags at h
  split at h
  · exact h
  · cases h

theorem head_afterTags {line rest : Str} {tags : Option Str}
    (h : afterTags line = some (tags, rest)) : rest.head? ≠ some ' ' := by
  unfold afterTags at h
  split at h
  · obtain ⟨cut, -, heq⟩ := Option.map_eq_some_iff.mp h
    rw [← (Prod.mk.inj heq).2]
    exact head_skipSpaces _
  · rw [← (Prod.mk.inj (Option.some.inj h)).2]
    exact head_skipSpaces _

theorem head_afterPrefix {rest text : Str} (hrest : rest.head? ≠ some ' ')
    (h : afterPrefix rest = some text) : text.head? ≠ some ' ' := by
  unfold afterPrefix at h
  split at h
  · obtain ⟨cut, -, rfl⟩ := Option.map_eq_some_iff.mp h
    exact head_skipSpaces _
  · rwa [← Option.some.inj h]

/-- What an accepted line is like: its shape, its tags and where its command is from. -/
theorem parseClientLine_spec (hupper : Uppercases upper) {raw : Str} {p : ParsedClientLine}
    (h : parseClientLine upper raw = some p) :
    Formed upper (message p (relayedTags raw)) ∧
      p.clientTags = (if relayedTags raw = [] then none
        else some ([';'].intercalate (relayedTags raw))) ∧
      ∃ text, commandText raw = some text ∧
        (p.command.head? = some '@' ↔ text.head? = some '@') := by
  obtain ⟨tags, rest, text, command, words, hafter, htext, hcolon, hpieces, rfl⟩ :=
    parseClientLine_some h
  have hspace := head_afterPrefix (head_afterTags hafter) htext
  have hfirst := first_piece hspace hpieces
  have hwords : ∀ w ∈ words, Word w ∧ w.head? ≠ some ':' := fun w hw => by
    obtain ⟨hne, hsep, -⟩ := of_mem_pieces (hpieces ▸ List.mem_cons_of_mem _ hw : w ∈ pieces ' ' _)
    exact ⟨⟨hne, hsep⟩, (colon_pieces text hpieces).1 w hw⟩
  obtain ⟨hne, hsep, -⟩ := of_mem_pieces (hpieces ▸ List.mem_cons_self : command ∈ pieces ' ' _)
  refine ⟨?_, ?_, text, by rw [commandText, hafter]; exact htext, ?_⟩
  · exact {
      tags := fun t ht => ⟨(mem_clientOnly (relayedTags_of_mem ht)).2.1,
        (mem_clientOnly (relayedTags_of_mem ht)).2.2.1⟩
      source := fun s hs => by cases hs
      command := ⟨hupper.ne_nil _ hne, hupper.space _ hsep⟩
      upper := hupper.idem command
      colon := fun _ hhead => hcolon (hfirst ▸ (hupper.mark _ _ (Or.inl rfl)).mp hhead)
      params := message_params hwords }
  · unfold relayedTags
    rcases afterTags_tags hafter with ⟨htagged, rfl⟩ | ⟨htagged, rfl⟩
    · rw [if_pos htagged, if_neg (List.length_pos_iff.mp htagged.1)]
    · rw [if_neg htagged]
      rfl
  · rw [hupper.mark _ _ (Or.inr rfl), hfirst]

/-- The colon of the last param is the one a serialized line has. -/
theorem formatParams_eq (params : List Str) :
    formatParams ((params.getLast?.map needsTrailing).getD false) params =
      match params.getLast? with
      | none => []
      | some last => params.dropLast ++ [if needsTrailing last then ':' :: last else last] := by
  induction params with
  | nil => rfl
  | cons w ws ih =>
    cases ws with
    | nil =>
      change [if needsTrailing w || w = [] || ' ' ∈ w || w.head? = some ':' then ':' :: w else w] =
        [if needsTrailing w then ':' :: w else w]
      by_cases hw : needsTrailing w = true
      · rw [if_pos (by simp [hw]), if_pos hw]
      · have hplain : ¬ (needsTrailing w || w = [] || ' ' ∈ w || w.head? = some ':') = true := by
          unfold needsTrailing at hw ⊢
          grind
        rw [if_neg hplain, if_neg hw]
    | cons v ws =>
      rw [List.getLast?_cons_cons, formatParams, ih]
      cases hlast : (v :: ws).getLast? with
      | none => simp at hlast
      | some last => rfl

/-- The rebuilt line is the parsed one serialized under the tags that are relayed. -/
theorem rebuildLine_eq {p : ParsedClientLine} {tags : List Str}
    (hwords : ∀ t ∈ tags, Word t)
    (htags : p.clientTags = if tags = [] then none else some ([';'].intercalate tags)) :
    rebuildLine p = formatLine (message p tags) := by
  have hbody : body (message p tags) = match p.params.getLast? with
      | none => p.command
      | some last => [' '].intercalate
          (p.command :: p.params.dropLast ++ [if needsTrailing last then ':' :: last else last]) := by
    unfold body message
    dsimp only
    rw [formatParams_eq]
    cases p.params.getLast? with
    | none => exact List.intercalate_singleton ..
    | some last => rfl
  have hsourced : sourced (message p tags) = body (message p tags) := rfl
  by_cases hnone : tags = []
  · rw [formatLine_eq, if_pos (show (message p tags).tags = [] from hnone), hsourced, hbody,
      rebuildLine, htags, if_pos hnone]
    cases p.params.getLast? <;> rfl
  · have hjoined : [';'].intercalate tags ≠ [] := by
      cases tags with
      | nil => exact absurd rfl hnone
      | cons t ts =>
        have ht := (hwords t List.mem_cons_self).1
        cases ts with
        | nil => rwa [List.intercalate_singleton]
        | cons u ts =>
          rw [List.intercalate_cons_cons]
          simp [ht]
    rw [formatLine_eq, if_neg (show (message p tags).tags ≠ [] from hnone), hsourced, hbody,
      rebuildLine, htags, if_neg hnone]
    dsimp only [message]
    rw [if_neg hjoined]
    cases p.params.getLast? <;> simp

/-- How the rebuilt line stands: a tag block, if tags are relayed, and the body. -/
theorem rebuildLine_form {p : ParsedClientLine} {tags : List Str}
    (hwords : ∀ t ∈ tags, Word t)
    (htags : p.clientTags = if tags = [] then none else some ([';'].intercalate tags)) :
    rebuildLine p = if tags = [] then body (message p tags)
      else '@' :: [';'].intercalate tags ++ ' ' :: body (message p tags) := by
  rw [rebuildLine_eq hwords htags, formatLine_eq]
  rfl

/-- The body of a shape is read by the network as its command and params. -/
theorem readsBody {msg : ClientLine} (hf : Formed upper msg) :
    (body msg).takeWhile (· ≠ ' ') = msg.command ∧
      readParams none ((body msg).dropWhile (· ≠ ' ')) = msg.params := by
  obtain ⟨words, last, hparams, -, -, hbody, hcut, hpieces⟩ := parts_body hf
  have hhead := head_body hf
  have hne : (body msg).takeWhile (· ≠ ' ') ≠ [] := by
    cases hb : body msg with
    | nil =>
      rw [hb] at hhead
      exact absurd (List.head?_eq_none_iff.mp hhead.symm) hf.command.1
    | cons c rest =>
      rw [hb] at hhead
      have hc : c ≠ ' ' := fun heq =>
        hf.command.2 (List.mem_of_head? (heq ▸ hhead.symm))
      rw [List.takeWhile_cons_of_pos (by simpa using hc)]
      exact List.cons_ne_nil _ _
  obtain ⟨ps, hps, hread⟩ := pieces_command hne
  rw [hcut, hpieces] at hps
  rw [hcut] at hread
  obtain ⟨hcommand, rfl⟩ := List.cons.inj hps
  exact ⟨hcommand.symm, hread.symm.trans hparams.symm⟩

theorem split_word {w rest : Str} (hw : ' ' ∉ w) :
    (w ++ ' ' :: rest).takeWhile (· ≠ ' ') = w ∧
      (w ++ ' ' :: rest).dropWhile (· ≠ ' ') = ' ' :: rest := by
  have hpos : ∀ c ∈ w, decide (c ≠ ' ') = true := fun c hc =>
    decide_eq_true fun heq => hw (heq ▸ hc)
  rw [List.takeWhile_append_of_pos hpos, List.dropWhile_append_of_pos hpos]
  simp

section Rebuilt

variable {p : ParsedClientLine} {tags : List Str} (hf : Formed upper (message p tags))
include hf

theorem skipSpaces_body : skipSpaces (body (message p tags)) = body (message p tags) := by
  refine skipSpaces_of_head fun h => ?_
  rw [head_body hf] at h
  exact hf.command.2 (List.mem_of_head? h)

theorem head_body_ne_colon : (body (message p tags)).head? ≠ some ':' := by
  rw [head_body hf]
  exact hf.colon rfl

/-- The joined tags are one word. -/
theorem space_not_mem_block : ' ' ∉ '@' :: [';'].intercalate tags := by
  intro hmem
  rcases List.mem_cons.mp hmem with h | h
  · cases h
  · rcases mem_intercalate h with h | ⟨t, ht, h⟩
    · cases h
    · exact (hf.tags t ht).1.2 h

/-- Behind a tag block, or with no mark in front, the network reads what was dispatched on. -/
theorem networkReads_rebuilt
    (htags : p.clientTags = if tags = [] then none else some ([';'].intercalate tags))
    (hmark : tags = [] → p.command.head? ≠ some '@') :
    networkReads (rebuildLine p) = some ⟨tags, none, p.command, p.params⟩ := by
  obtain ⟨hcommand, hparams⟩ := readsBody hf
  have hskip := skipSpaces_body hf
  have hcolon := head_body_ne_colon hf
  have hdrop : dropMarked ':' (body (message p tags)) = body (message p tags) := if_neg hcolon
  have hne : (message p tags).command ≠ [] := hf.command.1
  rw [@rebuildLine_form p tags (fun t ht => (hf.tags t ht).1) htags]
  unfold networkReads
  by_cases hnone : tags = []
  · have hat : (body (message p tags)).head? ≠ some '@' := by
      rw [head_body hf]
      exact hmark hnone
    have hkeep : dropMarked '@' (body (message p tags)) = body (message p tags) := if_neg hat
    rw [if_pos hnone]
    dsimp only
    rw [hskip, if_neg hat, hkeep, if_neg hcolon, hdrop, hcommand, if_neg hne, hparams, hnone]
    rfl
  · obtain ⟨htake, hrest⟩ := @split_word _ (body (message p tags)) (space_not_mem_block hf)
    have hfront : skipSpaces ('@' :: [';'].intercalate tags ++ ' ' :: body (message p tags)) =
        '@' :: [';'].intercalate tags ++ ' ' :: body (message p tags) :=
      skipSpaces_of_head (by simp)
    have hat : ('@' :: [';'].intercalate tags ++ ' ' :: body (message p tags)).head? = some '@' := rfl
    have hkeep : dropMarked '@' ('@' :: [';'].intercalate tags ++ ' ' :: body (message p tags)) =
        body (message p tags) := by
      rw [dropMarked, if_pos hat, hrest]
      exact hskip
    have hpieces : pieces ';' ([';'].intercalate tags) = tags :=
      pieces_words fun t ht => ⟨(hf.tags t ht).1.1, (hf.tags t ht).2⟩
    rw [if_neg hnone]
    dsimp only
    rw [hfront, if_pos hat, htake, hkeep, if_neg hcolon, hdrop, hcommand, if_neg hne, hparams,
      List.tail_cons, hpieces]
    rfl

/-- The rebuilt line is parsed to what it was built from. -/
theorem parseClientLine_rebuilt
    (htags : p.clientTags = if tags = [] then none else some ([';'].intercalate tags))
    (hclient : ∀ t ∈ tags, isClientTag t = true)
    (hfit : utf16Length ([';'].intercalate tags) ≤ maxClientTagBytes)
    (hmark : tags = [] → p.command.head? ≠ some '@')
    (hunbroken : ∀ c ∈ rebuildLine p, isBreak c = false) :
    parseClientLine upper (rebuildLine p) = some p := by
  have hskip := skipSpaces_body hf
  have hcolon := head_body_ne_colon hf
  obtain ⟨words, last, hparams, -, -, hbody, hcut, hpieces⟩ := parts_body hf
  have hstrip : stripBreaks (rebuildLine p) = rebuildLine p :=
    List.filter_eq_self.mpr fun c hc => by rw [hunbroken c hc]; rfl
  have hne : body (message p tags) ≠ [] := fun hnil => by
    have hhead := head_body hf
    rw [hnil] at hhead
    exact hf.command.1 (List.head?_eq_none_iff.mp hhead.symm)
  have hcommand : parseCommand upper p.clientTags (body (message p tags)) = some p := by
    unfold parseCommand
    rw [if_neg hne, if_neg hcolon, hcut]
    dsimp only
    rw [hpieces]
    dsimp only
    rw [hf.upper, ← hparams]
    rfl
  have hafter : afterTags (rebuildLine p) = some (p.clientTags, body (message p tags)) := by
    rw [@rebuildLine_form p tags (fun t ht => (hf.tags t ht).1) htags, htags]
    unfold afterTags
    by_cases hnone : tags = []
    · have hat : (body (message p tags)).head? ≠ some '@' := by
        rw [head_body hf]
        exact hmark hnone
      rw [if_pos hnone, if_pos hnone, if_neg hat, hskip]
    · have hkept : keptTags ([';'].intercalate tags) = some ([';'].intercalate tags) := by
        have hsep : ∀ t ∈ tags, ';' ∉ t := fun t ht => (hf.tags t ht).2
        have hall : clientTagsOf ([';'].intercalate tags) = tags := by
          rw [clientTagsOf, List.splitOn_intercalate ';' hsep hnone]
          exact List.filter_eq_self.mpr hclient
        unfold keptTags
        dsimp only
        rw [hall]
        exact if_pos ⟨List.length_pos_iff.mpr hnone, hfit⟩
      have hat : ('@' :: [';'].intercalate tags ++ ' ' :: body (message p tags)).head? = some '@' :=
        rfl
      rw [if_neg hnone, if_neg hnone, if_pos hat, cutSpace_word (space_not_mem_block hf)]
      dsimp only [Option.map_some, List.tail_cons]
      rw [hkept, hskip]
  unfold parseClientLine
  rw [hstrip, hafter]
  dsimp only
  rw [afterPrefix, if_neg hcolon]
  exact hcommand

/-- The tag block of the rebuilt line is the joined tags, the mark and the space. -/
theorem tagBlock_rebuilt
    (htags : p.clientTags = if tags = [] then none else some ([';'].intercalate tags))
    (hmark : tags = [] → p.command.head? ≠ some '@') :
    utf8Length (tagBlock (rebuildLine p)) =
      if tags = [] then 0 else utf8Length ([';'].intercalate tags) + 2 := by
  rw [@rebuildLine_form p tags (fun t ht => (hf.tags t ht).1) htags]
  unfold tagBlock
  by_cases hnone : tags = []
  · have hat : (body (message p tags)).head? ≠ some '@' := by
      rw [head_body hf]
      exact hmark hnone
    rw [if_pos hnone, if_neg hat, if_pos hnone]
    rfl
  · have hat : ('@' :: [';'].intercalate tags ++ ' ' :: body (message p tags)).head? = some '@' := rfl
    have hone : Char.utf8Size '@' = 1 ∧ Char.utf8Size ' ' = 1 := by decide
    rw [if_neg hnone, if_pos hat, (split_word (space_not_mem_block hf)).1, if_neg hnone, utf8Length]
    simp only [List.cons_append, List.map_cons, List.map_append, List.sum_cons, List.sum_append,
      List.map_nil, List.sum_nil, hone, utf8Length]
    omega

end Rebuilt

theorem length_readParams (s : Str) :
    (∀ w, ∀ v ∈ readParams (some w) s, v.length ≤ w.length + s.length) ∧
      ∀ v ∈ readParams none s, v.length ≤ s.length := by
  induction s with
  | nil => exact ⟨fun w v hv => by simp_all [readParams], fun v hv => by cases hv⟩
  | cons c rest ih =>
    obtain ⟨ihWord, ihBetween⟩ := ih
    constructor
    · intro w v hv
      rw [readParams] at hv
      split at hv
      · rcases List.mem_cons.mp hv with rfl | hv
        · exact Nat.le_add_right ..
        · have := ihBetween v hv
          rw [List.length_cons]
          omega
      · have := ihWord _ v hv
        rw [List.length_append, List.length_singleton] at this
        rw [List.length_cons]
        omega
    · intro v hv
      rw [readParams] at hv
      split at hv
      · exact (ihBetween v hv).trans (Nat.le_succ _)
      · split at hv
        · rw [List.mem_singleton.mp hv]
          exact Nat.le_succ _
        · have := ihWord _ v hv
          rw [List.length_singleton] at this
          rw [List.length_cons]
          omega

/-- Words and a trailing param read as a command and its params. -/
theorem reads_words {w : Str} {ws : List Str} {last : Option Str}
    (hwords : ∀ v ∈ w :: ws, Word v ∧ v.head? ≠ some ':') :
    ([' '].intercalate (w :: ws) ++ closing last).head? = w.head? ∧
      readParams none (([' '].intercalate (w :: ws) ++ closing last).dropWhile (· ≠ ' ')) =
        ws ++ last.toList := by
  have hws : ∀ v ∈ ws, Word v ∧ v.head? ≠ some ':' := fun v hv =>
    hwords v (List.mem_cons_of_mem _ hv)
  obtain ⟨hword, hcolon⟩ := hwords w List.mem_cons_self
  have hf : Formed id ⟨[], none, w, ws ++ last.toList, last.isSome⟩ :=
    { tags := fun t ht => by cases ht
      source := fun s hs => by cases hs
      command := hword
      upper := rfl
      colon := fun _ => hcolon
      params := ⟨ws, last, rfl, rfl, hws⟩ }
  have hbody : body ⟨[], none, w, ws ++ last.toList, last.isSome⟩ =
      [' '].intercalate (w :: ws) ++ closing last := by
    rw [body, formatParams_words hws, intercalate_closing]
  exact hbody ▸ ⟨head_body hf, (readsBody hf).2⟩

/-- What stands after a source in front of it is shorter, so no param is as long. -/
theorem readParams_after_source {t : Str}
    (hcommand : (skipSpaces ((':' :: t).dropWhile (· ≠ ' '))).takeWhile (· ≠ ' ') ≠ []) :
    readParams none ((skipSpaces ((':' :: t).dropWhile (· ≠ ' '))).dropWhile (· ≠ ' ')) ≠ [t] := by
  intro heq
  set s := skipSpaces ((':' :: t).dropWhile (· ≠ ' ')) with hs
  have hle : s.length ≤ t.length := by
    have hcolon : (':' :: t).dropWhile (· ≠ ' ') = t.dropWhile (· ≠ ' ') := rfl
    rw [hs, hcolon]
    exact (List.dropWhile_suffix _).length_le.trans (List.dropWhile_suffix _).length_le
  have hsplit := congrArg List.length (List.takeWhile_append_dropWhile (p := (· ≠ ' ')) (l := s))
  rw [List.length_append] at hsplit
  have hpos := List.length_pos_iff.mpr hcommand
  have hlong := (length_readParams (s.dropWhile (· ≠ ' '))).2 t (heq ▸ List.mem_singleton_self t)
  omega

/-- In front of the line a command with the mark is read as a tag block, and the params that
are read are not those that were dispatched on. -/
theorem networkReads_marked {p : ParsedClientLine} (hf : Formed upper (message p []))
    (hmark : p.command.head? = some '@') {r : Reading}
    (hr : networkReads (body (message p [])) = some r) : r.params ≠ p.params := by
  obtain ⟨words, last, hparams, -, hwords, hbody, -, -⟩ := parts_body hf
  have hskip := skipSpaces_body hf
  have hat : (body (message p [])).head? = some '@' := by
    rw [head_body hf]
    exact hmark
  have hspace : ' ' ∉ p.command := hf.command.2
  have hdrop : dropMarked '@' (body (message p [])) =
      skipSpaces ((body (message p [])).dropWhile (· ≠ ' ')) := if_pos hat
  unfold networkReads at hr
  dsimp only at hr
  rw [hskip, hdrop] at hr
  change p.params = words ++ last.toList at hparams
  change body (message p []) = [' '].intercalate (p.command :: words) ++ closing last at hbody
  split at hr
  · cases hr
  · rename_i hcommand
    rw [← Option.some.inj hr, hparams]
    dsimp only
    cases words with
    | cons w ws =>
      -- the first param is taken for the command, and one less is left
      obtain ⟨hhead, hread⟩ := @reads_words w ws last hwords
      obtain ⟨hword, hcolon⟩ := hwords w List.mem_cons_self
      have hrest : skipSpaces ((body (message p [])).dropWhile (· ≠ ' ')) =
          [' '].intercalate (w :: ws) ++ closing last := by
        rw [hbody, List.intercalate_cons_cons, List.append_assoc, List.append_assoc,
          List.singleton_append, (split_word hspace).2]
        exact skipSpaces_of_head (hhead ▸ fun h => hword.2 (List.mem_of_head? h))
      have hkeep : dropMarked ':' ([' '].intercalate (w :: ws) ++ closing last) =
          [' '].intercalate (w :: ws) ++ closing last := if_neg (hhead ▸ hcolon)
      rw [hrest, hkeep, hread]
      intro heq
      have hlength := congrArg List.length heq
      simp only [List.length_append, List.length_cons] at hlength
      omega
    | nil =>
      rw [List.intercalate_singleton] at hbody
      cases last with
      | none =>
        -- nothing is left for a command
        refine absurd ?_ hcommand
        rw [hbody, closing, Option.map_none, Option.getD_none, List.append_nil]
        have hall : p.command.dropWhile (· ≠ ' ') = [] :=
          List.dropWhile_eq_nil_iff.mpr fun c hc => decide_eq_true fun heq => hspace (heq ▸ hc)
        rw [hall]
        rfl
      | some t =>
        -- the trailing param is taken for the source
        have hrest : skipSpaces ((body (message p [])).dropWhile (· ≠ ' ')) = ':' :: t := by
          rw [hbody]
          exact congrArg skipSpaces (split_word hspace).2
        have hsource : dropMarked ':' (':' :: t) = skipSpaces ((':' :: t).dropWhile (· ≠ ' ')) := rfl
        rw [hrest, hsource] at hcommand ⊢
        exact readParams_after_source hcommand

theorem cutTrailing_subset (s : Str) :
    (cutTrailing s).1 ⊆ s ∧ ∀ t, (cutTrailing s).2 = some t → t ⊆ s := by
  induction s with
  | nil => exact ⟨List.Subset.refl _, fun t ht => by cases ht⟩
  | cons c rest ih =>
    rw [cutTrailing]
    split
    · refine ⟨List.nil_subset _, fun t ht => ?_⟩
      rw [← Option.some.inj ht]
      exact fun d hd => List.mem_cons_of_mem _ (List.mem_of_mem_tail hd)
    · refine ⟨fun d hd => ?_, fun t ht => List.subset_cons_of_subset _ (ih.2 t ht)⟩
      rcases List.mem_cons.mp hd with rfl | hd
      · exact List.mem_cons_self
      · exact List.mem_cons_of_mem _ (ih.1 hd)

theorem afterTags_subset {line rest : Str} {tags : Option Str}
    (h : afterTags line = some (tags, rest)) : rest ⊆ line := by
  unfold afterTags at h
  split at h
  · obtain ⟨cut, hcut, heq⟩ := Option.map_eq_some_iff.mp h
    rw [← (Prod.mk.inj heq).2, (cutSpace_some hcut).2]
    exact fun c hc => (List.dropWhile_suffix _).subset
      (List.mem_of_mem_tail ((List.dropWhile_suffix _).subset hc))
  · rw [← (Prod.mk.inj (Option.some.inj h)).2]
    exact (List.dropWhile_suffix _).subset

theorem afterPrefix_subset {rest text : Str} (h : afterPrefix rest = some text) : text ⊆ rest := by
  unfold afterPrefix at h
  split at h
  · obtain ⟨cut, hcut, rfl⟩ := Option.map_eq_some_iff.mp h
    rw [(cutSpace_some hcut).2]
    exact fun c hc => (List.dropWhile_suffix _).subset
      (List.mem_of_mem_tail ((List.dropWhile_suffix _).subset hc))
  · rw [← Option.some.inj h]
    exact List.Subset.refl _

/-- Whatever is put together of an accepted line has no line break. -/
theorem rebuildLine_unbroken (hupper : UppercasesLine upper) {raw : Str} {p : ParsedClientLine}
    (h : parseClientLine upper raw = some p) : ∀ c ∈ rebuildLine p, isBreak c = false := by
  have htags := (parseClientLine_spec hupper.toUppercases h).2.1
  obtain ⟨tags, rest, text, command, words, hafter, htext, -, hpieces, rfl⟩ :=
    parseClientLine_some h
  have hraw {c : Char} (hc : c ∈ stripBreaks raw) : isBreak c = false := by
    simpa using (List.mem_filter.mp hc).2
  have hsub {c : Char} (hc : c ∈ text) : isBreak c = false :=
    hraw (afterTags_subset hafter (afterPrefix_subset htext hc))
  have hpiece {w : Str} (hw : w ∈ command :: words) {c : Char} (hc : c ∈ w) : isBreak c = false :=
    hsub ((cutTrailing_subset text).1 ((of_mem_pieces (hpieces ▸ hw : w ∈ pieces ' ' _)).2.2 hc))
  have hparam {w : Str} (hw : w ∈ words ++ (cutTrailing text).2.toList) {c : Char} (hc : c ∈ w) :
      isBreak c = false := by
    rcases List.mem_append.mp hw with hw | hw
    · exact hpiece (List.mem_cons_of_mem _ hw) hc
    · exact hsub ((cutTrailing_subset text).2 w (Option.mem_toList.mp hw) hc)
  have hcommand : ∀ c ∈ upper command, isBreak c = false :=
    hupper.unbroken _ fun c hc => hpiece List.mem_cons_self hc
  have hjoined : ∀ joined, tags = some joined → ∀ c ∈ joined, isBreak c = false := by
    intro joined hsome c hc
    dsimp only at htags
    rw [hsome] at htags
    split at htags
    · cases htags
    · rw [Option.some.inj htags] at hc
      rcases mem_intercalate hc with rfl | ⟨t, ht, hc⟩
      · decide
      · exact hraw ((mem_clientOnly (relayedTags_of_mem ht)).2.2.2 hc)
  have hblock : ∀ c ∈ (match tags with
      | some tags => if tags = [] then [] else '@' :: tags ++ [' ']
      | none => ([] : Str)), isBreak c = false := by
    cases tags with
    | none => exact fun c hc => by cases hc
    | some joined =>
      intro c hc
      dsimp only at hc
      split at hc
      · cases hc
      · simp only [List.cons_append, List.mem_cons, List.mem_append, List.not_mem_nil,
          or_false] at hc
        rcases hc with rfl | hc | rfl
        · decide
        · exact hjoined joined rfl c hc
        · decide
  intro c hc
  unfold rebuildLine at hc
  dsimp only at hc
  split at hc
  · exact (List.mem_append.mp hc).elim (hblock c) (hcommand c)
  · rename_i last hlast
    rcases List.mem_append.mp hc with hc | hc
    · exact hblock c hc
    · rcases mem_intercalate hc with rfl | ⟨w, hw, hc⟩
      · decide
      · rcases List.mem_cons.mp hw with rfl | hw
        · exact hcommand c hc
        · rcases List.mem_append.mp hw with hw | hw
          · exact hparam (List.dropLast_subset _ hw) hc
          · rw [List.mem_singleton.mp hw] at hc
            have hmem := List.mem_of_getLast? hlast
            split at hc
            · rcases List.mem_cons.mp hc with rfl | hc
              · decide
              · exact hparam hmem hc
            · exact hparam hmem hc

/-- A client's line means upstream what it was read as just when its tags, if relayed, fit in
bytes, and a command with the mark of a tag block stands behind one. -/
theorem relayed_faithfully_iff (hupper : UppercasesLine upper) {raw : Str} {p : ParsedClientLine}
    (h : parseClientLine upper raw = some p) : Faithful upper raw p ↔ Sound raw := by
  obtain ⟨hf, htags, text, htext, hhead⟩ := parseClientLine_spec hupper.toUppercases h
  have hunbroken := rebuildLine_unbroken hupper h
  by_cases htagged : Tagged raw
  · have hrelayed : relayedTags raw = clientOnly raw := if_pos htagged
    have hne : clientOnly raw ≠ [] := List.length_pos_iff.mp htagged.1
    rw [hrelayed] at hf htags
    have hblock := tagBlock_rebuilt hf htags fun hnil => absurd hnil hne
    rw [if_neg hne] at hblock
    have hmax : maxClientTagBytes = 4094 := rfl
    constructor
    · intro hfaithful
      have hfits := hfaithful.fits
      exact ⟨fun _ => by omega, fun hno => absurd htagged hno⟩
    · intro hsound
      have hbytes := hsound.bytes htagged
      exact {
        reads := ⟨_, networkReads_rebuilt hf htags fun hnil => absurd hnil hne, Or.inl rfl⟩
        fits := by omega
        unbroken := hunbroken
        back := parseClientLine_rebuilt hf htags (fun t ht => (mem_clientOnly ht).1) htagged.2
          (fun hnil => absurd hnil hne) hunbroken }
  · have hrelayed : relayedTags raw = [] := if_neg htagged
    rw [hrelayed] at hf htags
    constructor
    · intro hfaithful
      refine ⟨fun h => absurd h htagged, fun _ other hother hmark => ?_⟩
      rw [← Option.some.inj (htext.symm.trans hother), ← hhead] at hmark
      obtain ⟨tags, hreads, -⟩ := hfaithful.reads
      rw [@rebuildLine_form p [] (fun t ht => by cases ht) htags, if_pos rfl] at hreads
      exact networkReads_marked hf hmark hreads rfl
    · intro hsound
      have hmark : ([] : List Str) = [] → p.command.head? ≠ some '@' := fun _ hat =>
        hsound.unmarked htagged text htext (hhead.mp hat)
      exact {
        reads := ⟨[], networkReads_rebuilt hf htags hmark, Or.inr rfl⟩
        fits := by rw [tagBlock_rebuilt hf htags hmark]; decide
        unbroken := hunbroken
        back := parseClientLine_rebuilt hf htags (fun t ht => by cases ht) (by decide) hmark
          hunbroken }

/-- What goes upstream of a parsed line: its tags only where the network speaks them. -/
def relayRaw (supportsMessageTags : Bool) (p : ParsedClientLine) : Str :=
  rebuildLine (if p.clientTags.isSome && !supportsMessageTags then { p with clientTags := none } else p)

/-- A network without tags is sent none, and reads the command and the params dispatched on,
where the command has not the mark of a tag block. -/
theorem relayRaw_untagged (hupper : UppercasesLine upper) {raw : Str} {p : ParsedClientLine}
    (h : parseClientLine upper raw = some p) (hmark : p.command.head? ≠ some '@') :
    networkReads (relayRaw false p) = some ⟨[], none, p.command, p.params⟩ := by
  obtain ⟨hf, -, -⟩ := parseClientLine_spec hupper.toUppercases h
  have hbare : Formed upper (message { p with clientTags := none } []) :=
    { hf with tags := fun t ht => by cases ht }
  have hsent : relayRaw false p = rebuildLine { p with clientTags := none } := by
    unfold relayRaw
    obtain ⟨command, params, tags⟩ := p
    cases tags <;> rfl
  rw [hsent]
  exact networkReads_rebuilt hbare rfl fun _ => hmark

theorem uppercasesLine_ascii : UppercasesLine (List.map Char.toUpper) where
  toUppercases := uppercases_ascii
  unbroken s hs c hc := by
    obtain ⟨d, hd, rfl⟩ := List.mem_map.mp hc
    have hascii : ∀ n : Fin 128, isBreak (Char.ofNat n).toUpper = isBreak (Char.ofNat n) := by
      decide +kernel
    rcases toUpper_eq d with hsame | hlt
    · rw [hsame]
      exact hs d hd
    · have hbreak := hascii ⟨d.toNat, hlt⟩
      rw [Char.ofNat_toNat] at hbreak
      exact hbreak.trans (hs d hd)

/-- A typing notice. -/
theorem relayed_faithfully_typing :
    Faithful (List.map Char.toUpper) "@+typing=active;time=1 tagmsg #x".toList
      ⟨"TAGMSG".toList, ["#x".toList], some "+typing=active".toList⟩ :=
  (relayed_faithfully_iff uppercasesLine_ascii (by decide)).mpr
    ⟨fun _ => by decide, fun hno => absurd (by decide) hno⟩

/-- Behind a space a command with the mark of a tag block is relayed, and the network reads
the param behind it as the command. -/
theorem marked_command_executed :
    parseClientLine (List.map Char.toUpper) " @x QUIT :bye".toList =
        some ⟨"@X".toList, ["QUIT".toList, "bye".toList], none⟩ ∧
      networkReads (rebuildLine ⟨"@X".toList, ["QUIT".toList, "bye".toList], none⟩) =
        some ⟨["X".toList], none, "QUIT".toList, ["bye".toList]⟩ ∧
      ¬ Faithful (List.map Char.toUpper) " @x QUIT :bye".toList
        ⟨"@X".toList, ["QUIT".toList, "bye".toList], none⟩ := by
  refine ⟨by decide, by decide, fun h => ?_⟩
  obtain ⟨tags, hreads, -⟩ := h.reads
  have hread : networkReads (rebuildLine ⟨"@X".toList, ["QUIT".toList, "bye".toList], none⟩) =
      some ⟨["X".toList], none, "QUIT".toList, ["bye".toList]⟩ := by decide
  have hcommand : "QUIT".toList = "@X".toList :=
    congrArg Reading.command (Option.some.inj (hread.symm.trans hreads))
  exact absurd hcommand (by decide)

end Lurker.Bouncer.ClientLine
