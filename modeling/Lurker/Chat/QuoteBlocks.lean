import Mathlib.Algebra.GroupWithZero.Nat
import Mathlib.Data.List.Chain
import Mathlib.Data.List.Induction
import Mathlib.Data.List.TakeWhile
import Lurker.Chat.TextMatch

/-!
# Block quotes

A message's lines that open with the mark `> ` are drawn as quotes, the mark taken off. The
mark is looked for across segments up to a spoiler, and taken off by counting units whatever
segment they are in. The two walks agree except behind a mark that stands alone before a
spoiler, where the first unit of the hidden text goes with it; and a segment of no text is
dropped from a quoted line, a spoiler too.
-/

namespace Lurker.Chat.QuoteBlocks

variable {α : Type}

/-- A piece of rendered text; `style` is what else a segment carries, which is copied. -/
structure RenderSegment (α : Type) where
  text : Text
  spoiler : Bool
  style : α
deriving DecidableEq

abbrev Line (α : Type) := List (RenderSegment α)

/-- What a block holds: the constant `BREAK`, told by identity, or a segment. -/
inductive Piece (α : Type)
  | brk
  | seg (s : RenderSegment α)
deriving DecidableEq

structure QuoteBlock (α : Type) where
  quote : Bool
  segments : List (Piece α)
deriving DecidableEq

def quoteMark : Text := text "> "

/-- The lines so far and the one that is open, as the loop over a segment's parts leaves them. -/
def addParts (seg : RenderSegment α) (lines : List (Line α) × Line α) (first : Bool) :
    List Text → List (Line α) × Line α
  | [] => lines
  | part :: parts =>
    let lines := if first then lines else (lines.1 ++ [lines.2], [])
    let lines := if part = [] then lines
      else (lines.1, lines.2 ++ [{ seg with text := part }])
    addParts seg lines false parts

def addSegment (lines : List (Line α) × Line α) (seg : RenderSegment α) :
    List (Line α) × Line α :=
  if seg.spoiler then (lines.1, lines.2 ++ [seg])
  else addParts seg lines true (seg.text.splitOn (unit '\n'))

/-- The message's lines: a spoiler is never cut. -/
def cutLines (segments : List (RenderSegment α)) : List (Line α) :=
  let lines := segments.foldl addSegment ([], [])
  lines.1 ++ [lines.2]

/-- The walk of `opensQuote` over a line. -/
def quoteHead (head : Text) : Line α → Text
  | [] => head
  | seg :: line =>
    if seg.spoiler then head
    else
      let head := head ++ seg.text
      if quoteMark.length ≤ head.length then head else quoteHead head line

def opensQuote (line : Line α) : Bool :=
  let head := quoteHead [] line
  quoteMark.isPrefixOf head || head = text ">"

/-- The walk of `withoutQuoteMark`, with the units still to take. -/
def takeOff (left : Nat) : Line α → Line α
  | [] => []
  | seg :: line =>
    let take := min left seg.text.length
    let out := takeOff (left - take) line
    if take < seg.text.length then
      (if take ≠ 0 then { seg with text := seg.text.drop take } else seg) :: out
    else out

def withoutQuoteMark (line : Line α) : Line α := takeOff quoteMark.length line

/-- `segments.at(-1) === BREAK` -/
def endsInBreak (segments : List (Piece α)) : Bool :=
  match segments.getLast? with
  | some .brk => true
  | _ => false

/-- One turn of the loop over the lines. -/
def addLine (blocks : List (QuoteBlock α)) (line : Line α) : List (QuoteBlock α) :=
  let quote := opensQuote line
  let segs := (if quote then withoutQuoteMark line else line).map Piece.seg
  match blocks.getLast? with
  | none => blocks ++ [⟨quote, segs⟩]
  | some last =>
    if last.quote = quote then
      blocks.dropLast ++ [{ last with segments := last.segments ++ .brk :: segs }]
    else
      let blocks :=
        if !last.quote && (last.segments.isEmpty || endsInBreak last.segments) then
          blocks.dropLast ++ [{ last with segments := last.segments ++ [.brk] }]
        else blocks
      blocks ++ [⟨quote, segs⟩]

def quoteBlocks (segments : List (RenderSegment α)) : Option (List (QuoteBlock α)) :=
  let lines := cutLines segments
  if lines.any opensQuote then some (lines.foldl addLine []) else none

/-- The lines between the breaks. -/
def cutAtBreaks : List (Piece α) → List (Line α)
  | [] => [[]]
  | .brk :: pieces => [] :: cutAtBreaks pieces
  | .seg s :: pieces =>
    match cutAtBreaks pieces with
    | [] => [[s]]
    | line :: lines => (s :: line) :: lines

/-- A plain block before another has one break more when its last line is blank. -/
def trimmed (b : QuoteBlock α) : List (Piece α) :=
  if !b.quote && endsInBreak b.segments then b.segments.dropLast else b.segments

/-- The lines of the blocks in order, each with whether it is in a quote. -/
def readBlocks : List (QuoteBlock α) → List (Bool × Line α)
  | [] => []
  | [b] => (cutAtBreaks b.segments).map (b.quote, ·)
  | b :: b' :: blocks => (cutAtBreaks (trimmed b)).map (b.quote, ·) ++ readBlocks (b' :: blocks)

def textOf (line : Line α) : Text := line.flatMap RenderSegment.text

/-- What is written before any spoiler. -/
def beforeSpoiler (line : Line α) : Text := textOf (line.takeWhile fun seg => !seg.spoiler)

/-- A line that opens with the mark, or is its `>` alone as far as a spoiler. -/
def Marked (line : Line α) : Prop :=
  quoteMark <+: beforeSpoiler line ∨ beforeSpoiler line = text ">"

instance (line : Line α) : Decidable (Marked line) := inferInstanceAs (Decidable (_ ∨ _))

/-- The text of a marked line without its mark. -/
def unmarked (line : Line α) : Text :=
  (textOf line).drop (if quoteMark <+: beforeSpoiler line then 2 else 1)

def spoilers (line : Line α) : Line α := line.filter RenderSegment.spoiler

def Piece.seg? : Piece α → Option (RenderSegment α)
  | .brk => none
  | .seg s => some s

/-- A line as a block gives it back. -/
structure Reads (line : Line α) (read : Bool × Line α) : Prop where
  kind : read.1 = true ↔ Marked line
  quoted : Marked line → textOf read.2 = unmarked line
  plain : ¬ Marked line → read.2 = line

/-- What block quotes change: nothing but the marks. -/
structure Faithful (segments : List (RenderSegment α)) (blocks : List (QuoteBlock α)) : Prop where
  lines : List.Forall₂ Reads (cutLines segments) (readBlocks blocks)
  hidden : spoilers ((blocks.flatMap QuoteBlock.segments).filterMap Piece.seg?) =
    spoilers segments
  alternate : (blocks.map QuoteBlock.quote).IsChain (· ≠ ·)

theorem spoilers_append (l l' : Line α) : spoilers (l ++ l') = spoilers l ++ spoilers l' :=
  List.filter_append ..

theorem spoilers_addParts {seg : RenderSegment α} (hseg : seg.spoiler = false) (parts : List Text)
    (lines : List (Line α) × Line α) (first : Bool) :
    spoilers ((addParts seg lines first parts).1 ++ [(addParts seg lines first parts).2]).flatten =
      spoilers (lines.1 ++ [lines.2]).flatten := by
  induction parts generalizing lines first with
  | nil => rfl
  | cons part parts ih =>
    rw [addParts, ih]
    cases first <;> by_cases hpart : part = [] <;>
      simp [hpart, spoilers, hseg]

theorem spoilers_cutLines (segments : List (RenderSegment α)) :
    spoilers (cutLines segments).flatten = spoilers segments := by
  have hfold : ∀ lines : List (Line α) × Line α,
      spoilers ((segments.foldl addSegment lines).1 ++
        [(segments.foldl addSegment lines).2]).flatten =
      spoilers (lines.1 ++ [lines.2]).flatten ++ spoilers segments := by
    induction segments with
    | nil => intro lines; simp [spoilers]
    | cons seg segments ih =>
      intro lines
      rw [List.foldl_cons, ih]
      cases hseg : seg.spoiler with
      | true => simp [addSegment, hseg, spoilers]
      | false =>
        rw [addSegment, if_neg (by simp [hseg]), spoilers_addParts hseg]
        simp [spoilers, hseg]
  exact hfold ([], [])

theorem cutAtBreaks_ne_nil (pieces : List (Piece α)) : cutAtBreaks pieces ≠ [] := by
  cases pieces with
  | nil => exact fun h => nomatch h
  | cons piece pieces =>
    cases piece with
    | brk => exact fun h => nomatch h
    | seg s =>
      rw [cutAtBreaks]
      split <;> exact fun h => nomatch h

theorem cutAtBreaks_line (line : Line α) : cutAtBreaks (line.map Piece.seg) = [line] := by
  induction line with
  | nil => rfl
  | cons s line ih => rw [List.map_cons, cutAtBreaks, ih]

/-- A break and a line behind it are one line more. -/
theorem cutAtBreaks_append (pieces : List (Piece α)) (line : Line α) :
    cutAtBreaks (pieces ++ .brk :: line.map Piece.seg) = cutAtBreaks pieces ++ [line] := by
  induction pieces with
  | nil => exact congrArg ([] :: ·) (cutAtBreaks_line line)
  | cons piece pieces ih =>
    cases piece with
    | brk => rw [List.cons_append, cutAtBreaks, ih]; rfl
    | seg s =>
      rw [List.cons_append, cutAtBreaks, ih, cutAtBreaks]
      cases hlines : cutAtBreaks pieces with
      | nil => exact absurd hlines (cutAtBreaks_ne_nil pieces)
      | cons first lines => rfl

theorem flatten_cutAtBreaks (pieces : List (Piece α)) :
    (cutAtBreaks pieces).flatten = pieces.filterMap Piece.seg? := by
  induction pieces with
  | nil => rfl
  | cons piece pieces ih =>
    cases piece with
    | brk => rw [cutAtBreaks, List.flatten_cons, ih]; rfl
    | seg s =>
      rw [cutAtBreaks, List.filterMap_cons, Piece.seg?, ← ih]
      cases hlines : cutAtBreaks pieces with
      | nil => exact absurd hlines (cutAtBreaks_ne_nil pieces)
      | cons first lines => rfl

theorem endsInBreak_iff {pieces : List (Piece α)} :
    endsInBreak pieces = true ↔ ∃ rest, pieces = rest ++ [.brk] := by
  rw [endsInBreak]
  constructor
  · intro h
    split at h
    · rename_i hlast
      exact List.getLast?_eq_some_iff.mp hlast
    · cases h
  · rintro ⟨rest, rfl⟩
    rw [List.getLast?_concat]

/-- The blocks but the last, each read as one that another follows. -/
def readFollowed (blocks : List (QuoteBlock α)) : List (Bool × Line α) :=
  blocks.flatMap fun b => (cutAtBreaks (trimmed b)).map (b.quote, ·)

theorem readBlocks_concat (blocks : List (QuoteBlock α)) (b : QuoteBlock α) :
    readBlocks (blocks ++ [b]) = readFollowed blocks ++ (cutAtBreaks b.segments).map (b.quote, ·) := by
  induction blocks with
  | nil => rfl
  | cons b' blocks ih =>
    have hcons : readBlocks (b' :: (blocks ++ [b])) =
        (cutAtBreaks (trimmed b')).map (b'.quote, ·) ++ readBlocks (blocks ++ [b]) := by
      cases blocks <;> rfl
    rw [List.cons_append, hcons, ih, readFollowed, readFollowed, List.flatMap_cons,
      List.append_assoc]

/-- What a line goes out as. -/
def outLine (line : Line α) : Bool × Line α :=
  (opensQuote line, if opensQuote line then withoutQuoteMark line else line)

/-- The last block, once another follows it. -/
def closed (last : QuoteBlock α) : QuoteBlock α :=
  if !last.quote && (last.segments.isEmpty || endsInBreak last.segments) then
    { last with segments := last.segments ++ [.brk] }
  else last

@[simp] theorem closed_quote (last : QuoteBlock α) : (closed last).quote = last.quote := by
  rw [closed]
  split <;> rfl

/-- The break that keeps a blank line is the one reading sets aside. -/
theorem cutAtBreaks_closed (last : QuoteBlock α) :
    cutAtBreaks (trimmed (closed last)) = cutAtBreaks last.segments := by
  rw [closed]
  split
  · rename_i hblank
    have hquote : (!last.quote) = true := (Bool.and_eq_true_iff.mp hblank).1
    have hends : endsInBreak (last.segments ++ [.brk]) = true := endsInBreak_iff.mpr ⟨_, rfl⟩
    rw [trimmed, if_pos (by rw [hquote, hends]; rfl), List.dropLast_concat]
  · rename_i hfull
    rw [trimmed, if_neg]
    intro hends
    obtain ⟨hquote, hends⟩ := Bool.and_eq_true_iff.mp hends
    exact hfull (by rw [hquote, hends]; simp)

/-- What one turn of the loop does to the blocks. -/
theorem addLine_concat (blocks : List (QuoteBlock α)) (last : QuoteBlock α) (line : Line α) :
    addLine (blocks ++ [last]) line =
      if last.quote = opensQuote line then
        blocks ++ [{ last with segments := last.segments ++ .brk :: (outLine line).2.map .seg }]
      else blocks ++ [closed last, ⟨opensQuote line, (outLine line).2.map .seg⟩] := by
  simp only [addLine, List.getLast?_concat, List.dropLast_concat]
  split
  · rfl
  · rw [closed]
    split <;> simp [outLine]

/-- The blocks read as the lines that went in, and adjacent ones differ. -/
theorem foldl_addLine (lines : List (Line α)) :
    readBlocks (lines.foldl addLine []) = lines.map outLine ∧
      ((lines.foldl addLine []).map QuoteBlock.quote).IsChain (· ≠ ·) := by
  induction lines using List.reverseRecOn with
  | nil => exact ⟨rfl, List.isChain_nil⟩
  | append_singleton lines line ih =>
    obtain ⟨hread, hchain⟩ := ih
    rw [List.foldl_append, List.map_append, ← hread]
    change readBlocks (addLine _ line) = _ ∧ ((addLine _ line).map QuoteBlock.quote).IsChain _
    obtain hnil | ⟨blocks, last, hblocks⟩ := List.eq_nil_or_concat (lines.foldl addLine [])
    · rw [hnil]
      refine ⟨?_, List.isChain_singleton _⟩
      change (cutAtBreaks ((outLine line).2.map Piece.seg)).map (opensQuote line, ·) = _
      rw [cutAtBreaks_line]
      rfl
    · rw [hblocks, List.concat_eq_append] at hchain ⊢
      rw [addLine_concat, readBlocks_concat]
      split
      · rename_i hsame
        constructor
        · rw [readBlocks_concat, cutAtBreaks_append, List.map_append, List.append_assoc, hsame]
          rfl
        · rw [List.map_append] at hchain ⊢
          exact hchain
      · rename_i hdiffer
        constructor
        · rw [show blocks ++ [closed last, ⟨opensQuote line, (outLine line).2.map Piece.seg⟩] =
              (blocks ++ [closed last]) ++ [⟨opensQuote line, (outLine line).2.map Piece.seg⟩] by
            simp, readBlocks_concat, readFollowed, List.flatMap_append, ← readFollowed,
            cutAtBreaks_line]
          simp [cutAtBreaks_closed, outLine]
        · rw [List.map_append] at hchain ⊢
          refine List.isChain_append_cons_cons.mpr ⟨?_, ?_, List.isChain_singleton _⟩
          · rw [closed_quote]
            exact hchain
          · rw [closed_quote]
            exact hdiffer

theorem filterMap_trimmed (b : QuoteBlock α) :
    (trimmed b).filterMap Piece.seg? = b.segments.filterMap Piece.seg? := by
  rw [trimmed]
  split
  · rename_i h
    obtain ⟨rest, hrest⟩ := endsInBreak_iff.mp (Bool.and_eq_true_iff.mp h).2
    rw [hrest, List.dropLast_concat, List.filterMap_append]
    exact (List.append_nil _).symm
  · rfl

/-- Reading loses no segment. -/
theorem flatten_readBlocks (blocks : List (QuoteBlock α)) :
    ((readBlocks blocks).map Prod.snd).flatten =
      (blocks.flatMap QuoteBlock.segments).filterMap Piece.seg? := by
  have hpart : ∀ (pieces : List (Piece α)) (quote : Bool),
      (((cutAtBreaks pieces).map (quote, ·)).map Prod.snd).flatten =
        pieces.filterMap Piece.seg? := by
    intro pieces quote
    rw [List.map_map, ← flatten_cutAtBreaks]
    exact congrArg List.flatten (List.map_id _)
  induction blocks with
  | nil => rfl
  | cons b blocks ih =>
    rw [List.flatMap_cons, List.filterMap_append, ← ih]
    cases blocks with
    | nil => exact (hpart b.segments b.quote).trans (List.append_nil _).symm
    | cons b' blocks =>
      rw [readBlocks, List.map_append, List.flatten_append, hpart, filterMap_trimmed]

theorem textOf_cons (seg : RenderSegment α) (line : Line α) :
    textOf (seg :: line) = seg.text ++ textOf line := List.flatMap_cons ..

theorem beforeSpoiler_cons (seg : RenderSegment α) (line : Line α) :
    beforeSpoiler (seg :: line) = if seg.spoiler then [] else seg.text ++ beforeSpoiler line := by
  cases hseg : seg.spoiler <;> simp [beforeSpoiler, hseg, textOf]

/-- The head looked at is what stands before a spoiler, or as much as the mark is long. -/
theorem quoteHead_spec (head : Text) (line : Line α) :
    quoteHead head line <+: head ++ beforeSpoiler line ∧
      (quoteHead head line = head ++ beforeSpoiler line ∨ 2 ≤ (quoteHead head line).length) := by
  induction line generalizing head with
  | nil => exact ⟨List.prefix_append .., .inl (List.append_nil _).symm⟩
  | cons seg line ih =>
    rw [quoteHead, beforeSpoiler_cons]
    cases hseg : seg.spoiler with
    | true => exact ⟨List.prefix_append .., .inl (List.append_nil _).symm⟩
    | false =>
      simp only [Bool.false_eq_true, if_false]
      rw [← List.append_assoc]
      split
      · rename_i hlong
        exact ⟨List.prefix_append .., .inr hlong⟩
      · exact ih (head ++ seg.text)

theorem opensQuote_iff (line : Line α) : opensQuote line = true ↔ Marked line := by
  obtain ⟨hhead, hlong⟩ := quoteHead_spec [] line
  rw [List.nil_append] at hhead hlong
  rw [opensQuote, Bool.or_eq_true, List.isPrefixOf_iff_prefix, decide_eq_true_eq, Marked]
  obtain heq | hlong := hlong
  · rw [heq]
  · have hlen := hhead.length_le
    have hshort : ∀ s : Text, 2 ≤ s.length → s ≠ text ">" := by
      rintro s hs rfl
      exact absurd hs (by decide)
    constructor
    · rintro (hmark | halone)
      · exact .inl (hmark.trans hhead)
      · exact absurd halone (hshort _ hlong)
    · rintro (hmark | halone)
      · exact .inl (List.prefix_of_prefix_length_le hmark hhead hlong)
      · exact absurd halone (hshort _ (hlong.trans hlen))

/-- Taking off units takes them off the text. -/
theorem textOf_takeOff (left : Nat) (line : Line α) :
    textOf (takeOff left line) = (textOf line).drop left := by
  induction line generalizing left with
  | nil => exact List.drop_nil.symm
  | cons seg line ih =>
    rw [takeOff, textOf_cons, List.drop_append]
    split
    · rename_i htake
      have hwhole : left - min left seg.text.length = 0 := by omega
      have hmin : min left seg.text.length = left := by omega
      rw [textOf_cons, ih, hwhole, hmin, show left - seg.text.length = 0 by omega]
      congr 1
      split
      · rfl
      · rename_i hzero
        rw [show left = 0 by omega]
        rfl
    · rw [ih, List.drop_eq_nil_of_le (show seg.text.length ≤ left by omega), List.nil_append,
        show left - min left seg.text.length = left - seg.text.length by omega]

/-- Units taken off before any spoiler leave the spoilers that have text. -/
theorem spoilers_takeOff {left : Nat} {line : Line α}
    (hleft : left ≤ (beforeSpoiler line).length)
    (htext : ∀ seg ∈ line, seg.spoiler = true → seg.text ≠ []) :
    spoilers (takeOff left line) = spoilers line := by
  induction line generalizing left with
  | nil => rfl
  | cons seg line ih =>
    have htail := fun left hleft => @ih left hleft fun s hs => htext s (List.mem_cons_of_mem _ hs)
    rw [beforeSpoiler_cons] at hleft
    rw [takeOff]
    cases hseg : seg.spoiler with
    | true =>
      rw [hseg, if_pos rfl] at hleft
      obtain rfl : left = 0 := Nat.le_zero.mp hleft
      have hpos : 0 < seg.text.length := List.length_pos_of_ne_nil (htext seg List.mem_cons_self hseg)
      simp only [Nat.zero_min, Nat.sub_self, ne_eq, not_true_eq_false, if_false, if_pos hpos]
      rw [spoilers, List.filter_cons_of_pos hseg, spoilers, List.filter_cons_of_pos hseg]
      exact congrArg (seg :: ·) (htail 0 (Nat.zero_le _))
    | false =>
      rw [hseg, if_neg (by simp), List.length_append] at hleft
      have hrest := htail (left - min left seg.text.length) (by omega)
      have hskip : ∀ (s : RenderSegment α) (l : Line α), s.spoiler = false →
          spoilers (s :: l) = spoilers l := fun s l hs => List.filter_cons_of_neg (by simp [hs])
      rw [hskip seg line hseg, ← hrest]
      split
      · split
        · exact hskip _ _ rfl
        · exact hskip _ _ hseg
      · rfl

/-- No spoiler comes of taking off units. -/
theorem takeOff_plain {left : Nat} {line : Line α} (h : ∀ seg ∈ line, seg.spoiler = false) :
    ∀ seg ∈ takeOff left line, seg.spoiler = false := by
  induction line generalizing left with
  | nil => exact h
  | cons seg line ih =>
    have htail := fun left => @ih left fun s hs => h s (List.mem_cons_of_mem _ hs)
    have hseg := h seg List.mem_cons_self
    rw [takeOff]
    split
    · intro s hs
      obtain rfl | hs := List.mem_cons.mp hs
      · split <;> exact hseg
      · exact htail _ s hs
    · exact htail _

/-- The spoilers of a line and the units of their text, counted. -/
def hiddenSize (line : Line α) : Nat := ((spoilers line).map fun s => s.text.length + 1).sum

theorem hiddenSize_cons (seg : RenderSegment α) (line : Line α) :
    hiddenSize (seg :: line) =
      (if seg.spoiler then seg.text.length + 1 else 0) + hiddenSize line := by
  cases hseg : seg.spoiler <;> simp [hiddenSize, spoilers, hseg]

theorem hiddenSize_takeOff_cons (left : Nat) (seg : RenderSegment α) (line : Line α) :
    hiddenSize (takeOff left (seg :: line)) =
      (if seg.spoiler ∧ min left seg.text.length < seg.text.length then
        seg.text.length - min left seg.text.length + 1 else 0) +
        hiddenSize (takeOff (left - min left seg.text.length) line) := by
  rw [takeOff]
  by_cases htake : min left seg.text.length < seg.text.length
  · rw [if_pos htake, hiddenSize_cons]
    by_cases hzero : min left seg.text.length ≠ 0
    · rw [if_pos hzero]
      simp [htake, List.length_drop]
    · rw [if_neg hzero]
      have hnone : min left seg.text.length = 0 := by omega
      have hpos : 0 < seg.text.length := by omega
      simp [hnone, hpos]
  · rw [if_neg htake]
    simp [htake]

/-- What is left of a spoiler is no more than it was. -/
theorem hiddenSize_part_le (take : Nat) (seg : RenderSegment α) :
    (if seg.spoiler ∧ take < seg.text.length then seg.text.length - take + 1 else 0) ≤
      if seg.spoiler then seg.text.length + 1 else 0 := by
  by_cases hseg : seg.spoiler = true
  · rw [if_pos hseg]
    split <;> omega
  · rw [if_neg fun h => hseg h.1]
    exact Nat.zero_le _

theorem hiddenSize_takeOff_le (left : Nat) (line : Line α) :
    hiddenSize (takeOff left line) ≤ hiddenSize line := by
  induction line generalizing left with
  | nil => exact Nat.le_refl _
  | cons seg line ih =>
    have htail := ih (left - min left seg.text.length)
    rw [hiddenSize_takeOff_cons, hiddenSize_cons]
    exact Nat.add_le_add (hiddenSize_part_le _ seg) htail

/-- A spoiler of no text goes. -/
theorem hiddenSize_lt_of_empty {left : Nat} {line : Line α} {s : RenderSegment α} (hs : s ∈ line)
    (hspoiler : s.spoiler = true) (htext : s.text = []) :
    hiddenSize (takeOff left line) < hiddenSize line := by
  induction line generalizing left with
  | nil => cases hs
  | cons seg line ih =>
    rw [hiddenSize_takeOff_cons, hiddenSize_cons]
    obtain rfl | hs := List.mem_cons.mp hs
    · have htail := hiddenSize_takeOff_le (left - min left s.text.length) line
      rw [if_neg (by simp [htext]), if_pos hspoiler]
      omega
    · have htail := @ih (left - min left seg.text.length) hs
      exact Nat.add_lt_add_of_le_of_lt (hiddenSize_part_le _ seg) htail

/-- Units still to take at a spoiler are taken off it. -/
theorem hiddenSize_lt_of_short {left : Nat} {line : Line α} {s : RenderSegment α} (hs : s ∈ line)
    (hspoiler : s.spoiler = true) (hleft : (beforeSpoiler line).length < left) :
    hiddenSize (takeOff left line) < hiddenSize line := by
  induction line generalizing left with
  | nil => cases hs
  | cons seg line ih =>
    have htail := hiddenSize_takeOff_le (left - min left seg.text.length) line
    rw [beforeSpoiler_cons] at hleft
    rw [hiddenSize_takeOff_cons, hiddenSize_cons]
    cases hseg : seg.spoiler with
    | true =>
      rw [hseg, if_pos rfl, List.length_nil] at hleft
      rw [if_pos rfl]
      split <;> omega
    | false =>
      rw [hseg, if_neg (by simp), List.length_append] at hleft
      have hs : s ∈ line := (List.mem_cons.mp hs).resolve_left fun heq => by
        rw [heq, hseg] at hspoiler
        cases hspoiler
      have := @ih (left - min left seg.text.length) hs (by omega)
      simp only [Bool.false_eq_true, false_and, if_false]
      omega

/-- Where as much is hidden in all as before, so it is in each line. -/
theorem hiddenSize_eq_of_flatten {out : Line α → Line α} {lines : List (Line α)}
    (hle : ∀ line ∈ lines, hiddenSize (out line) ≤ hiddenSize line)
    (heq : hiddenSize (lines.map out).flatten = hiddenSize lines.flatten) :
    ∀ line ∈ lines, hiddenSize (out line) = hiddenSize line := by
  have happend : ∀ l l' : Line α, hiddenSize (l ++ l') = hiddenSize l + hiddenSize l' := by
    intro l l'
    rw [hiddenSize, spoilers_append, List.map_append, List.sum_append]
    rfl
  induction lines with
  | nil => exact fun _ h => nomatch h
  | cons line lines ih =>
    have hall : hiddenSize (lines.map out).flatten ≤ hiddenSize lines.flatten := by
      have hrest := fun l hl => hle l (List.mem_cons_of_mem _ hl)
      clear ih heq hle
      induction lines with
      | nil => exact Nat.le_refl _
      | cons l lines ih =>
        rw [List.map_cons, List.flatten_cons, List.flatten_cons, happend, happend]
        exact Nat.add_le_add (hrest l List.mem_cons_self)
          (ih fun l' hl' => hrest l' (List.mem_cons_of_mem _ hl'))
    have hfirst := hle line List.mem_cons_self
    rw [List.map_cons, List.flatten_cons, List.flatten_cons, happend, happend] at heq
    intro l hl
    obtain rfl | hl := List.mem_cons.mp hl
    · omega
    · exact ih (fun l hl => hle l (List.mem_cons_of_mem _ hl)) (by omega) l hl

/-- A marked line whose spoilers have text, and none where its mark stands alone. -/
def Unharmed (line : Line α) : Prop :=
  (∀ seg ∈ line, seg.spoiler = true → seg.text ≠ []) ∧
    (beforeSpoiler line = text ">" → ∀ seg ∈ line, seg.spoiler = false)

theorem spoilers_without {line : Line α} (hmarked : Marked line) (h : Unharmed line) :
    spoilers (withoutQuoteMark line) = spoilers line := by
  obtain ⟨rest, hrest⟩ | halone := hmarked
  · refine spoilers_takeOff ?_ h.1
    rw [← hrest, List.length_append]
    exact Nat.le_add_right ..
  · have hplain := h.2 halone
    have hnone : ∀ l : Line α, (∀ seg ∈ l, seg.spoiler = false) → spoilers l = [] := by
      intro l hl
      exact List.filter_eq_nil_iff.mpr fun seg hseg => by simp [hl seg hseg]
    rw [withoutQuoteMark, hnone _ (takeOff_plain hplain), hnone line hplain]

theorem unharmed_of_size {line : Line α}
    (h : hiddenSize (withoutQuoteMark line) = hiddenSize line) : Unharmed line := by
  constructor
  · intro seg hseg hspoiler htext
    exact absurd h (Nat.ne_of_lt (hiddenSize_lt_of_empty hseg hspoiler htext))
  · intro halone seg hseg
    rw [← Bool.not_eq_true]
    intro hspoiler
    have hshort : (beforeSpoiler line).length < quoteMark.length := by
      rw [halone]
      decide
    exact absurd h (Nat.ne_of_lt (hiddenSize_lt_of_short hseg hspoiler hshort))

theorem reads_outLine {line : Line α} (h : Marked line → Unharmed line) :
    Reads line (outLine line) := by
  by_cases hmarked : Marked line
  · have hopens := (opensQuote_iff line).mpr hmarked
    refine ⟨opensQuote_iff line, fun _ => ?_, fun hnot => absurd hmarked hnot⟩
    rw [outLine, if_pos hopens, withoutQuoteMark, textOf_takeOff, unmarked]
    split
    · rfl
    · rename_i hlong
      -- the mark stands alone on the whole line
      have halone := hmarked.resolve_left hlong
      have hplain := (h hmarked).2 halone
      have hwhole : textOf line = text ">" := by
        rw [← halone, beforeSpoiler, List.takeWhile_eq_self_iff.mpr fun seg hseg => by
          simp [hplain seg hseg]]
      rw [hwhole]
      decide
  · refine ⟨opensQuote_iff line, fun hyes => absurd hyes hmarked, fun _ => ?_⟩
    rw [outLine, if_neg fun hopens => hmarked ((opensQuote_iff line).mp hopens)]

/-- Block quotes change nothing but the mark exactly where every quoted line's spoilers have
text, and a mark that stands alone has no spoiler behind it. -/
theorem quotes_faithful_iff (segments : List (RenderSegment α)) :
    (∀ blocks, quoteBlocks segments = some blocks → Faithful segments blocks) ↔
      ∀ line ∈ cutLines segments, Marked line → Unharmed line := by
  have hsize : ∀ line : Line α, hiddenSize (outLine line).2 ≤ hiddenSize line := by
    intro line
    rw [outLine]
    split
    · exact hiddenSize_takeOff_le _ line
    · exact Nat.le_refl _
  obtain ⟨hread, hchain⟩ := foldl_addLine (cutLines segments)
  have hhidden : spoilers ((((cutLines segments).foldl addLine []).flatMap
      QuoteBlock.segments).filterMap Piece.seg?) =
        spoilers ((cutLines segments).map fun line => (outLine line).2).flatten := by
    rw [← flatten_readBlocks, hread, List.map_map]
    rfl
  rw [quoteBlocks]
  constructor
  · intro h line hline hmarked
    have hopens := (opensQuote_iff line).mpr hmarked
    have hfaithful := h _ (if_pos (List.any_eq_true.mpr ⟨line, hline, hopens⟩))
    have hsame : spoilers ((cutLines segments).map fun line => (outLine line).2).flatten =
        spoilers (cutLines segments).flatten := by
      rw [← hhidden, hfaithful.hidden, spoilers_cutLines]
    have heq := hiddenSize_eq_of_flatten (fun line _ => hsize line)
      (congrArg (fun l => (l.map fun s : RenderSegment α => s.text.length + 1).sum) hsame) line hline
    rw [outLine, if_pos hopens] at heq
    exact unharmed_of_size heq
  · intro h blocks hblocks
    split at hblocks
    · cases hblocks
      refine ⟨?_, ?_, hchain⟩
      · rw [hread]
        have hall : ∀ line ∈ cutLines segments, Reads line (outLine line) :=
          fun line hline => reads_outLine (h line hline)
        exact List.forall₂_map_right_iff.mpr (List.forall₂_same.mpr hall)
      · rw [hhidden, ← spoilers_cutLines segments]
        have hall : ∀ line ∈ cutLines segments, spoilers (outLine line).2 = spoilers line := by
          intro line hline
          rw [outLine]
          split
          · rename_i hopens
            have hmarked := (opensQuote_iff line).mp hopens
            exact spoilers_without hmarked (h line hline hmarked)
          · rfl
        rw [spoilers, List.filter_flatten, List.map_map, spoilers, List.filter_flatten]
        exact congrArg List.flatten (List.map_congr_left hall)
    · cases hblocks

/-- A mark alone before a spoiler: the first unit of the hidden text goes with it. -/
theorem mark_before_spoiler :
    ¬ ∀ blocks, quoteBlocks [⟨text ">", false, ()⟩, ⟨text "ab", true, ()⟩] = some blocks →
      Faithful [⟨text ">", false, ()⟩, ⟨text "ab", true, ()⟩] blocks := by
  intro h
  have hfaithful := h [⟨true, [.seg ⟨text "b", true, ()⟩]⟩] (by decide)
  have hhidden := hfaithful.hidden
  revert hhidden
  decide

end Lurker.Chat.QuoteBlocks
