import Lurker.Lib.Delimited
import Lurker.Outbound.MessageSplit

/-!
# Multiline batches

A body of several lines goes as wire messages, each a line or the continuation of one,
packed into batches within the server's limits. A receiver glues them back. The text
comes back as it was, line endings and edge blank lines apart, unless the line breaker
drops some of a line or of a wire message that has to be cut again.
-/

namespace Lurker.Outbound

/-- One message inside a batch. `concat` joins it to the one before it. -/
structure Wire where
  content : List Char
  concat : Bool
  deriving DecidableEq, Repr

structure MultilineLimits where
  maxBytes : Nat
  maxLines : Nat

/-- `split(/\r\n|\n|\r/)` -/
def splitLines : List Char → List (List Char)
  | [] => [[]]
  | '\r' :: '\n' :: rest => [] :: splitLines rest
  | '\n' :: rest => [] :: splitLines rest
  | '\r' :: rest => [] :: splitLines rest
  | c :: rest => (splitLines rest).modifyHead (c :: ·)

/-- The text with every line ending as `\n`. -/
def unixEndings : List Char → List Char
  | [] => []
  | '\r' :: '\n' :: rest => '\n' :: unixEndings rest
  | '\r' :: rest => '\n' :: unixEndings rest
  | c :: rest => c :: unixEndings rest

/-- The lines without the blank ones at the edges. -/
def dropEdges (lines : List (List Char)) : List (List Char) :=
  (lines.dropWhile (· = [])).rdropWhile (· = [])

/-- A text with its line endings normalised and its edge blank lines removed. -/
def normalised (text : List Char) : List Char :=
  ['\n'].intercalate (dropEdges ((unixEndings text).splitOn '\n'))

def pieceWires (pieces : List (List Char)) (concat : Bool) : List Wire :=
  match pieces with
  | [] => []
  | piece :: pieces => ⟨piece, concat⟩ :: pieces.map fun piece => ⟨piece, true⟩

def isBlankWire (w : Wire) : Bool := w.content = [] && !w.concat

-- the platform's line breaker
variable (lineBreak : List Char → Nat → List (List Char))

/-- The wire messages of one line. -/
def lineWires (bytes : Nat) (line : List Char) : List Wire :=
  if line = [] then [⟨[], false⟩] else pieceWires (chunkConcat lineBreak line bytes) false

def splitMultiline (text : List Char) (bytes : Nat) : List Wire :=
  if text = [] then []
  else
    (((splitLines text).flatMap (lineWires lineBreak bytes)).dropWhile isBlankWire).rdropWhile
      isBlankWire

/-- Glue wire messages back together. -/
def reassembleMultiline : List Wire → List Char
  | [] => []
  | w :: wires =>
    w.content ++ wires.flatMap fun w => if w.concat then w.content else '\n' :: w.content

def wiresBytes (wires : List Wire) : Nat := (wires.map fun w => byteLen w.content).sum

/-- The wire messages of each line together. -/
def groupLines (wires : List Wire) : List (List Wire) :=
  wires.foldl
    (fun logical w =>
      match logical.getLast? with
      | none => logical ++ [[w]]
      | some line => if w.concat then logical.dropLast ++ [line ++ [w]] else logical ++ [[w]])
    []

/-- The batches so far and the one being filled. -/
structure Packing where
  batches : List (List Wire)
  cur : List Wire
  curBytes : Nat

namespace Packing

def flush (p : Packing) : Packing :=
  if p.cur ≠ [] then ⟨p.batches ++ [p.cur], [], 0⟩ else p

/-- Close the batch when so many more messages and bytes overflow it. -/
def flushFor (p : Packing) (limits : MultilineLimits) (lines bytes : Nat) : Packing :=
  if p.cur ≠ [] ∧
      (p.cur.length + lines > limits.maxLines ∨ p.curBytes + bytes > limits.maxBytes) then
    p.flush
  else p

def push (p : Packing) (wires : List Wire) : Packing :=
  { p with cur := p.cur ++ wires, curBytes := p.curBytes + wiresBytes wires }

def addWire (limits : MultilineLimits) (p : Packing) (w : Wire) : Packing :=
  (p.flushFor limits 1 (byteLen w.content)).push [w]

end Packing

/-- A wire message over the batch's limit is cut again. -/
def recut (limits : MultilineLimits) (w : Wire) : List Wire :=
  if byteLen w.content > limits.maxBytes then
    pieceWires (chunkConcat lineBreak w.content limits.maxBytes) w.concat
  else [w]

/-- Pack one line: whole when it fits in a batch, torn at its wire messages otherwise. -/
def Packing.addLine (limits : MultilineLimits) (p : Packing) (line : List Wire) : Packing :=
  let p := p.flushFor limits line.length (wiresBytes line)
  if line.length ≤ limits.maxLines ∧ wiresBytes line ≤ limits.maxBytes then p.push line
  else (line.flatMap (recut lineBreak limits)).foldl (Packing.addWire limits) p.flush

def partitionMultiline (text : List Char) (limits : MultilineLimits) (bytes : Nat) :
    List (List Wire) :=
  let wires := splitMultiline lineBreak text bytes
  if wires = [] then []
  else ((groupLines wires).foldl (Packing.addLine lineBreak limits) ⟨[], [], 0⟩).flush.batches

/-- The text comes back from the wire messages and from the batches, and every message and
batch is within its limits. -/
structure Lossless (text : List Char) (bytes : Nat) (limits : MultilineLimits) : Prop where
  rejoined : reassembleMultiline (splitMultiline lineBreak text bytes) = normalised text
  fits : ∀ w ∈ splitMultiline lineBreak text bytes, byteLen w.content ≤ bytes
  batches : reassembleMultiline (partitionMultiline lineBreak text limits bytes).flatten =
    normalised text
  within : ∀ batch ∈ partitionMultiline lineBreak text limits bytes,
    batch.length ≤ limits.maxLines ∧ wiresBytes batch ≤ limits.maxBytes

/-- Nothing is dropped of a line, nor of a piece of one that a batch is too small for. -/
structure NothingDropped (text : List Char) (bytes : Nat) (limits : MultilineLimits) : Prop where
  lines : ∀ line ∈ splitLines text, ¬ Drops lineBreak line bytes
  pieces : ∀ line ∈ splitLines text, ∀ piece ∈ chunkConcat lineBreak line bytes,
    limits.maxBytes < byteLen piece → ¬ Drops lineBreak piece limits.maxBytes

theorem splitLines_eq (text : List Char) : splitLines text = (unixEndings text).splitOn '\n' := by
  induction text using splitLines.induct with
  | case1 => rfl
  | case2 rest ih =>
    rw [splitLines, unixEndings, List.splitOn_cons_eq_if_modifyHead, ih]
    rfl
  | case3 rest ih =>
    rw [splitLines, unixEndings, List.splitOn_cons_eq_if_modifyHead, ih]
    · rfl
    · simp
    · simp
  | case4 rest hrest ih =>
    rw [splitLines, unixEndings, List.splitOn_cons_eq_if_modifyHead, ih]
    · rfl
    · exact hrest
    · exact hrest
  | case5 c rest hcr hlf hcr' ih =>
    rw [splitLines, unixEndings, List.splitOn_cons_eq_if_modifyHead, ih]
    · rw [if_neg (by simpa using hlf)]
    all_goals assumption

theorem newline_not_mem {text line : List Char} (h : line ∈ splitLines text) : '\n' ∉ line := by
  rw [splitLines_eq] at h
  exact (Delimited.of_mem_splitOn h).1

theorem dropEdges_flatten (lines : List (List Char)) : (dropEdges lines).flatten = lines.flatten := by
  have hlead (ls : List (List Char)) : (ls.dropWhile (· = [])).flatten = ls.flatten := by
    induction ls with
    | nil => rfl
    | cons l ls ih =>
      rw [List.dropWhile_cons]
      split
      · rename_i hl
        rw [ih, List.flatten_cons, of_decide_eq_true hl, List.nil_append]
      · rfl
  have htrail (ls : List (List Char)) : (ls.rdropWhile (· = [])).flatten = ls.flatten := by
    induction ls using List.reverseRecOn with
    | nil => simp
    | append_singleton ls l ih =>
      rw [List.rdropWhile_concat]
      split
      · rename_i hl
        rw [ih, List.flatten_append, of_decide_eq_true hl]
        simp
      · rfl
  rw [dropEdges, htrail, hlead]

theorem intercalate_lines {lines : List (List Char)} (h : lines ≠ []) :
    lines.flatMap ('\n' :: ·) = '\n' :: ['\n'].intercalate lines := by
  induction lines with
  | nil => exact absurd rfl h
  | cons l ls ih =>
    cases ls with
    | nil => simp [List.intercalate]
    | cons l' ls =>
      rw [List.flatMap_cons, ih (List.cons_ne_nil _ _)]
      simp [List.intercalate]

/-- Wire messages with the line ends before them. -/
def glue (wires : List Wire) : List Char :=
  wires.flatMap fun w => if w.concat then w.content else '\n' :: w.content

theorem glue_append (ws ws' : List Wire) : glue (ws ++ ws') = glue ws ++ glue ws' :=
  List.flatMap_append

theorem reassemble_cons (w : Wire) (ws : List Wire) :
    reassembleMultiline (w :: ws) = w.content ++ glue ws := rfl

theorem glue_continued (pieces : List (List Char)) :
    glue (pieces.map fun piece => ⟨piece, true⟩) = pieces.flatten := by
  induction pieces with
  | nil => rfl
  | cons piece pieces ih =>
    rw [List.map_cons, List.flatten_cons, ← ih]
    rfl

theorem pieceWires_cons (piece : List Char) (pieces : List (List Char)) (concat : Bool) :
    pieceWires (piece :: pieces) concat =
      ⟨piece, concat⟩ :: pieces.map fun piece => ⟨piece, true⟩ := rfl

theorem contents_pieceWires (pieces : List (List Char)) (concat : Bool) :
    (pieceWires pieces concat).flatMap Wire.content = pieces.flatten := by
  cases pieces with
  | nil => rfl
  | cons piece pieces =>
    rw [pieceWires_cons, List.flatMap_cons, List.flatMap_map, List.flatten_cons]
    simp [List.flatMap_id']

theorem mem_pieceWires {pieces : List (List Char)} {concat : Bool} {w : Wire}
    (h : w ∈ pieceWires pieces concat) : w.content ∈ pieces := by
  cases pieces with
  | nil => cases h
  | cons piece pieces =>
    rw [pieceWires_cons] at h
    rcases List.mem_cons.mp h with rfl | h
    · exact List.mem_cons_self
    · obtain ⟨p, hp, rfl⟩ := List.mem_map.mp h
      exact List.mem_cons_of_mem _ hp

theorem exists_pieceWires {pieces : List (List Char)} (concat : Bool) {piece : List Char}
    (h : piece ∈ pieces) : ∃ w ∈ pieceWires pieces concat, w.content = piece := by
  cases pieces with
  | nil => cases h
  | cons p pieces =>
    rw [pieceWires_cons]
    rcases List.mem_cons.mp h with rfl | h
    · exact ⟨_, List.mem_cons_self, rfl⟩
    · exact ⟨⟨piece, true⟩, List.mem_cons_of_mem _ (List.mem_map.mpr ⟨piece, h, rfl⟩), rfl⟩

/-- The characters that are not line ends are the messages' own. -/
theorem ink_reassemble {ws : List Wire} (h : ∀ w ∈ ws, '\n' ∉ w.content) :
    (reassembleMultiline ws).filter (· ≠ '\n') = ws.flatMap Wire.content := by
  have hown (w : Wire) (hw : '\n' ∉ w.content) : w.content.filter (· ≠ '\n') = w.content :=
    List.filter_eq_self.mpr fun c hc => by
      simpa using fun hc' : c = '\n' => hw (hc' ▸ hc)
  have hglue (ws : List Wire) (h : ∀ w ∈ ws, '\n' ∉ w.content) :
      (glue ws).filter (· ≠ '\n') = ws.flatMap Wire.content := by
    induction ws with
    | nil => rfl
    | cons w ws ih =>
      obtain ⟨hw, hws⟩ := List.forall_mem_cons.mp h
      rw [List.flatMap_cons, ← ih hws, ← hown w hw]
      unfold glue
      rw [List.flatMap_cons, List.filter_append]
      cases w.concat <;> simp
  cases ws with
  | nil => rfl
  | cons w ws =>
    obtain ⟨hw, hws⟩ := List.forall_mem_cons.mp h
    rw [reassemble_cons, List.filter_append, hown w hw, hglue ws hws, List.flatMap_cons]

theorem ink_normalised (text : List Char) :
    (normalised text).filter (· ≠ '\n') = (splitLines text).flatten := by
  have hink (lines : List (List Char)) (h : ∀ line ∈ lines, '\n' ∉ line) :
      (['\n'].intercalate lines).filter (· ≠ '\n') = lines.flatten := by
    have hlines := @ink_reassemble (lines.map fun line => ⟨line, false⟩) (by simpa using h)
    cases lines with
    | nil => rfl
    | cons line lines =>
      have hsame : reassembleMultiline ((line :: lines).map fun line => ⟨line, false⟩) =
          ['\n'].intercalate (line :: lines) := by
        refine List.cons_injective (a := '\n') ?_
        rw [← intercalate_lines (List.cons_ne_nil _ _), List.map_cons, reassemble_cons, glue,
          List.flatMap_map, List.flatMap_cons]
        simp
      rw [← hsame, hlines, List.flatMap_map]
      simp [List.flatMap_id']
  unfold normalised
  rw [← splitLines_eq, hink, dropEdges_flatten]
  intro line hline
  refine @newline_not_mem text _ ?_
  exact List.dropWhile_subset _ ((List.rdropWhile_prefix _ _).subset hline)

section Trimming

variable {lineBreak}

/-- Nothing of a line is lost between its pieces. -/
def Kept (lineBreak : List Char → Nat → List (List Char)) (bytes : Nat) (line : List Char) : Prop :=
  (chunkConcat lineBreak line bytes).flatten = line ∧
    (line ≠ [] → chunkConcat lineBreak line bytes ≠ [])

/-- A line goes as a first message and its continuations. -/
theorem lineWires_shape {bytes : Nat} {line : List Char} (h : Kept lineBreak bytes line) :
    ∃ (piece : List Char) (pieces : List (List Char)), lineWires lineBreak bytes line =
        ⟨piece, false⟩ :: pieces.map (fun piece => ⟨piece, true⟩) ∧
      piece ++ pieces.flatten = line := by
  unfold lineWires
  split
  · rename_i hline
    exact ⟨[], [], rfl, by simp [hline]⟩
  · rename_i hline
    cases hpieces : chunkConcat lineBreak line bytes with
    | nil => exact absurd hpieces (h.2 hline)
    | cons piece pieces =>
      have hflat := h.1
      rw [hpieces, List.flatten_cons] at hflat
      exact ⟨piece, pieces, rfl, hflat⟩

theorem glue_lines {bytes : Nat} {lines : List (List Char)}
    (h : ∀ line ∈ lines, Kept lineBreak bytes line) :
    glue (lines.flatMap (lineWires lineBreak bytes)) = lines.flatMap ('\n' :: ·) := by
  induction lines with
  | nil => rfl
  | cons line lines ih =>
    obtain ⟨hline, hlines⟩ := List.forall_mem_cons.mp h
    obtain ⟨piece, pieces, hwires, hflat⟩ := lineWires_shape hline
    rw [List.flatMap_cons, glue_append, ih hlines, List.flatMap_cons, hwires]
    congr 1
    show '\n' :: piece ++ glue _ = '\n' :: line
    rw [glue_continued, ← hflat]
    rfl

theorem reassemble_lines {bytes : Nat} {lines : List (List Char)}
    (h : ∀ line ∈ lines, Kept lineBreak bytes line) :
    reassembleMultiline (lines.flatMap (lineWires lineBreak bytes)) = ['\n'].intercalate lines := by
  cases lines with
  | nil => rfl
  | cons line lines =>
    have hglue := glue_lines h
    obtain ⟨piece, pieces, hwires, -⟩ := lineWires_shape (List.forall_mem_cons.mp h).1
    rw [intercalate_lines (List.cons_ne_nil _ _)] at hglue
    rw [List.flatMap_cons, hwires, List.cons_append] at hglue ⊢
    rw [reassemble_cons]
    exact List.cons_injective hglue

/-- No message of a line that is not blank is cut off from behind. -/
theorem rdropWhile_lines {bytes : Nat} {lines : List (List Char)}
    (h : ∀ line ∈ lines, Kept lineBreak bytes line) :
    (lines.flatMap (lineWires lineBreak bytes)).rdropWhile isBlankWire =
      (lines.rdropWhile (· = [])).flatMap (lineWires lineBreak bytes) := by
  induction lines using List.reverseRecOn with
  | nil => simp
  | append_singleton lines line ih =>
    rw [List.rdropWhile_concat, List.flatMap_append, List.flatMap_singleton]
    by_cases hline : line = []
    · have hwires : lineWires lineBreak bytes line = [⟨[], false⟩] := if_pos hline
      rw [hwires, List.rdropWhile_concat_pos _ _ _ rfl, if_pos (by simpa using hline)]
      exact ih fun l hl => h l (List.mem_append_left _ hl)
    · rw [if_neg (by simpa using hline)]
      obtain ⟨piece, pieces, hwires, hflat⟩ := lineWires_shape (h line (by simp))
      obtain ⟨front, last, hlast, hkept⟩ : ∃ front last,
          lineWires lineBreak bytes line = front ++ [last] ∧ ¬ isBlankWire last = true := by
        cases pieces using List.reverseRecOn with
        | nil =>
          refine ⟨[], _, hwires, fun hblank => hline ?_⟩
          have hpiece : piece = [] := by simpa [isBlankWire] using hblank
          simpa [hpiece] using hflat.symm
        | append_singleton pieces last =>
          exact ⟨⟨piece, false⟩ :: pieces.map (fun piece => ⟨piece, true⟩), ⟨last, true⟩,
            by rw [hwires]; simp, by simp [isBlankWire]⟩
      rw [hlast, ← List.append_assoc, List.rdropWhile_concat_neg _ _ _ hkept, List.flatMap_append,
        List.flatMap_singleton, hlast, List.append_assoc]

/-- From the front only blank lines are cut off, and an empty first piece. -/
theorem dropWhile_lines {bytes : Nat} {lines : List (List Char)}
    (h : ∀ line ∈ lines, Kept lineBreak bytes line) :
    (lines.flatMap (lineWires lineBreak bytes)).dropWhile isBlankWire =
        (lines.dropWhile (· = [])).flatMap (lineWires lineBreak bytes) ∨
      ∃ w ws, (lines.dropWhile (· = [])).flatMap (lineWires lineBreak bytes) =
          ⟨[], false⟩ :: w :: ws ∧ w.concat = true ∧
        (lines.flatMap (lineWires lineBreak bytes)).dropWhile isBlankWire = w :: ws := by
  induction lines with
  | nil => exact .inl rfl
  | cons line lines ih =>
    obtain ⟨hline, hlines⟩ := List.forall_mem_cons.mp h
    by_cases hnil : line = []
    · have hwires : lineWires lineBreak bytes line = [⟨[], false⟩] := if_pos hnil
      rw [List.flatMap_cons, hwires, List.singleton_append, List.dropWhile_cons_of_pos rfl,
        List.dropWhile_cons_of_pos (by simpa using hnil)]
      exact ih hlines
    · rw [List.dropWhile_cons_of_neg (by simpa using hnil)]
      obtain ⟨piece, pieces, hwires, hflat⟩ := lineWires_shape hline
      rw [List.flatMap_cons, hwires, List.cons_append]
      by_cases hpiece : piece = []
      · right
        cases pieces with
        | nil => exact absurd (by simpa [hpiece] using hflat.symm) hnil
        | cons second pieces =>
          refine ⟨⟨second, true⟩, _, by rw [hpiece]; rfl, rfl, ?_⟩
          rw [List.dropWhile_cons_of_pos (by simp [isBlankWire, hpiece])]
          exact List.dropWhile_cons_of_neg (by simp [isBlankWire])
      · left
        exact List.dropWhile_cons_of_neg (by simpa [isBlankWire] using hpiece)

/-- Cutting off from behind stops at an element that stays. -/
theorem rdropWhile_kept {α : Type} {p : α → Bool} {a : α} (h : ¬ p a = true) (l : List α) :
    ∃ rest, ∀ front, (front ++ a :: l).rdropWhile p = front ++ a :: rest := by
  induction l using List.reverseRecOn with
  | nil => exact ⟨[], fun front => List.rdropWhile_concat_neg p front a h⟩
  | append_singleton l b ih =>
    obtain ⟨rest, hrest⟩ := ih
    by_cases hb : p b = true
    · refine ⟨rest, fun front => ?_⟩
      rw [← List.cons_append, ← List.append_assoc, List.rdropWhile_concat_pos _ _ _ hb]
      exact hrest front
    · refine ⟨l ++ [b], fun front => ?_⟩
      rw [← List.cons_append, ← List.append_assoc]
      exact List.rdropWhile_concat_neg p _ b hb

/-- Lines of which nothing is lost come back, edge blank lines apart. -/
theorem reassemble_trimmed {bytes : Nat} {lines : List (List Char)}
    (h : ∀ line ∈ lines, Kept lineBreak bytes line) :
    reassembleMultiline (((lines.flatMap (lineWires lineBreak bytes)).dropWhile
      isBlankWire).rdropWhile isBlankWire) = ['\n'].intercalate (dropEdges lines) := by
  have hrest : ∀ line ∈ lines.dropWhile (· = []), Kept lineBreak bytes line :=
    fun line hline => h line (List.dropWhile_subset _ hline)
  have hedges : ∀ line ∈ dropEdges lines, Kept lineBreak bytes line :=
    fun line hline => hrest line ((List.rdropWhile_prefix _ _).subset hline)
  have htrail := rdropWhile_lines hrest
  rcases dropWhile_lines h with hsame | ⟨w, ws, hcut, hconcat, hdrop⟩
  · rw [hsame, htrail]
    exact reassemble_lines hedges
  · have hw : ¬ isBlankWire w = true := by simp [isBlankWire, hconcat]
    obtain ⟨rest, hkept⟩ := rdropWhile_kept hw ws
    rw [hdrop, show w :: ws = [] ++ w :: ws from rfl, hkept, List.nil_append]
    rw [hcut, show (⟨[], false⟩ :: w :: ws : List Wire) = [⟨[], false⟩] ++ w :: ws from rfl, hkept,
      List.singleton_append] at htrail
    have hback := reassemble_lines hedges
    unfold dropEdges at hback ⊢
    rw [← htrail, reassemble_cons] at hback
    rw [← hback, reassemble_cons]
    simp [glue, hconcat]

/-- The contents are not changed by the trimming. -/
theorem contents_trimmed (ws : List Wire) :
    ((ws.dropWhile isBlankWire).rdropWhile isBlankWire).flatMap Wire.content =
      ws.flatMap Wire.content := by
  have hblank (w : Wire) (h : isBlankWire w = true) : w.content = [] := by
    simp only [isBlankWire, Bool.and_eq_true, decide_eq_true_eq] at h
    exact h.1
  have hlead (ws : List Wire) :
      (ws.dropWhile isBlankWire).flatMap Wire.content = ws.flatMap Wire.content := by
    induction ws with
    | nil => rfl
    | cons w ws ih =>
      rw [List.dropWhile_cons]
      split
      · rename_i hw
        rw [ih, List.flatMap_cons, hblank w hw, List.nil_append]
      · rfl
  have htrail (ws : List Wire) :
      (ws.rdropWhile isBlankWire).flatMap Wire.content = ws.flatMap Wire.content := by
    induction ws using List.reverseRecOn with
    | nil => simp
    | append_singleton ws w ih =>
      rw [List.rdropWhile_concat]
      split
      · rename_i hw
        rw [ih, List.flatMap_append, List.flatMap_singleton, hblank w hw, List.append_nil]
      · rfl
  rw [htrail, hlead]

/-- A message with a content is not trimmed. -/
theorem mem_trimmed {ws : List Wire} {w : Wire} (h : w ∈ ws) (hne : w.content ≠ []) :
    w ∈ (ws.dropWhile isBlankWire).rdropWhile isBlankWire := by
  have hw : ¬ isBlankWire w = true := by simp [isBlankWire, hne]
  obtain ⟨before, after, rfl⟩ := List.append_of_mem h
  have hdrop : ∃ before', (before ++ w :: after).dropWhile isBlankWire = before' ++ w :: after := by
    induction before with
    | nil => exact ⟨[], List.dropWhile_cons_of_neg hw⟩
    | cons b before ih =>
      rw [List.cons_append, List.dropWhile_cons]
      split
      · exact ih (by simp)
      · exact ⟨b :: before, rfl⟩
  obtain ⟨before', hbefore⟩ := hdrop
  obtain ⟨rest, hrest⟩ := rdropWhile_kept hw after
  rw [hbefore, hrest]
  simp

theorem mem_splitMultiline {text : List Char} {bytes : Nat} {w : Wire}
    (h : w ∈ splitMultiline lineBreak text bytes) :
    ∃ line ∈ splitLines text, w ∈ lineWires lineBreak bytes line := by
  unfold splitMultiline at h
  split at h
  · cases h
  · have hmem := List.dropWhile_subset _ ((List.rdropWhile_prefix _ _).subset h)
    exact List.mem_flatMap.mp hmem

theorem contents_split (hbreaks : Breaks lineBreak) {bytes : Nat} (hbytes : 64 ≤ bytes)
    (text : List Char) : (splitMultiline lineBreak text bytes).flatMap Wire.content =
      (splitLines text).flatMap fun line => (chunkConcat lineBreak line bytes).flatten := by
  have hempty : (chunkConcat lineBreak [] bytes).flatten = [] := by
    refine List.eq_nil_iff_forall_not_mem.mpr fun c hc => ?_
    exact absurd ((chunkConcat_spec hbreaks hbytes []).part c hc) List.not_mem_nil
  have hline (line : List Char) : (lineWires lineBreak bytes line).flatMap Wire.content =
      (chunkConcat lineBreak line bytes).flatten := by
    unfold lineWires
    split
    · rename_i hnil
      rw [hnil, hempty]
      rfl
    · exact contents_pieceWires _ _
  unfold splitMultiline
  split
  · rename_i hnil
    rw [hnil, splitLines, List.flatMap_singleton, hempty]
    rfl
  · rw [contents_trimmed, List.flatMap_assoc]
    congr 1
    funext line
    exact hline line

theorem newline_not_mem_wire (hbreaks : Breaks lineBreak) {bytes : Nat} (hbytes : 64 ≤ bytes)
    {text : List Char} {w : Wire} (h : w ∈ splitMultiline lineBreak text bytes) :
    '\n' ∉ w.content := by
  obtain ⟨line, hline, hw⟩ := mem_splitMultiline h
  unfold lineWires at hw
  split at hw
  · rw [List.mem_singleton.mp hw]
    exact List.not_mem_nil
  · intro hnewline
    refine newline_not_mem hline ((chunkConcat_spec hbreaks hbytes line).part _ ?_)
    exact List.mem_flatten.mpr ⟨_, mem_pieceWires hw, hnewline⟩

/-- Whatever shortens its part of a text shows in the whole. -/
theorem parts_of_length {α β : Type} {f g : α → List β} {l : List α}
    (hle : ∀ a ∈ l, (f a).length ≤ (g a).length)
    (h : (l.flatMap f).length = (l.flatMap g).length) :
    ∀ a ∈ l, (f a).length = (g a).length := by
  have hsum : ∀ l : List α, (∀ a ∈ l, (f a).length ≤ (g a).length) →
      (l.flatMap f).length ≤ (l.flatMap g).length := by
    intro l hle
    induction l with
    | nil => exact Nat.le_refl _
    | cons a l ih =>
      obtain ⟨ha, hl⟩ := List.forall_mem_cons.mp hle
      simp only [List.flatMap_cons, List.length_append]
      exact Nat.add_le_add ha (ih hl)
  induction l with
  | nil => exact fun _ h => absurd h List.not_mem_nil
  | cons a l ih =>
    obtain ⟨ha, hl⟩ := List.forall_mem_cons.mp hle
    have hrest := hsum l hl
    simp only [List.flatMap_cons, List.length_append] at h
    exact List.forall_mem_cons.mpr ⟨by omega, ih hl (by omega)⟩

/-- The text comes back from the wire messages exactly when no line loses anything. -/
theorem rejoined_iff (hbreaks : Breaks lineBreak) {bytes : Nat} (hbytes : 64 ≤ bytes)
    (text : List Char) :
    reassembleMultiline (splitMultiline lineBreak text bytes) = normalised text ↔
      ∀ line ∈ splitLines text, ¬ Drops lineBreak line bytes := by
  constructor
  · intro h line hline hdrops
    have hink := congrArg (List.filter (· ≠ '\n')) h
    rw [ink_reassemble fun w hw => newline_not_mem_wire hbreaks hbytes hw, ink_normalised,
      contents_split hbreaks hbytes] at hink
    have hle : ∀ line ∈ splitLines text,
        (chunkConcat lineBreak line bytes).flatten.length ≤ (id line).length := by
      intro line _
      have hspec := chunkConcat_spec hbreaks hbytes line
      by_cases hd : Drops lineBreak line bytes
      · exact Nat.le_of_lt (hspec.less hd)
      · rw [(hspec.whole hd).1]
        exact Nat.le_refl _
    have hsame := parts_of_length hle (by rw [hink, List.flatMap_id]) line hline
    have hless := (chunkConcat_spec hbreaks hbytes line).less hdrops
    exact absurd hsame (Nat.ne_of_lt hless)
  · intro h
    have hkept : ∀ line ∈ splitLines text, Kept lineBreak bytes line :=
      fun line hline => (chunkConcat_spec hbreaks hbytes line).whole (h line hline)
    unfold splitMultiline
    split
    · rename_i hnil
      subst hnil
      rfl
    · rw [reassemble_trimmed hkept, normalised, splitLines_eq]

theorem split_fits (hbreaks : Breaks lineBreak) {bytes : Nat} (hbytes : 64 ≤ bytes)
    {text : List Char} {w : Wire} (h : w ∈ splitMultiline lineBreak text bytes) :
    byteLen w.content ≤ bytes := by
  obtain ⟨line, -, hw⟩ := mem_splitMultiline h
  unfold lineWires at hw
  split at hw
  · rw [List.mem_singleton.mp hw]
    exact Nat.zero_le _
  · exact (chunkConcat_spec hbreaks hbytes line).fits _ (mem_pieceWires hw)

end Trimming

section Packing

variable {limits : MultilineLimits}

def Within (limits : MultilineLimits) (batch : List Wire) : Prop :=
  batch.length ≤ limits.maxLines ∧ wiresBytes batch ≤ limits.maxBytes

/-- The batches hold what has been packed, in order and within the limits. -/
structure Packed (limits : MultilineLimits) (p : Packing) (packed : List Wire) : Prop where
  flat : p.batches.flatten ++ p.cur = packed
  full : ∀ batch ∈ p.batches, Within limits batch
  filling : Within limits p.cur
  counted : p.curBytes = wiresBytes p.cur

theorem wiresBytes_append (ws ws' : List Wire) :
    wiresBytes (ws ++ ws') = wiresBytes ws + wiresBytes ws' := by
  simp [wiresBytes]

theorem packed_flush {p : Packing} {packed : List Wire} (h : Packed limits p packed) :
    Packed limits p.flush packed ∧ p.flush.cur = [] := by
  unfold Packing.flush
  split
  · refine ⟨⟨?_, ?_, ⟨Nat.zero_le _, Nat.zero_le _⟩, rfl⟩, rfl⟩
    · rw [List.flatten_append, ← h.flat]
      simp
    · intro batch hbatch
      rcases List.mem_append.mp hbatch with hold | hnew
      · exact h.full batch hold
      · rw [List.mem_singleton.mp hnew]
        exact h.filling
  · rename_i hcur
    exact ⟨h, not_not.mp hcur⟩

/-- After a flush for some messages, they fit when they fit in a batch at all. -/
theorem packed_flushFor {p : Packing} {packed : List Wire} (h : Packed limits p packed)
    (lines bytes : Nat) : Packed limits (p.flushFor limits lines bytes) packed ∧
      ((p.flushFor limits lines bytes).cur = [] ∨
        (p.flushFor limits lines bytes).cur.length + lines ≤ limits.maxLines ∧
          wiresBytes (p.flushFor limits lines bytes).cur + bytes ≤ limits.maxBytes) := by
  unfold Packing.flushFor
  split
  · obtain ⟨hpacked, hcur⟩ := packed_flush h
    exact ⟨hpacked, .inl hcur⟩
  · rename_i hroom
    refine ⟨h, ?_⟩
    by_cases hcur : p.cur = []
    · exact .inl hcur
    · have hroom := not_or.mp (not_and.mp hroom hcur)
      rw [h.counted] at hroom
      exact .inr ⟨Nat.not_lt.mp hroom.1, Nat.not_lt.mp hroom.2⟩

theorem packed_push {p : Packing} {packed ws : List Wire} (h : Packed limits p packed)
    (hroom : p.cur = [] ∨
      p.cur.length + ws.length ≤ limits.maxLines ∧ wiresBytes p.cur + wiresBytes ws ≤ limits.maxBytes)
    (hws : Within limits ws) : Packed limits (p.push ws) (packed ++ ws) := by
  refine ⟨?_, h.full, ?_, ?_⟩
  · rw [← h.flat, List.append_assoc]
    rfl
  · unfold Within Packing.push
    rw [wiresBytes_append, List.length_append]
    rcases hroom with hnil | hroom
    · rw [hnil]
      simpa [wiresBytes, Within] using hws
    · exact hroom
  · show p.curBytes + wiresBytes ws = wiresBytes (p.cur ++ ws)
    rw [wiresBytes_append, h.counted]

theorem packed_addWire (hlines : 1 ≤ limits.maxLines) {p : Packing} {packed : List Wire}
    (h : Packed limits p packed) {w : Wire} (hw : byteLen w.content ≤ limits.maxBytes) :
    Packed limits (p.addWire limits w) (packed ++ [w]) := by
  obtain ⟨hpacked, hroom⟩ := packed_flushFor h 1 (byteLen w.content)
  have hbytes : wiresBytes [w] = byteLen w.content := by simp [wiresBytes]
  refine packed_push hpacked ?_ ⟨hlines, by rw [hbytes]; exact hw⟩
  rw [hbytes]
  exact hroom

theorem packed_addWires (hlines : 1 ≤ limits.maxLines) {p : Packing} {packed ws : List Wire}
    (h : Packed limits p packed) (hws : ∀ w ∈ ws, byteLen w.content ≤ limits.maxBytes) :
    Packed limits (ws.foldl (Packing.addWire limits) p) (packed ++ ws) := by
  induction ws generalizing p packed with
  | nil => simpa using h
  | cons w ws ih =>
    obtain ⟨hw, hws⟩ := List.forall_mem_cons.mp hws
    have := ih (packed_addWire hlines h hw) hws
    simpa using this

variable {lineBreak}

theorem recut_of_fits {w : Wire} (h : byteLen w.content ≤ limits.maxBytes) :
    recut lineBreak limits w = [w] := if_neg (Nat.not_lt.mpr h)

theorem recut_fits (hbreaks : Breaks lineBreak) (hbytes : 64 ≤ limits.maxBytes) {w w' : Wire}
    (h : w' ∈ recut lineBreak limits w) : byteLen w'.content ≤ limits.maxBytes := by
  unfold recut at h
  split at h
  · exact (chunkConcat_spec hbreaks hbytes w.content).fits _ (mem_pieceWires h)
  · rename_i hfits
    rw [List.mem_singleton.mp h]
    exact Nat.not_lt.mp hfits

theorem le_wiresBytes {w : Wire} {ws : List Wire} (h : w ∈ ws) :
    byteLen w.content ≤ wiresBytes ws :=
  List.single_le_sum (fun _ _ => Nat.zero_le _) _ (List.mem_map_of_mem h)

theorem packed_addLine (hbreaks : Breaks lineBreak) (hbytes : 64 ≤ limits.maxBytes)
    (hlines : 1 ≤ limits.maxLines) {p : Packing} {packed : List Wire} (h : Packed limits p packed)
    (line : List Wire) : Packed limits (p.addLine lineBreak limits line)
      (packed ++ line.flatMap (recut lineBreak limits)) := by
  obtain ⟨hpacked, hroom⟩ := packed_flushFor h line.length (wiresBytes line)
  unfold Packing.addLine
  dsimp only
  split
  · rename_i hfits
    have hsame : line.flatMap (recut lineBreak limits) = line := by
      have hcut (ws : List Wire) (hws : ∀ w ∈ ws, byteLen w.content ≤ limits.maxBytes) :
          ws.flatMap (recut lineBreak limits) = ws := by
        induction ws with
        | nil => rfl
        | cons w ws ih =>
          obtain ⟨hw, hws⟩ := List.forall_mem_cons.mp hws
          rw [List.flatMap_cons, recut_of_fits hw, ih hws]
          rfl
      exact hcut line fun w hw => (le_wiresBytes hw).trans hfits.2
    rw [hsame]
    exact packed_push hpacked hroom hfits
  · refine packed_addWires hlines (packed_flush hpacked).1 fun w hw => ?_
    obtain ⟨w', -, hw'⟩ := List.mem_flatMap.mp hw
    exact recut_fits hbreaks hbytes hw'

theorem groupLines_flatten (ws : List Wire) : (groupLines ws).flatten = ws := by
  have hstep (logical : List (List Wire)) (w : Wire) :
      ((match logical.getLast? with
        | none => logical ++ [[w]]
        | some line =>
          if w.concat then logical.dropLast ++ [line ++ [w]] else logical ++ [[w]])).flatten =
        logical.flatten ++ [w] := by
    split
    · simp
    · rename_i line hlast
      have hback := List.dropLast_append_getLast? line hlast
      split
      · conv_rhs => rw [← hback]
        simp
      · simp
  unfold groupLines
  induction ws using List.reverseRecOn with
  | nil => rfl
  | append_singleton ws w ih =>
    rw [List.foldl_append, List.foldl_cons, List.foldl_nil, hstep, ih]

/-- The batches hold the wire messages, cut again where one is over a batch's limit. -/
theorem partition_spec (hbreaks : Breaks lineBreak) (hbytes : 64 ≤ limits.maxBytes)
    (hlines : 1 ≤ limits.maxLines) (text : List Char) (bytes : Nat) :
    (partitionMultiline lineBreak text limits bytes).flatten =
        (splitMultiline lineBreak text bytes).flatMap (recut lineBreak limits) ∧
      ∀ batch ∈ partitionMultiline lineBreak text limits bytes, Within limits batch := by
  have hrun (lines : List (List Wire)) (p : Packing) (packed : List Wire)
      (h : Packed limits p packed) : Packed limits (lines.foldl (Packing.addLine lineBreak limits) p)
        (packed ++ lines.flatten.flatMap (recut lineBreak limits)) := by
    induction lines generalizing p packed with
    | nil => simpa using h
    | cons line lines ih =>
      have := ih _ _ (packed_addLine hbreaks hbytes hlines h line)
      simpa using this
  unfold partitionMultiline
  dsimp only
  split
  · rename_i hnil
    rw [hnil]
    exact ⟨rfl, by simp⟩
  · have hstart : Packed limits ⟨[], [], 0⟩ [] :=
      ⟨rfl, by simp, ⟨Nat.zero_le _, Nat.zero_le _⟩, rfl⟩
    obtain ⟨hpacked, hcur⟩ := packed_flush
      (hrun (groupLines (splitMultiline lineBreak text bytes)) _ _ hstart)
    refine ⟨?_, hpacked.full⟩
    have hflat := hpacked.flat
    rw [hcur, List.append_nil, groupLines_flatten, List.nil_append] at hflat
    exact hflat

theorem recut_shape (hbreaks : Breaks lineBreak) (hbytes : 64 ≤ limits.maxBytes) {w : Wire}
    (h : limits.maxBytes < byteLen w.content → ¬ Drops lineBreak w.content limits.maxBytes) :
    ∃ (piece : List Char) (pieces : List (List Char)), recut lineBreak limits w =
        ⟨piece, w.concat⟩ :: pieces.map (fun piece => ⟨piece, true⟩) ∧
      piece ++ pieces.flatten = w.content := by
  unfold recut
  split
  · rename_i hover
    obtain ⟨hflat, hne⟩ := (chunkConcat_spec hbreaks hbytes w.content).whole (h hover)
    have hcontent : w.content ≠ [] := by
      intro hnil
      simp [hnil] at hover
    cases hpieces : chunkConcat lineBreak w.content limits.maxBytes with
    | nil => exact absurd hpieces (hne hcontent)
    | cons piece pieces =>
      rw [hpieces, List.flatten_cons] at hflat
      exact ⟨piece, pieces, rfl, hflat⟩
  · exact ⟨w.content, [], rfl, by simp⟩

/-- Cutting messages again without dropping anything does not change what they make up. -/
theorem reassemble_recut (hbreaks : Breaks lineBreak) (hbytes : 64 ≤ limits.maxBytes)
    {ws : List Wire} (h : ∀ w ∈ ws, limits.maxBytes < byteLen w.content →
      ¬ Drops lineBreak w.content limits.maxBytes) :
    reassembleMultiline (ws.flatMap (recut lineBreak limits)) = reassembleMultiline ws := by
  have hglue (ws : List Wire) (h : ∀ w ∈ ws, limits.maxBytes < byteLen w.content →
      ¬ Drops lineBreak w.content limits.maxBytes) :
      glue (ws.flatMap (recut lineBreak limits)) = glue ws := by
    induction ws with
    | nil => rfl
    | cons w ws ih =>
      obtain ⟨hw, hws⟩ := List.forall_mem_cons.mp h
      obtain ⟨piece, pieces, hrecut, hflat⟩ := recut_shape hbreaks hbytes hw
      have hcons (w : Wire) (ws : List Wire) : glue (w :: ws) =
          (if w.concat then w.content else '\n' :: w.content) ++ glue ws := rfl
      rw [List.flatMap_cons, glue_append, ih hws, hrecut, hcons, glue_continued, hcons, ← hflat]
      cases w.concat <;> simp
  cases ws with
  | nil => rfl
  | cons w ws =>
    obtain ⟨hw, hws⟩ := List.forall_mem_cons.mp h
    obtain ⟨piece, pieces, hrecut, hflat⟩ := recut_shape hbreaks hbytes hw
    rw [List.flatMap_cons, hrecut, List.cons_append, reassemble_cons, glue_append, glue_continued,
      hglue ws hws, reassemble_cons, ← hflat, List.append_assoc]

theorem recut_contents_le (hbreaks : Breaks lineBreak) (hbytes : 64 ≤ limits.maxBytes) (w : Wire) :
    ((recut lineBreak limits w).flatMap Wire.content).length ≤ w.content.length ∧
      (limits.maxBytes < byteLen w.content → Drops lineBreak w.content limits.maxBytes →
        ((recut lineBreak limits w).flatMap Wire.content).length < w.content.length) ∧
      ∀ w' ∈ recut lineBreak limits w, ∀ c ∈ w'.content, c ∈ w.content := by
  have hspec := chunkConcat_spec hbreaks hbytes w.content
  unfold recut
  split
  · rename_i hover
    rw [contents_pieceWires]
    refine ⟨?_, fun _ hdrops => hspec.less hdrops, fun w' hw' c hc => ?_⟩
    · by_cases hdrops : Drops lineBreak w.content limits.maxBytes
      · exact Nat.le_of_lt (hspec.less hdrops)
      · rw [(hspec.whole hdrops).1]
    · exact hspec.part c (List.mem_flatten.mpr ⟨_, mem_pieceWires hw', hc⟩)
  · rename_i hfits
    refine ⟨by simp, fun hover => absurd hover hfits, fun w' hw' c hc => ?_⟩
    rwa [List.mem_singleton.mp hw'] at hc

/-- A multiline send is lossless exactly when nothing is dropped. -/
theorem lossless_iff (hbreaks : Breaks lineBreak) {bytes : Nat} (hbytes : 64 ≤ bytes)
    (hmax : 64 ≤ limits.maxBytes) (hlines : 1 ≤ limits.maxLines) (text : List Char) :
    Lossless lineBreak text bytes limits ↔ NothingDropped lineBreak text bytes limits := by
  obtain ⟨hflat, hwithin⟩ := partition_spec hbreaks hmax hlines text bytes
  constructor
  · intro h
    have hkept := (rejoined_iff hbreaks hbytes text).mp h.rejoined
    refine ⟨hkept, fun line hline piece hpiece hover hdrops => ?_⟩
    have hbatches := h.batches
    rw [hflat, ← h.rejoined] at hbatches
    have hink := congrArg (List.filter (· ≠ '\n')) hbatches
    rw [ink_reassemble, ink_reassemble fun w hw => newline_not_mem_wire hbreaks hbytes hw,
      List.flatMap_assoc] at hink
    · have hnonempty : piece ≠ [] := by
        rintro rfl
        simp at hover
      obtain ⟨w, hw, rfl⟩ := exists_pieceWires false hpiece
      have hlineWires : w ∈ lineWires lineBreak bytes line := by
        have hne : line ≠ [] := by
          rintro rfl
          obtain ⟨c, rest, hcontent⟩ := List.exists_cons_of_ne_nil hnonempty
          have := (chunkConcat_spec hbreaks hbytes []).part c
            (List.mem_flatten.mpr ⟨_, hpiece, by rw [hcontent]; exact List.mem_cons_self⟩)
          exact List.not_mem_nil this
        rw [lineWires, if_neg hne]
        exact hw
      have hmem : w ∈ splitMultiline lineBreak text bytes := by
        unfold splitMultiline
        split
        · rename_i hnil
          rw [hnil, splitLines, List.mem_singleton] at hline
          subst hline
          rw [lineWires, if_pos rfl, List.mem_singleton] at hlineWires
          rw [hlineWires] at hnonempty
          exact absurd rfl hnonempty
        · exact mem_trimmed (List.mem_flatMap.mpr ⟨line, hline, hlineWires⟩) hnonempty
      have hsame := parts_of_length (fun w _ => (recut_contents_le hbreaks hmax w).1)
        (congrArg List.length hink) w hmem
      exact absurd hsame (Nat.ne_of_lt ((recut_contents_le hbreaks hmax w).2.1 hover hdrops))
    · intro w' hw' hnewline
      obtain ⟨w, hw, hcut⟩ := List.mem_flatMap.mp hw'
      exact newline_not_mem_wire hbreaks hbytes hw
        ((recut_contents_le hbreaks hmax w).2.2 w' hcut _ hnewline)
  · intro h
    have hrejoined := (rejoined_iff hbreaks hbytes text).mpr h.lines
    refine ⟨hrejoined, fun w hw => split_fits hbreaks hbytes hw, ?_, hwithin⟩
    rw [hflat, reassemble_recut hbreaks hmax, hrejoined]
    intro w hw hover
    obtain ⟨line, hline, hlineWires⟩ := mem_splitMultiline hw
    unfold lineWires at hlineWires
    split at hlineWires
    · rw [List.mem_singleton.mp hlineWires] at hover
      simp at hover
    · exact h.pieces line hline _ (mem_pieceWires hlineWires) hover

end Packing

/-- A line breaker that drops nothing of a line that is not blank. -/
def packBreak (line : List Char) (bytes : Nat) : List (List Char) :=
  if Blank line then [] else runsFrom bytes [] line

theorem packBreak_breaks : Breaks packBreak where
  blank line bytes _ h := if_pos h
  spaced line bytes _ h := by
    have hflat (pieces : List (List Char)) : Spaced pieces.flatten pieces := by
      induction pieces with
      | nil => exact .nil [] rfl
      | cons piece pieces ih => exact .cons [] piece _ pieces rfl ih
    have hpieces : packBreak line bytes = runsFrom bytes [] line := if_neg h
    have := hflat (runsFrom bytes [] line)
    rw [runsFrom_flatten, List.nil_append] at this
    rwa [hpieces]
  fits line bytes hbytes := by
    unfold packBreak
    split
    · simp
    · exact runsFrom_fits hbytes line (Nat.zero_le _)

theorem lossless_iff_greeting : Lossless packBreak "hello\nworld".toList 64 ⟨64, 1⟩ ↔
    NothingDropped packBreak "hello\nworld".toList 64 ⟨64, 1⟩ :=
  lossless_iff packBreak_breaks (Nat.le_refl 64) (Nat.le_refl 64) (Nat.le_refl 1) _

/-- A line of spaces that is over the budget is gone. -/
theorem spaces_lost :
    Breaks packBreak ∧ ¬ Lossless packBreak (List.replicate 65 ' ') 64 ⟨64, 1⟩ := by
  refine ⟨packBreak_breaks, fun h => ?_⟩
  have hrejoined := h.rejoined
  revert hrejoined
  decide +kernel

end Lurker.Outbound
