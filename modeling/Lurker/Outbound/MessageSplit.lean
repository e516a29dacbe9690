import Lurker.Outbound.Queue
import Mathlib.Data.List.DropRight
import Mathlib.Data.List.Induction

/-!
# Splitting messages

A line that is over the budget of one wire message goes as several, which a multiline
receiver glues back together. The platform's line breaker drops the white space it cuts
at, so `chunkConcat` looks for every dropped run and puts it back: at the end of the
piece before it, else at the start of the piece after it, else as pieces of its own.
-/

namespace Lurker.Outbound

/-- Bytes of UTF-8. -/
def byteLen (s : List Char) : Nat := (s.map Char.utf8Size).sum

@[simp] theorem byteLen_nil : byteLen [] = 0 := rfl

@[simp] theorem byteLen_cons (c : Char) (s : List Char) :
    byteLen (c :: s) = c.utf8Size + byteLen s := by
  simp [byteLen]

/-- All white space. -/
def Blank (s : List Char) : Prop := s.all isSpace = true

instance (s : List Char) : Decidable (Blank s) := inferInstanceAs (Decidable (_ = _))

-- the platform's line breaker: the pieces of a line for a budget of bytes
variable (lineBreak : List Char → Nat → List (List Char))

def chunk (text : List Char) (bytes : Nat) : List (List Char) :=
  let pieces := lineBreak text bytes
  if pieces = [] ∧ text ≠ [] ∧ byteLen text ≤ bytes then [text] else pieces

/-- White space alone in pieces of the budget, after the run so far. -/
def runsFrom (bytes : Nat) : List Char → List Char → List (List Char)
  | run, [] => if run ≠ [] then [run] else []
  | run, c :: gap =>
    if byteLen (run ++ [c]) > bytes then run :: runsFrom bytes [c] gap
    else runsFrom bytes (run ++ [c]) gap

def pushRuns (bytes : Nat) (out : List (List Char)) (gap : List Char) : List (List Char) :=
  out ++ runsFrom bytes [] gap

/-- Restore the gap before `next`: on the piece already out, on `next`, or on its own. -/
def attach (bytes : Nat) (out : List (List Char)) (gap next : List Char) :
    List (List Char) × List Char :=
  let elsewhere :=
    if byteLen (gap ++ next) ≤ bytes then (out, gap ++ next) else (pushRuns bytes out gap, next)
  match out.getLast? with
  | some prev =>
    if byteLen (prev ++ gap) ≤ bytes then (out.dropLast ++ [prev ++ gap], next) else elsewhere
  | none => elsewhere

/-- What stands before the first occurrence of a piece, and after it. -/
def cutAt (piece : List Char) : List Char → Option (List Char × List Char)
  | [] => if piece = [] then some ([], []) else none
  | c :: rest =>
    if piece.isPrefixOf (c :: rest) then some ([], (c :: rest).drop piece.length)
    else (cutAt piece rest).map fun cut => (c :: cut.1, cut.2)

/-- Walk the line alongside its pieces: what goes out, and the rest of the line. None when a
piece is not found, or not after white space alone. -/
def walk (bytes : Nat) : List (List Char) → List Char → List (List Char) →
    Option (List (List Char) × List Char)
  | out, rest, [] => some (out, rest)
  | out, rest, piece :: pieces =>
    match cutAt piece rest with
    | none => none
    | some (gap, rest) =>
      if Blank gap then
        let (out, next) := if gap ≠ [] then attach bytes out gap piece else (out, piece)
        walk bytes (out ++ [next]) rest pieces
      else none

/-- Restore the white space at the end of the line. -/
def attachTail (bytes : Nat) (out : List (List Char)) (tail : List Char) : List (List Char) :=
  if tail = [] then out
  else
    match out.getLast? with
    | some prev =>
      if byteLen (prev ++ tail) ≤ bytes then out.dropLast ++ [prev ++ tail]
      else pushRuns bytes out tail
    | none => pushRuns bytes out tail

/-- The wire pieces of one logical line, each but the first a continuation. -/
def chunkConcat (line : List Char) (bytes : Nat) : List (List Char) :=
  let pieces := chunk lineBreak line bytes
  if pieces.length ≤ 1 then pieces
  else
    match walk bytes [] line pieces with
    | none => pieces
    | some (out, tail) => attachTail bytes out tail

/-- The pieces are in a line in order, with nothing but white space around them. -/
inductive Spaced : List Char → List (List Char) → Prop
  | nil (gap : List Char) : Blank gap → Spaced gap []
  | cons (gap piece rest : List Char) (pieces : List (List Char)) :
      Blank gap → Spaced rest pieces → Spaced (gap ++ (piece ++ rest)) (piece :: pieces)

/-- What the platform promises of a budget of at least 64 bytes. -/
structure Breaks : Prop where
  blank : ∀ line bytes, 64 ≤ bytes → Blank line → lineBreak line bytes = []
  spaced : ∀ line bytes, 64 ≤ bytes → ¬ Blank line → Spaced line (lineBreak line bytes)
  fits : ∀ line bytes, 64 ≤ bytes → ∀ piece ∈ lineBreak line bytes, byteLen piece ≤ bytes

/-- A line that `chunk` loses some of: all white space and over the budget, or left with
one piece that is not the line. -/
def Drops (line : List Char) (bytes : Nat) : Prop :=
  (Blank line ∧ bytes < byteLen line) ∨
    (¬ Blank line ∧ ∃ piece, lineBreak line bytes = [piece] ∧ piece ≠ line)

theorem blank_append {s t : List Char} : Blank (s ++ t) ↔ Blank s ∧ Blank t := by
  simp [Blank, List.all_append]

theorem utf8Size_le (c : Char) : c.utf8Size ≤ 4 := Char.utf8Size_le_four c

theorem runsFrom_flatten (bytes : Nat) (run gap : List Char) :
    (runsFrom bytes run gap).flatten = run ++ gap := by
  induction gap generalizing run with
  | nil =>
    unfold runsFrom
    split
    · simp
    · rename_i h
      simp [not_not.mp h]
  | cons c gap ih =>
    unfold runsFrom
    split
    · rw [List.flatten_cons, ih]
      rfl
    · rw [ih, List.append_assoc]
      rfl

theorem runsFrom_fits {bytes : Nat} (hbytes : 64 ≤ bytes) {run : List Char} (gap : List Char)
    (hrun : byteLen run ≤ bytes) : ∀ piece ∈ runsFrom bytes run gap, byteLen piece ≤ bytes := by
  induction gap generalizing run with
  | nil =>
    unfold runsFrom
    split
    · intro piece hpiece
      rw [List.mem_singleton.mp hpiece]
      exact hrun
    · simp
  | cons c gap ih =>
    have hc := utf8Size_le c
    unfold runsFrom
    split
    · refine List.forall_mem_cons.mpr ⟨hrun, ih ?_⟩
      simp only [byteLen_cons, byteLen_nil]
      omega
    · rename_i h
      exact ih (Nat.not_lt.mp h)

/-- Restoring a gap keeps the text and the budget. -/
theorem attach_spec {bytes : Nat} (hbytes : 64 ≤ bytes) {out : List (List Char)}
    (gap : List Char) {next : List Char} (hout : ∀ piece ∈ out, byteLen piece ≤ bytes)
    (hnext : byteLen next ≤ bytes) :
    (attach bytes out gap next).1.flatten ++ (attach bytes out gap next).2 =
        out.flatten ++ (gap ++ next) ∧
      (∀ piece ∈ (attach bytes out gap next).1, byteLen piece ≤ bytes) ∧
      byteLen (attach bytes out gap next).2 ≤ bytes := by
  have helsewhere (e : List (List Char) × List Char)
      (he : e = if byteLen (gap ++ next) ≤ bytes then (out, gap ++ next)
        else (pushRuns bytes out gap, next)) :
      e.1.flatten ++ e.2 = out.flatten ++ (gap ++ next) ∧
        (∀ piece ∈ e.1, byteLen piece ≤ bytes) ∧ byteLen e.2 ≤ bytes := by
    split at he
    · rename_i hfits
      subst he
      exact ⟨rfl, hout, hfits⟩
    · subst he
      refine ⟨?_, ?_, hnext⟩
      · simp only [pushRuns, List.flatten_append, runsFrom_flatten, List.nil_append,
          List.append_assoc]
      · intro piece hpiece
        rcases List.mem_append.mp hpiece with h | h
        · exact hout piece h
        · exact runsFrom_fits hbytes gap (by simp) piece h
  unfold attach
  dsimp only
  split
  · rename_i prev hprev
    split
    · rename_i hfits
      have hback := List.dropLast_append_getLast? prev hprev
      refine ⟨?_, ?_, hnext⟩
      · conv_rhs => rw [← hback]
        simp
      · intro piece hpiece
        rcases List.mem_append.mp hpiece with h | h
        · exact hout piece (List.mem_of_mem_dropLast h)
        · rw [List.mem_singleton.mp h]
          exact hfits
    · exact helsewhere _ rfl
  · exact helsewhere _ rfl

theorem attachTail_spec {bytes : Nat} (hbytes : 64 ≤ bytes) {out : List (List Char)}
    (tail : List Char) (hout : ∀ piece ∈ out, byteLen piece ≤ bytes) :
    (attachTail bytes out tail).flatten = out.flatten ++ tail ∧
      (∀ piece ∈ attachTail bytes out tail, byteLen piece ≤ bytes) ∧
      (out ≠ [] → attachTail bytes out tail ≠ []) := by
  have hpush : (pushRuns bytes out tail).flatten = out.flatten ++ tail ∧
      (∀ piece ∈ pushRuns bytes out tail, byteLen piece ≤ bytes) ∧
      (out ≠ [] → pushRuns bytes out tail ≠ []) := by
    refine ⟨?_, ?_, ?_⟩
    · simp [pushRuns, runsFrom_flatten]
    · intro piece hpiece
      rcases List.mem_append.mp hpiece with h | h
      · exact hout piece h
      · exact runsFrom_fits hbytes tail (by simp) piece h
    · intro hne h
      exact hne (List.append_eq_nil_iff.mp h).1
  unfold attachTail
  split
  · rename_i htail
    exact ⟨by simp [htail], hout, id⟩
  · split
    · rename_i prev hprev
      split
      · rename_i hfits
        have hback := List.dropLast_append_getLast? prev hprev
        refine ⟨?_, ?_, by simp⟩
        · conv_rhs => rw [← hback]
          simp
        · intro piece hpiece
          rcases List.mem_append.mp hpiece with h | h
          · exact hout piece (List.mem_of_mem_dropLast h)
          · rw [List.mem_singleton.mp h]
            exact hfits
      · exact hpush
    · exact hpush

/-- Blank text before a line changes nothing but its first gap. -/
theorem spaced_blank {gap rest : List Char} {pieces : List (List Char)} (hgap : Blank gap)
    (h : Spaced rest pieces) : Spaced (gap ++ rest) pieces := by
  cases h with
  | nil _ hrest => exact .nil _ (blank_append.mpr ⟨hgap, hrest⟩)
  | cons first piece rest pieces hfirst hrest =>
    rw [← List.append_assoc]
    exact .cons _ piece rest pieces (blank_append.mpr ⟨hgap, hfirst⟩) hrest

theorem cutAt_some {piece : List Char} {text before after : List Char}
    (h : cutAt piece text = some (before, after)) : text = before ++ (piece ++ after) := by
  induction text generalizing before with
  | nil =>
    rw [cutAt] at h
    split at h
    · rename_i hnil
      obtain ⟨rfl, rfl⟩ := Prod.mk.inj (Option.some.inj h)
      rw [hnil]
      rfl
    · cases h
  | cons c text ih =>
    rw [cutAt] at h
    split at h
    · rename_i hstarts
      obtain ⟨after', htext⟩ := List.isPrefixOf_iff_prefix.mp hstarts
      obtain ⟨rfl, rfl⟩ := Prod.mk.inj (Option.some.inj h)
      rw [← htext, List.drop_left]
      rfl
    · obtain ⟨⟨before', after'⟩, hcut, heq⟩ := Option.map_eq_some_iff.mp h
      obtain ⟨rfl, rfl⟩ := Prod.mk.inj heq
      rw [ih hcut]
      rfl

/-- The first occurrence of a piece stands at its place or before it. -/
theorem cutAt_le {piece gap rest : List Char} : ∃ before after,
    cutAt piece (gap ++ (piece ++ rest)) = some (before, after) ∧ before.length ≤ gap.length := by
  induction gap with
  | nil =>
    cases htext : ([] : List Char) ++ (piece ++ rest) with
    | nil =>
      have hpiece : piece = [] := (List.append_eq_nil_iff.mp (List.append_eq_nil_iff.mp htext).2).1
      exact ⟨[], [], by rw [cutAt, if_pos hpiece], Nat.le_refl _⟩
    | cons c text =>
      refine ⟨[], (c :: text).drop piece.length, ?_, Nat.le_refl _⟩
      rw [cutAt, if_pos]
      rw [← htext]
      exact List.isPrefixOf_iff_prefix.mpr (List.prefix_append piece rest)
  | cons c gap ih =>
    obtain ⟨before, after, hcut, hle⟩ := ih
    rw [List.cons_append, cutAt]
    split
    · exact ⟨[], _, rfl, Nat.zero_le _⟩
    · exact ⟨c :: before, after, by rw [hcut]; rfl, Nat.succ_le_succ hle⟩

/-- Found early, a piece is white space itself: what it leaves is still spaced. -/
theorem cutAt_spaced {piece gap rest : List Char} {pieces : List (List Char)} (hgap : Blank gap)
    (hrest : Spaced rest pieces) : ∃ before after,
      cutAt piece (gap ++ (piece ++ rest)) = some (before, after) ∧ Blank before ∧
        Spaced after pieces := by
  obtain ⟨before, after, hcut, hle⟩ := @cutAt_le piece gap rest
  refine ⟨before, after, hcut, ?_⟩
  have htext := cutAt_some hcut
  obtain ⟨between, rfl, htail⟩ : ∃ between, gap = before ++ between ∧
      piece ++ after = between ++ (piece ++ rest) := by
    rcases List.append_eq_append_iff.mp htext with ⟨extra, hbefore, htail⟩ | ⟨extra, hgap', htail⟩
    · have hextra : extra = [] := by
        rw [hbefore, List.length_append] at hle
        exact List.length_eq_zero_iff.mp (by omega)
      subst hextra
      exact ⟨[], by rw [hbefore]; simp, by rw [htail]; rfl⟩
    · exact ⟨extra, hgap', htail⟩
  obtain ⟨hbefore, hbetween⟩ := blank_append.mp hgap
  refine ⟨hbefore, ?_⟩
  by_cases hnil : between = []
  · subst hnil
    obtain rfl := List.append_cancel_left htail
    exact hrest
  -- the piece repeats what is between, so it is white space
  have hblank : Blank piece := by
    rw [Blank, List.all_eq_true]
    by_contra hsome
    push Not at hsome
    obtain ⟨c, hc, hspace⟩ := hsome
    obtain ⟨lead, c', tail, hpiece, hlead, hc'⟩ : ∃ lead c' tail, piece = lead ++ c' :: tail ∧
        Blank lead ∧ isSpace c' = false := by
      refine ⟨piece.takeWhile isSpace, ?_⟩
      cases hdrop : piece.dropWhile isSpace with
      | nil =>
        rw [List.dropWhile_eq_nil_iff] at hdrop
        exact absurd (hdrop c hc) hspace
      | cons c' tail =>
        have hhead := List.head?_dropWhile_not isSpace piece
        rw [hdrop] at hhead
        refine ⟨c', tail, ?_, ?_, hhead⟩
        · conv_lhs => rw [← List.takeWhile_append_dropWhile (p := isSpace) (l := piece), hdrop]
        · rw [Blank, List.all_eq_true]
          exact fun d hd => List.mem_takeWhile_imp hd
    have hat : (between ++ (piece ++ rest))[lead.length]? = some c' := by
      rw [← htail, hpiece]
      simp
    have hlt : lead.length < (between ++ lead).length := by
      have := List.length_pos_iff.mpr hnil
      rw [List.length_append]
      omega
    have hspaces : Blank (between ++ lead) := blank_append.mpr ⟨hbetween, hlead⟩
    have hshape : between ++ (piece ++ rest) = (between ++ lead) ++ (c' :: tail ++ rest) := by
      rw [hpiece]
      simp
    rw [hshape, List.getElem?_append_left hlt] at hat
    have := List.all_eq_true.mp hspaces c' (List.mem_of_getElem? hat)
    rw [hc'] at this
    cases this
  obtain ⟨left, hleft, rfl⟩ : ∃ left, Blank left ∧ after = left ++ rest := by
    have hall : (piece ++ after) = (between ++ piece) ++ rest := by rw [htail]; simp
    have hlen := congrArg List.length htail
    simp only [List.length_append] at hlen
    refine ⟨(between ++ piece).drop piece.length, ?_, ?_⟩
    · rw [Blank, List.all_eq_true]
      have hboth : Blank (between ++ piece) := blank_append.mpr ⟨hbetween, hblank⟩
      exact fun d hd => List.all_eq_true.mp hboth d (List.mem_of_mem_drop hd)
    · have := congrArg (List.drop piece.length) hall
      rw [List.drop_left, List.drop_append_of_le_length (by simp)] at this
      exact this
  exact spaced_blank hleft hrest

/-- The walk keeps the text and the budget, and finds every piece. -/
theorem walk_spec {bytes : Nat} (hbytes : 64 ≤ bytes) {pieces : List (List Char)}
    {out : List (List Char)} {rest : List Char} (hspaced : Spaced rest pieces)
    (hout : ∀ piece ∈ out, byteLen piece ≤ bytes)
    (hpieces : ∀ piece ∈ pieces, byteLen piece ≤ bytes) :
    ∃ out' tail, walk bytes out rest pieces = some (out', tail) ∧
      out'.flatten ++ tail = out.flatten ++ rest ∧ (∀ piece ∈ out', byteLen piece ≤ bytes) ∧
      (pieces ≠ [] ∨ out ≠ [] → out' ≠ []) := by
  induction pieces generalizing out rest with
  | nil =>
    refine ⟨out, rest, rfl, rfl, hout, fun h => ?_⟩
    exact h.resolve_left fun hne => hne rfl
  | cons piece pieces ih =>
    cases hspaced with
    | cons gap _ rest _ hgap hrest =>
      obtain ⟨before, after, hcut, hbefore, hafter⟩ := cutAt_spaced hgap hrest
      obtain ⟨hpiece, hpieces⟩ := List.forall_mem_cons.mp hpieces
      have htext := cutAt_some hcut
      obtain ⟨out₁, next, hnext, hflat, hfits, hfits'⟩ : ∃ out₁ next,
          (if before ≠ [] then attach bytes out before piece else (out, piece)) = (out₁, next) ∧
          out₁.flatten ++ next = out.flatten ++ (before ++ piece) ∧
          (∀ piece ∈ out₁, byteLen piece ≤ bytes) ∧ byteLen next ≤ bytes := by
        split
        · obtain ⟨h1, h2, h3⟩ := attach_spec hbytes before hout hpiece
          exact ⟨_, _, rfl, h1, h2, h3⟩
        · rename_i hnil
          exact ⟨out, piece, rfl, by rw [not_not.mp hnil]; rfl, hout, hpiece⟩
      have hout' : ∀ piece ∈ out₁ ++ [next], byteLen piece ≤ bytes := by
        intro p hp
        rcases List.mem_append.mp hp with h | h
        · exact hfits p h
        · rw [List.mem_singleton.mp h]
          exact hfits'
      obtain ⟨out', tail, hwalk, hkeeps, hall, hne⟩ := ih hafter hout' hpieces
      refine ⟨out', tail, ?_, ?_, hall, fun _ => hne (.inr (by simp))⟩
      · rw [walk, hcut]
        simp only [if_pos hbefore, hnext]
        exact hwalk
      · rw [hkeeps, htext, List.flatten_append]
        simp only [List.flatten_cons, List.flatten_nil, List.append_nil]
        rw [hflat]
        simp

variable {lineBreak}

theorem mem_of_spaced {line piece : List Char} (h : Spaced line [piece]) {c : Char}
    (hc : c ∈ piece) : c ∈ line := by
  cases h with
  | cons gap _ rest _ _ _ => exact List.mem_append_right _ (List.mem_append_left _ hc)

theorem length_lt_of_spaced {line piece : List Char} (h : Spaced line [piece])
    (hne : piece ≠ line) : piece.length < line.length := by
  cases h with
  | cons gap _ rest _ hgap hrest =>
    simp only [List.length_append]
    by_contra hle
    have hgap' : gap = [] := List.length_eq_zero_iff.mp (by omega)
    have hrest' : rest = [] := List.length_eq_zero_iff.mp (by omega)
    apply hne
    simp [hgap', hrest']

/-- What `chunkConcat` makes of a line: pieces within the budget, which make up the line
unless some of it is dropped. -/
structure Chunked (line : List Char) (pieces : List (List Char)) (dropped : Prop) (bytes : Nat) :
    Prop where
  fits : ∀ piece ∈ pieces, byteLen piece ≤ bytes
  part : ∀ c ∈ pieces.flatten, c ∈ line
  whole : ¬ dropped → pieces.flatten = line ∧ (line ≠ [] → pieces ≠ [])
  less : dropped → pieces.flatten.length < line.length

theorem length_pos_of_byteLen {line : List Char} (h : 0 < byteLen line) : 0 < line.length := by
  cases line with
  | nil => simp at h
  | cons c line => simp

theorem chunkConcat_of_short {line : List Char} {bytes : Nat}
    (h : (chunk lineBreak line bytes).length ≤ 1) :
    chunkConcat lineBreak line bytes = chunk lineBreak line bytes := if_pos h

theorem chunkConcat_spec (hbreaks : Breaks lineBreak) {bytes : Nat} (hbytes : 64 ≤ bytes)
    (line : List Char) :
    Chunked line (chunkConcat lineBreak line bytes) (Drops lineBreak line bytes) bytes := by
  by_cases hblank : Blank line
  · have hnone := hbreaks.blank line bytes hbytes hblank
    have hdrops : Drops lineBreak line bytes ↔ bytes < byteLen line := by
      unfold Drops
      simp [hblank]
    by_cases hfits : line ≠ [] ∧ byteLen line ≤ bytes
    · have hchunk : chunk lineBreak line bytes = [line] := by
        rw [chunk, hnone]
        exact if_pos ⟨rfl, hfits⟩
      have hkept : ¬ Drops lineBreak line bytes := by
        rw [hdrops]
        omega
      rw [chunkConcat_of_short (by rw [hchunk]; exact Nat.le_refl 1), hchunk]
      exact ⟨by simpa using hfits.2, by simp, fun _ => ⟨by simp, fun _ => by simp⟩,
        fun h => absurd h hkept⟩
    · have hchunk : chunk lineBreak line bytes = [] := by
        rw [chunk, hnone]
        exact if_neg fun h => hfits h.2
      rw [chunkConcat_of_short (by rw [hchunk]; exact Nat.zero_le 1), hchunk]
      refine ⟨by simp, by simp, fun hkept => ?_, fun hdropped => ?_⟩
      · rw [hdrops] at hkept
        have hnil : line = [] := by
          by_contra hne
          exact hfits ⟨hne, by omega⟩
        exact ⟨by simp [hnil], fun hne => absurd hnil hne⟩
      · rw [hdrops] at hdropped
        exact length_pos_of_byteLen (by omega)
  · have hspaced := hbreaks.spaced line bytes hbytes hblank
    have hall := hbreaks.fits line bytes hbytes
    have hdrops : Drops lineBreak line bytes ↔ ∃ piece, lineBreak line bytes = [piece] ∧
        piece ≠ line := by
      unfold Drops
      simp [hblank]
    have hne : lineBreak line bytes ≠ [] := by
      intro hnone
      rw [hnone] at hspaced
      cases hspaced with
      | nil _ h => exact hblank h
    have hchunk : chunk lineBreak line bytes = lineBreak line bytes := if_neg fun h => hne h.1
    by_cases hlen : (lineBreak line bytes).length ≤ 1
    · obtain ⟨piece, hone⟩ : ∃ piece, lineBreak line bytes = [piece] :=
        List.length_eq_one_iff.mp (by have := List.length_pos_iff.mpr hne; omega)
      rw [chunkConcat_of_short (by rw [hchunk]; exact hlen), hchunk]
      refine ⟨hall, ?_, fun hkept => ⟨?_, fun _ => hne⟩, fun hdropped => ?_⟩
      · rw [hone] at hspaced ⊢
        intro c hc
        exact mem_of_spaced hspaced (by simpa using hc)
      · rw [hdrops] at hkept
        push Not at hkept
        rw [hone, hkept piece hone]
        simp
      · obtain ⟨piece', hone', hless⟩ := hdrops.mp hdropped
        rw [hone'] at hspaced ⊢
        simpa using length_lt_of_spaced hspaced hless
    · have hkept : ¬ Drops lineBreak line bytes := by
        rw [hdrops]
        rintro ⟨piece, hone, -⟩
        simp [hone] at hlen
      obtain ⟨out, tail, hwalk, hkeeps, hfits, hnonempty⟩ :=
        walk_spec hbytes hspaced (List.forall_mem_nil _) hall
      obtain ⟨hflat, hfits', hnonempty'⟩ := attachTail_spec hbytes tail hfits
      have hpieces : chunkConcat lineBreak line bytes = attachTail bytes out tail := by
        unfold chunkConcat
        dsimp only
        rw [hchunk, if_neg hlen, hwalk]
      rw [hpieces]
      have hwhole : (attachTail bytes out tail).flatten = line := hflat.trans hkeeps
      exact ⟨hfits', by rw [hwhole]; exact fun c hc => hc,
        fun _ => ⟨hwhole, fun _ => hnonempty' (hnonempty (.inl hne))⟩, fun h => absurd h hkept⟩

end Lurker.Outbound
