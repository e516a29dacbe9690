import Lurker.Chat.TextMatch
import Mathlib.Algebra.GroupWithZero.Nat
import Mathlib.Data.List.Nodup
import Mathlib.Data.List.Perm.Subperm
import Lurker.Lib.PosixPath
import Lurker.Lib.Trim
import Lurker.Lib.Utf16

/-!
# Where a DCC download goes

The peer chooses the name of a file. `sanitizeDccFilename` makes one path component of it that
fits a file system, and `resolveDccDestination` a path in the user's directory that is not taken,
with a counter before the extension.
-/

namespace Lurker.Dcc.Paths

open Lurker.Chat PosixPath
open Utf16 (utf8Bytes codePoints fittingLength)

-- the segments of `Intl.Segmenter`
variable (graphemes : Text → List Text)

/-- A text cut to at most so many bytes of UTF-8, between two graphemes. -/
def capUtf8 (s : Text) (maxBytes : Nat) : Text :=
  if utf8Bytes s ≤ maxBytes then s
  else if maxBytes = 0 then []
  else
    match fittingLength maxBytes 0 (graphemes (s.take (maxBytes + 2))) with
    | 0 =>
      -- the first grapheme alone is too long
      s.take (fittingLength maxBytes 0 (codePoints s))
    | n + 1 => s.take (n + 1)

def maxFilenameBytes : Nat := 255
def maxExtBytes : Nat := 16
def fallbackName : Text := text "dcc-download"

/-- A name split at its extension, unless that is too long to be one. -/
def splitExt (name : Text) : Text × Text :=
  let ext := extname name
  if ext = [] ∨ utf8Bytes ext > maxExtBytes then (name, [])
  else (name.take (name.length - ext.length), ext)

/-- A base, a suffix and an extension, the base cut so that the whole fits one name. -/
def fitName (base ext suffix : Text) : Text :=
  let room := maxFilenameBytes - utf8Bytes suffix - utf8Bytes ext
  let cut := capUtf8 graphemes base room
  (if cut = base then base else Trim.trimEnd isSpace cut) ++ suffix ++ ext

/-- A name with a suffix before its extension. -/
def withSuffix (name suffix : Text) : Text :=
  let ext := extname name
  let whole := name.take (name.length - ext.length) ++ suffix ++ ext
  if utf8Bytes whole ≤ maxFilenameBytes then whole
  else
    let (base, ext) := splitExt name
    fitName graphemes base ext suffix

/-- The last component, with separators of either kind. -/
def basename (raw : Text) : Text :=
  (raw.map fun c => if c = unit '\\' then slash else c).rtakeWhile (· ≠ slash)

def dropControls (name : Text) : Text :=
  ((codePoints name).filter fun p => 0x20 ≤ p.headD 0 && p.headD 0 ≠ 0x7f).flatten

def sanitizeDccFilename (raw : Text) : Text :=
  let name := Trim.trim isSpace (dropControls (basename raw))
  let name :=
    if utf8Bytes name > maxFilenameBytes then
      let (base, ext) := splitExt name
      fitName graphemes base ext []
    else name
  if name = [] ∨ name = dot ∨ name = dotdot then fallbackName else name

/-- The configured root, from the environment. -/
def dccRoot (env : Option Text) : Option Text :=
  let raw := Trim.trim isSpace (env.getD [])
  if raw = [] then none else some raw

def dccUserDir (env : Option Text) (username : Text) : Option Text :=
  (dccRoot env).map fun root => join root (sanitizeDccFilename graphemes username)

/-- A number as a template string writes it. -/
def decimalText (n : Nat) : Text := (Nat.toDigits 10 n).map unit

/-- The suffix of a count. -/
def counter (n : Nat) : Text := text " (" ++ decimalText n ++ text ")"

/-- One more, as far as a number counts. -/
def increment (n : Nat) : Nat := min (n + 1) (2 ^ 53)

/-- The loop over the counts: none when it has not ended after so many turns. -/
def firstFree (taken : Text → Bool) (candidate : Nat → Text) : Nat → Nat → Option Text
  | 0, _ => none
  | turns + 1, n =>
    if taken (candidate n) then firstFree taken candidate turns (increment n)
    else some (candidate n)

/-- The candidate of a count. -/
def collided (userDir safeName : Text) (n : Nat) : Text :=
  join userDir (withSuffix graphemes safeName (counter n))

/-- `path.relative` of the directory and the path is no way down into it. -/
def isUnsafe (rel : Text) : Bool :=
  rel = [] || rel = dotdot || (dotdot ++ [slash]).isPrefixOf rel || isAbsolute rel

/-- The path to write a download to, or what is thrown. None when the loop over the counts has
not ended after so many turns. -/
def resolveDccDestination (cwd : Text) (env : Option Text) (username rawFilename : Text)
    (taken : Text → Bool) (turns : Nat) : Option (Except String Text) :=
  match dccUserDir graphemes env username with
  | none => some (.error "DCC download directory is not configured (set LURKER_DCC_DIR)")
  | some userDir =>
    let safeName := sanitizeDccFilename graphemes rawFilename
    let candidate :=
      if taken (join userDir safeName) then
        firstFree taken (collided graphemes userDir safeName) turns 1
      else some (join userDir safeName)
    candidate.map fun candidate =>
      if isUnsafe (relative cwd userDir candidate) then .error "refusing unsafe DCC destination path"
      else .ok candidate

/-- What is relied on of `Intl.Segmenter`: the segments are the text. -/
def Segments : Prop := ∀ s, (graphemes s).flatten = s

section Cut

variable {graphemes}

theorem capUtf8_prefix (s : Text) (maxBytes : Nat) : capUtf8 graphemes s maxBytes <+: s := by
  unfold capUtf8
  split_ifs
  · exact List.prefix_rfl
  · exact List.nil_prefix
  · split
    · exact List.take_prefix _ _
    · exact List.take_prefix _ _

/-- Pieces of the text's start that fit the budget are a start that does. -/
theorem utf8Bytes_take_pieces {s : Text} {pieces : List Text} {k maxBytes : Nat}
    (h : pieces.flatten = s.take k) :
    utf8Bytes (s.take (fittingLength maxBytes 0 pieces)) ≤ maxBytes := by
  have hle := Utf16.fittingLength_le maxBytes 0 pieces
  have hfits := Utf16.utf8Bytes_take_fitting (Nat.zero_le maxBytes) pieces
  rw [h] at hle hfits
  rw [List.take_take, Nat.zero_add, Nat.min_eq_left (hle.trans (List.length_take_le k s))] at hfits
  exact hfits

theorem utf8Bytes_capUtf8 (hgraphemes : Segments graphemes) (s : Text) (maxBytes : Nat) :
    utf8Bytes (capUtf8 graphemes s maxBytes) ≤ maxBytes := by
  unfold capUtf8
  split_ifs with hfits hzero
  · exact hfits
  · exact Nat.zero_le _
  · split
    · refine utf8Bytes_take_pieces (k := s.length) ?_
      rw [Utf16.flatten_codePoints, List.take_length]
    · rename_i n hn
      rw [← Nat.succ_eq_add_one, ← hn]
      exact utf8Bytes_take_pieces (hgraphemes _)

/-- A budget of four bytes leaves something. -/
theorem capUtf8_ne_nil {s : Text} (hs : s ≠ []) {maxBytes : Nat} (h : 4 ≤ maxBytes) :
    capUtf8 graphemes s maxBytes ≠ [] := by
  have htake {k : Nat} (hk : 0 < k) : s.take k ≠ [] := by
    rw [Ne, List.take_eq_nil_iff]
    exact not_or.mpr ⟨hk.ne', hs⟩
  unfold capUtf8
  split_ifs with hfits hzero
  · exact hs
  · omega
  · split
    · exact htake (Utf16.fittingLength_codePoints_pos h hs)
    · exact htake (Nat.succ_pos _)

/-- A name split is whole again, and its extension is short. -/
theorem splitExt_spec (name : Text) : (splitExt name).1 ++ (splitExt name).2 = name ∧
    utf8Bytes (splitExt name).2 ≤ maxExtBytes ∧ (name ≠ [] → (splitExt name).1 ≠ []) ∧
      (splitExt name = (name, []) ∨ splitExt name = (stem name, extname name)) := by
  unfold splitExt
  dsimp only
  split
  case isTrue => exact ⟨List.append_nil _, Nat.zero_le _, id, .inl rfl⟩
  case isFalse h =>
    obtain ⟨hext, hshort⟩ := not_or.mp h
    rcases extname_cases name with ⟨hnone, -⟩ | ⟨-, -, -, hstem, hwhole⟩
    · exact absurd hnone hext
    · exact ⟨hwhole, Nat.le_of_not_lt hshort, fun _ => hstem, .inr rfl⟩

/-- The base, as it stands in a fitted name. -/
theorem exists_cut (base : Text) (room : Nat) (hgraphemes : Segments graphemes) :
    ∃ kept, (if capUtf8 graphemes base room = base then base
      else Trim.trimEnd isSpace (capUtf8 graphemes base room)) = kept ∧ kept <+: base ∧
        utf8Bytes kept ≤ room ∧
        (kept = base ∨ kept = Trim.trimEnd isSpace (capUtf8 graphemes base room)) := by
  have hbytes := utf8Bytes_capUtf8 hgraphemes base room
  split
  case isTrue hwhole =>
    refine ⟨base, rfl, List.prefix_rfl, ?_, .inl rfl⟩
    rwa [hwhole] at hbytes
  case isFalse =>
    have hpre := Trim.trimEnd_prefix (p := isSpace) (capUtf8 graphemes base room)
    exact ⟨_, rfl, hpre.trans ( capUtf8_prefix base room),
      (Utf16.utf8Bytes_le_of_prefix hpre).trans hbytes, .inr rfl⟩

/-- A fitted name is a start of the base, the suffix and the extension. -/
theorem fitName_spec (hgraphemes : Segments graphemes) {base ext suffix : Text}
    (h : utf8Bytes suffix + utf8Bytes ext ≤ maxFilenameBytes) :
    utf8Bytes (fitName graphemes base ext suffix) ≤ maxFilenameBytes ∧
      ∃ kept, kept <+: base ∧ fitName graphemes base ext suffix = kept ++ suffix ++ ext := by
  obtain ⟨kept, hkept, hpre, hbytes, -⟩ := exists_cut base
    (maxFilenameBytes - utf8Bytes suffix - utf8Bytes ext) hgraphemes
  have hfit : fitName graphemes base ext suffix = kept ++ suffix ++ ext := by
    rw [← hkept]
    rfl
  refine ⟨?_, kept, hpre, hfit⟩
  rw [hfit]
  have h1 := Utf16.utf8Bytes_append_le (kept ++ suffix) ext
  have h2 := Utf16.utf8Bytes_append_le kept suffix
  omega

end Cut

/-- No separator and no control character. -/
def Plain (s : Text) : Prop := ∀ c ∈ s, c ≠ slash ∧ c ≠ unit '\\' ∧ 0x20 ≤ c ∧ c ≠ 0x7f

instance (s : Text) : Decidable (Plain s) := List.decidableBAll _ s

/-- A single path component without control characters that fits a file system. -/
structure SafeName (name : Text) : Prop extends IsComponent name where
  plain : Plain name
  fits : utf8Bytes name ≤ maxFilenameBytes

theorem Plain.subset {s t : Text} (h : Plain s) (hsub : t ⊆ s) : Plain t := fun c hc => h c (hsub hc)

theorem Plain.append {s t : Text} (hs : Plain s) (ht : Plain t) : Plain (s ++ t) := fun c hc =>
  (List.mem_append.mp hc).elim (hs c) (ht c)

theorem Plain.no_slash {s : Text} (h : Plain s) : slash ∉ s := fun hmem => (h slash hmem).1 rfl

/-- A unit of what is left of controls is printable, and was there before. -/
theorem of_mem_dropControls {s : Text} {c : CodeUnit} (h : c ∈ dropControls s) :
    c ∈ s ∧ 0x20 ≤ c ∧ c ≠ 0x7f := by
  obtain ⟨p, hp, hc⟩ := List.mem_flatten.mp h
  obtain ⟨hp, hkept⟩ := List.mem_filter.mp hp
  simp only [Bool.and_eq_true, decide_eq_true_eq] at hkept
  have hmem : c ∈ s := by
    rw [← Utf16.flatten_codePoints s]
    exact List.mem_flatten.mpr ⟨p, hp, hc⟩
  rcases Utf16.of_mem_codePoints hp with ⟨d, rfl⟩ | ⟨d, e, rfl, -, he⟩
  · cases List.mem_singleton.mp hc
    exact ⟨hmem, hkept⟩
  · rcases List.mem_cons.mp hc with rfl | hc
    · exact ⟨hmem, hkept⟩
    · -- the second half of a pair
      cases List.mem_singleton.mp hc
      have hlow := (Bool.and_eq_true_iff.mp he).1
      simp only [decide_eq_true_eq, UInt16.le_iff_toNat_le, UInt16.reduceToNat] at hlow
      refine ⟨hmem, ?_, fun heq => ?_⟩
      · simp only [UInt16.le_iff_toNat_le, UInt16.reduceToNat]
        omega
      · rw [heq] at hlow
        exact absurd hlow (by decide)

theorem dropControls_eq_self {s : Text} (h : Plain s) : dropControls s = s := by
  rw [dropControls, List.filter_eq_self.mpr fun p hp => ?_, Utf16.flatten_codePoints]
  obtain ⟨c, rest, rfl⟩ := List.exists_cons_of_ne_nil (Utf16.utf8Bytes_codePoint hp).1
  have hc : c ∈ s := by
    rw [← Utf16.flatten_codePoints s]
    exact List.mem_flatten.mpr ⟨_, hp, List.mem_cons_self⟩
  simpa using (h c hc).2.2

theorem basename_spec (raw : Text) : ∀ c ∈ basename raw, c ≠ slash ∧ c ≠ unit '\\' := by
  intro c hc
  have hslash : c ≠ slash := by simpa using List.mem_rtakeWhile_imp hc
  refine ⟨hslash, ?_⟩
  rintro rfl
  obtain ⟨d, -, hd⟩ := List.mem_map.mp ((List.rtakeWhile_suffix _ _).subset hc)
  split at hd
  · exact absurd hd (by decide)
  · rename_i hne
    exact hne hd

theorem basename_eq_self {s : Text} (h : Plain s) : basename s = s := by
  have hmap : (s.map fun c => if c = unit '\\' then slash else c) = s := by
    conv_rhs => rw [← List.map_id s]
    exact List.map_congr_left fun c hc => if_neg (h c hc).2.1
  rw [basename, hmap, List.rtakeWhile_eq_self_iff]
  intro c hc
  simpa using (h c hc).1

theorem plain_clean (raw : Text) : Plain (Trim.trim isSpace (dropControls (basename raw))) := by
  intro c hc
  obtain ⟨hmem, hprintable⟩ := of_mem_dropControls (Trim.trim_subset _ hc)
  exact ⟨(basename_spec raw c hmem).1, (basename_spec raw c hmem).2, hprintable⟩

/-- What sanitizing makes of a name before the last check. -/
structure Fitted (name : Text) : Prop where
  plain : Plain name
  trimmed : Trim.Trimmed isSpace name
  fits : utf8Bytes name ≤ maxFilenameBytes

section Sanitize

variable {graphemes}

theorem head?_of_prefix {s t : Text} (h : s <+: t) (hs : s ≠ []) : s.head? = t.head? := by
  obtain ⟨rest, rfl⟩ := h
  rw [List.head?_append_of_ne_nil _ hs]

/-- A cut keeps the start and the extension, and trims where it fell. -/
theorem fitted_cut (hgraphemes : Segments graphemes) {name : Text} (hplain : Plain name)
    (htrimmed : Trim.Trimmed isSpace name) (hne : name ≠ []) {base ext : Text}
    (hsplit : splitExt name = (base, ext)) : Fitted (fitName graphemes base ext []) := by
  have hspec := splitExt_spec name
  rw [hsplit] at hspec
  dsimp only at hspec
  obtain ⟨hwhole, hshort, hbase, -⟩ := hspec
  have hroom : utf8Bytes ([] : Text) + utf8Bytes ext ≤ maxFilenameBytes :=
    (Nat.zero_add _).trans_le (hshort.trans (by decide))
  obtain ⟨hfits, -⟩ := @fitName_spec _ hgraphemes base _ _ hroom
  obtain ⟨kept, hkept, hpre, -, hcut⟩ := exists_cut base
    (maxFilenameBytes - utf8Bytes ([] : Text) - utf8Bytes ext) hgraphemes
  have hfit : fitName graphemes base ext [] = kept ++ ext := by
    rw [← hkept, fitName, List.append_nil]
  rw [hfit] at hfits ⊢
  have hbase := hbase hne
  have hhead : kept.head? = name.head? := by
    have hbasehead : base.head? = name.head? := head?_of_prefix ⟨ext, hwhole⟩ hbase
    rcases hcut with rfl | rfl
    · exact hbasehead
    · have hcutne : capUtf8 graphemes base
          (maxFilenameBytes - utf8Bytes ([] : Text) - utf8Bytes ext) ≠ [] :=
        capUtf8_ne_nil hbase (by
          have hmax : maxFilenameBytes = 255 := rfl
          have hext : maxExtBytes = 16 := rfl
          have hnil : utf8Bytes ([] : Text) = 0 := rfl
          omega)
      have hcuthead := head?_of_prefix ( capUtf8_prefix base _) hcutne
      obtain ⟨c, rest, hc⟩ := List.exists_cons_of_ne_nil hbase
      have hspace := htrimmed.head c (by rw [← hbasehead, hc]; rfl)
      rw [Trim.head_trimEnd (hcuthead.trans (by rw [hc]; rfl)) hspace, ← hbasehead, hc]
      rfl
  have hkeptne : kept ≠ [] := by
    rintro rfl
    exact hne (List.head?_eq_none_iff.mp hhead.symm)
  refine ⟨?_, ⟨fun a ha => ?_, fun a ha => ?_⟩, hfits⟩
  · rw [← hwhole] at hplain
    exact hplain.subset (List.append_subset.mpr ⟨fun c hc => List.mem_append_left _
      (hpre.subset hc), List.subset_append_right _ _⟩)
  · rw [List.head?_append_of_ne_nil _ hkeptne] at ha
    exact htrimmed.head a (hhead ▸ ha)
  · by_cases hext : ext = []
    · rw [hext, List.append_nil] at ha hwhole
      rcases hcut with rfl | rfl
      · exact htrimmed.last a (hwhole ▸ ha)
      · exact Trim.last_trimEnd ha
    · rw [List.getLast?_append_of_ne_nil _ hext] at ha
      exact htrimmed.last a (by rw [← hwhole, List.getLast?_append_of_ne_nil _ hext, ha])

/-- The result is the fallback or a fitted name that is a component. -/
theorem sanitize_cases (hgraphemes : Segments graphemes) (raw : Text) :
    sanitizeDccFilename graphemes raw = fallbackName ∨
      (Fitted (sanitizeDccFilename graphemes raw) ∧ IsComponent (sanitizeDccFilename graphemes raw)) := by
  have hplain := plain_clean raw
  have htrimmed := Trim.trimmed_trim (p := isSpace) (dropControls (basename raw))
  unfold sanitizeDccFilename
  generalize Trim.trim isSpace (dropControls (basename raw)) = name at hplain htrimmed ⊢
  dsimp only
  have hfitted : Fitted (if utf8Bytes name > maxFilenameBytes then
      match splitExt name with
      | (base, ext) => fitName graphemes base ext []
    else name) := by
    split
    case isTrue hlong =>
      have hne : name ≠ [] := by
        rintro rfl
        exact absurd hlong (by decide)
      split
      rename_i base ext hsplit
      exact fitted_cut hgraphemes hplain htrimmed hne hsplit
    case isFalse hshort => exact ⟨hplain, htrimmed, Nat.le_of_not_lt hshort⟩
  generalize (if utf8Bytes name > maxFilenameBytes then
      match splitExt name with
      | (base, ext) => fitName graphemes base ext []
    else name) = fitted at hfitted ⊢
  split
  case isTrue => exact .inl rfl
  case isFalse h =>
    obtain ⟨hnil, h⟩ := not_or.mp h
    obtain ⟨hdot, hdotdot⟩ := not_or.mp h
    exact .inr ⟨hfitted, hnil, hdot, hdotdot, hfitted.plain.no_slash⟩

theorem fallback_fitted : Fitted fallbackName ∧ IsComponent fallbackName := by
  have hhead : fallbackName.head? = some (unit 'd') := rfl
  have hlast : fallbackName.getLast? = some (unit 'd') := rfl
  refine ⟨⟨by decide, ⟨fun a ha => ?_, fun a ha => ?_⟩, by decide⟩, by decide, by decide, by decide,
    by decide⟩
  · cases hhead.symm.trans ha
    decide
  · cases hlast.symm.trans ha
    decide

theorem sanitize_fitted (hgraphemes : Segments graphemes) (raw : Text) :
    Fitted (sanitizeDccFilename graphemes raw) ∧ IsComponent (sanitizeDccFilename graphemes raw) := by
  rcases sanitize_cases hgraphemes raw with h | h
  · rw [h]
    exact fallback_fitted
  · exact h

theorem sanitize_safe (hgraphemes : Segments graphemes) (raw : Text) :
    SafeName (sanitizeDccFilename graphemes raw) :=
  have h := sanitize_fitted hgraphemes raw
  ⟨h.2, h.1.plain, h.1.fits⟩

/-- A fitted component is left as it is. -/
theorem sanitize_eq_self {name : Text} (h : Fitted name) (hcomponent : IsComponent name) :
    sanitizeDccFilename graphemes name = name := by
  unfold sanitizeDccFilename
  rw [basename_eq_self h.plain, dropControls_eq_self h.plain, Trim.trim_eq_self h.trimmed]
  dsimp only
  rw [if_neg (Nat.not_lt.mpr h.fits)]
  exact if_neg (by simp [hcomponent.ne_nil, hcomponent.ne_dot, hcomponent.ne_dotdot])

theorem sanitize_idempotent (hgraphemes : Segments graphemes) (raw : Text) :
    sanitizeDccFilename graphemes (sanitizeDccFilename graphemes raw) =
      sanitizeDccFilename graphemes raw :=
  sanitize_eq_self (sanitize_fitted hgraphemes raw).1 (sanitize_fitted hgraphemes raw).2

end Sanitize

theorem utf8Bytes_ascii {s : Text} (h : ∀ c ∈ s, c < 0x80) : utf8Bytes s = s.length := by
  induction s with
  | nil => rfl
  | cons c s ih =>
    obtain ⟨hc, hs⟩ := List.forall_mem_cons.mp h
    have hhigh : Utf16.isHighSurrogate c = false := by
      simp only [Utf16.isHighSurrogate, Bool.and_eq_false_iff, decide_eq_false_iff_not,
        UInt16.le_iff_toNat_le, UInt16.lt_iff_toNat_lt, UInt16.reduceToNat] at hc ⊢
      omega
    rw [Utf16.utf8Bytes_cons hhigh, Utf16.unitBytes, if_pos hc, ih hs, List.length_cons, Nat.add_comm]

theorem unit_toNat {c : Char} (h : c.toNat < 2 ^ 16) : (unit c).toNat = c.toNat :=
  UInt16.toNat_ofNat_of_lt h

theorem unit_digit {d : Char} (h : d.isDigit = true) :
    isDigit (unit d) = true ∧ Char.ofNat (unit d).toNat = d := by
  have hlow : 48 ≤ d.toNat := of_decide_eq_true (Bool.and_eq_true_iff.mp h).1
  have hhigh : d.toNat ≤ 57 := of_decide_eq_true (Bool.and_eq_true_iff.mp h).2
  have hunit := unit_toNat (c := d) (by omega)
  constructor
  · simp only [isDigit, Bool.decide_and, Bool.and_eq_true, decide_eq_true_eq,
      UInt16.le_iff_toNat_le, hunit]
    exact ⟨hlow, hhigh⟩
  · rw [hunit, Char.ofNat_toNat]

theorem isDigit_decimalText {n : Nat} {c : CodeUnit} (h : c ∈ decimalText n) : isDigit c = true := by
  obtain ⟨d, hd, rfl⟩ := List.mem_map.mp h
  exact (unit_digit (Nat.isDigit_of_mem_toDigits (by decide) (by decide) hd)).1

/-- The characters of a text of the basic plane. -/
def chars (s : Text) : List Char := s.map fun c => Char.ofNat c.toNat

theorem chars_decimalText (n : Nat) : chars (decimalText n) = Nat.toDigits 10 n := by
  rw [chars, decimalText, List.map_map]
  conv_rhs => rw [← List.map_id (Nat.toDigits 10 n)]
  refine List.map_congr_left fun d hd => ?_
  exact (unit_digit (Nat.isDigit_of_mem_toDigits (by decide) (by decide) hd)).2

theorem decimalText_injective {n m : Nat} (h : decimalText n = decimalText m) : n = m := by
  have hchars := congrArg chars h
  rw [chars_decimalText, chars_decimalText] at hchars
  have hvalue := congrArg (Nat.ofDigitChars 10 · 0) hchars
  simpa [Nat.ofDigitChars_ten_toDigits] using hvalue

theorem digit_bounds {c : CodeUnit} (h : isDigit c = true) : 48 ≤ c.toNat ∧ c.toNat ≤ 57 := by
  simp only [isDigit, Bool.decide_and, Bool.and_eq_true, decide_eq_true_eq,
    UInt16.le_iff_toNat_le] at h
  exact h

/-- A unit of a counter is a space, a bracket or a digit. -/
theorem mem_counter {n : Nat} {c : CodeUnit} (h : c ∈ counter n) :
    c.toNat = 32 ∨ c.toNat = 40 ∨ c.toNat = 41 ∨ 48 ≤ c.toNat ∧ c.toNat ≤ 57 := by
  simp only [counter, List.mem_append] at h
  rcases h with (h | h) | h
  · have hc : c = 0x20 ∨ c = 0x28 := by simpa [text, unit] using h
    rcases hc with rfl | rfl <;> decide
  · exact .inr (.inr (.inr (digit_bounds (isDigit_decimalText h))))
  · have hc : c = 0x29 := by simpa [text, unit] using h
    rw [hc]
    decide

theorem plain_counter (n : Nat) : Plain (counter n) := by
  intro c hc
  have hcases := mem_counter hc
  refine ⟨?_, ?_, ?_, ?_⟩
  · rintro rfl
    revert hcases
    decide
  · rintro rfl
    revert hcases
    decide
  · rw [UInt16.le_iff_toNat_le]
    have h32 : (32 : CodeUnit).toNat = 32 := rfl
    omega
  · rintro rfl
    revert hcases
    decide

theorem period_not_mem_counter (n : Nat) : period ∉ counter n := by
  intro h
  have hcases := mem_counter h
  revert hcases
  decide

/-- A count within the numbers takes few bytes. -/
theorem utf8Bytes_counter {n : Nat} (h : n ≤ 2 ^ 53) : utf8Bytes (counter n) ≤ 19 := by
  have hlen : (Nat.toDigits 10 n).length ≤ 16 :=
    (Nat.length_toDigits_le_iff (by decide) (by decide)).mpr (h.trans_lt (by decide))
  rw [utf8Bytes_ascii fun c hc => ?_]
  · simp only [counter, decimalText, List.length_append, List.length_map]
    have hopen : (text " (").length = 2 := rfl
    have hclose : (text ")").length = 1 := rfl
    omega
  · have hcases := mem_counter hc
    rw [UInt16.lt_iff_toNat_lt]
    have h128 : (128 : CodeUnit).toNat = 128 := rfl
    omega

/-- The count is read from the end of a text. -/
theorem counter_cancel {s t : Text} {n m : Nat} (h : s ++ counter n = t ++ counter m) : n = m := by
  have hread (s : Text) (n : Nat) : (s ++ text " (" ++ decimalText n).rtakeWhile isDigit =
      decimalText n := by
    have hall : ∀ c ∈ (decimalText n).reverse, isDigit c = true := fun c hc =>
      isDigit_decimalText (List.mem_reverse.mp hc)
    have hopen : (s ++ text " (").reverse.takeWhile isDigit = [] := by
      rw [List.reverse_append]
      rfl
    rw [List.rtakeWhile, List.reverse_append, List.takeWhile_append_of_pos hall, hopen,
      List.append_nil, List.reverse_reverse]
  simp only [counter, ← List.append_assoc] at h
  have hdigits := congrArg (List.rtakeWhile isDigit) (List.append_cancel_right h)
  rw [hread, hread] at hdigits
  exact decimalText_injective hdigits

section Suffix

variable {graphemes}

/-- The whole name with the suffix when it fits, else a cut one. -/
theorem withSuffix_cases (name suffix : Text) :
    (withSuffix graphemes name suffix = stem name ++ suffix ++ extname name ∧
      utf8Bytes (withSuffix graphemes name suffix) ≤ maxFilenameBytes) ∨
    withSuffix graphemes name suffix =
      fitName graphemes (splitExt name).1 (splitExt name).2 suffix := by
  unfold withSuffix
  dsimp only
  split
  case isTrue hfits => exact .inl ⟨rfl, hfits⟩
  case isFalse => exact .inr rfl

theorem counter_room {n : Nat} (hn : n ≤ 2 ^ 53) (name : Text) :
    utf8Bytes (counter n) + utf8Bytes (splitExt name).2 ≤ maxFilenameBytes := by
  have hcounter := utf8Bytes_counter hn
  have hext := (splitExt_spec name).2.1
  have hmax : maxFilenameBytes = 255 := rfl
  have hshort : maxExtBytes = 16 := rfl
  omega

theorem stem_extname (name : Text) : stem name ++ extname name = name := by
  rcases extname_cases name with ⟨hext, hstem⟩ | ⟨-, -, -, -, hwhole⟩
  · rw [hext, hstem, List.append_nil]
  · exact hwhole

/-- A safe name with a counter is a safe name. -/
theorem withSuffix_safe (hgraphemes : Segments graphemes) {name : Text} (hname : Plain name) {n : Nat}
    (hn : n ≤ 2 ^ 53) : SafeName (withSuffix graphemes name (counter n)) := by
  have hparts : ∃ start finish, withSuffix graphemes name (counter n) = start ++ counter n ++ finish ∧
      start ⊆ name ∧ finish ⊆ name ∧
        utf8Bytes (withSuffix graphemes name (counter n)) ≤ maxFilenameBytes := by
    rcases @withSuffix_cases graphemes name (counter n) with ⟨hwhole, hfits⟩ | hcut
    · have hstem : stem name <+: name := ⟨_, stem_extname name⟩
      have hext : extname name <:+ name := ⟨_, stem_extname name⟩
      exact ⟨stem name, extname name, hwhole, hstem.subset, hext.subset, hfits⟩
    · obtain ⟨hfits, kept, hpre, hfit⟩ := @fitName_spec _ hgraphemes (splitExt name).1 _ _
        (counter_room hn name)
      have hwhole := (splitExt_spec name).1
      have hbase : (splitExt name).1 <+: name := ⟨_, hwhole⟩
      have hext : (splitExt name).2 <:+ name := ⟨_, hwhole⟩
      exact ⟨kept, (splitExt name).2, hcut.trans hfit, (hpre.trans hbase).subset, hext.subset,
        hcut ▸ hfits⟩
  obtain ⟨start, finish, hwhole, hstart, hfinish, hfits⟩ := hparts
  have hplain : Plain (withSuffix graphemes name (counter n)) := by
    rw [hwhole]
    exact ((hname.subset hstart).append (plain_counter n)).append (hname.subset hfinish)
  have hopen : unit '(' ∈ withSuffix graphemes name (counter n) := by
    have hmem : unit '(' ∈ counter n := by simp [counter, text]
    rw [hwhole]
    exact List.mem_append_left _ (List.mem_append_right _ hmem)
  refine ⟨⟨?_, ?_, ?_, hplain.no_slash⟩, hplain, hfits⟩
  · exact List.ne_nil_of_mem hopen
  · intro heq
    rw [heq] at hopen
    exact absurd hopen (by decide)
  · intro heq
    rw [heq] at hopen
    exact absurd hopen (by decide)

/-- An extension too long to be kept does not make a whole name and a cut one alike. -/
theorem whole_ne_cut {name kept : Text} {n m : Nat} (hext : extname name ≠ []) (hkept : kept <+: name) :
    stem name ++ counter n ++ extname name ≠ kept ++ counter m := by
  intro heq
  rcases extname_cases name with ⟨hnone, -⟩ | ⟨after, hafter, -, -, hwhole⟩
  · exact hext hnone
  have hend := List.append_eq_append_iff.mp heq
  rcases hend with ⟨rest, rfl, hrest⟩ | ⟨rest, -, hrest⟩
  · -- the extension ends in the counter, so the cut one goes past the stem
    obtain ⟨finish, hfinish⟩ := hkept
    replace hfinish := hfinish.trans hwhole.symm
    rw [List.append_assoc, List.append_assoc, List.append_cancel_left_eq, hafter] at hfinish
    have hspace : counter n = unit ' ' :: (unit '(' :: decimalText n ++ text ")") := rfl
    rw [hspace, List.cons_append] at hfinish
    exact absurd (List.cons_eq_cons.mp hfinish).1 (by decide)
  · -- the extension would be in the counter
    refine period_not_mem_counter m ?_
    rw [hrest, hafter]
    exact List.mem_append_right _ List.mem_cons_self

/-- No two counts give one name. -/
theorem withSuffix_injective (hgraphemes : Segments graphemes) {name : Text} {n m : Nat}
    (hn : n ≤ 2 ^ 53) (hm : m ≤ 2 ^ 53)
    (h : withSuffix graphemes name (counter n) = withSuffix graphemes name (counter m)) : n = m := by
  have hcut (k : Nat) (hk : k ≤ 2 ^ 53) : ∃ kept, kept <+: (splitExt name).1 ∧
      fitName graphemes (splitExt name).1 (splitExt name).2 (counter k) =
        kept ++ counter k ++ (splitExt name).2 :=
    (fitName_spec hgraphemes (counter_room hk name)).2
  obtain ⟨-, -, -, hsplit⟩ := splitExt_spec name
  -- a whole name against a cut one
  have hmixed (n m : Nat) (hm : m ≤ 2 ^ 53) (heq : stem name ++ counter n ++ extname name =
      fitName graphemes (splitExt name).1 (splitExt name).2 (counter m)) : n = m := by
    obtain ⟨kept, hkept, hfit⟩ := hcut m hm
    rw [hfit] at heq
    rcases hsplit with hsplit | hsplit
    · rw [hsplit] at hkept heq
      dsimp only at hkept heq
      by_cases hext : extname name = []
      · rw [hext] at heq
        exact counter_cancel (List.append_cancel_right heq)
      · rw [List.append_nil] at heq
        exact absurd heq (whole_ne_cut hext hkept)
    · rw [hsplit] at heq
      exact counter_cancel (List.append_cancel_right heq)
  rcases @withSuffix_cases graphemes name (counter n) with ⟨hwhole, -⟩ | hfit <;>
    rcases @withSuffix_cases graphemes name (counter m) with ⟨hwhole', -⟩ | hfit'
  · rw [hwhole, hwhole'] at h
    exact counter_cancel (List.append_cancel_right h)
  · rw [hwhole, hfit'] at h
    exact hmixed n m hm h
  · rw [hfit, hwhole'] at h
    exact (hmixed m n hn h.symm).symm
  · obtain ⟨kept, -, hkept⟩ := hcut n hn
    obtain ⟨kept', -, hkept'⟩ := hcut m hm
    rw [hfit, hfit', hkept, hkept'] at h
    exact counter_cancel (List.append_cancel_right h)

end Suffix

section Loop

variable {taken : Text → Bool} {candidate : Nat → Text}

theorem firstFree_some {turns n : Nat} {path : Text} (hn : n ≤ 2 ^ 53)
    (h : firstFree taken candidate turns n = some path) :
    ∃ k, n ≤ k ∧ k ≤ 2 ^ 53 ∧ path = candidate k ∧ taken path = false := by
  induction turns generalizing n with
  | zero => cases h
  | succ turns ih =>
    rw [firstFree] at h
    split at h
    case isTrue =>
      have hnext : n ≤ increment n := Nat.le_min.mpr ⟨Nat.le_succ n, hn⟩
      obtain ⟨k, hk, hlast, hpath⟩ := ih (Nat.min_le_right _ _) h
      exact ⟨k, hnext.trans hk, hlast, hpath⟩
    case isFalse hfree =>
      cases h
      exact ⟨n, Nat.le_refl n, hn, rfl, Bool.eq_false_iff.mpr hfree⟩

/-- Once ended, the loop has ended. -/
theorem firstFree_more {turns n : Nat} {path : Text}
    (h : firstFree taken candidate turns n = some path) (more : Nat) :
    firstFree taken candidate (turns + more) n = some path := by
  induction turns generalizing n with
  | zero => cases h
  | succ turns ih =>
    rw [Nat.succ_add, firstFree]
    rw [firstFree] at h
    split
    case isTrue htaken => exact ih (by rwa [if_pos htaken] at h)
    case isFalse hfree => rwa [if_neg hfree] at h

/-- A free candidate ahead is reached, or one before it is. -/
theorem firstFree_ends {k : Nat} (hk : k ≤ 2 ^ 53) (hfree : taken (candidate k) = false) {n : Nat}
    (hn : n ≤ k) : ∃ path, firstFree taken candidate (k - n + 1) n = some path := by
  induction hturns : k - n generalizing n with
  | zero =>
    obtain rfl : n = k := by omega
    exact ⟨candidate n, by rw [firstFree, hfree]; rfl⟩
  | succ turns ih =>
    rw [firstFree]
    split
    case isTrue =>
      have hnext : increment n = n + 1 := Nat.min_eq_left (by omega)
      rw [hnext]
      exact ih (by omega) (by omega)
    case isFalse => exact ⟨_, rfl⟩

/-- The count stays at the last number it gets to. -/
theorem firstFree_none {n : Nat} (hn : n ≤ 2 ^ 53)
    (h : ∀ k, n ≤ k → k ≤ 2 ^ 53 → taken (candidate k) = true) (turns : Nat) :
    firstFree taken candidate turns n = none := by
  induction turns generalizing n with
  | zero => rfl
  | succ turns ih =>
    have hnext : n ≤ increment n := Nat.le_min.mpr ⟨Nat.le_succ n, hn⟩
    rw [firstFree, if_pos (h n (Nat.le_refl n) hn)]
    exact ih (Nat.min_le_right _ _) fun k hk => h k (hnext.trans hk)

end Loop

/-- The names to try: the name itself, then with the counts. -/
def candidateName (safeName : Text) : Nat → Text
  | 0 => safeName
  | n + 1 => withSuffix graphemes safeName (counter (n + 1))

/-- A direct child of the directory, of a name that is safe, and not taken. -/
structure Destination (cwd userDir : Text) (taken : Text → Bool) (path : Text) : Prop where
  child : ∃ name, SafeName name ∧ path = join userDir name ∧
    resolve cwd path = resolve cwd userDir ++ [name]
  free : taken path = false

section Resolve

variable {graphemes} (hgraphemes : Segments graphemes)

include hgraphemes

theorem candidateName_safe (raw : Text) {n : Nat} (hn : n ≤ 2 ^ 53) :
    SafeName (candidateName graphemes (sanitizeDccFilename graphemes raw) n) := by
  cases n with
  | zero => exact sanitize_safe hgraphemes raw
  | succ n =>
    rw [candidateName]
    exact withSuffix_safe hgraphemes (sanitize_safe hgraphemes raw).plain hn

theorem candidateName_destination (cwd : Text) {userDir : Text} (hdir : userDir ≠ []) (raw : Text)
    {taken : Text → Bool} {n : Nat} (hn : n ≤ 2 ^ 53)
    (hfree : taken (join userDir (candidateName graphemes (sanitizeDccFilename graphemes raw) n)) = false) :
    Destination cwd userDir taken
      (join userDir (candidateName graphemes (sanitizeDccFilename graphemes raw) n)) where
  child :=
    have hsafe := candidateName_safe hgraphemes raw hn
    ⟨_, hsafe, rfl, resolve_join cwd hdir hsafe.toIsComponent⟩
  free := hfree

/-- A candidate is never refused. -/
theorem candidateName_not_unsafe (cwd : Text) {userDir : Text} (hdir : userDir ≠ []) (raw : Text)
    {n : Nat} (hn : n ≤ 2 ^ 53) : isUnsafe (relative cwd userDir
      (join userDir (candidateName graphemes (sanitizeDccFilename graphemes raw) n))) = false := by
  have hsafe := candidateName_safe hgraphemes raw hn
  generalize candidateName graphemes (sanitizeDccFilename graphemes raw) n = name at hsafe ⊢
  rw [relative_join cwd hdir hsafe.toIsComponent]
  have hup : (dotdot ++ [slash]).isPrefixOf name = false := by
    refine Bool.eq_false_iff.mpr fun hpre => hsafe.no_slash ?_
    exact (List.isPrefixOf_iff_prefix.mp hpre).subset (by simp)
  have habsolute : isAbsolute name = false := by
    refine decide_eq_false fun hhead => hsafe.no_slash ?_
    exact List.mem_of_mem_head? hhead
  unfold isUnsafe
  rw [hup, habsolute, decide_eq_false hsafe.ne_nil, decide_eq_false hsafe.ne_dotdot]
  rfl

/-- The user's directory is a direct child of the root. -/
theorem dccUserDir_child {env : Option Text} {root : Text} (hroot : dccRoot env = some root)
    (cwd username : Text) : ∃ userDir, dccUserDir graphemes env username = some userDir ∧
      userDir ≠ [] ∧ resolve cwd userDir =
        resolve cwd root ++ [sanitizeDccFilename graphemes username] := by
  have hne : root ≠ [] := by
    unfold dccRoot at hroot
    dsimp only at hroot
    split at hroot
    · cases hroot
    · cases hroot
      assumption
  have hcomponent := (sanitize_safe hgraphemes username).toIsComponent
  refine ⟨_, by rw [dccUserDir, hroot]; rfl, ?_, resolve_join cwd hne hcomponent⟩
  rw [join_eq hne hcomponent]
  exact List.append_ne_nil_of_right_ne_nil _ (head_joined hcomponent).1

section Ends

variable {env : Option Text} {username : Text} {userDir : Text} {taken : Text → Bool}
  (huserDir : dccUserDir graphemes env username = some userDir) (hdir : userDir ≠ [])
  (cwd raw : Text)

include huserDir hdir

/-- Whatever is returned is a candidate that is free. -/
theorem resolve_some {turns : Nat} {result : Except String Text}
    (h : resolveDccDestination graphemes cwd env username raw taken turns = some result) :
    ∃ k ≤ 2 ^ 53,
      result = .ok (join userDir (candidateName graphemes (sanitizeDccFilename graphemes raw) k)) ∧
      taken (join userDir (candidateName graphemes (sanitizeDccFilename graphemes raw) k)) = false := by
  unfold resolveDccDestination at h
  rw [huserDir] at h
  dsimp only at h
  split at h
  case isTrue =>
    obtain ⟨path, hpath, hresult⟩ := Option.map_eq_some_iff.mp h
    obtain ⟨k, hk, hlast, rfl, hfree⟩ := firstFree_some (by decide) hpath
    obtain ⟨k, rfl⟩ := Nat.exists_eq_add_of_le' hk
    refine ⟨k + 1, hlast, ?_, hfree⟩
    have hsafe := candidateName_not_unsafe hgraphemes cwd hdir raw hlast
    rw [candidateName, ← collided] at hsafe ⊢
    rw [← hresult, hsafe]
    rfl
  case isFalse hfree =>
    have hsafe := candidateName_not_unsafe hgraphemes cwd hdir raw (Nat.zero_le (2 ^ 53))
    refine ⟨0, Nat.zero_le _, ?_, Bool.eq_false_iff.mpr hfree⟩
    rw [candidateName] at hsafe ⊢
    rw [Option.map_some, hsafe] at h
    exact (Option.some.inj h).symm

/-- With a candidate that is free, some path is returned, after however many more turns. -/
theorem resolve_ends {k : Nat} (hk : k ≤ 2 ^ 53)
    (hfree : taken (join userDir (candidateName graphemes (sanitizeDccFilename graphemes raw) k)) = false) :
    ∃ turns path, ∀ more,
      resolveDccDestination graphemes cwd env username raw taken (turns + more) = some (.ok path) := by
  have hended : ∃ turns result, ∀ more,
      resolveDccDestination graphemes cwd env username raw taken (turns + more) = some result := by
    unfold resolveDccDestination
    rw [huserDir]
    dsimp only
    split
    case isTrue htaken =>
      cases k with
      | zero =>
        rw [candidateName, htaken] at hfree
        cases hfree
      | succ k =>
        rw [candidateName, ← collided] at hfree
        obtain ⟨path, hpath⟩ := firstFree_ends hk hfree (Nat.le_add_left 1 k)
        exact ⟨_, _, fun more => congrArg (Option.map _) (firstFree_more hpath more)⟩
    case isFalse => exact ⟨0, _, fun _ => rfl⟩
  obtain ⟨turns, result, hresult⟩ := hended
  obtain ⟨k, -, rfl, -⟩ := resolve_some hgraphemes huserDir hdir cwd raw (hresult 0)
  exact ⟨turns, _, hresult⟩

omit hgraphemes hdir in
/-- With every candidate taken, the loop over the counts does not end. -/
theorem resolve_none (h : ∀ k ≤ 2 ^ 53,
      taken (join userDir (candidateName graphemes (sanitizeDccFilename graphemes raw) k)) = true)
    (turns : Nat) : resolveDccDestination graphemes cwd env username raw taken turns = none := by
  unfold resolveDccDestination
  rw [huserDir]
  dsimp only
  have hfirst := h 0 (Nat.zero_le _)
  rw [candidateName] at hfirst
  rw [if_pos hfirst, firstFree_none (by decide) fun k hk hlast => ?_]
  · rfl
  · obtain ⟨k, rfl⟩ := Nat.exists_eq_add_of_le' hk
    exact h (k + 1) hlast

omit huserDir in
/-- Fewer paths than counts leave a candidate free. -/
theorem exists_free {paths : List Text} (htaken : ∀ p, taken p = true → p ∈ paths)
    (hlen : paths.length < 2 ^ 53) : ∃ k ≤ 2 ^ 53,
      taken (join userDir (candidateName graphemes (sanitizeDccFilename graphemes raw) k)) = false := by
  by_contra hnone
  push Not at hnone
  have hinjective : ∀ n ∈ List.range (2 ^ 53), ∀ m ∈ List.range (2 ^ 53),
      join userDir (candidateName graphemes (sanitizeDccFilename graphemes raw) (n + 1)) =
        join userDir (candidateName graphemes (sanitizeDccFilename graphemes raw) (m + 1)) → n = m := by
    intro n hn m hm heq
    have hn := List.mem_range.mp hn
    have hm := List.mem_range.mp hm
    have hname := join_injective hdir (candidateName_safe hgraphemes raw hn).toIsComponent
      (candidateName_safe hgraphemes raw hm).toIsComponent heq
    rw [candidateName, candidateName] at hname
    exact Nat.succ.inj (withSuffix_injective hgraphemes hn hm hname)
  have hnodup := List.Nodup.map_on hinjective List.nodup_range
  have hsub : (List.range (2 ^ 53)).map (fun n => join userDir
      (candidateName graphemes (sanitizeDccFilename graphemes raw) (n + 1))) ⊆ paths := by
    intro p hp
    obtain ⟨n, hn, rfl⟩ := List.mem_map.mp hp
    refine htaken _ (Bool.of_not_eq_false ?_)
    exact hnone (n + 1) (List.mem_range.mp hn)
  have hle := (List.subperm_of_subset hnodup hsub).length_le
  rw [List.length_map, List.length_range] at hle
  omega

end Ends

/-- A file name of a peer gives a safe name, and a path that is a direct child of the user's
directory and free. The loop ends when one of its candidates is free, which is so whenever fewer
than 2^53 paths are taken. -/
theorem destination_safe :
    (∀ raw, SafeName (sanitizeDccFilename graphemes raw) ∧
      sanitizeDccFilename graphemes (sanitizeDccFilename graphemes raw) =
        sanitizeDccFilename graphemes raw) ∧
    ∀ cwd env root username raw (taken : Text → Bool), dccRoot env = some root →
      ∃ userDir, dccUserDir graphemes env username = some userDir ∧
        resolve cwd userDir = resolve cwd root ++ [sanitizeDccFilename graphemes username] ∧
        (∀ turns result,
          resolveDccDestination graphemes cwd env username raw taken turns = some result →
            ∃ path, result = .ok path ∧ Destination cwd userDir taken path) ∧
        ((∃ turns path, ∀ more, resolveDccDestination graphemes cwd env username raw taken
            (turns + more) = some (.ok path)) ↔
          ∃ k ≤ 2 ^ 53, taken (join userDir
            (candidateName graphemes (sanitizeDccFilename graphemes raw) k)) = false) ∧
        ∀ paths : List Text, (∀ p, taken p = true → p ∈ paths) → paths.length < 2 ^ 53 →
          ∃ turns path, ∀ more, resolveDccDestination graphemes cwd env username raw taken
            (turns + more) = some (.ok path) := by
  refine ⟨fun raw => ⟨sanitize_safe hgraphemes raw, sanitize_idempotent hgraphemes raw⟩, ?_⟩
  intro cwd env root username raw taken hroot
  obtain ⟨userDir, huserDir, hdir, hchild⟩ := dccUserDir_child hgraphemes hroot cwd username
  refine ⟨userDir, huserDir, hchild, fun turns result hresult => ?_, ⟨?_, ?_⟩, ?_⟩
  · obtain ⟨k, hk, rfl, hfree⟩ := resolve_some hgraphemes huserDir hdir cwd raw hresult
    exact ⟨_, rfl, candidateName_destination hgraphemes cwd hdir raw hk hfree⟩
  · rintro ⟨turns, path, hends⟩
    obtain ⟨k, hk, -, hfree⟩ := resolve_some hgraphemes huserDir hdir cwd raw (hends 0)
    exact ⟨k, hk, hfree⟩
  · rintro ⟨k, hk, hfree⟩
    exact resolve_ends hgraphemes huserDir hdir cwd raw hk hfree
  · intro paths htaken hlen
    obtain ⟨k, hk, hfree⟩ := exists_free hgraphemes hdir raw htaken hlen
    exact resolve_ends hgraphemes huserDir hdir cwd raw hk hfree

end Resolve

theorem destination_safe_repeat : ∃ userDir,
    dccUserDir codePoints (some (text "/dcc")) (text "al") = some userDir ∧
      ∃ turns path, ∀ more, resolveDccDestination codePoints (text "/") (some (text "/dcc"))
        (text "al") (text "a.txt") (fun p => p = text "/dcc/al/a.txt") (turns + more) =
          some (.ok path) := by
  have hroot : dccRoot (some (text "/dcc")) = some (text "/dcc") := by decide
  obtain ⟨userDir, huserDir, -, -, -, hends⟩ := (destination_safe Utf16.flatten_codePoints).2
    (text "/") _ _ (text "al") (text "a.txt") (fun p => p = text "/dcc/al/a.txt") hroot
  refine ⟨userDir, huserDir, hends [text "/dcc/al/a.txt"] (fun p hp => ?_) (by decide)⟩
  exact List.mem_singleton.mpr (of_decide_eq_true hp)

/-- The names that the loop tries for one file. -/
def everyCandidate : List Text :=
  (List.range (2 ^ 53 + 1)).map fun k => join (text "/dcc/al") (candidateName codePoints (text "a") k)

/-- A directory that is full to the last count is searched without end. -/
theorem full_directory_never_ends : ¬ ∀ paths : List Text, ∃ turns result,
    resolveDccDestination codePoints (text "/") (some (text "/dcc")) (text "al") (text "a")
      (fun p => paths.any (· = p)) turns = some result := by
  intro h
  obtain ⟨turns, result, hresult⟩ := h everyCandidate
  have huserDir : dccUserDir codePoints (some (text "/dcc")) (text "al") = some (text "/dcc/al") := by
    decide +kernel
  have hname : sanitizeDccFilename codePoints (text "a") = text "a" := by decide +kernel
  rw [resolve_none huserDir (text "/") (text "a") (fun k hk => ?_) turns] at hresult
  · cases hresult
  · rw [hname]
    refine List.any_eq_true.mpr ⟨_, List.mem_map.mpr ⟨k, List.mem_range.mpr ?_, rfl⟩, by simp⟩
    exact Nat.lt_succ_of_le hk

end Lurker.Dcc.Paths
