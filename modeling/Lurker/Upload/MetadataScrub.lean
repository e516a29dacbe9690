import Lurker.Lib.Blocks
import Mathlib.Data.List.Infix
import Mathlib.Data.UInt

/-!
# Scrubbing images

An animated image passes through as it is, but for its metadata: chunks or blocks that carry it are
cut out of the container, and every other byte stays. What does not read as a container is returned
untouched. `scrub_exact` says which of the two, and what comes out.
-/

namespace Lurker.Upload.MetadataScrub

open Blocks

abbrev Bytes := List UInt8

/-- What a buffer throws. -/
inductive RangeError
  | read
  | write
  deriving DecidableEq

abbrev Read := Except RangeError

def byteAt (buffer : Bytes) (i : Nat) : Read UInt8 :=
  match buffer[i]? with
  | some b => .ok b
  | none => .error .read

/-- `toString('latin1', i, j)`. -/
def slice (buffer : Bytes) (i j : Nat) : Read Bytes :=
  if j ≤ buffer.length then .ok ((buffer.take j).drop i) else .error .read

def readUInt32LE (buffer : Bytes) (i : Nat) : Read Nat := do
  let a ← byteAt buffer i
  let b ← byteAt buffer (i + 1)
  let c ← byteAt buffer (i + 2)
  let d ← byteAt buffer (i + 3)
  return a.toNat + 256 * b.toNat + 65536 * c.toNat + 16777216 * d.toNat

def readUInt32BE (buffer : Bytes) (i : Nat) : Read Nat := do
  let a ← byteAt buffer i
  let b ← byteAt buffer (i + 1)
  let c ← byteAt buffer (i + 2)
  let d ← byteAt buffer (i + 3)
  return 16777216 * a.toNat + 65536 * b.toNat + 256 * c.toNat + d.toNat

def uint32LE (n : Nat) : Bytes :=
  [UInt8.ofNat n, UInt8.ofNat (n / 256), UInt8.ofNat (n / 65536), UInt8.ofNat (n / 16777216)]

def writeUInt32LE (n i : Nat) (buffer : Bytes) : Read Bytes :=
  if n < 4294967296 then .ok (buffer.take i ++ uint32LE n ++ buffer.drop (i + 4))
  else .error .write

/-- The bytes of an ASCII text. -/
def ascii (s : String) : Bytes := s.toList.map fun c => UInt8.ofNat c.toNat

def webpHeader (buffer : Bytes) : Read (Option Nat) :=
  if buffer.length < 12 then .ok none
  else do
    if (← slice buffer 0 4) ≠ ascii "RIFF" then return none
    if (← slice buffer 8 12) ≠ ascii "WEBP" then return none
    return some 12

/-- The EXIF and XMP bits. -/
def clearFlags (flags : UInt8) : UInt8 := flags &&& ~~~(0x08 ||| 0x04)

def webpBody (rest : Bytes) : Read (Cut UInt8) :=
  if rest.length < 8 then .ok .spent
  else do
    let fourcc ← slice rest 0 4
    let size ← readUInt32LE rest 4
    let dataEnd := 8 + size
    if dataEnd > rest.length then return .malformed
    -- the pad byte may be missing at the end
    let next := min (dataEnd + size % 2) rest.length
    let chunk := rest.take next
    if fourcc = ascii "EXIF" ∨ fourcc = ascii "XMP " then return .block next none
    else if fourcc = ascii "VP8X" ∧ size ≥ 1 then do
      let flags ← byteAt rest 8
      if clearFlags flags ≠ flags then return .block next (some (chunk.set 8 (clearFlags flags)))
      else return .block next (some chunk)
    else return .block next (some chunk)

def pngSignature : Bytes := [0x89, 0x50, 0x4e, 0x47, 0x0d, 0x0a, 0x1a, 0x0a]

def pngMetadataChunks : List Bytes :=
  [ascii "tEXt", ascii "zTXt", ascii "iTXt", ascii "eXIf", ascii "tIME"]

def pngHeader (buffer : Bytes) : Read (Option Nat) :=
  if buffer.length < 8 ∨ buffer.take 8 ≠ pngSignature then .ok none else .ok (some 8)

def pngBody (rest : Bytes) : Read (Cut UInt8) :=
  if rest.length < 8 then .ok .spent
  else do
    let len ← readUInt32BE rest 0
    let type ← slice rest 4 8
    let chunkEnd := 12 + len
    if chunkEnd > rest.length then return .malformed
    if type ∈ pngMetadataChunks then return .block chunkEnd none
    else if type = ascii "IEND" then return .last chunkEnd
    else return .block chunkEnd (some (rest.take chunkEnd))

/-- The size of a colour table, from the byte that tells of it. -/
def colourTable (packed : UInt8) : Nat :=
  if packed &&& 0x80 ≠ 0 then 3 * 2 ^ ((packed &&& 0x07).toNat + 1) else 0

def gifHeader (buffer : Bytes) : Read (Option Nat) :=
  if buffer.length < 13 then .ok none
  else do
    let sig ← slice buffer 0 6
    if sig ≠ ascii "GIF87a" ∧ sig ≠ ascii "GIF89a" then return none
    let packed ← byteAt buffer 10
    let p := 13 + colourTable packed
    if p > buffer.length then return none else return some p

/-- The offset past the terminator of a run of sub-blocks, if the bytes do not run out first. -/
def skipSubBlocks (buffer : Bytes) (q : Nat) : Option Nat :=
  match h : buffer[q]? with
  | none => none
  | some blockSize =>
    if blockSize = 0 then some (q + 1) else skipSubBlocks buffer (q + 1 + blockSize.toNat)
  termination_by buffer.length - q
  decreasing_by
    have := (List.getElem?_eq_some_iff.mp h).1
    omega

def gifBody (rest : Bytes) : Read (Cut UInt8) :=
  match rest with
  | [] => .ok .spent
  | marker :: _ =>
    if marker = 0x3b then .ok (.last 1)
    else if marker = 0x2c then
      if rest.length < 10 then .ok .malformed
      else do
        let lpacked ← byteAt rest 9
        let dataStart := 10 + colourTable lpacked + 1
        match skipSubBlocks rest dataStart with
        | none => return .malformed
        | some stop => return .block stop (some (rest.take stop))
    else if marker = 0x21 then
      if rest.length < 2 then .ok .malformed
      else do
        let label ← byteAt rest 1
        match skipSubBlocks rest 2 with
        | none => return .malformed
        | some stop =>
          let isXmp ←
            if label = 0xff then do
              if (← byteAt rest 2) = 0x0b then
                pure (decide ((← slice rest 3 14) = ascii "XMP DataXMP"))
              else pure false
            else pure false
          if label = 0xfe ∨ isXmp then return .block stop none
          else return .block stop (some (rest.take stop))
    else .ok .malformed

/-- What the three scrubbers differ in. -/
structure Format where
  /-- How long the header is, if it is one. -/
  header : Bytes → Read (Option Nat)
  body : Bytes → Read (Cut UInt8)
  /-- What is done to the kept bytes at last. -/
  finish : Bytes → Read Bytes

def Format.scrub (f : Format) (buffer : Bytes) : Read Bytes := do
  match ← f.header buffer with
  | none => return buffer
  | some n =>
    match ← walk f.body (buffer.drop n) [buffer.take n] false with
    | none => return buffer
    | some (kept, changed) => if changed then f.finish kept.flatten else return buffer

def webp : Format where
  header := webpHeader
  body := webpBody
  finish out := writeUInt32LE (out.length - 8) 4 out

def png : Format where
  header := pngHeader
  body := pngBody
  finish := pure

def gif : Format where
  header := gifHeader
  body := gifBody
  finish := pure

def scrubWebp : Bytes → Read Bytes := webp.scrub

def scrubPng : Bytes → Read Bytes := png.scrub

def scrubGif : Bytes → Read Bytes := gif.scrub

/-- The containers that are scrubbed in place. -/
inductive Container
  | webp
  | png
  | gif
  deriving DecidableEq

def Container.format : Container → Format
  | .webp => MetadataScrub.webp
  | .png => MetadataScrub.png
  | .gif => MetadataScrub.gif

/-- Whatever is thrown, the buffer is handed back. -/
def scrubMetadata (buffer : Bytes) (container : Container) : Bytes :=
  let scrubbed := match container with
    | .webp => scrubWebp buffer
    | .png => scrubPng buffer
    | .gif => scrubGif buffer
  match scrubbed with
  | .ok out => out
  | .error _ => buffer

theorem byteAt_ok {buffer : Bytes} {i : Nat} (h : i < buffer.length) :
    byteAt buffer i = .ok (buffer.getD i 0) := by
  simp [byteAt, List.getD, List.getElem?_eq_getElem h]

theorem slice_ok {buffer : Bytes} {j : Nat} (i : Nat) (h : j ≤ buffer.length) :
    slice buffer i j = .ok ((buffer.take j).drop i) := if_pos h

/-- The number in the four bytes from `i` on, the low byte first. -/
def uint32LEAt (buffer : Bytes) (i : Nat) : Nat :=
  (buffer.getD i 0).toNat + 256 * (buffer.getD (i + 1) 0).toNat +
    65536 * (buffer.getD (i + 2) 0).toNat + 16777216 * (buffer.getD (i + 3) 0).toNat

def uint32BEAt (buffer : Bytes) (i : Nat) : Nat :=
  16777216 * (buffer.getD i 0).toNat + 65536 * (buffer.getD (i + 1) 0).toNat +
    256 * (buffer.getD (i + 2) 0).toNat + (buffer.getD (i + 3) 0).toNat

theorem readUInt32LE_ok {buffer : Bytes} {i : Nat} (h : i + 4 ≤ buffer.length) :
    readUInt32LE buffer i = .ok (uint32LEAt buffer i) := by
  unfold readUInt32LE
  rw [byteAt_ok (by omega), byteAt_ok (by omega), byteAt_ok (by omega), byteAt_ok (by omega)]
  rfl

theorem readUInt32BE_ok {buffer : Bytes} {i : Nat} (h : i + 4 ≤ buffer.length) :
    readUInt32BE buffer i = .ok (uint32BEAt buffer i) := by
  unfold readUInt32BE
  rw [byteAt_ok (by omega), byteAt_ok (by omega), byteAt_ok (by omega), byteAt_ok (by omega)]
  rfl

/-- The same bytes up to `n`. -/
def Agree (n : Nat) (a b : Bytes) : Prop := a.take n = b.take n ∧ n ≤ a.length ∧ n ≤ b.length

theorem Agree.getD {n : Nat} {a b : Bytes} (h : Agree n a b) {i : Nat} (hi : i < n) :
    a.getD i 0 = b.getD i 0 := by
  have := congrArg (fun l => l.getD i 0) h.1
  simpa [List.getD, List.getElem?_take, hi] using this

theorem Agree.getElem? {n : Nat} {a b : Bytes} (h : Agree n a b) {i : Nat} (hi : i < n) :
    a[i]? = b[i]? := by
  have := congrArg (fun l => l[i]?) h.1
  simpa [List.getElem?_take, hi] using this

theorem Agree.mono {m n : Nat} {a b : Bytes} (h : Agree n a b) (hm : m ≤ n) : Agree m a b := by
  refine ⟨?_, hm.trans h.2.1, hm.trans h.2.2⟩
  have := congrArg (List.take m) h.1
  rwa [List.take_take, List.take_take, Nat.min_eq_left hm] at this

theorem agree_append {n : Nat} {a : Bytes} (h : n ≤ a.length) (more : Bytes) :
    Agree n (a ++ more) a :=
  ⟨List.take_append_of_le_length h, by rw [List.length_append]; omega, h⟩

theorem agree_take {n : Nat} {rest : Bytes} (h : n ≤ rest.length) : Agree n (rest.take n) rest := by
  refine ⟨by rw [List.take_take, Nat.min_self], ?_, h⟩
  rw [List.length_take]; omega

theorem Agree.trans {n : Nat} {a b c : Bytes} (h : Agree n a b) (h' : Agree n b c) : Agree n a c :=
  ⟨h.1.trans h'.1, h.2.1, h'.2.2⟩

theorem Agree.slice {n : Nat} {a b : Bytes} (h : Agree n a b) {j : Nat} (hj : j ≤ n) (i : Nat) :
    (a.take j).drop i = (b.take j).drop i := by
  rw [(h.mono hj).1]

theorem Agree.uint32LEAt {n : Nat} {a b : Bytes} (h : Agree n a b) {i : Nat} (hi : i + 4 ≤ n) :
    uint32LEAt a i = uint32LEAt b i := by
  unfold MetadataScrub.uint32LEAt
  rw [h.getD (by omega), h.getD (by omega), h.getD (by omega), h.getD (by omega)]

theorem Agree.uint32BEAt {n : Nat} {a b : Bytes} (h : Agree n a b) {i : Nat} (hi : i + 4 ≤ n) :
    uint32BEAt a i = uint32BEAt b i := by
  unfold MetadataScrub.uint32BEAt
  rw [h.getD (by omega), h.getD (by omega), h.getD (by omega), h.getD (by omega)]

/-- A chunk of metadata. -/
def webpMetadata (chunk : Bytes) : Bool :=
  chunk.take 4 == ascii "EXIF" || chunk.take 4 == ascii "XMP "

/-- A VP8X chunk without its EXIF and XMP bits, and any other chunk. -/
def webpCleared (chunk : Bytes) : Bytes :=
  if chunk.take 4 = ascii "VP8X" then chunk.modify 8 clearFlags else chunk

/-- How long the chunk at the front is. -/
def webpNext (rest : Bytes) : Nat :=
  min (8 + uint32LEAt rest 4 + uint32LEAt rest 4 % 2) rest.length

/-- What is kept of a chunk. -/
def webpKeep (chunk : Bytes) : Option Bytes :=
  if webpMetadata chunk then none else some (webpCleared chunk)

theorem webpNext_within {rest : Bytes} (hsize : 8 + uint32LEAt rest 4 ≤ rest.length) :
    8 + uint32LEAt rest 4 ≤ webpNext rest ∧ webpNext rest ≤ rest.length := by
  unfold webpNext; omega

theorem modify_clearFlags {chunk : Bytes} (h : 8 < chunk.length) :
    chunk.modify 8 clearFlags = chunk.set 8 (clearFlags (chunk.getD 8 0)) := by
  rw [List.modify_eq_set]
  simp [List.getD, List.getElem?_eq_getElem h]

/-- The flags are cleared where there are any, set or not. -/
theorem webpCleared_vp8x {chunk : Bytes} (hx : chunk.take 4 = ascii "VP8X") (h : 8 < chunk.length) :
    webpCleared chunk =
      if clearFlags (chunk.getD 8 0) ≠ chunk.getD 8 0 then chunk.set 8 (clearFlags (chunk.getD 8 0))
      else chunk := by
  rw [webpCleared, if_pos hx, modify_clearFlags h]
  split
  · rfl
  · rename_i hsame
    rw [not_not.mp hsame, List.getD, List.getElem?_eq_getElem h, Option.getD_some,
      List.set_getElem_self]

theorem webpCleared_short {chunk : Bytes} (h : chunk.length ≤ 8) : webpCleared chunk = chunk := by
  unfold webpCleared
  split
  · exact List.modify_eq_self h
  · rfl

theorem webpBody_eq {rest : Bytes} (h : 8 ≤ rest.length) :
    webpBody rest = .ok
      (if 8 + uint32LEAt rest 4 > rest.length then .malformed
      else .block (webpNext rest) (webpKeep (rest.take (webpNext rest)))) := by
  unfold webpBody
  rw [if_neg (by omega), slice_ok 0 (by omega), readUInt32LE_ok (by omega)]
  simp only [bind, Except.bind, pure, Except.pure, List.drop_zero]
  split
  · rfl
  rename_i hle
  obtain ⟨hsize, hnext⟩ := webpNext_within (Nat.le_of_not_gt hle)
  have hagree := agree_take hnext
  have hfour : (rest.take (webpNext rest)).take 4 = rest.take 4 :=
    (hagree.mono (by omega)).1
  have hlen : (rest.take (webpNext rest)).length = webpNext rest := List.length_take_of_le hnext
  rw [show min (8 + uint32LEAt rest 4 + uint32LEAt rest 4 % 2) rest.length = webpNext rest from rfl,
    ← hfour]
  generalize rest.take (webpNext rest) = chunk at hagree hlen
  split
  · rename_i hm
    have hm' : webpMetadata chunk = true := by simpa [webpMetadata] using hm
    simp only [webpKeep, hm', if_true]
  rename_i hm
  have hm' : webpMetadata chunk = false := by simpa [webpMetadata] using hm
  simp only [webpKeep, hm', Bool.false_eq_true, if_false]
  split
  · rename_i hx
    have h8 : 8 < chunk.length := by omega
    rw [byteAt_ok (by omega), ← hagree.getD (by omega), webpCleared_vp8x hx.1 h8]
    dsimp only
    split <;> rfl
  · rename_i hx
    -- a VP8X chunk without a payload has no flags
    by_cases hv : chunk.take 4 = ascii "VP8X"
    · have hzero : uint32LEAt rest 4 = 0 := by
        by_contra hne
        exact hx ⟨hv, by omega⟩
      have hshort : chunk.length ≤ 8 := by
        rw [hlen, webpNext, hzero]
        exact Nat.min_le_left ..
      rw [webpCleared_short hshort]
    · rw [webpCleared, if_neg hv]

theorem webpCleared_length (chunk : Bytes) : (webpCleared chunk).length = chunk.length := by
  unfold webpCleared; split
  · exact List.length_modify ..
  · rfl

/-- Clearing the flags leaves the first eight bytes. -/
theorem webpCleared_take (chunk : Bytes) : (webpCleared chunk).take 8 = chunk.take 8 := by
  unfold webpCleared; split
  · rw [List.take_modify, List.modify_eq_self (by simp)]
  · rfl

theorem clearFlags_clearFlags (flags : UInt8) :
    clearFlags (clearFlags flags) = clearFlags flags := by
  rw [clearFlags, clearFlags, UInt8.and_assoc, UInt8.and_self]

theorem webpKeep_again {chunk b : Bytes} (h : webpKeep chunk = some b) :
    b.length = chunk.length ∧ b.take 8 = chunk.take 8 ∧ webpKeep b = some b := by
  unfold webpKeep at h
  split at h
  · cases h
  rename_i hm
  cases h
  have htake := webpCleared_take chunk
  have hfour : (webpCleared chunk).take 4 = chunk.take 4 := by
    have := congrArg (List.take 4) htake
    simpa [List.take_take] using this
  refine ⟨webpCleared_length chunk, htake, ?_⟩
  have hm' : webpMetadata (webpCleared chunk) = false := by
    simpa [webpMetadata, hfour] using hm
  rw [webpKeep, hm', if_neg (by simp)]
  congr 1
  by_cases hx : chunk.take 4 = ascii "VP8X"
  · have hc : webpCleared chunk = chunk.modify 8 clearFlags := if_pos hx
    rw [webpCleared, if_pos (hfour.trans hx), hc, List.modify_modify_eq]
    congr 1
    exact funext clearFlags_clearFlags
  · rw [webpCleared, if_neg (by rw [hfour]; exact hx)]

theorem webpBody_over {rest : Bytes} (h : rest.length < 8) : webpBody rest = .ok .spent := if_pos h

/-- How a chunk at the front was read. -/
theorem webpBody_block {rest : Bytes} {n : Nat} {k : Option Bytes}
    (h : webpBody rest = .ok (.block n k)) :
    8 + uint32LEAt rest 4 ≤ rest.length ∧ n = webpNext rest ∧ k = webpKeep (rest.take n) := by
  obtain hlt | hge := Nat.lt_or_ge rest.length 8
  · rw [webpBody_over hlt] at h; cases h
  rw [webpBody_eq hge] at h
  split at h
  · cases h
  · cases h
    exact ⟨by omega, rfl, rfl⟩

/-- No chunk is known to be the last. -/
theorem webpBody_ne_last (rest : Bytes) (n : Nat) : webpBody rest ≠ .ok (.last n) := by
  intro h
  obtain hlt | hge := Nat.lt_or_ge rest.length 8
  · rw [webpBody_over hlt] at h; cases h
  · rw [webpBody_eq hge] at h
    split at h <;> cases h

theorem webp_lawful : Lawful webpBody where
  safe rest := by
    obtain hlt | hge := Nat.lt_or_ge rest.length 8
    · exact ⟨_, webpBody_over hlt⟩
    · exact ⟨_, webpBody_eq hge⟩
  within h := by
    obtain ⟨hsize, rfl, -⟩ := webpBody_block h
    have := webpNext_within hsize
    omega
  within_last h := absurd h (webpBody_ne_last _ _)
  again_last h := absurd h (webpBody_ne_last _ _)
  nil := webpBody_over (by simp)
  again {rest n b} h more hmore := by
    obtain ⟨hsize, hn, hk⟩ := webpBody_block h
    obtain ⟨hle, hnext⟩ := webpNext_within hsize
    obtain ⟨hlen, hhead, hb⟩ := webpKeep_again hk.symm
    have hlen' : b.length = n := by rw [hlen, List.length_take]; omega
    -- the first eight bytes are those of the chunk that was read
    have hagree : Agree 8 (b ++ more) rest := by
      refine (agree_append (by omega) more).trans ⟨?_, by omega, by omega⟩
      rw [hhead, List.take_take, Nat.min_eq_left (by omega)]
    have hsz : uint32LEAt (b ++ more) 4 = uint32LEAt rest 4 := hagree.uint32LEAt le_rfl
    have hmore' : rest.length = n → more.length = 0 := fun he => by
      rw [hmore (by rw [List.drop_eq_nil_of_le (by omega)])]
      rfl
    have hnext' : webpNext (b ++ more) = b.length := by
      unfold webpNext
      rw [hsz, List.length_append]
      unfold webpNext at hn hnext
      omega
    have htotal : 8 + uint32LEAt rest 4 ≤ (b ++ more).length := by
      rw [List.length_append]; omega
    rw [webpBody_eq (by omega), hsz, if_neg (Nat.not_lt.mpr htotal), hnext', List.take_left, hb]

def pngMetadata (chunk : Bytes) : Bool := decide ((chunk.take 8).drop 4 ∈ pngMetadataChunks)

def pngKeep (chunk : Bytes) : Option Bytes := if pngMetadata chunk then none else some chunk

theorem pngBody_over {rest : Bytes} (h : rest.length < 8) : pngBody rest = .ok .spent := if_pos h

theorem pngBody_eq {rest : Bytes} (h : 8 ≤ rest.length) :
    pngBody rest = .ok
      (if 12 + uint32BEAt rest 0 > rest.length then .malformed
      else if pngMetadata rest then .block (12 + uint32BEAt rest 0) none
      else if (rest.take 8).drop 4 = ascii "IEND" then .last (12 + uint32BEAt rest 0)
      else .block (12 + uint32BEAt rest 0) (some (rest.take (12 + uint32BEAt rest 0)))) := by
  unfold pngBody pngMetadata
  rw [if_neg (by omega), readUInt32BE_ok (by omega), slice_ok 4 (by omega)]
  simp only [bind, Except.bind, pure, Except.pure, decide_eq_true_eq]
  split
  · rfl
  split
  · rfl
  split <;> rfl

/-- How a chunk at the front was read. -/
theorem pngBody_size {rest : Bytes} {n : Nat} {k : Option Bytes}
    (h : pngBody rest = .ok (.block n k) ∨ pngBody rest = .ok (.last n)) :
    n = 12 + uint32BEAt rest 0 ∧ n ≤ rest.length := by
  obtain hlt | hge := Nat.lt_or_ge rest.length 8
  · rcases h with h | h <;> rw [pngBody_over hlt] at h <;> cases h
  rw [pngBody_eq hge] at h
  split at h
  · rcases h with h | h <;> cases h
  split at h
  · rcases h with h | h <;> cases h
    exact ⟨rfl, by omega⟩
  split at h
  · rcases h with h | h <;> cases h
    exact ⟨rfl, by omega⟩
  · rcases h with h | h <;> cases h
    exact ⟨rfl, by omega⟩

theorem pngBody_kept {rest : Bytes} {n : Nat} {k : Option Bytes}
    (h : pngBody rest = .ok (.block n k)) : k = pngKeep (rest.take n) := by
  have hle := (pngBody_size (.inl h)).2
  have hn := (pngBody_size (.inl h)).1
  have hmeta : pngMetadata (rest.take n) = pngMetadata rest := by
    unfold pngMetadata
    rw [(agree_take hle).slice (by omega)]
  rw [pngBody_eq (by omega)] at h
  unfold pngKeep
  rw [hmeta]
  split at h
  · cases h
  split at h
  · rename_i hm
    cases h
    rw [if_pos hm]
  split at h
  · cases h
  · rename_i hm _
    cases h
    rw [if_neg hm]

/-- The chunk at the front reads the same wherever its bytes stand. -/
theorem pngBody_front {rest : Bytes} {n : Nat} (hn : n = 12 + uint32BEAt rest 0)
    (hle : n ≤ rest.length) (more : Bytes) : pngBody (rest.take n ++ more) = pngBody rest := by
  have hlen : (rest.take n).length = n := List.length_take_of_le hle
  have hagree : Agree n (rest.take n ++ more) rest :=
    (agree_append (by omega) more).trans (agree_take hle)
  have hsize : uint32BEAt (rest.take n ++ more) 0 = uint32BEAt rest 0 :=
    hagree.uint32BEAt (by omega)
  have htake : (rest.take n ++ more).take n = rest.take n := List.take_left' hlen
  have hhead : ((rest.take n ++ more).take 8).drop 4 = (rest.take 8).drop 4 :=
    hagree.slice (by omega) 4
  have hmeta : pngMetadata (rest.take n ++ more) = pngMetadata rest := by
    unfold pngMetadata
    rw [hhead]
  have htotal : n ≤ (rest.take n ++ more).length := hagree.2.1
  rw [pngBody_eq (by omega), pngBody_eq (by omega), hsize, hmeta, hhead, ← hn, htake,
    if_neg (Nat.not_lt.mpr htotal), if_neg (Nat.not_lt.mpr hle)]

theorem png_lawful : Lawful pngBody where
  safe rest := by
    obtain hlt | hge := Nat.lt_or_ge rest.length 8
    · exact ⟨_, pngBody_over hlt⟩
    · exact ⟨_, pngBody_eq hge⟩
  within h := by
    obtain ⟨hn, hle⟩ := pngBody_size (.inl h)
    omega
  within_last {rest n} h := by
    obtain ⟨hn, hle⟩ := pngBody_size (k := none) (.inr h)
    omega
  again_last {rest n} h more := by
    obtain ⟨hn, hle⟩ := pngBody_size (k := none) (.inr h)
    exact (pngBody_front hn hle more).trans h
  nil := pngBody_over (by simp)
  again {rest n b} h more _ := by
    obtain ⟨hn, hle⟩ := pngBody_size (.inl h)
    have hb : b = rest.take n := by
      have hk := pngBody_kept h
      unfold pngKeep at hk
      split at hk
      · cases hk
      · exact Option.some.inj hk
    rw [hb, pngBody_front hn hle more, h, hb, List.length_take_of_le hle]

theorem skipSubBlocks_at {buffer : Bytes} {q : Nat} {size : UInt8} (h : buffer[q]? = some size) :
    skipSubBlocks buffer q =
      if size = 0 then some (q + 1) else skipSubBlocks buffer (q + 1 + size.toNat) := by
  rw [skipSubBlocks]
  split
  · rename_i hn
    rw [h] at hn
    cases hn
  · rename_i size' hs
    rw [h] at hs
    cases hs
    rfl

/-- The sub-blocks end within the bytes, past the first size, and wherever they stand. -/
theorem skipSubBlocks_some {buffer : Bytes} {q stop : Nat}
    (h : skipSubBlocks buffer q = some stop) :
    q < stop ∧ stop ≤ buffer.length ∧
      ∀ buffer', Agree stop buffer' buffer → skipSubBlocks buffer' q = some stop := by
  fun_induction skipSubBlocks buffer q with
  | case1 => cases h
  | case2 q hq =>
    cases h
    have hlt := (List.getElem?_eq_some_iff.mp hq).1
    refine ⟨by omega, by omega, fun buffer' ha => ?_⟩
    rw [skipSubBlocks_at ((ha.getElem? (by omega)).trans hq), if_pos rfl]
  | case3 q size hq hz ih =>
    obtain ⟨hlt, hle, hloc⟩ := ih h
    refine ⟨by omega, hle, fun buffer' ha => ?_⟩
    rw [skipSubBlocks_at ((ha.getElem? (by omega)).trans hq), if_neg hz]
    exact hloc buffer' ha

/-- Where the block at the front ends. -/
def gifStop (rest : Bytes) : Option Nat :=
  if rest.getD 0 0 = 0x2c then
    if rest.length < 10 then none
    else skipSubBlocks rest (10 + colourTable (rest.getD 9 0) + 1)
  else if rest.getD 0 0 = 0x21 then
    if rest.length < 2 then none else skipSubBlocks rest 2
  else none

/-- A comment extension, or an application extension with XMP. -/
def gifMetadata (block : Bytes) : Bool :=
  block.getD 0 0 == 0x21 && (block.getD 1 0 == 0xfe ||
    (block.getD 1 0 == 0xff && block.getD 2 0 == 0x0b &&
      (block.take 14).drop 3 == ascii "XMP DataXMP"))

def gifKeep (block : Bytes) : Option Bytes := if gifMetadata block then none else some block

theorem gifStop_some {rest : Bytes} {stop : Nat} (h : gifStop rest = some stop) :
    2 < stop ∧ stop ≤ rest.length ∧ rest.getD 0 0 ≠ 0x3b ∧
      (∀ rest', Agree stop rest' rest → gifStop rest' = some stop) ∧
      (rest.getD 0 0 = 0x21 → rest.getD 2 0 = 0x0b → 14 < stop) := by
  unfold gifStop at h
  split at h
  · rename_i hm
    split at h
    · cases h
    rename_i hlen
    obtain ⟨hlt, hle, hloc⟩ := skipSubBlocks_some h
    refine ⟨by omega, hle, by rw [hm]; decide, fun rest' ha => ?_, fun he => ?_⟩
    · have hl := ha.2.1
      rw [gifStop, ha.getD (by omega), if_pos hm, if_neg (by omega), ha.getD (by omega)]
      exact hloc rest' ha
    · rw [hm] at he
      exact absurd he (by decide)
  · rename_i hm
    split at h
    · rename_i he
      split at h
      · cases h
      obtain ⟨hlt, hle, hloc⟩ := skipSubBlocks_some h
      refine ⟨by omega, hle, by rw [he]; decide, fun rest' ha => ?_, fun _ hb => ?_⟩
      · have hl := ha.2.1
        rw [gifStop, ha.getD (by omega), if_neg hm, if_pos he, if_neg (by omega)]
        exact hloc rest' ha
      · -- the first sub-block has eleven bytes
        have hat : rest[2]? = some 0x0b := by
          rw [← hb, List.getD, List.getElem?_eq_getElem (by omega), Option.getD_some]
        rw [skipSubBlocks_at hat, if_neg (by decide)] at h
        exact (skipSubBlocks_some h).1
    · cases h

/-- The metadata of a block is told by its own bytes. -/
theorem gifMetadata_take {rest : Bytes} {stop : Nat} (h : gifStop rest = some stop) :
    gifMetadata (rest.take stop) = gifMetadata rest := by
  obtain ⟨hlt, hle, -, -, hxmp⟩ := gifStop_some h
  have ha := agree_take hle
  unfold gifMetadata
  rw [ha.getD (by omega), ha.getD (by omega), ha.getD (by omega)]
  by_cases hx : rest.getD 0 0 = 0x21 ∧ rest.getD 2 0 = 0x0b
  · rw [ha.slice (hxmp hx.1 hx.2).le]
  · rcases Decidable.not_and_iff_not_or_not.mp hx with hx | hx
    · rw [beq_false_of_ne hx, Bool.false_and, Bool.false_and]
    · rw [beq_false_of_ne hx, Bool.and_false, Bool.false_and, Bool.false_and]

theorem gifBody_image {rest : Bytes} (hm : rest.getD 0 0 = 0x2c) (h : rest ≠ []) :
    gifBody rest = .ok (match gifStop rest with
      | none => .malformed
      | some stop => .block stop (some (rest.take stop))) := by
  obtain ⟨marker, tail, rfl⟩ := List.exists_cons_of_ne_nil h
  have hm' : marker = 0x2c := hm
  rw [gifStop, if_pos hm]
  unfold gifBody
  dsimp only
  rw [if_neg (by rw [hm']; decide), if_pos hm']
  split
  · rfl
  rename_i hlen
  rw [byteAt_ok (by omega)]
  simp only [bind, Except.bind]
  generalize skipSubBlocks _ _ = stop
  cases stop <;> rfl

theorem gifBody_extension {rest : Bytes} (hm : rest.getD 0 0 = 0x21) (h : rest ≠ []) :
    gifBody rest = .ok (match gifStop rest with
      | none => .malformed
      | some stop => .block stop (if gifMetadata rest then none else some (rest.take stop))) := by
  obtain ⟨marker, tail, rfl⟩ := List.exists_cons_of_ne_nil h
  have hm' : marker = 0x21 := hm
  have hstop := @gifStop_some (marker :: tail)
  rw [gifStop, if_neg (by rw [hm]; decide), if_pos hm] at hstop ⊢
  unfold gifBody
  dsimp only
  rw [if_neg (by rw [hm']; decide), if_neg (by rw [hm']; decide), if_pos hm']
  split
  · rfl
  rename_i hlen
  rw [if_neg hlen] at hstop
  rw [byteAt_ok (by omega)]
  simp only [bind, Except.bind]
  cases hs : skipSubBlocks (marker :: tail) 2 with
  | none => rfl
  | some stop =>
    obtain ⟨hlt, hle, -, -, hxmp⟩ := hstop hs
    rw [gifMetadata, beq_of_eq hm, Bool.true_and]
    generalize hrest : marker :: tail = rest at *
    dsimp only
    by_cases hl : rest.getD 1 0 = 0xff
    · rw [if_pos hl, byteAt_ok (by omega), hl]
      dsimp only
      by_cases hb : rest.getD 2 0 = 0x0b
      · rw [if_pos hb, slice_ok 3 ((hxmp hm hb).le.trans hle), hb]
        by_cases hx : (rest.take 14).drop 3 = ascii "XMP DataXMP"
        · rw [hx]; rfl
        · simp [pure, Except.pure, hx]
      · rw [if_neg hb]
        simp [pure, Except.pure, hb, -List.getD_eq_getElem?_getD]
    · rw [if_neg hl]
      by_cases hc : rest.getD 1 0 = 0xfe
      · rw [hc]; rfl
      · simp [pure, Except.pure, hc, hl, -List.getD_eq_getElem?_getD]

theorem gifBody_eq {rest : Bytes} (h : rest ≠ []) :
    gifBody rest = .ok
      (if rest.getD 0 0 = 0x3b then .last 1
      else match gifStop rest with
        | none => .malformed
        | some stop => .block stop (gifKeep (rest.take stop))) := by
  by_cases hi : rest.getD 0 0 = 0x2c
  · rw [gifBody_image hi h, if_neg (by rw [hi]; decide)]
    cases hs : gifStop rest with
    | none => rfl
    | some stop =>
      have hm : gifMetadata rest = false := by
        rw [gifMetadata, hi]; rfl
      dsimp only
      rw [gifKeep, gifMetadata_take hs, hm]
      rfl
  by_cases he : rest.getD 0 0 = 0x21
  · rw [gifBody_extension he h, if_neg (by rw [he]; decide)]
    cases hs : gifStop rest with
    | none => rfl
    | some stop =>
      dsimp only
      rw [gifKeep, gifMetadata_take hs]
  · obtain ⟨marker, tail, rfl⟩ := List.exists_cons_of_ne_nil h
    rw [gifStop, if_neg hi, if_neg he]
    have hi' : marker ≠ 0x2c := hi
    have he' : marker ≠ 0x21 := he
    unfold gifBody
    dsimp only
    rw [if_neg hi', if_neg he']
    change _ = Except.ok (if marker = 0x3b then _ else _)
    split <;> rfl

/-- How a block at the front was read. -/
theorem gifBody_block {rest : Bytes} {n : Nat} {k : Option Bytes}
    (h : gifBody rest = .ok (.block n k)) : gifStop rest = some n ∧ k = gifKeep (rest.take n) := by
  by_cases hne : rest = []
  · rw [hne] at h; cases h
  rw [gifBody_eq hne] at h
  split at h
  · cases h
  · cases hs : gifStop rest with
    | none => rw [hs] at h; cases h
    | some stop => rw [hs] at h; cases h; exact ⟨rfl, rfl⟩

theorem gifBody_last {rest : Bytes} {n : Nat} (h : gifBody rest = .ok (.last n)) :
    n = 1 ∧ ∃ tail, rest = 0x3b :: tail := by
  cases rest with
  | nil => cases h
  | cons marker tail =>
    rw [gifBody_eq (List.cons_ne_nil _ _)] at h
    split at h
    · rename_i hm
      cases h
      exact ⟨rfl, tail, by rw [show marker = 0x3b from hm]⟩
    · cases hs : gifStop (marker :: tail) with
      | none => rw [hs] at h; cases h
      | some stop => rw [hs] at h; cases h

theorem gif_lawful : Lawful gifBody where
  safe rest := by
    by_cases hne : rest = []
    · exact ⟨_, by rw [hne]; rfl⟩
    · exact ⟨_, gifBody_eq hne⟩
  within h := by
    obtain ⟨hs, -⟩ := gifBody_block h
    obtain ⟨hlt, hle, -⟩ := gifStop_some hs
    omega
  within_last h := by
    obtain ⟨rfl, tail, rfl⟩ := gifBody_last h
    exact ⟨Nat.one_pos, by simp⟩
  again_last h more := by
    obtain ⟨rfl, tail, rfl⟩ := gifBody_last h
    rfl
  nil := rfl
  again {rest n b} h more _ := by
    obtain ⟨hs, hk⟩ := gifBody_block h
    obtain ⟨hlt, hle, hm, hloc, -⟩ := gifStop_some hs
    have hb : b = rest.take n := by
      unfold gifKeep at hk
      split at hk
      · cases hk
      · exact Option.some.inj hk
    have hlen : (rest.take n).length = n := List.length_take_of_le hle
    have ha : Agree n (rest.take n ++ more) rest :=
      (agree_append (by omega) more).trans (agree_take hle)
    have hne : rest.take n ++ more ≠ [] := fun he => by
      have := congrArg List.length he
      rw [List.length_append, List.length_nil] at this
      omega
    rw [hb, gifBody_eq hne, ha.getD (by omega), if_neg hm, hloc _ ha]
    dsimp only
    rw [List.take_left' hlen, ← hk, hb, hlen]

/-- What of a chunk or block is metadata. -/
def Container.isMetadata : Container → Bytes → Bool
  | .webp => webpMetadata
  | .png => pngMetadata
  | .gif => gifMetadata

/-- What changes in a chunk that is kept: the flags of a VP8X chunk. -/
def Container.cleared : Container → Bytes → Bytes
  | .webp => webpCleared
  | .png => id
  | .gif => id

def Container.keep (c : Container) (block : Bytes) : Option Bytes :=
  if c.isMetadata block then none else some (c.cleared block)

theorem lawful (c : Container) : Lawful c.format.body := by
  cases c with
  | webp => exact webp_lawful
  | png => exact png_lawful
  | gif => exact gif_lawful

/-- What the loop keeps of a block is what its own bytes say. -/
theorem body_keep {c : Container} {rest : Bytes} {n : Nat} {k : Option Bytes}
    (h : c.format.body rest = .ok (.block n k)) : k = c.keep (rest.take n) := by
  cases c with
  | webp => exact (webpBody_block h).2.2
  | png => exact pngBody_kept h
  | gif => exact (gifBody_block h).2

theorem keep_last {c : Container} {rest : Bytes} {n : Nat}
    (h : c.format.body rest = .ok (.last n)) :
    c.keep (rest.take n) = some (rest.take n) := by
  cases c with
  | webp => exact absurd h (webpBody_ne_last rest n)
  | png =>
    obtain ⟨hn, hle⟩ := pngBody_size (k := none) (.inr h)
    have hend : pngBody rest = .ok (.last n) := h
    have hmeta : pngMetadata (rest.take n) = false := by
      unfold pngMetadata
      rw [(agree_take hle).slice (by omega)]
      rw [pngBody_eq (by omega), if_neg (by omega)] at hend
      split at hend
      · cases hend
      · rename_i hm
        simpa [pngMetadata] using hm
    exact if_neg (by rw [Container.isMetadata, hmeta]; exact Bool.false_ne_true)
  | gif =>
    obtain ⟨rfl, tail, rfl⟩ := gifBody_last h
    rfl

theorem reads_keep {c : Container} {rest : Bytes} {bs : List (Block UInt8)} {e : Ending UInt8}
    (h : Reads c.format.body rest bs e) : ∀ b ∈ bs, b.2 = c.keep b.1 := by
  induction h with
  | spent | malformed => exact fun b hb => absurd hb List.not_mem_nil
  | last h =>
    intro b hb
    obtain rfl := List.mem_singleton.mp hb
    exact (keep_last h).symm
  | block h _ ih =>
    intro b hb
    rcases List.mem_cons.mp hb with rfl | hb
    · exact body_keep h
    · exact ih b hb

/-- The header of what was scrubbed: of a WebP, with the size of the whole. -/
def Container.head (c : Container) (head : Bytes) (size : Nat) : Bytes :=
  match c with
  | .webp => head.take 4 ++ uint32LE (size - 8) ++ head.drop 8
  | .png => head
  | .gif => head

/-- A RIFF has room for the size. -/
def Container.fits (c : Container) (size : Nat) : Bool :=
  match c with
  | .webp => decide (size - 8 < 4294967296)
  | .png => true
  | .gif => true

theorem webpHeader_eq (buffer : Bytes) :
    webpHeader buffer = .ok
      (if 12 ≤ buffer.length ∧ buffer.take 4 = ascii "RIFF" ∧
        (buffer.take 12).drop 8 = ascii "WEBP" then some 12 else none) := by
  unfold webpHeader
  split
  · rw [if_neg (by omega)]
  rename_i h
  rw [slice_ok 0 (by omega), slice_ok 8 (by omega)]
  simp only [bind, Except.bind, pure, Except.pure, List.drop_zero]
  split
  · rename_i hr
    rw [if_neg fun hc => hr hc.2.1]
  rename_i hr
  split
  · rename_i hw
    rw [if_neg fun hc => hw hc.2.2]
  · rename_i hw
    rw [if_pos ⟨by omega, not_not.mp hr, not_not.mp hw⟩]

theorem gifHeader_eq (buffer : Bytes) :
    gifHeader buffer = .ok
      (if 13 ≤ buffer.length ∧ (buffer.take 6 = ascii "GIF87a" ∨ buffer.take 6 = ascii "GIF89a") ∧
        13 + colourTable (buffer.getD 10 0) ≤ buffer.length
      then some (13 + colourTable (buffer.getD 10 0)) else none) := by
  unfold gifHeader
  split
  · rw [if_neg (by omega)]
  rename_i h
  rw [slice_ok 0 (by omega), byteAt_ok (by omega)]
  simp only [bind, Except.bind, pure, Except.pure, List.drop_zero]
  split
  · rename_i hs
    rw [if_neg fun hc => hc.2.1.elim hs.1 hs.2]
  rename_i hs
  split
  · rename_i hp
    rw [if_neg fun hc => absurd hc.2.2 (by omega)]
  · rename_i hp
    rw [if_pos ⟨by omega, by by_contra hc; exact hs (not_or.mp hc), by omega⟩]

theorem header_ok (c : Container) (buffer : Bytes) : ∃ n, c.format.header buffer = .ok n := by
  cases c with
  | webp => exact ⟨_, webpHeader_eq buffer⟩
  | png =>
    change ∃ n, pngHeader buffer = .ok n
    unfold pngHeader
    split <;> exact ⟨_, rfl⟩
  | gif => exact ⟨_, gifHeader_eq buffer⟩

/-- A header reads as itself, with whatever size and whatever comes after it. -/
theorem header_again {c : Container} {buffer : Bytes} {n : Nat}
    (h : c.format.header buffer = .ok (some n)) (size : Nat) (more : Bytes) :
    n ≤ buffer.length ∧ (c.head (buffer.take n) size).length = n ∧
      c.format.header (c.head (buffer.take n) size ++ more) = .ok (some n) := by
  cases c with
  | webp =>
    change webpHeader buffer = _ at h
    change _ ∧ _ ∧ webpHeader _ = _
    rw [webpHeader_eq] at h ⊢
    split at h
    · rename_i hc
      obtain ⟨hlen, hriff, hwebp⟩ := hc
      cases h
      have hhead : Container.webp.head (buffer.take 12) size =
          ascii "RIFF" ++ uint32LE (size - 8) ++ ascii "WEBP" := by
        rw [Container.head, List.take_take, hwebp]
        exact congrArg (· ++ _ ++ _) hriff
      rw [hhead]
      have hlen' : 12 ≤
          (ascii "RIFF" ++ uint32LE (size - 8) ++ ascii "WEBP" ++ more).length := by
        rw [List.length_append]
        exact Nat.le_add_right 12 _
      exact ⟨hlen, rfl, by rw [if_pos ⟨hlen', rfl, rfl⟩]⟩
    · cases h
  | png =>
    change pngHeader buffer = _ at h
    change _ ∧ _ ∧ pngHeader (buffer.take n ++ more) = _
    unfold pngHeader at h
    split at h
    · cases h
    · rename_i hc
      obtain ⟨hlen, hsig⟩ := not_or.mp hc
      cases h
      rw [Container.head, not_not.mp hsig]
      refine ⟨by omega, rfl, ?_⟩
      unfold pngHeader
      rw [if_neg]
      rw [List.length_append]
      simp [pngSignature]
  | gif =>
    change gifHeader buffer = _ at h
    change _ ∧ _ ∧ gifHeader (buffer.take n ++ more) = _
    rw [gifHeader_eq] at h ⊢
    split at h
    · rename_i hc
      obtain ⟨hlen, hsig, hp⟩ := hc
      obtain ⟨rfl⟩ : 13 + colourTable (buffer.getD 10 0) = n := by simpa using h
      have ha : Agree (13 + colourTable (buffer.getD 10 0))
          (buffer.take (13 + colourTable (buffer.getD 10 0)) ++ more) buffer :=
        (agree_append (by rw [List.length_take]; omega) more).trans (agree_take hp)
      have hten := ha.getD (show 10 < 13 + colourTable (buffer.getD 10 0) by omega)
      have hsix := (ha.mono (show 6 ≤ 13 + colourTable (buffer.getD 10 0) by omega)).1
      have htotal := ha.2.1
      refine ⟨hp, List.length_take_of_le hp, ?_⟩
      rw [hten, hsix, if_pos ⟨by omega, hsig, htotal⟩]
    · cases h

theorem scrubMetadata_eq (c : Container) (buffer : Bytes) :
    scrubMetadata buffer c = match c.format.scrub buffer with
      | .ok out => out
      | .error _ => buffer := by
  cases c <;> rfl

theorem scrub_no_header {c : Container} {buffer : Bytes}
    (h : c.format.header buffer = .ok none) : c.format.scrub buffer = .ok buffer := by
  unfold Format.scrub
  rw [h]
  rfl

/-- The scrubber on a container that was read. -/
theorem scrub_of_reads {c : Container} {buffer : Bytes} {n : Nat} {bs : List (Block UInt8)}
    {e : Ending UInt8} (hh : c.format.header buffer = .ok (some n))
    (hr : Reads c.format.body (buffer.drop n) bs e) :
    c.format.scrub buffer =
      if e ≠ .malformed ∧ changes bs then
        c.format.finish (buffer.take n ++ (kept bs).flatten)
      else .ok buffer := by
  unfold Format.scrub
  rw [hh]
  simp only [bind, Except.bind]
  rw [walk_eq (lawful c) hr]
  cases e with
  | malformed => rfl
  | spent rest | last rest =>
    simp only [Ending.guard, Bool.false_or, ne_eq, reduceCtorEq, not_false_eq_true, true_and,
      List.cons_append, List.nil_append, List.flatten_cons]
    rfl

theorem finish_eq (c : Container) {buffer : Bytes} {n : Nat} (body : Bytes)
    (hh : c.format.header buffer = .ok (some n)) :
    c.format.finish (buffer.take n ++ body) =
      if c.fits (n + body.length) then
        .ok (c.head (buffer.take n) (n + body.length) ++ body)
      else .error .write := by
  have hn := (header_again hh 0 []).1
  have hlen : (buffer.take n).length = n := List.length_take_of_le hn
  cases c with
  | webp =>
    have hn' : n = 12 := by
      have hh' : webpHeader buffer = .ok (some n) := hh
      rw [webpHeader_eq] at hh'
      split at hh' <;> cases hh'
      rfl
    subst hn'
    change writeUInt32LE _ 4 _ = _
    unfold writeUInt32LE
    rw [List.length_append, hlen]
    simp only [Container.fits, decide_eq_true_eq]
    split
    · congr 1
      rw [Container.head, List.take_append_of_le_length (by omega),
        List.drop_append_of_le_length (by omega)]
      simp only [List.append_assoc]
    · rfl
  | png | gif => rfl

/-- The container reads to its end: a RIFF to the end of the bytes, the others to the chunk or block
that ends them. -/
def Container.ToEnd (c : Container) (e : Ending UInt8) : Prop :=
  match c with
  | .webp => e = .spent []
  | .png => ∃ rest, e = .last rest
  | .gif => ∃ rest, e = .last rest

theorem Container.ToEnd.ne_malformed {c : Container} {e : Ending UInt8} (h : c.ToEnd e) :
    e ≠ .malformed := by
  rintro rfl
  cases c with
  | webp => cases h
  | png => obtain ⟨_, h⟩ := h; cases h
  | gif => obtain ⟨_, h⟩ := h; cases h

theorem kept_eq {c : Container} {rest : Bytes} {bs : List (Block UInt8)} {e : Ending UInt8}
    (h : Reads c.format.body rest bs e) : kept bs = (bs.map Prod.fst).filterMap c.keep := by
  rw [List.filterMap_map]
  exact List.filterMap_congr fun b hb => reads_keep h b hb

theorem changes_iff {c : Container} {rest : Bytes} {bs : List (Block UInt8)} {e : Ending UInt8}
    (h : Reads c.format.body rest bs e) :
    changes bs = true ↔ ∃ b ∈ bs.map Prod.fst, c.keep b ≠ some b := by
  simp only [changes, List.any_eq_true, bne_iff_ne, List.mem_map]
  constructor
  · rintro ⟨b, hb, hne⟩
    exact ⟨b.1, ⟨b, hb, rfl⟩, reads_keep h b hb ▸ hne⟩
  · rintro ⟨_, ⟨b, hb, rfl⟩, hne⟩
    exact ⟨b, hb, by rw [reads_keep h b hb]; exact hne⟩

/-- What comes out of a container in which something changes, and how it reads. -/
theorem scrubMetadata_changed {c : Container} {buffer : Bytes} {n : Nat} {bs : List (Block UInt8)}
    {e : Ending UInt8} (hh : c.format.header buffer = .ok (some n))
    (hr : Reads c.format.body (buffer.drop n) bs e) (he : e ≠ .malformed) (hc : changes bs) :
    (c.fits (n + (kept bs).flatten.length) = false → scrubMetadata buffer c = buffer) ∧
    (c.fits (n + (kept bs).flatten.length) →
      scrubMetadata buffer c =
        c.head (buffer.take n) (n + (kept bs).flatten.length) ++ (kept bs).flatten ∧
      c.format.header (scrubMetadata buffer c) = .ok (some n) ∧
      Reads c.format.body ((scrubMetadata buffer c).drop n) ((kept bs).map fun b => (b, some b))
        e.closed) := by
  rw [scrubMetadata_eq, scrub_of_reads hh hr, if_pos ⟨he, hc⟩, finish_eq c _ hh]
  constructor
  · intro hf
    rw [if_neg (by rw [hf]; exact Bool.false_ne_true)]
  · intro hf
    obtain ⟨-, hlen, hhead⟩ := header_again hh (n + (kept bs).flatten.length) (kept bs).flatten
    rw [if_pos hf]
    refine ⟨rfl, hhead, ?_⟩
    rw [List.drop_left' hlen]
    exact hr.again (lawful c) he

theorem scrubMetadata_unchanged {c : Container} {buffer : Bytes} {n : Nat}
    {bs : List (Block UInt8)} {e : Ending UInt8} (hh : c.format.header buffer = .ok (some n))
    (hr : Reads c.format.body (buffer.drop n) bs e) (h : e = .malformed ∨ changes bs = false) :
    scrubMetadata buffer c = buffer := by
  rw [scrubMetadata_eq, scrub_of_reads hh hr, if_neg]
  rintro ⟨he, hc⟩
  rcases h with h | h
  · exact he h
  · rw [h] at hc; cases hc

/-- A second pass changes nothing, whatever the bytes. -/
theorem scrubMetadata_again (c : Container) (buffer : Bytes) :
    scrubMetadata (scrubMetadata buffer c) c = scrubMetadata buffer c := by
  obtain ⟨r, hh⟩ := header_ok c buffer
  have hsame : scrubMetadata buffer c = buffer →
      scrubMetadata (scrubMetadata buffer c) c = scrubMetadata buffer c := fun h => by rw [h, h]
  cases r with
  | none =>
    exact hsame (by rw [scrubMetadata_eq, scrub_no_header hh])
  | some n =>
    obtain ⟨bs, e, hr⟩ := (lawful c).reads (buffer.drop n)
    by_cases hc : e ≠ .malformed ∧ changes bs = true
    · obtain ⟨hno, hyes⟩ := scrubMetadata_changed hh hr hc.1 hc.2
      by_cases hf : c.fits (n + (kept bs).flatten.length) = true
      · obtain ⟨-, hh', hr'⟩ := hyes hf
        exact scrubMetadata_unchanged hh' hr' (.inr (unchanged_again _))
      · exact hsame (hno (by simpa using hf))
    · refine hsame (scrubMetadata_unchanged hh hr ?_)
      by_cases he : e = .malformed
      · exact .inl he
      · exact .inr (by simpa [he] using hc)

/-- Nothing is read that is not there. -/
theorem scrub_ne_read (c : Container) (buffer : Bytes) :
    c.format.scrub buffer ≠ .error .read := by
  obtain ⟨r, hh⟩ := header_ok c buffer
  cases r with
  | none =>
    rw [scrub_no_header hh]
    intro hr
    cases hr
  | some n =>
    obtain ⟨bs, e, hr⟩ := (lawful c).reads (buffer.drop n)
    rw [scrub_of_reads hh hr, finish_eq c _ hh]
    split
    · split <;> (intro hr; cases hr)
    · intro hr
      cases hr

/-- What is scrubbed, and what is returned untouched, for any bytes. -/
theorem scrub_exact (c : Container) (buffer : Bytes) :
    c.format.scrub buffer ≠ .error .read ∧
    scrubMetadata (scrubMetadata buffer c) c = scrubMetadata buffer c ∧
    (c.format.header buffer = .ok none → scrubMetadata buffer c = buffer) ∧
    ∀ n, c.format.header buffer = .ok (some n) → ∃ bs e,
      Reads c.format.body (buffer.drop n) bs e ∧
      (e ≠ .malformed → buffer.take n ++ (bs.map Prod.fst).flatten ++ e.left = buffer) ∧
      (e = .malformed → scrubMetadata buffer c = buffer) ∧
      ((∀ b ∈ bs.map Prod.fst, c.keep b = some b) → scrubMetadata buffer c = buffer) ∧
      (c.ToEnd e → (∃ b ∈ bs.map Prod.fst, c.keep b ≠ some b) →
        let blocks := (bs.map Prod.fst).filterMap c.keep
        let size := n + blocks.flatten.length
        if c.fits size then
          scrubMetadata buffer c = c.head (buffer.take n) size ++ blocks.flatten ∧
          c.format.header (scrubMetadata buffer c) = .ok (some n) ∧
          Reads c.format.body ((scrubMetadata buffer c).drop n) (blocks.map fun b => (b, some b))
            e.closed ∧
          ∀ b ∈ blocks, c.isMetadata b = false
        else scrubMetadata buffer c = buffer) := by
  refine ⟨scrub_ne_read c buffer, scrubMetadata_again c buffer, fun hh => ?_, fun n hh => ?_⟩
  · rw [scrubMetadata_eq, scrub_no_header hh]
  obtain ⟨bs, e, hr⟩ := (lawful c).reads (buffer.drop n)
  refine ⟨bs, e, hr, fun he => ?_, fun he => scrubMetadata_unchanged hh hr (.inl he), fun hk => ?_,
    fun hend hk => ?_⟩
  · rw [List.append_assoc, hr.bytes he, List.take_append_drop]
  · refine scrubMetadata_unchanged hh hr (.inr ?_)
    by_contra hc
    obtain ⟨b, hb, hne⟩ := (changes_iff hr).mp (by simpa using hc)
    exact hne (hk b hb)
  · obtain ⟨hno, hyes⟩ :=
      scrubMetadata_changed hh hr hend.ne_malformed ((changes_iff hr).mpr hk)
    rw [kept_eq hr] at hno hyes
    intro blocks size
    split
    · rename_i hf
      obtain ⟨hout, hhead, hagain⟩ := hyes hf
      refine ⟨hout, hhead, hagain, fun b hb => ?_⟩
      have hkeep : some b = c.keep b := reads_keep hagain (b, some b) (List.mem_map_of_mem hb)
      by_contra hm
      rw [Container.keep, if_pos (by simpa using hm)] at hkeep
      cases hkeep
    · rename_i hf
      exact hno (Bool.eq_false_iff.mpr hf)

/-- A PNG that has no metadata, and a byte after its end. -/
def trailing : Bytes := pngSignature ++ [0, 0, 0, 0, 73, 69, 78, 68, 174, 66, 96, 130] ++ [7]

/-- The byte after the end stays where there is nothing to remove. -/
theorem trailing_byte_stays :
    ¬ ∀ (c : Container) (buffer : Bytes) n bs e, c.format.header buffer = .ok (some n) →
      Reads c.format.body (buffer.drop n) bs e → c.ToEnd e →
      scrubMetadata buffer c =
        buffer.take n ++ ((bs.map Prod.fst).filterMap c.keep).flatten := fun h => by
  have hh : Container.png.format.header trailing = .ok (some 8) := rfl
  have hr : Reads Container.png.format.body (trailing.drop 8)
      [((trailing.drop 8).take 12, some ((trailing.drop 8).take 12))] (.last [7]) :=
    .last (by rfl)
  have hsame := scrubMetadata_unchanged hh hr (.inr (by decide))
  have hless := (h .png trailing 8 _ _ hh hr ⟨_, rfl⟩).symm.trans hsame
  exact absurd hless (by decide)

end Lurker.Upload.MetadataScrub
