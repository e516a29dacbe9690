import Mathlib.Data.List.Infix
import Lurker.Engine.Protocol
import Lurker.Lib.Delimited

/-!
# Reading frames

Both ends of the engine link send one JSON object a line and read with `FrameReader`, which
keeps what it has of an unfinished line from one chunk to the next. A JavaScript string is a
list of UTF-16 code units here, so that a chunk may end anywhere.
-/

namespace Lurker.Engine

/-- A JavaScript string. -/
abbrev JsString := List UInt16

/-- The code units of a text in the basic plane. -/
def units (s : String) : JsString := s.toList.map fun c => UInt16.ofNat c.toNat

def newline : UInt16 := 10

/-- The text of a number: digits, a sign, a point and an exponent. -/
structure NumberText where
  text : JsString
  nonempty : text ≠ []
  plain : ∀ u ∈ text, u ∈ units "0123456789+-.e"

inductive Json where
  | null
  | bool (b : Bool)
  | number (n : NumberText)
  | string (s : JsString)
  | array (items : List Json)
  | object (fields : List (JsString × Json))

namespace Json

def isHighSurrogate (u : UInt16) : Bool := 0xD800 ≤ u && u ≤ 0xDBFF

def isLowSurrogate (u : UInt16) : Bool := 0xDC00 ≤ u && u ≤ 0xDFFF

def hexUnit (n : Nat) : UInt16 := UInt16.ofNat (if n < 10 then 48 + n else 87 + n)

/-- `\uXXXX` -/
def unicodeEscape (u : UInt16) : JsString :=
  units "\\u" ++ [hexUnit (u.toNat / 4096 % 16), hexUnit (u.toNat / 256 % 16),
    hexUnit (u.toNat / 16 % 16), hexUnit (u.toNat % 16)]

def escapeUnit (u : UInt16) : JsString :=
  if u = 34 then units "\\\""
  else if u = 92 then units "\\\\"
  else if u = 8 then units "\\b"
  else if u = 9 then units "\\t"
  else if u = 10 then units "\\n"
  else if u = 12 then units "\\f"
  else if u = 13 then units "\\r"
  else if u < 32 then unicodeEscape u
  else [u]

/-- The inside of a string literal. A surrogate without its other half is escaped. -/
def escape : JsString → JsString
  | [] => []
  | [u] => if isHighSurrogate u || isLowSurrogate u then unicodeEscape u else escapeUnit u
  | u :: v :: s =>
    if isHighSurrogate u && isLowSurrogate v then u :: v :: escape s
    else
      (if isHighSurrogate u || isLowSurrogate u then unicodeEscape u else escapeUnit u) ++
        escape (v :: s)

def quote (s : JsString) : JsString := units "\"" ++ escape s ++ units "\""

/-- Texts with commas between them. -/
def commas : List JsString → JsString
  | [] => []
  | [s] => s
  | s :: t :: ts => s ++ units "," ++ commas (t :: ts)

mutual

/-- `JSON.stringify` -/
def stringify : Json → JsString
  | .null => units "null"
  | .bool b => units (if b then "true" else "false")
  | .number n => n.text
  | .string s => quote s
  | .array items => units "[" ++ commas (stringifyItems items) ++ units "]"
  | .object fields => units "\x7b" ++ commas (stringifyFields fields) ++ units "\x7d"

def stringifyItems : List Json → List JsString
  | [] => []
  | v :: vs => stringify v :: stringifyItems vs

def stringifyFields : List (JsString × Json) → List JsString
  | [] => []
  | (key, v) :: fields => (quote key ++ units ":" ++ stringify v) :: stringifyFields fields

end

end Json

/-- An object with an `op` that is a string. -/
def isFrame : Json → Bool
  | .object fields =>
    match (fields.find? fun f => f.1 = units "op").map Prod.snd with
    | some (.string _) => true
    | _ => false
  | _ => false

abbrev Frame := { v : Json // isFrame v = true }

def Frame.encode (f : Frame) : JsString := f.val.stringify ++ [newline]

inductive FrameError where
  | tooLong
  | malformed
  /-- `JSON.parse` throws. -/
  | notJson
  deriving DecidableEq

/-- The white space and line ends that `trim` takes off. -/
def isTrimmed (u : UInt16) : Bool :=
  (9 ≤ u && u ≤ 13) || u = 32 || u = 0xA0 || u = 0x1680 || (0x2000 ≤ u && u ≤ 0x200A) ||
    u = 0x2028 || u = 0x2029 || u = 0x202F || u = 0x205F || u = 0x3000 || u = 0xFEFF

-- `JSON.parse`
variable (parse : JsString → Option Json)

/-- One complete line; a blank one is skipped. -/
def readLine (raw : JsString) : Except FrameError (List Frame) :=
  if raw.all isTrimmed then .ok []
  else if MAX_FRAME_BYTES < raw.length then .error .tooLong
  else
    match parse raw with
    | none => .error .notJson
    | some v => if h : isFrame v = true then .ok [⟨v, h⟩] else .error .malformed

/-- The loop over the complete lines in the buffer. -/
def readLines (buf : JsString) (out : List Frame) : Except FrameError (JsString × List Frame) :=
  match _h : buf.idxOf? newline with
  | none => .ok (buf, out)
  | some nl =>
    match readLine parse (buf.take nl) with
    | .error e => .error e
    | .ok frames => readLines (buf.drop (nl + 1)) (out ++ frames)
termination_by buf.length
decreasing_by
  obtain ⟨hlt, -⟩ := List.findIdx?_eq_some_iff_findIdx_eq.mp _h
  rw [List.length_drop]
  omega

structure FrameReader where
  buf : JsString

def FrameReader.new : FrameReader := ⟨[]⟩

def FrameReader.push (r : FrameReader) (chunk : JsString) :
    Except FrameError (FrameReader × List Frame) :=
  match readLines parse (r.buf ++ chunk) [] with
  | .error e => .error e
  | .ok (buf, out) => if MAX_FRAME_BYTES < buf.length then .error .tooLong else .ok (⟨buf⟩, out)

/-- A stream read chunk by chunk: what each push returned. -/
def FrameReader.feed (r : FrameReader) : List JsString → Except FrameError (List (List Frame))
  | [] => .ok []
  | chunk :: chunks =>
    match r.push parse chunk with
    | .error e => .error e
    | .ok (r, frames) =>
      match r.feed chunks with
      | .error e => .error e
      | .ok out => .ok (frames :: out)

namespace Json

theorem newline_unicodeEscape (u : UInt16) : newline ∉ unicodeEscape u := by
  have hhex : ∀ n < 16, hexUnit n ≠ newline := by decide
  have hdigit (n : Nat) : newline ≠ hexUnit (n % 16) :=
    (hhex (n % 16) (Nat.mod_lt n (by decide))).symm
  unfold unicodeEscape
  simp only [List.mem_append, List.mem_cons, List.not_mem_nil, or_false, not_or]
  exact ⟨by decide, hdigit _, hdigit _, hdigit _, hdigit _⟩

theorem newline_escapeUnit (u : UInt16) : newline ∉ escapeUnit u := by
  unfold escapeUnit
  split
  · decide
  split
  · decide
  split
  · decide
  split
  · decide
  split
  · decide
  split
  · decide
  split
  · decide
  split
  · exact newline_unicodeEscape u
  · next hnewline _ _ _ => exact fun hin => hnewline (List.mem_singleton.mp hin).symm

theorem newline_escape (s : JsString) : newline ∉ escape s := by
  have hunit (u : UInt16) : newline ∉
      if isHighSurrogate u || isLowSurrogate u then unicodeEscape u else escapeUnit u := by
    split
    · exact newline_unicodeEscape u
    · exact newline_escapeUnit u
  induction s using escape.induct with
  | case1 => exact List.not_mem_nil
  | case2 u hhalf =>
    rw [escape, if_pos hhalf]
    exact newline_unicodeEscape u
  | case3 u hwhole =>
    rw [escape, if_neg hwhole]
    exact newline_escapeUnit u
  | case4 u v s hpair ih =>
    rw [escape, if_pos hpair]
    obtain ⟨hhigh, hlow⟩ := Bool.and_eq_true_iff.mp hpair
    refine List.mem_cons.not.mpr (not_or.mpr ⟨?_, List.mem_cons.not.mpr (not_or.mpr ⟨?_, ih⟩)⟩)
    · rintro rfl
      exact absurd hhigh (by decide)
    · rintro rfl
      exact absurd hlow (by decide)
  | case5 u v s hpair ih =>
    rw [escape, if_neg hpair]
    exact List.mem_append.not.mpr (not_or.mpr ⟨hunit u, ih⟩)

theorem newline_quote (s : JsString) : newline ∉ quote s := by
  unfold quote
  simp only [List.mem_append, not_or]
  exact ⟨⟨by decide, newline_escape s⟩, by decide⟩

theorem newline_commas {ts : List JsString} (h : ∀ t ∈ ts, newline ∉ t) : newline ∉ commas ts := by
  induction ts using commas.induct with
  | case1 => exact List.not_mem_nil
  | case2 s => exact h s List.mem_cons_self
  | case3 s t ts ih =>
    rw [commas]
    simp only [List.mem_append, not_or]
    refine ⟨⟨h s List.mem_cons_self, by decide⟩, ih fun t' ht' => h t' (List.mem_cons_of_mem _ ht')⟩

theorem newline_number (n : NumberText) : newline ∉ n.text :=
  fun hin => absurd (n.plain newline hin) (by decide)

mutual

theorem newline_stringify : ∀ v : Json, newline ∉ v.stringify
  | .null => by
    rw [stringify]
    decide
  | .bool b => by
    rw [stringify]
    cases b <;> decide
  | .number n => by
    rw [stringify]
    exact newline_number n
  | .string s => by
    rw [stringify]
    exact newline_quote s
  | .array items => by
    rw [stringify]
    simp only [List.mem_append, not_or]
    exact ⟨⟨by decide, newline_commas (newline_items items)⟩, by decide⟩
  | .object fields => by
    rw [stringify]
    simp only [List.mem_append, not_or]
    exact ⟨⟨by decide, newline_commas (newline_fields fields)⟩, by decide⟩

theorem newline_items : ∀ items : List Json, ∀ t ∈ stringifyItems items, newline ∉ t
  | [], _, ht => by
    rw [stringifyItems] at ht
    cases ht
  | v :: items, t, ht => by
    rw [stringifyItems] at ht
    rcases List.mem_cons.mp ht with rfl | ht
    · exact newline_stringify v
    · exact newline_items items t ht

theorem newline_fields : ∀ fields : List (JsString × Json), ∀ t ∈ stringifyFields fields, newline ∉ t
  | [], _, ht => by
    rw [stringifyFields] at ht
    cases ht
  | (key, v) :: fields, t, ht => by
    rw [stringifyFields] at ht
    rcases List.mem_cons.mp ht with rfl | ht
    · simp only [List.mem_append, not_or]
      exact ⟨⟨newline_quote key, by decide⟩, newline_stringify v⟩
    · exact newline_fields fields t ht

end

end Json

/-- A frame's text is not blank. -/
theorem frame_not_blank (f : Frame) : f.val.stringify.all isTrimmed = false := by
  obtain ⟨v, hv⟩ := f
  cases v with
  | object fields =>
    show (Json.stringify (.object fields)).all isTrimmed = false
    rw [Json.stringify]
    rfl
  | null => cases hv
  | bool b => cases hv
  | number n => cases hv
  | string s => cases hv
  | array items => cases hv

variable {parse}

/-- A frame the reader can take: its text is not over the limit, and reads as the frame. -/
structure Legal (parse : JsString → Option Json) (f : Frame) : Prop where
  short : f.val.stringify.length ≤ MAX_FRAME_BYTES
  parsed : parse f.val.stringify = some f.val

def texts (frames : List Frame) : List JsString := frames.map fun f => f.val.stringify

theorem newline_texts {frames : List Frame} : ∀ t ∈ texts frames, newline ∉ t := by
  intro t ht
  obtain ⟨f, -, rfl⟩ := List.mem_map.mp ht
  exact Json.newline_stringify f.val

theorem encode_join (frames : List Frame) :
    frames.flatMap Frame.encode = Delimited.join newline (texts frames) := by
  unfold Delimited.join texts
  rw [List.flatMap_map]
  rfl

theorem readLine_frame {f : Frame} (h : Legal parse f) :
    readLine parse f.val.stringify = .ok [f] := by
  unfold readLine
  rw [frame_not_blank, if_neg (by decide), if_neg (not_lt.mpr h.short), h.parsed]
  exact dif_pos f.property

theorem readLines_rest {rest : JsString} (h : newline ∉ rest) (out : List Frame) :
    readLines parse rest out = .ok (rest, out) := by
  have hnone : rest.idxOf? newline = none := List.idxOf?_eq_none_iff.mpr h
  rw [readLines]
  split
  next => rfl
  next nl hnl =>
    rw [hnone] at hnl
    cases hnl

/-- The loop takes the first line. -/
theorem readLines_line {line : JsString} (h : newline ∉ line) (s : JsString) (out : List Frame)
    {frames : List Frame} (hline : readLine parse line = .ok frames) :
    readLines parse (line ++ newline :: s) out = readLines parse s (out ++ frames) := by
  have hsome : (line ++ newline :: s).idxOf? newline = some line.length := by
    refine List.idxOf?_eq_some_iff.mpr ⟨by simp, by simp, fun j hj => ?_⟩
    rw [List.getElem_append_left hj]
    exact fun heq => h (heq ▸ List.getElem_mem hj)
  rw [readLines]
  split
  next hnl =>
    rw [hsome] at hnl
    cases hnl
  next nl hnl =>
    obtain rfl := Option.some.inj (hsome.symm.trans hnl)
    have htake : (line ++ newline :: s).take line.length = line := List.take_left
    have hdrop : (line ++ newline :: s).drop (line.length + 1) = s := by
      rw [← List.drop_drop, List.drop_left]
      rfl
    rw [htake, hdrop, hline]

theorem readLines_join {frames : List Frame} (h : ∀ f ∈ frames, Legal parse f) {rest : JsString}
    (hrest : newline ∉ rest) (out : List Frame) :
    readLines parse (Delimited.join newline (texts frames) ++ rest) out =
      .ok (rest, out ++ frames) := by
  induction frames generalizing out with
  | nil =>
    rw [List.append_nil]
    exact readLines_rest hrest out
  | cons f frames ih =>
    have hf := h f List.mem_cons_self
    have hjoin : Delimited.join newline (texts (f :: frames)) ++ rest =
        f.val.stringify ++ newline :: (Delimited.join newline (texts frames) ++ rest) := by
      simp [texts]
    rw [hjoin, readLines_line (Json.newline_stringify f.val) _ _ (readLine_frame hf),
      ih fun g hg => h g (List.mem_cons_of_mem _ hg)]
    simp

/-- A chunk of a legal stream: the frames it completes come out, and less than a frame stays. -/
theorem push_legal {r : FrameReader} {chunk later : JsString} {frames : List Frame}
    (h : ∀ f ∈ frames, Legal parse f)
    (hstream : r.buf ++ chunk ++ later = frames.flatMap Frame.encode) :
    ∃ r' done todo, r.push parse chunk = .ok (r', done) ∧ frames = done ++ todo ∧
      r'.buf ++ later = todo.flatMap Frame.encode ∧ newline ∉ r'.buf := by
  rw [encode_join] at hstream
  obtain ⟨before, after, rest, hsplit, hbuf, hafter, hfree, hshort⟩ :=
    Delimited.cut newline_texts hstream
  obtain ⟨done, todo, rfl, rfl, rfl⟩ := List.map_eq_append_iff.mp hsplit
  have hread := readLines_join (fun f hf => h f (List.mem_append_left todo hf)) hfree []
  refine ⟨⟨rest⟩, done, todo, ?_, rfl, ?_, hfree⟩
  · unfold FrameReader.push
    rw [hbuf]
    unfold texts at hread
    rw [hread]
    refine if_neg (not_lt.mpr ?_)
    rcases hshort with rfl | ⟨l, hl, hpre⟩
    · exact Nat.zero_le _
    · obtain ⟨f, hf, rfl⟩ := List.mem_map.mp hl
      exact hpre.length_le.trans (h f hf).short
  · rw [encode_join]
    exact hafter

/-- However a stream of frames is cut into chunks, the reader takes it and gives the frames. -/
theorem feed_frames (frames : List Frame) (h : ∀ f ∈ frames, Legal parse f)
    (chunks : List JsString) (hchunks : chunks.flatten = frames.flatMap Frame.encode) :
    ∃ out, FrameReader.new.feed parse chunks = .ok out ∧ out.flatten = frames := by
  have hgeneral (r : FrameReader) (hr : newline ∉ r.buf) (frames : List Frame)
      (h : ∀ f ∈ frames, Legal parse f)
      (hstream : r.buf ++ chunks.flatten = frames.flatMap Frame.encode) :
      ∃ out, r.feed parse chunks = .ok out ∧ out.flatten = frames := by
    clear hchunks
    induction chunks generalizing r frames with
    | nil =>
      cases frames with
      | nil => exact ⟨[], rfl, rfl⟩
      | cons f frames =>
        -- what is left has no whole line
        refine absurd (?_ : newline ∈ r.buf) hr
        rw [List.flatten_nil, List.append_nil] at hstream
        rw [hstream, List.flatMap_cons]
        refine List.mem_append_left _ (List.mem_append_right _ List.mem_cons_self)
    | cons chunk chunks ih =>
      rw [List.flatten_cons, ← List.append_assoc] at hstream
      obtain ⟨r', done, todo, hpush, rfl, hleft, hfree⟩ := push_legal h hstream
      obtain ⟨out, hout, hflat⟩ := ih r' hfree todo (fun f hf => h f (List.mem_append_right _ hf)) hleft
      refine ⟨done :: out, ?_, by rw [List.flatten_cons, hflat]⟩
      rw [FrameReader.feed, hpush]
      simp only [hout]
  exact hgeneral FrameReader.new List.not_mem_nil frames h hchunks

/-- A `pong` and a `live`. -/
def twoFrames : List Frame :=
  [⟨.object [(units "op", .string (units "pong"))], by decide⟩,
    ⟨.object [(units "op", .string (units "live")), (units "id", .string (units "n1"))], by decide⟩]

/-- What `JSON.parse` makes of their texts. -/
def parseTwo (s : JsString) : Option Json :=
  (twoFrames.find? fun f => f.val.stringify = s).map Subtype.val

theorem feed_frames_two : ∃ out, FrameReader.new.feed parseTwo
    [units "\x7b\"op\":\"po", [], units "ng\"\x7d\n\x7b\"op\":\"live\",\"id\":\"n1\"\x7d", units "\n"] =
      .ok out ∧ out.flatten = twoFrames := by
  refine feed_frames twoFrames (fun f hf => ?_) _ (by decide)
  rcases List.mem_cons.mp hf with rfl | hf
  · exact ⟨by decide, rfl⟩
  · obtain rfl := List.mem_singleton.mp hf
    exact ⟨by decide, rfl⟩

end Lurker.Engine
