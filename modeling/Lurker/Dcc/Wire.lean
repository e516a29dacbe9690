import Lurker.Dcc.Judged
import Lurker.Dcc.Paths

/-!
# DCC bodies

What follows `DCC` in a request. `parseDcc` reads offers of a file or a chat, and the two
halves of a resume; the builders write them. What we offer is read back as it is. A peer's file
name goes back as the peer wrote it, in quotes when it holds a space, and is read back when it is
one that quotes can hold, or that can stand without them.
-/

namespace Lurker.Dcc.Wire

open Lurker.Chat Lurker.Dcc.Paths

-- `Number(s)` of a text that spells an integer
variable (Number : E2e.Text → Option Int) (toUpperCase : Text → Text)

structure DccSend where
  /-- As the peer wrote it. -/
  filename : Text
  host : E2e.Text
  port : Nat
  size : Nat
  token : Option Nat
  passive : Bool
  secure : Bool
  deriving DecidableEq

/-- What a RESUME asks for, and an ACCEPT confirms. -/
structure DccPosition where
  filename : Text
  port : Nat
  position : Nat
  token : Option Nat
  deriving DecidableEq

structure DccChat where
  protocol : Text
  host : E2e.Text
  port : Nat
  token : Option Nat
  passive : Bool
  secure : Bool
  deriving DecidableEq

inductive DccParse
  | send (o : DccSend)
  | accept (o : DccPosition)
  | resume (o : DccPosition)
  | chat (o : DccChat)
  | unsupported (subtype : Text)
  | invalid (reason : Text)
  deriving DecidableEq

def DccParse.isInvalid : DccParse → Bool
  | .invalid _ => true
  | _ => false

def space : CodeUnit := unit ' '
def quote : CodeUnit := unit '"'

def trim (s : Text) : Text := Trim.trim isSpace s

/-- A non-negative integer that a number holds exactly. -/
def parseUint (s : Text) : Option Nat :=
  if s ≠ [] ∧ s.all isDigit then
    match Number (chars s) with
    | some n => if n.natAbs ≤ E2e.maxSafeInteger then some n.toNat else none
    | none => none
  else none

/-- `split(/ +/)` without the empty pieces. -/
def words (s : Text) : List Text := (s.splitOn space).filter (· ≠ [])

/-- `split(/\s+/)` without the empty pieces. -/
def fields (s : Text) : List Text := (s.splitOnP isSpace).filter (· ≠ [])

/-- A result, or why there is none. -/
def orInvalid : Except Text DccParse → DccParse
  | .ok p => p
  | .error reason => .invalid reason

def readAddress (hostStr : Text) : Except Text E2e.Text :=
  match decodeDccAddress Number (chars hostStr) with
  | some host => .ok host
  | none => .error (text "bad address: " ++ hostStr)

def readPort (portStr : Text) : Except Text Nat :=
  match parseUint Number portStr with
  | some port => if port > 65535 then .error (text "bad port: " ++ portStr) else .ok port
  | none => .error (text "bad port: " ++ portStr)

def readUint (what : String) (s : Text) : Except Text Nat :=
  match parseUint Number s with
  | some n => .ok n
  | none => .error (text "bad " ++ text what ++ text ": " ++ s)

def readToken : Option Text → Except Text (Option Nat)
  | none => .ok none
  | some tokenStr => some <$> readUint Number "token" tokenStr

def expectedFields (min max : Nat) : DccParse :=
  .invalid (text "expected " ++ decimalText min ++ text "-" ++ decimalText max ++
    text " fields after the filename")

/-- The fields taken from the right of the words, the longest set first. -/
def readFromRight (min max : Nat) (read : Text → List Text → Bool → DccParse) (words : List Text) :
    Option DccParse :=
  ((List.range (max + 1 - min)).map (max - ·)).findSome? fun n =>
    -- one word of name is the read from the left
    if words.length - n < 2 then none
    else
      let parsed := read ([space].intercalate (words.take (words.length - n)))
        (words.drop (words.length - n)) true
      if parsed.isInvalid then none else some parsed

/-- A file name and so many fields behind it. -/
def parseNamed (rest : Text) (min max : Nat) (read : Text → List Text → Bool → DccParse) : DccParse :=
  if rest.head? = some quote then
    if quote ∈ rest.tail then
      let filename := rest.tail.takeWhile (· ≠ quote)
      let behind := fields (trim (rest.tail.dropWhile (· ≠ quote)).tail)
      if filename = [] then .invalid (text "empty filename")
      else if behind.length < min ∨ behind.length > max then expectedFields min max
      else read filename behind false
    else .invalid (text "unterminated quoted filename")
  else
    match words rest with
    | [] => expectedFields min max
    | first :: others =>
      if others.length < min then expectedFields min max
      else
        let left := if others.length ≤ max then some (read first others false) else none
        match left.filter (!·.isInvalid) with
        | some parsed => parsed
        | none => (readFromRight min max read (first :: others)).getD (left.getD (expectedFields min max))

/-- `parseNamed` hands over three fields or four. -/
def readSend (secure : Bool) (filename : Text) : List Text → Bool → DccParse
  | hostStr :: portStr :: sizeStr :: more, fromRight => orInvalid do
    let host ← readAddress Number hostStr
    if fromRight ∧ ['0', '.'].isPrefixOf host then throw (text "bad address: " ++ hostStr)
    let port ← readPort Number portStr
    let size ← readUint Number "size" sizeStr
    let token ← readToken Number more.head?
    if port = 0 ∧ token = none then throw (text "passive DCC SEND offer carries no token")
    return .send ⟨filename, host, port, size, token, port = 0, secure⟩
  | _, _ => .invalid []

def parseDccSend (rest : Text) (secure : Bool) : DccParse :=
  if rest = [] then .invalid (text "missing DCC SEND parameters")
  else parseNamed rest 3 4 (readSend Number secure)

/-- Two fields or three. -/
def readPosition (kind : DccPosition → DccParse) (filename : Text) : List Text → Bool → DccParse
  | portStr :: posStr :: more, _ => orInvalid do
    let port ← readPort Number portStr
    let position ← readUint Number "position" posStr
    let token ← readToken Number more.head?
    return kind ⟨filename, port, position, token⟩
  | _, _ => .invalid []

/-- An ACCEPT or a RESUME, of the name. -/
def parseDccResumeLike (name : Text) (kind : DccPosition → DccParse) (rest : Text) : DccParse :=
  if rest = [] then .invalid (text "missing DCC " ++ name ++ text " parameters")
  else parseNamed rest 2 3 (readPosition Number kind)

def parseDccChat (rest : Text) (secure : Bool) : DccParse :=
  if rest = [] then .invalid (text "missing DCC CHAT parameters")
  else
    match fields rest with
    | protocol :: hostStr :: portStr :: more => orInvalid do
      let host ← readAddress Number hostStr
      let port ← readPort Number portStr
      let token ← readToken Number more.head?
      if port = 0 ∧ token = none then throw (text "passive DCC CHAT offer carries no token")
      return .chat ⟨protocol, host, port, token, port = 0, secure⟩
    | _ => .invalid (text "expected <protocol> <ip> <port> [token]")

/-- `/^([ST]{0,2})(SEND|CHAT)$/`: the letters before the verb, and the verb. -/
def verbOf (subtype : Text) : Option (Text × Text) :=
  let letters := subtype.take (subtype.length - 4)
  let verb := subtype.drop (subtype.length - 4)
  if letters.length ≤ 2 ∧ letters.all (fun c => c = unit 'S' || c = unit 'T') ∧
      (verb = text "SEND" ∨ verb = text "CHAT") then some (letters, verb)
  else none

/-- The parser of a subtype. -/
def parseSubtype (subtype rest : Text) : DccParse :=
  if subtype = text "ACCEPT" then parseDccResumeLike Number (text "ACCEPT") .accept rest
  else if subtype = text "RESUME" then parseDccResumeLike Number (text "RESUME") .resume rest
  else
    match verbOf subtype with
    | some (letters, verb) =>
      if unit 'T' ∈ letters then .unsupported subtype
      else if verb = text "SEND" then parseDccSend Number rest (unit 'S' ∈ letters)
      else parseDccChat Number rest (unit 'S' ∈ letters)
    | none => .unsupported subtype

/-- Parse the body of a CTCP DCC request. -/
def parseDcc (args : Text) : DccParse :=
  let body := trim args
  if body = [] then .invalid (text "empty DCC body")
  else
    parseSubtype Number (toUpperCase (body.takeWhile (· ≠ space)))
      (trim (body.dropWhile (· ≠ space)).tail)

-- the segments of `Intl.Segmenter`
variable (graphemes : Text → List Text)

/-- A file's name as it goes out in an offer of ours. -/
def dccWireFilename (name : Text) : Text :=
  ((sanitizeDccFilename graphemes name).map fun c => if c = quote then unit '\'' else c).map
    fun c => if isSpace c then unit '_' else c

def dccVerb (verb : String) (secure : Bool) : Text :=
  if secure then text "S" ++ text verb else text verb

/-- Pieces with a space between them. -/
def spaced (pieces : List Text) : Text := [space].intercalate pieces

def buildDccSend (file : Text) (host : E2e.Text) (port size : Nat) (secure : Bool) : Option Text :=
  (encodeDccAddress Number host).map fun addr =>
    spaced [dccVerb "SEND" secure, file, addr.map unit, decimalText port, decimalText size]

def passiveDccFakeHost : E2e.Text := "1.1.1.1".toList

def buildDccSendPassive (file : Text) (size token : Nat) (secure : Bool) : Text :=
  spaced [dccVerb "SEND" secure, file,
    ((encodeDccAddress Number passiveDccFakeHost).getD "null".toList).map unit,
    text "0", decimalText size, decimalText token]

/-- A peer's file name, sent back to them as they wrote it. -/
def echoDccFilename (name : Text) : Text :=
  if space ∈ name then quote :: name ++ [quote] else name

def buildDccSendReply (file : Text) (host : E2e.Text) (port size token : Nat) (secure : Bool) :
    Option Text :=
  (encodeDccAddress Number host).map fun addr =>
    spaced [dccVerb "SEND" secure, echoDccFilename file, addr.map unit, decimalText port,
      decimalText size, decimalText token]

def buildDccResume (file : Text) (port position : Nat) (token : Option Nat) : Text :=
  spaced ([text "RESUME", echoDccFilename file, decimalText port, decimalText position] ++
    (token.map decimalText).toList)

def buildDccAccept (file : Text) (port position : Nat) (token : Option Nat) : Text :=
  spaced ([text "ACCEPT", file, decimalText port, decimalText position] ++
    (token.map decimalText).toList)

def buildDccChat (host : E2e.Text) (port : Nat) (secure : Bool) : Option Text :=
  (encodeDccAddress Number host).map fun addr =>
    spaced [dccVerb "CHAT" secure, text "chat", addr.map unit, decimalText port]

def buildDccChatPassive (host : E2e.Text) (token : Nat) (secure : Bool) : Option Text :=
  (encodeDccAddress Number host).map fun addr =>
    spaced [dccVerb "CHAT" secure, text "chat", addr.map unit, text "0", decimalText token]

def buildDccChatReverse (host : E2e.Text) (port token : Nat) (secure : Bool) : Option Text :=
  (encodeDccAddress Number host).map fun addr =>
    spaced [dccVerb "CHAT" secure, text "chat", addr.map unit, decimalText port, decimalText token]

/-- What stands between the spaces of what we write. -/
structure Piece (s : Text) : Prop where
  ne_nil : s ≠ []
  no_space : ∀ c ∈ s, isSpace c = false
  no_quote : quote ∉ s

theorem space_isSpace : isSpace space = true := by decide

theorem Piece.space_not_mem {s : Text} (h : Piece s) : space ∉ s := fun hmem => by
  have := h.no_space space hmem
  rw [space_isSpace] at this
  cases this

theorem piece_decimalText (n : Nat) : Piece (decimalText n) where
  ne_nil h := Nat.toDigits_ne_nil (List.map_eq_nil_iff.mp h)
  no_space c hc := by
    have hbounds := digit_bounds (isDigit_decimalText hc)
    simp only [isSpace, decide_eq_false_iff_not, UInt16.le_iff_toNat_le, ← UInt16.toNat_inj,
      UInt16.reduceToNat]
    omega
  no_quote h := by
    have hbounds := digit_bounds (isDigit_decimalText h)
    revert hbounds
    decide

theorem unit_literal {c : Char} (h : IsLiteralChar c) :
    isSpace (unit c) = false ∧ unit c ≠ quote ∧ Char.ofNat (unit c).toNat = c := by
  have hlow : ∀ n : Fin 128, (Char.ofNat n).isAlphanum = true →
      isSpace (unit (Char.ofNat n)) = false ∧ unit (Char.ofNat n) ≠ quote := by decide
  rcases h with h | rfl | rfl | rfl | rfl
  · have hc := isAlphanum_lt h
    have hspec := hlow ⟨c.toNat, hc⟩
    rw [Char.ofNat_toNat] at hspec
    refine ⟨(hspec h).1, (hspec h).2, ?_⟩
    rw [unit_toNat (by omega), Char.ofNat_toNat]
  all_goals decide

theorem piece_literal {addr : E2e.Text} (hne : addr ≠ []) (h : ∀ c ∈ addr, IsLiteralChar c) :
    Piece (addr.map unit) where
  ne_nil hnil := hne (List.map_eq_nil_iff.mp hnil)
  no_space u hu := by
    obtain ⟨c, hc, rfl⟩ := List.mem_map.mp hu
    exact (unit_literal (h c hc)).1
  no_quote hmem := by
    obtain ⟨c, hc, hquote⟩ := List.mem_map.mp hmem
    exact (unit_literal (h c hc)).2.1 hquote

theorem chars_literal {addr : E2e.Text} (h : ∀ c ∈ addr, IsLiteralChar c) :
    chars (addr.map unit) = addr := by
  rw [chars, List.map_map]
  conv_rhs => rw [← List.map_id addr]
  exact List.map_congr_left fun c hc => (unit_literal (h c hc)).2.2

theorem spaced_cons (p q : Text) (ps : List Text) :
    spaced (p :: q :: ps) = p ++ space :: spaced (q :: ps) := by
  simp [spaced, List.intercalate]

theorem spaced_singleton (p : Text) : spaced [p] = p := by
  simp [spaced, List.intercalate]

theorem words_spaced {ps : List Text} (hne : ps ≠ []) (h : ∀ p ∈ ps, p ≠ [] ∧ space ∉ p) :
    words (spaced ps) = ps := by
  rw [words, spaced, List.splitOn_intercalate space (fun p hp => (h p hp).2) hne]
  exact List.filter_eq_self.mpr fun p hp => decide_eq_true (h p hp).1

theorem fields_spaced {ps : List Text} (h : ∀ p ∈ ps, Piece p) : fields (spaced ps) = ps := by
  have hsplit (p : Text) (ps : List Text) (h : ∀ q ∈ p :: ps, Piece q) :
      (spaced (p :: ps)).splitOnP isSpace = p :: ps := by
    induction ps generalizing p with
    | nil =>
      rw [spaced_singleton]
      exact List.splitOnP_eq_singleton (h p List.mem_cons_self).no_space
    | cons q ps ih =>
      obtain ⟨hp, hps⟩ := List.forall_mem_cons.mp h
      rw [spaced_cons, List.splitOnP_append_cons_of_forall_mem hp.no_space space space_isSpace,
        ih q hps]
  cases ps with
  | nil => rfl
  | cons p ps =>
    rw [fields, hsplit p ps h]
    exact List.filter_eq_self.mpr fun q hq => decide_eq_true (h q hq).ne_nil

/-- Where the last piece ends, the text ends. -/
theorem getLast?_spaced (p : Text) {ps : List Text} (hne : ps ≠ []) (h : ∀ q ∈ ps, Piece q) :
    ∀ c, (spaced (p :: ps)).getLast? = some c → isSpace c = false := by
  induction ps generalizing p with
  | nil => exact absurd rfl hne
  | cons q ps ih =>
    obtain ⟨hq, hps⟩ := List.forall_mem_cons.mp h
    intro c hc
    rw [spaced_cons, List.getLast?_append_of_ne_nil _ (List.cons_ne_nil _ _)] at hc
    cases ps with
    | nil =>
      rw [spaced_singleton, List.getLast?_cons_of_ne_nil hq.ne_nil] at hc
      exact hq.no_space c (List.mem_of_getLast? hc)
    | cons r ps =>
      have hrest : spaced (q :: r :: ps) ≠ [] := by
        rw [spaced_cons]
        exact List.append_ne_nil_of_right_ne_nil _ (List.cons_ne_nil _ _)
      rw [List.getLast?_cons_of_ne_nil hrest] at hc
      exact ih q (List.cons_ne_nil _ _) hps c hc

section Named

variable {min max : Nat} {read : Text → List Text → Bool → DccParse}

theorem takeWhile_ne {c : CodeUnit} {s : Text} (hs : c ∉ s) (t : Text) :
    (s ++ c :: t).takeWhile (· ≠ c) = s ∧ ((s ++ c :: t).dropWhile (· ≠ c)).tail = t := by
  have hall : ∀ d ∈ s, decide (d ≠ c) = true := fun d hd => decide_eq_true fun heq => hs (heq ▸ hd)
  have hstop : decide (c ≠ c) = false := decide_eq_false (not_not.mpr rfl)
  constructor
  · rw [List.takeWhile_append_of_pos hall, List.takeWhile_cons, hstop]
    exact List.append_nil s
  · rw [List.dropWhile_append_of_pos hall, List.dropWhile_cons, hstop]
    rfl

theorem trim_spaced {ps : List Text} (hne : ps ≠ []) (h : ∀ p ∈ ps, Piece p) :
    trim (space :: spaced ps) = spaced ps := by
  have htrimmed : Trim.Trimmed isSpace (spaced ps) := by
    cases ps with
    | nil => exact absurd rfl hne
    | cons p ps =>
      obtain ⟨hp, hps⟩ := List.forall_mem_cons.mp h
      obtain ⟨c, rest, hc⟩ := List.exists_cons_of_ne_nil hp.ne_nil
      have hhead : (spaced (p :: ps)).head? = some c := by
        cases ps with
        | nil => rw [spaced_singleton, hc]; rfl
        | cons q ps => rw [spaced_cons, hc]; rfl
      refine ⟨fun a ha => ?_, fun a ha => ?_⟩
      · cases hhead.symm.trans ha
        exact hp.no_space c (hc ▸ List.mem_cons_self)
      · cases ps with
        | nil =>
          rw [spaced_singleton] at ha
          exact hp.no_space a (List.mem_of_getLast? ha)
        | cons q ps => exact getLast?_spaced p (List.cons_ne_nil _ _) hps a ha
  have hdrop : (space :: spaced ps).dropWhile isSpace = (spaced ps).dropWhile isSpace := by
    rw [List.dropWhile_cons, space_isSpace]
    rfl
  have hself := Trim.trim_eq_self htrimmed
  rw [Trim.trim] at hself
  rw [trim, Trim.trim, hdrop, hself]

/-- A name in quotes is what stands between them. -/
theorem parseNamed_quoted {name : Text} (hne : name ≠ []) (hquote : quote ∉ name) {ps : List Text}
    (hps : ps ≠ []) (h : ∀ p ∈ ps, Piece p) (hmin : min ≤ ps.length) (hmax : ps.length ≤ max) :
    parseNamed (quote :: name ++ [quote] ++ space :: spaced ps) min max read = read name ps false := by
  have htail : quote :: name ++ [quote] ++ space :: spaced ps =
      quote :: (name ++ quote :: space :: spaced ps) := by simp
  obtain ⟨htake, hdrop⟩ := takeWhile_ne hquote (space :: spaced ps)
  rw [htail, parseNamed, List.head?_cons, if_pos rfl, List.tail_cons,
    if_pos (List.mem_append_right _ List.mem_cons_self)]
  dsimp only
  rw [htake, hdrop, trim_spaced hps h, fields_spaced h, if_neg hne,
    if_neg (not_or.mpr ⟨Nat.not_lt.mpr hmin, Nat.not_lt.mpr hmax⟩)]

/-- A name of one word is the first one, when that can be read so. -/
theorem parseNamed_word {name : Text} (hne : name ≠ []) (hspace : space ∉ name)
    (hquote : name.head? ≠ some quote) {ps : List Text} (hps : ps ≠ []) (h : ∀ p ∈ ps, Piece p)
    (hmin : min ≤ ps.length) (hmax : ps.length ≤ max) (hread : (read name ps false).isInvalid = false) :
    parseNamed (spaced (name :: ps)) min max read = read name ps false := by
  have hhead : (spaced (name :: ps)).head? = name.head? := by
    obtain ⟨q, ps, rfl⟩ := List.exists_cons_of_ne_nil hps
    rw [spaced_cons, List.head?_append_of_ne_nil _ hne]
  have hwords : words (spaced (name :: ps)) = name :: ps := words_spaced (List.cons_ne_nil _ _)
    (List.forall_mem_cons.mpr ⟨⟨hne, hspace⟩, fun p hp => ⟨(h p hp).ne_nil, (h p hp).space_not_mem⟩⟩)
  rw [parseNamed, hhead, if_neg hquote, hwords]
  dsimp only
  rw [if_neg (Nat.not_lt.mpr hmin), if_pos hmax, Option.filter_some, hread]
  rfl

/-- No text begins with a space when it is trimmed. -/
theorem head?_trim (s : Text) : (trim s).head? ≠ some space := by
  intro hhead
  have htrimmed := (Trim.trimmed_trim s).head space hhead
  rw [space_isSpace] at htrimmed
  cases htrimmed

/-- The names that come of a text: without a quote from one that begins with a quote, and
beginning as the text does from any other. -/
structure NameOf (rest name : Text) : Prop where
  ne_nil : name ≠ []
  start : (rest.head? = some quote ∧ quote ∉ name) ∨
    (rest.head? ≠ some quote ∧ name.head? = rest.head?)

/-- The first word begins the text. -/
theorem head?_words {rest first : Text} {others : List Text} (hspace : rest.head? ≠ some space)
    (h : words rest = first :: others) : first ≠ [] ∧ first.head? = rest.head? := by
  have hjoin : [space].intercalate (rest.splitOn space) = rest := List.intercalate_splitOn _
  cases hsplit : rest.splitOn space with
  | nil => exact absurd hsplit (List.splitOn_ne_nil space rest)
  | cons p ps =>
    rw [hsplit] at hjoin
    by_cases hp : p = []
    · -- the text would be empty or begin with a space
      subst hp
      cases ps with
      | nil =>
        rw [words, hsplit] at h
        cases h
      | cons q ps =>
        refine absurd ?_ hspace
        rw [← hjoin, ← spaced, spaced_cons]
        rfl
    · have hfirst : first = p := by
        rw [words, hsplit, List.filter_cons, if_pos (decide_eq_true hp)] at h
        exact (List.cons_eq_cons.mp h).1.symm
      subst hfirst
      refine ⟨hp, ?_⟩
      rw [← hjoin, ← spaced]
      cases ps with
      | nil => rw [spaced_singleton]
      | cons q ps => rw [spaced_cons, List.head?_append_of_ne_nil _ hp]

theorem head?_spaced_take {first : Text} (hne : first ≠ []) (others : List Text) (k : Nat) :
    spaced ((first :: others).take (k + 1)) ≠ [] ∧
      (spaced ((first :: others).take (k + 1))).head? = first.head? := by
  rw [List.take_succ_cons]
  cases others.take k with
  | nil => exact ⟨by rwa [spaced_singleton], by rw [spaced_singleton]⟩
  | cons q ps =>
    rw [spaced_cons]
    exact ⟨List.append_ne_nil_of_left_ne_nil hne _, List.head?_append_of_ne_nil _ hne⟩

/-- What is read from the right is read with a name that begins as the first word does. -/
theorem readFromRight_name {first : Text} (hne : first ≠ []) {others : List Text} {parsed : DccParse}
    (h : readFromRight min max read (first :: others) = some parsed) :
    ∃ name ps, parsed = read name ps true ∧ name ≠ [] ∧ name.head? = first.head? := by
  obtain ⟨n, -, hn⟩ := List.exists_of_findSome?_eq_some h
  dsimp only at hn
  split at hn
  · cases hn
  · rename_i hlong
    split at hn
    · cases hn
    · obtain ⟨k, hk⟩ : ∃ k, (first :: others).length - n = k + 1 :=
        Nat.exists_eq_succ_of_ne_zero (by omega)
      rw [hk] at hn
      exact ⟨_, _, (Option.some.inj hn).symm, head?_spaced_take hne others k⟩

/-- What is read at all is read with a name of the text. -/
theorem parseNamed_name {rest : Text} (hspace : rest.head? ≠ some space)
    (h : (parseNamed rest min max read).isInvalid = false) :
    ∃ name ps side, parseNamed rest min max read = read name ps side ∧ NameOf rest name := by
  unfold parseNamed at h ⊢
  split at h
  case isTrue hquoted =>
    rw [if_pos hquoted]
    split at h
    case isTrue hclosed =>
      rw [if_pos hclosed]
      dsimp only at h ⊢
      split at h
      · cases h
      · rename_i hname
        rw [if_neg hname]
        split at h
        · cases h
        · rename_i hcount
          rw [if_neg hcount]
          refine ⟨_, _, _, rfl, hname, .inl ⟨hquoted, fun hmem => ?_⟩⟩
          simpa using List.mem_takeWhile_imp hmem
    case isFalse => cases h
  case isFalse hplain =>
    rw [if_neg hplain]
    cases hwords : words rest with
    | nil =>
      rw [hwords] at h
      cases h
    | cons first others =>
      rw [hwords] at h
      obtain ⟨hne, hhead⟩ := head?_words hspace hwords
      dsimp only at h ⊢
      split at h
      · cases h
      rename_i hcount
      rw [if_neg hcount]
      cases hleft : (if others.length ≤ max then some (read first others false) else none).filter
          (!·.isInvalid) with
      | some parsed =>
        rw [hleft] at h
        obtain ⟨hparsed, -⟩ := Option.filter_eq_some_iff.mp hleft
        split at hparsed
        · cases hparsed
          exact ⟨first, others, false, rfl, hne, .inr ⟨hplain, hhead⟩⟩
        · cases hparsed
      | none =>
        rw [hleft] at h
        dsimp only at h ⊢
        cases hright : readFromRight min max read (first :: others) with
        | some parsed =>
          obtain ⟨name, ps, rfl, hname, hstart⟩ := readFromRight_name hne hright
          exact ⟨name, ps, true, rfl, hname, .inr ⟨hplain, hstart.trans hhead⟩⟩
        | none =>
          -- what is left is invalid
          rw [hright, Option.getD_none] at h
          split at h
          · rename_i hmax
            rw [Option.getD_some] at h
            rw [if_pos hmax, Option.filter_some, h] at hleft
            cases hleft
          · cases h

end Named

section Fields

variable {Number}

theorem parseUint_decimalText (hNumber : ReadsDigits Number) {n : Nat} (h : n ≤ E2e.maxSafeInteger) :
    parseUint Number (decimalText n) = some n := by
  have hsafe : E2e.maxSafeInteger ≤ 2 ^ 53 := by decide
  have hnumber : Number (chars (decimalText n)) = some (n : Int) := by
    rw [chars_decimalText]
    exact number_decimal hNumber (h.trans hsafe)
  unfold parseUint
  rw [if_pos ⟨(piece_decimalText n).ne_nil, List.all_eq_true.mpr fun c hc => isDigit_decimalText hc⟩,
    hnumber]
  exact if_pos h

theorem readUint_decimalText (hNumber : ReadsDigits Number) {n : Nat} (h : n ≤ E2e.maxSafeInteger)
    (what : String) : readUint Number what (decimalText n) = .ok n := by
  rw [readUint, parseUint_decimalText hNumber h]

theorem readPort_decimalText (hNumber : ReadsDigits Number) {n : Nat} (h : n ≤ 65535) :
    readPort Number (decimalText n) = .ok n := by
  rw [readPort, parseUint_decimalText hNumber (h.trans (by decide))]
  exact if_neg (Nat.not_lt.mpr h)

theorem readToken_decimalText (hNumber : ReadsDigits Number) {token : Option Nat}
    (h : ∀ t ∈ token, t ≤ E2e.maxSafeInteger) :
    readToken Number (token.map decimalText).toList.head? = .ok token := by
  cases token with
  | none => rfl
  | some t =>
    rw [Option.map_some, Option.toList_some, List.head?_cons, readToken,
      readUint_decimalText hNumber (h t rfl)]
    rfl

/-- The fields for a port, a number and a token. -/
def written (port size : Nat) (token : Option Nat) : List Text :=
  [decimalText port, decimalText size] ++ (token.map decimalText).toList

theorem written_ne_nil (port size : Nat) (token : Option Nat) : written port size token ≠ [] :=
  List.cons_ne_nil _ _

/-- What we write of a number, a port and a token is read back. -/
structure Writable (port size : Nat) (token : Option Nat) : Prop where
  port : port ≤ 65535
  size : size ≤ E2e.maxSafeInteger
  token : ∀ t ∈ token, t ≤ E2e.maxSafeInteger

theorem readPosition_written (hNumber : ReadsDigits Number) (kind : DccPosition → DccParse)
    (name : Text) {port position : Nat} {token : Option Nat} (h : Writable port position token)
    (side : Bool) :
    readPosition Number kind name (written port position token) side =
      kind ⟨name, port, position, token⟩ := by
  simp only [readPosition, written, List.cons_append, List.nil_append, readPort_decimalText hNumber h.port,
    readUint_decimalText hNumber h.size, readToken_decimalText hNumber h.token]
  rfl

theorem readAddress_written {addr host : E2e.Text} (hchars : ∀ c ∈ addr, IsLiteralChar c)
    (hdecode : decodeDccAddress Number addr = some host) :
    readAddress Number (addr.map unit) = .ok host := by
  rw [readAddress, chars_literal hchars, hdecode]

theorem readSend_written (hNumber : ReadsDigits Number) (secure : Bool) (name : Text)
    {addr host : E2e.Text} (hchars : ∀ c ∈ addr, IsLiteralChar c)
    (hdecode : decodeDccAddress Number addr = some host) {port size : Nat} {token : Option Nat}
    (h : Writable port size token) (hpassive : ¬ (port = 0 ∧ token = none)) :
    readSend Number secure name (addr.map unit :: written port size token) false =
      .send ⟨name, host, port, size, token, port = 0, secure⟩ := by
  simp only [readSend, written, List.cons_append, List.nil_append, readAddress_written hchars hdecode,
    readPort_decimalText hNumber h.port, readUint_decimalText hNumber h.size,
    readToken_decimalText hNumber h.token, Bool.false_eq_true, false_and, if_false]
  exact congrArg orInvalid (if_neg hpassive)

theorem of_orInvalid {r : Except Text DccParse} {p : DccParse} (h : orInvalid r = p)
    (hvalid : p.isInvalid = false) : r = .ok p := by
  cases r with
  | ok q => exact congrArg Except.ok h
  | error reason =>
    rw [← h] at hvalid
    cases hvalid

theorem bind_ok {α β : Type} {r : Except Text α} {f : α → Except Text β} {b : β}
    (h : r >>= f = .ok b) : ∃ a, r = .ok a ∧ f a = .ok b := by
  cases r with
  | ok a => exact ⟨a, rfl, h⟩
  | error reason => cases h

theorem guard_ok {β : Type} {c : Prop} [Decidable c] {reason : Text} {r : Except Text β} {b : β}
    (h : (if c then (do throw reason; r) else r) = .ok b) : ¬ c ∧ r = .ok b := by
  split at h
  · cases h
  · exact ⟨‹_›, h⟩

/-- A file offer has the name it was read with, and with port 0 it has a token. -/
theorem readSend_valid {secure : Bool} {name : Text} {ps : List Text} {side : Bool} {p : DccParse}
    (h : readSend Number secure name ps side = p) (hp : p.isInvalid = false) :
    ∃ o, p = .send o ∧ o.filename = name ∧ (o.port = 0 → o.token ≠ none) := by
  unfold readSend at h
  split at h
  · obtain ⟨host, -, h⟩ := bind_ok (of_orInvalid h hp)
    obtain ⟨-, h⟩ := guard_ok h
    obtain ⟨port, -, h⟩ := bind_ok h
    obtain ⟨size, -, h⟩ := bind_ok h
    obtain ⟨token, -, h⟩ := bind_ok h
    obtain ⟨hpassive, h⟩ := guard_ok h
    exact ⟨_, (Except.ok.inj h).symm, rfl, fun hport htoken => hpassive ⟨hport, htoken⟩⟩
  · rw [← h] at hp
    cases hp

theorem readPosition_valid {kind : DccPosition → DccParse} {name : Text} {ps : List Text}
    {side : Bool} {p : DccParse} (h : readPosition Number kind name ps side = p)
    (hp : p.isInvalid = false) : ∃ o, p = kind o ∧ o.filename = name := by
  unfold readPosition at h
  split at h
  · obtain ⟨port, -, h⟩ := bind_ok (of_orInvalid h hp)
    obtain ⟨position, -, h⟩ := bind_ok h
    obtain ⟨token, -, h⟩ := bind_ok h
    exact ⟨_, (Except.ok.inj h).symm, rfl⟩
  · rw [← h] at hp
    cases hp

theorem parseDccChat_valid {rest : Text} {secure : Bool} {p : DccParse}
    (h : parseDccChat Number rest secure = p) (hp : p.isInvalid = false) :
    ∃ o, p = .chat o ∧ (o.port = 0 → o.token ≠ none) := by
  unfold parseDccChat at h
  split at h
  · rw [← h] at hp
    cases hp
  · split at h
    · obtain ⟨host, -, h⟩ := bind_ok (of_orInvalid h hp)
      obtain ⟨port, -, h⟩ := bind_ok h
      obtain ⟨token, -, h⟩ := bind_ok h
      obtain ⟨hpassive, h⟩ := guard_ok h
      exact ⟨_, (Except.ok.inj h).symm, fun hport htoken => hpassive ⟨hport, htoken⟩⟩
    · rw [← h] at hp
      cases hp

end Fields

def isCapital (c : CodeUnit) : Bool := unit 'A' ≤ c && c ≤ unit 'Z'

/-- What is relied on of `toUpperCase`: capital letters stay. -/
def Uppercases : Prop := ∀ s : Text, s.all isCapital = true → toUpperCase s = s

section Bodies

variable {Number toUpperCase}

theorem isSpace_capital {c : CodeUnit} (h : isCapital c = true) : isSpace c = false := by
  replace h := Bool.and_eq_true_iff.mp h
  have h65 : (unit 'A').toNat = 65 := rfl
  have h90 : (unit 'Z').toNat = 90 := rfl
  simp only [decide_eq_true_eq, UInt16.le_iff_toNat_le, h65, h90] at h
  simp only [isSpace, decide_eq_false_iff_not, UInt16.le_iff_toNat_le, ← UInt16.toNat_inj,
    UInt16.reduceToNat]
  omega

/-- A body is taken apart at the space behind its verb. -/
theorem parseDcc_body (hupper : Uppercases toUpperCase) {verb : Text} (hne : verb ≠ [])
    (hverb : verb.all isCapital = true) {file : Text} {ps : List Text} (hps : ps ≠ [])
    (h : ∀ p ∈ ps, Piece p) : parseDcc Number toUpperCase (spaced (verb :: file :: ps)) =
      parseSubtype Number verb (trim (spaced (file :: ps))) := by
  obtain ⟨c, letters, rfl⟩ := List.exists_cons_of_ne_nil hne
  have hspace : space ∉ c :: letters := by
    intro hmem
    have hletter := isSpace_capital (List.all_eq_true.mp hverb space hmem)
    rw [space_isSpace] at hletter
    cases hletter
  have hbody : trim (spaced ((c :: letters) :: file :: ps)) = spaced ((c :: letters) :: file :: ps) := by
    refine Trim.trim_eq_self ⟨fun a ha => ?_, fun a ha => ?_⟩
    · rw [spaced_cons] at ha
      cases ha
      exact isSpace_capital (List.all_eq_true.mp hverb _ List.mem_cons_self)
    · rw [spaced_cons] at ha
      have hrest : spaced (file :: ps) ≠ [] := by
        obtain ⟨q, ps, rfl⟩ := List.exists_cons_of_ne_nil hps
        rw [spaced_cons]
        exact List.append_ne_nil_of_right_ne_nil _ (List.cons_ne_nil _ _)
      rw [List.getLast?_append_of_ne_nil _ (List.cons_ne_nil _ _),
        List.getLast?_cons_of_ne_nil hrest] at ha
      exact getLast?_spaced file hps h a ha
  obtain ⟨htake, hdrop⟩ := takeWhile_ne hspace (spaced (file :: ps))
  rw [parseDcc, hbody, spaced_cons, if_neg (List.append_ne_nil_of_left_ne_nil (List.cons_ne_nil _ _) _), htake, hdrop,
    hupper _ hverb]

theorem capital_verb {s : String} (h : (text s).all isCapital = true) (secure : Bool) :
    (dccVerb s secure).all isCapital = true := by
  unfold dccVerb
  split
  · rw [List.all_append, h]
    rfl
  · exact h

/-- The verbs that we write. -/
theorem dccVerb_ne_nil {s : String} (h : text s ≠ []) (secure : Bool) : dccVerb s secure ≠ [] := by
  unfold dccVerb
  split
  · exact List.append_ne_nil_of_right_ne_nil _ h
  · exact h

theorem parseSubtype_send (secure : Bool) (rest : Text) :
    parseSubtype Number (dccVerb "SEND" secure) rest = parseDccSend Number rest secure := by
  cases secure <;> rfl

theorem parseSubtype_chat (secure : Bool) (rest : Text) :
    parseSubtype Number (dccVerb "CHAT" secure) rest = parseDccChat Number rest secure := by
  cases secure <;> rfl

theorem parseDcc_send (hupper : Uppercases toUpperCase) (secure : Bool) {file : Text}
    {ps : List Text} (hps : ps ≠ []) (h : ∀ p ∈ ps, Piece p) :
    parseDcc Number toUpperCase (spaced (dccVerb "SEND" secure :: file :: ps)) =
      parseDccSend Number (trim (spaced (file :: ps))) secure := by
  rw [parseDcc_body hupper (dccVerb_ne_nil (by decide) secure) (capital_verb (by decide) secure) hps h,
    parseSubtype_send]

theorem parseDcc_chat (hupper : Uppercases toUpperCase) (secure : Bool) {file : Text}
    {ps : List Text} (hps : ps ≠ []) (h : ∀ p ∈ ps, Piece p) :
    parseDcc Number toUpperCase (spaced (dccVerb "CHAT" secure :: file :: ps)) =
      parseDccChat Number (trim (spaced (file :: ps))) secure := by
  rw [parseDcc_body hupper (dccVerb_ne_nil (by decide) secure) (capital_verb (by decide) secure) hps h,
    parseSubtype_chat]

theorem parseDcc_accept (hupper : Uppercases toUpperCase) {file : Text} {ps : List Text}
    (hps : ps ≠ []) (h : ∀ p ∈ ps, Piece p) :
    parseDcc Number toUpperCase (spaced (text "ACCEPT" :: file :: ps)) =
      parseDccResumeLike Number (text "ACCEPT") .accept (trim (spaced (file :: ps))) :=
  parseDcc_body hupper (by decide) (by decide) hps h

theorem parseDcc_resume (hupper : Uppercases toUpperCase) {file : Text} {ps : List Text}
    (hps : ps ≠ []) (h : ∀ p ∈ ps, Piece p) :
    parseDcc Number toUpperCase (spaced (text "RESUME" :: file :: ps)) =
      parseDccResumeLike Number (text "RESUME") .resume (trim (spaced (file :: ps))) :=
  parseDcc_body hupper (by decide) (by decide) hps h

/-- With a space in it, a name goes out in quotes and may not have one; without, it goes out as it
is, and may not begin with a quote or with white space. -/
def Echoable (name : Text) : Prop :=
  if space ∈ name then quote ∉ name
  else name ≠ [] ∧ ∀ c, name.head? = some c → c ≠ quote ∧ isSpace c = false

theorem trim_content {file : Text} (hne : file ≠ [])
    (hhead : ∀ c, file.head? = some c → isSpace c = false) {ps : List Text} (hps : ps ≠ [])
    (h : ∀ p ∈ ps, Piece p) : trim (spaced (file :: ps)) = spaced (file :: ps) := by
  refine Trim.trim_eq_self ⟨fun a ha => hhead a ?_, getLast?_spaced file hps h⟩
  obtain ⟨q, ps, rfl⟩ := List.exists_cons_of_ne_nil hps
  rwa [spaced_cons, List.head?_append_of_ne_nil _ hne] at ha

theorem quote_not_space : isSpace quote = false := by decide

theorem trim_quoted (name : Text) {ps : List Text} (hps : ps ≠ []) (h : ∀ p ∈ ps, Piece p) :
    trim (spaced ((quote :: name ++ [quote]) :: ps)) = quote :: name ++ [quote] ++ space :: spaced ps := by
  obtain ⟨q, qs, rfl⟩ := List.exists_cons_of_ne_nil hps
  rw [← spaced_cons]
  refine trim_content (List.cons_ne_nil _ _) (fun c hc => ?_) hps h
  cases hc
  exact quote_not_space

theorem quote_not_mem_spaced {ps : List Text} (h : ∀ p ∈ ps, Piece p) : quote ∉ spaced ps := by
  induction ps with
  | nil => exact List.not_mem_nil
  | cons p ps ih =>
    obtain ⟨hp, hps⟩ := List.forall_mem_cons.mp h
    cases ps with
    | nil => rw [spaced_singleton]; exact hp.no_quote
    | cons q ps =>
      rw [spaced_cons]
      intro hmem
      rcases List.mem_append.mp hmem with hmem | hmem
      · exact hp.no_quote hmem
      · exact ih hps ((List.mem_cons.mp hmem).resolve_left (by decide))

section Names

variable {min max : Nat} {read : Text → List Text → Bool → DccParse} {ps : List Text} (hps : ps ≠ [])
  (h : ∀ p ∈ ps, Piece p)

include hps h

/-- A word is read back. -/
theorem parse_word {name : Text} (hname : name ≠ []) (hspace : space ∉ name)
    (hhead : ∀ c, name.head? = some c → c ≠ quote ∧ isSpace c = false) (hmin : min ≤ ps.length)
    (hmax : ps.length ≤ max) (hread : (read name ps false).isInvalid = false) :
    parseNamed (trim (spaced (name :: ps))) min max read = read name ps false := by
  rw [trim_content hname (fun c hc => (hhead c hc).2) hps h]
  exact parseNamed_word hname hspace (fun hquote => (hhead quote hquote).1 rfl) hps h hmin hmax hread

theorem parse_echo {name : Text} (hname : Echoable name) (hmin : min ≤ ps.length)
    (hmax : ps.length ≤ max) (hread : (read name ps false).isInvalid = false) :
    parseNamed (trim (spaced (echoDccFilename name :: ps))) min max read = read name ps false := by
  unfold Echoable at hname
  unfold echoDccFilename
  split at hname
  case isTrue hspace =>
    rw [if_pos hspace, trim_quoted name hps h]
    exact parseNamed_quoted (List.ne_nil_of_mem hspace) hname hps h hmin hmax
  case isFalse hspace =>
    rw [if_neg hspace]
    exact parse_word hps h hname.1 hspace hname.2 hmin hmax hread

/-- A name that is read of its echo can be echoed. -/
theorem echoable_of_name {name : Text}
    (hname : NameOf (trim (spaced (echoDccFilename name :: ps))) name) : Echoable name := by
  unfold Echoable
  split
  case isTrue hspace =>
    have hecho : echoDccFilename name = quote :: name ++ [quote] := if_pos hspace
    have hhead : (trim (spaced (echoDccFilename name :: ps))).head? = some quote := by
      rw [hecho, trim_quoted name hps h]
      rfl
    rcases hname.start with ⟨-, hquote⟩ | ⟨hplain, -⟩
    · exact hquote
    · exact absurd hhead hplain
  case isFalse hspace =>
    have hecho : echoDccFilename name = name := if_neg hspace
    rw [hecho] at hname
    refine ⟨hname.ne_nil, fun c hc => ?_⟩
    rcases hname.start with ⟨hquoted, hquote⟩ | ⟨hplain, hhead⟩
    · -- the text would begin with a quote that is in none of its pieces
      have hmem := Trim.trim_subset _ (List.mem_of_mem_head? hquoted)
      obtain ⟨q, qs, rfl⟩ := List.exists_cons_of_ne_nil hps
      rw [spaced_cons] at hmem
      rcases List.mem_append.mp hmem with hmem | hmem
      · exact absurd hmem hquote
      · exact absurd ((List.mem_cons.mp hmem).resolve_left (by decide)) (quote_not_mem_spaced h)
    · rw [← hhead, hc] at hplain
      refine ⟨fun heq => hplain (congrArg some heq), ?_⟩
      exact (Trim.trimmed_trim _).head c (hhead ▸ hc)

/-- What is read of an echo is read with another name unless that can be echoed. -/
theorem read_of_echo {name : Text} {parsed : DccParse}
    (hparsed : parseNamed (trim (spaced (echoDccFilename name :: ps))) min max read = parsed)
    (hvalid : parsed.isInvalid = false) :
    ∃ name' ps' side, parsed = read name' ps' side ∧ (name' = name → Echoable name) := by
  rw [← hparsed] at hvalid
  obtain ⟨name', ps', side, hread, hname⟩ := parseNamed_name (head?_trim _) hvalid
  refine ⟨name', ps', side, hparsed.symm.trans hread, ?_⟩
  rintro rfl
  exact echoable_of_name hps h hname

end Names

theorem Piece.head {name : Text} (h : Piece name) :
    ∀ c, name.head? = some c → c ≠ quote ∧ isSpace c = false := fun c hc =>
  have hmem := List.mem_of_mem_head? hc
  ⟨fun heq => h.no_quote (heq ▸ hmem), h.no_space c hmem⟩

variable {graphemes}

theorem piece_wire (hgraphemes : Segments graphemes) (raw : Text) :
    Piece (dccWireFilename graphemes raw) where
  ne_nil hnil := (sanitize_safe hgraphemes raw).ne_nil
    (List.map_eq_nil_iff.mp (List.map_eq_nil_iff.mp hnil))
  no_space c hc := by
    obtain ⟨d, -, rfl⟩ := List.mem_map.mp hc
    split
    · decide
    · exact Bool.eq_false_iff.mpr ‹_›
  no_quote hmem := by
    obtain ⟨d, hd, hquote⟩ := List.mem_map.mp hmem
    split at hquote
    · exact absurd hquote (by decide)
    · subst hquote
      obtain ⟨e, -, he⟩ := List.mem_map.mp hd
      split at he
      · exact absurd he (by decide)
      · rename_i hne
        exact hne he

theorem pieces_written (port size : Nat) (token : Option Nat) :
    ∀ p ∈ written port size token, Piece p := by
  intro p hp
  rcases List.mem_append.mp hp with hp | hp
  · rcases List.mem_pair.mp hp with rfl | rfl <;> exact piece_decimalText _
  · obtain ⟨t, -, rfl⟩ := Option.map_eq_some_iff.mp (Option.mem_toList.mp hp)
    exact piece_decimalText t

theorem length_written (port size : Nat) (token : Option Nat) :
    2 ≤ (written port size token).length ∧ (written port size token).length ≤ 3 := by
  cases token with
  | none => exact ⟨Nat.le_refl 2, Nat.le_succ 2⟩
  | some t => exact ⟨Nat.le_succ 2, Nat.le_refl 3⟩

/-- Nothing is read of no text either way. -/
theorem missing_or_named {min max : Nat} {read : Text → List Text → Bool → DccParse}
    {rest reason : Text} {p : DccParse} (hp : p.isInvalid = false) :
    (if rest = [] then .invalid reason else parseNamed rest min max read) = p ↔
      parseNamed rest min max read = p := by
  split
  case isTrue hrest =>
    subst hrest
    constructor
    · rintro rfl
      cases hp
    · rintro rfl
      cases hp
  case isFalse => rfl

/-- A file offer that we write is read back with its name, and with no other name unless it is
echoed. -/
theorem send_word (hNumber : ReadsDigits Number) (hupper : Uppercases toUpperCase) (secure : Bool)
    {file : Text} (hfile : Piece file) {addr host : E2e.Text} (hne : addr ≠ [])
    (hchars : ∀ c ∈ addr, IsLiteralChar c) (hdecode : decodeDccAddress Number addr = some host)
    {port size : Nat} {token : Option Nat} (h : Writable port size token)
    (hpassive : ¬ (port = 0 ∧ token = none)) :
    parseDcc Number toUpperCase (spaced (dccVerb "SEND" secure :: file :: addr.map unit :: written port size token)) =
        .send ⟨file, host, port, size, token, port = 0, secure⟩ := by
  have hps : ∀ p ∈ addr.map unit :: written port size token, Piece p :=
    List.forall_mem_cons.mpr ⟨piece_literal hne hchars, pieces_written port size token⟩
  have hread := readSend_written hNumber secure file hchars hdecode h hpassive
  have hlength := length_written port size token
  rw [parseDcc_send hupper secure (List.cons_ne_nil _ _) hps, parseDccSend, missing_or_named rfl,
    parse_word (List.cons_ne_nil _ _) hps hfile.ne_nil hfile.space_not_mem hfile.head
      (Nat.succ_le_succ hlength.1) (Nat.succ_le_succ hlength.2) (congrArg DccParse.isInvalid hread)]
  exact hread

/-- The answer to an offer is read back with the name of the offer if and only if that can be
echoed. -/
theorem send_echo_iff (hNumber : ReadsDigits Number) (hupper : Uppercases toUpperCase)
    (secure : Bool) (file : Text) {addr host : E2e.Text} (hne : addr ≠ [])
    (hchars : ∀ c ∈ addr, IsLiteralChar c) (hdecode : decodeDccAddress Number addr = some host)
    {port size : Nat} {token : Option Nat} (h : Writable port size token)
    (hpassive : ¬ (port = 0 ∧ token = none)) {body : Text}
    (hbody : body = spaced (dccVerb "SEND" secure :: echoDccFilename file :: addr.map unit :: written port size token)) :
    (parseDcc Number toUpperCase body =
        .send ⟨file, host, port, size, token, port = 0, secure⟩ ↔ Echoable file) ∧
      ((∃ o, parseDcc Number toUpperCase body = .send o ∧ o.filename = file) ↔ Echoable file) := by
  have hps : ∀ p ∈ addr.map unit :: written port size token, Piece p :=
    List.forall_mem_cons.mpr ⟨piece_literal hne hchars, pieces_written port size token⟩
  have hread := readSend_written hNumber secure file hchars hdecode h hpassive
  have hlength := length_written port size token
  have hforth (hfile : Echoable file) : parseDcc Number toUpperCase body =
      .send ⟨file, host, port, size, token, port = 0, secure⟩ := by
    rw [hbody, parseDcc_send hupper secure (List.cons_ne_nil _ _) hps, parseDccSend,
      missing_or_named rfl, parse_echo (List.cons_ne_nil _ _) hps hfile (Nat.succ_le_succ hlength.1)
        (Nat.succ_le_succ hlength.2) (congrArg DccParse.isInvalid hread)]
    exact hread
  have hback (o : DccSend) (hparse : parseDcc Number toUpperCase body = .send o)
      (hname : o.filename = file) : Echoable file := by
    rw [hbody, parseDcc_send hupper secure (List.cons_ne_nil _ _) hps, parseDccSend,
      missing_or_named rfl] at hparse
    obtain ⟨name, ps, side, hsend, hecho⟩ := read_of_echo (List.cons_ne_nil _ _) hps hparse rfl
    obtain ⟨o', ho', hname', -⟩ := readSend_valid hsend.symm rfl
    cases ho'
    exact hecho (hname'.symm.trans hname)
  exact ⟨⟨fun hparse => hback _ hparse rfl, hforth⟩,
    fun ⟨o, hparse, hname⟩ => hback o hparse hname, fun hfile => ⟨_, hforth hfile, rfl⟩⟩

theorem accept_word (hNumber : ReadsDigits Number) (hupper : Uppercases toUpperCase) {file : Text}
    (hfile : Piece file) {port position : Nat} {token : Option Nat}
    (h : Writable port position token) :
    parseDcc Number toUpperCase (buildDccAccept file port position token) =
      .accept ⟨file, port, position, token⟩ := by
  have hps := pieces_written port position token
  have hread := readPosition_written hNumber .accept file h false
  have hlength := length_written port position token
  have hne := written_ne_nil port position token
  have hbody : buildDccAccept file port position token =
      spaced (text "ACCEPT" :: file :: written port position token) := rfl
  rw [hbody, parseDcc_accept hupper hne hps, parseDccResumeLike, missing_or_named rfl,
    parse_word hne hps hfile.ne_nil hfile.space_not_mem hfile.head hlength.1
      hlength.2 (congrArg DccParse.isInvalid hread)]
  exact hread

theorem resume_echo_iff (hNumber : ReadsDigits Number) (hupper : Uppercases toUpperCase) (file : Text)
    {port position : Nat} {token : Option Nat} (h : Writable port position token) :
    (parseDcc Number toUpperCase (buildDccResume file port position token) =
        .resume ⟨file, port, position, token⟩ ↔ Echoable file) ∧
      ((∃ o, parseDcc Number toUpperCase (buildDccResume file port position token) = .resume o ∧
        o.filename = file) ↔ Echoable file) := by
  have hps := pieces_written port position token
  have hread := readPosition_written hNumber .resume file h false
  have hlength := length_written port position token
  have hne := written_ne_nil port position token
  have hbody : buildDccResume file port position token =
      spaced (text "RESUME" :: echoDccFilename file ::
        written port position token) := rfl
  have hforth (hfile : Echoable file) :
      parseDcc Number toUpperCase (buildDccResume file port position token) =
        .resume ⟨file, port, position, token⟩ := by
    rw [hbody, parseDcc_resume hupper hne hps, parseDccResumeLike, missing_or_named rfl,
      parse_echo hne hps hfile hlength.1 hlength.2
        (congrArg DccParse.isInvalid hread)]
    exact hread
  have hback (o : DccPosition) (hparse : parseDcc Number toUpperCase
      (buildDccResume file port position token) = .resume o) (hname : o.filename = file) :
      Echoable file := by
    rw [hbody, parseDcc_resume hupper hne hps, parseDccResumeLike, missing_or_named rfl] at hparse
    obtain ⟨name, ps, side, hresume, hecho⟩ := read_of_echo hne hps hparse rfl
    obtain ⟨o', ho', hname'⟩ := readPosition_valid hresume.symm rfl
    cases ho'
    exact hecho (hname'.symm.trans hname)
  exact ⟨⟨fun hparse => hback _ hparse rfl, hforth⟩,
    fun ⟨o, hparse, hname⟩ => hback o hparse hname, fun hfile => ⟨_, hforth hfile, rfl⟩⟩

theorem piece_chat : Piece (text "chat") where
  ne_nil := by decide
  no_space c hc := by
    have hall : (text "chat").all (!isSpace ·) = true := by decide
    simpa using List.all_eq_true.mp hall c hc
  no_quote := by decide

/-- A chat offer that we write is read back. -/
theorem chat_written (hNumber : ReadsDigits Number) (hupper : Uppercases toUpperCase) (secure : Bool)
    {addr host : E2e.Text} (hne : addr ≠ []) (hchars : ∀ c ∈ addr, IsLiteralChar c)
    (hdecode : decodeDccAddress Number addr = some host) {port : Nat} {token : Option Nat}
    (h : Writable port 0 token) (hpassive : ¬ (port = 0 ∧ token = none)) :
    parseDcc Number toUpperCase (spaced (dccVerb "CHAT" secure :: text "chat" :: addr.map unit ::
      decimalText port :: (token.map decimalText).toList)) =
        .chat ⟨text "chat", host, port, token, port = 0, secure⟩ := by
  have hps : ∀ p ∈ addr.map unit :: decimalText port :: (token.map decimalText).toList, Piece p := by
    refine List.forall_mem_cons.mpr ⟨piece_literal hne hchars, List.forall_mem_cons.mpr
      ⟨piece_decimalText port, fun p hp => ?_⟩⟩
    obtain ⟨t, -, rfl⟩ := Option.map_eq_some_iff.mp (Option.mem_toList.mp hp)
    exact piece_decimalText t
  have hall := List.forall_mem_cons.mpr ⟨piece_chat, hps⟩
  rw [parseDcc_chat hupper secure (List.cons_ne_nil _ _) hps,
    trim_content piece_chat.ne_nil (fun c hc => (piece_chat.head c hc).2) (List.cons_ne_nil _ _) hps]
  unfold parseDccChat
  rw [if_neg (by rw [spaced_cons]; exact List.append_ne_nil_of_left_ne_nil piece_chat.ne_nil _),
    fields_spaced hall]
  simp only [readAddress_written hchars hdecode, readPort_decimalText hNumber h.port,
    readToken_decimalText hNumber h.token]
  exact congrArg orInvalid (if_neg hpassive)

/-- An offer without a port has a token. -/
def Answerable : DccParse → Prop
  | .send o => o.port = 0 → o.token ≠ none
  | .chat o => o.port = 0 → o.token ≠ none
  | _ => True

theorem answerable_of_invalid {p : DccParse} (hp : p.isInvalid = true) : Answerable p := by
  cases p with
  | invalid => trivial
  | _ => cases hp

theorem parseDccResumeLike_answerable {name : Text} {kind : DccPosition → DccParse}
    (hkind : ∀ o, Answerable (kind o)) {rest : Text} (hspace : rest.head? ≠ some space) :
    Answerable (parseDccResumeLike Number name kind rest) := by
  cases hvalid : (parseDccResumeLike Number name kind rest).isInvalid with
  | true => exact answerable_of_invalid hvalid
  | false =>
    have hnamed := (missing_or_named hvalid).mp rfl
    obtain ⟨q, ps, side, hread, -⟩ := parseNamed_name hspace (by rw [hnamed]; exact hvalid)
    obtain ⟨o, ho, -⟩ := readPosition_valid (hread.symm.trans hnamed) hvalid
    rw [ho]
    exact hkind o

theorem parseDccSend_answerable {rest : Text} (hspace : rest.head? ≠ some space) (secure : Bool) :
    Answerable (parseDccSend Number rest secure) := by
  cases hvalid : (parseDccSend Number rest secure).isInvalid with
  | true => exact answerable_of_invalid hvalid
  | false =>
    have hnamed := (missing_or_named hvalid).mp rfl
    obtain ⟨q, ps, side, hread, -⟩ := parseNamed_name hspace (by rw [hnamed]; exact hvalid)
    obtain ⟨o, ho, -, htoken⟩ := readSend_valid (hread.symm.trans hnamed) hvalid
    rw [ho]
    exact htoken

theorem parseDccChat_answerable (rest : Text) (secure : Bool) :
    Answerable (parseDccChat Number rest secure) := by
  cases hvalid : (parseDccChat Number rest secure).isInvalid with
  | true => exact answerable_of_invalid hvalid
  | false =>
    obtain ⟨o, ho, htoken⟩ := parseDccChat_valid rfl hvalid
    rw [ho]
    exact htoken

theorem parseDcc_answerable (body : Text) : Answerable (parseDcc Number toUpperCase body) := by
  unfold parseDcc
  dsimp only
  split
  · trivial
  · have hspace := head?_trim ((trim body).dropWhile (· ≠ space)).tail
    unfold parseSubtype
    split
    · exact @parseDccResumeLike_answerable Number _ .accept (fun _ => trivial) _ hspace
    · split
      · exact @parseDccResumeLike_answerable Number _ .resume (fun _ => trivial) _ hspace
      · split
        · split
          · trivial
          · split
            · exact parseDccSend_answerable hspace _
            · exact parseDccChat_answerable _ _
        · trivial

end Bodies

/-- What we offer is read back as it was, our answers with their values and the name they were
given if and only if that can be echoed, and no offer has neither a port nor a token. -/
structure RoundTrips : Prop where
  send : ∀ raw host port size secure, isIP host ≠ 0 → 0 < port → port ≤ 65535 →
    size ≤ E2e.maxSafeInteger →
      (buildDccSend Number (dccWireFilename graphemes raw) host port size secure).map
          (parseDcc Number toUpperCase) =
        some (.send ⟨dccWireFilename graphemes raw, host, port, size, none, false, secure⟩)
  sendPassive : ∀ raw size token secure, size ≤ E2e.maxSafeInteger → token ≤ E2e.maxSafeInteger →
    parseDcc Number toUpperCase
        (buildDccSendPassive Number (dccWireFilename graphemes raw) size token secure) =
      .send ⟨dccWireFilename graphemes raw, passiveDccFakeHost, 0, size, some token, true, secure⟩
  accept : ∀ raw port position token, Writable port position token →
    parseDcc Number toUpperCase
        (buildDccAccept (dccWireFilename graphemes raw) port position token) =
      .accept ⟨dccWireFilename graphemes raw, port, position, token⟩
  chat : ∀ host port secure, isIP host ≠ 0 → 0 < port → port ≤ 65535 →
    (buildDccChat Number host port secure).map (parseDcc Number toUpperCase) =
      some (.chat ⟨text "chat", host, port, none, false, secure⟩)
  chatPassive : ∀ host token secure, isIP host ≠ 0 → token ≤ E2e.maxSafeInteger →
    (buildDccChatPassive Number host token secure).map (parseDcc Number toUpperCase) =
      some (.chat ⟨text "chat", host, 0, some token, true, secure⟩)
  chatReverse : ∀ host port token secure, isIP host ≠ 0 → 0 < port → port ≤ 65535 →
    token ≤ E2e.maxSafeInteger →
      (buildDccChatReverse Number host port token secure).map (parseDcc Number toUpperCase) =
        some (.chat ⟨text "chat", host, port, some token, false, secure⟩)
  sendReply : ∀ file host port size token secure, isIP host ≠ 0 → 0 < port → port ≤ 65535 →
    size ≤ E2e.maxSafeInteger → token ≤ E2e.maxSafeInteger →
      ((buildDccSendReply Number file host port size token secure).map (parseDcc Number toUpperCase) =
        some (.send ⟨file, host, port, size, some token, false, secure⟩) ↔ Echoable file)
  resume : ∀ file port position token, Writable port position token →
    (parseDcc Number toUpperCase (buildDccResume file port position token) =
      .resume ⟨file, port, position, token⟩ ↔ Echoable file)
  answers : ∀ body o, parseDcc Number toUpperCase body = .send o →
    (∀ host port size token secure, isIP host ≠ 0 → 0 < port → port ≤ 65535 →
      size ≤ E2e.maxSafeInteger → token ≤ E2e.maxSafeInteger →
        ((∃ o', (buildDccSendReply Number o.filename host port size token secure).map
            (parseDcc Number toUpperCase) = some (.send o') ∧ o'.filename = o.filename) ↔
          Echoable o.filename)) ∧
    ∀ port position token, Writable port position token →
      ((∃ o', parseDcc Number toUpperCase (buildDccResume o.filename port position token) =
          .resume o' ∧ o'.filename = o.filename) ↔ Echoable o.filename)
  answerable : ∀ body, Answerable (parseDcc Number toUpperCase body)

section RoundTrips

variable {Number toUpperCase graphemes}

theorem writable_some {port size token : Nat} (hport : port ≤ 65535)
    (hsize : size ≤ E2e.maxSafeInteger) (htoken : token ≤ E2e.maxSafeInteger) :
    Writable port size (some token) :=
  ⟨hport, hsize, fun t ht => by cases ht; exact htoken⟩

theorem writable_none {port size : Nat} (hport : port ≤ 65535) (hsize : size ≤ E2e.maxSafeInteger) :
    Writable port size none :=
  ⟨hport, hsize, nofun⟩

theorem sendReply_echo_iff (hNumber : ReadsDigits Number) (hupper : Uppercases toUpperCase)
    (file : Text) {host : E2e.Text} {port size token : Nat} (secure : Bool) (hip : isIP host ≠ 0)
    (hpos : 0 < port) (hport : port ≤ 65535) (hsize : size ≤ E2e.maxSafeInteger)
    (htoken : token ≤ E2e.maxSafeInteger) :
    ((buildDccSendReply Number file host port size token secure).map (parseDcc Number toUpperCase) =
        some (.send ⟨file, host, port, size, some token, false, secure⟩) ↔ Echoable file) ∧
      ((∃ o, (buildDccSendReply Number file host port size token secure).map
          (parseDcc Number toUpperCase) = some (.send o) ∧ o.filename = file) ↔ Echoable file) := by
  obtain ⟨addr, hencode, hdecode, hne, hchars⟩ := encode_literal hNumber hip
  have hactive : decide (port = 0) = false := decide_eq_false hpos.ne'
  have hiff := send_echo_iff hNumber hupper secure file hne hchars hdecode
    (writable_some hport hsize htoken) (fun h => hpos.ne' h.1) rfl
  rw [hactive] at hiff
  rw [buildDccSendReply, hencode]
  simp only [Option.map_some, Option.some.injEq]
  exact hiff

/-- Every body is read back as it was written, and an answer with its name when that can be echoed. -/
theorem round_trips (hgraphemes : Segments graphemes) (hNumber : ReadsDigits Number)
    (hupper : Uppercases toUpperCase) : RoundTrips Number toUpperCase graphemes where
  send raw host port size secure hip hpos hport hsize := by
    obtain ⟨addr, hencode, hdecode, hne, hchars⟩ := encode_literal hNumber hip
    have hparse := send_word hNumber hupper secure (piece_wire hgraphemes raw) hne hchars hdecode
      (writable_none hport hsize) (fun h => hpos.ne' h.1)
    rw [decide_eq_false hpos.ne'] at hparse
    rw [buildDccSend, hencode]
    exact congrArg some hparse
  sendPassive raw size token secure hsize htoken := by
    have hip : isIP passiveDccFakeHost ≠ 0 := by decide
    obtain ⟨addr, hencode, hdecode, hne, hchars⟩ := encode_literal hNumber hip
    have hparse := send_word hNumber hupper secure (piece_wire hgraphemes raw) hne hchars hdecode
      (writable_some (Nat.zero_le _) hsize htoken) (fun h => nomatch h.2)
    rw [buildDccSendPassive, hencode]
    exact hparse
  accept raw port position token h := accept_word hNumber hupper (piece_wire hgraphemes raw) h
  chat host port secure hip hpos hport := by
    obtain ⟨addr, hencode, hdecode, hne, hchars⟩ := encode_literal hNumber hip
    have hparse := chat_written hNumber hupper secure hne hchars hdecode
      (writable_none hport (Nat.zero_le _)) (fun h => hpos.ne' h.1)
    rw [decide_eq_false hpos.ne'] at hparse
    rw [buildDccChat, hencode]
    exact congrArg some hparse
  chatPassive host token secure hip htoken := by
    obtain ⟨addr, hencode, hdecode, hne, hchars⟩ := encode_literal hNumber hip
    have hparse := chat_written hNumber hupper secure hne hchars hdecode
      (writable_some (Nat.zero_le _) (Nat.zero_le _) htoken) (fun h => nomatch h.2)
    rw [buildDccChatPassive, hencode]
    exact congrArg some hparse
  chatReverse host port token secure hip hpos hport htoken := by
    obtain ⟨addr, hencode, hdecode, hne, hchars⟩ := encode_literal hNumber hip
    have hparse := chat_written hNumber hupper secure hne hchars hdecode
      (writable_some hport (Nat.zero_le _) htoken) (fun h => hpos.ne' h.1)
    rw [decide_eq_false hpos.ne'] at hparse
    rw [buildDccChatReverse, hencode]
    exact congrArg some hparse
  sendReply file host port size token secure hip hpos hport hsize htoken :=
    (sendReply_echo_iff hNumber hupper file secure hip hpos hport hsize htoken).1
  resume file port position token h := (resume_echo_iff hNumber hupper file h).1
  answers body o _ := ⟨fun host port size token secure hip hpos hport hsize htoken =>
      (sendReply_echo_iff hNumber hupper o.filename secure hip hpos hport hsize htoken).2,
    fun port position token h => (resume_echo_iff hNumber hupper o.filename h).2⟩
  answerable body := parseDcc_answerable body

end RoundTrips

/-- `toUpperCase` of ASCII. -/
def upperAscii (s : Text) : Text :=
  s.map fun c => if unit 'a' ≤ c && c ≤ unit 'z' then c - 32 else c

theorem upperAscii_capitals : Uppercases upperAscii := by
  intro s h
  unfold upperAscii
  conv_rhs => rw [← List.map_id s]
  refine List.map_congr_left fun c hc => if_neg ?_
  have hcapital := Bool.and_eq_true_iff.mp (List.all_eq_true.mp h c hc)
  have h90 : (unit 'Z').toNat = 90 := rfl
  have h97 : (unit 'a').toNat = 97 := rfl
  simp only [decide_eq_true_eq, UInt16.le_iff_toNat_le, h90] at hcapital
  simp only [Bool.and_eq_true, decide_eq_true_eq, UInt16.le_iff_toNat_le, h97]
  omega

theorem round_trips_ascii : RoundTrips digitsNumber upperAscii Utf16.codePoints :=
  round_trips Utf16.flatten_codePoints digitsNumber_reads upperAscii_capitals

/-- An offer whose name has a space and a quote is answered with another name, or none. -/
theorem quoted_name_lost : ¬ ∀ body o, parseDcc digitsNumber upperAscii body = .send o →
    ∃ o', parseDcc digitsNumber upperAscii (buildDccResume o.filename o.port 50 none) = .resume o' ∧
      o'.filename = o.filename := by
  intro h
  have hoffer : parseDcc digitsNumber upperAscii (text "SEND a \"b\" c 3232235777 5000 100") =
      .send ⟨text "a \"b\" c", "192.168.1.1".toList, 5000, 100, none, false, false⟩ := by
    decide +kernel
  obtain ⟨o', hanswer, -⟩ := h _ _ hoffer
  have hlost : parseDcc digitsNumber upperAscii
      (buildDccResume (text "a \"b\" c") 5000 50 none) = expectedFields 2 3 := by
    decide +kernel
  rw [hlost] at hanswer
  cases hanswer

end Lurker.Dcc.Wire
