import Lurker.Bouncer.History
import Lurker.Chat.TextMatch
import Lurker.Db.CountedPaging
import Lurker.Lib.Pages
import Lurker.Lib.Trim

/-!
# Every search path gives the plain answer

A search is driven by its text, by the highlights, by the senders, by one buffer or by
several, each through a statement of its own. The list-driven ones bound what each list
contributes before the page is cut: since a list holds only rows the page keeps, the page is
the same as if all rows had been looked at.
-/

namespace Lurker.Db.Search

open Lurker.Irc (Str Casemapping foldTargetWith)
open Lurker.Chat (Text CodeUnit isSpace unit)
open Lurker.Bouncer (Kind)
open Lurker.Db.CountedPaging (given)
open OrderDual (toDual ofDual)

structure NetworkRow where
  id : ℕ+
  userId : Nat
  casemapping : Option Casemapping

structure BufferRow where
  id : Nat
  userId : Nat
  networkId : Option ℕ+
  folded : Str

structure MessageRow where
  id : ℕ+
  networkId : ℕ+
  bufferId : Nat
  type : Kind
  nick : Option Str
  fromIgnored : Bool
  mirrored : Bool
  matchedRuleId : Option Nat
  replyToSelf : Bool

/-- The tables under their keys. A message is in a buffer of its network, and a buffer
belongs to the owner of its network. -/
structure Database where
  networks : List NetworkRow
  buffers : List BufferRow
  messages : List MessageRow
  networkIds : (networks.map (·.id)).Nodup
  bufferIds : (buffers.map (·.id)).Nodup
  ascends : messages.Pairwise (·.id < ·.id)
  owned : ∀ b ∈ buffers, ∀ n ∈ networks, b.networkId = some n.id → b.userId = n.userId
  placed : ∀ m ∈ messages, ∃ n ∈ networks, n.id = m.networkId ∧
    ∃ b ∈ buffers, b.id = m.bufferId ∧ b.networkId = some n.id

structure SearchMessagesOptions where
  query : Text
  networkId : Option Nat
  target : Str
  nick : Str
  nicks : List Str
  matched : Bool
  before : Option Nat
  limit : Nat

/-- The walk of `split(/\s+/).filter(Boolean)`, with the term so far. -/
def termsFrom (term : Text) : Text → List Text
  | [] => if term = [] then [] else [term]
  | c :: rest =>
    if isSpace c then (if term = [] then [] else [term]) ++ termsFrom [] rest
    else termsFrom (term ++ [c]) rest

/-- A term in double quotes, its own doubled. -/
def quoteTerm (term : Text) : Text :=
  unit '"' :: (term.flatMap fun c => if c = unit '"' then [c, c] else [c]) ++ [unit '"']

def toFtsMatch (s : Text) : Text :=
  (((termsFrom [] s).map quoteTerm).intersperse [unit ' ']).flatten

/-- `COLLATE NOCASE`, ASCII letters only. -/
def nocase (s : Str) : Str := s.map Char.toLower

def nickIs (nick : Str) (m : MessageRow) : Bool := m.nick.any fun n => nocase n = nocase nick

/-- `SEARCH_ROW_FILTERS` -/
def searchRowFilters (m : MessageRow) : Bool :=
  m.type ∈ [.message, .action, .notice] && !m.fromIgnored && !m.mirrored

/-- `HIGHLIGHTED_SQL` -/
def highlighted (m : MessageRow) : Bool := m.matchedRuleId.isSome || m.replyToSelf

def idInHalves (halves : List (List ℕ+)) (m : MessageRow) : Bool :=
  halves.any fun ids => ids.any fun id => id = m.id

-- `toLowerCase` of the platform
variable (toLower : Str → Str)

namespace Database

variable (db : Database)

def casemappingOf (net : ℕ+) : Option Casemapping :=
  (db.networks.find? fun n => n.id = net).bind (·.casemapping)

def resolveBuffer (userId : Nat) (net : ℕ+) (target : Str) : Option Nat :=
  (db.buffers.find? fun b => b.userId = userId && b.networkId = some net &&
    b.folded = foldTargetWith toLower (db.casemappingOf net) target).map (·.id)

/-- `JOIN networks n ON n.id = m.network_id … n.user_id = ?` -/
def ownedBy (userId : Nat) (m : MessageRow) : Bool :=
  db.networks.any fun n => n.id = m.networkId && n.userId = userId

/-- The newest page of the rows a predicate selects, by their ids. -/
def pagedHalf (predicate : MessageRow → Bool) (before : Option ℕ+) (limit : Nat) : List ℕ+ :=
  ((db.messages.filter fun h =>
    predicate h && searchRowFilters h && before.all fun id => h.id < id).reverse.take limit).map (·.id)

/-- A half over one of the two stamps of a highlight. -/
def probe (stamp half : MessageRow → Bool) : List ℕ+ :=
  (db.messages.filter fun h => stamp h && half h).map (·.id)

end Database

/-- What the statement is built from. -/
structure Plan where
  text : Text
  networkId : Option ℕ+
  target : Str
  nick : Str
  nickList : List Str
  matched : Bool
  before : Option ℕ+
  limit : Nat
  nets : List ℕ+
  bufferByNet : List (ℕ+ × Nat)

variable (db : Database) (userId : Nat)

def plan (o : SearchMessagesOptions) : Plan :=
  let own := (db.networks.filter fun n => n.userId = userId).map (·.id)
  let nets := match given o.networkId with
    | some id => own.filter (· = id)
    | none => own
  { text := Trim.trim isSpace o.query
    networkId := given o.networkId
    target := o.target
    nick := o.nick
    nickList := o.nicks.filter (· ≠ [])
    matched := o.matched
    before := given o.before
    limit := o.limit
    nets := nets
    bufferByNet :=
      if o.target ≠ [] then
        nets.filterMap fun net => (db.resolveBuffer toLower userId net o.target).map (net, ·)
      else [] }

namespace Plan

variable (p : Plan)

/-- Nothing to search on. -/
def asksNothing : Bool :=
  p.text = [] && p.networkId = none && p.target = [] && p.nick = [] && p.nickList.isEmpty && !p.matched

def bufferIds : Option (List Nat) := if p.target ≠ [] then some (p.bufferByNet.map (·.2)) else none

def hasText : Bool := p.text ≠ []
def nickFiltered : Bool := !p.nickList.isEmpty || p.nick ≠ []
def highlightDriven : Bool := p.matched && !p.hasText
def nickDriven : Bool := p.nickFiltered && !p.hasText && !p.highlightDriven
def bufferDriven : Bool :=
  p.bufferIds.isSome && !p.hasText && !p.nickFiltered && !p.highlightDriven

def senders : List Str := if p.nickList.isEmpty then [p.nick] else p.nickList

def beforeCursor (m : MessageRow) : Bool := p.before.all fun id => m.id < id

/-- `m.network_id = ?`, when a network is given. -/
def networkTerm : List (MessageRow → Bool) :=
  match p.networkId with
  | some id => [fun m => m.networkId = id]
  | none => []

/-- The halves of the highlight path: `buffer_id IN …`, and the cursor. -/
def highlightHalf (h : MessageRow) : Bool :=
  (match p.bufferIds with
    | some (id :: ids) => decide (h.bufferId ∈ id :: ids)
    | _ =>
      db.buffers.any fun b => b.id = h.bufferId && db.networks.any fun n =>
        b.networkId = some n.id && n.userId = userId && p.networkId.all fun id => n.id = id) &&
    p.beforeCursor h

/-- A half for each network and sender, within the network's own buffer when one is named. -/
def nickHalves : List (List ℕ+) :=
  p.nets.flatMap fun net =>
    let held := (p.bufferByNet.find? fun e => e.1 = net).map (·.2)
    if p.target ≠ [] && held.isNone then []
    else p.senders.map fun sender =>
      db.pagedHalf (fun h => h.networkId = net && nickIs sender h && held.all fun id => h.bufferId = id)
        p.before p.limit

/-- The terms of what drives the search. -/
def driverTerms : List (MessageRow → Bool) :=
  (if p.matched && !p.highlightDriven then [highlighted] else []) ++
  if p.highlightDriven then
    idInHalves [db.probe (·.matchedRuleId.isSome) (p.highlightHalf db userId),
      db.probe (·.replyToSelf) (p.highlightHalf db userId)] :: p.networkTerm
  else if p.hasText then p.networkTerm
  else if p.nickDriven then
    [if (p.nickHalves db).isEmpty then fun _ => false else idInHalves (p.nickHalves db)]
  else if p.bufferIds.isNone then p.networkTerm
  else []

def manyBuffers (ids : List Nat) : Bool := p.bufferDriven && 1 < ids.length

def bufferTerms : List (MessageRow → Bool) :=
  match p.bufferIds with
  | none => []
  | some ids =>
    if ids.isEmpty then [fun _ => false]
    else if p.manyBuffers ids then
      [idInHalves (ids.map fun id => db.pagedHalf (fun h => h.bufferId = id) p.before p.limit)]
    else if !p.highlightDriven then [fun m => m.bufferId ∈ ids]
    else []

def nickTerms : List (MessageRow → Bool) :=
  if !p.nickList.isEmpty then [fun m => p.nickList.any fun nick => nickIs nick m]
  else if p.nick ≠ [] then [nickIs p.nick]
  else []

/-- The cursor, where it is not in the halves. -/
def cursorTerms : List (MessageRow → Bool) :=
  if p.highlightDriven || p.nickDriven || p.bufferIds.any p.manyBuffers then []
  else [p.beforeCursor]

end Plan

-- full-text matching, row by row
variable (ftsMatch : Text → MessageRow → Bool)

/-- The terms of the statement, none when nothing can match. -/
def searchMessagesSql (o : SearchMessagesOptions) : Option (List (MessageRow → Bool)) :=
  let p := plan toLower db userId o
  if p.asksNothing then none
  else if p.hasText && toFtsMatch p.text = [] then none
  else
    some ([db.ownedBy userId, searchRowFilters] ++
      (if p.hasText then [ftsMatch (toFtsMatch p.text)] else []) ++
      p.driverTerms db userId ++ p.bufferTerms db ++ p.nickTerms ++ p.cursorTerms)

/-- The page, newest first. -/
def searchMessages (o : SearchMessagesOptions) : List MessageRow :=
  match searchMessagesSql toLower db userId ftsMatch o with
  | none => []
  | some terms => (db.messages.filter fun m => terms.all fun term => term m).reverse.take o.limit

/-- A row that a search is about: one of the user's own that meets each filter given. -/
def admits (o : SearchMessagesOptions) (m : MessageRow) : Bool :=
  let text := Trim.trim isSpace o.query
  let nickList := o.nicks.filter (· ≠ [])
  db.ownedBy userId m && searchRowFilters m &&
    (text = [] || ftsMatch (toFtsMatch text) m) &&
    ((given o.networkId).all fun id => m.networkId = id) &&
    (o.target = [] || db.resolveBuffer toLower userId m.networkId o.target = some m.bufferId) &&
    (if nickList.isEmpty then o.nick = [] || nickIs o.nick m
      else nickList.any fun nick => nickIs nick m) &&
    (!o.matched || highlighted m)

/-- All rows a search is about, newest first. -/
def matching (o : SearchMessagesOptions) : List MessageRow :=
  (db.messages.filter (admits toLower db userId ftsMatch o)).reverse

/-- A search with no filter at all. -/
def asksNothing (o : SearchMessagesOptions) : Bool :=
  Trim.trim isSpace o.query = [] && given o.networkId = none && o.target = [] && o.nick = [] &&
    (o.nicks.filter (· ≠ [])).isEmpty && !o.matched

def plainAnswer (o : SearchMessagesOptions) : List MessageRow :=
  ((matching toLower db userId ftsMatch o).filter fun m =>
    (given o.before).all fun id => m.id < id).take o.limit

section Halves

variable {α : Type*}

theorem take_filter_of_forall {q : α → Bool} {l : List α} {n : Nat}
    (h : ∀ a ∈ l.take n, q a = true) : (l.filter q).take n = l.take n := by
  have hsplit : l.filter q = l.take n ++ (l.drop n).filter q := by
    conv_lhs => rw [← List.take_append_drop n l]
    rw [List.filter_append, List.filter_eq_self.mpr h]
  rw [hsplit]
  rcases le_total n l.length with hlen | hlen
  · rw [List.take_append_of_le_length (by rw [List.length_take]; omega), List.take_take, min_self]
  · rw [List.drop_of_length_le hlen, List.filter_nil, List.append_nil, List.take_take, min_self]

/-- A row on the page is on the page of any half that selects it. -/
theorem mem_take_half {a : α} {all half : α → Bool} (ha : half a = true) :
    ∀ {l : List α} {n : Nat}, (∀ b ∈ l, half b = true → all b = true) →
      a ∈ (l.filter all).take n → a ∈ (l.filter half).take n := by
  intro l
  induction l with
  | nil => exact fun _ h => h
  | cons b rest ih =>
    intro n hsub h
    have hrest : ∀ c ∈ rest, half c = true → all c = true :=
      fun c hc => hsub c (List.mem_cons_of_mem b hc)
    cases n with
    | zero => cases h
    | succ n =>
      by_cases hall : all b = true
      · rw [List.filter_cons_of_pos hall, List.take_succ_cons] at h
        by_cases hhalf : half b = true
        · rw [List.filter_cons_of_pos hhalf, List.take_succ_cons]
          rcases List.mem_cons.mp h with rfl | h
          · exact List.mem_cons_self
          · exact List.mem_cons_of_mem _ (ih hrest h)
        · rw [List.filter_cons_of_neg hhalf]
          rcases List.mem_cons.mp h with rfl | h
          · exact absurd ha hhalf
          · exact List.take_subset_take_left _ (Nat.le_succ n) (ih hrest h)
      · have hhalf : ¬ half b = true := fun h => hall (hsub b List.mem_cons_self h)
        rw [List.filter_cons_of_neg hall] at h
        rw [List.filter_cons_of_neg hhalf]
        exact ih hrest h

/-- When each half selects only rows of the page and each row of the page is in a half, the
page is cut from the halves' own pages as from everything. -/
theorem page_of_halves {l : List α} {n : Nat} {all others listed : α → Bool}
    {halves : List (α → Bool)} (hsub : ∀ half ∈ halves, ∀ a ∈ l, half a = true → all a = true)
    (hcover : ∀ a ∈ l, all a = true → others a = true ∧ ∃ half ∈ halves, half a = true)
    (hlisted : ∀ a ∈ l, (listed a = true ↔ ∃ half ∈ halves, a ∈ (l.filter half).take n)) :
    (l.filter fun a => others a && listed a).take n = (l.filter all).take n := by
  have hfilter : l.filter (fun a => others a && listed a) = (l.filter all).filter listed := by
    rw [List.filter_filter]
    refine List.filter_congr fun a ha => ?_
    rw [Bool.eq_iff_iff, Bool.and_eq_true, Bool.and_eq_true]
    constructor
    · rintro ⟨-, hin⟩
      obtain ⟨half, hhalf, hpage⟩ := (hlisted a ha).mp hin
      exact ⟨hin, hsub half hhalf a ha (List.mem_filter.mp (List.mem_of_mem_take hpage)).2⟩
    · rintro ⟨hin, hall⟩
      exact ⟨(hcover a ha hall).1, hin⟩
  rw [hfilter]
  refine take_filter_of_forall fun a ha => ?_
  obtain ⟨hl, hall⟩ := List.mem_filter.mp (List.mem_of_mem_take ha)
  obtain ⟨half, hhalf, hselects⟩ := (hcover a hl hall).2
  exact (hlisted a hl).mpr ⟨half, hhalf, mem_take_half hselects (hsub half hhalf) ha⟩

end Halves

namespace Database

variable {db}

theorem eq_of_id {m m' : MessageRow} (hm : m ∈ db.messages) (hm' : m' ∈ db.messages)
    (h : m.id = m'.id) : m = m' := by
  have hids : (db.messages.map (·.id)).Nodup := by
    rw [List.nodup_iff_pairwise_ne, List.pairwise_map]
    exact db.ascends.imp fun hlt => hlt.ne
  exact List.inj_on_of_nodup_map hids hm hm' h

theorem buffer_eq_of_id {b b' : BufferRow} (hb : b ∈ db.buffers) (hb' : b' ∈ db.buffers)
    (h : b.id = b'.id) : b = b' :=
  List.inj_on_of_nodup_map db.bufferIds hb hb' h

/-- A listed id is that of a row the list was made from. -/
theorem id_mem {rows : List MessageRow} (hrows : ∀ m ∈ rows, m ∈ db.messages) {m : MessageRow}
    (hm : m ∈ db.messages) : ((rows.map (·.id)).any fun id => id = m.id) = true ↔ m ∈ rows := by
  rw [List.any_eq_true]
  constructor
  · rintro ⟨id, hid, heq⟩
    obtain ⟨m', hm', rfl⟩ := List.mem_map.mp hid
    rwa [← eq_of_id (hrows m' hm') hm (of_decide_eq_true heq)]
  · intro h
    exact ⟨m.id, List.mem_map_of_mem h, decide_eq_true rfl⟩

/-- What a bounded half selects. -/
def halfRows (predicate : MessageRow → Bool) (before : Option ℕ+) (h : MessageRow) : Bool :=
  predicate h && searchRowFilters h && before.all fun id => h.id < id

theorem pagedHalf_mem {predicate : MessageRow → Bool} {before : Option ℕ+} {limit : Nat}
    {m : MessageRow} (hm : m ∈ db.messages) :
    ((db.pagedHalf predicate before limit).any fun id => id = m.id) = true ↔
      m ∈ (db.messages.reverse.filter (halfRows predicate before)).take limit := by
  rw [pagedHalf, id_mem (fun m' hm' => ?_) hm, ← List.filter_reverse]
  · rfl
  · exact (List.mem_filter.mp (List.mem_reverse.mp (List.mem_of_mem_take hm'))).1

theorem probe_mem {stamp half : MessageRow → Bool} {m : MessageRow} (hm : m ∈ db.messages) :
    ((db.probe stamp half).any fun id => id = m.id) = (stamp m && half m) := by
  rw [Bool.eq_iff_iff, probe, id_mem (fun m' hm' => (List.mem_filter.mp hm').1) hm,
    List.mem_filter]
  exact and_iff_right hm

end Database

section Own

variable {toLower} {db} {userId} {o : SearchMessagesOptions} {m : MessageRow}

theorem mem_nets {net : ℕ+} : net ∈ (plan toLower db userId o).nets ↔
    (∃ n ∈ db.networks, n.id = net ∧ n.userId = userId) ∧
      (given o.networkId).all (fun id => net = id) = true := by
  have hown : net ∈ (db.networks.filter fun n => n.userId = userId).map (·.id) ↔
      ∃ n ∈ db.networks, n.id = net ∧ n.userId = userId := by
    rw [List.mem_map]
    constructor
    · rintro ⟨n, hn, rfl⟩
      obtain ⟨hn, huser⟩ := List.mem_filter.mp hn
      exact ⟨n, hn, rfl, of_decide_eq_true huser⟩
    · rintro ⟨n, hn, rfl, huser⟩
      exact ⟨n, List.mem_filter.mpr ⟨hn, decide_eq_true huser⟩, rfl⟩
  unfold plan
  dsimp only
  cases given o.networkId with
  | none => exact hown.trans (and_iff_left rfl).symm
  | some id => exact List.mem_filter.trans (and_congr hown Iff.rfl)

theorem ownedBy_iff : db.ownedBy userId m = true ↔
    ∃ n ∈ db.networks, n.id = m.networkId ∧ n.userId = userId := by
  simp only [Database.ownedBy, List.any_eq_true, Bool.and_eq_true, decide_eq_true_iff]

/-- A row is on one of the networks searched when it is the user's and of the network given. -/
theorem net_iff : m.networkId ∈ (plan toLower db userId o).nets ↔
    db.ownedBy userId m = true ∧ (given o.networkId).all (fun id => m.networkId = id) = true :=
  mem_nets.trans (and_congr ownedBy_iff.symm Iff.rfl)

theorem resolveBuffer_some {net : ℕ+} {target : Str} {id : Nat}
    (h : db.resolveBuffer toLower userId net target = some id) :
    ∃ b ∈ db.buffers, b.id = id ∧ b.networkId = some net := by
  obtain ⟨b, hfound, rfl⟩ := Option.map_eq_some_iff.mp h
  have hkept := List.find?_some hfound
  simp only [Bool.and_eq_true, decide_eq_true_iff] at hkept
  exact ⟨b, List.mem_of_find?_eq_some hfound, rfl, hkept.1.2⟩

/-- The buffer of a row is of the row's network. -/
theorem network_of_buffer (hm : m ∈ db.messages) {b : BufferRow} (hb : b ∈ db.buffers)
    (hid : b.id = m.bufferId) : b.networkId = some m.networkId := by
  obtain ⟨n, -, hn, b', hb', hid', hnet⟩ := db.placed m hm
  rw [Database.buffer_eq_of_id hb hb' (hid.trans hid'.symm), hnet, hn]

/-- A row is in a buffer that the name resolves to on the networks searched. -/
def inTarget (toLower : Str → Str) (db : Database) (userId : Nat) (o : SearchMessagesOptions)
    (m : MessageRow) : Prop :=
  m.networkId ∈ (plan toLower db userId o).nets ∧
    db.resolveBuffer toLower userId m.networkId o.target = some m.bufferId

theorem bufferByNet_mem (htarget : o.target ≠ []) (hm : m ∈ db.messages) :
    m.bufferId ∈ (plan toLower db userId o).bufferByNet.map (·.2) ↔ inTarget toLower db userId o m := by
  have hlist : (plan toLower db userId o).bufferByNet =
      (plan toLower db userId o).nets.filterMap fun net =>
        (db.resolveBuffer toLower userId net o.target).map (net, ·) := if_pos htarget
  rw [hlist, List.mem_map]
  constructor
  · rintro ⟨e, he, hid⟩
    obtain ⟨net, hnet, hsome⟩ := List.mem_filterMap.mp he
    obtain ⟨id, hresolve, rfl⟩ := Option.map_eq_some_iff.mp hsome
    dsimp only at hid
    subst hid
    obtain ⟨b, hb, hbid, hbnet⟩ := resolveBuffer_some hresolve
    obtain rfl : net = m.networkId :=
      Option.some.inj (hbnet.symm.trans (network_of_buffer hm hb hbid))
    exact ⟨hnet, hresolve⟩
  · rintro ⟨hnet, hresolve⟩
    refine ⟨(m.networkId, m.bufferId), List.mem_filterMap.mpr ⟨m.networkId, hnet, ?_⟩, rfl⟩
    rw [hresolve]
    rfl

/-- The buffer that a network's halves are bound to is the one the name resolves to there. -/
theorem held_eq {nets : List ℕ+} {resolve : ℕ+ → Option Nat} {net : ℕ+} (hnet : net ∈ nets) :
    (((nets.filterMap fun net => (resolve net).map (net, ·)).find? fun e => e.1 = net).map (·.2)) =
      resolve net := by
  induction nets with
  | nil => cases hnet
  | cons first nets ih =>
    rw [List.filterMap_cons]
    by_cases hfirst : first = net
    · subst hfirst
      cases hresolve : resolve first with
      | none =>
        dsimp only [Option.map_none]
        by_cases hmore : first ∈ nets
        · rw [ih hmore, hresolve]
        · have hnone : (nets.filterMap fun net => (resolve net).map (net, ·)).find?
              (fun e => e.1 = first) = none := by
            refine List.find?_eq_none.mpr fun e he heq => hmore ?_
            obtain ⟨net, hin, hsome⟩ := List.mem_filterMap.mp he
            obtain ⟨id, -, rfl⟩ := Option.map_eq_some_iff.mp hsome
            rwa [← of_decide_eq_true heq]
          rw [hnone]
          rfl
      | some id =>
        dsimp only [Option.map_some]
        have hhead : decide ((first, id).1 = first) = true := decide_eq_true rfl
        rw [List.find?_cons, hhead]
        rfl
    · have hmore : net ∈ nets := (List.mem_cons.mp hnet).resolve_left (Ne.symm hfirst)
      cases resolve first with
      | none => exact ih hmore
      | some id =>
        dsimp only [Option.map_some]
        have hhead : decide ((first, id).1 = net) = false := decide_eq_false hfirst
        rw [List.find?_cons, hhead]
        exact ih hmore

/-- A row of the user's own, and of the network given, by the buffers of such networks. -/
theorem owned_buffer_iff (hm : m ∈ db.messages) :
    (db.buffers.any fun b => b.id = m.bufferId && db.networks.any fun n =>
      b.networkId = some n.id && n.userId = userId && (given o.networkId).all fun id => n.id = id) =
      true ↔ m.networkId ∈ (plan toLower db userId o).nets := by
  rw [mem_nets]
  simp only [List.any_eq_true, Bool.and_eq_true, decide_eq_true_iff]
  constructor
  · rintro ⟨b, hb, hid, n, hn, ⟨hnet, huser⟩, hgiven⟩
    have hsame : n.id = m.networkId :=
      Option.some.inj (hnet.symm.trans (network_of_buffer hm hb hid))
    rw [hsame] at hgiven
    exact ⟨⟨n, hn, hsame, huser⟩, hgiven⟩
  · rintro ⟨⟨n, hn, hsame, huser⟩, hgiven⟩
    obtain ⟨n', -, hn', b, hb, hid, hnet⟩ := db.placed m hm
    refine ⟨b, hb, hid, n, hn, ⟨?_, huser⟩, ?_⟩
    · rw [hnet, hn', hsame]
    · rw [hsame]
      exact hgiven

end Own

theorem termsFrom_ne_nil {term : Text} (s : Text) (h : term ≠ []) : termsFrom term s ≠ [] := by
  induction s generalizing term with
  | nil => rw [termsFrom, if_neg h]; exact List.cons_ne_nil _ _
  | cons c rest ih =>
    rw [termsFrom]
    split
    · exact List.cons_ne_nil _ _
    · exact ih (List.append_ne_nil_of_right_ne_nil _ (List.cons_ne_nil c []))

theorem toFtsMatch_ne_nil {query : Text} (h : Trim.trim isSpace query ≠ []) :
    toFtsMatch (Trim.trim isSpace query) ≠ [] := by
  have hhead := (@Trim.trimmed_trim _ isSpace query).head
  obtain ⟨c, rest, htext⟩ := List.exists_cons_of_ne_nil h
  rw [htext] at hhead ⊢
  have hterms : termsFrom [] (c :: rest) ≠ [] := by
    rw [termsFrom, if_neg (by rw [hhead c rfl]; exact Bool.false_ne_true)]
    exact termsFrom_ne_nil rest (List.cons_ne_nil c [])
  obtain ⟨term, terms, hsplit⟩ := List.exists_cons_of_ne_nil hterms
  rw [toFtsMatch, hsplit, List.map_cons]
  cases terms with
  | nil => exact List.cons_ne_nil _ _
  | cons next terms => exact List.cons_ne_nil _ _

section Paths

variable {toLower} {db} {userId} {ftsMatch} {o : SearchMessagesOptions} {m : MessageRow}

/-- What is asked of a row beside its driver. -/
structure Meets (toLower : Str → Str) (db : Database) (userId : Nat)
    (ftsMatch : Text → MessageRow → Bool) (o : SearchMessagesOptions) (m : MessageRow) : Prop where
  kept : searchRowFilters m = true
  net : m.networkId ∈ (plan toLower db userId o).nets
  text : (plan toLower db userId o).hasText = true → ftsMatch (toFtsMatch (plan toLower db userId o).text) m = true
  target : o.target ≠ [] → db.resolveBuffer toLower userId m.networkId o.target = some m.bufferId
  nick : ∀ term ∈ (plan toLower db userId o).nickTerms, term m = true
  matched : o.matched = true → highlighted m = true
  cursor : (plan toLower db userId o).beforeCursor m = true

theorem nickTerms_iff : (∀ term ∈ (plan toLower db userId o).nickTerms, term m = true) ↔
    (if (o.nicks.filter (· ≠ [])).isEmpty then decide (o.nick = []) || nickIs o.nick m
      else (o.nicks.filter (· ≠ [])).any fun nick => nickIs nick m) = true := by
  change (∀ term ∈ (if (!(o.nicks.filter (· ≠ [])).isEmpty) = true then
    [fun m => (o.nicks.filter (· ≠ [])).any fun nick => nickIs nick m]
      else if o.nick ≠ [] then [nickIs o.nick] else []), term m = true) ↔ _
  cases (o.nicks.filter (· ≠ [])).isEmpty with
  | false => simp
  | true =>
    by_cases hnick : o.nick = []
    · simp [hnick]
    · simp [hnick]

theorem meets_iff : Meets toLower db userId ftsMatch o m ↔
    (admits toLower db userId ftsMatch o m && (given o.before).all fun id => m.id < id) = true := by
  have hnick := @nickTerms_iff toLower db userId o m
  have hnet := @net_iff toLower db userId o m
  simp only [admits, Bool.and_eq_true, Bool.or_eq_true, decide_eq_true_iff, Bool.not_eq_true']
  constructor
  · intro h
    obtain ⟨hown, hgiven⟩ := hnet.mp h.net
    refine ⟨⟨⟨⟨⟨⟨⟨hown, h.kept⟩, ?_⟩, hgiven⟩, ?_⟩, hnick.mp h.nick⟩, ?_⟩, h.cursor⟩
    · by_cases htext : Trim.trim isSpace o.query = []
      · exact Or.inl htext
      · exact Or.inr (h.text (decide_eq_true htext))
    · by_cases htarget : o.target = []
      · exact Or.inl htarget
      · exact Or.inr (h.target htarget)
    · cases hmatched : o.matched with
      | false => exact Or.inl rfl
      | true => exact Or.inr (h.matched hmatched)
  · rintro ⟨⟨⟨⟨⟨⟨⟨hown, hkept⟩, htext⟩, hgiven⟩, htarget⟩, hnicks⟩, hmatched⟩, hcursor⟩
    refine ⟨hkept, hnet.mpr ⟨hown, hgiven⟩, fun h => ?_, fun h => htarget.resolve_left h,
      hnick.mpr hnicks, fun h => ?_, hcursor⟩
    · exact htext.resolve_left (of_decide_eq_true h)
    · exact hmatched.resolve_left (by rw [h]; exact Bool.noConfusion)

/-- The buffers of the plan, when a name is given, are those it resolves to. -/
theorem bufferIds_mem {ids : List Nat} (hids : (plan toLower db userId o).bufferIds = some ids)
    (hm : m ∈ db.messages) : o.target ≠ [] ∧ (m.bufferId ∈ ids ↔ inTarget toLower db userId o m) := by
  unfold Plan.bufferIds at hids
  split at hids
  · rename_i htarget
    obtain rfl := Option.some.inj hids
    exact ⟨htarget, bufferByNet_mem htarget hm⟩
  · cases hids

theorem bufferIds_none (hids : (plan toLower db userId o).bufferIds = none) : o.target = [] := by
  unfold Plan.bufferIds at hids
  split at hids
  · cases hids
  · rename_i htarget
    exact not_not.mp htarget

/-- The plain check of the buffer. -/
theorem bufferTerms_iff (hm : m ∈ db.messages)
    (hlist : (plan toLower db userId o).bufferIds.any (plan toLower db userId o).manyBuffers = false)
    (hdriven : (plan toLower db userId o).highlightDriven = false) :
    (∀ term ∈ (plan toLower db userId o).bufferTerms db, term m = true) ↔
      (o.target ≠ [] → inTarget toLower db userId o m) := by
  rw [Plan.bufferTerms]
  cases hids : (plan toLower db userId o).bufferIds with
  | none =>
    have htarget := bufferIds_none hids
    simp [htarget]
  | some ids =>
    obtain ⟨htarget, hmem⟩ := bufferIds_mem hids hm
    rw [hids] at hlist
    have hlist : (plan toLower db userId o).manyBuffers ids = false := hlist
    dsimp only
    cases ids with
    | nil =>
      have hnot : ¬ inTarget toLower db userId o m := fun h => List.not_mem_nil (hmem.mpr h)
      simp [htarget, hnot]
    | cons id ids => simp [hlist, hdriven, htarget, ← hmem]

theorem networkTerm_iff : (∀ term ∈ (plan toLower db userId o).networkTerm, term m = true) ↔
    (given o.networkId).all (fun id => m.networkId = id) = true := by
  rw [Plan.networkTerm]
  change (∀ term ∈ (match given o.networkId with
    | some id => [fun m : MessageRow => decide (m.networkId = id)]
    | none => []), term m = true) ↔ _
  cases given o.networkId with
  | none => simp
  | some id => simp

/-- The two lists of highlights. -/
theorem highlightTerms_iff (hm : m ∈ db.messages)
    (hdriven : (plan toLower db userId o).highlightDriven = true) :
    (idInHalves [db.probe (·.matchedRuleId.isSome) ((plan toLower db userId o).highlightHalf db userId),
        db.probe (·.replyToSelf) ((plan toLower db userId o).highlightHalf db userId)] m = true ∧
      ∀ term ∈ (plan toLower db userId o).bufferTerms db, term m = true) ↔
    highlighted m = true ∧ (plan toLower db userId o).beforeCursor m = true ∧
      if o.target = [] then m.networkId ∈ (plan toLower db userId o).nets
      else inTarget toLower db userId o m := by
  have hlists : idInHalves [db.probe (·.matchedRuleId.isSome)
        ((plan toLower db userId o).highlightHalf db userId),
      db.probe (·.replyToSelf) ((plan toLower db userId o).highlightHalf db userId)] m =
      (highlighted m && (plan toLower db userId o).highlightHalf db userId m) := by
    rw [idInHalves, List.any_cons, List.any_cons, List.any_nil, Database.probe_mem hm,
      Database.probe_mem hm, highlighted]
    cases m.matchedRuleId.isSome <;> cases m.replyToSelf <;> simp
  rw [hlists, Bool.and_eq_true, Plan.highlightHalf, Bool.and_eq_true, Plan.bufferTerms]
  have howned := @owned_buffer_iff toLower db userId o m hm
  cases hids : (plan toLower db userId o).bufferIds with
  | none =>
    rw [if_pos (bufferIds_none hids)]
    have hgiven : (plan toLower db userId o).networkId = given o.networkId := rfl
    dsimp only
    rw [hgiven, howned]
    simp [and_comm]
  | some ids =>
    obtain ⟨htarget, hmem⟩ := bufferIds_mem hids hm
    rw [if_neg htarget]
    cases ids with
    | nil =>
      have hnot : ¬ inTarget toLower db userId o m := fun h => List.not_mem_nil (hmem.mpr h)
      simp [hnot]
    | cons id ids =>
      have hmany : (plan toLower db userId o).manyBuffers (id :: ids) = false := by
        simp [Plan.manyBuffers, Plan.bufferDriven, hdriven]
      dsimp only
      rw [decide_eq_true_iff, hmem]
      simp [hmany, hdriven, and_comm]

/-- The terms, whatever drives them. -/
def allTerms (toLower : Str → Str) (db : Database) (userId : Nat)
    (ftsMatch : Text → MessageRow → Bool) (o : SearchMessagesOptions) : List (MessageRow → Bool) :=
  let p := plan toLower db userId o
  [db.ownedBy userId, searchRowFilters] ++
    (if p.hasText then [ftsMatch (toFtsMatch p.text)] else []) ++
    p.driverTerms db userId ++ p.bufferTerms db ++ p.nickTerms ++ p.cursorTerms

theorem searchMessagesSql_eq : searchMessagesSql toLower db userId ftsMatch o =
    if asksNothing o then none else some (allTerms toLower db userId ftsMatch o) := by
  have hnothing : (plan toLower db userId o).asksNothing = asksNothing o := rfl
  have htext : ¬ ((plan toLower db userId o).hasText && decide (toFtsMatch (plan toLower db userId o).text = [])) = true := by
    rw [Bool.and_eq_true, decide_eq_true_iff]
    exact fun h => toFtsMatch_ne_nil (of_decide_eq_true h.1) h.2
  rw [searchMessagesSql, hnothing, if_neg htext]
  rfl

/-- The terms that stand beside the driver's, the buffer's and the cursor's. -/
theorem fixedTerms_iff :
    (∀ term ∈ [db.ownedBy userId, searchRowFilters] ++
      (if (plan toLower db userId o).hasText then
        [ftsMatch (toFtsMatch (plan toLower db userId o).text)] else []), term m = true) ↔
      db.ownedBy userId m = true ∧ searchRowFilters m = true ∧
        ((plan toLower db userId o).hasText = true →
          ftsMatch (toFtsMatch (plan toLower db userId o).text) m = true) := by
  rw [List.forall_mem_append]
  cases (plan toLower db userId o).hasText <;> simp [and_assoc]

/-- A path without bounded lists asks of each row just what the search is about. -/
theorem unbounded_path (hm : m ∈ db.messages) (hnick : (plan toLower db userId o).nickDriven = false)
    (hlist : (plan toLower db userId o).bufferIds.any (plan toLower db userId o).manyBuffers = false) :
    (∀ term ∈ allTerms toLower db userId ftsMatch o, term m = true) ↔
      Meets toLower db userId ftsMatch o m := by
  have hfixed := @fixedTerms_iff toLower db userId ftsMatch o m
  have hnetwork := @networkTerm_iff toLower db userId o m
  have hnet := @net_iff toLower db userId o m
  rw [allTerms, List.forall_mem_append, List.forall_mem_append, List.forall_mem_append,
    List.forall_mem_append, hfixed, Plan.driverTerms, Plan.cursorTerms, hnick, hlist,
    List.forall_mem_append]
  cases hhigh : (plan toLower db userId o).highlightDriven with
  | true =>
    have hlists := highlightTerms_iff hm hhigh
    have hmatched : o.matched = true := by
      have := hhigh
      rw [Plan.highlightDriven, Bool.and_eq_true] at this
      exact this.1
    have htext : (plan toLower db userId o).hasText = false := by
      have := hhigh
      rw [Plan.highlightDriven, Bool.and_eq_true, Bool.not_eq_true'] at this
      exact this.2
    simp only [htext, Bool.not_true, Bool.and_false, Bool.false_eq_true, if_false, if_true,
      Bool.or_false, List.forall_mem_cons, hnetwork]
    constructor
    · rintro ⟨⟨⟨⟨⟨hown, hkept, -⟩, -, hhalves, hgiven⟩, hbuffer⟩, hnicks⟩, -⟩
      obtain ⟨hhighlight, hcursor, hwhere⟩ := hlists.mp ⟨hhalves, hbuffer⟩
      refine ⟨hkept, hnet.mpr ⟨hown, hgiven⟩, fun h => ?_, fun htarget => ?_, hnicks,
        fun _ => hhighlight, hcursor⟩
      · rw [htext] at h
        cases h
      · rw [if_neg htarget] at hwhere
        exact hwhere.2
    · intro h
      obtain ⟨hown, hgiven⟩ := hnet.mp h.net
      have hwhere : if o.target = [] then m.networkId ∈ (plan toLower db userId o).nets
          else inTarget toLower db userId o m := by
        split
        · exact h.net
        · rename_i htarget
          exact ⟨h.net, h.target htarget⟩
      obtain ⟨hhalves, hbuffer⟩ := hlists.mpr ⟨h.matched hmatched, h.cursor, hwhere⟩
      exact ⟨⟨⟨⟨⟨hown, h.kept, fun h => nomatch h⟩, fun _ h => absurd h List.not_mem_nil, hhalves,
        hgiven⟩, hbuffer⟩, h.nick⟩, fun _ h => absurd h List.not_mem_nil⟩
  | false =>
    have hbuffer := bufferTerms_iff hm hlist hhigh
    have hmatched : (∀ term ∈ if o.matched = true then [highlighted] else [], term m = true) ↔
        (o.matched = true → highlighted m = true) := by
      cases o.matched <;> simp
    have hplan : (plan toLower db userId o).matched = o.matched := rfl
    have hcursor : (∀ term ∈ [(plan toLower db userId o).beforeCursor], term m = true) ↔
        (plan toLower db userId o).beforeCursor m = true := by simp
    simp only [hplan, Bool.not_false, Bool.and_true, Bool.false_eq_true, if_false, Bool.or_false,
      hmatched, hbuffer, hcursor]
    cases htext : (plan toLower db userId o).hasText with
    | true =>
      simp only [if_true, hnetwork]
      constructor
      · rintro ⟨⟨⟨⟨⟨hown, hkept, hfts⟩, hhighlight, hgiven⟩, htarget⟩, hnicks⟩, hbefore⟩
        exact ⟨hkept, hnet.mpr ⟨hown, hgiven⟩, fun _ => hfts trivial, fun h => (htarget h).2, hnicks,
          hhighlight, hbefore⟩
      · intro h
        obtain ⟨hown, hgiven⟩ := hnet.mp h.net
        exact ⟨⟨⟨⟨⟨hown, h.kept, fun _ => h.text htext⟩, h.matched, hgiven⟩,
          fun htarget => ⟨h.net, h.target htarget⟩⟩, h.nick⟩, h.cursor⟩
    | false =>
      have hno : ¬ (plan toLower db userId o).hasText = true := by
        rw [htext]
        exact Bool.false_ne_true
      simp only [Bool.false_eq_true, if_false]
      cases hids : (plan toLower db userId o).bufferIds with
      | none =>
        have htarget := bufferIds_none hids
        simp only [Option.isNone_none, if_true, hnetwork]
        constructor
        · rintro ⟨⟨⟨⟨⟨hown, hkept, -⟩, hhighlight, hgiven⟩, -⟩, hnicks⟩, hbefore⟩
          exact ⟨hkept, hnet.mpr ⟨hown, hgiven⟩, fun h => absurd h hno,
            fun h => absurd htarget h, hnicks, hhighlight, hbefore⟩
        · intro h
          obtain ⟨hown, hgiven⟩ := hnet.mp h.net
          exact ⟨⟨⟨⟨⟨hown, h.kept, fun h => nomatch h⟩, h.matched, hgiven⟩,
            fun h => absurd htarget h⟩, h.nick⟩, h.cursor⟩
      | some ids =>
        obtain ⟨htarget, -⟩ := bufferIds_mem hids hm
        simp only [Option.isNone_some, Bool.false_eq_true, if_false]
        constructor
        · rintro ⟨⟨⟨⟨⟨-, hkept, -⟩, hhighlight, -⟩, hin⟩, hnicks⟩, hbefore⟩
          exact ⟨hkept, (hin htarget).1, fun h => absurd h hno,
            fun _ => (hin htarget).2, hnicks, hhighlight, hbefore⟩
        · intro h
          obtain ⟨hown, -⟩ := hnet.mp h.net
          exact ⟨⟨⟨⟨⟨hown, h.kept, fun h => nomatch h⟩, h.matched,
            fun _ h => absurd h List.not_mem_nil⟩, fun htarget => ⟨h.net, h.target htarget⟩⟩,
            h.nick⟩, h.cursor⟩

/-- The buffer that a network's halves are bound to. -/
def heldBy (p : Plan) (net : ℕ+) : Option Nat := (p.bufferByNet.find? fun e => e.1 = net).map (·.2)

/-- What the half of a network and a sender selects. -/
def senderHalf (p : Plan) (net : ℕ+) (sender : Str) : MessageRow → Bool :=
  Database.halfRows (fun h => h.networkId = net && nickIs sender h &&
    (heldBy p net).all fun id => h.bufferId = id) p.before

def senderHalves (p : Plan) : List (MessageRow → Bool) :=
  p.nets.flatMap fun net =>
    if p.target ≠ [] && (heldBy p net).isNone then [] else p.senders.map (senderHalf p net)

theorem nickHalves_mem (hm : m ∈ db.messages) (p : Plan) :
    idInHalves (p.nickHalves db) m = true ↔
      ∃ half ∈ senderHalves p, m ∈ (db.messages.reverse.filter half).take p.limit := by
  rw [idInHalves, List.any_eq_true]
  constructor
  · rintro ⟨ids, hids, hin⟩
    obtain ⟨net, hnet, hids⟩ := List.mem_flatMap.mp hids
    dsimp only at hids
    split at hids
    · cases hids
    · rename_i hheld
      obtain ⟨sender, hsender, rfl⟩ := List.mem_map.mp hids
      refine ⟨senderHalf p net sender, List.mem_flatMap.mpr ⟨net, hnet, ?_⟩,
        (Database.pagedHalf_mem hm).mp hin⟩
      exact (if_neg hheld).symm ▸ List.mem_map_of_mem hsender
  · rintro ⟨half, hhalf, hin⟩
    obtain ⟨net, hnet, hhalf⟩ := List.mem_flatMap.mp hhalf
    split at hhalf
    · cases hhalf
    · rename_i hheld
      obtain ⟨sender, hsender, rfl⟩ := List.mem_map.mp hhalf
      refine ⟨_, List.mem_flatMap.mpr ⟨net, hnet, ?_⟩, (Database.pagedHalf_mem hm).mpr hin⟩
      exact (if_neg hheld).symm ▸ List.mem_map_of_mem hsender

theorem heldBy_eq {net : ℕ+} (htarget : o.target ≠ [])
    (hnet : net ∈ (plan toLower db userId o).nets) :
    heldBy (plan toLower db userId o) net = db.resolveBuffer toLower userId net o.target := by
  have hlist : (plan toLower db userId o).bufferByNet =
      (plan toLower db userId o).nets.filterMap fun net =>
        (db.resolveBuffer toLower userId net o.target).map (net, ·) := if_pos htarget
  rw [heldBy, hlist]
  exact held_eq hnet

theorem heldBy_none {net : ℕ+} (htarget : o.target = []) :
    heldBy (plan toLower db userId o) net = none := by
  have hlist : (plan toLower db userId o).bufferByNet = [] := if_neg (not_not.mpr htarget)
  rw [heldBy, hlist]
  rfl

/-- The newest rows that meet what the search is about. -/
def page (toLower : Str → Str) (db : Database) (userId : Nat) (ftsMatch : Text → MessageRow → Bool)
    (o : SearchMessagesOptions) : List MessageRow :=
  (db.messages.reverse.filter fun m => admits toLower db userId ftsMatch o m &&
    (given o.before).all fun id => m.id < id).take o.limit

theorem page_eq : page toLower db userId ftsMatch o = plainAnswer toLower db userId ftsMatch o := by
  rw [page, plainAnswer, matching, ← List.filter_reverse, List.filter_filter]
  refine congrArg (List.take o.limit) (List.filter_congr fun m _ => Bool.and_comm ..)

/-- With halves the page is the same. -/
theorem bounded_page {halves : List (MessageRow → Bool)} {listed : MessageRow → Bool}
    (hlisted : ∀ m ∈ db.messages, (listed m = true ↔
      ∃ half ∈ halves, m ∈ (db.messages.reverse.filter half).take o.limit))
    (hsub : ∀ half ∈ halves, ∀ m ∈ db.messages, half m = true → Meets toLower db userId ftsMatch o m)
    (hterms : ∀ m ∈ db.messages, Meets toLower db userId ftsMatch o m →
      (∃ half ∈ halves, half m = true) ∧
        (listed m = true → ∀ term ∈ allTerms toLower db userId ftsMatch o, term m = true))
    (hdriven : ∀ m ∈ db.messages, (∀ term ∈ allTerms toLower db userId ftsMatch o, term m = true) →
      listed m = true) :
    (db.messages.filter fun m => (allTerms toLower db userId ftsMatch o).all fun term =>
      term m).reverse.take o.limit = page toLower db userId ftsMatch o := by
  have hpage := @page_of_halves MessageRow db.messages.reverse o.limit
    (fun m => admits toLower db userId ftsMatch o m && (given o.before).all fun id => m.id < id)
    (fun m => admits toLower db userId ftsMatch o m && (given o.before).all fun id => m.id < id)
    listed halves
    (fun half hhalf m hm h => meets_iff.mp (hsub half hhalf m (List.mem_reverse.mp hm) h))
    (fun m hm h => ⟨h, (hterms m (List.mem_reverse.mp hm) (meets_iff.mpr h)).1⟩)
    (fun m hm => hlisted m (List.mem_reverse.mp hm))
  rw [page, ← hpage, ← List.filter_reverse]
  refine congrArg (List.take o.limit) (List.filter_congr fun m hm => ?_)
  have hm := List.mem_reverse.mp hm
  rw [Bool.eq_iff_iff, List.all_eq_true, Bool.and_eq_true, ← meets_iff]
  constructor
  · intro h
    have hin := hdriven m hm h
    obtain ⟨half, hhalf, hrow⟩ := (hlisted m hm).mp hin
    exact ⟨hsub half hhalf m hm (List.mem_filter.mp (List.mem_of_mem_take hrow)).2, hin⟩
  · rintro ⟨hmeets, hin⟩
    exact (hterms m hm hmeets).2 hin

/-- A sender of the list is what the plain check of the nick asks for. -/
theorem senders_iff (hfiltered : (plan toLower db userId o).nickFiltered = true) :
    (∃ sender ∈ (plan toLower db userId o).senders, nickIs sender m = true) ↔
      ∀ term ∈ (plan toLower db userId o).nickTerms, term m = true := by
  rw [Plan.nickFiltered, Bool.or_eq_true, Bool.not_eq_true', decide_eq_true_iff] at hfiltered
  rw [Plan.senders, Plan.nickTerms]
  cases hlist : (plan toLower db userId o).nickList.isEmpty with
  | false => simp
  | true =>
    have hnick := hfiltered.resolve_left (by rw [hlist]; exact Bool.noConfusion)
    simp [hnick]

theorem senderHalf_iff {p : Plan} {net : ℕ+} {sender : Str} : senderHalf p net sender m = true ↔
    (m.networkId = net ∧ nickIs sender m = true ∧
      (heldBy p net).all (fun id => m.bufferId = id) = true) ∧
      searchRowFilters m = true ∧ p.beforeCursor m = true := by
  simp only [senderHalf, Database.halfRows, Plan.beforeCursor, Bool.and_eq_true, decide_eq_true_iff,
    and_assoc]

/-- The path of the senders. -/
theorem nick_page (hnick : (plan toLower db userId o).nickDriven = true) :
    (db.messages.filter fun m => (allTerms toLower db userId ftsMatch o).all fun term =>
      term m).reverse.take o.limit = page toLower db userId ftsMatch o := by
  have hdriver := hnick
  rw [Plan.nickDriven, Bool.and_eq_true, Bool.and_eq_true, Bool.not_eq_true', Bool.not_eq_true'] at hdriver
  obtain ⟨⟨hfiltered, htext⟩, hhigh⟩ := hdriver
  have hno : ¬ (plan toLower db userId o).hasText = true := by
    rw [htext]
    exact Bool.false_ne_true
  have hmatched : o.matched = false := by
    rw [Plan.highlightDriven, htext, Bool.not_false, Bool.and_true] at hhigh
    exact hhigh
  have hmany : (plan toLower db userId o).bufferIds.any (plan toLower db userId o).manyBuffers = false := by
    have hbuffer : (plan toLower db userId o).bufferDriven = false := by
      rw [Plan.bufferDriven, hfiltered]
      simp
    cases (plan toLower db userId o).bufferIds <;> simp [Plan.manyBuffers, hbuffer]
  have hlisted (m : MessageRow) :
      (if ((plan toLower db userId o).nickHalves db).isEmpty then fun _ => false
        else idInHalves ((plan toLower db userId o).nickHalves db)) m =
        idInHalves ((plan toLower db userId o).nickHalves db) m := by
    cases (plan toLower db userId o).nickHalves db <;> rfl
  have hall {m : MessageRow} (hm : m ∈ db.messages) :
      (∀ term ∈ allTerms toLower db userId ftsMatch o, term m = true) ↔
        (((db.ownedBy userId m = true ∧ searchRowFilters m = true) ∧
          idInHalves ((plan toLower db userId o).nickHalves db) m = true) ∧
            (o.target ≠ [] → inTarget toLower db userId o m)) ∧
          ∀ term ∈ (plan toLower db userId o).nickTerms, term m = true := by
    have hfixed := @fixedTerms_iff toLower db userId ftsMatch o m
    have hdriver : (plan toLower db userId o).driverTerms db userId =
        [if ((plan toLower db userId o).nickHalves db).isEmpty then fun _ => false
          else idInHalves ((plan toLower db userId o).nickHalves db)] := by
      have hplan : (plan toLower db userId o).matched = false := hmatched
      rw [Plan.driverTerms, hhigh, htext, hnick, hplan]
      rfl
    have hcursor : (plan toLower db userId o).cursorTerms = [] := by
      rw [Plan.cursorTerms, hnick, Bool.or_true, Bool.true_or]
      rfl
    rw [allTerms, List.forall_mem_append, List.forall_mem_append, List.forall_mem_append,
      List.forall_mem_append, hfixed, bufferTerms_iff hm hmany hhigh, hdriver, hcursor,
      List.forall_mem_singleton, hlisted]
    simp [htext]
  refine bounded_page (fun m hm => nickHalves_mem hm (plan toLower db userId o)) ?_ ?_
    fun m hm h => ((hall hm).mp h).1.1.2
  · intro half hhalf m hm hselects
    obtain ⟨net, hnet, hhalf⟩ := List.mem_flatMap.mp hhalf
    split at hhalf
    · cases hhalf
    · rename_i hheld
      obtain ⟨sender, hsender, rfl⟩ := List.mem_map.mp hhalf
      obtain ⟨⟨rfl, hnicked, hbuffer⟩, hkept, hcursor⟩ := senderHalf_iff.mp hselects
      refine ⟨hkept, hnet, fun h => absurd h hno, fun htarget => ?_,
        (senders_iff hfiltered).mp ⟨sender, hsender, hnicked⟩, fun h => ?_, hcursor⟩
      · rw [heldBy_eq htarget hnet] at hheld hbuffer
        cases hresolve : db.resolveBuffer toLower userId m.networkId o.target with
        | none =>
          rw [hresolve] at hheld
          have hplan : (plan toLower db userId o).target ≠ [] := htarget
          exact absurd (by simpa using hplan) hheld
        | some id =>
          rw [hresolve] at hbuffer
          rw [of_decide_eq_true hbuffer]
      · rw [hmatched] at h
        cases h
  · intro m hm h
    constructor
    · obtain ⟨sender, hsender, hnicked⟩ := (senders_iff hfiltered).mpr h.nick
      refine ⟨senderHalf (plan toLower db userId o) m.networkId sender,
        List.mem_flatMap.mpr ⟨m.networkId, h.net, ?_⟩,
        senderHalf_iff.mpr ⟨⟨rfl, hnicked, ?_⟩, h.kept, h.cursor⟩⟩
      · have hheld : ¬ (decide ((plan toLower db userId o).target ≠ []) &&
            (heldBy (plan toLower db userId o) m.networkId).isNone) = true := by
          rw [Bool.and_eq_true, decide_eq_true_iff]
          rintro ⟨htarget, hnone⟩
          rw [heldBy_eq htarget h.net, h.target htarget] at hnone
          cases hnone
        rw [if_neg hheld]
        exact List.mem_map_of_mem hsender
      · by_cases htarget : o.target = []
        · rw [heldBy_none htarget]
          rfl
        · rw [heldBy_eq htarget h.net, h.target htarget]
          exact decide_eq_true rfl
    · intro hin
      exact (hall hm).mpr ⟨⟨⟨⟨(net_iff.mp h.net).1, h.kept⟩, hin⟩,
        fun htarget => ⟨h.net, h.target htarget⟩⟩, h.nick⟩

/-- The path of several buffers. -/
theorem buffers_page {ids : List Nat} (hids : (plan toLower db userId o).bufferIds = some ids)
    (hmany : (plan toLower db userId o).manyBuffers ids = true) :
    (db.messages.filter fun m => (allTerms toLower db userId ftsMatch o).all fun term =>
      term m).reverse.take o.limit = page toLower db userId ftsMatch o := by
  have hdriver := hmany
  rw [Plan.manyBuffers, Plan.bufferDriven, Bool.and_eq_true, Bool.and_eq_true, Bool.and_eq_true,
    Bool.and_eq_true, Bool.not_eq_true', Bool.not_eq_true', Bool.not_eq_true'] at hdriver
  obtain ⟨⟨⟨⟨-, htext⟩, hfiltered⟩, hhigh⟩, hlen⟩ := hdriver
  have hno : ¬ (plan toLower db userId o).hasText = true := by
    rw [htext]
    exact Bool.false_ne_true
  have hmatched : o.matched = false := by
    rw [Plan.highlightDriven, htext, Bool.not_false, Bool.and_true] at hhigh
    exact hhigh
  have hnone : (plan toLower db userId o).nickTerms = [] := by
    rw [Plan.nickFiltered, Bool.or_eq_false_iff, Bool.not_eq_false', decide_eq_false_iff_not] at hfiltered
    rw [Plan.nickTerms, hfiltered.1, if_neg hfiltered.2]
    rfl
  have hnick : (plan toLower db userId o).nickDriven = false := by
    rw [Plan.nickDriven, hfiltered, Bool.false_and, Bool.false_and]
  have hne : ids.isEmpty = false := by
    cases ids with
    | nil => simp at hlen
    | cons id ids => rfl
  let half (id : Nat) : MessageRow → Bool :=
    Database.halfRows (fun h => h.bufferId = id) (plan toLower db userId o).before
  let listed : MessageRow → Bool := idInHalves (ids.map fun id =>
    db.pagedHalf (fun h => h.bufferId = id) (plan toLower db userId o).before
      (plan toLower db userId o).limit)
  have hlisted : ∀ m ∈ db.messages, (listed m = true ↔ ∃ h ∈ ids.map half,
      m ∈ (db.messages.reverse.filter h).take o.limit) := by
    intro m hm
    change (List.any (ids.map _) _ = true) ↔ _
    rw [List.any_map, List.any_eq_true]
    constructor
    · rintro ⟨id, hid, hin⟩
      exact ⟨half id, List.mem_map_of_mem hid, (Database.pagedHalf_mem hm).mp hin⟩
    · rintro ⟨h, hh, hin⟩
      obtain ⟨id, hid, rfl⟩ := List.mem_map.mp hh
      exact ⟨id, hid, (Database.pagedHalf_mem hm).mpr hin⟩
  have hall {m : MessageRow} :
      (∀ term ∈ allTerms toLower db userId ftsMatch o, term m = true) ↔
        (db.ownedBy userId m = true ∧ searchRowFilters m = true) ∧ listed m = true := by
    have hfixed := @fixedTerms_iff toLower db userId ftsMatch o m
    have hdriver : (plan toLower db userId o).driverTerms db userId = [] := by
      have hplan : (plan toLower db userId o).matched = false := hmatched
      rw [Plan.driverTerms, hhigh, htext, hnick, hplan, hids]
      rfl
    have hbuffer : (plan toLower db userId o).bufferTerms db = [listed] := by
      rw [Plan.bufferTerms, hids]
      dsimp only
      rw [hne, hmany]
      rfl
    have hcursor : (plan toLower db userId o).cursorTerms = [] := by
      rw [Plan.cursorTerms, hids]
      simp [hmany]
    rw [allTerms, List.forall_mem_append, List.forall_mem_append, List.forall_mem_append,
      List.forall_mem_append, hfixed, hdriver, hbuffer, hcursor, hnone, List.forall_mem_singleton]
    simp [htext]
  have hhalf {m : MessageRow} {id : Nat} : half id m = true ↔
      (m.bufferId = id ∧ searchRowFilters m = true) ∧
        (plan toLower db userId o).beforeCursor m = true := by
    simp only [half, Database.halfRows, Plan.beforeCursor, Bool.and_eq_true, decide_eq_true_iff]
  refine bounded_page hlisted ?_ ?_ fun m _ h => (hall.mp h).2
  · intro h hh m hm hselects
    obtain ⟨id, hid, rfl⟩ := List.mem_map.mp hh
    obtain ⟨⟨rfl, hkept⟩, hcursor⟩ := hhalf.mp hselects
    obtain ⟨-, hin⟩ := bufferIds_mem hids hm
    refine ⟨hkept, (hin.mp hid).1, fun h => absurd h hno, fun _ => (hin.mp hid).2, ?_, fun h => ?_,
      hcursor⟩
    · rw [hnone]
      exact fun _ h => absurd h List.not_mem_nil
    · rw [hmatched] at h
      cases h
  · intro m hm h
    obtain ⟨htarget, hin⟩ := bufferIds_mem hids hm
    refine ⟨⟨half m.bufferId, List.mem_map_of_mem (hin.mpr ⟨h.net, h.target htarget⟩), ?_⟩, ?_⟩
    · exact hhalf.mpr ⟨⟨rfl, h.kept⟩, h.cursor⟩
    · exact fun hpage => hall.mpr ⟨⟨(net_iff.mp h.net).1, h.kept⟩, hpage⟩

/-- Whatever drives it, a search with a filter returns the plain answer. -/
theorem searchMessages_eq : searchMessages toLower db userId ftsMatch o =
    if asksNothing o then [] else plainAnswer toLower db userId ftsMatch o := by
  rw [searchMessages, searchMessagesSql_eq]
  cases asksNothing o with
  | true => rfl
  | false =>
    rw [if_neg Bool.false_ne_true, if_neg Bool.false_ne_true, ← page_eq]
    dsimp only
    cases hnick : (plan toLower db userId o).nickDriven with
    | true => exact nick_page hnick
    | false =>
      cases hmany : (plan toLower db userId o).bufferIds.any (plan toLower db userId o).manyBuffers with
      | true =>
        cases hids : (plan toLower db userId o).bufferIds with
        | none =>
          rw [hids] at hmany
          cases hmany
        | some ids =>
          rw [hids] at hmany
          exact buffers_page hids hmany
      | false =>
        rw [page, ← List.filter_reverse]
        refine congrArg (List.take o.limit) (List.filter_congr fun m hm => ?_)
        rw [Bool.eq_iff_iff, List.all_eq_true, ← meets_iff]
        exact unbounded_path (List.mem_reverse.mp hm) hnick hmany

end Paths

/-- The page before a row, the newest page where there is none. -/
def askBefore (toLower : Str → Str) (db : Database) (userId : Nat)
    (ftsMatch : Text → MessageRow → Bool) (o : SearchMessagesOptions) (limit : ℕ+)
    (before : Option ℕ+ᵒᵈ) : List MessageRow :=
  searchMessages toLower db userId ftsMatch
    { o with before := before.map fun id => (ofDual id).val, limit := limit }

/-- Where the next page starts from: the oldest row of this one. -/
def oldest (rows : List MessageRow) : Option ℕ+ᵒᵈ := rows.getLast?.map fun m => toDual m.id

variable {toLower} {db} {userId} {ftsMatch} {o : SearchMessagesOptions}

/-- All rows the pages are to hold. -/
def searched (toLower : Str → Str) (db : Database) (userId : Nat)
    (ftsMatch : Text → MessageRow → Bool) (o : SearchMessagesOptions) : List MessageRow :=
  if asksNothing o then [] else matching toLower db userId ftsMatch o

theorem searched_sorted : (searched toLower db userId ftsMatch o).Pairwise
    fun m m' => toDual m.id < toDual m'.id := by
  rw [searched]
  split
  · exact List.Pairwise.nil
  · exact List.pairwise_reverse.mpr (db.ascends.sublist List.filter_sublist)

theorem askBefore_eq (limit : ℕ+) (before : Option ℕ+ᵒᵈ) :
    askBefore toLower db userId ftsMatch o limit before =
      (Pages.past (fun m : MessageRow => toDual m.id) before
        (searched toLower db userId ftsMatch o)).take limit := by
  have hgiven : given (before.map fun id => (ofDual id).val) = before.map ofDual := by
    cases before with
    | none => rfl
    | some id => exact dif_pos (ofDual id).pos
  rw [askBefore, searchMessages_eq, searched]
  change (if asksNothing o = true then [] else plainAnswer toLower db userId ftsMatch
    { o with before := before.map fun id => (ofDual id).val, limit := limit }) = _
  split
  · exact List.take_nil.symm
  · rw [plainAnswer]
    dsimp only
    rw [hgiven]
    refine congrArg (List.take _) (List.filter_congr fun m _ => ?_)
    cases before <;> rfl

theorem serves (limit : ℕ+) : Pages.Serves (fun m : MessageRow => toDual m.id)
    (fun m => toDual m.id) limit (searched toLower db userId ftsMatch o)
    (askBefore toLower db userId ftsMatch o limit) id oldest where
  pos := limit.pos
  mono := fun _ _ h => h.le
  first := fun before => by
    rw [id_eq, askBefore_eq]
    exact Pages.isFirst_take limit (searched_sorted.sublist List.filter_sublist) fun _ => Iff.rfl
  furthest := fun before hne => by
    rw [id_eq] at hne ⊢
    have hsorted : (askBefore toLower db userId ftsMatch o limit before).Pairwise
        fun m m' => toDual m.id < toDual m'.id := by
      rw [askBefore_eq]
      exact (searched_sorted.sublist List.filter_sublist).sublist (List.take_sublist _ _)
    obtain ⟨front, last, hrows⟩ := List.eq_nil_or_concat'  _ |>.resolve_left hne
    rw [hrows] at hsorted ⊢
    refine ⟨last, List.mem_append_right _ List.mem_cons_self, ?_, fun m hm => ?_⟩
    · rw [oldest, List.getLast?_append, List.getLast?_singleton]
      rfl
    · rcases List.mem_append.mp hm with hm | hm
      · exact ((List.pairwise_append.mp hsorted).2.2 m hm last List.mem_cons_self).le
      · rw [List.mem_singleton.mp hm]

/-- Whatever drives it, a search returns the newest rows that meet its filters and lie below
its cursor, and nothing when it has no filter at all; and following the cursor from there
enumerates all such rows, each once, newest first. -/
theorem every_path_plain (toLower : Str → Str) (db : Database) (userId : Nat)
    (ftsMatch : Text → MessageRow → Bool) (o : SearchMessagesOptions) :
    searchMessages toLower db userId ftsMatch o =
        (if asksNothing o then [] else plainAnswer toLower db userId ftsMatch o) ∧
      ∀ limit : ℕ+, ∃ fuel pages,
        Pages.readPages (askBefore toLower db userId ftsMatch o limit) List.length oldest limit fuel
            ((given o.before).map toDual) = some pages ∧
          pages.flatten = (searched toLower db userId ftsMatch o).filter fun m =>
            (given o.before).all fun id => m.id < id := by
  refine ⟨searchMessages_eq, fun limit => ?_⟩
  obtain ⟨pages, hpages⟩ := Pages.readPages_total (serves limit)
    (Nat.lt_succ_self (Pages.past (fun m : MessageRow => toDual m.id)
      ((given o.before).map toDual) (searched toLower db userId ftsMatch o)).length)
  refine ⟨_, pages, hpages, ?_⟩
  have hflat := Pages.readPages_flatMap (serves limit) searched_sorted hpages
  rw [List.flatMap_id] at hflat
  rw [hflat, Pages.past]
  refine List.filter_congr fun m _ => ?_
  cases given o.before <;> rfl

def oneMessage : Database where
  networks := [⟨1, 7, none⟩]
  buffers := [⟨3, 7, some 1, "#lean".toList⟩]
  messages := [⟨1, 1, 3, .message, some "ann".toList, false, false, none, false⟩]
  networkIds := by decide
  bufferIds := by decide
  ascends := List.pairwise_singleton _ _
  owned := by
    intro b hb n hn _
    rw [List.mem_singleton.mp hb, List.mem_singleton.mp hn]
  placed := by
    intro m hm
    rw [List.mem_singleton.mp hm]
    exact ⟨_, List.mem_cons_self, rfl, _, List.mem_cons_self, rfl, rfl⟩

def noFilter : SearchMessagesOptions := ⟨[], none, [], [], [], false, none, 50⟩

/-- A search with no filter returns nothing, where every row meets its filters. -/
theorem no_filter_nothing :
    searchMessages id oneMessage 7 (fun _ _ => true) noFilter ≠
      plainAnswer id oneMessage 7 (fun _ _ => true) noFilter := by
  have hplain : (plainAnswer id oneMessage 7 (fun _ _ => true) noFilter).length = 1 := by decide
  have hnone : (searchMessages id oneMessage 7 (fun _ _ => true) noFilter).length = 0 := by decide
  intro h
  rw [h, hplain] at hnone
  cases hnone

end Lurker.Db.Search
