import Lurker.Db.Absorb
import Lurker.Lib.Ranks
import Lurker.Lib.Run

/-!
# Collecting closed buffers

A pass lists a user's buffers that have been closed for long enough, drains each in batches
and then deletes its row. Between two of its statements anything may happen: buffers are
closed, opened and closed again, messages come in, bookmarks come and go, settings change.
Every statement looks at the state again for itself.
-/

namespace Lurker.Db.ClosedBufferGc

structure Buffer where
  id : Nat
  user : Nat
  kind : BufferKind
  isOpen : Bool
  closedAt : Option Nat
  autojoin : Bool
  deriving DecidableEq

/-- A message, and the user that its network belongs to. -/
structure Message where
  id : Nat
  buffer : Nat
  user : Nat
  deriving DecidableEq

/-- What the loop over a listing carries. -/
structure Listing where
  user : Nat
  rest : List Nat
  /-- The listing was at its limit. -/
  full : Bool

/-- Where the pass is. -/
inductive Place
  | idle
  | listing (user : Nat)
  | next (l : Listing)
  /-- Before a batch, and the days that were read for the buffer. -/
  | drain (l : Listing) (buffer days : Nat)
  | remove (l : Listing) (buffer days : Nat)

structure Gc where
  /-- In milliseconds. -/
  now : Nat
  /-- `effectiveClosedBufferDays` of each user; 0 is never. -/
  days : Nat → Nat
  buffers : List Buffer
  /-- Ids are not used again. -/
  nextBuffer : Nat
  messages : List Message
  nextMessage : Nat
  /-- Users and messages. -/
  bookmarks : List (Nat × Nat)
  place : Place

def gcListLimit : Nat := 50
def msPerDay : Nat := 86400000

/-- `julianday(closed_at) < julianday('now') - days` -/
def Buffer.gcAge (b : Buffer) (now days : Nat) : Bool :=
  b.closedAt.any fun closedAt => closedAt + days * msPerDay < now

def isPseudo (kind : BufferKind) : Bool := kind = .server || kind = .system

namespace Gc

def holdsBookmark (s : Gc) (user buffer : Nat) : Bool :=
  s.messages.any fun m => m.buffer = buffer && (user, m.id) ∈ s.bookmarks

/-- What the listing selects from, before its limit. -/
def gcEligible (s : Gc) (user days : Nat) : List Nat :=
  (s.buffers.filter fun b =>
    b.user = user && !b.isOpen && b.closedAt.isSome && !isPseudo b.kind && !b.autojoin &&
      b.gcAge s.now days && !s.holdsBookmark user b.id).map Buffer.id

/-- What a batch selects from, before its limit. -/
def drainable (s : Gc) (user buffer days : Nat) : List Nat :=
  (s.messages.filter fun m =>
    m.buffer = buffer &&
      (s.buffers.any fun b => b.id = m.buffer && !b.isOpen && b.gcAge s.now days) &&
      (user, m.id) ∉ s.bookmarks).map Message.id

/-- Bookmarks go with their messages. -/
def deleteMessages (s : Gc) (ids : List Nat) : Gc :=
  { s with
    messages := s.messages.filter fun m => m.id ∉ ids
    bookmarks := s.bookmarks.filter fun k => k.2 ∉ ids }

/-- Messages go with their buffer. -/
def deleteBuffer (s : Gc) (id : Nat) : Gc :=
  { s.deleteMessages ((s.messages.filter fun m => m.buffer = id).map Message.id) with
    buffers := s.buffers.filter fun b => b.id ≠ id }

/-- Refuses when the buffer was opened, closed too recently, or still holds rows. -/
def gcDeleteClosedBuffer (s : Gc) (user buffer days : Nat) : Gc :=
  if s.buffers.any fun b => b.id = buffer && b.user = user && !b.isOpen && b.gcAge s.now days &&
      s.messages.all (·.buffer ≠ buffer) then
    s.deleteBuffer buffer
  else s

def updateBuffer (s : Gc) (id : Nat) (f : Buffer → Buffer) : Gc :=
  { s with buffers := s.buffers.map fun b => if b.id = id then f b else b }

/-- `datetime('now')` has whole seconds. -/
def stamp (now : Nat) : Nat := now / 1000 * 1000

end Gc

inductive Event
  | gcStep (user : Nat)
  /-- The listing, and what the database picks. -/
  | list (picked : List Nat)
  | next
  /-- A batch of so many rows, what the database picks, and whether the budget is spent. -/
  | drain (rows : Nat) (picked : List Nat) (outOfBudget : Bool)
  | remove (outOfBudget : Bool)
  /-- A statement throws, or the process ends. -/
  | abandon
  | elapse (ms : Nat)
  | setDays (user days : Nat)
  | create (user : Nat) (kind : BufferKind) (isOpen autojoin : Bool)
  | close (buffer : Nat)
  | reopen (buffer : Nat)
  /-- What an import does. -/
  | setClosedAt (buffer closedAt : Nat)
  | setAutojoin (buffer : Nat) (autojoin : Bool)
  | insert (buffer : Nat)
  | addBookmark (user message : Nat)
  | removeBookmark (user message : Nat)

namespace Gc

/-- The end of the loop over a listing. -/
def afterListing (l : Listing) : Place := if l.full then .listing l.user else .idle

def step (s : Gc) : Event → Gc
  | .gcStep user =>
    match s.place with
    | .idle => { s with place := .listing user }
    | _ => s
  | .list picked =>
    match s.place with
    | .listing user =>
      if s.days user = 0 then { s with place := .idle }
      else if Limit.Picks (s.gcEligible user (s.days user)) gcListLimit picked then
        if picked = [] then { s with place := .idle }
        else { s with place := .next ⟨user, picked, picked.length = gcListLimit⟩ }
      else s
    | _ => s
  | .next =>
    match s.place with
    | .next l =>
      match l.rest with
      | [] => { s with place := afterListing l }
      | buffer :: rest =>
        if s.days l.user = 0 then { s with place := .idle }
        else { s with place := .drain { l with rest } buffer (s.days l.user) }
    | _ => s
  | .drain rows picked outOfBudget =>
    match s.place with
    | .drain l buffer days =>
      if Limit.Picks (s.drainable l.user buffer days) rows picked then
        { s.deleteMessages picked with
          place :=
            if picked.length < rows then .remove l buffer days
            else if outOfBudget then .idle
            else .drain l buffer days }
      else s
    | _ => s
  | .remove outOfBudget =>
    match s.place with
    | .remove l buffer days =>
      { s.gcDeleteClosedBuffer l.user buffer days with
        place := if outOfBudget then .idle else .next l }
    | _ => s
  | .abandon => { s with place := .idle }
  | .elapse ms => { s with now := s.now + ms }
  | .setDays user days => { s with days := fun u => if u = user then days else s.days u }
  | .create user kind isOpen autojoin =>
    { s with
      buffers := s.buffers ++ [⟨s.nextBuffer, user, kind, isOpen, none, autojoin⟩]
      nextBuffer := s.nextBuffer + 1 }
  | .close buffer =>
    s.updateBuffer buffer fun b =>
      if b.isOpen ∧ ¬ isPseudo b.kind then
        { b with isOpen := false, closedAt := some (stamp s.now) }
      else b
  | .reopen buffer =>
    s.updateBuffer buffer fun b => if b.isOpen then b else { b with isOpen := true, closedAt := none }
  | .setClosedAt buffer closedAt =>
    s.updateBuffer buffer fun b => { b with isOpen := false, closedAt := some closedAt }
  | .setAutojoin buffer autojoin => s.updateBuffer buffer fun b => { b with autojoin }
  | .insert buffer =>
    match s.buffers.find? fun b => b.id = buffer with
    | some b =>
      { s with
        messages := s.messages ++ [⟨s.nextMessage, buffer, b.user⟩]
        nextMessage := s.nextMessage + 1 }
    | none => s
  | .addBookmark user message =>
    -- the message has to be on a network of the user's
    if (s.messages.any fun m => m.id = message && m.user = user) ∧ (user, message) ∉ s.bookmarks then
      { s with bookmarks := s.bookmarks ++ [(user, message)] }
    else s
  | .removeBookmark user message =>
    { s with bookmarks := s.bookmarks.filter (· ≠ (user, message)) }

def start : Gc where
  now := 0
  days := fun _ => 0
  buffers := []
  nextBuffer := 1
  messages := []
  nextMessage := 1
  bookmarks := []
  place := .idle

/-- Closed, and for longer than so many days. -/
def ClosedFor (s : Gc) (b : Buffer) (days : Nat) : Prop :=
  b.isOpen = false ∧ ∃ closedAt, b.closedAt = some closedAt ∧ closedAt + days * msPerDay < s.now

/-- A message that a batch may delete: its owner has not bookmarked it. -/
def MayDrain (s : Gc) (m : Message) (days : Nat) : Prop :=
  ∃ b ∈ s.buffers, b.id = m.buffer ∧ s.ClosedFor b days ∧ (b.user, m.id) ∉ s.bookmarks

/-- A buffer that may be deleted. -/
structure MayRemove (s : Gc) (b : Buffer) (days : Nat) : Prop where
  closed : s.ClosedFor b days
  kind : b.kind = .channel ∨ b.kind = .dm ∨ b.kind = .dcc
  empty : ∀ m ∈ s.messages, m.buffer ≠ b.id

/-- What an event destroys: a message only by a batch that may, a buffer only by a row delete
that may, and a bookmark only when the user removes it. -/
structure DestroysOnly (s : Gc) (e : Event) : Prop where
  messages : ∀ m ∈ s.messages, m ∉ (s.step e).messages →
    ∃ l days, s.place = .drain l m.buffer days ∧ s.MayDrain m days
  buffers : ∀ b ∈ s.buffers, (∀ b' ∈ (s.step e).buffers, b'.id ≠ b.id) →
    ∃ l days, s.place = .remove l b.id days ∧ s.MayRemove b days
  bookmarks : ∀ k ∈ s.bookmarks, k ∉ (s.step e).bookmarks → e = .removeBookmark k.1 k.2

end Gc

/-- The buffers that the pass is at or will come to. -/
def Place.buffers : Place → List Nat
  | .idle | .listing _ => []
  | .next l => l.rest
  | .drain l buffer _ | .remove l buffer _ => buffer :: l.rest

def Place.user? : Place → Option Nat
  | .idle => none
  | .listing user => some user
  | .next l | .drain l _ _ | .remove l _ _ => some l.user

namespace Gc

/-- A buffer of an id is the user's, and no pseudo-buffer. -/
def Collectable (s : Gc) (user id : Nat) : Prop :=
  id < s.nextBuffer ∧ ∀ b ∈ s.buffers, b.id = id → b.user = user ∧ isPseudo b.kind = false

structure Inv (s : Gc) : Prop where
  bufferIds : (s.buffers.map Buffer.id).Nodup
  bufferFresh : ∀ b ∈ s.buffers, b.id < s.nextBuffer
  messageIds : (s.messages.map Message.id).Nodup
  messageFresh : ∀ m ∈ s.messages, m.id < s.nextMessage
  owned : ∀ m ∈ s.messages, ∃ b ∈ s.buffers, b.id = m.buffer ∧ b.user = m.user
  saved : ∀ k ∈ s.bookmarks, ∃ m ∈ s.messages, m.id = k.2 ∧ m.user = k.1
  collectable : ∀ user, s.place.user? = some user → ∀ id ∈ s.place.buffers, s.Collectable user id

section Lemmas

variable {s : Gc}

theorem gcAge_iff {b : Buffer} {now days : Nat} : b.gcAge now days = true ↔
    ∃ closedAt, b.closedAt = some closedAt ∧ closedAt + days * msPerDay < now := by
  rw [Buffer.gcAge, Option.any_eq_true]
  simp only [decide_eq_true_eq]

theorem mem_gcEligible {user days id : Nat} : id ∈ s.gcEligible user days ↔
    ∃ b ∈ s.buffers, b.id = id ∧ b.user = user ∧ b.isOpen = false ∧ b.closedAt.isSome = true ∧
      isPseudo b.kind = false ∧ b.autojoin = false ∧ b.gcAge s.now days = true ∧
        s.holdsBookmark user b.id = false := by
  simp only [gcEligible, List.mem_map, List.mem_filter, Bool.and_eq_true, decide_eq_true_eq,
    Bool.not_eq_true']
  constructor
  · rintro ⟨b, ⟨hb, ⟨⟨⟨⟨⟨huser, hopen⟩, hclosed⟩, hkind⟩, hautojoin⟩, hage⟩, hsaved⟩, hid⟩
    exact ⟨b, hb, hid, huser, hopen, hclosed, hkind, hautojoin, hage, hsaved⟩
  · rintro ⟨b, hb, hid, huser, hopen, hclosed, hkind, hautojoin, hage, hsaved⟩
    exact ⟨b, ⟨hb, ⟨⟨⟨⟨⟨huser, hopen⟩, hclosed⟩, hkind⟩, hautojoin⟩, hage⟩, hsaved⟩, hid⟩

theorem mem_drainable {user buffer days id : Nat} : id ∈ s.drainable user buffer days ↔
    ∃ m ∈ s.messages, m.id = id ∧ m.buffer = buffer ∧
      (∃ b ∈ s.buffers, b.id = m.buffer ∧ s.ClosedFor b days) ∧ (user, m.id) ∉ s.bookmarks := by
  simp only [drainable, List.mem_map, List.mem_filter, Bool.and_eq_true, decide_eq_true_eq,
    List.any_eq_true, Bool.not_eq_true', gcAge_iff, ClosedFor]
  constructor
  · rintro ⟨m, ⟨hm, ⟨hbuffer, b, hb, ⟨hid, hopen⟩, hage⟩, hsaved⟩, rfl⟩
    exact ⟨m, hm, rfl, hbuffer, ⟨b, hb, hid, hopen, hage⟩, hsaved⟩
  · rintro ⟨m, hm, rfl, hbuffer, ⟨b, hb, hid, hopen, hage⟩, hsaved⟩
    exact ⟨m, ⟨hm, ⟨hbuffer, b, hb, ⟨hid, hopen⟩, hage⟩, hsaved⟩, rfl⟩

theorem Inv.eq_of_id (h : Inv s) {b b' : Buffer} (hb : b ∈ s.buffers) (hb' : b' ∈ s.buffers)
    (hid : b.id = b'.id) : b = b' :=
  List.inj_on_of_nodup_map h.bufferIds hb hb' hid

theorem Inv.eq_of_messageId (h : Inv s) {m m' : Message} (hm : m ∈ s.messages)
    (hm' : m' ∈ s.messages) (hid : m.id = m'.id) : m = m' :=
  List.inj_on_of_nodup_map h.messageIds hm hm' hid

/-- Nothing that a batch picks is bookmarked by anyone. -/
theorem Inv.drain_unsaved (h : Inv s) {l : Listing} {buffer days : Nat}
    (hplace : s.place = .drain l buffer days) {k : Nat × Nat} (hk : k ∈ s.bookmarks) :
    k.2 ∉ s.drainable l.user buffer days := by
  intro hpicked
  obtain ⟨m, hm, hid, hbuffer, ⟨b, hb, hbid, -⟩, hsaved⟩ := mem_drainable.mp hpicked
  obtain ⟨m', hm', hid', huser⟩ := h.saved k hk
  obtain rfl := h.eq_of_messageId hm hm' (hid.trans hid'.symm)
  obtain ⟨b', hb', hbid', hbuser⟩ := h.owned m hm
  obtain rfl := h.eq_of_id hb hb' (hbid.trans hbid'.symm)
  have hown := (h.collectable l.user (by rw [hplace]; rfl) buffer
    (by rw [hplace]; exact List.mem_cons_self)).2 b hb (hbid.trans hbuffer)
  have hkey : k = (l.user, m.id) := Prod.ext (huser.symm.trans (hbuser.symm.trans hown.1)) hid.symm
  exact hsaved (hkey ▸ hk)

theorem Inv.place (h : Inv s) {place : Place}
    (hplace : ∀ user, place.user? = some user → ∀ id ∈ place.buffers, s.Collectable user id) :
    Inv { s with place } where
  bufferIds := h.bufferIds
  bufferFresh := h.bufferFresh
  messageIds := h.messageIds
  messageFresh := h.messageFresh
  owned := h.owned
  saved := h.saved
  collectable := hplace

theorem Inv.deleteMessages (h : Inv s) (ids : List Nat) : Inv (s.deleteMessages ids) where
  bufferIds := h.bufferIds
  bufferFresh := h.bufferFresh
  messageIds := h.messageIds.sublist (List.filter_sublist.map _)
  messageFresh m hm := h.messageFresh m (List.mem_of_mem_filter hm)
  owned m hm := h.owned m (List.mem_of_mem_filter hm)
  saved k hk := by
    obtain ⟨hk, hkept⟩ := List.mem_filter.mp hk
    obtain ⟨m, hm, hid, huser⟩ := h.saved k hk
    exact ⟨m, List.mem_filter.mpr ⟨hm, by rwa [hid]⟩, hid, huser⟩
  collectable := h.collectable

theorem Inv.deleteBuffer (h : Inv s) (id : Nat) : Inv (s.deleteBuffer id) where
  bufferIds := h.bufferIds.sublist (List.filter_sublist.map _)
  bufferFresh b hb := h.bufferFresh b (List.mem_of_mem_filter hb)
  messageIds := (h.deleteMessages _).messageIds
  messageFresh := (h.deleteMessages _).messageFresh
  owned m hm := by
    obtain ⟨hm, hkept⟩ := List.mem_filter.mp hm
    obtain ⟨b, hb, hid, huser⟩ := h.owned m hm
    refine ⟨b, List.mem_filter.mpr ⟨hb, decide_eq_true fun heq => ?_⟩, hid, huser⟩
    refine of_decide_eq_true hkept (List.mem_map.mpr ⟨m, List.mem_filter.mpr ⟨hm, ?_⟩, rfl⟩)
    exact decide_eq_true (hid.symm.trans heq)
  saved := (h.deleteMessages _).saved
  collectable user huser buffer hbuffer :=
    (h.collectable user huser buffer hbuffer).imp_right
      fun hown b hb => hown b (List.mem_of_mem_filter hb)

theorem Inv.gcDeleteClosedBuffer (h : Inv s) (user buffer days : Nat) :
    Inv (s.gcDeleteClosedBuffer user buffer days) := by
  unfold Gc.gcDeleteClosedBuffer
  split
  · exact h.deleteBuffer buffer
  · exact h

/-- An update of a row that leaves its id, its owner and its kind. -/
def Retouches (f : Buffer → Buffer) : Prop :=
  ∀ b, (f b).id = b.id ∧ (f b).user = b.user ∧ (f b).kind = b.kind

theorem mem_updateBuffer {f : Buffer → Buffer} (hf : Retouches f) {id : Nat} {b : Buffer}
    (hb : b ∈ (s.updateBuffer id f).buffers) :
    ∃ b' ∈ s.buffers, b'.id = b.id ∧ b'.user = b.user ∧ b'.kind = b.kind := by
  obtain ⟨b', hb', rfl⟩ := List.mem_map.mp hb
  refine ⟨b', hb', ?_⟩
  split
  · exact ⟨(hf b').1.symm, (hf b').2.1.symm, (hf b').2.2.symm⟩
  · exact ⟨rfl, rfl, rfl⟩

theorem updateBuffer_mem {f : Buffer → Buffer} (hf : Retouches f) (id : Nat) {b : Buffer}
    (hb : b ∈ s.buffers) :
    ∃ b' ∈ (s.updateBuffer id f).buffers, b'.id = b.id ∧ b'.user = b.user := by
  refine ⟨_, List.mem_map.mpr ⟨b, hb, rfl⟩, ?_⟩
  split
  · exact ⟨(hf b).1, (hf b).2.1⟩
  · exact ⟨rfl, rfl⟩

theorem updateBuffer_ids {f : Buffer → Buffer} (hf : Retouches f) (id : Nat) :
    (s.updateBuffer id f).buffers.map Buffer.id = s.buffers.map Buffer.id := by
  rw [updateBuffer, List.map_map]
  refine List.map_congr_left fun b _ => ?_
  by_cases hid : b.id = id
  · simp only [Function.comp_apply, if_pos hid, (hf b).1]
  · simp only [Function.comp_apply, if_neg hid]

theorem Inv.updateBuffer (h : Inv s) {f : Buffer → Buffer} (hf : Retouches f) (id : Nat) :
    Inv (s.updateBuffer id f) where
  bufferIds := by
    rw [updateBuffer_ids hf]
    exact h.bufferIds
  bufferFresh b hb := by
    obtain ⟨b', hb', hid, -, -⟩ := mem_updateBuffer hf hb
    exact hid ▸ h.bufferFresh b' hb'
  messageIds := h.messageIds
  messageFresh := h.messageFresh
  owned m hm := by
    obtain ⟨b, hb, hid, huser⟩ := h.owned m hm
    obtain ⟨b', hb', hid', huser'⟩ := updateBuffer_mem hf id hb
    exact ⟨b', hb', hid'.trans hid, huser'.trans huser⟩
  saved := h.saved
  collectable user huser buffer hbuffer := by
    obtain ⟨hlt, hown⟩ := h.collectable user huser buffer hbuffer
    refine ⟨hlt, fun b hb hbid => ?_⟩
    obtain ⟨b', hb', hid, huser', hkind⟩ := mem_updateBuffer hf hb
    obtain ⟨hown, hpseudo⟩ := hown b' hb' (hid.trans hbid)
    exact ⟨huser'.symm.trans hown, hkind ▸ hpseudo⟩

theorem Inv.create (h : Inv s) (user : Nat) (kind : BufferKind) (isOpen autojoin : Bool) :
    Inv (s.step (.create user kind isOpen autojoin)) where
  bufferIds := by
    simp only [step, List.map_append, List.map_cons, List.map_nil]
    refine List.nodup_append.mpr ⟨h.bufferIds, List.nodup_singleton _, ?_⟩
    rintro id hid _ hid' rfl
    obtain ⟨b, hb, rfl⟩ := List.mem_map.mp hid
    exact (h.bufferFresh b hb).ne (List.mem_singleton.mp hid')
  bufferFresh b hb := by
    rcases List.mem_append.mp hb with hb | hb
    · exact Nat.lt_succ_of_lt (h.bufferFresh b hb)
    · rw [List.mem_singleton.mp hb]
      exact Nat.lt_succ_self _
  messageIds := h.messageIds
  messageFresh := h.messageFresh
  owned m hm := by
    obtain ⟨b, hb, hown⟩ := h.owned m hm
    exact ⟨b, List.mem_append_left _ hb, hown⟩
  saved := h.saved
  collectable owner howner buffer hbuffer := by
    obtain ⟨hlt, hown⟩ := h.collectable owner howner buffer hbuffer
    refine ⟨Nat.lt_succ_of_lt hlt, fun b hb hbid => ?_⟩
    rcases List.mem_append.mp hb with hb | hb
    · exact hown b hb hbid
    · -- a listed id is older than the new one
      rw [List.mem_singleton.mp hb] at hbid
      exact absurd hbid.symm hlt.ne

theorem Inv.insert (h : Inv s) (buffer : Nat) : Inv (s.step (.insert buffer)) := by
  simp only [step]
  split
  case h_1 b hfound =>
    have hb : b ∈ s.buffers := List.mem_of_find?_eq_some hfound
    have hid : b.id = buffer := by simpa using List.find?_some hfound
    exact {
      bufferIds := h.bufferIds
      bufferFresh := h.bufferFresh
      messageIds := by
        simp only [List.map_append, List.map_cons, List.map_nil]
        refine List.nodup_append.mpr ⟨h.messageIds, List.nodup_singleton _, ?_⟩
        rintro id hid _ hid' rfl
        obtain ⟨m, hm, rfl⟩ := List.mem_map.mp hid
        exact (h.messageFresh m hm).ne (List.mem_singleton.mp hid')
      messageFresh := fun m hm => by
        rcases List.mem_append.mp hm with hm | hm
        · exact Nat.lt_succ_of_lt (h.messageFresh m hm)
        · rw [List.mem_singleton.mp hm]
          exact Nat.lt_succ_self _
      owned := fun m hm => by
        rcases List.mem_append.mp hm with hm | hm
        · exact h.owned m hm
        · rw [List.mem_singleton.mp hm]
          exact ⟨b, hb, hid, rfl⟩
      saved := fun k hk => by
        obtain ⟨m, hm, hm'⟩ := h.saved k hk
        exact ⟨m, List.mem_append_left _ hm, hm'⟩
      collectable := h.collectable }
  case h_2 => exact h

/-- What a listing picks is the user's. -/
theorem Inv.listed (h : Inv s) {user days limit : Nat} {picked : List Nat}
    (hpicks : Limit.Picks (s.gcEligible user days) limit picked) {id : Nat} (hid : id ∈ picked) :
    s.Collectable user id := by
  obtain ⟨b, hb, rfl, huser, -, -, hkind, -⟩ := mem_gcEligible.mp (hpicks.2.1 id hid)
  refine ⟨h.bufferFresh b hb, fun b' hb' heq => ?_⟩
  obtain rfl := h.eq_of_id hb' hb heq
  exact ⟨huser, hkind⟩

theorem collectable_idle (user : Nat) (h : Place.user? .idle = some user) :
    ∀ id ∈ Place.buffers .idle, s.Collectable user id := nomatch h

theorem Inv.gcStep (h : Inv s) (user : Nat) : Inv (s.step (.gcStep user)) := by
  simp only [Gc.step]
  split
  case h_1 => exact h.place (by rintro _ - _ ⟨⟩)
  case h_2 => exact h

theorem Inv.list (h : Inv s) (picked : List Nat) : Inv (s.step (.list picked)) := by
  simp only [Gc.step]
  split
  case h_1 user hplace =>
    split_ifs with hdays hpicks hnone
    · exact h.place collectable_idle
    · exact h.place collectable_idle
    · refine h.place ?_
      rintro _ ⟨⟩ id hid
      exact h.listed hpicks hid
    · exact h
  case h_2 => exact h

/-- The next buffer is one of the listing's. -/
theorem Inv.next (h : Inv s) : Inv (s.step .next) := by
  simp only [Gc.step]
  split
  case h_1 l hplace =>
    have hown := h.collectable l.user (by rw [hplace]; rfl)
    rw [hplace] at hown
    split
    · refine h.place ?_
      unfold afterListing
      split
      · rintro _ - _ ⟨⟩
      · exact collectable_idle
    · rename_i buffer rest hrest
      split
      · exact h.place collectable_idle
      · refine h.place ?_
        rintro _ ⟨⟩ id hid
        refine hown id ?_
        rw [Place.buffers, hrest]
        exact hid
  case h_2 => exact h

theorem Inv.drain (h : Inv s) (rows : Nat) (picked : List Nat) (outOfBudget : Bool) :
    Inv (s.step (.drain rows picked outOfBudget)) := by
  simp only [Gc.step]
  split
  case h_1 l buffer days hplace =>
    have hown := h.collectable l.user (by rw [hplace]; rfl)
    rw [hplace] at hown
    split
    · refine (h.deleteMessages picked).place ?_
      split_ifs with hshort hspent
      · rintro _ ⟨⟩ id hid
        exact hown id hid
      · exact collectable_idle
      · rintro _ ⟨⟩ id hid
        exact hown id hid
    · exact h
  case h_2 => exact h

theorem gcDeleteClosedBuffer_place (user buffer days : Nat) :
    (s.gcDeleteClosedBuffer user buffer days).place = s.place := by
  unfold Gc.gcDeleteClosedBuffer
  split <;> rfl

theorem Inv.remove (h : Inv s) (outOfBudget : Bool) : Inv (s.step (.remove outOfBudget)) := by
  simp only [Gc.step]
  split
  case h_1 l buffer days hplace =>
    have hdeleted := h.gcDeleteClosedBuffer l.user buffer days
    have hkept := gcDeleteClosedBuffer_place (s := s) l.user buffer days
    have hown := hdeleted.collectable l.user (by rw [hkept, hplace]; rfl)
    rw [hkept, hplace] at hown
    refine hdeleted.place ?_
    split
    · exact collectable_idle
    · rintro _ ⟨⟩ id hid
      exact hown id (List.mem_cons_of_mem _ hid)
  case h_2 => exact h

/-- A bookmark is of a message that is there. -/
theorem Inv.addBookmark (h : Inv s) (user message : Nat) :
    Inv (s.step (.addBookmark user message)) := by
  simp only [Gc.step]
  split
  case isTrue hsave =>
    obtain ⟨m, hm, hown⟩ := List.any_eq_true.mp hsave.1
    exact { h with
      saved := fun k hk => by
        rcases List.mem_append.mp hk with hk | hk
        · exact h.saved k hk
        · rw [List.mem_singleton.mp hk]
          exact ⟨m, hm, by simpa using hown⟩ }
  case isFalse => exact h

theorem Inv.step (h : Inv s) (e : Event) : Inv (s.step e) := by
  cases e with
  | gcStep user => exact h.gcStep user
  | list picked => exact h.list picked
  | next => exact h.next
  | drain rows picked outOfBudget => exact h.drain rows picked outOfBudget
  | remove outOfBudget => exact h.remove outOfBudget
  | abandon => exact h.place collectable_idle
  | elapse ms => exact ⟨h.1, h.2, h.3, h.4, h.5, h.6, h.7⟩
  | setDays user days => exact ⟨h.1, h.2, h.3, h.4, h.5, h.6, h.7⟩
  | create user kind isOpen autojoin => exact h.create user kind isOpen autojoin
  | close buffer =>
    refine h.updateBuffer (fun b => ?_) buffer
    split <;> exact ⟨rfl, rfl, rfl⟩
  | reopen buffer =>
    refine h.updateBuffer (fun b => ?_) buffer
    split <;> exact ⟨rfl, rfl, rfl⟩
  | setClosedAt buffer closedAt =>
    refine h.updateBuffer (fun _ => ?_) buffer
    exact ⟨rfl, rfl, rfl⟩
  | setAutojoin buffer autojoin =>
    refine h.updateBuffer (fun _ => ?_) buffer
    exact ⟨rfl, rfl, rfl⟩
  | insert buffer => exact h.insert buffer
  | addBookmark user message => exact h.addBookmark user message
  | removeBookmark user message =>
    exact { h with saved := fun k hk => h.saved k (List.mem_of_mem_filter hk) }

/-- Nothing goes from one state to the next. -/
structure Keeps (s s' : Gc) : Prop where
  messages : s.messages ⊆ s'.messages
  buffers : ∀ b ∈ s.buffers, ∃ b' ∈ s'.buffers, b'.id = b.id
  bookmarks : s.bookmarks ⊆ s'.bookmarks

theorem Keeps.of_eq {s' : Gc} (hmessages : s'.messages = s.messages)
    (hbuffers : s'.buffers = s.buffers) (hbookmarks : s'.bookmarks = s.bookmarks) : Keeps s s' where
  messages _ hm := hmessages ▸ hm
  buffers b hb := ⟨b, hbuffers ▸ hb, rfl⟩
  bookmarks _ hk := hbookmarks ▸ hk

theorem Keeps.updateBuffer {f : Buffer → Buffer} (hf : Retouches f) (id : Nat) :
    Keeps s (s.updateBuffer id f) where
  messages _ hm := hm
  buffers _ hb := (updateBuffer_mem hf id hb).imp fun _ h => ⟨h.1, h.2.1⟩
  bookmarks _ hk := hk

theorem Keeps.destroysOnly {e : Event} (h : Keeps s (s.step e)) : DestroysOnly s e where
  messages _ hm hgone := absurd (h.messages hm) hgone
  buffers b hb hgone := by
    obtain ⟨b', hb', hid⟩ := h.buffers b hb
    exact absurd hid (hgone b' hb')
  bookmarks _ hk hgone := absurd (h.bookmarks hk) hgone

theorem Inv.drain_destroys (h : Inv s) (rows : Nat) (picked : List Nat) (outOfBudget : Bool) :
    DestroysOnly s (.drain rows picked outOfBudget) := by
  cases hplace : s.place with
  | drain l buffer days =>
    by_cases hpicks : Limit.Picks (s.drainable l.user buffer days) rows picked
    · have hstep : (s.step (.drain rows picked outOfBudget)).messages =
          s.messages.filter (fun m => m.id ∉ picked) ∧
          (s.step (.drain rows picked outOfBudget)).buffers = s.buffers ∧
          (s.step (.drain rows picked outOfBudget)).bookmarks =
            s.bookmarks.filter (fun k => k.2 ∉ picked) := by
        simp only [Gc.step, hplace, if_pos hpicks]
        exact ⟨rfl, rfl, rfl⟩
      refine ⟨fun m hm hgone => ?_, fun b hb hgone => ?_, fun k hk hgone => ?_⟩
      · rw [hstep.1, List.mem_filter] at hgone
        have hid : m.id ∈ picked := by simpa [hm] using hgone
        obtain ⟨m', hm', hid', hbuffer, ⟨b, hb, hbid, hclosed⟩, hsaved⟩ :=
          mem_drainable.mp (hpicks.2.1 m.id hid)
        obtain rfl := h.eq_of_messageId hm' hm hid'
        have hown := (h.collectable l.user (by rw [hplace]; rfl) buffer
          (by rw [hplace]; exact List.mem_cons_self)).2 b hb (hbid.trans hbuffer)
        exact ⟨l, days, by rw [hplace, hbuffer], b, hb, hbid, hclosed, hown.1 ▸ hsaved⟩
      · exact absurd rfl (hgone b (by rw [hstep.2.1]; exact hb))
      · rw [hstep.2.2, List.mem_filter] at hgone
        have hid : k.2 ∈ picked := by simpa [hk] using hgone
        exact absurd (hpicks.2.1 k.2 hid) (h.drain_unsaved hplace hk)
    · refine Keeps.destroysOnly ?_
      simp only [Gc.step, hplace, if_neg hpicks]
      exact .of_eq rfl rfl rfl
  | _ =>
    refine Keeps.destroysOnly ?_
    simp only [Gc.step, hplace]
    exact .of_eq rfl rfl rfl

theorem kind_of_not_pseudo {kind : BufferKind} (h : isPseudo kind = false) :
    kind = .channel ∨ kind = .dm ∨ kind = .dcc := by
  revert h
  cases kind <;> decide

theorem Inv.remove_destroys (h : Inv s) (outOfBudget : Bool) :
    DestroysOnly s (.remove outOfBudget) := by
  cases hplace : s.place with
  | remove l buffer days =>
    by_cases hmay : (s.buffers.any fun b => b.id = buffer && b.user = l.user && !b.isOpen &&
        b.gcAge s.now days && s.messages.all (·.buffer ≠ buffer)) = true
    · obtain ⟨row, hrow, hwhere⟩ := List.any_eq_true.mp hmay
      simp only [Bool.and_eq_true, decide_eq_true_eq, Bool.not_eq_true', gcAge_iff,
        List.all_eq_true] at hwhere
      obtain ⟨⟨⟨⟨hid, -⟩, hopen⟩, hage⟩, hempty⟩ := hwhere
      -- the cascade finds no message
      have hnone : s.messages.filter (fun m => m.buffer = buffer) = [] := by
        refine List.filter_eq_nil_iff.mpr fun m hm => ?_
        simpa using hempty m hm
      have hstep : (s.step (.remove outOfBudget)).messages = s.messages ∧
          (s.step (.remove outOfBudget)).buffers = s.buffers.filter (fun b => b.id ≠ buffer) ∧
          (s.step (.remove outOfBudget)).bookmarks = s.bookmarks := by
        simp only [Gc.step, hplace, Gc.gcDeleteClosedBuffer, if_pos hmay, Gc.deleteBuffer, hnone]
        simp [Gc.deleteMessages]
      refine ⟨fun m hm hgone => ?_, fun b hb hgone => ?_, fun k hk hgone => ?_⟩
      · exact absurd (hstep.1 ▸ hm) hgone
      · have hbid : b.id = buffer := by
          by_contra hne
          refine hgone b ?_ rfl
          rw [hstep.2.1]
          exact List.mem_filter.mpr ⟨hb, decide_eq_true hne⟩
        obtain rfl := h.eq_of_id hb hrow (hbid.trans hid.symm)
        have hown := (h.collectable l.user (by rw [hplace]; rfl) buffer
          (by rw [hplace]; exact List.mem_cons_self)).2 b hb hid
        refine ⟨l, days, by rw [hplace, hid], ⟨hopen, hage⟩, kind_of_not_pseudo hown.2, fun m hm => ?_⟩
        rw [hid]
        exact hempty m hm
      · exact absurd (hstep.2.2 ▸ hk) hgone
    · refine Keeps.destroysOnly ?_
      simp only [Gc.step, hplace, Gc.gcDeleteClosedBuffer, if_neg hmay]
      exact .of_eq rfl rfl rfl
  | _ =>
    refine Keeps.destroysOnly ?_
    simp only [Gc.step, hplace]
    exact .of_eq rfl rfl rfl

/-- A statement of the pass that only moves it. -/
theorem Keeps.gcStep (user : Nat) : Keeps s (s.step (.gcStep user)) := by
  simp only [Gc.step]
  split <;> exact .of_eq rfl rfl rfl

theorem Keeps.list (picked : List Nat) : Keeps s (s.step (.list picked)) := by
  simp only [Gc.step]
  split
  · split_ifs <;> exact .of_eq rfl rfl rfl
  · exact .of_eq rfl rfl rfl

theorem Keeps.next : Keeps s (s.step .next) := by
  simp only [Gc.step]
  split
  · split
    · exact .of_eq rfl rfl rfl
    · split <;> exact .of_eq rfl rfl rfl
  · exact .of_eq rfl rfl rfl

theorem Inv.destroysOnly (h : Inv s) (e : Event) : DestroysOnly s e := by
  cases e with
  | gcStep user => exact (Keeps.gcStep user).destroysOnly
  | list picked => exact (Keeps.list picked).destroysOnly
  | next => exact Keeps.next.destroysOnly
  | drain rows picked outOfBudget => exact h.drain_destroys rows picked outOfBudget
  | remove outOfBudget => exact h.remove_destroys outOfBudget
  | abandon | elapse | setDays => exact Keeps.destroysOnly (.of_eq rfl rfl rfl)
  | create =>
    refine Keeps.destroysOnly ⟨List.Subset.refl _, fun b hb => ?_, List.Subset.refl _⟩
    exact ⟨b, List.mem_append_left _ hb, rfl⟩
  | close buffer =>
    refine Keeps.destroysOnly (.updateBuffer (fun b => ?_) buffer)
    split <;> exact ⟨rfl, rfl, rfl⟩
  | reopen buffer =>
    refine Keeps.destroysOnly (.updateBuffer (fun b => ?_) buffer)
    split <;> exact ⟨rfl, rfl, rfl⟩
  | setClosedAt buffer closedAt =>
    refine Keeps.destroysOnly (.updateBuffer (fun b => ?_) buffer)
    exact ⟨rfl, rfl, rfl⟩
  | setAutojoin buffer autojoin =>
    refine Keeps.destroysOnly (.updateBuffer (fun b => ?_) buffer)
    exact ⟨rfl, rfl, rfl⟩
  | insert buffer =>
    refine Keeps.destroysOnly ?_
    simp only [Gc.step]
    split
    · exact ⟨List.subset_append_left _ _, fun b hb => ⟨b, hb, rfl⟩, List.Subset.refl _⟩
    · exact .of_eq rfl rfl rfl
  | addBookmark user message =>
    refine Keeps.destroysOnly ?_
    simp only [Gc.step]
    split
    · exact ⟨List.Subset.refl _, fun b hb => ⟨b, hb, rfl⟩, List.subset_append_left _ _⟩
    · exact .of_eq rfl rfl rfl
  | removeBookmark user message =>
    refine ⟨fun m hm hgone => absurd hm hgone, fun b hb hgone => absurd rfl (hgone b hb),
      fun k hk hgone => ?_⟩
    by_contra hne
    refine hgone (List.mem_filter.mpr ⟨hk, decide_eq_true fun heq => hne ?_⟩)
    rw [heq]

/-- A buffer comes to the pass with a listing, and stays only while that is worked through. -/
theorem place_step {e : Event} {user id : Nat} (huser : (s.step e).place.user? = some user)
    (hid : id ∈ (s.step e).place.buffers) :
    (s.place.user? = some user ∧ id ∈ s.place.buffers) ∨
      ∃ picked, e = .list picked ∧ s.place = .listing user ∧
        id ∈ picked ∧ id ∈ s.gcEligible user (s.days user) := by
  cases e with
  | gcStep =>
    simp only [Gc.step] at huser hid
    split at hid
    case h_1 => cases hid
    case h_2 hplace => exact .inl ⟨by simpa using huser, hid⟩
  | list picked =>
    cases hplace : s.place with
    | listing user' =>
      simp only [Gc.step, hplace] at huser hid
      split_ifs at huser hid with hdays hpicks hnone
      · cases hid
      · cases hid
      · cases huser
        exact .inr ⟨picked, rfl, rfl, hid, hpicks.2.1 id hid⟩
      · rw [hplace] at hid
        cases hid
    | _ =>
      simp only [Gc.step, hplace] at huser hid
      exact .inl ⟨huser, hid⟩
  | next =>
    cases hplace : s.place with
    | next l =>
      cases hrest : l.rest with
      | nil =>
        simp only [Gc.step, hplace, hrest, afterListing] at hid
        split at hid <;> cases hid
      | cons buffer rest =>
        simp only [Gc.step, hplace, hrest] at huser hid
        split_ifs at huser hid
        · cases hid
        · refine .inl ⟨huser, ?_⟩
          rw [Place.buffers, hrest]
          exact hid
    | _ =>
      simp only [Gc.step, hplace] at huser hid
      exact .inl ⟨huser, hid⟩
  | drain rows picked outOfBudget =>
    cases hplace : s.place with
    | drain l buffer days =>
      simp only [Gc.step, hplace] at huser hid
      split_ifs at huser hid
      · exact .inl ⟨huser, hid⟩
      · cases hid
      · exact .inl ⟨huser, hid⟩
      · rw [hplace] at huser hid
        exact .inl ⟨huser, hid⟩
    | _ =>
      simp only [Gc.step, hplace] at huser hid
      exact .inl ⟨huser, hid⟩
  | remove outOfBudget =>
    cases hplace : s.place with
    | remove l buffer days =>
      simp only [Gc.step, hplace] at huser hid
      split_ifs at huser hid
      · cases hid
      · exact .inl ⟨huser, List.mem_cons_of_mem _ hid⟩
    | _ =>
      simp only [Gc.step, hplace] at huser hid
      exact .inl ⟨huser, hid⟩
  | abandon => cases hid
  | insert buffer =>
    have hplace : (s.step (.insert buffer)).place = s.place := by
      simp only [Gc.step]
      split <;> rfl
    exact .inl ⟨hplace ▸ huser, hplace ▸ hid⟩
  | addBookmark owner message =>
    have hplace : (s.step (.addBookmark owner message)).place = s.place := by
      simp only [Gc.step]
      split <;> rfl
    exact .inl ⟨hplace ▸ huser, hplace ▸ hid⟩
  | _ => exact .inl ⟨huser, hid⟩

theorem not_listing {place : Place} {id : Nat} (hid : id ∈ place.buffers) (user : Nat) :
    place ≠ .listing user := by
  rintro rfl
  cases hid

end Lemmas

abbrev after (es : List Event) : Gc := Run.after step start es

theorem inv_start : Inv start where
  bufferIds := List.nodup_nil
  bufferFresh := nofun
  messageIds := List.nodup_nil
  messageFresh := nofun
  owned := nofun
  saved := nofun
  collectable := nofun

theorem inv_after (es : List Event) : Inv (after es) :=
  Run.invariant step inv_start (fun _ e h => h.step e) es

/-- The last listing before the end of a run was the statement after `before`, for this user,
and it picked this buffer. -/
structure ListedAt (es before : List Event) (user buffer : Nat) : Prop where
  place : (after before).place = .listing user
  eligible : buffer ∈ (after before).gcEligible user ((after before).days user)
  last : ∃ picked between, es = before ++ .list picked :: between ∧ buffer ∈ picked ∧
    ∀ mid, mid <+: between → ∀ user', (after (before ++ .list picked :: mid)).place ≠ .listing user'

/-- What the pass still has to do it took from the last listing. -/
theorem listedAt {es : List Event} {user buffer : Nat}
    (huser : (after es).place.user? = some user) (hbuffer : buffer ∈ (after es).place.buffers) :
    ∃ before, ListedAt es before user buffer := by
  induction es using List.reverseRecOn with
  | nil => cases hbuffer
  | append_singleton es e ih =>
    have hsince := not_listing hbuffer
    have hafter : after (es ++ [e]) = (after es).step e := Run.after_concat step start es e
    rw [hafter] at huser hbuffer
    rcases place_step huser hbuffer with ⟨huser, hbuffer⟩ | ⟨picked, rfl, hplace, hpicked, heligible⟩
    · obtain ⟨before, hplace, heligible, picked, between, rfl, hpicked, hmid⟩ := ih huser hbuffer
      refine ⟨before, hplace, heligible, picked, between ++ [e], by simp, hpicked, fun mid hpre => ?_⟩
      rcases List.prefix_concat_iff.mp hpre with rfl | hpre
      · simpa using hsince
      · exact hmid mid hpre
    · refine ⟨es, hplace, heligible, picked, [], rfl, hpicked, fun mid hpre => ?_⟩
      rw [List.prefix_nil.mp hpre]
      exact hsince

theorem ListedAt.autojoin {es before : List Event} {user buffer : Nat}
    (h : ListedAt es before user buffer) {b : Buffer} (hb : b ∈ (after before).buffers)
    (hid : b.id = buffer) : b.autojoin = false := by
  obtain ⟨b', hb', hid', -, -, -, -, hautojoin, -⟩ := mem_gcEligible.mp h.eligible
  obtain rfl := (inv_after before).eq_of_id hb hb' (hid.trans hid'.symm)
  exact hautojoin

/-- Whatever order the statements of the pass and the rest come in, each step destroys only what
it may where it is taken, and a buffer that is drained was not joined by itself when it was
last listed. -/
theorem destroys_only (es : List Event) :
    (∀ e, DestroysOnly (after es) e) ∧
      ∀ l buffer days, (after es).place = .drain l buffer days →
        ∃ before, ListedAt es before l.user buffer ∧
          ∀ b ∈ (after before).buffers, b.id = buffer → b.autojoin = false := by
  refine ⟨(inv_after es).destroysOnly, fun l buffer days hplace => ?_⟩
  obtain ⟨before, hlisted⟩ := @listedAt es l.user buffer
    (by rw [hplace]; rfl) (by rw [hplace]; exact List.mem_cons_self)
  exact ⟨before, hlisted, fun b hb hid => hlisted.autojoin hb hid⟩

end Gc

end Lurker.Db.ClosedBufferGc
