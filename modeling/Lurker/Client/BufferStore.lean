import Mathlib.Data.List.Basic
import Lurker.Dcc.Paths
import Lurker.Lib.OrderedMap
import Lurker.Lib.Run

/-!
# The client's buffers and their ids

A buffer is held under a key made of its network and the spelling of its name, and its
server id is kept twice: in the buffer, and in a map from ids to keys beside the store.
Frames learn ids, rename and merge buffers. Every lookup folds the case of a name, except
where a rename looks for the entry that holds the new name. A rename onto a name that is
held in another case leaves two buffers of one name; as long as none does, an id names one
buffer, a name names one buffer, and a merge removes the absorbed one.
-/

namespace Lurker.Client.BufferStore

open Chat (Text text unit)
open Dcc.Paths (decimalText decimalText_injective isDigit_decimalText)

inductive BufferKind
  | channel
  | dm
  | dcc
  | server
  | system
deriving DecidableEq

/-- The part of a buffer's history that is loaded. -/
structure Slice (μ : Type) where
  messages : List μ
  oldestId : Option Nat
  newestId : Option Nat
  hasMoreOlder : Bool
  unseeded : Bool
  detached : Bool
deriving DecidableEq

/-- `made` tells one object from another: which call of `makeBuffer` made it. -/
structure Buffer (μ : Type) where
  id : Option Nat
  networkId : Option Nat
  kind : BufferKind
  target : Text
  slice : Slice μ
  made : Nat
deriving DecidableEq

/-- The store's record of buffers, the module's maps, and how many buffers were made. -/
structure Store (μ : Type) where
  buffers : OrderedMap Text (Buffer μ)
  keyById : OrderedMap Nat Text
  typingTimers : OrderedMap Text Nat
  made : Nat

variable {μ : Type}

def isChannelTarget (target : Text) : Bool :=
  target.head?.any fun c => c ∈ [unit '#', unit '&', unit '+', unit '!']

def isDccChatTarget (target : Text) : Bool := (text "=").isPrefixOf target

def deriveKind (networkId : Option Nat) (target : Text) : BufferKind :=
  if networkId.isNone then .system
  else if isChannelTarget target then .channel
  else if (text ":server:").isPrefixOf target then .server
  else if isDccChatTarget target then .dcc
  else .dm

def emptySlice : Slice μ := ⟨[], none, none, true, false, false⟩

def makeBuffer (made : Nat) (networkId : Option Nat) (target : Text) : Buffer μ :=
  ⟨none, networkId, deriveKind networkId target, target, emptySlice, made⟩

def systemKey : Text := text ":system:"

def bufferKey (networkId : Option Nat) (target : Text) : Text :=
  match networkId with
  | none => target
  | some n => decimalText n ++ text "::" ++ target

/-- What typing timers of a buffer have in front. -/
def typingHead (networkId : Option Nat) (target : Text) : Text :=
  networkId.elim (text "null") decimalText ++ text "::" ++ target ++ text "::"

/-- The flat `:` names are fixed keys. -/
def isSentinel (target : Text) : Bool := target.head? = some (unit ':')

variable (lower : Text → Text)

def resolveExistingKey (buffers : OrderedMap Text (Buffer μ)) (networkId : Option Nat)
    (target : Text) : Option Text :=
  let exact := bufferKey networkId target
  if buffers.has exact then some exact
  else if isSentinel target then none
  else
    -- `Number(null)` is 0
    (buffers.entries.find? fun e =>
      e.2.networkId = some (networkId.getD 0) ∧ lower e.2.target = lower target).map Prod.fst

/-- The key a lookup finds, as its callers test it: an empty key counts as none. -/
def found (buffers : OrderedMap Text (Buffer μ)) (networkId : Option Nat) (target : Text) :
    Option Text :=
  (resolveExistingKey lower buffers networkId target).filter (· ≠ [])

/-- The key of an id that is known, where it holds an entry. -/
def known (store : Store μ) (bufferId : Option Nat) : Option Text :=
  (bufferId.bind store.keyById.get?).filter fun k => k ≠ [] ∧ store.buffers.has k

def recordBufferId (store : Store μ) (key : Text) (bufferId : Option Nat) : Store μ :=
  match bufferId, store.buffers.get? key with
  | some i, some buf =>
    if buf.id = some i ∧ store.keyById.get? i = some key then store
    else
      let keyById := match buf.id with
        | some j => if j ≠ i then store.keyById.delete j else store.keyById
        | none => store.keyById
      { store with
        buffers := store.buffers.set key { buf with id := some i }
        keyById := keyById.set i key }
  | _, _ => store

def addBuffer (store : Store μ) (networkId : Option Nat) (target : Text) : Store μ :=
  { store with
    buffers := store.buffers.set (bufferKey networkId target)
      (makeBuffer store.made networkId target)
    made := store.made + 1 }

/-- The store and the key of the buffer the call returns. -/
def ensureBuffer (store : Store μ) (networkId : Option Nat) (target : Text)
    (bufferId : Option Nat) : Store μ × Text :=
  match known store bufferId with
  | some key => (store, key)
  | none =>
    match found lower store.buffers networkId target with
    | some key => (recordBufferId store key bufferId, key)
    | none =>
      let key := bufferKey networkId target
      (recordBufferId (addBuffer store networkId target) key bufferId, key)

/-- What `drop` does to the entry it found. -/
def remove (store : Store μ) (key : Text) (buf : Buffer μ) : Store μ :=
  let head := typingHead buf.networkId buf.target
  { store with
    typingTimers := store.typingTimers.filterKeys fun k => !head.isPrefixOf k
    keyById := match buf.id with
      | some i => store.keyById.delete i
      | none => store.keyById
    buffers := store.buffers.delete key }

def drop (store : Store μ) (networkId : Option Nat) (target : Text) : Store μ :=
  match found lower store.buffers networkId target with
  | none => store
  | some key => (store.buffers.get? key).elim store (remove store key)

def dropBuffer (store : Store μ) (networkId : Option Nat) (target : Text) : Store μ :=
  if networkId.isNone then store else drop lower store networkId target

/-- The timers of one buffer under the name it moves to. -/
def moveTimers (timers : OrderedMap Text Nat) (oldHead newHead : Text) : OrderedMap Text Nat :=
  (timers.entries.filter fun e => oldHead.isPrefixOf e.1).foldl
    (fun timers e => (timers.delete e.1).set (newHead ++ e.1.drop oldHead.length) e.2) timers

/-- What `rekeyBuffer` does to an entry whose new key is free. -/
def move (store : Store μ) (fromKey toKey : Text) (buf : Buffer μ) (toTarget : Text) : Store μ :=
  { store with
    typingTimers := moveTimers store.typingTimers (typingHead buf.networkId buf.target)
      (typingHead buf.networkId toTarget)
    buffers := (store.buffers.set toKey
      { buf with target := toTarget, kind := deriveKind buf.networkId toTarget }).delete fromKey
    keyById := match buf.id with
      | some i => store.keyById.set i toKey
      | none => store.keyById }

def rekeyBuffer (store : Store μ) (networkId : Option Nat) (fromTarget toTarget : Text) :
    Store μ :=
  if networkId.isNone then store
  else
    match found lower store.buffers networkId fromTarget with
    | none => store
    | some fromKey =>
      let toKey := bufferKey networkId toTarget
      if fromKey = toKey then store
      else if store.buffers.has toKey then drop lower store networkId fromTarget
      else (store.buffers.get? fromKey).elim store (move store fromKey toKey · toTarget)

structure BufferRenamed where
  networkId : Option Nat
  fromTarget : Text
  toTarget : Text
  bufferId : Option Nat
  merged : Bool
  mergedFromBufferId : Option Nat

/-- `findByTarget(networkId, target)?.target ?? target` -/
def canonicalTarget (store : Store μ) (networkId : Option Nat) (target : Text) : Text :=
  (((found lower store.buffers networkId target).bind store.buffers.get?).map
    Buffer.target).getD target

def bufferClosed (store : Store μ) (networkId : Option Nat) (target : Text) : Store μ :=
  dropBuffer lower store networkId (canonicalTarget lower store networkId target)

def bufferRenamed (store : Store μ) (networkId : Option Nat) (fromTarget toTarget : Text) :
    Store μ :=
  rekeyBuffer lower store networkId (canonicalTarget lower store networkId fromTarget) toTarget

/-- The sweep of the absorbed buffer, which comes first on a merge. -/
def absorb (store : Store μ) (f : BufferRenamed) : Store μ :=
  match (known store f.mergedFromBufferId).bind store.buffers.get? with
  | some absorbed => bufferClosed lower store absorbed.networkId absorbed.target
  | none =>
    match (found lower store.buffers f.networkId f.toTarget).bind store.buffers.get? with
    | none => store
    | some atTo =>
      -- never the row that has the surviving id
      if f.bufferId.isSome ∧ atTo.id = f.bufferId then store
      else bufferClosed lower store f.networkId f.toTarget

/-- The history of a merged buffer is fetched anew. -/
def refetch (store : Store μ) (key : Text) : Store μ :=
  match store.buffers.get? key with
  | none => store
  | some buf =>
    if buf.slice.detached then store
    else { store with buffers := store.buffers.set key { buf with
      slice := { buf.slice with
        messages := [], oldestId := none, newestId := none, hasMoreOlder := true,
        unseeded := true } } }

/-- What follows the rename: the buffer under the new name learns its id. -/
def settle (store : Store μ) (f : BufferRenamed) : Store μ :=
  let buf? := match found lower store.buffers f.networkId f.toTarget with
    | some key => some (store, key)
    | none =>
      if f.merged ∧ f.bufferId.isSome ∧ f.networkId.isSome then
        some (ensureBuffer lower store f.networkId f.toTarget f.bufferId)
      else none
  match buf? with
  | none => store
  | some (store, key) =>
    let store := if f.bufferId.isSome ∧ f.networkId.isSome then
      (ensureBuffer lower store f.networkId f.toTarget f.bufferId).1 else store
    if f.merged then refetch store key else store

def applyBufferRenamed (store : Store μ) (f : BufferRenamed) : Store μ :=
  let store := if f.merged then absorb lower store f else store
  settle lower (bufferRenamed lower store f.networkId f.fromTarget f.toTarget) f

/-- The operations of a network's buffers, the frames of the system buffer, whose name is
fixed, and what else frames do to a loaded slice. -/
inductive Event (μ : Type)
  | ensure (networkId : Nat) (target : Text) (bufferId : Option Nat)
  | ensureSystem (bufferId : Option Nat)
  | drop (networkId : Nat) (target : Text)
  | rekey (networkId : Option Nat) (fromTarget toTarget : Text)
  | renamed (f : BufferRenamed)
  | fill (key : Text) (slice : Slice μ)

def fill (store : Store μ) (key : Text) (slice : Slice μ) : Store μ :=
  match store.buffers.get? key with
  | none => store
  | some buf => { store with buffers := store.buffers.set key { buf with slice } }

def step (store : Store μ) : Event μ → Store μ
  | .ensure n target bufferId => (ensureBuffer lower store (some n) target bufferId).1
  | .ensureSystem bufferId => (ensureBuffer lower store none systemKey bufferId).1
  | .drop n target => drop lower store (some n) target
  | .rekey networkId fromTarget toTarget => rekeyBuffer lower store networkId fromTarget toTarget
  | .renamed f => applyBufferRenamed lower store f
  | .fill key slice => fill store key slice

/-- Before any frame there is the system buffer. -/
def initial : Store μ where
  buffers := OrderedMap.empty.set systemKey (makeBuffer 0 none systemKey)
  keyById := OrderedMap.empty
  typingTimers := OrderedMap.empty
  made := 1

theorem takeWhile_bufferKey (n : Nat) (target : Text) :
    (bufferKey (some n) target).takeWhile Chat.isDigit = decimalText n := by
  have hdigits : ∀ c ∈ decimalText n, Chat.isDigit c = true := fun _ hc => isDigit_decimalText hc
  rw [bufferKey, List.append_assoc, List.takeWhile_append_of_pos hdigits]
  exact List.append_nil _

theorem decimalText_ne_nil (n : Nat) : decimalText n ≠ [] := fun h =>
  Nat.toDigits_ne_nil (List.map_eq_nil_iff.mp h)

theorem bufferKey_injective {n m : Nat} {t u : Text}
    (h : bufferKey (some n) t = bufferKey (some m) u) : n = m ∧ t = u := by
  have hdigits := congrArg (List.takeWhile Chat.isDigit) h
  rw [takeWhile_bufferKey, takeWhile_bufferKey] at hdigits
  have hn := decimalText_injective hdigits
  subst hn
  exact ⟨rfl, List.append_cancel_left h⟩

theorem bufferKey_ne_system (n : Nat) (t : Text) : bufferKey (some n) t ≠ systemKey := by
  intro h
  have hdigits := congrArg (List.takeWhile Chat.isDigit) h
  rw [takeWhile_bufferKey] at hdigits
  exact decimalText_ne_nil n (hdigits.trans (by decide))

theorem bufferKey_ne_nil (n : Nat) (t : Text) : bufferKey (some n) t ≠ [] := by
  simp [bufferKey, decimalText_ne_nil n]

/-- An id leads to the one entry that has it, an entry is held under the key of its network
and name, and no network has two entries of one name up to case. -/
structure Sound (store : Store μ) : Prop where
  indexed : ∀ i k, store.keyById.get? i = some k ↔
    ∃ b, store.buffers.get? k = some b ∧ b.id = some i
  keyed : ∀ k b, store.buffers.get? k = some b → k = bufferKey b.networkId b.target
  unshared : ∀ k k' b b' i, store.buffers.get? k = some b → store.buffers.get? k' = some b' →
    b.id = some i → b'.id = some i → k = k'
  unforked : ∀ k k' b b', store.buffers.get? k = some b → store.buffers.get? k' = some b' →
    b.networkId = b'.networkId → lower b.target = lower b'.target → k = k'

/-- What carries it from step to step: only the system buffer has no network, and no object
is held twice. -/
structure Inv (store : Store μ) : Prop extends Sound lower store where
  app : ∀ k b, store.buffers.get? k = some b → b.networkId = none → b.target = systemKey
  older : ∀ k b, store.buffers.get? k = some b → b.made < store.made
  distinct : ∀ k k' b b', store.buffers.get? k = some b → store.buffers.get? k' = some b' →
    b.made = b'.made → k = k'

/-- An entry of the network under the name, in any case where it is not a `:` name. -/
def Names (n : Nat) (target : Text) (b : Buffer μ) : Prop :=
  b.networkId = some n ∧
    (b.target = target ∨ isSentinel target = false ∧ lower b.target = lower target)

variable {lower} {store : Store μ}

theorem Names.lower_eq {n : Nat} {t : Text} {b : Buffer μ} (h : Names lower n t b) :
    lower b.target = lower t := by
  obtain ⟨-, rfl | ⟨-, heq⟩⟩ := h
  · rfl
  · exact heq

theorem Inv.network_key (h : Inv lower store) {k : Text} {b : Buffer μ} {n : Nat} {t : Text}
    (hk : store.buffers.get? k = some b) (hkey : k = bufferKey (some n) t) :
    b.networkId = some n ∧ b.target = t := by
  have hkeyed := h.keyed k b hk
  cases hnet : b.networkId with
  | none =>
    rw [hnet, h.app k b hk hnet, hkey] at hkeyed
    exact absurd hkeyed (bufferKey_ne_system n t)
  | some m =>
    rw [hnet, hkey] at hkeyed
    obtain ⟨rfl, rfl⟩ := bufferKey_injective hkeyed
    exact ⟨rfl, rfl⟩

/-- Which entry a lookup in a network finds. -/
theorem Inv.found_iff (h : Inv lower store) {n : Nat} {t k : Text} :
    found lower store.buffers (some n) t = some k ↔
      ∃ b, store.buffers.get? k = some b ∧ Names lower n t b := by
  have hfinds : ∀ k, found lower store.buffers (some n) t = some k →
      ∃ b, store.buffers.get? k = some b ∧ Names lower n t b := by
    intro k hk
    obtain ⟨hk, -⟩ := Option.filter_eq_some_iff.mp hk
    simp only [resolveExistingKey] at hk
    split at hk
    · rename_i hhas
      obtain ⟨b, hb⟩ := Option.isSome_iff_exists.mp hhas
      cases hk
      obtain ⟨hnet, htarget⟩ := h.network_key hb rfl
      exact ⟨b, hb, hnet, .inl htarget⟩
    · split at hk
      · cases hk
      · rename_i hsentinel
        obtain ⟨e, he, rfl⟩ := Option.map_eq_some_iff.mp hk
        have hp := List.find?_some he
        simp only [decide_eq_true_eq] at hp
        exact ⟨e.2, OrderedMap.get?_eq_some.mpr (List.mem_of_find?_eq_some he), hp.1,
          .inr ⟨by simpa using hsentinel, hp.2⟩⟩
  refine ⟨hfinds k, fun ⟨b, hb, hnames⟩ => ?_⟩
  have hsome : ∃ k', found lower store.buffers (some n) t = some k' := by
    by_cases hhas : store.buffers.has (bufferKey (some n) t) = true
    · refine ⟨bufferKey (some n) t, ?_⟩
      simp [found, resolveExistingKey, hhas, bufferKey_ne_nil]
    · obtain ⟨hnet, htarget | ⟨hsentinel, hlower⟩⟩ := hnames
      · have hkey := h.keyed k b hb
        rw [hnet, htarget] at hkey
        exact absurd (by rw [OrderedMap.has, ← hkey, hb]; rfl) hhas
      · obtain ⟨e, he⟩ : ∃ e, (store.buffers.entries.find? fun e =>
            e.2.networkId = some ((some n).getD 0) ∧ lower e.2.target = lower t) = some e :=
          Option.isSome_iff_exists.mp (List.find?_isSome.mpr
            ⟨(k, b), OrderedMap.get?_eq_some.mp hb, by simpa using ⟨hnet, hlower⟩⟩)
        have hget := OrderedMap.get?_eq_some.mpr (List.mem_of_find?_eq_some he)
        have hp := List.find?_some he
        simp only [decide_eq_true_eq] at hp
        have hkey := h.keyed e.1 e.2 hget
        rw [hp.1] at hkey
        refine ⟨e.1, Option.filter_eq_some_iff.mpr ⟨?_, ?_⟩⟩
        · rw [resolveExistingKey, if_neg hhas, if_neg (by simp [hsentinel]), he]
          rfl
        · simp [hkey, bufferKey_ne_nil]
  obtain ⟨k', hk'⟩ := hsome
  obtain ⟨b', hb', hnames'⟩ := hfinds k' hk'
  rw [hk', h.unforked k' k b' b hb' hb (hnames'.1.trans hnames.1.symm)
    (hnames'.lower_eq.trans hnames.lower_eq.symm)]

theorem Inv.key_ne_nil (h : Inv lower store) {k : Text} {b : Buffer μ}
    (hk : store.buffers.get? k = some b) : k ≠ [] := by
  rw [h.keyed k b hk]
  cases hnet : b.networkId with
  | none =>
    rw [h.app k b hk hnet]
    exact of_decide_eq_true rfl
  | some n => exact bufferKey_ne_nil n _

/-- Which key an id is known by. -/
theorem Inv.known_iff (h : Inv lower store) {i : Nat} {k : Text} :
    known store (some i) = some k ↔ ∃ b, store.buffers.get? k = some b ∧ b.id = some i := by
  rw [← h.indexed i k]
  refine ⟨fun hk => (Option.filter_eq_some_iff.mp hk).1, fun hk => ?_⟩
  obtain ⟨b, hb, -⟩ := (h.indexed i k).mp hk
  refine Option.filter_eq_some_iff.mpr ⟨hk, ?_⟩
  simp [h.key_ne_nil hb, OrderedMap.has, hb]

theorem Inv.unknown (h : Inv lower store) {i : Nat} (hi : known store (some i) = none) :
    store.keyById.get? i = none := by
  cases hk : store.keyById.get? i with
  | none => rfl
  | some k =>
    rw [h.known_iff.mpr ((h.indexed i k).mp hk)] at hi
    cases hi

/-- Where the map of ids leads to the entries' own ids, no two entries share one. -/
theorem unshared_of_indexed {buffers : OrderedMap Text (Buffer μ)} {keyById : OrderedMap Nat Text}
    (h : ∀ i k, keyById.get? i = some k ↔ ∃ b, buffers.get? k = some b ∧ b.id = some i)
    (k k' : Text) (b b' : Buffer μ) (i : Nat) (hk : buffers.get? k = some b)
    (hk' : buffers.get? k' = some b') (hi : b.id = some i) (hi' : b'.id = some i) : k = k' :=
  Option.some.inj (((h i k).mpr ⟨b, hk, hi⟩).symm.trans ((h i k').mpr ⟨b', hk', hi'⟩))

/-- An entry is changed where it is, its network, name and object kept. -/
theorem Inv.update (h : Inv lower store) {k : Text} {b : Buffer μ} (b' : Buffer μ)
    (hk : store.buffers.get? k = some b) (hnet : b'.networkId = b.networkId)
    (htarget : b'.target = b.target) (hmade : b'.made = b.made)
    {keyById : OrderedMap Nat Text} (hindexed : ∀ i k', keyById.get? i = some k' ↔
      ∃ c, (store.buffers.set k b').get? k' = some c ∧ c.id = some i) :
    Inv lower { store with buffers := store.buffers.set k b', keyById } := by
  have hback : ∀ k' c, (store.buffers.set k b').get? k' = some c → ∃ c', store.buffers.get? k' =
      some c' ∧ c.networkId = c'.networkId ∧ c.target = c'.target ∧ c.made = c'.made := by
    intro k' c hc
    rw [OrderedMap.get?_set] at hc
    split at hc
    · rename_i heq
      cases hc
      exact ⟨b, heq ▸ hk, hnet, htarget, hmade⟩
    · exact ⟨c, hc, rfl, rfl, rfl⟩
  constructor
  · refine ⟨hindexed, ?_, unshared_of_indexed hindexed, ?_⟩
    · intro k' c hc
      obtain ⟨c', hc', hn, ht, -⟩ := hback k' c hc
      rw [hn, ht]
      exact h.keyed k' c' hc'
    · intro k₁ k₂ c₁ c₂ h₁ h₂ hn hl
      obtain ⟨c₁', hc₁, hn₁, ht₁, -⟩ := hback k₁ c₁ h₁
      obtain ⟨c₂', hc₂, hn₂, ht₂, -⟩ := hback k₂ c₂ h₂
      exact h.unforked k₁ k₂ c₁' c₂' hc₁ hc₂ (hn₁ ▸ hn₂ ▸ hn) (ht₁ ▸ ht₂ ▸ hl)
  · intro k' c hc hn
    obtain ⟨c', hc', hn', ht', -⟩ := hback k' c hc
    rw [ht']
    exact h.app k' c' hc' (hn' ▸ hn)
  · intro k' c hc
    obtain ⟨c', hc', -, -, hm⟩ := hback k' c hc
    exact hm ▸ h.older k' c' hc'
  · intro k₁ k₂ c₁ c₂ h₁ h₂ hm
    obtain ⟨c₁', hc₁, -, -, hm₁⟩ := hback k₁ c₁ h₁
    obtain ⟨c₂', hc₂, -, -, hm₂⟩ := hback k₂ c₂ h₂
    exact h.distinct k₁ k₂ c₁' c₂' hc₁ hc₂ (hm₁ ▸ hm₂ ▸ hm)

theorem Inv.slice (h : Inv lower store) {k : Text} {b : Buffer μ}
    (hk : store.buffers.get? k = some b) (slice : Slice μ) :
    Inv lower { store with buffers := store.buffers.set k { b with slice } } := by
  refine h.update { b with slice } hk rfl rfl rfl fun i k' => ?_
  rw [h.indexed, OrderedMap.get?_set]
  split
  · rename_i heq
    subst heq
    simp [hk]
  · rfl

/-- An id no entry has is learned. -/
theorem Inv.record (h : Inv lower store) {k : Text} {b : Buffer μ}
    (hk : store.buffers.get? k = some b) {bufferId : Option Nat}
    (hid : known store bufferId = none) : Inv lower (recordBufferId store k bufferId) := by
  cases bufferId with
  | none => exact h
  | some i =>
    have hfree := h.unknown hid
    have hother : ∀ k' c, store.buffers.get? k' = some c → c.id ≠ some i := fun k' c hc hi => by
      rw [(h.indexed i k').mpr ⟨c, hc, hi⟩] at hfree
      cases hfree
    simp only [recordBufferId, hk]
    rw [if_neg (fun hboth => hother k b hk hboth.1)]
    refine h.update { b with id := some i } hk rfl rfl rfl fun j k' => ?_
    rw [OrderedMap.get?_set, OrderedMap.get?_set]
    by_cases hj : j = i
    · subst hj
      rw [if_pos rfl]
      by_cases hk' : k' = k
      · simp [hk']
      · rw [if_neg hk']
        constructor
        · intro heq
          exact absurd (Option.some.inj heq).symm hk'
        · rintro ⟨c, hc, hi⟩
          exact absurd hi (hother k' c hc)
    · rw [if_neg hj]
      have hold : ∀ k', (match b.id with
          | some j => if j ≠ i then store.keyById.delete j else store.keyById
          | none => store.keyById).get? j = some k' ↔
          b.id ≠ some j ∧ store.keyById.get? j = some k' := by
        intro k'
        cases hb : b.id with
        | none => simp
        | some m =>
          have hm : m ≠ i := fun heq => hother k b hk (heq ▸ hb)
          by_cases hj : j = m <;> simp [hm, OrderedMap.get?_delete, hj, eq_comm]
      rw [hold, h.indexed]
      by_cases hk' : k' = k
      · subst hk'
        simp [hk, Ne.symm hj]
      · rw [if_neg hk']
        refine ⟨fun hc => hc.2, fun ⟨c, hc, hi⟩ => ⟨fun hb => ?_, c, hc, hi⟩⟩
        exact hk' (h.unshared k' k c b j hc hk hi hb)

/-- The key of a name no entry of the network has is free. -/
theorem Inv.free (h : Inv lower store) {networkId : Option Nat} {t : Text}
    (happ : networkId = none → t = systemKey)
    (hnew : ∀ k b, store.buffers.get? k = some b → b.networkId = networkId →
      lower b.target ≠ lower t) : store.buffers.get? (bufferKey networkId t) = none := by
  rw [Option.eq_none_iff_forall_ne_some]
  intro b hb
  cases networkId with
  | none =>
    have hkeyed := h.keyed _ b hb
    cases hnet : b.networkId with
    | none => exact hnew _ b hb hnet (by rw [h.app _ b hb hnet, happ rfl])
    | some m =>
      rw [hnet, happ rfl] at hkeyed
      exact bufferKey_ne_system m _ hkeyed.symm
  | some n =>
    obtain ⟨hn, ht⟩ := h.network_key hb rfl
    exact hnew _ b hb hn (by rw [ht])

theorem Inv.make (h : Inv lower store) {networkId : Option Nat} {t : Text}
    (happ : networkId = none → t = systemKey)
    (hnew : ∀ k b, store.buffers.get? k = some b → b.networkId = networkId →
      lower b.target ≠ lower t) :
    Inv lower (addBuffer store networkId t) := by
  have hfree := h.free happ hnew
  have hcases : ∀ k c, (store.buffers.set (bufferKey networkId t)
      (makeBuffer store.made networkId t)).get? k = some c →
      k = bufferKey networkId t ∧ c = makeBuffer store.made networkId t ∨
        store.buffers.get? k = some c := by
    intro k c hc
    rw [OrderedMap.get?_set] at hc
    split at hc
    · exact .inl ⟨‹_›, (Option.some.inj hc).symm⟩
    · exact .inr hc
  have hindexed : ∀ i k, store.keyById.get? i = some k ↔ ∃ c, (store.buffers.set
      (bufferKey networkId t) (makeBuffer store.made networkId t)).get? k = some c ∧
        c.id = some i := by
    intro i k
    rw [h.indexed, OrderedMap.get?_set]
    split
    · rename_i heq
      subst heq
      refine iff_of_false ?_ ?_
      · rintro ⟨b, hb, -⟩
        rw [hfree] at hb
        cases hb
      · rintro ⟨c, hc, hi⟩
        cases hc
        cases hi
    · rfl
  constructor
  · refine ⟨hindexed, ?_, unshared_of_indexed hindexed, ?_⟩
    · intro k c hc
      obtain ⟨rfl, rfl⟩ | hc := hcases k c hc
      · rfl
      · exact h.keyed k c hc
    · intro k₁ k₂ c₁ c₂ h₁ h₂ hn hl
      obtain ⟨rfl, rfl⟩ | h₁ := hcases k₁ c₁ h₁ <;> obtain ⟨rfl, rfl⟩ | h₂ := hcases k₂ c₂ h₂
      · rfl
      · exact absurd hl.symm (hnew k₂ c₂ h₂ hn.symm)
      · exact absurd hl (hnew k₁ c₁ h₁ hn)
      · exact h.unforked k₁ k₂ c₁ c₂ h₁ h₂ hn hl
  · intro k c hc hn
    obtain ⟨rfl, rfl⟩ | hc := hcases k c hc
    · exact happ hn
    · exact h.app k c hc hn
  · intro k c hc
    obtain ⟨rfl, rfl⟩ | hc := hcases k c hc
    · exact Nat.lt_succ_self _
    · exact Nat.lt_succ_of_lt (h.older k c hc)
  · intro k₁ k₂ c₁ c₂ h₁ h₂ hm
    obtain ⟨rfl, rfl⟩ | h₁ := hcases k₁ c₁ h₁ <;> obtain ⟨rfl, rfl⟩ | h₂ := hcases k₂ c₂ h₂
    · rfl
    · exact absurd hm (Nat.ne_of_gt (h.older k₂ c₂ h₂))
    · exact absurd hm (Nat.ne_of_lt (h.older k₁ c₁ h₁))
    · exact h.distinct k₁ k₂ c₁ c₂ h₁ h₂ hm

theorem get?_forget (m : OrderedMap Nat Text) (id : Option Nat) (i : Nat) :
    (match id with
      | some j => m.delete j
      | none => m).get? i = if id = some i then none else m.get? i := by
  cases id with
  | none => simp
  | some j => simp [OrderedMap.get?_delete, eq_comm]

theorem Inv.remove (h : Inv lower store) {k : Text} {b : Buffer μ}
    (hk : store.buffers.get? k = some b) : Inv lower (remove store k b) := by
  have hcases : ∀ k' c, (BufferStore.remove store k b).buffers.get? k' = some c →
      k' ≠ k ∧ store.buffers.get? k' = some c := by
    intro k' c hc
    rw [BufferStore.remove, OrderedMap.get?_delete] at hc
    split at hc
    · cases hc
    · exact ⟨‹_›, hc⟩
  have hindexed : ∀ i k', (BufferStore.remove store k b).keyById.get? i = some k' ↔
      ∃ c, (BufferStore.remove store k b).buffers.get? k' = some c ∧ c.id = some i := by
    intro i k'
    rw [BufferStore.remove, get?_forget, OrderedMap.get?_delete]
    split
    · rename_i hi
      refine iff_of_false (Option.some_ne_none _).symm ?_
      rintro ⟨c, hc, hci⟩
      split at hc
      · cases hc
      · rename_i hne
        exact hne (h.unshared k' k c b i hc hk hci hi)
    · rename_i hi
      rw [h.indexed]
      constructor
      · rintro ⟨c, hc, hci⟩
        refine ⟨c, ?_, hci⟩
        rw [if_neg (fun heq => ?_), hc]
        rw [heq, hk] at hc
        cases hc
        exact hi hci
      · rintro ⟨c, hc, hci⟩
        split at hc
        · cases hc
        · exact ⟨c, hc, hci⟩
  constructor
  · refine ⟨hindexed, ?_, unshared_of_indexed hindexed, ?_⟩
    · intro k' c hc
      exact h.keyed k' c (hcases k' c hc).2
    · intro k₁ k₂ c₁ c₂ h₁ h₂
      exact h.unforked k₁ k₂ c₁ c₂ (hcases k₁ c₁ h₁).2 (hcases k₂ c₂ h₂).2
  · intro k' c hc
    exact h.app k' c (hcases k' c hc).2
  · intro k' c hc
    exact h.older k' c (hcases k' c hc).2
  · intro k₁ k₂ c₁ c₂ h₁ h₂
    exact h.distinct k₁ k₂ c₁ c₂ (hcases k₁ c₁ h₁).2 (hcases k₂ c₂ h₂).2

/-- A buffer under its new name. -/
def renamedTo (b : Buffer μ) (toTarget : Text) : Buffer μ :=
  { b with target := toTarget, kind := deriveKind b.networkId toTarget }

theorem get?_move {fromKey toKey : Text} (hne : toKey ≠ fromKey) (b : Buffer μ) (toTarget : Text)
    {k : Text} {c : Buffer μ} :
    (move store fromKey toKey b toTarget).buffers.get? k = some c ↔
      k = toKey ∧ c = renamedTo b toTarget ∨
        k ≠ fromKey ∧ k ≠ toKey ∧ store.buffers.get? k = some c := by
  rw [move, OrderedMap.get?_delete, OrderedMap.get?_set]
  by_cases hfrom : k = fromKey
  · simp [hfrom, Ne.symm hne]
  · rw [if_neg hfrom]
    by_cases hto : k = toKey
    · simp [hto, renamedTo, eq_comm]
    · simp [hto, hfrom]

theorem Inv.move (h : Inv lower store) {n : Nat} {fromKey toTarget : Text} {b : Buffer μ}
    (hk : store.buffers.get? fromKey = some b) (hnet : b.networkId = some n)
    (hfree : store.buffers.get? (bufferKey (some n) toTarget) = none)
    (hlands : ∀ k c, store.buffers.get? k = some c → c.networkId = some n →
      lower c.target = lower toTarget → k = fromKey) :
    Inv lower (move store fromKey (bufferKey (some n) toTarget) b toTarget) := by
  have hne : bufferKey (some n) toTarget ≠ fromKey := fun heq => by
    rw [heq, hk] at hfree
    cases hfree
  have hindexed : ∀ i k, (BufferStore.move store fromKey (bufferKey (some n) toTarget) b
      toTarget).keyById.get? i = some k ↔ ∃ c, (BufferStore.move store fromKey
        (bufferKey (some n) toTarget) b toTarget).buffers.get? k = some c ∧ c.id = some i := by
    intro i k
    have hkeys : (BufferStore.move store fromKey (bufferKey (some n) toTarget) b
        toTarget).keyById.get? i = if b.id = some i then some (bufferKey (some n) toTarget)
          else store.keyById.get? i := by
      rw [BufferStore.move]
      cases b.id with
      | none => simp
      | some j => simp [OrderedMap.get?_set, eq_comm]
    rw [hkeys]
    simp only [get?_move hne]
    by_cases hi : b.id = some i
    · rw [if_pos hi]
      constructor
      · intro heq
        exact ⟨renamedTo b toTarget, .inl ⟨(Option.some.inj heq).symm, rfl⟩, hi⟩
      · rintro ⟨c, ⟨rfl, -⟩ | ⟨hfrom, -, hc⟩, hci⟩
        · rfl
        · exact absurd (h.unshared k fromKey c b i hc hk hci hi) hfrom
    · rw [if_neg hi, h.indexed]
      constructor
      · rintro ⟨c, hc, hci⟩
        refine ⟨c, .inr ⟨fun heq => ?_, fun heq => ?_, hc⟩, hci⟩
        · rw [heq, hk] at hc
          cases hc
          exact hi hci
        · rw [heq, hfree] at hc
          cases hc
      · rintro ⟨c, ⟨-, rfl⟩ | ⟨-, -, hc⟩, hci⟩
        · exact absurd hci hi
        · exact ⟨c, hc, hci⟩
  constructor
  · refine ⟨hindexed, ?_, unshared_of_indexed hindexed, ?_⟩
    · intro k c hc
      obtain ⟨rfl, rfl⟩ | ⟨-, -, hc⟩ := (get?_move hne b toTarget).mp hc
      · rw [renamedTo, hnet]
      · exact h.keyed k c hc
    · intro k₁ k₂ c₁ c₂ h₁ h₂ hn hl
      obtain ⟨rfl, rfl⟩ | ⟨hf₁, -, h₁⟩ := (get?_move hne b toTarget).mp h₁ <;>
        obtain ⟨rfl, rfl⟩ | ⟨hf₂, -, h₂⟩ := (get?_move hne b toTarget).mp h₂
      · rfl
      · exact absurd (hlands k₂ c₂ h₂ (hn.symm.trans hnet) hl.symm) hf₂
      · exact absurd (hlands k₁ c₁ h₁ (hn.trans hnet) hl) hf₁
      · exact h.unforked k₁ k₂ c₁ c₂ h₁ h₂ hn hl
  · intro k c hc hn
    obtain ⟨rfl, rfl⟩ | ⟨-, -, hc⟩ := (get?_move hne b toTarget).mp hc
    · exact absurd (hnet.symm.trans hn) (Option.some_ne_none n)
    · exact h.app k c hc hn
  · intro k c hc
    obtain ⟨rfl, rfl⟩ | ⟨-, -, hc⟩ := (get?_move hne b toTarget).mp hc
    · exact h.older fromKey b hk
    · exact h.older k c hc
  · intro k₁ k₂ c₁ c₂ h₁ h₂ hm
    obtain ⟨rfl, rfl⟩ | ⟨hf₁, -, h₁⟩ := (get?_move hne b toTarget).mp h₁ <;>
      obtain ⟨rfl, rfl⟩ | ⟨hf₂, -, h₂⟩ := (get?_move hne b toTarget).mp h₂
    · rfl
    · exact absurd (h.distinct fromKey k₂ b c₂ hk h₂ hm).symm hf₂
    · exact absurd (h.distinct k₁ fromKey c₁ b h₁ hk hm) hf₁
    · exact h.distinct k₁ k₂ c₁ c₂ h₁ h₂ hm

variable (lower store)

/-- A `:` name comes in one spelling. -/
def Spelled (n : Nat) (target : Text) : Prop :=
  isSentinel target = true → ∀ e ∈ store.buffers.entries, e.2.networkId = some n →
    lower e.2.target = lower target → e.2.target = target

/-- The key of the entry a merge removes. -/
def swept (f : BufferRenamed) : Option Text :=
  match known store f.mergedFromBufferId with
  | some key => some key |>.filter fun key =>
      (store.buffers.get? key).any fun absorbed => absorbed.networkId.isSome
  | none =>
    if f.networkId.isNone then none
    else (found lower store.buffers f.networkId f.toTarget).filter fun key =>
      f.bufferId.isNone ∨ (store.buffers.get? key).bind Buffer.id ≠ f.bufferId

/-- Where an entry is renamed, another entry of its network that has the new name in some
case has it as the frame spells it, or is the one the merge removes. -/
def Lands (n : Nat) (fromTarget toTarget : Text) (gone : Option Text) : Prop :=
  ∀ fromKey ∈ found lower store.buffers (some n) fromTarget, gone ≠ some fromKey →
    ∀ e ∈ store.buffers.entries, e.2.networkId = some n → lower e.2.target = lower toTarget →
      e.1 = bufferKey (some n) toTarget ∨ e.1 = fromKey ∨ gone = some e.1

def Meets : Event μ → Prop
  | .ensure n target _ => Spelled lower store n target
  | .rekey networkId fromTarget toTarget =>
    ∀ n ∈ networkId, Lands lower store n fromTarget toTarget none
  | .renamed f => ∀ n ∈ f.networkId, Spelled lower store n f.toTarget ∧
      Lands lower store n f.fromTarget f.toTarget (if f.merged then swept lower store f else none)
  | _ => True

variable {lower store}

/-- The entries stay as they are, apart from their id and slice; one may be made. -/
structure Keeps (networkId : Option Nat) (target : Text) (store store' : Store μ) : Prop where
  stays : ∀ k b, store.buffers.get? k = some b → ∃ b', store'.buffers.get? k = some b' ∧
    b'.made = b.made ∧ b'.networkId = b.networkId ∧ b'.target = b.target
  back : ∀ k b', store'.buffers.get? k = some b' →
    (∃ b, store.buffers.get? k = some b ∧ b'.made = b.made ∧ b'.networkId = b.networkId ∧
      b'.target = b.target) ∨
    store.made ≤ b'.made ∧ b'.networkId = networkId ∧ b'.target = target
  grows : store.made ≤ store'.made

theorem Keeps.refl (networkId : Option Nat) (target : Text) (store : Store μ) :
    Keeps networkId target store store :=
  ⟨fun _ b hb => ⟨b, hb, rfl, rfl, rfl⟩, fun _ b hb => .inl ⟨b, hb, rfl, rfl, rfl⟩, Nat.le_refl _⟩

theorem Keeps.trans {networkId : Option Nat} {target : Text} {store₁ store₂ store₃ : Store μ}
    (h₁ : Keeps networkId target store₁ store₂) (h₂ : Keeps networkId target store₂ store₃) :
    Keeps networkId target store₁ store₃ where
  stays k b hb := by
    obtain ⟨b', hb', hm, hn, ht⟩ := h₁.stays k b hb
    obtain ⟨b'', hb'', hm', hn', ht'⟩ := h₂.stays k b' hb'
    exact ⟨b'', hb'', hm'.trans hm, hn'.trans hn, ht'.trans ht⟩
  back k b'' hb'' := by
    obtain ⟨b', hb', hm', hn', ht'⟩ | ⟨hm', hn', ht'⟩ := h₂.back k b'' hb''
    · obtain ⟨b, hb, hm, hn, ht⟩ | ⟨hm, hn, ht⟩ := h₁.back k b' hb'
      · exact .inl ⟨b, hb, hm'.trans hm, hn'.trans hn, ht'.trans ht⟩
      · exact .inr ⟨hm' ▸ hm, hn'.trans hn, ht'.trans ht⟩
    · exact .inr ⟨Nat.le_trans h₁.grows hm', hn', ht'⟩
  grows := Nat.le_trans h₁.grows h₂.grows

/-- An entry changed where it is. -/
theorem Keeps.update {networkId : Option Nat} {target : Text} {k : Text} {b : Buffer μ}
    (hk : store.buffers.get? k = some b) (b' : Buffer μ) (hm : b'.made = b.made)
    (hn : b'.networkId = b.networkId) (ht : b'.target = b.target) {store' : Store μ}
    (hbuffers : store'.buffers = store.buffers.set k b') (hmade : store'.made = store.made) :
    Keeps networkId target store store' where
  stays k' c hc := by
    rw [hbuffers, OrderedMap.get?_set]
    split
    · rename_i heq
      rw [heq, hk] at hc
      cases hc
      exact ⟨b', rfl, hm, hn, ht⟩
    · exact ⟨c, hc, rfl, rfl, rfl⟩
  back k' c hc := by
    rw [hbuffers, OrderedMap.get?_set] at hc
    split at hc
    · rename_i heq
      cases hc
      exact .inl ⟨b, heq ▸ hk, hm, hn, ht⟩
    · exact .inl ⟨c, hc, rfl, rfl, rfl⟩
  grows := Nat.le_of_eq hmade.symm

theorem addBuffer_keeps {networkId : Option Nat} {t : Text}
    (hfree : store.buffers.get? (bufferKey networkId t) = none) :
    Keeps networkId t store (addBuffer store networkId t) where
  stays k b hb := by
    refine ⟨b, ?_, rfl, rfl, rfl⟩
    rw [addBuffer, OrderedMap.get?_set, if_neg, hb]
    rintro rfl
    rw [hfree] at hb
    cases hb
  back k b hb := by
    rw [addBuffer, OrderedMap.get?_set] at hb
    split at hb
    · cases hb
      exact .inr ⟨Nat.le_refl _, rfl, rfl⟩
    · exact .inl ⟨b, hb, rfl, rfl, rfl⟩
  grows := Nat.le_succ _

theorem record_spec {k : Text} {b : Buffer μ} (hk : store.buffers.get? k = some b)
    (networkId : Option Nat) (target : Text) (bufferId : Option Nat) :
    Keeps networkId target store (recordBufferId store k bufferId) ∧
      ∃ b', (recordBufferId store k bufferId).buffers.get? k = some b' ∧
        ∀ i, bufferId = some i → b'.id = some i := by
  cases bufferId with
  | none => exact ⟨Keeps.refl .., b, hk, fun _ hi => nomatch hi⟩
  | some i =>
    simp only [recordBufferId, hk]
    split
    · rename_i hsame
      exact ⟨Keeps.refl .., b, hk, fun j hj => hj ▸ hsame.1⟩
    · refine ⟨Keeps.update hk { b with id := some i } rfl rfl rfl rfl rfl, { b with id := some i },
        ?_, fun j hj => hj⟩
      simp [OrderedMap.get?_set]

/-- `ensureBuffer` keeps every entry and returns the key of one that has the id. -/
theorem Inv.ensure (h : Inv lower store) {networkId : Option Nat} {t : Text}
    (bufferId : Option Nat) (happ : networkId = none → t = systemKey)
    (hspelled : ∀ n, networkId = some n → Spelled lower store n t) :
    let r := ensureBuffer lower store networkId t bufferId
    Inv lower r.1 ∧ Keeps networkId t store r.1 ∧
      (∃ b, r.1.buffers.get? r.2 = some b ∧ ∀ i, bufferId = some i → b.id = some i) ∧
      (known store bufferId = some r.2 ∨ found lower store.buffers networkId t = some r.2 ∨
        found lower store.buffers networkId t = none ∧ r.2 = bufferKey networkId t) := by
  intro r
  cases hknown : known store bufferId with
  | some key =>
    have hr : r = (store, key) := by simp only [r, ensureBuffer, hknown]
    rw [hr]
    cases bufferId with
    | none => cases hknown
    | some i =>
      obtain ⟨b, hb, hi⟩ := h.known_iff.mp hknown
      exact ⟨h, Keeps.refl .., ⟨b, hb, fun j hj => hj ▸ hi⟩, .inl rfl⟩
  | none =>
    cases hfound : found lower store.buffers networkId t with
    | some key =>
      have hr : r = (recordBufferId store key bufferId, key) := by
        simp only [r, ensureBuffer, hknown, hfound]
      rw [hr]
      obtain ⟨b, hb⟩ : ∃ b, store.buffers.get? key = some b := by
        cases networkId with
        | some n =>
          obtain ⟨b, hb, -⟩ := h.found_iff.mp hfound
          exact ⟨b, hb⟩
        | none =>
          obtain ⟨hkey, -⟩ := Option.filter_eq_some_iff.mp hfound
          rw [happ rfl, resolveExistingKey] at hkey
          split at hkey
          · cases hkey
            exact Option.isSome_iff_exists.mp ‹_›
          · rw [if_pos (by decide)] at hkey
            cases hkey
      obtain ⟨hkeeps, hid⟩ := record_spec hb networkId t bufferId
      exact ⟨h.record hb hknown, hkeeps, hid, .inr (.inl rfl)⟩
    | none =>
      have hnew : ∀ k b, store.buffers.get? k = some b → b.networkId = networkId →
          lower b.target ≠ lower t := by
        intro k b hb hnet hlower
        cases networkId with
        | none =>
          have hkey : k = bufferKey none t := by
            rw [h.keyed k b hb, hnet, h.app k b hb hnet, happ rfl]
          have hhas : store.buffers.has (bufferKey none t) = true := by
            rw [OrderedMap.has, ← hkey, hb]
            rfl
          rw [found, resolveExistingKey, if_pos hhas, Option.filter_some,
            if_pos (by simpa [hkey] using h.key_ne_nil hb)] at hfound
          cases hfound
        | some n =>
          have hnames : Names lower n t b := by
            cases hsentinel : isSentinel t with
            | false => exact ⟨hnet, .inr ⟨hsentinel, hlower⟩⟩
            | true => exact ⟨hnet, .inl (hspelled n rfl hsentinel (k, b)
                (OrderedMap.get?_eq_some.mp hb) hnet hlower)⟩
          rw [h.found_iff.mpr ⟨b, hb, hnames⟩] at hfound
          cases hfound
      have hmake := h.make happ hnew
      have hr : r = (recordBufferId (addBuffer store networkId t) (bufferKey networkId t) bufferId,
          bufferKey networkId t) := by
        simp only [r, ensureBuffer, hknown, hfound]
      have hget : (addBuffer store networkId t).buffers.get? (bufferKey networkId t) =
          some (makeBuffer store.made networkId t) := by
        simp [addBuffer, OrderedMap.get?_set]
      have hunknown : known (addBuffer store networkId t) bufferId = none := by
        cases bufferId with
        | none => rfl
        | some i =>
          rw [Option.eq_none_iff_forall_ne_some]
          intro key hkey
          obtain ⟨b, hb, hi⟩ := hmake.known_iff.mp hkey
          rw [addBuffer, OrderedMap.get?_set] at hb
          split at hb
          · cases hb
            cases hi
          · rw [h.known_iff.mpr ⟨b, hb, hi⟩] at hknown
            cases hknown
      rw [hr]
      obtain ⟨hkeeps, hid⟩ := record_spec hget networkId t bufferId
      exact ⟨hmake.record hget hunknown, (addBuffer_keeps (h.free happ hnew)).trans hkeeps, hid,
        .inr (.inr ⟨rfl, rfl⟩)⟩

theorem Inv.ensure_network (h : Inv lower store) {n : Nat} {t : Text} (bufferId : Option Nat)
    (hspelled : Spelled lower store n t) :
    let r := ensureBuffer lower store (some n) t bufferId
    Inv lower r.1 ∧ Keeps (some n) t store r.1 ∧
      (∃ b, r.1.buffers.get? r.2 = some b ∧ ∀ i, bufferId = some i → b.id = some i) ∧
      (known store bufferId = some r.2 ∨ found lower store.buffers (some n) t = some r.2 ∨
        found lower store.buffers (some n) t = none ∧ r.2 = bufferKey (some n) t) := by
  refine h.ensure bufferId (fun hf => nomatch hf) fun m hm => ?_
  cases hm
  exact hspelled

variable (store) in
/-- The store without an entry. -/
def without : Option Text → Store μ
  | none => store
  | some key => (store.buffers.get? key).elim store (remove store key)

theorem without_some {k : Text} {b : Buffer μ} (hk : store.buffers.get? k = some b) :
    without store (some k) = remove store k b := by
  rw [without, hk]
  rfl

theorem Inv.without (h : Inv lower store) (gone : Option Text) :
    Inv lower (without store gone) := by
  cases gone with
  | none => exact h
  | some k =>
    cases hk : store.buffers.get? k with
    | none =>
      rw [BufferStore.without, hk]
      exact h
    | some b =>
      rw [without_some hk]
      exact h.remove hk

theorem get?_without (gone : Option Text) {k : Text} {b : Buffer μ} :
    (without store gone).buffers.get? k = some b ↔
      gone ≠ some k ∧ store.buffers.get? k = some b := by
  cases gone with
  | none => simp [without]
  | some g =>
    cases hg : store.buffers.get? g with
    | none =>
      rw [without, hg]
      refine ⟨fun hk => ⟨fun heq => ?_, hk⟩, fun hk => hk.2⟩
      rw [Option.some.inj heq, show store.buffers.get? k = some b from hk] at hg
      cases hg
    | some c =>
      rw [without_some hg, remove, OrderedMap.get?_delete]
      by_cases hk : k = g <;> simp [hk, eq_comm]

theorem Inv.found_without (h : Inv lower store) (gone : Option Text) {n : Nat} {t k : Text} :
    found lower (BufferStore.without store gone).buffers (some n) t = some k ↔
      gone ≠ some k ∧ found lower store.buffers (some n) t = some k := by
  rw [(h.without gone).found_iff, h.found_iff]
  simp only [get?_without]
  constructor
  · rintro ⟨b, ⟨hg, hb⟩, hn⟩
    exact ⟨hg, b, hb, hn⟩
  · rintro ⟨hg, b, hb, hn⟩
    exact ⟨b, ⟨hg, hb⟩, hn⟩

theorem drop_eq (networkId : Option Nat) (t : Text) :
    drop lower store networkId t = without store (found lower store.buffers networkId t) := by
  rw [drop]
  cases found lower store.buffers networkId t <;> rfl

/-- The name an entry goes by leads to what the given one does. -/
theorem Inv.found_canonical (h : Inv lower store) (n : Nat) (t : Text) :
    found lower store.buffers (some n) (canonicalTarget lower store (some n) t) =
      found lower store.buffers (some n) t := by
  cases hk : found lower store.buffers (some n) t with
  | none => rw [canonicalTarget, hk, Option.bind_none, Option.map_none, Option.getD_none, hk]
  | some k =>
    obtain ⟨b, hb, hnames⟩ := h.found_iff.mp hk
    rw [canonicalTarget, hk, Option.bind_some, hb]
    exact h.found_iff.mpr ⟨b, hb, hnames.1, .inl rfl⟩

theorem Inv.closed_eq (h : Inv lower store) (n : Nat) (t : Text) :
    bufferClosed lower store (some n) t = BufferStore.without store (found lower store.buffers (some n) t) := by
  rw [bufferClosed, dropBuffer, if_neg (by simp), drop_eq, h.found_canonical]

/-- The sweep removes the entry of the absorbed id, or else the one under the new name. -/
theorem Inv.absorb_eq (h : Inv lower store) (f : BufferRenamed) :
    absorb lower store f = BufferStore.without store (swept lower store f) := by
  rw [absorb, swept]
  cases hknown : known store f.mergedFromBufferId with
  | some key =>
    obtain ⟨i, hi⟩ : ∃ i, f.mergedFromBufferId = some i :=
      Option.ne_none_iff_exists'.mp fun hnone => by
        rw [hnone] at hknown
        cases hknown
    rw [hi] at hknown
    obtain ⟨b, hb, -⟩ := h.known_iff.mp hknown
    simp only [Option.bind_some, hb]
    cases hnet : b.networkId with
    | none => simp [bufferClosed, dropBuffer, BufferStore.without, Option.filter, hb, hnet]
    | some m =>
      have hfound : found lower store.buffers (some m) b.target = some key :=
        h.found_iff.mpr ⟨b, hb, hnet, .inl rfl⟩
      rw [h.closed_eq, hfound]
      simp [Option.filter, hb, hnet]
  | none =>
    simp only [Option.bind_none]
    cases hnet : f.networkId with
    | none =>
      simp only [Option.isNone_none, if_true, BufferStore.without]
      split
      · rfl
      · split
        · rfl
        · simp [bufferClosed, dropBuffer]
    | some n =>
      rw [if_neg (by simp)]
      cases hfound : found lower store.buffers (some n) f.toTarget with
      | none => rfl
      | some key =>
        obtain ⟨b, hb, -⟩ := h.found_iff.mp hfound
        simp only [Option.bind_some, hb, Option.filter_some]
        rw [h.closed_eq, hfound]
        cases hid : f.bufferId with
        | none => simp
        | some i =>
          by_cases hsame : b.id = some i <;> simp [hsame, BufferStore.without]

/-- What a rename in a network does: nothing, or the entry under the old name goes where the
new key is taken, or moves to it. -/
theorem Inv.rekey_cases (h : Inv lower store) (n : Nat) (t u : Text) :
    (rekeyBuffer lower store (some n) t u = store ∧ ∀ k ∈ found lower store.buffers (some n) t,
      k = bufferKey (some n) u) ∨
    ∃ k b, found lower store.buffers (some n) t = some k ∧ store.buffers.get? k = some b ∧
      Names lower n t b ∧ k ≠ bufferKey (some n) u ∧
      ((∃ c, store.buffers.get? (bufferKey (some n) u) = some c) ∧
          rekeyBuffer lower store (some n) t u = BufferStore.without store (some k) ∨
        store.buffers.get? (bufferKey (some n) u) = none ∧
          rekeyBuffer lower store (some n) t u =
            BufferStore.move store k (bufferKey (some n) u) b u) := by
  cases hfound : found lower store.buffers (some n) t with
  | none => exact .inl ⟨by simp [rekeyBuffer, hfound], fun k hk => nomatch hk⟩
  | some k =>
    obtain ⟨b, hb, hnames⟩ := h.found_iff.mp hfound
    by_cases hsame : k = bufferKey (some n) u
    · refine .inl ⟨by simp [rekeyBuffer, hfound, hsame], fun k' hk' => ?_⟩
      cases hk'
      exact hsame
    · refine .inr ⟨k, b, rfl, hb, hnames, hsame, ?_⟩
      cases hto : store.buffers.get? (bufferKey (some n) u) with
      | some c =>
        refine .inl ⟨⟨c, rfl⟩, ?_⟩
        simp [rekeyBuffer, hfound, hsame, OrderedMap.has, hto, drop_eq]
      | none =>
        refine .inr ⟨rfl, ?_⟩
        simp [rekeyBuffer, hfound, hsame, OrderedMap.has, hto, hb]

theorem Inv.rekey (h : Inv lower store) {n : Nat} {t u : Text}
    (hlands : Lands lower store n t u none) : Inv lower (rekeyBuffer lower store (some n) t u) := by
  obtain ⟨heq, -⟩ | ⟨k, b, hfound, hb, hnames, hne, ⟨-, heq⟩ | ⟨hfree, heq⟩⟩ := h.rekey_cases n t u
  · rw [heq]
    exact h
  · rw [heq]
    exact h.without _
  · rw [heq]
    refine h.move hb hnames.1 hfree fun k' c hc hnet hlower => ?_
    obtain rfl | rfl | hgone := hlands k hfound (fun hf => nomatch hf) (k', c)
      (OrderedMap.get?_eq_some.mp hc) hnet hlower
    · rw [hfree] at hc
      cases hc
    · rfl
    · cases hgone

theorem Inv.renamed_eq (h : Inv lower store) (n : Nat) (t u : Text) :
    bufferRenamed lower store (some n) t u = rekeyBuffer lower store (some n) t u := by
  rw [bufferRenamed, rekeyBuffer, rekeyBuffer, if_neg (by simp), if_neg (by simp)]
  simp only [drop_eq, h.found_canonical]

theorem bufferRenamed_none (t u : Text) : bufferRenamed lower store none t u = store := rfl

theorem Inv.lands_without (h : Inv lower store) {n : Nat} {t u : Text} {gone : Option Text}
    (hlands : Lands lower store n t u gone) :
    Lands lower (BufferStore.without store gone) n t u none := by
  intro k hk _ e he hnet hlower
  obtain ⟨hgone, hfound⟩ := (h.found_without gone).mp hk
  obtain ⟨hgone', he⟩ := (get?_without gone).mp (OrderedMap.get?_eq_some.mpr he)
  obtain hto | hfrom | heq := hlands k hfound hgone e (OrderedMap.get?_eq_some.mp he) hnet hlower
  · exact .inl hto
  · exact .inr (.inl hfrom)
  · exact absurd heq hgone'

/-- Some entry has the id. -/
def Knows (store : Store μ) (i : Nat) : Prop :=
  ∃ k b, store.buffers.get? k = some b ∧ b.id = some i

variable (lower) in
/-- The entry of the name has the id. -/
def Has (store : Store μ) (n : Nat) (t : Text) (i : Nat) : Prop :=
  ∃ k b, store.buffers.get? k = some b ∧ Names lower n t b ∧ b.id = some i

theorem Inv.ensure_has (h : Inv lower store) {n : Nat} {t : Text} {i : Nat}
    (hspelled : Spelled lower store n t)
    (hi : known store (some i) = none ∨ Has lower store n t i) :
    Has lower (ensureBuffer lower store (some n) t (some i)).1 n t i := by
  obtain ⟨hinv, hkeeps, ⟨b, hb, hid⟩, hkey⟩ := h.ensure_network (some i) hspelled
  refine ⟨_, b, hb, ?_, hid i rfl⟩
  have hold : ∀ k c, store.buffers.get? k = some c → Names lower n t c →
      (ensureBuffer lower store (some n) t (some i)).2 = k → Names lower n t b := by
    intro k c hc hnames heq
    obtain ⟨c', hc', -, hn, ht⟩ := hkeeps.stays k c hc
    rw [heq, hc'] at hb
    cases hb
    exact ⟨hn.trans hnames.1, ht ▸ hnames.2⟩
  obtain hknown | hfound | ⟨-, hmade⟩ := hkey
  · obtain hnone | ⟨k, c, hc, hnames, hci⟩ := hi
    · rw [hnone] at hknown
      cases hknown
    · rw [h.known_iff.mpr ⟨c, hc, hci⟩] at hknown
      exact hold k c hc hnames (Option.some.inj hknown).symm
  · obtain ⟨c, hc, hnames⟩ := h.found_iff.mp hfound
    exact hold _ c hc hnames rfl
  · obtain ⟨hnet, ht⟩ := hinv.network_key hb hmade
    exact ⟨hnet, .inl ht⟩

theorem refetch_cases (k : Text) : refetch store k = store ∨
    ∃ b slice, store.buffers.get? k = some b ∧
      refetch store k = { store with buffers := store.buffers.set k { b with slice } } := by
  rw [refetch]
  cases hk : store.buffers.get? k with
  | none => exact .inl rfl
  | some b =>
    cases hdetached : b.slice.detached with
    | true => exact .inl (if_pos hdetached)
    | false => exact .inr ⟨b, _, rfl, if_neg (by simp [hdetached])⟩

theorem Inv.refetch (h : Inv lower store) (k : Text) : Inv lower (refetch store k) := by
  obtain heq | ⟨b, slice, hb, heq⟩ := @refetch_cases _ store k <;> rw [heq]
  · exact h
  · exact h.slice hb slice

theorem refetch_keeps (networkId : Option Nat) (t k : Text) :
    Keeps networkId t store (refetch store k) := by
  obtain heq | ⟨b, slice, hb, heq⟩ := @refetch_cases _ store k <;> rw [heq]
  · exact Keeps.refl ..
  · exact Keeps.update hb { b with slice } rfl rfl rfl rfl rfl

theorem refetch_get {k k' : Text} {b : Buffer μ} (hk : store.buffers.get? k' = some b) :
    ∃ slice, (refetch store k).buffers.get? k' = some { b with slice } := by
  obtain heq | ⟨c, slice, hc, heq⟩ := @refetch_cases _ store k <;> rw [heq]
  · exact ⟨b.slice, hk⟩
  · simp only [OrderedMap.get?_set]
    split
    · rename_i hkey
      rw [hkey, hc] at hk
      cases hk
      exact ⟨slice, rfl⟩
    · exact ⟨b.slice, hk⟩

theorem Spelled.keeps {n : Nat} {t : Text} (h : Spelled lower store n t) {store' : Store μ}
    (hkeeps : Keeps (some n) t store store') : Spelled lower store' n t := by
  intro hsentinel e he hnet hlower
  obtain ⟨b, hb, -, hn, ht⟩ | ⟨-, -, ht⟩ := hkeeps.back e.1 e.2 (OrderedMap.get?_eq_some.mpr he)
  · rw [ht] at hlower ⊢
    exact h hsentinel (e.1, b) (OrderedMap.get?_eq_some.mp hb) (hn ▸ hnet) hlower
  · exact ht

/-- What follows a rename keeps the entries; of a merge, the entry of the new name has learned
the id, unless another entry has it. -/
theorem Inv.settle (h : Inv lower store) (f : BufferRenamed)
    (hspelled : ∀ n, f.networkId = some n → Spelled lower store n f.toTarget) :
    Inv lower (settle lower store f) ∧ Keeps f.networkId f.toTarget store (settle lower store f) ∧
      (f.merged = true → ∀ n i, f.networkId = some n → f.bufferId = some i →
        Knows (settle lower store f) i ∧
        (known store (some i) = none ∨ Has lower store n f.toTarget i →
          Has lower (settle lower store f) n f.toTarget i)) := by
  -- what is left to do once the buffer is at hand
  have hrest : ∀ (store' : Store μ) (key : Text), Inv lower store' →
      Keeps f.networkId f.toTarget store store' →
      (∀ n i, f.networkId = some n → f.bufferId = some i →
        known store (some i) = none ∨ Has lower store n f.toTarget i →
        known store' (some i) = none ∨ Has lower store' n f.toTarget i) →
      let last := if f.bufferId.isSome ∧ f.networkId.isSome then
        (ensureBuffer lower store' f.networkId f.toTarget f.bufferId).1 else store'
      let last := if f.merged then BufferStore.refetch last key else last
      Inv lower last ∧ Keeps f.networkId f.toTarget store last ∧
        (f.merged = true → ∀ n i, f.networkId = some n → f.bufferId = some i →
          Knows last i ∧ (known store (some i) = none ∨ Has lower store n f.toTarget i →
            Has lower last n f.toTarget i)) := by
    intro store' key h' hkeeps' hhas'
    cases hnet : f.networkId with
    | none =>
      simp only [Option.isSome_none, Bool.false_eq_true, and_false, if_false]
      rw [hnet] at hkeeps'
      cases hmerged : f.merged with
      | false => exact ⟨h', hkeeps', fun hf => nomatch hf⟩
      | true => exact ⟨h'.refetch key, hkeeps'.trans (refetch_keeps ..), fun _ _ _ hf => nomatch hf⟩
    | some n =>
      have hspelled' := hspelled n hnet
      rw [hnet] at hkeeps'
      cases hid : f.bufferId with
      | none =>
        simp only [Option.isSome_none, Bool.false_eq_true, false_and, if_false]
        cases hmerged : f.merged with
        | false => exact ⟨h', hkeeps', fun hf => nomatch hf⟩
        | true =>
          exact ⟨h'.refetch key, hkeeps'.trans (refetch_keeps ..), fun _ _ _ _ hf => nomatch hf⟩
      | some i =>
        simp only [Option.isSome_some, and_self, if_true]
        have hspelled'' := hspelled'.keeps hkeeps'
        obtain ⟨hinv, hkeeps, ⟨b, hb, hbi⟩, -⟩ := h'.ensure_network (some i) hspelled''
        cases hmerged : f.merged with
        | false => exact ⟨hinv, hkeeps'.trans hkeeps, fun hf => nomatch hf⟩
        | true =>
          refine ⟨hinv.refetch key, (hkeeps'.trans hkeeps).trans (refetch_keeps ..), ?_⟩
          rintro - n' i' heq hieq
          cases heq
          cases hieq
          obtain ⟨slice, hslice⟩ := refetch_get (k := key) hb
          refine ⟨⟨_, _, hslice, hbi i rfl⟩, fun hi => ?_⟩
          obtain ⟨k, c, hc, hnames, hci⟩ := h'.ensure_has hspelled'' (hhas' n i hnet hid hi)
          obtain ⟨slice', hslice'⟩ := refetch_get (k := key) hc
          exact ⟨k, _, hslice', hnames, hci⟩
  rw [BufferStore.settle]
  cases hfound : found lower store.buffers f.networkId f.toTarget with
  | some key => exact hrest store key h (Keeps.refl ..) fun _ _ _ _ hi => hi
  | none =>
    by_cases hmake : f.merged ∧ f.bufferId.isSome ∧ f.networkId.isSome
    · simp only [hmake, and_self, if_true]
      obtain ⟨n, hnet⟩ := Option.isSome_iff_exists.mp hmake.2.2
      obtain ⟨i, hid⟩ := Option.isSome_iff_exists.mp hmake.2.1
      obtain ⟨hinv, hkeeps, -, -⟩ := @Inv.ensure _ _ _ h f.networkId f.toTarget f.bufferId
        (fun hf => by rw [hnet] at hf; cases hf) hspelled
      have hgoal := hrest _ (ensureBuffer lower store f.networkId f.toTarget f.bufferId).2 hinv
        hkeeps (fun n' i' hn' hi' hi => by
          rw [hn', hi']
          exact .inr (h.ensure_has (hspelled n' hn') hi))
      simpa [hmake] using hgoal
    · rw [if_neg hmake]
      refine ⟨h, Keeps.refl .., fun hmerged n i hnet hid => ?_⟩
      exact absurd ⟨hmerged, by simp [hid], by simp [hnet]⟩ hmake

variable (lower store) in
/-- Which of the entries under the two names of a merge is the survivor's and which the
absorbed one, where one of the two ids is known. Either may be missing. -/
structure Roles (f : BufferRenamed) (n : Nat) (survivor absorbed : Option Text) : Prop where
  names : survivor = found lower store.buffers (some n) f.fromTarget ∧
      absorbed = found lower store.buffers (some n) f.toTarget ∨
    survivor = found lower store.buffers (some n) f.toTarget ∧
      absorbed = found lower store.buffers (some n) f.fromTarget
  apart : ∀ k, survivor = some k → absorbed ≠ some k
  survivorId : ∀ k, known store f.bufferId = some k → survivor = some k
  absorbedId : ∀ k, known store f.mergedFromBufferId = some k → absorbed = some k
  told : known store f.bufferId ≠ none ∨ known store f.mergedFromBufferId ≠ none

theorem without_back {gone : Option Text} {k : Text} {c : Buffer μ}
    (hc : (without store gone).buffers.get? k = some c) :
    ∃ k₀ c₀, store.buffers.get? k₀ = some c₀ ∧ c₀.id = c.id ∧ c₀.made = c.made :=
  ⟨k, c, ((get?_without gone).mp hc).2, rfl, rfl⟩

/-- A rename brings in no id and no object. -/
theorem Inv.rekey_back (h : Inv lower store) {n : Nat} {t u : Text} {k : Text} {c : Buffer μ}
    (hc : (rekeyBuffer lower store (some n) t u).buffers.get? k = some c) :
    ∃ k₀ c₀, store.buffers.get? k₀ = some c₀ ∧ c₀.id = c.id ∧ c₀.made = c.made := by
  obtain ⟨heq, -⟩ | ⟨k', b, -, hb, -, hne, ⟨-, heq⟩ | ⟨-, heq⟩⟩ := h.rekey_cases n t u
  · rw [heq] at hc
    exact ⟨k, c, hc, rfl, rfl⟩
  · rw [heq] at hc
    exact without_back hc
  · rw [heq] at hc
    obtain ⟨-, rfl⟩ | ⟨-, -, hc⟩ := (get?_move (Ne.symm hne) b u).mp hc
    · exact ⟨k', b, hb, rfl, rfl⟩
    · exact ⟨k, c, hc, rfl, rfl⟩

theorem swept_of_known {f : BufferRenamed} {k : Text} {b : Buffer μ} {n : Nat}
    (hknown : known store f.mergedFromBufferId = some k) (hk : store.buffers.get? k = some b)
    (hnet : b.networkId = some n) : swept lower store f = some k := by
  simp [swept, hknown, Option.filter, hk, hnet]

theorem swept_of_unknown {f : BufferRenamed} {k : Text} {b : Buffer μ} {n i : Nat}
    (hknown : known store f.mergedFromBufferId = none) (hnet : f.networkId = some n)
    (hid : f.bufferId = some i) (hfound : found lower store.buffers (some n) f.toTarget = some k)
    (hk : store.buffers.get? k = some b) :
    swept lower store f = if b.id = some i then none else some k := by
  by_cases hi : b.id = some i <;> simp [swept, hknown, hnet, hid, hfound, hk, hi]

section Merge

variable {f : BufferRenamed} {n : Nat} {survivor absorbed : Option Text}

/-- What the roles say where the absorbed id is not known: the surviving id is. -/
theorem Roles.surviving (hroles : Roles lower store f n survivor absorbed) (h : Inv lower store)
    (hknown : known store f.mergedFromBufferId = none) :
    ∃ i k b, f.bufferId = some i ∧ survivor = some k ∧ store.buffers.get? k = some b ∧
      b.id = some i := by
  obtain hs | ha := hroles.told
  · obtain ⟨k, hk⟩ := Option.ne_none_iff_exists'.mp hs
    obtain ⟨i, hi⟩ : ∃ i, f.bufferId = some i := Option.ne_none_iff_exists'.mp fun hnone => by
      rw [hnone] at hk
      cases hk
    have hsurvivor := hroles.survivorId k hk
    rw [hi] at hk
    obtain ⟨b, hb, hbi⟩ := h.known_iff.mp hk
    exact ⟨i, k, b, hi, hsurvivor, hb, hbi⟩
  · exact absurd hknown ha

/-- The entry of a role is one of the two names'. -/
theorem Roles.named (hroles : Roles lower store f n survivor absorbed) (h : Inv lower store)
    {k : Text} (hk : survivor = some k ∨ absorbed = some k) :
    ∃ b, store.buffers.get? k = some b ∧ b.networkId = some n := by
  have hfound : ∀ t, found lower store.buffers (some n) t = some k →
      ∃ b, store.buffers.get? k = some b ∧ b.networkId = some n := by
    intro t ht
    obtain ⟨b, hb, hnames⟩ := h.found_iff.mp ht
    exact ⟨b, hb, hnames.1⟩
  obtain ⟨hs, ha⟩ | ⟨hs, ha⟩ := hroles.names <;> obtain hk | hk := hk
  · exact hfound _ (hs.symm.trans hk)
  · exact hfound _ (ha.symm.trans hk)
  · exact hfound _ (hs.symm.trans hk)
  · exact hfound _ (ha.symm.trans hk)

/-- The sweep spares the survivor. -/
theorem Roles.spared (hroles : Roles lower store f n survivor absorbed) (h : Inv lower store)
    (hnet : f.networkId = some n) {k : Text} (hk : survivor = some k) :
    swept lower store f ≠ some k := by
  intro hswept
  cases hknown : known store f.mergedFromBufferId with
  | some g =>
    have habsorbed := hroles.absorbedId g hknown
    obtain ⟨b, hb, hn⟩ := hroles.named h (.inr habsorbed)
    rw [swept_of_known hknown hb hn] at hswept
    exact hroles.apart k hk (habsorbed.trans hswept)
  | none =>
    obtain ⟨i, k', b, hid, hsurvivor, hb, hbi⟩ := hroles.surviving h hknown
    obtain rfl := Option.some.inj (hk.symm.trans hsurvivor)
    simp [swept, hknown, hnet, hid, Option.filter_eq_some_iff, hb, hbi] at hswept

/-- An entry under the new name that is not the survivor's is swept. -/
theorem Roles.swept_to (hroles : Roles lower store f n survivor absorbed) (h : Inv lower store)
    (hnet : f.networkId = some n) {k : Text} (hk : absorbed = some k)
    (hto : found lower store.buffers (some n) f.toTarget = some k) :
    swept lower store f = some k := by
  obtain ⟨b, hb, hn⟩ := hroles.named h (.inr hk)
  cases hknown : known store f.mergedFromBufferId with
  | some g =>
    obtain rfl := Option.some.inj (hk.symm.trans (hroles.absorbedId g hknown))
    exact swept_of_known hknown hb hn
  | none =>
    obtain ⟨i, k', b', hid, hsurvivor, hb', hbi⟩ := hroles.surviving h hknown
    rw [swept_of_unknown hknown hnet hid hto hb, if_neg]
    intro hsame
    exact hroles.apart k' hsurvivor (h.unshared k k' b b' i hb hb' hsame hbi ▸ hk)

/-- Once the sweep and the rename are done the survivor's entry is the one under the new name. -/
theorem Roles.kept (hroles : Roles lower store f n survivor absorbed) (h : Inv lower store)
    (hnet : f.networkId = some n) {k : Text} {b : Buffer μ} (hk : survivor = some k)
    (hb : store.buffers.get? k = some b) :
    ∃ k' b', (rekeyBuffer lower (without store (swept lower store f)) (some n) f.fromTarget
      f.toTarget).buffers.get? k' = some b' ∧ b'.made = b.made ∧ b'.id = b.id ∧
        Names lower n f.toTarget b' := by
  have hspared := hroles.spared h hnet hk
  have hinv := h.without (swept lower store f)
  have hb₁ := (get?_without (swept lower store f)).mpr ⟨hspared, hb⟩
  -- where it is not under the old name it is under the new one
  have hto : found lower store.buffers (some n) f.fromTarget ≠ some k →
      Names lower n f.toTarget b := by
    intro hne
    obtain ⟨hs, -⟩ | ⟨hs, -⟩ := hroles.names
    · exact absurd (hs.symm.trans hk) hne
    · obtain ⟨c, hc, hnames⟩ := h.found_iff.mp (hs.symm.trans hk)
      rw [hb] at hc
      cases hc
      exact hnames
  obtain ⟨heq, hkey⟩ | ⟨k', c, hfound, hc, hnames, hne, hmoved⟩ :=
    hinv.rekey_cases n f.fromTarget f.toTarget
  · refine ⟨k, b, by rw [heq]; exact hb₁, rfl, rfl, ?_⟩
    by_cases hfrom : found lower store.buffers (some n) f.fromTarget = some k
    · have hsame := hkey k ((h.found_without _).mpr ⟨hspared, hfrom⟩)
      obtain ⟨hn, ht⟩ := h.network_key hb hsame
      exact ⟨hn, .inl ht⟩
    · exact hto hfrom
  · obtain ⟨hgone', hfrom⟩ := (h.found_without _).mp hfound
    by_cases hsame : k' = k
    · subst hsame
      rw [hb₁] at hc
      cases hc
      obtain ⟨⟨d, hd⟩, -⟩ | ⟨-, heq⟩ := hmoved
      · -- an entry under the very new name would be the absorbed one, which is gone
        obtain ⟨hgone, hd⟩ := (get?_without _).mp hd
        obtain ⟨hn, ht⟩ := h.network_key hd rfl
        have htaken := h.found_iff.mpr ⟨d, hd, hn, .inl ht⟩
        obtain ⟨hs, ha⟩ | ⟨hs, ha⟩ := hroles.names
        · exact absurd (hroles.swept_to h hnet (ha.trans htaken) htaken) hgone
        · rw [← hs, hk] at htaken
          exact absurd (Option.some.inj htaken) hne
      · refine ⟨bufferKey (some n) f.toTarget, renamedTo b f.toTarget, ?_, rfl, rfl, hnames.1,
          .inl rfl⟩
        rw [heq]
        exact (get?_move (Ne.symm hne) b f.toTarget).mpr (.inl ⟨rfl, rfl⟩)
    · have hnew := hto fun hf => hsame (Option.some.inj (hfrom.symm.trans hf))
      obtain ⟨-, heq⟩ | ⟨hfree, heq⟩ := hmoved
      · refine ⟨k, b, ?_, rfl, rfl, hnew⟩
        rw [heq]
        exact (get?_without _).mpr ⟨fun hf => hsame (Option.some.inj hf), hb₁⟩
      · refine ⟨k, b, ?_, rfl, rfl, hnew⟩
        rw [heq]
        refine (get?_move (Ne.symm hne) c f.toTarget).mpr (.inr ⟨Ne.symm hsame, ?_, hb₁⟩)
        rintro rfl
        rw [hfree] at hb₁
        cases hb₁

/-- Once the sweep and the rename are done no entry is the absorbed object. -/
theorem Roles.removed (hroles : Roles lower store f n survivor absorbed) (h : Inv lower store)
    (hnet : f.networkId = some n)
    (hlands : Lands lower store n f.fromTarget f.toTarget (swept lower store f)) {k : Text}
    {b : Buffer μ} (hk : absorbed = some k) (hb : store.buffers.get? k = some b) {k' : Text}
    {b' : Buffer μ} (hk' : (rekeyBuffer lower (without store (swept lower store f)) (some n)
      f.fromTarget f.toTarget).buffers.get? k' = some b') : b'.made ≠ b.made := by
  have hinv := h.without (swept lower store f)
  by_cases hswept : swept lower store f = some k
  · intro hmade
    obtain ⟨k₁, c₁, hc₁, -, hm⟩ := hinv.rekey_back hk'
    obtain ⟨hgone, hc₁⟩ := (get?_without _).mp hc₁
    exact hgone (h.distinct k k₁ b c₁ hb hc₁ (hm.trans hmade).symm ▸ hswept)
  · -- the absorbed id is not known, and the absorbed entry is under the old name
    have hknown : known store f.mergedFromBufferId = none := by
      rw [Option.eq_none_iff_forall_ne_some]
      intro g hg
      have habsorbed := hroles.absorbedId g hg
      obtain ⟨c, hc, hn⟩ := hroles.named h (.inr habsorbed)
      exact hswept ((swept_of_known hg hc hn).trans (habsorbed.symm.trans hk))
    obtain ⟨i, kS, bS, hid, hsurvivor, hbS, hbi⟩ := hroles.surviving h hknown
    obtain ⟨hs, ha⟩ | ⟨hs, ha⟩ := hroles.names
    · exact absurd (hroles.swept_to h hnet hk (ha.symm.trans hk)) hswept
    · have hfrom := ha.symm.trans hk
      have hto := hs.symm.trans hsurvivor
      have hnone : swept lower store f = none := by
        rw [swept_of_unknown hknown hnet hid hto hbS, if_pos hbi]
      obtain ⟨c, hc, hnamesS⟩ := h.found_iff.mp hto
      rw [hbS] at hc
      cases hc
      have hkS : kS = bufferKey (some n) f.toTarget := by
        obtain hkey | hsame | hgone := hlands k hfrom hswept (kS, bS)
          (OrderedMap.get?_eq_some.mp hbS) hnamesS.1 hnamesS.lower_eq
        · exact hkey
        · exact absurd (hk.trans (congrArg some hsame.symm)) (hroles.apart kS hsurvivor)
        · exact absurd hgone (hroles.spared h hnet hsurvivor)
      rw [hnone] at hk'
      obtain ⟨-, hkey⟩ | ⟨k₁, c₁, hfound, hc₁, -, hne, ⟨-, heq⟩ | ⟨hfree, -⟩⟩ :=
        h.rekey_cases n f.fromTarget f.toTarget
      · exact absurd (hk.trans (congrArg some ((hkey k hfrom).trans hkS.symm)))
          (hroles.apart kS hsurvivor)
      · obtain rfl := Option.some.inj (hfrom.symm.trans hfound)
        change (rekeyBuffer lower store (some n) f.fromTarget f.toTarget).buffers.get? k' = _ at hk'
        rw [heq] at hk'
        obtain ⟨hne', hk'⟩ := (get?_without _).mp hk'
        intro hmade
        exact hne' (congrArg some (h.distinct k k' b b' hb hk' hmade.symm))
      · rw [← hkS, hbS] at hfree
        cases hfree

end Merge

theorem Spelled.rekey (h : Inv lower store) {n : Nat} {t u : Text}
    (hspelled : Spelled lower store n u) :
    Spelled lower (rekeyBuffer lower store (some n) t u) n u := by
  intro hsentinel e he hnet hlower
  have he := OrderedMap.get?_eq_some.mpr he
  have hold : store.buffers.get? e.1 = some e.2 → e.2.target = u := fun he' =>
    hspelled hsentinel e (OrderedMap.get?_eq_some.mp he') hnet hlower
  obtain ⟨heq, -⟩ | ⟨k, b, -, -, -, hne, ⟨-, heq⟩ | ⟨-, heq⟩⟩ := h.rekey_cases n t u <;>
    rw [heq] at he
  · exact hold he
  · exact hold ((get?_without _).mp he).2
  · obtain ⟨-, hmoved⟩ | ⟨-, -, he⟩ := (get?_move (Ne.symm hne) b u).mp he
    · rw [hmoved, renamedTo]
    · exact hold he

theorem Spelled.without {n : Nat} {t : Text} (h : Spelled lower store n t) (gone : Option Text) :
    Spelled lower (without store gone) n t := fun hsentinel e he =>
  h hsentinel e (OrderedMap.get?_eq_some.mp
    ((get?_without gone).mp (OrderedMap.get?_eq_some.mpr he)).2)

theorem Inv.applied_eq (h : Inv lower store) (f : BufferRenamed) :
    applyBufferRenamed lower store f = BufferStore.settle lower (bufferRenamed lower
      (BufferStore.without store (if f.merged then swept lower store f else none)) f.networkId
        f.fromTarget f.toTarget) f := by
  rw [applyBufferRenamed]
  cases f.merged with
  | false => rfl
  | true => simp only [if_true, h.absorb_eq]

theorem Inv.applied (h : Inv lower store) {f : BufferRenamed}
    (hmeets : Meets lower store (.renamed f)) : Inv lower (applyBufferRenamed lower store f) := by
  rw [h.applied_eq]
  have hinv₁ := h.without (if f.merged then swept lower store f else none)
  cases hnet : f.networkId with
  | none =>
    rw [bufferRenamed_none]
    exact (hinv₁.settle f fun n hn => by rw [hnet] at hn; cases hn).1
  | some n =>
    obtain ⟨hspelled, hlands⟩ := hmeets n hnet
    rw [hinv₁.renamed_eq]
    refine ((hinv₁.rekey (h.lands_without hlands)).settle f fun m hm => ?_).1
    rw [hnet] at hm
    cases hm
    exact (hspelled.without _).rekey hinv₁

theorem Inv.filled (h : Inv lower store) (key : Text) (slice : Slice μ) :
    Inv lower (fill store key slice) := by
  rw [fill]
  cases hk : store.buffers.get? key with
  | none => exact h
  | some b => exact h.slice hk slice

theorem Inv.step (h : Inv lower store) (e : Event μ) (hmeets : Meets lower store e) :
    Inv lower (step lower store e) := by
  cases e with
  | ensure n t bufferId => exact (h.ensure_network bufferId hmeets).1
  | ensureSystem bufferId =>
    exact (@Inv.ensure _ _ _ h none systemKey bufferId (fun _ => rfl) fun _ hf => nomatch hf).1
  | drop n t =>
    rw [BufferStore.step, drop_eq]
    exact h.without _
  | rekey networkId t u =>
    cases networkId with
    | none => exact h
    | some n => exact h.rekey (hmeets n rfl)
  | renamed f => exact h.applied hmeets
  | fill key slice => exact h.filled key slice

instance {n : Nat} {target : Text} : Decidable (Spelled lower store n target) :=
  inferInstanceAs (Decidable (_ → _))

instance {n : Nat} {t u : Text} {gone : Option Text} : Decidable (Lands lower store n t u gone) :=
  inferInstanceAs (Decidable (∀ k ∈ found lower store.buffers (some n) t, gone ≠ some k →
    ∀ e ∈ store.buffers.entries, _ → _ → _))

instance (e : Event μ) : Decidable (Meets lower store e) :=
  match e with
  | .ensure n target _ => inferInstanceAs (Decidable (Spelled lower store n target))
  | .ensureSystem _ => .isTrue trivial
  | .drop _ _ => .isTrue trivial
  | .rekey networkId t u =>
    inferInstanceAs (Decidable (∀ n ∈ networkId, Lands lower store n t u none))
  | .renamed f => inferInstanceAs (Decidable (∀ n ∈ f.networkId, _ ∧ _))
  | .fill _ _ => .isTrue trivial

/-- Lower case of the letters of ASCII. -/
def lowerAscii (s : Text) : Text :=
  s.map fun c => if unit 'A' ≤ c ∧ c ≤ unit 'Z' then c + 32 else c

end Lurker.Client.BufferStore
