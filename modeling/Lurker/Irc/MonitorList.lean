import Lurker.Irc.Line
import Lurker.Lib.OrderedMap
import Mathlib.Algebra.Group.Nat.Defs

/-!
# A connection's MONITOR list

The network gives each connection one list of watched nicks. Lurker's own nicks
and those of its holders are merged, the network is sent only the difference,
and a nick it refused is forgotten: its slot, the number of nicks listed when it
was added, becomes the cap on the list.
-/

namespace Lurker.Irc

attribute [local instance] str_lawfulBEq

/-- What the list sends. -/
inductive MonitorLine where
  | remove (targets : Str)
  | add (targets : Str)
  | status
  deriving DecidableEq, Repr

/-- Bytes of targets on one line. -/
def maxTargetBytes : Nat := 400

def packNick (maxBytes : Nat) (acc : List Str × Str) (nick : Str) : List Str × Str :=
  let (lists, current) := acc
  let next := if current = [] then nick else current ++ ',' :: nick
  if current ≠ [] ∧ maxBytes < byteLength next then (lists ++ [current], nick) else (lists, next)

/-- Pack nicks into comma lists of at most `maxBytes` each. -/
def packTargets (nicks : List Str) (maxBytes : Nat) : List Str :=
  let (lists, current) := nicks.foldl (packNick maxBytes) ([], [])
  if current = [] then lists else lists ++ [current]

/-- A limit on the list; none is no limit. -/
abbrev Limit := Option Nat

def Limit.min : Limit → Limit → Limit
  | none, b => b
  | a, none => a
  | some a, some b => some (Nat.min a b)

/-- The list holds as many nicks as the limit allows. -/
def Limit.reached (limit : Limit) (size : Nat) : Bool := limit.any fun n => decide (n ≤ size)

structure Listed where
  /-- The nick as sent. -/
  nick : Str
  /-- The network's last answer for it, none until it gives one. -/
  online : Option Bool
  /-- How many nicks were listed when it was added. -/
  slot : Nat
  deriving DecidableEq, Repr

structure MonitorList (η : Type) where
  listed : OrderedMap Str Listed
  holders : List η
  /-- How many nicks the network really takes, as far as it has shown. -/
  cap : Limit
  statusQueued : Bool

/-- What one sync did. -/
structure MonitorSync where
  added : List Str
  skipped : List Str
  limit : Limit

variable {η : Type} [DecidableEq η] (fold : Str → Str)

namespace MonitorList

def start : MonitorList η := ⟨.empty, [], none, false⟩

def addHolder (m : MonitorList η) (holder : η) : MonitorList η :=
  if holder ∈ m.holders then m else { m with holders := m.holders ++ [holder] }

/-- False if `holder` wasn't one. -/
def removeHolder (m : MonitorList η) (holder : η) : MonitorList η × Bool :=
  ({ m with holders := m.holders.filter (· ≠ holder) }, decide (holder ∈ m.holders))

omit [DecidableEq η] in
/-- The last answer for `nick`, none if it isn't listed. -/
def status (m : MonitorList η) (nick : Str) : Option (Option Bool) :=
  (m.listed.get? (fold nick)).map Listed.online

def noteStatusOf (online : Bool) (listed : OrderedMap Str Listed) (nick : Str) :
    OrderedMap Str Listed :=
  match listed.get? (fold nick) with
  | some entry => listed.set (fold nick) { entry with online := some online }
  | none => listed

/-- Record a 730 or a 731. Unlisted nicks are ignored. -/
def noteStatus (m : MonitorList η) (nicks : List Str) (online : Bool) : MonitorList η :=
  { m with listed := nicks.foldl (noteStatusOf fold online) m.listed }

/-- Forget one refused nick, keeping the lowest slot so far. -/
def forgetRefused (acc : OrderedMap Str Listed × Limit) (nick : Str) :
    OrderedMap Str Listed × Limit :=
  match acc.1.get? (fold nick) with
  | some entry => (acc.1.delete (fold nick), acc.2.min (some entry.slot))
  | none => acc

/-- Forget nicks the network refused with a 734. -/
def noteRefused (m : MonitorList η) (nicks : List Str) : MonitorList η :=
  let (listed, slot) := nicks.foldl (forgetRefused fold) (m.listed, none)
  { m with listed, cap := if slot = none then m.cap else slot }

def requestStatus (m : MonitorList η) : MonitorList η := { m with statusQueued := true }

/-- The end of the turn a MONITOR S was queued in. -/
def turnEnds (m : MonitorList η) : MonitorList η × List MonitorLine :=
  if m.statusQueued then
    ({ m with statusQueued := false }, if 0 < m.listed.size then [.status] else [])
  else (m, [])

/-- The socket closed, and the network's list went with it. -/
def reset (m : MonitorList η) : MonitorList η := { m with listed := .empty, cap := none }

/-- Whose nicks a sync asks for: Lurker's own, then each holder's. -/
structure Wanted (η : Type) where
  wanted : OrderedMap Str Str
  ownKeys : List Str
  wantedBy : OrderedMap Str (List (η × Str))

def wantNick (wanted : OrderedMap Str Str) (nick : Str) : OrderedMap Str Str :=
  if wanted.has (fold nick) then wanted else wanted.set (fold nick) nick

def wantOwn (w : Wanted η) (nick : Str) : Wanted η :=
  if nick = [] then w
  else { w with wanted := wantNick fold w.wanted nick, ownKeys := w.ownKeys ++ [fold nick] }

def wantHeld (holder : η) (w : Wanted η) (nick : Str) : Wanted η :=
  if nick = [] then w
  else
    { w with
      wanted := wantNick fold w.wanted nick
      wantedBy := w.wantedBy.set (fold nick)
        (((w.wantedBy.get? (fold nick)).getD []) ++ [(holder, nick)]) }

def wantedOf (own : List Str) (holders : List η) (targets : η → List Str) : Wanted η :=
  holders.foldl (fun w holder => (targets holder).foldl (wantHeld fold holder) w)
    (own.foldl (wantOwn fold) ⟨.empty, [], .empty⟩)

/-- What a sync has done so far with the nicks it wants. -/
structure Adding (η : Type) where
  listed : OrderedMap Str Listed
  added : List Str
  skipped : List Str
  dropped : OrderedMap η (List Str)

/-- Tell the holders that asked for a nick that it doesn't fit. -/
def dropAskers (w : Wanted η) (dropped : OrderedMap η (List Str)) (key : Str) :
    OrderedMap η (List Str) :=
  ((w.wantedBy.get? key).getD []).foldl
    (fun dropped asker => dropped.set asker.1 (((dropped.get? asker.1).getD []) ++ [asker.2]))
    dropped

/-- Add a wanted nick while there is room. -/
def addNick (w : Wanted η) (room : Limit) (a : Adding η) (e : Str × Str) : Adding η :=
  let (key, nick) := e
  if a.listed.has key then a
  else if room.reached a.listed.size then
    { a with
      skipped := if key ∈ w.ownKeys then a.skipped ++ [nick] else a.skipped
      dropped := dropAskers w a.dropped key }
  else
    { a with
      listed := a.listed.set key ⟨nick, none, a.listed.size⟩
      added := a.added ++ [nick] }

/-- What a sync leaves: the list, the lines sent in order, the nicks each holder is
told did not fit, and its result. -/
structure Synced (η : Type) where
  list : MonitorList η
  lines : List MonitorLine
  dropped : OrderedMap η (List Str)
  result : MonitorSync

/-- Bring the network's list in line with Lurker's nicks and every holder's. -/
def sync (m : MonitorList η) (own : List Str) (targets : η → List Str) (limit : Limit) :
    Synced η :=
  let w := wantedOf fold own m.holders targets
  let kept := m.listed.filterKeys w.wanted.has
  let removed := (m.listed.entries.filter fun e => !w.wanted.has e.1).map fun e => e.2.nick
  let room := limit.min m.cap
  let a := w.wanted.entries.foldl (addNick w room) ⟨kept, [], [], .empty⟩
  let m := { m with listed := a.listed }
  { list := if a.added = [] then m else m.requestStatus
    lines := (packTargets removed maxTargetBytes).map .remove ++
      (packTargets a.added maxTargetBytes).map .add
    dropped := a.dropped
    result := ⟨a.added, a.skipped, room⟩ }

end MonitorList

/-- A nick that stands alone in a comma list. -/
def Single (nick : Str) : Prop := nick ≠ [] ∧ ',' ∉ nick

theorem pieces_sep (s t : Str) : pieces ',' (s ++ ',' :: t) = pieces ',' s ++ pieces ',' t := by
  unfold pieces
  have h : (s ++ ',' :: t).splitOn ',' = s.splitOn ',' ++ t.splitOn ',' :=
    List.splitOnP_append_cons s t (beq_self_eq_true ',')
  rw [h, List.filter_append]

theorem pieces_single {nick : Str} (h : Single nick) : pieces ',' nick = [nick] :=
  pieces_word h.2 h.1

/-- The nicks a set of comma lists names. -/
def namesOf (lists : List Str) : List Str := lists.flatMap (pieces ',')

theorem namesOf_packNick {maxBytes : Nat} {acc : List Str × Str} {nick : Str} (h : Single nick) :
    namesOf (packNick maxBytes acc nick).1 ++ pieces ',' (packNick maxBytes acc nick).2 =
      namesOf acc.1 ++ pieces ',' acc.2 ++ [nick] := by
  have hnext : pieces ',' (if acc.2 = [] then nick else acc.2 ++ ',' :: nick) =
      pieces ',' acc.2 ++ [nick] := by
    split
    · rename_i hempty
      rw [hempty, pieces_single h]
      rfl
    · rw [pieces_sep, pieces_single h]
  unfold packNick
  dsimp only
  generalize (if acc.2 = [] then nick else acc.2 ++ ',' :: nick) = next at hnext ⊢
  split
  · simp [namesOf, pieces_single h]
  · rw [hnext, List.append_assoc]

/-- The network reads the packed lists as the nicks, in their order. -/
theorem namesOf_packTargets {maxBytes : Nat} {nicks : List Str} (h : ∀ n ∈ nicks, Single n) :
    namesOf (packTargets nicks maxBytes) = nicks := by
  have hfold : ∀ acc : List Str × Str,
      namesOf (nicks.foldl (packNick maxBytes) acc).1 ++
        pieces ',' (nicks.foldl (packNick maxBytes) acc).2 =
      namesOf acc.1 ++ pieces ',' acc.2 ++ nicks := by
    induction nicks with
    | nil => intro acc; simp
    | cons nick nicks ih =>
      obtain ⟨hnick, hnicks⟩ := List.forall_mem_cons.mp h
      intro acc
      rw [List.foldl_cons, ih hnicks, namesOf_packNick hnick, List.append_assoc]
      rfl
  have hstart := hfold ([], [])
  unfold packTargets
  dsimp only
  split
  · rename_i hempty
    rw [hempty] at hstart
    simpa [namesOf, pieces] using hstart
  · simpa [namesOf, pieces] using hstart

/-- What fits of some nicks under a limit. -/
def Limit.fit {α : Type} (limit : Limit) (size : Nat) (xs : List α) : List α :=
  match limit with
  | none => xs
  | some n => xs.take (n - size)

theorem Limit.fit_reached {α : Type} {limit : Limit} {size : Nat} (h : limit.reached size = true)
    (xs : List α) : limit.fit size xs = [] := by
  cases limit with
  | none => cases h
  | some n =>
    have hle : n ≤ size := by simpa [Limit.reached] using h
    simp [Limit.fit, Nat.sub_eq_zero_of_le hle]

theorem Limit.fit_cons {α : Type} {limit : Limit} {size : Nat} (h : ¬ limit.reached size = true)
    (x : α) (xs : List α) : limit.fit size (x :: xs) = x :: limit.fit (size + 1) xs := by
  cases limit with
  | none => rfl
  | some n =>
    have hlt : size < n := by simpa [Limit.reached] using h
    obtain ⟨r, hr⟩ : ∃ r, n - size = r + 1 := ⟨n - size - 1, by omega⟩
    have hr' : n - (size + 1) = r := by omega
    simp [Limit.fit, hr, hr']

namespace MonitorList

/-- Each wanted key is the fold of its nick, which stands alone in a list. -/
def WantsNicks (wanted : OrderedMap Str Str) : Prop :=
  ∀ key nick, wanted.get? key = some nick → fold nick = key ∧ Single nick

variable {own : List Str} {holders : List η} {targets : η → List Str}

variable {fold}

theorem wantNick_nicks {wanted : OrderedMap Str Str} {nick : Str} (h : WantsNicks fold wanted)
    (hnick : Single nick) : WantsNicks fold (wantNick fold wanted nick) := by
  unfold wantNick
  split
  · exact h
  · intro key n hget
    rw [OrderedMap.get?_set] at hget
    split at hget
    · rename_i hkey
      obtain rfl := Option.some.inj hget
      exact ⟨hkey.symm, hnick⟩
    · exact h key n hget

omit [DecidableEq η] in
theorem wantOwn_nicks {w : Wanted η} {nick : Str} (h : WantsNicks fold w.wanted)
    (hnick : ',' ∉ nick) : WantsNicks fold (wantOwn fold w nick).wanted := by
  unfold wantOwn
  split
  · exact h
  · rename_i hne
    exact wantNick_nicks h ⟨hne, hnick⟩

omit [DecidableEq η] in
theorem wantHeld_nicks {holder : η} {w : Wanted η} {nick : Str} (h : WantsNicks fold w.wanted)
    (hnick : ',' ∉ nick) : WantsNicks fold (wantHeld fold holder w nick).wanted := by
  unfold wantHeld
  split
  · exact h
  · rename_i hne
    exact wantNick_nicks h ⟨hne, hnick⟩

omit [DecidableEq η] in
/-- A sync wants nicks when it is given nicks. -/
theorem wantedOf_nicks (hown : ∀ nick ∈ own, ',' ∉ nick)
    (htargets : ∀ holder, ∀ nick ∈ targets holder, ',' ∉ nick) :
    WantsNicks fold (wantedOf fold own holders targets).wanted := by
  have hfold {f : Wanted η → Str → Wanted η} {nicks : List Str}
      (hf : ∀ w, ∀ nick ∈ nicks, WantsNicks fold w.wanted → WantsNicks fold (f w nick).wanted)
      (w : Wanted η) (h : WantsNicks fold w.wanted) :
      WantsNicks fold (nicks.foldl f w).wanted := by
    induction nicks generalizing w with
    | nil => exact h
    | cons nick nicks ih =>
      refine ih (fun w n hn => hf w n (List.mem_cons_of_mem _ hn)) _ ?_
      exact hf w nick List.mem_cons_self h
  unfold wantedOf
  have hstart : WantsNicks fold (own.foldl (wantOwn fold)
      (⟨.empty, [], .empty⟩ : Wanted η)).wanted := by
    refine hfold (fun w nick hn h => wantOwn_nicks h (hown nick hn)) _ ?_
    intro key nick hget
    cases hget
  generalize own.foldl (wantOwn fold) (⟨.empty, [], .empty⟩ : Wanted η) = w at hstart ⊢
  induction holders generalizing w with
  | nil => exact hstart
  | cons holder holders ih =>
    apply ih
    exact hfold (fun w nick hn h => wantHeld_nicks h (htargets holder nick hn)) _ hstart

/-- The entries of nicks added one after the other. -/
def place : Nat → List (Str × Str) → List (Str × Listed)
  | _, [] => []
  | slot, e :: es => (e.1, ⟨e.2, none, slot⟩) :: place (slot + 1) es

/-- The wanted nicks that are not listed. -/
def fresh (listed : OrderedMap Str Listed) (es : List (Str × Str)) : List (Str × Str) :=
  es.filter fun e => !listed.has e.1

theorem entries_set_fresh {listed : OrderedMap Str Listed} {key : Str} (h : ¬ listed.has key = true)
    (v : Listed) : (listed.set key v).entries = listed.entries ++ [(key, v)] := by
  have hkey : key ∉ listed.entries.map Prod.fst := fun hmem => h (OrderedMap.has_iff.mpr hmem)
  simp [OrderedMap.set, hkey]

theorem fresh_set {listed : OrderedMap Str Listed} {key : Str} {v : Listed}
    {es : List (Str × Str)} (h : key ∉ es.map Prod.fst) :
    fresh (listed.set key v) es = fresh listed es := by
  refine List.filter_congr fun e he => ?_
  have hne : e.1 ≠ key := fun heq => h (heq ▸ List.mem_map_of_mem he)
  rw [OrderedMap.has, OrderedMap.get?_set, if_neg hne]
  rfl

/-- A sync adds what fits of the wanted nicks that are not listed, each with its slot. -/
theorem addNicks_eq (w : Wanted η) (room : Limit) {es : List (Str × Str)}
    (hes : (es.map Prod.fst).Nodup) (a : Adding η) :
    (es.foldl (addNick w room) a).listed.entries =
        a.listed.entries ++
          place a.listed.size (room.fit a.listed.size (fresh a.listed es)) ∧
      (es.foldl (addNick w room) a).added =
        a.added ++ (room.fit a.listed.size (fresh a.listed es)).map Prod.snd := by
  induction es generalizing a with
  | nil => cases room <;> simp [fresh, Limit.fit, place]
  | cons e es ih =>
    rw [List.map_cons, List.nodup_cons] at hes
    obtain ⟨hkey, hes⟩ := hes
    rw [List.foldl_cons]
    by_cases hhas : a.listed.has e.1 = true
    · have hadd : addNick w room a e = a := by simp [addNick, hhas]
      have hfresh : fresh a.listed (e :: es) = fresh a.listed es := by simp [fresh, hhas]
      rw [hadd, hfresh]
      exact ih hes a
    · have hfresh : fresh a.listed (e :: es) = e :: fresh a.listed es := by simp [fresh, hhas]
      rw [hfresh]
      by_cases hroom : room.reached a.listed.size = true
      · obtain ⟨h₁, h₂⟩ := ih hes (addNick w room a e)
        have hlisted : (addNick w room a e).listed = a.listed := by simp [addNick, hhas, hroom]
        have hadded : (addNick w room a e).added = a.added := by simp [addNick, hhas, hroom]
        rw [hlisted, Limit.fit_reached hroom] at h₁ h₂
        rw [Limit.fit_reached hroom, h₁, h₂, hadded]
        exact ⟨rfl, rfl⟩
      · obtain ⟨h₁, h₂⟩ := ih hes (addNick w room a e)
        have hlisted : (addNick w room a e).listed =
            a.listed.set e.1 ⟨e.2, none, a.listed.size⟩ := by simp [addNick, hhas, hroom]
        have hadded : (addNick w room a e).added = a.added ++ [e.2] := by
          simp [addNick, hhas, hroom]
        have hentries := entries_set_fresh hhas ⟨e.2, none, a.listed.size⟩
        have hsize : (a.listed.set e.1 ⟨e.2, none, a.listed.size⟩).size = a.listed.size + 1 := by
          rw [OrderedMap.size, hentries, List.length_append]
          rfl
        rw [hlisted, hsize, fresh_set hkey] at h₁ h₂
        rw [h₁, h₂, hadded, hentries, Limit.fit_cons hroom]
        simp [place]

/-- What a sync has to offer of the nicks it wants, and room for. -/
def offered (w : Wanted η) (room : Limit) (kept : OrderedMap Str Listed) : List (Str × Str) :=
  room.fit kept.size (fresh kept w.wanted.entries)

variable {m : MonitorList η} {limit : Limit}

variable (fold own targets) in
/-- The listed nicks a sync keeps. -/
def keptOf (m : MonitorList η) : OrderedMap Str Listed :=
  m.listed.filterKeys (wantedOf fold own m.holders targets).wanted.has

variable (fold own targets) in
/-- The listed nicks a sync takes off. -/
def removedOf (m : MonitorList η) : List Str :=
  (m.listed.entries.filter fun e =>
    !(wantedOf fold own m.holders targets).wanted.has e.1).map fun e => e.2.nick

variable (fold own targets limit) in
/-- The nicks a sync adds. -/
def offeredOf (m : MonitorList η) : List (Str × Str) :=
  offered (wantedOf fold own m.holders targets) (limit.min m.cap) (keptOf fold own targets m)

/-- A sync keeps the listed nicks that are wanted, adds what fits of the others, and
sends the network the difference. -/
theorem sync_eq :
    (sync fold m own targets limit).list.listed.entries =
        (keptOf fold own targets m).entries ++
          place (keptOf fold own targets m).size (offeredOf fold own targets limit m) ∧
      (sync fold m own targets limit).list.cap = m.cap ∧
      (sync fold m own targets limit).list.holders = m.holders ∧
      (sync fold m own targets limit).lines =
        (packTargets (removedOf fold own targets m) maxTargetBytes).map .remove ++
          (packTargets ((offeredOf fold own targets limit m).map Prod.snd) maxTargetBytes).map
            .add := by
  obtain ⟨hlisted, hadded⟩ := addNicks_eq (wantedOf fold own m.holders targets)
    (limit.min m.cap) (wantedOf fold own m.holders targets).wanted.nodup
    ⟨keptOf fold own targets m, [], [], .empty⟩
  unfold sync
  dsimp only
  refine ⟨?_, ?_, ?_, ?_⟩
  · refine Eq.trans ?_ hlisted
    split <;> rfl
  · split <;> rfl
  · split <;> rfl
  · rw [List.nil_append] at hadded
    exact congrArg (fun nicks => _ ++ (packTargets nicks maxTargetBytes).map MonitorLine.add) hadded

omit [DecidableEq η] in
/-- Refused nicks are forgotten. -/
theorem noteRefused_listed (m : MonitorList η) (nicks : List Str) :
    (noteRefused fold m nicks).listed = m.listed.filterKeys (fun key => key ∉ nicks.map fold) := by
  have hfold (acc : OrderedMap Str Listed × Limit) :
      (nicks.foldl (forgetRefused fold) acc).1 =
        acc.1.filterKeys (fun key => key ∉ nicks.map fold) := by
    induction nicks generalizing acc with
    | nil => exact OrderedMap.ext_entries (List.filter_eq_self.mpr (by simp)).symm
    | cons nick nicks ih =>
      rw [List.foldl_cons, ih]
      apply OrderedMap.ext_entries
      unfold forgetRefused
      split
      · simp only [OrderedMap.filterKeys, OrderedMap.restrict, OrderedMap.delete,
          List.filter_filter]
        refine List.filter_congr fun e _ => ?_
        by_cases h : e.1 = fold nick <;> simp [h]
      · rename_i hnone
        refine List.filter_congr fun e he => ?_
        have hne : e.1 ≠ fold nick := fun heq =>
          OrderedMap.get?_eq_none.mp hnone e.2 (heq ▸ he)
        simp [hne]
  exact hfold (m.listed, none)

theorem forgetRefused_slot {nicks : List Str} {n : Nat} (acc : OrderedMap Str Listed × Limit)
    (hslot : acc.2 = some n)
    (hle : ∀ nick ∈ nicks, ∀ e, acc.1.get? (fold nick) = some e → n ≤ e.slot) :
    (nicks.foldl (forgetRefused fold) acc).2 = some n := by
  induction nicks generalizing acc with
  | nil => exact hslot
  | cons nick nicks ih =>
    obtain ⟨hhead, htail⟩ := List.forall_mem_cons.mp hle
    rw [List.foldl_cons]
    unfold forgetRefused
    split
    · rename_i e he
      apply ih
      · have := hhead e he
        simp [hslot, Limit.min, this]
      · intro nick' hnick' e' he'
        rw [OrderedMap.get?_delete] at he'
        split at he'
        · cases he'
        · exact htail nick' hnick' e' he'
    · exact ih acc hslot htail

omit [DecidableEq η] in
/-- A refusal that names a listed nick first, and none with a lower slot, caps the list at its slot. -/
theorem noteRefused_cap {m : MonitorList η} {nick : Str} {nicks : List Str} {entry : Listed}
    (hget : m.listed.get? (fold nick) = some entry)
    (hle : ∀ n ∈ nicks, ∀ e, m.listed.get? (fold n) = some e → entry.slot ≤ e.slot) :
    (noteRefused fold m (nick :: nicks)).cap = some entry.slot := by
  have hslot : ((nick :: nicks).foldl (forgetRefused fold) (m.listed, none)).2 =
      some entry.slot := by
    rw [List.foldl_cons]
    have hfirst : forgetRefused fold (m.listed, none) nick =
        (m.listed.delete (fold nick), some entry.slot) := by
      simp [forgetRefused, hget, Limit.min]
    rw [hfirst]
    refine forgetRefused_slot _ rfl fun n hn e he => ?_
    rw [OrderedMap.get?_delete] at he
    split at he
    · cases he
    · exact hle n hn e he
  unfold noteRefused
  dsimp only
  rw [hslot]
  rfl

omit [DecidableEq η] in
/-- A refusal that names no listed nick changes nothing. -/
theorem noteRefused_void {m : MonitorList η} {nicks : List Str}
    (h : ∀ nick ∈ nicks, m.listed.get? (fold nick) = none) : noteRefused fold m nicks = m := by
  have hfold : nicks.foldl (forgetRefused fold) (m.listed, none) = (m.listed, none) := by
    induction nicks with
    | nil => rfl
    | cons nick nicks ih =>
      obtain ⟨hhead, htail⟩ := List.forall_mem_cons.mp h
      rw [List.foldl_cons]
      have hfirst : forgetRefused fold (m.listed, none) nick = (m.listed, none) := by
        simp [forgetRefused, hhead]
      rw [hfirst]
      exact ih htail
  unfold noteRefused
  rw [hfold]
  rfl

end MonitorList

end Lurker.Irc
