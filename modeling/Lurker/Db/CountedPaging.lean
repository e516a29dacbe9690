import Mathlib.Data.PNat.Basic
import Lurker.Timeline.EventFilter

/-!
# Pages counted in the reader's unit

A page walks out from a cursor and stops at the row that spends its budget or at the end
of a bounded scan, and ships every row from the cursor to there. A reader pages on from
the furthest row of its last page, while rows come in behind the newest.
-/
namespace Lurker.Db.CountedPaging

open Lurker.Timeline (ModeChange PageUnit PageCountable countsTowardPage)

/-- A stored row: its id, its type and the change list that its `extra` parses to. -/
structure Row where
  id : ℕ+
  type : String
  modes : Option (List (Option ModeChange))
  deriving DecidableEq

/-- The rows of a buffer in the order of their ids. -/
structure Buffer where
  rows : List Row
  ascends : rows.Pairwise (·.id < ·.id)

structure PageOptions where
  before : Option Nat
  afterId : Option Nat
  limit : Nat
  maxScan : Nat

def renderableMaxScan : Nat := 2000

/-- A cursor of zero reads as none. -/
def given (cursor : Option Nat) : Option ℕ+ :=
  cursor.bind fun n => if h : 0 < n then some ⟨n, h⟩ else none

/-- What the scan reads of a row: the change list of mode rows alone. -/
def Row.scanned (r : Row) : PageCountable :=
  ⟨r.type, if r.type = "mode" then r.modes else none⟩

def Row.countable (r : Row) : PageCountable := ⟨r.type, r.modes⟩

def listMessagesById (b : Buffer) (before afterId : Option Nat) (limit : Nat) : List Row :=
  match given afterId with
  | some after => (b.rows.filter fun r : Row => after < r.id).take limit
  | none =>
    match given before with
    | some before => ((b.rows.filter fun r : Row => r.id < before).reverse.take limit).reverse
    | none => (b.rows.reverse.take limit).reverse

/-- The id of the row that spends the budget, or of the last row scanned. -/
def boundaryOf (unit : PageUnit) (limit : Nat) (last : ℕ+) : Nat → List Row → ℕ+
  | _, [] => last
  | counted, row :: rows =>
    if countsTowardPage row.scanned unit then
      if counted + 1 = limit then row.id else boundaryOf unit limit last (counted + 1) rows
    else boundaryOf unit limit last counted rows

def listMessagesCountedById (b : Buffer) (unit : PageUnit) (opts : PageOptions) : List Row :=
  if unit = .event then listMessagesById b opts.before opts.afterId opts.limit
  else
    let scanned :=
      match given opts.afterId with
      | some after => (b.rows.filter fun r : Row => after < r.id).take opts.maxScan
      | none =>
        match given opts.before with
        | some before => (b.rows.filter fun r : Row => r.id < before).reverse.take opts.maxScan
        | none => b.rows.reverse.take opts.maxScan
    match scanned.getLast? with
    | none => []
    | some last =>
      let boundary := boundaryOf unit opts.limit last.id 0 scanned
      match given opts.afterId with
      | some after => b.rows.filter fun r : Row => after < r.id && r.id ≤ boundary
      | none =>
        match given opts.before with
        | some before => b.rows.filter fun r : Row => boundary ≤ r.id && r.id < before
        | none => b.rows.filter fun r : Row => boundary ≤ r.id

structure AroundSlice where
  events : List Row
  hasMoreOlder : Bool
  hasMoreNewer : Bool

/-- None when the anchor is not a row of the buffer. -/
def listMessagesAround (b : Buffer) (anchorId halfLimit : Nat) (countBy : PageUnit) :
    Option AroundSlice :=
  (b.rows.find? fun r => r.id.val = anchorId).map fun anchor =>
    let older := listMessagesCountedById b countBy ⟨some anchorId, none, halfLimit, renderableMaxScan⟩
    let newer := listMessagesCountedById b countBy ⟨none, some anchorId, halfLimit, renderableMaxScan⟩
    let events := older ++ [anchor] ++ newer
    let oldest := (events.head?.getD anchor).id
    let newest := (events.getLast?.getD anchor).id
    { events := events
      hasMoreOlder := b.rows.any fun r => r.id < oldest
      hasMoreNewer := b.rows.any fun r => newest < r.id }

/-- Where a page starts from. -/
inductive Cursor
  | after (id : ℕ+)
  | before (id : ℕ+)
  | latest

def PageOptions.cursor (opts : PageOptions) : Cursor :=
  match given opts.afterId with
  | some id => .after id
  | none =>
    match given opts.before with
    | some id => .before id
    | none => .latest

/-- The rows on the cursor's side, oldest first. -/
def Buffer.side (b : Buffer) : Cursor → List Row
  | .after id => b.rows.filter fun r : Row => id < r.id
  | .before id => b.rows.filter fun r : Row => r.id < id
  | .latest => b.rows

/-- The rows of a side fall into those next to the cursor and the rest. -/
def Cursor.Cuts : Cursor → List Row → List Row → List Row → Prop
  | .after _, side, page, rest => side = page ++ rest
  | .before _, side, page, rest | .latest, side, page, rest => side = rest ++ page

/-- The rows of a list that count. -/
def counted (unit : PageUnit) (rows : List Row) : Nat :=
  (rows.filter fun r : Row => countsTowardPage r.countable unit).length

/-- A page is the stretch of rows next to its cursor, within its budget. A page below its
budget is all there is, or a whole scan. -/
structure IsPage (b : Buffer) (unit : PageUnit) (c : Cursor) (limit maxScan : Nat)
    (page : List Row) : Prop where
  next : ∃ rest, c.Cuts (b.side c) page rest ∧
    (counted unit page < limit → rest = [] ∨ page.length = maxScan)
  within : counted unit page ≤ limit
  empty : page = [] → b.side c = []

theorem countsTowardPage_scanned (r : Row) (unit : PageUnit) :
    countsTowardPage r.scanned unit = countsTowardPage r.countable unit := by
  cases unit with
  | event => rfl
  | chat => rfl
  | renderable =>
    by_cases hmode : r.type = "mode"
    · simp only [Row.scanned, Row.countable, if_pos hmode]
    · have hne : (r.type == "mode") = false := beq_false_of_ne hmode
      simp only [countsTowardPage, Row.scanned, Row.countable, hne, Bool.false_and]

theorem counted_append (unit : PageUnit) (xs ys : List Row) :
    counted unit (xs ++ ys) = counted unit xs + counted unit ys := by
  simp [counted]

theorem counted_singleton (unit : PageUnit) (r : Row) :
    counted unit [r] = if countsTowardPage r.countable unit then 1 else 0 := by
  unfold counted
  split <;> rename_i h <;> simp [h]

theorem counted_reverse (unit : PageUnit) (rows : List Row) :
    counted unit rows.reverse = counted unit rows := by
  simp [counted]

theorem counted_event (rows : List Row) : counted .event rows = rows.length := by
  simp [counted, countsTowardPage]

/-- The first part of a walk, up to what a page takes. -/
structure Near (unit : PageUnit) (limit maxScan : Nat) (walk near rest : List Row) : Prop where
  split : walk = near ++ rest
  within : counted unit near ≤ limit
  short : counted unit near < limit → rest = [] ∨ near.length = maxScan
  empty : near = [] → walk = []

/-- The boundary is a row of the scan, the last when the budget is not spent. -/
theorem boundaryOf_spec {unit : PageUnit} {limit : Nat} {last : ℕ+} {rows : List Row} :
    ∀ n, n < limit → rows.getLast?.map (·.id) = some last →
      ∃ pre r post, rows = pre ++ r :: post ∧ boundaryOf unit limit last n rows = r.id ∧
        n + counted unit (pre ++ [r]) ≤ limit ∧
        (n + counted unit (pre ++ [r]) < limit → post = []) := by
  induction rows with
  | nil => simp
  | cons row rows ih =>
    intro n hn hlast
    have hcons (m : Nat) (hm : m < limit)
        (hcount : m = n + counted unit [row])
        (hnext : boundaryOf unit limit last n (row :: rows) = boundaryOf unit limit last m rows) :
        ∃ pre r post, row :: rows = pre ++ r :: post ∧
          boundaryOf unit limit last n (row :: rows) = r.id ∧
          n + counted unit (pre ++ [r]) ≤ limit ∧
          (n + counted unit (pre ++ [r]) < limit → post = []) := by
      cases rows with
      | nil =>
        refine ⟨[], row, [], rfl, ?_, ?_, fun _ => rfl⟩
        · rw [hnext]
          exact (Option.some.inj hlast).symm
        · rw [List.nil_append]
          omega
      | cons row' rows =>
        rw [List.getLast?_cons_cons] at hlast
        obtain ⟨pre, r, post, hsplit, hid, hle, hend⟩ := ih m hm hlast
        refine ⟨row :: pre, r, post, by rw [hsplit]; rfl, hnext.trans hid, ?_, ?_⟩
        · rw [List.cons_append, ← List.singleton_append, counted_append]
          omega
        · intro hlt
          rw [List.cons_append, ← List.singleton_append, counted_append] at hlt
          exact hend (by omega)
    by_cases hrow : countsTowardPage row.scanned unit = true
    · have hone : counted unit [row] = 1 := by
        rw [counted_singleton, ← countsTowardPage_scanned, if_pos hrow]
      by_cases hspent : n + 1 = limit
      · refine ⟨[], row, rows, rfl, ?_, by rw [List.nil_append]; omega, fun hlt => ?_⟩
        · rw [boundaryOf, if_pos hrow, if_pos hspent]
        · rw [List.nil_append] at hlt
          omega
      · refine hcons (n + 1) (by omega) (by omega) ?_
        rw [boundaryOf, if_pos hrow, if_neg hspent]
    · have hzero : counted unit [row] = 0 := by
        rw [counted_singleton, ← countsTowardPage_scanned, if_neg hrow]
      refine hcons n hn (by omega) ?_
      rw [boundaryOf, if_neg hrow]

/-- A scan up to its boundary. -/
theorem near_of_boundary {unit : PageUnit} {limit maxScan : Nat} {walk : List Row} {last : Row}
    (hlimit : 0 < limit) (hlast : (walk.take maxScan).getLast? = some last) :
    ∃ pre r rest, Near unit limit maxScan walk (pre ++ [r]) rest ∧
      boundaryOf unit limit last.id 0 (walk.take maxScan) = r.id := by
  obtain ⟨pre, r, post, hsplit, hid, hle, hend⟩ :=
    @boundaryOf_spec unit limit last.id (walk.take maxScan) 0 hlimit (by rw [hlast]; rfl)
  rw [Nat.zero_add] at hle hend
  refine ⟨pre, r, post ++ walk.drop maxScan, ⟨?_, hle, fun hlt => ?_, by simp⟩, hid⟩
  · rw [List.append_assoc, List.singleton_append, ← List.cons_append, ← List.append_assoc, ← hsplit,
      List.take_append_drop]
  · obtain rfl := hend hlt
    rw [← hsplit, List.nil_append, List.length_take]
    by_cases hmore : maxScan ≤ walk.length
    · exact Or.inr (Nat.min_eq_left hmore)
    · exact Or.inl (List.drop_eq_nil_of_le (by omega))

/-- The first rows of a walk, each of which counts. -/
theorem near_take {limit maxScan : Nat} {walk : List Row} (hlimit : 0 < limit) :
    Near .event limit maxScan walk (walk.take limit) (walk.drop limit) where
  split := (List.take_append_drop limit walk).symm
  within := by
    rw [counted_event]
    exact List.length_take_le limit walk
  short hlt := by
    rw [counted_event, List.length_take] at hlt
    exact Or.inl (List.drop_eq_nil_of_le (by omega))
  empty hnil := by
    rcases List.take_eq_nil_iff.mp hnil with h | h
    · omega
    · exact h

/-- The walk from a cursor: the side, nearest row first. -/
def Buffer.walk (b : Buffer) : Cursor → List Row
  | .after id => b.side (.after id)
  | .before id => (b.side (.before id)).reverse
  | .latest => b.rows.reverse

/-- What a walk came to, oldest first. -/
def Cursor.turn : Cursor → List Row → List Row
  | .after _, near => near
  | .before _, near | .latest, near => near.reverse

theorem Near.isPage {b : Buffer} {unit : PageUnit} {limit maxScan : Nat} {c : Cursor}
    {near rest : List Row} (h : Near unit limit maxScan (b.walk c) near rest) :
    IsPage b unit c limit maxScan (c.turn near) := by
  obtain ⟨hsplit, hwithin, hshort, hempty⟩ := h
  cases c with
  | after id => exact ⟨⟨rest, hsplit, hshort⟩, hwithin, hempty⟩
  | before id | latest =>
    refine ⟨⟨rest.reverse, ?_, fun hlt => ?_⟩, ?_, fun hnil => ?_⟩
    · have := congrArg List.reverse hsplit
      rwa [List.reverse_append, Buffer.walk, List.reverse_reverse] at this
    · rw [Cursor.turn, counted_reverse] at hlt
      rw [Cursor.turn, List.reverse_eq_nil_iff, List.length_reverse]
      exact hshort hlt
    · rw [Cursor.turn, counted_reverse]
      exact hwithin
    · exact List.reverse_eq_nil_iff.mp (hempty (List.reverse_eq_nil_iff.mp hnil))

theorem filter_le_of_split {pre post : List Row} {r : Row}
    (h : (pre ++ r :: post).Pairwise (·.id < ·.id)) :
    ((pre ++ r :: post).filter fun x => x.id ≤ r.id) = pre ++ [r] := by
  obtain ⟨-, hcons, hpre⟩ := List.pairwise_append.mp h
  have hpost := (List.pairwise_cons.mp hcons).1
  rw [List.filter_append, List.filter_cons_of_pos (by simp),
    List.filter_eq_self.mpr fun x hx => decide_eq_true (hpre x hx r List.mem_cons_self).le,
    List.filter_eq_nil_iff.mpr fun x hx => by simpa using hpost x hx]

theorem filter_ge_of_split {pre post : List Row} {r : Row}
    (h : (pre ++ r :: post).Pairwise (·.id < ·.id)) :
    ((pre ++ r :: post).filter fun x => r.id ≤ x.id) = r :: post := by
  obtain ⟨-, hcons, hpre⟩ := List.pairwise_append.mp h
  have hpost := (List.pairwise_cons.mp hcons).1
  rw [List.filter_append, List.filter_cons_of_pos (by simp),
    List.filter_eq_nil_iff.mpr fun x hx => by simpa using hpre x hx r List.mem_cons_self,
    List.filter_eq_self.mpr fun x hx => decide_eq_true (hpost x hx).le, List.nil_append]

theorem Buffer.side_ascends (b : Buffer) (c : Cursor) : (b.side c).Pairwise (·.id < ·.id) := by
  cases c with
  | after id => exact b.ascends.filter _
  | before id => exact b.ascends.filter _
  | latest => exact b.ascends

/-- The statements of a page of events. -/
theorem listMessagesById_eq (b : Buffer) (opts : PageOptions) :
    listMessagesById b opts.before opts.afterId opts.limit =
      opts.cursor.turn ((b.walk opts.cursor).take opts.limit) := by
  unfold listMessagesById PageOptions.cursor
  cases given opts.afterId with
  | some after => rfl
  | none => cases given opts.before <;> rfl

/-- The rows between the cursor and a boundary. -/
def Buffer.stretch (b : Buffer) (boundary : ℕ+) : Cursor → List Row
  | .after id => (b.side (.after id)).filter fun r => r.id ≤ boundary
  | .before id => (b.side (.before id)).filter fun r => boundary ≤ r.id
  | .latest => b.rows.filter fun r => boundary ≤ r.id

/-- The scan and the fetch of a page counted in another unit. -/
theorem listMessagesCountedById_eq (b : Buffer) {unit : PageUnit} (hunit : unit ≠ .event)
    (opts : PageOptions) :
    listMessagesCountedById b unit opts =
      match ((b.walk opts.cursor).take opts.maxScan).getLast? with
      | none => []
      | some last =>
        b.stretch (boundaryOf unit opts.limit last.id 0 ((b.walk opts.cursor).take opts.maxScan))
          opts.cursor := by
  unfold listMessagesCountedById PageOptions.cursor
  rw [if_neg hunit]
  cases given opts.afterId with
  | some after =>
    dsimp only [Buffer.walk, Buffer.side, Buffer.stretch]
    cases (List.take opts.maxScan (b.rows.filter fun r : Row => after < r.id)).getLast? with
    | none => rfl
    | some last =>
      dsimp only
      rw [List.filter_filter]
      simp only [Bool.and_comm]
  | none =>
    cases given opts.before with
    | some before =>
      dsimp only [Buffer.walk, Buffer.side, Buffer.stretch]
      cases (List.take opts.maxScan (b.rows.filter fun r : Row => r.id < before).reverse).getLast?
        with
      | none => rfl
      | some last =>
        dsimp only
        rw [List.filter_filter]
    | none => rfl

/-- What is fetched up to a row of the walk is the walk up to that row. -/
theorem stretch_eq {b : Buffer} {c : Cursor} {pre rest : List Row} {r : Row}
    (h : b.walk c = pre ++ [r] ++ rest) : b.stretch r.id c = c.turn (pre ++ [r]) := by
  rw [List.append_assoc, List.singleton_append] at h
  have hback (side : List Row) (hasc : side.Pairwise (·.id < ·.id))
      (hside : side.reverse = pre ++ r :: rest) :
      (side.filter fun x => r.id ≤ x.id) = (pre ++ [r]).reverse := by
    have hsplit : side = rest.reverse ++ r :: pre.reverse := by
      rw [← List.reverse_reverse side, hside]
      simp
    rw [hsplit] at hasc ⊢
    rw [filter_ge_of_split hasc]
    simp
  cases c with
  | after id =>
    have hasc := b.side_ascends (.after id)
    rw [Buffer.stretch]
    rw [Buffer.walk] at h
    rw [h] at hasc ⊢
    exact filter_le_of_split hasc
  | before id => exact hback _ (b.side_ascends (.before id)) h
  | latest => exact hback _ b.ascends h

/-- Every page is the stretch of rows next to its cursor, within its budget. -/
theorem isPage (b : Buffer) (unit : PageUnit) (opts : PageOptions) (hlimit : 0 < opts.limit)
    (hscan : 0 < opts.maxScan) :
    IsPage b unit opts.cursor opts.limit opts.maxScan (listMessagesCountedById b unit opts) := by
  by_cases hunit : unit = .event
  · subst hunit
    rw [listMessagesCountedById, if_pos rfl, listMessagesById_eq]
    exact (near_take hlimit).isPage
  · rw [listMessagesCountedById_eq b hunit]
    cases hlast : ((b.walk opts.cursor).take opts.maxScan).getLast? with
    | none =>
      have hnil : b.walk opts.cursor = [] := by
        rcases List.take_eq_nil_iff.mp (List.getLast?_eq_none_iff.mp hlast) with h | h
        · omega
        · exact h
      have hnear : Near unit opts.limit opts.maxScan (b.walk opts.cursor) [] [] :=
        ⟨hnil, Nat.zero_le _, fun _ => Or.inl rfl, fun _ => hnil⟩
      have hturn : opts.cursor.turn [] = [] := by cases opts.cursor <;> rfl
      exact hturn ▸ hnear.isPage
    | some last =>
      obtain ⟨pre, r, rest, hnear, hid⟩ := near_of_boundary hlimit hlast
      dsimp only
      rw [hid, stretch_eq hnear.split]
      exact hnear.isPage

/-- A buffer over time: rows come in behind the newest. -/
structure Growing where
  now : Nat → Buffer
  grows : ∀ k, (now k).rows <+: (now (k + 1)).rows

def Cursor.options (c : Cursor) (limit maxScan : Nat) : PageOptions :=
  match c with
  | .after id => ⟨none, some id, limit, maxScan⟩
  | .before id => ⟨some id, none, limit, maxScan⟩
  | .latest => ⟨none, none, limit, maxScan⟩

/-- The page back from a row, or from the end. -/
def Cursor.back : Option ℕ+ → Cursor
  | some id => .before id
  | none => .latest

section Reader
variable (w : Growing) (unit : PageUnit) (limit maxScan : Nat)

/-- Page after page, each before the oldest row of the last. None when it runs out of fuel. -/
def readBack : Nat → Nat → Option ℕ+ → Option (List (List Row))
  | 0, _, _ => none
  | fuel + 1, k, before =>
    let page := listMessagesCountedById (w.now k) unit ((Cursor.back before).options limit maxScan)
    match page.head? with
    | none => some []
    | some oldest => (readBack fuel (k + 1) (some oldest.id)).map (page :: ·)

/-- Page after page, each after the newest row of the last. -/
def readForward : Nat → Nat → ℕ+ → Option (List (List Row))
  | 0, _, _ => none
  | fuel + 1, k, after =>
    let page := listMessagesCountedById (w.now k) unit ((Cursor.after after).options limit maxScan)
    match page.getLast? with
    | none => some []
    | some newest => (readForward fuel (k + 1) newest.id).map (page :: ·)

end Reader

theorem cursor_options (c : Cursor) (limit maxScan : Nat) : (c.options limit maxScan).cursor = c := by
  cases c with
  | after id | before id =>
    simp only [Cursor.options, PageOptions.cursor, given, Option.bind_some, Option.bind_none,
      dif_pos id.pos]
    rfl
  | latest => rfl

section Reading
variable {w : Growing} {unit : PageUnit} {limit maxScan : Nat}

theorem isPage_options (k : Nat) (c : Cursor) (hlimit : 0 < limit) (hscan : 0 < maxScan) :
    IsPage (w.now k) unit c limit maxScan
      (listMessagesCountedById (w.now k) unit (c.options limit maxScan)) := by
  have h := isPage (w.now k) unit (c.options limit maxScan)
  rw [cursor_options] at h
  cases c <;> exact h hlimit hscan

/-- Rows that come in lie above every row there is. -/
theorem before_stable {b b' : Buffer} (h : b.rows <+: b'.rows) {r : Row} (hr : r ∈ b.rows) :
    b'.side (.before r.id) = b.side (.before r.id) := by
  obtain ⟨new, hnew⟩ := h
  have hasc := b'.ascends
  rw [← hnew] at hasc
  have habove := (List.pairwise_append.mp hasc).2.2
  have hnone : (new.filter fun x => x.id < r.id) = [] :=
    List.filter_eq_nil_iff.mpr fun x hx => by simpa using (habove r hr x hx).le
  rw [Buffer.side, ← hnew, List.filter_append, hnone, List.append_nil]
  rfl

/-- The side before the oldest row of a page is what the page left of its own. -/
theorem before_oldest {b : Buffer} {before : Option ℕ+} {rest page : List Row} {oldest : Row}
    (h : b.side (Cursor.back before) = rest ++ oldest :: page) :
    b.side (.before oldest.id) = rest := by
  have hasc := b.side_ascends (Cursor.back before)
  rw [h] at hasc
  obtain ⟨-, hcons, hrest⟩ := List.pairwise_append.mp hasc
  have hmem : oldest ∈ b.side (Cursor.back before) := h ▸ by simp
  have hside : b.side (.before oldest.id) =
      (b.side (Cursor.back before)).filter fun r => r.id < oldest.id := by
    cases before with
    | none => rfl
    | some id =>
      have hlt : oldest.id < id := by simpa using (List.mem_filter.mp hmem).2
      rw [Cursor.back, Buffer.side, Buffer.side, List.filter_filter]
      refine List.filter_congr fun r _ => ?_
      by_cases hr : r.id < oldest.id
      · simp [hr, hr.trans hlt]
      · simp [hr]
  have hnone : (page.filter fun x => x.id < oldest.id) = [] := List.filter_eq_nil_iff.mpr
    fun x hx => by simpa using ((List.pairwise_cons.mp hcons).1 x hx).le
  rw [hside, h, List.filter_append, List.filter_cons_of_neg (by simp), hnone, List.append_nil,
    List.filter_eq_self.mpr fun x hx => decide_eq_true (hrest x hx oldest List.mem_cons_self)]

theorem readBack_covers (hlimit : 0 < limit) (hscan : 0 < maxScan) :
    ∀ fuel k before, ((w.now k).side (Cursor.back before)).length < fuel →
      ∃ pages, readBack w unit limit maxScan fuel k before = some pages ∧
        pages.reverse.flatten = (w.now k).side (Cursor.back before) := by
  intro fuel
  induction fuel with
  | zero => intro k before h; omega
  | succ fuel ih =>
    intro k before hfuel
    have hpage := @isPage_options w unit limit maxScan k (Cursor.back before) hlimit hscan
    obtain ⟨⟨rest, hcuts, -⟩, -, hempty⟩ := hpage
    have hcuts : (w.now k).side (Cursor.back before) = rest ++
        listMessagesCountedById (w.now k) unit ((Cursor.back before).options limit maxScan) := by
      cases before <;> exact hcuts
    rw [readBack]
    cases hp : listMessagesCountedById (w.now k) unit
        ((Cursor.back before).options limit maxScan) with
    | nil => exact ⟨[], rfl, (hempty hp).symm⟩
    | cons oldest page =>
      rw [hp] at hcuts
      have hleft := before_oldest hcuts
      have hmem : oldest ∈ (w.now k).rows := by
        have hin : oldest ∈ (w.now k).side (Cursor.back before) := hcuts ▸ by simp
        cases before with
        | none => exact hin
        | some id => exact (List.mem_filter.mp hin).1
      have hnext := (before_stable (w.grows k) hmem).trans hleft
      obtain ⟨pages, hread, hflat⟩ := ih (k + 1) (some oldest.id) (by
        rw [Cursor.back, hnext]
        rw [hcuts, List.length_append, List.length_cons] at hfuel
        omega)
      refine ⟨(oldest :: page) :: pages, ?_, ?_⟩
      · dsimp only [List.head?_cons]
        rw [hread]
        rfl
      · rw [List.reverse_cons, List.flatten_concat, hflat, Cursor.back, hnext, hcuts]

theorem Growing.prefix_of_le (w : Growing) {k l : Nat} (h : k ≤ l) :
    (w.now k).rows <+: (w.now l).rows := by
  induction l, h using Nat.le_induction with
  | base => exact List.prefix_rfl
  | succ l _ ih => exact ih.trans (w.grows l)

/-- What follows the newest row of a page, once more rows have come in. -/
theorem after_newest {b b' : Buffer} {after : ℕ+} {page rest new : List Row} {newest : Row}
    (hside : b.side (.after after) = page ++ newest :: rest) (hnew : b.rows ++ new = b'.rows) :
    b'.side (.after newest.id) = rest ++ new ∧
      b'.side (.after after) = (page ++ [newest]) ++ (rest ++ new) := by
  have hmem : newest ∈ b.side (.after after) := hside ▸ by simp
  obtain ⟨hrow, hlt⟩ := List.mem_filter.mp hmem
  have hlt : after < newest.id := by simpa using hlt
  have hasc := b'.ascends
  rw [← hnew] at hasc
  have habove := (List.pairwise_append.mp hasc).2.2 newest hrow
  have hafter : (new.filter fun r => after < r.id) = new :=
    List.filter_eq_self.mpr fun x hx => decide_eq_true (hlt.trans (habove x hx))
  have hnewest : (new.filter fun r => newest.id < r.id) = new :=
    List.filter_eq_self.mpr fun x hx => decide_eq_true (habove x hx)
  have hrest : b.side (.after newest.id) = rest := by
    have hsorted := b.side_ascends (.after after)
    rw [hside] at hsorted
    obtain ⟨-, hcons, hpage⟩ := List.pairwise_append.mp hsorted
    have hfilter : b.side (.after newest.id) =
        (b.side (.after after)).filter fun r => newest.id < r.id := by
      rw [Buffer.side, Buffer.side, List.filter_filter]
      refine List.filter_congr fun r _ => ?_
      by_cases hr : newest.id < r.id
      · simp [hr, hlt.trans hr]
      · simp [hr]
    have hnone : (page.filter fun r => newest.id < r.id) = [] := List.filter_eq_nil_iff.mpr
      fun x hx => by simpa using (hpage x hx newest List.mem_cons_self).le
    rw [hfilter, hside, List.filter_append, hnone, List.nil_append,
      List.filter_cons_of_neg (by simp), List.filter_eq_self.mpr
        fun x hx => decide_eq_true ((List.pairwise_cons.mp hcons).1 x hx)]
  constructor
  · rw [Buffer.side, ← hnew, List.filter_append, hnewest]
    exact congrArg (· ++ new) hrest
  · rw [Buffer.side, ← hnew, List.filter_append, hafter]
    show b.side (.after after) ++ new = _
    rw [hside]
    simp

/-- A page forward is empty with its side, or ends in a row of its side. -/
theorem forward_cases (hlimit : 0 < limit) (hscan : 0 < maxScan) (k : Nat) (after : ℕ+) :
    (listMessagesCountedById (w.now k) unit ((Cursor.after after).options limit maxScan) = [] ∧
        (w.now k).side (.after after) = []) ∨
      ∃ page newest rest,
        listMessagesCountedById (w.now k) unit ((Cursor.after after).options limit maxScan) =
          page ++ [newest] ∧ (w.now k).side (.after after) = page ++ newest :: rest := by
  obtain ⟨⟨rest, hcuts, -⟩, -, hempty⟩ :=
    @isPage_options w unit limit maxScan k (.after after) hlimit hscan
  have hcuts : (w.now k).side (.after after) =
    listMessagesCountedById (w.now k) unit ((Cursor.after after).options limit maxScan) ++ rest :=
      hcuts
  rcases List.eq_nil_or_concat
    (listMessagesCountedById (w.now k) unit ((Cursor.after after).options limit maxScan))
    with hnil | ⟨page, newest, hpage⟩
  · exact Or.inl ⟨hnil, hempty hnil⟩
  · rw [List.concat_eq_append] at hpage
    rw [hpage] at hcuts
    exact Or.inr ⟨page, newest, rest, hpage, by simpa using hcuts⟩

/-- The pages forward are the rows after the cursor, as the buffer is at the last page. -/
theorem readForward_covers (hlimit : 0 < limit) (hscan : 0 < maxScan) :
    ∀ fuel k after pages, readForward w unit limit maxScan fuel k after = some pages →
      pages.flatten = (w.now (k + pages.length)).side (.after after) := by
  intro fuel
  induction fuel with
  | zero => intro k after pages h; cases h
  | succ fuel ih =>
    intro k after pages h
    rw [readForward] at h
    rcases @forward_cases w unit limit maxScan hlimit hscan k after with
      ⟨hpage, hside⟩ | ⟨page, newest, rest, hpage, hside⟩
    · rw [hpage] at h
      obtain rfl := Option.some.inj h
      exact hside.symm
    · rw [hpage, List.getLast?_concat] at h
      obtain ⟨pages', hread, rfl⟩ := Option.map_eq_some_iff.mp h
      have hflat := ih (k + 1) newest.id pages' hread
      obtain ⟨new, hnew⟩ := w.prefix_of_le (show k ≤ k + 1 + pages'.length by omega)
      obtain ⟨hnext, hall⟩ := after_newest hside hnew
      have hlen : k + (pages'.length + 1) = k + 1 + pages'.length := by omega
      rw [List.flatten_cons, hflat, hnext, List.length_cons, hlen, hall]

/-- Reading forward stops when no more than so many rows ever come in. -/
theorem readForward_stops (hlimit : 0 < limit) (hscan : 0 < maxScan) {most : Nat}
    (hmost : ∀ k, (w.now k).rows.length ≤ most) :
    ∀ fuel k after, most + ((w.now k).side (.after after)).length < fuel + (w.now k).rows.length →
      ∃ pages, readForward w unit limit maxScan fuel k after = some pages := by
  intro fuel
  induction fuel with
  | zero =>
    intro k after h
    have := hmost k
    omega
  | succ fuel ih =>
    intro k after h
    rw [readForward]
    rcases @forward_cases w unit limit maxScan hlimit hscan k after with
      ⟨hpage, -⟩ | ⟨page, newest, rest, hpage, hside⟩
    · rw [hpage]
      exact ⟨[], rfl⟩
    · obtain ⟨new, hnew⟩ := w.grows k
      obtain ⟨hnext, -⟩ := after_newest hside hnew
      obtain ⟨pages, hread⟩ := ih (k + 1) newest.id (by
        rw [hnext, ← hnew, List.length_append, List.length_append]
        rw [hside, List.length_append, List.length_cons] at h
        omega)
      rw [hpage, List.getLast?_concat]
      dsimp only
      rw [hread]
      exact ⟨_, rfl⟩

end Reading

/-- A buffer falls into what is before a row, the row, and what is after it. -/
theorem rows_eq_around {b : Buffer} {anchor : Row} (h : anchor ∈ b.rows) :
    b.rows = b.side (.before anchor.id) ++ anchor :: b.side (.after anchor.id) := by
  obtain ⟨pre, post, hrows⟩ := List.append_of_mem h
  have hasc := b.ascends
  rw [hrows] at hasc
  obtain ⟨-, hcons, hpre⟩ := List.pairwise_append.mp hasc
  have hpost := (List.pairwise_cons.mp hcons).1
  have hbefore : b.side (.before anchor.id) = pre := by
    have hnone : (post.filter fun r => r.id < anchor.id) = [] := List.filter_eq_nil_iff.mpr
      fun x hx => by simpa using (hpost x hx).le
    rw [Buffer.side, hrows, List.filter_append, List.filter_cons_of_neg (by simp), hnone,
      List.append_nil, List.filter_eq_self.mpr
        fun x hx => decide_eq_true (hpre x hx anchor List.mem_cons_self)]
  have hafter : b.side (.after anchor.id) = post := by
    have hnone : (pre.filter fun r => anchor.id < r.id) = [] := List.filter_eq_nil_iff.mpr
      fun x hx => by simpa using (hpre x hx anchor List.mem_cons_self).le
    rw [Buffer.side, hrows, List.filter_append, hnone, List.nil_append,
      List.filter_cons_of_neg (by simp), List.filter_eq_self.mpr
        fun x hx => decide_eq_true (hpost x hx)]
  rw [hbefore, hafter, ← hrows]

/-- The slice around an anchor: a page before it, the anchor, and a page after it. -/
structure IsAround (b : Buffer) (unit : PageUnit) (halfLimit : Nat) (anchor : Row)
    (s : AroundSlice) : Prop where
  joined : ∃ older newer,
    IsPage b unit (.before anchor.id) halfLimit renderableMaxScan older ∧
      IsPage b unit (.after anchor.id) halfLimit renderableMaxScan newer ∧
      s.events = older ++ [anchor] ++ newer
  bounds : ∃ older newer, b.rows = older ++ s.events ++ newer ∧
    (s.hasMoreOlder = true ↔ older ≠ []) ∧ (s.hasMoreNewer = true ↔ newer ≠ [])

theorem any_before {older rows : List Row} {oldest : Row}
    (h : (older ++ oldest :: rows).Pairwise (·.id < ·.id)) :
    ((older ++ oldest :: rows).any fun r => r.id < oldest.id) = true ↔ older ≠ [] := by
  obtain ⟨-, hcons, hbelow⟩ := List.pairwise_append.mp h
  constructor
  · rintro hany rfl
    obtain ⟨r, hr, hlt⟩ := List.any_eq_true.mp hany
    have hlt : r.id < oldest.id := of_decide_eq_true hlt
    rcases List.mem_cons.mp hr with rfl | hr
    · exact lt_irrefl _ hlt
    · exact lt_asymm hlt ((List.pairwise_cons.mp hcons).1 r hr)
  · intro hne
    obtain ⟨r, hr⟩ := List.exists_mem_of_ne_nil _ hne
    exact List.any_eq_true.mpr ⟨r, List.mem_append_left _ hr,
      decide_eq_true (hbelow r hr oldest List.mem_cons_self)⟩

theorem any_after {newer rows : List Row} {newest : Row}
    (h : (rows ++ newest :: newer).Pairwise (·.id < ·.id)) :
    ((rows ++ newest :: newer).any fun r => newest.id < r.id) = true ↔ newer ≠ [] := by
  obtain ⟨-, hcons, hbelow⟩ := List.pairwise_append.mp h
  constructor
  · rintro hany rfl
    obtain ⟨r, hr, hlt⟩ := List.any_eq_true.mp hany
    have hlt : newest.id < r.id := of_decide_eq_true hlt
    rcases List.mem_append.mp hr with hr | hr
    · exact lt_asymm hlt (hbelow r hr newest List.mem_cons_self)
    · exact lt_irrefl _ (List.mem_singleton.mp hr ▸ hlt)
  · intro hne
    obtain ⟨r, hr⟩ := List.exists_mem_of_ne_nil _ hne
    exact List.any_eq_true.mpr ⟨r, List.mem_append_right _ (List.mem_cons_of_mem _ hr),
      decide_eq_true ((List.pairwise_cons.mp hcons).1 r hr)⟩

/-- Rows are left on either side of a stretch as its ends tell. -/
theorem more_of_ends {b : Buffer} {before events after : List Row} (anchor : Row)
    (hne : events ≠ []) (h : b.rows = before ++ events ++ after) :
    ((b.rows.any fun r => r.id < (events.head?.getD anchor).id) = true ↔ before ≠ []) ∧
      ((b.rows.any fun r => (events.getLast?.getD anchor).id < r.id) = true ↔ after ≠ []) := by
  have hasc := b.ascends
  constructor
  · obtain ⟨oldest, rest, rfl⟩ := List.exists_cons_of_ne_nil hne
    have hrows : b.rows = before ++ oldest :: (rest ++ after) := by simpa using h
    rw [hrows] at hasc ⊢
    exact any_before hasc
  · obtain ⟨rest, newest, rfl⟩ := (List.eq_nil_or_concat events).resolve_left hne
    have hrows : b.rows = (before ++ rest) ++ newest :: after := by simpa using h
    rw [hrows] at hasc ⊢
    rw [List.concat_eq_append, List.getLast?_concat]
    exact any_after hasc

theorem listMessagesAround_spec (b : Buffer) {anchorId halfLimit : Nat} (unit : PageUnit)
    (hlimit : 0 < halfLimit) {s : AroundSlice}
    (h : listMessagesAround b anchorId halfLimit unit = some s) :
    ∃ anchor ∈ b.rows, anchor.id.val = anchorId ∧ IsAround b unit halfLimit anchor s := by
  obtain ⟨anchor, hfind, rfl⟩ := Option.map_eq_some_iff.mp h
  have hmem := List.mem_of_find?_eq_some hfind
  have hid : anchor.id.val = anchorId := by simpa using List.find?_some hfind
  refine ⟨anchor, hmem, hid, ?_⟩
  subst hid
  have hscan : 0 < renderableMaxScan := by decide
  have holder := isPage b unit ((Cursor.before anchor.id).options halfLimit renderableMaxScan)
    hlimit hscan
  have hnewer := isPage b unit ((Cursor.after anchor.id).options halfLimit renderableMaxScan)
    hlimit hscan
  rw [cursor_options] at holder hnewer
  obtain ⟨⟨before, hbefore, -⟩, -, -⟩ := id holder
  obtain ⟨⟨after, hafter, -⟩, -, -⟩ := id hnewer
  have hrows := rows_eq_around hmem
  rw [hbefore, hafter] at hrows
  generalize hold : listMessagesCountedById b unit
    ((Cursor.before anchor.id).options halfLimit renderableMaxScan) = older at holder hrows
  generalize hnew : listMessagesCountedById b unit
    ((Cursor.after anchor.id).options halfLimit renderableMaxScan) = newer at hnewer hrows
  have hevents : b.rows = before ++ (older ++ [anchor] ++ newer) ++ after := by
    rw [hrows]
    simp only [List.append_assoc, List.cons_append, List.nil_append]
  obtain ⟨hmoreOlder, hmoreNewer⟩ := more_of_ends anchor (by simp) hevents
  subst hold hnew
  exact ⟨⟨_, _, holder, hnewer, rfl⟩, before, after, hevents, hmoreOlder, hmoreNewer⟩

/-- Pages leave no hole: each is the stretch of rows next to its cursor within its budget,
reading on from the end of each visits every row once and stops, and the slice around an
anchor is the two pages joined at it. -/
theorem counted_paging (unit : PageUnit) (limit maxScan : Nat) (hlimit : 0 < limit)
    (hscan : 0 < maxScan) :
    (∀ b before afterId, IsPage b unit (PageOptions.cursor ⟨before, afterId, limit, maxScan⟩) limit
      maxScan (listMessagesCountedById b unit ⟨before, afterId, limit, maxScan⟩)) ∧
    (∀ w before, ∃ fuel pages, readBack w unit limit maxScan fuel 0 before = some pages ∧
      pages.reverse.flatten = (w.now 0).side (Cursor.back before)) ∧
    (∀ w after fuel pages, readForward w unit limit maxScan fuel 0 after = some pages →
      pages.flatten = (w.now pages.length).side (.after after)) ∧
    (∀ w after most, (∀ k, (w.now k).rows.length ≤ most) →
      ∃ fuel pages, readForward w unit limit maxScan fuel 0 after = some pages) ∧
    (∀ b anchorId, listMessagesAround b anchorId limit unit = none ↔
      ∀ r ∈ b.rows, r.id.val ≠ anchorId) ∧
    (∀ b anchorId s, listMessagesAround b anchorId limit unit = some s →
      ∃ anchor ∈ b.rows, anchor.id.val = anchorId ∧ IsAround b unit limit anchor s) := by
  refine ⟨fun b before afterId => isPage b unit ⟨before, afterId, limit, maxScan⟩ hlimit hscan,
    fun w before => ?_, fun w after fuel pages h => ?_, fun w after most hmost => ?_,
    fun b anchorId => ?_, fun b anchorId s h => listMessagesAround_spec b unit hlimit h⟩
  · exact ⟨_, readBack_covers hlimit hscan _ 0 before (Nat.lt_succ_self _)⟩
  · simpa using readForward_covers hlimit hscan fuel 0 after pages h
  · exact ⟨most + ((w.now 0).side (.after after)).length + 1,
      readForward_stops hlimit hscan hmost _ 0 after (by omega)⟩
  · rw [listMessagesAround, Option.map_eq_none_iff, List.find?_eq_none]
    simp only [decide_eq_true_eq, ne_eq]

/-- Two joins behind a message ride along on its page. -/
theorem counted_paging_joins :
    let b : Buffer := ⟨[⟨3, "message", none⟩, ⟨4, "message", none⟩, ⟨7, "join", none⟩,
      ⟨9, "join", none⟩], by decide⟩
    listMessagesCountedById b .renderable ⟨none, none, 1, 5⟩ = b.rows.tail ∧
      IsPage b .renderable .latest 1 5 b.rows.tail := by
  intro b
  have hrows : listMessagesCountedById b .renderable ⟨none, none, 1, 5⟩ = b.rows.tail := by decide
  have hpage := (counted_paging .renderable 1 5 (by decide) (by decide)).1 b none none
  rw [hrows] at hpage
  exact ⟨hrows, hpage⟩

end Lurker.Db.CountedPaging
