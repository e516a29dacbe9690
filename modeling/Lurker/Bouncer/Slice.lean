import Lurker.Bouncer.Windows

/-!
# A window is a slice of one order

Three limited statements and two merges come to the same as sorting everything between the
bounds once and cutting it at one end.
-/

namespace Lurker.Bouncer

open Lurker.Irc (Str Casemapping)
open OrderDual (toDual)

-- `toLowerCase` of the platform
variable (toLower : Str → Str)

/-- The admitted lines and, when they are asked for, the reacts and unreacts between the bounds. -/
def rowsWithin (s : Store) (networkId bufferId : Nat) (mapping : Option Casemapping)
    (lower upper : Option Nat) (opts : HistoryWindowOptions) : List HistoryRow :=
  ((historyLines toLower s bufferId mapping opts).filter
      fun m => within lower upper m.time).map HistoryRow.line ++
    if opts.reactions then
      (reactionsWithin s networkId bufferId lower upper opts.withoutSelf).map HistoryRow.reaction
    else []

/-- The first `limit` of a list, or its last. -/
def slice (newestFirst : Bool) (limit : Nat) (rows : List HistoryRow) : List HistoryRow :=
  if newestFirst then rows.drop (rows.length - limit) else rows.take limit

variable {s : Store} {networkId bufferId : Nat} {mapping : Option Casemapping}
  {lower upper : Option Nat} {limit : Nat} {opts : HistoryWindowOptions}

/-- A window before it is put oldest first. -/
theorem loadHistoryWindow_firstOf : ∃ window,
    FirstOf opts.newestFirst HistoryRow.key limit
        (rowsWithin toLower s networkId bufferId mapping lower upper opts) window ∧
      loadHistoryWindow toLower s networkId (some bufferId) mapping lower upper limit opts =
        if opts.newestFirst then window.reverse else window := by
  have hlines := @loadHistoryWindowRows_first toLower s bufferId mapping lower upper limit opts
  simp only [loadHistoryWindow]
  refine ⟨_, ?_, rfl⟩
  unfold rowsWithin
  split
  · exact mergeHistory_first hlines loadReactionWindow_first
  · rw [List.append_nil]
    exact hlines

theorem key_nodup_of {α : Type*} {row : α → HistoryRow} {key : α → Nat ×ₗ Nat} {rows : List α}
    (hkey : ∀ a b, HistoryRow.key (row a) = HistoryRow.key (row b) → key a = key b)
    (h : (rows.map key).Nodup) : ((rows.map row).map HistoryRow.key).Nodup := by
  rw [List.map_map, List.nodup_iff_pairwise_ne, List.pairwise_map]
  rw [List.nodup_iff_pairwise_ne, List.pairwise_map] at h
  exact h.imp fun hne heq => hne (hkey _ _ heq)

theorem reactionsWithin_nodup (withoutSelf : Bool) :
    (((reactionsWithin s networkId bufferId lower upper withoutSelf).map
      HistoryRow.reaction).map HistoryRow.key).Nodup := by
  have hpart (unreacts : Bool) := @eventKeys_nodup s networkId bufferId withoutSelf unreacts
    fun r => within lower upper r.time
  have hkey : ∀ e e' : HistoryReaction,
      HistoryRow.key (.reaction e) = HistoryRow.key (.reaction e') →
        toLex (e.time, e.id) = toLex (e'.time, e'.id) := by
    intro e e' h
    simp only [HistoryRow.key, EmbeddingLike.apply_eq_iff_eq, Prod.mk.injEq] at h
    rw [h.1, h.2.2]
  unfold reactionsWithin
  rw [List.map_append, List.map_append, List.nodup_append]
  refine ⟨key_nodup_of hkey (hpart false), key_nodup_of hkey (hpart true), ?_⟩
  -- a react and an unreact differ in rank
  intro key hreact key' hunreact heq
  obtain ⟨row, hrow, rfl⟩ := List.mem_map.mp hreact
  obtain ⟨e, he, rfl⟩ := List.mem_map.mp hrow
  obtain ⟨row', hrow', rfl⟩ := List.mem_map.mp hunreact
  obtain ⟨e', he', rfl⟩ := List.mem_map.mp hrow'
  simp only [HistoryRow.key, EmbeddingLike.apply_eq_iff_eq, Prod.mk.injEq] at heq
  have hfalse := historyReactions_unreact e (List.mem_of_mem_filter he)
  have htrue := historyReactions_unreact e' (List.mem_of_mem_filter he')
  simp [rank, hfalse, htrue] at heq

theorem rowsWithin_nodup :
    ((rowsWithin toLower s networkId bufferId mapping lower upper opts).map
      HistoryRow.key).Nodup := by
  have hlines := historyLines_nodup toLower s bufferId mapping opts
    fun m => within lower upper m.time
  have hkey : ∀ m m' : MessageRow, HistoryRow.key (.line m) = HistoryRow.key (.line m') →
      toLex (m.time, m.id) = toLex (m'.time, m'.id) := by
    intro m m' h
    simp only [HistoryRow.key, EmbeddingLike.apply_eq_iff_eq, Prod.mk.injEq] at h
    rw [h.1, h.2.2]
  unfold rowsWithin
  rw [List.map_append, List.nodup_append]
  refine ⟨key_nodup_of hkey hlines, ?_, ?_⟩
  · split
    · exact reactionsWithin_nodup opts.withoutSelf
    · exact List.nodup_nil
  · intro key hline key' hreaction heq
    obtain ⟨row, hrow, rfl⟩ := List.mem_map.mp hline
    obtain ⟨m, -, rfl⟩ := List.mem_map.mp hrow
    split at hreaction
    · obtain ⟨row', hrow', rfl⟩ := List.mem_map.mp hreaction
      obtain ⟨e, -, rfl⟩ := List.mem_map.mp hrow'
      simp only [HistoryRow.key, EmbeddingLike.apply_eq_iff_eq, Prod.mk.injEq] at heq
      omega
    · cases hreaction

/-- A history window is the first or the last so many of everything between its bounds, in
the order of time, then line before react before unreact, then id. -/
theorem window_slice (s : Store) (networkId bufferId : Nat) (mapping : Option Casemapping)
    (lower upper : Option Nat) (limit : Nat) (opts : HistoryWindowOptions) :
    loadHistoryWindow toLower s networkId (some bufferId) mapping lower upper limit opts =
      slice opts.newestFirst limit
        ((rowsWithin toLower s networkId bufferId mapping lower upper opts).insertionSort
          (HistoryRow.key · ≤ HistoryRow.key ·)) := by
  obtain ⟨window, hfirst, heq⟩ := @loadHistoryWindow_firstOf toLower s networkId bufferId mapping
    lower upper limit opts
  have hsorted := Pages.pairwise_lt_sorted (@rowsWithin_nodup toLower s networkId bufferId mapping
    lower upper opts)
  have hmem (row : HistoryRow) :
      row ∈ (rowsWithin toLower s networkId bufferId mapping lower upper opts).insertionSort
          (HistoryRow.key · ≤ HistoryRow.key ·) ↔
        row ∈ rowsWithin toLower s networkId bufferId mapping lower upper opts :=
    List.mem_insertionSort _
  rw [heq, slice]
  unfold FirstOf at hfirst
  split
  · rename_i hnewest
    rw [if_pos hnewest] at hfirst
    have hcut := @Pages.isFirst_take _ _ _ (fun row => toDual (HistoryRow.key row)) _ _ limit
      (List.pairwise_reverse.mpr hsorted) fun row => List.mem_reverse.trans (hmem row)
    rw [hfirst.unique hcut, List.take_reverse, List.reverse_reverse]
  · rename_i hnewest
    rw [if_neg hnewest] at hfirst
    exact hfirst.unique (Pages.isFirst_take limit hsorted hmem)

end Lurker.Bouncer
