import Mathlib.Data.List.Nodup

namespace EchoKernel.IntervalTiling

open List

/-!
# Tiling an interval

A list of tiles covers an interval when every tile starts where the one before
ends. Only starts are stored; a tile extends to the next start, and the last
one to the end of the interval.
-/

variable {α : Type}

/-- Where the first tile starts; the end of the interval if none. -/
def nextStart (start : α → Nat) (hi : Nat) : List α → Nat
  | [] => hi
  | first :: _ => start first

/-- The tiles cover the interval from `lo` to `hi`; none is empty. -/
def Tiles (start : α → Nat) (hi : Nat) : Nat → List α → Prop
  | lo, [] => lo = hi
  | lo, first :: rest => start first = lo ∧ ∃ next, lo < next ∧ Tiles start hi next rest

/-- How far a tile extends. -/
def extent [DecidableEq α] (start : α → Nat) (hi : Nat) (tile : α) : List α → Nat
  | [] => 0
  | first :: rest =>
    if first = tile then nextStart start hi rest - start tile
    else extent start hi tile rest

section
variable {start : α → Nat} {lo hi : Nat} {before after : List α} {tiles : List α}

theorem Tiles.le (covers : Tiles start hi lo tiles) : lo ≤ hi := by
  induction tiles generalizing lo with
  | nil => exact Nat.le_of_eq covers
  | cons first rest inductionHypothesis =>
    obtain ⟨-, next, longer, restCovers⟩ := covers
    exact Nat.le_trans (Nat.le_of_lt longer) (inductionHypothesis restCovers)

theorem Tiles.nextStart_eq (covers : Tiles start hi lo tiles) : nextStart start hi tiles = lo := by
  cases tiles with
  | nil => exact covers.symm
  | cons first rest => exact covers.1

theorem tiles_append :
    Tiles start hi lo (before ++ after) ↔ ∃ middle,
    Tiles start middle lo before ∧ Tiles start hi middle after := by
  induction before generalizing lo with
  | nil =>
    constructor
    · intro covers
      exact ⟨lo, rfl, covers⟩
    · rintro ⟨middle, rfl, covers⟩
      exact covers
  | cons first rest inductionHypothesis =>
    constructor
    · rintro ⟨starts, next, longer, covers⟩
      obtain ⟨middle, restCovers, afterCovers⟩ := inductionHypothesis.mp covers
      exact ⟨middle, ⟨starts, next, longer, restCovers⟩, afterCovers⟩
    · rintro ⟨middle, ⟨starts, next, longer, restCovers⟩, afterCovers⟩
      exact ⟨starts, next, longer, inductionHypothesis.mpr ⟨middle, restCovers, afterCovers⟩⟩

theorem Tiles.congr
    {other : α → Nat}
    (covers : Tiles start hi lo tiles)
    (same : ∀ tile ∈ tiles, other tile = start tile) :
    Tiles other hi lo tiles := by
  induction tiles generalizing lo with
  | nil => exact covers
  | cons first rest inductionHypothesis =>
    obtain ⟨starts, next, longer, restCovers⟩ := covers
    refine ⟨(same first (by simp)).trans starts, next, longer, ?_⟩
    exact inductionHypothesis restCovers (fun tile member => same tile (by simp [member]))

theorem tiles_middle
    {tile : α} :
    Tiles start hi lo (before ++ tile :: after) ↔
    Tiles start (start tile) lo before ∧ ∃ next, start tile < next ∧ Tiles start hi next after := by
  rw [tiles_append]
  constructor
  · rintro ⟨middle, beforeCovers, rfl, next, longer, afterCovers⟩
    exact ⟨beforeCovers, next, longer, afterCovers⟩
  · rintro ⟨beforeCovers, next, longer, afterCovers⟩
    exact ⟨_, beforeCovers, rfl, next, longer, afterCovers⟩

theorem Tiles.lt_nextStart
    {tile : α}
    (covers : Tiles start hi lo (before ++ tile :: after)) :
    start tile < nextStart start hi after := by
  obtain ⟨-, next, longer, afterCovers⟩ := tiles_middle.mp covers
  rw [afterCovers.nextStart_eq]
  exact longer

theorem Tiles.split
    {tile new : α}
    (covers : Tiles start hi lo (before ++ tile :: after))
    (above : start tile < start new)
    (below : start new < nextStart start hi after) :
    Tiles start hi lo (before ++ tile :: new :: after) := by
  obtain ⟨beforeCovers, next, longer, afterCovers⟩ := tiles_middle.mp covers
  rw [afterCovers.nextStart_eq] at below
  exact tiles_middle.mpr ⟨beforeCovers, start new, above, rfl, next, below, afterCovers⟩

theorem Tiles.merge
    {tile next : α}
    (covers : Tiles start hi lo (before ++ tile :: next :: after)) :
    Tiles start hi lo (before ++ tile :: after) := by
  obtain ⟨beforeCovers, -, above, rfl, following, longer, afterCovers⟩ := tiles_middle.mp covers
  exact tiles_middle.mpr ⟨beforeCovers, following, Nat.lt_trans above longer, afterCovers⟩

section
variable (covers : Tiles start hi lo tiles)
include covers

theorem Tiles.start_mem {tile : α} (member : tile ∈ tiles) : lo ≤ start tile ∧ start tile < hi := by
  obtain ⟨before, after, rfl⟩ := append_of_mem member
  obtain ⟨beforeCovers, next, longer, afterCovers⟩ := tiles_middle.mp covers
  exact ⟨beforeCovers.le, Nat.lt_of_lt_of_le longer afterCovers.le⟩

/-- The tiles start at increasing addresses. -/
theorem Tiles.pairwise_lt : tiles.Pairwise fun first second => start first < start second := by
  induction tiles generalizing lo with
  | nil => exact .nil
  | cons first rest inductionHypothesis =>
    obtain ⟨starts, next, longer, restCovers⟩ := covers
    refine .cons ?_ (inductionHypothesis restCovers)
    intro tile member
    rw [starts]
    exact Nat.lt_of_lt_of_le longer (restCovers.start_mem member).1

theorem Tiles.start_injOn
    {first second : α}
    (firstMember : first ∈ tiles)
    (secondMember : second ∈ tiles)
    (same : start first = start second) :
    first = second := by
  have distinct : (tiles.map start).Nodup := pairwise_map.mpr (covers.pairwise_lt.imp Nat.ne_of_lt)
  exact inj_on_of_nodup_map distinct firstMember secondMember same

theorem Tiles.nodup : tiles.Nodup := by
  refine covers.pairwise_lt.imp ?_
  rintro first second earlier rfl
  exact Nat.lt_irrefl _ earlier

end

end

theorem notMem_of_nodup_middle
    {before after : List α}
    {tile : α}
    (distinct : (before ++ tile :: after).Nodup) :
    tile ∉ before ∧ tile ∉ after := by
  have head := nodup_cons.mp (nodup_middle.mp distinct)
  rw [mem_append, not_or] at head
  exact head.1

variable [DecidableEq α] {start : α → Nat} {lo hi : Nat} {before after : List α} {tile : α}

theorem extent_append_right
    (outside : tile ∉ before) :
    extent start hi tile (before ++ after) = extent start hi tile after := by
  induction before with
  | nil => rfl
  | cons first rest inductionHypothesis =>
    rw [mem_cons, not_or] at outside
    rw [cons_append, extent, if_neg (Ne.symm outside.1)]
    exact inductionHypothesis outside.2

theorem extent_middle
    (outside : tile ∉ before) :
    extent start hi tile (before ++ tile :: after) = nextStart start hi after - start tile := by
  rw [extent_append_right outside, extent, if_pos rfl]

/-- An earlier tile ends where the others start. -/
theorem extent_append_left
    (inside : tile ∈ before) :
    extent start hi tile (before ++ after) =
    extent start (nextStart start hi after) tile before := by
  induction before with
  | nil => cases inside
  | cons first rest inductionHypothesis =>
    rw [cons_append, extent, extent]
    by_cases same : first = tile
    · rw [if_pos same, if_pos same]
      cases rest <;> rfl
    rw [if_neg same, if_neg same]
    rcases mem_cons.mp inside with rfl | inRest
    · exact absurd rfl same
    · exact inductionHypothesis inRest

/-- Extents depend on where the tiles start. -/
theorem extent_congr
    {other : α → Nat}
    {tiles : List α}
    (same : ∀ tile ∈ tiles, other tile = start tile) :
    extent other hi tile tiles = extent start hi tile tiles := by
  induction tiles with
  | nil => rfl
  | cons first rest inductionHypothesis =>
    rw [extent, extent, inductionHypothesis (fun later member => same later (by simp [member]))]
    by_cases here : first = tile
    · subst here
      rw [if_pos rfl, if_pos rfl, same first (by simp)]
      cases rest with
      | nil => rfl
      | cons second others => simp only [nextStart, same second (by simp)]
    · rw [if_neg here, if_neg here]

theorem extent_merge
    {other next : α}
    (notTile : other ≠ tile)
    (notNext : other ≠ next) :
    extent start hi other (before ++ tile :: next :: after) =
    extent start hi other (before ++ tile :: after) := by
  induction before with
  | nil => simp [extent, notTile.symm, notNext.symm]
  | cons first rest inductionHypothesis =>
    rw [cons_append, cons_append, extent, inductionHypothesis]
    cases rest <;> rfl

/-- A tile ends inside the interval and is not empty. -/
theorem Tiles.extent_le
    {tiles : List α}
    (covers : Tiles start hi lo tiles)
    (member : tile ∈ tiles) :
    0 < extent start hi tile tiles ∧ start tile + extent start hi tile tiles ≤ hi := by
  have distinct := covers.nodup
  obtain ⟨before, after, rfl⟩ := append_of_mem member
  have outside := (notMem_of_nodup_middle distinct).1
  have below := covers.lt_nextStart
  obtain ⟨-, next, -, afterCovers⟩ := tiles_middle.mp covers
  have ordered := afterCovers.le
  rw [afterCovers.nextStart_eq] at below
  rw [extent_middle outside, afterCovers.nextStart_eq]
  omega

end EchoKernel.IntervalTiling
