import Mathlib.Data.List.Basic
import Mathlib.Algebra.BigOperators.Group.List.Basic
import Mathlib.Tactic.Linarith
import Mathlib.Tactic.Ring

/-!
# Closed integer intervals that tile a range

A list of closed intervals `(first, last)` tiles `[lo, hi)` when each is non-empty and begins right
after the one before it ends. Tiling is what makes "disjoint, in range and covering" one fact that
an induction on the list can carry.
-/

namespace Tiling

/-- The intervals, in order, are non-empty and cover `[lo, hi)` without gap or overlap. -/
def Tiles : List (Int × Int) → Int → Int → Prop
  | [], lo, hi => lo = hi
  | (first, last) :: rest, lo, hi => first = lo ∧ lo ≤ last ∧ Tiles rest (last + 1) hi

instance decidableTiles : ∀ (tiles : List (Int × Int)) (lo hi : Int), Decidable (Tiles tiles lo hi)
  | [], lo, hi => inferInstanceAs (Decidable (lo = hi))
  | (first, last) :: rest, lo, hi =>
      have := decidableTiles rest (last + 1) hi
      inferInstanceAs (Decidable (first = lo ∧ lo ≤ last ∧ Tiles rest (last + 1) hi))

@[simp] theorem tiles_nil {lo hi : Int} : Tiles [] lo hi ↔ lo = hi := Iff.rfl

@[simp] theorem tiles_cons {first last lo hi : Int} {rest : List (Int × Int)} :
    Tiles ((first, last) :: rest) lo hi ↔ first = lo ∧ lo ≤ last ∧ Tiles rest (last + 1) hi :=
  Iff.rfl

theorem Tiles.le {tiles : List (Int × Int)} {lo hi : Int} (h : Tiles tiles lo hi) : lo ≤ hi := by
  induction tiles generalizing lo with
  | nil => exact le_of_eq h
  | cons tile rest ih =>
      obtain ⟨-, hle, hrest⟩ := h
      have := ih hrest
      omega

theorem Tiles.mem_range {tiles : List (Int × Int)} {lo hi : Int} (h : Tiles tiles lo hi)
    {tile : Int × Int} (hmem : tile ∈ tiles) : lo ≤ tile.1 ∧ tile.1 ≤ tile.2 ∧ tile.2 < hi := by
  induction tiles generalizing lo with
  | nil => simp at hmem
  | cons head rest ih =>
      obtain ⟨hfirst, hle, hrest⟩ := h
      rcases List.mem_cons.mp hmem with rfl | hmem
      · have := hrest.le
        omega
      · have := ih hrest hmem
        omega

theorem Tiles.pairwise {tiles : List (Int × Int)} {lo hi : Int} (h : Tiles tiles lo hi) :
    tiles.Pairwise fun a b => a.2 < b.1 := by
  induction tiles generalizing lo with
  | nil => exact List.Pairwise.nil
  | cons head rest ih =>
      obtain ⟨-, -, hrest⟩ := h
      refine List.pairwise_cons.mpr ⟨fun tile hmem => ?_, ih hrest⟩
      have := (hrest.mem_range hmem).1
      omega

theorem Tiles.sum_length {tiles : List (Int × Int)} {lo hi : Int} (h : Tiles tiles lo hi) :
    (tiles.map fun tile => tile.2 - tile.1 + 1).sum = hi - lo := by
  induction tiles generalizing lo with
  | nil => simp_all
  | cons head rest ih =>
      obtain ⟨hfirst, -, hrest⟩ := h
      have := ih hrest
      simp only [List.map_cons, List.sum_cons]
      omega

theorem Tiles.exists_mem {tiles : List (Int × Int)} {lo hi : Int} (h : Tiles tiles lo hi)
    {position : Int} (hlo : lo ≤ position) (hhi : position < hi) :
    ∃ tile ∈ tiles, tile.1 ≤ position ∧ position ≤ tile.2 := by
  induction tiles generalizing lo with
  | nil =>
      rw [tiles_nil] at h
      omega
  | cons head rest ih =>
      obtain ⟨hfirst, hle, hrest⟩ := h
      by_cases hin : position ≤ head.2
      · exact ⟨head, List.mem_cons_self, by omega, hin⟩
      · obtain ⟨tile, hmem, hbounds⟩ := ih hrest (by omega)
        exact ⟨tile, List.mem_cons_of_mem _ hmem, hbounds⟩

theorem Tiles.append {front back : List (Int × Int)} {lo mid hi : Int} (hfront : Tiles front lo mid)
    (hback : Tiles back mid hi) : Tiles (front ++ back) lo hi := by
  induction front generalizing lo with
  | nil =>
      rw [tiles_nil] at hfront
      exact hfront ▸ hback
  | cons head rest ih =>
      obtain ⟨hfirst, hle, hrest⟩ := hfront
      exact ⟨hfirst, hle, ih hrest⟩

theorem tiles_chunks (lo width : Int) (hwidth : 0 < width) (count : Nat) :
    Tiles ((List.range count).map fun k : Nat =>
      (lo + width * k, lo + width * k + width - 1)) lo (lo + width * count) := by
  induction count with
  | zero => simp
  | succ count ih =>
      rw [List.range_succ, List.map_append, List.map_singleton]
      refine ih.append ⟨rfl, by omega, ?_⟩
      rw [tiles_nil]
      push_cast
      ring

end Tiling
