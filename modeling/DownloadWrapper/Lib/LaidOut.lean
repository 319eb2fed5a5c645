import Mathlib.Algebra.Order.Ring.Int
import Mathlib.Data.List.Basic

/-!
# Lists laid out along positions

The elements of a list take consecutive positions from a start on, and each is related to its own.
-/

section LaidOut

variable {α : Type*} {R R' : Int → α → Prop} {start : Int} {xs ys : List α}

/-- Each element is related to its position; the first one is at `start`. -/
def LaidOut (R : Int → α → Prop) (start : Int) (xs : List α) : Prop :=
  ∀ (i : Nat) (a : α), xs[i]? = some a → R (start + i) a

theorem laidOut_nil (R : Int → α → Prop) (start : Int) : LaidOut R start [] := by
  intro i a ha
  simp at ha

theorem LaidOut.mono (h : LaidOut R start xs) (himp : ∀ pos a, R pos a → R' pos a) : LaidOut R' start xs :=
  fun i a ha => himp _ a (h i a ha)

theorem laidOut_append :
    LaidOut R start (xs ++ ys) ↔ LaidOut R start xs ∧ LaidOut R (start + xs.length) ys := by
  constructor
  · intro h
    refine ⟨fun i a ha => h i a ?_, fun i a ha => ?_⟩
    · rw [List.getElem?_append_left (List.getElem?_eq_some_iff.mp ha).1, ha]
    · have hback := h (xs.length + i) a (by rw [List.getElem?_append_right (by omega)]; simpa using ha)
      rw [add_assoc, ← Nat.cast_add]
      exact hback
  · rintro ⟨hfront, hback⟩ i a ha
    by_cases hi : i < xs.length
    · rw [List.getElem?_append_left hi] at ha
      exact hfront i a ha
    · rw [List.getElem?_append_right (Nat.not_lt.mp hi)] at ha
      have hat := hback (i - xs.length) a ha
      rwa [add_assoc, ← Nat.cast_add, Nat.add_sub_cancel' (Nat.not_lt.mp hi)] at hat

theorem LaidOut.take (h : LaidOut R start xs) (count : Nat) : LaidOut R start (xs.take count) := by
  rw [← List.take_append_drop count xs, laidOut_append] at h
  exact h.1

end LaidOut
