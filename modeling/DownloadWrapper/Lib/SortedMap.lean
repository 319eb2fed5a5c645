import Mathlib.Data.List.Basic
import Mathlib.Order.Lattice

/-!
# Maps as sorted lists

A map given by its entries in the order of their keys. Inserting keeps the order, so no key is there
twice.
-/

namespace SortedMap

variable {κ β : Type*} [LinearOrder κ]

def insertOrAssign (k : κ) (v : β) : List (κ × β) → List (κ × β)
  | [] => [(k, v)]
  | (k', v') :: rest =>
      if k < k' then (k, v) :: (k', v') :: rest
      else if k = k' then (k, v) :: rest
      else (k', v') :: insertOrAssign k v rest

/-- A key that is there keeps its value. -/
def tryEmplace (k : κ) (v : β) (l : List (κ × β)) : List (κ × β) :=
  if l.any fun entry => entry.1 = k then l else insertOrAssign k v l

def Sorted (l : List (κ × β)) : Prop := l.Pairwise fun entry next => entry.1 < next.1

variable {k : κ} {v : β} {l : List (κ × β)}

theorem mem_insertOrAssign {entry : κ × β} (h : entry ∈ insertOrAssign k v l) :
    entry = (k, v) ∨ entry ∈ l := by
  induction l with
  | nil => exact Or.inl (List.mem_singleton.mp h)
  | cons first rest ih =>
      obtain ⟨k', v'⟩ := first
      rw [insertOrAssign] at h
      split_ifs at h
      · exact List.mem_cons.mp h
      · exact (List.mem_cons.mp h).imp_right (List.mem_cons_of_mem _)
      · rcases List.mem_cons.mp h with rfl | hrest
        · exact Or.inr List.mem_cons_self
        · exact (ih hrest).imp_right (List.mem_cons_of_mem _)

theorem mem_tryEmplace {entry : κ × β} (h : entry ∈ tryEmplace k v l) : entry = (k, v) ∨ entry ∈ l := by
  rw [tryEmplace] at h
  split at h
  · exact Or.inr h
  · exact mem_insertOrAssign h

theorem Sorted.insertOrAssign (h : Sorted l) (k : κ) (v : β) : Sorted (insertOrAssign k v l) := by
  induction l with
  | nil => exact List.pairwise_singleton _ _
  | cons first rest ih =>
      obtain ⟨k', v'⟩ := first
      obtain ⟨hfirst, hrest⟩ := List.pairwise_cons.mp h
      rw [SortedMap.insertOrAssign]
      split_ifs with hlt heq
      · refine List.pairwise_cons.mpr ⟨List.forall_mem_cons.mpr ⟨hlt, fun entry hentry => ?_⟩, h⟩
        exact lt_trans hlt (hfirst entry hentry)
      · exact List.pairwise_cons.mpr ⟨heq ▸ hfirst, hrest⟩
      · refine List.pairwise_cons.mpr ⟨fun entry hentry => ?_, ih hrest⟩
        rcases mem_insertOrAssign hentry with rfl | hold
        · exact lt_of_le_of_ne (not_lt.mp hlt) (Ne.symm heq)
        · exact hfirst entry hold

theorem insertOrAssign_of_forall_lt (h : ∀ entry ∈ l, entry.1 < k) : insertOrAssign k v l = l ++ [(k, v)] := by
  induction l with
  | nil => rfl
  | cons first rest ih =>
      obtain ⟨hfirst, hrest⟩ := List.forall_mem_cons.mp h
      rw [insertOrAssign, if_neg (not_lt.mpr (le_of_lt hfirst)), if_neg (ne_of_gt hfirst), ih hrest]
      rfl

theorem Sorted.foldl_insertOrAssign (h : Sorted l) :
    l.foldl (fun map entry => SortedMap.insertOrAssign entry.1 entry.2 map) [] = l := by
  have hfold : ∀ done : List (κ × β), Sorted (done ++ l) →
      l.foldl (fun map entry => SortedMap.insertOrAssign entry.1 entry.2 map) done = done ++ l := by
    clear h
    induction l with
    | nil => exact fun done _ => (List.append_nil done).symm
    | cons first rest ih =>
        intro done hsorted
        have hbelow : ∀ entry ∈ done, entry.1 < first.1 := fun entry hentry =>
          (List.pairwise_append.mp hsorted).2.2 entry hentry first List.mem_cons_self
        rw [List.foldl_cons, insertOrAssign_of_forall_lt hbelow, ih _ (by simpa using hsorted)]
        simp
  exact hfold [] h

theorem Sorted.tryEmplace (h : Sorted l) (k : κ) (v : β) : Sorted (tryEmplace k v l) := by
  rw [SortedMap.tryEmplace]
  split
  · exact h
  · exact h.insertOrAssign k v

end SortedMap
