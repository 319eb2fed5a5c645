import DownloadWrapper.Lib.KeyedList
import Mathlib.Data.List.Perm.Subperm

/-!
# How a keyed list evolves

Between two states of a keyed list every entry goes on under its key, changed as a relation allows,
and new ones enter from a source. With a reflexive and transitive relation such evolutions compose,
so a long update is judged by its single ones.
-/

namespace KeyedList

variable {α κ : Type*} {key : α → κ}

/-- What becomes of the entry of one key. -/
inductive Fate (change : α → α → Prop) (source : α → Prop) : Option α → Option α → Prop
  | absent : Fate change source none none
  | kept {a b : α} (hchange : change a b) : Fate change source (some a) (some b)
  | entered {a b : α} (hsource : source a) (hchange : change a b) : Fate change source none (some b)

theorem Fate.mono {change change' : α → α → Prop} {source source' : α → Prop} {o o' : Option α}
    (h : Fate change source o o') (hchange : ∀ a b, change a b → change' a b)
    (hsource : ∀ a, source a → source' a) : Fate change' source' o o' := by
  cases h with
  | absent => exact .absent
  | kept h => exact .kept (hchange _ _ h)
  | entered hs h => exact .entered (hsource _ hs) (hchange _ _ h)

section Counterpart

variable {β : Type*} {key' : β → κ} {l : KeyedList key} {l' : KeyedList key'} {p : α → Bool}
  {q : β → Bool}

theorem count_le_length (ks : List κ) (h : ∀ a ∈ l, p a = true → key a ∈ ks) :
    l.count p ≤ ks.length := by
  have hnodup : ((l.entries.filter p).map key).Nodup :=
    l.nodup.sublist (List.filter_sublist.map key)
  have hsubset : (l.entries.filter p).map key ⊆ ks := by
    intro k hk
    obtain ⟨a, ha, rfl⟩ := List.mem_map.mp hk
    obtain ⟨hmem, hp⟩ := List.mem_filter.mp ha
    exact h a hmem hp
  have hlength := (List.subperm_of_subset hnodup hsubset).length_le
  simpa [count, List.countP_eq_length_filter] using hlength

theorem mem_keys_of_mem {b : β} (hmem : b ∈ l') (hq : q b = true) :
    key' b ∈ (l'.entries.filter q).map key' :=
  List.mem_map.mpr ⟨b, List.mem_filter.mpr ⟨hmem, hq⟩, rfl⟩

/-- A list whose counted entries all have counterparts under their keys counts no more. -/
theorem count_le_count (h : ∀ a ∈ l, p a = true → ∃ b ∈ l', q b = true ∧ key' b = key a) :
    l.count p ≤ l'.count q := by
  have hle : l.count p ≤ _ := count_le_length ((l'.entries.filter q).map key') fun a ha hp => by
    obtain ⟨b, hb, hq, hkey⟩ := h a ha hp
    exact hkey ▸ mem_keys_of_mem hb hq
  simpa [count, List.countP_eq_length_filter] using hle

theorem count_le_count_add_one [DecidableEq κ] (k : κ)
    (h : ∀ a ∈ l, p a = true → key a ≠ k → ∃ b ∈ l', q b = true ∧ key' b = key a) :
    l.count p ≤ l'.count q + 1 := by
  have hle : l.count p ≤ _ := count_le_length (k :: (l'.entries.filter q).map key') fun a ha hp => by
    by_cases hkey : key a = k
    · rw [hkey]
      exact List.mem_cons_self
    · obtain ⟨b, hb, hq, hsame⟩ := h a ha hp hkey
      exact List.mem_cons_of_mem k (hsame ▸ mem_keys_of_mem hb hq)
  simpa [count, List.countP_eq_length_filter] using hle

end Counterpart

theorem count_and_add_count_and_not (l : KeyedList key) (p q : α → Bool) :
    l.count (fun a => p a && q a) + l.count (fun a => p a && !q a) = l.count p := by
  simp only [count, ← List.countP_filter]
  exact (List.countP_eq_countP_filter_add l.entries p q).symm

variable [DecidableEq κ] {change : α → α → Prop} {source : α → Prop}

def Evolves (change : α → α → Prop) (source : α → Prop) (l l' : KeyedList key) : Prop :=
  ∀ k, Fate change source (l.find? k) (l'.find? k)

namespace Evolves

variable {l l' l'' : KeyedList key}

theorem mono {change' : α → α → Prop} {source' : α → Prop} (h : Evolves change source l l')
    (hchange : ∀ a b, change a b → change' a b) (hsource : ∀ a, source a → source' a) :
    Evolves change' source' l l' :=
  fun k => (h k).mono hchange hsource

theorem refl (hrefl : ∀ a, change a a) (l : KeyedList key) : Evolves change source l l := by
  intro k
  cases l.find? k with
  | none => exact .absent
  | some a => exact .kept (hrefl a)

/-- One evolution after another. An entry the second one lets in has only the second's change. -/
theorem comp {first second both : α → α → Prop} (h : Evolves first source l l')
    (h' : Evolves second source l' l'') (hboth : ∀ a b c, first a b → second b c → both a c)
    (hsecond : ∀ a b, second a b → both a b) : Evolves both source l l'' := by
  intro k
  have hfate := h k
  have hfate' := h' k
  generalize l.find? k = o at hfate ⊢
  generalize l'.find? k = o' at hfate hfate'
  generalize l''.find? k = o'' at hfate' ⊢
  cases hfate with
  | absent => exact hfate'.mono hsecond fun _ => id
  | kept hab =>
      cases hfate' with
      | kept hbc => exact .kept (hboth _ _ _ hab hbc)
  | entered hsource hab =>
      cases hfate' with
      | kept hbc => exact .entered hsource (hboth _ _ _ hab hbc)

theorem trans (htrans : ∀ a b c, change a b → change b c → change a c)
    (h : Evolves change source l l') (h' : Evolves change source l' l'') :
    Evolves change source l l'' :=
  h.comp h' htrans fun _ _ => id

theorem find? {k : κ} {a : α} (h : Evolves change source l l') (hfind : l.find? k = some a) :
    ∃ b, l'.find? k = some b ∧ change a b := by
  have hfate := h k
  rw [hfind] at hfate
  cases hb : l'.find? k with
  | none =>
      rw [hb] at hfate
      cases hfate
  | some b =>
      rw [hb] at hfate
      cases hfate with
      | kept hchange => exact ⟨b, rfl, hchange⟩

theorem find?_of_find? {k : κ} {b : α} (h : Evolves change source l l')
    (hfind : l'.find? k = some b) :
    (∃ a, l.find? k = some a ∧ change a b) ∨
      l.find? k = none ∧ ∃ a, source a ∧ change a b := by
  have hfate := h k
  rw [hfind] at hfate
  cases ha : l.find? k with
  | none =>
      rw [ha] at hfate
      cases hfate with
      | entered hsource hchange => exact Or.inr ⟨rfl, _, hsource, hchange⟩
  | some a =>
      rw [ha] at hfate
      cases hfate with
      | kept hchange => exact Or.inl ⟨a, rfl, hchange⟩

end Evolves

theorem evolves_map {l : KeyedList key} (f : α → α) (hf : ∀ a, key (f a) = key a)
    (hchange : ∀ a ∈ l, change a (f a)) : Evolves change source l (l.map f hf) := by
  intro k
  rw [find?_map]
  cases hfind : l.find? k with
  | none => exact .absent
  | some a => exact .kept (hchange a (find?_eq_some_iff.mp hfind).1)

theorem evolves_modify {l : KeyedList key} {k : κ} (f : α → α) (hf : ∀ a, key (f a) = key a)
    (hrefl : ∀ a, change a a) (hchange : ∀ a, l.find? k = some a → change a (f a)) :
    Evolves change source l (l.modify k f hf) := by
  refine evolves_map _ _ fun a ha => ?_
  split
  next hkey => exact hchange a (find?_eq_some_iff.mpr ⟨ha, hkey⟩)
  next => exact hrefl a

theorem evolves_filter {l : KeyedList key} {p : α → Bool} (hrefl : ∀ a, change a a)
    (hp : ∀ a ∈ l, p a = true) : Evolves change source l (l.filter p) := by
  intro k
  rw [find?_filter]
  cases hfind : l.find? k with
  | none => exact .absent
  | some a =>
      rw [Option.filter, if_pos (hp a (mem_of_find? hfind))]
      exact .kept (hrefl a)

theorem evolves_insert {l : KeyedList key} {a : α} (hrefl : ∀ a, change a a) (hsource : source a)
    (hnew : l.find? (key a) = none) : Evolves change source l (l.insert a) := by
  intro k
  rw [find?_insert]
  split
  next hkey =>
    rw [hkey, hnew]
    exact .entered hsource (hrefl a)
  next => exact Evolves.refl hrefl l k

end KeyedList
