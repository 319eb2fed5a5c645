import Mathlib.Data.Option.Basic
import Mathlib.Logic.Function.Basic

/-!
# Maps with tombstones

A map whose entries are marked deleted, never dropped. An entry that is marked stays as it is: a write
passes it over, and there is nothing left to mark.
-/

structure Tombstoned (α : Type*) where
  value : α
  deleted : Bool
  deriving DecidableEq

/-- A map with tombstones. -/
abbrev TombMap (κ α : Type*) := κ → Option (Tombstoned α)

namespace TombMap

variable {κ α : Type*}

def Buried (m : TombMap κ α) (k : κ) : Prop := ∃ e, m k = some e ∧ e.deleted = true

def visible (m : TombMap κ α) (k : κ) : Option α := ((m k).filter fun e => !e.deleted).map Tombstoned.value

theorem visible_eq_some_iff {m : TombMap κ α} {k : κ} {a : α} :
    m.visible k = some a ↔ m k = some ⟨a, false⟩ := by
  simp only [visible, Option.map_eq_some_iff, Option.filter_eq_some_iff, Bool.not_eq_true']
  constructor
  · rintro ⟨⟨_, _⟩, ⟨hm, rfl⟩, rfl⟩
    exact hm
  · intro hm
    exact ⟨_, ⟨hm, rfl⟩, rfl⟩

def bury (p : κ → Bool) (m : TombMap κ α) : TombMap κ α :=
  fun k => if p k then (m k).map fun e => { e with deleted := true } else m k

theorem bury_of_not {p : κ → Bool} {k : κ} (h : p k = false) (m : TombMap κ α) : m.bury p k = m k := by
  simp [bury, h]

theorem Buried.bury {m : TombMap κ α} {k : κ} (h : m.Buried k) (p : κ → Bool) : m.bury p k = m k := by
  obtain ⟨⟨a, _⟩, hm, rfl⟩ := h
  rw [TombMap.bury, hm]
  split <;> rfl

theorem of_visible_bury {p : κ → Bool} {m : TombMap κ α} {k : κ} {a : α}
    (h : m.bury p k = some ⟨a, false⟩) : m k = some ⟨a, false⟩ := by
  rw [TombMap.bury] at h
  split at h
  · simp at h
  · exact h

variable [DecidableEq κ]

def alter (k : κ) (f : Option α → Option (Tombstoned α)) (m : TombMap κ α) : TombMap κ α :=
  if (m k).any Tombstoned.deleted then m else Function.update m k (f ((m k).map Tombstoned.value))

theorem alter_of_ne {k k' : κ} (h : k' ≠ k) (f : Option α → Option (Tombstoned α)) (m : TombMap κ α) :
    m.alter k f k' = m k' := by
  rw [alter]
  split
  · rfl
  · exact Function.update_of_ne h _ _

theorem Buried.alter_self {m : TombMap κ α} {k : κ} (h : m.Buried k)
    (f : Option α → Option (Tombstoned α)) : m.alter k f = m := if_pos ((Option.any_eq_true _ _).mpr h)

theorem alter_of_not {m : TombMap κ α} {k : κ} (h : ¬ m.Buried k)
    (f : Option α → Option (Tombstoned α)) :
    m.alter k f = Function.update m k (f ((m k).map Tombstoned.value)) :=
  if_neg fun hany => h ((Option.any_eq_true _ _).mp hany)

theorem alter_self_of_not {m : TombMap κ α} {k : κ} (h : ¬ m.Buried k)
    (f : Option α → Option (Tombstoned α)) : m.alter k f k = f ((m k).map Tombstoned.value) := by
  rw [alter_of_not h, Function.update_self]

theorem Buried.alter {m : TombMap κ α} {k : κ} (h : m.Buried k) (k' : κ)
    (f : Option α → Option (Tombstoned α)) : m.alter k' f k = m k := by
  by_cases hk : k = k'
  · rw [(hk ▸ h : m.Buried k').alter_self]
  · exact alter_of_ne hk f m

theorem of_alter {m : TombMap κ α} {k k' : κ} {f : Option α → Option (Tombstoned α)} {a : α}
    (h : m.alter k f k' = some ⟨a, false⟩) :
    k' = k ∧ ¬ m.Buried k ∧ f ((m k).map Tombstoned.value) = some ⟨a, false⟩ ∨
      k' ≠ k ∧ m k' = some ⟨a, false⟩ := by
  by_cases hk : k' = k
  · refine Or.inl ⟨hk, ?_⟩
    rw [hk] at h
    by_cases hburied : m.Buried k
    · rw [hburied.alter k f] at h
      obtain ⟨e, hm, hdeleted⟩ := hburied
      rw [hm] at h
      simp [Option.some.inj h] at hdeleted
    · rw [alter_self_of_not hburied] at h
      exact ⟨hburied, h⟩
  · exact Or.inr ⟨hk, alter_of_ne hk f m ▸ h⟩

end TombMap
