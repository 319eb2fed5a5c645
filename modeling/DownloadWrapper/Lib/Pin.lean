import Mathlib.Data.List.Basic

/-!
# First-wins registers

A register that keeps the first value it is given and refuses every different one after that. Blank
values stand for "nothing given": they pin nothing, and only a blank register accepts them. The
question the lemmas answer is when a register that has already been fed takes the same values with
the same result as one that has not.
-/

namespace Pin

variable {α : Type*} (blank : α → Prop) [DecidablePred blank] [DecidableEq α]

/-- Feed one value. -/
def pin (cur v : α) : Option α :=
  if blank cur then some (if blank v then cur else v) else if v = cur then some cur else none

def pinAll (cur : α) : List α → Option α
  | [] => some cur
  | v :: vs => (pin blank cur v).bind fun c => pinAll c vs

variable {blank}

@[simp] theorem pinAll_nil (cur : α) : pinAll blank cur [] = some cur := rfl

theorem pinAll_cons (cur v : α) (vs : List α) :
    pinAll blank cur (v :: vs) = (pin blank cur v).bind fun c => pinAll blank c vs := rfl

theorem pinAll_append (cur : α) (vs ws : List α) :
    pinAll blank cur (vs ++ ws) = (pinAll blank cur vs).bind fun c => pinAll blank c ws := by
  induction vs generalizing cur with
  | nil => rfl
  | cons v vs ih =>
      rw [List.cons_append, pinAll_cons, pinAll_cons, Option.bind_assoc]
      simp only [ih]

theorem pinAll_of_not_blank {cur : α} (h : ¬ blank cur) (vs : List α) :
    pinAll blank cur vs = if ∀ v ∈ vs, v = cur then some cur else none := by
  induction vs with
  | nil => simp
  | cons v vs ih =>
      rw [pinAll_cons, pin, if_neg h]
      by_cases hv : v = cur
      · rw [if_pos hv, Option.bind_some, ih]
        simp [hv]
      · rw [if_neg hv, Option.bind_none, if_neg]
        exact fun hall => hv (hall v List.mem_cons_self)

/-- What a register holds after all is what it held, or the first value a blank one was given. -/
theorem eq_or_of_pinAll {cur c : α} {vs : List α} (h : pinAll blank cur vs = some c) :
    c = cur ∨ blank cur ∧ ¬ blank c ∧ c ∈ vs := by
  induction vs generalizing cur with
  | nil => exact Or.inl (Option.some.inj h).symm
  | cons v vs ih =>
      by_cases hcur : blank cur
      · rw [pinAll_cons, pin, if_pos hcur, Option.bind_some] at h
        by_cases hv : blank v
        · rw [if_pos hv] at h
          exact (ih h).imp_right fun ⟨hb, hc, hmem⟩ => ⟨hb, hc, List.mem_cons_of_mem v hmem⟩
        · rw [if_neg hv] at h
          rcases ih h with rfl | ⟨hb, -, -⟩
          · exact Or.inr ⟨hcur, hv, List.mem_cons_self⟩
          · exact absurd hb hv
      · rw [pinAll_of_not_blank hcur] at h
        split at h
        · exact Or.inl (Option.some.inj h).symm
        · simp at h

/-- The values that are not blank are all one value, once a blank register took them all. -/
theorem eq_of_pinAll_of_mem {cur c v : α} {vs : List α} (h : pinAll blank cur vs = some c)
    (hmem : v ∈ vs) (hv : ¬ blank v) : v = c := by
  induction vs generalizing cur with
  | nil => simp at hmem
  | cons u vs ih =>
      by_cases hcur : blank cur
      · rw [pinAll_cons, pin, if_pos hcur, Option.bind_some] at h
        rcases List.mem_cons.mp hmem with rfl | hmem
        · rw [if_neg hv, pinAll_of_not_blank hv] at h
          split at h
          · exact Option.some.inj h
          · simp at h
        · exact ih h hmem
      · rw [pinAll_of_not_blank hcur] at h
        split at h
        next hall => exact (hall v hmem).trans (Option.some.inj h)
        next => simp at h

theorem pinAll_eq_none_of_fed {cur c : α} {vs ws : List α} (hfed : pinAll blank cur vs = some c)
    (h : pinAll blank cur ws = none) : pinAll blank c ws = none := by
  rcases eq_or_of_pinAll hfed with rfl | ⟨-, hc, -⟩
  · exact h
  · rw [pinAll_of_not_blank hc, if_neg]
    intro hall
    -- had it been given one value only, the blank register would have taken it
    cases ws with
    | nil => simp at h
    | cons w ws =>
        obtain rfl := hall w List.mem_cons_self
        have hagree : ∀ v ∈ ws, v = w := fun v hv => hall v (List.mem_cons_of_mem w hv)
        have htaken : pin blank cur w = some w := by
          rw [pin, if_neg hc]
          split
          · rfl
          next hcur =>
            rcases eq_or_of_pinAll hfed with rfl | ⟨hb, -, -⟩
            · exact if_pos rfl
            · exact absurd hb hcur
        rw [pinAll_cons, htaken, Option.bind_some, pinAll_of_not_blank hc, if_pos hagree] at h
        simp at h

/-- **When feeding first makes no difference.** The register ends with the same value if and only if
it was given nothing new, or the later values are all the one it was given, and not none. -/
theorem pinAll_fed_iff {cur c d : α} {vs ws : List α} (hfed : pinAll blank cur vs = some c)
    (h : pinAll blank cur ws = some d) :
    pinAll blank c ws = some d ↔
      ∀ v ∈ vs, ¬ blank v → ¬ blank cur ∨ ws ≠ [] ∧ ∀ w ∈ ws, w = v := by
  constructor
  · intro hsame v hv hnot
    obtain rfl := eq_of_pinAll_of_mem hfed hv hnot
    by_cases hcur : blank cur
    · right
      rw [pinAll_of_not_blank hnot] at hsame
      split at hsame
      next hall =>
        refine ⟨?_, hall⟩
        rintro rfl
        have hsame : cur = v := Option.some.inj (h.trans hsame.symm)
        exact hnot (hsame ▸ hcur)
      next => simp at hsame
    · exact Or.inl hcur
  · intro hall
    rcases eq_or_of_pinAll hfed with rfl | ⟨hcur, hc, hmem⟩
    · exact h
    · obtain ⟨hne, heq⟩ := (hall c hmem hc).resolve_left (not_not.mpr hcur)
      rw [pinAll_of_not_blank hc, if_pos heq]
      obtain ⟨w, ws, rfl⟩ := List.exists_cons_of_ne_nil hne
      obtain rfl := heq w List.mem_cons_self
      rw [Option.some.injEq]
      exact eq_of_pinAll_of_mem h List.mem_cons_self hc

end Pin
