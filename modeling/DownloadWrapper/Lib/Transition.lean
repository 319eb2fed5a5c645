import Mathlib.Logic.Relation
import Mathlib.Order.Monotone.Basic
import Mathlib.Order.WellFounded
import Mathlib.Tactic.SplitIfs

/-!
# Guarded transition systems

A system is a partial step function on states and events. `ok` says which events are allowed in
which states, so one step function serves both the unrestricted runs and the runs whose steps all
meet a condition. An invariant is a fact one allowed step keeps; `Reaches.invariant` makes it a fact
about whole runs.
-/

namespace Transition

variable {σ ε : Type*} {step : σ → ε → Option σ} {ok : σ → ε → Prop}

def Next (step : σ → ε → Option σ) (ok : σ → ε → Prop) (s t : σ) : Prop :=
  ∃ e, ok s e ∧ step s e = some t

/-- Any number of allowed steps. -/
abbrev Reaches (step : σ → ε → Option σ) (ok : σ → ε → Prop) : σ → σ → Prop :=
  Relation.ReflTransGen (Next step ok)

def anyEvent (_ : σ) (_ : ε) : Prop := True

instance (s : σ) (e : ε) : Decidable (anyEvent s e) := isTrue trivial

theorem Next.mono {ok' : σ → ε → Prop} {s t : σ} (hok : ∀ s e, ok s e → ok' s e)
    (h : Next step ok s t) : Next step ok' s t := by
  obtain ⟨e, he, hstep⟩ := h
  exact ⟨e, hok s e he, hstep⟩

theorem Reaches.mono {ok' : σ → ε → Prop} {s t : σ} (hok : ∀ s e, ok s e → ok' s e)
    (h : Reaches step ok s t) : Reaches step ok' s t :=
  Relation.ReflTransGen.mono (fun _ _ => Next.mono hok) _ _ h

theorem Reaches.invariant {inv : σ → Prop} {s t : σ} (hrun : Reaches step ok s t)
    (hstep : ∀ s e t, inv s → ok s e → step s e = some t → inv t) (hs : inv s) : inv t := by
  induction hrun with
  | refl => exact hs
  | tail _ hnext ih =>
      obtain ⟨e, he, heq⟩ := hnext
      exact hstep _ e _ ih he heq

/-- A run's events played one after the other, each checked against `ok`. -/
def play (step : σ → ε → Option σ) (ok : σ → ε → Prop) [∀ s e, Decidable (ok s e)] (s : σ) :
    List ε → Option σ
  | [] => some s
  | e :: es =>
      if ok s e then
        match step s e with
        | none => none
        | some t => play step ok t es
      else none

theorem reaches_of_play [∀ s e, Decidable (ok s e)] {es : List ε} {s t : σ}
    (h : play step ok s es = some t) : Reaches step ok s t := by
  induction es generalizing s with
  | nil =>
      simp only [play, Option.some.injEq] at h
      exact h ▸ Relation.ReflTransGen.refl
  | cons e es ih =>
      rw [play] at h
      split_ifs at h with he
      cases hstep : step s e with
      | none => simp [hstep] at h
      | some mid =>
          rw [hstep] at h
          exact Relation.ReflTransGen.head ⟨e, he, hstep⟩ (ih h)

/-- A sequence whose rank never grows and keeps falling until it arrives does arrive. -/
theorem exists_of_rank {α : Type*} [Preorder α] [WellFoundedLT α] {goal : Nat → Prop} (rank : Nat → α)
    (hle : ∀ n, ¬goal n → rank (n + 1) ≤ rank n)
    (hlt : ∀ n, ¬goal n → ∃ m, n ≤ m ∧ (goal m ∨ rank (m + 1) < rank m)) : ∃ n, goal n := by
  by_contra hnever
  have hnone : ∀ n, ¬goal n := fun n hn => hnever ⟨n, hn⟩
  have hanti : Antitone rank := antitone_nat_of_succ_le fun n => hle n (hnone n)
  have hno : ∀ a n, rank n = a → False := by
    intro a
    induction a using WellFoundedLT.induction with
    | ind a ih =>
        rintro n rfl
        obtain ⟨m, hm, hgoal | hfall⟩ := hlt n (hnone n)
        · exact hnone m hgoal
        · exact ih _ (hfall.trans_le (hanti hm)) (m + 1) rfl
  exact hno _ 0 rfl

section Along

variable {next : σ → ε → σ} {P Q : σ → ε → Prop}

/-- In a run of a total system, `P` holds of every event in the state that meets it. -/
def Along (next : σ → ε → σ) (P : σ → ε → Prop) (s : σ) : List ε → Prop
  | [] => True
  | e :: es => P s e ∧ Along next P (next s e) es

theorem reaches_foldl (hnext : ∀ s e, step s e = some (next s e)) {s : σ} {es : List ε}
    (h : Along next ok s es) : Reaches step ok s (es.foldl next s) := by
  induction es generalizing s with
  | nil => exact Relation.ReflTransGen.refl
  | cons e es ih => exact Relation.ReflTransGen.head ⟨e, h.1, hnext s e⟩ (ih h.2)

/-- Two judgements that agree wherever an invariant holds agree on whole runs, if the events the
first one passes keep the invariant. -/
theorem along_iff {inv : σ → Prop} (hkeep : ∀ s e, inv s → P s e → inv (next s e))
    (hiff : ∀ s e, inv s → (P s e ↔ Q s e)) {s : σ} (hs : inv s) (es : List ε) :
    Along next P s es ↔ Along next Q s es := by
  induction es generalizing s with
  | nil => exact Iff.rfl
  | cons e es ih =>
      constructor
      · rintro ⟨hP, hrest⟩
        exact ⟨(hiff s e hs).mp hP, (ih (hkeep s e hs hP)).mp hrest⟩
      · rintro ⟨hQ, hrest⟩
        have hP : P s e := (hiff s e hs).mpr hQ
        exact ⟨hP, (ih (hkeep s e hs hP)).mpr hrest⟩

end Along

end Transition
