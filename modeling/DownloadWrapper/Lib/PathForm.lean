import Mathlib.Data.List.Basic
import Mathlib.Data.List.Infix

/-!
# Lexical paths

A path is walked segment by segment: a name is entered, `..` leaves the name entered last, and at
the start of a relative path it climbs out. Where a walk ends is a normal form: how far it climbed
out and the names it is in, the last one first.

A walk taken from some place is that place climbed out of and then descended from, by the walk's own
normal form. So whether it ends below where it started is read off the two normal forms.
-/

namespace PathForm

inductive Segment (α : Type*) where
  | up
  | name (s : α)
  deriving DecidableEq

end PathForm

/-- A place: whether it is counted from the root, how far above the start it lies, and the names it
is in, the last one first. Nothing lies above the root. -/
@[ext] structure PathForm (α : Type*) where
  rooted : Bool
  ups : Nat
  names : List α
  ups_of_rooted : rooted = true → ups = 0
  deriving DecidableEq

namespace PathForm

variable {α : Type*}

def root : PathForm α := ⟨true, 0, [], fun _ => rfl⟩

def here : PathForm α := ⟨false, 0, [], fun _ => rfl⟩

def climb (p : PathForm α) (k : Nat) : PathForm α where
  rooted := p.rooted
  ups := if p.rooted then 0 else p.ups + (k - p.names.length)
  names := p.names.drop k
  ups_of_rooted h := if_pos h

def descend (p : PathForm α) (names : List α) : PathForm α :=
  ⟨p.rooted, p.ups, names ++ p.names, p.ups_of_rooted⟩

def enter (p : PathForm α) : Segment α → PathForm α
  | .up => p.climb 1
  | .name s => p.descend [s]

def walk (p : PathForm α) (segments : List (Segment α)) : PathForm α := segments.foldl enter p

theorem walk_append (p : PathForm α) (xs ys : List (Segment α)) :
    p.walk (xs ++ ys) = (p.walk xs).walk ys :=
  List.foldl_append

@[simp] theorem walk_nil (p : PathForm α) : p.walk [] = p := rfl

theorem walk_cons (p : PathForm α) (x : Segment α) (xs : List (Segment α)) :
    p.walk (x :: xs) = (p.enter x).walk xs := rfl

theorem descend_descend (p : PathForm α) (xs ys : List α) :
    (p.descend xs).descend ys = p.descend (ys ++ xs) := by
  simp [descend]

theorem climb_zero (p : PathForm α) : p.climb 0 = p := by
  apply PathForm.ext
  · rfl
  · rw [climb]
    split
    · exact (p.ups_of_rooted ‹_›).symm
    · simp
  · rfl

theorem climb_climb (p : PathForm α) (j k : Nat) : (p.climb j).climb k = p.climb (j + k) := by
  apply PathForm.ext
  · rfl
  · simp only [climb, List.length_drop]
    split
    · rfl
    · omega
  · simp [climb, Nat.add_comm]

theorem climb_succ_descend (p : PathForm α) (s : α) (k : Nat) :
    (p.descend [s]).climb (k + 1) = p.climb k := by
  apply PathForm.ext
  · rfl
  · simp [climb, descend]
  · simp [climb, descend]

theorem climb_one_descend_cons (p : PathForm α) (s : α) (names : List α) :
    (p.descend (s :: names)).climb 1 = p.descend names := by
  have hpush : p.descend (s :: names) = (p.descend names).descend [s] := by
    rw [descend_descend]
    rfl
  rw [hpush, climb_succ_descend, climb_zero]

@[simp] theorem rooted_enter (p : PathForm α) (x : Segment α) : (p.enter x).rooted = p.rooted := by
  cases x <;> rfl

theorem rooted_walk (p : PathForm α) (segments : List (Segment α)) :
    (p.walk segments).rooted = p.rooted := by
  induction segments generalizing p with
  | nil => rfl
  | cons x xs ih => rw [walk_cons, ih, rooted_enter]

/-- **A walk is a climb and a descent**, whichever place it starts from. -/
theorem walk_eq (p : PathForm α) (segments : List (Segment α)) :
    p.walk segments = (p.climb (here.walk segments).ups).descend (here.walk segments).names := by
  induction segments using List.reverseRecOn with
  | nil =>
      have hups : (here (α := α)).ups = 0 := rfl
      rw [walk_nil, walk_nil, hups, climb_zero]
      rfl
  | append_singleton front last ih =>
      have hfloat : (here.walk front).rooted = false := rooted_walk here front
      rw [walk_append, walk_append, ih]
      generalize here.walk front = q at hfloat ⊢
      cases last with
      | name s =>
          simp only [walk_cons, walk_nil, enter, descend_descend]
          rfl
      | up =>
          simp only [walk_cons, walk_nil, enter]
          cases hnames : q.names with
          | cons s names =>
              have hq : (q.climb 1).ups = q.ups := by simp [climb, hfloat, hnames]
              have hq' : (q.climb 1).names = names := by simp [climb, hnames]
              rw [climb_one_descend_cons, hq, hq']
          | nil =>
              have hq : (q.climb 1).ups = q.ups + 1 := by simp [climb, hfloat, hnames]
              have hq' : (q.climb 1).names = [] := by simp [climb, hnames]
              rw [hq, hq', ← climb_climb]
              rfl

theorem ups_le_walk (p : PathForm α) (segments : List (Segment α)) : p.ups ≤ (p.walk segments).ups := by
  rw [walk_eq]
  simp only [descend, climb]
  split
  next hrooted => rw [p.ups_of_rooted hrooted]
  next => exact Nat.le_add_right _ _

theorem walk_names (p : PathForm α) (names : List α) :
    p.walk (names.map .name) = p.descend names.reverse := by
  induction names generalizing p with
  | nil => exact (by rw [descend]; rfl : p = p.descend [])
  | cons s names ih =>
      rw [List.map_cons, walk_cons, enter, ih, descend_descend, List.reverse_cons]

theorem walk_ups (p : PathForm α) (k : Nat) : p.walk (List.replicate k .up) = p.climb k := by
  induction k generalizing p with
  | zero => exact (climb_zero p).symm
  | succ k ih => rw [List.replicate_succ, walk_cons, enter, ih, climb_climb, Nat.add_comm]

theorem walk_self (p : PathForm α) :
    (if p.rooted then root else here).walk (List.replicate p.ups .up ++ p.names.reverse.map .name) = p := by
  rw [walk_append, walk_ups, walk_names, List.reverse_reverse]
  apply PathForm.ext
  · cases hrooted : p.rooted <;> rfl
  · cases hrooted : p.rooted with
    | true => simp [climb, descend, root, p.ups_of_rooted hrooted]
    | false => simp [climb, descend, here]
  · cases hrooted : p.rooted <;> simp [climb, descend, root, here]

theorem mem_names_walk {p : PathForm α} {segments : List (Segment α)} {s : α}
    (h : s ∈ (p.walk segments).names) : s ∈ p.names ∨ Segment.name s ∈ segments := by
  induction segments generalizing p with
  | nil => exact Or.inl h
  | cons x xs ih =>
      rw [walk_cons] at h
      rcases ih h with hstart | hlater
      · cases x with
        | up => exact Or.inl (List.mem_of_mem_drop hstart)
        | name s' =>
            rcases List.mem_cons.mp hstart with rfl | hold
            · exact Or.inr List.mem_cons_self
            · exact Or.inl hold
      · exact Or.inr (List.mem_cons_of_mem x hlater)

def Below (p base : PathForm α) : Prop :=
  p.rooted = base.rooted ∧ p.ups = base.ups ∧ base.names <:+ p.names ∧ base.names ≠ p.names

/-- A relative place `q` comes back into `base` by the names it climbs out of, and goes on. -/
def Returns (q base : PathForm α) : Prop :=
  (base.rooted = true ∨ q.ups ≤ base.names.length) ∧
    base.names.take q.ups <:+ q.names ∧ base.names.take q.ups ≠ q.names

instance [DecidableEq α] (p base : PathForm α) : Decidable (p.Below base) :=
  inferInstanceAs (Decidable (_ ∧ _ ∧ _ ∧ _))

instance [DecidableEq α] (q base : PathForm α) : Decidable (q.Returns base) :=
  inferInstanceAs (Decidable (_ ∧ _ ∧ _))

theorem eq_or_below {p base : PathForm α} (hrooted : p.rooted = base.rooted) (hups : p.ups = base.ups)
    (hnames : base.names <:+ p.names) : p = base ∨ p.Below base := by
  by_cases hsame : base.names = p.names
  · exact Or.inl (PathForm.ext hrooted hups hsame.symm)
  · exact Or.inr ⟨hrooted, hups, hnames, hsame⟩

/-- **A walk ends below its start when its normal form returns there.** -/
theorem below_walk_iff (base : PathForm α) (segments : List (Segment α)) :
    (base.walk segments).Below base ↔ (here.walk segments).Returns base := by
  rw [walk_eq]
  generalize here.walk segments = q
  have hups : (base.climb q.ups).ups = base.ups ↔
      base.rooted = true ∨ q.ups ≤ base.names.length := by
    simp only [climb]
    split
    next hrooted => simp [hrooted, base.ups_of_rooted hrooted]
    next hrooted =>
      simp only [hrooted, Bool.false_eq_true, false_or]
      omega
  have hnames : base.names.take q.ups ++ base.names.drop q.ups = base.names :=
    List.take_append_drop q.ups base.names
  have hsuffix : base.names <:+ q.names ++ base.names.drop q.ups ↔
      base.names.take q.ups <:+ q.names := by
    have happend := @List.suffix_append_self_iff _ (base.names.take q.ups) q.names
      (base.names.drop q.ups)
    rwa [hnames] at happend
  have hsame : base.names = q.names ++ base.names.drop q.ups ↔ base.names.take q.ups = q.names := by
    have happend := @List.append_left_inj _ (base.names.take q.ups) q.names
      (base.names.drop q.ups)
    rwa [hnames] at happend
  rw [Below, Returns, ← hups, ne_eq, ne_eq, ← hsame, ← hsuffix]
  exact ⟨fun h => h.2, fun h => ⟨rfl, h⟩⟩

theorem below_walk_swap (base : PathForm α) {lead segments : List (Segment α)} (s s' : α)
    (hlead : (here.walk segments).ups = 0 → (here.walk lead).ups = 0)
    (h : (base.walk (lead ++ .name s :: segments)).Below base) :
    (base.walk (lead ++ .name s' :: segments)).Below base := by
  cases hups : (here.walk segments).ups with
  | zero =>
      have hlead' := hlead hups
      rw [walk_append, walk_cons, enter, walk_eq _ segments, walk_eq base lead, hups, hlead',
        climb_zero, climb_zero, descend_descend, descend_descend]
      refine ⟨rfl, rfl, List.suffix_append _ _, ?_⟩
      intro hsame
      have hlength := congrArg List.length hsame
      simp only [descend, List.length_append, List.length_singleton] at hlength
      omega
  | succ k =>
      have hsame : ∀ x, base.walk (lead ++ .name x :: segments) =
          ((base.walk lead).climb k).descend (here.walk segments).names := by
        intro x
        rw [walk_append, walk_cons, enter, walk_eq _ segments, hups, climb_succ_descend]
      rw [hsame] at h ⊢
      exact h

end PathForm
