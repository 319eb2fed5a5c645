import Mathlib.Order.Lattice

/-!
# The best of a list

A traversal that keeps the best candidate seen so far. Among equals the first one stands. When
"better" is "of greater rank", what is left is of maximal rank.
-/

namespace Selection

variable {α β : Type*} (candidate : α → Bool) (better : α → α → Bool)

def pick (best : Option α) (a : α) : Option α :=
  if candidate a then
    match best with
    | none => some a
    | some b => if better a b then some a else some b
  else best

def select (l : List α) : Option α := l.foldl (pick candidate better) none

variable {candidate better}

theorem pick_isSome_iff {best : Option α} {a : α} :
    (pick candidate better best a).isSome ↔ best.isSome ∨ candidate a = true := by
  cases hcandidate : candidate a with
  | false => simp [pick, hcandidate]
  | true =>
      cases best with
      | none => simp [pick, hcandidate]
      | some b =>
          simp only [pick, hcandidate, if_true]
          split <;> simp

theorem foldl_pick_isSome_iff {l : List α} {best : Option α} :
    (l.foldl (pick candidate better) best).isSome ↔
      best.isSome ∨ ∃ a ∈ l, candidate a = true := by
  induction l generalizing best with
  | nil => simp
  | cons a l ih =>
      rw [List.foldl_cons, ih, pick_isSome_iff]
      simp [or_assoc]

theorem select_eq_none_iff {l : List α} :
    select candidate better l = none ↔ ∀ a ∈ l, candidate a = false := by
  rw [← Option.not_isSome_iff_eq_none, select, foldl_pick_isSome_iff]
  simp

section Rank

variable [LinearOrder β] {rank : α → β}

theorem pick_spec (hbetter : ∀ a b, better a b = true ↔ rank b < rank a) {best : Option α} {a r : α}
    (h : pick candidate better best a = some r) :
    (best = some r ∨ r = a ∧ candidate a = true) ∧ (∀ b, best = some b → rank b ≤ rank r) ∧
      (candidate a = true → rank a ≤ rank r) := by
  cases hcandidate : candidate a with
  | false =>
      simp only [pick, hcandidate] at h
      simp_all
  | true =>
      cases best with
      | none =>
          simp only [pick, hcandidate] at h
          obtain rfl := Option.some.inj h
          simp
      | some b =>
          simp only [pick, hcandidate, if_true] at h
          split at h
          next hless =>
            obtain rfl := Option.some.inj h
            simp [le_of_lt ((hbetter a b).mp hless)]
          next hnot =>
            obtain rfl := Option.some.inj h
            have hrank : rank a ≤ rank b := not_lt.mp fun hlt => hnot ((hbetter a b).mpr hlt)
            simp [hrank]

theorem foldl_pick_spec (hbetter : ∀ a b, better a b = true ↔ rank b < rank a) {l : List α}
    {best : Option α} {r : α} (h : l.foldl (pick candidate better) best = some r) :
    (best = some r ∨ r ∈ l ∧ candidate r = true) ∧ (∀ b, best = some b → rank b ≤ rank r) ∧
      ∀ a ∈ l, candidate a = true → rank a ≤ rank r := by
  induction l generalizing best with
  | nil =>
      obtain rfl : best = some r := h
      simp
  | cons a l ih =>
      rw [List.foldl_cons] at h
      obtain ⟨hsource, hbest, hall⟩ := ih h
      cases hpick : pick candidate better best a with
      | none =>
          have hnone : ¬ (best.isSome ∨ candidate a = true) := by
            rw [← @pick_isSome_iff _ candidate better best a, hpick]
            simp
          rw [not_or] at hnone
          rw [hpick] at hsource
          have hmem := hsource.resolve_left (by simp)
          refine ⟨Or.inr ⟨List.mem_cons_of_mem a hmem.1, hmem.2⟩, ?_, ?_⟩
          · rintro b rfl
            simp at hnone
          · exact List.forall_mem_cons.mpr ⟨fun hcandidate => absurd hcandidate hnone.2, hall⟩
      | some mid =>
          obtain ⟨hstep, hbest', hthis⟩ := pick_spec hbetter hpick
          have hmid : rank mid ≤ rank r := hbest mid hpick
          refine ⟨?_, fun b hb => le_trans (hbest' b hb) hmid,
            List.forall_mem_cons.mpr ⟨fun hcandidate => le_trans (hthis hcandidate) hmid, hall⟩⟩
          rcases hsource with hsame | ⟨hmem, hcandidate⟩
          · obtain rfl : mid = r := Option.some.inj (hpick.symm.trans hsame)
            exact hstep.imp_right fun ⟨heq, hcandidate⟩ =>
              ⟨heq ▸ List.mem_cons_self, heq ▸ hcandidate⟩
          · exact Or.inr ⟨List.mem_cons_of_mem a hmem, hcandidate⟩

/-- **What is selected** is a candidate of the list, of maximal rank. -/
theorem select_spec (hbetter : ∀ a b, better a b = true ↔ rank b < rank a) {l : List α} {r : α}
    (h : select candidate better l = some r) :
    r ∈ l ∧ candidate r = true ∧ ∀ a ∈ l, candidate a = true → rank a ≤ rank r := by
  obtain ⟨hsource, -, hall⟩ := foldl_pick_spec hbetter h
  obtain ⟨hmem, hcandidate⟩ := hsource.resolve_left (by simp)
  exact ⟨hmem, hcandidate, hall⟩

theorem pick_eq_some (hbetter : ∀ a b, better a b = true ↔ rank b < rank a) {best : Option α}
    {a r : α} (h : pick candidate better best a = some r) :
    best = some r ∨ r = a ∧ ∀ b, best = some b → rank b < rank r := by
  cases hcandidate : candidate a with
  | false =>
      simp only [pick, hcandidate, Bool.false_eq_true, if_false] at h
      exact Or.inl h
  | true =>
      cases best with
      | none =>
          simp only [pick, hcandidate, if_true, Option.some.injEq] at h
          exact Or.inr ⟨h.symm, by simp⟩
      | some b =>
          simp only [pick, hcandidate, if_true] at h
          split at h
          next hless =>
            obtain rfl := Option.some.inj h
            exact Or.inr ⟨rfl, by simpa using (hbetter _ b).mp hless⟩
          next => exact Or.inl h

theorem foldl_pick_split (hbetter : ∀ a b, better a b = true ↔ rank b < rank a) {l : List α}
    {best : Option α} {r : α} (h : l.foldl (pick candidate better) best = some r) :
    best = some r ∨ (∀ b, best = some b → rank b < rank r) ∧
      ∃ pre post, l = pre ++ r :: post ∧ ∀ a ∈ pre, candidate a = true → rank a < rank r := by
  induction l generalizing best with
  | nil => exact Or.inl h
  | cons a l ih =>
      rw [List.foldl_cons] at h
      rcases ih h with hpick | ⟨hlater, pre, post, rfl, hpre⟩
      · rcases pick_eq_some hbetter hpick with hbest | ⟨rfl, hstrict⟩
        · exact Or.inl hbest
        · exact Or.inr ⟨hstrict, [], l, rfl, by simp⟩
      · refine Or.inr ⟨fun b hb => ?_, a :: pre, post, rfl, List.forall_mem_cons.mpr ⟨fun hcandidate => ?_, hpre⟩⟩
        · obtain ⟨mid, hmid⟩ := Option.isSome_iff_exists.mp
            ((@pick_isSome_iff _ candidate better best a).mpr (Or.inl (by simp [hb])))
          exact lt_of_le_of_lt ((pick_spec hbetter hmid).2.1 b hb) (hlater mid hmid)
        · obtain ⟨mid, hmid⟩ := Option.isSome_iff_exists.mp
            ((@pick_isSome_iff _ candidate better best a).mpr (Or.inr hcandidate))
          exact lt_of_le_of_lt ((pick_spec hbetter hmid).2.2 hcandidate) (hlater mid hmid)

theorem select_split (hbetter : ∀ a b, better a b = true ↔ rank b < rank a) {l : List α} {r : α}
    (h : select candidate better l = some r) :
    ∃ pre post, l = pre ++ r :: post ∧ ∀ a ∈ pre, candidate a = true → rank a < rank r :=
  ((foldl_pick_split hbetter h).resolve_left (by simp)).2

end Rank

end Selection
