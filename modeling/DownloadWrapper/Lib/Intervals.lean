import Mathlib.Algebra.Order.BigOperators.Group.List
import Mathlib.Data.Int.ConditionallyCompleteOrder
import Mathlib.Data.List.Basic
import Mathlib.Tactic.Linarith

/-!
# Closed integer intervals that keep apart

A list of closed intervals `(first, last)` in order, each non-empty, in a range, and with at least one
position missing between two of them. A new interval behind the others either leaves a gap and is one
more, or touches the last one and prolongs it.
-/

namespace Intervals

def total (l : List (Int × Int)) : Int := (l.map fun s => s.2 - s.1 + 1).sum

def positions (l : List (Int × Int)) : Set Int := {x | ∃ s ∈ l, s.1 ≤ x ∧ x ≤ s.2}

structure Spaced (lo hi : Int) (l : List (Int × Int)) : Prop where
  within : ∀ s ∈ l, lo ≤ s.1 ∧ s.1 ≤ s.2 ∧ s.2 ≤ hi
  gaps : l.Pairwise fun a b => a.2 + 1 < b.1

variable {lo hi first last start finish : Int} {l : List (Int × Int)}

theorem mem_positions {x : Int} : x ∈ positions l ↔ ∃ s ∈ l, s.1 ≤ x ∧ x ≤ s.2 := Iff.rfl

@[simp] theorem positions_nil : positions [] = ∅ := by
  ext x
  simp [mem_positions]

@[simp] theorem positions_append (l l' : List (Int × Int)) :
    positions (l ++ l') = positions l ∪ positions l' := by
  ext x
  simp only [mem_positions, List.mem_append, Set.mem_union, or_and_right, exists_or]

@[simp] theorem positions_singleton : positions [(first, last)] = Set.Icc first last := by
  ext x
  simp [mem_positions]

theorem mem_positions_cons {s : Int × Int} {x : Int} :
    x ∈ positions (s :: l) ↔ s.1 ≤ x ∧ x ≤ s.2 ∨ x ∈ positions l := by
  simp only [mem_positions, List.exists_mem_cons_iff]

@[simp] theorem total_nil : total [] = 0 := rfl

theorem total_cons (s : Int × Int) (l : List (Int × Int)) :
    total (s :: l) = (s.2 - s.1 + 1) + total l := by
  unfold total
  rw [List.map_cons, List.sum_cons]

@[simp] theorem total_append (l l' : List (Int × Int)) : total (l ++ l') = total l + total l' := by
  unfold total
  rw [List.map_append, List.sum_append]

@[simp] theorem total_singleton : total [(first, last)] = last - first + 1 := by
  unfold total
  simp

namespace Spaced

theorem nil : Spaced lo hi [] := ⟨fun _ h => absurd h List.not_mem_nil, List.Pairwise.nil⟩

theorem singleton (hlo : lo ≤ first) (hle : first ≤ last) (hhi : last ≤ hi) :
    Spaced lo hi [(first, last)] := by
  refine ⟨fun s hs => ?_, List.pairwise_singleton _ _⟩
  rw [List.mem_singleton.mp hs]
  exact ⟨hlo, hle, hhi⟩

theorem mono {hi' : Int} (h : Spaced lo hi l) (hle : hi ≤ hi') : Spaced lo hi' l := by
  refine ⟨fun s hs => ?_, h.gaps⟩
  obtain ⟨hfirst, horder, hlast⟩ := h.within s hs
  exact ⟨hfirst, horder, hlast.trans hle⟩

theorem concat (h : Spaced lo hi l) (hgap : ∀ s ∈ l, s.2 + 1 < start) (hlo : lo ≤ start)
    (horder : start ≤ finish) : Spaced lo finish (l ++ [(start, finish)]) := by
  constructor
  · intro s hs
    rcases List.mem_append.mp hs with hold | hnew
    · obtain ⟨hfirst, hle, -⟩ := h.within s hold
      have hbefore := hgap s hold
      exact ⟨hfirst, hle, by omega⟩
    · rw [List.mem_singleton.mp hnew]
      exact ⟨hlo, horder, le_rfl⟩
  · rw [List.pairwise_append]
    refine ⟨h.gaps, List.pairwise_singleton _ _, fun s hs t ht => ?_⟩
    rw [List.mem_singleton.mp ht]
    exact hgap s hs

theorem prolong (h : Spaced lo hi (l ++ [(first, last)])) (hle : last ≤ finish) :
    Spaced lo finish (l ++ [(first, finish)]) := by
  have hgaps := List.pairwise_append.mp h.gaps
  obtain ⟨hlo, horder, -⟩ := h.within (first, last) (by simp)
  have hfront : Spaced lo finish l := by
    refine ⟨fun s hs => ?_, hgaps.1⟩
    obtain ⟨hfirst, hle', -⟩ := h.within s (List.mem_append_left _ hs)
    have hbefore : s.2 + 1 < first := hgaps.2.2 s hs _ (List.mem_singleton_self _)
    exact ⟨hfirst, hle', by omega⟩
  exact hfront.concat (fun s hs => hgaps.2.2 s hs _ (List.mem_singleton_self _)) hlo
    (horder.trans hle)

theorem total_nonneg (h : Spaced lo hi l) : 0 ≤ total l := by
  unfold total
  refine List.sum_nonneg fun n hn => ?_
  obtain ⟨s, hs, rfl⟩ := List.mem_map.mp hn
  obtain ⟨-, horder, -⟩ := h.within s hs
  omega

theorem tail {s : Int × Int} (h : Spaced lo hi (s :: l)) : Spaced (s.2 + 2) hi l := by
  have hgaps := List.pairwise_cons.mp h.gaps
  refine ⟨fun t ht => ?_, hgaps.2⟩
  have hgap := hgaps.1 t ht
  obtain ⟨-, hle, hhi⟩ := h.within t (List.mem_cons_of_mem _ ht)
  exact ⟨by omega, hle, hhi⟩

theorem bounds_of_mem_positions {x : Int} (h : Spaced lo hi l) (hx : x ∈ positions l) :
    lo ≤ x ∧ x ≤ hi := by
  obtain ⟨s, hs, hlow, hhigh⟩ := hx
  obtain ⟨hfirst, -, hlast⟩ := h.within s hs
  exact ⟨hfirst.trans hlow, hhigh.trans hlast⟩

theorem total_le (h : Spaced lo hi l) (hlo : lo ≤ hi + 1) : total l ≤ hi - lo + 1 := by
  induction l generalizing lo with
  | nil =>
      rw [total_nil]
      omega
  | cons s l ih =>
      obtain ⟨hfirst, horder, hlast⟩ := h.within s List.mem_cons_self
      have hrest : Spaced (s.2 + 1) hi l :=
        ⟨fun t ht => ⟨by linarith [(h.tail.within t ht).1], (h.tail.within t ht).2⟩, h.tail.gaps⟩
      have hle := ih hrest (by omega)
      rw [total_cons]
      omega

theorem total_eq_iff (h : Spaced lo hi l) (hle : lo ≤ hi) :
    total l = hi - lo + 1 ↔ l = [(lo, hi)] := by
  constructor
  · intro hfull
    cases l with
    | nil =>
        rw [total_nil] at hfull
        omega
    | cons s l =>
        obtain ⟨hfirst, horder, hlast⟩ := h.within s List.mem_cons_self
        rw [total_cons] at hfull
        cases l with
        | nil =>
            rw [total_nil] at hfull
            obtain ⟨first, last⟩ := s
            rw [List.cons.injEq, Prod.mk.injEq]
            exact ⟨⟨by omega, by omega⟩, rfl⟩
        | cons t l =>
            obtain ⟨hbehind, horder', hlast'⟩ := h.tail.within t List.mem_cons_self
            have hrest := h.tail.total_le (by omega)
            omega
  · rintro rfl
    exact total_singleton

theorem head_le {s s' : Int × Int} {l' : List (Int × Int)} {lo' hi' : Int}
    (h : Spaced lo hi (s :: l)) (h' : Spaced lo' hi' (s' :: l'))
    (hsame : positions (s :: l) = positions (s' :: l')) : s'.1 ≤ s.1 ∧ (s.1 = s'.1 → s.2 ≤ s'.2) := by
  obtain ⟨-, horder, -⟩ := h.within s List.mem_cons_self
  obtain ⟨-, horder', -⟩ := h'.within s' List.mem_cons_self
  have hbehind : ∀ x ∈ positions l', s'.2 + 2 ≤ x :=
    fun x hx => (h'.tail.bounds_of_mem_positions hx).1
  have hcovers : ∀ x, s.1 ≤ x → x ≤ s.2 → s'.1 ≤ x ∧ x ≤ s'.2 ∨ x ∈ positions l' := by
    intro x hlow hhigh
    have hx : x ∈ positions (s :: l) := mem_positions_cons.mpr (Or.inl ⟨hlow, hhigh⟩)
    rw [hsame] at hx
    exact mem_positions_cons.mp hx
  constructor
  · rcases hcovers s.1 le_rfl horder with hin | hlater
    · exact hin.1
    · have hlow := hbehind _ hlater
      omega
  · intro hfirst
    by_contra hlonger
    -- the position right behind the shorter interval is missing from its list
    rcases hcovers (s'.2 + 1) (by omega) (by omega) with hin | hlater
    · omega
    · have hlow := hbehind _ hlater
      omega

/-- **Intervals that keep apart are determined by their positions.** -/
theorem eq_of_positions {l' : List (Int × Int)} {lo' hi' : Int} (h : Spaced lo hi l)
    (h' : Spaced lo' hi' l') (hsame : positions l = positions l') : l = l' := by
  induction l generalizing lo lo' l' with
  | nil =>
      cases l' with
      | nil => rfl
      | cons s' l' =>
          obtain ⟨-, horder', -⟩ := h'.within s' List.mem_cons_self
          have hmem : s'.1 ∈ positions (s' :: l') := mem_positions_cons.mpr (Or.inl ⟨le_rfl, horder'⟩)
          rw [← hsame, positions_nil] at hmem
          exact absurd hmem (Set.notMem_empty _)
  | cons s l ih =>
      cases l' with
      | nil =>
          obtain ⟨-, horder, -⟩ := h.within s List.mem_cons_self
          have hmem : s.1 ∈ positions (s :: l) := mem_positions_cons.mpr (Or.inl ⟨le_rfl, horder⟩)
          rw [hsame, positions_nil] at hmem
          exact absurd hmem (Set.notMem_empty _)
      | cons s' l' =>
          obtain ⟨hle, hend⟩ := h.head_le h' hsame
          obtain ⟨hle', hend'⟩ := h'.head_le h hsame.symm
          have hfirst : s.1 = s'.1 := le_antisymm hle' hle
          obtain rfl : s = s' := Prod.ext hfirst (le_antisymm (hend hfirst) (hend' hfirst.symm))
          have hrest : positions l = positions l' := by
            ext x
            have hiff : x ∈ positions (s :: l) ↔ x ∈ positions (s :: l') := by rw [hsame]
            simp only [mem_positions_cons] at hiff
            constructor
            · intro hx
              have hlow := (h.tail.bounds_of_mem_positions hx).1
              exact (hiff.mp (Or.inr hx)).resolve_left (by omega)
            · intro hx
              have hlow := (h'.tail.bounds_of_mem_positions hx).1
              exact (hiff.mpr (Or.inr hx)).resolve_left (by omega)
          rw [ih h.tail h'.tail hrest]

end Spaced

end Intervals
