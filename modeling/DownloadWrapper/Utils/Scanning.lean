import DownloadWrapper.Utils.Text
import Mathlib.Data.List.Infix

/-!
# What scanning leaves

A search goes to the first place there is, however far behind the last one stands; trimming and
unquoting take nothing away but blanks and quotes.
-/

namespace DownloadWrapper

section Around

variable {α : Type*} {p : α → Bool} {c : α}

theorem dropWhile_around (hc : p c = false) (front back : List α) :
    (front ++ c :: back).dropWhile p = front.dropWhile p ++ c :: back := by
  induction front with
  | nil => exact List.dropWhile_cons_of_neg (by simp [hc])
  | cons d front ih =>
      rw [List.cons_append, List.dropWhile_cons, List.dropWhile_cons]
      split
      · exact ih
      · rfl

theorem rdropWhile_around (hc : p c = false) (front back : List α) :
    (front ++ c :: back).rdropWhile p = front ++ c :: back.rdropWhile p := by
  have hreverse : (front ++ c :: back).reverse = back.reverse ++ c :: front.reverse := by simp
  rw [List.rdropWhile, hreverse, dropWhile_around hc, List.rdropWhile]
  simp

theorem rdropWhile_append_of_forall {s back : List α} (hs : ∀ d ∈ s, p d = false)
    (hback : ∀ d ∈ back, p d = true) : (s ++ back).rdropWhile p = s := by
  have hnone : back.rdropWhile p = [] := List.rdropWhile_eq_nil_iff.mpr hback
  rcases List.eq_nil_or_concat' s with rfl | ⟨front, d, rfl⟩
  · exact hnone
  · have hd : p d = false := hs d List.mem_concat_self
    rw [List.append_assoc, List.singleton_append, rdropWhile_around hd, hnone]

theorem countP_dropWhile {q : α → Bool} (hq : ∀ d, p d = true → q d = false) (s : List α) :
    (s.dropWhile p).countP q = s.countP q := by
  induction s with
  | nil => rfl
  | cons d s ih =>
      rw [List.dropWhile_cons]
      split
      next hd => rw [ih, List.countP_cons_of_neg (by simp [hq d hd])]
      next => rfl

theorem countP_rdropWhile {q : α → Bool} (hq : ∀ d, p d = true → q d = false) (s : List α) :
    (s.rdropWhile p).countP q = s.countP q := by
  rw [List.rdropWhile, List.countP_reverse, countP_dropWhile hq, List.countP_reverse]

end Around

theorem trimView_around {c : Char} (hc : isBlankChar c = false) (front back : List Char) :
    trimView (front ++ c :: back) =
      front.dropWhile isBlankChar ++ c :: back.rdropWhile isBlankChar := by
  rw [trimView, dropWhile_around hc, rdropWhile_around hc]

theorem trimView_append_of_forall {s back : List Char} (hs : ∀ c ∈ s, isBlankChar c = false)
    (hback : ∀ c ∈ back, isBlankChar c = true) : trimView (s ++ back) = s := by
  cases s with
  | nil =>
      have hnone : back.dropWhile isBlankChar = [] := List.dropWhile_eq_nil_iff.mpr hback
      rw [trimView, List.nil_append, hnone, List.rdropWhile_nil]
  | cons c s =>
      have hc : isBlankChar c = false := hs c List.mem_cons_self
      rw [trimView, List.cons_append, List.dropWhile_cons_of_neg (by simp [hc]), ← List.cons_append]
      exact rdropWhile_append_of_forall hs hback

def isInk (c : Char) : Bool := !isBlankChar c && c ≠ '"'

def ink (s : List Char) : Nat := s.countP isInk

@[simp] theorem ink_nil : ink [] = 0 := rfl

@[simp] theorem ink_append (s s' : List Char) : ink (s ++ s') = ink s + ink s' := List.countP_append

theorem ink_le_length (s : List Char) : ink s ≤ s.length := List.countP_le_length

theorem ink_eq_length {s : List Char} (h : ∀ c ∈ s, isInk c = true) : ink s = s.length :=
  List.countP_eq_length.mpr h

theorem ink_pos {s : List Char} {c : Char} (hc : c ∈ s) (hink : isInk c = true) : 0 < ink s :=
  List.countP_pos_iff.mpr ⟨c, hc, hink⟩

theorem isInk_of_blank (c : Char) (hc : isBlankChar c = true) : isInk c = false := by
  simp [isInk, hc]

@[simp] theorem ink_rdropWhile (s : List Char) : ink (s.rdropWhile isBlankChar) = ink s :=
  countP_rdropWhile isInk_of_blank s

@[simp] theorem ink_trimView (s : List Char) : ink (trimView s) = ink s := by
  rw [trimView, ink_rdropWhile]
  exact countP_dropWhile isInk_of_blank s

def quoted (s : List Char) : List Char := '"' :: s ++ ['"']

@[simp] theorem ink_quoted (s : List Char) : ink (quoted s) = ink s := by
  have hquote : isInk '"' = false := by decide
  simp [quoted, ink, List.countP_append, hquote]

theorem unquote_cases (s : List Char) : unquote s = s ∨ s = quoted (unquote s) := by
  rw [unquote]
  split
  next h =>
    obtain ⟨hlength, hhead, hlast⟩ := h
    right
    cases s with
    | nil => cases hhead
    | cons c rest =>
        have hrest : rest ≠ [] := by
          rintro rfl
          rw [List.length_singleton] at hlength
          omega
        obtain rfl : c = '"' := Option.some.inj hhead
        rw [List.getLast?_cons_of_ne_nil hrest, List.getLast?_eq_some_getLast hrest] at hlast
        rw [quoted, List.cons_append, List.drop_one, List.tail_cons]
        nth_rewrite 3 [← Option.some.inj hlast]
        rw [List.dropLast_append_getLast hrest]
  next => exact Or.inl rfl

@[simp] theorem unquote_quoted (s : List Char) : unquote (quoted s) = s := by
  rw [unquote, if_pos]
  · simp [quoted]
  · refine ⟨by simp [quoted], rfl, ?_⟩
    rw [quoted, List.getLast?_append, List.getLast?_singleton, Option.some_or]

@[simp] theorem ink_unquote (s : List Char) : ink (unquote s) = ink s := by
  rcases unquote_cases s with heq | heq
  · rw [heq]
  · have hink := congrArg ink heq
    rwa [ink_quoted, eq_comm] at hink

theorem unquote_eq_iff {s text : List Char} (htext : '"' ∉ text) :
    unquote s = text ↔ s = text ∨ s = quoted text := by
  constructor
  · rintro rfl
    exact (unquote_cases s).imp Eq.symm id
  · rintro (rfl | rfl)
    · rcases unquote_cases s with heq | heq
      · exact heq
      · rw [heq] at htext
        exact absurd (List.mem_cons_self) htext
    · exact unquote_quoted text

section Search

variable {sep : Char} {pattern front back rest : List Char}

theorem afterFirst_eq_none (hfront : sep ∉ front) : afterFirst sep front = none := by
  induction front with
  | nil => rfl
  | cons c front ih =>
      rw [List.mem_cons, not_or] at hfront
      rw [afterFirst, if_neg (Ne.symm hfront.1)]
      exact ih hfront.2

theorem afterFirst_of_not_mem (hfront : sep ∉ front) (back : List Char) :
    afterFirst sep (front ++ sep :: back) = some back := by
  induction front with
  | nil => exact if_pos rfl
  | cons c front ih =>
      rw [List.mem_cons, not_or] at hfront
      rw [List.cons_append, afterFirst, if_neg (Ne.symm hfront.1)]
      exact ih hfront.2

theorem takeWhile_before (hfront : sep ∉ front) (back : List Char) :
    (front ++ sep :: back).takeWhile (· ≠ sep) = front := by
  have hkept : ∀ c ∈ front, decide (c ≠ sep) = true := by
    intro c hc
    rw [decide_eq_true_eq]
    rintro rfl
    exact hfront hc
  rw [List.takeWhile_append_of_pos hkept]
  simp

theorem afterFirst_of_mem (hfront : sep ∈ front) :
    ∃ rest, rest.count sep + 1 = front.count sep ∧
      ∀ back, afterFirst sep (front ++ back) = some (rest ++ back) := by
  induction front with
  | nil => cases hfront
  | cons c front ih =>
      by_cases hc : c = sep
      · refine ⟨front, ?_, fun back => if_pos hc⟩
        rw [hc, List.count_cons_self]
      · obtain ⟨rest, hcount, hafter⟩ := ih ((List.mem_cons.mp hfront).resolve_left (Ne.symm hc))
        refine ⟨rest, ?_, fun back => ?_⟩
        · rw [hcount, List.count_cons_of_ne hc]
        · rw [List.cons_append, afterFirst, if_neg hc]
          exact hafter back

theorem afterPattern_suffix (h : afterPattern pattern front = some rest) :
    pattern ++ rest <:+ front := by
  induction front with
  | nil =>
      rw [afterPattern, Option.ite_none_right_eq_some] at h
      obtain ⟨rfl, heq⟩ := h
      exact Option.some.inj heq ▸ List.suffix_rfl
  | cons c front ih =>
      rw [afterPattern] at h
      split at h
      next hprefix =>
        obtain ⟨tail, htail⟩ := List.isPrefixOf_iff_prefix.mp hprefix
        rw [← htail, List.drop_left, Option.some.injEq] at h
        rw [← htail, h]
      next => exact (ih h).trans (List.suffix_cons c front)

theorem afterPattern_append (h : afterPattern pattern front = some rest) (back : List Char) :
    afterPattern pattern (front ++ back) = some (rest ++ back) := by
  induction front with
  | nil =>
      rw [afterPattern, Option.ite_none_right_eq_some] at h
      obtain ⟨rfl, heq⟩ := h
      obtain rfl := Option.some.inj heq
      cases back with
      | nil => rfl
      | cons c back => simp [afterPattern]
  | cons c front ih =>
      rw [afterPattern] at h
      rw [List.cons_append, afterPattern]
      split at h
      next hprefix =>
        obtain ⟨tail, htail⟩ := List.isPrefixOf_iff_prefix.mp hprefix
        rw [← htail, List.drop_left, Option.some.injEq] at h
        rw [if_pos (List.isPrefixOf_iff_prefix.mpr ⟨tail ++ back, by rw [← List.cons_append, ← htail]; simp⟩),
          ← List.cons_append, ← htail, List.append_assoc, List.drop_left, h]
      next hprefix =>
        rw [if_neg, ih h]
        -- the pattern fits behind the first character, so it cannot reach beyond the end
        intro hlong
        have hfits := (afterPattern_suffix h).length_le
        rw [List.length_append] at hfits
        refine hprefix (List.isPrefixOf_iff_prefix.mpr ?_)
        refine List.prefix_of_prefix_length_le (List.isPrefixOf_iff_prefix.mp hlong)
          (List.prefix_append (c :: front) back) ?_
        rw [List.length_cons]
        omega

theorem afterPattern_isSome (pattern front : List Char) :
    (afterPattern pattern (front ++ pattern)).isSome = true := by
  induction front with
  | nil =>
      cases pattern with
      | nil => rfl
      | cons c pattern => simp [afterPattern]
  | cons c front ih =>
      rw [List.cons_append, afterPattern]
      split
      · rfl
      · exact ih

def behindFirst (pattern text : List Char) : List Char := (afterPattern pattern text).getD []

theorem afterPattern_around (pattern front back : List Char) :
    afterPattern pattern (front ++ pattern ++ back) =
      some (behindFirst pattern (front ++ pattern) ++ back) := by
  obtain ⟨rest, hrest⟩ := Option.isSome_iff_exists.mp (afterPattern_isSome pattern front)
  rw [afterPattern_append hrest, behindFirst, hrest, Option.getD_some]

theorem behindFirst_cases (hpattern : pattern ≠ []) (front : List Char) :
    behindFirst pattern (front ++ pattern) = [] ∨
      pattern.getLast hpattern ∈ behindFirst pattern (front ++ pattern) := by
  obtain ⟨rest, hrest⟩ := Option.isSome_iff_exists.mp (afterPattern_isSome pattern front)
  rw [behindFirst, hrest, Option.getD_some]
  have hsuffix : rest <:+ front ++ pattern :=
    (List.suffix_append pattern rest).trans (afterPattern_suffix hrest)
  rw [or_iff_not_imp_left]
  intro hne
  have hlast := hsuffix.getLast hne
  rw [List.getLast_append_of_ne_nil _ hpattern] at hlast
  exact hlast ▸ List.getLast_mem hne

end Search

end DownloadWrapper
