import DownloadWrapper.Utils.UniqueName
import DownloadWrapper.Utils.Text

/-!
# Lists of integers as text

How a list of indexes is kept in one text column.
-/

namespace DownloadWrapper

def joinInts (v : List Int) : String :=
  String.ofList ([','].intercalate (v.map fun n => (toString n).toList))

/-- Every segment between commas is read with `std::from_chars` into an `int32_t`; what cannot be read
is left out. -/
def splitInts (s : String) : List Int :=
  (s.toList.splitOn ',').filterMap fun segment =>
    if segment = [] then none else (fromChars segment).filter inRangeInt32

theorem foldl_digits (l : List Char) (start : Nat) :
    l.foldl (fun (acc : Int) c => acc * 10 + (c.toNat - '0'.toNat : Nat)) start =
      (Nat.ofDigitChars 10 l start : Int) := by
  induction l generalizing start with
  | nil => simp
  | cons c l ih =>
      rw [List.foldl_cons, Nat.ofDigitChars_cons, ← ih]
      congr 1
      push_cast
      omega

theorem takeWhile_toDigits (n : Nat) :
    (Nat.toDigits 10 n).takeWhile Char.isDigit = Nat.toDigits 10 n :=
  List.takeWhile_eq_self_iff.mpr fun _ hc => Nat.isDigit_of_mem_toDigits (by decide) (by decide) hc

theorem head?_toDigits (n : Nat) : (Nat.toDigits 10 n).head? ≠ some '-' := by
  intro hhead
  have hdigit := Nat.isDigit_of_mem_toDigits (by decide) (by decide) (List.mem_of_head? hhead)
  exact absurd hdigit (by decide)

theorem foldl_toDigits (n : Nat) :
    (Nat.toDigits 10 n).foldl (fun (acc : Int) c => acc * 10 + (c.toNat - '0'.toNat : Nat)) 0 = n := by
  have hfold := foldl_digits (Nat.toDigits 10 n) 0
  rwa [Nat.ofDigitChars_ten_toDigits] at hfold

theorem fromChars_toDigits {n : Nat} (h : n < 2 ^ 63) :
    fromChars (Nat.toDigits 10 n) = some (n : Int) := by
  have hrange : -2 ^ 63 ≤ (n : Int) ∧ (n : Int) < 2 ^ 63 := by omega
  simp only [fromChars, head?_toDigits, if_false, takeWhile_toDigits, foldl_toDigits,
    Nat.toDigits_ne_nil, hrange, and_self, if_true]

theorem fromChars_neg_toDigits {n : Nat} (h : n ≤ 2 ^ 63) :
    fromChars ('-' :: Nat.toDigits 10 n) = some (-n : Int) := by
  have hrange : -2 ^ 63 ≤ (-n : Int) ∧ (-n : Int) < 2 ^ 63 := by omega
  simp only [fromChars, List.head?_cons, List.tail_cons, if_true, takeWhile_toDigits, foldl_toDigits,
    Nat.toDigits_ne_nil, hrange, and_self, if_false]

theorem toList_toString_ofNat (n : Nat) : (toString (Int.ofNat n)).toList = Nat.toDigits 10 n :=
  Nat.toList_repr

theorem toList_toString_negSucc (n : Nat) :
    (toString (Int.negSucc n)).toList = '-' :: Nat.toDigits 10 (n + 1) := by
  change ("-" ++ Nat.repr (n + 1)).toList = _
  rw [String.toList_append, Nat.toList_repr]
  rfl

theorem fromChars_toString {n : Int} (hlow : -2 ^ 63 ≤ n) (hhigh : n < 2 ^ 63) :
    fromChars (toString n).toList = some n := by
  cases n with
  | ofNat n =>
      rw [toList_toString_ofNat]
      exact fromChars_toDigits (by simpa using hhigh)
  | negSucc n =>
      rw [toList_toString_negSucc, fromChars_neg_toDigits (by omega)]
      rfl

theorem not_mem_toString_int (n : Int) {c : Char} (hdigit : c.isDigit = false) (hsign : c ≠ '-') :
    c ∉ (toString n).toList := by
  cases n with
  | ofNat n => exact not_mem_toString n hdigit
  | negSucc n =>
      change c ∉ ("-" ++ Nat.repr (n + 1)).toList
      rw [String.toList_append, List.mem_append, not_or]
      exact ⟨by simpa using hsign, not_mem_toString (n + 1) hdigit⟩

theorem isDigit_or_sign_of_mem_toString {n : Int} {c : Char} (h : c ∈ (toString n).toList) :
    c.isDigit = true ∨ c = '-' := by
  by_contra hother
  rw [not_or, Bool.not_eq_true] at hother
  exact not_mem_toString_int n hother.1 hother.2 h

theorem wholeInt32_toString {n : Int} (h : inRangeInt32 n = true) :
    wholeInt32 (toString n).toList = some n := by
  have hrange := h
  simp only [inRangeInt32, Bool.and_eq_true, decide_eq_true_eq] at hrange
  have hvalue := fromChars_toString (n := n) (by omega) (by omega)
  have hdigits : ((if (toString n).toList.head? = some '-' then (toString n).toList.tail
      else (toString n).toList).all Char.isDigit) = true := by
    rw [List.all_eq_true]
    intro c hc
    cases n with
    | ofNat n =>
        rw [toList_toString_ofNat, if_neg (head?_toDigits n)] at hc
        exact Nat.isDigit_of_mem_toDigits (by decide) (by decide) hc
    | negSucc n =>
        rw [toList_toString_negSucc, List.head?_cons, if_pos rfl] at hc
        exact Nat.isDigit_of_mem_toDigits (by decide) (by decide) hc
  simp only [wholeInt32, hdigits, if_true, hvalue, Option.filter_some, h]

theorem mem_intercalate {c sep : Char} {segments : List (List Char)}
    (h : c ∈ [sep].intercalate segments) : c = sep ∨ ∃ segment ∈ segments, c ∈ segment := by
  induction segments with
  | nil => cases h
  | cons first rest ih =>
      cases rest with
      | nil => exact Or.inr ⟨first, List.mem_cons_self, by simpa using h⟩
      | cons second rest =>
          rw [List.intercalate_cons_cons, List.mem_append, List.mem_append] at h
          rcases h with (hfirst | hsep) | hrest
          · exact Or.inr ⟨first, List.mem_cons_self, hfirst⟩
          · exact Or.inl (List.mem_singleton.mp hsep)
          · obtain hsep | ⟨segment, hmem, hc⟩ := ih hrest
            · exact Or.inl hsep
            · exact Or.inr ⟨segment, List.mem_cons_of_mem _ hmem, hc⟩

theorem splitInts_joinInts {v : List Int} (h : ∀ n ∈ v, inRangeInt32 n = true) :
    splitInts (joinInts v) = v := by
  have hread : ∀ n ∈ v, (fun segment : List Char =>
      if segment = [] then none else (fromChars segment).filter inRangeInt32) (toString n).toList
        = some n := by
    intro n hn
    have hrange := h n hn
    simp only [inRangeInt32, Bool.and_eq_true, decide_eq_true_eq] at hrange
    have hvalue := fromChars_toString (n := n) (by omega) (by omega)
    have hne : (toString n).toList ≠ [] := by
      intro hnil
      rw [hnil] at hvalue
      simp [fromChars] at hvalue
    simp only [hne, if_false, hvalue, Option.filter_some, h n hn, if_true]
  rw [splitInts, joinInts, String.toList_ofList]
  cases v with
  | nil => rfl
  | cons n v =>
      rw [List.splitOn_intercalate _ _ (by simp)]
      · rw [List.filterMap_map]
        exact (List.filterMap_congr hread).trans List.filterMap_some
      · intro segment hsegment
        obtain ⟨m, -, rfl⟩ := List.mem_map.mp hsegment
        exact not_mem_toString_int m (by decide) (by decide)

end DownloadWrapper
