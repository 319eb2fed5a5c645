import DownloadWrapper.Utils.IntList

/-!
# The loop of `split_ints`

The pointers with which the text of an index list is taken apart. The loop goes one step past the last
character: there it reads the terminator, and takes the last field.
-/

namespace DownloadWrapper

/-- What a pointer into the text reads: a character, or the terminator behind the last one. Nothing may
be read anywhere else. -/
def charAt (s : List Char) (cur : Nat) : Option Char :=
  if cur = s.length then some '\x00' else s[cur]?

/-- The characters from one pointer up to another one. -/
def charsBetween (s : List Char) (start cur : Nat) : Option (List Char) :=
  if start ≤ cur ∧ cur ≤ s.length then some ((s.drop start).take (cur - start)) else none

/-- `std::from_chars` into an `int32_t`. -/
def fromCharsInt32 (field : List Char) : Option Int := (fromChars field).filter inRangeInt32

/-- What `split_ints` does at the end of a field; `none` if it reads what it may not. -/
def takeField (s : List Char) (start cur : Nat) (out : List Int) : Option (List Int) :=
  if start ≠ cur then
    match charsBetween s start cur with
    | none => none
    | some field =>
        match fromCharsInt32 field with
        | none => some out
        | some val => some (out ++ [val])
  else some out

/-- The loop of `split_ints`, from its two pointers and the numbers so far; `none` if it reads what it may
not. -/
def splitIntsLoop (s : List Char) (cur start : Nat) (out : List Int) : Option (List Int) :=
  if cur ≤ s.length then
    match charAt s cur with
    | none => none
    | some c =>
        if c = ',' ∨ cur = s.length then
          match takeField s start cur out with
          | none => none
          | some out => splitIntsLoop s (cur + 1) (cur + 1) out
        else splitIntsLoop s (cur + 1) start out
  else some out
termination_by s.length + 1 - cur

def readFields (fields : List (List Char)) : List Int :=
  (fields.filter fun field => field ≠ []).filterMap fromCharsInt32

theorem splitInts_eq_readFields (s : String) : splitInts s = readFields (s.toList.splitOn ',') := by
  rw [splitInts, readFields, List.filterMap_filter]
  apply List.filterMap_congr
  intro field _
  by_cases hempty : field = []
  · simp [hempty]
  · simp [hempty, fromCharsInt32]

theorem readFields_cons (field : List Char) (fields : List (List Char)) :
    readFields (field :: fields) = readFields [field] ++ readFields fields := by
  rw [readFields, readFields, readFields, ← List.filterMap_append, ← List.filter_append]
  rfl

section Field

variable {s before field rest : List Char} {out : List Int}

theorem charAt_mid {c : Char} (hs : s = before ++ c :: rest) : charAt s before.length = some c := by
  have hlt : before.length < s.length := by
    rw [hs, List.length_append, List.length_cons]
    omega
  rw [charAt, if_neg (by omega), hs, List.getElem?_append_right le_rfl, Nat.sub_self]
  rfl

theorem charsBetween_mid (hs : s = before ++ (field ++ rest)) :
    charsBetween s before.length (before.length + field.length) = some field := by
  have hle : before.length + field.length ≤ s.length := by
    rw [hs, List.length_append, List.length_append]
    omega
  rw [charsBetween, if_pos ⟨Nat.le_add_right _ _, hle⟩, Nat.add_sub_cancel_left, hs, List.drop_left,
    List.take_left]

theorem takeField_mid (hs : s = before ++ (field ++ rest)) :
    takeField s before.length (before.length + field.length) out = some (out ++ readFields [field]) := by
  rw [takeField, charsBetween_mid hs]
  by_cases hempty : field = []
  · simp [hempty, readFields]
  · have hlength : 0 < field.length := List.length_pos_iff.mpr hempty
    rw [if_pos (by omega)]
    cases hread : fromCharsInt32 field <;> simp [readFields, hempty, hread]

end Field

/-- From the middle of a field: `before` has been taken, `pending` is what the field has so far. -/
theorem splitIntsLoop_spec {s : List Char} (before pending rest : List Char) (out : List Int)
    (hs : s = before ++ (pending ++ rest)) (hpending : ',' ∉ pending) :
    splitIntsLoop s (before.length + pending.length) before.length out =
      some (out ++ readFields ((pending ++ rest).splitOn ',')) := by
  induction rest generalizing before pending out with
  | nil =>
      have hend : before.length + pending.length = s.length := by
        rw [hs, List.append_nil, List.length_append]
      have hlast : splitIntsLoop s (s.length + 1) (s.length + 1) (out ++ readFields [pending]) =
          some (out ++ readFields [pending]) := by
        rw [splitIntsLoop, if_neg (by omega)]
      rw [splitIntsLoop, if_pos (by omega), charAt, if_pos hend]
      simp only [hend, or_true, if_true]
      rw [← hend, takeField_mid hs, hend]
      simp only [hlast, List.append_nil, List.splitOn_eq_singleton hpending]
  | cons c rest ih =>
      have hlt : before.length + pending.length < s.length := by
        rw [hs, List.length_append, List.length_append, List.length_cons]
        omega
      have hchar : charAt s (before.length + pending.length) = some c := by
        rw [← List.length_append]
        exact charAt_mid (by rw [hs, List.append_assoc])
      rw [splitIntsLoop, if_pos hlt.le, hchar]
      by_cases hcomma : c = ','
      · subst hcomma
        have hnext := ih (before ++ pending ++ [',']) [] (out ++ readFields [pending]) (by simp [hs])
          List.not_mem_nil
        simp only [List.length_append, List.length_cons, List.length_nil, Nat.add_zero, Nat.zero_add,
          List.nil_append] at hnext
        simp only [true_or, if_true, takeField_mid hs, hnext]
        rw [List.splitOn_append_cons_self_of_not_mem hpending, readFields_cons pending (rest.splitOn ','),
          List.append_assoc]
      · have hnext := ih before (pending ++ [c]) out (by simp [hs]) (by simp [hpending, Ne.symm hcomma])
        simp only [List.length_append, List.length_cons, List.length_nil, Nat.zero_add,
          List.append_assoc, List.cons_append, List.nil_append] at hnext
        simp only [hcomma, hlt.ne, or_self, if_false]
        exact hnext

def splitIntsRun (s : String) : Option (List Int) := splitIntsLoop s.toList 0 0 []

theorem splitIntsRun_eq (s : String) : splitIntsRun s = some (readFields (s.toList.splitOn ',')) := by
  have hspec := splitIntsLoop_spec [] [] s.toList [] rfl List.not_mem_nil
  simpa [splitIntsRun] using hspec

/-- The loop ends without having read past the terminator. It returns what the fields between the commas
are read as, and for the text of a list that list. -/
theorem splitIntsRun_joinInts :
    (∀ s : String, splitIntsRun s =
        some (((s.toList.splitOn ',').filter fun field => field ≠ []).filterMap fromCharsInt32)) ∧
      ∀ v : List Int, (∀ n ∈ v, inRangeInt32 n = true) → splitIntsRun (joinInts v) = some v := by
  refine ⟨splitIntsRun_eq, fun v hv => ?_⟩
  rw [splitIntsRun_eq, ← splitInts_eq_readFields, splitInts_joinInts hv]

theorem splitIntsRun_joinInts_extremes :
    splitIntsRun (joinInts [-2147483648, 0, 2147483647]) = some [-2147483648, 0, 2147483647] ∧
      splitIntsRun ",7,,x,-5y," = some [7, -5] :=
  ⟨splitIntsRun_joinInts.2 _ (by decide), (splitIntsRun_joinInts.1 _).trans (by decide)⟩

end DownloadWrapper
