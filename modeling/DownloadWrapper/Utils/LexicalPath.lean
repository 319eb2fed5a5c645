import DownloadWrapper.Lib.PathForm
import DownloadWrapper.Utils.FileSystem

/-!
# The lexically normalised form of a path

`lexically_normal`, as the place a path leads to: `.` and repeated separators say nothing, `..`
leaves the name before it.
-/

namespace DownloadWrapper

open PathForm

def segmentOf : List Char → Option (Segment String)
  | [] => none
  | ['.'] => none
  | ['.', '.'] => some .up
  | name => some (.name (String.ofList name))

def segmentsOfChars (path : List Char) : List (Segment String) :=
  (path.splitOn '/').filterMap segmentOf

def pathSegments (path : String) : List (Segment String) := segmentsOfChars path.toList

def isAbsolute (path : String) : Bool := path.toList.head? = some '/'

/-- `lexically_normal`. -/
def normalForm (path : String) : PathForm String :=
  (if isAbsolute path then root else here).walk (pathSegments path)

theorem segmentsOfChars_slash (front back : List Char) :
    segmentsOfChars (front ++ '/' :: back) = segmentsOfChars front ++ segmentsOfChars back := by
  unfold segmentsOfChars
  rw [List.splitOn_eq_splitOnP, List.splitOnP_append_cons _ _ (by decide), List.filterMap_append]
  rfl

theorem segmentsOfChars_of_not_mem {piece : List Char} (h : '/' ∉ piece) :
    segmentsOfChars piece = (segmentOf piece).toList := by
  unfold segmentsOfChars
  rw [List.splitOn_eq_splitOnP, List.splitOnP_eq_singleton]
  · cases hpiece : segmentOf piece <;> simp [hpiece]
  · intro c hc
    rw [beq_eq_false_iff_ne]
    rintro rfl
    exact h hc

@[simp] theorem pathSegments_empty : pathSegments "" = [] := by decide

theorem segmentsOfChars_concat_slash (front : List Char) :
    segmentsOfChars (front ++ ['/']) = segmentsOfChars front := by
  have hempty : segmentsOfChars [] = [] := by decide
  rw [segmentsOfChars_slash, hempty, List.append_nil]

/-- **A relative path is walked from the path it is appended to.** -/
theorem normalForm_joinPath {base name : String} (hname : isAbsolute name = false) :
    normalForm (joinPath base name) = (normalForm base).walk (pathSegments name) := by
  have hhead : ¬ name.toList.head? = some '/' := by simpa [isAbsolute] using hname
  by_cases hempty : base = ""
  · subst hempty
    rw [joinPath, if_pos (Or.inr rfl)]
    simp [normalForm, hname, show isAbsolute "" = false from by decide]
  have hlist : base.toList ≠ [] := by simpa using hempty
  have habsolute : ∀ back : String, isAbsolute (base ++ back) = isAbsolute base := by
    intro back
    rw [isAbsolute, isAbsolute, String.toList_append, List.head?_append_of_ne_nil _ hlist]
  rw [joinPath, if_neg (by simp [hhead, hempty])]
  split
  next hlast =>
    obtain ⟨front, hfront⟩ : ∃ front, base.toList = front ++ ['/'] := by
      rw [List.getLast?_eq_some_iff] at hlast
      exact hlast
    have hsegments : pathSegments (base ++ name) = pathSegments base ++ pathSegments name := by
      rw [pathSegments, pathSegments, String.toList_append, hfront, segmentsOfChars_concat_slash,
        List.append_assoc, List.singleton_append, segmentsOfChars_slash]
      rfl
    rw [normalForm, habsolute, hsegments, walk_append]
    rfl
  next =>
    have hsegments : pathSegments (base ++ "/" ++ name) = pathSegments base ++ pathSegments name := by
      rw [pathSegments, String.toList_append, String.toList_append, List.append_assoc]
      exact segmentsOfChars_slash _ _
    rw [normalForm, String.append_assoc, habsolute, ← String.append_assoc, hsegments, walk_append]
    rfl

theorem joinPath_of_absolute (base : String) {name : String} (hname : isAbsolute name = true) :
    joinPath base name = name := by
  rw [joinPath, if_pos]
  exact Or.inl (by simpa [isAbsolute] using hname)

theorem segmentOf_of_getLast {piece : List Char} (hne : piece ≠ [])
    (hlast : piece.getLast? ≠ some '.') : segmentOf piece = some (.name (String.ofList piece)) := by
  unfold segmentOf
  split
  · exact absurd rfl hne
  · exact absurd rfl hlast
  · exact absurd rfl hlast
  · rfl

end DownloadWrapper
