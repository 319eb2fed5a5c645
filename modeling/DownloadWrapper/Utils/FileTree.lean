import DownloadWrapper.Utils.FileSystem

/-!
# The file system as a tree

What is made stays, and nothing stands where its parent directory does not. A path built from a
directory and a plain name is read back as the two.
-/

namespace DownloadWrapper

/-- A file name: not empty, and without a separator. -/
def PlainName (name : String) : Prop := name ≠ "" ∧ '/' ∉ name.toList

instance (name : String) : Decidable (PlainName name) :=
  inferInstanceAs (Decidable (_ ∧ _))

theorem PlainName.head_ne {name : String} (h : PlainName name) : name.toList.head? ≠ some '/' := by
  intro hhead
  exact h.2 (List.mem_of_head? hhead)

/-- A directory path that a name can be appended to with one separator. -/
def ClosedPath (path : String) : Prop := path ≠ "" ∧ path.toList.getLast? ≠ some '/'

theorem joinPath_of_closed {dir name : String} (hdir : ClosedPath dir) (hname : PlainName name) :
    joinPath dir name = dir ++ "/" ++ name := by
  rw [joinPath, if_neg, if_neg hdir.2]
  rintro (hhead | hempty)
  · exact hname.head_ne hhead
  · exact hdir.1 hempty

theorem getLast?_joinPath (dir : String) {name : String} (hname : name ≠ "") :
    (joinPath dir name).toList.getLast? = name.toList.getLast? := by
  have hne : name.toList ≠ [] := by simpa using hname
  rw [joinPath]
  split
  · rfl
  split
  · rw [String.toList_append, List.getLast?_append_of_ne_nil _ hne]
  · rw [String.toList_append, List.getLast?_append_of_ne_nil _ hne]

theorem closedPath_joinPath (dir : String) {name : String} (hname : PlainName name) :
    ClosedPath (joinPath dir name) := by
  refine ⟨joinPath_ne_empty dir hname.1, fun hslash => ?_⟩
  rw [getLast?_joinPath dir hname.1] at hslash
  exact hname.2 (List.mem_of_getLast? hslash)

theorem toList_joinPath {dir name : String} (hdir : ClosedPath dir) (hname : PlainName name) :
    (joinPath dir name).toList = dir.toList ++ '/' :: name.toList := by
  rw [joinPath_of_closed hdir hname]
  simp [String.toList_append]

theorem dropWhile_reverse_segment {front last : List Char}
    (hfront : front = [] ∨ front.getLast? = some '/') (hlast : '/' ∉ last) :
    (front ++ last).reverse.dropWhile (· ≠ '/') = front.reverse := by
  have hback : ∀ c ∈ last.reverse, decide (c ≠ '/') = true := fun c hc =>
    decide_eq_true fun heq => hlast (heq ▸ List.mem_reverse.mp hc)
  rw [List.reverse_append, List.dropWhile_append_of_pos hback]
  rcases hfront with rfl | hslash
  · rfl
  · rw [← List.head?_reverse] at hslash
    obtain ⟨rest, hrest⟩ := List.head?_eq_some_iff.mp hslash
    rw [hrest]
    exact List.dropWhile_cons_of_neg (by simp)

theorem parentPath_joinPath {dir name : String} (hdir : ClosedPath dir) (hname : PlainName name) :
    parentPath (joinPath dir name) = dir := by
  have hbefore : (joinPath dir name).toList.reverse.dropWhile (· ≠ '/') =
      '/' :: dir.toList.reverse := by
    have hsplit : (joinPath dir name).toList = (dir.toList ++ ['/']) ++ name.toList := by
      rw [toList_joinPath hdir hname]
      simp
    rw [hsplit, dropWhile_reverse_segment (Or.inr (by simp)) hname.2]
    simp
  have hkept : ('/' :: dir.toList.reverse).dropWhile (· = '/') = dir.toList.reverse := by
    rw [List.dropWhile_cons_of_pos (by simp)]
    cases hcase : dir.toList.reverse with
    | nil => rfl
    | cons c rest =>
        have hlast : dir.toList.getLast? = some c := by
          rw [← List.head?_reverse, hcase]
          rfl
        rw [List.dropWhile_cons_of_neg]
        intro hc
        simp only [decide_eq_true_eq] at hc
        exact hdir.2 (hc ▸ hlast)
  rw [parentPath]
  simp only [hbefore, hkept, List.reverse_reverse]
  rw [if_neg]
  · exact String.ofList_toList
  · rintro ⟨-, hempty⟩
    exact hdir.1 (String.toList_injective hempty)

namespace Fs

variable {fs : Fs}

def Grows (fs fs' : Fs) : Prop := ∀ path, fs.exist path = true → fs'.exist path = true

theorem Grows.refl (fs : Fs) : Grows fs fs := fun _ => id

theorem grows_createDirectories (fs : Fs) (path : String) : Grows fs (fs.createDirectories path) := by
  intro p hp
  simp only [exist, createDirectories] at hp ⊢
  cases hentry : fs p with
  | some entry => rfl
  | none => simp [hentry] at hp

theorem isAncestorOrSelf_trans {a b c : String} (hab : isAncestorOrSelf a b = true)
    (hbc : isAncestorOrSelf b c = true) : isAncestorOrSelf a c = true := by
  simp only [isAncestorOrSelf, Bool.or_eq_true, decide_eq_true_eq, List.isPrefixOf_iff_prefix] at *
  rcases hab with rfl | hab
  · exact hbc
  rcases hbc with rfl | hbc
  · exact Or.inr hab
  · exact Or.inr (hab.trans ((List.prefix_append _ _).trans hbc))

/-- Nothing stands where its directories do not. -/
def Grounded (fs : Fs) : Prop :=
  ∀ path above, fs.exist path = true → isAncestorOrSelf above path = true → above ≠ "" →
    fs.exist above = true

theorem Grounded.createDirectories (h : Grounded fs) (path : String) :
    Grounded (fs.createDirectories path) := by
  intro p above hp habove hne
  cases hentry : fs p with
  | some entry =>
      exact grows_createDirectories fs path above (h p above (by simp [exist, hentry]) habove hne)
  | none =>
      simp only [exist, DownloadWrapper.Fs.createDirectories, hentry, Option.isSome_ite] at hp
      have hmade := isAncestorOrSelf_trans habove hp
      simp only [exist, DownloadWrapper.Fs.createDirectories, hmade, if_true]
      cases fs above <;> rfl

end Fs

end DownloadWrapper
