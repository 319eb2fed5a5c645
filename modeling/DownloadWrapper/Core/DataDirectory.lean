import DownloadWrapper.Utils.StdPath

/-!
# The data directory of a task

What is removed of a task's files when its root names are known: the directories of these names under the
save path, unless a name leads out of it.
-/

namespace DownloadWrapper

open PathForm StdPath

def dataDirectory (savePath name : String) : StdPath :=
  ((ofString savePath).lexicallyNormal.append (ofString name)).lexicallyNormal

/-- The path that `remove_all` is called with for a name, if it is called. -/
def removedDirectory (savePath name : String) : Option StdPath :=
  if name = "" then none
  else
    let target := dataDirectory savePath name
    let rel := target.lexicallyRelative (ofString savePath).lexicallyNormal
    if rel = ⟨false, []⟩ ∨ rel.filenames.head? = some ".." then none else some target

/-- `remove_data_directory`: the paths that `remove_all` is called with. -/
def removeDataDirectory (savePath rootName originalRootName : String) : List StdPath :=
  [rootName, originalRootName].filterMap (removedDirectory savePath)

theorem place_dataDirectory (savePath name : String) :
    (dataDirectory savePath name).place = normalForm (joinPath savePath name) := by
  rw [dataDirectory, place_lexicallyNormal, place_append, place_lexicallyNormal, place_ofString savePath]
  cases hroot : isAbsolute name with
  | true =>
      have hrooted : (ofString name).rootDirectory = true := hroot
      rw [if_pos hrooted, place_ofString name, joinPath_of_absolute savePath hroot]
  | false =>
      have hrooted : ¬ (ofString name).rootDirectory = true := by
        intro h
        exact absurd (h.symm.trans hroot) (by decide)
      rw [if_neg hrooted, normalForm_joinPath hroot, segments_ofString]

theorem ups_dataDirectory (savePath name : String)
    (h : (dataDirectory savePath name).place.rooted = (normalForm savePath).rooted) :
    (normalForm savePath).ups ≤ (dataDirectory savePath name).place.ups := by
  rw [place_dataDirectory] at h ⊢
  cases hroot : isAbsolute name with
  | true =>
      rw [joinPath_of_absolute savePath hroot] at h ⊢
      have hrooted : (normalForm name).rooted = true := by
        rw [normalForm, rooted_walk, if_pos hroot]
        rfl
      rw [(normalForm savePath).ups_of_rooted (h ▸ hrooted)]
      exact Nat.zero_le _
  | false =>
      rw [normalForm_joinPath hroot]
      exact ups_le_walk _ _

theorem escapes_dataDirectory_iff (savePath name : String) :
    Escapes ((dataDirectory savePath name).lexicallyRelative (ofString savePath).lexicallyNormal).filenames ↔
      ¬ ((dataDirectory savePath name).place = normalForm savePath ∨
        (dataDirectory savePath name).place.Below (normalForm savePath)) := by
  have hups := ups_dataDirectory savePath name
  rw [dataDirectory, place_lexicallyNormal, ← place_ofString savePath] at hups ⊢
  exact escapes_lexicallyRelative_iff hups

/-- **The guard.** A name is passed over just if it is empty or leads out of the save path. -/
theorem removedDirectory_eq_some {savePath name : String} {target : StdPath} :
    removedDirectory savePath name = some target ↔
      name ≠ "" ∧ target = dataDirectory savePath name ∧
        (target.place = normalForm savePath ∨ target.place.Below (normalForm savePath)) := by
  have hempty : (dataDirectory savePath name).lexicallyRelative (ofString savePath).lexicallyNormal =
      ⟨false, []⟩ ↔ ((dataDirectory savePath name).lexicallyRelative
        (ofString savePath).lexicallyNormal).filenames = [] := by
    rw [lexicallyRelative]
    split <;> simp
  rw [removedDirectory]
  by_cases hname : name = ""
  · simp [hname]
  have hguard := escapes_dataDirectory_iff savePath name
  rw [Escapes, ← hempty] at hguard
  simp only [hname, if_false, hguard, ne_eq, not_false_eq_true, true_and]
  constructor
  · intro h
    split_ifs at h with hout
    obtain rfl := Option.some.inj h
    exact ⟨rfl, hout⟩
  · rintro ⟨rfl, hin⟩
    exact if_neg (not_not.mpr hin)

/-- Everything that is removed lies below the save path just if no root name leads back to the save path
itself. -/
theorem removeDataDirectory_below_iff (savePath rootName originalRootName : String) :
    (∀ target ∈ removeDataDirectory savePath rootName originalRootName,
        target.place.Below (normalForm savePath)) ↔
      ∀ name ∈ [rootName, originalRootName], name ≠ "" →
        normalForm (joinPath savePath name) ≠ normalForm savePath := by
  constructor
  · intro h name hmem hname hback
    have hplace : (dataDirectory savePath name).place = normalForm savePath :=
      (place_dataDirectory savePath name).trans hback
    have hremoved : dataDirectory savePath name ∈ removeDataDirectory savePath rootName originalRootName :=
      List.mem_filterMap.mpr ⟨name, hmem, removedDirectory_eq_some.mpr ⟨hname, rfl, Or.inl hplace⟩⟩
    have hbelow := h _ hremoved
    rw [hplace] at hbelow
    exact hbelow.2.2.2 rfl
  · intro h target htarget
    obtain ⟨name, hmem, hremoved⟩ := List.mem_filterMap.mp htarget
    obtain ⟨hname, rfl, hin⟩ := removedDirectory_eq_some.mp hremoved
    refine hin.resolve_left fun hback => h name hmem hname ?_
    rw [← place_dataDirectory]
    exact hback

/-- The root name `.` has the save path itself removed. -/
theorem not_forall_removeDataDirectory_below :
    ¬ ∀ (savePath rootName originalRootName : String),
        ∀ target ∈ removeDataDirectory savePath rootName originalRootName,
          target.place.Below (normalForm savePath) := by
  intro h
  have hremoved : (⟨true, ["d", ""]⟩ : StdPath) ∈ removeDataDirectory "/d" "." "" := by decide
  exact absurd (h "/d" "." "" _ hremoved) (by decide)

end DownloadWrapper
