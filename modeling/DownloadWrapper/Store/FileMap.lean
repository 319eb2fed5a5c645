import DownloadWrapper.Store.TaskFileStore
import Mathlib.Algebra.Group.Int.Defs

/-!
# The file store as a map

The rows of `task_file` are a map from task and file index to files, in which what is deleted stays and
is not seen. Each operation acts on that map at the keys it names, and the reads show what is not
deleted, as it was last written.
-/

namespace DownloadWrapper

def NulFree (s : String) : Prop := ∀ c ∈ s.toList, c.toNat ≠ 0

instance (s : String) : Decidable (NulFree s) :=
  decidable_of_iff (s.toList.all fun c => c.toNat ≠ 0) (by simp [NulFree])

theorem NulFree.cStr_eq {s : String} (h : NulFree s) : cStr s = s := by
  have hall : s.toList.takeWhile (fun c => c.toNat ≠ 0) = s.toList := by
    rw [List.takeWhile_eq_self_iff]
    intro c hc
    exact decide_eq_true (h c hc)
  rw [cStr, hall, String.ofList_toList]

/-- A `TaskFile` as the source has it: no text holds a NUL, and the priority fits into its type. -/
structure TaskFile.Plain (file : TaskFile) : Prop where
  taskId : NulFree file.taskId
  name : NulFree file.name
  path : NulFree file.path
  fullPath : NulFree file.fullPath
  extension : NulFree file.extension
  prioritize : -2 ^ 31 ≤ file.prioritize ∧ file.prioritize < 2 ^ 31

/-- What is read of a file: neither mark is part of the payload. -/
def TaskFile.readBack (file : TaskFile) (isRead : Bool) : TaskFile :=
  { file with isRead := isRead, isDelete := false, dirty := false }

theorem readSegment_ofInt (segment : Int × Int) :
    readSegment (.array [.number (some segment.1) segment.1, .number (some segment.2) segment.2]) =
      some segment := rfl

/-- **The payload of a file is read as that file.** -/
theorem readTaskFile_filePayload {file : TaskFile} (h : file.Plain) {row : FileRow}
    (hdata : row.data = filePayload file) (hkey : row.key = file.key) :
    readTaskFile row row.taskId = some (file.readBack row.isRead) := by
  have hcast : file.prioritize.bmod (2 ^ 32) = file.prioritize :=
    Int.bmod_eq_of_le (by have := h.prioritize.1; omega) (by have := h.prioritize.2; omega)
  obtain ⟨hid, hindex⟩ := Prod.mk.inj hkey
  rw [readTaskFile, hdata]
  simp [filePayload, TaskFile.toJson, TaskFile.readBack, extractString, extractInt64, extractInt32,
    extractDouble, readSegments, ifContains, Json.ofInt, hid, hindex, h.name.cStr_eq, h.path.cStr_eq,
    h.fullPath.cStr_eq, h.extension.cStr_eq, Function.comp_def, readSegment_ofInt]
  exact hcast

/-- What the store is for: from task and file index to a file. -/
abbrev FileMap := TombMap (String × Int) TaskFile

def FileMap.put (file : TaskFile) (m : FileMap) : FileMap :=
  m.alter file.key fun old => some ⟨file.readBack (old.any TaskFile.isRead || file.isRead), file.isDelete⟩

def FileMap.replace (file : TaskFile) (m : FileMap) : FileMap :=
  m.alter file.key fun old => old.map fun _ => ⟨file.readBack file.isRead, file.isDelete⟩

def FileRow.entry (row : FileRow) : Option (Tombstoned TaskFile) :=
  (readTaskFile row row.taskId).map fun file => ⟨file, row.isDelete⟩

namespace FileTable

def toMap (t : FileTable) : FileMap := fun k => (t.find? k).bind FileRow.entry

def Sound (t : FileTable) : Prop :=
  ∀ row ∈ t, ∃ file : TaskFile, file.Plain ∧ row.data = filePayload file ∧ row.key = file.key

theorem sound_empty : Sound .empty := by
  intro row hrow
  simp [KeyedList.mem_def, KeyedList.empty] at hrow

variable {t : FileTable}

theorem Sound.entry (h : t.Sound) {row : FileRow} (hrow : row ∈ t) :
    ∃ file, row.entry = some ⟨file, row.isDelete⟩ ∧ file.isRead = row.isRead ∧ file.key = row.key := by
  obtain ⟨file, hplain, hdata, hkey⟩ := h row hrow
  refine ⟨file.readBack row.isRead, ?_, rfl, hkey.symm⟩
  rw [FileRow.entry, readTaskFile_filePayload hplain hdata hkey, Option.map_some]

theorem toMap_of_find? (h : t.Sound) {k : String × Int} {row : FileRow} (hfind : t.find? k = some row) :
    ∃ file, t.toMap k = some ⟨file, row.isDelete⟩ ∧ file.isRead = row.isRead ∧ file.key = k := by
  obtain ⟨file, hentry, hread, hkey⟩ := h.entry (KeyedList.mem_of_find? hfind)
  refine ⟨file, ?_, hread, hkey.trans (KeyedList.key_of_find? hfind)⟩
  rw [toMap, hfind, Option.bind_some, hentry]

theorem toMap_of_find?_none {k : String × Int} (hfind : t.find? k = none) : t.toMap k = none := by
  rw [toMap, hfind, Option.bind_none]

theorem toMap_insert (t : FileTable) (row : FileRow) :
    toMap (t.insert row) = Function.update t.toMap row.key row.entry := by
  funext k
  rw [toMap, KeyedList.find?_insert]
  split
  next hk => rw [hk, Function.update_self, Option.bind_some]
  next hk => rw [Function.update_of_ne hk, toMap]

theorem buried_toMap_iff (hsound : t.Sound) {k : String × Int} :
    t.toMap.Buried k ↔ ∃ row, t.find? k = some row ∧ row.isDelete = true := by
  constructor
  · rintro ⟨e, hm, hdeleted⟩
    cases hfind : t.find? k with
    | none => simp [toMap_of_find?_none hfind] at hm
    | some row =>
        obtain ⟨file, hentry, -⟩ := toMap_of_find? hsound hfind
        obtain rfl := Option.some.inj (hentry.symm.trans hm)
        exact ⟨row, rfl, hdeleted⟩
  · rintro ⟨row, hfind, hdeleted⟩
    obtain ⟨file, hentry, -⟩ := toMap_of_find? hsound hfind
    exact ⟨_, hentry, hdeleted⟩

section Statements

variable {file : TaskFile} (hplain : file.Plain)
include hplain

theorem entry_payload {row : FileRow} (hdata : row.data = filePayload file) (hkey : row.key = file.key) :
    row.entry = some ⟨file.readBack row.isRead, row.isDelete⟩ := by
  rw [FileRow.entry, readTaskFile_filePayload hplain hdata hkey, Option.map_some]

theorem key_rowOf : (rowOf file).key = file.key := by
  rw [FileRow.key, rowOf, hplain.taskId.cStr_eq, TaskFile.key]

/-- **Saving a row puts its file into the map.** -/
theorem toMap_insertOrUpdate (hsound : t.Sound) :
    (insertOrUpdate (rowOf file) t).toMap = t.toMap.put file := by
  have hkey := key_rowOf hplain
  rw [insertOrUpdate, hkey, FileMap.put]
  cases hfind : t.find? file.key with
  | none =>
      have hm := toMap_of_find?_none hfind
      have hnot : ¬ t.toMap.Buried file.key := by simp [TombMap.Buried, hm]
      rw [TombMap.alter_of_not hnot, toMap_insert, hkey, entry_payload hplain rfl hkey, hm]
      rfl
  | some old =>
      obtain ⟨before, hm, hread, -⟩ := toMap_of_find? hsound hfind
      by_cases hdeleted : old.isDelete = true
      · have hburied : t.toMap.Buried file.key := (buried_toMap_iff hsound).mpr ⟨old, hfind, hdeleted⟩
        rw [hburied.alter_self]
        exact congrArg toMap (if_pos hdeleted)
      · have hnot : ¬ t.toMap.Buried file.key := by
          rw [buried_toMap_iff hsound, hfind]
          simpa using hdeleted
        have hmerged : FileRow.key { rowOf file with isRead := old.isRead || (rowOf file).isRead } =
          file.key := hkey
        simp only [if_neg hdeleted]
        rw [TombMap.alter_of_not hnot, hm, toMap_insert, hmerged, entry_payload hplain rfl hmerged,
          Option.map_some, Option.any_some, hread]
        rfl

theorem Sound.insertOrUpdate (hsound : t.Sound) : (insertOrUpdate (rowOf file) t).Sound := by
  have hinsert : ∀ row : FileRow, row.data = filePayload file → row.key = file.key →
      Sound (t.insert row) := by
    intro row hdata hkey other hother
    rcases KeyedList.mem_insert.mp hother with rfl | ⟨hold, -⟩
    · exact ⟨file, hplain, hdata, hkey⟩
    · exact hsound other hold
  rw [FileTable.insertOrUpdate]
  split
  · exact hinsert _ rfl (key_rowOf hplain)
  · split
    · exact hsound
    · exact hinsert _ rfl (key_rowOf hplain)

theorem toMap_modify (hsound : t.Sound) :
    toMap (t.modify file.key (updateRow file) (key_updateRow file)) =
      t.toMap.replace file := by
  rw [FileMap.replace]
  funext k
  by_cases hk : k = file.key
  · subst hk
    rw [toMap, KeyedList.find?_modify_self]
    cases hfind : t.find? file.key with
    | none =>
        have hm := toMap_of_find?_none hfind
        have hnot : ¬ t.toMap.Buried file.key := by simp [TombMap.Buried, hm]
        rw [TombMap.alter_self_of_not hnot, hm]
        rfl
    | some old =>
        obtain ⟨before, hm, -⟩ := toMap_of_find? hsound hfind
        rw [Option.map_some, Option.bind_some, updateRow]
        by_cases hdeleted : old.isDelete = true
        · have hburied : t.toMap.Buried file.key := (buried_toMap_iff hsound).mpr ⟨old, hfind, hdeleted⟩
          rw [hburied.alter_self, if_pos hdeleted, toMap, hfind, Option.bind_some]
        · have hnot : ¬ t.toMap.Buried file.key := by
            rw [buried_toMap_iff hsound, hfind]
            simpa using hdeleted
          have hold : old.key = file.key := KeyedList.key_of_find? hfind
          have hkey : FileRow.key { old with
              data := filePayload file, isDelete := file.isDelete, isRead := file.isRead } = file.key := hold
          rw [TombMap.alter_self_of_not hnot, if_neg hdeleted, hm, entry_payload hplain rfl hkey]
          rfl
  · rw [TombMap.alter_of_ne hk, toMap, KeyedList.find?_modify_of_ne _ _ _ hk, toMap]

theorem Sound.modify (hsound : t.Sound) :
    Sound (t.modify file.key (updateRow file) (key_updateRow file)) := by
  intro row hrow
  rcases KeyedList.mem_modify.mp hrow with ⟨hold, -⟩ | ⟨old, hold, hkey, rfl⟩
  · exact hsound row hold
  · rw [updateRow]
    split
    · exact hsound old hold
    · exact ⟨file, hplain, rfl, hkey⟩

end Statements

theorem toMap_markDeleted (t : FileTable) (taskId : String) :
    (markDeleted taskId t).toMap = t.toMap.bury fun k => k.1 = taskId := by
  funext k
  rw [toMap, markDeleted, KeyedList.find?_map, TombMap.bury, toMap]
  cases hfind : t.find? k with
  | none => simp
  | some row =>
      obtain rfl := KeyedList.key_of_find? hfind
      by_cases hid : row.taskId = taskId
      · simp [hid, FileRow.key, FileRow.entry, readTaskFile, Function.comp_def]
      · simp [hid, FileRow.key]

theorem Sound.markDeleted (hsound : t.Sound) (taskId : String) : (markDeleted taskId t).Sound := by
  intro row hrow
  obtain ⟨old, hold, rfl⟩ := KeyedList.mem_map.mp hrow
  obtain ⟨file, hplain, hdata, hkey⟩ := hsound old hold
  refine ⟨file, hplain, ?_, ?_⟩
  · split <;> exact hdata
  · split <;> exact hkey

end FileTable

end DownloadWrapper
