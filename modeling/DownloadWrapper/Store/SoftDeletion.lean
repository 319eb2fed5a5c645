import DownloadWrapper.Lib.Transition
import DownloadWrapper.Store.FileRuns
import DownloadWrapper.Store.TaskRow

/-!
# Soft deletion across the tables

A task that is marked deleted takes its files along: a trigger marks them with it, and the start repairs
what is left. `save` marks nothing, so a file that is saved for such a task under a new index is seen.
-/

namespace DownloadWrapper

open Transition

/-- The two tables, and whether `sync_task_file_deletion` is there. -/
structure Database where
  tasks : KeyedList TaskRow.taskId := .empty
  taskFile : FileTable := .empty
  trigger : Bool := false

/-- `UPDATE tasks SET is_delete=1 WHERE … AND is_delete=0`, on one row. -/
def TaskRow.mark (row : TaskRow) : TaskRow := if row.isDelete = 0 then { row with isDelete := 1 } else row

theorem TaskRow.taskId_mark (row : TaskRow) : row.mark.taskId = row.taskId := by
  rw [mark]
  split <;> rfl

/-- `protocol IN (0, 1) AND is_delete = 1`. -/
def TaskRow.gone (row : TaskRow) : Bool := (row.protocol = 0 ∨ row.protocol = 1) ∧ row.isDelete = 1

/-- The body of the trigger, for a row that was updated. -/
def FileTable.syncRow (old new : TaskRow) (t : FileTable) : FileTable :=
  if new.gone ∧ old.isDelete = 0 then t.markDeleted new.taskId else t

/-- It is the trigger of the file store's own runs, on the rows that tasks are bound to. -/
theorem FileTable.syncRow_bind (old : Task) {new : Task} (h : NulFree new.taskId) (t : FileTable) :
    t.syncRow (.bind old) (.bind new) = t.syncTaskFileDeletion old new := by
  have hgone : (TaskRow.bind new).gone = true ↔
      (new.taskProtocol = .http ∨ new.taskProtocol = .torrent) ∧ new.isDelete = true := by
    cases hprotocol : new.taskProtocol <;> cases hdelete : new.isDelete <;>
      simp [TaskRow.gone, TaskRow.bind, Protocol.toInt, bindBool, hprotocol, hdelete]
  have hold : (TaskRow.bind old).isDelete = 0 ↔ ¬ old.isDelete = true := by
    cases hdelete : old.isDelete <;> simp [TaskRow.bind, bindBool, hdelete]
  have hkey : (TaskRow.bind new).taskId = new.taskId := h.cStr_eq
  simp only [syncRow, syncTaskFileDeletion, hgone, hold, hkey, and_assoc]

namespace Database

/-- The task is a download, and marked deleted. -/
def gone (taskId : String) (db : Database) : Bool := (db.tasks.find? taskId).any TaskRow.gone

def initTaskTriggers (db : Database) : Database where
  tasks := db.tasks
  taskFile := db.taskFile.map
    (fun row => if db.gone row.taskId then { row with isDelete := true } else row)
    fun row => by split <;> rfl
  trigger := true

/-- `replace_task`, done or refused as a whole. -/
def replaceTask (task : Task) (granted : Bool) (db : Database) : Database :=
  if task.taskId = "" ∨ ¬ granted then db
  else { db with
    tasks := db.tasks.insert (.bind task)
    taskFile := db.taskFile.filter (·.taskId ≠ cStr task.taskId) }

/-- `delete_task`; the trigger has its part in the statement. -/
def deleteTask (taskId : String) (granted : Bool) (db : Database) : Database :=
  if taskId = "" ∨ ¬ granted then db
  else { db with
    tasks := db.tasks.modify (cStr taskId) TaskRow.mark TaskRow.taskId_mark
    taskFile :=
      match db.tasks.find? (cStr taskId) with
      | some row => if db.trigger then db.taskFile.syncRow row row.mark else db.taskFile
      | none => db.taskFile }

end Database

/-- A call of one of the stores, or a start of the process. A statement of the file store that fails is a
call that is not made, or one of `save` with the files before. -/
inductive StoreCall where
  | replaceTask (task : Task) (granted : Bool)
  | deleteTask (taskId : String) (granted : Bool)
  | save (files : List TaskFile)
  | upsert (file : TaskFile)
  | update (taskId : String) (fileIndex : Int) (file : TaskFile)
  | erase (taskId : String)
  | restart

namespace Database

def next (db : Database) : StoreCall → Database
  | .replaceTask task granted => db.replaceTask task granted
  | .deleteTask taskId granted => db.deleteTask taskId granted
  | .save files => { db with taskFile := (db.taskFile.save files).2 }
  | .upsert file => { db with taskFile := (db.taskFile.upsert file).2 }
  | .update taskId fileIndex file => { db with taskFile := (db.taskFile.update taskId fileIndex file).2 }
  | .erase taskId => { db with taskFile := (db.taskFile.erase taskId).2 }
  | .restart => db.initTaskTriggers

def Hides (db : Database) : Prop :=
  ∀ taskId, db.gone (cStr taskId) = true →
    db.taskFile.get taskId = [] ∧ ∀ fileIndex, db.taskFile.find taskId fileIndex = none

end Database

namespace StoreCall

def saved : StoreCall → List TaskFile
  | .save files => accepted files
  | .upsert file => if file.valid then [file] else []
  | _ => []

/-- The call brings in a file of a task that is gone: no row has its key, and none of the files with that
key is marked deleted. -/
def Revives (db : Database) (call : StoreCall) : Prop :=
  ∃ file ∈ call.saved, db.gone (cStr file.taskId) = true ∧
    db.taskFile.find? (FileTable.rowOf file).key = none ∧
    ∀ other ∈ call.saved, (FileTable.rowOf other).key = (FileTable.rowOf file).key → other.isDelete = false

end StoreCall

/-! ### Saving, key by key -/

namespace FileTable

variable {t : FileTable}

def Shows (k : String × Int) (t : FileTable) : Prop := ∃ row, t.find? k = some row ∧ row.isDelete = false

def saveAll (files : List TaskFile) (t : FileTable) : FileTable :=
  files.foldl (fun t file => insertOrUpdate (rowOf file) t) t

theorem save_eq_saveAll (files : List TaskFile) (t : FileTable) :
    (t.save files).2 = t.saveAll (accepted files) := by
  induction files generalizing t with
  | nil => rfl
  | cons file files ih =>
      rw [save, accepted, List.takeWhile_cons]
      by_cases hrefused : file.taskId = "" ∨ file.fileIndex < 0
      · simp [hrefused, saveAll]
      · simp only [hrefused, if_false, not_false_eq_true, decide_true, if_true]
        exact ih _

theorem upsert_eq_saveAll (file : TaskFile) (t : FileTable) :
    (t.upsert file).2 = t.saveAll (StoreCall.upsert file).saved := by
  rw [upsert, StoreCall.saved]
  split
  next hvalid => rw [save_eq_saveAll, accepted_of_valid hvalid]
  next => rfl

theorem find?_insertOrUpdate_of_ne {row : FileRow} {k : String × Int} (h : k ≠ row.key) :
    (insertOrUpdate row t).find? k = t.find? k := by
  rw [insertOrUpdate]
  split
  · exact KeyedList.find?_insert_of_ne _ h
  · split
    · rfl
    · exact KeyedList.find?_insert_of_ne _ h

/-- After a file is saved, its key has a row that is seen unless one of the two is marked. -/
theorem shows_insertOrUpdate_self (row : FileRow) :
    Shows row.key (insertOrUpdate row t) ↔
      row.isDelete = false ∧ (t.Shows row.key ∨ t.find? row.key = none) := by
  rw [insertOrUpdate]
  split
  next hfind => simp [Shows, hfind]
  next old hfind =>
    by_cases hdeleted : old.isDelete = true
    · simp [Shows, hfind, hdeleted]
    · have hkey : FileRow.key { row with isRead := old.isRead || row.isRead } = row.key := rfl
      rw [if_neg hdeleted, Shows, ← hkey, KeyedList.find?_insert_self]
      simp [Shows, hkey, hfind, hdeleted]

theorem find?_insertOrUpdate_self_ne_none (row : FileRow) : (insertOrUpdate row t).find? row.key ≠ none := by
  rw [insertOrUpdate]
  split
  · simp
  next old hfind =>
    split
    · simp [hfind]
    · have hkey : FileRow.key { row with isRead := old.isRead || row.isRead } = row.key := rfl
      rw [← hkey, KeyedList.find?_insert_self]
      exact Option.some_ne_none _

/-- **A key is seen after some files were saved** if none of its files is marked, and it was seen before
or is new. -/
theorem shows_saveAll_iff (files : List TaskFile) (k : String × Int) :
    Shows k (t.saveAll files) ↔
      (∀ file ∈ files, (rowOf file).key = k → file.isDelete = false) ∧
        (t.Shows k ∨ t.find? k = none ∧ ∃ file ∈ files, (rowOf file).key = k) := by
  induction files generalizing t with
  | nil => simp [saveAll]
  | cons file files ih =>
      rw [saveAll, List.foldl_cons, ← saveAll, ih]
      by_cases hk : (rowOf file).key = k
      · subst hk
        rw [shows_insertOrUpdate_self]
        simp only [find?_insertOrUpdate_self_ne_none, false_and, or_false, List.forall_mem_cons,
          List.exists_mem_cons_iff, true_or, and_true, forall_const]
        change _ ∧ file.isDelete = false ∧ _ ↔ _
        tauto
      · have hshows : Shows k (insertOrUpdate (rowOf file) t) ↔ t.Shows k := by
          rw [Shows, find?_insertOrUpdate_of_ne (Ne.symm hk), Shows]
        rw [hshows, find?_insertOrUpdate_of_ne (Ne.symm hk)]
        simp [hk]

theorem data_of_mem_insertOrUpdate {row other : FileRow} (h : other ∈ insertOrUpdate row t) :
    other ∈ t ∨ other.data = row.data := by
  rw [insertOrUpdate] at h
  split at h
  · rcases KeyedList.mem_insert.mp h with rfl | ⟨hold, -⟩
    · exact Or.inr rfl
    · exact Or.inl hold
  · split at h
    · exact Or.inl h
    · rcases KeyedList.mem_insert.mp h with rfl | ⟨hold, -⟩
      · exact Or.inr rfl
      · exact Or.inl hold

theorem data_of_mem_saveAll {files : List TaskFile} {row : FileRow} (h : row ∈ t.saveAll files) :
    row ∈ t ∨ ∃ file, row.data = filePayload file := by
  induction files generalizing t with
  | nil => exact Or.inl h
  | cons file files ih =>
      rcases ih h with hrow | hpayload
      · exact (data_of_mem_insertOrUpdate hrow).imp_right fun hdata => ⟨file, hdata⟩
      · exact Or.inr hpayload

theorem mem_markDeleted {taskId : String} {row : FileRow} :
    row ∈ t.markDeleted taskId ↔
      (∃ old ∈ t, old.taskId = taskId ∧ { old with isDelete := true } = row) ∨ row ∈ t ∧ row.taskId ≠ taskId := by
  rw [markDeleted, KeyedList.mem_map]
  constructor
  · rintro ⟨old, hold, rfl⟩
    by_cases hid : old.taskId = taskId
    · exact Or.inl ⟨old, hold, hid, (if_pos hid).symm⟩
    · rw [if_neg hid]
      exact Or.inr ⟨hold, hid⟩
  · rintro (⟨old, hold, hid, rfl⟩ | ⟨hrow, hid⟩)
    · exact ⟨old, hold, if_pos hid⟩
    · exact ⟨row, hrow, if_neg hid⟩

theorem mem_or_marked_of_markDeleted {taskId : String} {row : FileRow} (h : row ∈ t.markDeleted taskId) :
    row ∈ t ∨ row.isDelete = true := by
  rcases mem_markDeleted.mp h with ⟨old, -, -, rfl⟩ | ⟨hold, -⟩
  · exact Or.inr rfl
  · exact Or.inl hold

theorem mem_or_marked_of_syncRow {old new : TaskRow} {row : FileRow} (h : row ∈ t.syncRow old new) :
    row ∈ t ∨ row.isDelete = true := by
  rw [syncRow] at h
  split at h
  · exact mem_or_marked_of_markDeleted h
  · exact Or.inl h

theorem find_ne_none_of_payload {file : TaskFile} {row : FileRow} {taskId : String} {fileIndex : Int}
    (hfind : t.find? (cStr taskId, fileIndex) = some row) (hshown : row.isDelete = false)
    (hdata : row.data = filePayload file) : t.find taskId fileIndex ≠ none := by
  simp [find, hfind, hshown, readTaskFile, hdata, filePayload]

end FileTable

/-! ### The invariant -/

namespace Database

variable {db : Database}

theorem gone_iff {taskId : String} :
    db.gone taskId = true ↔ ∃ row, db.tasks.find? taskId = some row ∧ row.gone = true :=
  Option.any_eq_true _ _

structure Clean (db : Database) : Prop where
  trigger : db.trigger = true
  marked : ∀ row ∈ db.taskFile, db.gone row.taskId = true → row.isDelete = true

theorem Clean.hides (h : db.Clean) : db.Hides := by
  intro taskId hgone
  constructor
  · have hnone : (db.taskFile.entries.filter fun row => row.taskId = cStr taskId && !row.isDelete) = [] := by
      rw [List.filter_eq_nil_iff]
      intro row hrow hseen
      simp only [Bool.and_eq_true, decide_eq_true_eq, Bool.not_eq_true'] at hseen
      have hmarked := h.marked row hrow (by rw [hseen.1]; exact hgone)
      exact absurd (hseen.2.symm.trans hmarked) Bool.false_ne_true
    rw [FileTable.get, hnone]
    rfl
  · intro fileIndex
    rw [FileTable.find]
    cases hfind : db.taskFile.find? (cStr taskId, fileIndex) with
    | none => rfl
    | some row =>
        have hkey := KeyedList.key_of_find? hfind
        have hmarked := h.marked row (KeyedList.mem_of_find? hfind)
          (by rw [show row.taskId = cStr taskId from congrArg Prod.fst hkey]; exact hgone)
        simp [hmarked]

theorem clean_initTaskTriggers (db : Database) : db.initTaskTriggers.Clean := by
  refine ⟨rfl, fun row hrow hgone => ?_⟩
  rw [initTaskTriggers, KeyedList.mem_map] at hrow
  obtain ⟨old, -, rfl⟩ := hrow
  by_cases hold : db.gone old.taskId = true
  · rw [if_pos hold]
  · rw [if_neg hold] at hgone
    exact absurd hgone hold

/-- The file table can be judged by itself: no call on it changes which tasks are gone. -/
theorem Clean.withFiles (h : db.Clean) {t : FileTable}
    (ht : ∀ row ∈ t, db.gone row.taskId = true → row.isDelete = true) : Clean { db with taskFile := t } :=
  ⟨h.trigger, ht⟩

theorem Clean.markDeleted (h : db.Clean) (taskId : String) :
    Clean { db with taskFile := db.taskFile.markDeleted taskId } :=
  h.withFiles fun row hrow hgone =>
    (FileTable.mem_or_marked_of_markDeleted hrow).elim (fun hold => h.marked row hold hgone) id

theorem Clean.update (h : db.Clean) (taskId : String) (fileIndex : Int) (file : TaskFile) :
    Clean { db with taskFile := (db.taskFile.update taskId fileIndex file).2 } := by
  refine h.withFiles fun row hrow hgone => ?_
  rw [FileTable.update] at hrow
  split at hrow
  · exact h.marked row hrow hgone
  · dsimp only at hrow
    rw [KeyedList.mem_modify] at hrow
    rcases hrow with ⟨hold, -⟩ | ⟨old, hold, -, rfl⟩
    · exact h.marked row hold hgone
    · have hid := congrArg Prod.fst (FileTable.key_updateRow (file.under taskId fileIndex) old)
      have hmarked := h.marked old hold (by rw [← show _ = old.taskId from hid]; exact hgone)
      rw [FileTable.updateRow, if_pos hmarked]
      exact hmarked

theorem Clean.replaceTask (h : db.Clean) (task : Task) (granted : Bool) : (db.replaceTask task granted).Clean := by
  rw [Database.replaceTask]
  split
  · exact h
  · refine ⟨h.trigger, fun row hrow hgone => ?_⟩
    obtain ⟨hold, hother⟩ := KeyedList.mem_filter.mp hrow
    refine h.marked row hold ?_
    have hne : row.taskId ≠ (TaskRow.bind task).taskId := of_decide_eq_true hother
    rw [gone] at hgone ⊢
    rwa [KeyedList.find?_insert_of_ne _ hne] at hgone

/-- A task that is gone after the update of its row was gone before, or the update marked it. -/
theorem gone_or_marked_of_modify {taskId id : String} {tasks : KeyedList TaskRow.taskId}
    (h : ((tasks.modify taskId TaskRow.mark TaskRow.taskId_mark).find? id).any TaskRow.gone = true) :
    (tasks.find? id).any TaskRow.gone = true ∨
      id = taskId ∧ ∃ old, tasks.find? taskId = some old ∧ old.isDelete = 0 ∧ old.mark.gone = true := by
  by_cases hid : id = taskId
  · subst hid
    rw [KeyedList.find?_modify_self] at h
    cases hfind : tasks.find? id with
    | none => simp [hfind] at h
    | some old =>
        rw [hfind, Option.map_some, Option.any_some] at h
        by_cases hdeleted : old.isDelete = 0
        · exact Or.inr ⟨rfl, old, rfl, hdeleted, h⟩
        · rw [TaskRow.mark, if_neg hdeleted] at h
          exact Or.inl h
  · rw [KeyedList.find?_modify_of_ne _ _ _ hid] at h
    exact Or.inl h

/-- **The trigger marks the files of a task as it is marked.** -/
theorem Clean.deleteTask (h : db.Clean) (taskId : String) (granted : Bool) :
    (db.deleteTask taskId granted).Clean := by
  rw [Database.deleteTask]
  split
  · exact h
  refine ⟨h.trigger, fun row hrow hgone => ?_⟩
  rcases gone_or_marked_of_modify hgone with hbefore | ⟨hid, old, hfind, hlive, hnow⟩
  · have hkept : row ∈ db.taskFile ∨ row.isDelete = true := by
      split at hrow
      · split at hrow
        · exact FileTable.mem_or_marked_of_syncRow hrow
        · exact Or.inl hrow
      · exact Or.inl hrow
    exact hkept.elim (fun hold => h.marked row hold hbefore) id
  · -- the row is updated, so the trigger fires
    have hkey : old.mark.taskId = row.taskId :=
      old.taskId_mark.trans ((KeyedList.key_of_find? hfind).trans hid.symm)
    simp only [hfind, h.trigger, if_true] at hrow
    rw [FileTable.syncRow, if_pos ⟨hnow, hlive⟩, FileTable.mem_markDeleted] at hrow
    rcases hrow with ⟨-, -, -, rfl⟩ | ⟨-, hother⟩
    · rfl
    · exact absurd hkey.symm hother

theorem Clean.saveAll (h : db.Clean) {files : List TaskFile}
    (hnone : ¬ ∃ file ∈ files, db.gone (cStr file.taskId) = true ∧
      db.taskFile.find? (FileTable.rowOf file).key = none ∧
      ∀ other ∈ files, (FileTable.rowOf other).key = (FileTable.rowOf file).key → other.isDelete = false) :
    Clean { db with taskFile := db.taskFile.saveAll files } := by
  refine h.withFiles fun row hrow hgone => ?_
  by_contra hseen
  have hshows : FileTable.Shows row.key (db.taskFile.saveAll files) :=
    ⟨row, KeyedList.find?_key hrow, by simpa using hseen⟩
  obtain ⟨hfiles, ⟨old, hfind, hold⟩ | ⟨hnew, file, hfile, hkey⟩⟩ :=
    (FileTable.shows_saveAll_iff files row.key).mp hshows
  · have hid : old.taskId = row.taskId := congrArg Prod.fst (KeyedList.key_of_find? hfind)
    have hmarked := h.marked old (KeyedList.mem_of_find? hfind) (by rw [hid]; exact hgone)
    exact absurd (hold.symm.trans hmarked) Bool.false_ne_true
  · refine hnone ⟨file, hfile, ?_, by rw [hkey]; exact hnew, fun other hother heq =>
      hfiles other hother (heq.trans hkey)⟩
    rw [show cStr file.taskId = row.taskId from congrArg Prod.fst hkey]
    exact hgone

/-- **A call that brings in no file keeps the tables clean.** -/
theorem Clean.next (h : db.Clean) {call : StoreCall} (hcall : ¬ call.Revives db) : (db.next call).Clean := by
  cases call with
  | replaceTask task granted => exact h.replaceTask task granted
  | deleteTask taskId granted => exact h.deleteTask taskId granted
  | save files =>
      rw [Database.next, FileTable.save_eq_saveAll]
      exact h.saveAll hcall
  | upsert file =>
      rw [Database.next, FileTable.upsert_eq_saveAll]
      exact h.saveAll hcall
  | update taskId fileIndex file => exact h.update taskId fileIndex file
  | erase taskId => exact h.markDeleted (cStr taskId)
  | restart => exact clean_initTaskTriggers db

theorem saved_eq_nil_or (call : StoreCall) (db : Database) :
    call.saved = [] ∨ db.next call = { db with taskFile := db.taskFile.saveAll call.saved } := by
  cases call with
  | save files =>
      rw [Database.next, FileTable.save_eq_saveAll]
      exact Or.inr rfl
  | upsert file =>
      rw [Database.next, FileTable.upsert_eq_saveAll]
      exact Or.inr rfl
  | replaceTask | deleteTask | update | erase | restart => exact Or.inl rfl

/-- **A file that is brought in is seen.** -/
theorem not_hides_of_revives {call : StoreCall} (hcall : call.Revives db) : ¬ (db.next call).Hides := by
  obtain ⟨file, hfile, hgone, hnew, hunmarked⟩ := hcall
  rcases saved_eq_nil_or call db with hnil | hnext
  · rw [hnil] at hfile
    exact absurd hfile List.not_mem_nil
  obtain ⟨row, hfind, hshown⟩ := (FileTable.shows_saveAll_iff call.saved _).mpr
    ⟨hunmarked, Or.inr ⟨hnew, file, hfile, rfl⟩⟩
  rw [hnext]
  intro hhides
  rcases FileTable.data_of_mem_saveAll (KeyedList.mem_of_find? hfind) with hold | ⟨payload, hdata⟩
  · have hthere := KeyedList.find?_key hold
    rw [KeyedList.key_of_find? hfind, hnew] at hthere
    exact absurd hthere nofun
  · exact FileTable.find_ne_none_of_payload hfind hshown hdata ((hhides file.taskId hgone).2 file.fileIndex)

/-- **The files of deleted tasks stay hidden just as long as none is brought in**, from any start on. -/
theorem along_hides_iff (db : Database) (calls : List StoreCall) :
    db.initTaskTriggers.Hides ∧
      (Along next (fun db call => (db.next call).Hides) db.initTaskTriggers calls ↔
        Along next (fun db call => ¬ call.Revives db) db.initTaskTriggers calls) := by
  have hclean := clean_initTaskTriggers db
  refine ⟨hclean.hides, (along_iff (fun db call (h : db.Clean) => h.next) ?_ hclean calls).symm⟩
  intro db call h
  exact ⟨fun hcall => (h.next hcall).hides, fun hhides hcall => not_hides_of_revives hcall hhides⟩

/-- A task is added and deleted, and then a file of it is saved. -/
def lateFile : List StoreCall :=
  [.replaceTask { taskId := "t", taskProtocol := .http } true, .deleteTask "t" true,
    .save [{ taskId := "t", fileIndex := 0 }]]

/-- **A file saved after its task was deleted is seen.** -/
theorem not_forall_along_hides : ¬ ∀ (db : Database) (calls : List StoreCall),
    Along next (fun db call => (db.next call).Hides) db.initTaskTriggers calls := by
  intro h
  have hhides := (h {} lateFile).2.2.1 "t" (by decide)
  exact absurd (hhides.2 0) (by decide)

end Database

end DownloadWrapper
