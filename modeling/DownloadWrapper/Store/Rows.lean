import DownloadWrapper.Lib.Evolution
import DownloadWrapper.Store.TaskStore

/-!
# The rows of the tasks table

Only `replace_task` puts a row into the tasks table. Every other operation leaves the rows as they
are, but for the read mark, which nothing is decided by.
-/

namespace DownloadWrapper

def SameRow (row row' : Task) : Prop := ∃ isRead, row' = { row with isRead := isRead }

namespace SameRow

theorem refl (row : Task) : SameRow row row := ⟨row.isRead, rfl⟩

theorem symm {row row' : Task} (h : SameRow row row') : SameRow row' row := by
  obtain ⟨isRead, rfl⟩ := h
  exact ⟨row.isRead, rfl⟩

theorem trans {row row' row'' : Task} (h : SameRow row row') (h' : SameRow row' row'') :
    SameRow row row'' := by
  obtain ⟨isRead, rfl⟩ := h
  obtain ⟨isRead', rfl⟩ := h'
  exact ⟨isRead', rfl⟩

end SameRow

structure SameRows (s s' : Store) : Prop where
  tasks : s.tasks.Evolves SameRow (fun _ => False) s'.tasks
  inserted : s'.inserted = s.inserted

namespace Store

def visible (key : String) (s : Store) : Option Task :=
  (s.tasks.find? key).filter fun row => !row.isDelete

theorem visible_eq_some_iff {s : Store} {key : String} {row : Task} :
    s.visible key = some row ↔ row ∈ s.tasks ∧ row.taskId = key ∧ row.isDelete = false := by
  simp [visible, Option.filter_eq_some_iff, KeyedList.find?_eq_some_iff, and_assoc]

theorem findByTaskId_eq_visible {s : Store} {key : String} (hkey : key ≠ "") :
    s.findByTaskId key false = (s.visible key).map readTask := by
  simp [findByTaskId, visible, hkey]

theorem findByTaskId_eq_none_of_visible {s : Store} {key : String} (h : s.visible key = none) :
    s.findByTaskId key false = none := by
  by_cases hkey : key = ""
  · simp [findByTaskId, hkey]
  · rw [findByTaskId_eq_visible hkey, h, Option.map_none]

end Store

namespace SameRows

theorem refl (s : Store) : SameRows s s := ⟨KeyedList.Evolves.refl SameRow.refl _, rfl⟩

theorem trans {s s' s'' : Store} (h : SameRows s s') (h' : SameRows s' s'') : SameRows s s'' :=
  ⟨h.tasks.trans (fun _ _ _ => SameRow.trans) h'.tasks, h'.inserted.trans h.inserted⟩

theorem of_tasks {s s' : Store} (htasks : s'.tasks = s.tasks) (hinserted : s'.inserted = s.inserted) :
    SameRows s s' :=
  ⟨htasks ▸ KeyedList.Evolves.refl SameRow.refl _, hinserted⟩

theorem visible {s s' : Store} (h : SameRows s s') {key : String} {row : Task}
    (hrow : s.visible key = some row) : ∃ row', s'.visible key = some row' ∧ SameRow row row' := by
  obtain ⟨hfind, hdelete⟩ := Option.filter_eq_some_iff.mp hrow
  obtain ⟨row', hfind', hsame⟩ := h.tasks.find? hfind
  refine ⟨row', Option.filter_eq_some_iff.mpr ⟨hfind', ?_⟩, hsame⟩
  obtain ⟨isRead, rfl⟩ := hsame
  exact hdelete

theorem visible_of_visible {s s' : Store} (h : SameRows s s') {key : String} {row' : Task}
    (hrow : s'.visible key = some row') : ∃ row, s.visible key = some row ∧ SameRow row row' := by
  obtain ⟨hfind', hdelete⟩ := Option.filter_eq_some_iff.mp hrow
  rcases h.tasks.find?_of_find? hfind' with ⟨row, hfind, hsame⟩ | ⟨-, row, hnone, -⟩
  · refine ⟨row, Option.filter_eq_some_iff.mpr ⟨hfind, ?_⟩, hsame⟩
    obtain ⟨isRead, rfl⟩ := hsame
    exact hdelete
  · exact hnone.elim

theorem visible_isSome_iff {s s' : Store} (h : SameRows s s') (key : String) :
    (s'.visible key).isSome ↔ (s.visible key).isSome := by
  simp only [Option.isSome_iff_exists]
  constructor
  · rintro ⟨row', hrow'⟩
    obtain ⟨row, hrow, -⟩ := h.visible_of_visible hrow'
    exact ⟨row, hrow⟩
  · rintro ⟨row, hrow⟩
    obtain ⟨row', hrow', -⟩ := h.visible hrow
    exact ⟨row', hrow'⟩

end SameRows

namespace Store

theorem sameRows_updateRead (taskId : String) (isRead : Bool) (s : Store) :
    SameRows s (s.updateRead taskId isRead) := by
  refine ⟨?_, rfl⟩
  refine KeyedList.evolves_modify _ (fun row => by split <;> rfl) SameRow.refl fun row _ => ?_
  split
  · exact SameRow.refl row
  · exact ⟨isRead, rfl⟩

theorem sameRows_updateFileRecord (task : Task) (now : Int) (s : Store) :
    SameRows s (s.updateFileRecord task now) :=
  .of_tasks rfl rfl

theorem sameRows_deleteFileRecordByPath (fullPath : String) (s : Store) :
    SameRows s (s.deleteFileRecordByPath fullPath) :=
  .of_tasks rfl rfl

theorem sameRows_remove (clientId : String) (protocol : Protocol) (naturalKey : String) (s : Store) :
    SameRows s (s.remove clientId protocol naturalKey) :=
  .of_tasks rfl rfl

theorem sameRows_saveResume (clientId : String) (protocol : Protocol) (naturalKey : String)
    (data : Archive) (s : Store) : SameRows s (s.saveResume clientId protocol naturalKey data) :=
  .of_tasks rfl rfl

theorem sameRows_saveFiles (files : List TaskFile) (s : Store) : SameRows s (s.saveFiles files) :=
  .of_tasks (s.tasks_saveFiles files).1 (s.tasks_saveFiles files).2

theorem sameRows_saveBtResume (row : BtResume) (s : Store) : SameRows s (s.saveBtResume row) :=
  .of_tasks (s.tasks_saveBtResume row).1 (s.tasks_saveBtResume row).2

theorem replaceTask_eq_some_iff {task : Task} {granted : Bool} {s s' : Store} :
    s.replaceTask task granted = some s' ↔
      task.taskId ≠ "" ∧ granted = true ∧ s' = { s with
        tasks := s.tasks.insert task
        taskFile := s.taskFile.filter (·.taskId ≠ task.taskId)
        inserted := task :: s.inserted } := by
  rw [replaceTask]
  split
  next h =>
    simp only [reduceCtorEq, false_iff, not_and]
    rintro hkey rfl
    exact absurd h (by simp [hkey])
  next h =>
    simp only [not_or, not_not] at h
    simp [h.1, h.2, eq_comm]

theorem visible_replaceTask_self {task : Task} {granted : Bool} {s s' : Store}
    (h : s.replaceTask task granted = some s') (hdelete : task.isDelete = false) :
    s'.visible task.taskId = some task := by
  obtain ⟨-, -, rfl⟩ := replaceTask_eq_some_iff.mp h
  simp [visible, Option.filter, hdelete]

theorem visible_replaceTask_of_ne {task : Task} {granted : Bool} {s s' : Store}
    (h : s.replaceTask task granted = some s') {key : String} (hne : key ≠ task.taskId) :
    s'.visible key = s.visible key := by
  obtain ⟨-, -, rfl⟩ := replaceTask_eq_some_iff.mp h
  rw [visible, KeyedList.find?_insert_of_ne _ hne, visible]

end Store

/-- A load of the visible row of its key makes this task. -/
def LoadedFrom (s : Store) (task : Task) : Prop :=
  ∃ row files isRead, s.visible task.taskId = some row ∧
    task = { readTask row with files := files, isRead := isRead }

namespace LoadedFrom

variable {s s' : Store} {task : Task}

theorem of_sameRows (h : SameRows s s') (hloaded : LoadedFrom s task) : LoadedFrom s' task := by
  obtain ⟨row, files, isRead, hrow, heq⟩ := hloaded
  obtain ⟨row', hrow', isRead', rfl⟩ := h.visible hrow
  exact ⟨_, files, isRead, hrow', heq⟩

theorem of_sameRows_right (h : SameRows s s') (hloaded : LoadedFrom s' task) :
    LoadedFrom s task := by
  obtain ⟨row', files, isRead, hrow', heq⟩ := hloaded
  obtain ⟨row, hrow, isRead', rfl⟩ := h.visible_of_visible hrow'
  exact ⟨row, files, isRead, hrow, heq⟩

theorem isSome (h : LoadedFrom s task) : (s.visible task.taskId).isSome := by
  obtain ⟨row, -, -, hrow, -⟩ := h
  exact Option.isSome_of_eq_some hrow

theorem isDelete (h : LoadedFrom s task) : task.isDelete = false := by
  obtain ⟨row, files, isRead, hrow, heq⟩ := h
  rw [heq]
  exact (Store.visible_eq_some_iff.mp hrow).2.2

theorem needDeleteSession (h : LoadedFrom s task) : task.needDeleteSession = false := by
  obtain ⟨row, files, isRead, -, heq⟩ := h
  rw [heq]
  rfl

theorem of_replaceTask {record : Task} {granted : Bool} (h : s.replaceTask record granted = some s')
    (hdelete : record.isDelete = false) (hloaded : LoadedFrom s' task)
    (hid : task.taskId = record.taskId) :
    ∃ files isRead, task = { readTask record with files := files, isRead := isRead } := by
  obtain ⟨row, files, isRead, hrow, heq⟩ := hloaded
  rw [hid, Store.visible_replaceTask_self h hdelete] at hrow
  obtain rfl := Option.some.inj hrow
  exact ⟨files, isRead, heq⟩

end LoadedFrom

end DownloadWrapper
