import DownloadWrapper.Core.Task
import DownloadWrapper.Http.Resume
import DownloadWrapper.Lib.KeyedList
import Mathlib.Data.List.Sort

/-!
# The database

The tables the task manager and the engines read and write: `tasks` and `task_file`, the older
`file_records` and `resume_data`, and `task_bt_resume`. An SQL statement may be refused as a whole;
then the tables are as before.
-/

namespace DownloadWrapper

/-- A row of `resume_data`; the archive is what an HTTP download left. -/
structure ResumeRow where
  clientId : String
  protocol : Protocol
  naturalKey : String
  data : Archive
  deriving DecidableEq

def ResumeRow.key (row : ResumeRow) : String × Protocol × String :=
  (row.clientId, row.protocol, row.naturalKey)

/-- `TaskBtResume`. -/
structure BtResume where
  infoHash : String
  resumeData : List Byte
  deriving DecidableEq

def TaskFile.key (file : TaskFile) : String × Int := (file.taskId, file.fileIndex)

/-- The tables. `inserted` is no table: it is the history of the records `replace_task` inserted, the
latest first. -/
structure Store where
  tasks : KeyedList Task.taskId := .empty
  taskFile : KeyedList TaskFile.key := .empty
  fileRecords : List Task := []
  resumeData : KeyedList ResumeRow.key := .empty
  btResume : KeyedList BtResume.infoHash := .empty
  inserted : List Task := []

/-- `read_task`: the names, the files, the priorities and the marks of the session are not among the
columns. -/
def readTask (row : Task) : Task :=
  { row with
    name := "", wrapperName := "", files := [], priorityFileIndexes := []
    needDeleteSession := false, needDeleteFile := false }

namespace Store

/-- `replace_task`: one transaction, refused as a whole. -/
def replaceTask (task : Task) (granted : Bool) (s : Store) : Option Store :=
  if task.taskId = "" ∨ ¬ granted then none
  else some { s with
    tasks := s.tasks.insert task
    taskFile := s.taskFile.filter (·.taskId ≠ task.taskId)
    inserted := task :: s.inserted }

def updateRead (taskId : String) (isRead : Bool) (s : Store) : Store :=
  { s with
    tasks := s.tasks.modify taskId
      (fun row => if row.isDelete then row else { row with isRead := isRead })
      fun row => by split <;> rfl }

/-- `find_by_task_id`; a row marked deleted is found only when that is asked for. -/
def findByTaskId (taskId : String) (includeDeleted : Bool) (s : Store) : Option Task :=
  if taskId = "" then none
  else ((s.tasks.find? taskId).filter fun row => !row.isDelete || includeDeleted).map readTask

def newestFirst (rows : List Task) : List Task :=
  (rows.insertionSort fun row other => other.modifiedAt ≤ row.modifiedAt).map readTask

def findAll (s : Store) : List Task :=
  newestFirst (s.tasks.entries.filter fun row => !row.isDelete)

def findByStatus (statuses : List TaskStatus) (s : Store) : List Task :=
  newestFirst (s.tasks.entries.filter fun row => !row.isDelete && row.status ∈ statuses)

/-! ### The file table -/

/-- `TaskFileStore::get`. -/
def filesOf (taskId : String) (s : Store) : List TaskFile :=
  (s.taskFile.entries.filter fun row => row.taskId = taskId && !row.isDelete).insertionSort
    fun row other => row.fileIndex ≤ other.fileIndex

/-- One row of `TaskFileStore::save`: a row marked deleted stays as it is, and a read mark is kept. -/
def saveFile (s : Store) (file : TaskFile) : Store :=
  match s.taskFile.find? file.key with
  | none => { s with taskFile := s.taskFile.insert { file with dirty := false } }
  | some row =>
      if row.isDelete then s
      else
        { s with taskFile := s.taskFile.insert { file with
            isRead := row.isRead || file.isRead, dirty := false } }

/-- `TaskFileStore::save`: the first invalid file ends it. -/
def saveFiles (files : List TaskFile) (s : Store) : Store :=
  (files.takeWhile fun file => file.taskId ≠ "" && 0 ≤ file.fileIndex).foldl saveFile s

/-! ### The older tables -/

def updateFileRecord (task : Task) (now : Int) (s : Store) : Store :=
  { s with fileRecords := s.fileRecords.map fun row =>
      if ¬ row.isDelete ∧ row.clientId = task.clientId ∧ row.taskProtocol = task.taskProtocol ∧
          row.taskId = task.taskId then
        { row with
          savePath := task.savePath, originalRootName := task.originalRootName
          rootName := task.rootName, fullPath := task.fullPath, fileType := task.fileType
          ext := task.ext, url := task.url, infoHash := task.infoHash
          magnetLink := task.magnetLink, torrentFile := task.torrentFile
          status := task.status, totalSize := task.totalSize, totalDone := task.totalDone
          reason := task.reason, message := task.message, isRead := task.isRead
          modifiedAt := now }
      else row }

def deleteFileRecordByPath (fullPath : String) (s : Store) : Store :=
  { s with fileRecords := s.fileRecords.map fun row =>
      if row.fullPath = fullPath then { row with isDelete := true } else row }

def remove (clientId : String) (protocol : Protocol) (naturalKey : String) (s : Store) : Store :=
  { s with
    resumeData := s.resumeData.erase (clientId, protocol, naturalKey)
    fileRecords := s.fileRecords.map fun row =>
      if row.clientId = clientId ∧ row.taskProtocol = protocol ∧ row.taskId = naturalKey then
        { row with isDelete := true }
      else row }

/-- `save_resume` and `load_resume_info`. -/
def saveResume (clientId : String) (protocol : Protocol) (naturalKey : String) (data : Archive)
    (s : Store) : Store :=
  { s with resumeData := s.resumeData.insert ⟨clientId, protocol, naturalKey, data⟩ }

def loadResume (clientId : String) (protocol : Protocol) (naturalKey : String) (s : Store) :
    Option Archive :=
  (s.resumeData.find? (clientId, protocol, naturalKey)).map ResumeRow.data

/-- `TaskBtResumeStore::save` and `find`. -/
def saveBtResume (row : BtResume) (s : Store) : Store :=
  if row.infoHash = "" ∨ row.resumeData = [] then s
  else { s with btResume := s.btResume.insert row }

def findBtResume (infoHash : String) (s : Store) : Option (List Byte) :=
  if infoHash = "" then none else (s.btResume.find? infoHash).map BtResume.resumeData

theorem tasks_saveFiles (files : List TaskFile) (s : Store) :
    (s.saveFiles files).tasks = s.tasks ∧ (s.saveFiles files).inserted = s.inserted := by
  rw [saveFiles]
  induction files.takeWhile fun file => file.taskId ≠ "" && 0 ≤ file.fileIndex generalizing s with
  | nil => exact ⟨rfl, rfl⟩
  | cons file files ih =>
      have hone : (s.saveFile file).tasks = s.tasks ∧ (s.saveFile file).inserted = s.inserted := by
        rw [saveFile]
        split
        · exact ⟨rfl, rfl⟩
        · split <;> exact ⟨rfl, rfl⟩
      rw [List.foldl_cons]
      exact ⟨(ih _).1.trans hone.1, (ih _).2.trans hone.2⟩

theorem tasks_saveBtResume (row : BtResume) (s : Store) :
    (s.saveBtResume row).tasks = s.tasks ∧ (s.saveBtResume row).inserted = s.inserted := by
  rw [saveBtResume]
  split <;> exact ⟨rfl, rfl⟩

theorem mem_newestFirst {rows : List Task} {task : Task} :
    task ∈ newestFirst rows ↔ ∃ row ∈ rows, readTask row = task := by
  simp [newestFirst]

theorem mem_findAll {s : Store} {task : Task} :
    task ∈ s.findAll ↔ ∃ row ∈ s.tasks, row.isDelete = false ∧ readTask row = task := by
  rw [findAll, mem_newestFirst]
  simp [KeyedList.mem_def, and_assoc]

theorem mem_findByStatus {s : Store} {statuses : List TaskStatus} {task : Task} :
    task ∈ s.findByStatus statuses ↔
      ∃ row ∈ s.tasks, row.isDelete = false ∧ row.status ∈ statuses ∧ readTask row = task := by
  rw [findByStatus, mem_newestFirst]
  simp [KeyedList.mem_def, and_assoc]

theorem findByTaskId_eq_some_iff {s : Store} {taskId : String} {task : Task} :
    s.findByTaskId taskId false = some task ↔
      taskId ≠ "" ∧ ∃ row ∈ s.tasks, row.taskId = taskId ∧ row.isDelete = false ∧
        readTask row = task := by
  rw [findByTaskId]
  split
  next h => simp [h]
  next h =>
    simp only [Option.map_eq_some_iff, Option.filter_eq_some_iff, KeyedList.find?_eq_some_iff]
    simp [h, and_assoc]

end Store

end DownloadWrapper
