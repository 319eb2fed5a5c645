import DownloadWrapper.Core.Config
import DownloadWrapper.Lib.Tombstones
import DownloadWrapper.Store.TaskStore

/-!
# The file store

`TaskFileStore` row by row: a file goes into a row as JSON and comes back from it, beside the two marks
that are columns of their own. Over any calls, and whatever tasks are marked deleted between them, the
rows are a map with tombstones.
-/

namespace DownloadWrapper

def TaskFile.toJson (file : TaskFile) : List (String × Json) :=
  [("file_index", .ofInt file.fileIndex), ("name", .string file.name), ("path", .string file.path),
    ("full_path", .string file.fullPath), ("total_size", .ofInt file.totalSize),
    ("total_done", .ofInt file.totalDone), ("progress", .number none file.progress),
    ("segments", .array (file.segments.map fun segment =>
      .array [.ofInt segment.1, .ofInt segment.2])),
    ("extension", .string file.extension), ("prioritize", .ofInt file.prioritize),
    ("task_id", .string file.taskId), ("is_delete", .bool file.isDelete), ("is_read", .bool file.isRead)]

/-- `file_payload`; what is serialized is read as it was. -/
def filePayload (file : TaskFile) : ConfigText :=
  .value (.object (file.toJson.filter fun member => member.1 ≠ "is_delete" ∧ member.1 ≠ "is_read"))

structure FileRow where
  taskId : String
  fileIndex : Int
  data : ConfigText
  isDelete : Bool := false
  isRead : Bool := false

def FileRow.key (row : FileRow) : String × Int := (row.taskId, row.fileIndex)

abbrev FileTable := KeyedList FileRow.key

def readSegment : Json → Option (Int × Int)
  | .array [.number (some start) _, .number (some stop) _] => some (start, stop)
  | _ => none

def readSegments (obj : List (String × Json)) : List (Int × Int) :=
  match ifContains obj "segments" with
  | some (.array segments) => segments.filterMap readSegment
  | _ => []

def readTaskFile (row : FileRow) (taskId : String) : Option TaskFile :=
  match row.data with
  | .value (.object obj) => some {
      taskId := taskId
      fileIndex := row.fileIndex
      isRead := row.isRead
      name := extractString obj "name" ""
      path := extractString obj "path" ""
      fullPath := extractString obj "full_path" ""
      totalSize := extractInt64 obj "total_size" 0
      totalDone := extractInt64 obj "total_done" 0
      extension := extractString obj "extension" ""
      prioritize := extractInt32 obj "prioritize" 4
      progress := extractDouble obj "progress" 0
      segments := readSegments obj }
  | _ => none

/-- The loop of `valid` over the segments. -/
def segmentsValid (totalSize : Int) : Int → List (Int × Int) → Bool
  | _, [] => true
  | previousEnd, (start, stop) :: segments =>
      if start < 0 ∨ start ≤ previousEnd ∨ stop < start ∨ totalSize ≤ stop then false
      else segmentsValid totalSize stop segments

def TaskFile.valid (file : TaskFile) : Bool :=
  if file.taskId = "" ∨ file.fileIndex < 0 ∨ file.totalSize < 0 ∨ file.totalDone < 0 ∨
      file.totalSize < file.totalDone then false
  else if file.prioritize ≠ 0 ∧ file.prioritize ≠ 1 ∧ file.prioritize ≠ 4 ∧ file.prioritize ≠ 7 then false
  else segmentsValid file.totalSize (-1) file.segments

/-- The keys of a call take the place of the file's own. -/
def TaskFile.under (taskId : String) (fileIndex : Int) (file : TaskFile) : TaskFile :=
  { file with taskId := taskId, fileIndex := fileIndex }

namespace FileTable

/-- `INSERT … ON CONFLICT … DO UPDATE … WHERE task_file.is_delete=0`. -/
def insertOrUpdate (row : FileRow) (t : FileTable) : FileTable :=
  match t.find? row.key with
  | none => t.insert row
  | some old => if old.isDelete then t else t.insert { row with isRead := old.isRead || row.isRead }

def rowOf (file : TaskFile) : FileRow where
  taskId := cStr file.taskId
  fileIndex := file.fileIndex
  data := filePayload file
  isDelete := file.isDelete
  isRead := file.isRead

/-- `TaskFileStore::save`: the files before the first one that is refused are saved. -/
def save : List TaskFile → FileTable → Bool × FileTable
  | [], t => (true, t)
  | file :: files, t =>
      if file.taskId = "" ∨ file.fileIndex < 0 then (false, t)
      else save files (insertOrUpdate (rowOf file) t)

def upsert (file : TaskFile) (t : FileTable) : Bool × FileTable :=
  if file.valid then save [file] t else (false, t)

def get (taskId : String) (t : FileTable) : List TaskFile :=
  ((t.entries.filter fun row => row.taskId = cStr taskId && !row.isDelete).insertionSort
    fun row other => row.fileIndex ≤ other.fileIndex).filterMap fun row => readTaskFile row taskId

def find (taskId : String) (fileIndex : Int) (t : FileTable) : Option TaskFile :=
  ((t.find? (cStr taskId, fileIndex)).filter fun row => !row.isDelete).bind fun row =>
    readTaskFile row taskId

/-- `UPDATE task_file SET data=?,is_delete=?,is_read=? WHERE … AND is_delete=0`, on one row. -/
def updateRow (file : TaskFile) (row : FileRow) : FileRow :=
  if row.isDelete then row
  else { row with data := filePayload file, isDelete := file.isDelete, isRead := file.isRead }

theorem key_updateRow (file : TaskFile) (row : FileRow) : (updateRow file row).key = row.key := by
  rw [updateRow]
  split <;> rfl

def update (taskId : String) (fileIndex : Int) (file : TaskFile) (t : FileTable) : Bool × FileTable :=
  if ¬ (file.under taskId fileIndex).valid then (false, t)
  else
    ((t.find? (cStr taskId, fileIndex)).any fun row => !row.isDelete,
      t.modify (cStr taskId, fileIndex) (updateRow (file.under taskId fileIndex))
        (key_updateRow (file.under taskId fileIndex)))

/-- `UPDATE task_file SET is_delete=1 WHERE task_id=?`. -/
def markDeleted (taskId : String) (t : FileTable) : FileTable :=
  t.map (fun row => if row.taskId = taskId then { row with isDelete := true } else row) fun row => by
    split <;> rfl

/-- `TaskFileStore::erase`; marking the rows again that are marked makes no difference. -/
def erase (taskId : String) (t : FileTable) : Nat × FileTable :=
  (t.count fun row => row.taskId = cStr taskId && !row.isDelete, markDeleted (cStr taskId) t)

/-- The trigger `sync_task_file_deletion`, for a row of `tasks` whose `is_delete` was set. -/
def syncTaskFileDeletion (old new : Task) (t : FileTable) : FileTable :=
  if (new.taskProtocol = .http ∨ new.taskProtocol = .torrent) ∧ new.isDelete ∧ ¬ old.isDelete then
    markDeleted new.taskId t
  else t

end FileTable

end DownloadWrapper
