import DownloadWrapper.Store.FileMap
import DownloadWrapper.Utils.IntList

/-!
# A task as a row

The columns of the tasks table: what `insert_task` binds to them and what `read_task` makes of them.
A text is bound and read through `c_str()`, a flag is 0 or 1, and a column that is read as an `int`
keeps its lower 32 bits.
-/

namespace DownloadWrapper

def Protocol.toInt : Protocol → Int
  | .http => 0
  | .torrent => 1
  | .local => 2

def TaskStatus.toInt : TaskStatus → Int
  | .downloading => 0
  | .paused => 1
  | .completed => 2
  | .error => 3
  | .queued => 4
  | .resolving => 5
  | .invalidated => 7
  | .deleting => 8
  | .fail => 9

def Reason.toInt : Reason → Int
  | .none => 0
  | .internal => 1
  | .network => 2
  | .invalidInput => 3
  | .auth => 4
  | .error => 5
  | .fail => 6

/-- The member of a list that a code stands for. A code that stands for none is none of the values
the code ever writes; the field's default is in its place. -/
def decode {α : Type} (toInt : α → Int) (values : List α) (default : α) (code : Int) : α :=
  (values.find? fun value => toInt value = code).getD default

def Protocol.ofInt : Int → Protocol := decode Protocol.toInt [.http, .torrent, .local] .local

def TaskStatus.ofInt : Int → TaskStatus :=
  decode TaskStatus.toInt
    [.downloading, .paused, .completed, .error, .queued, .resolving, .invalidated, .deleting, .fail]
    .downloading

def Reason.ofInt : Int → Reason :=
  decode Reason.toInt [.none, .internal, .network, .invalidInput, .auth, .error, .fail] .none

/-- A row of the tasks table, in the order of its columns. -/
structure TaskRow where
  protocol : Int
  taskId : String
  id : Int
  clientId : String
  isRemote : Int
  savePath : String
  originalRootName : String
  rootName : String
  fullPath : String
  fileType : Int
  ext : String
  parsed : Int
  url : String
  infoHash : String
  magnetLink : String
  torrentFile : String
  status : Int
  totalSize : Int
  totalDone : Int
  priority : Int
  reason : Int
  message : String
  createdAt : Int
  modifiedAt : Int
  supportRange : Int
  etag : String
  lastModified : String
  force : Int
  dirty : Int
  isDelete : Int
  isRead : Int
  downloadRate : ℚ
  uploadRate : ℚ
  selectFileIndexes : String
  priorityFileIndexes : String
  deriving DecidableEq

def bindBool (b : Bool) : Int := if b then 1 else 0

/-- `sqlite3_column_int`. -/
def columnInt (n : Int) : Int := n.bmod (2 ^ 32)

/-- The values `insert_task` binds. -/
def TaskRow.bind (task : Task) : TaskRow where
  protocol := task.taskProtocol.toInt
  taskId := cStr task.taskId
  id := task.id
  clientId := cStr task.clientId
  isRemote := bindBool task.isRemote
  savePath := cStr task.savePath
  originalRootName := cStr task.originalRootName
  rootName := cStr task.rootName
  fullPath := cStr task.fullPath
  fileType := bindBool task.fileType
  ext := cStr task.ext
  parsed := bindBool task.parsed
  url := cStr task.url
  infoHash := cStr task.infoHash
  magnetLink := cStr task.magnetLink
  torrentFile := cStr task.torrentFile
  status := task.status.toInt
  totalSize := task.totalSize
  totalDone := task.totalDone
  priority := task.priority
  reason := task.reason.toInt
  message := cStr task.message
  createdAt := task.createdAt
  modifiedAt := task.modifiedAt
  supportRange := task.supportRange
  etag := cStr task.etag
  lastModified := cStr task.lastModified
  force := bindBool task.force
  dirty := bindBool task.dirty
  isDelete := bindBool task.isDelete
  isRead := bindBool task.isRead
  downloadRate := task.downloadRate
  uploadRate := task.uploadRate
  selectFileIndexes := cStr (joinInts task.selectFileIndexes)
  -- an old database wants the column filled
  priorityFileIndexes := ""

/-- `read_task` on the columns. -/
def TaskRow.readTask (row : TaskRow) : Task where
  id := row.id
  taskId := cStr row.taskId
  clientId := cStr row.clientId
  isRemote := columnInt row.isRemote ≠ 0
  savePath := cStr row.savePath
  originalRootName := cStr row.originalRootName
  rootName := cStr row.rootName
  fullPath := cStr row.fullPath
  fileType := columnInt row.fileType ≠ 0
  ext := cStr row.ext
  parsed := columnInt row.parsed ≠ 0
  url := cStr row.url
  infoHash := cStr row.infoHash
  magnetLink := cStr row.magnetLink
  torrentFile := cStr row.torrentFile
  taskProtocol := .ofInt (columnInt row.protocol)
  status := .ofInt (columnInt row.status)
  totalSize := row.totalSize
  totalDone := row.totalDone
  priority := columnInt row.priority
  reason := .ofInt (columnInt row.reason)
  message := cStr row.message
  createdAt := row.createdAt
  modifiedAt := row.modifiedAt
  supportRange := columnInt row.supportRange
  etag := cStr row.etag
  lastModified := cStr row.lastModified
  force := columnInt row.force ≠ 0
  dirty := columnInt row.dirty ≠ 0
  isDelete := columnInt row.isDelete ≠ 0
  downloadRate := row.downloadRate
  uploadRate := row.uploadRate
  selectFileIndexes := splitInts (cStr row.selectFileIndexes)
  isRead := columnInt row.isRead ≠ 0

@[simp] theorem Protocol.ofInt_toInt (protocol : Protocol) :
    Protocol.ofInt (columnInt protocol.toInt) = protocol := by
  cases protocol <;> decide

@[simp] theorem TaskStatus.ofInt_toInt (status : TaskStatus) :
    TaskStatus.ofInt (columnInt status.toInt) = status := by
  cases status <;> decide

@[simp] theorem Reason.ofInt_toInt (reason : Reason) :
    Reason.ofInt (columnInt reason.toInt) = reason := by
  cases reason <;> decide

@[simp] theorem columnInt_bindBool (b : Bool) : decide (columnInt (bindBool b) ≠ 0) = b := by
  cases b <;> decide

theorem columnInt_eq {n : Int} (h : inRangeInt32 n = true) : columnInt n = n := by
  simp only [inRangeInt32, Bool.and_eq_true, decide_eq_true_eq] at h
  exact Int.bmod_eq_of_le (by omega) (by omega)

theorem nulFree_joinInts (v : List Int) : NulFree (joinInts v) := by
  intro c hc hzero
  rw [joinInts, String.toList_ofList] at hc
  obtain rfl | ⟨segment, hsegment, hmem⟩ := mem_intercalate hc
  · exact absurd hzero (by decide)
  obtain ⟨n, -, rfl⟩ := List.mem_map.mp hsegment
  obtain rfl : c = Char.ofNat 0 := Char.toNat_inj.mp hzero
  exact not_mem_toString_int n (by decide) (by decide) hmem

/-- What the types of the fields and `c_str()` let through: no NUL in a text, and 32 bits for an
`int32_t`. -/
structure Task.Storable (task : Task) : Prop where
  taskId : NulFree task.taskId
  clientId : NulFree task.clientId
  savePath : NulFree task.savePath
  originalRootName : NulFree task.originalRootName
  rootName : NulFree task.rootName
  fullPath : NulFree task.fullPath
  ext : NulFree task.ext
  url : NulFree task.url
  infoHash : NulFree task.infoHash
  magnetLink : NulFree task.magnetLink
  torrentFile : NulFree task.torrentFile
  message : NulFree task.message
  etag : NulFree task.etag
  lastModified : NulFree task.lastModified
  priority : inRangeInt32 task.priority = true
  supportRange : inRangeInt32 task.supportRange = true
  selectFileIndexes : ∀ index ∈ task.selectFileIndexes, inRangeInt32 index = true

theorem TaskRow.readTask_bind {task : Task} (h : task.Storable) :
    (TaskRow.bind task).readTask = DownloadWrapper.readTask task := by
  simp only [TaskRow.readTask, TaskRow.bind, DownloadWrapper.readTask, h.taskId.cStr_eq,
    h.clientId.cStr_eq, h.savePath.cStr_eq, h.originalRootName.cStr_eq, h.rootName.cStr_eq,
    h.fullPath.cStr_eq, h.ext.cStr_eq, h.url.cStr_eq, h.infoHash.cStr_eq, h.magnetLink.cStr_eq,
    h.torrentFile.cStr_eq, h.message.cStr_eq, h.etag.cStr_eq, h.lastModified.cStr_eq,
    columnInt_bindBool, Protocol.ofInt_toInt, TaskStatus.ofInt_toInt, Reason.ofInt_toInt,
    columnInt_eq h.priority, columnInt_eq h.supportRange, (nulFree_joinInts _).cStr_eq,
    splitInts_joinInts h.selectFileIndexes]

end DownloadWrapper
