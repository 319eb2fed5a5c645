import DownloadWrapper.Basic
import Mathlib.Data.Rat.Defs

/-!
# Tasks and requests

The record the task manager keeps of a download, the record of one of its files, and the parameters
of a request. Speeds and shares are rationals.
-/

namespace DownloadWrapper

/-- `TaskFile`. `segments` are the downloaded byte intervals, both ends included. -/
structure TaskFile where
  fileIndex : Int := -1
  name : String := ""
  path : String := ""
  fullPath : String := ""
  totalSize : Int := 0
  totalDone : Int := 0
  progress : ℚ := 0
  segments : List (Int × Int) := []
  extension : String := ""
  prioritize : Int := 4
  taskId : String := ""
  isDelete : Bool := false
  isRead : Bool := false
  dirty : Bool := false
  deriving DecidableEq

/-- `Task`. The key is `taskId`: the URL of an HTTP task, the info hash of a BT task. -/
structure Task where
  id : Int := 0
  taskId : String := ""
  clientId : String := ""
  isRemote : Bool := false
  name : String := ""
  wrapperName : String := ""
  savePath : String := ""
  originalRootName : String := ""
  rootName : String := ""
  fullPath : String := ""
  fileType : Bool := true
  ext : String := ""
  parsed : Bool := false
  url : String := ""
  infoHash : String := ""
  magnetLink : String := ""
  torrentFile : String := ""
  taskProtocol : Protocol := .local
  status : TaskStatus := .downloading
  totalSize : Int := -1
  totalDone : Int := 0
  priority : Int := 0
  reason : Reason := .none
  message : String := ""
  createdAt : Int := 0
  modifiedAt : Int := 0
  isDelete : Bool := false
  isRead : Bool := false
  files : List TaskFile := []
  supportRange : Int := 0
  etag : String := ""
  lastModified : String := ""
  selectFileIndexes : List Int := []
  priorityFileIndexes : List (Int × Int) := []
  force : Bool := false
  dirty : Bool := false
  needDeleteSession : Bool := false
  needDeleteFile : Bool := false
  downloadRate : ℚ := 0
  uploadRate : ℚ := 0
  deriving DecidableEq

/-- `TaskParams`. `filePriorities` is the ordered map from file index to level. No request carries the
resume data. -/
structure TaskParams where
  clientId : String := ""
  protocol : Protocol := .http
  naturalKey : String := ""
  savePath : String := ""
  url : String := ""
  infoHash : String := ""
  magnetLink : String := ""
  torrentFile : String := ""
  fileIndexes : List Int := []
  filePriorities : List (Int × Int) := []
  urlSeeds : List String := []
  queuePriority : Option Int := none
  deleteFiles : Bool := false
  force : Bool := false
  deriving DecidableEq

def TaskParams.taskKey (p : TaskParams) : String :=
  if p.naturalKey ≠ "" ∨ p.protocol = .local then p.naturalKey
  else if p.protocol = .torrent then p.infoHash
  else p.url

def isDownloadTask (task : Task) : Bool :=
  task.taskProtocol = .http || task.taskProtocol = .torrent

/-- `status_occupies_slot`: downloading, or fetching metadata. -/
def statusOccupiesSlot (status : TaskStatus) : Bool :=
  status = .downloading || status = .resolving

end DownloadWrapper
