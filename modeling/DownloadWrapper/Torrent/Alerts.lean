import DownloadWrapper.Core.World
import DownloadWrapper.Torrent.Files
import DownloadWrapper.Utils.UniqueName

/-!
# Handling alerts

`handle_alert`, under the manager's lock. A handler finds its task by the info hash of the alert's
handle, through the registry or else the tasks table, and updates it.
-/

namespace DownloadWrapper

/-- The message of a system error, and whether it is worth a retry. -/
def SystemError.outcome : SystemError → String × Bool
  | .noSpaceOnDevice => ("磁盘空间不足", false)
  | .permissionDenied => ("没有文件访问权限", false)
  | .readOnlyFileSystem => ("保存位置为只读", false)
  | .noSuchFileOrDirectory => ("文件或目录不存在", false)
  | .ioError => ("文件读写失败", false)
  | .notEnoughMemory => ("内存不足", false)
  | .timedOut | .connectionRefused | .connectionReset | .connectionAborted | .networkDown
  | .networkUnreachable | .hostUnreachable => ("网络错误", true)
  | .notConnected | .brokenPipe => ("网络错误", false)
  | .resourceUnavailableTryAgain | .interrupted => ("下载失败", true)

/-- The same for a libtorrent error. -/
def LibraryError.outcome : LibraryError → String × Bool
  | .noMemory => ("内存不足", false)
  | .duplicateTorrent => ("任务已存在", false)
  | .fileCollision => ("任务文件路径冲突", false)
  | .fileTooShort => ("文件读写失败", false)
  | .failedHashCheck => ("下载失败", true)
  | .timedOut => ("网络错误", true)
  | .timedOutOther => ("网络错误", false)
  | .invalidTorrent => ("种子文件无效", false)
  | .invalidLink => ("下载链接无效", false)
  | .other _ => ("下载失败", false)

def ErrorCode.outcome : ErrorCode → String × Bool
  | .system error => error.outcome
  | .library error => error.outcome
  | .other => ("下载失败", false)

/-- A task an error happened to; one worth a retry is failed rather than in error. -/
def failTask (code : ErrorCode) (task : Task) : Task :=
  { task with
    status := if code.outcome.2 then .fail else .error
    message := code.outcome.1, downloadRate := 0, uploadRate := 0, dirty := true }

/-- `handle_task_error`; a code that is not set is none. -/
def handleTaskError (store : Store) (infoHash : String) (error : Option ErrorCode)
    (registry : Registry) : Registry :=
  match error with
  | none => registry
  | some code =>
      if infoHash = "" then registry
      else updateTorrentTask store infoHash (failTask code) (fun _ => rfl) registry

def progressTask (s : TorrentStatus) (task : Task) : Task :=
  { task with
    totalSize := s.totalWanted, totalDone := s.totalWantedDone
    downloadRate := s.downloadPayloadRate, uploadRate := s.uploadPayloadRate, dirty := true }

def finishTask (task : Task) : Task := { task with status := .completed, dirty := true }

def conflictTask (task : Task) : Task :=
  { task with status := .error, message := "种子任务冲突", dirty := true }

def clearWrapper (task : Task) : Task := { task with wrapperName := "" }

def linkTask (magnet : String) (task : Task) : Task :=
  if task.magnetLink = "" ∧ magnet ≠ "" then { task with magnetLink := magnet, dirty := true }
  else task

def completeFileTask (fileIndex : Int) (task : Task) : Task :=
  if task.files.any (·.fileIndex = fileIndex) then
    { task with files := modifyFile fileIndex completedFile task.files, dirty := true }
  else task

def pieceTask (t : Torrent) (piece : Nat) (task : Task) : Task :=
  match t.info with
  | none => task
  | some info =>
      if info.pieceLength ≤ 0 ∨ info.numPieces ≤ piece ∨
          ¬ task.files.any (pending t info piece) then task
      else
        { task with
          files := task.files.map fun file =>
            if pending t info piece file then recount t info file else file
          dirty := true }

/-! ### Parsed metadata -/

/-- Something stands at `save_path / name`; without a name that is the directory itself. -/
def rootTaken (fs : Fs) (task : Task) : Bool :=
  if task.name = "" then fs task.savePath = some .dir
  else fs.exist (joinPath task.savePath task.name)

/-- The task after `handle_parsed`: it waits for admission, unless the name it would take is taken;
then the storage is moved first, and the alert of that comes back here. -/
def parsedTask (env : AcquireEnv) (fs : Fs) (t : Torrent) (task : Task) : Task :=
  if task.isDelete then task
  else
    let task := match t.info with
      | some info => { task with files := parsedFiles t.hex t info task.files }
      | none => task
    if task.wrapperName = "" ∧ rootTaken fs task then
      { task with wrapperName := (acquireWrapperName env fs task.savePath task.name).1 }
    else { task with status := .queued, dirty := true }

theorem parsedTask_taskId (env : AcquireEnv) (fs : Fs) (t : Torrent) (task : Task) :
    (parsedTask env fs t task).taskId = task.taskId := by
  simp only [parsedTask]
  split
  · rfl
  · cases t.info <;> simp only <;> split <;> rfl

/-- What `handle_parsed` does outside the registry: the file list is saved, a name acquired. -/
def parsedWorld (env : AcquireEnv) (t : Torrent) (task : Task) (w : World) : World :=
  if task.isDelete then w
  else
    let w := match t.info with
      | some info => { w with store := w.store.saveFiles (parsedFiles t.hex t info task.files) }
      | none => w
    if task.wrapperName = "" ∧ rootTaken w.fs task then
      { w with fs := (acquireWrapperName env w.fs task.savePath task.name).2.1 }
    else w

def handleParsed (env : AcquireEnv) (id : Nat) (registry : Registry) (w : World) :
    Registry × World :=
  match w.session.torrent? id with
  | none => (registry, w)
  | some t =>
      if t.hex = "" then (registry, w)
      else
        (updateTorrentTask w.store t.hex (parsedTask env w.fs t) (parsedTask_taskId env w.fs t)
            registry,
          match findTorrentTask t.hex (loadTask w.store t.hex registry) with
          | none => w
          | some task => parsedWorld env t task w)

/-! ### The dispatch -/

/-- One entry of a `state_update_alert`. -/
def applyStatus (w : World) (registry : Registry) (s : TorrentStatus) : Registry :=
  match s.error with
  | some code =>
      handleTaskError w.store (w.session.hexOf s.id) (some code)
        (loadTask w.store (w.session.hexOf s.id) registry)
  | none =>
      updateTorrentTask w.store (w.session.hexOf s.id) (progressTask s) (fun _ => rfl) registry

/-- The torrent of an `add_torrent_alert` or `save_resume_data_alert` has its metadata. -/
def hasMetadata (session : Session) (id : Nat) : Bool :=
  match session.torrent? id with
  | some t => t.info.isSome
  | none => false

theorem linkTask_taskId (magnet : String) (task : Task) :
    (linkTask magnet task).taskId = task.taskId := by
  rw [linkTask]
  split <;> rfl

theorem completeFileTask_taskId (fileIndex : Int) (task : Task) :
    (completeFileTask fileIndex task).taskId = task.taskId := by
  rw [completeFileTask]
  split <;> rfl

theorem pieceTask_taskId (t : Torrent) (piece : Nat) (task : Task) :
    (pieceTask t piece task).taskId = task.taskId := by
  rw [pieceTask]
  split
  · rfl
  · split <;> rfl

def handleAlert (env : AcquireEnv) (alert : Alert) (registry : Registry) (w : World) :
    Registry × World :=
  match alert with
  | .stateUpdate statuses => (statuses.foldl (applyStatus w) registry, w)
  | .torrentFinished id =>
      (updateTorrentTask w.store (w.session.hexOf id) finishTask (fun _ => rfl) registry, w)
  | .addTorrent id infoHash magnet error =>
      match error with
      | some code => (handleTaskError w.store infoHash (some code) registry, w)
      | none =>
          if hasMetadata w.session id then
            let (registry, w) := handleParsed env id registry w
            (updateTorrentTask w.store infoHash (linkTask magnet) (linkTask_taskId magnet) registry, w)
          else (registry, w)
  | .metadataReceived id => handleParsed env id registry w
  | .pieceFinished id piece =>
      match w.session.torrent? id with
      | none => (registry, w)
      | some t =>
          if t.hex = "" then (registry, w)
          else
            (updateTorrentTask w.store t.hex (pieceTask t piece) (pieceTask_taskId t piece) registry,
              w)
  | .fileCompleted id fileIndex =>
      let infoHash := w.session.hexOf id
      if infoHash = "" then (registry, w)
      else
        (updateTorrentTask w.store infoHash (completeFileTask fileIndex)
          (completeFileTask_taskId fileIndex) registry, w)
  | .torrentError id error => (handleTaskError w.store (w.session.hexOf id) error registry, w)
  | .fileError id error => (handleTaskError w.store (w.session.hexOf id) error registry, w)
  | .torrentConflict id =>
      (updateTorrentTask w.store (w.session.hexOf id) conflictTask (fun _ => rfl) registry, w)
  | .storageMovedFailed id error =>
      let infoHash := w.session.hexOf id
      (handleTaskError w.store infoHash error
        (updateTorrentTask w.store infoHash clearWrapper (fun _ => rfl) registry), w)
  | .saveResumeData id data =>
      if hasMetadata w.session id ∧ data ≠ [] then
        let infoHash := w.session.hexOf id
        let registry := loadTask w.store infoHash registry
        match findTorrentTask infoHash registry with
        | some task =>
            (registry, if task.isDelete then w
              else { w with store := w.store.saveBtResume ⟨infoHash, data⟩ })
        | none => (registry, w)
      else (registry, w)
  | .storageMoved id => handleParsed env id registry w
  | .logged => (registry, w)

end DownloadWrapper
