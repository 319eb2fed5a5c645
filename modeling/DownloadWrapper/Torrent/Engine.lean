import DownloadWrapper.Torrent.Alerts

/-!
# The BT engine

`TorrentEngine`'s operations. A task's torrent is looked up in the session, and added to it again,
from resume data or from the task's own source, when it is not there; every addition posts an
`add_torrent_alert`.
-/

namespace DownloadWrapper

/-- What `parse_magnet_uri` leaves in its result, and whether it succeeded. -/
structure MagnetUri where
  ok : Bool
  v1 : Option String := none
  v2 : Option String := none
  name : String := ""

/-- The parsers of libtorrent. A torrent file gives the hashes of its info dictionary. -/
structure TorrentLib where
  parseMagnetUri : String → MagnetUri
  loadTorrentFile : String → Option (Option String × Option String)

/-- The sources `find_handle` rebuilds a torrent from, in this order. -/
inductive AddSource where
  | resumeData
  | magnet
  | torrentFile
  deriving DecidableEq

/-- What libtorrent and the database answer to one call. `rebuilt` is the torrent the session makes
of a source, if the source parses and the session takes it; `throws` is the text of an exception in
the calls on the handle. -/
structure TorrentEnv where
  lib : TorrentLib
  rebuilt : AddSource → Option Torrent := fun _ => none
  magnet : String := ""
  persistOk : Bool := true
  throws : Option String := none

namespace TorrentEngine

/-- The `add_torrent` of `find_handle`: active, but in upload mode until it is admitted. -/
def addTorrent (env : TorrentEnv) (source : AddSource) (w : World) : Option Torrent × World :=
  match env.rebuilt source with
  | none => (none, w)
  | some t =>
      let t := { t with id := w.nextTorrent, uploadMode := true, paused := false }
      (some t, { w with
        session := w.session ++ [t]
        nextTorrent := w.nextTorrent + 1
        alerts := w.alerts ++ [.addTorrent t.id t.hex env.magnet none] })

def addFirst (env : TorrentEnv) : List AddSource → World → Option Torrent × World
  | [], w => (none, w)
  | source :: sources, w =>
      match addTorrent env source w with
      | (some t, w) => (some t, w)
      | (none, w) => addFirst env sources w

/-- The sources there are for an info hash: a task marked deleted has none. -/
def sourcesOf (store : Store) (infoHash : String) : List AddSource :=
  let row := (store.findByTaskId infoHash true).filter fun row => row.taskProtocol = .torrent
  let resumed := match store.findBtResume infoHash with
    | some data => if data = [] then [] else [.resumeData]
    | none => []
  match row with
  | some task =>
      if task.isDelete then []
      else
        resumed ++ (if task.magnetLink = "" then [] else [.magnet]) ++
          if task.torrentFile = "" then [] else [.torrentFile]
  | none => resumed

def findHandle (env : TorrentEnv) (infoHash : String) (allowRebuild : Bool) (w : World) :
    Option Torrent × World :=
  if infoHash = "" then (none, w)
  else
    match w.session.lookup infoHash with
    | some t => (some t, w)
    | none => if allowRebuild then addFirst env (sourcesOf w.store infoHash) w else (none, w)

/-! ### Adding -/

/-- The info hash and the name `add_task` reads off its sources: the link, the torrent file, or the
link as a bare hash. -/
def parseSource (lib : TorrentLib) (params : TaskParams) : Option (String × String) :=
  let magnet := lib.parseMagnetUri params.magnetLink
  let given := params.magnetLink ≠ ""
  let name := if given then magnet.name else ""
  if given ∧ magnet.ok then some (hashHex magnet.v1 magnet.v2, "")
  else
    match if params.torrentFile = "" then none else lib.loadTorrentFile params.torrentFile with
    | some (v1, v2) => some (hashHex v1 v2, name)
    | none =>
        ((fromHex 40 params.magnetLink).or (fromHex 64 params.magnetLink)).map fun h => (h, name)

def newTask (params : TaskParams) (infoHash name : String) (now : Int) : Task where
  clientId := params.clientId
  isRemote := true
  name := name
  taskProtocol := .torrent
  taskId := infoHash
  infoHash := infoHash
  savePath := params.savePath
  magnetLink := params.magnetLink
  torrentFile := params.torrentFile
  selectFileIndexes := params.fileIndexes
  priorityFileIndexes := params.filePriorities.map fun (index, _) => (index, 4)
  priority := params.queuePriority.getD 0
  force := params.force
  status := .resolving
  createdAt := now
  modifiedAt := now

def brokenTask (now : Int) (message : String) (task : Task) : Task :=
  { task with status := .error, message := message, modifiedAt := now, dirty := true }

theorem brokenTask_taskId (now : Int) (message : String) (task : Task) :
    (brokenTask now message task).taskId = task.taskId := rfl

/-- The rest of `add_task`, once the record is in: the torrent is built. -/
def buildHandle (cfg : ManagerConfig) (env : TorrentEnv) (now : Int) (infoHash : String)
    (registry : Registry) (w : World) : SubmitResult × Registry × World :=
  match env.throws with
  | some message =>
      (.failure, updateTorrentTask w.store infoHash (brokenTask now message) (fun _ => rfl) registry,
        (findHandle env infoHash true w).2)
  | none =>
      match findHandle env infoHash true w with
      | (none, w) => (.failure, registry, w)
      | (some t, w) =>
          (.success, registry, { w with
            session := w.session.modify t.id fun t => { t with trackers := t.trackers ++ cfg.trackers } })

def addTask (cfg : ManagerConfig) (env : TorrentEnv) (now : Int) (params : TaskParams)
    (registry : Registry) (w : World) : SubmitResult × Registry × World :=
  match parseSource env.lib params with
  | none => (.failure, registry, w)
  | some (infoHash, name) =>
      if infoHash = "" then (.failure, registry, w)
      else
        let registry := loadTask w.store infoHash registry
        let existing := findTorrentTask infoHash registry
        let deleting := existing.any fun task =>
          task.isDelete && !(task.needDeleteSession && task.needDeleteFile)
        let alive := existing.any fun task =>
          !task.isDelete && (findHandle env infoHash false w).1.isSome
        if deleting then (.failure .error "BT 任务正在删除", registry, w)
        else if alive then (.success, registry, w)
        else
          match w.store.replaceTask (newTask params infoHash name now) env.persistOk with
          | none => (.failure, registry, w)
          | some store =>
              buildHandle cfg env now infoHash (loadTask store infoHash registry)
                { w with store := store }

/-! ### Pausing and resuming -/

def mergePriorities (old new : List (Int × Int)) : List (Int × Int) :=
  old.filter (fun entry => new.all (·.1 ≠ entry.1)) ++ new

/-- `resume_task`: the task waits for admission. -/
def resumeTask (now : Int) (params : TaskParams) (registry : Registry) (w : World) :
    SubmitResult × Registry × World :=
  let infoHash := params.taskKey
  let registry := loadTask w.store infoHash registry
  match findTorrentTask infoHash registry with
  | none => (.failure, registry, w)
  | some task =>
      if task.isDelete then (.failure, registry, w)
      else
        (.success, registry.modify infoHash (fun task => { task with
          priorityFileIndexes := mergePriorities task.priorityFileIndexes params.filePriorities
          force := params.force, status := .queued, modifiedAt := now, dirty := true })
          fun _ => rfl, w)

/-- The file priorities `do_resume` sets, when the metadata is there. -/
def setPriorities (priorities : List (Int × Int)) (t : Torrent) : Torrent :=
  match t.info with
  | none => t
  | some info =>
      let setOne (levels : List Int) (entry : Int × Int) : List Int :=
        if 0 ≤ entry.1 ∧ entry.1 < info.files.length then levels.set entry.1.toNat entry.2
        else levels
      { t with filePriorities := priorities.foldl setOne t.filePriorities }

/-- `do_resume`: the torrent leaves the upload mode. What it writes to the task on success, the
scheduler writes again. -/
def doResume (cfg : ManagerConfig) (env : TorrentEnv) (params : TaskParams) (w : World) :
    SubmitResult × World :=
  match findHandle env params.taskKey true w with
  | (none, w) => (.failure, w)
  | (some t, w) =>
      match env.throws with
      | some message => (.failure .error message, w)
      | none =>
          (.success, { w with session := w.session.modify t.id fun t =>
            { setPriorities params.filePriorities t with
              trackers := t.trackers ++ cfg.trackers, uploadMode := false, paused := false } })

def pausedTask (task : Task) : Task :=
  { task with downloadRate := 0, uploadRate := 0, status := .paused, dirty := true }

/-- `pause_task`, on the session. -/
def pauseHandle (env : TorrentEnv) (params : TaskParams) (w : World) : SubmitResult × World :=
  match findHandle env params.taskKey true w with
  | (none, w) => (.failure .error "任务不存在", w)
  | (some t, w) =>
      if env.throws.isSome then (.failure .error "暂停失败", w)
      else
        (.success,
          { w with session := w.session.modify t.id fun t => { t with paused := true } })

def pauseTask (env : TorrentEnv) (params : TaskParams) (registry : Registry) (w : World) :
    SubmitResult × Registry × World :=
  match pauseHandle env params w with
  | (result, w) =>
      if result.code = .none then
        (result, updateTorrentTask w.store params.taskKey pausedTask (fun _ => rfl) registry, w)
      else (result, registry, w)

theorem settlePaused_pausedTask (now : Int) (task : Task) :
    settlePaused now (pausedTask task) = settlePaused now task := rfl

/-! ### Deleting -/

def deletedTask (task : Task) : Task := { task with isDelete := true, dirty := true }

def deleteTask (env : TorrentEnv) (params : TaskParams) (registry : Registry) (w : World) :
    SubmitResult × Registry × World :=
  let infoHash := params.taskKey
  let registry := loadTask w.store infoHash registry
  if (findTorrentTask infoHash registry).any Task.isDelete then (.success, registry, w)
  else
    match findHandle env infoHash params.deleteFiles w with
    | (handle, w) =>
        if env.throws.isSome then (.failure, registry, w)
        else
          (.success, updateTorrentTask w.store infoHash deletedTask (fun _ => rfl) registry,
            { w with session := match handle with
                | some t => w.session.filter (·.id ≠ t.id)
                | none => w.session })

/-- One torrent of `sweep`: it goes when its task is deleted, or its seeding ratio is reached. -/
def sweepOne (limit : ℚ) (state : Registry × World) (t : Torrent) : Registry × World :=
  let (registry, w) := state
  let registry := loadTask w.store t.hex registry
  let deleted := (findTorrentTask t.hex registry).any Task.isDelete
  let seeded := 0 ≤ limit && t.seeding && 0 < t.totalDone &&
    limit ≤ (t.allTimeUpload : ℚ) / t.totalDone
  (registry, if deleted || seeded then
    { w with session := w.session.filter (·.id ≠ t.id) } else w)

def sweep (cfg : ManagerConfig) (registry : Registry) (w : World) : Registry × World :=
  let limit := if cfg.seedRatioLimit = 0 then 3 else cfg.seedRatioLimit
  w.session.foldl (sweepOne limit) (registry, w)

end TorrentEngine

end DownloadWrapper
