import DownloadWrapper.Http.Engine
import DownloadWrapper.Torrent.Engine

/-!
# The task hub

The whole downloader as a transition system: the calls of the app, the scheduler's rounds, the
maintenance, the HTTP threads, the BT alerts, and restarts on the same database. The manager's lock
makes each of its critical sections one step; the admission loop holds it over many passes, between
which only what does not need the lock can step.
-/

namespace DownloadWrapper

/-- `admitting` says that the scheduler is in its admission loop and holds the lock; `toPause` are
the tasks it still has to pause because the network is not allowed. -/
structure Hub where
  cfg : ManagerConfig
  httpCfg : HttpConfig
  registry : Registry
  world : World
  admitting : Bool := false
  toPause : List TaskParams := []

/-- `net_allowed_` follows the configuration. -/
def Hub.netAllowed (h : Hub) : Bool := h.cfg.netAllowed

/-- `TaskManager::start` on a database: no context, no torrent, the active tasks queued. -/
def startHub (cfg : ManagerConfig) (httpCfg : HttpConfig) (store : Store) (fs : Fs) (now : Int) :
    Hub where
  cfg := cfg
  httpCfg := httpCfg
  registry := startRegistry store now
  world := { store := store, fs := fs }

inductive HubEvent where
  | add (params : TaskParams) (http : DownloadEnv) (bt : TorrentEnv) (now : Int)
  | pause (params : TaskParams) (bt : TorrentEnv)
  | resume (params : TaskParams) (now : Int)
  | delete (params : TaskParams) (bt : TorrentEnv)
  /-- The head of a scheduler round. -/
  | schedule
  /-- One pass of the admission loop. -/
  | admission (http : DownloadEnv) (bt : TorrentEnv) (now : Int)
  /-- One pause of a round without network. -/
  | pauseNext (bt : TorrentEnv)
  /-- The part of a maintenance iteration under the lock, and its two sweeps. -/
  | maintain (now : Int)
  | sweepHttp (now : Int)
  | sweepTorrent
  /-- The thread of `url` steps. -/
  | worker (url : String) (event : Event) (now : Int)
  /-- The first alert in flight is handled. -/
  | alert (acquire : AcquireEnv)
  /-- libtorrent changes its session, or posts alerts; other programs change the disk. -/
  | libtorrent (session : Session) (posted : List Alert)
  | disk (fs : Fs)
  | applyConfig (cfg : ManagerConfig)
  /-- The process ends, at any point, and a new one starts on the same database. -/
  | restart (now : Int)

namespace Hub

def put (h : Hub) (out : SubmitResult × Registry × World) : SubmitResult × Hub :=
  (out.1, { h with registry := out.2.1, world := out.2.2 })

def addTask (h : Hub) (params : TaskParams) (http : DownloadEnv) (bt : TorrentEnv) (now : Int) :
    SubmitResult × Hub :=
  h.put <|
    if params.protocol = .http then
      HttpEngine.addTask h.cfg http now params h.registry h.world
    else TorrentEngine.addTask h.cfg bt now params h.registry h.world

def pauseTask (h : Hub) (params : TaskParams) (bt : TorrentEnv) : SubmitResult × Hub :=
  h.put <|
    if params.protocol = .http then
      let (result, w) := HttpEngine.pauseTask params h.world
      (result, h.registry, w)
    else TorrentEngine.pauseTask bt params h.registry h.world

def resumeTask (h : Hub) (params : TaskParams) (now : Int) : SubmitResult × Hub :=
  h.put <|
    if params.protocol = .http then HttpEngine.resumeTask now params h.registry h.world
    else TorrentEngine.resumeTask now params h.registry h.world

def deleteTask (h : Hub) (params : TaskParams) (bt : TorrentEnv) : SubmitResult × Hub :=
  h.put <|
    if params.protocol = .http then
      let (result, w) := HttpEngine.deleteTask params h.world
      (result, h.registry, w)
    else TorrentEngine.deleteTask bt params h.registry h.world

def engines (cfg : ManagerConfig) (http : DownloadEnv) (bt : TorrentEnv) (now : Int) :
    Engines World where
  http := some
    { pauseTask := fun params _ w => HttpEngine.pauseTask params w
      doResume := fun params registry w => HttpEngine.doResume cfg http now params registry w }
  torrent := some
    { pauseTask := fun params _ w => TorrentEngine.pauseHandle bt params w
      doResume := fun params _ w => TorrentEngine.doResume cfg bt params w }
  now := fun _ => now

def next (h : Hub) : Option Task :=
  Selection.select (fun task => !task.isDelete && task.status = .queued && isDownloadTask task)
    outranks h.registry.entries

/-- A call of `start_download` for `url` would wait for the thread of a context being deleted. -/
def joinPending (w : World) (url : String) : Bool :=
  match w.contexts.find? url with
  | some c => c.worker.running && c.worker.task.deleteReq
  | none => false

/-- The pass would make such a call: it dispatches an HTTP task that is not being paused. -/
def admitWaits (h : Hub) : Bool :=
  match h.next with
  | none => false
  | some task =>
      task.taskProtocol = .http && (activeCount h.registry : Int) < h.cfg.maxConcurrentDownloads &&
        joinPending h.world task.taskId &&
        !(h.world.contexts.find? task.taskId).any fun c => c.worker.task.pauseReq

/-- The head of a round: what can go from the registry goes; then, with the network, admission
begins, and without it the tasks that hold slots are to be paused. -/
def schedule (h : Hub) : Hub :=
  let registry := h.registry.filter fun task => !erasable task
  if h.netAllowed then { h with registry := registry, admitting := true }
  else
    { h with
      registry := registry
      toPause := (registry.entries.filter occupiesSlot).map (paramsOf h.cfg) }

def pass (h : Hub) (http : DownloadEnv) (bt : TorrentEnv) (now : Int) : Round World × Bool :=
  if 0 < h.cfg.maxConcurrentDownloads then
    admitOne h.cfg (engines h.cfg http bt now) ⟨h.registry, h.world, []⟩
  else (⟨h.registry, h.world, []⟩, false)

def admission (h : Hub) (http : DownloadEnv) (bt : TorrentEnv) (now : Int) : Hub :=
  let (round, again) := h.pass http bt now
  { h with registry := round.registry, world := round.world, admitting := again }

/-! ### The step -/

def ownEvent : Event → Bool
  | .pauseRequest | .deleteRequest | .shutdown => false
  | _ => true

/-- The lock is free for a critical section. -/
def unlocked (h : Hub) (next : Hub) : Option Hub := if h.admitting then none else some next

/-- One step. An event that has to wait has none. -/
def step (h : Hub) : HubEvent → Option Hub
  | .add params http bt now =>
      if params.protocol = .http ∧ joinPending h.world params.url then none
      else h.unlocked (h.addTask params http bt now).2
  | .pause params bt =>
      if params.protocol = .http then some (h.pauseTask params bt).2
      else h.unlocked (h.pauseTask params bt).2
  | .resume params now => h.unlocked (h.resumeTask params now).2
  | .delete params bt =>
      if params.protocol = .http then some (h.deleteTask params bt).2
      else h.unlocked (h.deleteTask params bt).2
  | .schedule => if h.toPause = [] then h.unlocked h.schedule else none
  | .admission http bt now =>
      if ¬ h.admitting ∨ h.admitWaits then none
      else some (h.admission http bt now)
  | .pauseNext bt =>
      match h.toPause with
      | [] => none
      | params :: rest => some ({ h with toPause := rest }.pauseTask params bt).2
  | .maintain now =>
      let (registry, store) := DownloadWrapper.maintain now h.registry h.world.store
      h.unlocked { h with registry := registry, world := { h.world with store := store } }
  | .sweepHttp now => some { h with world := HttpEngine.sweep now h.world }
  | .sweepTorrent =>
      let (registry, world) := TorrentEngine.sweep h.cfg h.registry h.world
      h.unlocked { h with registry := registry, world := world }
  | .worker url event now =>
      if ownEvent event then
        (HttpEngine.stepWorker h.httpCfg now url event h.world).map fun w => { h with world := w }
      else none
  | .alert acquire =>
      match h.world.alerts with
      | [] => none
      | alert :: alerts =>
          let (registry, world) :=
            handleAlert acquire alert h.registry { h.world with alerts := alerts }
          h.unlocked { h with registry := registry, world := world }
  | .libtorrent session posted =>
      some { h with world := { h.world with
        session := session, alerts := h.world.alerts ++ posted } }
  | .disk fs => some { h with world := { h.world with fs := fs } }
  | .applyConfig cfg =>
      match DownloadWrapper.applyConfig cfg with
      | none => some h
      | some cfg => h.unlocked { h with cfg := cfg }
  | .restart now => some (startHub h.cfg h.httpCfg h.world.store h.world.fs now)

end Hub

end DownloadWrapper
