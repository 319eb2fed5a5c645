import DownloadWrapper.Core.Task
import DownloadWrapper.Lib.KeyedList
import DownloadWrapper.Lib.Selection

/-!
# The scheduler's admission loop

One round of `scheduler_loop`, under the manager's lock: pick the best queued task; dispatch it while
the limit leaves a slot, otherwise make room for a forced task by pausing the slowest download. What
the engines answer is theirs to say, so they are parameters over a world of their own.
-/

namespace DownloadWrapper

abbrev Registry := KeyedList Task.taskId

structure ManagerConfig where
  clientId : String
  savePath : String
  maxConcurrentDownloads : Int
  networkType : Int := 1
  allowMobileData : Bool := false
  trackers : List String := []
  seedRatioLimit : ℚ := 1
  deriving DecidableEq

/-- `apply_config`: a negative limit falls back to 3. -/
def applyConfig (cfg : ManagerConfig) : Option ManagerConfig :=
  if cfg.clientId = "" then none
  else some { cfg with
    maxConcurrentDownloads := if cfg.maxConcurrentDownloads < 0 then 3 else cfg.maxConcurrentDownloads }

/-- `net_allowed_`, as `apply_config` sets it. -/
def ManagerConfig.netAllowed (cfg : ManagerConfig) : Bool :=
  !(cfg.networkType = 2 && !cfg.allowMobileData)

/-- A task `active_count_locked` counts. -/
def occupiesSlot (task : Task) : Bool :=
  !task.isDelete && isDownloadTask task && statusOccupiesSlot task.status

/-- `active_count_locked`. -/
def activeCount (registry : Registry) : Nat := registry.count occupiesSlot

/-- The two calls the scheduler makes on an engine. What a BT engine writes to the task on success is
what the scheduler writes right after, so the registry is not theirs to change. -/
structure Engine (ω : Type*) where
  pauseTask : TaskParams → Registry → ω → SubmitResult × ω
  doResume : TaskParams → Registry → ω → SubmitResult × ω

/-- The engines `set_engines` injected, and the clock. -/
structure Engines (ω : Type*) where
  http : Option (Engine ω)
  torrent : Option (Engine ω)
  now : ω → Int

def Engines.engineOf {ω : Type*} (engines : Engines ω) (protocol : Protocol) : Option (Engine ω) :=
  if protocol = .http then engines.http else engines.torrent

section Scan

variable {ω : Type*} (engines : Engines ω)

def paramsOf (cfg : ManagerConfig) (task : Task) : TaskParams where
  protocol := task.taskProtocol
  clientId := if task.clientId = "" then cfg.clientId else task.clientId
  naturalKey := task.taskId

def admissible (task : Task) : Bool :=
  !task.isDelete && task.status = .queued && isDownloadTask task &&
    (engines.engineOf task.taskProtocol).isSome

def pausable (task : Task) : Bool :=
  !task.isDelete && task.status = .downloading && isDownloadTask task &&
    (engines.engineOf task.taskProtocol).isSome

/-- `task` goes before `next`: forced first, then by priority, then the earlier created. -/
def outranks (task next : Task) : Bool :=
  (task.force && !next.force) ||
    (task.force = next.force && next.priority < task.priority) ||
    (task.force = next.force && task.priority = next.priority && task.createdAt < next.createdAt)

def slower (task slowest : Task) : Bool := task.downloadRate < slowest.downloadRate

def nextTask (registry : Registry) : Option Task :=
  Selection.select (admissible engines) outranks registry.entries

def slowestTask (registry : Registry) : Option Task :=
  Selection.select (pausable engines) slower registry.entries

end Scan

def settlePaused (now : Int) (task : Task) : Task :=
  { task with
    status := .paused, downloadRate := 0, uploadRate := 0, modifiedAt := now, dirty := true }

def settleDispatched (now : Int) (result : SubmitResult) (task : Task) : Task :=
  { task with
    force := false
    status := if result.code = .none then .downloading else .error
    reason := result.code
    message := result.message
    modifiedAt := now
    dirty := true }

inductive CallKind where
  | pause
  | resume
  deriving DecidableEq

/-- One call on an engine: the task it is about and the registry, as they were then. -/
structure Call where
  kind : CallKind
  task : Task
  registry : Registry
  result : SubmitResult

/-- The loop's state: the registry, the engines' world, and the calls made, the latest first. -/
structure Round (ω : Type*) where
  registry : Registry
  world : ω
  calls : List Call := []

section Loop

variable {ω : Type*} (cfg : ManagerConfig) (engines : Engines ω)

def preempt (s : Round ω) : Round ω × Bool :=
  match slowestTask engines s.registry with
  | none => (s, false)
  | some slowest =>
      match engines.engineOf slowest.taskProtocol with
      | none => (s, false)
      | some engine =>
          let (result, world) := engine.pauseTask (paramsOf cfg slowest) s.registry s.world
          let calls := ⟨.pause, slowest, s.registry, result⟩ :: s.calls
          if result.code ≠ .none then ({ s with world := world, calls := calls }, false)
          else
            ({ registry :=
                s.registry.modify slowest.taskId (settlePaused (engines.now world)) fun _ => rfl
               world := world
               calls := calls }, true)

def dispatch (s : Round ω) (next : Task) : Round ω × Bool :=
  match engines.engineOf next.taskProtocol with
  | none => (s, false)
  | some engine =>
      let params := { paramsOf cfg next with filePriorities := next.priorityFileIndexes }
      let (result, world) := engine.doResume params s.registry s.world
      let calls := ⟨.resume, next, s.registry, result⟩ :: s.calls
      if result.code = .fail then ({ s with world := world, calls := calls }, false)
      else
        ({ registry :=
            s.registry.modify next.taskId (settleDispatched (engines.now world) result) fun _ => rfl
           world := world
           calls := calls }, true)

def admitOne (s : Round ω) : Round ω × Bool :=
  match nextTask engines s.registry with
  | none => (s, false)
  | some next =>
      if cfg.maxConcurrentDownloads ≤ activeCount s.registry then
        if next.force then preempt cfg engines s else (s, false)
      else dispatch cfg engines s next

def admissionLoop : Nat → Round ω → Option (Round ω)
  | 0, _ => none
  | fuel + 1, s =>
      if 0 < cfg.maxConcurrentDownloads then
        match admitOne cfg engines s with
        | (s, true) => admissionLoop fuel s
        | (s, false) => some s
      else some s

end Loop

end DownloadWrapper
