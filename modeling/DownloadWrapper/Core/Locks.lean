import DownloadWrapper.Lib.LockOrder

/-!
# The library's locks

The functions of the manager, its stores and the two engines by the locks they take, and the threads that
run them. A thread that is joined is waited for as a lock it holds while it runs.

The app's progress callback may make task calls, which is more than the header lets it; a log callback
takes no lock.
-/

namespace DownloadWrapper.Locks

open LockOrder (Thread Move)
open LockOrder.Code

/-- The locks, and the threads that are joined. -/
inductive Lock where
  /-- `dw_downloader::mutex`. -/
  | downloader
  | schedulerThread
  | maintenanceThread
  | alertThread
  | statusThread
  | resumeThread
  /-- `TaskManager::mtx_`, a recursive mutex. -/
  | manager
  /-- `g_map_mtx`. -/
  | map
  /-- `task_thread` of an HTTP context. -/
  | taskThread (context : Nat)
  /-- `speed_mtx` of an HTTP context. -/
  | speed (context : Nat)
  /-- The mutex of a part's `DwFile`. -/
  | file (context part : Nat)
  | taskStore
  | taskFileStore
  | btResumeStore
  /-- The mutex of the SQLite connection, which is recursive. -/
  | connection
  deriving DecidableEq

abbrev Code := LockOrder.Code Lock

def reentrant : Lock → Bool
  | .manager => true
  | .connection => true
  | _ => false

/-- A call of SQLite on the shared connection. -/
def sqlite : Code := .locked .connection .skip

namespace TaskStore

def operation : Code := .locked .taskStore (.loop sqlite)

def replaceTask : Code := .locked .taskStore (opt (.locked .connection (.loop sqlite)))

end TaskStore

/-- Every function of the store. -/
def TaskFileStore.operation : Code := .locked .taskFileStore (.loop sqlite)

/-- Every function of the store. -/
def TaskBtResumeStore.operation : Code := .locked .btResumeStore (.loop sqlite)

/-- Every function of the store, which has no mutex of its own. -/
def LegacyTaskStore.operation : Code := .loop sqlite

/-! ### The manager -/

namespace TaskManager

def applyConfig : Code := opt (.locked .manager .skip)

def start : Code :=
  .locked .manager (block [.loop sqlite, opt (block [LegacyTaskStore.operation, TaskStore.operation,
    .loop TaskFileStore.operation, TaskBtResumeStore.operation, .loop sqlite]),
    opt (block [TaskStore.operation, .loop TaskFileStore.operation])])

def stop : Code :=
  opt (block [opt (waits .schedulerThread), opt (waits .maintenanceThread), .locked .manager (opt sqlite)])

def destroy : Code := block [stop, opt sqlite]

def getEngineTask : Code := .locked .manager (opt (block [TaskStore.operation, opt TaskFileStore.operation]))

def list : Code := .locked .manager (block [TaskStore.operation, .loop TaskFileStore.operation])

end TaskManager

/-! ### The HTTP engine -/

namespace HttpEngine

def startDownload : Code :=
  opt (.locked .manager (block [TaskManager.getEngineTask, opt (block [
    .locked .map .skip,
    -- the thread of a context that is left over
    opt (waitsAny .taskThread),
    opt (block [.locked .map .skip,
      opt (block [TaskStore.replaceTask, alt (.locked .map .skip) TaskManager.getEngineTask])])])]))

def addTask : Code := startDownload

def resumeTask : Code := opt (.locked .manager TaskManager.getEngineTask)

def doResume : Code :=
  opt (block [.locked .map .skip,
    opt (block [.locked .manager (block [TaskManager.getEngineTask, opt LegacyTaskStore.operation]),
      opt startDownload])])

def pauseTask : Code := opt (.locked .map .skip)

def deleteTask : Code := opt (.locked .map .skip)

def sweep : Code :=
  opt (block [.locked .map .skip, .loop (block [.locked .map .skip, opt (waitsAny .taskThread)])])

def destroy : Code :=
  opt (block [.locked .map .skip, .locked .map (.loop (waitsAny .taskThread))])

end HttpEngine

/-! ### The BT engine -/

namespace TorrentEngine

def findHandle : Code := opt (block [TaskStore.operation, opt TaskBtResumeStore.operation])

def addTask : Code :=
  opt (.locked .manager (opt (block [TaskManager.getEngineTask, opt findHandle,
    opt (block [TaskStore.replaceTask, opt (block [TaskManager.getEngineTask, findHandle,
      opt TaskManager.getEngineTask])])])))

def resumeTask : Code := opt (.locked .manager TaskManager.getEngineTask)

def doResume : Code := opt (.locked .manager (block [findHandle, opt TaskManager.getEngineTask]))

def pauseTask : Code := opt (.locked .manager (block [findHandle, opt TaskManager.getEngineTask]))

def deleteTask : Code := .locked .manager (block [TaskManager.getEngineTask, opt findHandle])

def sweep : Code := opt (.locked .manager (.loop TaskManager.getEngineTask))

def handlePieceFinished : Code := opt (.locked .manager TaskManager.getEngineTask)

def handleTaskError : Code := opt (.locked .manager TaskManager.getEngineTask)

def handleParsed : Code :=
  opt (.locked .manager (block [TaskManager.getEngineTask, opt TaskFileStore.operation]))

def handleAlert : Code :=
  opt (.locked .manager (oneOf [
    .loop (block [TaskManager.getEngineTask, opt handleTaskError]),
    block [handleParsed, opt TaskManager.getEngineTask],
    handlePieceFinished,
    block [TaskManager.getEngineTask, opt handleTaskError],
    block [TaskManager.getEngineTask, opt TaskBtResumeStore.operation]]))

def alertLoop : Code := .loop (.loop handleAlert)

def statusLoop : Code := .loop (opt (.locked .manager .skip))

def resumeLoop : Code := .loop .skip

def destroy : Code :=
  opt (block [opt (waits .statusThread), opt (waits .resumeThread), opt (waits .alertThread)])

end TorrentEngine

/-! ### A task's thread -/

namespace Worker

variable (context : Nat)

def underSpeed : Code := .locked (.speed context) .skip

def activeDownloadingTasks : Code := .tried .map .skip

def buildEasyForPart : Code := opt activeDownloadingTasks

def partProgressCb : Code := opt (underSpeed context)

def headerCb : Code := opt (underSpeed context)

def finalizeProbing : Code := opt (underSpeed context)

def writeCb (part : Nat) : Code :=
  opt (block [opt (finalizeProbing context), opt (underSpeed context),
    opt (.locked (.file context part) .skip), opt (.locked (.file context part) .skip),
    opt (underSpeed context)])

def emitResume : Code := opt (block [underSpeed context, opt LegacyTaskStore.operation])

def maybeEmitResume : Code := opt (block [underSpeed context, opt (emitResume context)])

def handlePartResult : Code := block [underSpeed context, opt (underSpeed context)]

def addPart : Code := block [buildEasyForPart, opt (underSpeed context)]

def callbacks : Code :=
  .loop (oneOf [partProgressCb context, headerCb context, .pick (writeCb context)])

def runPartsMulti : Code :=
  block [opt (underSpeed context), opt (block [
    .loop (addPart context),
    .loop (block [callbacks context, .loop (addPart context),
      .loop (block [opt (handlePartResult context), opt (addPart context)]), maybeEmitResume context])]),
    opt (underSpeed context)]

def taskThreadFunc : Code :=
  block [opt (oneOf [maybeEmitResume context,
    block [runPartsMulti context, underSpeed context,
      oneOf [block [.loop (.pick fun part => .locked (.file context part) .skip), emitResume context],
        maybeEmitResume context]]]),
    opt (underSpeed context)]

end Worker

/-! ### The interface -/

def addTask : Code := opt (alt HttpEngine.addTask TorrentEngine.addTask)

def pauseTask : Code := opt (alt HttpEngine.pauseTask TorrentEngine.pauseTask)

def resumeTask : Code := opt (alt HttpEngine.resumeTask TorrentEngine.resumeTask)

def deleteTask : Code := opt (alt HttpEngine.deleteTask TorrentEngine.deleteTask)

def listTasks : Code := opt TaskManager.list

def taskCall : Code := oneOf [addTask, pauseTask, resumeTask, deleteTask, listTasks]

def dwInit : Code :=
  .locked .downloader (opt (block [
    -- the objects of an attempt that failed are replaced
    opt TaskManager.destroy, TaskManager.applyConfig,
    opt (block [opt HttpEngine.destroy, opt TorrentEngine.destroy,
      opt (oneOf [HttpEngine.destroy, block [TaskManager.start, opt TaskManager.destroy]])])]))

def dwDestroy : Code :=
  opt (.locked .downloader (opt (block [opt TaskManager.stop, opt HttpEngine.destroy,
    opt TorrentEngine.destroy, opt TaskManager.destroy])))

def dwSetConfig : Code := opt (block [.locked .downloader .skip, opt TaskManager.applyConfig])

/-- `dw_set_progress_callback` and `dw_set_log_callback`. -/
def dwSetCallback : Code := opt (.locked .downloader .skip)

def call : Code := oneOf [dwInit, dwDestroy, dwSetConfig, dwSetCallback, taskCall]

namespace TaskManager

def schedulerLoop : Code :=
  .loop (block [
    .locked .manager (.loop (oneOf [HttpEngine.pauseTask, TorrentEngine.pauseTask, HttpEngine.doResume,
      TorrentEngine.doResume])),
    .loop (alt HttpEngine.pauseTask TorrentEngine.pauseTask)])

/-- The app's callback may do this. -/
def maintenanceLoop (onProgress : Code) : Code :=
  .loop (block [
    .locked .manager (.loop (oneOf [LegacyTaskStore.operation,
      block [LegacyTaskStore.operation, TaskStore.operation]])),
    .loop onProgress,
    HttpEngine.sweep, TorrentEngine.sweep])

end TaskManager

/-- The threads: those of the app, which call the interface any number of times, and those the library
starts. -/
inductive IsThread (onProgress : Code) : Thread Lock → Prop where
  | app : IsThread onProgress (.ofCode (.loop call))
  | scheduler : IsThread onProgress (.alive .schedulerThread TaskManager.schedulerLoop)
  | maintenance : IsThread onProgress (.alive .maintenanceThread (TaskManager.maintenanceLoop onProgress))
  | alerts : IsThread onProgress (.alive .alertThread TorrentEngine.alertLoop)
  | status : IsThread onProgress (.alive .statusThread TorrentEngine.statusLoop)
  | resume : IsThread onProgress (.alive .resumeThread TorrentEngine.resumeLoop)
  | worker (context : Nat) : IsThread onProgress (.alive (.taskThread context) (Worker.taskThreadFunc context))

def starts (onProgress : Code) (_ : List (Thread Lock)) : Move Lock → Prop
  | .step _ _ => True
  | .spawn thread => IsThread onProgress thread

/-! ### The order of the locks -/

/-- A thread that holds a lock waits for none above it in this table. -/
def rank : Lock → Nat
  | .downloader => 0
  | .schedulerThread | .maintenanceThread | .alertThread | .statusThread | .resumeThread => 1
  | .manager => 2
  | .map => 3
  | .taskThread _ => 4
  | .speed _ => 5
  | .file _ _ => 6
  | .taskStore | .taskFileStore | .btResumeStore => 7
  | .connection => 8

abbrev UpTo (bound : Nat) (held : List Lock) : Prop := LockOrder.UpTo rank bound held

section Order

variable {held : List Lock} {bound : Nat}

theorem above_manager (h : UpTo 2 held) : LockOrder.Above rank reentrant held .manager :=
  h.above_again rfl fun other heq => by cases other <;> simp [rank] at heq ⊢

theorem ordered_sqlite : sqlite.Ordered rank reentrant held := by
  have hall : UpTo 8 held := by
    intro lock _
    cases lock <;> simp [rank]
  refine ⟨hall.above_again rfl fun other heq => ?_, trivial⟩
  cases other <;> simp [rank] at heq ⊢

theorem TaskStore.ordered_operation (h : UpTo 6 held) :
    TaskStore.operation.Ordered rank reentrant held := by
  simp [operation, h.above .taskStore (by decide), ordered_sqlite]

theorem TaskStore.ordered_replaceTask (h : UpTo 6 held) :
    replaceTask.Ordered rank reentrant held := by
  have hsql : LockOrder.Above rank reentrant (.taskStore :: held) .connection := ordered_sqlite.1
  simp [replaceTask, h.above .taskStore (by decide), hsql, ordered_sqlite]

theorem TaskFileStore.ordered_operation (h : UpTo 6 held) :
    TaskFileStore.operation.Ordered rank reentrant held := by
  simp [operation, h.above .taskFileStore (by decide), ordered_sqlite]

theorem TaskBtResumeStore.ordered_operation (h : UpTo 6 held) :
    TaskBtResumeStore.operation.Ordered rank reentrant held := by
  simp [operation, h.above .btResumeStore (by decide), ordered_sqlite]

theorem LegacyTaskStore.ordered_operation : LegacyTaskStore.operation.Ordered rank reentrant held :=
  ordered_sqlite

theorem under_manager (h : UpTo 2 held) : UpTo 2 (.manager :: held) := h.cons le_rfl

theorem under_map (h : UpTo 2 held) : UpTo 3 (.map :: held) :=
  (h.mono (by decide)).cons (by decide)

namespace TaskManager

theorem ordered_applyConfig (h : UpTo 2 held) : applyConfig.Ordered rank reentrant held := by
  simp [applyConfig, above_manager h]

theorem ordered_getEngineTask (h : UpTo 2 held) : getEngineTask.Ordered rank reentrant held := by
  have hstores := (under_manager h).mono (show 2 ≤ 6 by decide)
  simp [getEngineTask, above_manager h, TaskStore.ordered_operation hstores,
    TaskFileStore.ordered_operation hstores]

theorem ordered_list (h : UpTo 2 held) : list.Ordered rank reentrant held := by
  have hstores := (under_manager h).mono (show 2 ≤ 6 by decide)
  simp [list, above_manager h, TaskStore.ordered_operation hstores,
    TaskFileStore.ordered_operation hstores]

theorem ordered_start (h : UpTo 2 held) : start.Ordered rank reentrant held := by
  have hstores := (under_manager h).mono (show 2 ≤ 6 by decide)
  simp [start, above_manager h, ordered_sqlite, LegacyTaskStore.ordered_operation,
    TaskStore.ordered_operation hstores, TaskFileStore.ordered_operation hstores,
    TaskBtResumeStore.ordered_operation hstores]

theorem ordered_stop (h : UpTo 0 held) : stop.Ordered rank reentrant held := by
  simp [stop, h.above .schedulerThread (by decide),
    h.above .maintenanceThread (by decide), above_manager (h.mono (Nat.zero_le 2)), ordered_sqlite]

theorem ordered_destroy (h : UpTo 0 held) : destroy.Ordered rank reentrant held := by
  simp [destroy, ordered_stop h, ordered_sqlite]

end TaskManager

namespace HttpEngine

theorem ordered_startDownload (h : UpTo 2 held) : startDownload.Ordered rank reentrant held := by
  have hmanager := under_manager h
  have hthread : ∀ context, LockOrder.Above rank reentrant (.manager :: held) (.taskThread context) :=
    fun context => hmanager.above _ (by simp [rank])
  simp [startDownload, above_manager h, TaskManager.ordered_getEngineTask hmanager,
    hmanager.above .map (by decide), hthread,
    TaskStore.ordered_replaceTask (hmanager.mono (by decide))]

theorem ordered_resumeTask (h : UpTo 2 held) : resumeTask.Ordered rank reentrant held := by
  simp [resumeTask, above_manager h, TaskManager.ordered_getEngineTask (under_manager h)]

theorem ordered_doResume (h : UpTo 2 held) : doResume.Ordered rank reentrant held := by
  simp [doResume, h.above .map (by decide), above_manager h,
    TaskManager.ordered_getEngineTask (under_manager h), LegacyTaskStore.ordered_operation,
    ordered_startDownload h]

theorem ordered_pauseTask (h : UpTo 2 held) : pauseTask.Ordered rank reentrant held := by
  simp [pauseTask, h.above .map (by decide)]

theorem ordered_deleteTask (h : UpTo 2 held) : deleteTask.Ordered rank reentrant held := by
  simp [deleteTask, h.above .map (by decide)]

theorem ordered_sweep (h : UpTo 2 held) : sweep.Ordered rank reentrant held := by
  have hthread : ∀ context, LockOrder.Above rank reentrant held (.taskThread context) :=
    fun context => h.above _ (by simp [rank])
  simp [sweep, h.above .map (by decide), hthread]

theorem ordered_destroy (h : UpTo 2 held) : destroy.Ordered rank reentrant held := by
  have hthread : ∀ context, LockOrder.Above rank reentrant (.map :: held) (.taskThread context) :=
    fun context => (under_map h).above _ (by simp [rank])
  simp [destroy, h.above .map (by decide), hthread]

end HttpEngine

namespace TorrentEngine

theorem ordered_findHandle (h : UpTo 2 held) : findHandle.Ordered rank reentrant held := by
  have hstores := h.mono (show 2 ≤ 6 by decide)
  simp [findHandle, TaskStore.ordered_operation hstores, TaskBtResumeStore.ordered_operation hstores]

theorem ordered_addTask (h : UpTo 2 held) : addTask.Ordered rank reentrant held := by
  have hmanager := under_manager h
  simp [addTask, above_manager h, TaskManager.ordered_getEngineTask hmanager, ordered_findHandle hmanager,
    TaskStore.ordered_replaceTask (hmanager.mono (by decide))]

theorem ordered_resumeTask (h : UpTo 2 held) : resumeTask.Ordered rank reentrant held := by
  simp [resumeTask, above_manager h, TaskManager.ordered_getEngineTask (under_manager h)]

theorem ordered_doResume (h : UpTo 2 held) : doResume.Ordered rank reentrant held := by
  simp [doResume, above_manager h, TaskManager.ordered_getEngineTask (under_manager h),
    ordered_findHandle (under_manager h)]

theorem ordered_pauseTask (h : UpTo 2 held) : pauseTask.Ordered rank reentrant held :=
  ordered_doResume h

theorem ordered_deleteTask (h : UpTo 2 held) : deleteTask.Ordered rank reentrant held := by
  simp [deleteTask, above_manager h, TaskManager.ordered_getEngineTask (under_manager h),
    ordered_findHandle (under_manager h)]

theorem ordered_sweep (h : UpTo 2 held) : sweep.Ordered rank reentrant held := by
  simp [sweep, above_manager h, TaskManager.ordered_getEngineTask (under_manager h)]

theorem ordered_handleTaskError (h : UpTo 2 held) : handleTaskError.Ordered rank reentrant held :=
  ordered_resumeTask h

theorem ordered_handlePieceFinished (h : UpTo 2 held) :
    handlePieceFinished.Ordered rank reentrant held :=
  ordered_resumeTask h

theorem ordered_handleParsed (h : UpTo 2 held) : handleParsed.Ordered rank reentrant held := by
  simp [handleParsed, above_manager h, TaskManager.ordered_getEngineTask (under_manager h),
    TaskFileStore.ordered_operation ((under_manager h).mono (by decide))]

theorem ordered_handleAlert (h : UpTo 2 held) : handleAlert.Ordered rank reentrant held := by
  have hmanager := under_manager h
  simp [handleAlert, above_manager h, TaskManager.ordered_getEngineTask hmanager,
    ordered_handleTaskError hmanager, ordered_handleParsed hmanager,
    ordered_handlePieceFinished hmanager, TaskBtResumeStore.ordered_operation (hmanager.mono (by decide))]

theorem ordered_destroy (h : UpTo 0 held) : destroy.Ordered rank reentrant held := by
  simp [destroy, h.above .statusThread (by decide), h.above .resumeThread (by decide),
    h.above .alertThread (by decide)]

end TorrentEngine

namespace Worker

variable {context : Nat}

theorem ordered_underSpeed (h : UpTo 4 held) : (underSpeed context).Ordered rank reentrant held := by
  simp [underSpeed, h.above (.speed context) (by simp [rank])]

theorem ordered_writeCb (h : UpTo 4 held) (part : Nat) :
    (writeCb context part).Ordered rank reentrant held := by
  simp [writeCb, finalizeProbing, ordered_underSpeed h,
    h.above (.file context part) (by simp [rank])]

theorem ordered_maybeEmitResume (h : UpTo 4 held) :
    (maybeEmitResume context).Ordered rank reentrant held := by
  simp [maybeEmitResume, emitResume, ordered_underSpeed h, LegacyTaskStore.ordered_operation]

theorem ordered_addPart (h : UpTo 4 held) : (addPart context).Ordered rank reentrant held := by
  simp [addPart, buildEasyForPart, activeDownloadingTasks, ordered_underSpeed h]

theorem ordered_runPartsMulti (h : UpTo 4 held) :
    (runPartsMulti context).Ordered rank reentrant held := by
  simp [runPartsMulti, callbacks, partProgressCb, headerCb, handlePartResult, ordered_underSpeed h,
    ordered_addPart h, ordered_writeCb h, ordered_maybeEmitResume h]

theorem ordered_taskThreadFunc (h : UpTo 4 held) :
    (taskThreadFunc context).Ordered rank reentrant held := by
  have hfile : ∀ part, LockOrder.Above rank reentrant held (.file context part) :=
    fun part => h.above _ (by simp [rank])
  simp [taskThreadFunc, emitResume, ordered_underSpeed h, ordered_runPartsMulti h,
    ordered_maybeEmitResume h, hfile, LegacyTaskStore.ordered_operation]

end Worker

theorem ordered_taskCall (h : UpTo 2 held) : taskCall.Ordered rank reentrant held := by
  simp [taskCall, addTask, pauseTask, resumeTask, deleteTask, listTasks, HttpEngine.addTask,
    HttpEngine.ordered_startDownload h, HttpEngine.ordered_pauseTask h, HttpEngine.ordered_resumeTask h,
    HttpEngine.ordered_deleteTask h, TorrentEngine.ordered_addTask h, TorrentEngine.ordered_pauseTask h,
    TorrentEngine.ordered_resumeTask h, TorrentEngine.ordered_deleteTask h, TaskManager.ordered_list h]

theorem ordered_call : call.Ordered rank reentrant [] := by
  have hnone : UpTo 2 [] := LockOrder.upTo_nil
  have hdownloader : LockOrder.Above rank reentrant [] .downloader := Or.inr (by simp)
  have hunder : UpTo 0 [.downloader] := LockOrder.upTo_nil.cons le_rfl
  have hunder2 := hunder.mono (Nat.zero_le 2)
  simp [call, dwInit, dwDestroy, dwSetConfig, dwSetCallback, hdownloader, ordered_taskCall hnone,
    TaskManager.ordered_applyConfig hnone, TaskManager.ordered_applyConfig hunder2,
    TaskManager.ordered_start hunder2, TaskManager.ordered_stop hunder, TaskManager.ordered_destroy hunder,
    HttpEngine.ordered_destroy hunder2, TorrentEngine.ordered_destroy hunder]

theorem ordered_schedulerLoop (h : UpTo 2 held) :
    TaskManager.schedulerLoop.Ordered rank reentrant held := by
  simp [TaskManager.schedulerLoop, above_manager h, HttpEngine.ordered_pauseTask h,
    HttpEngine.ordered_pauseTask (under_manager h), TorrentEngine.ordered_pauseTask h,
    TorrentEngine.ordered_pauseTask (under_manager h), HttpEngine.ordered_doResume (under_manager h),
    TorrentEngine.ordered_doResume (under_manager h)]

theorem ordered_maintenanceLoop (h : UpTo 2 held) {onProgress : Code}
    (hprogress : onProgress.Ordered rank reentrant held) :
    (TaskManager.maintenanceLoop onProgress).Ordered rank reentrant held := by
  simp [TaskManager.maintenanceLoop, above_manager h, LegacyTaskStore.ordered_operation,
    TaskStore.ordered_operation ((under_manager h).mono (by decide)), hprogress, HttpEngine.ordered_sweep h,
    TorrentEngine.ordered_sweep h]

theorem orderly_of_isThread {onProgress : Code}
    (hprogress : onProgress.Ordered rank reentrant [.maintenanceThread]) {thread : Thread Lock}
    (h : IsThread onProgress thread) : thread.Orderly rank reentrant := by
  cases h with
  | app => exact Thread.orderly_ofCode ordered_call
  | scheduler => exact Thread.orderly_alive (ordered_schedulerLoop (LockOrder.upTo_nil.cons (by decide)))
  | maintenance =>
      exact Thread.orderly_alive (ordered_maintenanceLoop (LockOrder.upTo_nil.cons (by decide)) hprogress)
  | alerts =>
      exact Thread.orderly_alive (TorrentEngine.ordered_handleAlert (LockOrder.upTo_nil.cons (by decide)))
  | status =>
      have hthread : UpTo 2 [.statusThread] := LockOrder.upTo_nil.cons (by decide)
      exact Thread.orderly_alive (by simp [TorrentEngine.statusLoop, above_manager hthread])
  | resume => exact Thread.orderly_alive trivial
  | worker context =>
      exact Thread.orderly_alive (Worker.ordered_taskThreadFunc (LockOrder.upTo_nil.cons le_rfl))

end Order

/-- **The library never hangs on its locks.** Whatever the app's threads, the manager's threads, the BT
engine's threads and the tasks' threads have done so far, in any order, all of them can run to their end,
even if the progress callback makes task calls. -/
theorem finishes_of_reaches {threads : List (Thread Lock)}
    (hrun : Transition.Reaches (LockOrder.step reentrant) (starts taskCall) [] threads) :
    ∃ threads', Transition.Reaches (LockOrder.step reentrant) LockOrder.noSpawn threads threads' ∧
      ∀ thread ∈ threads', thread.todo = [] := by
  have horderly : Transition.Reaches (LockOrder.step reentrant)
      (LockOrder.orderlySpawn rank reentrant) [] threads := by
    refine hrun.mono fun _ move hmove => ?_
    cases move with
    | step place choice => trivial
    | spawn thread =>
        exact orderly_of_isThread (ordered_taskCall (LockOrder.upTo_nil.cons (by decide))) hmove
  exact (LockOrder.disciplined_of_reaches horderly LockOrder.disciplined_nil).finishes

theorem finishes_of_reaches_started :
    ∃ threads', Transition.Reaches (LockOrder.step reentrant) LockOrder.noSpawn
        [.ofCode (.loop call), .alive .schedulerThread TaskManager.schedulerLoop,
          .alive .maintenanceThread (TaskManager.maintenanceLoop taskCall),
          .alive (.taskThread 0) (Worker.taskThreadFunc 0)] threads' ∧
      ∀ thread ∈ threads', thread.todo = [] :=
  finishes_of_reaches (.tail (.tail (.tail (.tail .refl
    ⟨.spawn (.ofCode (.loop call)), IsThread.app, rfl⟩)
    ⟨.spawn (.alive .schedulerThread TaskManager.schedulerLoop), IsThread.scheduler, rfl⟩)
    ⟨.spawn (.alive .maintenanceThread (TaskManager.maintenanceLoop taskCall)), IsThread.maintenance, rfl⟩)
    ⟨.spawn (.alive (.taskThread 0) (Worker.taskThreadFunc 0)), IsThread.worker 0, rfl⟩)

end DownloadWrapper.Locks
