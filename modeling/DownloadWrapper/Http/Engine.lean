import DownloadWrapper.Core.World
import DownloadWrapper.Http.Probe

/-!
# The HTTP engine

`HttpEngine`'s operations on the registry, the database and the contexts. A thread that is told to
stop goes on until it notices; `start_download` waits for the thread of a context that is being
deleted, and the hub lets the call through once that thread has ended.
-/

namespace DownloadWrapper

/-- What the operating system and the database answer to one `start_download`. -/
structure DownloadEnv where
  mkdirOk : Bool := true
  openOk : Bool := true
  persistOk : Bool := true

namespace HttpEngine

def newTask (params : TaskParams) (savePath : String) (now : Int) : Task where
  clientId := params.clientId
  taskProtocol := .http
  taskId := params.url
  url := params.url
  savePath := savePath
  priority := params.queuePriority.getD 0
  status := .downloading
  createdAt := now
  modifiedAt := now

/-- The save path of the request, or else the configured one. -/
def savePathOf (cfg : ManagerConfig) (params : TaskParams) : String :=
  if params.savePath ≠ "" then params.savePath else cfg.savePath

/-- The last part of `start_download`: the record is replaced, if asked for, and the thread starts. A
record that cannot be replaced takes the context away again. -/
def launch (env : DownloadEnv) (now : Int) (params : TaskParams) (savePath : String)
    (worker : Worker) (replaceRecord : Bool) (registry : Registry) (w : World) :
    SubmitResult × Registry × World :=
  let url := params.url
  if replaceRecord then
    match w.store.replaceTask (newTask params savePath now) env.persistOk with
    | none => (.failure .error "HTTP 任务持久化失败", registry, w)
    | some store =>
        (.success, loadTask store url registry,
          { w with store := store, contexts := w.contexts.insert ⟨url, worker, 0⟩ })
  else (.success, registry, { w with contexts := w.contexts.insert ⟨url, worker, 0⟩ })

def startDownload (cfg : ManagerConfig) (env : DownloadEnv) (now : Int) (params : TaskParams)
    (archive : Option Archive) (replaceRecord : Bool) (registry : Registry) (w : World) :
    SubmitResult × Registry × World :=
  let url := params.url
  let savePath := savePathOf cfg params
  if url = "" then (.failure .error "url is empty", registry, w)
  else if savePath = "" then (.failure .error "output_path is empty", registry, w)
  else
    let registry := loadTask w.store url registry
    let deleting : Bool := match registry.find? url with
      | some task => task.status = .deleting && !task.isDelete
      | none => false
    if replaceRecord ∧ deleting then (.failure .error "HTTP 任务正在删除", registry, w)
    else
      let busy : Bool := match w.contexts.find? url with
        | some c => c.worker.running && !c.worker.task.deleteReq
        | none => false
      if busy then (.success, registry, w)
      else
        let w := { w with contexts := w.contexts.erase url }
        match mkdirRecursive w.fs savePath env.mkdirOk with
        | none => (.failure .error "目录创建失败", registry, w)
        | some fs =>
            let worker := startWorker url cfg.clientId savePath archive fs env.openOk
            launch env now params savePath worker replaceRecord registry { w with fs := fs }

def addTask (cfg : ManagerConfig) (env : DownloadEnv) (now : Int) (params : TaskParams)
    (registry : Registry) (w : World) : SubmitResult × Registry × World :=
  startDownload cfg env now params none true registry w

/-- `resume_task`: the task waits for admission. -/
def resumeTask (now : Int) (params : TaskParams) (registry : Registry) (w : World) :
    SubmitResult × Registry × World :=
  let key := params.taskKey
  if key = "" then (.failure .error "HTTP 恢复参数无效或引擎未启动", registry, w)
  else
    let registry := loadTask w.store key registry
    match registry.find? key with
    | none => (.failure .error "HTTP 任务不存在或不可恢复", registry, w)
    | some task =>
        if task.taskProtocol ≠ .http ∨ task.isDelete then
          (.failure .error "HTTP 任务不存在或不可恢复", registry, w)
        else
          (.success, registry.modify key (fun task => { task with
            force := params.force, status := .queued, modifiedAt := now, dirty := true })
            fun _ => rfl, w)

/-- `do_resume`: a new thread for the task, from the last archive of it. -/
def doResume (cfg : ManagerConfig) (env : DownloadEnv) (now : Int) (params : TaskParams)
    (registry : Registry) (w : World) : SubmitResult × World :=
  let key := params.taskKey
  if key = "" ∨ params.clientId = "" then (.failure .error "HTTP 恢复参数无效或引擎未启动", w)
  else
    let pausing : Bool := match w.contexts.find? key with
      | some c => c.worker.task.pauseReq && c.worker.running
      | none => false
    if pausing then (.failure .fail "HTTP 任务正在暂停", w)
    else
      match (loadTask w.store key registry).find? key with
      | none => (.failure .error "HTTP 任务或保存路径不存在", w)
      | some task =>
          if task.savePath = "" then (.failure .error "HTTP 任务或保存路径不存在", w)
          else
            let p : TaskParams :=
              { clientId := params.clientId, url := key, savePath := task.savePath }
            let archive := w.store.loadResume params.clientId .http key
            let (result, _, w) := startDownload cfg env now p archive false registry w
            (result, w)

def requestPause (c : HttpContext) : HttpContext :=
  { c with worker := c.worker.modifyTask fun t => { t with pauseReq := true } }

def requestDelete (c : HttpContext) : HttpContext :=
  { c with worker := c.worker.modifyTask fun t => { t with cancelReq := true, deleteReq := true } }

theorem url_requestPause (c : HttpContext) : (requestPause c).url = c.url := rfl

theorem url_requestDelete (c : HttpContext) : (requestDelete c).url = c.url := rfl

def requestCancel (c : HttpContext) : HttpContext :=
  { c with worker := c.worker.modifyTask fun t => { t with cancelReq := true } }

/-- `pause_task`: a request the thread notices; the registry is not told. -/
def pauseTask (params : TaskParams) (w : World) : SubmitResult × World :=
  let key := params.taskKey
  if key = "" then (.failure .error "入参为空", w)
  else
    (.success, { w with contexts := w.contexts.modify key requestPause fun _ => rfl })

/-- `delete_task`: the same, with the cancel and delete flags. -/
def deleteTask (params : TaskParams) (w : World) : SubmitResult × World :=
  let key := params.taskKey
  if key = "" then (.failure .error "入参为空", w)
  else
    (.success, { w with contexts := w.contexts.modify key requestDelete fun _ => rfl })

/-- A context `sweep` takes away: its thread has ended, and it is deleted, or finished for 4 seconds,
or paused. -/
def reclaimable (now : Int) (c : HttpContext) : Bool :=
  !c.worker.running &&
    (c.worker.task.deleteReq ||
      if c.worker.task.status = .completed || c.worker.task.status = .error then
        4000 ≤ now - c.finishedAt
      else c.worker.task.pauseReq)

def sweep (now : Int) (w : World) : World :=
  { w with contexts := w.contexts.filter fun c => !reclaimable now c }

/-- One step of the thread of `url`. The disk is shared, and an archive the step emits is saved. -/
def stepWorker (cfg : HttpConfig) (now : Int) (url : String) (event : Event) (w : World) :
    Option World :=
  match w.contexts.find? url with
  | none => none
  | some c =>
      match { c.worker with fs := w.fs, emitted := none }.step cfg event with
      | none => none
      | some worker =>
          let finishedAt := if c.worker.running && !worker.running then now else c.finishedAt
          some { w with
            contexts := w.contexts.modify url
              (fun c => { c with worker := worker, finishedAt := finishedAt }) fun _ => rfl
            fs := worker.fs
            store := match worker.emitted with
              | some archive => w.store.saveResume c.worker.task.clientId .http url archive
              | none => w.store }

/-- `destroy`, before the threads are joined: every thread is told to stop. -/
def cancelAll (w : World) : World :=
  { w with contexts := w.contexts.map requestCancel fun _ => rfl }

end HttpEngine

end DownloadWrapper
