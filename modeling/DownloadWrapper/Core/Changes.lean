import DownloadWrapper.Core.Admission
import DownloadWrapper.Core.Hub
import DownloadWrapper.Torrent.Updates

/-!
# What one step changes

Every step in two parts: what it makes of the tasks in the registry, and what it does to the rows of
the tasks table. The later results about whole runs are read off these.
-/

namespace DownloadWrapper

namespace HttpEngine

def deletePending (url : String) (registry : Registry) : Bool :=
  (registry.find? url).any fun task => task.status = .deleting && !task.isDelete

inductive Started (env : DownloadEnv) (now : Int) (params : TaskParams) (savePath : String)
    (replaceRecord : Bool) (registry : Registry) (w : World) :
    SubmitResult → Registry → World → Prop
  /-- Refused before anything is done, or after the load. -/
  | refused {result : SubmitResult} {registry' : Registry} (hcode : result.code = .error)
      (hregistry : registry' = registry ∨ registry' = loadTask w.store params.url registry) :
      Started env now params savePath replaceRecord registry w result registry' w
  /-- The thread that is there does it. -/
  | busy (hrunning : w.running params.url = true) :
      Started env now params savePath replaceRecord registry w .success
        (loadTask w.store params.url registry) w
  /-- No directory, or no record: the context that was there is gone. -/
  | undone {result : SubmitResult} (fs : Fs) (hcode : result.code = .error) :
      Started env now params savePath replaceRecord registry w result
        (loadTask w.store params.url registry)
        { w with contexts := w.contexts.erase params.url, fs := fs }
  /-- The record is replaced and a thread started. -/
  | recorded {store : Store} {fs : Fs} (worker : Worker) (hurl : params.url ≠ "")
      (hpath : savePath ≠ "") (hreplace : replaceRecord = true)
      (hdeleting : deletePending params.url (loadTask w.store params.url registry) = false)
      (hidle : ∀ c, w.contexts.find? params.url = some c →
        ¬ (c.worker.running = true ∧ c.worker.task.deleteReq = false))
      (hfs : mkdirRecursive w.fs savePath env.mkdirOk = some fs)
      (hstore : w.store.replaceTask (newTask params savePath now) env.persistOk = some store) :
      Started env now params savePath replaceRecord registry w .success
        (loadTask store params.url (loadTask w.store params.url registry))
        { w with
          store := store, fs := fs
          contexts := (w.contexts.erase params.url).insert ⟨params.url, worker, 0⟩ }
  /-- A thread is started, the record stays. -/
  | relaunched (fs : Fs) (worker : Worker) (hreplace : replaceRecord = false) :
      Started env now params savePath replaceRecord registry w .success
        (loadTask w.store params.url registry)
        { w with
          fs := fs, contexts := (w.contexts.erase params.url).insert ⟨params.url, worker, 0⟩ }

theorem started_startDownload (cfg : ManagerConfig) (env : DownloadEnv) (now : Int)
    (params : TaskParams) (archive : Option Archive) (replaceRecord : Bool) (registry : Registry)
    (w : World) :
    Started env now params (savePathOf cfg params) replaceRecord registry w
      (startDownload cfg env now params archive replaceRecord registry w).1
      (startDownload cfg env now params archive replaceRecord registry w).2.1
      (startDownload cfg env now params archive replaceRecord registry w).2.2 := by
  simp only [startDownload]
  split_ifs with hurl hpath hdeleting hbusy
  · exact .refused rfl (Or.inl rfl)
  · exact .refused rfl (Or.inl rfl)
  · exact .refused rfl (Or.inr rfl)
  · refine .busy ?_
    rw [World.running]
    cases hfind : w.contexts.find? params.url with
    | none => simp [hfind] at hbusy
    | some c =>
        simp only [hfind, Bool.and_eq_true] at hbusy
        exact hbusy.1
  · split
    next => exact .undone w.fs rfl
    next fs hfs =>
      simp only [launch]
      cases replaceRecord with
      | false => exact .relaunched fs _ rfl
      | true =>
          simp only [if_true]
          split
          next => exact .undone fs rfl
          next store hstore =>
            refine .recorded _ hurl hpath rfl ?_ ?_ hfs hstore
            · rw [deletePending]
              cases hfind : (loadTask w.store params.url registry).find? params.url with
              | none => rfl
              | some task => simpa [hfind] using hdeleting
            · intro c hfind hrunning
              exact hbusy (by simp [hfind, hrunning])

end HttpEngine

def recordOf (cfg : ManagerConfig) (lib : TorrentLib) (params : TaskParams) (now : Int) :
    Option Task :=
  if params.protocol = .http then
    some (HttpEngine.newTask params (HttpEngine.savePathOf cfg params) now)
  else
    (TorrentEngine.parseSource lib params).map fun (infoHash, name) =>
      TorrentEngine.newTask params infoHash name now

theorem isDelete_of_recordOf {cfg : ManagerConfig} {lib : TorrentLib} {params : TaskParams}
    {now : Int} {task : Task} (h : recordOf cfg lib params now = some task) :
    task.isDelete = false := by
  simp only [recordOf] at h
  split at h
  · rw [← Option.some.inj h]
    rfl
  · obtain ⟨source, -, rfl⟩ := Option.map_eq_some_iff.mp h
    rfl

structure Recording (h : Hub) (event : HubEvent) (task : Task) (store : Store) : Prop where
  event : ∃ params http bt now, event = .add params http bt now ∧
    recordOf h.cfg bt.lib params now = some task
  replaced : ∃ granted, h.world.store.replaceTask task granted = some store

structure Drift (task task' : Task) : Prop where
  taskId : task'.taskId = task.taskId
  taskProtocol : task'.taskProtocol = task.taskProtocol
  isDelete : task'.isDelete = task.isDelete
  needDeleteSession : task'.needDeleteSession = task.needDeleteSession
  status : task'.status = task.status ∨ statusOccupiesSlot task'.status = false
  other : task.taskProtocol ≠ .torrent → task' = task

namespace Drift

theorem refl (task : Task) : Drift task task := ⟨rfl, rfl, rfl, rfl, Or.inl rfl, fun _ => rfl⟩

theorem trans {task task' task'' : Task} (h : Drift task task') (h' : Drift task' task'') :
    Drift task task'' where
  taskId := h'.taskId.trans h.taskId
  taskProtocol := h'.taskProtocol.trans h.taskProtocol
  isDelete := h'.isDelete.trans h.isDelete
  needDeleteSession := h'.needDeleteSession.trans h.needDeleteSession
  status := by
    rcases h'.status with heq | hfree
    · rw [heq]
      exact h.status
    · exact Or.inr hfree
  other := fun hprotocol => by rw [h'.other (h.taskProtocol ▸ hprotocol), h.other hprotocol]

theorem of_torrent {task task' : Task} (hprotocol : task.taskProtocol = .torrent)
    (hid : task'.taskId = task.taskId) (hsame : task'.taskProtocol = task.taskProtocol)
    (hdelete : task'.isDelete = task.isDelete)
    (hneed : task'.needDeleteSession = task.needDeleteSession)
    (hstatus : task'.status = task.status ∨ statusOccupiesSlot task'.status = false) :
    Drift task task' :=
  ⟨hid, hsame, hdelete, hneed, hstatus, fun h => absurd hprotocol h⟩

end Drift

theorem drift_failTask (code : ErrorCode) {task : Task} (h : task.taskProtocol = .torrent) :
    Drift task (failTask code task) := by
  refine .of_torrent h rfl rfl rfl rfl (Or.inr ?_)
  simp only [failTask]
  split <;> rfl

theorem drift_linkTask (magnet : String) {task : Task} (h : task.taskProtocol = .torrent) :
    Drift task (linkTask magnet task) := by
  rw [linkTask]
  split
  · exact .of_torrent h rfl rfl rfl rfl (Or.inl rfl)
  · exact .refl task

theorem drift_completeFileTask (index : Int) {task : Task} (h : task.taskProtocol = .torrent) :
    Drift task (completeFileTask index task) := by
  rw [completeFileTask]
  split
  · exact .of_torrent h rfl rfl rfl rfl (Or.inl rfl)
  · exact .refl task

theorem drift_pieceTask (t : Torrent) (piece : Nat) {task : Task}
    (h : task.taskProtocol = .torrent) : Drift task (pieceTask t piece task) := by
  rw [pieceTask]
  split
  · exact .refl task
  · split
    · exact .refl task
    · exact .of_torrent h rfl rfl rfl rfl (Or.inl rfl)

theorem drift_parsedTask (env : AcquireEnv) (fs : Fs) (t : Torrent) {task : Task}
    (h : task.taskProtocol = .torrent) : Drift task (parsedTask env fs t task) := by
  simp only [parsedTask]
  split
  · exact .refl task
  cases t.info <;> simp only <;> split
  · exact .of_torrent h rfl rfl rfl rfl (Or.inl rfl)
  · exact .of_torrent h rfl rfl rfl rfl (Or.inr rfl)
  · exact .of_torrent h rfl rfl rfl rfl (Or.inl rfl)
  · exact .of_torrent h rfl rfl rfl rfl (Or.inr rfl)

theorem respectsAlerts_drift : RespectsAlerts Drift where
  refl := Drift.refl
  trans _ _ _ := Drift.trans
  failed code _ h := drift_failTask code h
  progress _ _ h := .of_torrent h rfl rfl rfl rfl (Or.inl rfl)
  finished _ h := .of_torrent h rfl rfl rfl rfl (Or.inr rfl)
  conflict _ h := .of_torrent h rfl rfl rfl rfl (Or.inr rfl)
  unwrapped _ h := .of_torrent h rfl rfl rfl rfl (Or.inl rfl)
  linked magnet _ h := drift_linkTask magnet h
  file index _ h := drift_completeFileTask index h
  piece t index _ h := drift_pieceTask t index h

def queuedTask (params : TaskParams) (now : Int) (priorities : List (Int × Int)) (task : Task) :
    Task :=
  { task with
    priorityFileIndexes := priorities
    force := params.force, status := .queued, modifiedAt := now, dirty := true }

def writtenTask (task : Task) : Task := { task with dirty := false }

inductive Change (h : Hub) : HubEvent → Task → Task → Prop
  | same (event : HubEvent) (task : Task) : Change h event task task
  | broken {params : TaskParams} {http : DownloadEnv} {bt : TorrentEnv} {now : Int} {task : Task}
      (message : String) (hprotocol : task.taskProtocol = .torrent) :
      Change h (.add params http bt now) task (TorrentEngine.brokenTask now message task)
  | paused {params : TaskParams} {bt : TorrentEnv} {task : Task}
      (hkey : task.taskId = params.taskKey) (hprotocol : task.taskProtocol = .torrent) :
      Change h (.pause params bt) task (TorrentEngine.pausedTask task)
  | pausedNext {bt : TorrentEnv} {task : Task} (hprotocol : task.taskProtocol = .torrent) :
      Change h (.pauseNext bt) task (TorrentEngine.pausedTask task)
  | queued {params : TaskParams} {now : Int} {task : Task} (priorities : List (Int × Int))
      (hkey : task.taskId = params.taskKey) (hdelete : task.isDelete = false)
      (hprotocol : task.taskProtocol = .http → params.protocol = .http) :
      Change h (.resume params now) task (queuedTask params now priorities task)
  | deleted {params : TaskParams} {bt : TorrentEnv} {task : Task}
      (hkey : task.taskId = params.taskKey) (hprotocol : task.taskProtocol = .torrent) :
      Change h (.delete params bt) task (TorrentEngine.deletedTask task)
  | preempted {http : DownloadEnv} {bt : TorrentEnv} {now : Int} {task : Task} (time : Int)
      (hslowest : slowestTask (Hub.engines h.cfg http bt now) h.registry = some task)
      (hcalled : ∃ call ∈ (h.pass http bt now).1.calls, call.kind = .pause ∧ call.task = task) :
      Change h (.admission http bt now) task (settlePaused time task)
  | dispatched {http : DownloadEnv} {bt : TorrentEnv} {now : Int} {task : Task} (time : Int)
      (result : SubmitResult)
      (hnext : nextTask (Hub.engines h.cfg http bt now) h.registry = some task)
      (hcalled : ∃ call ∈ (h.pass http bt now).1.calls, call.kind = .resume ∧ call.task = task) :
      Change h (.admission http bt now) task (settleDispatched time result task)
  | alerted {acquire : AcquireEnv} {task task' : Task} (hdrift : Drift task task') :
      Change h (.alert acquire) task task'
  | written {now : Int} (task : Task) : Change h (.maintain now) task (writtenTask task)

namespace Change

variable {h : Hub} {event : HubEvent} {task task' : Task}

theorem of_eq (heq : task = task') : Change h event task task' := heq ▸ .same event task

theorem taskId (hchange : Change h event task task') : task'.taskId = task.taskId := by
  cases hchange with
  | alerted hdrift => exact hdrift.taskId
  | _ => rfl

theorem taskProtocol (hchange : Change h event task task') :
    task'.taskProtocol = task.taskProtocol := by
  cases hchange with
  | alerted hdrift => exact hdrift.taskProtocol
  | _ => rfl

theorem needDeleteSession (hchange : Change h event task task') :
    task'.needDeleteSession = task.needDeleteSession := by
  cases hchange with
  | alerted hdrift => exact hdrift.needDeleteSession
  | _ => rfl

theorem isDelete (hchange : Change h event task task') :
    task'.isDelete = task.isDelete ∨ task.taskProtocol = .torrent := by
  cases hchange with
  | alerted hdrift => exact Or.inl hdrift.isDelete
  | deleted hkey hprotocol => exact Or.inr hprotocol
  | _ => exact Or.inl rfl

theorem isDelete_of_isDelete (hchange : Change h event task task') (hdelete : task.isDelete = true) :
    task'.isDelete = true := by
  cases hchange with
  | alerted hdrift => rw [hdrift.isDelete, hdelete]
  | deleted hkey hprotocol => rfl
  | _ => exact hdelete

end Change

end DownloadWrapper
