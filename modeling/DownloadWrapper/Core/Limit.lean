import DownloadWrapper.Core.Threads

/-!
# The limit

Admission counts the active tasks of the registry. The threads and torrents stay within the limit as
long as every running thread has an active task, so what has to be watched is every other way a
thread or an active task comes to be: `add_task` starts both at once and asks nobody, `resume_task`
frees the slot of a running thread, and so does the scheduler when it makes room.
-/

namespace DownloadWrapper

open Transition

def opensThread (h : Hub) (params : TaskParams) (http : DownloadEnv) : Bool :=
  let savePath := HttpEngine.savePathOf h.cfg params
  params.url ≠ "" && savePath ≠ "" &&
    !HttpEngine.deletePending params.url (loadTask h.world.store params.url h.registry) &&
    !h.world.running params.url && (mkdirRecursive h.world.fs savePath http.mkdirOk).isSome &&
    http.persistOk

def unknownKey (h : Hub) (key : String) : Bool :=
  (h.registry.find? key).isNone && (h.world.store.visible key).isNone

def registersTask (h : Hub) (params : TaskParams) (bt : TorrentEnv) : Bool :=
  match TorrentEngine.parseSource bt.lib params with
  | none => false
  | some (infoHash, _) =>
      infoHash ≠ "" && unknownKey h infoHash && bt.persistOk && bt.throws.isNone

def slotFree (h : Hub) : Bool := activeCount h.registry < h.cfg.maxConcurrentDownloads

def holdsSlot (h : Hub) (key : String) : Bool :=
  (h.registry.find? key).any fun task => task.taskProtocol = .http && occupiesSlot task

def slowestOf (h : Hub) : Option Task :=
  Selection.select
    (fun task => !task.isDelete && task.status = .downloading && isDownloadTask task) slower
    h.registry.entries

def preemptsThread (h : Hub) : Bool :=
  h.next.any Task.force && !slotFree h &&
    (slowestOf h).any fun task => task.taskProtocol = .http && h.world.running task.taskId

/-- The step starts nothing behind admission's back and takes no slot from a running thread; the
limit stays what it is. -/
def Orderly (h : Hub) : HubEvent → Prop
  | .add params http bt _ =>
      if params.protocol = .http then
        opensThread h params http = true → h.netAllowed = true ∧
          (holdsSlot h params.url = true ∨
            unknownKey h params.url = true ∧ slotFree h = true)
      else registersTask h params bt = true → slotFree h = true
  | .resume params _ => params.protocol = .http → h.world.running params.taskKey = false
  | .admission .. => preemptsThread h = false
  | .applyConfig cfg => (applyConfig cfg).all fun cfg' =>
      cfg'.maxConcurrentDownloads = h.cfg.maxConcurrentDownloads
  | _ => True

instance (h : Hub) : ∀ event, Decidable (Orderly h event)
  | .add params http bt _ =>
      inferInstanceAs (Decidable (if params.protocol = .http then
        opensThread h params http = true → h.netAllowed = true ∧
          (holdsSlot h params.url = true ∨ unknownKey h params.url = true ∧ slotFree h = true)
        else registersTask h params bt = true → slotFree h = true))
  | .resume .. => inferInstanceAs (Decidable (_ → _ = false))
  | .admission .. => inferInstanceAs (Decidable (_ = false))
  | .applyConfig _ => inferInstanceAs (Decidable (_ = true))
  | .pause .. | .delete .. | .schedule | .pauseNext _ | .maintain _ | .sweepHttp _ | .sweepTorrent
  | .worker .. | .alert _ | .libtorrent .. | .disk _ | .restart _ => isTrue trivial

def Covers (registry : Registry) (key : String) : Prop :=
  ∃ task ∈ registry, task.taskId = key ∧ task.taskProtocol = .http ∧ occupiesSlot task = true

/-- Every running thread has an active task, every active row its task, and there are at most `limit`
active tasks. -/
structure Limited (limit : Int) (h : Hub) : Prop where
  config : h.cfg.maxConcurrentDownloads = limit
  active : (activeCount h.registry : Int) ≤ limit
  thread : ∀ url, h.world.running url = true → Covers h.registry url
  row : ∀ key row, h.world.store.visible key = some row → occupiesSlot row = true →
    h.registry.find? key ≠ none
  network : h.admitting = true → h.netAllowed = true

theorem Limited.count_le {limit : Int} {h : Hub} (hlimited : Limited limit h) :
    (h.world.runningCount : Int) + h.registry.count (fun task =>
      occupiesSlot task && task.taskProtocol ≠ .http) ≤ limit := by
  have hthreads : h.world.runningCount ≤
      h.registry.count fun task => occupiesSlot task && task.taskProtocol = .http := by
    refine KeyedList.count_le_count fun c hmem hrunning => ?_
    obtain ⟨task, htask, hkey, hprotocol, hactive⟩ := hlimited.thread c.url
      (World.running_eq_true_iff.mpr ⟨c, KeyedList.find?_key hmem, hrunning⟩)
    exact ⟨task, htask, by simp [hprotocol, hactive], hkey⟩
  have hsplit := KeyedList.count_and_add_count_and_not h.registry occupiesSlot
    fun task => task.taskProtocol = .http
  have hactive := hlimited.active
  simp only [activeCount, ← hsplit] at hactive
  simp only [ne_eq, decide_not]
  omega

theorem active_of_change {h : Hub} {event : HubEvent} {task task' : Task}
    (hadmission : ∀ http bt now, event ≠ .admission http bt now) (hchange : Change h event task task')
    (hactive : occupiesSlot task' = true) : occupiesSlot task = true := by
  cases hchange with
  | same => exact hactive
  | broken message hprotocol =>
      simp [occupiesSlot, TorrentEngine.brokenTask, statusOccupiesSlot] at hactive
  | paused hkey hprotocol =>
      simp [occupiesSlot, TorrentEngine.pausedTask, statusOccupiesSlot] at hactive
  | pausedNext hprotocol =>
      simp [occupiesSlot, TorrentEngine.pausedTask, statusOccupiesSlot] at hactive
  | queued priorities hkey hdelete hprotocol =>
      simp [occupiesSlot, queuedTask, statusOccupiesSlot] at hactive
  | deleted hkey hprotocol => simp [occupiesSlot, TorrentEngine.deletedTask] at hactive
  | preempted time hslowest hcalled => exact absurd rfl (hadmission _ _ _)
  | dispatched time result hnext hcalled => exact absurd rfl (hadmission _ _ _)
  | alerted hdrift =>
      simp only [occupiesSlot, isDownloadTask, hdrift.isDelete, hdrift.taskProtocol] at hactive ⊢
      rcases hdrift.status with hsame | hfree
      · rwa [hsame] at hactive
      · simp [hfree] at hactive
  | written task => exact hactive

theorem slowestTask_engines (h : Hub) (http : DownloadEnv) (bt : TorrentEnv) (now : Int) :
    slowestTask (Hub.engines h.cfg http bt now) h.registry = slowestOf h := by
  have hsome : ∀ task, pausable (Hub.engines h.cfg http bt now) task =
      (!task.isDelete && task.status = .downloading && isDownloadTask task) := by
    intro task
    simp only [pausable, Hub.engines, Engines.engineOf]
    split <;> simp
  rw [slowestTask, slowestOf, funext hsome]

theorem full_of_paused {h : Hub} {http : DownloadEnv} {bt : TorrentEnv} {now : Int} {call : Call}
    (hmem : call ∈ (h.pass http bt now).1.calls) (hkind : call.kind = .pause) :
    h.next.any Task.force = true ∧ slotFree h = false := by
  have hfull : ∀ next : Task, nextTask (Hub.engines h.cfg http bt now) h.registry = some next →
      h.cfg.maxConcurrentDownloads ≤ activeCount h.registry → next.force = true →
      h.next.any Task.force = true ∧ slotFree h = false := by
    intro next hnext hfull hforce
    rw [Hub.nextTask_engines] at hnext
    simp [hnext, hforce, slotFree, hfull]
  have hpass := h.pass_cases http bt now
  rcases hout : h.pass http bt now with ⟨round, again⟩
  rw [hout] at hpass hmem
  rcases hpass with hpass | hidle
  · cases hpass with
    | pauseFailed next slowest result world hnext hlimit hforce => exact hfull next hnext hlimit hforce
    | paused next slowest result world time hnext hlimit hforce => exact hfull next hnext hlimit hforce
    | resumeFailed | resumed =>
        rw [List.mem_singleton.mp hmem] at hkind
        exact absurd hkind (by simp)
    | _ => exact absurd hmem List.not_mem_nil
  · rw [(Prod.mk.inj hidle).1] at hmem
    exact absurd hmem List.not_mem_nil

theorem active_of_running {h : Hub} {event : HubEvent} {task task' : Task}
    (horderly : Orderly h event) (hchange : Change h event task task')
    (hhttp : task.taskProtocol = .http) (hactive : occupiesSlot task = true)
    (hrunning : h.world.running task.taskId = true) : occupiesSlot task' = true := by
  have hnot : task.taskProtocol ≠ .torrent := by simp [hhttp]
  cases hchange with
  | same => exact hactive
  | broken message hprotocol => exact absurd hprotocol hnot
  | paused hkey hprotocol => exact absurd hprotocol hnot
  | pausedNext hprotocol => exact absurd hprotocol hnot
  | queued priorities hkey hdelete hprotocol =>
      rw [hkey, horderly (hprotocol hhttp)] at hrunning
      exact absurd hrunning (by simp)
  | deleted hkey hprotocol => exact absurd hprotocol hnot
  | preempted time hslowest hcalled =>
      obtain ⟨call, hmem, hkind, -⟩ := hcalled
      obtain ⟨hforced, hfull⟩ := full_of_paused hmem hkind
      rw [slowestTask_engines] at hslowest
      have hpreempts : preemptsThread h = true := by
        simp [preemptsThread, hforced, hfull, hslowest, hhttp, hrunning]
      rw [show preemptsThread h = false from horderly] at hpreempts
      exact absurd hpreempts (by simp)
  | dispatched time result hnext hcalled =>
      rw [occupiesSlot_of_admissible (nextTask_spec hnext).2.1] at hactive
      exact absurd hactive (by simp)
  | alerted hdrift => exact hdrift.other hnot ▸ hactive
  | written task => exact hactive

theorem Limited.covers {limit : Int} {h h' : Hub} {event : HubEvent} {source : Task → Prop}
    (hlimited : Limited limit h) (horderly : Orderly h event)
    (hevolves : h.registry.Evolves (Change h event) source h'.registry) {url : String}
    (hrunning : h.world.running url = true) : Covers h'.registry url := by
  obtain ⟨task, hmem, rfl, hhttp, hactive⟩ := hlimited.thread url hrunning
  obtain ⟨task', hfind, hchange⟩ := hevolves.find? (KeyedList.find?_key hmem)
  exact ⟨task', KeyedList.mem_of_find? hfind, KeyedList.key_of_find? hfind,
    hchange.taskProtocol.trans hhttp, active_of_running horderly hchange hhttp hactive hrunning⟩

theorem Limited.inactive_of_loaded {limit : Int} {h : Hub} {task : Task}
    (hlimited : Limited limit h) (hloaded : LoadedFrom h.world.store task)
    (hnone : h.registry.find? task.taskId = none) : occupiesSlot task = false := by
  obtain ⟨row, files, isRead, hrow, heq⟩ := hloaded
  have hsame : occupiesSlot task = occupiesSlot row := by
    rw [heq]
    rfl
  by_contra hactive
  exact hlimited.row task.taskId row hrow (by simpa [hsame] using hactive) hnone

end DownloadWrapper
