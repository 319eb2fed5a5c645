import DownloadWrapper.Core.Rooted

/-!
# Adding a task again

`add_task` puts a new record into the tasks table, and looks the task up in the registry before and
after. A task that the registry had, or that the first lookup put there, stays what it was.
-/

namespace DownloadWrapper

open Transition

def Hub.engineTask (h : Hub) (key : String) : Option Task :=
  (loadTask h.world.store key h.registry).find? key

structure Restates (task record : Task) : Prop where
  status : task.status = record.status
  savePath : task.savePath = record.savePath
  force : task.force = record.force
  priority : task.priority = record.priority
  isDelete : task.isDelete = record.isDelete
  createdAt : task.createdAt = record.createdAt
  files : record.taskProtocol = .http → task.files = []

namespace Store

theorem filesOf_replaceTask_self {task : Task} {granted : Bool} {s s' : Store}
    (h : s.replaceTask task granted = some s') : s'.filesOf task.taskId = [] := by
  obtain ⟨-, -, rfl⟩ := replaceTask_eq_some_iff.mp h
  have hnone : (s.taskFile.filter (·.taskId ≠ task.taskId)).entries.filter
      (fun row => row.taskId = task.taskId && !row.isDelete) = [] := by
    rw [KeyedList.filter, List.filter_filter, List.filter_eq_nil_iff]
    intro file _
    by_cases hid : file.taskId = task.taskId <;> simp [hid]
  rw [filesOf, hnone]
  rfl

theorem findByTaskId_replaceTask_self {task : Task} {granted : Bool} {s s' : Store}
    (h : s.replaceTask task granted = some s') (hdelete : task.isDelete = false) :
    s'.findByTaskId task.taskId false = some (readTask task) := by
  have hkey := (replaceTask_eq_some_iff.mp h).1
  rw [findByTaskId_eq_visible hkey, visible_replaceTask_self h hdelete, Option.map_some]

end Store

/-- The lookups before and after a replacement, and the next one, end in the task there was, or else in the record. -/
theorem find?_loadTask_replaced {record : Task} {granted : Bool} {s s' : Store} (registry : Registry)
    (h : s.replaceTask record granted = some s') (hdelete : record.isDelete = false) :
    (loadTask s' record.taskId (loadTask s' record.taskId
        (loadTask s record.taskId registry))).find? record.taskId =
      ((loadTask s record.taskId registry).find? record.taskId).or
        (some { readTask record with files := [] }) := by
  rw [loadTask_loadTask, find?_loadTask_self, Store.findByTaskId_replaceTask_self h hdelete,
    Store.filesOf_replaceTask_self h, Option.map_some]

theorem restates_readTask (record : Task) : Restates { readTask record with files := [] } record :=
  ⟨rfl, rfl, rfl, rfl, rfl, rfl, fun _ => rfl⟩

theorem exists_restates_or_iff {old : Option Task} (record : Task) :
    (∃ task, old.or (some { readTask record with files := [] }) = some task ∧ Restates task record) ↔
      ∀ task, old = some task → Restates task record := by
  cases old with
  | none => simp [restates_readTask record]
  | some task => simp

namespace Hub

variable {h : Hub} {params : TaskParams} {http : DownloadEnv} {bt : TorrentEnv} {now : Int}
  {record : Task}

theorem ne_cons_inserted (s : Store) : s.inserted ≠ record :: s.inserted := by
  intro heq
  exact absurd (congrArg List.length heq) (by simp)

theorem engineTask_addTask (hsuccess : (h.addTask params http bt now).1.code = .none)
    (hreplaced : (h.addTask params http bt now).2.world.store.inserted =
      record :: h.world.store.inserted) :
    (h.addTask params http bt now).2.engineTask record.taskId =
      (h.engineTask record.taskId).or (some { readTask record with files := [] }) := by
  by_cases hprotocol : params.protocol = .http
  · simp only [addTask, put, hprotocol, if_true, HttpEngine.addTask, engineTask] at hsuccess hreplaced ⊢
    have hstarted := HttpEngine.started_startDownload h.cfg http now params none true h.registry
      h.world
    rcases hout : HttpEngine.startDownload h.cfg http now params none true h.registry h.world with
      ⟨result, registry', w'⟩
    rw [hout] at hstarted hsuccess hreplaced
    simp only at hstarted hsuccess hreplaced ⊢
    cases hstarted with
    | refused hcode => exact absurd (hcode.symm.trans hsuccess) (by decide)
    | busy => exact absurd hreplaced (ne_cons_inserted _)
    | undone fs hcode => exact absurd (hcode.symm.trans hsuccess) (by decide)
    | recorded worker hurl hpath hreplace hdeleting hidle hfs hstore =>
        have hinserted := (Store.replaceTask_eq_some_iff.mp hstore).2.2
        rw [hinserted] at hreplaced
        obtain rfl := (List.cons.inj hreplaced).1
        exact find?_loadTask_replaced h.registry hstore rfl
    | relaunched fs worker hreplace => cases hreplace
  · simp only [addTask, put, hprotocol, if_false, engineTask] at hsuccess hreplaced ⊢
    have hadded := TorrentEngine.added_addTask h.cfg bt now params h.registry h.world
    rcases hout : TorrentEngine.addTask h.cfg bt now params h.registry h.world with
      ⟨result, registry', w'⟩
    rw [hout] at hadded hsuccess hreplaced
    simp only at hadded hsuccess hreplaced ⊢
    cases hadded with
    | kept hregistry => exact absurd hreplaced (ne_cons_inserted _)
    | recorded infoHash name hsource hstore hw hregistry =>
        rcases hregistry with ⟨-, rfl⟩ | ⟨message, -, hcode, -⟩
        · have hinserted := (Store.replaceTask_eq_some_iff.mp hstore).2.2
          rw [hw.1, hinserted] at hreplaced
          obtain rfl := (List.cons.inj hreplaced).1
          rw [hw.1]
          exact find?_loadTask_replaced h.registry hstore rfl
        · exact absurd hsuccess hcode

/-- **Re-adding**: whatever the registry and the database are, after an `add_task` that succeeds and
replaces the record the task of the key agrees with the record exactly when there was no task of the
key to be found before, or it agreed already. -/
theorem restates_engineTask_iff (hsuccess : (h.addTask params http bt now).1.code = .none)
    (hreplaced : (h.addTask params http bt now).2.world.store.inserted =
      record :: h.world.store.inserted) :
    (∃ task, (h.addTask params http bt now).2.engineTask record.taskId = some task ∧
        Restates task record) ↔
      ∀ task, h.engineTask record.taskId = some task → Restates task record := by
  rw [engineTask_addTask hsuccess hreplaced]
  exact exists_restates_or_iff record

end Hub

def firstLink : TaskParams := { url := "u", savePath := "/d" }

/-- It is added and deleted, its thread ends, and it is added again within the millisecond: the registry
still has the task, and the task agrees with the new record. -/
theorem restates_engineTask_iff_again :
    ∃ h task, Reaches Hub.step anyEvent firstHub h ∧ (h.engineTask "u").isSome ∧
      h.world.store.inserted.map Task.taskId = ["u"] ∧
      (h.addTask firstLink {} noTorrents 7).2.engineTask "u" = some task ∧
      Restates task (HttpEngine.newTask firstLink "/d" 7) := by
  let record := HttpEngine.newTask firstLink "/d" 7
  have hplayed : (play Hub.step anyEvent firstHub
      [.add firstLink {} noTorrents 7, .delete firstLink noTorrents,
        .worker "u" (.enter true fun _ => true) 7]).map (fun h =>
      let out := h.addTask firstLink {} noTorrents 7
      (h.engineTask "u", h.world.store.inserted.map Task.taskId, out.1.code,
        decide (out.2.world.store.inserted = record :: h.world.store.inserted))) =
      some (some { readTask record with files := [] }, ["u"], .none, true) := by decide +kernel
  obtain ⟨h, hrun, hvalues⟩ := Option.map_eq_some_iff.mp hplayed
  simp only [Prod.mk.injEq, decide_eq_true_eq] at hvalues
  obtain ⟨hold, hinserted, hsuccess, hreplaced⟩ := hvalues
  obtain ⟨task, hfind, hrestates⟩ := (Hub.restates_engineTask_iff hsuccess hreplaced).mpr
    fun task hfind => Option.some.inj (hold.symm.trans hfind) ▸ restates_readTask record
  exact ⟨h, task, reaches_of_play hrun, Option.isSome_of_eq_some hold, hinserted, hfind, hrestates⟩

/-- The process was restarted with the download in the table: it waits in the registry under the old
path, and a new `add_task` leaves it so. -/
theorem not_restates_restarted :
    ∃ (h : Hub) (record task : Task), Reaches Hub.step (fun _ _ => True) firstHub h ∧
      (h.addTask { firstLink with savePath := "/e" } {} noTorrents 2).1.code = .none ∧
      (h.addTask { firstLink with savePath := "/e" } {} noTorrents 2).2.world.store.inserted =
        record :: h.world.store.inserted ∧
      (h.addTask { firstLink with savePath := "/e" } {} noTorrents 2).2.engineTask record.taskId =
        some task ∧
      task.status = .queued ∧ record.status = .downloading ∧ task.savePath = "/d" ∧
      record.savePath = "/e" ∧ ¬ Restates task record := by
  let record := HttpEngine.newTask { firstLink with savePath := "/e" } "/e" 2
  have hrun : ((play Hub.step (fun _ _ => True) firstHub
      [.add firstLink {} noTorrents 0, .restart 1]).map fun h =>
        let out := h.addTask { firstLink with savePath := "/e" } {} noTorrents 2
        (out.1.code, decide (out.2.world.store.inserted = record :: h.world.store.inserted),
          (out.2.engineTask "u").map fun task => (task.status, task.savePath))) =
      some (.none, true, some (.queued, "/d")) := by
    decide +kernel
  simp only [Option.map_eq_some_iff, Prod.mk.injEq, decide_eq_true_eq] at hrun
  obtain ⟨h, hplay, hsuccess, hreplaced, task, hfind, hstatus, hpath⟩ := hrun
  refine ⟨h, record, task, reaches_of_play hplay, hsuccess, hreplaced, hfind, hstatus, rfl, hpath,
    rfl, fun hrestates => ?_⟩
  exact absurd (hstatus.symm.trans hrestates.status) (by decide)

end DownloadWrapper
