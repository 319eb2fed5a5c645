import DownloadWrapper.Core.Rooted

/-!
# Persistence

The maintenance writes a task's state to the older table and only the read mark to the tasks table,
which is the one that is read back. So what is read back is what the last `add_task` inserted.
-/

namespace DownloadWrapper

open Transition

structure TaskState where
  status : TaskStatus
  reason : Reason
  message : String
  totalSize : Int
  totalDone : Int
  magnetLink : String
  deriving DecidableEq

def stateOf (task : Task) : TaskState where
  status := task.status
  reason := task.reason
  message := task.message
  totalSize := task.totalSize
  totalDone := task.totalDone
  magnetLink := task.magnetLink

theorem stateOf_sameRow {row row' : Task} (h : SameRow row row') : stateOf row' = stateOf row := by
  obtain ⟨isRead, rfl⟩ := h
  rfl

/-- Everything that reads the tasks table finds the task in its state: `find_by_task_id`, `find_all`,
`find_by_status`, and the start of a later process. -/
structure Persisted (s : Store) (task : Task) : Prop where
  byId : (s.findByTaskId task.taskId false).map stateOf = some (stateOf task)
  listed : ∃ row ∈ s.findAll, row.taskId = task.taskId ∧ stateOf row = stateOf task
  byStatus : ∀ statuses, (∃ row ∈ s.findByStatus statuses,
    row.taskId = task.taskId ∧ stateOf row = stateOf task) ↔ task.status ∈ statuses
  requeued : ∀ now, (∃ task' ∈ startRegistry s now, task'.taskId = task.taskId) ↔
    task.status ∈ activeStatuses

structure Recorded (s : Store) : Prop where
  row : ∀ row ∈ s.tasks, ∃ record, s.inserted.find? (·.taskId = row.taskId) = some record ∧
    SameRow record row
  record : ∀ record ∈ s.inserted,
    record.isDelete = false ∧ record.taskId ≠ "" ∧ isDownloadTask record = true

theorem isDownloadTask_of_recordOf {cfg : ManagerConfig} {lib : TorrentLib} {params : TaskParams}
    {now : Int} {task : Task} (h : recordOf cfg lib params now = some task) :
    isDownloadTask task = true := by
  simp only [recordOf] at h
  split at h
  · rw [← Option.some.inj h]
    rfl
  · obtain ⟨source, -, rfl⟩ := Option.map_eq_some_iff.mp h
    rfl

theorem Recorded.of_sameRows {s s' : Store} (hrecorded : Recorded s) (hrows : SameRows s s') :
    Recorded s' := by
  refine ⟨fun row' hmem => ?_, hrows.inserted ▸ hrecorded.record⟩
  rw [hrows.inserted]
  rcases hrows.tasks.find?_of_find? (KeyedList.find?_key hmem) with
    ⟨row, hfind, hsame⟩ | ⟨-, row, hnone, -⟩
  · obtain ⟨record, hrecord, hrow⟩ := hrecorded.row row (KeyedList.mem_of_find? hfind)
    rw [KeyedList.key_of_find? hfind] at hrecord
    exact ⟨record, hrecord, hrow.trans hsame⟩
  · exact hnone.elim

theorem recorded_step {h h' : Hub} {event : HubEvent} (hrecorded : Recorded h.world.store)
    (hstep : h.step event = some h') : Recorded h'.world.store := by
  rcases rows_step hstep with hrows | ⟨task, store, hrecording, hrows⟩
  · exact hrecorded.of_sameRows hrows
  · refine Recorded.of_sameRows ?_ hrows
    obtain ⟨params, http, bt, now, rfl, hrecord⟩ := hrecording.event
    obtain ⟨granted, hreplaced⟩ := hrecording.replaced
    obtain ⟨hkey, -, rfl⟩ := Store.replaceTask_eq_some_iff.mp hreplaced
    refine ⟨fun row hmem => ?_, List.forall_mem_cons.mpr
      ⟨⟨isDelete_of_recordOf hrecord, hkey, isDownloadTask_of_recordOf hrecord⟩,
        hrecorded.record⟩⟩
    rcases KeyedList.mem_insert.mp hmem with rfl | ⟨hold, hne⟩
    · exact ⟨row, by simp, .refl row⟩
    · obtain ⟨record, hfind, hsame⟩ := hrecorded.row row hold
      exact ⟨record, by rw [List.find?_cons_of_neg (by simpa using Ne.symm hne)]; exact hfind, hsame⟩

theorem recorded_empty : Recorded {} := by
  constructor <;> intro task hmem <;> exact absurd hmem (by simp [KeyedList.mem_def, KeyedList.empty])

theorem persisted_iff {s : Store} {task row : Task} (hrow : s.visible task.taskId = some row)
    (hid : task.taskId ≠ "") (hdownload : isDownloadTask row = true) :
    Persisted s task ↔ stateOf row = stateOf task := by
  obtain ⟨hmem, hkey, hvisible⟩ := Store.visible_eq_some_iff.mp hrow
  have hbyId : (s.findByTaskId task.taskId false).map stateOf = some (stateOf row) := by
    rw [Store.findByTaskId_eq_visible hid, hrow]
    rfl
  constructor
  · intro hpersisted
    exact Option.some.inj (hbyId.symm.trans hpersisted.byId)
  · intro hstate
    have hstatus : row.status = task.status := congrArg TaskState.status hstate
    have hunique : ∀ other ∈ s.tasks, other.taskId = task.taskId → other = row :=
      fun other hother hsame => KeyedList.eq_of_key_eq hother hmem (hsame.trans hkey.symm)
    refine ⟨hbyId.trans (congrArg some hstate), ?_, fun statuses => ?_, fun now => ?_⟩
    · exact ⟨_, Store.mem_findAll.mpr ⟨row, hmem, hvisible, rfl⟩, hkey, hstate⟩
    · constructor
      · rintro ⟨found, hfound, hsame, hstate'⟩
        obtain ⟨other, hother, -, hin, rfl⟩ := Store.mem_findByStatus.mp hfound
        obtain rfl := hunique other hother hsame
        exact hstatus ▸ hin
      · intro hin
        exact ⟨_, Store.mem_findByStatus.mpr ⟨row, hmem, hvisible, hstatus ▸ hin, rfl⟩, hkey, hstate⟩
    · constructor
      · rintro ⟨found, hfound, hsame⟩
        obtain ⟨other, hother, -, hin, -, rfl⟩ := mem_startRegistry.mp hfound
        rw [requeue_taskId] at hsame
        obtain rfl := hunique other hother hsame
        exact hstatus ▸ hin
      · intro hin
        refine ⟨_, mem_startRegistry.mpr ⟨row, hmem, hvisible, hstatus ▸ hin, hdownload, rfl⟩, ?_⟩
        rw [requeue_taskId]
        exact hkey

/-- **When the database agrees with the registry.** After a maintenance pass, what is read back of a
task that is not deleted is its state exactly when that is still the state of the record the last
`add_task` inserted. -/
theorem persisted_maintain_iff {cfg : ManagerConfig} {httpCfg : HttpConfig} {fs : Fs}
    {start now : Int} {h h' : Hub} {task : Task}
    (hreach : Reaches Hub.step anyEvent (startHub cfg httpCfg {} fs start) h)
    (hmem : task ∈ h.registry) (_halive : task.isDelete = false)
    (hmaintain : h.step (.maintain now) = some h') :
    Persisted h'.world.store task ↔
      ∃ record, h.world.store.inserted.find? (·.taskId = task.taskId) = some record ∧
        stateOf record = stateOf task := by
  have hrecorded : Recorded h.world.store :=
    hreach.invariant (fun _ _ _ hinv _ hstep => recorded_step hinv hstep) recorded_empty
  have hrows : SameRows h.world.store h'.world.store := by
    rcases rows_step hmaintain with hrows | ⟨record, store, hrecording, -⟩
    · exact hrows
    · obtain ⟨params, http, bt, time, heq, -⟩ := hrecording.event
      exact absurd heq (by simp)
  obtain ⟨row, hrow⟩ := Option.isSome_iff_exists.mp ((rooted_of_started hreach).row task hmem)
  obtain ⟨hstored, hkey, -⟩ := Store.visible_eq_some_iff.mp hrow
  obtain ⟨record, hfind, hsame⟩ := hrecorded.row row hstored
  obtain ⟨-, hid, hdownload⟩ := hrecorded.record record (List.mem_of_find?_eq_some hfind)
  have hrecordKey : record.taskId = row.taskId := by simpa using List.find?_some hfind
  obtain ⟨row', hrow', hsame'⟩ := hrows.visible hrow
  have hdownload' : isDownloadTask row' = true := by
    obtain ⟨isRead, rfl⟩ := hsame.trans hsame'
    exact hdownload
  rw [persisted_iff hrow' (hkey ▸ hrecordKey ▸ hid) hdownload', stateOf_sameRow (hsame.trans hsame'),
    ← hkey, hfind]
  simp

/-- A download that was just added is read back as it is. -/
theorem persisted_maintain_iff_added :
    ∃ h h' : Hub, firstHub.step (.add { url := "u" } {} noTorrents 0) = some h ∧
      h.step (.maintain 1) = some h' ∧
      ∃ task ∈ h.registry, task.taskId = "u" ∧ Persisted h'.world.store task := by
  have hrun : ((firstHub.step (.add { url := "u" } {} noTorrents 0)).bind fun h =>
      (h.step (.maintain 1)).map fun _ =>
        (h.registry.entries, (h.world.store.inserted.find? (·.taskId = "u")).map stateOf)) =
      some ([HttpEngine.newTask { url := "u" } "/d" 0],
        some (stateOf (HttpEngine.newTask { url := "u" } "/d" 0))) := by
    decide +kernel
  simp only [Option.bind_eq_some_iff, Option.map_eq_some_iff, Prod.mk.injEq] at hrun
  obtain ⟨h, hadd, h', hmaintain, hentries, hinserted⟩ := hrun
  have hmem : HttpEngine.newTask { url := "u" } "/d" 0 ∈ h.registry :=
    KeyedList.mem_def.mpr (hentries ▸ List.mem_singleton_self _)
  exact ⟨h, h', hadd, hmaintain, _, hmem, rfl,
    (persisted_maintain_iff (Relation.ReflTransGen.single ⟨_, trivial, hadd⟩) hmem rfl
      hmaintain).mpr hinserted⟩

/-- A download is added, and resumed by the user: the registry queues it, and the row that is read
back after the maintenance still has it downloading. -/
theorem not_persisted_resumedDownload :
    ∃ h h' : Hub, Reaches Hub.step anyEvent firstHub h ∧ h.step (.maintain 1) = some h' ∧
      ∃ task ∈ h'.registry, task.isDelete = false ∧ task.status = .queued ∧
        ¬ Persisted h'.world.store task := by
  have hrun : ((firstHub.step (.add { url := "u" } {} noTorrents 0)).bind fun h₁ =>
      (h₁.step (.resume { url := "u" } 0)).bind fun h => (h.step (.maintain 1)).map fun h' =>
        ((h'.registry.find? "u").map fun task => (task.taskId, task.isDelete, task.status),
          (h'.world.store.findByTaskId "u" false).map Task.status)) =
      some (some ("u", false, .queued), some .downloading) := by
    decide +kernel
  simp only [Option.bind_eq_some_iff, Option.map_eq_some_iff, Prod.mk.injEq] at hrun
  obtain ⟨h₁, hadd, h, hresume, h', hmaintain, ⟨task, htask, hid, halive, hstatus⟩, row, hrow,
    hrowStatus⟩ := hrun
  refine ⟨h, h', (Relation.ReflTransGen.single ⟨_, trivial, hadd⟩).tail ⟨_, trivial, hresume⟩,
    hmaintain, task, KeyedList.mem_of_find? htask, halive, hstatus, fun hpersisted => ?_⟩
  have hread := hpersisted.byId
  rw [hid, hrow] at hread
  have hsame : row.status = task.status := congrArg TaskState.status (Option.some.inj hread)
  rw [hrowStatus, hstatus] at hsame
  exact absurd hsame (by decide)

end DownloadWrapper
