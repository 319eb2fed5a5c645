import DownloadWrapper.Core.Scheduler
import DownloadWrapper.Store.TaskStore

/-!
# The registry over the database

The registry is filled from the tasks table: at the start with the tasks that were active, later with
any task that is asked for. What is in it is never replaced by a row.
-/

namespace DownloadWrapper

/-- `get_engine_task`, as an effect: the task of `key` is in the registry afterwards, if it is
anywhere. -/
def loadTask (store : Store) (key : String) (registry : Registry) : Registry :=
  match registry.find? key with
  | some _ => registry
  | none =>
      match store.findByTaskId key false with
      | none => registry
      | some row => registry.insert { row with files := store.filesOf key }

/-- `TorrentEngine::get_task`, and an update of what it finds. -/
def updateTorrentTask (store : Store) (key : String) (f : Task → Task)
    (hf : ∀ task, (f task).taskId = task.taskId) (registry : Registry) : Registry :=
  (loadTask store key registry).modify key
    (fun task => if task.taskProtocol = .torrent then f task else task) fun task => by
      split
      · exact hf task
      · rfl

/-- `TorrentEngine::get_task`: the task itself. -/
def findTorrentTask (key : String) (registry : Registry) : Option Task :=
  (registry.find? key).filter fun task => task.taskProtocol = .torrent

def activeStatuses : List TaskStatus := [.resolving, .queued, .downloading]

def requeue (store : Store) (now : Int) (row : Task) : Task :=
  let row :=
    if row.status = .queued then row
    else { row with status := .queued, modifiedAt := now, dirty := true }
  { row with files := store.filesOf row.taskId }

def startRegistry (store : Store) (now : Int) : Registry :=
  ((store.findByStatus activeStatuses).filter isDownloadTask).foldl
    (fun registry row => registry.insert (requeue store now row)) .empty

def erasable (task : Task) : Bool :=
  task.isDelete && !task.dirty &&
    (task.taskProtocol ≠ .torrent || (task.needDeleteSession && task.needDeleteFile))

/-- The maintenance pass: what is dirty is written, the deleted to the older tables, the rest to
`file_records` and its read mark to `tasks`. -/
def persistTask (now : Int) (store : Store) (task : Task) : Store :=
  if ¬ task.dirty then store
  else if task.isDelete then
    if task.taskProtocol = .local then
      if task.fullPath = "" then store else store.deleteFileRecordByPath task.fullPath
    else store.remove task.clientId task.taskProtocol task.taskId
  else
    let store := store.updateFileRecord task now
    if task.taskProtocol = .local then store else store.updateRead task.taskId task.isRead

def maintain (now : Int) (registry : Registry) (store : Store) : Registry × Store :=
  (registry.map (fun task => { task with dirty := false }) fun _ => rfl,
    registry.entries.foldl (persistTask now) store)

theorem taskId_of_findByTaskId {store : Store} {key : String} {includeDeleted : Bool} {task : Task}
    (h : store.findByTaskId key includeDeleted = some task) : task.taskId = key := by
  rw [Store.findByTaskId] at h
  split at h
  · simp at h
  · obtain ⟨row, hrow, rfl⟩ := Option.map_eq_some_iff.mp h
    exact (KeyedList.find?_eq_some_iff.mp (Option.filter_eq_some_iff.mp hrow).1).2

section Load

variable {store : Store} {key : String} {registry : Registry}

theorem find?_loadTask_self :
    (loadTask store key registry).find? key =
      (registry.find? key).or ((store.findByTaskId key false).map fun row =>
        { row with files := store.filesOf key }) := by
  rw [loadTask]
  cases hfind : registry.find? key with
  | some task => simp [hfind]
  | none =>
      cases hrow : store.findByTaskId key false with
      | none => simp [hfind]
      | some row =>
          obtain rfl := taskId_of_findByTaskId hrow
          exact KeyedList.find?_insert_self registry { row with files := store.filesOf row.taskId }

theorem find?_loadTask_of_ne {key' : String} (hne : key' ≠ key) :
    (loadTask store key registry).find? key' = registry.find? key' := by
  rw [loadTask]
  split
  · rfl
  split
  · rfl
  next row hrow =>
    have hkey := taskId_of_findByTaskId hrow
    exact KeyedList.find?_insert_of_ne registry (hkey ▸ hne)

theorem loadTask_of_find? {task : Task} (h : registry.find? key = some task) :
    loadTask store key registry = registry := by
  rw [loadTask, h]

theorem loadTask_loadTask : loadTask store key (loadTask store key registry) =
    loadTask store key registry := by
  cases hfind : (loadTask store key registry).find? key with
  | some task => exact loadTask_of_find? hfind
  | none =>
      rw [find?_loadTask_self, Option.or_eq_none_iff, Option.map_eq_none_iff] at hfind
      simp only [loadTask, hfind]

end Load

theorem requeue_taskId (store : Store) (now : Int) (row : Task) :
    (requeue store now row).taskId = row.taskId := by
  simp only [requeue]
  split <;> rfl

/-- **What a start queues**: the rows of active download tasks, and nothing else. -/
theorem mem_startRegistry {store : Store} {now : Int} {task : Task} :
    task ∈ startRegistry store now ↔
      ∃ row ∈ store.tasks, row.isDelete = false ∧ row.status ∈ activeStatuses ∧
        isDownloadTask row = true ∧ task = requeue store now (readTask row) := by
  -- rows of one table have distinct keys, so no insertion displaces another
  have hfold : ∀ (rows : List Task) (registry : Registry), (rows.map Task.taskId).Nodup →
      (∀ row ∈ rows, registry.find? row.taskId = none) →
      ∀ task,
        task ∈ rows.foldl (fun registry row => registry.insert (requeue store now row)) registry ↔
          task ∈ registry ∨ ∃ row ∈ rows, task = requeue store now row := by
    intro rows
    induction rows with
    | nil => simp
    | cons row rows ih =>
        intro registry hnodup hfresh task
        rw [List.map_cons, List.nodup_cons] at hnodup
        have hnew := hfresh row List.mem_cons_self
        have hfresh' : ∀ other ∈ rows,
            (registry.insert (requeue store now row)).find? other.taskId = none := by
          intro other hother
          have hne : other.taskId ≠ (requeue store now row).taskId := by
            rw [requeue_taskId]
            exact fun h => hnodup.1 (h ▸ List.mem_map_of_mem hother)
          rw [KeyedList.find?_insert_of_ne _ hne]
          exact hfresh other (List.mem_cons_of_mem row hother)
        have hkept : ∀ old ∈ registry, old.taskId ≠ (requeue store now row).taskId := by
          rw [requeue_taskId]
          exact KeyedList.find?_eq_none_iff.mp hnew
        rw [List.foldl_cons, ih _ hnodup.2 hfresh', KeyedList.mem_insert]
        simp only [List.exists_mem_cons_iff]
        constructor
        · rintro ((h | ⟨h, -⟩) | h)
          · exact Or.inr (Or.inl h)
          · exact Or.inl h
          · exact Or.inr (Or.inr h)
        · rintro (h | h | h)
          · exact Or.inl (Or.inr ⟨h, hkept task h⟩)
          · exact Or.inl (Or.inl h)
          · exact Or.inr h
  have hrows : (((store.findByStatus activeStatuses).filter isDownloadTask).map
      Task.taskId).Nodup := by
    refine List.Nodup.sublist (List.filter_sublist.map _) ?_
    have hread : Task.taskId ∘ readTask = Task.taskId := rfl
    rw [Store.findByStatus, Store.newestFirst, List.map_map, hread]
    refine (List.Perm.nodup_iff ((List.perm_insertionSort _ _).map _)).mpr ?_
    exact store.tasks.nodup.sublist (List.filter_sublist.map _)
  rw [startRegistry, hfold _ _ hrows fun _ _ => KeyedList.find?_empty _]
  simp only [List.mem_filter, Store.mem_findByStatus]
  constructor
  · rintro (h | ⟨_, ⟨⟨row, hmem, hvisible, hactive, rfl⟩, hdownload⟩, rfl⟩)
    · simp [KeyedList.mem_def, KeyedList.empty] at h
    · exact ⟨row, hmem, hvisible, hactive, hdownload, rfl⟩
  · rintro ⟨row, hmem, hvisible, hactive, hdownload, rfl⟩
    exact Or.inr ⟨_, ⟨⟨row, hmem, hvisible, hactive, rfl⟩, hdownload⟩, rfl⟩

end DownloadWrapper
