import DownloadWrapper.Lib.Savepoints
import DownloadWrapper.Store.Rows
import DownloadWrapper.Store.TaskRow
import Mathlib.Data.List.Find

/-!
# Replacing a record, statement by statement

`replace_task` as the SQL it sends: two deletions and an insertion under a savepoint. What the other
modules take as one step that is done or refused is shown to be one.
-/

namespace DownloadWrapper

structure Tables where
  tasks : KeyedList TaskRow.taskId := .empty
  taskFile : KeyedList TaskFile.key := .empty

inductive TableName where
  | tasks
  | taskFile
  deriving DecidableEq

/-- `DELETE FROM table WHERE task_id=?`. -/
def Tables.delete (table : TableName) (taskId : String) (tables : Tables) : Tables :=
  match table with
  | .tasks => { tables with tasks := tables.tasks.erase taskId }
  | .taskFile => { tables with taskFile := tables.taskFile.filter (·.taskId ≠ taskId) }

/-- `INSERT INTO tasks`: the primary key must be new. -/
def Tables.insert (row : TaskRow) (tables : Tables) : Option Tables :=
  if (tables.tasks.find? row.taskId).isSome then none
  else some { tables with tasks := tables.tasks.insert row }

/-- The calls of SQLite that can fail. -/
inductive SqlStep where
  | savepoint
  | prepareDelete (table : TableName)
  | stepDelete (table : TableName)
  | prepareInsert
  | stepInsert
  | release
  | rollbackTo
  | releaseAfterwards
  deriving DecidableEq

namespace TaskStore

def deleteForReadd (replies : SqlStep → Reply) (table : TableName) (taskId : String) :
    List (Reply × (Tables → Option Tables)) :=
  [(replies (.prepareDelete table), some),
    (replies (.stepDelete table), fun tables => some (tables.delete table (cStr taskId)))]

def insertTask (replies : SqlStep → Reply) (task : Task) :
    List (Reply × (Tables → Option Tables)) :=
  [(replies .prepareInsert, some), (replies .stepInsert, Tables.insert (.bind task))]

/-- `ROLLBACK TO replace_task; RELEASE replace_task`. -/
def undo (replies : SqlStep → Reply) (c : Connection Tables) : Connection Tables :=
  (c.runAll [(replies .rollbackTo, Connection.rollbackTo "replace_task"),
    (replies .releaseAfterwards, Connection.release "replace_task")]).2

def replacement (replies : SqlStep → Reply) (task : Task) :
    List (Reply × (Tables → Option Tables)) :=
  deleteForReadd replies .tasks task.taskId ++ deleteForReadd replies .taskFile task.taskId ++
    insertTask replies task

/-- `replace_task` on an open database. -/
def replaceOn (replies : SqlStep → Reply) (task : Task) (c : Connection Tables) :
    Bool × Connection Tables :=
  if task.taskId = "" then (false, c)
  else
    match Connection.run (replies .savepoint) (Connection.savepoint "replace_task") c with
    | (false, c) => (false, c)
    | (true, c) =>
        match c.runAll (Connection.updates (replacement replies task)) with
        | (false, c) => (false, undo replies c)
        | (true, c) =>
            match Connection.run (replies .release) (Connection.release "replace_task") c with
            | (false, c) => (false, undo replies c)
            | (true, c) => (true, c)

def replaceTask (replies : SqlStep → Reply) (task : Task) :
    Option (Connection Tables) → Bool × Option (Connection Tables)
  | none => (false, none)
  | some c => ((replaceOn replies task c).1, some (replaceOn replies task c).2)

def findByTaskId (taskId : String) (includeDeleted : Bool) :
    Option (Connection Tables) → Option Task
  | none => none
  | some c =>
      if taskId = "" then none
      else
        ((c.data.tasks.find? (cStr taskId)).filter fun row =>
          row.isDelete = 0 || includeDeleted).map TaskRow.readTask

/-! ### All or nothing -/

/-- At most one call fails; and it takes the transaction with it only where `replace_task` began the
transaction. -/
structure SingleFailure (replies : SqlStep → Reply) (c : Connection Tables) : Prop where
  single : ∀ step other, replies step ≠ .granted → replies other ≠ .granted → step = other
  lost : ∀ step, replies step = .lost → c.savepoints = []

def replaced (task : Task) (tables : Tables) : Tables where
  tasks := tables.tasks.insert (.bind task)
  taskFile := tables.taskFile.filter (·.taskId ≠ cStr task.taskId)

theorem foldlM_replacement (replies : SqlStep → Reply) (task : Task) (tables : Tables) :
    (replacement replies task).foldlM (fun tables step => step.2 tables) tables =
      some (replaced task tables) := by
  have hkey : (TaskRow.bind task).taskId = cStr task.taskId := rfl
  simp [replacement, deleteForReadd, insertTask, Tables.delete, Tables.insert, replaced, hkey,
    ← KeyedList.insert_erase_self tables.tasks (TaskRow.bind task)]

variable {replies : SqlStep → Reply} {task : Task} {c c' : Connection Tables}

theorem undo_of_inside (h : Connection.Inside "replace_task" c c')
    (hback : replies .rollbackTo = .granted) (hclose : replies .releaseAfterwards = .granted) :
    undo replies c' = c := by
  rw [undo, hback, hclose]
  exact h.rollback

theorem exists_of_mem_replacement {step : Reply × (Tables → Option Tables)}
    (hstep : step ∈ replacement replies task) :
    ∃ call, step.1 = replies call ∧ call ≠ .rollbackTo ∧ call ≠ .releaseAfterwards := by
  simp only [replacement, deleteForReadd, insertTask, List.cons_append, List.nil_append,
    List.mem_cons, List.not_mem_nil, or_false] at hstep
  rcases hstep with rfl | rfl | rfl | rfl | rfl | rfl <;>
    exact ⟨_, rfl, nofun, nofun⟩

theorem SingleFailure.undo (h : SingleFailure replies c) {call : SqlStep}
    (hfailed : replies call ≠ .granted) (hback : call ≠ .rollbackTo)
    (hclose : call ≠ .releaseAfterwards) (hinside : Connection.Inside "replace_task" c c') :
    undo replies c' = c := by
  refine undo_of_inside hinside ?_ ?_
  · by_contra hother
    exact hback (h.single _ _ hfailed hother)
  · by_contra hother
    exact hclose (h.single _ _ hfailed hother)

theorem run_savepoint (h : SingleFailure replies c) {ok : Bool}
    (hrun : Connection.run (replies .savepoint) (Connection.savepoint "replace_task") c = (ok, c')) :
    if ok then Connection.OpenOn "replace_task" c c' ∧ c'.data = c.data else c' = c := by
  cases hanswer : replies .savepoint with
  | granted =>
      rw [hanswer] at hrun
      obtain ⟨rfl, rfl⟩ := Prod.mk.inj hrun
      exact ⟨rfl, rfl⟩
  | refused =>
      rw [hanswer] at hrun
      obtain ⟨rfl, rfl⟩ := Prod.mk.inj hrun
      rfl
  | lost =>
      rw [hanswer] at hrun
      obtain ⟨rfl, rfl⟩ := Prod.mk.inj hrun
      have hnone := h.lost _ hanswer
      obtain ⟨data, savepoints⟩ := c
      obtain rfl : savepoints = [] := hnone
      rfl

theorem run_release (h : SingleFailure replies c) (hopen : Connection.OpenOn "replace_task" c c')
    {ok : Bool} {c'' : Connection Tables}
    (hrun : Connection.run (replies .release) (Connection.release "replace_task") c' = (ok, c'')) :
    if ok then c'' = { c with data := c'.data } else TaskStore.undo replies c'' = c := by
  cases hanswer : replies .release with
  | granted =>
      rw [hanswer, Connection.run, hopen.release] at hrun
      obtain ⟨rfl, rfl⟩ := Prod.mk.inj hrun
      rfl
  | refused =>
      rw [hanswer] at hrun
      obtain ⟨rfl, rfl⟩ := Prod.mk.inj hrun
      have hfailed : replies .release ≠ .granted := by simp [hanswer]
      exact h.undo hfailed (by decide) (by decide) (Or.inl hopen)
  | lost =>
      rw [hanswer] at hrun
      obtain ⟨rfl, rfl⟩ := Prod.mk.inj hrun
      have hnone := h.lost _ hanswer
      have hfailed : replies .release ≠ .granted := by simp [hanswer]
      exact h.undo hfailed (by decide) (by decide) (Or.inr ⟨hnone, hopen.abandon hnone⟩)

theorem replaceOn_cases (task : Task) (h : SingleFailure replies c) :
    replaceOn replies task c = (false, c) ∨
      task.taskId ≠ "" ∧
        replaceOn replies task c = (true, { c with data := replaced task c.data }) := by
  by_cases hkey : task.taskId = ""
  · exact Or.inl (if_pos hkey)
  rw [replaceOn, if_neg hkey]
  split
  next c₁ hbegin => exact Or.inl (congrArg _ (run_savepoint h hbegin))
  next c₁ hbegin =>
    obtain ⟨hopen, hdata⟩ := run_savepoint h hbegin
    have hinside := hopen.runAll_updates fun step (hstep : step ∈ replacement replies task) hlost => by
      obtain ⟨call, hcall, -⟩ := exists_of_mem_replacement hstep
      exact h.lost call (hcall ▸ hlost)
    by_cases hgranted : ∀ step ∈ replacement replies task, step.1 = .granted
    · rw [Connection.runAll_updates hgranted (foldlM_replacement replies task c₁.data)]
      have hopen' : Connection.OpenOn "replace_task" c
          { c₁ with data := replaced task c₁.data } := hopen
      simp only
      split
      next c₂ hrelease => exact Or.inl (congrArg _ (run_release h hopen' hrelease))
      next c₂ hrelease =>
        refine Or.inr ⟨hkey, congrArg _ ?_⟩
        rw [← hdata]
        exact run_release h hopen' hrelease
    · push Not at hgranted
      obtain ⟨step, hstep, hfailed⟩ := hgranted
      obtain ⟨call, hcall, hback, hclose⟩ := exists_of_mem_replacement hstep
      have hundo := h.undo (hcall ▸ hfailed) hback hclose hinside
      split
      next c₂ hbody =>
        rw [hbody] at hundo
        exact Or.inl (congrArg _ hundo)
      next c₂ hbody =>
        exact absurd (Connection.granted_of_runAll (congrArg Prod.fst hbody)
          (step.1, Connection.update step.2) (List.mem_map_of_mem hstep)) hfailed

/-! ### What is there afterwards -/

theorem find?_replaced (task : Task) (tables : Tables) :
    (replaced task tables).tasks.find? (cStr task.taskId) = some (.bind task) :=
  KeyedList.find?_insert_self tables.tasks (TaskRow.bind task)

theorem findByTaskId_replaced {task : Task} (hkey : task.taskId ≠ "") (hstorable : task.Storable)
    (c : Connection Tables) :
    findByTaskId task.taskId true (some { c with data := replaced task c.data }) =
      some (DownloadWrapper.readTask task) := by
  rw [findByTaskId, if_neg hkey, find?_replaced]
  simp [Option.filter_some, TaskRow.readTask_bind hstorable]

/-- Replacing a record does nothing, or it leaves exactly one row of the id, no file row of it, all
other rows as they were, and the record as what is found under the id. -/
theorem replaceTask_atomic {replies : SqlStep → Reply} {task : Task}
    (hkey : task.taskId ≠ "") (hstorable : task.Storable) {db db' : Option (Connection Tables)}
    (hsingle : ∀ c ∈ db, SingleFailure replies c) {ok : Bool}
    (hcall : replaceTask replies task db = (ok, db')) :
    if ok then
      ∃ c c', db = some c ∧ db' = some c' ∧
        c'.data.tasks.entries.filter (fun row => row.taskId = task.taskId) = [.bind task] ∧
        (∀ file ∈ c'.data.taskFile, file.taskId ≠ task.taskId) ∧
        (∀ row, row.taskId ≠ task.taskId → (row ∈ c'.data.tasks ↔ row ∈ c.data.tasks)) ∧
        (∀ file, file.taskId ≠ task.taskId → (file ∈ c'.data.taskFile ↔ file ∈ c.data.taskFile)) ∧
        findByTaskId task.taskId true db' = some (DownloadWrapper.readTask task)
    else db' = db := by
  cases db with
  | none =>
      obtain ⟨rfl, rfl⟩ := Prod.mk.inj hcall
      rfl
  | some c =>
      rw [replaceTask] at hcall
      rcases replaceOn_cases task (hsingle c rfl) with hnothing | ⟨-, hdone⟩
      · rw [hnothing] at hcall
        obtain ⟨rfl, rfl⟩ := Prod.mk.inj hcall
        rfl
      · rw [hdone] at hcall
        obtain ⟨rfl, rfl⟩ := Prod.mk.inj hcall
        have hid : cStr task.taskId = task.taskId := hstorable.taskId.cStr_eq
        have hrow : (TaskRow.bind task).taskId = task.taskId := hid
        refine ⟨c, _, rfl, rfl, ?_, ?_, ?_, ?_, findByTaskId_replaced hkey hstorable c⟩
        · simp [replaced, KeyedList.insert, KeyedList.erase, KeyedList.filter, hrow,
            List.filter_filter]
        · intro file hfile
          simpa [hid] using (KeyedList.mem_filter.mp hfile).2
        · intro row hne
          have hnew : row ≠ .bind task := fun heq => hne (heq ▸ hrow)
          simp [replaced, hrow, hne, hnew]
        · intro file hne
          simp [replaced, hid, hne]

def sampleTask : Task :=
  { taskId := "u", url := "u", taskProtocol := .http, status := .queued, priority := -3
    selectFileIndexes := [0, 12, -7], createdAt := 5 }

def sampleTables : Tables where
  tasks := (KeyedList.empty.insert (.bind { taskId := "v" })).insert (.bind { taskId := "u" })
  taskFile := KeyedList.empty.insert { taskId := "u", fileIndex := 0, isDelete := true }

theorem storable_sampleTask : sampleTask.Storable := by
  constructor <;> decide

/-- Only the insertion is refused. -/
def insertRefused (call : SqlStep) : Reply := if call = .stepInsert then .refused else .granted

theorem singleFailure_insertRefused (c : Connection Tables) : SingleFailure insertRefused c := by
  have hfailed : ∀ call, insertRefused call ≠ .granted → call = .stepInsert := by
    intro call hcall
    by_contra hother
    exact hcall (if_neg hother)
  refine ⟨fun step other hstep hother => (hfailed step hstep).trans (hfailed other hother).symm, ?_⟩
  intro step hlost
  rw [insertRefused] at hlost
  split at hlost <;> cases hlost

theorem singleFailure_granted (c : Connection Tables) : SingleFailure (fun _ => .granted) c :=
  ⟨fun _ _ hstep => absurd rfl hstep, fun _ hlost => Reply.noConfusion hlost⟩

/-- A refused insertion leaves both tables; without a failure the record is read back. -/
theorem replaceTask_atomic_sample :
    (replaceTask insertRefused sampleTask (some ⟨sampleTables, []⟩)).2 = some ⟨sampleTables, []⟩ ∧
      findByTaskId "u" true
        (replaceTask (fun _ => .granted) sampleTask (some ⟨sampleTables, []⟩)).2 =
        some (DownloadWrapper.readTask sampleTask) := by
  have hsome : sampleTask.taskId ≠ "" := by decide
  constructor
  · have hrefused : (replaceTask insertRefused sampleTask (some ⟨sampleTables, []⟩)).1 = false := by
      decide +kernel
    exact replaceTask_atomic hsome storable_sampleTask
      (fun c _ => singleFailure_insertRefused c) (Prod.ext hrefused rfl)
  · have hgranted :
        (replaceTask (fun _ => .granted) sampleTask (some ⟨sampleTables, []⟩)).1 = true := by
      decide +kernel
    obtain ⟨c, c', -, -, -, -, -, -, hfound⟩ := replaceTask_atomic hsome storable_sampleTask
      (fun c _ => singleFailure_granted c) (Prod.ext hgranted rfl)
    exact hfound

structure Stores (tables : Tables) (s : Store) : Prop where
  tasks : tables.tasks.entries = s.tasks.entries.map TaskRow.bind
  taskFile : tables.taskFile = s.taskFile
  storable : ∀ row ∈ s.tasks, row.Storable

variable {s : Store}

theorem Stores.find? {tables : Tables} (h : Stores tables s) (taskId : String) :
    tables.tasks.find? taskId = (s.tasks.find? taskId).map TaskRow.bind := by
  rw [KeyedList.find?, h.tasks, List.find?_map, KeyedList.find?]
  refine congrArg (Option.map TaskRow.bind) (List.find?_congr fun row hrow => ?_)
  have hid : (TaskRow.bind row).taskId = row.taskId := (h.storable row hrow).taskId.cStr_eq
  simp [hid]

theorem Stores.replaced {tables : Tables} (h : Stores tables s) (hstorable : task.Storable) :
    Stores (replaced task tables) { s with
      tasks := s.tasks.insert task
      taskFile := s.taskFile.filter (·.taskId ≠ task.taskId)
      inserted := task :: s.inserted } := by
  have hid : cStr task.taskId = task.taskId := hstorable.taskId.cStr_eq
  refine ⟨?_, ?_, ?_⟩
  · have hrest : (s.tasks.entries.map TaskRow.bind).filter (·.taskId ≠ (TaskRow.bind task).taskId) =
        (s.tasks.entries.filter (·.taskId ≠ task.taskId)).map TaskRow.bind := by
      rw [List.filter_map]
      refine congrArg (List.map TaskRow.bind) (List.filter_congr fun row hrow => ?_)
      have hrow' : (TaskRow.bind row).taskId = row.taskId := (h.storable row hrow).taskId.cStr_eq
      have htask : (TaskRow.bind task).taskId = task.taskId := hid
      simp [hrow', htask]
    simp only [TaskStore.replaced, KeyedList.insert, KeyedList.erase, KeyedList.filter, h.tasks,
      List.map_cons]
    exact congrArg _ hrest
  · rw [TaskStore.replaced, hid, h.taskFile]
  · intro row hrow
    rcases KeyedList.mem_insert.mp hrow with rfl | ⟨hold, -⟩
    · exact hstorable
    · exact h.storable row hold

/-- `replace_task` on the rows is the one step `Store.replaceTask` takes, granted when the call
succeeds. -/
theorem replaceOn_refines (h : Stores c.data s) (hsingle : SingleFailure replies c)
    (hstorable : task.Storable) {ok : Bool} (hcall : replaceOn replies task c = (ok, c')) :
    (s.replaceTask task ok).isSome = ok ∧ Stores c'.data ((s.replaceTask task ok).getD s) := by
  rcases replaceOn_cases task hsingle with hnothing | ⟨hkey, hdone⟩
  · obtain ⟨rfl, rfl⟩ := Prod.mk.inj (hnothing.symm.trans hcall)
    have hrefused : s.replaceTask task false = none := by simp [Store.replaceTask]
    rw [hrefused]
    exact ⟨rfl, h⟩
  · obtain ⟨rfl, rfl⟩ := Prod.mk.inj (hdone.symm.trans hcall)
    rw [Store.replaceTask_eq_some_iff.mpr ⟨hkey, rfl, rfl⟩]
    exact ⟨rfl, h.replaced hstorable⟩

theorem findByTaskId_refines (h : Stores c.data s) {taskId : String} (hnul : NulFree taskId)
    (includeDeleted : Bool) :
    findByTaskId taskId includeDeleted (some c) = s.findByTaskId taskId includeDeleted := by
  rw [findByTaskId, Store.findByTaskId, hnul.cStr_eq, h.find?]
  refine if_congr Iff.rfl rfl ?_
  cases hfind : s.tasks.find? taskId with
  | none => rfl
  | some row =>
      have hread := TaskRow.readTask_bind (h.storable row (KeyedList.mem_of_find? hfind))
      have hdelete : decide ((TaskRow.bind row).isDelete = 0) = !row.isDelete := by
        cases hflag : row.isDelete <;> simp [TaskRow.bind, bindBool, hflag]
      simp only [Option.map_some, Option.filter_some, hdelete]
      split
      · exact congrArg some hread
      · rfl

end TaskStore

end DownloadWrapper
