import DownloadWrapper.Lib.Schema
import Mathlib.Logic.Relation

/-!
# The tables at a start

Every start of the task manager brings the database up to date, statement by statement, and a process
that is killed leaves off after any of them. The next start takes up where it left off, and but for a
`resume_data` of the first versions nothing that was stored is lost.
-/

namespace DownloadWrapper

/-- A stored value. A number in a column for whole numbers is a `real` only if it is none. -/
inductive Cell where
  | null
  | int (n : Int)
  | real (bits : BitVec 64)
  | text (s : String)
  | blob (bytes : List (BitVec 8))
  deriving DecidableEq

open Schema (createTable createIndex addColumn dropTable dropTrigger createTrigger updateRows attempt
  ensureColumn both)

abbrev Script := List (Schema.Statement Cell)

namespace LegacyTaskStore

def resumeDataTable : Schema.Statement Cell :=
  createTable "resume_data" ["client_id", "protocol", "natural_key", "data", "save_path", "magnet_link",
    "torrent_file", "saved_at"]

def fileRecordsTable : Schema.Statement Cell :=
  createTable "file_records" ["id", "client_id", "type", "is_remote", "save_path", "original_root_name",
    "root_name", "full_path", "file_type", "ext", "parsed", "task_protocol", "task_natural_key", "url",
    "info_hash", "magnet_link", "torrent_file", "status", "total_size", "total_done", "priority",
    "reason", "message", "created_at", "modified_at", "is_delete", "is_read"]

def otherTables : Script :=
  [createIndex "idx_file_records_task" "file_records" ["client_id", "task_protocol", "task_natural_key"],
   createIndex "idx_file_records_path" "file_records" ["full_path"],
   createTable "file_progress_cache" ["client_id", "protocol", "natural_key", "file_index", "full_path",
     "size", "downloaded_bytes", "segments", "modified_at"],
   createIndex "idx_fpc_path" "file_progress_cache" ["full_path"],
   createTable "play_progress" ["full_path", "position_ms", "duration_ms", "updated_at"]]

/-- The whole table goes where it has no `client_id`. -/
def dropLegacy : Schema.Statement Cell :=
  attempt fun db =>
    if db.hasColumn "resume_data" "client_id" then some db else dropTable "resume_data" db

/-- Where the table has not gone, it is there. -/
def rebuild : Schema.Statement Cell := attempt resumeDataTable

def missingColumns : Script :=
  [attempt (addColumn "file_records" "url" (.text "")),
   attempt (addColumn "file_records" "info_hash" (.text "")),
   attempt (addColumn "file_records" "magnet_link" (.text "")),
   attempt (addColumn "file_records" "torrent_file" (.text "")),
   ensureColumn "file_records" "is_delete" (.int 0),
   ensureColumn "file_records" "is_read" (.int 0)]

def initSchema : Script :=
  resumeDataTable :: fileRecordsTable :: otherTables ++ dropLegacy :: rebuild :: missingColumns

end LegacyTaskStore

def TaskStore.initSchema : Script :=
  [createTable "tasks" ["protocol", "task_id", "id", "client_id", "is_remote", "save_path",
     "original_root_name", "root_name", "full_path", "file_type", "ext", "parsed", "url", "info_hash",
     "magnet_link", "torrent_file", "status", "total_size", "total_done", "priority", "reason",
     "message", "created_at", "modified_at", "support_range", "etag", "last_modified", "force", "dirty",
     "is_delete", "is_read", "download_rate", "upload_rate", "select_file_indexes",
     "priority_file_indexes"],
   createIndex "idx_tasks_status" "tasks" ["protocol", "status"],
   ensureColumn "tasks" "is_delete" (.int 0),
   ensureColumn "tasks" "is_read" (.int 0)]

namespace TaskFileStore

def initSchema : Script :=
  [createTable "task_file" ["task_id", "file_index", "data", "is_delete", "is_read"],
   ensureColumn "task_file" "is_delete" (.int 0),
   ensureColumn "task_file" "is_read" (.int 0)]

/-- `protocol IN (0, 1) AND tasks.is_delete = 1 AND task_file.task_id = tasks.task_id`. -/
def goneWith (file task : Schema.Row Cell) : Bool :=
  (task "protocol" = .int 0 ∨ task "protocol" = .int 1) ∧ task "is_delete" = .int 1 ∧
    file "task_id" = task "task_id" ∧ task "task_id" ≠ .null

def mark (db : Schema.Database Cell) (file : Schema.Row Cell) : Schema.Row Cell :=
  if file "is_delete" = .int 0 ∧ (db.table? "tasks").any fun tasks => tasks.rows.any (goneWith file) then
    Function.update file "is_delete" (.int 1)
  else file

def markGone : Schema.Statement Cell :=
  updateRows "task_file" [("task_file", "is_delete"), ("task_file", "task_id"), ("tasks", "protocol"),
    ("tasks", "is_delete"), ("tasks", "task_id")] mark

def initTaskTriggers : Script :=
  [dropTrigger "sync_bt_task_file_deletion", createTrigger "sync_task_file_deletion" "tasks", markGone]

end TaskFileStore

def TaskBtResumeStore.initSchema : Script := [createTable "task_bt_resume" ["info_hash", "resume_data"]]

namespace Startup

/-- What `TaskManager::start` has done to the database before it looks at the tasks. Each of the stores
stops at its first failure, and the start with it. -/
def script : Script :=
  LegacyTaskStore.initSchema ++ TaskStore.initSchema ++ TaskFileStore.initSchema ++
    TaskFileStore.initTaskTriggers ++ TaskBtResumeStore.initSchema

/-- The database after starts that were killed or gave up, one after the other. -/
def Tried : Schema.Database Cell → Schema.Database Cell → Prop :=
  Relation.ReflTransGen fun db mid => mid ∈ Schema.stages script db

/-- The statements that follow the rebuilding of `resume_data` up to the triggers. -/
def columnsAndTables : Script :=
  LegacyTaskStore.missingColumns ++ (TaskStore.initSchema ++ TaskFileStore.initSchema)

def last : Script := TaskFileStore.initTaskTriggers ++ TaskBtResumeStore.initSchema

/-- `resume_data` is dropped and made anew at once. -/
def fused : Script :=
  LegacyTaskStore.resumeDataTable :: LegacyTaskStore.fileRecordsTable :: LegacyTaskStore.otherTables ++
    both LegacyTaskStore.dropLegacy LegacyTaskStore.rebuild :: (columnsAndTables ++ last)

theorem script_eq : script =
    (LegacyTaskStore.resumeDataTable :: LegacyTaskStore.fileRecordsTable ::
      LegacyTaskStore.otherTables) ++ LegacyTaskStore.dropLegacy :: LegacyTaskStore.rebuild ::
      (columnsAndTables ++ last) := rfl

theorem fused_eq : fused =
    (LegacyTaskStore.resumeDataTable :: LegacyTaskStore.fileRecordsTable ::
      LegacyTaskStore.otherTables) ++ both LegacyTaskStore.dropLegacy LegacyTaskStore.rebuild ::
      (columnsAndTables ++ last) := rfl

/-! ### What the statements keep -/

def rebuilt (name : String) : Prop := name = "resume_data"

/-- Of the values, only the marks of files may change. -/
def marked (table column : String) : Prop := table = "task_file" ∧ column = "is_delete"

theorem mark_of_ne (db : Schema.Database Cell) (row : Schema.Row Cell) {column : String}
    (h : ¬ marked "task_file" column) : TaskFileStore.mark db row column = row column := by
  rw [TaskFileStore.mark]
  split
  · exact Function.update_of_ne (fun heq => h ⟨rfl, heq⟩) _ _
  · rfl

theorem keeps_last (lost : String → Prop) : ∀ s ∈ last, Schema.Keeps lost marked s := by
  simp only [last, TaskFileStore.initTaskTriggers, TaskBtResumeStore.initSchema, List.cons_append,
    List.nil_append, List.forall_mem_cons, List.not_mem_nil, false_imp_iff, implies_true, and_true]
  exact ⟨Schema.keeps_dropTrigger _, Schema.keeps_createTrigger _ _,
    Schema.keeps_updateRows _ _ fun db row column h => mark_of_ne db row h,
    Schema.keeps_createTable _ _⟩

theorem keeps_dropLegacy : Schema.Keeps rebuilt marked LegacyTaskStore.dropLegacy := by
  apply Schema.keeps_attempt
  intro db next h
  simp only at h
  split at h
  · obtain rfl := Option.some.inj h
    exact .refl db
  · exact Schema.keeps_dropTable (show rebuilt "resume_data" from rfl) db next h

theorem keeps_rebuild (lost : String → Prop) : Schema.Keeps lost marked LegacyTaskStore.rebuild :=
  Schema.keeps_attempt (Schema.keeps_createTable _ _)

def indexes : List String :=
  ["idx_file_records_task", "idx_file_records_path", "idx_fpc_path", "idx_tasks_status"]

def Clear (db : Schema.Database Cell) : Prop :=
  ∀ name ∈ indexes, Schema.Unindexed name "resume_data" db

theorem holds_clear {s : Schema.Statement Cell}
    (h : ∀ name, Schema.Holds (Schema.Unindexed name "resume_data") s) : Schema.Holds Clear s :=
  fun db next hdb hs name hname => h name db next (hdb name hname) hs

def Based (db : Schema.Database Cell) : Prop :=
  (Clear db ∧ (db.table? "resume_data").isSome) ∧ (db.table? "file_records").isSome

theorem holds_based {s : Schema.Statement Cell}
    (h : ∀ name, Schema.Holds (Schema.Unindexed name "resume_data") s)
    (hkeeps : Schema.Keeps (fun _ => False) marked s) : Schema.Holds Based s :=
  ((holds_clear h).and (hkeeps.holds_isSome not_false)).and (hkeeps.holds_isSome not_false)

structure Tame (s : Schema.Statement Cell) : Prop where
  calm : Schema.Calm Based rebuilt marked s
  clear : Schema.Holds Clear s

theorem tame_createTable {name : String} (columns : List String) (hname : name ≠ "resume_data") :
    Tame (createTable (α := Cell) name columns) := by
  have hholds : ∀ index, Schema.Holds (Schema.Unindexed index "resume_data")
      (createTable (α := Cell) name columns) := fun index => Schema.holds_createTable name columns
  refine ⟨?_, holds_clear hholds⟩
  apply Schema.calm_createTable (show ¬ rebuilt name from hname)
  exact holds_based hholds (Schema.keeps_createTable _ _)

theorem tame_createIndex {name table : String} (columns : List String) (hname : name ∈ indexes)
    (htable : table ≠ "resume_data") : Tame (createIndex (α := Cell) name table columns) := by
  have hholds : ∀ index, Schema.Holds (Schema.Unindexed index "resume_data")
      (createIndex (α := Cell) name table columns) :=
    fun index => Schema.holds_createIndex name htable columns
  refine ⟨Schema.calm_createIndex htable (fun db hdb on columns' hobject hon => ?_) ?_,
    holds_clear hholds⟩
  · subst hon
    exact hdb.1.1 name hname columns' hobject
  · exact holds_based hholds (Schema.keeps_createIndex _ _ _)

theorem tame_ensureColumn {table : String} (column : String) (default : Cell)
    (htable : table ≠ "resume_data") : Tame (ensureColumn table column default) := by
  have hholds : ∀ index, Schema.Holds (Schema.Unindexed index "resume_data")
      (ensureColumn table column default) :=
    fun index => Schema.holds_ensureColumn (Schema.holds_addColumn table column default)
  refine ⟨?_, holds_clear hholds⟩
  apply Schema.calm_ensureColumn (show ¬ rebuilt table from htable)
  exact holds_based hholds (Schema.keeps_ensureColumn _ _ _)

theorem tame_attempt (column : String) (default : Cell) :
    Tame (attempt (addColumn "file_records" column default)) := by
  have hholds : ∀ index, Schema.Holds (Schema.Unindexed index "resume_data")
      (attempt (addColumn "file_records" column default)) :=
    fun index => Schema.holds_attempt (Schema.holds_addColumn _ column default)
  refine ⟨Schema.calm_attempt (by simp [rebuilt]) (fun db hdb => hdb.2) ?_, holds_clear hholds⟩
  exact holds_based hholds (Schema.keeps_attempt (Schema.keeps_addColumn _ _ _))

theorem tame_fileRecordsTable : Tame LegacyTaskStore.fileRecordsTable :=
  tame_createTable _ (by decide)

theorem tame_otherTables : ∀ s ∈ LegacyTaskStore.otherTables, Tame s := by
  simp only [LegacyTaskStore.otherTables, List.forall_mem_cons, List.not_mem_nil, false_imp_iff,
    implies_true, and_true]
  exact ⟨tame_createIndex _ (by decide) (by decide), tame_createIndex _ (by decide) (by decide),
    tame_createTable _ (by decide), tame_createIndex _ (by decide) (by decide),
    tame_createTable _ (by decide)⟩

theorem tame_columnsAndTables : ∀ s ∈ columnsAndTables, Tame s := by
  simp only [columnsAndTables, LegacyTaskStore.missingColumns, TaskStore.initSchema,
    TaskFileStore.initSchema, List.cons_append, List.nil_append, List.forall_mem_cons,
    List.not_mem_nil, false_imp_iff, implies_true, and_true]
  exact ⟨tame_attempt _ _, tame_attempt _ _, tame_attempt _ _, tame_attempt _ _,
    tame_ensureColumn _ _ (by decide), tame_ensureColumn _ _ (by decide),
    tame_createTable _ (by decide), tame_createIndex _ (by decide) (by decide),
    tame_ensureColumn _ _ (by decide), tame_ensureColumn _ _ (by decide),
    tame_createTable _ (by decide), tame_ensureColumn _ _ (by decide),
    tame_ensureColumn _ _ (by decide)⟩

theorem mark_mark (db : Schema.Database Cell) (row : Schema.Row Cell) :
    TaskFileStore.mark db (TaskFileStore.mark db row) = TaskFileStore.mark db row := by
  by_cases h : row "is_delete" = .int 0 ∧
      (db.table? "tasks").any fun tasks => tasks.rows.any (TaskFileStore.goneWith row)
  · have hmark : TaskFileStore.mark db row = Function.update row "is_delete" (.int 1) := if_pos h
    rw [hmark, TaskFileStore.mark, if_neg]
    simp
  · have hmark : TaskFileStore.mark db row = row := if_neg h
    rw [hmark, hmark]

theorem mark_congr {db db' : Schema.Database Cell} (h : db'.table? "tasks" = db.table? "tasks") :
    TaskFileStore.mark db' = TaskFileStore.mark db := by
  funext row
  rw [TaskFileStore.mark, TaskFileStore.mark, h]

theorem tasks_of_markGone {db next : Schema.Database Cell} (h : TaskFileStore.markGone db = some next) :
    (next.table? "tasks").isSome ∧ next.table? "tasks" = db.table? "tasks" := by
  have hprotocol : db.hasColumn "tasks" "protocol" = true :=
    Schema.hasColumn_of_updateRows h (by decide)
  obtain ⟨tasks, htasks, -⟩ := Schema.Database.hasColumn_iff.mp hprotocol
  have hsame := Schema.table?_updateRows_of_ne (show "tasks" ≠ "task_file" by decide) h
  exact ⟨by rw [hsame, htasks]; rfl, hsame⟩

theorem mark_later {db next mid : Schema.Database Cell} (h : TaskFileStore.markGone db = some next)
    (hmid : Schema.Untouched next mid) : TaskFileStore.mark mid = TaskFileStore.mark db := by
  obtain ⟨hsome, hsame⟩ := tasks_of_markGone h
  exact mark_congr ((hmid "tasks" hsome).trans hsame)

theorem last_eq : last = [dropTrigger "sync_bt_task_file_deletion",
    createTrigger "sync_task_file_deletion" "tasks", TaskFileStore.markGone,
    createTable "task_bt_resume" ["info_hash", "resume_data"]] := rfl

theorem settling_last : Schema.Settling (fun _ => True) last := by
  rw [last_eq]
  refine .cons (Q := fun _ => True) (fun db next _ hs mid hmid => ?_) (fun _ _ _ _ => trivial) ?_
  · -- the old trigger stays away
    apply Schema.dropTrigger_later
    have hnone : next.triggers "sync_bt_task_file_deletion" = none := by
      obtain rfl := Option.some.inj hs
      simp
    refine Schema.holds_of_mem_stages (P := fun db => db.triggers "sync_bt_task_file_deletion" = none)
      (fun s hmem db next hdb hs => ?_) hnone hmid
    simp only [List.mem_cons, List.not_mem_nil, or_false] at hmem
    rcases hmem with rfl | rfl | rfl
    · exact (Schema.triggers_createTrigger (by decide) hs).trans hdb
    · rwa [Schema.triggers_updateRows hs]
    · rwa [Schema.triggers_createTable hs]
  refine .cons (Q := fun _ => True) (fun db next _ hs mid hmid => ?_) (fun _ _ _ _ => trivial) ?_
  · -- the new one stays
    apply Schema.createTrigger_later hs
    · refine Schema.holds_of_mem_stages (P := fun db => (db.table? "tasks").isSome)
        (fun s hmem => ?_) (Schema.isSome_of_createTrigger hs) hmid
      apply Schema.Keeps.holds_isSome (keeps_last (fun _ => False) s _) not_false
      exact List.mem_cons_of_mem _ (List.mem_cons_of_mem _ hmem)
    · refine Schema.of_mem_stages (R := fun a b => b.triggers = a.triggers) (fun _ => rfl)
        (fun hab hbc => hbc.trans hab) (fun s hmem db next hs => ?_) hmid
      simp only [List.mem_cons, List.not_mem_nil, or_false] at hmem
      rcases hmem with rfl | rfl
      · exact Schema.triggers_updateRows hs
      · exact Schema.triggers_createTable hs
  refine .cons (Q := fun _ => True) (fun db next _ hs mid hmid => ?_) (fun _ _ _ _ => trivial) ?_
  · -- every file that is to be marked is
    have hlater : Schema.Untouched next mid := by
      refine Schema.untouched_of_mem_stages (fun s hmem db next hs => ?_) hmid
      obtain rfl := List.mem_singleton.mp hmem
      exact Schema.untouched_createTable hs
    refine Schema.updateRows_later hs hlater fun row => ?_
    rw [mark_later hs hlater, mark_mark]
  refine .cons (Q := fun _ => True) (fun db next _ hs mid hmid => ?_) (fun _ _ _ _ => trivial) .nil
  obtain rfl := List.mem_singleton.mp hmid
  exact Schema.createTable_of_isSome _ (Schema.isSome_of_createTable hs)

theorem dropLegacy_of_hasColumn {db : Schema.Database Cell}
    (h : db.hasColumn "resume_data" "client_id" = true) : LegacyTaskStore.dropLegacy db = some db := by
  simp [LegacyTaskStore.dropLegacy, attempt, h]

theorem resumeDataTable_of_none {db : Schema.Database Cell} (h : db.objects "resume_data" = none) :
    ∃ next, LegacyTaskStore.resumeDataTable db = some next ∧
      next.hasColumn "resume_data" "client_id" = true := by
  refine ⟨_, by rw [LegacyTaskStore.resumeDataTable, createTable, h], ?_⟩
  rw [Schema.Database.hasColumn_iff]
  exact ⟨_, Schema.Database.table?_put_table db _ _, by decide⟩

theorem objects_dropLegacy {db next : Schema.Database Cell} {t : Schema.Table Cell}
    (ht : db.table? "resume_data" = some t) (hlacks : ¬ db.hasColumn "resume_data" "client_id" = true)
    (h : LegacyTaskStore.dropLegacy db = some next) : next.objects "resume_data" = none := by
  have hobject := Schema.Database.table?_eq_some_iff.mp ht
  simp only [LegacyTaskStore.dropLegacy, attempt, if_neg hlacks, dropTable, ht, Option.getD_some] at h
  obtain rfl := Option.some.inj h
  simp [hobject]

theorem hasColumn_rebuilt {db next : Schema.Database Cell}
    (hsome : (db.table? "resume_data").isSome)
    (h : both LegacyTaskStore.dropLegacy LegacyTaskStore.rebuild db = some next) :
    next.hasColumn "resume_data" "client_id" = true := by
  obtain ⟨between, hdrop, hrebuild⟩ := Option.bind_eq_some_iff.mp h
  obtain ⟨t, ht⟩ := Option.isSome_iff_exists.mp hsome
  by_cases hhas : db.hasColumn "resume_data" "client_id" = true
  · obtain rfl := Option.some.inj ((dropLegacy_of_hasColumn hhas).symm.trans hdrop)
    exact (keeps_rebuild (fun _ => False) db next hrebuild).hasColumn not_false hhas
  · obtain ⟨anew, hanew, hcolumn⟩ := resumeDataTable_of_none (objects_dropLegacy ht hhas hdrop)
    rw [LegacyTaskStore.rebuild, attempt, hanew, Option.getD_some] at hrebuild
    obtain rfl := Option.some.inj hrebuild
    exact hcolumn

theorem rebuilt_later {db : Schema.Database Cell}
    (h : db.hasColumn "resume_data" "client_id" = true) :
    both LegacyTaskStore.dropLegacy LegacyTaskStore.rebuild db = some db := by
  obtain ⟨t, ht, -⟩ := Schema.Database.hasColumn_iff.mp h
  have hrebuild : LegacyTaskStore.rebuild db = some db := by
    rw [LegacyTaskStore.rebuild, attempt, LegacyTaskStore.resumeDataTable,
      Schema.createTable_of_isSome _ (Option.isSome_of_eq_some ht), Option.getD_some]
  rw [both, dropLegacy_of_hasColumn h, Option.bind_some, hrebuild]

theorem keeps_columnsAndTables (lost : String → Prop) :
    ∀ s ∈ columnsAndTables ++ last, Schema.Keeps lost marked s := by
  intro s hmem
  rcases List.mem_append.mp hmem with hmem | hmem
  · exact (tame_columnsAndTables s hmem).calm.keeps lost
  · exact keeps_last lost s hmem

theorem keeps_both :
    Schema.Keeps rebuilt marked (both LegacyTaskStore.dropLegacy LegacyTaskStore.rebuild) :=
  Schema.keeps_both keeps_dropLegacy (keeps_rebuild rebuilt)

theorem holds_isSome_both :
    Schema.Holds (fun db => (db.table? "resume_data").isSome)
      (both LegacyTaskStore.dropLegacy LegacyTaskStore.rebuild) := by
  intro db next hdb hs
  obtain ⟨t, ht, -⟩ := Schema.Database.hasColumn_iff.mp (hasColumn_rebuilt hdb hs)
  exact Option.isSome_of_eq_some ht

theorem holds_clear_dropLegacy : Schema.Holds Clear LegacyTaskStore.dropLegacy := by
  refine holds_clear fun name => Schema.holds_attempt fun db next hdb hs => ?_
  split at hs
  · obtain rfl := Option.some.inj hs
    exact hdb
  · exact Schema.holds_dropTable "resume_data" db next hdb hs

theorem holds_clear_rebuild : Schema.Holds Clear LegacyTaskStore.rebuild :=
  holds_clear fun _ => Schema.holds_attempt (Schema.holds_createTable _ _)

theorem holds_clear_last : ∀ s ∈ last, Schema.Holds Clear s := by
  rw [last_eq]
  simp only [List.forall_mem_cons, List.not_mem_nil, false_imp_iff, implies_true, and_true]
  exact ⟨holds_clear fun _ => Schema.holds_dropTrigger _,
    holds_clear fun _ => Schema.holds_createTrigger _ _,
    holds_clear fun _ => Schema.holds_updateRows _ _ _,
    holds_clear fun _ => Schema.holds_createTable _ _⟩

def following : Script :=
  LegacyTaskStore.otherTables ++
    both LegacyTaskStore.dropLegacy LegacyTaskStore.rebuild :: (columnsAndTables ++ last)

theorem keeps_following : ∀ s ∈ following, Schema.Keeps rebuilt marked s := by
  intro s hmem
  rcases List.mem_append.mp hmem with hmem | hmem
  · exact (tame_otherTables s hmem).calm.keeps rebuilt
  rcases List.mem_cons.mp hmem with rfl | hmem
  · exact keeps_both
  · exact keeps_columnsAndTables rebuilt s hmem

theorem holds_isSome_following : ∀ s ∈ LegacyTaskStore.fileRecordsTable :: following,
    Schema.Holds (fun db => (db.table? "resume_data").isSome) s := by
  have htame : ∀ s, Tame s → Schema.Holds (fun db => (db.table? "resume_data").isSome) s :=
    fun s hs => (hs.calm.keeps fun _ => False).holds_isSome not_false
  intro s hmem
  rcases List.mem_cons.mp hmem with rfl | hmem
  · exact htame _ tame_fileRecordsTable
  rcases List.mem_append.mp hmem with hmem | hmem
  · exact htame s (tame_otherTables s hmem)
  rcases List.mem_cons.mp hmem with rfl | hmem
  · exact holds_isSome_both
  · exact (keeps_columnsAndTables (fun _ => False) s hmem).holds_isSome not_false

theorem settling_following : Schema.Settling Based following := by
  apply Schema.Settling.append fun s hmem => (tame_otherTables s hmem).calm
  · exact fun s hmem => keeps_following s (List.mem_append_right _ hmem)
  refine .cons (Q := Based) (fun db next hdb hs mid hmid => ?_) ?_ ?_
  · apply rebuilt_later
    refine Schema.holds_of_mem_stages
      (P := fun db => db.hasColumn "resume_data" "client_id" = true) (fun s hmem => ?_)
      (hasColumn_rebuilt hdb.1.2 hs) hmid
    exact (keeps_columnsAndTables (fun _ => False) s hmem).holds_hasColumn not_false _
  · have hclear := Schema.holds_both holds_clear_dropLegacy holds_clear_rebuild
    exact (hclear.and holds_isSome_both).and (keeps_both.holds_isSome (by simp [rebuilt]))
  · exact .append (fun s hmem => (tame_columnsAndTables s hmem).calm) (keeps_last rebuilt)
      (settling_last.mono fun _ _ => trivial)

theorem settling_fused : Schema.Settling Clear fused := by
  refine .cons (Q := fun db => Clear db ∧ (db.table? "resume_data").isSome)
    (fun db next hdb hs mid hmid => ?_) (fun db next hdb hs => ⟨?_, ?_⟩) ?_
  · apply Schema.createTable_of_isSome
    exact Schema.holds_of_mem_stages holds_isSome_following (Schema.isSome_of_createTable hs) hmid
  · exact holds_clear (fun _ => Schema.holds_createTable _ _) db next hdb hs
  · exact Schema.isSome_of_createTable hs
  refine .cons (Q := Based) (fun db next hdb hs mid hmid => ?_) (fun db next hdb hs => ⟨⟨?_, ?_⟩, ?_⟩)
    settling_following
  · apply Schema.createTable_later (show ¬ rebuilt "file_records" by simp [rebuilt]) hs
    exact Schema.of_mem_stages .refl .trans keeps_following hmid
  · exact holds_clear (fun _ => Schema.holds_createTable _ _) db next hdb.1 hs
  · exact holds_isSome_following _ List.mem_cons_self db next hdb.2 hs
  · exact Schema.isSome_of_createTable hs

/-! ### Interrupted starts -/

theorem clear_of_mem_stages {db mid : Schema.Database Cell} (hdb : Clear db)
    (hmid : mid ∈ Schema.stages script db) : Clear mid := by
  refine Schema.holds_of_mem_stages (fun s hmem => ?_) hdb hmid
  rw [script_eq, List.mem_append, List.mem_cons, List.mem_cons, List.mem_cons, List.mem_cons,
    List.mem_append] at hmem
  rcases hmem with (rfl | rfl | hmem) | rfl | rfl | hmem | hmem
  · exact holds_clear fun _ => Schema.holds_createTable _ _
  · exact tame_fileRecordsTable.clear
  · exact (tame_otherTables s hmem).clear
  · exact holds_clear_dropLegacy
  · exact holds_clear_rebuild
  · exact (tame_columnsAndTables s hmem).clear
  · exact holds_clear_last s hmem

theorem run_script (db : Schema.Database Cell) : Schema.run script db = Schema.run fused db := by
  rw [script_eq, fused_eq]
  exact Schema.run_both (fun _ => rfl) _ _ db

/-- Where the first statement has an effect, a start goes on as it would from there. -/
theorem run_of_resumeDataTable {db next : Schema.Database Cell}
    (h : LegacyTaskStore.resumeDataTable db = some next) :
    Schema.run script db = Schema.run script next := by
  have hagain : LegacyTaskStore.resumeDataTable next = some next :=
    Schema.createTable_of_isSome _ (Schema.isSome_of_createTable h)
  rw [script_eq, List.cons_append, Schema.run, Schema.run, h, hagain]

theorem run_of_mem_stages {db mid : Schema.Database Cell} (hdb : Clear db)
    (hmid : mid ∈ Schema.stages script db) : Schema.run script mid = Schema.run script db := by
  have hfused : ∀ mid, mid ∈ Schema.stages fused db → Schema.run script mid = Schema.run script db := by
    intro mid hmid
    rw [run_script, run_script, Schema.run_of_mem_stages settling_fused hdb hmid]
  rw [script_eq] at hmid
  rcases Schema.mem_stages_both hmid with hmid | ⟨-, -, -, hnext⟩
  · exact hfused mid hmid
  -- `resume_data` has gone: the first statement makes it anew
  cases hcreate : LegacyTaskStore.resumeDataTable mid with
  | some next =>
      have hrebuild : LegacyTaskStore.rebuild mid = some next := by
        rw [LegacyTaskStore.rebuild, attempt, hcreate, Option.getD_some]
      exact (run_of_resumeDataTable hcreate).trans (hfused next (hnext next hrebuild))
  | none =>
      have hrebuild : LegacyTaskStore.rebuild mid = some mid := by
        rw [LegacyTaskStore.rebuild, attempt, hcreate, Option.getD_none]
      exact hfused mid (hnext mid hrebuild)

/-- **A start ends as if none had been tried before it**, however many were, and wherever each of them
was killed or gave up: with the same database, and with the same success. -/
theorem run_of_tried {db mid : Schema.Database Cell} (hdb : Clear db) (h : Tried db mid) :
    Schema.run script mid = Schema.run script db := by
  have hall : Clear mid ∧ Schema.run script mid = Schema.run script db := by
    induction h with
    | refl => exact ⟨hdb, rfl⟩
    | tail _ hstep ih =>
        exact ⟨clear_of_mem_stages ih.1 hstep, (run_of_mem_stages ih.1 hstep).trans ih.2⟩
  exact hall.2

/-- A database of the first versions, with one row. -/
def firstVersion : Schema.Database Cell where
  objects name :=
    if name = "resume_data" then
      some (.table ⟨["info_hash", "data"],
        [fun column => if column = "info_hash" then .text "a" else .null]⟩)
    else none
  triggers _ := none

theorem clear_firstVersion : Clear firstVersion := by
  intro name hname columns
  simp only [firstVersion]
  split <;> simp

theorem run_of_tried_firstVersion :
    Schema.run script (Schema.run (script.take 8) firstVersion).1 = Schema.run script firstVersion :=
  run_of_tried clear_firstVersion (.single (Schema.run_take_mem_stages script 8 firstVersion))

def lost (db : Schema.Database Cell) (name : String) : Prop :=
  name = "resume_data" ∧ db.hasColumn "resume_data" "client_id" = false

theorem keeps_of_mem {s : Schema.Statement Cell} (hmem : s ∈ script) :
    s = LegacyTaskStore.dropLegacy ∨ ∀ lost, Schema.Keeps lost marked s := by
  rw [script_eq, List.mem_append, List.mem_cons, List.mem_cons, List.mem_cons, List.mem_cons] at hmem
  rcases hmem with (rfl | rfl | hmem) | rfl | rfl | hmem
  · exact .inr fun lost => Schema.keeps_createTable _ _
  · exact .inr tame_fileRecordsTable.calm.keeps
  · exact .inr (tame_otherTables s hmem).calm.keeps
  · exact .inl rfl
  · exact .inr keeps_rebuild
  · exact .inr fun lost => keeps_columnsAndTables lost s hmem

theorem kept_of_mem_stages {db mid : Schema.Database Cell} (hmid : mid ∈ Schema.stages script db) :
    Schema.Kept (lost db) marked db mid := by
  cases hhas : db.hasColumn "resume_data" "client_id" with
  | false =>
      have hkept : Schema.Kept rebuilt marked db mid := by
        refine Schema.of_mem_stages .refl .trans (fun s hmem => ?_) hmid
        rcases keeps_of_mem hmem with rfl | hkeeps
        · exact keeps_dropLegacy
        · exact hkeeps rebuilt
      exact hkept.mono (fun name hname => ⟨hname, hhas⟩) fun _ _ hmarked => hmarked
  | true =>
      have hkept : db.hasColumn "resume_data" "client_id" = true →
          Schema.Kept (fun _ => False) marked db mid := by
        refine Schema.of_mem_stages
          (R := fun a b => a.hasColumn "resume_data" "client_id" = true →
            Schema.Kept (fun _ => False) marked a b)
          (fun db _ => .refl db)
          (fun hab hbc ha => (hab ha).trans (hbc ((hab ha).hasColumn not_false ha)))
          (fun s hmem a b hs ha => ?_) hmid
        rcases keeps_of_mem hmem with rfl | hkeeps
        · obtain rfl := Option.some.inj ((dropLegacy_of_hasColumn ha).symm.trans hs)
          exact .refl a
        · exact hkeeps _ a b hs
      exact (hkept hhas).mono (fun _ hfalse => hfalse.elim) fun _ _ hmarked => hmarked

theorem kept_of_tried {db mid : Schema.Database Cell} (h : Tried db mid) :
    Schema.Kept (lost db) marked db mid := by
  induction h with
  | refl => exact .refl db
  | @tail a b _ hstep ih =>
      refine ih.trans ((kept_of_mem_stages hstep).mono (fun name hlost => ?_) fun _ _ hmarked => hmarked)
      refine ⟨hlost.1, Bool.eq_false_iff.mpr fun hhas => ?_⟩
      -- what has the column is never lost
      have hnever : ¬ lost db "resume_data" := fun hdb => by simp [hdb.2] at hhas
      exact absurd (ih.hasColumn hnever hhas) (by simp [hlost.2])

def laterColumns : List (String × String) :=
  [("resume_data", "client_id"), ("file_records", "url"), ("file_records", "info_hash"),
   ("file_records", "magnet_link"), ("file_records", "torrent_file"), ("file_records", "is_delete"),
   ("file_records", "is_read"), ("tasks", "is_delete"), ("tasks", "is_read"),
   ("task_file", "is_delete"), ("task_file", "is_read")]

def Hidden (db : Schema.Database Cell) : Prop :=
  ∀ tasks files, db.table? "tasks" = some tasks → db.table? "task_file" = some files →
    ∀ file ∈ files.rows, ∀ task ∈ tasks.rows, TaskFileStore.goneWith file task = true →
      file "is_delete" ≠ .int 0

structure Current (db : Schema.Database Cell) : Prop where
  columns : ∀ entry ∈ laterColumns, db.hasColumn entry.1 entry.2 = true
  trigger : (db.triggers "sync_task_file_deletion").isSome
  noTrigger : db.triggers "sync_bt_task_file_deletion" = none
  hidden : Hidden db

theorem isSome_fileRecords_following {s : Schema.Statement Cell} (hmem : s ∈ following) :
    Schema.Holds (fun db => (db.table? "file_records").isSome) s :=
  (keeps_following s hmem).holds_isSome (by simp [rebuilt])

theorem hasColumn_of_following {s : Schema.Statement Cell} (hmem : s ∈ following)
    {table column : String} (htable : table ≠ "resume_data")
    (hs : ∀ db next, (db.table? "file_records").isSome → s db = some next →
      next.hasColumn table column = true)
    {db : Schema.Database Cell} (hdb : (db.table? "file_records").isSome)
    (h : (Schema.run following db).2 = true) :
    (Schema.run following db).1.hasColumn table column = true :=
  Schema.holds_of_run (P := fun db => db.hasColumn table column = true)
    (fun _ => isSome_fileRecords_following)
    (fun s hmem => (keeps_following s hmem).holds_hasColumn htable column) hmem hs hdb h

theorem hasColumn_ensured {table column : String} {default : Cell} (htable : table ≠ "resume_data")
    (hmem : ensureColumn table column default ∈ following) {db : Schema.Database Cell}
    (hdb : (db.table? "file_records").isSome) (h : (Schema.run following db).2 = true) :
    (Schema.run following db).1.hasColumn table column = true :=
  hasColumn_of_following hmem htable (fun _ _ _ hs => Schema.hasColumn_of_ensureColumn hs) hdb h

theorem hasColumn_attempted {column : String} {default : Cell}
    (hmem : attempt (addColumn "file_records" column default) ∈ following) {db : Schema.Database Cell}
    (hdb : (db.table? "file_records").isSome) (h : (Schema.run following db).2 = true) :
    (Schema.run following db).1.hasColumn "file_records" column = true :=
  hasColumn_of_following hmem (by decide) (fun _ _ hsome hs => Schema.hasColumn_of_attempt hsome hs)
    hdb h

theorem clientId_of_following {db : Schema.Database Cell} (hdb : (db.table? "resume_data").isSome)
    (h : (Schema.run following db).2 = true) :
    (Schema.run following db).1.hasColumn "resume_data" "client_id" = true := by
  refine Schema.holds_of_run (P := fun db => db.hasColumn "resume_data" "client_id" = true)
    (fun s hmem => holds_isSome_following s (List.mem_cons_of_mem _ hmem)) (fun s hmem => ?_)
    (List.mem_append_right _ List.mem_cons_self) (fun _ _ => hasColumn_rebuilt) hdb h
  rcases List.mem_append.mp hmem with hmem | hmem
  · exact ((tame_otherTables s hmem).calm.keeps fun _ => False).holds_hasColumn not_false _
  rcases List.mem_cons.mp hmem with rfl | hmem
  · intro db next hhas hs
    obtain rfl := Option.some.inj ((rebuilt_later hhas).symm.trans hs)
    exact hhas
  · exact (keeps_columnsAndTables (fun _ => False) s hmem).holds_hasColumn not_false _

theorem laterColumns_of_run {db : Schema.Database Cell} (h : (Schema.run script db).2 = true) :
    ∀ entry ∈ laterColumns, (Schema.run script db).1.hasColumn entry.1 entry.2 = true := by
  have hfused : fused =
      LegacyTaskStore.resumeDataTable :: LegacyTaskStore.fileRecordsTable :: following := rfl
  rw [run_script, hfused] at h ⊢
  obtain ⟨first, hfirst, hrun⟩ := Schema.run_cons h
  rw [hrun] at h
  obtain ⟨second, hsecond, hrun'⟩ := Schema.run_cons h
  have hdone : (Schema.run following second).2 = true := by rwa [hrun'] at h
  rw [hrun, hrun']
  have hresume : (second.table? "resume_data").isSome :=
    holds_isSome_following _ List.mem_cons_self first second (Schema.isSome_of_createTable hfirst) hsecond
  have hrecords : (second.table? "file_records").isSome := Schema.isSome_of_createTable hsecond
  have hattempted : ∀ column default, attempt (addColumn "file_records" column default) ∈ following →
      (Schema.run following second).1.hasColumn "file_records" column = true :=
    fun column default hmem => hasColumn_attempted hmem hrecords hdone
  have hensured : ∀ table column default, table ≠ "resume_data" →
      ensureColumn table column default ∈ following →
      (Schema.run following second).1.hasColumn table column = true :=
    fun table column default htable hmem => hasColumn_ensured htable hmem hrecords hdone
  have hmem : ∀ s ∈ columnsAndTables, s ∈ following := fun s hs =>
    List.mem_append_right _ (List.mem_cons_of_mem _ (List.mem_append_left _ hs))
  simp only [laterColumns, List.forall_mem_cons, List.not_mem_nil, false_imp_iff, implies_true, and_true]
  refine ⟨clientId_of_following hresume hdone, ?_⟩
  simp only [columnsAndTables, LegacyTaskStore.missingColumns, TaskStore.initSchema,
    TaskFileStore.initSchema, List.cons_append, List.nil_append, List.forall_mem_cons] at hmem
  obtain ⟨hurl, hhash, hlink, htorrent, hdelete, hread, -, -, hdelete', hread', -, hdelete'', hread'',
    -⟩ := hmem
  exact ⟨hattempted _ _ hurl, hattempted _ _ hhash, hattempted _ _ hlink, hattempted _ _ htorrent,
    hensured _ _ _ (by decide) hdelete, hensured _ _ _ (by decide) hread,
    hensured _ _ _ (by decide) hdelete', hensured _ _ _ (by decide) hread',
    hensured _ _ _ (by decide) hdelete'', hensured _ _ _ (by decide) hread''⟩

theorem goneWith_mark (db : Schema.Database Cell) (file task : Schema.Row Cell) :
    TaskFileStore.goneWith (TaskFileStore.mark db file) task = TaskFileStore.goneWith file task := by
  rw [TaskFileStore.goneWith, mark_of_ne db file (by simp [marked])]
  rfl

theorem hidden_of_markGone {db next : Schema.Database Cell} (h : TaskFileStore.markGone db = some next) :
    Hidden next := by
  intro tasks files htasks hfiles file hfile task htask hgone hseen
  have hold : db.table? "tasks" = some tasks := (tasks_of_markGone h).2.symm.trans htasks
  obtain ⟨files', -, hmarked⟩ := Schema.table?_updateRows h
  obtain rfl := Option.some.inj (hmarked.symm.trans hfiles)
  obtain ⟨row, -, rfl⟩ := List.mem_map.mp hfile
  rw [goneWith_mark] at hgone
  by_cases hsame : row "is_delete" = .int 0
  · have hany : (db.table? "tasks").any fun tasks =>
        tasks.rows.any (TaskFileStore.goneWith row) := by
      rw [hold]
      exact List.any_eq_true.mpr ⟨task, htask, hgone⟩
    rw [TaskFileStore.mark, if_pos ⟨hsame, hany⟩, Function.update_self] at hseen
    simp at hseen
  · rw [TaskFileStore.mark, if_neg fun hboth => hsame hboth.1] at hseen
    exact hsame hseen

theorem triggers_of_last {db : Schema.Database Cell} (h : (Schema.run last db).2 = true) :
    ((Schema.run last db).1.triggers "sync_task_file_deletion").isSome ∧
      (Schema.run last db).1.triggers "sync_bt_task_file_deletion" = none ∧
      Hidden (Schema.run last db).1 := by
  rw [last_eq] at h ⊢
  obtain ⟨dropped, hdropped, hrun⟩ := Schema.run_cons h
  rw [hrun] at h ⊢
  obtain ⟨made, hmade, hrun'⟩ := Schema.run_cons h
  rw [hrun'] at h ⊢
  obtain ⟨repaired, hrepaired, hrun''⟩ := Schema.run_cons h
  rw [hrun''] at h ⊢
  obtain ⟨final, hfinal, hend⟩ := Schema.run_cons h
  rw [hend]
  have htriggers : final.triggers = made.triggers :=
    (Schema.triggers_createTable hfinal).trans (Schema.triggers_updateRows hrepaired)
  refine ⟨?_, ?_, fun tasks files htasks hfiles => ?_⟩
  · rw [Schema.run, htriggers]
    exact Schema.triggers_of_createTrigger hmade
  · rw [Schema.run, htriggers, Schema.triggers_createTrigger (by decide) hmade]
    obtain rfl := Option.some.inj hdropped
    simp
  · have huntouched := Schema.untouched_createTable hfinal
    obtain ⟨files', -, hmarked⟩ := Schema.table?_updateRows hrepaired
    rw [Schema.run, huntouched _ (tasks_of_markGone hrepaired).1] at htasks
    rw [Schema.run, huntouched _ (Option.isSome_of_eq_some hmarked)] at hfiles
    exact hidden_of_markGone hrepaired tasks files htasks hfiles

theorem current_of_run {db : Schema.Database Cell} (h : (Schema.run script db).2 = true) :
    Current (Schema.run script db).1 := by
  have hcolumns := laterColumns_of_run h
  have hscript : script = (LegacyTaskStore.initSchema ++ TaskStore.initSchema ++
    TaskFileStore.initSchema) ++ last := rfl
  rw [hscript] at h hcolumns ⊢
  obtain ⟨before, -, hrun⟩ := Schema.run_append h
  rw [hrun] at h hcolumns ⊢
  obtain ⟨htrigger, hnone, hhidden⟩ := triggers_of_last h
  exact ⟨hcolumns, htrigger, hnone, hhidden⟩

/-- **A start that succeeds has lost nothing**, and neither have those that were tried before it: every
table is there with its rows, its columns and its indexes, but for a `resume_data` without `client_id`,
and no value has changed but the marks of files. The columns that were missing are there, and no file
of a task that is gone is seen. -/
theorem current_of_tried {db mid : Schema.Database Cell} (h : Tried db mid)
    (hdone : (Schema.run script mid).2 = true) :
    Schema.Kept (lost db) marked db (Schema.run script mid).1 ∧ Current (Schema.run script mid).1 := by
  constructor
  · exact kept_of_tried (h.tail (Schema.run_mem_stages script mid))
  · exact current_of_run hdone

theorem current_of_tried_firstVersion :
    Schema.Kept (lost firstVersion) marked firstVersion
        (Schema.run script (Schema.run (script.take 8) firstVersion).1).1 ∧
      Current (Schema.run script (Schema.run (script.take 8) firstVersion).1).1 :=
  current_of_tried (.single (Schema.run_take_mem_stages script 8 firstVersion)) (by decide +kernel)

end Startup

end DownloadWrapper
