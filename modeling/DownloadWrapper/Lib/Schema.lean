import Mathlib.Data.List.Forall2
import Mathlib.Logic.Function.Basic

/-!
# Bringing a database up to date

A script of SQL statements that creates what a database lacks, each statement committed by itself. It
may be interrupted after any of them. What is said here of such scripts: what they leave alone, and
when a second run of one takes up where the first was interrupted.
-/

namespace Schema

variable {α : Type*}

abbrev Row (α : Type*) := String → α

structure Table (α : Type*) where
  columns : List String
  rows : List (Row α)

/-- Tables and indexes have their names in common. -/
inductive Object (α : Type*) where
  | table (t : Table α)
  | index (table : String) (columns : List String)

/-- The objects and the triggers, each trigger with its table. Names are compared without case; here
they are in lower case. -/
structure Database (α : Type*) where
  objects : String → Option (Object α)
  triggers : String → Option String

namespace Database

def empty : Database α := ⟨fun _ => none, fun _ => none⟩

def table? (db : Database α) (name : String) : Option (Table α) :=
  match db.objects name with
  | some (.table t) => some t
  | _ => none

/-- `sqlite3_table_column_metadata`. -/
def hasColumn (db : Database α) (table column : String) : Bool :=
  (db.table? table).any fun t => column ∈ t.columns

def put (db : Database α) (name : String) (object : Object α) : Database α :=
  { db with objects := Function.update db.objects name (some object) }

theorem table?_eq_some_iff {db : Database α} {name : String} {t : Table α} :
    db.table? name = some t ↔ db.objects name = some (.table t) := by
  rw [table?]
  split
  · simp_all
  next hother => simpa using hother t

theorem hasColumn_iff {db : Database α} {table column : String} :
    db.hasColumn table column = true ↔ ∃ t, db.table? table = some t ∧ column ∈ t.columns := by
  simp [hasColumn, Option.any_eq_true]

@[simp] theorem objects_put_self (db : Database α) (name : String) (object : Object α) :
    (db.put name object).objects name = some object := by
  simp [put]

theorem objects_put_of_ne (db : Database α) {name other : String} (object : Object α)
    (h : other ≠ name) : (db.put name object).objects other = db.objects other := by
  simp [put, h]

@[simp] theorem table?_put_table (db : Database α) (name : String) (t : Table α) :
    (db.put name (.table t)).table? name = some t :=
  table?_eq_some_iff.mpr (objects_put_self db name _)

theorem table?_put_of_ne (db : Database α) {name other : String} (object : Object α)
    (h : other ≠ name) : (db.put name object).table? other = db.table? other := by
  rw [table?, table?, objects_put_of_ne db object h]

theorem put_of_objects {db : Database α} {name : String} {object : Object α}
    (h : db.objects name = some object) : db.put name object = db := by
  rw [put, ← h, Function.update_eq_self]

end Database

/-! ### Statements -/

/-- A statement has an effect, or fails and has none. -/
abbrev Statement (α : Type*) := Database α → Option (Database α)

/-- `CREATE TABLE IF NOT EXISTS`. -/
def createTable (name : String) (columns : List String) : Statement α := fun db =>
  match db.objects name with
  | none => some (db.put name (.table ⟨columns, []⟩))
  | some (.table _) => some db
  | some (.index ..) => none

/-- `CREATE INDEX IF NOT EXISTS`. -/
def createIndex (name table : String) (columns : List String) : Statement α := fun db =>
  match db.table? table, db.objects name with
  | none, _ => none
  | some _, some (.index ..) => some db
  | some _, some (.table _) => none
  | some t, none => if columns ⊆ t.columns then some (db.put name (.index table columns)) else none

/-- `ALTER TABLE … ADD COLUMN`. -/
def addColumn (table column : String) (default : α) : Statement α := fun db =>
  match db.table? table with
  | none => none
  | some t =>
      if column ∈ t.columns then none
      else some (db.put table (.table
        ⟨t.columns ++ [column], t.rows.map fun row => Function.update row column default⟩))

/-- `DROP TABLE IF EXISTS`, with the indexes and the triggers of the table. -/
def dropTable (name : String) : Statement α := fun db =>
  match db.table? name with
  | none => some db
  | some _ => some
      { objects := fun other =>
          match db.objects other with
          | some (.index table columns) => if table = name then none else some (.index table columns)
          | object => if other = name then none else object
        triggers := fun trigger => (db.triggers trigger).filter (· ≠ name) }

/-- `DROP TRIGGER IF EXISTS` and `CREATE TRIGGER IF NOT EXISTS`. -/
def dropTrigger (name : String) : Statement α := fun db =>
  some { db with triggers := Function.update db.triggers name none }

def createTrigger (name table : String) : Statement α := fun db =>
  match db.table? table with
  | none => none
  | some _ =>
      match db.triggers name with
      | some _ => some db
      | none => some { db with triggers := Function.update db.triggers name (some table) }

/-- `UPDATE`: the columns it names have to be there. -/
def updateRows (table : String) (named : List (String × String))
    (f : Database α → Row α → Row α) : Statement α := fun db =>
  match db.table? table with
  | none => none
  | some t =>
      if named.all fun (table, column) => db.hasColumn table column then
        some (db.put table (.table { t with rows := t.rows.map (f db) }))
      else none

def attempt (s : Statement α) : Statement α := fun db => some ((s db).getD db)

def both (s s' : Statement α) : Statement α := fun db => (s db).bind s'

def ensureColumn (table column : String) (default : α) : Statement α := fun db =>
  if db.hasColumn table column then some db else addColumn table column default db

/-! ### Scripts -/

def run : List (Statement α) → Database α → Database α × Bool
  | [], db => (db, true)
  | s :: ss, db =>
      match s db with
      | none => (db, false)
      | some next => run ss next

def stages : List (Statement α) → Database α → List (Database α)
  | [], db => [db]
  | s :: ss, db =>
      db :: match s db with
        | none => []
        | some next => stages ss next

theorem mem_stages_self (ss : List (Statement α)) (db : Database α) : db ∈ stages ss db := by
  cases ss with
  | nil => exact List.mem_singleton_self db
  | cons s ss => exact List.mem_cons_self

theorem run_mem_stages (ss : List (Statement α)) (db : Database α) : (run ss db).1 ∈ stages ss db := by
  induction ss generalizing db with
  | nil => exact List.mem_singleton_self db
  | cons s ss ih =>
      rw [run, stages]
      cases s db with
      | none => exact List.mem_cons_self
      | some next => exact List.mem_cons_of_mem _ (ih next)

theorem run_take_mem_stages (ss : List (Statement α)) (n : ℕ) (db : Database α) :
    (run (ss.take n) db).1 ∈ stages ss db := by
  induction ss generalizing n db with
  | nil =>
      rw [List.take_nil]
      exact List.mem_singleton_self db
  | cons s ss ih =>
      cases n with
      | zero => exact List.mem_cons_self
      | succ n =>
          rw [List.take_succ_cons, run, stages]
          cases s db with
          | none => exact List.mem_cons_self
          | some next => exact List.mem_cons_of_mem _ (ih n next)

/-- Every statement, once it has had its effect, has none on any later stage. `P` is what the
statements before it have made sure of. -/
inductive Settling : (Database α → Prop) → List (Statement α) → Prop
  | nil {P : Database α → Prop} : Settling P []
  | cons {P Q : Database α → Prop} {s : Statement α} {ss : List (Statement α)}
      (hsettled : ∀ db next, P db → s db = some next → ∀ mid ∈ stages ss next, s mid = some mid)
      (hnext : ∀ db next, P db → s db = some next → Q next) (hrest : Settling Q ss) :
      Settling P (s :: ss)

/-- **A script that settles can be taken up where it was interrupted**: what comes of it is the same,
whether it was interrupted or not, and a second run after a whole one changes nothing. -/
theorem run_of_mem_stages {P : Database α → Prop} {ss : List (Statement α)} (h : Settling P ss)
    {db mid : Database α} (hdb : P db) (hmid : mid ∈ stages ss db) : run ss mid = run ss db := by
  induction h generalizing db with
  | nil => rw [List.mem_singleton.mp hmid]
  | @cons P Q s ss hsettled hnext hrest ih =>
      rw [stages] at hmid
      rcases List.mem_cons.mp hmid with rfl | hlater
      · rfl
      cases hs : s db with
      | none => simp [hs] at hlater
      | some next =>
          rw [hs] at hlater
          calc run (s :: ss) mid
              = run ss mid := by rw [run, hsettled db next hdb hs mid hlater]
            _ = run ss next := ih (hnext db next hdb hs) hlater
            _ = run (s :: ss) db := by rw [run, hs]

/-! ### What scripts leave alone -/

theorem of_mem_stages {R : Database α → Database α → Prop} (hrefl : ∀ db, R db db)
    (htrans : ∀ {a b c}, R a b → R b c → R a c) {ss : List (Statement α)}
    (h : ∀ s ∈ ss, ∀ db next, s db = some next → R db next) {db mid : Database α}
    (hmid : mid ∈ stages ss db) : R db mid := by
  induction ss generalizing db with
  | nil =>
      rw [List.mem_singleton.mp hmid]
      exact hrefl db
  | cons s ss ih =>
      rw [stages] at hmid
      rcases List.mem_cons.mp hmid with rfl | hlater
      · exact hrefl mid
      cases hs : s db with
      | none => simp [hs] at hlater
      | some next =>
          rw [hs] at hlater
          apply htrans (h s List.mem_cons_self db next hs)
          exact ih (fun s hmem => h s (List.mem_cons_of_mem _ hmem)) hlater

/-- The rows agree in the columns of the first table that nothing changes. -/
def SameIn (changed : String → Prop) (columns : List String) (row row' : Row α) : Prop :=
  ∀ column ∈ columns, ¬ changed column → row' column = row column

/-- Tables keep their columns and their rows, and the indexes on them stay, but for the tables that are
lost. New columns come behind; in the old ones only some may change their values. -/
structure Kept (lost : String → Prop) (changed : String → String → Prop) (db db' : Database α) :
    Prop where
  table : ∀ name t, ¬ lost name → db.table? name = some t → ∃ t', db'.table? name = some t' ∧
    t.columns ⊆ t'.columns ∧ List.Forall₂ (SameIn (changed name) t.columns) t.rows t'.rows
  index : ∀ name table columns, ¬ lost table → db.objects name = some (.index table columns) →
    db'.objects name = some (.index table columns)

namespace Kept

variable {lost : String → Prop} {changed : String → String → Prop} {db db' db'' : Database α}

theorem forall₂_refl (changed : String → Prop) (columns : List String) (rows : List (Row α)) :
    List.Forall₂ (SameIn changed columns) rows rows :=
  List.forall₂_same.mpr fun _ _ _ _ _ => rfl

theorem refl (db : Database α) : Kept lost changed db db :=
  ⟨fun name t _ ht => ⟨t, ht, fun _ hc => hc, forall₂_refl (changed name) t.columns t.rows⟩,
    fun _ _ _ _ hindex => hindex⟩

theorem rows_trans {changed : String → Prop} {columns columns' : List String}
    (hsubset : columns ⊆ columns') {rows rows' rows'' : List (Row α)}
    (h : List.Forall₂ (SameIn changed columns) rows rows')
    (h' : List.Forall₂ (SameIn changed columns') rows' rows'') :
    List.Forall₂ (SameIn changed columns) rows rows'' := by
  induction h generalizing rows'' with
  | nil =>
      cases h'
      exact .nil
  | cons hhead _ ih =>
      cases h' with
      | cons hhead' htail' =>
          refine .cons (fun column hmem hsame => ?_) (ih htail')
          exact (hhead' column (hsubset hmem) hsame).trans (hhead column hmem hsame)

theorem trans (h : Kept lost changed db db') (h' : Kept lost changed db' db'') :
    Kept lost changed db db'' where
  table name t hkept ht := by
    obtain ⟨t', ht', hsubset, hrows⟩ := h.table name t hkept ht
    obtain ⟨t'', ht'', hsubset', hrows'⟩ := h'.table name t' hkept ht'
    exact ⟨t'', ht'', fun _ hc => hsubset' (hsubset hc), rows_trans hsubset hrows hrows'⟩
  index name table columns hkept hindex :=
    h'.index name table columns hkept (h.index name table columns hkept hindex)

theorem mono {lost' : String → Prop} {changed' : String → String → Prop}
    (hlost : ∀ name, lost name → lost' name)
    (hchanged : ∀ name column, changed name column → changed' name column)
    (h : Kept lost changed db db') : Kept lost' changed' db db' where
  table name t hkept ht := by
    obtain ⟨t', ht', hsubset, hrows⟩ := h.table name t (mt (hlost name) hkept) ht
    refine ⟨t', ht', hsubset, hrows.imp fun row row' hsame column hmem hfixed => ?_⟩
    exact hsame column hmem (mt (hchanged name column) hfixed)
  index name table columns hkept hindex :=
    h.index name table columns (mt (hlost table) hkept) hindex

theorem isSome (h : Kept lost changed db db') {name : String} (hkept : ¬ lost name)
    (hsome : (db.table? name).isSome) : (db'.table? name).isSome := by
  obtain ⟨t, ht⟩ := Option.isSome_iff_exists.mp hsome
  obtain ⟨t', ht', -⟩ := h.table name t hkept ht
  exact Option.isSome_of_eq_some ht'

theorem hasColumn (h : Kept lost changed db db') {name column : String} (hkept : ¬ lost name)
    (hhas : db.hasColumn name column = true) : db'.hasColumn name column = true := by
  obtain ⟨t, ht, hmem⟩ := Database.hasColumn_iff.mp hhas
  obtain ⟨t', ht', hsubset, -⟩ := h.table name t hkept ht
  exact Database.hasColumn_iff.mpr ⟨t', ht', hsubset hmem⟩

theorem put_new {name : String} (hnone : db.objects name = none) (object : Object α) :
    Kept lost changed db (db.put name object) := by
  have hother : ∀ other old, db.objects other = some old →
      (db.put name object).objects other = some old := by
    intro other old hold
    rw [Database.objects_put_of_ne]
    · exact hold
    · rintro rfl
      exact absurd (hnone.symm.trans hold) (by simp)
  refine ⟨fun other t _ ht => ?_, fun other table columns _ hindex => hother other _ hindex⟩
  refine ⟨t, ?_, fun _ hc => hc, forall₂_refl (changed other) t.columns t.rows⟩
  exact Database.table?_eq_some_iff.mpr (hother other _ (Database.table?_eq_some_iff.mp ht))

theorem put_table {name : String} {t t' : Table α} (ht : db.table? name = some t)
    (hsubset : t.columns ⊆ t'.columns)
    (hrows : List.Forall₂ (SameIn (changed name) t.columns) t.rows t'.rows) :
    Kept lost changed db (db.put name (.table t')) where
  table other told _ htold := by
    by_cases hname : other = name
    · subst hname
      obtain rfl := Option.some.inj (ht.symm.trans htold)
      exact ⟨t', Database.table?_put_table db other t', hsubset, hrows⟩
    · refine ⟨told, ?_, fun _ hc => hc, forall₂_refl (changed other) told.columns told.rows⟩
      exact (Database.table?_put_of_ne db _ hname).trans htold
  index other table columns _ hindex := by
    rw [Database.objects_put_of_ne]
    · exact hindex
    · rintro rfl
      exact absurd (hindex.symm.trans (Database.table?_eq_some_iff.mp ht)) (by simp)

theorem of_objects (h : db'.objects = db.objects) : Kept lost changed db db' := by
  have htable : ∀ name, db'.table? name = db.table? name := by
    intro name
    rw [Database.table?, Database.table?, h]
  refine ⟨fun name t _ ht => ?_, fun _ _ _ _ hindex => by rw [h]; exact hindex⟩
  exact ⟨t, (htable name).trans ht, fun _ hc => hc, forall₂_refl (changed name) t.columns t.rows⟩

end Kept

/-- The statement keeps the tables, whenever it has an effect. -/
def Keeps (lost : String → Prop) (changed : String → String → Prop) (s : Statement α) : Prop :=
  ∀ db next, s db = some next → Kept lost changed db next

section Keeps

variable {lost : String → Prop} {changed : String → String → Prop}

theorem keeps_createTable (name : String) (columns : List String) :
    Keeps lost changed (createTable (α := α) name columns) := by
  intro db next h
  simp only [createTable] at h
  split at h
  next hnone =>
    obtain rfl := Option.some.inj h
    exact .put_new hnone _
  · obtain rfl := Option.some.inj h
    exact .refl db
  · simp at h

theorem keeps_createIndex (name table : String) (columns : List String) :
    Keeps lost changed (createIndex (α := α) name table columns) := by
  intro db next h
  simp only [createIndex] at h
  split at h
  · simp at h
  · obtain rfl := Option.some.inj h
    exact .refl db
  · simp at h
  next hnone =>
    split at h
    · obtain rfl := Option.some.inj h
      exact .put_new hnone _
    · simp at h

theorem keeps_dropTable {name : String} (hname : lost name) :
    Keeps lost changed (dropTable (α := α) name) := by
  intro db next h
  simp only [dropTable] at h
  split at h
  · obtain rfl := Option.some.inj h
    exact .refl db
  obtain rfl := Option.some.inj h
  refine ⟨fun other t hother ht => ?_, fun other table columns htable hindex => ?_⟩
  · have hne : other ≠ name := fun heq => hother (heq ▸ hname)
    refine ⟨t, ?_, fun _ hc => hc, Kept.forall₂_refl (changed other) t.columns t.rows⟩
    rw [Database.table?_eq_some_iff] at ht ⊢
    simp only [ht, if_neg hne]
  · have hne : table ≠ name := fun heq => htable (heq ▸ hname)
    simp only [hindex, if_neg hne]

theorem keeps_addColumn (table column : String) (default : α) :
    Keeps lost changed (addColumn table column default) := by
  intro db next h
  simp only [addColumn] at h
  split at h
  · simp at h
  next t ht =>
    split at h
    · simp at h
    next hnew =>
      obtain rfl := Option.some.inj h
      refine .put_table ht (List.subset_append_left _ _) ?_
      rw [List.forall₂_map_right_iff]
      refine List.forall₂_same.mpr fun row _ other hmem _ => ?_
      apply Function.update_of_ne
      rintro rfl
      exact hnew hmem

theorem keeps_ensureColumn (table column : String) (default : α) :
    Keeps lost changed (ensureColumn table column default) := by
  intro db next h
  simp only [ensureColumn] at h
  split at h
  · obtain rfl := Option.some.inj h
    exact .refl db
  · exact keeps_addColumn table column default db next h

theorem keeps_attempt {s : Statement α} (h : Keeps lost changed s) : Keeps lost changed (attempt s) := by
  intro db next hnext
  obtain rfl := Option.some.inj hnext
  cases hs : s db with
  | none => exact .refl db
  | some next => exact h db next hs

theorem keeps_both {s s' : Statement α} (h : Keeps lost changed s) (h' : Keeps lost changed s') :
    Keeps lost changed (both s s') := by
  intro db next hnext
  obtain ⟨between, hs, hs'⟩ := Option.bind_eq_some_iff.mp hnext
  exact (h db between hs).trans (h' between next hs')

theorem keeps_dropTrigger (name : String) : Keeps lost changed (dropTrigger (α := α) name) := by
  intro db next h
  obtain rfl := Option.some.inj h
  exact .of_objects rfl

theorem keeps_createTrigger (name table : String) :
    Keeps lost changed (createTrigger (α := α) name table) := by
  intro db next h
  simp only [createTrigger] at h
  split at h
  · simp at h
  split at h <;> obtain rfl := Option.some.inj h
  · exact .refl db
  · exact .of_objects rfl

theorem keeps_updateRows (table : String) (named : List (String × String))
    {f : Database α → Row α → Row α}
    (hf : ∀ db row column, ¬ changed table column → f db row column = row column) :
    Keeps lost changed (updateRows table named f) := by
  intro db next h
  simp only [updateRows] at h
  split at h
  · simp at h
  next t ht =>
    split at h
    · obtain rfl := Option.some.inj h
      refine .put_table ht (fun _ hc => hc) ?_
      rw [List.forall₂_map_right_iff]
      exact List.forall₂_same.mpr fun row _ column _ hfixed => hf db row column hfixed
    · simp at h

end Keeps

/-! ### Once is enough -/

section Settled

variable {lost : String → Prop} {changed : String → String → Prop} {db next mid : Database α}

theorem createTable_of_isSome {name : String} (columns : List String)
    (h : (db.table? name).isSome) : createTable name columns db = some db := by
  obtain ⟨t, ht⟩ := Option.isSome_iff_exists.mp h
  rw [createTable, Database.table?_eq_some_iff.mp ht]

theorem isSome_of_createTable {name : String} {columns : List String}
    (h : createTable name columns db = some next) : (next.table? name).isSome := by
  simp only [createTable] at h
  split at h
  · obtain rfl := Option.some.inj h
    rw [Database.table?_put_table]
    rfl
  next t ht =>
    obtain rfl := Option.some.inj h
    exact Option.isSome_of_eq_some (Database.table?_eq_some_iff.mpr ht)
  · simp at h

theorem createTable_later {name : String} {columns : List String} (hname : ¬ lost name)
    (h : createTable name columns db = some next) (hkept : Kept lost changed next mid) :
    createTable name columns mid = some mid := by
  apply createTable_of_isSome
  exact hkept.isSome hname (isSome_of_createTable h)

theorem createIndex_later {name table : String} {columns : List String} (htable : ¬ lost table)
    (hindexes : ∀ t cs, db.objects name = some (.index t cs) → ¬ lost t)
    (h : createIndex name table columns db = some next) (hkept : Kept lost changed next mid) :
    createIndex name table columns mid = some mid := by
  have hlater : ∀ t cs, (next.table? table).isSome → ¬ lost t →
      next.objects name = some (.index t cs) → createIndex name table columns mid = some mid := by
    intro t cs hsome ht hindex
    obtain ⟨t', ht'⟩ := Option.isSome_iff_exists.mp (hkept.isSome htable hsome)
    simp only [createIndex, ht', hkept.index name t cs ht hindex]
  simp only [createIndex] at h
  split at h
  · simp at h
  next t told columns' ht hobject =>
    obtain rfl := Option.some.inj h
    exact hlater told columns' (Option.isSome_of_eq_some ht) (hindexes told columns' hobject) hobject
  · simp at h
  next t ht hnone =>
    split at h
    · obtain rfl := Option.some.inj h
      refine hlater table columns ?_ htable (Database.objects_put_self db name _)
      rw [Database.table?_put_of_ne]
      · exact Option.isSome_of_eq_some ht
      · rintro rfl
        exact absurd (hnone.symm.trans (Database.table?_eq_some_iff.mp ht)) (by simp)
    · simp at h

theorem hasColumn_of_addColumn {table column : String} {default : α}
    (h : addColumn table column default db = some next) : next.hasColumn table column = true := by
  simp only [addColumn] at h
  split at h
  · simp at h
  split at h
  · simp at h
  · obtain rfl := Option.some.inj h
    exact Database.hasColumn_iff.mpr
      ⟨_, Database.table?_put_table db table _, List.mem_append_right _ (List.mem_singleton_self _)⟩

theorem addColumn_of_hasColumn {table column : String} (default : α)
    (h : db.hasColumn table column = true) : addColumn table column default db = none := by
  obtain ⟨t, ht, hmem⟩ := Database.hasColumn_iff.mp h
  simp [addColumn, ht, hmem]

theorem ensureColumn_of_hasColumn {table column : String} (default : α)
    (h : db.hasColumn table column = true) : ensureColumn table column default db = some db :=
  if_pos h

theorem hasColumn_of_ensureColumn {table column : String} {default : α}
    (h : ensureColumn table column default db = some next) : next.hasColumn table column = true := by
  simp only [ensureColumn] at h
  split at h
  next hhas =>
    obtain rfl := Option.some.inj h
    exact hhas
  · exact hasColumn_of_addColumn h

theorem ensureColumn_later {table column : String} {default : α} (htable : ¬ lost table)
    (h : ensureColumn table column default db = some next) (hkept : Kept lost changed next mid) :
    ensureColumn table column default mid = some mid := by
  apply ensureColumn_of_hasColumn
  exact hkept.hasColumn htable (hasColumn_of_ensureColumn h)

theorem hasColumn_of_attempt {table column : String} {default : α} (hsome : (db.table? table).isSome)
    (h : attempt (addColumn table column default) db = some next) :
    next.hasColumn table column = true := by
  obtain rfl := Option.some.inj h
  cases hadd : addColumn table column default db with
  | some next => exact hasColumn_of_addColumn hadd
  | none =>
      obtain ⟨t, ht⟩ := Option.isSome_iff_exists.mp hsome
      by_contra hlacks
      have hnew : column ∉ t.columns := fun hmem =>
        hlacks (Database.hasColumn_iff.mpr ⟨t, ht, hmem⟩)
      simp [addColumn, ht, hnew] at hadd

theorem attempt_later {table column : String} {default : α} (htable : ¬ lost table)
    (hsome : (db.table? table).isSome) (h : attempt (addColumn table column default) db = some next)
    (hkept : Kept lost changed next mid) :
    attempt (addColumn table column default) mid = some mid := by
  have hhas := hkept.hasColumn htable (hasColumn_of_attempt hsome h)
  rw [attempt, addColumn_of_hasColumn default hhas, Option.getD_none]

def Untouched (db db' : Database α) : Prop :=
  ∀ name, (db.table? name).isSome → db'.table? name = db.table? name

theorem untouched_createTable {name : String} {columns : List String}
    (h : createTable name columns db = some next) : Untouched db next := by
  intro other hsome
  simp only [createTable] at h
  split at h
  next hnone =>
    obtain rfl := Option.some.inj h
    apply Database.table?_put_of_ne
    rintro rfl
    simp [Database.table?, hnone] at hsome
  · obtain rfl := Option.some.inj h
    rfl
  · simp at h

theorem untouched_of_mem_stages {ss : List (Statement α)}
    (h : ∀ s ∈ ss, ∀ db next, s db = some next → Untouched db next) (hmid : mid ∈ stages ss db) :
    Untouched db mid := by
  refine of_mem_stages (fun _ _ _ => rfl) (fun {a b c} hab hbc name hsome => ?_) h hmid
  have hb := hab name hsome
  rw [hbc name (hb ▸ hsome), hb]

theorem updateRows_later {table : String} {named : List (String × String)}
    {f : Database α → Row α → Row α} (h : updateRows table named f db = some next)
    (hmid : Untouched next mid) (hfixed : ∀ row, f mid (f db row) = f db row) :
    updateRows table named f mid = some mid := by
  simp only [updateRows] at h
  split at h
  · simp at h
  next t ht =>
    split at h
    next hnamed =>
      obtain rfl := Option.some.inj h
      have htable : mid.table? table = some { t with rows := t.rows.map (f db) } := by
        rw [hmid table (by simp), Database.table?_put_table]
      have hcolumns : ∀ other column, db.hasColumn other column = true →
          mid.hasColumn other column = true := by
        intro other column hcolumn
        obtain ⟨told, htold, hmem⟩ := Database.hasColumn_iff.mp hcolumn
        by_cases hother : other = table
        · subst hother
          obtain rfl := Option.some.inj (ht.symm.trans htold)
          exact Database.hasColumn_iff.mpr ⟨_, htable, hmem⟩
        · have hsame := Database.table?_put_of_ne db
            (.table { t with rows := t.rows.map (f db) }) hother
          refine Database.hasColumn_iff.mpr ⟨told, ?_, hmem⟩
          rw [hmid other (by rw [hsame, htold]; rfl), hsame, htold]
      have hall : (named.all fun (table, column) => mid.hasColumn table column) = true :=
        List.all_eq_true.mpr fun entry hmem =>
          hcolumns entry.1 entry.2 (List.all_eq_true.mp hnamed entry hmem)
      have hrows : (t.rows.map (f db)).map (f mid) = t.rows.map (f db) := by
        rw [List.map_map]
        exact List.map_congr_left fun row _ => hfixed row
      simp only [updateRows, htable, hall, hrows, if_true]
      exact congrArg some (Database.put_of_objects (Database.table?_eq_some_iff.mp htable))
    · simp at h

theorem triggers_of_createTrigger {name table : String} (h : createTrigger name table db = some next) :
    (next.triggers name).isSome := by
  simp only [createTrigger] at h
  split at h
  · simp at h
  split at h
  next on hon =>
    obtain rfl := Option.some.inj h
    exact Option.isSome_of_eq_some hon
  · obtain rfl := Option.some.inj h
    simp

theorem createTrigger_later {name table : String} (h : createTrigger name table db = some next)
    (htable : (mid.table? table).isSome) (htriggers : mid.triggers = next.triggers) :
    createTrigger name table mid = some mid := by
  obtain ⟨t, ht⟩ := Option.isSome_iff_exists.mp htable
  obtain ⟨on, hon⟩ := Option.isSome_iff_exists.mp (triggers_of_createTrigger h)
  rw [← htriggers] at hon
  simp only [createTrigger, ht, hon]

theorem dropTrigger_later {name : String} (hnone : mid.triggers name = none) :
    dropTrigger name mid = some mid := by
  rw [dropTrigger, ← hnone, Function.update_eq_self]

theorem isSome_of_createTrigger {name table : String} (h : createTrigger name table db = some next) :
    (next.table? table).isSome := by
  simp only [createTrigger] at h
  split at h
  · simp at h
  next t ht => split at h <;> obtain rfl := Option.some.inj h <;> exact Option.isSome_of_eq_some ht

theorem triggers_createTable {name : String} {columns : List String}
    (h : createTable name columns db = some next) : next.triggers = db.triggers := by
  simp only [createTable] at h
  split at h
  · obtain rfl := Option.some.inj h
    rfl
  · obtain rfl := Option.some.inj h
    rfl
  · simp at h

theorem triggers_updateRows {table : String} {named : List (String × String)}
    {f : Database α → Row α → Row α} (h : updateRows table named f db = some next) :
    next.triggers = db.triggers := by
  simp only [updateRows] at h
  split at h
  · simp at h
  split at h
  · obtain rfl := Option.some.inj h
    rfl
  · simp at h

theorem hasColumn_of_updateRows {table other column : String} {named : List (String × String)}
    {f : Database α → Row α → Row α} (h : updateRows table named f db = some next)
    (hmem : (other, column) ∈ named) : db.hasColumn other column = true := by
  simp only [updateRows] at h
  split at h
  · simp at h
  split at h
  next hall => exact List.all_eq_true.mp hall (other, column) hmem
  · simp at h

theorem table?_updateRows {table : String} {named : List (String × String)}
    {f : Database α → Row α → Row α} (h : updateRows table named f db = some next) :
    ∃ t, db.table? table = some t ∧
      next.table? table = some { t with rows := t.rows.map (f db) } := by
  simp only [updateRows] at h
  split at h
  · simp at h
  next t ht =>
    split at h
    · obtain rfl := Option.some.inj h
      exact ⟨t, ht, Database.table?_put_table db _ _⟩
    · simp at h

theorem table?_updateRows_of_ne {table other : String} {named : List (String × String)}
    {f : Database α → Row α → Row α} (hother : other ≠ table)
    (h : updateRows table named f db = some next) : next.table? other = db.table? other := by
  simp only [updateRows] at h
  split at h
  · simp at h
  split at h
  · obtain rfl := Option.some.inj h
    exact Database.table?_put_of_ne db _ hother
  · simp at h

theorem triggers_createTrigger {name other table : String} (hother : other ≠ name)
    (h : createTrigger name table db = some next) : next.triggers other = db.triggers other := by
  simp only [createTrigger] at h
  split at h
  · simp at h
  split at h
  · obtain rfl := Option.some.inj h
    rfl
  · obtain rfl := Option.some.inj h
    exact Function.update_of_ne hother _ _

end Settled

/-! ### What statements hold on to -/

def Holds (P : Database α → Prop) (s : Statement α) : Prop := ∀ db next, P db → s db = some next → P next

theorem holds_of_mem_stages {P : Database α → Prop} {ss : List (Statement α)}
    (h : ∀ s ∈ ss, Holds P s) {db mid : Database α} (hdb : P db) (hmid : mid ∈ stages ss db) : P mid := by
  have himp : P db → P mid := by
    refine of_mem_stages (R := fun a b => P a → P b) (fun _ ha => ha) (fun hab hbc ha => hbc (hab ha))
      (fun s hs a b hstep ha => ?_) hmid
    exact h s hs a b ha hstep
  exact himp hdb

theorem run_cons {s : Statement α} {ss : List (Statement α)} {db : Database α}
    (h : (run (s :: ss) db).2 = true) : ∃ next, s db = some next ∧ run (s :: ss) db = run ss next := by
  rw [run] at h ⊢
  cases hs : s db with
  | none => simp [hs] at h
  | some next => exact ⟨next, rfl, rfl⟩

theorem run_append {pre ss : List (Statement α)} {db : Database α} (h : (run (pre ++ ss) db).2 = true) :
    ∃ before, run pre db = (before, true) ∧ run (pre ++ ss) db = run ss before := by
  induction pre generalizing db with
  | nil => exact ⟨db, rfl, rfl⟩
  | cons first pre ih =>
      rw [List.cons_append] at h ⊢
      obtain ⟨next, hfirst, hrun⟩ := run_cons h
      rw [hrun] at h
      obtain ⟨before, hpre, hrun'⟩ := ih h
      refine ⟨before, ?_, hrun.trans hrun'⟩
      rw [run, hfirst]
      exact hpre

/-- What one statement brings about and none gives up holds in the end. `R` is what the statement goes
by, and it holds throughout. -/
theorem holds_of_run {P R : Database α → Prop} {ss : List (Statement α)}
    (hR : ∀ s ∈ ss, Holds R s) (hP : ∀ s ∈ ss, Holds P s) {s : Statement α} (hmem : s ∈ ss)
    (hs : ∀ db next, R db → s db = some next → P next) {db : Database α} (hdb : R db)
    (h : (run ss db).2 = true) : P (run ss db).1 := by
  obtain ⟨pre, post, rfl⟩ := List.append_of_mem hmem
  obtain ⟨before, hpre, hrun⟩ := run_append h
  rw [hrun] at h ⊢
  obtain ⟨after, hstep, hrun'⟩ := run_cons h
  have hstage := run_mem_stages pre db
  rw [hpre] at hstage
  have hbefore : R before :=
    holds_of_mem_stages (fun s hmem => hR s (List.mem_append_left _ hmem)) hdb hstage
  rw [hrun']
  refine holds_of_mem_stages (fun s hmem => ?_) (hs before after hbefore hstep) (run_mem_stages post after)
  exact hP s (List.mem_append_right _ (List.mem_cons_of_mem _ hmem))

section Holds

variable {P : Database α → Prop} {lost : String → Prop} {changed : String → String → Prop}
  {s s' : Statement α}

theorem Holds.and {Q : Database α → Prop} (h : Holds P s) (h' : Holds Q s) :
    Holds (fun db => P db ∧ Q db) s :=
  fun db next hdb hs => ⟨h db next hdb.1 hs, h' db next hdb.2 hs⟩

theorem Keeps.holds_isSome (h : Keeps lost changed s) {name : String} (hname : ¬ lost name) :
    Holds (fun db => (db.table? name).isSome) s :=
  fun db next hdb hs => (h db next hs).isSome hname hdb

theorem Keeps.holds_hasColumn (h : Keeps lost changed s) {table : String} (htable : ¬ lost table)
    (column : String) : Holds (fun db => db.hasColumn table column = true) s :=
  fun db next hdb hs => (h db next hs).hasColumn htable hdb

theorem holds_attempt (h : Holds P s) : Holds P (attempt s) := by
  intro db next hdb hnext
  obtain rfl := Option.some.inj hnext
  cases hs : s db with
  | none => exact hdb
  | some next => exact h db next hdb hs

theorem holds_both (h : Holds P s) (h' : Holds P s') : Holds P (both s s') := by
  intro db next hdb hnext
  obtain ⟨between, hs, hs'⟩ := Option.bind_eq_some_iff.mp hnext
  exact h' between next (h db between hdb hs) hs'

theorem holds_ensureColumn {table column : String} {default : α}
    (h : Holds P (addColumn table column default)) : Holds P (ensureColumn table column default) := by
  intro db next hdb hnext
  simp only [ensureColumn] at hnext
  split at hnext
  · obtain rfl := Option.some.inj hnext
    exact hdb
  · exact h db next hdb hnext

end Holds

def Unindexed (name table : String) (db : Database α) : Prop :=
  ∀ columns, db.objects name ≠ some (.index table columns)

section Unindexed

variable {name table : String}

theorem Unindexed.put {db : Database α} (h : Unindexed name table db) (other : String)
    {object : Object α} (hobject : ∀ columns, object ≠ .index table columns) :
    Unindexed name table (db.put other object) := by
  intro columns
  by_cases hname : name = other
  · subst hname
    simpa using hobject columns
  · rw [Database.objects_put_of_ne db object hname]
    exact h columns

theorem holds_createTable (other : String) (columns : List String) :
    Holds (Unindexed name table) (createTable (α := α) other columns) := by
  intro db next hdb h
  simp only [createTable] at h
  split at h
  · obtain rfl := Option.some.inj h
    exact hdb.put other (by simp)
  · obtain rfl := Option.some.inj h
    exact hdb
  · simp at h

theorem holds_createIndex (other : String) {on : String} (hon : on ≠ table) (columns : List String) :
    Holds (Unindexed name table) (createIndex (α := α) other on columns) := by
  intro db next hdb h
  simp only [createIndex] at h
  split at h
  · simp at h
  · obtain rfl := Option.some.inj h
    exact hdb
  · simp at h
  · split at h
    · obtain rfl := Option.some.inj h
      exact hdb.put other fun columns' heq => hon (Object.index.inj heq).1
    · simp at h

theorem holds_addColumn (other column : String) (default : α) :
    Holds (Unindexed name table) (addColumn other column default) := by
  intro db next hdb h
  simp only [addColumn] at h
  split at h
  · simp at h
  split at h
  · simp at h
  · obtain rfl := Option.some.inj h
    exact hdb.put other (by simp)

theorem holds_dropTable (other : String) :
    Holds (Unindexed name table) (dropTable (α := α) other) := by
  intro db next hdb h
  simp only [dropTable] at h
  split at h
  · obtain rfl := Option.some.inj h
    exact hdb
  obtain rfl := Option.some.inj h
  intro columns
  simp only
  split
  next table' columns' hindex =>
    split
    · simp
    · rintro heq
      exact hdb columns (hindex.trans heq)
  · split
    · simp
    · exact hdb columns

theorem holds_dropTrigger (trigger : String) :
    Holds (Unindexed name table) (dropTrigger (α := α) trigger) := by
  intro db next hdb h
  obtain rfl := Option.some.inj h
  exact hdb

theorem holds_createTrigger (trigger on : String) :
    Holds (Unindexed name table) (createTrigger (α := α) trigger on) := by
  intro db next hdb h
  simp only [createTrigger] at h
  split at h
  · simp at h
  split at h <;> obtain rfl := Option.some.inj h <;> exact hdb

theorem holds_updateRows (other : String) (named : List (String × String))
    (f : Database α → Row α → Row α) :
    Holds (Unindexed name table) (updateRows other named f) := by
  intro db next hdb h
  simp only [updateRows] at h
  split at h
  · simp at h
  split at h
  · obtain rfl := Option.some.inj h
    exact hdb.put other (by simp)
  · simp at h

end Unindexed

/-! ### Settling, from what the statements keep -/

theorem Settling.mono {P Q : Database α → Prop} {ss : List (Statement α)} (h : Settling Q ss)
    (hPQ : ∀ db, P db → Q db) : Settling P ss := by
  cases h with
  | nil => exact .nil
  | cons hsettled hnext hrest =>
      exact .cons (fun db next hdb => hsettled db next (hPQ db hdb))
        (fun db next hdb => hnext db next (hPQ db hdb)) hrest

/-- The statement keeps every table, holds on to `P`, and has no effect any more once it has had it,
though other statements follow that keep all tables but the lost ones. -/
structure Calm (P : Database α → Prop) (lost : String → Prop) (changed : String → String → Prop)
    (s : Statement α) : Prop where
  keeps : ∀ lost, Keeps lost changed s
  holds : Holds P s
  settled : ∀ db next mid, P db → s db = some next → Kept lost changed next mid → s mid = some mid

theorem Settling.append {P : Database α → Prop} {lost : String → Prop}
    {changed : String → String → Prop} {ss ss' : List (Statement α)}
    (hcalm : ∀ s ∈ ss, Calm P lost changed s) (hkeeps : ∀ s ∈ ss', Keeps lost changed s)
    (hrest : Settling P ss') : Settling P (ss ++ ss') := by
  induction ss with
  | nil => exact hrest
  | cons s ss ih =>
      have hs := hcalm s List.mem_cons_self
      have hss : ∀ s ∈ ss, Calm P lost changed s := fun s hmem => hcalm s (List.mem_cons_of_mem _ hmem)
      refine .cons (fun db next hdb hstep mid hmid => ?_) hs.holds (ih hss)
      apply hs.settled db next mid hdb hstep
      refine of_mem_stages .refl .trans (fun s' hmem => ?_) hmid
      rcases List.mem_append.mp hmem with hmem | hmem
      · exact (hss s' hmem).keeps lost
      · exact hkeeps s' hmem

section Calm

variable {P : Database α → Prop} {lost : String → Prop} {changed : String → String → Prop}

theorem calm_createTable {name : String} {columns : List String} (hname : ¬ lost name)
    (hholds : Holds P (createTable name columns)) : Calm P lost changed (createTable name columns) :=
  ⟨fun _ => keeps_createTable name columns, hholds, fun _ _ _ _ hs hkept =>
    createTable_later hname hs hkept⟩

theorem calm_createIndex {name table : String} {columns : List String} (htable : ¬ lost table)
    (hindexes : ∀ db, P db → ∀ t cs, db.objects name = some (.index t cs) → ¬ lost t)
    (hholds : Holds P (createIndex name table columns)) :
    Calm P lost changed (createIndex name table columns) :=
  ⟨fun _ => keeps_createIndex name table columns, hholds, fun db _ _ hdb hs hkept =>
    createIndex_later htable (hindexes db hdb) hs hkept⟩

theorem calm_ensureColumn {table column : String} {default : α} (htable : ¬ lost table)
    (hholds : Holds P (ensureColumn table column default)) :
    Calm P lost changed (ensureColumn table column default) :=
  ⟨fun _ => keeps_ensureColumn table column default, hholds, fun _ _ _ _ hs hkept =>
    ensureColumn_later htable hs hkept⟩

theorem calm_attempt {table column : String} {default : α} (htable : ¬ lost table)
    (hsome : ∀ db, P db → (db.table? table).isSome)
    (hholds : Holds P (attempt (addColumn table column default))) :
    Calm P lost changed (attempt (addColumn table column default)) :=
  ⟨fun _ => keeps_attempt (keeps_addColumn table column default), hholds,
    fun db _ _ hdb hs hkept => attempt_later htable (hsome db hdb) hs hkept⟩

end Calm

/-- That nothing comes in between makes no difference to what a whole run leaves, where the second does
not fail. -/
theorem run_both {s s' : Statement α} (hs' : ∀ db, (s' db).isSome) (pre ss : List (Statement α))
    (db : Database α) : run (pre ++ s :: s' :: ss) db = run (pre ++ both s s' :: ss) db := by
  induction pre generalizing db with
  | nil =>
      simp only [List.nil_append, run, both]
      cases s db with
      | none => rfl
      | some next =>
          obtain ⟨next', hnext'⟩ := Option.isSome_iff_exists.mp (hs' next)
          simp only [Option.bind_some, hnext']
  | cons first pre ih =>
      simp only [List.cons_append, run]
      cases first db with
      | none => rfl
      | some next => exact ih next

theorem mem_stages_both {s s' : Statement α} {pre ss : List (Statement α)} {db mid : Database α}
    (hmid : mid ∈ stages (pre ++ s :: s' :: ss) db) :
    mid ∈ stages (pre ++ both s s' :: ss) db ∨
      ∃ before ∈ stages (pre ++ both s s' :: ss) db, s before = some mid ∧
        ∀ next, s' mid = some next → next ∈ stages (pre ++ both s s' :: ss) db := by
  induction pre generalizing db with
  | nil =>
      simp only [List.nil_append, stages, both] at hmid ⊢
      rcases List.mem_cons.mp hmid with rfl | hmid
      · exact .inl List.mem_cons_self
      cases hs : s db with
      | none => simp [hs] at hmid
      | some next =>
          rw [hs] at hmid
          rcases List.mem_cons.mp hmid with rfl | hmid
          · refine .inr ⟨db, List.mem_cons_self, hs, fun next' hnext' => ?_⟩
            simp only [Option.bind_some, hnext']
            exact List.mem_cons_of_mem _ (mem_stages_self ss next')
          · left
            apply List.mem_cons_of_mem
            simpa only [Option.bind_some] using hmid
  | cons first pre ih =>
      simp only [List.cons_append, stages] at hmid ⊢
      rcases List.mem_cons.mp hmid with rfl | hmid
      · exact .inl List.mem_cons_self
      cases hfirst : first db with
      | none => simp [hfirst] at hmid
      | some next =>
          rw [hfirst] at hmid
          rcases ih hmid with hsame | ⟨before, hbefore, hs, hnext⟩
          · exact .inl (List.mem_cons_of_mem _ hsame)
          · exact .inr ⟨before, List.mem_cons_of_mem _ hbefore, hs, fun next' hnext' =>
              List.mem_cons_of_mem _ (hnext next' hnext')⟩

end Schema
