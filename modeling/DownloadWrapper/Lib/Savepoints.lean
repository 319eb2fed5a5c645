import Mathlib.Data.Option.Basic

/-!
# Savepoints

A connection to some data and the savepoints open on it. A statement takes effect, or it fails and
leaves the data as they were, or its failure rolls the whole transaction back.
-/

universe u

/-- The data as the connection sees them, and what they were at each open savepoint, the latest
first. -/
structure Connection (α : Type u) where
  data : α
  savepoints : List (String × α) := []

/-- How a statement ends: carried out, failed alone, or failed together with its transaction. -/
inductive Reply where
  | granted
  | refused
  | lost
  deriving DecidableEq

namespace Connection

variable {α : Type u}

def savepoint (name : String) (c : Connection α) : Option (Connection α) :=
  some { c with savepoints := (name, c.data) :: c.savepoints }

/-- A statement on the data; a constraint may stop it. -/
def update (f : α → Option α) (c : Connection α) : Option (Connection α) :=
  (f c.data).map fun data => { c with data := data }

def rollbackTo (name : String) (c : Connection α) : Option (Connection α) :=
  match c.savepoints.dropWhile (·.1 ≠ name) with
  | [] => none
  | (name, data) :: below => some { data := data, savepoints := (name, data) :: below }

def release (name : String) (c : Connection α) : Option (Connection α) :=
  match c.savepoints.dropWhile (·.1 ≠ name) with
  | [] => none
  | _ :: below => some { c with savepoints := below }

def abandon (c : Connection α) : Connection α :=
  { data := (c.savepoints.getLast?.map Prod.snd).getD c.data, savepoints := [] }

def run (reply : Reply) (statement : Connection α → Option (Connection α)) (c : Connection α) :
    Bool × Connection α :=
  match reply with
  | .granted =>
      match statement c with
      | some c' => (true, c')
      | none => (false, c)
  | .refused => (false, c)
  | .lost => (false, c.abandon)

def runAll (c : Connection α) :
    List (Reply × (Connection α → Option (Connection α))) → Bool × Connection α
  | [] => (true, c)
  | (reply, statement) :: rest =>
      match run reply statement c with
      | (true, c') => c'.runAll rest
      | (false, c') => (false, c')

variable {name : String} {c c' : Connection α}

theorem update_eq_some_iff {f : α → Option α} :
    c.update f = some c' ↔ f c.data = some c'.data ∧ c'.savepoints = c.savepoints := by
  obtain ⟨data', savepoints'⟩ := c'
  simp only [update, Option.map_eq_some_iff, Connection.mk.injEq]
  constructor
  · rintro ⟨data, hf, rfl, rfl⟩
    exact ⟨hf, rfl⟩
  · rintro ⟨hf, rfl⟩
    exact ⟨_, hf, rfl, rfl⟩

theorem run_fst_eq_true {reply : Reply} {statement : Connection α → Option (Connection α)}
    (h : (run reply statement c).1 = true) : reply = .granted := by
  cases reply with
  | granted => rfl
  | refused => cases h
  | lost => cases h

def updates (steps : List (Reply × (α → Option α))) :
    List (Reply × (Connection α → Option (Connection α))) :=
  steps.map fun step => (step.1, update step.2)

theorem granted_of_runAll {steps : List (Reply × (Connection α → Option (Connection α)))}
    (h : (c.runAll steps).1 = true) : ∀ step ∈ steps, step.1 = .granted := by
  induction steps generalizing c with
  | nil => simp
  | cons step steps ih =>
      obtain ⟨reply, statement⟩ := step
      rw [runAll] at h
      split at h
      next c' hrun =>
        have hanswer := run_fst_eq_true (congrArg Prod.fst hrun)
        exact List.forall_mem_cons.mpr ⟨hanswer, ih h⟩
      next => cases h

/-- When every statement is carried out, the block does what its changes do in turn. -/
theorem runAll_updates {steps : List (Reply × (α → Option α))} {data : α}
    (hgranted : ∀ step ∈ steps, step.1 = .granted)
    (hdata : steps.foldlM (fun data step => step.2 data) c.data = some data) :
    c.runAll (updates steps) = (true, { c with data := data }) := by
  induction steps generalizing c with
  | nil =>
      obtain rfl := Option.some.inj hdata
      rfl
  | cons step steps ih =>
      obtain ⟨reply, f⟩ := step
      obtain ⟨hanswer, hrest⟩ := List.forall_mem_cons.mp hgranted
      obtain rfl : reply = .granted := hanswer
      obtain ⟨middle, hf, hmiddle⟩ := Option.bind_eq_some_iff.mp hdata
      have hupdate : c.update f = some { c with data := middle } :=
        update_eq_some_iff.mpr ⟨hf, rfl⟩
      have hrun : run .granted (update f) c = (true, { c with data := middle }) := by
        rw [run, hupdate]
      rw [updates, List.map_cons, runAll, hrun]
      exact ih hrest hmiddle

/-- A savepoint stands open on what the connection was. -/
def OpenOn (name : String) (c c' : Connection α) : Prop :=
  c'.savepoints = (name, c.data) :: c.savepoints

/-- Where a block under a savepoint may leave the connection: the savepoint is still open, or the
transaction that it had opened is lost and everything is as it was. -/
def Inside (name : String) (c c' : Connection α) : Prop :=
  OpenOn name c c' ∨ c.savepoints = [] ∧ c' = c

theorem OpenOn.release (h : OpenOn name c c') :
    c'.release name = some { c' with savepoints := c.savepoints } := by
  rw [OpenOn] at h
  simp [Connection.release, h]

theorem OpenOn.abandon (h : OpenOn name c c') (hlost : c.savepoints = []) : c'.abandon = c := by
  obtain ⟨data, savepoints⟩ := c
  obtain rfl : savepoints = [] := hlost
  rw [OpenOn] at h
  simp [Connection.abandon, h]

theorem OpenOn.run_update (h : OpenOn name c c') {reply : Reply} (f : α → Option α)
    (hlost : reply = .lost → c.savepoints = []) {ok : Bool} {c'' : Connection α}
    (hrun : run reply (update f) c' = (ok, c'')) :
    if ok then OpenOn name c c'' else Inside name c c'' := by
  cases reply with
  | granted =>
      cases hupdate : c'.update f with
      | none =>
          obtain ⟨rfl, rfl⟩ := Prod.mk.inj ((by rw [run, hupdate] : _ = _).symm.trans hrun)
          exact Or.inl h
      | some updated =>
          obtain ⟨rfl, rfl⟩ := Prod.mk.inj ((by rw [run, hupdate] : _ = _).symm.trans hrun)
          exact (update_eq_some_iff.mp hupdate).2.trans h
  | refused =>
      obtain ⟨rfl, rfl⟩ := Prod.mk.inj hrun
      exact Or.inl h
  | lost =>
      obtain ⟨rfl, rfl⟩ := Prod.mk.inj hrun
      exact Or.inr ⟨hlost rfl, h.abandon (hlost rfl)⟩

theorem OpenOn.runAll_updates {steps : List (Reply × (α → Option α))} (h : OpenOn name c c')
    (hlost : ∀ step ∈ steps, step.1 = .lost → c.savepoints = []) :
    Inside name c (c'.runAll (updates steps)).2 := by
  induction steps generalizing c' with
  | nil => exact Or.inl h
  | cons step steps ih =>
      obtain ⟨reply, f⟩ := step
      obtain ⟨hfirst, hrest⟩ := List.forall_mem_cons.mp hlost
      rw [updates, List.map_cons, runAll]
      cases hrun : run reply (update f) c' with
      | mk ok c'' =>
          have hstep := h.run_update f hfirst hrun
          cases ok with
          | true => exact ih hstep hrest
          | false => exact hstep

/-- Going back to the savepoint and closing it ends in what the connection was; so does finding it
gone. -/
theorem Inside.rollback (h : Inside name c c') :
    (c'.runAll [(.granted, rollbackTo name), (.granted, release name)]).2 = c := by
  rcases h with hopen | ⟨hnone, rfl⟩
  · rw [OpenOn] at hopen
    simp [runAll, run, rollbackTo, Connection.release, hopen]
  · simp [runAll, run, rollbackTo, hnone]

end Connection
