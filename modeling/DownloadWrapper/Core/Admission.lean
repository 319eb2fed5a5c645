import DownloadWrapper.Core.Scheduler
import Mathlib.Algebra.Order.Ring.Unbundled.Rat
import Mathlib.Data.Prod.Lex

/-!
# What one admission round does

The loop ends, because every pass that goes round again takes a task out of the queue or a download
out of the running ones. What it calls, and where it ends, are facts every pass keeps.
-/

namespace DownloadWrapper

/-- The place of a task in the queue; the greater goes first. -/
def rank (task : Task) : Bool ×ₗ Int ×ₗ Intᵒᵈ :=
  toLex (task.force, toLex (task.priority, OrderDual.toDual task.createdAt))

theorem outranks_iff (task next : Task) : outranks task next = true ↔ rank next < rank task := by
  simp only [outranks, rank, Prod.Lex.toLex_lt_toLex, OrderDual.toDual_lt_toDual, Bool.or_eq_true,
    Bool.and_eq_true, Bool.not_eq_true', decide_eq_true_eq, Bool.lt_iff]
  constructor
  · rintro ((⟨h, h'⟩ | ⟨h, h'⟩) | ⟨⟨h, h'⟩, h''⟩)
    · exact Or.inl ⟨h', h⟩
    · exact Or.inr ⟨h.symm, Or.inl h'⟩
    · exact Or.inr ⟨h.symm, Or.inr ⟨h'.symm, h''⟩⟩
  · rintro (⟨h, h'⟩ | ⟨h, h' | ⟨h', h''⟩⟩)
    · exact Or.inl (Or.inl ⟨h', h⟩)
    · exact Or.inl (Or.inr ⟨h.symm, h'⟩)
    · exact Or.inr ⟨⟨h.symm, h'.symm⟩, h''⟩

theorem force_of_rank_le {task next : Task} (hle : rank task ≤ rank next) (hforce : task.force = true) :
    next.force = true := by
  by_contra hnot
  have hless : rank next < rank task := by
    rw [← outranks_iff]
    simp only [outranks, hforce, Bool.not_eq_true] at hnot ⊢
    simp [hnot]
  exact absurd hle (not_le.mpr hless)

/-- The slower of two downloads has the greater one. -/
def slowness (task : Task) : ℚᵒᵈ := OrderDual.toDual task.downloadRate

section Rounds

variable {ω : Type*} {engines : Engines ω}

theorem nextTask_eq_none_iff {registry : Registry} :
    nextTask engines registry = none ↔ ∀ task ∈ registry, admissible engines task = false :=
  Selection.select_eq_none_iff

theorem nextTask_spec {registry : Registry} {next : Task}
    (h : nextTask engines registry = some next) :
    next ∈ registry ∧ admissible engines next = true ∧
      ∀ task ∈ registry, admissible engines task = true → rank task ≤ rank next :=
  Selection.select_spec outranks_iff h

theorem slowestTask_eq_none_iff {registry : Registry} :
    slowestTask engines registry = none ↔ ∀ task ∈ registry, pausable engines task = false :=
  Selection.select_eq_none_iff

theorem slowestTask_spec {registry : Registry} {slowest : Task}
    (h : slowestTask engines registry = some slowest) :
    slowest ∈ registry ∧ pausable engines slowest = true ∧
      ∀ task ∈ registry, pausable engines task = true →
        slowest.downloadRate ≤ task.downloadRate := by
  have hslower : ∀ task slowest : Task, slower task slowest = true ↔
      slowness slowest < slowness task := by
    simp [slower, slowness]
  exact Selection.select_spec hslower h

end Rounds

/-! ### What is claimed of a round -/

section RightCalls

variable {ω : Type*} (cfg : ManagerConfig) (engines : Engines ω)

/-- A dispatch takes the best queued task, and only while a slot is free. -/
structure RightDispatch (call : Call) : Prop where
  mem : call.task ∈ call.registry
  admissible : admissible engines call.task = true
  best : ∀ task ∈ call.registry, DownloadWrapper.admissible engines task = true →
    rank task ≤ rank call.task
  slot : (activeCount call.registry : Int) < cfg.maxConcurrentDownloads

/-- A pause makes room for a forced task, and takes the slowest download. -/
structure RightPause (call : Call) : Prop where
  full : cfg.maxConcurrentDownloads ≤ activeCount call.registry
  forced : ∃ next ∈ call.registry, admissible engines next = true ∧ next.force = true ∧
    ∀ task ∈ call.registry, admissible engines task = true → rank task ≤ rank next
  mem : call.task ∈ call.registry
  pausable : pausable engines call.task = true
  slowest : ∀ task ∈ call.registry, DownloadWrapper.pausable engines task = true →
    call.task.downloadRate ≤ task.downloadRate

def RightCall (call : Call) : Prop :=
  match call.kind with
  | .resume => RightDispatch cfg engines call
  | .pause => RightPause cfg engines call

def dispatched (calls : List Call) : List Task :=
  (calls.filter fun call => call.kind = .resume).map Call.task

def Smooth (calls : List Call) : Prop :=
  ∀ call ∈ calls, match call.kind with
    | .resume => call.result.code ≠ .fail
    | .pause => call.result.code = .none

def Settled (registry : Registry) : Prop :=
  (∀ task ∈ registry, admissible engines task = false) ∨
    cfg.maxConcurrentDownloads ≤ activeCount registry ∧
      ((∀ task ∈ registry, admissible engines task = true → task.force = false) ∨
        (∃ task ∈ registry, admissible engines task = true ∧ task.force = true) ∧
          ∀ task ∈ registry, pausable engines task = false)

structure Admitting (start : Registry) (s : Round ω) : Prop where
  calls : ∀ call ∈ s.calls, RightCall cfg engines call
  sorted : (dispatched s.calls).Pairwise fun later earlier => rank later ≤ rank earlier
  below : ∀ task ∈ s.registry, admissible engines task = true →
    ∀ earlier ∈ dispatched s.calls, rank task ≤ rank earlier
  count : (activeCount s.registry : Int) ≤ max cfg.maxConcurrentDownloads (activeCount start)

/-- What is left to do: a queued task takes at most two passes, a running one at most one. -/
def work (registry : Registry) : Nat :=
  2 * registry.count (admissible engines) + registry.count (pausable engines)

end RightCalls

/-! ### One pass -/

section Pass

variable {ω : Type*} (cfg : ManagerConfig) (engines : Engines ω)

def AnswersPause (s : Round ω) (task : Task) (result : SubmitResult) (world : ω) : Prop :=
  ∃ engine, engines.engineOf task.taskProtocol = some engine ∧
    engine.pauseTask (paramsOf cfg task) s.registry s.world = (result, world)

def AnswersResume (s : Round ω) (task : Task) (result : SubmitResult) (world : ω) : Prop :=
  ∃ engine, engines.engineOf task.taskProtocol = some engine ∧
    engine.doResume { paramsOf cfg task with filePriorities := task.priorityFileIndexes } s.registry
      s.world = (result, world)

inductive Pass (s : Round ω) : Round ω → Bool → Prop where
  | idle (hnext : nextTask engines s.registry = none) : Pass s s false
  | full (next : Task) (hnext : nextTask engines s.registry = some next)
      (hfull : cfg.maxConcurrentDownloads ≤ activeCount s.registry) (hforce : next.force = false) :
      Pass s s false
  | noRoom (next : Task) (hnext : nextTask engines s.registry = some next)
      (hfull : cfg.maxConcurrentDownloads ≤ activeCount s.registry) (hforce : next.force = true)
      (hslowest : slowestTask engines s.registry = none) : Pass s s false
  | pauseFailed (next slowest : Task) (result : SubmitResult) (world : ω)
      (hnext : nextTask engines s.registry = some next)
      (hfull : cfg.maxConcurrentDownloads ≤ activeCount s.registry) (hforce : next.force = true)
      (hslowest : slowestTask engines s.registry = some slowest)
      (hcall : AnswersPause cfg engines s slowest result world) (hcode : result.code ≠ .none) :
      Pass s ⟨s.registry, world, ⟨.pause, slowest, s.registry, result⟩ :: s.calls⟩ false
  | paused (next slowest : Task) (result : SubmitResult) (world : ω) (now : Int)
      (hnext : nextTask engines s.registry = some next)
      (hfull : cfg.maxConcurrentDownloads ≤ activeCount s.registry) (hforce : next.force = true)
      (hslowest : slowestTask engines s.registry = some slowest)
      (hcall : AnswersPause cfg engines s slowest result world) (hcode : result.code = .none) :
      Pass s ⟨s.registry.modify slowest.taskId (settlePaused now) fun _ => rfl, world,
        ⟨.pause, slowest, s.registry, result⟩ :: s.calls⟩ true
  | resumeFailed (next : Task) (result : SubmitResult) (world : ω)
      (hnext : nextTask engines s.registry = some next)
      (hslot : (activeCount s.registry : Int) < cfg.maxConcurrentDownloads)
      (hcall : AnswersResume cfg engines s next result world) (hcode : result.code = .fail) :
      Pass s ⟨s.registry, world, ⟨.resume, next, s.registry, result⟩ :: s.calls⟩ false
  | resumed (next : Task) (result : SubmitResult) (world : ω) (now : Int)
      (hnext : nextTask engines s.registry = some next)
      (hslot : (activeCount s.registry : Int) < cfg.maxConcurrentDownloads)
      (hcall : AnswersResume cfg engines s next result world) (hcode : result.code ≠ .fail) :
      Pass s ⟨s.registry.modify next.taskId (settleDispatched now result) fun _ => rfl, world,
        ⟨.resume, next, s.registry, result⟩ :: s.calls⟩ true

variable {cfg engines}

theorem pass_preempt {s : Round ω} {next : Task} (hnext : nextTask engines s.registry = some next)
    (hfull : cfg.maxConcurrentDownloads ≤ activeCount s.registry) (hforce : next.force = true) :
    Pass cfg engines s (preempt cfg engines s).1 (preempt cfg engines s).2 := by
  rw [preempt]
  cases hslowest : slowestTask engines s.registry with
  | none => exact .noRoom next hnext hfull hforce hslowest
  | some slowest =>
      have hpausable := (slowestTask_spec hslowest).2.1
      simp only [pausable, Bool.and_eq_true, Option.isSome_iff_exists] at hpausable
      obtain ⟨-, engine, hengine⟩ := hpausable
      simp only [hengine]
      rcases hpause : engine.pauseTask (paramsOf cfg slowest) s.registry s.world with ⟨result, world⟩
      simp only [hpause]
      by_cases hcode : result.code = .none
      · rw [if_neg (not_not.mpr hcode)]
        exact .paused next slowest result world _ hnext hfull hforce hslowest
          ⟨engine, hengine, hpause⟩ hcode
      · rw [if_pos hcode]
        exact .pauseFailed next slowest result world hnext hfull hforce hslowest
          ⟨engine, hengine, hpause⟩ hcode

theorem pass_dispatch {s : Round ω} {next : Task} (hnext : nextTask engines s.registry = some next)
    (hslot : (activeCount s.registry : Int) < cfg.maxConcurrentDownloads) :
    Pass cfg engines s (dispatch cfg engines s next).1 (dispatch cfg engines s next).2 := by
  rw [dispatch]
  have hadmissible := (nextTask_spec hnext).2.1
  simp only [admissible, Bool.and_eq_true, Option.isSome_iff_exists] at hadmissible
  obtain ⟨-, engine, hengine⟩ := hadmissible
  simp only [hengine]
  rcases hresume : engine.doResume { paramsOf cfg next with
    filePriorities := next.priorityFileIndexes } s.registry s.world with ⟨result, world⟩
  simp only [hresume]
  by_cases hcode : result.code = .fail
  · rw [if_pos hcode]
    exact .resumeFailed next result world hnext hslot ⟨engine, hengine, hresume⟩ hcode
  · rw [if_neg hcode]
    exact .resumed next result world _ hnext hslot ⟨engine, hengine, hresume⟩ hcode

theorem pass_admitOne (s : Round ω) :
    Pass cfg engines s (admitOne cfg engines s).1 (admitOne cfg engines s).2 := by
  rw [admitOne]
  cases hnext : nextTask engines s.registry with
  | none => exact .idle hnext
  | some next =>
      simp only
      split
      next hfull =>
        cases hforce : next.force with
        | false => exact .full next hnext hfull hforce
        | true => exact pass_preempt hnext hfull hforce
      next hfree => exact pass_dispatch hnext (not_le.mp hfree)

theorem occupiesSlot_of_pausable {task : Task} (h : pausable engines task = true) :
    occupiesSlot task = true := by
  simp only [pausable, Bool.and_eq_true, decide_eq_true_eq] at h
  simp [occupiesSlot, statusOccupiesSlot, h.1]

theorem occupiesSlot_of_admissible {task : Task} (h : admissible engines task = true) :
    occupiesSlot task = false := by
  simp only [admissible, Bool.and_eq_true, decide_eq_true_eq] at h
  simp [occupiesSlot, statusOccupiesSlot, h.1]

theorem admissible_settlePaused (now : Int) (task : Task) :
    admissible engines (settlePaused now task) = false := by
  simp [admissible, settlePaused]

theorem pausable_settlePaused (now : Int) (task : Task) :
    pausable engines (settlePaused now task) = false := by
  simp [pausable, settlePaused]

theorem admissible_settleDispatched (now : Int) (result : SubmitResult) (task : Task) :
    admissible engines (settleDispatched now result task) = false := by
  simp only [admissible, settleDispatched]
  split <;> simp

theorem activeCount_settlePaused {registry : Registry} {task : Task} (hmem : task ∈ registry)
    (hpausable : pausable engines task = true) (now : Int) :
    activeCount (registry.modify task.taskId (settlePaused now) fun _ => rfl) + 1 = activeCount registry := by
  have hcount := KeyedList.count_modify occupiesSlot hmem (settlePaused now) fun _ => rfl
  have hgone : occupiesSlot (settlePaused now task) = false := by
    simp [occupiesSlot, settlePaused, statusOccupiesSlot]
  rwa [occupiesSlot_of_pausable hpausable, hgone, Bool.toNat_true, Bool.toNat_false] at hcount

theorem activeCount_settleDispatched {registry : Registry} {task : Task} (hmem : task ∈ registry)
    (hadmissible : admissible engines task = true) (now : Int) (result : SubmitResult) :
    activeCount (registry.modify task.taskId (settleDispatched now result) fun _ => rfl) =
      activeCount registry + (occupiesSlot (settleDispatched now result task)).toNat := by
  have hcount := KeyedList.count_modify occupiesSlot hmem (settleDispatched now result) fun _ => rfl
  rwa [occupiesSlot_of_admissible hadmissible, Bool.toNat_false] at hcount

/-- **A pass that goes round again leaves less to do.** -/
theorem work_lt_of_pass {s s' : Round ω} (h : Pass cfg engines s s' true) :
    work engines s'.registry < work engines s.registry := by
  cases h with
  | paused next slowest result world now hnext hfull hforce hslowest hcall hcode =>
      obtain ⟨hmem, hpausable, -⟩ := slowestTask_spec hslowest
      have hqueued := KeyedList.count_modify (admissible engines) hmem (settlePaused now) fun _ => rfl
      have hrunning := KeyedList.count_modify (pausable engines) hmem (settlePaused now) fun _ => rfl
      rw [admissible_settlePaused] at hqueued
      rw [hpausable, pausable_settlePaused] at hrunning
      simp only [work, Bool.toNat_true, Bool.toNat_false] at hqueued hrunning ⊢
      omega
  | resumed next result world now hnext hslot hcall hcode =>
      obtain ⟨hmem, hadmissible, -⟩ := nextTask_spec hnext
      have hqueued := KeyedList.count_modify (admissible engines) hmem (settleDispatched now result)
        fun _ => rfl
      have hrunning := KeyedList.count_modify (pausable engines) hmem (settleDispatched now result)
        fun _ => rfl
      have hone := Bool.toNat_le (pausable engines (settleDispatched now result next))
      rw [admissible_settleDispatched, hadmissible] at hqueued
      simp only [work, Bool.toNat_true, Bool.toNat_false] at hqueued hrunning ⊢
      omega

theorem rightPause_of_slowest {registry : Registry} {next slowest : Task} (result : SubmitResult)
    (hnext : nextTask engines registry = some next)
    (hfull : cfg.maxConcurrentDownloads ≤ activeCount registry) (hforce : next.force = true)
    (hslowest : slowestTask engines registry = some slowest) :
    RightCall cfg engines ⟨.pause, slowest, registry, result⟩ := by
  obtain ⟨hmem, hadmissible, hbest⟩ := nextTask_spec hnext
  obtain ⟨hslow, hpausable, hall⟩ := slowestTask_spec hslowest
  exact RightPause.mk hfull ⟨next, hmem, hadmissible, hforce, hbest⟩ hslow hpausable hall

theorem rightDispatch_of_next {registry : Registry} {next : Task} (result : SubmitResult)
    (hnext : nextTask engines registry = some next)
    (hslot : (activeCount registry : Int) < cfg.maxConcurrentDownloads) :
    RightCall cfg engines ⟨.resume, next, registry, result⟩ := by
  obtain ⟨hmem, hadmissible, hbest⟩ := nextTask_spec hnext
  exact RightDispatch.mk hmem hadmissible hbest hslot

theorem mem_of_admissible_modify {registry : Registry} {k : String} {f : Task → Task}
    (hf : ∀ task, (f task).taskId = task.taskId) (hout : ∀ task, admissible engines (f task) = false)
    {task : Task} (hmem : task ∈ registry.modify k f hf) (h : admissible engines task = true) :
    task ∈ registry := by
  rcases KeyedList.mem_modify.mp hmem with ⟨hold, -⟩ | ⟨old, -, -, rfl⟩
  · exact hold
  · rw [hout] at h
    exact absurd h (by simp)

/-- **What every pass keeps.** -/
theorem Admitting.pass {start : Registry} {s s' : Round ω} {again : Bool}
    (h : Admitting cfg engines start s) (hpass : Pass cfg engines s s' again) :
    Admitting cfg engines start s' := by
  cases hpass with
  | idle hnext => exact h
  | full next hnext hfull hforce => exact h
  | noRoom next hnext hfull hforce hslowest => exact h
  | pauseFailed next slowest result world hnext hfull hforce hslowest hcall hcode =>
      exact ⟨List.forall_mem_cons.mpr ⟨rightPause_of_slowest result hnext hfull hforce hslowest,
        h.calls⟩, h.sorted, h.below, h.count⟩
  | paused next slowest result world now hnext hfull hforce hslowest hcall hcode =>
      obtain ⟨hmem, hpausable, -⟩ := slowestTask_spec hslowest
      have hcount := activeCount_settlePaused hmem hpausable now
      refine ⟨List.forall_mem_cons.mpr ⟨rightPause_of_slowest result hnext hfull hforce hslowest,
        h.calls⟩, h.sorted, fun task htask hadmissible => ?_, ?_⟩
      · have hold : task ∈ s.registry := mem_of_admissible_modify (f := settlePaused now)
          (fun _ => rfl) (admissible_settlePaused now) htask hadmissible
        exact h.below task hold hadmissible
      · have hbefore := h.count
        dsimp only at hbefore ⊢
        omega
  | resumeFailed next result world hnext hslot hcall hcode =>
      have hnot : ∀ earlier ∈ dispatched s.calls, rank next ≤ rank earlier :=
        h.below next (nextTask_spec hnext).1 (nextTask_spec hnext).2.1
      refine ⟨List.forall_mem_cons.mpr ⟨rightDispatch_of_next result hnext hslot, h.calls⟩,
        List.pairwise_cons.mpr ⟨hnot, h.sorted⟩, ?_, h.count⟩
      exact fun task htask hadmissible => List.forall_mem_cons.mpr
        ⟨(nextTask_spec hnext).2.2 task htask hadmissible, h.below task htask hadmissible⟩
  | resumed next result world now hnext hslot hcall hcode =>
      obtain ⟨hmem, hqueued, hbest⟩ := nextTask_spec hnext
      have hcount := activeCount_settleDispatched hmem hqueued now result
      have hone := Bool.toNat_le (occupiesSlot (settleDispatched now result next))
      refine ⟨List.forall_mem_cons.mpr ⟨rightDispatch_of_next result hnext hslot, h.calls⟩,
        List.pairwise_cons.mpr ⟨h.below next hmem hqueued, h.sorted⟩, ?_, ?_⟩
      · intro task htask hadmissible
        have hold : task ∈ s.registry := mem_of_admissible_modify (f := settleDispatched now result)
          (fun _ => rfl) (admissible_settleDispatched now result) htask hadmissible
        exact List.forall_mem_cons.mpr ⟨hbest task hold hadmissible, h.below task hold hadmissible⟩
      · dsimp only at hslot ⊢
        omega

theorem settled_of_pass {s s' : Round ω} (h : Pass cfg engines s s' false) (hsmooth : Smooth s'.calls) :
    Settled cfg engines s'.registry := by
  cases h with
  | idle hnext => exact Or.inl (nextTask_eq_none_iff.mp hnext)
  | full next hnext hfull hforce =>
      refine Or.inr ⟨hfull, Or.inl fun task htask hadmissible => ?_⟩
      by_contra hforced
      have hle := (nextTask_spec hnext).2.2 task htask hadmissible
      rw [force_of_rank_le hle (by simpa using hforced)] at hforce
      exact absurd hforce (by simp)
  | noRoom next hnext hfull hforce hslowest =>
      obtain ⟨hmem, hadmissible, -⟩ := nextTask_spec hnext
      exact Or.inr ⟨hfull, Or.inr ⟨⟨next, hmem, hadmissible, hforce⟩,
        slowestTask_eq_none_iff.mp hslowest⟩⟩
  | pauseFailed next slowest result world hnext hfull hforce hslowest hcall hcode =>
      exact absurd (hsmooth _ List.mem_cons_self) hcode
  | resumeFailed next result world hnext hslot hcall hcode =>
      exact absurd hcode (hsmooth _ List.mem_cons_self)

end Pass

/-! ### The round -/

section Round

variable {ω : Type*} {cfg : ManagerConfig} {engines : Engines ω}

/-- With enough fuel the loop ends, in one state whatever the fuel, and what every pass keeps holds
there. -/
theorem admissionLoop_ends (hlimit : 0 < cfg.maxConcurrentDownloads) {start : Registry} (n : Nat)
    {s : Round ω} (hwork : work engines s.registry ≤ n) (hs : Admitting cfg engines start s) :
    ∃ s', (∀ fuel, n < fuel → admissionLoop cfg engines fuel s = some s') ∧
      Admitting cfg engines start s' ∧ (Smooth s'.calls → Settled cfg engines s'.registry) := by
  induction n generalizing s with
  | zero =>
      have hpass := @pass_admitOne ω cfg engines s
      rcases hone : admitOne cfg engines s with ⟨s', again⟩
      rw [hone] at hpass
      cases again with
      | true => exact absurd (work_lt_of_pass hpass) (by omega)
      | false =>
          refine ⟨s', fun fuel hfuel => ?_, hs.pass hpass, settled_of_pass hpass⟩
          obtain ⟨k, rfl⟩ := Nat.exists_eq_succ_of_ne_zero (by omega : fuel ≠ 0)
          rw [admissionLoop, if_pos hlimit, hone]
  | succ n ih =>
      have hpass := @pass_admitOne ω cfg engines s
      rcases hone : admitOne cfg engines s with ⟨s', again⟩
      rw [hone] at hpass
      cases again with
      | true =>
          have hless := work_lt_of_pass hpass
          obtain ⟨s'', hloop, hend⟩ := ih (by omega) (hs.pass hpass)
          refine ⟨s'', fun fuel hfuel => ?_, hend⟩
          obtain ⟨k, rfl⟩ := Nat.exists_eq_succ_of_ne_zero (by omega : fuel ≠ 0)
          rw [admissionLoop, if_pos hlimit, hone]
          exact hloop k (by omega)
      | false =>
          refine ⟨s', fun fuel hfuel => ?_, hs.pass hpass, settled_of_pass hpass⟩
          obtain ⟨k, rfl⟩ := Nat.exists_eq_succ_of_ne_zero (by omega : fuel ≠ 0)
          rw [admissionLoop, if_pos hlimit, hone]

theorem admissionLoop_invariant {P : Round ω → Prop}
    (hpass : ∀ s s' again, P s → Pass cfg engines s s' again → P s')
    (hlimit : 0 < cfg.maxConcurrentDownloads) {fuel : Nat} {s s' : Round ω} (hs : P s)
    (hloop : admissionLoop cfg engines fuel s = some s') : ∃ last, P last ∧ Pass cfg engines last s' false := by
  induction fuel generalizing s with
  | zero => simp [admissionLoop] at hloop
  | succ fuel ih =>
      have hone := @pass_admitOne ω cfg engines s
      rw [admissionLoop, if_pos hlimit] at hloop
      rcases hround : admitOne cfg engines s with ⟨mid, again⟩
      rw [hround] at hone hloop
      cases again with
      | true => exact ih (hpass s mid true hs hone) hloop
      | false =>
          obtain rfl := Option.some.inj hloop
          exact ⟨s, hs, hone⟩

/-- **One admission round.** It ends. Every dispatch takes the best queued task while a slot is free,
so the dispatched tasks come in the order of the queue; every pause takes the slowest download, for
a forced task with no slot. The count stays within the limit or where it started, and a round none of
whose calls failed leaves nothing it could admit. -/
theorem admissionLoop_spec (hlimit : 1 ≤ cfg.maxConcurrentDownloads) (registry : Registry)
    (world : ω) :
    ∃ s', (∀ fuel, work engines registry < fuel →
        admissionLoop cfg engines fuel ⟨registry, world, []⟩ = some s') ∧
      (∀ call ∈ s'.calls, RightCall cfg engines call) ∧
      ((dispatched s'.calls).Pairwise fun later earlier => rank later ≤ rank earlier) ∧
      (activeCount s'.registry : Int) ≤ max cfg.maxConcurrentDownloads (activeCount registry) ∧
      (Smooth s'.calls → Settled cfg engines s'.registry) := by
  have hstart : Admitting cfg engines registry (⟨registry, world, []⟩ : Round ω) :=
    ⟨by simp, List.Pairwise.nil, by simp [dispatched], le_max_right _ _⟩
  obtain ⟨s', hloop, hend, hsettled⟩ := admissionLoop_ends (by omega) _ le_rfl hstart
  exact ⟨s', hloop, hend.calls, hend.sorted, hend.count, hsettled⟩

end Round

def willingEngine : Engine Unit where
  pauseTask _ _ _ := (.success, ())
  doResume _ _ _ := (.success, ())

def willingEngines : Engines Unit := ⟨some willingEngine, some willingEngine, fun _ => 0⟩

def oneSlot : ManagerConfig := { clientId := "c", savePath := "/d", maxConcurrentDownloads := 1 }

def forcedPair : Registry where
  entries :=
    [{ taskId := "a", taskProtocol := .http, status := .downloading },
      { taskId := "b", taskProtocol := .torrent, status := .queued, force := true }]
  nodup := by decide

/-- The forced task takes the slot. -/
theorem admissionLoop_spec_forcedPair :
    ∃ s', admissionLoop oneSlot willingEngines 4 ⟨forcedPair, (), []⟩ = some s' ∧
      s'.calls.map Call.kind = [.resume, .pause] ∧
      ∀ call ∈ s'.calls, RightCall oneSlot willingEngines call := by
  obtain ⟨s', hloop, hcalls, -⟩ :=
    @admissionLoop_spec Unit oneSlot willingEngines (by decide) forcedPair ()
  have hrun := hloop 4 (by decide)
  have hkinds : (admissionLoop oneSlot willingEngines 4 ⟨forcedPair, (), []⟩).map
      (fun s => s.calls.map Call.kind) = some [.resume, .pause] := by decide +kernel
  rw [hrun] at hkinds
  exact ⟨s', hrun, Option.some.inj hkinds, hcalls⟩

end DownloadWrapper
