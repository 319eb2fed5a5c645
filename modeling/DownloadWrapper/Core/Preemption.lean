import DownloadWrapper.Core.Admission
import Mathlib.Data.List.Perm.Subperm

/-!
# Forced tasks

A round makes room for its forced tasks one by one, each time by pausing the slowest download. A forced
task that was dispatched is a download like any other, and one that has not moved a byte is the
slowest of all. So the round keeps what it admitted exactly when enough downloads are slower than
every forced task but the last one.
-/

namespace DownloadWrapper

def forcedWaiting (task : Task) : Bool := task.status = .queued && task.force

def slotsToFree (cfg : ManagerConfig) (registry : Registry) : Nat :=
  if registry.count forcedWaiting = 0 then 0
  else (activeCount registry + registry.count forcedWaiting - cfg.maxConcurrentDownloads).toNat

def evicted (calls : List Call) : List Task :=
  (calls.filter fun call => call.kind = .pause).map Call.task

def Succeeded (calls : List Call) : Prop := ∀ call ∈ calls, call.result.code = .none

def Spares (start : Registry) (calls : List Call) : Prop :=
  ∀ v ∈ evicted calls, ∃ task ∈ start, task.taskId = v.taskId ∧ task.status = .downloading

/-- The round admitted every forced task, at the cost of downloads that were there before. -/
structure ForcedKept {ω : Type*} (start : Registry) (s : Round ω) : Prop where
  admitted : ∀ task ∈ start, forcedWaiting task = true →
    ∃ after ∈ s.registry, after.taskId = task.taskId ∧ after.status = .downloading
  spares : Spares start s.calls

section Orders

/-- `task` is dispatched before `next`: of equals, the first the traversal comes to. -/
def goesBefore (registry : Registry) (task next : Task) : Bool :=
  outranks task next ||
    (task.force = next.force && task.priority = next.priority && task.createdAt = next.createdAt &&
      registry.position task < registry.position next)

def yieldsTo (registry : Registry) (task other : Task) : Bool :=
  slower task other ||
    (task.downloadRate = other.downloadRate && registry.position task < registry.position other)

def yields {ω : Type*} (engines : Engines ω) (registry : Registry) (task : Task) : Bool :=
  pausable engines task && registry.entries.all fun forced =>
    !(forcedWaiting forced &&
      registry.entries.any fun next => forcedWaiting next && goesBefore registry forced next) ||
    yieldsTo registry task forced

def turn (registry : Registry) (task : Task) : (Bool ×ₗ Int ×ₗ Intᵒᵈ) ×ₗ ℕᵒᵈ :=
  toLex (rank task, OrderDual.toDual (registry.position task))

def pace (registry : Registry) (task : Task) : ℚ ×ₗ ℕ :=
  toLex (task.downloadRate, registry.position task)

variable {registry registry' : Registry} {task next : Task}

theorem goesBefore_iff : goesBefore registry task next = true ↔ turn registry next < turn registry task := by
  rw [goesBefore, Bool.or_eq_true, outranks_iff]
  simp only [turn, rank, Prod.Lex.toLex_lt_toLex, OrderDual.toDual_lt_toDual, Bool.and_eq_true,
    decide_eq_true_eq, EmbeddingLike.apply_eq_iff_eq, Prod.mk.injEq]
  constructor
  · rintro (h | ⟨⟨⟨hf, hp⟩, hc⟩, hpos⟩)
    · exact Or.inl h
    · exact Or.inr ⟨⟨hf.symm, hp.symm, hc.symm⟩, hpos⟩
  · rintro (h | ⟨⟨hf, hp, hc⟩, hpos⟩)
    · exact Or.inl h
    · exact Or.inr ⟨⟨⟨hf.symm, hp.symm⟩, hc.symm⟩, hpos⟩

theorem yieldsTo_iff : yieldsTo registry task next = true ↔ pace registry task < pace registry next := by
  simp [yieldsTo, slower, pace, Prod.Lex.toLex_lt_toLex]

theorem yields_iff {ω : Type*} {engines : Engines ω} :
    yields engines registry task = true ↔ pausable engines task = true ∧
      ∀ forced ∈ registry, forcedWaiting forced = true →
        (∃ next ∈ registry, forcedWaiting next = true ∧ turn registry next < turn registry forced) →
        pace registry task < pace registry forced := by
  simp only [yields, Bool.and_eq_true, List.all_eq_true, Bool.or_eq_true, Bool.not_eq_true',
    Bool.and_eq_false_imp, yieldsTo_iff, KeyedList.mem_def]
  refine and_congr_right fun _ => forall₂_congr fun forced _ => ?_
  rw [or_iff_not_imp_left]
  simp only [Classical.not_imp, Bool.not_eq_false, List.any_eq_true, Bool.and_eq_true, goesBefore_iff,
    and_imp]

theorem turn_congr (hkeys : registry'.entries.map Task.taskId = registry.entries.map Task.taskId) :
    turn registry' task = turn registry task := by
  rw [turn, turn, KeyedList.position_congr hkeys rfl]

theorem pace_congr (hkeys : registry'.entries.map Task.taskId = registry.entries.map Task.taskId)
    (hkey : task.taskId = next.taskId) (hrate : task.downloadRate = next.downloadRate) :
    pace registry' task = pace registry next := by
  rw [pace, pace, hrate, KeyedList.position_congr hkeys hkey]

theorem turn_lt_of_next {ω : Type*} {engines : Engines ω} (hnext : nextTask engines registry = some next)
    (hmem : task ∈ registry) (hadmissible : admissible engines task = true) (hne : task ≠ next) :
    turn registry task < turn registry next := by
  obtain ⟨pre, post, hsplit, hpre⟩ := Selection.select_split outranks_iff hnext
  have hrank := (nextTask_spec hnext).2.2 task hmem hadmissible
  rw [KeyedList.mem_def, hsplit, List.mem_append, List.mem_cons] at hmem
  rw [turn, turn, Prod.Lex.toLex_lt_toLex]
  rcases hmem with hbefore | rfl | hbehind
  · exact Or.inl (hpre task hbefore hadmissible)
  · exact absurd rfl hne
  · have hposition := KeyedList.position_lt_of_split hsplit hbehind
    rcases hrank.lt_or_eq with hlt | heq
    · exact Or.inl hlt
    · exact Or.inr ⟨heq, hposition⟩

theorem pace_lt_of_slowest {ω : Type*} {engines : Engines ω}
    (hslowest : slowestTask engines registry = some next) (hmem : task ∈ registry)
    (hpausable : pausable engines task = true) (hne : task ≠ next) :
    pace registry next < pace registry task := by
  have hslower : ∀ task slowest : Task, slower task slowest = true ↔ slowness slowest < slowness task := by
    simp [slower, slowness]
  obtain ⟨pre, post, hsplit, hpre⟩ := Selection.select_split hslower hslowest
  have hrate := (slowestTask_spec hslowest).2.2 task hmem hpausable
  rw [KeyedList.mem_def, hsplit, List.mem_append, List.mem_cons] at hmem
  rw [pace, pace, Prod.Lex.toLex_lt_toLex]
  rcases hmem with hbefore | rfl | hbehind
  · exact Or.inl (by simpa [slowness] using hpre task hbefore hpausable)
  · exact absurd rfl hne
  · have hposition := KeyedList.position_lt_of_split hsplit hbehind
    rcases hrate.lt_or_eq with hlt | heq
    · exact Or.inl hlt
    · exact Or.inr ⟨heq, hposition⟩

end Orders

/-! ### What a round does to its tasks -/

section Rounds

variable {ω : Type*} {cfg : ManagerConfig} {engines : Engines ω} {start : Registry} {s s' : Round ω}

theorem status_of_pausable {task : Task} (h : pausable engines task = true) : task.status = .downloading := by
  simp only [pausable, Bool.and_eq_true, decide_eq_true_eq] at h
  exact h.1.1.2

theorem status_of_admissible {task : Task} (h : admissible engines task = true) : task.status = .queued := by
  simp only [admissible, Bool.and_eq_true, decide_eq_true_eq] at h
  exact h.1.1.2

theorem pausable_settleDispatched {task : Task} {result : SubmitResult} (h : admissible engines task = true)
    (hcode : result.code = .none) (now : Int) : pausable engines (settleDispatched now result task) = true := by
  simp only [admissible, Bool.and_eq_true] at h
  obtain ⟨⟨⟨hlive, -⟩, hdownload⟩, hengine⟩ := h
  simp only [pausable, settleDispatched, hcode, if_true, Bool.and_eq_true, decide_true, and_true]
  exact ⟨⟨hlive, hdownload⟩, hengine⟩

/-- The books of a round that paused only downloads it found: what became of those, of the queued
tasks, and how many slots are taken. -/
structure Ledger (cfg : ManagerConfig) (engines : Engines ω) (start : Registry) (s : Round ω) : Prop where
  keys : s.registry.entries.map Task.taskId = start.entries.map Task.taskId
  queued : ∀ task ∈ s.registry, task.status = .queued → task ∈ start
  behind : ∀ task ∈ s.registry, admissible engines task = true →
    ∀ v ∈ dispatched s.calls, turn start task < turn start v
  waiting : ∀ task ∈ start, task.status = .queued → task ∈ s.registry ∨ task ∈ dispatched s.calls
  dispatched_mem : ∀ v ∈ dispatched s.calls, v ∈ start ∧ admissible engines v = true
  dispatched_runs : ∀ v ∈ dispatched s.calls, ∃ task ∈ s.registry, task.taskId = v.taskId ∧
    task.downloadRate = v.downloadRate ∧ pausable engines task = true
  dispatched_nodup : (dispatched s.calls).Nodup
  evicted_mem : ∀ v ∈ evicted s.calls, v ∈ start ∧ pausable engines v = true
  evicted_rests : ∀ v ∈ evicted s.calls, ∀ task ∈ s.registry, task.taskId = v.taskId → task.status = .paused
  evicted_nodup : (evicted s.calls).Nodup
  running : ∀ task ∈ s.registry, pausable engines task = true → task ∈ start ∨
    ∃ v ∈ dispatched s.calls, task.taskId = v.taskId ∧ task.downloadRate = v.downloadRate
  kept : ∀ task ∈ start, pausable engines task = true → task ∈ s.registry ∨ task ∈ evicted s.calls
  slower : ∀ v ∈ evicted s.calls, ∀ task ∈ s.registry, task ∈ start → pausable engines task = true →
    pace start v < pace start task
  active : activeCount s.registry + (evicted s.calls).length =
    activeCount start + (dispatched s.calls).length
  capped : dispatched s.calls ≠ [] → (activeCount s.registry : Int) ≤ cfg.maxConcurrentDownloads

namespace Ledger

theorem begin (cfg : ManagerConfig) (engines : Engines ω) (start : Registry) (world : ω) :
    Ledger cfg engines start ⟨start, world, []⟩ where
  keys := rfl
  queued _ h _ := h
  behind := by simp [dispatched]
  waiting _ h _ := Or.inl h
  dispatched_mem := by simp [dispatched]
  dispatched_runs := by simp [dispatched]
  dispatched_nodup := List.nodup_nil
  evicted_mem := by simp [evicted]
  evicted_rests := by simp [evicted]
  evicted_nodup := List.nodup_nil
  running _ h _ := Or.inl h
  kept _ h _ := Or.inl h
  slower := by simp [evicted]
  active := rfl
  capped h := absurd rfl h

theorem notMem_dispatched (h : Ledger cfg engines start s) {x : Task} (hmem : x ∈ s.registry)
    (hstatus : x.status = .queued) : x ∉ dispatched s.calls := by
  intro hx
  obtain ⟨task, htask, hkey, -, hbusy⟩ := h.dispatched_runs x hx
  obtain rfl : task = x := KeyedList.eq_of_key_eq htask hmem hkey
  simp [status_of_pausable hbusy] at hstatus

theorem taskId_ne_of_dispatched (h : Ledger cfg engines start s) {v d : Task} (hstart : v ∈ start)
    (hstatus : v.status = .downloading) (hd : d ∈ dispatched s.calls) : v.taskId ≠ d.taskId := by
  intro hkey
  obtain ⟨hdstart, hadmissible⟩ := h.dispatched_mem d hd
  obtain rfl : v = d := KeyedList.eq_of_key_eq hstart hdstart hkey
  simp [status_of_admissible hadmissible] at hstatus

theorem victim (h : Ledger cfg engines start s) {v : Task} (hmem : v ∈ s.registry)
    (hpausable : pausable engines v = true)
    (hspared : ∃ task ∈ start, task.taskId = v.taskId ∧ task.status = .downloading) : v ∈ start := by
  obtain ⟨task, htask, hkey, hstatus⟩ := hspared
  rcases h.running v hmem hpausable with hstart | ⟨d, hd, hkey', -⟩
  · exact hstart
  · exact absurd (hkey.trans hkey') (h.taskId_ne_of_dispatched htask hstatus hd)

theorem paused (h : Ledger cfg engines start s) {v : Task} {result : SubmitResult} {world : ω} {now : Int}
    (hslowest : slowestTask engines s.registry = some v) (hstart : v ∈ start) :
    Ledger cfg engines start ⟨s.registry.modify v.taskId (settlePaused now) fun _ => rfl, world,
      ⟨.pause, v, s.registry, result⟩ :: s.calls⟩ := by
  obtain ⟨hmem, hpausable, -⟩ := slowestTask_spec hslowest
  have hstatus := status_of_pausable hpausable
  have hdispatched : ∀ registry, dispatched (⟨.pause, v, registry, result⟩ :: s.calls) = dispatched s.calls :=
    fun _ => rfl
  have hevicted : ∀ registry, evicted (⟨.pause, v, registry, result⟩ :: s.calls) = v :: evicted s.calls :=
    fun _ => rfl
  -- nothing but the victim changes, and that is paused
  have hin : ∀ {task : Task}, task ∈ s.registry → task ≠ v →
      task ∈ s.registry.modify v.taskId (settlePaused now) fun _ => rfl := fun htask hne =>
    (KeyedList.mem_modify_of_mem hmem).mpr (Or.inl ⟨htask, hne⟩)
  have hout : ∀ {task : Task}, task ∈ s.registry.modify v.taskId (settlePaused now) (fun _ => rfl) →
      task ∈ s.registry ∧ task ≠ v ∨ task.status = .paused := fun htask =>
    ((KeyedList.mem_modify_of_mem hmem).mp htask).imp_right fun heq => congrArg Task.status heq
  have hnew : v ∉ evicted s.calls := fun hv => by
    simp [h.evicted_rests v hv v hmem rfl] at hstatus
  have hcount := activeCount_settlePaused hmem hpausable now
  constructor
  all_goals simp only [hdispatched, hevicted]
  case keys => exact (KeyedList.keys_modify s.registry v.taskId (settlePaused now) fun _ => rfl).trans h.keys
  case queued =>
    intro task htask hqueued
    rcases hout htask with ⟨hold, -⟩ | hpaused
    · exact h.queued task hold hqueued
    · simp [hpaused] at hqueued
  case behind =>
    intro task htask hadmissible
    rcases hout htask with ⟨hold, -⟩ | hpaused
    · exact h.behind task hold hadmissible
    · simp [status_of_admissible hadmissible] at hpaused
  case waiting =>
    intro task htask hqueued
    refine (h.waiting task htask hqueued).imp_left fun hold => hin hold ?_
    rintro rfl
    simp [hqueued] at hstatus
  case dispatched_mem => exact h.dispatched_mem
  case dispatched_runs =>
    intro d hd
    obtain ⟨task, htask, hkey, hrate, hruns⟩ := h.dispatched_runs d hd
    refine ⟨task, hin htask ?_, hkey, hrate, hruns⟩
    rintro rfl
    exact h.taskId_ne_of_dispatched hstart hstatus hd hkey
  case dispatched_nodup => exact h.dispatched_nodup
  case evicted_mem => exact List.forall_mem_cons.mpr ⟨⟨hstart, hpausable⟩, h.evicted_mem⟩
  case evicted_rests =>
    refine List.forall_mem_cons.mpr ⟨fun task htask hkey => ?_, fun e he task htask hkey => ?_⟩
    · exact (hout htask).resolve_left fun hold => hold.2 (KeyedList.eq_of_key_eq hold.1 hmem hkey)
    · rcases hout htask with ⟨hold, -⟩ | hpaused
      · exact h.evicted_rests e he task hold hkey
      · exact hpaused
  case evicted_nodup => exact List.nodup_cons.mpr ⟨hnew, h.evicted_nodup⟩
  case running =>
    intro task htask hruns
    rcases hout htask with ⟨hold, -⟩ | hpaused
    · exact h.running task hold hruns
    · simp [status_of_pausable hruns] at hpaused
  case kept =>
    intro task htask hruns
    by_cases hsame : task = v
    · exact Or.inr (hsame ▸ List.mem_cons_self)
    · exact (h.kept task htask hruns).imp (fun hold => hin hold hsame) (List.mem_cons_of_mem v)
  case slower =>
    refine List.forall_mem_cons.mpr ⟨fun task htask _ hruns => ?_, fun e he task htask hstarted hruns => ?_⟩
    · rcases hout htask with ⟨hold, hne⟩ | hpaused
      · have hlt := pace_lt_of_slowest hslowest hold hruns hne
        rwa [pace_congr h.keys rfl rfl, pace_congr h.keys rfl rfl] at hlt
      · simp [status_of_pausable hruns] at hpaused
    · rcases hout htask with ⟨hold, -⟩ | hpaused
      · exact h.slower e he task hold hstarted hruns
      · simp [status_of_pausable hruns] at hpaused
  case active =>
    have := h.active
    rw [List.length_cons]
    omega
  case capped =>
    intro hsome
    have := h.capped hsome
    omega

theorem resumed (h : Ledger cfg engines start s) {x : Task} {result : SubmitResult} {world : ω} {now : Int}
    (hnext : nextTask engines s.registry = some x)
    (hslot : (activeCount s.registry : Int) < cfg.maxConcurrentDownloads) (hcode : result.code = .none) :
    Ledger cfg engines start ⟨s.registry.modify x.taskId (settleDispatched now result) fun _ => rfl, world,
      ⟨.resume, x, s.registry, result⟩ :: s.calls⟩ := by
  obtain ⟨hmem, hadmissible, -⟩ := nextTask_spec hnext
  have hstatus := status_of_admissible hadmissible
  have hstart := h.queued x hmem hstatus
  have hdispatched : ∀ registry, dispatched (⟨.resume, x, registry, result⟩ :: s.calls) = x :: dispatched s.calls :=
    fun _ => rfl
  have hevicted : ∀ registry, evicted (⟨.resume, x, registry, result⟩ :: s.calls) = evicted s.calls :=
    fun _ => rfl
  have hruns := pausable_settleDispatched hadmissible hcode now
  have hself : settleDispatched now result x ∈
      s.registry.modify x.taskId (settleDispatched now result) fun _ => rfl :=
    (KeyedList.mem_modify_of_mem hmem).mpr (Or.inr rfl)
  -- nothing but the dispatched task changes
  have hin : ∀ {task : Task}, task ∈ s.registry → task ≠ x →
      task ∈ s.registry.modify x.taskId (settleDispatched now result) fun _ => rfl := fun htask hne =>
    (KeyedList.mem_modify_of_mem hmem).mpr (Or.inl ⟨htask, hne⟩)
  have hout : ∀ {task : Task},
      task ∈ s.registry.modify x.taskId (settleDispatched now result) (fun _ => rfl) →
        task ∈ s.registry ∧ task ≠ x ∨ task = settleDispatched now result x :=
    (KeyedList.mem_modify_of_mem hmem).mp
  have hbusy_ne : ∀ {task : Task}, pausable engines task = true → task ≠ x := by
    rintro _ hbusy rfl
    simp [status_of_pausable hbusy] at hstatus
  have hnew := h.notMem_dispatched hmem hstatus
  have hcount := activeCount_settleDispatched hmem hadmissible now result
  rw [occupiesSlot_of_pausable hruns, Bool.toNat_true] at hcount
  constructor
  all_goals simp only [hdispatched, hevicted]
  case keys =>
    exact (KeyedList.keys_modify s.registry x.taskId (settleDispatched now result) fun _ => rfl).trans h.keys
  case queued =>
    intro task htask hqueued
    rcases hout htask with ⟨hold, -⟩ | rfl
    · exact h.queued task hold hqueued
    · simp [status_of_pausable hruns] at hqueued
  case behind =>
    intro task htask hwaits
    rcases hout htask with ⟨hold, hne⟩ | rfl
    · refine List.forall_mem_cons.mpr ⟨?_, h.behind task hold hwaits⟩
      have hlt := turn_lt_of_next hnext hold hwaits hne
      rwa [turn_congr h.keys, turn_congr h.keys] at hlt
    · have := status_of_admissible hwaits
      simp [status_of_pausable hruns] at this
  case waiting =>
    intro task htask hqueued
    by_cases hsame : task = x
    · exact Or.inr (hsame ▸ List.mem_cons_self)
    · exact (h.waiting task htask hqueued).imp (fun hold => hin hold hsame) (List.mem_cons_of_mem x)
  case dispatched_mem => exact List.forall_mem_cons.mpr ⟨⟨hstart, hadmissible⟩, h.dispatched_mem⟩
  case dispatched_runs =>
    refine List.forall_mem_cons.mpr ⟨⟨_, hself, rfl, rfl, hruns⟩, fun d hd => ?_⟩
    obtain ⟨task, htask, hkey, hrate, hbusy⟩ := h.dispatched_runs d hd
    exact ⟨task, hin htask (hbusy_ne hbusy), hkey, hrate, hbusy⟩
  case dispatched_nodup => exact List.nodup_cons.mpr ⟨hnew, h.dispatched_nodup⟩
  case evicted_mem => exact h.evicted_mem
  case evicted_rests =>
    intro e he task htask hkey
    rcases hout htask with ⟨hold, -⟩ | rfl
    · exact h.evicted_rests e he task hold hkey
    · simp [h.evicted_rests e he x hmem hkey] at hstatus
  case evicted_nodup => exact h.evicted_nodup
  case running =>
    intro task htask hbusy
    rcases hout htask with ⟨hold, -⟩ | rfl
    · rcases h.running task hold hbusy with hbefore | ⟨d, hd, hsame⟩
      · exact Or.inl hbefore
      · exact Or.inr ⟨d, List.mem_cons_of_mem x hd, hsame⟩
    · exact Or.inr ⟨x, List.mem_cons_self, rfl, rfl⟩
  case kept =>
    intro task htask hbusy
    exact (h.kept task htask hbusy).imp_left fun hold => hin hold (hbusy_ne hbusy)
  case slower =>
    intro e he task htask hstarted hbusy
    rcases hout htask with ⟨hold, -⟩ | rfl
    · exact h.slower e he task hold hstarted hbusy
    · have hsame := KeyedList.eq_of_key_eq hstarted hstart (rfl : (settleDispatched now result x).taskId = _)
      rw [hsame] at hbusy
      simp [status_of_pausable hbusy] at hstatus
  case active =>
    have := h.active
    rw [List.length_cons]
    omega
  case capped =>
    intro _
    omega

/-- **Every pass keeps the books**, as long as no call fails and what it paused was there before. -/
theorem pass (h : Ledger cfg engines start s) {again : Bool} (hpass : Pass cfg engines s s' again)
    (hcalls : Succeeded s'.calls) (hspares : Spares start s'.calls) : Ledger cfg engines start s' := by
  cases hpass with
  | idle hnext => exact h
  | full next hnext hfull hforce => exact h
  | noRoom next hnext hfull hforce hslowest => exact h
  | pauseFailed next slowest result world hnext hfull hforce hslowest hcall hcode =>
      exact absurd (hcalls _ List.mem_cons_self) hcode
  | paused next slowest result world now hnext hfull hforce hslowest hcall hcode =>
      obtain ⟨hmem, hpausable, -⟩ := slowestTask_spec hslowest
      exact h.paused hslowest (h.victim hmem hpausable (hspares slowest List.mem_cons_self))
  | resumeFailed next result world hnext hslot hcall hcode =>
      exact absurd (hcalls _ List.mem_cons_self) (by simp [hcode])
  | resumed next result world now hnext hslot hcall hcode =>
      exact h.resumed hnext hslot (hcalls _ List.mem_cons_self)

theorem forced_of_next (h : Ledger cfg engines start s) {x : Task} (hmem : x ∈ s.registry)
    (hadmissible : admissible engines x = true) (hforce : x.force = true) :
    (x :: dispatched s.calls).Nodup ∧
      ∀ d ∈ x :: dispatched s.calls, d ∈ start.entries.filter forcedWaiting := by
  have hstatus := status_of_admissible hadmissible
  have hnew := h.notMem_dispatched hmem hstatus
  refine ⟨List.nodup_cons.mpr ⟨hnew, h.dispatched_nodup⟩, List.forall_mem_cons.mpr ⟨?_, fun d hd => ?_⟩⟩
  · exact List.mem_filter.mpr ⟨h.queued x hmem hstatus, by simp [forcedWaiting, hstatus, hforce]⟩
  · obtain ⟨hdstart, hdadmissible⟩ := h.dispatched_mem d hd
    have hturn := h.behind x hmem hadmissible d hd
    rw [turn, turn, Prod.Lex.toLex_lt_toLex] at hturn
    have hrank : rank x ≤ rank d := hturn.elim le_of_lt fun heq => heq.1.le
    refine List.mem_filter.mpr ⟨hdstart, ?_⟩
    simp [forcedWaiting, status_of_admissible hdadmissible, force_of_rank_le hrank hforce]

theorem pause_needed (h : Ledger cfg engines start s) {x : Task} (hmem : x ∈ s.registry)
    (hadmissible : admissible engines x = true) (hforce : x.force = true)
    (hfull : cfg.maxConcurrentDownloads ≤ activeCount s.registry) :
    (evicted s.calls).length < slotsToFree cfg start := by
  obtain ⟨hnodup, hforced⟩ := h.forced_of_next hmem hadmissible hforce
  have hlength := (List.subperm_of_subset hnodup hforced).length_le
  rw [← List.countP_eq_length_filter, List.length_cons] at hlength
  have hactive := h.active
  have hsome : start.count forcedWaiting ≠ 0 := by
    rw [KeyedList.count]
    omega
  rw [slotsToFree, if_neg hsome]
  simp only [KeyedList.count] at hsome ⊢
  omega

theorem forced_dispatched (h : Ledger cfg engines start s) {x : Task} (hmem : x ∈ s.registry)
    (hadmissible : admissible engines x = true) (hforce : x.force = true)
    (hfull : cfg.maxConcurrentDownloads ≤ activeCount s.registry)
    (hlast : slotsToFree cfg start ≤ (evicted s.calls).length + 1) :
    ∀ task ∈ start, forcedWaiting task = true → task ∈ x :: dispatched s.calls := by
  obtain ⟨hnodup, hforced⟩ := h.forced_of_next hmem hadmissible hforce
  have hneeded := h.pause_needed hmem hadmissible hforce hfull
  have hactive := h.active
  rw [slotsToFree] at hneeded hlast
  split at hneeded
  · omega
  next hsome =>
    rw [if_neg hsome, KeyedList.count, List.countP_eq_length_filter] at hlast
    have hperm := (List.subperm_of_subset hnodup hforced).perm_of_length_le
      (by rw [List.length_cons]; omega)
    intro task htask hwaiting
    exact hperm.mem_iff.mpr (List.mem_filter.mpr ⟨htask, hwaiting⟩)

theorem pace_dispatched (h : Ledger cfg engines start s) {v d : Task}
    (hslowest : slowestTask engines s.registry = some v) (hstart : v ∈ start)
    (hd : d ∈ dispatched s.calls) : pace start v < pace start d := by
  obtain ⟨-, hpausable, -⟩ := slowestTask_spec hslowest
  obtain ⟨task, htask, hkey, hrate, hruns⟩ := h.dispatched_runs d hd
  have hne : task ≠ v := by
    rintro rfl
    exact h.taskId_ne_of_dispatched hstart (status_of_pausable hpausable) hd hkey
  have hlt := pace_lt_of_slowest hslowest htask hruns hne
  rwa [pace_congr h.keys rfl rfl, pace_congr h.keys hkey hrate] at hlt

/-- **The last pause** shows what all of them were: slower than every forced task but the next. -/
theorem yields_of_last (h : Ledger cfg engines start s) {x v : Task}
    (hnext : nextTask engines s.registry = some x) (hforce : x.force = true)
    (hfull : cfg.maxConcurrentDownloads ≤ activeCount s.registry)
    (hslowest : slowestTask engines s.registry = some v) (hstart : v ∈ start)
    (hlast : slotsToFree cfg start ≤ (evicted s.calls).length + 1) :
    ∀ e ∈ v :: evicted s.calls, yields engines start e = true := by
  obtain ⟨hmem, hadmissible, -⟩ := nextTask_spec hnext
  obtain ⟨hvmem, hpausable, -⟩ := slowestTask_spec hslowest
  have hdispatched := h.forced_dispatched hmem hadmissible hforce hfull hlast
  have hvictim : ∀ forced ∈ start, forcedWaiting forced = true →
      (∃ next ∈ start, forcedWaiting next = true ∧ turn start next < turn start forced) →
      pace start v < pace start forced := by
    rintro forced hforced hwaiting ⟨next, hnextmem, hnextwaiting, hturn⟩
    rcases List.mem_cons.mp (hdispatched forced hforced hwaiting) with rfl | hd
    · -- nothing comes behind the next one
      rcases List.mem_cons.mp (hdispatched next hnextmem hnextwaiting) with rfl | hd
      · exact absurd hturn (lt_irrefl _)
      · exact absurd hturn (h.behind forced hmem hadmissible next hd).asymm
    · exact h.pace_dispatched hslowest hstart hd
  refine List.forall_mem_cons.mpr ⟨yields_iff.mpr ⟨hpausable, hvictim⟩, fun e he => ?_⟩
  refine yields_iff.mpr ⟨(h.evicted_mem e he).2, fun forced hforced hwaiting hbehind => ?_⟩
  exact (h.slower e he v hvmem hstart hpausable).trans (hvictim forced hforced hwaiting hbehind)

theorem exists_yielding (h : Ledger cfg engines start s) {x : Task} (hmem : x ∈ s.registry)
    (hadmissible : admissible engines x = true) (hforce : x.force = true)
    (hfull : cfg.maxConcurrentDownloads ≤ activeCount s.registry)
    (hroom : slotsToFree cfg start ≤ start.count (yields engines start)) :
    ∃ w ∈ s.registry, w ∈ start ∧ yields engines start w = true := by
  have hneeded := h.pause_needed hmem hadmissible hforce hfull
  rw [KeyedList.count, List.countP_eq_length_filter] at hroom
  by_contra hnone
  have hall : start.entries.filter (yields engines start) ⊆ evicted s.calls := by
    intro w hw
    obtain ⟨hwstart, hyields⟩ := List.mem_filter.mp hw
    refine (h.kept w hwstart (yields_iff.mp hyields).1).resolve_left fun hin => ?_
    exact hnone ⟨w, hin, hwstart, hyields⟩
  have hnodup : (start.entries.filter (yields engines start)).Nodup :=
    (List.Nodup.of_map _ start.nodup).filter _
  have := (List.subperm_of_subset hnodup hall).length_le
  omega

theorem yields_of_room (h : Ledger cfg engines start s) {x v : Task}
    (hnext : nextTask engines s.registry = some x) (hforce : x.force = true)
    (hfull : cfg.maxConcurrentDownloads ≤ activeCount s.registry)
    (hslowest : slowestTask engines s.registry = some v)
    (hroom : slotsToFree cfg start ≤ start.count (yields engines start)) :
    v ∈ start ∧ yields engines start v = true := by
  obtain ⟨hmem, hadmissible, -⟩ := nextTask_spec hnext
  obtain ⟨hvmem, hpausable, -⟩ := slowestTask_spec hslowest
  obtain ⟨w, hw, hwstart, hyields⟩ := h.exists_yielding hmem hadmissible hforce hfull hroom
  obtain ⟨hwpausable, hwyields⟩ := yields_iff.mp hyields
  have hle : pace start v ≤ pace start w := by
    by_cases hsame : w = v
    · exact (congrArg _ hsame).ge
    · have hlt := pace_lt_of_slowest hslowest hw hwpausable hsame
      rw [pace_congr h.keys rfl rfl, pace_congr h.keys rfl rfl] at hlt
      exact hlt.le
  have hvstart : v ∈ start := by
    rcases h.running v hvmem hpausable with hin | ⟨d, hd, hkey, hrate⟩
    · exact hin
    · -- a dispatched task is not the last forced one, so it is faster than `w`
      obtain ⟨-, hforced⟩ := h.forced_of_next hmem hadmissible hforce
      obtain ⟨hdstart, hdwaiting⟩ := List.mem_filter.mp (hforced d (List.mem_cons_of_mem x hd))
      obtain ⟨hxstart, hxwaiting⟩ := List.mem_filter.mp (hforced x List.mem_cons_self)
      have hlt := hwyields d hdstart hdwaiting ⟨x, hxstart, hxwaiting, h.behind x hmem hadmissible d hd⟩
      rw [← pace_congr (rfl : start.entries.map Task.taskId = _) hkey hrate] at hlt
      exact absurd hle (not_le.mpr hlt)
  exact ⟨hvstart, yields_iff.mpr ⟨hpausable, fun forced hforced hwaiting hbehind =>
    lt_of_le_of_lt hle (hwyields forced hforced hwaiting hbehind)⟩⟩

end Ledger

/-! ### Both directions -/

theorem calls_of_pass {again : Bool} (hpass : Pass cfg engines s s' again) :
    s'.calls = s.calls ∨ ∃ call, s'.calls = call :: s.calls := by
  cases hpass with
  | idle | full | noRoom => exact Or.inl rfl
  | pauseFailed | paused | resumeFailed | resumed => exact Or.inr ⟨_, rfl⟩

theorem succeeded_of_pass {again : Bool} (hpass : Pass cfg engines s s' again)
    (hcalls : Succeeded s'.calls) : Succeeded s.calls := by
  rcases calls_of_pass hpass with heq | ⟨call, heq⟩
  · exact heq ▸ hcalls
  · exact fun c hc => hcalls c (heq ▸ List.mem_cons_of_mem call hc)

theorem spares_of_pass {again : Bool} (hpass : Pass cfg engines s s' again)
    (hspares : Spares start s'.calls) : Spares start s.calls := by
  rcases calls_of_pass hpass with heq | ⟨call, heq⟩
  · exact heq ▸ hspares
  · refine fun v hv => hspares v ?_
    obtain ⟨c, hc, rfl⟩ := List.mem_map.mp hv
    obtain ⟨hmem, hkind⟩ := List.mem_filter.mp hc
    exact List.mem_map.mpr ⟨c, List.mem_filter.mpr ⟨heq ▸ List.mem_cons_of_mem call hmem, hkind⟩, rfl⟩

/-- A round that spared what it admitted: once it has paused as often as it takes, all it paused
yielded. -/
def SparedSoFar (cfg : ManagerConfig) (engines : Engines ω) (start : Registry) (s : Round ω) : Prop :=
  Succeeded s.calls → Spares start s.calls → Ledger cfg engines start s ∧
    (0 < slotsToFree cfg start → slotsToFree cfg start ≤ (evicted s.calls).length →
      ∀ v ∈ evicted s.calls, yields engines start v = true)

theorem SparedSoFar.pass {again : Bool} (h : SparedSoFar cfg engines start s)
    (hpass : Pass cfg engines s s' again) : SparedSoFar cfg engines start s' := by
  intro hcalls hspares
  obtain ⟨hledger, hyields⟩ := h (succeeded_of_pass hpass hcalls) (spares_of_pass hpass hspares)
  refine ⟨hledger.pass hpass hcalls hspares, ?_⟩
  cases hpass with
  | idle hnext => exact hyields
  | full next hnext hfull hforce => exact hyields
  | noRoom next hnext hfull hforce hslowest => exact hyields
  | pauseFailed next slowest result world hnext hfull hforce hslowest hcall hcode =>
      exact absurd (hcalls _ List.mem_cons_self) hcode
  | paused next slowest result world now hnext hfull hforce hslowest hcall hcode =>
      intro _ hall
      obtain ⟨hmem, hpausable, -⟩ := slowestTask_spec hslowest
      exact hledger.yields_of_last hnext hforce hfull hslowest
        (hledger.victim hmem hpausable (hspares slowest List.mem_cons_self)) hall
  | resumeFailed next result world hnext hslot hcall hcode =>
      exact absurd (hcalls _ List.mem_cons_self) (by simp [hcode])
  | resumed next result world now hnext hslot hcall hcode => exact hyields

/-- The condition: every forced task may be dispatched, and enough downloads yield to them. -/
structure RoomForForced (cfg : ManagerConfig) (engines : Engines ω) (start : Registry) : Prop where
  admissible : ∀ task ∈ start, forcedWaiting task = true → admissible engines task = true
  room : slotsToFree cfg start ≤ start.count (yields engines start)

theorem SparedSoFar.room (h : SparedSoFar cfg engines start s) (hcalls : Succeeded s.calls)
    (hkept : ForcedKept start s) : RoomForForced cfg engines start := by
  obtain ⟨hledger, hyields⟩ := h hcalls hkept.spares
  have hdispatched : ∀ task ∈ start, forcedWaiting task = true → task ∈ dispatched s.calls := by
    intro task htask hwaiting
    have hstatus : task.status = .queued := by
      simp only [forcedWaiting, Bool.and_eq_true, decide_eq_true_eq] at hwaiting
      exact hwaiting.1
    refine (hledger.waiting task htask hstatus).resolve_left fun hin => ?_
    obtain ⟨after, hafter, hkey, hruns⟩ := hkept.admitted task htask hwaiting
    obtain rfl : after = task := KeyedList.eq_of_key_eq hafter hin hkey
    simp [hstatus] at hruns
  refine ⟨fun task htask hwaiting => (hledger.dispatched_mem task (hdispatched task htask hwaiting)).2, ?_⟩
  rcases Nat.eq_zero_or_pos (slotsToFree cfg start) with hnone | hneeded
  · rw [hnone]
    exact Nat.zero_le _
  · have hnodup : (start.entries.filter forcedWaiting).Nodup := (List.Nodup.of_map _ start.nodup).filter _
    have hall : start.entries.filter forcedWaiting ⊆ dispatched s.calls := fun task htask =>
      hdispatched task (List.mem_filter.mp htask).1 (List.mem_filter.mp htask).2
    have hforced := (List.subperm_of_subset hnodup hall).length_le
    rw [← List.countP_eq_length_filter] at hforced
    have hactive := hledger.active
    have henough : slotsToFree cfg start ≤ (evicted s.calls).length := by
      rw [slotsToFree] at hneeded ⊢
      split at hneeded
      · omega
      next hsome =>
        rw [if_neg hsome]
        simp only [KeyedList.count] at hsome ⊢
        have hcapped := hledger.capped fun hempty => by
          rw [hempty, List.length_nil] at hforced
          omega
        omega
    have hsub : evicted s.calls ⊆ start.entries.filter (yields engines start) := fun v hv =>
      List.mem_filter.mpr ⟨(hledger.evicted_mem v hv).1, hyields hneeded henough v hv⟩
    calc slotsToFree cfg start ≤ (evicted s.calls).length := henough
      _ ≤ (start.entries.filter (yields engines start)).length :=
          (List.subperm_of_subset hledger.evicted_nodup hsub).length_le
      _ = start.count (yields engines start) := List.countP_eq_length_filter.symm

def RoomySoFar (cfg : ManagerConfig) (engines : Engines ω) (start : Registry) (s : Round ω) : Prop :=
  Succeeded s.calls → Ledger cfg engines start s ∧ Spares start s.calls

theorem RoomySoFar.pass {again : Bool} (hroom : RoomForForced cfg engines start)
    (h : RoomySoFar cfg engines start s) (hpass : Pass cfg engines s s' again) :
    RoomySoFar cfg engines start s' := by
  intro hcalls
  obtain ⟨hledger, hspares⟩ := h (succeeded_of_pass hpass hcalls)
  have hspares' : Spares start s'.calls := by
    cases hpass with
    | idle | full | noRoom => exact hspares
    | pauseFailed next slowest result world hnext hfull hforce hslowest hcall hcode =>
        exact absurd (hcalls _ List.mem_cons_self) hcode
    | paused next slowest result world now hnext hfull hforce hslowest hcall hcode =>
        obtain ⟨hstart, hyields⟩ := hledger.yields_of_room hnext hforce hfull hslowest hroom.room
        exact List.forall_mem_cons.mpr
          ⟨⟨slowest, hstart, rfl, status_of_pausable (yields_iff.mp hyields).1⟩, hspares⟩
    | resumeFailed | resumed => exact hspares
  exact ⟨hledger.pass hpass hcalls hspares', hspares'⟩

theorem forcedKept_of_last (hroom : RoomForForced cfg engines start) (hledger : Ledger cfg engines start s')
    (hspares : Spares start s'.calls) (hpass : Pass cfg engines s s' false) (hcalls : Succeeded s'.calls) :
    ForcedKept start s' := by
  refine ⟨fun task htask hwaiting => ?_, hspares⟩
  have hadmissible := hroom.admissible task htask hwaiting
  have hforce : task.force = true := by
    simp only [forcedWaiting, Bool.and_eq_true] at hwaiting
    exact hwaiting.2
  rcases hledger.waiting task htask (status_of_admissible hadmissible) with hin | hd
  · exfalso
    cases hpass with
    | idle hnext => simp [nextTask_eq_none_iff.mp hnext task hin] at hadmissible
    | full next hnext hfull hunforced =>
        have hrank := (nextTask_spec hnext).2.2 task hin hadmissible
        simp [force_of_rank_le hrank hforce] at hunforced
    | noRoom next hnext hfull hforced hslowest =>
        obtain ⟨hmem, hnextadmissible, -⟩ := nextTask_spec hnext
        obtain ⟨w, hw, -, hyields⟩ := hledger.exists_yielding hmem hnextadmissible hforced hfull hroom.room
        have hruns := (yields_iff.mp hyields).1
        simp [slowestTask_eq_none_iff.mp hslowest w hw] at hruns
    | pauseFailed next slowest result world hnext hfull hforced hslowest hcall hcode =>
        exact absurd (hcalls _ List.mem_cons_self) hcode
    | resumeFailed next result world hnext hslot hcall hcode =>
        exact absurd (hcalls _ List.mem_cons_self) (by simp [hcode])
  · obtain ⟨after, hafter, hkey, -, hruns⟩ := hledger.dispatched_runs task hd
    exact ⟨after, hafter, hkey, status_of_pausable hruns⟩

/-- **Forced tasks are kept exactly when there is room for them**: when the slots to free are no more
than the downloads that are slower than every forced task but the last one. -/
theorem forcedKept_iff (cfg : ManagerConfig) (engines : Engines ω) (start : Registry) (world : ω)
    (hcount : (start.count forcedWaiting : Int) ≤ cfg.maxConcurrentDownloads) :
    ∃ s', (∀ fuel, work engines start < fuel →
        admissionLoop cfg engines fuel ⟨start, world, []⟩ = some s') ∧
      (Succeeded s'.calls → (ForcedKept start s' ↔ RoomForForced cfg engines start)) := by
  rcases lt_or_ge 0 cfg.maxConcurrentDownloads with hlimit | hlimit
  · obtain ⟨s', hloop, -⟩ := @admissionLoop_spec _ cfg engines hlimit start world
    refine ⟨s', hloop, fun hcalls => ⟨fun hkept => ?_, fun hroom => ?_⟩⟩
    · have hstart : SparedSoFar cfg engines start ⟨start, world, []⟩ := fun _ _ =>
        ⟨.begin cfg engines start world, fun _ _ => by simp [evicted]⟩
      obtain ⟨last, hlast, hpass⟩ := admissionLoop_invariant (fun _ _ _ h hpass => h.pass hpass) hlimit
        hstart (hloop _ (Nat.lt_succ_self _))
      exact (hlast.pass hpass).room hcalls hkept
    · have hstart : RoomySoFar cfg engines start ⟨start, world, []⟩ := fun _ =>
        ⟨.begin cfg engines start world, by simp [Spares, evicted]⟩
      obtain ⟨last, hlast, hpass⟩ := admissionLoop_invariant (fun _ _ _ h hpass => h.pass hroom hpass) hlimit
        hstart (hloop _ (Nat.lt_succ_self _))
      obtain ⟨hledger, hspares⟩ := hlast.pass hroom hpass hcalls
      exact forcedKept_of_last hroom hledger hspares hpass hcalls
  · -- without slots there are no forced tasks, and the loop does nothing
    have hnone : start.count forcedWaiting = 0 := by omega
    have hunforced : ∀ task ∈ start, ¬ forcedWaiting task = true := by
      intro task htask
      exact List.countP_eq_zero.mp hnone task htask
    refine ⟨⟨start, world, []⟩, fun fuel hfuel => ?_, fun _ => iff_of_true ?_ ?_⟩
    · obtain ⟨k, rfl⟩ := Nat.exists_eq_succ_of_ne_zero (by omega : fuel ≠ 0)
      rw [admissionLoop, if_neg (not_lt.mpr hlimit)]
    · exact ⟨fun task htask hwaiting => absurd hwaiting (hunforced task htask), by simp [Spares, evicted]⟩
    · refine ⟨fun task htask hwaiting => absurd hwaiting (hunforced task htask), ?_⟩
      rw [slotsToFree, if_pos hnone]
      exact Nat.zero_le _

end Rounds

instance (calls : List Call) : Decidable (Succeeded calls) :=
  inferInstanceAs (Decidable (∀ call ∈ calls, call.result.code = .none))

/-- One forced task needs one slot, and the download that holds it yields. -/
theorem forcedKept_iff_forcedPair :
    ∃ s', admissionLoop oneSlot willingEngines 4 ⟨forcedPair, (), []⟩ = some s' ∧ ForcedKept forcedPair s' := by
  obtain ⟨s', hloop, hiff⟩ := forcedKept_iff oneSlot willingEngines forcedPair () (by decide)
  have hrun := hloop 4 (by decide)
  have hcalls : (admissionLoop oneSlot willingEngines 4 ⟨forcedPair, (), []⟩).map
      (fun s => decide (Succeeded s.calls)) = some true := by decide +kernel
  rw [hrun, Option.map_some, Option.some.injEq, decide_eq_true_eq] at hcalls
  refine ⟨s', hrun, (hiff hcalls).mpr ⟨?_, by decide +kernel⟩⟩
  have hall : ∀ task ∈ forcedPair.entries, forcedWaiting task = true →
      admissible willingEngines task = true := by decide +kernel
  exact hall

def twoSlots : ManagerConfig := { clientId := "c", savePath := "/d", maxConcurrentDownloads := 2 }

def forcedRivals : Registry where
  entries :=
    [{ taskId := "a", taskProtocol := .http, status := .downloading, downloadRate := 100 },
      { taskId := "b", taskProtocol := .http, status := .downloading, downloadRate := 50 },
      { taskId := "c", taskProtocol := .http, status := .queued, force := true },
      { taskId := "d", taskProtocol := .http, status := .queued, force := true }]
  nodup := by decide

/-- **The second forced task takes the slot of the first**, which has not moved a byte yet, though
there is a download that could yield. -/
theorem not_forcedKept_forcedRivals :
    (forcedRivals.count forcedWaiting : Int) ≤ twoSlots.maxConcurrentDownloads ∧
      slotsToFree twoSlots forcedRivals ≤
        forcedRivals.count (fun task => task.status = .downloading && !task.force) ∧
      ∃ s', admissionLoop twoSlots willingEngines 10 ⟨forcedRivals, (), []⟩ = some s' ∧
        Succeeded s'.calls ∧ ¬ ForcedKept forcedRivals s' := by
  refine ⟨by decide, by decide +kernel, ?_⟩
  have hplayed : (admissionLoop twoSlots willingEngines 10 ⟨forcedRivals, (), []⟩).map
      (fun s => (decide (Succeeded s.calls), (evicted s.calls).map Task.taskId)) =
        some (true, ["c", "b"]) := by decide +kernel
  obtain ⟨s', hloop, hvalues⟩ := Option.map_eq_some_iff.mp hplayed
  simp only [Prod.mk.injEq, decide_eq_true_eq] at hvalues
  refine ⟨s', hloop, hvalues.1, fun hkept => ?_⟩
  obtain ⟨v, hv, hkey⟩ := List.mem_map.mp (hvalues.2 ▸ List.mem_cons_self : "c" ∈ (evicted s'.calls).map _)
  obtain ⟨task, htask, hsame, hruns⟩ := hkept.spares v hv
  have hall : ∀ task ∈ forcedRivals.entries, task.taskId = "c" → task.status ≠ .downloading := by decide
  exact hall task htask (hsame.trans hkey) hruns

end DownloadWrapper
