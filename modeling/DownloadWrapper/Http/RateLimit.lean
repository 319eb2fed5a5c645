import DownloadWrapper.Core.World
import Mathlib.Algebra.Order.BigOperators.Group.List

/-!
# The download rate limit

libcurl limits single connections only, so the limit for all of them is divided: by the tasks that
download, and by the parts of the task at hand. A handle that does not get the map's lock counts its
own task alone, and takes the shares of all the others with its own.
-/

namespace DownloadWrapper

def downloading (tasks : Contexts) : List HttpContext :=
  tasks.entries.filter fun c => c.worker.task.status = .downloading

/-- `active_downloading_tasks`; `locked` is what `try_lock` answers. -/
def activeDownloadingTasks (tasks : Contexts) (locked : Bool) : Int :=
  if ¬ locked then 1
  else
    let count := (downloading tasks).length
    if 0 < count then count else 1

def perConn (limit : Int) (tasks : Contexts) (locked : Bool) (t : TaskCtx) : Int :=
  let parts := max 1 (t.parts.length : Int)
  let divisor := activeDownloadingTasks tasks locked * parts
  max 1 (limit / divisor)

/-- The `CURLOPT_MAX_RECV_SPEED_LARGE` that `build_easy_for_part` sets, if there is a limit. -/
def maxRecvSpeed (limit : Int) (tasks : Contexts) (locked : Bool) (t : TaskCtx) : Option Int :=
  if 0 < limit then some (perConn limit tasks locked t) else none

/-- Whether the handle of a part got the lock, by the URL of its task. -/
abbrev LockAnswers := String → Nat → Bool

def recvSpeeds (limit : Int) (tasks : Contexts) (locked : LockAnswers) : List Int :=
  (downloading tasks).flatMap fun c =>
    (List.range c.worker.task.parts.length).filterMap fun i =>
      maxRecvSpeed limit tasks (locked c.url i) c.worker.task

def AllLocked (tasks : Contexts) (locked : LockAnswers) : Prop :=
  ∀ c ∈ downloading tasks, ∀ i < c.worker.task.parts.length, locked c.url i = true

instance (tasks : Contexts) (locked : LockAnswers) : Decidable (AllLocked tasks locked) := by
  unfold AllLocked
  infer_instance

/-- The limit is divided safely: the handles together keep it, and none is the faster for a lock it
did not get. -/
structure SafelyDivided (limit : Int) (tasks : Contexts) (locked : LockAnswers) : Prop where
  within : (recvSpeeds limit tasks locked).sum ≤ limit
  conservative : ∀ c ∈ downloading tasks, ∀ i < c.worker.task.parts.length,
    perConn limit tasks (locked c.url i) c.worker.task ≤ perConn limit tasks true c.worker.task

section Shares

variable {limit count parts : Int}

theorem mul_share_le (hcount : 0 < count) (hparts : 0 < parts) (henough : count * parts ≤ limit) :
    parts * max 1 (limit / (count * parts)) ≤ limit / count := by
  have hone : 1 ≤ limit / (count * parts) :=
    (Int.le_ediv_iff_mul_le (mul_pos hcount hparts)).mpr (by rwa [one_mul])
  calc parts * max 1 (limit / (count * parts))
      = parts * (limit / count / parts) := by
        rw [max_eq_right hone, Int.ediv_ediv_of_nonneg hcount.le]
    _ ≤ limit / count := Int.mul_ediv_self_le hparts.ne'

theorem share_lt (hcount : 1 < count) (hparts : 0 < parts) (henough : count * parts ≤ limit) :
    max 1 (limit / (count * parts)) < max 1 (limit / parts) := by
  have hwhole : count ≤ limit / parts := (Int.le_ediv_iff_mul_le hparts).mpr henough
  have hone : 1 ≤ limit / (count * parts) :=
    (Int.le_ediv_iff_mul_le (mul_pos (by omega) hparts)).mpr (by rwa [one_mul])
  have hsplit : limit / (count * parts) = limit / parts / count := by
    rw [mul_comm, Int.ediv_ediv_of_nonneg hparts.le]
  calc max 1 (limit / (count * parts))
      = limit / parts / count := by rw [max_eq_right hone, hsplit]
    _ < limit / parts := Int.ediv_lt_self_of_pos_of_ne_one (by omega) (by omega)
    _ ≤ max 1 (limit / parts) := le_max_right _ _

end Shares

section Limit

variable {limit : Int} {tasks : Contexts} {locked : LockAnswers}

theorem perConn_of_parts (limit : Int) (tasks : Contexts) (got : Bool) {t : TaskCtx}
    (hparts : 1 ≤ t.parts.length) :
    perConn limit tasks got t =
      max 1 (limit / (activeDownloadingTasks tasks got * t.parts.length)) := by
  have hmax : max 1 (t.parts.length : Int) = t.parts.length := max_eq_right (by exact_mod_cast hparts)
  rw [perConn, hmax]

theorem activeDownloadingTasks_true (htasks : downloading tasks ≠ []) :
    activeDownloadingTasks tasks true = (downloading tasks).length := by
  simp only [activeDownloadingTasks, not_true_eq_false, if_false]
  exact if_pos (List.length_pos_of_ne_nil htasks)

theorem activeDownloadingTasks_false : activeDownloadingTasks tasks false = 1 := if_pos nofun

theorem sum_recvSpeeds_le (hlimit : 0 < limit) (htasks : downloading tasks ≠ [])
    (hparts : ∀ c ∈ downloading tasks, 1 ≤ c.worker.task.parts.length)
    (henough : ∀ c ∈ downloading tasks,
      ((downloading tasks).length : Int) * c.worker.task.parts.length ≤ limit)
    (hcaps : ∀ c ∈ downloading tasks, ∀ i < c.worker.task.parts.length,
      perConn limit tasks (locked c.url i) c.worker.task = perConn limit tasks true c.worker.task) :
    (recvSpeeds limit tasks locked).sum ≤ limit := by
  have hcount : (0 : Int) < (downloading tasks).length := by
    exact_mod_cast List.length_pos_of_ne_nil htasks
  have htask : ∀ c ∈ downloading tasks,
      ((List.range c.worker.task.parts.length).filterMap fun i =>
        maxRecvSpeed limit tasks (locked c.url i) c.worker.task).sum ≤
          limit / (downloading tasks).length := by
    intro c hc
    have hset : ((List.range c.worker.task.parts.length).filterMap fun i =>
        maxRecvSpeed limit tasks (locked c.url i) c.worker.task) =
          List.replicate c.worker.task.parts.length (perConn limit tasks true c.worker.task) := by
      have hsome : ∀ i ∈ List.range c.worker.task.parts.length,
          maxRecvSpeed limit tasks (locked c.url i) c.worker.task =
            some (perConn limit tasks true c.worker.task) := by
        intro i hi
        rw [maxRecvSpeed, if_pos hlimit, hcaps c hc i (List.mem_range.mp hi)]
      rw [List.filterMap_congr hsome, List.filterMap_eq_map', List.map_const', List.length_range]
    rw [hset, List.sum_replicate, nsmul_eq_mul, perConn_of_parts limit tasks true (hparts c hc),
      activeDownloadingTasks_true htasks]
    exact mul_share_le hcount (by exact_mod_cast hparts c hc) (henough c hc)
  rw [recvSpeeds, List.flatMap_def, List.sum_flatten, List.map_map]
  calc ((downloading tasks).map (List.sum ∘ fun c =>
          (List.range c.worker.task.parts.length).filterMap fun i =>
            maxRecvSpeed limit tasks (locked c.url i) c.worker.task)).sum
      ≤ ((downloading tasks).map fun _ => limit / ((downloading tasks).length : Int)).sum :=
        List.sum_le_sum fun c hc => htask c hc
    _ = (downloading tasks).length * (limit / (downloading tasks).length) := by
        rw [List.map_const', List.sum_replicate, nsmul_eq_mul]
    _ ≤ limit := Int.mul_ediv_self_le hcount.ne'

/-- **The rate limit is divided safely exactly when every handle got the lock**, or one task downloads
alone. -/
theorem safelyDivided_iff (hlimit : 0 < limit) (htasks : downloading tasks ≠ [])
    (hparts : ∀ c ∈ downloading tasks, 1 ≤ c.worker.task.parts.length)
    (henough : ∀ c ∈ downloading tasks,
      ((downloading tasks).length : Int) * c.worker.task.parts.length ≤ limit) :
    SafelyDivided limit tasks locked ↔
      AllLocked tasks locked ∨ (downloading tasks).length = 1 := by
  constructor
  · intro hsafe
    rw [or_iff_not_imp_right]
    intro hmany c hc i hi
    by_contra hlost
    rw [Bool.not_eq_true] at hlost
    have hpositive := List.length_pos_of_ne_nil htasks
    have hcount : (1 : Int) < (downloading tasks).length := by omega
    have hlt := share_lt hcount (by exact_mod_cast hparts c hc) (henough c hc)
    have hle := hsafe.conservative c hc i hi
    rw [hlost, perConn_of_parts limit tasks false (hparts c hc),
      perConn_of_parts limit tasks true (hparts c hc), activeDownloadingTasks_true htasks,
      activeDownloadingTasks_false, one_mul] at hle
    exact absurd hle (not_le.mpr hlt)
  · intro hfair
    have hcaps : ∀ c ∈ downloading tasks, ∀ i < c.worker.task.parts.length,
        perConn limit tasks (locked c.url i) c.worker.task =
          perConn limit tasks true c.worker.task := by
      intro c hc i hi
      rcases hfair with hall | hone
      · rw [hall c hc i hi]
      · have hsame : ∀ got, activeDownloadingTasks tasks got = 1 := by
          intro got
          cases got with
          | false => exact activeDownloadingTasks_false
          | true => rw [activeDownloadingTasks_true htasks, hone, Nat.cast_one]
        rw [perConn, perConn, hsame, hsame]
    exact ⟨sum_recvSpeeds_le hlimit htasks hparts henough hcaps, fun c hc i hi => (hcaps c hc i hi).le⟩

end Limit

def unequalTasks : Contexts where
  entries :=
    [⟨"u", startWorker "u" "c" "/d" none (fun _ => none) true, 0⟩,
      ⟨"v", startWorker "v" "c" "/d"
        (some ⟨4, 1, "", "", "/d/v/v", [⟨0, 0, 1, 0⟩, ⟨1, 2, 3, 0⟩]⟩)
        (Function.update (fun _ => none) "/d/v/v" (some (.file []))) true, 0⟩]
  nodup := by decide

theorem safelyDivided_iff_unequal :
    SafelyDivided 4 unequalTasks (fun _ _ => true) ↔
      AllLocked unequalTasks (fun _ _ => true) ∨ (downloading unequalTasks).length = 1 :=
  safelyDivided_iff (by decide) (by decide +kernel) (by decide +kernel) (by decide +kernel)

/-- The first handle of the second download does not get the lock: five bytes a second, of four. -/
theorem not_safelyDivided_contended :
    (recvSpeeds 4 unequalTasks fun url i => url ≠ "v" || i ≠ 0).sum = 5 ∧
      ¬ SafelyDivided 4 unequalTasks fun url i => url ≠ "v" || i ≠ 0 := by
  have hsum : (recvSpeeds 4 unequalTasks fun url i => url ≠ "v" || i ≠ 0).sum = 5 := by
    decide +kernel
  refine ⟨hsum, fun hsafe => ?_⟩
  have hwithin := hsafe.within
  rw [hsum] at hwithin
  exact absurd hwithin (by decide)

end DownloadWrapper
