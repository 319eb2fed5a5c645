import DownloadWrapper.Http.Frame
import DownloadWrapper.Lib.Transition
import DownloadWrapper.Utils.FileTree

/-!
# Finalizing on a shared disk

`finalize_probing` cut into the steps other threads can come between: it looks whether a name is
taken, makes the directory, makes the file. No lock is held around them. One worker alone takes
exactly the steps of `finalizeProbing`; several workers take them in any order.
-/

namespace DownloadWrapper

open Transition TaskCtx

/-- Where a worker stands in `finalize_probing`. -/
inductive Stage where
  | before
  /-- About to look whether the candidate of a number is taken; 0 is the name itself. -/
  | checking (n : Nat)
  /-- The candidate was free; its directory is not made yet. -/
  | taking (unique : String)
  /-- `full_file_path` is set; `mkdir_recursive` looks for its directory. -/
  | ensuring
  | making
  /-- The file is opened or created. -/
  | opening
  /-- Its size is preallocated. -/
  | sizing
  | finished
  deriving DecidableEq

/-- A worker in `finalize_probing`, called for connection `conn`. `wrapper` records the directory it made or
found made, and `existed` that something existed at `full_file_path` when it was chosen. -/
structure Finalizer where
  task : TaskCtx
  conn : Nat := 0
  stage : Stage := .before
  wrapper : String := ""
  existed : Bool := false

/-- The wrapper's wanted name, and its numbered candidates. -/
def wrapperOf (t : TaskCtx) : String := stripExtension t.filename

def candidate (name : String) : Nat → String
  | 0 => name
  | n + 1 => numberedName name (n + 1)

def targetOf (t : TaskCtx) (unique : String) : String := joinPath t.outputPath unique

namespace Finalizer

def withTask (f : Finalizer) (task : TaskCtx) (stage : Stage) : Finalizer :=
  { f with task := task, stage := stage }

def moveTo (f : Finalizer) (stage : Stage) : Finalizer := { f with stage := stage }

/-- The name is settled, in memory alone. -/
def settle (urlLib : UrlLib) (f : Finalizer) : Finalizer :=
  f.withTask (f.task.settleProbe urlLib f.conn) (.checking 0)

section Disk

variable {σ : Type*} [FileSystem σ]

/-- One look at the disk. The last resort is taken without a look. -/
def check (env : AcquireEnv) (fs : σ) (f : Finalizer) (n : Nat) : Finalizer :=
  let name := wrapperOf f.task
  if 9999 < n then f.moveTo (.taking (name ++ "_" ++ toString env.nowMs))
  else if FileSystem.exist fs (targetOf f.task (candidate name n)) then f.moveTo (.checking (n + 1))
  else f.moveTo (.taking (candidate name n))

def take (env : AcquireEnv) (fs : σ) (f : Finalizer) (unique : String) : Finalizer × σ :=
  let target := targetOf f.task unique
  let path := joinPath target f.task.filename
  ({ f with
      task := { f.task with fullFilePath := path }
      stage := .ensuring
      wrapper := target
      existed := FileSystem.exist fs path },
    (createEntry env fs target true).1)

end Disk

def layOut (cfg : HttpConfig) (f : Finalizer) : Finalizer :=
  f.withTask (f.task.layOut cfg (f.task.ctx f.conn).seenHttpCode) .finished

def refuse (f : Finalizer) (message : String) : Finalizer :=
  f.withTask (f.task.fail message) .finished

def storageMessage (env : ProbeEnv) : String :=
  if env.noSpace then "存储空间不足" else "存储异常，无法保存文件"

/-- The next step of a worker. `mkdir_recursive` succeeds if the directory exists or this call makes it. -/
def next {σ : Type*} [FileSystem σ] (cfg : HttpConfig) (env : ProbeEnv) (fs : σ) (f : Finalizer) :
    Option (Finalizer × σ) :=
  let path := f.task.fullFilePath
  match f.stage with
  | .before => some (f.settle env.urlLib, fs)
  | .checking n => some (f.check env.acquire fs n, fs)
  | .taking unique => some (f.take env.acquire fs unique)
  | .ensuring =>
      if parentPath path = "" ∨ FileSystem.exist fs (parentPath path) then some (f.moveTo .opening, fs)
      else some (f.moveTo .making, fs)
  | .making =>
      if env.mkdirOk then
        match FileSystem.createDirectories fs (parentPath path) with
        | (fs, some true) => some (f.moveTo .opening, fs)
        | (fs, _) => some (f.refuse "目录创建失败", fs)
      else some (f.refuse "目录创建失败", fs)
  | .opening =>
      match FileSystem.openFile fs path true env.openOk with
      | none => some (f.refuse (storageMessage env), fs)
      | some fs => some (if f.task.totalSize ≤ 0 then f.layOut cfg else f.moveTo .sizing, fs)
  | .sizing =>
      if env.truncateOk then some (f.layOut cfg, FileSystem.truncate fs path f.task.totalSize.toNat)
      else some (f.refuse (storageMessage env), fs)
  | .finished => none

end Finalizer

/-! ### One worker alone -/

/-- A worker with the disk to itself. -/
def Finalizer.alone (cfg : HttpConfig) (s : Finalizer × Fs) (env : ProbeEnv) :
    Option (Finalizer × Fs) :=
  s.1.next cfg env s.2

section Alone

variable {cfg : HttpConfig} {env : ProbeEnv} {fs : Fs} {f : Finalizer}

/-- The runs of one worker that gets the same answers throughout. -/
abbrev RunsTo (cfg : HttpConfig) (env : ProbeEnv) : Finalizer × Fs → Finalizer × Fs → Prop :=
  Reaches (Finalizer.alone cfg) fun _ answers => answers = env

theorem runsTo_step {s s' s'' : Finalizer × Fs} (hstep : s.1.next cfg env s.2 = some s')
    (hrest : RunsTo cfg env s' s'') : RunsTo cfg env s s'' :=
  Relation.ReflTransGen.head ⟨env, rfl, hstep⟩ hrest

theorem wrapperOf_ne_empty {t : TaskCtx} (h : t.filename ≠ "") : wrapperOf t ≠ "" :=
  stripExtension_ne_empty h

theorem runsTo_numbered (count n : Nat) (hcount : count + n = 10000) (hn : 0 < n)
    {s : Finalizer × Fs}
    (hrest : RunsTo cfg env
      (f.moveTo (.taking (match firstFree fs f.task.outputPath (wrapperOf f.task) count n with
        | some k => numberedName (wrapperOf f.task) k
        | none => wrapperOf f.task ++ "_" ++ toString env.acquire.nowMs)), fs) s) :
    RunsTo cfg env (f.moveTo (.checking n), fs) s := by
  induction count generalizing n with
  | zero =>
      have hlast : 9999 < n := by omega
      refine runsTo_step ?_ hrest
      simp [Finalizer.next, Finalizer.check, Finalizer.moveTo, hlast, firstFree]
  | succ count ih =>
      have hmore : ¬ 9999 < n := by omega
      obtain ⟨k, rfl⟩ : ∃ k, n = k + 1 := ⟨n - 1, by omega⟩
      rw [firstFree, Fs.exist_eq] at hrest
      cases htaken : fs.exist (joinPath f.task.outputPath
          (numberedName (wrapperOf f.task) (k + 1))) with
      | true =>
          rw [if_pos htaken] at hrest
          refine runsTo_step ?_ (ih (k + 1 + 1) (by omega) (by omega) hrest)
          simp [Finalizer.next, Finalizer.check, Finalizer.moveTo, hmore, targetOf, candidate, htaken]
      | false =>
          rw [if_neg (by simp [htaken])] at hrest
          refine runsTo_step ?_ hrest
          simp [Finalizer.next, Finalizer.check, Finalizer.moveTo, hmore, targetOf, candidate, htaken]

/-- The directory a call of `acquire_wrapper_name` settles on. -/
def acquiredDir (env : ProbeEnv) (fs : Fs) (t : TaskCtx) : String :=
  targetOf t (acquireWrapperName env.acquire fs t.outputPath (stripExtension t.filename)).1

theorem runsTo_acquire (hname : f.task.filename ≠ "") {s : Finalizer × Fs}
    (hrest : RunsTo cfg env
      ({ f with
        task := (acquirePath env fs f.task).1
        stage := .ensuring
        wrapper := acquiredDir env fs f.task
        existed := fs.exist (acquirePath env fs f.task).1.fullFilePath },
        (acquirePath env fs f.task).2) s) :
    RunsTo cfg env (f.moveTo (.checking 0), fs) s := by
  have hwrapper := wrapperOf_ne_empty hname
  rw [wrapperOf] at hwrapper
  simp only [acquirePath, acquiredDir, acquireWrapperName, acquireUniqueName, if_neg hwrapper,
    Fs.exist_eq] at hrest
  cases htaken : fs.exist (joinPath f.task.outputPath (stripExtension f.task.filename)) with
  | false =>
      simp only [htaken, not_false_eq_true, if_true, Bool.false_eq_true] at hrest
      have hlook : (f.moveTo (.checking 0)).next cfg env fs =
          some (f.moveTo (.taking (wrapperOf f.task)), fs) := by
        simp [Finalizer.next, Finalizer.check, Finalizer.moveTo, targetOf, candidate, wrapperOf,
          htaken]
      exact runsTo_step hlook (runsTo_step rfl hrest)
  | true =>
      simp only [htaken, not_true_eq_false, if_false] at hrest
      have hlook : (f.moveTo (.checking 0)).next cfg env fs =
          some (f.moveTo (.checking 1), fs) := by
        simp [Finalizer.next, Finalizer.check, Finalizer.moveTo, targetOf, candidate, wrapperOf,
          htaken]
      refine runsTo_step hlook (runsTo_numbered 9999 1 (by omega) (by omega) ?_)
      refine runsTo_step rfl ?_
      simp only [wrapperOf]
      cases hfree : firstFree fs f.task.outputPath (stripExtension f.task.filename) 9999 1 with
      | none =>
          rw [hfree] at hrest
          exact hrest
      | some k =>
          rw [hfree] at hrest
          exact hrest

/-- `createTarget`, once the directory is there. -/
def openTarget (env : ProbeEnv) (fs : Fs) (path : String) (totalSize : Int) : Option String × Fs :=
  match fs.openFile path true env.openOk with
  | none => (some (Finalizer.storageMessage env), fs)
  | some fs =>
      if totalSize ≤ 0 then (none, fs)
      else if env.truncateOk then (none, fs.truncate path totalSize.toNat)
      else (some (Finalizer.storageMessage env), fs)

def Finalizer.created (cfg : HttpConfig) (f : Finalizer) : Option String × Fs → Finalizer × Fs
  | (some message, fs) => (f.refuse message, fs)
  | (none, fs) => (f.layOut cfg, fs)

theorem runsTo_openTarget (hstage : f.stage = .opening) :
    RunsTo cfg env (f, fs)
      (f.created cfg (openTarget env fs f.task.fullFilePath f.task.totalSize)) := by
  obtain ⟨task, conn, stage, wrapper, existed⟩ := f
  obtain rfl : stage = .opening := hstage
  rw [openTarget]
  cases hopen : fs.openFile task.fullFilePath true env.openOk with
  | none =>
      refine runsTo_step ?_ .refl
      simp [Finalizer.next, Finalizer.created, hopen]
  | some disk =>
      by_cases hsize : task.totalSize ≤ 0
      · refine runsTo_step ?_ .refl
        simp [Finalizer.next, Finalizer.created, hopen, hsize]
      · have hsizing : Finalizer.next cfg env fs ⟨task, conn, .opening, wrapper, existed⟩ =
            some (⟨task, conn, .sizing, wrapper, existed⟩, disk) := by
          simp [Finalizer.next, hopen, hsize, Finalizer.moveTo]
        refine runsTo_step hsizing (runsTo_step ?_ .refl)
        cases hok : env.truncateOk <;>
          simp [Finalizer.next, Finalizer.created, hsize, hok, Finalizer.layOut, Finalizer.refuse,
            Finalizer.withTask]

theorem runsTo_create (hstage : f.stage = .ensuring) :
    RunsTo cfg env (f, fs)
      (f.created cfg (createTarget env fs f.task.fullFilePath f.task.totalSize)) := by
  obtain ⟨task, conn, stage, wrapper, existed⟩ := f
  obtain rfl : stage = .ensuring := hstage
  -- whatever was done for the directory, the file comes next
  have hfile : ∀ disk : Fs, RunsTo cfg env (⟨task, conn, .opening, wrapper, existed⟩, disk)
      (Finalizer.created cfg ⟨task, conn, .ensuring, wrapper, existed⟩
        (openTarget env disk task.fullFilePath task.totalSize)) := by
    intro disk
    have hopened : RunsTo cfg env (⟨task, conn, .opening, wrapper, existed⟩, disk) _ :=
      runsTo_openTarget rfl
    simp only [Finalizer.created, Finalizer.layOut, Finalizer.refuse, Finalizer.withTask] at hopened ⊢
    exact hopened
  rw [createTarget]
  by_cases hdir : parentPath task.fullFilePath = ""
  · simp only [if_pos hdir]
    refine runsTo_step ?_ (hfile fs)
    simp [Finalizer.next, hdir, Finalizer.moveTo]
  · simp only [if_neg hdir, mkdirRecursive]
    cases hthere : fs.exist (parentPath task.fullFilePath) with
    | true =>
        refine runsTo_step ?_ (hfile fs)
        simp [Finalizer.next, hthere, Finalizer.moveTo]
    | false =>
        have hmaking : Finalizer.next cfg env fs ⟨task, conn, .ensuring, wrapper, existed⟩ =
            some (⟨task, conn, .making, wrapper, existed⟩, fs) := by
          simp [Finalizer.next, hdir, hthere, Finalizer.moveTo]
        refine runsTo_step hmaking ?_
        cases hok : env.mkdirOk with
        | true =>
            refine runsTo_step ?_ (hfile _)
            simp [Finalizer.next, hok, hthere, Finalizer.moveTo]
        | false =>
            refine runsTo_step ?_ .refl
            simp [Finalizer.next, hok, Finalizer.created, Finalizer.refuse, Finalizer.withTask]

/-- **One worker alone finalizes as `finalizeProbing` does.** -/
theorem runsTo_finalizeProbing (cfg : HttpConfig) (env : ProbeEnv) (fs : Fs) (t : TaskCtx) (i : Nat) :
    ∃ wrapper existed, RunsTo cfg env (⟨t, i, .before, "", false⟩, fs)
      (⟨(finalizeProbing cfg env fs t i).1, i, .finished, wrapper, existed⟩,
        (finalizeProbing cfg env fs t i).2) := by
  obtain ⟨settled, hsettled⟩ : ∃ settled, settled = t.settleProbe env.urlLib i := ⟨_, rfl⟩
  have hname : settled.filename ≠ "" := hsettled ▸ filename_settleProbe_ne_empty env.urlLib t i
  have hcode : (settled.ctx i).seenHttpCode = (t.ctx i).seenHttpCode := by
    rw [hsettled]
    rfl
  have hpath : (acquirePath env fs settled).1.fullFilePath ≠ "" := joinPath_ne_empty _ hname
  have hcode' : ((acquirePath env fs settled).1.ctx i).seenHttpCode = (t.ctx i).seenHttpCode := hcode
  refine ⟨acquiredDir env fs settled, fs.exist (acquirePath env fs settled).1.fullFilePath, ?_⟩
  have hsettle : Finalizer.next cfg env fs ⟨t, i, .before, "", false⟩ =
      some (Finalizer.moveTo ⟨settled, i, .before, "", false⟩ (.checking 0), fs) := by
    rw [hsettled]
    rfl
  refine runsTo_step hsettle (runsTo_acquire hname ?_)
  have hcreate := @runsTo_create cfg env (acquirePath env fs settled).2
    ⟨(acquirePath env fs settled).1, i, .ensuring, acquiredDir env fs settled,
      fs.exist (acquirePath env fs settled).1.fullFilePath⟩ rfl
  rw [finalizeProbing]
  simp only [← hsettled, if_neg hpath]
  cases hcreated : createTarget env (acquirePath env fs settled).2
      (acquirePath env fs settled).1.fullFilePath (acquirePath env fs settled).1.totalSize with
  | mk failure disk =>
      rw [hcreated] at hcreate
      cases failure with
      | none =>
          simp only [Finalizer.created, Finalizer.layOut, Finalizer.withTask, hcode'] at hcreate
          exact hcreate
      | some message => exact hcreate

end Alone

end DownloadWrapper
