import DownloadWrapper.Http.Header
import DownloadWrapper.Http.Resume
import DownloadWrapper.Http.Result
import DownloadWrapper.Http.Write
import DownloadWrapper.Lib.Transition

/-!
# The worker thread of a task

`task_thread_func` and the `curl_multi` loop it runs, as a step function. libcurl's callbacks and
results arrive as events in any order; what the loop itself decides is decided here. Requests of
other threads (pause, delete, shutdown) are events too and may come between any two steps.
-/

namespace DownloadWrapper

/-- Where the thread stands. -/
inductive Phase where
  /-- Spawned, not yet running. -/
  | created
  /-- In `curl_multi_perform`: the callbacks run. -/
  | performing
  /-- Reading the results of connections that ended. -/
  | draining
  /-- Out of the loop. -/
  | leaving
  /-- The parts are aggregated into the task's status. -/
  | closing
  /-- The final archive, if any, is saved. -/
  | ending
  /-- `thread_done` is set. -/
  | exited
  deriving DecidableEq, Repr

/-- A task with its worker. `emitted` is the last archive this worker saved, `pwrites` the calls of
`pwrite_at` it made, the latest first. -/
structure Worker where
  task : TaskCtx
  fs : Fs
  phase : Phase := .created
  spawned : Nat := 0
  active : Int := 0
  emitted : Option Archive := none
  pwrites : List PWrite := []

inductive Event where
  /-- The thread enters; `multiOk` is `curl_multi_init`'s answer, `built i` `curl_easy_init`'s for
  part `i`. -/
  | enter (multiOk : Bool) (built : Nat → Bool)
  | header (i : Nat) (line : String)
  | body (i : Nat) (data : List Byte) (env : WriteEnv)
  /-- `curl_multi_perform` and `curl_multi_poll` returned. -/
  | performed (multiOk : Bool) (built : Nat → Bool)
  /-- `curl_multi_info_read` reports the end of connection `i`. -/
  | message (i : Nat) (rc : CurlCode) (httpCode : Int) (built : Bool)
  | drained
  /-- A C++ exception, inside the loop or while the end is saved. -/
  | raised
  | leave
  | close
  | exit
  | pauseRequest
  | deleteRequest
  | shutdown

namespace Worker

def modifyTask (w : Worker) (f : TaskCtx → TaskCtx) : Worker := { w with task := f w.task }

/-- The thread has not finished: `thread_done` is unset. -/
def running (w : Worker) : Bool := w.phase ≠ .exited

def emitResume (w : Worker) : Worker := { w with emitted := some (serializeResume w.task) }

/-- `maybe_emit_resume`: only a resumable task, and only when it has more than at the last time. -/
def maybeEmitResume (w : Worker) : Worker :=
  if w.task.supportRange = 0 ∨ w.task.totalDone ≤ w.task.lastEmitDone then w
  else (w.modifyTask fun t => { t with lastEmitDone := t.totalDone }).emitResume

/-- The request `build_easy_for_part` makes for part `i`: the bounded window while probing, the
missing range of the part otherwise, validated by `If-Range` when the task has a validator. -/
def easyFor (t : TaskCtx) (i : Nat) : Easy :=
  let p := t.part i
  let restart := p.start + p.done
  if t.probing then { first := 0, last := some (probeWindowBytes - 1), ifRange := none }
  else
    { first := restart
      last := if restart ≤ p.endByte then some p.endByte else none
      ifRange :=
        if t.etag = "" ∧ t.lastModified = "" then none
        else some (if t.etag = "" then t.lastModified else t.etag) }

/-- `build_easy_for_part`, when libcurl has a handle to give. -/
def buildEasyForPart (t : TaskCtx) (i : Nat) : TaskCtx :=
  t.modifyCtx i fun c => { c with
    seenTotalSize := 0, seenEtag := "", seenLastModified := "", seenHttpCode := 0
    probeWindow := t.probing
    easy := some (easyFor t i) }

/-- `add_part`: connect part `i`, or put it in error. -/
def addPart (t : TaskCtx) (i : Nat) (built : Bool) : TaskCtx :=
  if built then buildEasyForPart t i else t.failPart i .error

/-- One round of `spawn_new_parts`; a part restored as complete needs no connection. -/
def spawnPart (built : Nat → Bool) (w : Worker) (i : Nat) : Worker :=
  let w := { w with spawned := i + 1 }
  if (w.task.part i).status = .completed then w
  else
    { w with
      task := addPart w.task i (built i)
      active := if built i then w.active + 1 else w.active }

def spawnNewParts (built : Nat → Bool) (w : Worker) : Worker :=
  (List.range' w.spawned (w.task.partCtx.length - w.spawned)).foldl (spawnPart built) w

def dropEasy (t : TaskCtx) (i : Nat) : TaskCtx := t.modifyCtx i fun c => { c with easy := none }

def cleanupAll (t : TaskCtx) : TaskCtx :=
  { t with partCtx := t.partCtx.map fun c => { c with easy := none } }

/-- libcurl calls no callback of a connection once one returned short. -/
def abortEasy (t : TaskCtx) (i : Nat) : TaskCtx :=
  t.modifyCtx i fun c => { c with easy := c.easy.map fun e => { e with aborted := true } }

def live (t : TaskCtx) (i : Nat) : Bool :=
  match (t.ctx i).easy with
  | some easy => !easy.aborted
  | none => false

/-! ### The loop -/

/-- The head of the loop: go round again, or leave. -/
def loopHead (w : Worker) : Worker :=
  if w.active ≤ 0 ∨ w.task.cancelReq ∨ w.task.pauseReq ∨ w.task.failed then
    { w with phase := .leaving }
  else { w with phase := .performing }

/-- The errors of the thread itself: the first message stands. -/
def threadFailed (t : TaskCtx) : TaskCtx :=
  { t with
    status := .error, reason := .error
    message := if t.message = "" then "下载过程中出现异常" else t.message }

/-- The start of `task_thread_func` and of `run_parts_multi`. -/
def enter (w : Worker) (multiOk : Bool) (built : Nat → Bool) : Worker :=
  if w.task.cancelReq then { w with phase := .exited }
  else if w.task.pauseReq then
    { (w.modifyTask fun t => { t with status := .paused }).maybeEmitResume with phase := .exited }
  else if ¬ multiOk then { w.modifyTask threadFailed with phase := .leaving }
  else (w.spawnNewParts built).loopHead

def header (w : Worker) (i : Nat) (line : String) : Worker :=
  let (t, consumed) := headerCb w.task i line
  { w with task := if consumed ∨ line = "" then t else abortEasy t i }

def body (cfg : HttpConfig) (w : Worker) (i : Nat) (data : List Byte) (env : WriteEnv) : Worker :=
  let written := writeCb cfg env w.fs w.task i data
  { w with
    task := if written.consumed = data.length then written.task else abortEasy written.task i
    fs := written.fs
    pwrites := written.issued.toList ++ w.pwrites }

/-- One `CURLMSG_DONE`. -/
def message (cfg : HttpConfig) (w : Worker) (i : Nat) (rc : CurlCode) (httpCode : Int)
    (built : Bool) : Worker :=
  let t := dropEasy w.task i
  if t.cancelReq ∨ t.pauseReq then { w with task := t, active := w.active - 1 }
  else
    let (t, again) := handlePartResult cfg t i rc httpCode
    if again then
      { w with task := addPart t i built, active := if built then w.active else w.active - 1 }
    else { w with task := t, active := w.active - 1 }

/-- `cleanup_all`, then `aggregate_status`. -/
def leave (w : Worker) : Worker :=
  { w with task := aggregateStatus (cleanupAll w.task), phase := .closing }

/-- What is saved at the end: a completed task, or the progress of a paused one. -/
def close (w : Worker) : Worker :=
  let w :=
    if w.task.status = .completed then
      (w.modifyTask fun t => { t with
        partCtx := t.partCtx.map fun c => { c with fileOpen := false } }).emitResume
    else if w.task.pauseReq ∧ ¬ w.task.cancelReq then w.maybeEmitResume
    else w
  { w with phase := .ending }

/-- The last look at the requests, then `thread_done`. -/
def exit (w : Worker) : Worker :=
  let w :=
    if ¬ w.task.cancelReq ∧ w.task.pauseReq then w.modifyTask fun t => { t with status := .paused }
    else w
  { w with phase := .exited }

/-- One step. An event the thread's position does not admit has none. -/
def step (cfg : HttpConfig) (w : Worker) : Event → Option Worker
  | .enter multiOk built => if w.phase = .created then some (w.enter multiOk built) else none
  | .header i line =>
      if w.phase = .performing ∧ live w.task i then some (w.header i line) else none
  | .body i data env =>
      if w.phase = .performing ∧ live w.task i then some (w.body cfg i data env) else none
  | .performed multiOk built =>
      if w.phase ≠ .performing then none
      else if multiOk then some { w.spawnNewParts built with phase := .draining }
      else some { w with phase := .leaving }
  | .message i rc httpCode built =>
      if w.phase = .draining ∧ (w.task.ctx i).easy.isSome then
        some (w.message cfg i rc httpCode built)
      else none
  | .drained => if w.phase = .draining then some w.maybeEmitResume.loopHead else none
  | .raised =>
      if w.phase = .performing ∨ w.phase = .draining then
        some { w.modifyTask threadFailed with phase := .leaving }
      else if w.phase = .closing then
        some { w.modifyTask (·.fail "任务线程异常终止") with phase := .ending }
      else none
  | .leave => if w.phase = .leaving then some w.leave else none
  | .close => if w.phase = .closing then some w.close else none
  | .exit => if w.phase = .ending then some w.exit else none
  | .pauseRequest => some (w.modifyTask fun t => { t with pauseReq := true })
  | .deleteRequest =>
      some (w.modifyTask fun t => { t with cancelReq := true, deleteReq := true })
  | .shutdown => some (w.modifyTask fun t => { t with cancelReq := true })

end Worker

/-- The worker of a task as `start_download` spawns it. -/
def startWorker (url clientId savePath : String) (archive : Option Archive) (fs : Fs)
    (granted : Bool) : Worker where
  task := startFrom url clientId savePath archive fs granted
  fs := fs

end DownloadWrapper
