import DownloadWrapper.Http.Types

/-!
# Results of connections

When a connection of a part ends, its outcome decides whether the part is complete, asks again, or is
in error; when all have ended, the parts decide the task.
-/

namespace DownloadWrapper

def isSuccessCode (httpCode : Int) : Bool := 200 ≤ httpCode && httpCode < 300

/-- `classify_failure`: the reason, and whether the part may retry. -/
def classifyFailure (rc : CurlCode) (httpCode : Int) : Reason × Bool :=
  match rc with
  | .ok | .httpReturnedError =>
      if 500 ≤ httpCode ∧ httpCode ≤ 599 then (.network, true)
      else if httpCode = 408 ∨ httpCode = 429 then (.network, true)
      else if httpCode = 401 ∨ httpCode = 403 then (.auth, false)
      else (.error, false)
  | .couldntResolveHost | .couldntResolveProxy | .couldntConnect | .operationTimedout
  | .recvError | .sendError | .partialFile | .gotNothing | .sslConnectError
  | .peerFailedVerification => (.network, true)
  | .writeError | .other _ => (.error, false)

def failureMessage : Reason → String
  | .auth => "认证失败"
  | .error => "资源不存在或已失效"
  | .fail => "下载失败，将自动重试"
  | .network => "网络连接异常"
  | _ => "下载过程中出现异常"

/-- How much a reason weighs when parts fail for different ones. -/
def reasonRank : Reason → Int
  | .auth => 4
  | .error => 3
  | .fail => 2
  | .network => 1
  | _ => 0

/-- The weightiest reason among the parts in error, the first of equals. -/
def bestReason (parts : List PartState) : Reason :=
  (parts.foldl (fun (best : Reason × Int) p =>
    if p.status = .error ∧ best.2 < reasonRank p.reason then (p.reason, reasonRank p.reason)
    else best) (.none, -1)).1

def aggregateStatus (t : TaskCtx) : TaskCtx :=
  if t.failed then t
  else if t.parts.any (·.status = .downloading) then
    { t with status := .downloading, reason := .none }
  else if t.parts.all (·.status = .completed) then
    { t with status := .completed, reason := .none }
  else if t.parts.any (·.status = .error) then
    { t with status := .error, reason := bestReason t.parts }
  else t

namespace TaskCtx

def completePart (t : TaskCtx) (i : Nat) : TaskCtx :=
  t.modifyPart i fun p => { p with status := .completed, reason := .none }

def failPart (t : TaskCtx) (i : Nat) (reason : Reason) : TaskCtx :=
  t.modifyPart i fun p => { p with status := .error, reason := reason }

def countRetry (t : TaskCtx) (i : Nat) : TaskCtx :=
  t.modifyCtx i fun p => { p with retryCount := p.retryCount + 1 }

/-- Without a total the connection's normal end is the end of the file. -/
def completeUnsized (t : TaskCtx) (i : Nat) : TaskCtx :=
  let done := (t.part i).done
  { t.modifyPart i fun p => { p with status := .completed, reason := .none, size := p.done } with
    totalSize := if t.totalSize ≤ 0 then done else t.totalSize }

end TaskCtx

def completesUnsized (t : TaskCtx) (i : Nat) (rc : CurlCode) (httpCode : Int) : Prop :=
  (t.part i).status ≠ .error ∧ (t.part i).size ≤ 0 ∧ rc = .ok ∧ isSuccessCode httpCode ∧
    ¬ ((t.ctx i).probeWindow ∧ httpCode = 206 ∧ 0 < (t.part i).done)

instance (t : TaskCtx) (i : Nat) (rc : CurlCode) (httpCode : Int) :
    Decidable (completesUnsized t i rc httpCode) :=
  inferInstanceAs (Decidable (_ ∧ _ ∧ _ ∧ _ ∧ _))

/-- `handle_part_result`: the task, and whether the part wants another connection. -/
def handlePartResult (cfg : HttpConfig) (t : TaskCtx) (i : Nat) (rc : CurlCode) (httpCode : Int) :
    TaskCtx × Bool :=
  let p := t.part i
  let retriesLeft := decide (((t.ctx i).retryCount : Int) < cfg.maxRetries)
  if p.status = .error then (t, false)
  else if 0 < p.size ∧ p.size ≤ p.done then (t.completePart i, false)
  -- the probe window is exhausted: go on with the rest of the part, at no retry
  else if (t.ctx i).probeWindow ∧ rc = .ok ∧ httpCode = 206 ∧ 0 < p.done then
    (t.modifyCtx i fun c => { c with probeWindow := false }, true)
  else if rc = .ok ∧ isSuccessCode httpCode ∧ p.size ≤ 0 then (t.completeUnsized i, false)
  else if rc = .ok ∧ isSuccessCode httpCode then
    if retriesLeft then (t.countRetry i, true) else (t.failPart i .network, false)
  else
    let (reason, retryable) := classifyFailure rc httpCode
    if retryable ∧ retriesLeft then (t.countRetry i, true)
    else
      let t := t.failPart i reason
      ({ t with message := if t.message = "" then failureMessage reason else t.message }, false)

end DownloadWrapper
