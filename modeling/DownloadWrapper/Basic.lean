import Mathlib.Logic.Function.Basic

/-!
# The public enumerations

The codes of the C interface: protocols, task statuses, and the reason codes that double as the
result of an operation.
-/

namespace DownloadWrapper

/-- `dw_protocol_t`. -/
inductive Protocol where
  | http
  | torrent
  | local
  deriving DecidableEq, Repr

/-- `dw_task_status_t`. -/
inductive TaskStatus where
  | downloading
  | paused
  | completed
  | error
  | queued
  | resolving
  | invalidated
  | deleting
  | fail
  deriving DecidableEq, Repr

/-- `dw_reason_t`: `none` is success, `fail` a failure the scheduler retries. -/
inductive Reason where
  | none
  | internal
  | network
  | invalidInput
  | auth
  | error
  | fail
  deriving DecidableEq, Repr

/-- `dw_submit_result_t`, as the engines and the scheduler use it. -/
structure SubmitResult where
  code : Reason := .none
  message : String := ""
  deriving DecidableEq, Repr

namespace SubmitResult

def success : SubmitResult := {}

def failure (reason : Reason := .error) (message : String := "") : SubmitResult :=
  { code := reason, message := message }

end SubmitResult

end DownloadWrapper
