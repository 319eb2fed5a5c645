import DownloadWrapper.Basic
import DownloadWrapper.Utils.FileSystem
import Mathlib.Algebra.Ring.Int.Defs

/-!
# HTTP task state

The runtime state of one HTTP task: its parts, the connection of each part, and the fields the
callbacks share. Speeds and progress percentages are floating point and decide nothing, so they are
left out; sizes and offsets are `int64_t`, never negative where they are added.
-/

namespace DownloadWrapper

/-- The part of the configuration the HTTP engine decides with. `sync_config` normalises it, so a
value out of range cannot be in force. -/
structure HttpConfig where
  maxRetries : Int
  defaultParts : Int
  minSizeForSplit : Int
  maxRetries_nonneg : 0 ≤ maxRetries
  defaultParts_pos : 0 < defaultParts
  minSizeForSplit_pos : 0 < minSizeForSplit

/-- `sync_config`: values out of range fall back to 3 retries, 4 parts and 1 MiB. -/
def syncConfig (maxRetries defaultParts minSizeForSplit : Int) : HttpConfig where
  maxRetries := if 0 ≤ maxRetries then maxRetries else 3
  defaultParts := if 0 < defaultParts then defaultParts else 4
  minSizeForSplit := if 0 < minSizeForSplit then minSizeForSplit else 1 * 1024 * 1024
  maxRetries_nonneg := by split <;> omega
  defaultParts_pos := by split <;> omega
  minSizeForSplit_pos := by split <;> omega

def probeWindowBytes : Int := 1024 * 1024

/-- The `CURLcode`s the engine distinguishes. -/
inductive CurlCode where
  | ok
  | couldntResolveProxy
  | couldntResolveHost
  | couldntConnect
  | partialFile
  | httpReturnedError
  | writeError
  | operationTimedout
  | sslConnectError
  | gotNothing
  | sendError
  | recvError
  | peerFailedVerification
  | other (code : Nat)
  deriving DecidableEq, Repr

/-- `dw_part_state_t`: `endByte` is inclusive, and `size = endByte - start + 1` once fixed. -/
structure PartState where
  index : Int := 0
  start : Int := 0
  endByte : Int := 0
  size : Int := 0
  done : Int := 0
  status : TaskStatus := .downloading
  reason : Reason := .none
  deriving DecidableEq, Repr

instance : Inhabited PartState := ⟨{}⟩

/-- What `build_easy_for_part` asks of libcurl: the range, open-ended or closed, and the `If-Range`
validator. `aborted` records that a callback returned short, after which libcurl calls none again. -/
structure Easy where
  first : Int
  last : Option Int
  ifRange : Option String
  aborted : Bool := false
  deriving DecidableEq, Repr, Inhabited

/-- `dl_part_ctx`, at the position of its part; `easy` is the handle the part owns, `fileOpen`
whether its `DwFile` is open. -/
structure PartCtx where
  index : Int := 0
  easy : Option Easy := none
  retryCount : Nat := 0
  probeWindow : Bool := false
  seenTotalSize : Int := 0
  seenEtag : String := ""
  seenLastModified : String := ""
  seenHttpCode : Int := 0
  fileOpen : Bool := false
  deriving DecidableEq, Repr

instance : Inhabited PartCtx := ⟨{}⟩

/-- `dl_task_ctx`. -/
structure TaskCtx where
  url : String
  clientId : String := ""
  outputPath : String
  filename : String := ""
  fullFilePath : String := ""
  totalSize : Int := -1
  status : TaskStatus := .downloading
  supportRange : Int := 0
  etag : String := ""
  lastModified : String := ""
  reason : Reason := .none
  message : String := ""
  parts : List PartState
  partCtx : List PartCtx
  pauseReq : Bool := false
  cancelReq : Bool := false
  deleteReq : Bool := false
  probing : Bool := true
  lastEmitDone : Int := -1
  deriving DecidableEq, Repr

/-- `task_create_new`: one empty part, still probing. -/
def taskCreateNew (url clientId outputPath : String) : TaskCtx where
  url := url
  clientId := clientId
  outputPath := outputPath
  parts := [{ index := 0, start := 0, endByte := -1, size := 0, done := 0 }]
  partCtx := [{}]

namespace TaskCtx

/-- `tCtx->parts[index]`. -/
def part (t : TaskCtx) (index : Nat) : PartState := t.parts.getD index default

/-- `tCtx->part_ctx[index]`. -/
def ctx (t : TaskCtx) (index : Nat) : PartCtx := t.partCtx.getD index default

def modifyPart (t : TaskCtx) (index : Nat) (f : PartState → PartState) : TaskCtx :=
  { t with parts := t.parts.modify index f }

def modifyCtx (t : TaskCtx) (index : Nat) (f : PartCtx → PartCtx) : TaskCtx :=
  { t with partCtx := t.partCtx.modify index f }

def failed (t : TaskCtx) : Bool := t.status = .error && t.reason = .error

def fail (t : TaskCtx) (message : String) : TaskCtx :=
  { t with status := .error, reason := .error, message := message }

def totalDone (t : TaskCtx) : Int := (t.parts.map PartState.done).sum

theorem status_of_failed {t : TaskCtx} (h : t.failed = true) : t.status = .error := by
  simp only [failed, Bool.and_eq_true, decide_eq_true_eq] at h
  exact h.1

@[simp] theorem modifyPart_partCtx (t : TaskCtx) (i : Nat) (f : PartState → PartState) :
    (t.modifyPart i f).partCtx = t.partCtx := rfl

@[simp] theorem modifyPart_parts (t : TaskCtx) (i : Nat) (f : PartState → PartState) :
    (t.modifyPart i f).parts = t.parts.modify i f := rfl

@[simp] theorem modifyCtx_parts (t : TaskCtx) (i : Nat) (f : PartCtx → PartCtx) :
    (t.modifyCtx i f).parts = t.parts := rfl

@[simp] theorem modifyCtx_partCtx (t : TaskCtx) (i : Nat) (f : PartCtx → PartCtx) :
    (t.modifyCtx i f).partCtx = t.partCtx.modify i f := rfl

@[simp] theorem modifyCtx_part (t : TaskCtx) (i j : Nat) (f : PartCtx → PartCtx) :
    (t.modifyCtx i f).part j = t.part j := rfl

@[simp] theorem modifyPart_ctx (t : TaskCtx) (i j : Nat) (f : PartState → PartState) :
    (t.modifyPart i f).ctx j = t.ctx j := rfl

theorem modifyCtx_ctx_self {t : TaskCtx} {i : Nat} (hi : i < t.partCtx.length)
    (f : PartCtx → PartCtx) : (t.modifyCtx i f).ctx i = f (t.ctx i) := by
  simp [ctx, hi]

theorem ctx_of_length_le {t : TaskCtx} {i : Nat} (hi : t.partCtx.length ≤ i) : t.ctx i = {} := by
  simp only [ctx, List.getD, List.getElem?_eq_none hi]
  rfl

theorem part_eq_getElem {t : TaskCtx} {i : Nat} (hi : i < t.parts.length) :
    t.part i = t.parts[i] := by
  simp [part, hi]

theorem part_mem {t : TaskCtx} {i : Nat} (hi : i < t.parts.length) : t.part i ∈ t.parts := by
  rw [part_eq_getElem hi]
  exact List.getElem_mem hi

end TaskCtx

end DownloadWrapper
