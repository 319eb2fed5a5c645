import DownloadWrapper.Http.Probe

/-!
# The write callback

A body chunk is written at its part's offset, cut at the part's end, and counted. Everything that
can go wrong leaves the count as it was, so a resume never trusts bytes that are not on disk.
-/

namespace DownloadWrapper

def eio : Nat := 5
def ebadf : Nat := 9
def enospc : Nat := 28

/-- A failed write: the `errno` it set, if any, and how many bytes of the chunk it left on disk. -/
structure WriteFailure where
  errno : Nat
  landed : Nat
  deriving DecidableEq, Repr

/-- What the operating system answers to one chunk. -/
structure WriteEnv where
  probe : ProbeEnv
  openOk : Bool := true
  failure : Option WriteFailure := none

/-- One `pwrite_at` call: the part as it was when the call was made, and the range asked for. -/
structure PWrite where
  index : Nat
  part : PartState
  off : Int
  len : Nat
  deriving DecidableEq, Repr

/-- What a write callback leaves: the task, the disk, the bytes consumed, and the `pwrite_at` it
issued, if it came that far. -/
structure Written where
  task : TaskCtx
  fs : Fs
  consumed : Nat
  issued : Option PWrite

namespace TaskCtx

def writeFailed (t : TaskCtx) (i : Nat) (message : String) : TaskCtx :=
  { t.modifyPart i fun p => { p with status := .error, reason := .error } with
    message := if t.message = "" then message else t.message }

/-- The chunk cut at the end of its part; none when the part is full. A part of unknown size takes
everything. -/
def fit (t : TaskCtx) (i : Nat) (data : List Byte) : Option (List Byte) :=
  let p := t.part i
  if 0 < p.size then
    if p.size - p.done ≤ 0 then none else some (data.take (p.size - p.done).toNat)
  else some data

/-- `pCtx->file.open(full_file_path, false)`, unless it is open. -/
def ensureOpen (t : TaskCtx) (fs : Fs) (i : Nat) (granted : Bool) : TaskCtx :=
  t.modifyCtx i fun p => { p with
    fileOpen := p.fileOpen || (fs.openFile t.fullFilePath false granted).isSome }

end TaskCtx

/-- `pwrite_at`: the `errno`, 0 on success, and the disk afterwards. -/
def pwriteAt (env : WriteEnv) (fs : Fs) (path : String) (opened : Bool) (off : Int)
    (data : List Byte) : Nat × Fs :=
  if ¬ opened then (ebadf, fs)
  else
    match env.failure with
    | none => (0, fs.pwrite path off.toNat data)
    | some failure =>
        (if failure.errno ≠ 0 then failure.errno else eio,
          fs.pwrite path off.toNat (data.take failure.landed))

/-- The chunk, cut to fit, goes to disk at `start + done`. -/
def writeChunk (env : WriteEnv) (fs : Fs) (t : TaskCtx) (i : Nat) (data : List Byte) : Written :=
  if fs.exist t.fullFilePath = false then ⟨t.writeFailed i "文件不存在", fs, 0, none⟩
  else
    let t := t.ensureOpen fs i env.openOk
    let p := t.part i
    let off := p.start + p.done
    let issued := some { index := i, part := p, off := off, len := data.length }
    let (werr, fs) := pwriteAt env fs t.fullFilePath (t.ctx i).fileOpen off data
    if werr = 0 then
      ⟨t.modifyPart i fun p => { p with done := p.done + data.length }, fs, data.length, issued⟩
    else
      let message := if werr = enospc then "存储空间不足" else "保存失败 [" ++ toString werr ++ "]"
      ⟨t.writeFailed i message, fs, 0, issued⟩

/-- The task and the disk as `write_cb` has them when it comes to the chunk: the first body byte
finalizes the probe. -/
def probed (cfg : HttpConfig) (env : WriteEnv) (fs : Fs) (t : TaskCtx) (i : Nat) : TaskCtx × Fs :=
  if t.probing then finalizeProbing cfg env.probe fs t i else (t, fs)

/-- `write_cb`. Consuming less than the chunk ends the connection. -/
def writeCb (cfg : HttpConfig) (env : WriteEnv) (fs : Fs) (t : TaskCtx) (i : Nat)
    (data : List Byte) : Written :=
  if t.status = .error ∨ t.cancelReq ∨ t.pauseReq ∨ data = [] then ⟨t, fs, 0, none⟩
  else
    let (t, fs) := probed cfg env fs t i
    if t.status = .error then ⟨t, fs, 0, none⟩
    else
      match t.fit i data with
      | none => ⟨t, fs, 0, none⟩
      | some data => writeChunk env fs t i data

end DownloadWrapper
