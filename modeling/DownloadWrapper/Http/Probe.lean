import DownloadWrapper.Http.FileName
import DownloadWrapper.Http.Types
import DownloadWrapper.Utils.UniqueName

/-!
# Finalizing the probe

The first body byte of the probing connection fixes the download: its name, its file and its parts.
The split keeps the probe window inside part 0 and gives the last part the remainder.
-/

namespace DownloadWrapper

/-- What the operating system and Boost.URL answer while the probe is finalized. -/
structure ProbeEnv where
  urlLib : UrlLib
  acquire : AcquireEnv := {}
  mkdirOk : Bool := true
  openOk : Bool := true
  truncateOk : Bool := true
  noSpace : Bool := false

def mkdirRecursive (fs : Fs) (path : String) (granted : Bool) : Option Fs :=
  if path = "" then none
  else if fs.exist path then some fs
  else if granted then some (fs.createDirectories path)
  else none

/-- How a download of `total` bytes is cut: the number of parts, the size of part 0, and the size of
every other part but the last. -/
structure SplitPlan where
  wantParts : Int
  part0Size : Int
  chunk : Int
  deriving DecidableEq, Repr

def splitPlan (cfg : HttpConfig) (total : Int) : SplitPlan :=
  let wantParts := if cfg.minSizeForSplit ≤ total ∧ 1 < cfg.defaultParts then cfg.defaultParts else 1
  let part0Size :=
    if 1 < wantParts then max (total / wantParts) (min probeWindowBytes total) else total
  let rest := total - part0Size
  let wantParts :=
    if 1 < wantParts then
      if rest ≤ 0 then 1 else if rest < wantParts - 1 then 2 else wantParts
    else wantParts
  let part0Size := if wantParts = 1 then total else part0Size
  let chunk := if 1 < wantParts then (total - part0Size) / (wantParts - 1) else 0
  { wantParts := wantParts, part0Size := part0Size, chunk := chunk }

/-- Part `i` of the plan, for `i` from 1 on. -/
def tailPart (plan : SplitPlan) (total : Int) (i : Nat) : PartState :=
  let start := plan.part0Size + plan.chunk * (i - 1)
  let endByte := if (i : Int) = plan.wantParts - 1 then total - 1 else start + plan.chunk - 1
  { index := i, start := start, endByte := endByte
    size := if start ≤ endByte then endByte - start + 1 else 0, done := 0 }

def tailParts (plan : SplitPlan) (total : Int) : List PartState :=
  (List.range (plan.wantParts - 1).toNat).map fun k => tailPart plan total (k + 1)

def headPart (plan : SplitPlan) (total : Int) : PartState :=
  let endByte := if 0 < total then plan.part0Size - 1 else -1
  { index := 0, start := 0, endByte := endByte
    size := if 0 ≤ endByte then endByte + 1 else 0, done := 0 }

namespace TaskCtx

/-- The split of a 206: part 0 and its connection's fields are reset, the other parts added. -/
def splitParts (cfg : HttpConfig) (t : TaskCtx) : TaskCtx :=
  let plan := splitPlan cfg t.totalSize
  let tails := tailParts plan t.totalSize
  { t with
    supportRange := 1
    parts := t.parts.modify 0 (fun _ => headPart plan t.totalSize) ++ tails
    partCtx := t.partCtx.modify 0 (fun p => { p with
      seenTotalSize := 0, seenEtag := "", seenLastModified := "", seenHttpCode := 0
      retryCount := 0 }) ++ tails.map fun p => { index := p.index } }

/-- Any other code: one part takes the whole stream. -/
def singlePart (t : TaskCtx) : TaskCtx :=
  { t.modifyPart 0 fun p => { p with
      start := 0
      endByte := if 0 < t.totalSize then t.totalSize - 1 else -1
      size := if 0 < t.totalSize then t.totalSize else 0 } with
    supportRange := 0 }

def layOut (cfg : HttpConfig) (t : TaskCtx) (code : Int) : TaskCtx :=
  if code = 206 then t.splitParts cfg else t.singlePart

/-- The total and the name `finalize_probing` settles before it touches the disk. -/
def settleProbe (urlLib : UrlLib) (t : TaskCtx) (i : Nat) : TaskCtx :=
  let totalSize :=
    if t.totalSize ≤ 0 ∧ 0 < (t.ctx i).seenTotalSize then (t.ctx i).seenTotalSize else t.totalSize
  let filename := if t.filename = "" then extractFilenameFromUrl urlLib t.url else t.filename
  let filename := if filename = "" then "download" else filename
  { t with probing := false, totalSize := totalSize, filename := filename }

end TaskCtx

def acquirePath (env : ProbeEnv) (fs : Fs) (t : TaskCtx) : TaskCtx × Fs :=
  let (unique, fs, _) := acquireWrapperName env.acquire fs t.outputPath (stripExtension t.filename)
  ({ t with fullFilePath := joinPath (joinPath t.outputPath unique) t.filename }, fs)

/-- The directory of `path` is made, the file opened or created, and its size preallocated. The
result is the message of the step that failed, if one did. -/
def createTarget (env : ProbeEnv) (fs : Fs) (path : String) (totalSize : Int) :
    Option String × Fs :=
  let dir := parentPath path
  let storage := if env.noSpace then "存储空间不足" else "存储异常，无法保存文件"
  match if dir = "" then some fs else mkdirRecursive fs dir env.mkdirOk with
  | none => (some "目录创建失败", fs)
  | some fs =>
      match fs.openFile path true env.openOk with
      | none => (some storage, fs)
      | some fs =>
          if totalSize ≤ 0 then (none, fs)
          else if env.truncateOk then (none, fs.truncate path totalSize.toNat)
          else (some storage, fs)

/-- `finalize_probing`, called from the write callback of connection `i`. -/
def finalizeProbing (cfg : HttpConfig) (env : ProbeEnv) (fs : Fs) (t : TaskCtx) (i : Nat) :
    TaskCtx × Fs :=
  let code := (t.ctx i).seenHttpCode
  let (t, fs) := acquirePath env fs (t.settleProbe env.urlLib i)
  if t.fullFilePath = "" then (t.layOut cfg code, fs)
  else
    match createTarget env fs t.fullFilePath t.totalSize with
    | (some message, fs) => (t.fail message, fs)
    | (none, fs) => (t.layOut cfg code, fs)

end DownloadWrapper
