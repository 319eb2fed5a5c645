import DownloadWrapper.Http.Types

/-!
# Resume archives

What is saved of a running download and how a new process picks it up. The archive is the bencode
dictionary `serialize_resume` builds; encoding it to bytes and back is libtorrent's and loses nothing.
-/

namespace DownloadWrapper

/-- One item of the archive's `parts` list. -/
structure ArchivedPart where
  index : Int
  start : Int
  endByte : Int
  done : Int
  deriving DecidableEq, Repr

/-- The archive's dictionary. -/
structure Archive where
  totalSize : Int
  supportRange : Int
  etag : String
  lastModified : String
  path : String
  parts : List ArchivedPart
  deriving DecidableEq, Repr

def serializeResume (t : TaskCtx) : Archive where
  totalSize := t.totalSize
  supportRange := t.supportRange
  etag := t.etag
  lastModified := t.lastModified
  path := t.fullFilePath
  parts := t.parts.map fun p => ⟨p.index, p.start, p.endByte, p.done⟩

structure HttpResumeData where
  ok : Bool
  totalSize : Int
  supportRange : Int
  etag : String
  lastModified : String
  fullFilePath : String
  parts : List PartState
  deriving DecidableEq, Repr

/-- A part as the archive describes it: its size follows from its bounds, its status from both. -/
def ArchivedPart.restore (a : ArchivedPart) : PartState :=
  let size := if a.start ≤ a.endByte then a.endByte - a.start + 1 else 0
  { index := a.index, start := a.start, endByte := a.endByte, size := size, done := a.done
    status := if 0 < size ∧ size ≤ a.done then .completed else .downloading }

def deserializeResume (a : Archive) : HttpResumeData where
  ok := a.parts ≠ []
  totalSize := a.totalSize
  supportRange := a.supportRange
  etag := a.etag
  lastModified := a.lastModified
  fullFilePath := a.path
  parts := a.parts.map ArchivedPart.restore

/-- A task continued from what was saved of it: no probe, a connection for every part. -/
def TaskCtx.continueFrom (t : TaskCtx) (rd : HttpResumeData) : TaskCtx :=
  { t with
    fullFilePath := rd.fullFilePath
    outputPath := parentPath rd.fullFilePath
    filename := fileName rd.fullFilePath
    totalSize := rd.totalSize
    supportRange := rd.supportRange
    etag := rd.etag
    lastModified := rd.lastModified
    parts := rd.parts
    partCtx := rd.parts.mapIdx fun i _ => { index := i }
    probing := false }

/-- The start of a download in `start_download`: a new task, continued from the archive when that
names a file that can still be opened, from nothing otherwise. -/
def startFrom (url clientId savePath : String) (archive : Option Archive) (fs : Fs)
    (granted : Bool) : TaskCtx :=
  let t := taskCreateNew url clientId savePath
  match archive with
  | none => t
  | some archive =>
      let rd := deserializeResume archive
      if rd.ok ∧ rd.fullFilePath ≠ "" ∧ (fs.openFile rd.fullFilePath false granted).isSome then
        t.continueFrom rd
      else t

theorem startFrom_cases (url clientId savePath : String) (archive : Option Archive) (fs : Fs)
    (granted : Bool) :
    startFrom url clientId savePath archive fs granted = taskCreateNew url clientId savePath ∨
      ∃ a, archive = some a ∧ a.parts ≠ [] ∧ a.path ≠ "" ∧
        (fs.openFile a.path false granted).isSome ∧
        startFrom url clientId savePath archive fs granted =
          (taskCreateNew url clientId savePath).continueFrom (deserializeResume a) := by
  cases archive with
  | none => exact Or.inl rfl
  | some a =>
      simp only [startFrom]
      split
      next h => exact Or.inr ⟨a, rfl, by simpa [deserializeResume] using h.1, h.2.1, h.2.2, rfl⟩
      next => exact Or.inl rfl

end DownloadWrapper
