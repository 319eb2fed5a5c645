import DownloadWrapper.Core.Task
import DownloadWrapper.Torrent.Session
import Mathlib.Algebra.Order.Group.Unbundled.Abs
import Mathlib.Algebra.Order.Ring.Rat

/-!
# The files of a BT task

The file list follows the torrent's layout, without the pad files, and stays sorted by index. A file's
downloaded intervals are read off the piece bitmap.
-/

namespace DownloadWrapper

def fileExtension (path : String) : String :=
  String.ofList (((fileName path).toList.drop (stem path).toList.length).drop 1)

def upsertFile (index : Int) (f : TaskFile → TaskFile) : List TaskFile → List TaskFile
  | [] => [f { fileIndex := index }]
  | file :: files =>
      if file.fileIndex < index then file :: upsertFile index f files
      else if file.fileIndex = index then f file :: files
      else f { fileIndex := index } :: file :: files

def clampSize (n size : Int) : Int := max 0 (min n size)

/-- The share of a file that is done; an empty file is. -/
def shareOf (done size : Int) : ℚ := if 0 < size then done / size else 1

/-- One file as `handle_parsed` fills it in. Intervals that claim more than is there are dropped. -/
def parsedFile (infoHash : String) (t : Torrent) (i : Nat) (layout : LayoutFile) (file : TaskFile) :
    TaskFile :=
  let done := (t.fileProgress[i]?).map fun n => clampSize n layout.size
  let totalDone := done.getD file.totalDone
  { file with
    taskId := infoHash
    path := layout.path
    fullPath := if t.savePath = "" then file.fullPath else joinPath t.savePath layout.path
    name := fileName layout.path
    extension := fileExtension layout.path
    totalSize := layout.size
    segments := if totalDone < file.totalDone then [] else file.segments
    totalDone := totalDone
    progress := shareOf totalDone layout.size
    prioritize := (t.filePriorities[i]?).getD file.prioritize }

def parsedFiles (infoHash : String) (t : Torrent) (info : TorrentInfo) (files : List TaskFile) :
    List TaskFile :=
  info.files.zipIdx.foldl (fun files (layout, i) =>
    if layout.pad then files else upsertFile i (parsedFile infoHash t i layout) files) files

def pushSegment (segments : List (Int × Int)) (start finish : Int) : List (Int × Int) :=
  match segments.getLast? with
  | some (first, last) =>
      if last + 1 = start then segments.dropLast ++ [(first, finish)]
      else segments ++ [(start, finish)]
  | none => [(start, finish)]

/-- The bytes of piece `p` that lie in the file, relative to the file. -/
def pieceInFile (pieceLength : Int) (layout : LayoutFile) (p : Int) : Int × Int :=
  (max (p * pieceLength) layout.offset - layout.offset,
    min ((p + 1) * pieceLength - 1) (layout.offset + layout.size - 1) - layout.offset)

def segmentsOf (pieceLength : Int) (pieces : List Bool) (layout : LayoutFile) :
    List (Int × Int) × Int :=
  let first := (layout.offset / pieceLength).toNat
  let last := ((layout.offset + layout.size - 1) / pieceLength).toNat
  (List.range' first (last + 1 - first)).foldl (fun acc (p : Nat) =>
    if pieces[p]? = some true then
      let (start, finish) := pieceInFile pieceLength layout p
      (pushSegment acc.1 start finish, acc.2 + (finish - start + 1))
    else acc) ([], 0)

def touches (info : TorrentInfo) (p : Nat) (layout : LayoutFile) : Bool :=
  !layout.pad && 0 < layout.size && layout.offset < (p + 1) * info.pieceLength &&
    p * info.pieceLength < layout.offset + layout.size

/-- The step of progress, in shares of the file, below which nothing is recomputed. -/
def progressStep : ℚ := 1 / 1000

def pending (t : Torrent) (info : TorrentInfo) (p : Nat) (file : TaskFile) : Bool :=
  match info.files[file.fileIndex.toNat]?, t.pieceProgress[file.fileIndex.toNat]? with
  | some layout, some n =>
      0 ≤ file.fileIndex && touches info p layout && 0 < file.totalSize &&
        progressStep < |shareOf (clampSize n file.totalSize) file.totalSize - file.progress|
  | _, _ => false

def recount (t : Torrent) (info : TorrentInfo) (file : TaskFile) : TaskFile :=
  match info.files[file.fileIndex.toNat]? with
  | none => file
  | some layout =>
      if layout.size ≤ 0 then file
      else
        let (segments, done) := segmentsOf info.pieceLength t.pieces layout
        { file with
          segments := segments, totalDone := done, progress := (done : ℚ) / layout.size
          dirty := true }

def completedFile (file : TaskFile) : TaskFile :=
  { file with
    totalDone := file.totalSize, progress := 1
    segments := if 0 < file.totalSize then [(0, file.totalSize - 1)] else []
    dirty := true }

def modifyFile (index : Int) (f : TaskFile → TaskFile) : List TaskFile → List TaskFile
  | [] => []
  | file :: files =>
      if file.fileIndex = index then f file :: files else file :: modifyFile index f files

end DownloadWrapper
