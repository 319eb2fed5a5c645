import DownloadWrapper.Lib.Transition
import DownloadWrapper.Playback.Request
import DownloadWrapper.Utils.FileSystem
import Mathlib.Data.Int.Order.Basic

/-!
# Playback sessions

A session answers one request. It has one operation under way at a time, a write or the timer, and goes
on when that is through: it looks up its position among the segments the downloader reports, reads the
file there and writes what it read. Positions are far from the end of `int64_t`, as no file is that long.
-/

namespace DownloadWrapper.Playback

def chunkSize : Int := 65536

abbrev Disk := String → Option (List Byte)

/-- What a session finds when it streams: the answer of `dw_get_file_ranges`, and the disk. -/
structure Supply where
  ranges : Option ConfigText
  disk : Disk

def readFileData (disk : Disk) (path : String) (offset size : Int) : List Byte :=
  if size ≤ 0 then []
  else
    match disk path with
    | none => []
    | some bytes => if offset < 0 then [] else (bytes.drop offset.toNat).take size.toNat

inductive Output where
  | error (refusal : Refusal)
  | rangeError (total : Option Int)
  | header (start stop : Int) (total : Option Int) (length : Int)
  | body (data : List Byte)
  | shutdown
  deriving DecidableEq

/-- The operation under way. -/
inductive Phase where
  | writingHeader (nextPos : Int) (data : List Byte)
  | writingBody (nextPos : Int) (data : List Byte)
  | waiting (pos : Int)
  | closed
  deriving DecidableEq

/-- The session, and what was sent, in order. No step reads the last two fields: all the segments that
were reported, and whether a read returned fewer bytes than it was asked for. -/
structure Session where
  filePath : String := ""
  rangeStart : Int := 0
  rangeEnd : Int := 0
  totalSize : Int := -1
  headerSent : Bool := false
  phase : Phase := .closed
  output : List Output := []
  reported : List (Int × Int) := []
  short : Bool := false
  deriving DecidableEq

def findSegment (pos : Int) (segments : List (Int × Int)) : Option (Int × Int) :=
  segments.find? fun segment => segment.1 ≤ pos && pos ≤ segment.2

/-- `send_end`: where a chunk ends. -/
def sendEnd (pos segEnd rangeEnd : Int) : Int :=
  let stop := min segEnd rangeEnd
  if chunkSize < stop - pos + 1 then pos + chunkSize - 1 else stop

def totalOf (totalSize : Int) : Option Int := if 0 < totalSize then some totalSize else none

namespace Session

def doStream (pos : Int) (supply : Supply) (s : Session) : Session :=
  let segments := segmentsOf supply.ranges
  let s := { s with reported := s.reported ++ segments }
  match findSegment pos segments with
  | none => { s with phase := .waiting pos }
  | some segment =>
      let last := sendEnd pos segment.2 s.rangeEnd
      let data := readFileData supply.disk s.filePath pos (last - pos + 1)
      if data = [] then
        if ¬ s.headerSent then
          { s with phase := .closed, output := s.output ++ [.error (500, "File read failed")] }
        else { s with phase := .closed }
      else
        let s := { s with short := s.short || data.length < last - pos + 1 }
        if ¬ s.headerSent then { s with headerSent := true, phase := .writingHeader (last + 1) data }
        else { s with phase := .writingBody (last + 1) data }

/-- The header of `do_write_header`. -/
def header (s : Session) : Output :=
  .header s.rangeStart s.rangeEnd (totalOf s.totalSize) (s.rangeEnd - s.rangeStart + 1)

end Session

/-- Where the range ends: an end below zero stands for one that is not given. -/
def resolveEnd (disk : Disk) (filePath : String) (totalSize rangeEnd : Int) : Option Int :=
  if 0 ≤ rangeEnd then some rangeEnd
  else if 0 < totalSize then some (totalSize - 1)
  else
    match disk filePath with
    | some bytes => if 0 < bytes.length then some (bytes.length - 1) else none
    | none => none

/-- `handle_request`: the session as it is once the request was read. -/
def handleRequest (request : Request) (info : FileKey → Option ConfigText) (disk : Disk) (supply : Supply) :
    Session :=
  match parseRequest request with
  | .error refusal => { output := [.error refusal] }
  | .ok (key, rangeStart, stop) =>
      match readFileInfo (info key) with
      | .error refusal => { output := [.error refusal] }
      | .ok (filePath, totalSize) =>
          match resolveEnd disk filePath totalSize (stop.getD (-1)) with
          | none => { output := [.error (500, "Cannot determine file size for open-ended range")] }
          | some rangeEnd =>
              let s : Session :=
                { filePath := filePath, rangeStart := rangeStart, rangeEnd := rangeEnd, totalSize := totalSize }
              if rangeEnd < rangeStart then { s with output := [.rangeError (totalOf totalSize)] }
              else s.doStream rangeStart supply

/-- How the operation under way ends: it fails, a write after so many bytes, or it is through and the
session goes on with what it then finds. -/
inductive Completion where
  | failed (transferred : Nat)
  | succeeded (supply : Supply)

namespace Session

/-- The handlers of the operations. -/
def complete (s : Session) : Completion → Session
  | .failed transferred =>
      match s.phase with
      | .writingBody _ data => { s with phase := .closed, output := s.output ++ [.body (data.take transferred)] }
      | _ => { s with phase := .closed }
  | .succeeded supply =>
      match s.phase with
      | .writingHeader nextPos data =>
          { s with phase := .writingBody nextPos data, output := s.output ++ [s.header] }
      | .writingBody nextPos data =>
          let s : Session := { s with output := s.output ++ [.body data] }
          if s.rangeEnd < nextPos then { s with phase := .closed, output := s.output ++ [.shutdown] }
          else s.doStream nextPos supply
      | .waiting pos => s.doStream pos supply
      | .closed => s

def step (s : Session) (e : Completion) : Option Session := some (s.complete e)

theorem complete_writingHeader {s : Session} {nextPos : Int} {data : List Byte}
    (hphase : s.phase = .writingHeader nextPos data) (supply : Supply) :
    s.complete (.succeeded supply) =
      { s with phase := .writingBody nextPos data, output := s.output ++ [s.header] } := by
  rw [complete, hphase]

theorem complete_writingBody {s : Session} {nextPos : Int} {data : List Byte}
    (hphase : s.phase = .writingBody nextPos data) (supply : Supply) :
    s.complete (.succeeded supply) =
      if s.rangeEnd < nextPos then
        { s with phase := .closed, output := s.output ++ [.body data] ++ [.shutdown] }
      else doStream nextPos supply { s with output := s.output ++ [.body data] } := by
  cases s
  cases hphase
  rfl

def readAt (pos : Int) (supply : Supply) (s : Session) : List Byte :=
  match findSegment pos (segmentsOf supply.ranges) with
  | none => []
  | some segment =>
      readFileData supply.disk s.filePath pos (sendEnd pos segment.2 s.rangeEnd - pos + 1)

theorem doStream_phase (pos : Int) (supply : Supply) (s : Session) (phase : Phase) :
    { s with phase := phase }.doStream pos supply = s.doStream pos supply := rfl

/-- **Where nothing is read**, the session waits or is over, and no body is sent. -/
theorem doStream_of_nil {pos : Int} {supply : Supply} {s : Session} (h : s.readAt pos supply = []) :
    ∃ refusals : List Refusal, ∃ phase, (phase = .waiting pos ∨ phase = .closed) ∧
      s.doStream pos supply = { s with
        phase := phase, reported := s.reported ++ segmentsOf supply.ranges
        output := s.output ++ refusals.map .error } := by
  rw [readAt] at h
  rw [doStream]
  cases hfind : findSegment pos (segmentsOf supply.ranges) with
  | none => exact ⟨[], _, Or.inl rfl, by simp⟩
  | some segment =>
      simp only [hfind] at h
      by_cases hsent : s.headerSent = true
      · exact ⟨[], _, Or.inr rfl, by simp [h, hsent]⟩
      · exact ⟨[(500, "File read failed")], _, Or.inr rfl, by simp [h, hsent]⟩

/-- **Where something is read**, it waits to be written, and the position moves on by as much as was
asked for. -/
theorem doStream_of_ne_nil {pos : Int} {supply : Supply} {s : Session} (h : s.readAt pos supply ≠ []) :
    ∃ segment ∈ segmentsOf supply.ranges, segment.1 ≤ pos ∧ pos ≤ segment.2 ∧
      s.readAt pos supply =
        readFileData supply.disk s.filePath pos (sendEnd pos segment.2 s.rangeEnd - pos + 1) ∧
      s.doStream pos supply = { s with
        headerSent := true, reported := s.reported ++ segmentsOf supply.ranges
        short := s.short ||
          (s.readAt pos supply).length < sendEnd pos segment.2 s.rangeEnd - pos + 1
        phase :=
          if s.headerSent then .writingBody (sendEnd pos segment.2 s.rangeEnd + 1) (s.readAt pos supply)
          else .writingHeader (sendEnd pos segment.2 s.rangeEnd + 1) (s.readAt pos supply) } := by
  cases hfind : findSegment pos (segmentsOf supply.ranges) with
  | none => simp [readAt, hfind] at h
  | some segment =>
      have hread : s.readAt pos supply =
          readFileData supply.disk s.filePath pos (sendEnd pos segment.2 s.rangeEnd - pos + 1) := by
        rw [readAt, hfind]
      have hheld := List.find?_some hfind
      simp only [Bool.and_eq_true, decide_eq_true_eq] at hheld
      refine ⟨segment, List.mem_of_find?_eq_some hfind, hheld.1, hheld.2, hread, ?_⟩
      rw [hread] at h
      rw [hread, doStream]
      by_cases hsent : s.headerSent = true
      · simp [hfind, h, hsent]
      · simp [hfind, h, hsent]

theorem doStream_range (pos : Int) (supply : Supply) (s : Session) :
    (s.doStream pos supply).filePath = s.filePath ∧ (s.doStream pos supply).rangeStart = s.rangeStart ∧
      (s.doStream pos supply).rangeEnd = s.rangeEnd ∧ (s.doStream pos supply).totalSize = s.totalSize := by
  by_cases hread : s.readAt pos supply = []
  · obtain ⟨_, _, -, heq⟩ := doStream_of_nil hread
    rw [heq]
    exact ⟨rfl, rfl, rfl, rfl⟩
  · obtain ⟨_, -, -, -, -, heq⟩ := doStream_of_ne_nil hread
    rw [heq]
    exact ⟨rfl, rfl, rfl, rfl⟩

end Session

theorem getElem?_readFileData {disk : Disk} {path : String} {offset size : Int} {i : Nat} {b : Byte}
    (h : (readFileData disk path offset size)[i]? = some b) :
    i < size ∧ ∃ bytes, disk path = some bytes ∧ ∃ pos : Nat, (pos : Int) = offset + i ∧ bytes[pos]? = some b := by
  rw [readFileData] at h
  split at h
  · simp at h
  next hsize =>
    split at h
    · simp at h
    next bytes hbytes =>
      split at h
      · simp at h
      next hoffset =>
        obtain ⟨hlength, -⟩ := List.getElem?_eq_some_iff.mp h
        rw [List.length_take] at hlength
        rw [List.getElem?_take_of_lt (by omega), List.getElem?_drop] at h
        exact ⟨by omega, bytes, hbytes, offset.toNat + i, by omega, h⟩

theorem length_readFileData_le {disk : Disk} {path : String} {offset size : Int}
    (h : readFileData disk path offset size ≠ []) :
    ((readFileData disk path offset size).length : Int) ≤ size := by
  obtain ⟨hi, -⟩ := getElem?_readFileData (List.getElem?_eq_getElem
    (Nat.sub_lt (List.length_pos_iff.mpr h) Nat.one_pos))
  have hpos := List.length_pos_iff.mpr h
  omega

theorem sendEnd_bounds {pos segEnd rangeEnd : Int} (hseg : pos ≤ segEnd) (hrange : pos ≤ rangeEnd) :
    pos ≤ sendEnd pos segEnd rangeEnd ∧ sendEnd pos segEnd rangeEnd ≤ segEnd ∧
      sendEnd pos segEnd rangeEnd ≤ rangeEnd := by
  simp only [sendEnd, chunkSize]
  split_ifs <;> omega

end DownloadWrapper.Playback
