import DownloadWrapper.Core.Config
import DownloadWrapper.Utils.Text

/-!
# Playback requests

What the playback proxy makes of a request: the file its target names, the range its header asks for,
and the answer it gets about that file.
-/

namespace DownloadWrapper.Playback

/-- `parse_range_header`: where the range starts, and where it ends if the header says so. What follows
a number is ignored. -/
def parseRangeHeader (value : String) : Option (Int × Option Int) :=
  if ¬ "bytes=".toList.isPrefixOf value.toList then none
  else
    let rangeSpec := value.toList.drop "bytes=".toList.length
    match afterFirst '-' rangeSpec with
    | none => none
    | some endText =>
        let startText := rangeSpec.takeWhile (· ≠ '-')
        if startText = [] then none
        else
          match fromChars startText with
          | none => none
          | some start =>
              if endText = [] then some (start, none)
              else (fromChars endText).map fun stop => (start, some stop)

theorem start_nonneg {value : String} {start : Int} {stop : Option Int}
    (h : parseRangeHeader value = some (start, stop)) : 0 ≤ start := by
  rw [parseRangeHeader] at h
  split at h
  · simp at h
  simp only at h
  split at h
  · simp at h
  split at h
  · simp at h
  split at h
  · simp at h
  next start' hstart =>
    have hsign : ((value.toList.drop "bytes=".toList.length).takeWhile (· ≠ '-')).head? ≠ some '-' := by
      intro hhead
      simpa using List.mem_takeWhile_imp (List.mem_of_mem_head? hhead)
    have heq : start = start' := by
      split at h
      · exact (Prod.mk.inj (Option.some.inj h)).1.symm
      · obtain ⟨last, -, hpair⟩ := Option.map_eq_some_iff.mp h
        exact (Prod.mk.inj hpair).1.symm
    rw [heq]
    exact fromChars_nonneg hsign hstart

structure FileKey where
  clientId : String
  protocol : Protocol
  naturalKey : String
  fileIndex : Int
  deriving DecidableEq

/-- A request: the path and the parameters of its target, if that is one, and its `Range` header, empty
if there is none. -/
structure Request where
  target : Option (String × List (String × String))
  range : String

abbrev Refusal := Nat × String

/-- `handle_request`, up to the file that the target names. -/
def parseTarget (request : Request) : Except Refusal FileKey :=
  match request.target with
  | none => .error (404, "Not Found")
  | some (path, params) =>
      if path ≠ "/file" then .error (404, "Not Found")
      else
        match params.lookup "client_id", params.lookup "type", params.lookup "key", params.lookup "file" with
        | some clientId, some type, some key, some file =>
            if type ≠ "http" ∧ type ≠ "bt" then .error (400, "Invalid type parameter")
            else
              match wholeInt32 file.toList with
              | none => .error (400, "Invalid type/key/file parameter")
              | some fileIndex =>
                  .ok ⟨clientId, if type = "http" then .http else .torrent, key, fileIndex⟩
        | _, _, _, _ => .error (400, "Missing client_id/type/key/file parameter")

/-- `handle_request`, up to the range. -/
def parseRequest (request : Request) : Except Refusal (FileKey × Int × Option Int) :=
  match parseTarget request with
  | .error refusal => .error refusal
  | .ok key =>
      if request.range = "" then .error (400, "Missing Range header")
      else
        match parseRangeHeader request.range with
        | none => .error (400, "Invalid Range header")
        | some range => .ok (key, range)

/-- `at` and `as_int64`. -/
def atInt64 (obj : List (String × Json)) (key : String) : Option Int :=
  match ifContains obj key with
  | some (.number (some n) _) => some n
  | _ => none

/-- The answer of `dw_get_task_file_info`: the path of the file, and its size. -/
def readFileInfo : Option ConfigText → Except Refusal (String × Int)
  | none => .error (404, "Task or file not found")
  | some (.value (.object obj)) =>
      match atInt64 obj "code" with
      | none => .error (500, "Parse response failed")
      | some code =>
          if code ≠ 0 then .error (404, "Task or file not found")
          else
            match ifContains obj "data" with
            | some (.object data) =>
                match ifContains data "path", atInt64 data "size" with
                | some (.string path), some size => .ok (cStr path, size)
                | _, _ => .error (500, "Parse response failed")
            | _ => .error (500, "Parse response failed")
  | some _ => .error (500, "Parse response failed")

/-- One element of `ranges`. -/
def readRange : Json → Option (Int × Int)
  | .array (.number (some start) _ :: .number (some stop) _ :: _) => some (start, stop)
  | _ => none

/-- The loop over `ranges`: the first element that is no range ends it. -/
def readRanges : List Json → List (Int × Int)
  | [] => []
  | elem :: elems =>
      match readRange elem with
      | none => []
      | some segment => segment :: readRanges elems

/-- The answer of `dw_get_file_ranges`; what cannot be read is no segment. -/
def segmentsOf : Option ConfigText → List (Int × Int)
  | some (.value (.object obj)) =>
      if atInt64 obj "code" ≠ some 0 then []
      else
        match ifContains obj "data" with
        | some (.object data) =>
            match ifContains data "ranges" with
            | some (.array elems) => readRanges elems
            | _ => []
        | _ => []
  | _ => []

def infoAnswer (path : String) (size : Int) : ConfigText :=
  .value (.object [("code", .ofInt 0), ("data", .object [("path", .string path), ("size", .ofInt size)])])

theorem readFileInfo_infoAnswer (path : String) (size : Int) :
    readFileInfo (some (infoAnswer path size)) = .ok (cStr path, size) := by
  simp [readFileInfo, infoAnswer, atInt64, ifContains, Json.ofInt]

def rangesAnswer (segments : List (Int × Int)) : ConfigText :=
  .value (.object [("code", .ofInt 0), ("data", .object [("ranges", .array (segments.map fun segment =>
    .array [.ofInt segment.1, .ofInt segment.2]))])])

/-- **Any segments can be reported**, and are read as they are. -/
theorem segmentsOf_rangesAnswer (segments : List (Int × Int)) :
    segmentsOf (some (rangesAnswer segments)) = segments := by
  have hread : readRanges (segments.map fun segment => .array [.ofInt segment.1, .ofInt segment.2]) =
      segments := by
    induction segments with
    | nil => rfl
    | cons segment segments ih =>
        rw [List.map_cons, readRanges]
        exact congrArg (segment :: ·) ih
  simp only [segmentsOf, rangesAnswer]
  simp [atInt64, ifContains, Json.ofInt] at hread ⊢
  exact hread

def fileRequest (range : String) : Request where
  target := some ("/file", [("client_id", "c"), ("type", "http"), ("key", "k"), ("file", "0")])
  range := range

end DownloadWrapper.Playback
