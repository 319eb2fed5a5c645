import DownloadWrapper.Http.Types
import DownloadWrapper.Utils.Text

/-!
# Response headers

libcurl hands the response headers over one line at a time. A line is first read into what it says,
then applied to the two contexts it is collected in: the connection's own `seen` fields, and the
task's fields, where the first value stays and a different later one is content drift.
-/

namespace DownloadWrapper

/-- What one header line says. A number is present only when it parsed to a usable value: a status
code, a positive total, a positive length. -/
inductive HeaderLine where
  | blank
  | status (code : Option Int)
  | contentRange (total : Option Int)
  | contentLength (length : Option Int)
  | contentDisposition (name : String)
  | etag (value : String)
  | lastModified (value : String)
  | other
  deriving DecidableEq, Repr

def positive? (n : Option Int) : Option Int := n.filter (0 < ·)

/-- The total behind the slash of `bytes 0-1/239784356`, unless it is unknown (`*`). -/
def contentRangeTotal (val : List Char) : Option Int :=
  match afterFirst '/' val with
  | none => none
  | some total => if total.head? = some '*' then none else positive? (svToInt total)

/-- `parse_content_disposition_filename`: a `filename*=` value, without its charset and language,
before a `filename=` one. -/
def parseContentDispositionFilename (value : List Char) : String :=
  match afterPattern "filename*=".toList value with
  | some encoded =>
      let encoded := trimView encoded
      let encoded := match afterFirst '\'' encoded with
        | none => encoded
        | some rest => (afterFirst '\'' rest).getD encoded
      String.ofList (unquote encoded)
  | none =>
      match afterPattern "filename=".toList value with
      | some name => String.ofList (unquote (trimView name))
      | none => ""

/-- Drop the line end, then split at the first space (a status line) or colon (a field). -/
def parseHeaderLine (line : String) : HeaderLine :=
  let raw := line.toList.rdropWhile fun c => c = '\r' || c = '\n'
  if raw = [] then .blank
  else if "HTTP/".toList.isPrefixOf raw then .status ((afterFirst ' ' raw).bind svToInt)
  else
    match afterFirst ':' raw with
    | none => .other
    | some rest =>
        let name := trimView (raw.takeWhile (· ≠ ':'))
        let val := trimView rest
        if iequals name "Content-Range".toList then .contentRange (contentRangeTotal val)
        else if iequals name "Content-Length".toList then .contentLength (positive? (svToInt val))
        else if iequals name "Content-Disposition".toList then
          .contentDisposition (parseContentDispositionFilename val)
        else if iequals name "ETag".toList then .etag (String.ofList val)
        else if iequals name "Last-Modified".toList then .lastModified (String.ofList val)
        else .other

namespace TaskCtx

/-- `mark_drift_error`: the content changed under the download. -/
def markDriftError (t : TaskCtx) (i : Nat) : TaskCtx :=
  { t.modifyPart i fun p => { p with status := .error, reason := .error } with
    status := .error
    reason := .error
    message := "文件已变更，需重新下载" }

def seeTotal (t : TaskCtx) (i : Nat) (total : Int) : TaskCtx :=
  { t.modifyCtx i fun c => { c with seenTotalSize := total } with
    totalSize := if t.totalSize ≤ 0 then total else t.totalSize }

def seeEtag (t : TaskCtx) (i : Nat) (value : String) : TaskCtx :=
  { t.modifyCtx i fun c => { c with seenEtag := value } with
    etag := if t.etag = "" then value else t.etag }

def seeLastModified (t : TaskCtx) (i : Nat) (value : String) : TaskCtx :=
  { t.modifyCtx i fun c => { c with seenLastModified := value } with
    lastModified := if t.lastModified = "" then value else t.lastModified }

/-- A full stream can be written as it comes only into a single part, from offset 0. -/
def fullStreamOk (t : TaskCtx) (i : Nat) : Bool :=
  t.parts.length ≤ 1 && (t.part i).done = 0

end TaskCtx

/-- The body of `header_cb` for one line; the result is whether the line was consumed. -/
def applyHeaderLine (t : TaskCtx) (i : Nat) : HeaderLine → TaskCtx × Bool
  | .blank => (t, true)
  | .status none => (t, true)
  | .status (some code) =>
      let t := t.modifyCtx i fun c => { c with seenHttpCode := code }
      if code = 200 ∧ ¬ t.fullStreamOk i then (t.markDriftError i, false) else (t, true)
  | .contentRange none => (t, true)
  | .contentRange (some total) =>
      let t := t.seeTotal i total
      if 0 < t.totalSize ∧ total ≠ t.totalSize then (t.markDriftError i, false) else (t, true)
  | .contentLength none => (t, true)
  | .contentLength (some length) =>
      -- a 206 announces the length of the window, every other code is taken as the full length
      if (t.ctx i).seenTotalSize ≤ 0 ∧ t.probing ∧ (t.ctx i).seenHttpCode ≠ 206 then
        (t.modifyCtx i fun c => { c with seenTotalSize := length }, true)
      else (t, true)
  | .contentDisposition name =>
      if t.filename = "" ∧ name ≠ "" then ({ t with filename := name }, true) else (t, true)
  | .etag value =>
      let t := t.seeEtag i value
      if t.etag ≠ "" ∧ value ≠ t.etag then (t.markDriftError i, false) else (t, true)
  | .lastModified value =>
      let t := t.seeLastModified i value
      if t.lastModified ≠ "" ∧ value ≠ t.lastModified then (t.markDriftError i, false)
      else (t, true)
  | .other => (t, true)

/-- `header_cb`. Not consuming a line ends the connection. -/
def headerCb (t : TaskCtx) (i : Nat) (line : String) : TaskCtx × Bool :=
  if t.status = .error ∨ t.cancelReq ∨ line = "" then (t, false)
  else applyHeaderLine t i (parseHeaderLine line)

example : parseHeaderLine "content-range: bytes 0-1/239784356\r\n" =
    .contentRange (some 239784356) := by decide

example : parseHeaderLine "Content-Disposition: attachment; filename=\"a b.bin\"\r\n" =
    .contentDisposition "a b.bin" := by decide

end DownloadWrapper
