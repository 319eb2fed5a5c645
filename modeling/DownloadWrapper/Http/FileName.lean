import DownloadWrapper.Utils.Text

/-!
# The name a URL suggests

Boost.URL does the parsing; which of the parsed pieces names the file is decided here.
-/

namespace DownloadWrapper

structure ParsedUrl where
  params : List (String × String)
  encodedSegments : List String

/-- The Boost.URL calls the engine makes: `parse_uri` and `pct_string_view::decode`. -/
structure UrlLib where
  parseUri : String → Option ParsedUrl
  decode : String → String

/-- `sanitize_basename`: what follows the last slash or backslash. -/
def sanitizeBasename (s : String) : String :=
  String.ofList (s.toList.reverse.takeWhile fun c => c ≠ '/' && c ≠ '\\').reverse

/-- The first non-empty value under `key`, as a base name; an empty base name lets a later
parameter stand. -/
def paramBasename (key : String) : List (String × String) → String
  | [] => ""
  | (k, val) :: rest =>
      if val ≠ "" ∧ iequals k.toList key.toList ∧ sanitizeBasename val ≠ "" then sanitizeBasename val
      else paramBasename key rest

/-- `extract_filename_from_url`: the query parameter `filename`, then `name`, then the last path
segment. -/
def extractFilenameFromUrl (lib : UrlLib) (url : String) : String :=
  match lib.parseUri url with
  | none =>
      let last := String.ofList (url.toList.reverse.takeWhile (· ≠ '/')).reverse
      if '/' ∈ url.toList ∧ last ≠ "" then sanitizeBasename (lib.decode last) else ""
  | some parsed =>
      let byFilename := paramBasename "filename" parsed.params
      let byName := paramBasename "name" parsed.params
      if byFilename ≠ "" then byFilename
      else if byName ≠ "" then byName
      else
        match parsed.encodedSegments.getLast? with
        | some last => if last ≠ "" then sanitizeBasename last else ""
        | none => ""

end DownloadWrapper
