import DownloadWrapper.Lib.UrlQuery
import DownloadWrapper.Playback.Request
import DownloadWrapper.Utils.IntList
import DownloadWrapper.Utils.Scanning
import Mathlib.Data.Bool.AllAny

/-!
# Playback URLs

The URL under which a player finds a file, as the proxy makes it up, and the file it is taken for when
the player asks for it.
-/

namespace DownloadWrapper.Playback

open UrlQuery

/-- `type_str`. -/
def typeText (protocol : Protocol) : String := if protocol = .torrent then "bt" else "http"

/-- `dw_proxy_get_url`, at the port on which the proxy listens. -/
def dwProxyGetUrl (port : Int) (clientId : String) (protocol : Protocol) (naturalKey : String)
    (fileIndex : Int) : String :=
  "http://127.0.0.1:" ++ toString port ++ "/file?client_id=" ++ clientId ++ "&type=" ++ typeText protocol ++
    "&key=" ++ naturalKey ++ "&file=" ++ toString fileIndex

def requestTarget (url : String) : String :=
  String.ofList (beforeFragment ((url.toList.drop "http://".toList.length).dropWhile (· ≠ '/')))

/-- What `parse_relative_ref` and `params` are relied on for: a path and a query are told apart at the `?`,
and the query is read as URL queries are. -/
def ReadsQueries (plus : Bool) (parseRelativeRef : String → Option (String × List (String × String))) :
    Prop :=
  ∀ query : List Char, '#' ∉ query →
    parseRelativeRef (String.ofList ("/file?".toList ++ query)) =
      (params plus query).map fun ps => ("/file", ps)

def requestOf (parseRelativeRef : String → Option (String × List (String × String))) (url range : String) :
    Request where
  target := parseRelativeRef (requestTarget url)
  range := range

def queryText (clientId : String) (type : String) (naturalKey : String) (fileIndex : Int) : List Char :=
  "client_id".toList ++ '=' :: (clientId.toList ++ '&' ::
    ("type".toList ++ '=' :: (type.toList ++ '&' ::
      ("key".toList ++ '=' :: (naturalKey.toList ++ '&' ::
        ("file".toList ++ '=' :: (toString fileIndex).toList))))))

theorem requestTarget_dwProxyGetUrl (port : Int) (clientId : String) (protocol : Protocol)
    (naturalKey : String) (fileIndex : Int) :
    requestTarget (dwProxyGetUrl port clientId protocol naturalKey fileIndex) =
      String.ofList ("/file?".toList ++
        beforeFragment (queryText clientId (typeText protocol) naturalKey fileIndex)) := by
  have hurl : (dwProxyGetUrl port clientId protocol naturalKey fileIndex).toList =
      "http://".toList ++ (("127.0.0.1:".toList ++ (toString port).toList) ++ ("/file?".toList ++
        queryText clientId (typeText protocol) naturalKey fileIndex)) := by
    have hclient : "/file?client_id=".toList = "/file?".toList ++ ("client_id".toList ++ ['=']) := by decide
    have htype : "&type=".toList = '&' :: ("type".toList ++ ['=']) := by decide
    have hkey : "&key=".toList = '&' :: ("key".toList ++ ['=']) := by decide
    have hfile : "&file=".toList = '&' :: ("file".toList ++ ['=']) := by decide
    have hhost : "http://127.0.0.1:".toList = "http://".toList ++ "127.0.0.1:".toList := by decide
    unfold dwProxyGetUrl queryText
    simp only [String.toList_append, hclient, htype, hkey, hfile, hhost,
      List.append_assoc, List.cons_append, List.nil_append]
  have hauthority : ∀ c ∈ "127.0.0.1:".toList ++ (toString port).toList, decide (c ≠ '/') = true := by
    intro c hc
    rw [decide_eq_true_eq]
    rintro rfl
    rcases List.mem_append.mp hc with hc | hc
    · exact absurd hc (by decide)
    · exact not_mem_toString_int port (by decide) (by decide) hc
  rw [requestTarget, hurl, List.drop_left, List.dropWhile_append_of_pos hauthority]
  rfl

theorem nameText_clientId (plus : Bool) : NameText plus "client_id".toList := by
  cases plus <;> exact ⟨List.all_iff_forall_prop.mp (by decide), by decide⟩

theorem nameText_type (plus : Bool) : NameText plus "type".toList := by
  cases plus <;> exact ⟨List.all_iff_forall_prop.mp (by decide), by decide⟩

theorem nameText_key (plus : Bool) : NameText plus "key".toList := by
  cases plus <;> exact ⟨List.all_iff_forall_prop.mp (by decide), by decide⟩

theorem nameText_file (plus : Bool) : NameText plus "file".toList := by
  cases plus <;> exact ⟨List.all_iff_forall_prop.mp (by decide), by decide⟩

theorem verbatim_typeText (plus : Bool) (protocol : Protocol) :
    ∀ c ∈ (typeText protocol).toList, Verbatim plus c := by
  cases plus <;> cases protocol <;> exact List.all_iff_forall_prop.mp (by decide)

theorem verbatim_toString (plus : Bool) (n : Int) : ∀ c ∈ (toString n).toList, Verbatim plus c := by
  intro c hc
  rcases isDigit_or_sign_of_mem_toString hc with hdigit | rfl
  · have hother : ∀ d : Char, d.isDigit = false → c ≠ d := by
      rintro d hd rfl
      simp [hdigit] at hd
    have hquery : isQueryChar c = true := by
      simp only [isQueryChar, Char.isAlphanum, hdigit, Bool.or_true, Bool.true_or]
    have hread : readChar plus c = c := if_neg fun h => hother '+' (by decide) h.2
    exact ⟨⟨hquery, hread⟩, hother '&' (by decide)⟩
  · cases plus <;> decide

theorem parseTarget_eq_ok {request : Request} {key : FileKey} (h : parseTarget request = .ok key) :
    ∃ ps, request.target = some ("/file", ps) ∧ ps.lookup "client_id" = some key.clientId ∧
      ps.lookup "key" = some key.naturalKey := by
  rw [parseTarget] at h
  split at h
  · cases h
  next path ps htarget =>
    split_ifs at h with hpath
    split at h
    next clientId type naturalKey file hclient _ hkey _ =>
      split at h
      · cases h
      split at h
      · cases h
      next fileIndex _ =>
        obtain rfl := Except.ok.inj h
        exact ⟨ps, by rw [htarget, not_not.mp hpath], hclient, hkey⟩
    · cases h

section Reading

variable {plus : Bool} {parseRelativeRef : String → Option (String × List (String × String))}
  {clientId naturalKey : String} {protocol : Protocol} {fileIndex : Int}

theorem target_requestOf (hreads : ReadsQueries plus parseRelativeRef) (port : Int) (range : String) :
    (requestOf parseRelativeRef (dwProxyGetUrl port clientId protocol naturalKey fileIndex) range).target =
      (params plus (beforeFragment (queryText clientId (typeText protocol) naturalKey fileIndex))).map
        fun ps => ("/file", ps) := by
  have hhash : '#' ∉ beforeFragment (queryText clientId (typeText protocol) naturalKey fileIndex) := by
    intro hmem
    simpa using List.mem_takeWhile_imp hmem
  rw [requestOf, requestTarget_dwProxyGetUrl]
  exact hreads _ hhash

theorem params_queryText (hclient : ∀ c ∈ clientId.toList, Verbatim plus c)
    (hkey : ∀ c ∈ naturalKey.toList, Verbatim plus c) :
    params plus (beforeFragment (queryText clientId (typeText protocol) naturalKey fileIndex)) =
      some [("client_id", clientId), ("type", typeText protocol), ("key", naturalKey),
        ("file", toString fileIndex)] := by
  unfold queryText
  rw [params_verbatim (nameText_clientId plus) hclient,
    params_verbatim (nameText_type plus) (verbatim_typeText plus protocol),
    params_verbatim (nameText_key plus) hkey, params_verbatim_last (nameText_file plus) (verbatim_toString plus fileIndex)]
  simp only [Option.map_some, String.ofList_toList]

theorem verbatim_of_params {ps : List (String × String)}
    (h : params plus (beforeFragment (queryText clientId (typeText protocol) naturalKey fileIndex)) = some ps)
    (hclient : ps.lookup "client_id" = some clientId) (hkey : ps.lookup "key" = some naturalKey) :
    (∀ c ∈ clientId.toList, Verbatim plus c) ∧ ∀ c ∈ naturalKey.toList, Verbatim plus c := by
  unfold queryText at h
  obtain ⟨text, tail, -, rfl⟩ := params_first (nameText_clientId plus) h
  have hsame : String.ofList text = clientId := by simpa using hclient
  have hclientText : ∀ c ∈ clientId.toList, Verbatim plus c :=
    verbatim_of_params_first (nameText_clientId plus)
      (by rw [h, hsame, String.ofList_toList, String.ofList_toList])
  refine ⟨hclientText, ?_⟩
  rw [params_verbatim (nameText_clientId plus) hclientText,
    params_verbatim (nameText_type plus) (verbatim_typeText plus protocol)] at h
  obtain ⟨tail', htail', heq⟩ := Option.map_eq_some_iff.mp h
  obtain ⟨rest, hrest, rfl⟩ := Option.map_eq_some_iff.mp htail'
  obtain ⟨keyText, tail'', -, rfl⟩ := params_first (nameText_key plus) hrest
  rw [← heq] at hkey
  have hsameKey : String.ofList keyText = naturalKey := by simpa [List.lookup_cons] using hkey
  exact verbatim_of_params_first (nameText_key plus)
    (by rw [hrest, hsameKey, String.ofList_toList, String.ofList_toList])

theorem verbatim_of_ok (hreads : ReadsQueries plus parseRelativeRef) {port : Int} {range : String}
    (h : parseTarget (requestOf parseRelativeRef
        (dwProxyGetUrl port clientId protocol naturalKey fileIndex) range) =
      .ok ⟨clientId, protocol, naturalKey, fileIndex⟩) :
    (∀ c ∈ clientId.toList, Verbatim plus c) ∧ ∀ c ∈ naturalKey.toList, Verbatim plus c := by
  obtain ⟨ps, hps, hclient, hkey⟩ := parseTarget_eq_ok h
  rw [target_requestOf hreads] at hps
  obtain ⟨ps', hparams, hpair⟩ := Option.map_eq_some_iff.mp hps
  obtain rfl : ps' = ps := (Prod.mk.inj hpair).2
  exact verbatim_of_params hparams hclient hkey

end Reading

/-- The file that is asked for under the URL of a file is that file just if its identity and its key are
made of characters that stand for themselves in a query: neither is escaped in the URL. -/
theorem parseTarget_dwProxyGetUrl {plus : Bool}
    {parseRelativeRef : String → Option (String × List (String × String))}
    (hreads : ReadsQueries plus parseRelativeRef) (port : Int) (clientId naturalKey range : String)
    {protocol : Protocol} (hprotocol : protocol = .http ∨ protocol = .torrent) {fileIndex : Int}
    (hindex : -2 ^ 31 ≤ fileIndex ∧ fileIndex < 2 ^ 31) :
    parseTarget (requestOf parseRelativeRef
        (dwProxyGetUrl port clientId protocol naturalKey fileIndex) range) =
        .ok ⟨clientId, protocol, naturalKey, fileIndex⟩ ↔
      (∀ c ∈ clientId.toList, Verbatim plus c) ∧ ∀ c ∈ naturalKey.toList, Verbatim plus c := by
  refine ⟨verbatim_of_ok hreads, ?_⟩
  rintro ⟨hclient, hkey⟩
  have htarget : (requestOf parseRelativeRef
      (dwProxyGetUrl port clientId protocol naturalKey fileIndex) range).target = _ :=
    target_requestOf hreads port range
  rw [params_queryText hclient hkey] at htarget
  have hfile : wholeInt32 (toString fileIndex).toList = some fileIndex :=
    wholeInt32_toString (by simpa [inRangeInt32] using hindex)
  generalize toString fileIndex = file at htarget hfile
  rw [parseTarget, htarget]
  rcases hprotocol with rfl | rfl <;> simp [List.lookup_cons, typeText, hfile]

def readTarget (plus : Bool) (target : String) : Option (String × List (String × String)) :=
  if "/file?".toList.isPrefixOf target.toList then
    (params plus (target.toList.drop "/file?".toList.length)).map fun ps => ("/file", ps)
  else none

theorem readsQueries_readTarget (plus : Bool) : ReadsQueries plus (readTarget plus) := by
  intro query _
  have htext : (String.ofList ("/file?".toList ++ query)).toList = "/file?".toList ++ query :=
    String.toList_ofList
  rw [readTarget, htext, if_pos (by simp), List.drop_left]

/-- A source with a query of one parameter is told apart from the URL's own. -/
theorem parseTarget_readTarget_source :
    parseTarget (requestOf (readTarget true)
        (dwProxyGetUrl 8080 "tv" .http "https://h/v.mp4?t=1" 0) "") =
      .ok ⟨"tv", .http, "https://h/v.mp4?t=1", 0⟩ :=
  (parseTarget_dwProxyGetUrl (readsQueries_readTarget true) 8080 _ _ _ (Or.inl rfl)
    (by decide)).mpr ⟨List.all_iff_forall_prop.mp (by decide), List.all_iff_forall_prop.mp (by decide)⟩

/-- A source with two parameters is cut off behind the first one. -/
theorem not_forall_parseTarget_dwProxyGetUrl :
    ¬ ∀ (plus : Bool) (parseRelativeRef : String → Option (String × List (String × String))),
      ReadsQueries plus parseRelativeRef →
        ∀ (port : Int) (clientId naturalKey range : String) (protocol : Protocol),
          protocol = .http ∨ protocol = .torrent →
            ∀ fileIndex : Int, -2 ^ 31 ≤ fileIndex ∧ fileIndex < 2 ^ 31 →
              parseTarget (requestOf parseRelativeRef
                  (dwProxyGetUrl port clientId protocol naturalKey fileIndex) range) =
                .ok ⟨clientId, protocol, naturalKey, fileIndex⟩ := by
  intro h
  have hsame := h true (readTarget true) (readsQueries_readTarget true) 8080 "tv"
    "https://h/v.mp4?t=1&s=2" "" .http (Or.inl rfl) 0 (by decide)
  have hverbatim := verbatim_of_ok (readsQueries_readTarget true) hsame
  exact absurd (hverbatim.2 '&' (by decide)) (by decide)

end DownloadWrapper.Playback
