import DownloadWrapper.Http.PartInvariant
import DownloadWrapper.Utils.LexicalPath

/-!
# Where the file lands

The name of the file comes from a Content-Disposition header, from the URL, or is made up. Only the
URL's is cut to a base name. The header's is taken as it is, and the path it is appended to the
output directory in may lead anywhere.
-/

namespace DownloadWrapper

open PathForm TaskCtx

def readHeaders (t : TaskCtx) (i : Nat) : List String → Option TaskCtx
  | [] => some t
  | line :: rest => if (headerCb t i line).2 then readHeaders (headerCb t i line).1 i rest else none

def HeaderLine.name : HeaderLine → String
  | .contentDisposition name => name
  | _ => ""

def dispositionName : List String → String
  | [] => ""
  | line :: rest =>
      let name := (parseHeaderLine line).name
      if name = "" then dispositionName rest else name

/-- The name the file gets: the one it has, the first one in the headers, the URL's, or a default. -/
def rawName (urlLib : UrlLib) (t : TaskCtx) (lines : List String) : String :=
  let name := if t.filename = "" then dispositionName lines else t.filename
  let name := if name = "" then extractFilenameFromUrl urlLib t.url else name
  if name = "" then "download" else name

structure Named (t t' : TaskCtx) (name : String) : Prop where
  url : t'.url = t.url
  outputPath : t'.outputPath = t.outputPath
  filename : t'.filename = if t.filename = "" then name else t.filename

theorem Named.refl (t : TaskCtx) : Named t t "" := by
  refine ⟨rfl, rfl, ?_⟩
  split
  · assumption
  · rfl

theorem Named.drift {t t' : TaskCtx} {name : String} (h : Named t t' name) (i : Nat) (drift : Prop)
    [Decidable drift] :
    Named t (if drift then (t'.markDriftError i, false) else (t', true)).1 name := by
  split
  · exact ⟨h.url, h.outputPath, h.filename⟩
  · exact h

theorem named_applyHeaderLine (t : TaskCtx) (i : Nat) (line : HeaderLine) :
    Named t (applyHeaderLine t i line).1 line.name := by
  have hsame : Named t t "" := .refl t
  cases line with
  | blank => exact hsame
  | other => exact hsame
  | status code =>
      cases code with
      | none => exact hsame
      | some code =>
          have hseen : Named t (t.modifyCtx i fun c => { c with seenHttpCode := code }) "" :=
            ⟨rfl, rfl, hsame.filename⟩
          exact hseen.drift i _
  | contentRange total =>
      cases total with
      | none => exact hsame
      | some total =>
          have hseen : Named t (t.seeTotal i total) "" := ⟨rfl, rfl, hsame.filename⟩
          exact hseen.drift i _
  | contentLength length =>
      cases length with
      | none => exact hsame
      | some length =>
          simp only [applyHeaderLine]
          split
          · exact ⟨rfl, rfl, hsame.filename⟩
          · exact hsame
  | contentDisposition name =>
      simp only [applyHeaderLine, HeaderLine.name]
      split
      next hgiven => exact ⟨rfl, rfl, (if_pos hgiven.1).symm⟩
      next hgiven =>
        refine ⟨rfl, rfl, ?_⟩
        split
        next hunnamed =>
          have hempty : name = "" := by
            by_contra hname
            exact hgiven ⟨hunnamed, hname⟩
          rw [hunnamed, hempty]
        next => rfl
  | etag value =>
      have hseen : Named t (t.seeEtag i value) "" := ⟨rfl, rfl, hsame.filename⟩
      exact hseen.drift i _
  | lastModified value =>
      have hseen : Named t (t.seeLastModified i value) "" := ⟨rfl, rfl, hsame.filename⟩
      exact hseen.drift i _

theorem named_headerCb {t : TaskCtx} {i : Nat} {line : String} (h : (headerCb t i line).2 = true) :
    Named t (headerCb t i line).1 (parseHeaderLine line).name := by
  unfold headerCb at h ⊢
  split at h
  · exact absurd h (by simp)
  next hready =>
    rw [if_neg hready]
    exact named_applyHeaderLine t i _

/-- **The first name in the headers stands**, unless the task had one. -/
theorem named_readHeaders {t t' : TaskCtx} {i : Nat} {lines : List String}
    (h : readHeaders t i lines = some t') : Named t t' (dispositionName lines) := by
  induction lines generalizing t with
  | nil =>
      cases h
      exact .refl _
  | cons line rest ih =>
      rw [readHeaders, Option.ite_none_right_eq_some] at h
      have hline := named_headerCb h.1
      have hlater := ih h.2
      refine ⟨hlater.url.trans hline.url, hlater.outputPath.trans hline.outputPath, ?_⟩
      rw [hlater.filename, hline.filename, dispositionName]
      by_cases hunnamed : t.filename = ""
      · simp only [if_pos hunnamed]
      · simp only [if_neg hunnamed]

theorem filename_settleProbe (urlLib : UrlLib) {t t' : TaskCtx} {i : Nat} {lines : List String}
    (h : readHeaders t i lines = some t') :
    (t'.settleProbe urlLib i).filename = rawName urlLib t lines := by
  have hnames := named_readHeaders h
  simp only [settleProbe, rawName, hnames.filename, hnames.url]

theorem rawName_ne_empty (urlLib : UrlLib) (t : TaskCtx) (lines : List String) :
    rawName urlLib t lines ≠ "" := by
  simp only [rawName]
  generalize (if t.filename = "" then dispositionName lines else t.filename) = given
  generalize (if given = "" then extractFilenameFromUrl urlLib t.url else given) = name
  split
  · decide
  · assumption

/-- The segments in front of the name: the wrapper directory is the name without its extension, and
something is put behind it when that is taken. -/
def leadName (taken : Bool) (name : String) : String :=
  if taken then numberedName (stripExtension name) 1 else stripExtension name

/-- An absolute name leads below `base` itself. A relative one comes back to `base`, behind its
wrapper, by the names it climbs out of. -/
def StaysBelow (base : PathForm String) (taken : Bool) (name : String) : Prop :=
  if isAbsolute name then (normalForm name).Below base
  else (here.walk (pathSegments (leadName taken name) ++ pathSegments name)).Returns base

instance (base : PathForm String) (taken : Bool) (name : String) :
    Decidable (StaysBelow base taken name) := by
  unfold StaysBelow
  split <;> infer_instance

theorem exists_pathSegments_append {name : String} (hname : name ≠ "") :
    ∃ lead, (lead = [] ∨ lead = pathSegments name) ∧ ∀ suffix, PlainSuffix suffix →
      ∃ entered, pathSegments (stripExtension name ++ suffix) = lead ++ [.name entered] := by
  -- a plain end keeps `.` and `..` away
  have hentered : ∀ front suffix : List Char, suffix ≠ [] → '/' ∉ front → '/' ∉ suffix →
      '.' ∉ suffix →
        segmentsOfChars (front ++ suffix) = [.name (String.ofList (front ++ suffix))] := by
    intro front suffix hne hfront hslash hdot
    have hmem : '/' ∉ front ++ suffix := by simp [hfront, hslash]
    rw [segmentsOfChars_of_not_mem hmem, segmentOf_of_getLast (by simp [hne])]
    · rfl
    · rw [List.getLast?_append_of_ne_nil _ hne]
      intro hlast
      exact hdot (List.mem_of_getLast? hlast)
  rcases stripExtension_cases hname with hplain | ⟨hsame, front, hfront⟩
  · refine ⟨[], Or.inl rfl, ?_⟩
    intro suffix hsuffix
    refine ⟨stripExtension name ++ suffix, ?_⟩
    have hne : suffix.toList ≠ [] := by simpa using hsuffix.1
    rw [pathSegments, String.toList_append, hentered _ _ hne hplain hsuffix.2.1 hsuffix.2.2,
      ← String.toList_append, String.ofList_toList, List.nil_append]
  · refine ⟨pathSegments name, Or.inr rfl, ?_⟩
    intro suffix hsuffix
    refine ⟨suffix, ?_⟩
    have hne : suffix.toList ≠ [] := by simpa using hsuffix.1
    have hsegments := hentered [] suffix.toList hne (by simp) hsuffix.2.1 hsuffix.2.2
    rw [List.nil_append, String.ofList_toList] at hsegments
    rw [hsame, pathSegments, pathSegments, String.toList_append, hfront, List.append_assoc,
      List.singleton_append, segmentsOfChars_slash, hsegments, segmentsOfChars_concat_slash]

theorem isAbsolute_append {name : String} (hne : name ≠ "") (hname : isAbsolute name = false)
    (suffix : String) : isAbsolute (stripExtension name ++ suffix) = false := by
  have hstrip : (stripExtension name).toList ≠ [] := by simpa using stripExtension_ne_empty hne
  rw [isAbsolute, String.toList_append, List.head?_append_of_ne_nil _ hstrip]
  rcases stripExtension_cases hne with hplain | ⟨hsame, -⟩
  · rw [decide_eq_false_iff_not]
    intro hhead
    exact hplain (List.mem_of_head? hhead)
  · rw [hsame]
    exact hname

theorem below_acquired_iff (env : AcquireEnv) (fs : Fs) (dir : String) {name : String}
    (hname : name ≠ "") (base : PathForm String) :
    (base.walk (pathSegments (acquireWrapperName env fs dir (stripExtension name)).1 ++
        pathSegments name)).Below base ↔
      (base.walk (pathSegments (leadName (fs.exist (joinPath dir (stripExtension name))) name) ++
        pathSegments name)).Below base := by
  have hacquired := acquireWrapperName_fst env fs dir (stripExtension_ne_empty hname)
  split at hacquired
  next htaken =>
    obtain ⟨suffix, hsuffix, hunique⟩ := hacquired
    obtain ⟨lead, hlead, hentered⟩ := exists_pathSegments_append hname
    obtain ⟨s, hs⟩ := hentered suffix hsuffix
    obtain ⟨s', hs'⟩ := hentered _ (plainSuffix_number 1)
    have hlow : (here.walk (pathSegments name)).ups = 0 → (here.walk lead).ups = 0 := by
      intro hups
      rcases hlead with rfl | rfl
      · rfl
      · exact hups
    rw [htaken, leadName, if_pos rfl, numberedName_eq, hunique, hs, hs', List.append_assoc,
      List.append_assoc]
    exact ⟨below_walk_swap base s s' hlow, below_walk_swap base s' s hlow⟩
  next hfree =>
    rw [leadName, if_neg hfree, hacquired]

/-- **The file lands below the output directory exactly when its name stays there.** -/
theorem below_finalizeProbing_iff (cfg : HttpConfig) (env : ProbeEnv) (fs : Fs) {t t' : TaskCtx}
    {i : Nat} {lines : List String} (hread : readHeaders t i lines = some t') :
    (normalForm (finalizeProbing cfg env fs t' i).1.fullFilePath).Below (normalForm t.outputPath) ↔
      StaysBelow (normalForm t.outputPath)
        (fs.exist (joinPath t.outputPath (stripExtension (rawName env.urlLib t lines))))
        (rawName env.urlLib t lines) := by
  have hfilename := filename_settleProbe env.urlLib hread
  have hout : (t'.settleProbe env.urlLib i).outputPath = t.outputPath :=
    (named_readHeaders hread).outputPath
  have hne := rawName_ne_empty env.urlLib t lines
  rw [fullFilePath_finalizeProbing, acquirePath]
  simp only [hfilename, hout]
  generalize rawName env.urlLib t lines = name at hne ⊢
  unfold StaysBelow
  split
  next habsolute => rw [joinPath_of_absolute _ habsolute]
  next hrelative =>
    have hrelative' : isAbsolute name = false := by simpa using hrelative
    have hlead : isAbsolute
        (acquireWrapperName env.acquire fs t.outputPath (stripExtension name)).1 = false := by
      have hacquired := acquireWrapperName_fst env.acquire fs t.outputPath
        (stripExtension_ne_empty hne)
      split at hacquired
      · obtain ⟨suffix, -, hunique⟩ := hacquired
        rw [hunique]
        exact isAbsolute_append hne hrelative' suffix
      · have hbare := isAbsolute_append hne hrelative' ""
        rwa [String.append_empty, ← hacquired] at hbare
    rw [normalForm_joinPath hrelative', normalForm_joinPath hlead, ← walk_append,
      below_acquired_iff _ _ _ hne, below_walk_iff]

def intoD : TaskCtx := taskCreateNew "http://h/f.bin" "" "/d"

def namedResponse (name : String) : List String :=
  ["HTTP/1.1 206 Partial Content\r\n",
    "Content-Disposition: attachment; filename=\"" ++ name ++ "\"\r\n"]

theorem below_finalizeProbing_iff_plain :
    ∃ t', readHeaders intoD 0 (namedResponse "a.bin") = some t' ∧
      ((normalForm (finalizeProbing plainCfg grantAll.probe emptyFs t' 0).1.fullFilePath).Below
          (normalForm "/d") ↔
        StaysBelow (normalForm "/d") false "a.bin") := by
  obtain ⟨t', hread⟩ : ∃ t', readHeaders intoD 0 (namedResponse "a.bin") = some t' := ⟨_, rfl⟩
  refine ⟨t', hread, ?_⟩
  have hiff := below_finalizeProbing_iff plainCfg grantAll.probe emptyFs hread
  have hname : rawName grantAll.probe.urlLib intoD (namedResponse "a.bin") = "a.bin" := by
    decide +kernel
  rw [hname] at hiff
  exact hiff

/-- The server's `..` segments lead out of the output directory. -/
theorem not_below_climbing :
    ∃ t', readHeaders intoD 0 (namedResponse "../../etc/cron.d/x") = some t' ∧
      ¬ (normalForm (finalizeProbing plainCfg grantAll.probe emptyFs t' 0).1.fullFilePath).Below
        (normalForm "/d") := by
  refine ⟨_, rfl, ?_⟩
  decide +kernel

end DownloadWrapper
