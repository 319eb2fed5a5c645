import DownloadWrapper.Torrent.FileRuns

/-!
# A torrent before it is added

`parse_magnet` and `parse_torrent_file` read a source without adding it: the key of the task it would
make, and its files. They read it apart from `add_task` and `handle_parsed`, which come later.
-/

namespace DownloadWrapper

open Transition

namespace TorrentEngine

/-- `parse_magnet`: the key, or a failure. -/
def parseMagnet (lib : TorrentLib) (magnetLink : String) : Option String :=
  if magnetLink = "" then none
  else
    let atp := lib.parseMagnetUri magnetLink
    if ¬ atp.ok then none else atp.v2.or atp.v1

def previewFile (infoHash : String) (i : Nat) (layout : LayoutFile) : TaskFile where
  fileIndex := i
  taskId := infoHash
  path := layout.path
  name := fileName layout.path
  totalSize := layout.size
  progress := if layout.size = 0 then 1 else 0
  extension := fileExtension layout.path

def previewFiles (infoHash : String) (info : TorrentInfo) : List TaskFile :=
  info.files.zipIdx.filterMap fun (layout, i) =>
    if layout.pad then none else some (previewFile infoHash i layout)

structure Preview where
  infoHash : String
  files : List TaskFile
  deriving DecidableEq

/-- `parse_torrent_file`; `torrentInfo` is what `load_torrent_file` makes of a file besides the hashes. -/
def parseTorrentFile (lib : TorrentLib) (torrentInfo : String → Option TorrentInfo) (path : String) :
    Option Preview :=
  if path = "" then none
  else
    match lib.loadTorrentFile path, torrentInfo path with
    | some (v1, v2), some info =>
        (v2.or v1).map fun infoHash => ⟨infoHash, previewFiles infoHash info⟩
    | _, _ => none

section Key

variable {lib : TorrentLib} {torrentInfo : String → Option TorrentInfo} {params : TaskParams}

theorem parseSource_of_parseMagnet {infoHash : String}
    (h : parseMagnet lib params.magnetLink = some infoHash) :
    parseSource lib params = some (infoHash, "") := by
  rw [parseMagnet] at h
  split_ifs at h with hgiven
  simp only [Bool.not_eq_true, ite_eq_iff, reduceCtorEq, and_false, false_or] at h
  simp [parseSource, hashHex, hgiven, h.2, (Bool.not_eq_false _).mp h.1]

theorem parseTorrentFile_eq_some {path : String} {preview : Preview}
    (h : parseTorrentFile lib torrentInfo path = some preview) :
    path ≠ "" ∧ ∃ v1 v2 info, lib.loadTorrentFile path = some (v1, v2) ∧ torrentInfo path = some info ∧
      v2.or v1 = some preview.infoHash ∧ preview.files = previewFiles preview.infoHash info := by
  rw [parseTorrentFile] at h
  split_ifs at h with hgiven
  split at h
  next v1 v2 info hload hinfo =>
    obtain ⟨infoHash, hhash, rfl⟩ := Option.map_eq_some_iff.mp h
    exact ⟨hgiven, v1, v2, info, hload, hinfo, hhash, rfl⟩
  next => cases h

theorem parseSource_of_parseTorrentFile {preview : Preview}
    (hmagnet : params.magnetLink = "" ∨ (lib.parseMagnetUri params.magnetLink).ok = false)
    (h : parseTorrentFile lib torrentInfo params.torrentFile = some preview) :
    ∃ name, parseSource lib params = some (preview.infoHash, name) := by
  obtain ⟨hgiven, v1, v2, info, hload, -, hhash, -⟩ := parseTorrentFile_eq_some h
  have hlink : ¬ (params.magnetLink ≠ "" ∧ (lib.parseMagnetUri params.magnetLink).ok = true) := by
    rintro ⟨hne, hok⟩
    rcases hmagnet with hempty | hfails
    · exact hne hempty
    · rw [hok] at hfails
      cases hfails
  refine ⟨if params.magnetLink ≠ "" then (lib.parseMagnetUri params.magnetLink).name else "", ?_⟩
  rw [parseSource]
  simp only [if_neg hlink, if_neg hgiven, hload, hashHex, hhash, Option.getD_some]

end Key

end TorrentEngine

/-! ### The files -/

open TorrentEngine

structure Listing where
  fileIndex : Int
  taskId : String
  path : String
  name : String
  extension : String
  totalSize : Int

def TaskFile.listing (file : TaskFile) : Listing :=
  ⟨file.fileIndex, file.taskId, file.path, file.name, file.extension, file.totalSize⟩

def Shown (key : String) (info : TorrentInfo) (file : TaskFile) : Prop :=
  ∃ (i : Nat) (layout : LayoutFile), info.files[i]? = some layout ∧ layout.pad = false ∧
    file.listing = (previewFile key i layout).listing

section Listings

variable {key : String} {info : TorrentInfo} {t : Torrent} {file file' : TaskFile} {files : List TaskFile}

theorem mem_previewFiles : file ∈ previewFiles key info ↔
    ∃ (i : Nat) (layout : LayoutFile), info.files[i]? = some layout ∧ layout.pad = false ∧
      file = previewFile key i layout := by
  simp only [previewFiles, List.mem_filterMap, Prod.exists, List.mem_zipIdx_iff_getElem?]
  constructor
  · rintro ⟨layout, i, hlayout, hfile⟩
    split_ifs at hfile with hpad
    exact ⟨i, layout, hlayout, (Bool.not_eq_true _).mp hpad, (Option.some.inj hfile).symm⟩
  · rintro ⟨i, layout, hlayout, hpad, rfl⟩
    exact ⟨layout, i, hlayout, by simp [hpad]⟩

theorem shown_iff : Shown key info file ↔
    ∃ entry ∈ previewFiles key info, file.listing = entry.listing := by
  constructor
  · rintro ⟨i, layout, hlayout, hpad, hlisting⟩
    exact ⟨_, mem_previewFiles.mpr ⟨i, layout, hlayout, hpad, rfl⟩, hlisting⟩
  · rintro ⟨entry, hentry, hlisting⟩
    obtain ⟨i, layout, hlayout, hpad, rfl⟩ := mem_previewFiles.mp hentry
    exact ⟨i, layout, hlayout, hpad, hlisting⟩

theorem Shown.of_listing (h : Shown key info file) (hsame : file'.listing = file.listing) :
    Shown key info file' := by
  obtain ⟨i, layout, hlayout, hpad, hlisting⟩ := h
  exact ⟨i, layout, hlayout, hpad, hsame.trans hlisting⟩

theorem listing_recount : (recount t info file).listing = file.listing := by
  unfold recount
  split
  · rfl
  · split <;> rfl

theorem listing_parsedFile {i : Nat} {layout : LayoutFile} (hindex : file.fileIndex = i) :
    (parsedFile key t i layout file).listing = (previewFile key i layout).listing := by
  simp only [TaskFile.listing, parsedFile, previewFile, hindex]

theorem shown_upsertFile {i : Nat} {layout : LayoutFile} (hlayout : info.files[i]? = some layout)
    (hpad : layout.pad = false) (hshown : ∀ file ∈ files, Shown key info file) :
    ∀ file ∈ upsertFile i (parsedFile key t i layout) files, Shown key info file := by
  intro file hfile
  rcases mem_upsertFile hfile with hold | rfl | ⟨old, -, hindex, rfl⟩
  · exact hshown file hold
  · exact ⟨i, layout, hlayout, hpad, listing_parsedFile rfl⟩
  · exact ⟨i, layout, hlayout, hpad, listing_parsedFile hindex⟩

theorem shown_parsedFiles (hshown : ∀ file ∈ files, Shown key info file) :
    ∀ file ∈ parsedFiles key t info files, Shown key info file := by
  have hfold : ∀ (entries : List (LayoutFile × Nat)) (files : List TaskFile),
      (∀ entry ∈ entries, info.files[entry.2]? = some entry.1) → (∀ file ∈ files, Shown key info file) →
      ∀ file ∈ entries.foldl (fun files (layout, i) =>
        if layout.pad then files else upsertFile i (parsedFile key t i layout) files) files,
        Shown key info file := by
    intro entries
    induction entries with
    | nil => exact fun _ _ hfiles => hfiles
    | cons entry entries ih =>
        intro files hentries hfiles
        obtain ⟨hentry, hrest⟩ := List.forall_mem_cons.mp hentries
        refine ih _ hrest ?_
        cases hpad : entry.1.pad with
        | true => simpa [hpad] using hfiles
        | false =>
            simpa [hpad] using shown_upsertFile hentry hpad hfiles
  exact hfold _ files (fun entry hentry => List.mem_zipIdx_iff_getElem?.mp hentry) hshown

theorem increasing_previewFiles :
    (previewFiles key info).Pairwise fun file other => file.fileIndex < other.fileIndex := by
  have hplaces : info.files.zipIdx.Pairwise fun entry other => entry.2 < other.2 := by
    rw [← List.pairwise_map (f := Prod.snd), List.zipIdx_map_snd]
    exact List.pairwise_lt_range'
  refine List.Pairwise.filterMap _ ?_ hplaces
  rintro ⟨layout, i⟩ ⟨other, j⟩ hlt file hfile file' hfile'
  dsimp only at hfile hfile'
  split_ifs at hfile hfile'
  obtain rfl := Option.some.inj hfile
  obtain rfl := Option.some.inj hfile'
  exact Int.ofNat_lt.mpr hlt

/-- A list that follows the layout, has every file of it and shows each as its layout has it is the list
of the preview, as far as that goes. -/
theorem listing_eq_preview (hfollows : Follows key info files) (hcomplete : Complete info files)
    (hshown : ∀ file ∈ files, Shown key info file) :
    files.map TaskFile.listing = (previewFiles key info).map TaskFile.listing := by
  have hincreasing : ∀ {list : List TaskFile},
      (list.Pairwise fun file other => file.fileIndex < other.fileIndex) →
      (list.map TaskFile.listing).Pairwise fun a b => a.fileIndex < b.fileIndex :=
    fun h => List.pairwise_map.mpr h
  have hnodup : ∀ {list : List TaskFile},
      (list.Pairwise fun file other => file.fileIndex < other.fileIndex) →
      (list.map TaskFile.listing).Nodup :=
    fun h => (hincreasing h).imp fun hlt heq => absurd (heq ▸ hlt) (lt_irrefl _)
  have hperm : (files.map TaskFile.listing).Perm ((previewFiles key info).map TaskFile.listing) := by
    rw [List.perm_ext_iff_of_nodup (hnodup hfollows.increasing) (hnodup increasing_previewFiles)]
    intro listing
    simp only [List.mem_map]
    constructor
    · rintro ⟨file, hfile, rfl⟩
      obtain ⟨entry, hentry, heq⟩ := shown_iff.mp (hshown file hfile)
      exact ⟨entry, hentry, heq.symm⟩
    · rintro ⟨entry, hentry, rfl⟩
      obtain ⟨i, layout, hlayout, hpad, rfl⟩ := mem_previewFiles.mp hentry
      obtain ⟨file, hfile, hindex⟩ := hcomplete i layout hlayout hpad
      obtain ⟨j, other, hother, -, heq⟩ := hshown file hfile
      have hij : i = j := by
        have hj : file.fileIndex = j := congrArg Listing.fileIndex heq
        exact_mod_cast hindex.symm.trans hj
      subst hij
      obtain rfl := Option.some.inj (hlayout.symm.trans hother)
      exact ⟨file, hfile, heq⟩
  exact hperm.eq_of_pairwise (fun a b _ _ hab hba => absurd (hab.trans hba) (lt_irrefl _))
    (hincreasing hfollows.increasing) (hincreasing increasing_previewFiles)

end Listings

/-! ### Runs -/

section Rows

variable {key : String} {info : TorrentInfo} {store : Store} {files : List TaskFile}

def RowsShown (key : String) (info : TorrentInfo) (store : Store) : Prop :=
  ∀ row ∈ store.taskFile, row.taskId = key → Shown key info row

theorem rowsShown_saveFile {file : TaskFile} (hrows : RowsShown key info store)
    (hfile : Shown key info file) : RowsShown key info (store.saveFile file) := by
  have hinsert : ∀ row : TaskFile, row.listing = file.listing →
      ∀ other ∈ store.taskFile.insert row, other.taskId = key → Shown key info other := by
    intro row hsame other hother hid
    rcases KeyedList.mem_insert.mp hother with rfl | ⟨hold, -⟩
    · exact hfile.of_listing hsame
    · exact hrows other hold hid
  unfold Store.saveFile
  split
  · exact hinsert _ rfl
  · split
    · exact hrows
    · exact hinsert _ rfl

theorem rowsShown_saveFiles (hrows : RowsShown key info store)
    (hfiles : ∀ file ∈ files, Shown key info file) : RowsShown key info (store.saveFiles files) := by
  have hsaved : ∀ file ∈ files.takeWhile fun file => file.taskId ≠ "" && 0 ≤ file.fileIndex,
      Shown key info file := fun file hmem => hfiles file (List.takeWhile_subset _ hmem)
  unfold Store.saveFiles
  generalize files.takeWhile _ = saved at hsaved
  induction saved generalizing store with
  | nil => exact hrows
  | cons file saved ih =>
      obtain ⟨hfile, hrest⟩ := List.forall_mem_cons.mp hsaved
      exact ih (rowsShown_saveFile hrows hfile) hrest

theorem shown_filesOf (hrows : RowsShown key info store) :
    ∀ file ∈ store.filesOf key, Shown key info file := by
  intro row hmem
  rw [Store.filesOf, List.mem_insertionSort, List.mem_filter] at hmem
  simp only [Bool.and_eq_true, decide_eq_true_eq] at hmem
  exact hrows row hmem.1 hmem.2.1

end Rows

namespace FileState

variable {key : String} {info : TorrentInfo} {s₀ s s' : FileState} {event : FileEvent}

structure Showing (key : String) (info : TorrentInfo) (s : FileState) : Prop where
  files : ∀ file ∈ s.task.files, Shown key info file
  rows : RowsShown key info s.store

theorem Showing.mapFiles (h : Showing key info s) {f : TaskFile → TaskFile}
    (hf : ∀ file, (f file).listing = file.listing) (hfiles : s'.task.files = s.task.files.map f)
    (hstore : s'.store = s.store) : Showing key info s' := by
  refine ⟨fun file hfile => ?_, hstore ▸ h.rows⟩
  rw [hfiles] at hfile
  obtain ⟨old, hold, rfl⟩ := List.mem_map.mp hfile
  exact (h.files old hold).of_listing (hf old)

theorem Showing.parsed (h : Showing key info s) {env : AcquireEnv} {fs : Fs} {t : Torrent}
    {taken : Nat} (hhandles : Handles key info t) (hstep : s.step key (.parsed env fs t taken) = some s') :
    Showing key info s' := by
  obtain rfl := Option.some.inj hstep
  have hparsed := @shown_parsedFiles key info t s.task.files h.files
  constructor
  · simp only [files_parsedTask]
    split
    · exact h.files
    · cases hinfo : t.info with
      | none => exact h.files
      | some info' =>
          obtain rfl := hhandles.2 info' hinfo
          rw [hhandles.1]
          exact hparsed
  · simp only [parsedStore]
    split
    · exact h.rows
    · cases hinfo : t.info with
      | none => exact h.rows
      | some info' =>
          obtain rfl := hhandles.2 info' hinfo
          rw [hhandles.1]
          exact rowsShown_saveFiles h.rows fun file hmem => hparsed file (List.mem_of_mem_take hmem)

theorem Showing.step (h : Showing key info s) (hfollows : Follows key info s.task.files)
    (hof : OfTorrent key info s event) (hstep : s.step key event = some s') : Showing key info s' := by
  cases event with
  | parsed env fs t taken => exact h.parsed hof hstep
  | pieceFinished t piece =>
      obtain rfl := Option.some.inj hstep
      rcases files_pieceTask t piece s.task with hsame | ⟨info', -, -, hmap⟩
      · exact ⟨hsame ▸ h.files, h.rows⟩
      · refine h.mapFiles (fun file => ?_) hmap rfl
        split
        · exact listing_recount
        · rfl
  | fileCompleted fileIndex =>
      obtain rfl := Option.some.inj hstep
      simp only [completeFileTask]
      split
      · refine h.mapFiles (fun file => ?_) (modifyFile_eq_map hfollows.increasing) rfl
        split <;> rfl
      · exact h
  | save taken =>
      obtain rfl := Option.some.inj hstep
      exact ⟨h.files, rowsShown_saveFiles h.rows fun file hmem => h.files file (List.mem_of_mem_take hmem)⟩
  | reload =>
      obtain rfl := Option.some.inj hstep
      exact ⟨shown_filesOf h.rows, h.rows⟩
  | mark =>
      obtain rfl := Option.some.inj hstep
      exact ⟨h.files, h.rows⟩

/-- **The preview is what comes.** A magnet link is previewed under the key that `add_task` gives it, and
so is a torrent file if there is no link that parses. Whatever is then done with the files of that task,
each of them is one of the preview under the same index, with its path, name, extension and size; and
behind a `handle_parsed` that sees the metadata of a task which is not deleted, they are all of them, in
the same order. -/
theorem preview_of_reaches {lib : TorrentLib} {torrentInfo : String → Option TorrentInfo}
    {params : TaskParams} {preview : Preview}
    (hmagnet : params.magnetLink = "" ∨ (lib.parseMagnetUri params.magnetLink).ok = false)
    (hpreview : parseTorrentFile lib torrentInfo params.torrentFile = some preview)
    (hinfo : torrentInfo params.torrentFile = some info) (hsized : info.Sized)
    (hfiles : s₀.task.files = []) (hrows : ∀ row ∈ s₀.store.taskFile, row.taskId ≠ preview.infoHash)
    (hrun : Reaches (FileState.step preview.infoHash) (OfTorrent preview.infoHash info) s₀ s) :
    (∀ (link : TaskParams) infoHash, parseMagnet lib link.magnetLink = some infoHash →
        parseSource lib link = some (infoHash, "")) ∧
      (∃ name, parseSource lib params = some (preview.infoHash, name)) ∧
      (∀ file ∈ s.task.files, ∃ entry ∈ preview.files, file.listing = entry.listing) ∧
      ∀ env fs t taken s', Handles preview.infoHash info t → t.info = some info → s.task.isDelete = false →
        s.step preview.infoHash (.parsed env fs t taken) = some s' →
          s'.task.files.map TaskFile.listing = preview.files.map TaskFile.listing := by
  obtain ⟨-, -, -, info', -, hinfo', -, hlist⟩ := parseTorrentFile_eq_some hpreview
  obtain rfl := Option.some.inj (hinfo.symm.trans hinfo')
  have hnone : s₀.task.files = [] → ∀ file, file ∉ s₀.task.files := fun h file => h ▸ List.not_mem_nil
  have hstart : Fitting preview.infoHash info s₀ ∧ Showing preview.infoHash info s₀ :=
    ⟨⟨⟨hfiles ▸ .nil, fun file hmem => absurd hmem (hnone hfiles file)⟩,
        fun row hrow hid => absurd hid (hrows row hrow)⟩,
      ⟨fun file hmem => absurd hmem (hnone hfiles file), fun row hrow hid => absurd hid (hrows row hrow)⟩⟩
  have hkeep : ∀ (u : FileState) (event : FileEvent) (v : FileState),
      Fitting preview.infoHash info u ∧ Showing preview.infoHash info u →
      OfTorrent preview.infoHash info u event → u.step preview.infoHash event = some v →
      Fitting preview.infoHash info v ∧ Showing preview.infoHash info v :=
    fun _ _ _ hinv hof hstep => ⟨hinv.1.step hsized hof hstep, hinv.2.step hinv.1.files hof hstep⟩
  obtain ⟨hfitting, hshowing⟩ := hrun.invariant hkeep hstart
  refine ⟨fun _ _ => parseSource_of_parseMagnet, parseSource_of_parseTorrentFile hmagnet hpreview,
    fun file hfile => ?_, fun env fs t taken s' hhandles hti hlive hstep => ?_⟩
  · rw [hlist]
    exact shown_iff.mp (hshowing.files file hfile)
  · rw [hlist]
    have hparsed := follows_parsedFiles hsized hhandles.1 hfitting.files
    have hshown := (hshowing.parsed hhandles hstep).files
    obtain rfl := Option.some.inj hstep
    simp only [files_parsedTask, hlive, hti, Bool.false_eq_true, if_false] at hshown ⊢
    exact listing_eq_preview hparsed.1 hparsed.2 hshown

def paddedLib : TorrentLib where
  parseMagnetUri _ := { ok := false }
  loadTorrentFile _ := some (some "h", none)

theorem preview_of_reaches_padded :
    ∃ s : FileState, s.task.files ≠ [] ∧ ∀ file ∈ s.task.files,
      ∃ entry ∈ previewFiles "h" paddedInfo, file.listing = entry.listing := by
  have hplayed : ((play (FileState.step "h") (OfTorrent "h" paddedInfo) ⟨{ taskId := "h" }, {}⟩
      [.parsed {} (fun _ => none) paddedTorrent 2, .pieceFinished paddedTorrent 0, .save 2, .reload]).map
        fun s => s.task.files.length) = some 2 := by
    decide +kernel
  obtain ⟨s, hplay, hlength⟩ := Option.map_eq_some_iff.mp hplayed
  have hpreview : parseTorrentFile paddedLib (fun _ => some paddedInfo) "p.torrent" =
      some ⟨"h", previewFiles "h" paddedInfo⟩ := rfl
  have hspec := @preview_of_reaches paddedInfo ⟨{ taskId := "h" }, {}⟩ s paddedLib (fun _ => some paddedInfo)
    { clientId := "c", protocol := .torrent, torrentFile := "p.torrent" } _ (Or.inl rfl) hpreview rfl
    sized_paddedInfo rfl (fun row hrow => absurd hrow List.not_mem_nil) (reaches_of_play hplay)
  refine ⟨s, fun hnil => ?_, hspec.2.2.1⟩
  rw [hnil] at hlength
  cases hlength

end FileState

end DownloadWrapper
