import DownloadWrapper.Store.TaskStore
import DownloadWrapper.Torrent.Segments

/-!
# The file list of a BT task

One entry for each file of the layout that is no pad file, in order, each with what is there of its
file. Every update of an entry leaves one that fits, and so does every update of the list.
-/

namespace DownloadWrapper

open Intervals

/-- What an entry says of a file of `size` bytes: no more bytes than there are, and intervals that keep
apart and are no longer than what is done. -/
structure Fits (size : Int) (file : TaskFile) : Prop where
  done : 0 ≤ file.totalDone ∧ file.totalDone ≤ size
  apart : Spaced 0 (size - 1) file.segments
  total : total file.segments ≤ file.totalDone

def TorrentInfo.Sized (info : TorrentInfo) : Prop :=
  ∀ layout ∈ info.files, 0 ≤ layout.offset ∧ 0 ≤ layout.size

/-- The entry is that of a file of the layout which is no pad file. -/
structure Lists (key : String) (info : TorrentInfo) (file : TaskFile) : Prop where
  taskId : file.taskId = key
  layout : ∃ (i : Nat) (layout : LayoutFile), file.fileIndex = i ∧ info.files[i]? = some layout ∧
    layout.pad = false ∧ file.totalSize = layout.size ∧ Fits layout.size file

section Entries

variable {key : String} {info : TorrentInfo} {size : Int} {file file' : TaskFile}

theorem fits_new {index : Int} (hsize : 0 ≤ size) : Fits size { fileIndex := index } :=
  ⟨⟨le_rfl, hsize⟩, .nil, le_rfl⟩

theorem Lists.fits (hlists : Lists key info file) : Fits file.totalSize file := by
  obtain ⟨i, layout, -, -, -, hsize, hfits⟩ := hlists.layout
  rw [hsize]
  exact hfits

theorem Lists.of_eq (hlists : Lists key info file) (hid : file'.taskId = file.taskId)
    (hindex : file'.fileIndex = file.fileIndex) (hsize : file'.totalSize = file.totalSize)
    (hdone : file'.totalDone = file.totalDone) (hsegments : file'.segments = file.segments) :
    Lists key info file' := by
  obtain ⟨i, layout, hi, hlayout, hpad, hsame, hfits⟩ := hlists.layout
  refine ⟨hid.trans hlists.taskId, i, layout, hindex.trans hi, hlayout, hpad, hsize.trans hsame, ?_⟩
  constructor
  · rw [hdone]
    exact hfits.done
  · rw [hsegments]
    exact hfits.apart
  · rw [hsegments, hdone]
    exact hfits.total

theorem clampSize_bounds {n : Int} (hsize : 0 ≤ size) :
    0 ≤ clampSize n size ∧ clampSize n size ≤ size := by
  unfold clampSize
  omega

/-- `handle_parsed` on one file: what was known of it stays known, unless less of it is there. -/
theorem lists_parsedFile {t : Torrent} {i : Nat} {layout : LayoutFile} (hhex : t.hex = key)
    (hlayout : info.files[i]? = some layout) (hpad : layout.pad = false) (hsize : 0 ≤ layout.size)
    (hindex : file.fileIndex = i) (hfits : Fits layout.size file) :
    Lists key info (parsedFile t.hex t i layout file) := by
  refine ⟨hhex, i, layout, hindex, hlayout, hpad, rfl, ?_⟩
  have hdone : 0 ≤ ((t.fileProgress[i]?).map fun n => clampSize n layout.size).getD file.totalDone ∧
      ((t.fileProgress[i]?).map fun n => clampSize n layout.size).getD file.totalDone ≤
        layout.size := by
    cases t.fileProgress[i]? with
    | none => exact hfits.done
    | some n => exact clampSize_bounds hsize
  unfold parsedFile
  refine ⟨hdone, ?_, ?_⟩ <;> simp only <;> split
  · exact .nil
  · exact hfits.apart
  · exact hdone.1
  next hless => exact hfits.total.trans (not_lt.mp hless)

theorem lists_recount {t : Torrent} (hsized : info.Sized) (hlength : 0 < info.pieceLength)
    (hlists : Lists key info file) : Lists key info (recount t info file) := by
  obtain ⟨i, layout, hi, hlayout, hpad, hsize, hfits⟩ := hlists.layout
  have hat : info.files[file.fileIndex.toNat]? = some layout := by
    rw [hi, Int.toNat_natCast]
    exact hlayout
  unfold recount
  rw [hat]
  simp only
  split
  · exact hlists
  next hpositive =>
    have hoffset := (hsized layout (List.mem_of_getElem? hlayout)).1
    obtain ⟨hapart, hsum⟩ := segmentsOf_spec t.pieces hlength hoffset (not_le.mp hpositive)
    have hbound := hapart.total_le (by omega)
    have hdone : 0 ≤ (segmentsOf info.pieceLength t.pieces layout).2 ∧
        (segmentsOf info.pieceLength t.pieces layout).2 ≤ layout.size := by
      rw [hsum]
      exact ⟨hapart.total_nonneg, by omega⟩
    exact ⟨hlists.taskId, i, layout, hi, hlayout, hpad, hsize, hdone, hapart, hsum.ge⟩

theorem lists_completedFile (hsized : info.Sized) (hlists : Lists key info file) :
    Lists key info (completedFile file) := by
  obtain ⟨i, layout, hi, hlayout, hpad, hsize, hfits⟩ := hlists.layout
  have hnonneg := (hsized layout (List.mem_of_getElem? hlayout)).2
  refine ⟨hlists.taskId, i, layout, hi, hlayout, hpad, hsize, ?_, ?_, ?_⟩
  · exact ⟨hnonneg.trans hsize.ge, hsize.le⟩
  · unfold completedFile
    simp only
    split
    next hpositive => exact .singleton le_rfl (by omega) (by omega)
    next => exact .nil
  · unfold completedFile
    simp only
    split
    · rw [total_singleton]
      omega
    · rw [total_nil, hsize]
      exact hnonneg

end Entries

/-! ### The list -/

structure Follows (key : String) (info : TorrentInfo) (files : List TaskFile) : Prop where
  increasing : files.Pairwise fun file other => file.fileIndex < other.fileIndex
  lists : ∀ file ∈ files, Lists key info file

def Complete (info : TorrentInfo) (files : List TaskFile) : Prop :=
  ∀ (i : Nat) (layout : LayoutFile), info.files[i]? = some layout → layout.pad = false →
    ∃ file ∈ files, file.fileIndex = i

theorem Follows.countP {key : String} {info : TorrentInfo} {files : List TaskFile}
    (hfollows : Follows key info files) (hcomplete : Complete info files) {i : Nat}
    {layout : LayoutFile} (hlayout : info.files[i]? = some layout) :
    (files.countP fun file => file.fileIndex = (i : Int)) = if layout.pad then 0 else 1 := by
  cases hpad : layout.pad with
  | true =>
      refine List.countP_eq_zero.mpr fun file hmem => ?_
      obtain ⟨j, other, hj, hother, hnot, -⟩ := (hfollows.lists file hmem).layout
      intro hindex
      have hsame : j = i := by
        rw [of_decide_eq_true hindex] at hj
        exact_mod_cast hj.symm
      rw [hsame, hlayout] at hother
      rw [Option.some.inj hother, hnot] at hpad
      exact absurd hpad (by simp)
  | false =>
      obtain ⟨file, hmem, hindex⟩ := hcomplete i layout hlayout hpad
      have hnodup : (files.map TaskFile.fileIndex).Nodup :=
        List.pairwise_map.mpr (hfollows.increasing.imp fun hless => ne_of_lt hless)
      have hone := List.count_eq_one_of_mem hnodup (List.mem_map.mpr ⟨file, hmem, hindex⟩)
      rw [List.count_eq_countP, List.countP_map] at hone
      simp only [Bool.false_eq_true, if_false]
      rw [← hone]
      exact List.countP_congr fun file _ => by simp

section Upsert

variable {index : Int} {f : TaskFile → TaskFile} {files : List TaskFile}

theorem mem_upsertFile {file : TaskFile} (hmem : file ∈ upsertFile index f files) :
    file ∈ files ∨ file = f { fileIndex := index } ∨
      ∃ old ∈ files, old.fileIndex = index ∧ file = f old := by
  induction files with
  | nil => exact Or.inr (Or.inl (List.mem_singleton.mp hmem))
  | cons head rest ih =>
      unfold upsertFile at hmem
      split at hmem
      · rcases List.mem_cons.mp hmem with rfl | hrest
        · exact Or.inl List.mem_cons_self
        · rcases ih hrest with hold | hnew | ⟨old, hold, hindex, heq⟩
          · exact Or.inl (List.mem_cons_of_mem _ hold)
          · exact Or.inr (Or.inl hnew)
          · exact Or.inr (Or.inr ⟨old, List.mem_cons_of_mem _ hold, hindex, heq⟩)
      · split at hmem
        next hindex =>
          rcases List.mem_cons.mp hmem with heq | hrest
          · exact Or.inr (Or.inr ⟨head, List.mem_cons_self, hindex, heq⟩)
          · exact Or.inl (List.mem_cons_of_mem _ hrest)
        next =>
          rcases List.mem_cons.mp hmem with heq | hold
          · exact Or.inr (Or.inl heq)
          · exact Or.inl hold

variable (hf : ∀ file, (f file).fileIndex = file.fileIndex)

include hf

theorem exists_upsertFile {i : Int} :
    (∃ file ∈ upsertFile index f files, file.fileIndex = i) ↔
      i = index ∨ ∃ file ∈ files, file.fileIndex = i := by
  induction files with
  | nil => simp [upsertFile, hf, eq_comm]
  | cons head rest ih =>
      unfold upsertFile
      split
      · simp only [List.exists_mem_cons_iff, ih]
        tauto
      · split
        next hindex =>
          simp only [List.exists_mem_cons_iff, hf, hindex]
          constructor
          · rintro (heq | hrest)
            · exact Or.inl heq.symm
            · exact Or.inr (Or.inr hrest)
          · rintro (heq | heq | hrest)
            · exact Or.inl heq.symm
            · exact Or.inl heq
            · exact Or.inr hrest
        next =>
          simp only [List.exists_mem_cons_iff, hf]
          constructor
          · rintro (heq | hrest)
            · exact Or.inl heq.symm
            · exact Or.inr hrest
          · rintro (heq | hrest)
            · exact Or.inl heq.symm
            · exact Or.inr hrest

theorem increasing_upsertFile
    (hincreasing : files.Pairwise fun file other => file.fileIndex < other.fileIndex) :
    (upsertFile index f files).Pairwise fun file other => file.fileIndex < other.fileIndex := by
  induction files with
  | nil => exact List.pairwise_singleton _ _
  | cons head rest ih =>
      obtain ⟨hhead, hrest⟩ := List.pairwise_cons.mp hincreasing
      unfold upsertFile
      split
      next hless =>
        refine List.pairwise_cons.mpr ⟨fun file hfile => ?_, ih hrest⟩
        rcases (exists_upsertFile hf).mp ⟨file, hfile, rfl⟩ with heq | ⟨old, hold, heq⟩
        · rw [heq]
          exact hless
        · rw [← heq]
          exact hhead old hold
      next hnot =>
        split
        next hindex =>
          refine List.pairwise_cons.mpr ⟨fun file hfile => ?_, hrest⟩
          rw [hf]
          exact hhead file hfile
        next hne =>
          refine List.pairwise_cons.mpr ⟨fun file hfile => ?_, hincreasing⟩
          have hbefore : index < head.fileIndex := by omega
          rw [hf]
          rcases List.mem_cons.mp hfile with rfl | hfile
          · exact hbefore
          · exact hbefore.trans (hhead file hfile)

end Upsert

section Parsed

variable {key : String} {info : TorrentInfo} {t : Torrent} {files : List TaskFile}

/-- `handle_parsed` on one file of the layout. -/
def parseEntry (t : Torrent) (files : List TaskFile) (entry : LayoutFile × Nat) : List TaskFile :=
  if entry.1.pad then files else upsertFile entry.2 (parsedFile t.hex t entry.2 entry.1) files

theorem parsedFiles_eq : parsedFiles t.hex t info files =
    info.files.zipIdx.foldl (parseEntry t) files := rfl

theorem exists_parseEntry {entry : LayoutFile × Nat} {i : Int} :
    (∃ file ∈ parseEntry t files entry, file.fileIndex = i) ↔
      (∃ file ∈ files, file.fileIndex = i) ∨ entry.1.pad = false ∧ i = entry.2 := by
  unfold parseEntry
  cases entry.1.pad with
  | true => simp
  | false =>
      simp only [Bool.false_eq_true, if_false, true_and]
      exact (exists_upsertFile (f := parsedFile t.hex t entry.2 entry.1) fun _ => rfl).trans or_comm

theorem follows_parseEntry (hsized : info.Sized) (hhex : t.hex = key) {entry : LayoutFile × Nat}
    (hlayout : info.files[entry.2]? = some entry.1) (hfollows : Follows key info files) :
    Follows key info (parseEntry t files entry) := by
  have hsize := (hsized entry.1 (List.mem_of_getElem? hlayout)).2
  unfold parseEntry
  cases hpad : entry.1.pad with
  | true => exact hfollows
  | false =>
      simp only [Bool.false_eq_true, if_false]
      refine ⟨increasing_upsertFile (fun _ => rfl) hfollows.increasing, fun file hmem => ?_⟩
      rcases mem_upsertFile hmem with hold | rfl | ⟨old, hold, hindex, rfl⟩
      · exact hfollows.lists file hold
      · exact lists_parsedFile hhex hlayout hpad hsize rfl (fits_new hsize)
      · obtain ⟨j, other, hj, hother, -, -, hfits⟩ := (hfollows.lists old hold).layout
        have hsame : j = entry.2 := by
          rw [hj] at hindex
          exact_mod_cast hindex
        rw [hsame] at hj hother
        obtain rfl := Option.some.inj (hother.symm.trans hlayout)
        exact lists_parsedFile hhex hlayout hpad hsize hj hfits

theorem follows_foldl (hsized : info.Sized) (hhex : t.hex = key) {entries : List (LayoutFile × Nat)}
    (hentries : ∀ entry ∈ entries, info.files[entry.2]? = some entry.1)
    (hfollows : Follows key info files) :
    Follows key info (entries.foldl (parseEntry t) files) := by
  induction entries generalizing files with
  | nil => exact hfollows
  | cons entry entries ih =>
      rw [List.foldl_cons]
      refine ih (fun other hother => hentries other (List.mem_cons_of_mem _ hother)) ?_
      exact follows_parseEntry hsized hhex (hentries entry List.mem_cons_self) hfollows

theorem exists_foldl {entries : List (LayoutFile × Nat)} {i : Int} :
    (∃ file ∈ entries.foldl (parseEntry t) files, file.fileIndex = i) ↔
      (∃ file ∈ files, file.fileIndex = i) ∨ ∃ entry ∈ entries, entry.1.pad = false ∧ i = entry.2 := by
  induction entries generalizing files with
  | nil => simp
  | cons entry entries ih =>
      rw [List.foldl_cons, ih, exists_parseEntry, List.exists_mem_cons_iff, or_assoc]

/-- **What `handle_parsed` leaves**: a list that follows the layout and has every file of it. -/
theorem follows_parsedFiles (hsized : info.Sized) (hhex : t.hex = key)
    (hfollows : Follows key info files) :
    Follows key info (parsedFiles t.hex t info files) ∧
      Complete info (parsedFiles t.hex t info files) := by
  rw [parsedFiles_eq]
  constructor
  · exact follows_foldl hsized hhex (fun entry => List.mem_zipIdx_iff_getElem?.mp) hfollows
  · intro i layout hlayout hpad
    exact exists_foldl.mpr
      (Or.inr ⟨(layout, i), List.mem_zipIdx_iff_getElem?.mpr hlayout, hpad, rfl⟩)

end Parsed

theorem Follows.map {key : String} {info : TorrentInfo} {files : List TaskFile}
    {f : TaskFile → TaskFile} (hfollows : Follows key info files)
    (hindex : ∀ file, (f file).fileIndex = file.fileIndex)
    (hlists : ∀ file, Lists key info file → Lists key info (f file)) :
    Follows key info (files.map f) := by
  constructor
  · rw [List.pairwise_map]
    refine hfollows.increasing.imp fun hless => ?_
    rw [hindex, hindex]
    exact hless
  · intro file hmem
    obtain ⟨old, hold, rfl⟩ := List.mem_map.mp hmem
    exact hlists old (hfollows.lists old hold)

theorem modifyFile_eq_map {index : Int} {f : TaskFile → TaskFile} {files : List TaskFile}
    (hincreasing : files.Pairwise fun file other => file.fileIndex < other.fileIndex) :
    modifyFile index f files =
      files.map fun file => if file.fileIndex = index then f file else file := by
  induction files with
  | nil => rfl
  | cons head rest ih =>
      obtain ⟨hhead, hrest⟩ := List.pairwise_cons.mp hincreasing
      rw [modifyFile, List.map_cons]
      split
      next hindex =>
        have hkept : ∀ file ∈ rest, (if file.fileIndex = index then f file else file) = file := by
          intro file hfile
          have hless := hhead file hfile
          exact if_neg (by omega)
        rw [List.map_congr_left hkept, List.map_id']
      next => rw [ih hrest]

section Rows

variable {key : String} {info : TorrentInfo} {store : Store}

def RowsList (key : String) (info : TorrentInfo) (store : Store) : Prop :=
  ∀ row ∈ store.taskFile, row.taskId = key → Lists key info row

theorem rowsList_saveFile {file : TaskFile} (hrows : RowsList key info store)
    (hlists : file.taskId = key → Lists key info file) : RowsList key info (store.saveFile file) := by
  unfold Store.saveFile
  split
  · intro row hrow hid
    rcases KeyedList.mem_insert.mp hrow with rfl | ⟨hold, -⟩
    · exact (hlists hid).of_eq rfl rfl rfl rfl rfl
    · exact hrows row hold hid
  · split
    · exact hrows
    · intro row hrow hid
      rcases KeyedList.mem_insert.mp hrow with rfl | ⟨hold, -⟩
      · exact (hlists hid).of_eq rfl rfl rfl rfl rfl
      · exact hrows row hold hid

theorem rowsList_saveFiles {files : List TaskFile} (hrows : RowsList key info store)
    (hlists : ∀ file ∈ files, file.taskId = key → Lists key info file) :
    RowsList key info (store.saveFiles files) := by
  have hfold : ∀ (saved : List TaskFile) (s : Store), RowsList key info s →
      (∀ file ∈ saved, file.taskId = key → Lists key info file) →
      RowsList key info (saved.foldl Store.saveFile s) := by
    intro saved
    induction saved with
    | nil => exact fun _ hs _ => hs
    | cons file saved ih =>
        intro s hs hsaved
        refine ih _ (rowsList_saveFile hs (hsaved file List.mem_cons_self)) fun other hother => ?_
        exact hsaved other (List.mem_cons_of_mem _ hother)
  exact hfold _ store hrows fun file hmem => hlists file (List.takeWhile_subset _ hmem)

theorem follows_filesOf (hrows : RowsList key info store) :
    Follows key info (store.filesOf key) := by
  unfold Store.filesOf
  constructor
  · refine KeyedList.pairwise_lt_insertionSort TaskFile.fileIndex ?_
    rw [List.pairwise_filter]
    refine (List.pairwise_map.mp store.taskFile.nodup).imp fun hne hrow hother heq => ?_
    simp only [Bool.and_eq_true, decide_eq_true_eq] at hrow hother
    exact hne (Prod.ext (hrow.1.trans hother.1.symm) heq)
  · intro row hmem
    rw [List.mem_insertionSort, List.mem_filter] at hmem
    simp only [Bool.and_eq_true, decide_eq_true_eq] at hmem
    exact hrows row hmem.1 hmem.2.1

end Rows

end DownloadWrapper
