import DownloadWrapper.Lib.Transition
import DownloadWrapper.Torrent.Engine
import DownloadWrapper.Torrent.FileList

/-!
# The handlings of a file list

Three handlers count what is there of a file: in bytes when the metadata is parsed, in pieces, and as
a whole when the file is complete. In between the list is saved, and read back. Through every sequence
of these the list follows the layout.
-/

namespace DownloadWrapper

open Intervals Transition

/-- One BT task with the database. -/
structure FileState where
  task : Task
  store : Store

/-- The handlings of the file list. What the handle answers is in the torrent, and arbitrary. Where a list is
saved, the database takes as many entries as it says. -/
inductive FileEvent where
  | parsed (env : AcquireEnv) (fs : Fs) (t : Torrent) (taken : Nat)
  | pieceFinished (t : Torrent) (piece : Nat)
  | fileCompleted (fileIndex : Int)
  /-- `TaskFileStore::save`. -/
  | save (taken : Nat)
  /-- The list is read back. -/
  | reload
  /-- `delete_task` marks the task. -/
  | mark

/-- The database after `handle_parsed`, which goes on when the list is not saved or not all of it. -/
def parsedStore (t : Torrent) (task : Task) (taken : Nat) (s : Store) : Store :=
  if task.isDelete then s
  else match t.info with
    | some info => s.saveFiles ((parsedFiles t.hex t info task.files).take taken)
    | none => s

theorem store_parsedWorld (env : AcquireEnv) (t : Torrent) (task : Task) (w : World) {taken : Nat}
    (htaken : ∀ info, t.info = some info → (parsedFiles t.hex t info task.files).length ≤ taken) :
    (parsedWorld env t task w).store = parsedStore t task taken w.store := by
  unfold parsedWorld parsedStore
  split
  · rfl
  · cases hinfo : t.info with
    | none => simp only; split <;> rfl
    | some info =>
        simp only [List.take_of_length_le (htaken info hinfo)]
        split <;> rfl

namespace FileState

variable {key : String} {info : TorrentInfo}

def step (key : String) (s : FileState) : FileEvent → Option FileState
  | .parsed env fs t taken =>
      some { task := parsedTask env fs t s.task, store := parsedStore t s.task taken s.store }
  | .pieceFinished t piece => some { s with task := pieceTask t piece s.task }
  | .fileCompleted fileIndex => some { s with task := completeFileTask fileIndex s.task }
  | .save taken => some { s with store := s.store.saveFiles (s.task.files.take taken) }
  | .reload => some { s with task := { s.task with files := s.store.filesOf key } }
  | .mark => some { s with task := TorrentEngine.deletedTask s.task }

def Handles (key : String) (info : TorrentInfo) (t : Torrent) : Prop :=
  t.hex = key ∧ ∀ info' ∈ t.info, info' = info

instance (t : Torrent) : Decidable (Handles key info t) := inferInstanceAs (Decidable (_ ∧ _))

def OfTorrent (key : String) (info : TorrentInfo) (_ : FileState) : FileEvent → Prop
  | .parsed _ _ t _ => Handles key info t
  | .pieceFinished t _ => Handles key info t
  | _ => True

instance (s : FileState) (event : FileEvent) : Decidable (OfTorrent key info s event) :=
  match event with
  | .parsed _ _ t _ => inferInstanceAs (Decidable (Handles key info t))
  | .pieceFinished t _ => inferInstanceAs (Decidable (Handles key info t))
  | .fileCompleted _ | .save _ | .reload | .mark => isTrue trivial

structure Fitting (key : String) (info : TorrentInfo) (s : FileState) : Prop where
  files : Follows key info s.task.files
  rows : RowsList key info s.store

theorem files_parsedTask (env : AcquireEnv) (fs : Fs) (t : Torrent) (task : Task) :
    (parsedTask env fs t task).files =
      if task.isDelete then task.files
      else match t.info with
        | some info => parsedFiles t.hex t info task.files
        | none => task.files := by
  unfold parsedTask
  split
  · rfl
  · cases t.info <;> simp only <;> split <;> rfl

theorem files_pieceTask (t : Torrent) (piece : Nat) (task : Task) :
    (pieceTask t piece task).files = task.files ∨
      ∃ info', t.info = some info' ∧ 0 < info'.pieceLength ∧
        (pieceTask t piece task).files = task.files.map fun file =>
          if pending t info' piece file then recount t info' file else file := by
  unfold pieceTask
  cases hinfo : t.info with
  | none => exact Or.inl rfl
  | some info' =>
      simp only
      split
      · exact Or.inl rfl
      next hchecked =>
        rw [not_or] at hchecked
        exact Or.inr ⟨info', rfl, not_le.mp hchecked.1, rfl⟩

theorem follows_pieceTask {t : Torrent} {piece : Nat} {task : Task} (hsized : info.Sized)
    (hhandles : Handles key info t) (hfollows : Follows key info task.files) :
    Follows key info (pieceTask t piece task).files := by
  rcases files_pieceTask t piece task with hsame | ⟨info', hinfo, hlength, hmap⟩
  · rw [hsame]
    exact hfollows
  · obtain rfl := hhandles.2 info' hinfo
    rw [hmap]
    refine hfollows.map (fun file => ?_) fun file hlists => ?_
    · split
      · unfold recount
        split
        · rfl
        · split <;> rfl
      · rfl
    · split
      · exact lists_recount hsized hlength hlists
      · exact hlists

theorem follows_completeFileTask {fileIndex : Int} {task : Task} (hsized : info.Sized)
    (hfollows : Follows key info task.files) :
    Follows key info (completeFileTask fileIndex task).files := by
  unfold completeFileTask
  split
  · simp only [modifyFile_eq_map hfollows.increasing]
    refine hfollows.map (fun file => ?_) fun file hlists => ?_
    · split <;> rfl
    · split
      · exact lists_completedFile hsized hlists
      · exact hlists
  · exact hfollows

theorem Fitting.step {s s' : FileState} {event : FileEvent} (hsized : info.Sized)
    (hfitting : Fitting key info s) (hof : OfTorrent key info s event)
    (hstep : s.step key event = some s') : Fitting key info s' := by
  cases event with
  | parsed env fs t taken =>
      obtain rfl := Option.some.inj hstep
      constructor
      · simp only [files_parsedTask]
        split
        · exact hfitting.files
        · cases hinfo : t.info with
          | none => exact hfitting.files
          | some info' =>
              obtain rfl := hof.2 info' hinfo
              exact (follows_parsedFiles hsized hof.1 hfitting.files).1
      · simp only [parsedStore]
        split
        · exact hfitting.rows
        · cases hinfo : t.info with
          | none => exact hfitting.rows
          | some info' =>
              obtain rfl := hof.2 info' hinfo
              refine rowsList_saveFiles hfitting.rows fun file hmem _ => ?_
              exact (follows_parsedFiles hsized hof.1 hfitting.files).1.lists file (List.mem_of_mem_take hmem)
  | pieceFinished t piece =>
      obtain rfl := Option.some.inj hstep
      exact ⟨follows_pieceTask hsized hof hfitting.files, hfitting.rows⟩
  | fileCompleted fileIndex =>
      obtain rfl := Option.some.inj hstep
      exact ⟨follows_completeFileTask hsized hfitting.files, hfitting.rows⟩
  | save taken =>
      obtain rfl := Option.some.inj hstep
      refine ⟨hfitting.files, rowsList_saveFiles hfitting.rows fun file hmem _ => ?_⟩
      exact hfitting.files.lists file (List.mem_of_mem_take hmem)
  | reload =>
      obtain rfl := Option.some.inj hstep
      exact ⟨follows_filesOf hfitting.rows, hfitting.rows⟩
  | mark =>
      obtain rfl := Option.some.inj hstep
      exact ⟨hfitting.files, hfitting.rows⟩

/-- **The file list of a BT task.** A task without files, and none saved, goes through any sequence of
handlings, saves and reloads, and its torrent has the layout `info`. Its list is strictly increasing;
every entry has no more done than there is, and intervals of its file that keep apart and are no
longer than what is done; and behind a `handle_parsed` that sees the metadata of a task which is not
deleted, every file of the layout has one entry, and a pad file none. -/
theorem fitting_of_reaches {s₀ s : FileState} (hsized : info.Sized) (hfiles : s₀.task.files = [])
    (hrows : ∀ row ∈ s₀.store.taskFile, row.taskId ≠ key)
    (hrun : Reaches (FileState.step key) (OfTorrent key info) s₀ s) :
    (s.task.files.Pairwise fun file other => file.fileIndex < other.fileIndex) ∧
      (∀ file ∈ s.task.files, (0 ≤ file.totalDone ∧ file.totalDone ≤ file.totalSize) ∧
        Spaced 0 (file.totalSize - 1) file.segments ∧ total file.segments ≤ file.totalDone) ∧
      ∀ env fs t taken s', Handles key info t → t.info = some info → s.task.isDelete = false →
        s.step key (.parsed env fs t taken) = some s' →
          ∀ (i : Nat) (layout : LayoutFile), info.files[i]? = some layout →
            (s'.task.files.countP fun file => file.fileIndex = (i : Int)) =
              if layout.pad then 0 else 1 := by
  have hstart : Fitting key info s₀ := by
    refine ⟨?_, fun row hrow hid => absurd hid (hrows row hrow)⟩
    rw [hfiles]
    exact ⟨List.Pairwise.nil, fun file hmem => absurd hmem List.not_mem_nil⟩
  have hfitting : Fitting key info s :=
    hrun.invariant (fun _ _ _ hinv hof hstep => hinv.step hsized hof hstep) hstart
  refine ⟨hfitting.files.increasing, fun file hmem => ?_, ?_⟩
  · have hfits := (hfitting.files.lists file hmem).fits
    exact ⟨hfits.done, hfits.apart, hfits.total⟩
  · intro env fs t taken s' hhandles hinfo hlive hstep i layout hlayout
    obtain rfl := Option.some.inj hstep
    obtain ⟨hfollows, hcomplete⟩ := follows_parsedFiles hsized hhandles.1 hfitting.files
    simp only [files_parsedTask, hlive, hinfo, Bool.false_eq_true, if_false]
    exact hfollows.countP hcomplete hlayout

def paddedInfo : TorrentInfo where
  files := [{ path := "a", offset := 0, size := 10 }, { path := "p", offset := 10, size := 6, pad := true },
    { path := "b", offset := 16, size := 20 }]
  pieceLength := 16
  numPieces := 3

def paddedTorrent : Torrent where
  id := 0
  v1 := some "h"
  info := some paddedInfo
  fileProgress := [4, 0, 0]
  pieceProgress := [10, 0, 16]
  pieces := [true, true, false]

theorem sized_paddedInfo : paddedInfo.Sized := by
  unfold TorrentInfo.Sized
  decide

/-- The metadata comes and half the list is saved, two pieces are finished, the list is saved and read back. -/
theorem fitting_of_reaches_padded :
    ∃ s : FileState,
      (s.task.files.map fun file => (file.fileIndex, file.totalDone, file.segments)) =
          [(0, 10, [(0, 9)]), (2, 16, [(0, 15)])] ∧
        s.task.files.Pairwise fun file other => file.fileIndex < other.fileIndex := by
  have hrun : ((play (FileState.step "h") (OfTorrent "h" paddedInfo) ⟨{ taskId := "h" }, {}⟩
      [.parsed {} (fun _ => none) paddedTorrent 1, .pieceFinished paddedTorrent 0,
        .pieceFinished paddedTorrent 1, .save 2, .reload]).map fun s =>
          s.task.files.map fun file => (file.fileIndex, file.totalDone, file.segments)) =
      some [(0, 10, [(0, 9)]), (2, 16, [(0, 15)])] := by
    decide +kernel
  obtain ⟨s, hplay, hlist⟩ := Option.map_eq_some_iff.mp hrun
  exact ⟨s, hlist, (fitting_of_reaches sized_paddedInfo rfl (fun row hrow => absurd hrow List.not_mem_nil)
    (reaches_of_play hplay)).1⟩

end FileState

end DownloadWrapper
