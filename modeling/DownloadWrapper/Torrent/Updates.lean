import DownloadWrapper.Store.Rows
import DownloadWrapper.Torrent.Alerts

/-!
# What alerts change

An alert loads the task it is about, if need be, and updates it; it touches no other task, no HTTP
task, and no row of the tasks table. So what is to hold of a task across alerts is checked update by
update.
-/

namespace DownloadWrapper

section Update

variable {change : Task → Task → Prop} {store : Store} {key : String} {registry : Registry}

theorem evolves_loadTask : registry.Evolves Eq (LoadedFrom store) (loadTask store key registry) := by
  rw [loadTask]
  split
  · exact .refl Eq.refl registry
  next hfind =>
    split
    · exact .refl Eq.refl registry
    next row hrow =>
      have hkey := taskId_of_findByTaskId hrow
      obtain ⟨-, stored, hmem, hstored, hdelete, rfl⟩ := Store.findByTaskId_eq_some_iff.mp hrow
      refine KeyedList.evolves_insert Eq.refl ?_ ?_
      · exact ⟨stored, _, _, Store.visible_eq_some_iff.mpr ⟨hmem, rfl, hdelete⟩, rfl⟩
      · rw [← hkey] at hfind
        exact hfind

theorem evolves_loadTask_of_refl (hrefl : ∀ task, change task task) :
    registry.Evolves change (LoadedFrom store) (loadTask store key registry) :=
  evolves_loadTask.mono (fun task _ h => h ▸ hrefl task) fun _ => id

/-- A load before and a load after the rows changed: the second finds only what the first did not. -/
theorem evolves_loadTask_twice {store' : Store} :
    registry.Evolves Eq
      (fun task => LoadedFrom store task ∨
        store.visible task.taskId = none ∧ LoadedFrom store' task)
      (loadTask store' key (loadTask store key registry)) := by
  have hfirst : registry.Evolves Eq (LoadedFrom store) (loadTask store key registry) :=
    evolves_loadTask
  cases hmid : (loadTask store key registry).find? key with
  | some task =>
      rw [loadTask_of_find? hmid]
      exact hfirst.mono (fun _ _ => id) fun _ => Or.inl
  | none =>
      rw [find?_loadTask_self, Option.or_eq_none_iff, Option.map_eq_none_iff] at hmid
      have hsame : loadTask store key registry = registry := by
        rw [loadTask, hmid.1, hmid.2]
      rw [hsame]
      intro k
      by_cases hk : k = key
      · rw [hk, hmid.1, find?_loadTask_self, hmid.1, Option.none_or]
        cases hrow : store'.findByTaskId key false with
        | none => exact .absent
        | some row =>
            obtain ⟨hkey, stored, hmem, hstored, hdelete, rfl⟩ :=
              Store.findByTaskId_eq_some_iff.mp hrow
            rw [Store.findByTaskId_eq_visible hkey, Option.map_eq_none_iff] at hmid
            refine .entered (Or.inr ⟨?_, stored, _, _, ?_, rfl⟩) rfl
            · exact hstored ▸ hmid.2
            · exact Store.visible_eq_some_iff.mpr ⟨hmem, rfl, hdelete⟩
      · rw [find?_loadTask_of_ne hk]
        exact KeyedList.Evolves.refl Eq.refl registry k

theorem evolves_updateTorrentTask {f : Task → Task} (hf : ∀ task, (f task).taskId = task.taskId)
    (hrefl : ∀ task, change task task)
    (hchange : ∀ task, (loadTask store key registry).find? key = some task →
      task.taskProtocol = .torrent → change task (f task)) :
    registry.Evolves change (LoadedFrom store) (updateTorrentTask store key f hf registry) := by
  refine evolves_loadTask.comp (KeyedList.evolves_modify _ _ hrefl fun task hfind => ?_)
    (fun _ _ _ heq h => heq ▸ h) fun _ _ => id
  split
  next hprotocol => exact hchange task hfind hprotocol
  next => exact hrefl task

end Update

/-! ### One alert -/

/-- The torrent `handle_parsed` is called for, if the alert leads to it. -/
def Alert.parsed (session : Session) : Alert → Option Nat
  | .addTorrent id _ _ none => if hasMetadata session id then some id else none
  | .metadataReceived id => some id
  | .storageMoved id => some id
  | _ => none

/-- A relation between a task before and after that no update of an alert breaks, `handle_parsed`
aside. -/
structure RespectsAlerts (change : Task → Task → Prop) : Prop where
  refl : ∀ task, change task task
  trans : ∀ task task' task'', change task task' → change task' task'' → change task task''
  failed : ∀ code task, task.taskProtocol = .torrent → change task (failTask code task)
  progress : ∀ status task, task.taskProtocol = .torrent → change task (progressTask status task)
  finished : ∀ task, task.taskProtocol = .torrent → change task (finishTask task)
  conflict : ∀ task, task.taskProtocol = .torrent → change task (conflictTask task)
  unwrapped : ∀ task, task.taskProtocol = .torrent → change task (clearWrapper task)
  linked : ∀ magnet task, task.taskProtocol = .torrent → change task (linkTask magnet task)
  file : ∀ index task, task.taskProtocol = .torrent → change task (completeFileTask index task)
  piece : ∀ t index task, task.taskProtocol = .torrent → change task (pieceTask t index task)

section Alerts

variable {change : Task → Task → Prop} {env : AcquireEnv} {registry : Registry} {w : World}

theorem RespectsAlerts.handleTaskError (h : RespectsAlerts change) (store : Store) (infoHash : String)
    (error : Option ErrorCode) (registry : Registry) :
    registry.Evolves change (LoadedFrom store)
      (handleTaskError store infoHash error registry) := by
  cases error with
  | none => exact .refl h.refl registry
  | some code =>
      simp only [DownloadWrapper.handleTaskError]
      split
      · exact .refl h.refl registry
      · exact evolves_updateTorrentTask (f := failTask code) (fun _ => rfl) h.refl
          fun task _ => h.failed code task

theorem RespectsAlerts.applyStatus (h : RespectsAlerts change) (registry : Registry)
    (s : TorrentStatus) :
    registry.Evolves change (LoadedFrom w.store) (applyStatus w registry s) := by
  rw [DownloadWrapper.applyStatus]
  split
  next code _ =>
    exact (evolves_loadTask_of_refl h.refl).trans h.trans
      (h.handleTaskError w.store _ (some code) _)
  next =>
    exact evolves_updateTorrentTask (f := progressTask s) (fun _ => rfl) h.refl
      fun task _ => h.progress s task

theorem sameRows_parsedWorld (t : Torrent) (task : Task) :
    SameRows w.store (parsedWorld env t task w).store := by
  simp only [parsedWorld]
  split
  · exact .refl _
  cases t.info with
  | none => simp only; split <;> exact .refl _
  | some info => simp only; split <;> exact w.store.sameRows_saveFiles _

theorem sameRows_handleParsed (id : Nat) :
    SameRows w.store (handleParsed env id registry w).2.store := by
  rw [handleParsed]
  split
  · exact .refl _
  split
  · exact .refl _
  simp only
  split
  · exact .refl _
  · exact sameRows_parsedWorld _ _

theorem RespectsAlerts.handleParsed (h : RespectsAlerts change) {id : Nat}
    (hparsed : ∀ t task, w.session.torrent? id = some t →
      (loadTask w.store t.hex registry).find? t.hex = some task → task.taskProtocol = .torrent →
      change task (parsedTask env w.fs t task)) :
    registry.Evolves change (LoadedFrom w.store)
      (DownloadWrapper.handleParsed env id registry w).1 := by
  rw [DownloadWrapper.handleParsed]
  split
  · exact .refl h.refl registry
  next t ht =>
    split
    · exact .refl h.refl registry
    · exact evolves_updateTorrentTask (parsedTask_taskId env w.fs t) h.refl fun task =>
        hparsed t task ht

/-- **What an alert does to the tasks**: nothing a relation its updates respect would not allow. -/
theorem RespectsAlerts.handleAlert (h : RespectsAlerts change) {alert : Alert}
    (hparsed : ∀ id t task, alert.parsed w.session = some id → w.session.torrent? id = some t →
      (loadTask w.store t.hex registry).find? t.hex = some task → task.taskProtocol = .torrent →
      change task (parsedTask env w.fs t task)) :
    registry.Evolves change (LoadedFrom w.store) (handleAlert env alert registry w).1 := by
  cases alert with
  | stateUpdate statuses =>
      simp only [DownloadWrapper.handleAlert]
      clear hparsed
      induction statuses generalizing registry with
      | nil => exact .refl h.refl registry
      | cons s statuses ih => exact (h.applyStatus registry s).trans h.trans ih
  | torrentFinished id =>
      exact evolves_updateTorrentTask (f := finishTask) (fun _ => rfl) h.refl
        fun task _ => h.finished task
  | addTorrent id infoHash magnet error =>
      cases error with
      | some code => exact h.handleTaskError _ _ _ _
      | none =>
          simp only [DownloadWrapper.handleAlert]
          split
          next hmeta =>
            have hfirst := @RespectsAlerts.handleParsed _ env registry w h id fun t task =>
              hparsed id t task (by simp [Alert.parsed, hmeta])
            have hrows := @sameRows_handleParsed env registry w id
            refine hfirst.trans h.trans ((evolves_updateTorrentTask (linkTask_taskId magnet) h.refl
              fun task _ => h.linked magnet task).mono (fun _ _ hsame => hsame) fun _ => .of_sameRows_right hrows)
          next => exact .refl h.refl registry
  | metadataReceived id => exact h.handleParsed fun t task => hparsed id t task rfl
  | pieceFinished id piece =>
      simp only [DownloadWrapper.handleAlert]
      split
      · exact .refl h.refl registry
      next t _ =>
        split
        · exact .refl h.refl registry
        · exact evolves_updateTorrentTask (pieceTask_taskId t piece) h.refl fun task _ =>
            h.piece t piece task
  | fileCompleted id index =>
      simp only [DownloadWrapper.handleAlert]
      split
      · exact .refl h.refl registry
      · exact evolves_updateTorrentTask (completeFileTask_taskId index) h.refl fun task _ =>
          h.file index task
  | torrentError id error => exact h.handleTaskError _ _ _ _
  | fileError id error => exact h.handleTaskError _ _ _ _
  | torrentConflict id =>
      exact evolves_updateTorrentTask (f := conflictTask) (fun _ => rfl) h.refl
        fun task _ => h.conflict task
  | storageMovedFailed id error =>
      exact (evolves_updateTorrentTask (f := clearWrapper) (fun _ => rfl) h.refl
        fun task _ => h.unwrapped task).trans h.trans (h.handleTaskError _ _ _ _)
  | saveResumeData id data =>
      simp only [DownloadWrapper.handleAlert]
      split
      · split <;> exact evolves_loadTask_of_refl h.refl
      · exact .refl h.refl registry
  | storageMoved id => exact h.handleParsed fun t task => hparsed id t task rfl
  | logged => exact .refl h.refl registry

theorem sameRows_handleAlert (alert : Alert) :
    SameRows w.store (handleAlert env alert registry w).2.store := by
  cases alert with
  | addTorrent id infoHash magnet error =>
      cases error with
      | some code => exact .refl _
      | none =>
          simp only [handleAlert]
          split
          · exact sameRows_handleParsed id
          · exact .refl _
  | metadataReceived id => exact sameRows_handleParsed id
  | storageMoved id => exact sameRows_handleParsed id
  | pieceFinished id piece =>
      simp only [handleAlert]
      split
      · exact .refl _
      · split <;> exact .refl _
  | fileCompleted id index =>
      simp only [handleAlert]
      split <;> exact .refl _
  | saveResumeData id data =>
      simp only [handleAlert]
      split
      · split
        · simp only
          split
          · exact .refl _
          · exact w.store.sameRows_saveBtResume _
        · exact .refl _
      · exact .refl _
  | _ => exact .refl _

theorem world_parsedWorld (t : Torrent) (task : Task) :
    ∃ store fs, parsedWorld env t task w = { w with store := store, fs := fs } := by
  simp only [parsedWorld]
  split
  · exact ⟨w.store, w.fs, rfl⟩
  cases t.info <;> simp only <;> split <;> exact ⟨_, _, rfl⟩

theorem world_handleParsed (id : Nat) :
    ∃ store fs, (handleParsed env id registry w).2 = { w with store := store, fs := fs } := by
  rw [handleParsed]
  split
  · exact ⟨w.store, w.fs, rfl⟩
  split
  · exact ⟨w.store, w.fs, rfl⟩
  simp only
  split
  · exact ⟨w.store, w.fs, rfl⟩
  · exact world_parsedWorld _ _

theorem world_handleAlert (alert : Alert) :
    ∃ store fs, (handleAlert env alert registry w).2 = { w with store := store, fs := fs } := by
  cases alert with
  | addTorrent id infoHash magnet error =>
      cases error with
      | some code => exact ⟨w.store, w.fs, rfl⟩
      | none =>
          simp only [handleAlert]
          split
          · exact world_handleParsed id
          · exact ⟨w.store, w.fs, rfl⟩
  | metadataReceived id => exact world_handleParsed id
  | storageMoved id => exact world_handleParsed id
  | pieceFinished id piece =>
      simp only [handleAlert]
      split
      · exact ⟨w.store, w.fs, rfl⟩
      · split <;> exact ⟨w.store, w.fs, rfl⟩
  | fileCompleted id index =>
      simp only [handleAlert]
      split <;> exact ⟨w.store, w.fs, rfl⟩
  | saveResumeData id data =>
      simp only [handleAlert]
      split
      · split
        · simp only
          split
          · exact ⟨w.store, w.fs, rfl⟩
          · exact ⟨_, w.fs, rfl⟩
        · exact ⟨w.store, w.fs, rfl⟩
      · exact ⟨w.store, w.fs, rfl⟩
  | _ => exact ⟨w.store, w.fs, rfl⟩

theorem contexts_handleAlert (alert : Alert) :
    (handleAlert env alert registry w).2.contexts = w.contexts := by
  obtain ⟨store, fs, heq⟩ := @world_handleAlert env registry w alert
  rw [heq]

end Alerts

end DownloadWrapper
