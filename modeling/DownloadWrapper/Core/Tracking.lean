import DownloadWrapper.Core.Rooted

/-!
# Torrents along a step

What a torrent is, its hashes and its metadata, is libtorrent's: the program puts torrents into the
session, takes them out and changes what it asks of them, and nothing else. A number once given to a
torrent is given to no other.
-/

namespace DownloadWrapper

structure SameTorrent (t t' : Torrent) : Prop where
  id : t'.id = t.id
  v1 : t'.v1 = t.v1
  v2 : t'.v2 = t.v2
  info : t'.info = t.info

structure Tracks (w w' : World) : Prop where
  next : w.nextTorrent ≤ w'.nextTorrent
  old : ∀ t' ∈ w'.session, t'.id < w.nextTorrent → ∃ t ∈ w.session, SameTorrent t t'

namespace Tracks

variable {w w' w'' : World}

theorem of_eq (hsession : w'.session = w.session) (hnext : w'.nextTorrent = w.nextTorrent) :
    Tracks w w' := by
  refine ⟨hnext.ge, fun t ht _ => ⟨t, hsession ▸ ht, ?_⟩⟩
  exact ⟨rfl, rfl, rfl, rfl⟩

theorem refl (w : World) : Tracks w w := .of_eq rfl rfl

theorem trans (h : Tracks w w') (h' : Tracks w' w'') : Tracks w w'' := by
  refine ⟨h.next.trans h'.next, fun t'' ht'' hlt => ?_⟩
  obtain ⟨t', ht', hsame'⟩ := h'.old t'' ht'' (hlt.trans_le h.next)
  obtain ⟨t, ht, hsame⟩ := h.old t' ht' (hsame'.id ▸ hlt)
  exact ⟨t, ht, hsame'.id.trans hsame.id, hsame'.v1.trans hsame.v1, hsame'.v2.trans hsame.v2,
    hsame'.info.trans hsame.info⟩

theorem modify {id : Nat} {f : Torrent → Torrent} (hf : ∀ t, SameTorrent t (f t)) :
    Tracks w { w with session := w.session.modify id f } := by
  refine ⟨le_rfl, fun t' ht' _ => ?_⟩
  obtain ⟨t, ht, rfl⟩ := List.mem_map.mp ht'
  refine ⟨t, ht, ?_⟩
  split
  · exact hf t
  · exact ⟨rfl, rfl, rfl, rfl⟩

theorem filter (p : Torrent → Bool) : Tracks w { w with session := w.session.filter p } := by
  refine ⟨le_rfl, fun t ht _ => ⟨t, (List.mem_filter.mp ht).1, ?_⟩⟩
  exact ⟨rfl, rfl, rfl, rfl⟩

end Tracks

namespace TorrentEngine

theorem tracks_addFirst (env : TorrentEnv) (sources : List AddSource) (w : World) :
    Tracks w (addFirst env sources w).2 := by
  induction sources generalizing w with
  | nil => exact .refl w
  | cons source sources ih =>
      simp only [addFirst, addTorrent]
      cases env.rebuilt source with
      | none => exact ih w
      | some t =>
          refine ⟨Nat.le_succ _, fun t' ht' hlt => ?_⟩
          rcases List.mem_append.mp ht' with hold | hnew
          · exact ⟨t', hold, rfl, rfl, rfl, rfl⟩
          · rw [List.mem_singleton.mp hnew] at hlt
            exact absurd hlt (lt_irrefl _)

theorem tracks_findHandle (env : TorrentEnv) (infoHash : String) (allowRebuild : Bool) (w : World) :
    Tracks w (findHandle env infoHash allowRebuild w).2 := by
  unfold findHandle
  split
  · exact .refl w
  split
  · exact .refl w
  split
  · exact tracks_addFirst env _ w
  · exact .refl w

theorem sameTorrent_setPriorities (priorities : List (Int × Int)) (t : Torrent) :
    SameTorrent t (setPriorities priorities t) := by
  unfold setPriorities
  split <;> exact ⟨rfl, rfl, rfl, rfl⟩

theorem tracks_pauseHandle (env : TorrentEnv) (params : TaskParams) (w : World) :
    Tracks w (pauseHandle env params w).2 := by
  have hfind := tracks_findHandle env params.taskKey true w
  unfold pauseHandle
  rcases hout : findHandle env params.taskKey true w with ⟨_ | t, w'⟩ <;> rw [hout] at hfind
  · exact hfind
  · simp only
    split
    · exact hfind
    · exact hfind.trans (.modify fun t => ⟨rfl, rfl, rfl, rfl⟩)

theorem tracks_doResume (cfg : ManagerConfig) (env : TorrentEnv) (params : TaskParams) (w : World) :
    Tracks w (doResume cfg env params w).2 := by
  have hfind := tracks_findHandle env params.taskKey true w
  unfold doResume
  rcases hout : findHandle env params.taskKey true w with ⟨_ | t, w'⟩ <;> rw [hout] at hfind
  · exact hfind
  · cases env.throws with
    | some message => exact hfind
    | none =>
        refine hfind.trans (.modify fun t => ?_)
        have hsame := sameTorrent_setPriorities params.filePriorities t
        exact ⟨hsame.id, hsame.v1, hsame.v2, hsame.info⟩

theorem tracks_pauseTask (env : TorrentEnv) (params : TaskParams) (registry : Registry) (w : World) :
    Tracks w (pauseTask env params registry w).2.2 := by
  have hpause := tracks_pauseHandle env params w
  unfold pauseTask
  rcases hout : pauseHandle env params w with ⟨result, w'⟩
  rw [hout] at hpause
  simp only
  split <;> exact hpause

theorem tracks_deleteTask (env : TorrentEnv) (params : TaskParams) (registry : Registry) (w : World) :
    Tracks w (deleteTask env params registry w).2.2 := by
  have hfind := tracks_findHandle env params.taskKey params.deleteFiles w
  simp only [deleteTask]
  split
  · exact .refl w
  rcases hout : findHandle env params.taskKey params.deleteFiles w with ⟨_ | t, w'⟩ <;>
    rw [hout] at hfind <;> simp only <;> split
  · exact hfind
  · exact hfind
  · exact hfind
  · exact hfind.trans (.filter _)

theorem tracks_buildHandle (cfg : ManagerConfig) (env : TorrentEnv) (now : Int) (infoHash : String)
    (registry : Registry) (w : World) :
    Tracks w (buildHandle cfg env now infoHash registry w).2.2 := by
  have hfind := tracks_findHandle env infoHash true w
  unfold buildHandle
  cases env.throws with
  | some message => exact hfind
  | none =>
      rcases hout : findHandle env infoHash true w with ⟨_ | t, w'⟩ <;> rw [hout] at hfind
      · exact hfind
      · exact hfind.trans (.modify fun t => ⟨rfl, rfl, rfl, rfl⟩)

theorem tracks_addTask (cfg : ManagerConfig) (env : TorrentEnv) (now : Int) (params : TaskParams)
    (registry : Registry) (w : World) : Tracks w (addTask cfg env now params registry w).2.2 := by
  simp only [addTask]
  split
  · exact .refl w
  split_ifs
  · exact .refl w
  · exact .refl w
  · exact .refl w
  split
  · exact .refl w
  next infoHash name _ _ _ _ store _ =>
    have hstored : Tracks w { w with store := store } := .of_eq rfl rfl
    exact hstored.trans (tracks_buildHandle ..)

theorem tracks_sweep (cfg : ManagerConfig) (registry : Registry) (w : World) :
    Tracks w (sweep cfg registry w).2 := by
  have hfold : ∀ (limit : ℚ) (session : List Torrent) (state : Registry × World),
      Tracks state.2 (session.foldl (sweepOne limit) state).2 := by
    intro limit session
    induction session with
    | nil => exact fun state => .refl state.2
    | cons t session ih =>
        intro state
        have hone : Tracks state.2 (sweepOne limit state t).2 := by
          simp only [sweepOne]
          split
          · exact .filter _
          · exact .refl _
        exact hone.trans (ih (sweepOne limit state t))
  exact hfold _ w.session (registry, w)

end TorrentEngine

namespace HttpEngine

theorem tracks_startDownload (cfg : ManagerConfig) (env : DownloadEnv) (now : Int)
    (params : TaskParams) (archive : Option Archive) (replaceRecord : Bool) (registry : Registry)
    (w : World) :
    Tracks w (startDownload cfg env now params archive replaceRecord registry w).2.2 := by
  have hstarted := started_startDownload cfg env now params archive replaceRecord registry w
  rcases hout : startDownload cfg env now params archive replaceRecord registry w with
    ⟨result, registry', w'⟩
  rw [hout] at hstarted
  simp only at hstarted ⊢
  cases hstarted <;> exact .of_eq rfl rfl

theorem tracks_doResume (cfg : ManagerConfig) (env : DownloadEnv) (now : Int) (params : TaskParams)
    (registry : Registry) (w : World) : Tracks w (doResume cfg env now params registry w).2 := by
  simp only [doResume]
  split_ifs
  · exact .refl w
  · exact .refl w
  split
  · exact .refl w
  split_ifs
  · exact .refl w
  · exact tracks_startDownload ..

theorem tracks_pauseTask (params : TaskParams) (w : World) : Tracks w (pauseTask params w).2 := by
  simp only [pauseTask]
  split <;> exact .of_eq rfl rfl

theorem tracks_deleteTask (params : TaskParams) (w : World) : Tracks w (deleteTask params w).2 := by
  simp only [deleteTask]
  split <;> exact .of_eq rfl rfl

theorem tracks_stepWorker {cfg : HttpConfig} {now : Int} {url : String} {event : Event}
    {w w' : World} (hstep : stepWorker cfg now url event w = some w') : Tracks w w' := by
  simp only [stepWorker] at hstep
  split at hstep
  · simp at hstep
  split at hstep
  · simp at hstep
  · rw [← Option.some.inj hstep]
    exact .of_eq rfl rfl

end HttpEngine

namespace Hub

variable {h h' : Hub}

theorem tracks_addTask (params : TaskParams) (http : DownloadEnv) (bt : TorrentEnv) (now : Int) :
    Tracks h.world (h.addTask params http bt now).2.world := by
  simp only [addTask, put]
  split
  · exact HttpEngine.tracks_startDownload ..
  · exact TorrentEngine.tracks_addTask ..

theorem tracks_pauseTask (params : TaskParams) (bt : TorrentEnv) :
    Tracks h.world (h.pauseTask params bt).2.world := by
  simp only [pauseTask, put]
  split
  · exact HttpEngine.tracks_pauseTask params h.world
  · exact TorrentEngine.tracks_pauseTask ..

theorem tracks_deleteTask (params : TaskParams) (bt : TorrentEnv) :
    Tracks h.world (h.deleteTask params bt).2.world := by
  simp only [deleteTask, put]
  split
  · exact HttpEngine.tracks_deleteTask params h.world
  · exact TorrentEngine.tracks_deleteTask ..

theorem tracks_pauseAnswer {http : DownloadEnv} {bt : TorrentEnv} {now : Int} {task : Task}
    {result : SubmitResult} {w : World}
    (hcall : AnswersPause h.cfg (engines h.cfg http bt now) ⟨h.registry, h.world, []⟩ task result w) :
    Tracks h.world w := by
  rcases answersPause hcall with ⟨-, hanswer⟩ | ⟨-, hanswer⟩
  · have hpause := HttpEngine.tracks_pauseTask (paramsOf h.cfg task) h.world
    rwa [hanswer] at hpause
  · have hpause := TorrentEngine.tracks_pauseHandle bt (paramsOf h.cfg task) h.world
    rwa [hanswer] at hpause

theorem tracks_resumeAnswer {http : DownloadEnv} {bt : TorrentEnv} {now : Int} {task : Task}
    {result : SubmitResult} {w : World}
    (hcall : AnswersResume h.cfg (engines h.cfg http bt now) ⟨h.registry, h.world, []⟩ task result
      w) : Tracks h.world w := by
  obtain ⟨engine, hengine, hanswer⟩ := hcall
  simp only [engines, Engines.engineOf] at hengine
  split at hengine <;> obtain rfl := Option.some.inj hengine <;> simp only at hanswer
  · have hresume := HttpEngine.tracks_doResume h.cfg http now
      { paramsOf h.cfg task with filePriorities := task.priorityFileIndexes } h.registry h.world
    rwa [hanswer] at hresume
  · have hresume := TorrentEngine.tracks_doResume h.cfg bt
      { paramsOf h.cfg task with filePriorities := task.priorityFileIndexes } h.world
    rwa [hanswer] at hresume

theorem tracks_admission (http : DownloadEnv) (bt : TorrentEnv) (now : Int) :
    Tracks h.world (h.admission http bt now).world := by
  rcases h.answers_admission http bt now with hsame | ⟨task, result, hcall | hcall⟩
  · rw [hsame]
    exact .refl _
  · exact tracks_pauseAnswer hcall
  · exact tracks_resumeAnswer hcall

/-- **Only libtorrent changes what a torrent is**, as long as the process lives. -/
theorem tracks_step {event : HubEvent} (hstep : h.step event = some h')
    (hrestart : ∀ now, event ≠ .restart now)
    (hlibtorrent : ∀ session posted, event ≠ .libtorrent session posted) :
    Tracks h.world h'.world := by
  cases stepped_of_step hstep with
  | add hfree hjoined => exact tracks_addTask ..
  | pause => exact tracks_pauseTask ..
  | resume hfree =>
      rw [world_resumeTask]
      exact .refl _
  | delete => exact tracks_deleteTask ..
  | schedule hfree =>
      simp only [schedule]
      split <;> exact .refl _
  | admission hadmitting hjoined => exact tracks_admission ..
  | pauseNext hnext => exact tracks_pauseTask ..
  | sweepTorrent hfree => exact TorrentEngine.tracks_sweep ..
  | worker hown hworker => exact HttpEngine.tracks_stepWorker hworker
  | @alert acquire alert alerts hfree halerts =>
      obtain ⟨store, fs, heq⟩ :=
        @world_handleAlert acquire h.registry { h.world with alerts := alerts } alert
      rw [heq]
      exact .of_eq rfl rfl
  | libtorrent => exact absurd rfl (hlibtorrent _ _)
  | restart => exact absurd rfl (hrestart _)
  | maintain | sweepHttp | disk | configKept | configApplied => exact .of_eq rfl rfl

end Hub

end DownloadWrapper
