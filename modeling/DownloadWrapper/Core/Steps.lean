import DownloadWrapper.Core.Changes

/-!
# The steps, one by one

Each operation's effect on the registry, on the rows and on the HTTP contexts; then every step's.
-/

namespace DownloadWrapper

/-! ### The BT engine -/

structure OnlyTorrents (w w' : World) : Prop where
  store : w'.store = w.store
  contexts : w'.contexts = w.contexts

namespace TorrentEngine

theorem onlyTorrents_addFirst (env : TorrentEnv) (sources : List AddSource) (w : World) :
    OnlyTorrents w (addFirst env sources w).2 := by
  induction sources generalizing w with
  | nil => exact ⟨rfl, rfl⟩
  | cons source sources ih =>
      simp only [addFirst, addTorrent]
      cases env.rebuilt source with
      | none => exact ih w
      | some t => exact ⟨rfl, rfl⟩

theorem onlyTorrents_findHandle (env : TorrentEnv) (infoHash : String) (allowRebuild : Bool)
    (w : World) : OnlyTorrents w (findHandle env infoHash allowRebuild w).2 := by
  rw [findHandle]
  split
  · exact ⟨rfl, rfl⟩
  split
  · exact ⟨rfl, rfl⟩
  split
  · exact onlyTorrents_addFirst env _ w
  · exact ⟨rfl, rfl⟩

theorem onlyTorrents_pauseHandle (env : TorrentEnv) (params : TaskParams) (w : World) :
    OnlyTorrents w (pauseHandle env params w).2 := by
  have hfind := onlyTorrents_findHandle env params.taskKey true w
  rw [pauseHandle]
  rcases hout : findHandle env params.taskKey true w with ⟨_ | t, w'⟩ <;> rw [hout] at hfind
  · exact hfind
  · simp only
    split
    · exact hfind
    · exact ⟨hfind.store, hfind.contexts⟩

theorem onlyTorrents_doResume (cfg : ManagerConfig) (env : TorrentEnv) (params : TaskParams)
    (w : World) : OnlyTorrents w (doResume cfg env params w).2 := by
  have hfind := onlyTorrents_findHandle env params.taskKey true w
  rw [doResume]
  rcases hout : findHandle env params.taskKey true w with ⟨_ | t, w'⟩ <;> rw [hout] at hfind
  · exact hfind
  · cases env.throws with
    | some message => exact hfind
    | none => exact ⟨hfind.store, hfind.contexts⟩

inductive Added (env : TorrentEnv) (now : Int) (params : TaskParams) (registry : Registry)
    (w : World) : SubmitResult → Registry → World → Prop
  /-- Refused, or alive: the task is loaded at most. -/
  | kept {result : SubmitResult} {registry' : Registry}
      (hregistry : registry' = registry ∨
        ∃ infoHash, registry' = loadTask w.store infoHash registry) :
      Added env now params registry w result registry' w
  /-- The record is replaced, whatever becomes of the torrent. -/
  | recorded {result : SubmitResult} {registry' : Registry} {w' : World} {store : Store}
      (infoHash name : String) (hsource : parseSource env.lib params = some (infoHash, name))
      (hstore : w.store.replaceTask (newTask params infoHash name now) env.persistOk = some store)
      (hw : w'.store = store ∧ w'.contexts = w.contexts)
      (hregistry : env.throws = none ∧
          registry' = loadTask store infoHash (loadTask w.store infoHash registry) ∨
        ∃ message, env.throws = some message ∧ result.code ≠ .none ∧
          registry' = updateTorrentTask store infoHash (brokenTask now message) (fun _ => rfl)
            (loadTask store infoHash (loadTask w.store infoHash registry))) :
      Added env now params registry w result registry' w'

theorem added_addTask (cfg : ManagerConfig) (env : TorrentEnv) (now : Int) (params : TaskParams)
    (registry : Registry) (w : World) :
    Added env now params registry w (addTask cfg env now params registry w).1
      (addTask cfg env now params registry w).2.1 (addTask cfg env now params registry w).2.2 := by
  simp only [addTask]
  split
  next => exact .kept (Or.inl rfl)
  next infoHash name hsource =>
    split_ifs
    · exact .kept (Or.inl rfl)
    · exact .kept (Or.inr ⟨infoHash, rfl⟩)
    · exact .kept (Or.inr ⟨infoHash, rfl⟩)
    split
    next => exact .kept (Or.inr ⟨infoHash, rfl⟩)
    next store hstore =>
      have hfind := onlyTorrents_findHandle env infoHash true { w with store := store }
      rw [buildHandle]
      cases hthrows : env.throws with
      | some message =>
          exact .recorded infoHash name hsource hstore ⟨hfind.store, hfind.contexts⟩
            (Or.inr ⟨message, hthrows, by simp [SubmitResult.failure], rfl⟩)
      | none =>
          simp only
          rcases hout : findHandle env infoHash true { w with store := store } with ⟨_ | t, w'⟩ <;>
            rw [hout] at hfind
          · exact .recorded infoHash name hsource hstore ⟨hfind.store, hfind.contexts⟩
              (Or.inl ⟨hthrows, rfl⟩)
          · exact .recorded infoHash name hsource hstore ⟨hfind.store, hfind.contexts⟩
              (Or.inl ⟨hthrows, rfl⟩)

theorem onlyTorrents_sweep (cfg : ManagerConfig) (registry : Registry) (w : World) :
    OnlyTorrents w (sweep cfg registry w).2 := by
  have hfold : ∀ (limit : ℚ) (session : List Torrent) (state : Registry × World),
      OnlyTorrents state.2 (session.foldl (sweepOne limit) state).2 := by
    intro limit session
    induction session with
    | nil => exact fun _ => ⟨rfl, rfl⟩
    | cons t session ih =>
        intro state
        have hone : OnlyTorrents state.2 (sweepOne limit state t).2 := by
          simp only [sweepOne]
          split <;> exact ⟨rfl, rfl⟩
        have hrest := ih (sweepOne limit state t)
        exact ⟨hrest.store.trans hone.store, hrest.contexts.trans hone.contexts⟩
  exact hfold _ w.session (registry, w)

theorem evolves_sweep (cfg : ManagerConfig) (registry : Registry) (w : World) :
    registry.Evolves Eq (LoadedFrom w.store) (sweep cfg registry w).1 := by
  have hfold : ∀ (limit : ℚ) (session : List Torrent) (state : Registry × World),
      state.1.Evolves Eq (LoadedFrom state.2.store) (session.foldl (sweepOne limit) state).1 := by
    intro limit session
    induction session with
    | nil => exact fun _ => .refl Eq.refl _
    | cons t session ih =>
        intro state
        have hstore : (sweepOne limit state t).2.store = state.2.store := by
          simp only [sweepOne]
          split <;> rfl
        have hrest := ih (sweepOne limit state t)
        rw [hstore] at hrest
        exact evolves_loadTask.trans (fun _ _ _ => Eq.trans) hrest
  exact hfold _ w.session (registry, w)

end TorrentEngine

/-! ### The HTTP engine -/

namespace HttpEngine

inductive Resumed (key : String) (w : World) : SubmitResult → World → Prop
  | failed {result : SubmitResult} {w' : World} (hcode : result.code ≠ .none)
      (hstore : w'.store = w.store)
      (hcontexts : w'.contexts = w.contexts ∨ w'.contexts = w.contexts.erase key) :
      Resumed key w result w'
  | busy {result : SubmitResult} (hcode : result.code = .none) (hrunning : w.running key = true) :
      Resumed key w result w
  | relaunched {result : SubmitResult} {w' : World} (worker : Worker) (hcode : result.code = .none)
      (hstore : w'.store = w.store)
      (hcontexts : w'.contexts = (w.contexts.erase key).insert ⟨key, worker, 0⟩) :
      Resumed key w result w'

theorem resumed_doResume (cfg : ManagerConfig) (env : DownloadEnv) (now : Int) (params : TaskParams)
    (registry : Registry) (w : World) :
    Resumed params.taskKey w (doResume cfg env now params registry w).1
      (doResume cfg env now params registry w).2 := by
  simp only [doResume]
  split_ifs
  · exact .failed (by simp [SubmitResult.failure]) rfl (Or.inl rfl)
  · exact .failed (by simp [SubmitResult.failure]) rfl (Or.inl rfl)
  split
  next => exact .failed (by simp [SubmitResult.failure]) rfl (Or.inl rfl)
  next task _ =>
    split_ifs
    · exact .failed (by simp [SubmitResult.failure]) rfl (Or.inl rfl)
    · let p : TaskParams :=
        { clientId := params.clientId, url := params.taskKey, savePath := task.savePath }
      have hstarted := started_startDownload cfg env now p
        (w.store.loadResume params.clientId .http params.taskKey) false registry w
      rcases hout : startDownload cfg env now p
        (w.store.loadResume params.clientId .http params.taskKey) false registry w with
        ⟨result, registry', w'⟩
      rw [hout] at hstarted
      simp only [p] at hstarted ⊢
      cases hstarted with
      | refused hcode hregistry => exact .failed (by simp [hcode]) rfl (Or.inl rfl)
      | busy hrunning => exact .busy rfl hrunning
      | undone fs hcode => exact .failed (by simp [hcode]) rfl (Or.inr rfl)
      | recorded worker hurl hpath hreplace hdeleting hidle hfs hstore => exact absurd hreplace (by simp)
      | relaunched fs worker hreplace => exact .relaunched worker rfl rfl rfl

theorem Resumed.store {key : String} {w w' : World} {result : SubmitResult}
    (h : Resumed key w result w') : w'.store = w.store := by
  cases h with
  | failed hcode hstore hcontexts => exact hstore
  | busy hcode hrunning => rfl
  | relaunched worker hcode hstore hcontexts => exact hstore

theorem sameRows_stepWorker {cfg : HttpConfig} {now : Int} {url : String} {event : Event}
    {w w' : World} (h : stepWorker cfg now url event w = some w') : SameRows w.store w'.store := by
  simp only [stepWorker] at h
  split at h
  · simp at h
  split at h
  · simp at h
  obtain rfl := Option.some.inj h
  simp only
  split
  · exact w.store.sameRows_saveResume _ _ _ _
  · exact .refl _

end HttpEngine

/-! ### Maintenance -/

theorem sameRows_persistTask (now : Int) (store : Store) (task : Task) :
    SameRows store (persistTask now store task) := by
  simp only [persistTask]
  split
  · exact .refl store
  split
  · split
    · split
      · exact .refl store
      · exact store.sameRows_deleteFileRecordByPath _
    · exact store.sameRows_remove _ _ _
  · split
    · exact store.sameRows_updateFileRecord _ _
    · exact (store.sameRows_updateFileRecord _ _).trans (Store.sameRows_updateRead _ _ _)

theorem sameRows_maintain (now : Int) (registry : Registry) (store : Store) :
    SameRows store (maintain now registry store).2 := by
  rw [maintain]
  simp only
  induction registry.entries generalizing store with
  | nil => exact .refl store
  | cons task tasks ih => exact (sameRows_persistTask now store task).trans (ih _)

/-! ### The hub -/

namespace Hub

theorem unlocked_eq_some_iff {h next h' : Hub} :
    h.unlocked next = some h' ↔ h.admitting = false ∧ next = h' := by
  rw [unlocked]
  split
  next hadmitting => simp [hadmitting]
  next hadmitting => simp [hadmitting]

theorem nextTask_engines (h : Hub) (http : DownloadEnv) (bt : TorrentEnv) (now : Int) :
    nextTask (engines h.cfg http bt now) h.registry = h.next := by
  have hsome : ∀ task, admissible (engines h.cfg http bt now) task =
      (!task.isDelete && task.status = .queued && isDownloadTask task) := by
    intro task
    simp only [admissible, engines, Engines.engineOf]
    split <;> simp
  rw [nextTask, next, funext hsome]

theorem taskKey_paramsOf (cfg : ManagerConfig) (task : Task) :
    (paramsOf cfg task).taskKey = task.taskId := by
  by_cases hid : task.taskId = ""
  · simp only [TaskParams.taskKey, paramsOf, hid]
    split_ifs <;> rfl
  · simp [TaskParams.taskKey, paramsOf, hid]

theorem pass_cases (h : Hub) (http : DownloadEnv) (bt : TorrentEnv) (now : Int) :
    Pass h.cfg (engines h.cfg http bt now) ⟨h.registry, h.world, []⟩ (h.pass http bt now).1
        (h.pass http bt now).2 ∨
      h.pass http bt now = (⟨h.registry, h.world, []⟩, false) := by
  rw [pass]
  split
  · exact Or.inl (pass_admitOne _)
  · exact Or.inr rfl

theorem answers_admission (h : Hub) (http : DownloadEnv) (bt : TorrentEnv) (now : Int) :
    (h.admission http bt now).world = h.world ∨ ∃ task result,
      AnswersPause h.cfg (engines h.cfg http bt now) ⟨h.registry, h.world, []⟩ task result
          (h.admission http bt now).world ∨
        AnswersResume h.cfg (engines h.cfg http bt now) ⟨h.registry, h.world, []⟩ task result
          (h.admission http bt now).world := by
  have hpass := h.pass_cases http bt now
  simp only [admission]
  rcases hout : h.pass http bt now with ⟨round, again⟩
  rw [hout] at hpass
  rcases hpass with hpass | hidle
  · simp only at hpass ⊢
    cases hpass with
    | pauseFailed next slowest result world hnext hfull hforce hslowest hcall hcode =>
        exact Or.inr ⟨slowest, result, Or.inl hcall⟩
    | paused next slowest result world now' hnext hfull hforce hslowest hcall hcode =>
        exact Or.inr ⟨slowest, result, Or.inl hcall⟩
    | resumeFailed next result world hnext hslot hcall hcode =>
        exact Or.inr ⟨next, result, Or.inr hcall⟩
    | resumed next result world now' hnext hslot hcall hcode =>
        exact Or.inr ⟨next, result, Or.inr hcall⟩
    | _ => exact Or.inl rfl
  · rw [(Prod.mk.inj hidle).1]
    exact Or.inl rfl

theorem nextTask_of_resumed {h : Hub} {http : DownloadEnv} {bt : TorrentEnv} {now : Int} {call : Call}
    (hmem : call ∈ (h.pass http bt now).1.calls) (hkind : call.kind = .resume) :
    nextTask (engines h.cfg http bt now) h.registry = some call.task := by
  have hpass := h.pass_cases http bt now
  rcases hout : h.pass http bt now with ⟨round, again⟩
  rw [hout] at hpass hmem
  rcases hpass with hpass | hidle
  · cases hpass with
    | pauseFailed | paused =>
        rw [List.mem_singleton.mp hmem] at hkind
        exact absurd hkind (by simp)
    | resumeFailed next result world hnext | resumed next result world time hnext =>
        rw [List.mem_singleton.mp hmem]
        exact hnext
    | _ => exact absurd hmem (List.not_mem_nil)
  · rw [(Prod.mk.inj hidle).1] at hmem
    exact absurd hmem (List.not_mem_nil)

theorem queued_of_resumed {h : Hub} {http : DownloadEnv} {bt : TorrentEnv} {now : Int} {call : Call}
    (hmem : call ∈ (h.pass http bt now).1.calls) (hkind : call.kind = .resume) :
    call.task ∈ h.registry ∧ call.task.status = .queued := by
  obtain ⟨hregistry, hadmissible, -⟩ := nextTask_spec (nextTask_of_resumed hmem hkind)
  simp only [admissible, Bool.and_eq_true, decide_eq_true_eq] at hadmissible
  exact ⟨hregistry, hadmissible.1.1.2⟩

theorem answersPause {h : Hub} {http : DownloadEnv} {bt : TorrentEnv} {now : Int} {task : Task}
    {result : SubmitResult} {w : World}
    (hcall : AnswersPause h.cfg (engines h.cfg http bt now) ⟨h.registry, h.world, []⟩ task result w) :
    task.taskProtocol = .http ∧ HttpEngine.pauseTask (paramsOf h.cfg task) h.world = (result, w) ∨
      task.taskProtocol ≠ .http ∧
        TorrentEngine.pauseHandle bt (paramsOf h.cfg task) h.world = (result, w) := by
  obtain ⟨engine, hengine, hanswer⟩ := hcall
  simp only [engines, Engines.engineOf] at hengine
  split at hengine
  next hprotocol =>
    obtain rfl := Option.some.inj hengine
    exact Or.inl ⟨hprotocol, hanswer⟩
  next hprotocol =>
    obtain rfl := Option.some.inj hengine
    exact Or.inr ⟨hprotocol, hanswer⟩

theorem answersResume {h : Hub} {http : DownloadEnv} {bt : TorrentEnv} {now : Int} {task : Task}
    {result : SubmitResult} {w : World}
    (hcall : AnswersResume h.cfg (engines h.cfg http bt now) ⟨h.registry, h.world, []⟩ task result
      w) :
    task.taskProtocol = .http ∧ HttpEngine.Resumed task.taskId h.world result w ∨
      task.taskProtocol ≠ .http ∧ OnlyTorrents h.world w := by
  obtain ⟨engine, hengine, hanswer⟩ := hcall
  simp only [engines, Engines.engineOf] at hengine
  split at hengine
  next hprotocol =>
    obtain rfl := Option.some.inj hengine
    simp only at hanswer
    have hresumed := HttpEngine.resumed_doResume h.cfg http now
      { paramsOf h.cfg task with filePriorities := task.priorityFileIndexes } h.registry h.world
    rw [hanswer] at hresumed
    exact Or.inl ⟨hprotocol, taskKey_paramsOf h.cfg task ▸ hresumed⟩
  next hprotocol =>
    obtain rfl := Option.some.inj hengine
    simp only at hanswer
    have honly := TorrentEngine.onlyTorrents_doResume h.cfg bt
      { paramsOf h.cfg task with filePriorities := task.priorityFileIndexes } h.world
    rw [hanswer] at honly
    exact Or.inr ⟨hprotocol, honly⟩

inductive Stepped (h : Hub) : HubEvent → Hub → Prop
  | add {params : TaskParams} {http : DownloadEnv} {bt : TorrentEnv} {now : Int}
      (hfree : h.admitting = false)
      (hjoined : ¬ (params.protocol = .http ∧ joinPending h.world params.url)) :
      Stepped h (.add params http bt now) (h.addTask params http bt now).2
  | pause {params : TaskParams} {bt : TorrentEnv} :
      Stepped h (.pause params bt) (h.pauseTask params bt).2
  | resume {params : TaskParams} {now : Int} (hfree : h.admitting = false) :
      Stepped h (.resume params now) (h.resumeTask params now).2
  | delete {params : TaskParams} {bt : TorrentEnv} :
      Stepped h (.delete params bt) (h.deleteTask params bt).2
  | schedule (hfree : h.admitting = false) : Stepped h .schedule h.schedule
  | admission {http : DownloadEnv} {bt : TorrentEnv} {now : Int} (hadmitting : h.admitting = true)
      (hjoined : h.admitWaits = false) : Stepped h (.admission http bt now) (h.admission http bt now)
  | pauseNext {bt : TorrentEnv} {params : TaskParams} {rest : List TaskParams}
      (hnext : h.toPause = params :: rest) :
      Stepped h (.pauseNext bt) ({ h with toPause := rest }.pauseTask params bt).2
  | maintain {now : Int} (hfree : h.admitting = false) :
      Stepped h (.maintain now)
        { h with
          registry := (DownloadWrapper.maintain now h.registry h.world.store).1
          world :=
            { h.world with store := (DownloadWrapper.maintain now h.registry h.world.store).2 } }
  | sweepHttp {now : Int} :
      Stepped h (.sweepHttp now) { h with world := HttpEngine.sweep now h.world }
  | sweepTorrent (hfree : h.admitting = false) :
      Stepped h .sweepTorrent
        { h with
          registry := (TorrentEngine.sweep h.cfg h.registry h.world).1
          world := (TorrentEngine.sweep h.cfg h.registry h.world).2 }
  | worker {url : String} {event : Event} {now : Int} {w : World} (hown : ownEvent event = true)
      (hworker : HttpEngine.stepWorker h.httpCfg now url event h.world = some w) :
      Stepped h (.worker url event now) { h with world := w }
  | alert {acquire : AcquireEnv} {alert : Alert} {alerts : List Alert} (hfree : h.admitting = false)
      (halerts : h.world.alerts = alert :: alerts) :
      Stepped h (.alert acquire)
        { h with
          registry := (handleAlert acquire alert h.registry { h.world with alerts := alerts }).1
          world := (handleAlert acquire alert h.registry { h.world with alerts := alerts }).2 }
  | libtorrent {session : Session} {posted : List Alert} :
      Stepped h (.libtorrent session posted)
        { h with world :=
          { h.world with session := session, alerts := h.world.alerts ++ posted } }
  | disk {fs : Fs} : Stepped h (.disk fs) { h with world := { h.world with fs := fs } }
  | configKept {cfg : ManagerConfig} : Stepped h (.applyConfig cfg) h
  | configApplied {cfg cfg' : ManagerConfig} (hfree : h.admitting = false)
      (hcfg : DownloadWrapper.applyConfig cfg = some cfg') :
      Stepped h (.applyConfig cfg) { h with cfg := cfg' }
  | restart {now : Int} :
      Stepped h (.restart now) (startHub h.cfg h.httpCfg h.world.store h.world.fs now)

theorem stepped_of_step {h h' : Hub} {event : HubEvent} (hstep : h.step event = some h') :
    Stepped h event h' := by
  cases event with
  | add params http bt now =>
      simp only [step] at hstep
      split at hstep
      · simp at hstep
      next hjoined =>
        obtain ⟨hfree, rfl⟩ := unlocked_eq_some_iff.mp hstep
        exact .add hfree hjoined
  | pause params bt =>
      simp only [step] at hstep
      split at hstep
      · obtain rfl := Option.some.inj hstep
        exact .pause
      · obtain ⟨-, rfl⟩ := unlocked_eq_some_iff.mp hstep
        exact .pause
  | resume params now =>
      obtain ⟨hfree, rfl⟩ := unlocked_eq_some_iff.mp hstep
      exact .resume hfree
  | delete params bt =>
      simp only [step] at hstep
      split at hstep
      · obtain rfl := Option.some.inj hstep
        exact .delete
      · obtain ⟨-, rfl⟩ := unlocked_eq_some_iff.mp hstep
        exact .delete
  | schedule =>
      simp only [step] at hstep
      split at hstep
      · obtain ⟨hfree, rfl⟩ := unlocked_eq_some_iff.mp hstep
        exact .schedule hfree
      · simp at hstep
  | admission http bt now =>
      simp only [step] at hstep
      split at hstep
      · simp at hstep
      next hready =>
        simp only [not_or, Bool.not_eq_true, Bool.not_eq_false] at hready
        obtain rfl := Option.some.inj hstep
        exact .admission hready.1 hready.2
  | pauseNext bt =>
      simp only [step] at hstep
      split at hstep
      · simp at hstep
      next hnext =>
        obtain rfl := Option.some.inj hstep
        exact .pauseNext hnext
  | maintain now =>
      obtain ⟨hfree, rfl⟩ := unlocked_eq_some_iff.mp hstep
      exact .maintain hfree
  | sweepHttp now =>
      obtain rfl := Option.some.inj hstep
      exact .sweepHttp
  | sweepTorrent =>
      obtain ⟨hfree, rfl⟩ := unlocked_eq_some_iff.mp hstep
      exact .sweepTorrent hfree
  | worker url event now =>
      simp only [step] at hstep
      split at hstep
      next hown =>
        obtain ⟨w, hworker, rfl⟩ := Option.map_eq_some_iff.mp hstep
        exact .worker hown hworker
      next => simp at hstep
  | alert acquire =>
      simp only [step] at hstep
      split at hstep
      · simp at hstep
      next halerts =>
        obtain ⟨hfree, rfl⟩ := unlocked_eq_some_iff.mp hstep
        exact .alert hfree halerts
  | libtorrent session posted =>
      obtain rfl := Option.some.inj hstep
      exact .libtorrent
  | disk fs =>
      obtain rfl := Option.some.inj hstep
      exact .disk
  | applyConfig cfg =>
      simp only [step] at hstep
      split at hstep
      · obtain rfl := Option.some.inj hstep
        exact .configKept
      next hcfg =>
        obtain ⟨hfree, rfl⟩ := unlocked_eq_some_iff.mp hstep
        exact .configApplied hfree hcfg
  | restart now =>
      obtain rfl := Option.some.inj hstep
      exact .restart

end Hub

end DownloadWrapper
