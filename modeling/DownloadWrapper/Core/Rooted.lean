import DownloadWrapper.Core.Steps

/-!
# The registry rests on the rows

No step takes a row out of the tasks table or a task out of the registry, so every task of the
registry has its row, in every state of every run.
-/

namespace DownloadWrapper

/-- Every task has a visible row. Only BT tasks are ever marked deleted, and the marks that would let
one go are not set. -/
structure Rooted (h : Hub) : Prop where
  row : ∀ task ∈ h.registry, (h.world.store.visible task.taskId).isSome
  deleted : ∀ task ∈ h.registry, task.isDelete = true → task.taskProtocol = .torrent
  unmarked : ∀ task ∈ h.registry, task.needDeleteSession = false

def Source (h h' : Hub) (task : Task) : Prop :=
  LoadedFrom h.world.store task ∨
    h.world.store.visible task.taskId = none ∧ LoadedFrom h'.world.store task

theorem rooted_startHub (cfg : ManagerConfig) (httpCfg : HttpConfig) (store : Store) (fs : Fs)
    (now : Int) : Rooted (startHub cfg httpCfg store fs now) := by
  have hrequeue : ∀ row, (requeue store now (readTask row)).taskId = row.taskId ∧
      (requeue store now (readTask row)).isDelete = row.isDelete ∧
      (requeue store now (readTask row)).needDeleteSession = false := by
    intro row
    simp only [requeue]
    split <;> exact ⟨rfl, rfl, rfl⟩
  refine ⟨fun task htask => ?_, fun task htask hdelete => ?_, fun task htask => ?_⟩ <;>
    obtain ⟨row, hmem, hvisible, -, -, rfl⟩ := mem_startRegistry.mp htask <;>
    obtain ⟨hid, hsame, hneed⟩ := hrequeue row
  · rw [hid]
    exact Option.isSome_of_eq_some (Store.visible_eq_some_iff.mpr ⟨hmem, rfl, hvisible⟩)
  · rw [hsame, hvisible] at hdelete
    exact absurd hdelete (by simp)
  · exact hneed

/-! ### The rows -/

theorem rows_addTask {h : Hub} {params : TaskParams} {http : DownloadEnv} {bt : TorrentEnv}
    {now : Int} :
    SameRows h.world.store (h.addTask params http bt now).2.world.store ∨
      ∃ task store, Recording h (.add params http bt now) task store ∧
        SameRows store (h.addTask params http bt now).2.world.store := by
  simp only [Hub.addTask, Hub.put]
  split
  next hprotocol =>
    have hstarted := HttpEngine.started_startDownload h.cfg http now params none true h.registry
      h.world
    simp only [HttpEngine.addTask]
    rcases hout : HttpEngine.startDownload h.cfg http now params none true h.registry h.world with
      ⟨result, registry', w'⟩
    rw [hout] at hstarted
    cases hstarted with
    | recorded worker hurl hpath hreplace hdeleting hidle hfs hstore =>
        refine Or.inr ⟨_, _, ⟨⟨params, http, bt, now, rfl, ?_⟩, ⟨_, hstore⟩⟩, .refl _⟩
        simp [recordOf, hprotocol]
    | relaunched fs worker hreplace => exact absurd hreplace (by simp)
    | _ => exact Or.inl (.refl _)
  next hprotocol =>
    have hadded := TorrentEngine.added_addTask h.cfg bt now params h.registry h.world
    rcases hout : TorrentEngine.addTask h.cfg bt now params h.registry h.world with
      ⟨result, registry', w'⟩
    rw [hout] at hadded
    cases hadded with
    | kept hregistry => exact Or.inl (.refl _)
    | recorded infoHash name hsource hstore hw hregistry =>
        refine Or.inr ⟨_, _, ⟨⟨params, http, bt, now, rfl, ?_⟩, ⟨_, hstore⟩⟩, ?_⟩
        · simp [recordOf, hprotocol, hsource]
        · simp only at hw ⊢
          rw [hw.1]
          exact .refl _

theorem onlyTorrents_pauseTask (bt : TorrentEnv) (params : TaskParams) (registry : Registry)
    (w : World) : OnlyTorrents w (TorrentEngine.pauseTask bt params registry w).2.2 := by
  have hpause := TorrentEngine.onlyTorrents_pauseHandle bt params w
  rw [TorrentEngine.pauseTask]
  rcases hout : TorrentEngine.pauseHandle bt params w with ⟨result, w'⟩
  rw [hout] at hpause
  simp only
  split <;> exact hpause

theorem store_pauseTask {h : Hub} {params : TaskParams} {bt : TorrentEnv} :
    (h.pauseTask params bt).2.world.store = h.world.store := by
  simp only [Hub.pauseTask, Hub.put]
  split
  · simp only [HttpEngine.pauseTask]
    split <;> rfl
  · exact (onlyTorrents_pauseTask bt params h.registry h.world).store

theorem onlyTorrents_deleteTask (bt : TorrentEnv) (params : TaskParams) (registry : Registry)
    (w : World) : OnlyTorrents w (TorrentEngine.deleteTask bt params registry w).2.2 := by
  have hfind := TorrentEngine.onlyTorrents_findHandle bt params.taskKey params.deleteFiles w
  simp only [TorrentEngine.deleteTask]
  split
  · exact ⟨rfl, rfl⟩
  rcases hout : TorrentEngine.findHandle bt params.taskKey params.deleteFiles w with ⟨handle, w'⟩
  rw [hout] at hfind
  simp only
  split <;> exact ⟨hfind.store, hfind.contexts⟩

theorem store_deleteTask {h : Hub} {params : TaskParams} {bt : TorrentEnv} :
    (h.deleteTask params bt).2.world.store = h.world.store := by
  simp only [Hub.deleteTask, Hub.put]
  split
  · simp only [HttpEngine.deleteTask]
    split <;> rfl
  · exact (onlyTorrents_deleteTask bt params h.registry h.world).store

theorem world_resumeTask {h : Hub} {params : TaskParams} {now : Int} :
    (h.resumeTask params now).2.world = h.world := by
  simp only [Hub.resumeTask, Hub.put]
  split
  · simp only [HttpEngine.resumeTask]
    split
    · rfl
    split
    · rfl
    · split <;> rfl
  · simp only [TorrentEngine.resumeTask]
    split
    · rfl
    · split <;> rfl

theorem store_pauseAnswer {h : Hub} {http : DownloadEnv} {bt : TorrentEnv} {now : Int} {task : Task}
    {result : SubmitResult} {w : World}
    (hcall : AnswersPause h.cfg (Hub.engines h.cfg http bt now) ⟨h.registry, h.world, []⟩ task result
      w) : w.store = h.world.store := by
  rcases Hub.answersPause hcall with ⟨-, hanswer⟩ | ⟨-, hanswer⟩
  · simp only [HttpEngine.pauseTask] at hanswer
    split at hanswer <;> rw [← (Prod.mk.inj hanswer).2]
  · have honly := TorrentEngine.onlyTorrents_pauseHandle bt (paramsOf h.cfg task) h.world
    rw [hanswer] at honly
    exact honly.store

theorem store_resumeAnswer {h : Hub} {http : DownloadEnv} {bt : TorrentEnv} {now : Int}
    {task : Task} {result : SubmitResult} {w : World}
    (hcall : AnswersResume h.cfg (Hub.engines h.cfg http bt now) ⟨h.registry, h.world, []⟩ task
      result w) : w.store = h.world.store := by
  rcases Hub.answersResume hcall with ⟨-, hresumed⟩ | ⟨-, honly⟩
  · exact hresumed.store
  · exact honly.store

theorem store_admission {h : Hub} {http : DownloadEnv} {bt : TorrentEnv} {now : Int} :
    (h.admission http bt now).world.store = h.world.store := by
  rcases h.answers_admission http bt now with hsame | ⟨task, result, hcall | hcall⟩
  · rw [hsame]
  · exact store_pauseAnswer hcall
  · exact store_resumeAnswer hcall

/-- **What one step does to the rows**: nothing, unless it is an `add_task` that replaces its
record. -/
theorem rows_step {h h' : Hub} {event : HubEvent} (hstep : h.step event = some h') :
    SameRows h.world.store h'.world.store ∨
      ∃ task store, Recording h event task store ∧ SameRows store h'.world.store := by
  have hsame : ∀ {s : Store}, s = h.world.store → SameRows h.world.store s :=
    fun heq => heq ▸ .refl _
  cases Hub.stepped_of_step hstep with
  | add hfree hjoined => exact rows_addTask
  | pause => exact Or.inl (hsame store_pauseTask)
  | resume hfree => exact Or.inl (hsame (by rw [world_resumeTask]))
  | delete => exact Or.inl (hsame store_deleteTask)
  | schedule hfree =>
      refine Or.inl (hsame ?_)
      simp only [Hub.schedule]
      split <;> rfl
  | admission hadmitting hjoined => exact Or.inl (hsame store_admission)
  | pauseNext hnext => exact Or.inl (hsame store_pauseTask)
  | maintain hfree => exact Or.inl (sameRows_maintain _ h.registry h.world.store)
  | sweepTorrent hfree =>
      exact Or.inl (hsame (TorrentEngine.onlyTorrents_sweep h.cfg h.registry h.world).store)
  | worker hown hworker => exact Or.inl (HttpEngine.sameRows_stepWorker hworker)
  | @alert acquire alert alerts hfree halerts =>
      exact Or.inl
        (@sameRows_handleAlert acquire h.registry { h.world with alerts := alerts } alert)
  | sweepHttp | libtorrent | disk | configKept | configApplied | restart => exact Or.inl (.refl _)

/-! ### The tasks -/

section Evolution

variable {h : Hub}

theorem evolves_addTask {params : TaskParams} {http : DownloadEnv} {bt : TorrentEnv} {now : Int} :
    h.registry.Evolves (Change h (.add params http bt now))
      (Source h (h.addTask params http bt now).2) (h.addTask params http bt now).2.registry := by
  simp only [Hub.addTask, Hub.put]
  split
  next hprotocol =>
    have hstarted := HttpEngine.started_startDownload h.cfg http now params none true h.registry
      h.world
    simp only [HttpEngine.addTask]
    rcases hout : HttpEngine.startDownload h.cfg http now params none true h.registry h.world with
      ⟨result, registry', w'⟩
    rw [hout] at hstarted
    simp only at hstarted ⊢
    cases hstarted with
    | refused hcode hregistry =>
        rcases hregistry with rfl | rfl
        · exact .refl (Change.same _) _
        · exact evolves_loadTask.mono (fun _ _ => Change.of_eq) fun _ => Or.inl
    | busy hrunning => exact evolves_loadTask.mono (fun _ _ => Change.of_eq) fun _ => Or.inl
    | undone fs hcode => exact evolves_loadTask.mono (fun _ _ => Change.of_eq) fun _ => Or.inl
    | recorded worker hurl hpath hreplace hdeleting hidle hfs hstore =>
        exact evolves_loadTask_twice.mono (fun _ _ => Change.of_eq) fun _ => id
    | relaunched fs worker hreplace => exact absurd hreplace (by simp)
  next hprotocol =>
    have hadded := TorrentEngine.added_addTask h.cfg bt now params h.registry h.world
    rcases hout : TorrentEngine.addTask h.cfg bt now params h.registry h.world with
      ⟨result, registry', w'⟩
    rw [hout] at hadded
    simp only at hadded ⊢
    cases hadded with
    | kept hregistry =>
        rcases hregistry with rfl | ⟨infoHash, rfl⟩
        · exact .refl (Change.same _) _
        · exact evolves_loadTask.mono (fun _ _ => Change.of_eq) fun _ => Or.inl
    | recorded infoHash name hsource hstore hw hregistry =>
        rw [← hw.1] at hregistry
        rcases hregistry with ⟨-, rfl⟩ | ⟨message, -, -, rfl⟩
        · exact evolves_loadTask_twice.mono (fun _ _ => Change.of_eq) fun _ => id
        · simp only [updateTorrentTask, loadTask_loadTask]
          refine evolves_loadTask_twice.comp (KeyedList.evolves_modify
            (fun task => if task.taskProtocol = .torrent then TorrentEngine.brokenTask now message task
              else task) (fun task => by split <;> rfl) (Change.same _) fun task _ => ?_)
            (fun _ _ _ heq hchange => heq ▸ hchange) fun _ _ => id
          split
          next hprotocol => exact .broken message hprotocol
          next => exact .same _ task

theorem evolves_pauseTask {change : Task → Task → Prop} {params : TaskParams} {bt : TorrentEnv}
    (hrefl : ∀ task, change task task)
    (hpaused : ∀ task : Task, task.taskId = params.taskKey → task.taskProtocol = .torrent →
      change task (TorrentEngine.pausedTask task)) :
    h.registry.Evolves change (LoadedFrom h.world.store) (h.pauseTask params bt).2.registry := by
  simp only [Hub.pauseTask, Hub.put]
  split
  next => exact .refl hrefl _
  next hprotocol =>
    have honly := TorrentEngine.onlyTorrents_pauseHandle bt params h.world
    rw [TorrentEngine.pauseTask]
    rcases hout : TorrentEngine.pauseHandle bt params h.world with ⟨result, w'⟩
    rw [hout] at honly
    simp only
    split
    · rw [honly.store]
      exact evolves_updateTorrentTask (f := TorrentEngine.pausedTask) (fun _ => rfl) hrefl
        fun task hfind hprotocol => hpaused task (KeyedList.key_of_find? hfind) hprotocol
    · exact .refl hrefl _

theorem evolves_resumeTask {params : TaskParams} {now : Int} :
    h.registry.Evolves (Change h (.resume params now)) (LoadedFrom h.world.store)
      (h.resumeTask params now).2.registry := by
  have hload : h.registry.Evolves (Change h (.resume params now)) (LoadedFrom h.world.store)
      (loadTask h.world.store params.taskKey h.registry) := evolves_loadTask_of_refl (Change.same _)
  simp only [Hub.resumeTask, Hub.put]
  split
  next hhttp =>
    simp only [HttpEngine.resumeTask]
    split
    · exact .refl (Change.same _) _
    split
    · exact hload
    next task hfind =>
      split
      · exact hload
      next hfit =>
        rw [not_or] at hfit
        refine evolves_loadTask.comp (KeyedList.evolves_modify
          (fun task => queuedTask params now task.priorityFileIndexes task) (fun _ => rfl)
          (Change.same _) fun old hold => ?_) (fun _ _ _ heq hchange => heq ▸ hchange) fun _ _ => id
        obtain rfl : task = old := Option.some.inj (hfind.symm.trans hold)
        exact .queued _ (KeyedList.key_of_find? hfind) (by simpa using hfit.2) fun _ => hhttp
  next =>
    simp only [TorrentEngine.resumeTask]
    split
    · exact hload
    next task hfind =>
      obtain ⟨hfind, htorrent⟩ := Option.filter_eq_some_iff.mp hfind
      split
      · exact hload
      next hdelete =>
        refine evolves_loadTask.comp (KeyedList.evolves_modify
          (fun task => queuedTask params now (TorrentEngine.mergePriorities task.priorityFileIndexes
            params.filePriorities) task) (fun _ => rfl)
          (Change.same _) fun old hold => ?_) (fun _ _ _ heq hchange => heq ▸ hchange) fun _ _ => id
        obtain rfl : task = old := Option.some.inj (hfind.symm.trans hold)
        exact .queued _ (KeyedList.key_of_find? hfind) (by simpa using hdelete) fun hother => by
          simp [hother] at htorrent

theorem evolves_deleteTask {params : TaskParams} {bt : TorrentEnv} :
    h.registry.Evolves (Change h (.delete params bt)) (LoadedFrom h.world.store)
      (h.deleteTask params bt).2.registry := by
  have hload : h.registry.Evolves (Change h (.delete params bt)) (LoadedFrom h.world.store)
      (loadTask h.world.store params.taskKey h.registry) := evolves_loadTask_of_refl (Change.same _)
  simp only [Hub.deleteTask, Hub.put]
  split
  next => exact .refl (Change.same _) _
  next =>
    have honly := TorrentEngine.onlyTorrents_findHandle bt params.taskKey params.deleteFiles h.world
    simp only [TorrentEngine.deleteTask]
    split
    · exact hload
    rcases hout : TorrentEngine.findHandle bt params.taskKey params.deleteFiles h.world with
      ⟨handle, w'⟩
    rw [hout] at honly
    simp only
    split
    · exact hload
    · rw [honly.store]
      exact evolves_loadTask.comp (evolves_updateTorrentTask (f := TorrentEngine.deletedTask)
        (fun _ => rfl) (Change.same _) fun task hfind hprotocol =>
          .deleted (KeyedList.key_of_find? hfind) hprotocol)
        (fun _ _ _ heq hchange => heq ▸ hchange) fun _ _ => id

theorem evolves_admission {http : DownloadEnv} {bt : TorrentEnv} {now : Int} :
    h.registry.Evolves (Change h (.admission http bt now)) (LoadedFrom h.world.store)
      (h.admission http bt now).registry := by
  have hpass := h.pass_cases http bt now
  simp only [Hub.admission]
  rcases hout : h.pass http bt now with ⟨round, again⟩
  rw [hout] at hpass
  rcases hpass with hpass | hidle
  · simp only at hpass ⊢
    cases hpass with
    | paused next slowest result world time hnext hfull hforce hslowest hcall hcode =>
        refine KeyedList.evolves_modify (settlePaused time) (fun _ => rfl) (Change.same _)
          fun task hfind => ?_
        obtain rfl : slowest = task := KeyedList.eq_of_find?_key (slowestTask_spec hslowest).1 hfind
        refine .preempted time hslowest ⟨⟨.pause, slowest, h.registry, result⟩, ?_, rfl, rfl⟩
        rw [hout]
        exact List.mem_cons_self
    | resumed next result world time hnext hslot hcall hcode =>
        refine KeyedList.evolves_modify (settleDispatched time result) (fun _ => rfl) (Change.same _)
          fun task hfind => ?_
        obtain rfl : next = task := KeyedList.eq_of_find?_key (nextTask_spec hnext).1 hfind
        refine .dispatched time result hnext ⟨⟨.resume, next, h.registry, result⟩, ?_, rfl, rfl⟩
        rw [hout]
        exact List.mem_cons_self
    | _ => exact .refl (Change.same _) _
  · rw [(Prod.mk.inj hidle).1]
    exact .refl (Change.same _) _

theorem not_erasable {task : Task} (hrooted : Rooted h) (htask : task ∈ h.registry) :
    erasable task = false := by
  have hdeleted := hrooted.deleted task htask
  have hunmarked := hrooted.unmarked task htask
  simp only [erasable, hunmarked]
  cases hdelete : task.isDelete with
  | false => simp
  | true => simp [hdeleted hdelete]

theorem evolves_schedule (hrooted : Rooted h) :
    h.registry.Evolves (Change h .schedule) (LoadedFrom h.world.store) h.schedule.registry := by
  have hkept : h.registry.Evolves (Change h .schedule) (LoadedFrom h.world.store)
      (h.registry.filter fun task => !erasable task) :=
    KeyedList.evolves_filter (Change.same _) fun task htask => by
      simp [not_erasable hrooted htask]
  simp only [Hub.schedule]
  split <;> exact hkept

/-- **What one step does to the tasks**: each goes on, changed as the step may change it, and those
that come in were loaded from their rows. -/
theorem evolves_step {h' : Hub} {event : HubEvent} (hrooted : Rooted h)
    (hstep : h.step event = some h') (hrestart : ∀ now, event ≠ .restart now) :
    h.registry.Evolves (Change h event) (Source h h') h'.registry := by
  have hown : ∀ {registry : Registry},
      h.registry.Evolves (Change h event) (LoadedFrom h.world.store) registry →
        h.registry.Evolves (Change h event) (Source h h') registry :=
    fun hevolves => hevolves.mono (fun _ _ => id) fun _ => Or.inl
  have hnothing : h'.registry = h.registry →
      h.registry.Evolves (Change h event) (Source h h') h'.registry :=
    fun heq => heq ▸ .refl (Change.same _) _
  cases Hub.stepped_of_step hstep with
  | add hfree hjoined => exact evolves_addTask
  | pause => exact hown (evolves_pauseTask (Change.same _) fun _ => Change.paused)
  | resume hfree => exact hown evolves_resumeTask
  | delete => exact hown evolves_deleteTask
  | schedule hfree => exact hown (evolves_schedule hrooted)
  | admission hadmitting hjoined => exact hown evolves_admission
  | pauseNext hnext =>
      exact hown (evolves_pauseTask (Change.same _) fun _ _ => Change.pausedNext)
  | maintain hfree =>
      exact hown (KeyedList.evolves_map writtenTask (fun _ => rfl) fun task _ => .written task)
  | sweepTorrent hfree =>
      exact hown ((TorrentEngine.evolves_sweep h.cfg h.registry h.world).mono
        (fun _ _ => Change.of_eq) fun _ => id)
  | alert hfree halerts =>
      exact hown ((respectsAlerts_drift.handleAlert fun _ t task _ _ _ hprotocol =>
        drift_parsedTask _ _ t hprotocol).mono (fun _ _ => Change.alerted) fun _ => id)
  | worker | sweepHttp | libtorrent | disk | configKept | configApplied => exact hnothing rfl
  | restart => exact absurd rfl (hrestart _)

/-- A relation that the alerts respect and the changes of every other step fall under. -/
theorem RespectsAlerts.evolves_step {h' : Hub} {event : HubEvent} {change : Task → Task → Prop}
    (hrespects : RespectsAlerts change) (hrooted : Rooted h) (hstep : h.step event = some h')
    (hrestart : ∀ now, event ≠ .restart now)
    (hparsed : ∀ acquire alert alerts, event = .alert acquire → h.world.alerts = alert :: alerts →
      ∀ id t task, alert.parsed h.world.session = some id → h.world.session.torrent? id = some t →
        (loadTask h.world.store t.hex h.registry).find? t.hex = some task →
          task.taskProtocol = .torrent → change task (parsedTask acquire h.world.fs t task))
    (hchange : (∀ acquire, event ≠ .alert acquire) →
      ∀ task task', Change h event task task' → change task task') :
    h.registry.Evolves change (Source h h') h'.registry := by
  by_cases halert : ∃ acquire, event = .alert acquire
  · obtain ⟨acquire, rfl⟩ := halert
    cases Hub.stepped_of_step hstep with
    | @alert acquire alert alerts hfree halerts =>
        have hevolves := @RespectsAlerts.handleAlert change acquire h.registry
          { h.world with alerts := alerts } hrespects alert
          fun id t task => hparsed acquire alert alerts rfl halerts id t task
        exact hevolves.mono (fun _ _ => id) fun _ => Or.inl
  · have hother : ∀ acquire, event ≠ .alert acquire := fun acquire heq => halert ⟨acquire, heq⟩
    exact (DownloadWrapper.evolves_step hrooted hstep hrestart).mono (hchange hother) fun _ => id

end Evolution

/-! ### Every run -/

theorem visible_step {h h' : Hub} {event : HubEvent} (hstep : h.step event = some h') {key : String}
    (hvisible : (h.world.store.visible key).isSome) : (h'.world.store.visible key).isSome := by
  rcases rows_step hstep with hrows | ⟨task, store, hrecording, hrows⟩
  · exact (hrows.visible_isSome_iff key).mpr hvisible
  · rw [hrows.visible_isSome_iff]
    obtain ⟨params, http, bt, now, rfl, hrecord⟩ := hrecording.event
    obtain ⟨granted, hreplaced⟩ := hrecording.replaced
    by_cases hkey : key = task.taskId
    · rw [hkey, Store.visible_replaceTask_self hreplaced (isDelete_of_recordOf hrecord)]
      rfl
    · rw [Store.visible_replaceTask_of_ne hreplaced hkey]
      exact hvisible

theorem mem_registry_step {h h' : Hub} {event : HubEvent} (hrooted : Rooted h)
    (hstep : h.step event = some h') (hrestart : ∀ now, event ≠ .restart now) {task' : Task}
    (hmem : task' ∈ h'.registry) :
    ∃ task, Change h event task task' ∧ task'.taskId = task.taskId ∧
      (task ∈ h.registry ∨ Source h h' task ∧ h.registry.find? task.taskId = none) := by
  have hfind := KeyedList.find?_key hmem
  rcases (evolves_step hrooted hstep hrestart).find?_of_find? hfind with
    ⟨task, hold, hchange⟩ | ⟨hnone, task, hsource, hchange⟩
  · exact ⟨task, hchange, hchange.taskId, Or.inl (KeyedList.mem_of_find? hold)⟩
  · exact ⟨task, hchange, hchange.taskId, Or.inr ⟨hsource, hchange.taskId ▸ hnone⟩⟩

theorem Source.isDelete {h h' : Hub} {task : Task} (hsource : Source h h' task) :
    task.isDelete = false :=
  hsource.elim LoadedFrom.isDelete fun hnew => hnew.2.isDelete

theorem Source.needDeleteSession {h h' : Hub} {task : Task} (hsource : Source h h' task) :
    task.needDeleteSession = false :=
  hsource.elim LoadedFrom.needDeleteSession fun hnew => hnew.2.needDeleteSession

theorem rooted_step {h h' : Hub} {event : HubEvent} (hrooted : Rooted h)
    (hstep : h.step event = some h') : Rooted h' := by
  by_cases hrestart : ∃ now, event = .restart now
  · obtain ⟨now, rfl⟩ := hrestart
    obtain rfl := Option.some.inj hstep
    exact rooted_startHub _ _ _ _ _
  have horigin := fun task' => @mem_registry_step h h' event hrooted hstep
    (fun now heq => hrestart ⟨now, heq⟩) task'
  refine ⟨fun task' hmem => ?_, fun task' hmem hdelete => ?_, fun task' hmem => ?_⟩ <;>
    obtain ⟨task, hchange, hid, hold | ⟨hsource, -⟩⟩ := horigin task' hmem
  · rw [hid]
    exact visible_step hstep (hrooted.row task hold)
  · rw [hid]
    exact hsource.elim (fun hloaded => visible_step hstep hloaded.isSome)
      fun hnew => hnew.2.isSome
  · rw [hchange.taskProtocol]
    rcases hchange.isDelete with hsame | hprotocol
    · exact hrooted.deleted task hold (hsame ▸ hdelete)
    · exact hprotocol
  · rw [hchange.taskProtocol]
    rcases hchange.isDelete with hsame | hprotocol
    · rw [hsame, hsource.isDelete] at hdelete
      exact absurd hdelete (by simp)
    · exact hprotocol
  · exact hchange.needDeleteSession.trans (hrooted.unmarked task hold)
  · exact hchange.needDeleteSession.trans hsource.needDeleteSession

theorem rooted_of_reaches {ok : Hub → HubEvent → Prop} {h h' : Hub}
    (hrun : Transition.Reaches Hub.step ok h h') (hrooted : Rooted h) : Rooted h' :=
  hrun.invariant (fun _ _ _ hinv _ hstep => rooted_step hinv hstep) hrooted

theorem rooted_of_started {ok : Hub → HubEvent → Prop} {cfg : ManagerConfig} {httpCfg : HttpConfig}
    {store : Store} {fs : Fs} {now : Int} {h : Hub}
    (hrun : Transition.Reaches Hub.step ok (startHub cfg httpCfg store fs now) h) : Rooted h :=
  rooted_of_reaches hrun (rooted_startHub _ _ _ _ _)

def firstHub : Hub := startHub oneSlot (syncConfig 3 4 0) {} (fun _ => none) 0

def noTorrents : TorrentEnv where
  lib := { parseMagnetUri := fun _ => { ok := false }, loadTorrentFile := fun _ => none }

def oneHash : String := "0123456789abcdef0123456789abcdef01234567"

def oneTorrent : Torrent where
  id := 0
  v1 := some oneHash
  info := some { files := [{ path := "f", offset := 0, size := 3 }], pieceLength := 16384, numPieces := 1 }

def oneMagnet : TorrentEnv where
  lib :=
    { parseMagnetUri := fun _ => { ok := true, v1 := some oneHash }
      loadTorrentFile := fun _ => none }
  rebuilt
    | .magnet => some { id := 0, v1 := some oneHash }
    | _ => none

def oneLink : TaskParams where
  protocol := .torrent
  savePath := "/d"
  magnetLink := "magnet:?xt=urn:btih:0123456789abcdef0123456789abcdef01234567"
  infoHash := oneHash

end DownloadWrapper
