import DownloadWrapper.Core.Rooted

/-!
# A paused BT task

`handle_parsed` queues whatever task its torrent has, and three alerts lead to it. So a pause holds
until one of them is handled with nothing in its way, or a start finds the row of the task, which
knows of no pause, active.
-/

namespace DownloadWrapper

open Transition

variable {key : String}

def untouched (key : String) (h : Hub) : HubEvent → Bool
  | .add params _ bt now => (recordOf h.cfg bt.lib params now).map Task.taskId ≠ some key
  | .resume params _ => params.taskKey ≠ key
  | _ => true

/-- The alert leads to `handle_parsed`, and that finds the key's task alive and no conflict: the
wrapper is there, or the name is free. -/
def requeues (key : String) (alert : Alert) (registry : Registry) (w : World) : Bool :=
  match alert.parsed w.session with
  | none => false
  | some id =>
      match w.session.torrent? id with
      | none => false
      | some t =>
          t.hex = key && ((loadTask w.store key registry).find? key).any fun task =>
            task.taskProtocol = .torrent && !task.isDelete &&
              (task.wrapperName ≠ "" || !rootTaken w.fs task)

/-- The steps that queue a paused task: such an alert, or a start that finds its row active. -/
def revives (key : String) (h : Hub) : HubEvent → Bool
  | .alert _ =>
      match h.world.alerts with
      | [] => false
      | alert :: alerts => requeues key alert h.registry { h.world with alerts := alerts }
  | .restart _ => h.world.store.tasks.entries.any fun row =>
      row.taskId = key && !row.isDelete && row.status ∈ activeStatuses
  | _ => false

def Undisturbed (key : String) (h : Hub) (event : HubEvent) : Prop :=
  untouched key h event = true ∧ revives key h event = false

instance (h : Hub) (event : HubEvent) : Decidable (Undisturbed key h event) :=
  inferInstanceAs (Decidable (_ ∧ _))

def Idle (task : Task) : Prop := task.status ≠ .queued ∧ task.status ≠ .downloading

structure Resting (key : String) (h : Hub) : Prop where
  idle : ∀ task ∈ h.registry, task.taskId = key → Idle task
  row : h.registry.find? key = none → ∀ row, h.world.store.visible key = some row →
    row.status ∉ activeStatuses

theorem idle_of_not_active {task : Task} (h : task.status ∉ activeStatuses) : Idle task := by
  simp only [activeStatuses, List.mem_cons, List.not_mem_nil, or_false, not_or] at h
  exact ⟨h.2.1, h.2.2⟩

theorem idle_pausedTask (task : Task) : Idle (TorrentEngine.pausedTask task) :=
  ⟨by simp [TorrentEngine.pausedTask], by simp [TorrentEngine.pausedTask]⟩

def KeepsIdle (key : String) (task task' : Task) : Prop :=
  task'.taskId = task.taskId ∧ (task.taskId = key → Idle task → Idle task')

theorem KeepsIdle.of_status {task task' : Task} (hid : task'.taskId = task.taskId)
    (hstatus : task'.status = task.status ∨ task'.status ≠ .queued ∧ task'.status ≠ .downloading) :
    KeepsIdle key task task' := by
  refine ⟨hid, fun _ hidle => ?_⟩
  rcases hstatus with heq | hidle'
  · exact ⟨heq ▸ hidle.1, heq ▸ hidle.2⟩
  · exact hidle'

theorem respectsAlerts_keepsIdle : RespectsAlerts (KeepsIdle key) where
  refl _ := .of_status rfl (Or.inl rfl)
  trans _ _ _ h h' := ⟨h'.1.trans h.1, fun hkey hidle => h'.2 (h.1.trans hkey) (h.2 hkey hidle)⟩
  failed code task _ := by
    refine .of_status rfl (Or.inr ?_)
    simp only [failTask]
    split <;> simp
  progress _ _ _ := .of_status rfl (Or.inl rfl)
  finished _ _ := .of_status rfl (Or.inr (by simp [finishTask]))
  conflict _ _ := .of_status rfl (Or.inr (by simp [conflictTask]))
  unwrapped _ _ := .of_status rfl (Or.inl rfl)
  linked magnet task _ := by
    refine .of_status (linkTask_taskId magnet task) (Or.inl ?_)
    rw [linkTask]
    split <;> rfl
  file index task _ := by
    refine .of_status (completeFileTask_taskId index task) (Or.inl ?_)
    rw [completeFileTask]
    split <;> rfl
  piece t index task _ := by
    refine .of_status (pieceTask_taskId t index task) (Or.inl ?_)
    rw [pieceTask]
    split
    · rfl
    · split <;> rfl

/-- `handle_parsed` leaves the status alone when the task is deleted, or its name is taken and it has
no wrapper yet. -/
theorem parsedTask_status (env : AcquireEnv) (fs : Fs) (t : Torrent) {task : Task}
    (h : (!task.isDelete && (task.wrapperName ≠ "" || !rootTaken fs task)) = false) :
    (parsedTask env fs t task).status = task.status := by
  simp only [parsedTask]
  split
  · rfl
  next halive =>
    have hconflict : task.wrapperName = "" ∧ rootTaken fs task = true := by
      simpa [halive] using h
    cases t.info with
    | none =>
        simp only
        rw [if_pos hconflict]
    | some info =>
        simp only
        rw [if_pos ⟨hconflict.1, hconflict.2⟩]

theorem keepsIdle_parsedTask {alert : Alert} {registry : Registry} {w : World} {env : AcquireEnv}
    (hnot : requeues key alert registry w = false) {id : Nat} {t : Torrent} {task : Task}
    (hparsed : alert.parsed w.session = some id) (ht : w.session.torrent? id = some t)
    (hfind : (loadTask w.store t.hex registry).find? t.hex = some task)
    (hprotocol : task.taskProtocol = .torrent) :
    KeepsIdle key task (parsedTask env w.fs t task) := by
  refine ⟨parsedTask_taskId env w.fs t task, fun hkey hidle => ?_⟩
  have hhex : t.hex = key := (KeyedList.key_of_find? hfind).symm.trans hkey
  have hstay : (!task.isDelete && (task.wrapperName ≠ "" || !rootTaken w.fs task)) = false := by
    rw [hhex] at hfind
    simpa [requeues, hparsed, ht, hhex, hfind, hprotocol] using hnot
  have hstatus := parsedTask_status env w.fs t hstay
  exact ⟨hstatus ▸ hidle.1, hstatus ▸ hidle.2⟩

/-! ### The step -/

theorem keepsIdle_change {h : Hub} {event : HubEvent} {task task' : Task}
    (hundisturbed : Undisturbed key h event) (halert : ∀ acquire, event ≠ .alert acquire)
    (hchange : Change h event task task') : KeepsIdle key task task' := by
  refine ⟨hchange.taskId, fun hkey hidle => ?_⟩
  cases hchange with
  | same => exact hidle
  | broken message hprotocol =>
      exact ⟨by simp [TorrentEngine.brokenTask], by simp [TorrentEngine.brokenTask]⟩
  | paused _ hprotocol => exact idle_pausedTask task
  | pausedNext hprotocol => exact idle_pausedTask task
  | queued priorities hsame hdelete hprotocol =>
      exact absurd (hsame.symm.trans hkey) (by simpa [untouched] using hundisturbed.1)
  | deleted _ hprotocol => exact hidle
  | preempted time hslowest hcalled => exact ⟨by simp [settlePaused], by simp [settlePaused]⟩
  | dispatched time result hnext hcalled =>
      have hqueued := (nextTask_spec hnext).2.1
      simp only [admissible, Bool.and_eq_true, decide_eq_true_eq] at hqueued
      exact absurd hqueued.1.1.2 hidle.1
  | alerted hdrift => exact absurd rfl (halert _)
  | written task => exact hidle

theorem evolves_keepsIdle {h h' : Hub} {event : HubEvent} (hrooted : Rooted h)
    (hundisturbed : Undisturbed key h event) (hstep : h.step event = some h')
    (hrestart : ∀ now, event ≠ .restart now) :
    h.registry.Evolves (KeepsIdle key) (Source h h') h'.registry := by
  apply respectsAlerts_keepsIdle.evolves_step hrooted hstep hrestart
  · intro acquire alert alerts hevent halerts id t task hparsed ht hfind hprotocol
    subst hevent
    have hnot := hundisturbed.2
    simp only [revives, halerts] at hnot
    exact keepsIdle_parsedTask hnot hparsed ht hfind hprotocol
  · intro halert task task' hchange
    exact keepsIdle_change hundisturbed halert hchange

theorem visible_of_untouched {h h' : Hub} {event : HubEvent} (huntouched : untouched key h event = true)
    (hstep : h.step event = some h') {row' : Task} (hrow' : h'.world.store.visible key = some row') :
    ∃ row, h.world.store.visible key = some row ∧ row'.status = row.status := by
  rcases rows_step hstep with hrows | ⟨task, store, hrecording, hrows⟩
  · obtain ⟨row, hrow, isRead, rfl⟩ := hrows.visible_of_visible hrow'
    exact ⟨row, hrow, rfl⟩
  · obtain ⟨params, http, bt, now, rfl, hrecord⟩ := hrecording.event
    obtain ⟨granted, hreplaced⟩ := hrecording.replaced
    have hne : key ≠ task.taskId := by
      rintro rfl
      simp [untouched, hrecord] at huntouched
    obtain ⟨row, hrow, isRead, rfl⟩ := hrows.visible_of_visible hrow'
    rw [Store.visible_replaceTask_of_ne hreplaced hne] at hrow
    exact ⟨row, hrow, rfl⟩

theorem idle_of_loadedFrom {s : Store} {task : Task} (hloaded : LoadedFrom s task)
    (hrow : ∀ row, s.visible task.taskId = some row → row.status ∉ activeStatuses) : Idle task := by
  obtain ⟨row, files, isRead, hvisible, heq⟩ := hloaded
  have hstatus : task.status = row.status := by rw [heq]; rfl
  exact idle_of_not_active (hstatus ▸ hrow row hvisible)

theorem resting_step {h h' : Hub} {event : HubEvent} (hrooted : Rooted h) (hresting : Resting key h)
    (hundisturbed : Undisturbed key h event) (hstep : h.step event = some h') : Resting key h' := by
  by_cases hrestart : ∃ now, event = .restart now
  · obtain ⟨now, rfl⟩ := hrestart
    obtain rfl := Option.some.inj hstep
    have hinactive : ∀ row ∈ h.world.store.tasks, row.taskId = key → row.isDelete = false →
        row.status ∉ activeStatuses := by
      intro row hmem hkey hvisible hactive
      have hnone := hundisturbed.2
      simp only [revives, List.any_eq_false] at hnone
      exact hnone row hmem (by simp [hkey, hvisible, hactive])
    refine ⟨fun task hmem hkey => ?_, fun _ row hrow => ?_⟩
    · obtain ⟨row, hrow, hvisible, hactive, -, rfl⟩ := mem_startRegistry.mp hmem
      rw [requeue_taskId] at hkey
      exact absurd hactive (hinactive row hrow hkey hvisible)
    · obtain ⟨hmem, hkey, hvisible⟩ := Store.visible_eq_some_iff.mp hrow
      exact hinactive row hmem hkey hvisible
  · have hevolves := evolves_keepsIdle hrooted hundisturbed hstep fun now heq => hrestart ⟨now, heq⟩
    have hrow' : h.registry.find? key = none → ∀ row, h'.world.store.visible key = some row →
        row.status ∉ activeStatuses := by
      intro hnone row' hvisible'
      obtain ⟨row, hvisible, hstatus⟩ := visible_of_untouched hundisturbed.1 hstep hvisible'
      exact hstatus ▸ hresting.row hnone row hvisible
    refine ⟨fun task' hmem hkey => ?_, fun hnone => hrow' ?_⟩
    · rcases hevolves.find?_of_find? (KeyedList.find?_key hmem) with
        ⟨task, hfind, hid, hkeeps⟩ | ⟨hnone, task, hsource, hid, hkeeps⟩
      · have hkey' : task.taskId = key := hid.symm.trans hkey
        exact hkeeps hkey' (hresting.idle task (KeyedList.mem_of_find? hfind) hkey')
      · have hkey' : task.taskId = key := hid.symm.trans hkey
        rw [hkey] at hnone
        refine hkeeps hkey' (hsource.elim (fun hloaded => ?_) fun hnew => ?_)
        · exact idle_of_loadedFrom hloaded (hkey'.symm ▸ hresting.row hnone)
        · exact idle_of_loadedFrom hnew.2 (hkey'.symm ▸ hrow' hnone)
    · by_contra hsome
      obtain ⟨task, hfind⟩ := Option.ne_none_iff_exists'.mp hsome
      obtain ⟨task', hfind', -⟩ := hevolves.find? hfind
      rw [hnone] at hfind'
      exact absurd hfind' (by simp)

theorem resting_of_paused {h₀ h₁ : Hub} {params : TaskParams} {bt : TorrentEnv}
    (hbt : params.protocol ≠ .http) (hpause : h₀.step (.pause params bt) = some h₁)
    (hsuccess : (h₀.pauseTask params bt).1.code = .none)
    (htorrent : ∀ task ∈ h₁.registry, task.taskId = params.taskKey → task.taskProtocol = .torrent) :
    Resting params.taskKey h₁ := by
  cases Hub.stepped_of_step hpause with
  | pause =>
      have honly := TorrentEngine.onlyTorrents_pauseHandle bt params h₀.world
      simp only [Hub.pauseTask, Hub.put, if_neg hbt, TorrentEngine.pauseTask] at hsuccess htorrent ⊢
      rcases hout : TorrentEngine.pauseHandle bt params h₀.world with ⟨result, w'⟩
      rw [hout] at honly
      simp only [hout] at hsuccess htorrent ⊢
      have hcode : result.code = .none := by
        split at hsuccess
        next hcode => exact hcode
        next => exact hsuccess
      have hkey : params.taskKey ≠ "" := by
        intro hempty
        simp only [TorrentEngine.pauseHandle, TorrentEngine.findHandle, hempty, if_true,
          Prod.mk.injEq] at hout
        rw [← hout.1] at hcode
        exact absurd hcode (by simp [SubmitResult.failure])
      simp only [hcode, if_true] at htorrent ⊢
      constructor
      · intro task hmem hid
        have hprotocol := htorrent task hmem hid
        have hfind := KeyedList.find?_key hmem
        simp only [hid, updateTorrentTask, KeyedList.find?_modify_self] at hfind
        obtain ⟨old, -, rfl⟩ := Option.map_eq_some_iff.mp hfind
        split at hprotocol
        next hold =>
          rw [if_pos hold]
          exact idle_pausedTask old
        next hold => exact absurd hprotocol hold
      · intro hnone row hrow
        simp only [updateTorrentTask, KeyedList.find?_modify_self, Option.map_eq_none_iff,
          find?_loadTask_self, Option.or_eq_none_iff, Store.findByTaskId_eq_visible hkey] at hnone
        rw [hnone.2] at hrow
        exact absurd hrow (by simp)

/-- **When a pause is sticky.** After a successful `pause_task` of a BT task, in any run without
`add_task` or `resume_task` of it in which no alert is handled that queues it and no start finds its
row active, it is never queued or downloading, and the scheduler never dispatches it. -/
theorem idle_of_paused {cfg : ManagerConfig} {httpCfg : HttpConfig} {store : Store} {fs : Fs}
    {start : Int} {h₀ h₁ h₂ : Hub} {params : TaskParams} {bt : TorrentEnv}
    (hreach : Reaches Hub.step anyEvent (startHub cfg httpCfg store fs start) h₀)
    (hbt : params.protocol ≠ .http) (hpause : h₀.step (.pause params bt) = some h₁)
    (hsuccess : (h₀.pauseTask params bt).1.code = .none)
    (htorrent : ∀ task ∈ h₁.registry, task.taskId = params.taskKey → task.taskProtocol = .torrent)
    (hrun : Reaches Hub.step (Undisturbed params.taskKey) h₁ h₂) :
    (∀ task ∈ h₂.registry, task.taskId = params.taskKey →
        task.status ≠ .queued ∧ task.status ≠ .downloading) ∧
      ∀ http bt now, ∀ call ∈ (h₂.pass http bt now).1.calls, call.kind = .resume →
        call.task.taskId ≠ params.taskKey := by
  have hrooted : Rooted h₁ := rooted_step (rooted_of_started hreach) hpause
  have hall : Rooted h₂ ∧ Resting params.taskKey h₂ := by
    refine @Reaches.invariant _ _ _ _ (fun h => Rooted h ∧ Resting params.taskKey h) _ _ hrun ?_ ?_
    · rintro h event h' ⟨hrooted, hresting⟩ hundisturbed hstep
      exact ⟨rooted_step hrooted hstep, resting_step hrooted hresting hundisturbed hstep⟩
    · exact ⟨hrooted, resting_of_paused hbt hpause hsuccess htorrent⟩
  refine ⟨hall.2.idle, fun http bt now call hmem hkind hkey => ?_⟩
  obtain ⟨hregistry, hqueued⟩ := Hub.queued_of_resumed hmem hkind
  exact (hall.2.idle call.task hregistry hkey).1 hqueued

/-- The save path is there, so the metadata that arrives behind the pause finds a conflict: the task
stays paused. -/
theorem idle_of_paused_conflict :
    ∃ h₂ : Hub, ∃ task ∈ h₂.registry, task.taskId = oneHash ∧ task.status = .paused ∧
      ∀ http bt now, ∀ call ∈ (h₂.pass http bt now).1.calls, call.kind = .resume →
        call.task.taskId ≠ oneHash := by
  have hrun : ((play Hub.step anyEvent firstHub
      [.disk fun path => if path = "/d" then some .dir else none,
        .add oneLink {} oneMagnet 0]).bind fun h₀ =>
      (h₀.step (.pause oneLink oneMagnet)).bind fun h₁ =>
        (play Hub.step (Undisturbed oneHash) h₁
          [.libtorrent [oneTorrent] [.metadataReceived 0], .alert {}, .alert {}]).map fun h₂ =>
            ((h₀.pauseTask oneLink oneMagnet).1.code,
              h₁.registry.entries.map fun task => (task.taskId, task.taskProtocol),
              (h₂.registry.find? oneHash).map Task.status)) =
      some (.none, [(oneHash, .torrent)], some .paused) := by
    decide +kernel
  simp only [Option.bind_eq_some_iff, Option.map_eq_some_iff, Prod.mk.injEq] at hrun
  obtain ⟨h₀, hstart, h₁, hpause, h₂, hwindow, hsuccess, hentries, task, htask, hpaused⟩ := hrun
  have hidle := idle_of_paused (reaches_of_play hstart) (by decide) hpause hsuccess
    (fun task hmem _ => by
      have hentry := List.mem_map_of_mem (f := fun task => (task.taskId, task.taskProtocol))
        (KeyedList.mem_def.mp hmem)
      rw [hentries, List.mem_singleton, Prod.mk.injEq] at hentry
      exact hentry.2) (reaches_of_play hwindow)
  exact ⟨h₂, task, KeyedList.mem_of_find? htask, KeyedList.key_of_find? htask, hpaused, hidle.2⟩

/-- The save path is not there yet: the metadata that arrives behind the pause queues the task, and
the scheduler's next round dispatches it. -/
theorem not_idle_lateMetadata :
    ∃ h₀ h₁ h₂ h₃ : Hub, Reaches Hub.step anyEvent firstHub h₀ ∧
      h₀.step (.pause oneLink oneMagnet) = some h₁ ∧
      (h₀.pauseTask oneLink oneMagnet).1.code = .none ∧
      Reaches Hub.step (fun h event => untouched oneHash h event = true) h₁ h₂ ∧
      (∃ task ∈ h₂.registry, task.taskId = oneHash ∧ task.status = .queued) ∧
      Reaches Hub.step (fun h event => untouched oneHash h event = true) h₂ h₃ ∧
      ∃ task ∈ h₃.registry, task.taskId = oneHash ∧ task.status = .downloading := by
  have hrun : ((play Hub.step anyEvent firstHub [.add oneLink {} oneMagnet 0]).bind fun h₀ =>
      (h₀.step (.pause oneLink oneMagnet)).bind fun h₁ =>
        (play Hub.step (fun h event => untouched oneHash h event = true) h₁
          [.libtorrent [oneTorrent] [.metadataReceived 0], .alert {}, .alert {}]).bind fun h₂ =>
            (play Hub.step (fun h event => untouched oneHash h event = true) h₂
              [.schedule, .admission {} oneMagnet 1]).map fun h₃ =>
                ((h₀.pauseTask oneLink oneMagnet).1.code,
                  (h₂.registry.find? oneHash).map Task.status,
                  (h₃.registry.find? oneHash).map Task.status)) =
      some (.none, some .queued, some .downloading) := by
    decide +kernel
  simp only [Option.bind_eq_some_iff, Option.map_eq_some_iff, Prod.mk.injEq] at hrun
  obtain ⟨h₀, hstart, h₁, hpause, h₂, hwindow, h₃, hround, hsuccess, ⟨queued, hqueued, hstatus⟩,
    running, hrunning, hstatus'⟩ := hrun
  exact ⟨h₀, h₁, h₂, h₃, reaches_of_play hstart, hpause, hsuccess, reaches_of_play hwindow,
    ⟨queued, KeyedList.mem_of_find? hqueued, KeyedList.key_of_find? hqueued, hstatus⟩,
    reaches_of_play hround, running, KeyedList.mem_of_find? hrunning,
    KeyedList.key_of_find? hrunning, hstatus'⟩

end DownloadWrapper
