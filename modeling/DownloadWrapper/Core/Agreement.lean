import DownloadWrapper.Core.Rooted

/-!
# The registry and the HTTP threads

A thread leaves its outcome in its context; nothing carries it over to the task in the registry. So
after the maintenance the two agree only if the registry, for reasons of its own, had that status
before.
-/

namespace DownloadWrapper

open Transition

variable {url : String}

def OfHttp (url : String) (h : Hub) : HubEvent → Prop
  | .add params _ bt now => (recordOf h.cfg bt.lib params now).all fun task =>
      task.taskId ≠ url || task.taskProtocol = .http
  | _ => True

/-- Nothing is done about the task of the key: no call of the app, no call of the scheduler, and the
process goes on. -/
def Quiet (url : String) (h : Hub) : HubEvent → Prop
  | .add params _ bt now => (recordOf h.cfg bt.lib params now).map Task.taskId ≠ some url
  | .pause params _ => params.taskKey ≠ url
  | .resume params _ => params.taskKey ≠ url
  | .delete params _ => params.taskKey ≠ url
  | .admission http bt now => ∀ call ∈ (h.pass http bt now).1.calls, call.task.taskId ≠ url
  | .restart _ => False
  | _ => True

instance (h : Hub) : ∀ event, Decidable (OfHttp url h event)
  | .add .. => inferInstanceAs (Decidable (_ = true))
  | .pause .. | .resume .. | .delete .. | .schedule | .admission .. | .pauseNext _ | .maintain _
  | .sweepHttp _ | .sweepTorrent | .worker .. | .alert _ | .libtorrent .. | .disk _
  | .applyConfig _ | .restart _ => isTrue trivial

instance (h : Hub) : ∀ event, Decidable (Quiet url h event)
  | .add params _ bt now =>
      inferInstanceAs (Decidable ((recordOf h.cfg bt.lib params now).map Task.taskId ≠ some url))
  | .pause params _ | .resume params _ | .delete params _ =>
      inferInstanceAs (Decidable (params.taskKey ≠ url))
  | .admission http bt now =>
      inferInstanceAs (Decidable (∀ call ∈ (h.pass http bt now).1.calls, call.task.taskId ≠ url))
  | .restart _ => isFalse id
  | .schedule | .pauseNext _ | .maintain _ | .sweepHttp _ | .sweepTorrent | .worker .. | .alert _
  | .libtorrent .. | .disk _ | .applyConfig _ => isTrue trivial

/-- The task of the key has the status and the bytes the ended thread left in its context. -/
def Mirrors (h : Hub) (c : HttpContext) : Prop :=
  ∃ task ∈ h.registry, task.taskId = c.url ∧ task.status = c.worker.task.status ∧
    task.totalDone = c.worker.task.totalDone

structure HttpTask (task : Task) : Prop where
  protocol : task.taskProtocol = .http
  totalDone : task.totalDone = 0
  status : task.status = .downloading ∨ task.status = .queued ∨ task.status = .paused ∨
    task.status = .error

/-- The rows of the key are as the HTTP engine's `add_task` inserts them. -/
def HttpRows (url : String) (s : Store) : Prop :=
  ∀ row ∈ s.tasks, row.taskId = url →
    row.taskProtocol = .http ∧ row.totalDone = 0 ∧ row.status = .downloading

structure HttpKeyed (url : String) (h : Hub) : Prop where
  task : ∀ task ∈ h.registry, task.taskId = url → HttpTask task
  row : HttpRows url h.world.store

theorem HttpTask.change {h : Hub} {event : HubEvent} {task task' : Task} (hhttp : HttpTask task)
    (hchange : Change h event task task') : HttpTask task' := by
  have hnot : task.taskProtocol ≠ .torrent := by simp [hhttp.protocol]
  cases hchange with
  | same => exact hhttp
  | broken message hprotocol => exact absurd hprotocol hnot
  | paused hkey hprotocol => exact absurd hprotocol hnot
  | pausedNext hprotocol => exact absurd hprotocol hnot
  | queued priorities hkey hdelete hprotocol =>
      exact ⟨hhttp.protocol, hhttp.totalDone, Or.inr (Or.inl rfl)⟩
  | deleted hkey hprotocol => exact absurd hprotocol hnot
  | preempted time hslowest hcalled =>
      exact ⟨hhttp.protocol, hhttp.totalDone, Or.inr (Or.inr (Or.inl rfl))⟩
  | dispatched time result hnext hcalled =>
      refine ⟨hhttp.protocol, hhttp.totalDone, ?_⟩
      simp only [settleDispatched]
      split
      · exact Or.inl rfl
      · exact Or.inr (Or.inr (Or.inr rfl))
  | alerted hdrift => exact hdrift.other hnot ▸ hhttp
  | written task => exact ⟨hhttp.protocol, hhttp.totalDone, hhttp.status⟩

theorem HttpRows.of_sameRows {s s' : Store} (h : HttpRows url s) (hrows : SameRows s s') :
    HttpRows url s' := by
  intro row' hmem hkey
  rcases hrows.tasks.find?_of_find? (KeyedList.find?_key hmem) with
    ⟨row, hfind, isRead, rfl⟩ | ⟨-, row, hnone, -⟩
  · exact h row (KeyedList.mem_of_find? hfind) hkey
  · exact hnone.elim

theorem HttpRows.loaded {s : Store} {task : Task} (h : HttpRows url s) (hloaded : LoadedFrom s task)
    (hkey : task.taskId = url) : HttpTask task ∧ task.status = .downloading := by
  obtain ⟨row, files, isRead, hrow, heq⟩ := hloaded
  obtain ⟨hmem, hid, -⟩ := Store.visible_eq_some_iff.mp hrow
  obtain ⟨hprotocol, hdone, hstatus⟩ := h row hmem (hid.trans hkey)
  have hread : task.status = .downloading := by rw [heq]; exact hstatus
  refine ⟨⟨?_, ?_, Or.inl hread⟩, hread⟩ <;> rw [heq]
  · exact hprotocol
  · exact hdone

theorem httpRows_step {h h' : Hub} {event : HubEvent} (hrows : HttpRows url h.world.store)
    (hok : OfHttp url h event) (hstep : h.step event = some h') : HttpRows url h'.world.store := by
  rcases rows_step hstep with hsame | ⟨task, store, hrecording, hsame⟩
  · exact hrows.of_sameRows hsame
  · refine HttpRows.of_sameRows ?_ hsame
    obtain ⟨params, http, bt, now, rfl, hrecord⟩ := hrecording.event
    obtain ⟨granted, hreplaced⟩ := hrecording.replaced
    obtain ⟨-, -, rfl⟩ := Store.replaceTask_eq_some_iff.mp hreplaced
    intro row hmem hkey
    rcases KeyedList.mem_insert.mp hmem with rfl | ⟨hold, -⟩
    · have hprotocol : row.taskProtocol = .http := by
        simpa [OfHttp, hrecord, hkey] using hok
      simp only [recordOf] at hrecord
      split at hrecord
      · rw [← Option.some.inj hrecord]
        exact ⟨rfl, rfl, rfl⟩
      · obtain ⟨source, -, rfl⟩ := Option.map_eq_some_iff.mp hrecord
        simp [TorrentEngine.newTask] at hprotocol
    · exact hrows row hold hkey

theorem httpKeyed_startHub {cfg : ManagerConfig} {httpCfg : HttpConfig} {store : Store} {fs : Fs}
    {now : Int} (hrows : HttpRows url store) :
    HttpKeyed url (startHub cfg httpCfg store fs now) := by
  refine ⟨fun task hmem hkey => ?_, hrows⟩
  obtain ⟨row, hrow, -, -, -, rfl⟩ := mem_startRegistry.mp hmem
  rw [requeue_taskId] at hkey
  obtain ⟨hprotocol, hdone, hstatus⟩ := hrows row hrow hkey
  have hactive : (readTask row).status = .downloading := hstatus
  simp only [requeue, hactive, if_false, reduceCtorEq]
  exact ⟨hprotocol, hdone, Or.inr (Or.inl rfl)⟩

theorem httpKeyed_step {h h' : Hub} {event : HubEvent} (hrooted : Rooted h)
    (hkeyed : HttpKeyed url h) (hok : OfHttp url h event) (hstep : h.step event = some h') :
    HttpKeyed url h' := by
  have hrows := httpRows_step hkeyed.row hok hstep
  by_cases hrestart : ∃ now, event = .restart now
  · obtain ⟨now, rfl⟩ := hrestart
    obtain rfl := Option.some.inj hstep
    exact httpKeyed_startHub hrows
  refine ⟨fun task' hmem hkey => ?_, hrows⟩
  obtain ⟨task, hchange, hid, hold | ⟨hsource, -⟩⟩ :=
    mem_registry_step hrooted hstep (fun now heq => hrestart ⟨now, heq⟩) hmem
  · exact (hkeyed.task task hold (hid ▸ hkey)).change hchange
  · have hhttp : HttpTask task := hsource.elim
      (fun hloaded => (hkeyed.row.loaded hloaded (hid ▸ hkey)).1)
      fun hnew => (hrows.loaded hnew.2 (hid ▸ hkey)).1
    exact hhttp.change hchange

/-! ### The quiet after the end -/

theorem quiet_change {h : Hub} {event : HubEvent} {task task' : Task} (hquiet : Quiet url h event)
    (hkey : task.taskId = url) (hhttp : HttpTask task) (hchange : Change h event task task') :
    task'.status = task.status ∧ task'.totalDone = task.totalDone := by
  have hnot : task.taskProtocol ≠ .torrent := by simp [hhttp.protocol]
  cases hchange with
  | same => exact ⟨rfl, rfl⟩
  | broken message hprotocol => exact absurd hprotocol hnot
  | paused _ hprotocol => exact absurd hprotocol hnot
  | pausedNext hprotocol => exact absurd hprotocol hnot
  | queued priorities hsame hdelete hprotocol => exact absurd (hsame.symm.trans hkey) hquiet
  | deleted _ hprotocol => exact absurd hprotocol hnot
  | preempted time hslowest hcalled =>
      obtain ⟨call, hmem, -, rfl⟩ := hcalled
      exact absurd hkey (hquiet call hmem)
  | dispatched time result hnext hcalled =>
      obtain ⟨call, hmem, -, rfl⟩ := hcalled
      exact absurd hkey (hquiet call hmem)
  | alerted hdrift =>
      rw [hdrift.other hnot]
      exact ⟨rfl, rfl⟩
  | written task => exact ⟨rfl, rfl⟩

structure Steady (url : String) (h₀ h : Hub) : Prop where
  source : ∀ task' ∈ h.registry, task'.taskId = url →
    task'.status = .downloading ∨ ∃ task ∈ h₀.registry, task.taskId = url ∧
      task'.status = task.status ∧ task'.totalDone = task.totalDone
  kept : ∀ task ∈ h₀.registry, task.taskId = url →
    ∃ task' ∈ h.registry, task'.taskId = url ∧
      task'.status = task.status ∧ task'.totalDone = task.totalDone

theorem Steady.refl (h : Hub) : Steady url h h :=
  ⟨fun task hmem hkey => Or.inr ⟨task, hmem, hkey, rfl, rfl⟩,
    fun task hmem hkey => ⟨task, hmem, hkey, rfl, rfl⟩⟩

theorem ofHttp_of_quiet {h : Hub} {event : HubEvent} (hquiet : Quiet url h event) :
    OfHttp url h event := by
  cases event with
  | add params http bt now =>
      simp only [OfHttp, Option.all_eq_true]
      intro task hrecord
      have hne : task.taskId ≠ url := by simpa [Quiet, hrecord] using hquiet
      simp [hne]
  | _ => trivial

theorem steady_step {h₀ h h' : Hub} {event : HubEvent} (hrooted : Rooted h)
    (hkeyed : HttpKeyed url h) (hsteady : Steady url h₀ h) (hquiet : Quiet url h event)
    (hstep : h.step event = some h') : Steady url h₀ h' := by
  have hrestart : ∀ now, event ≠ .restart now := by
    rintro now rfl
    exact hquiet
  have hrows := httpRows_step hkeyed.row (ofHttp_of_quiet hquiet) hstep
  constructor
  · intro task' hmem hkey
    obtain ⟨task, hchange, hid, hold | ⟨hsource, -⟩⟩ := mem_registry_step hrooted hstep hrestart hmem
    · have hkey' : task.taskId = url := hid ▸ hkey
      obtain ⟨hstatus, hdone⟩ := quiet_change hquiet hkey' (hkeyed.task task hold hkey') hchange
      rw [hstatus, hdone]
      exact hsteady.source task hold hkey'
    · have hkey' : task.taskId = url := hid ▸ hkey
      obtain ⟨hhttp, hstatus⟩ := hsource.elim (fun hloaded => hkeyed.row.loaded hloaded hkey')
        fun hnew => hrows.loaded hnew.2 hkey'
      exact Or.inl ((quiet_change hquiet hkey' hhttp hchange).1.trans hstatus)
  · intro task hmem hkey
    obtain ⟨mid, hmid, hkeyMid, hstatus, hdone⟩ := hsteady.kept task hmem hkey
    obtain ⟨task', hfind, hchange⟩ :=
      (evolves_step hrooted hstep hrestart).find? (KeyedList.find?_key hmid)
    obtain ⟨hstatus', hdone'⟩ := quiet_change hquiet hkeyMid (hkeyed.task mid hmid hkeyMid) hchange
    exact ⟨task', KeyedList.mem_of_find? hfind, (KeyedList.key_of_find? hfind).trans hkeyMid,
      hstatus'.trans hstatus, hdone'.trans hdone⟩

theorem steady_of_reaches {h₀ h : Hub} (hrooted : Rooted h₀) (hkeyed : HttpKeyed url h₀)
    (hrun : Reaches Hub.step (Quiet url) h₀ h) : Steady url h₀ h := by
  have hall : Rooted h ∧ HttpKeyed url h ∧ Steady url h₀ h := by
    refine @Reaches.invariant _ _ _ _ (fun h => Rooted h ∧ HttpKeyed url h ∧ Steady url h₀ h)
      _ _ hrun ?_ ?_
    · rintro h event h' ⟨hrooted, hkeyed, hsteady⟩ hquiet hstep
      exact ⟨rooted_step hrooted hstep,
        httpKeyed_step hrooted hkeyed (ofHttp_of_quiet hquiet) hstep,
        steady_step hrooted hkeyed hsteady hquiet hstep⟩
    · exact ⟨hrooted, hkeyed, .refl h₀⟩
  exact hall.2.2

/-- **When the registry agrees with an ended thread.** A thread ends with an outcome, nothing is done
about its task, and a maintenance with its sweep runs: the task has the outcome's status and bytes
exactly when there are no bytes and the registry had the task in that status before the thread
ended. A completed download it never has. -/
theorem mirrors_iff_of_exited {cfg : ManagerConfig} {httpCfg : HttpConfig} {fs : Fs}
    {start now now' now'' : Int} {h h₁ h₂ h₃ h₄ h₅ : Hub} {event : Event} {c : HttpContext}
    (hreach : Reaches Hub.step (OfHttp url) (startHub cfg httpCfg {} fs start) h)
    (hexit : h.step (.worker url event now) = some h₁) (_hrunning : h.world.running url = true)
    (hcontext : h₁.world.contexts.find? url = some c) (_hended : c.worker.running = false)
    (houtcome : c.worker.task.status ∈ [TaskStatus.completed, .error, .paused])
    (hbefore : Reaches Hub.step (Quiet url) h₁ h₂) (hmaintain : h₂.step (.maintain now') = some h₃)
    (hbetween : Reaches Hub.step (Quiet url) h₃ h₄) (hsweep : h₄.step (.sweepHttp now'') = some h₅) :
    Mirrors h₅ c ↔
      c.worker.task.totalDone = 0 ∧ ∃ task ∈ h.registry, task.taskId = url ∧
        (task.status = .error ∧ c.worker.task.status = .error ∨
          task.status = .paused ∧ c.worker.task.status = .paused) := by
  have hrooted : Rooted h := rooted_of_started hreach
  have hkeyed : HttpKeyed url h := by
    have hall : Rooted h ∧ HttpKeyed url h := by
      refine @Reaches.invariant _ _ _ _ (fun h => Rooted h ∧ HttpKeyed url h) _ _ hreach ?_ ?_
      · rintro h event h' ⟨hrooted, hkeyed⟩ hok hstep
        exact ⟨rooted_step hrooted hstep, httpKeyed_step hrooted hkeyed hok hstep⟩
      · refine ⟨rooted_startHub _ _ _ _ _, httpKeyed_startHub fun row hmem => ?_⟩
        exact absurd hmem (by simp [KeyedList.mem_def, KeyedList.empty])
    exact hall.2
  have hrun : Reaches Hub.step (Quiet url) h h₅ :=
    ((Relation.ReflTransGen.head ⟨.worker url event now, trivial, hexit⟩ hbefore).tail
      ⟨.maintain now', trivial, hmaintain⟩).trans
        (hbetween.tail ⟨.sweepHttp now'', trivial, hsweep⟩)
  have hsteady := steady_of_reaches hrooted hkeyed hrun
  have hurl : c.url = url := KeyedList.key_of_find? hcontext
  simp only [List.mem_cons, List.not_mem_nil, or_false] at houtcome
  constructor
  · rintro ⟨task', hmem, hkey, hstatus, hdone⟩
    rw [hurl] at hkey
    rcases hsteady.source task' hmem hkey with hloaded | ⟨task, hold, hid, hsame, hbytes⟩
    · rw [hstatus] at hloaded
      simp [hloaded] at houtcome
    · have hhttp := hkeyed.task task hold hid
      refine ⟨by rw [← hdone, hbytes, hhttp.totalDone], task, hold, hid, ?_⟩
      have hpossible := hhttp.status
      rw [← hsame, hstatus] at hpossible ⊢
      rcases houtcome with heq | heq | heq <;> simp [heq] at hpossible ⊢
  · rintro ⟨hdone, task, hold, hid, hstatus⟩
    obtain ⟨task', hmem, hkey, hsame, hbytes⟩ := hsteady.kept task hold hid
    refine ⟨task', hmem, hkey.trans hurl.symm, ?_, ?_⟩
    · rcases hstatus with ⟨htask, hthread⟩ | ⟨htask, hthread⟩ <;> rw [hsame, htask, hthread]
    · rw [hbytes, (hkeyed.task task hold hid).totalDone, hdone]

/-- One slot, two downloads, the second forced: the scheduler pauses the first, whose thread ends
paused and empty. The registry had it paused. -/
theorem mirrors_iff_of_exited_preempted :
    ∃ (h₅ : Hub) (c : HttpContext), c.url = "u" ∧ c.worker.task.status = .paused ∧ Mirrors h₅ c := by
  have hrun : ((play Hub.step (OfHttp "u") firstHub
      [.add { url := "u" } {} noTorrents 0, .add { url := "v" } {} noTorrents 1,
        .resume { url := "v", force := true } 2, .schedule, .admission {} noTorrents 3]).bind fun h =>
      (h.step (.worker "u" (.enter true fun _ => true) 4)).bind fun h₁ =>
        (play Hub.step (Quiet "u") h₁ [.admission {} noTorrents 5, .admission {} noTorrents 6]).bind fun h₂ =>
          (h₂.step (.maintain 7)).bind fun h₃ => (h₃.step (.sweepHttp 8)).map fun _ =>
            (h.world.running "u", (h.registry.find? "u").map Task.status,
              (h₁.world.contexts.find? "u").map fun c =>
                (c.worker.running, c.worker.task.status, c.worker.task.totalDone))) =
      some (true, some .paused, some (false, .paused, 0)) := by
    decide +kernel
  simp only [Option.bind_eq_some_iff, Option.map_eq_some_iff, Prod.mk.injEq] at hrun
  obtain ⟨h, hplay, h₁, hexit, h₂, hwindow, h₃, hmaintain, h₅, hsweep, hrunning,
    ⟨task, htask, hpaused⟩, c, hcontext, hended, hstatus, hdone⟩ := hrun
  refine ⟨h₅, c, KeyedList.key_of_find? hcontext, hstatus, (mirrors_iff_of_exited
    (reaches_of_play hplay) hexit hrunning hcontext hended (by simp [hstatus])
    (reaches_of_play hwindow) hmaintain Relation.ReflTransGen.refl hsweep).mpr ?_⟩
  exact ⟨hdone, task, KeyedList.mem_of_find? htask, KeyedList.key_of_find? htask,
    Or.inr ⟨hpaused, hstatus⟩⟩

/-- The user pauses a download. Its thread ends paused, a maintenance and its sweep run, and the
registry still has it downloading, in the only slot. -/
theorem not_mirrors_pausedDownload :
    ∃ (h h₁ h₃ h₅ : Hub) (c : HttpContext), Reaches Hub.step (OfHttp "u") firstHub h ∧
      h.step (.worker "u" (.enter true fun _ => true) 1) = some h₁ ∧
      h₁.world.contexts.find? "u" = some c ∧ c.worker.running = false ∧
      c.worker.task.status = .paused ∧ h₁.step (.maintain 2) = some h₃ ∧
      h₃.step (.sweepHttp 3) = some h₅ ∧ ¬ Mirrors h₅ c ∧ activeCount h₅.registry = 1 := by
  have hrun : ((play Hub.step (OfHttp "u") firstHub
      [.add { url := "u" } {} noTorrents 0, .pause { url := "u" } noTorrents]).bind fun h =>
      (h.step (.worker "u" (.enter true fun _ => true) 1)).bind fun h₁ =>
        (h₁.step (.maintain 2)).bind fun h₃ => (h₃.step (.sweepHttp 3)).map fun h₅ =>
          ((h₁.world.contexts.find? "u").map fun c => (c.worker.running, c.worker.task.status),
            h₅.registry.entries.map Task.status, activeCount h₅.registry)) =
      some (some (false, .paused), [.downloading], 1) := by
    decide +kernel
  simp only [Option.bind_eq_some_iff, Option.map_eq_some_iff, Prod.mk.injEq] at hrun
  obtain ⟨h, hplay, h₁, hexit, h₃, hmaintain, h₅, hsweep, ⟨c, hcontext, hended, hstatus⟩, hregistry,
    hcount⟩ := hrun
  refine ⟨h, h₁, h₃, h₅, c, reaches_of_play hplay, hexit, hcontext, hended, hstatus, hmaintain,
    hsweep, ?_, hcount⟩
  rintro ⟨task, hmem, -, hsame, -⟩
  have hdownloading : task.status ∈ [TaskStatus.downloading] :=
    hregistry ▸ List.mem_map_of_mem (KeyedList.mem_def.mp hmem)
  rw [hsame, hstatus] at hdownloading
  exact absurd hdownloading (by decide)

end DownloadWrapper
