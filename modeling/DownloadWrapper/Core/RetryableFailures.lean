import DownloadWrapper.Core.FailedAdd
import DownloadWrapper.Core.StickyPause

/-!
# Failures worth a retry

`handle_task_error` leaves a BT task failed when its error is worth a retry. The scheduler takes what
is queued and a start what was active, so the retry waits for something else to queue the task.
-/

namespace DownloadWrapper

open Transition

variable {key : String}

def Alert.errors (session : Session) : Alert → List (String × ErrorCode)
  | .stateUpdate statuses =>
      statuses.filterMap fun s => s.error.map fun code => (session.hexOf s.id, code)
  | .addTorrent _ infoHash _ error => (error.map fun code => (infoHash, code)).toList
  | .torrentError id error | .fileError id error | .storageMovedFailed id error =>
      (error.map fun code => (session.hexOf id, code)).toList
  | _ => []

def waits (task : Task) : Bool :=
  !task.isDelete && task.status = .queued && isDownloadTask task

/-- The alert being handled has an error of the key worth a retry, and leaves its BT task failed. -/
def failsRetryably (key : String) (h h' : Hub) : Bool :=
  match h.world.alerts with
  | [] => false
  | alert :: _ =>
      (alert.errors h.world.session).any (fun error => error.1 = key && error.2.outcome.2) &&
        (h'.registry.find? key).any fun task =>
          task.taskProtocol = .torrent && task.status = .fail && !task.isDelete

def answers (key : String) (call : Call) : Bool :=
  call.kind = .resume && call.task.taskId = key && call.result.code = .none

def succeeds (call : Call) : Bool := call.kind = .pause || call.result.code = .none

/-- The hub under the eyes of one who watches one BT task: whether a retry is owed to it; whether an
alert or a start has queued it since it failed, and it stands queued; whether the round at work began
with a retry due, owed to a task that nothing had queued; whether no `do_resume` of that round has
failed; and whether a retry that was owed was ever left out. -/
structure Retried where
  hub : Hub
  owed : Bool := false
  requeued : Bool := false
  due : Bool := false
  smooth : Bool := true
  broken : Bool := false

namespace Retried

/-- The calls the pass makes were all that the round needed: it ends here, with a slot free, and no
`do_resume` failed. -/
def endsWell (s : Retried) (http : DownloadEnv) (bt : TorrentEnv) (now : Int) : Bool :=
  !(s.hub.pass http bt now).2 &&
    (activeCount (s.hub.pass http bt now).1.registry : Int) < s.hub.cfg.maxConcurrentDownloads &&
      (s.smooth && (s.hub.pass http bt now).1.calls.all succeeds)

def queuedAgain (key : String) (s : Retried) (hub : Hub) (event : HubEvent) : Bool :=
  (s.requeued || revives key s.hub event) && (hub.registry.find? key).any waits

/-- A retry is still owed after the step: what the user changed is owed nothing, and a dispatch pays. -/
def stillOwed (key : String) (s : Retried) (hub : Hub) : HubEvent → Bool
  | .alert _ => s.owed || failsRetryably key s.hub hub
  | .add .. | .pause .. | .resume .. | .delete .. =>
      s.owed && decide (hub.registry.find? key = s.hub.registry.find? key)
  | .admission http bt now => s.owed && !(s.hub.pass http bt now).1.calls.any (answers key)
  | _ => s.owed

def note (key : String) (s : Retried) (hub : Hub) (event : HubEvent) : Retried :=
  let s' := { s with
    hub := hub, owed := s.stillOwed key hub event, requeued := s.queuedAgain key hub event }
  match event with
  | .schedule => { s' with due := s'.owed && !s'.requeued, smooth := true }
  | .admission http bt now =>
      { s' with
        smooth := s.smooth && (s.hub.pass http bt now).1.calls.all succeeds
        broken := s.broken || s'.owed && s.endsWell http bt now }
  | .restart _ => { s' with broken := s.broken || s.owed && !(hub.registry.find? key).any waits }
  | _ => s'

def step (key : String) (s : Retried) (event : HubEvent) : Option Retried :=
  (s.hub.step event).map fun hub => s.note key hub event

/-- The steps that let no retry go: the end of a round that began with none due, and a restart that
finds the row of the task active. -/
def Keeps (key : String) (s : Retried) : HubEvent → Prop
  | .admission http bt now => s.endsWell http bt now = true → s.due = false
  | .restart _ => s.owed = true → (s.hub.world.store.visible key).any requeueable = true
  | _ => True

instance (s : Retried) : ∀ event, Decidable (s.Keeps key event)
  | .admission http bt now =>
      inferInstanceAs (Decidable (s.endsWell http bt now = true → s.due = false))
  | .restart _ => inferInstanceAs (Decidable (s.owed = true → _ = true))
  | .add .. | .pause .. | .resume .. | .delete .. | .schedule | .pauseNext _ | .maintain _
  | .sweepHttp _ | .sweepTorrent | .worker .. | .alert _ | .libtorrent .. | .disk _
  | .applyConfig _ => isTrue trivial

theorem note_hub (s : Retried) (hub : Hub) (event : HubEvent) : (s.note key hub event).hub = hub := by
  cases event <;> rfl

theorem note_owed (s : Retried) (hub : Hub) (event : HubEvent) :
    (s.note key hub event).owed = s.stillOwed key hub event := by
  cases event <;> rfl

theorem note_requeued (s : Retried) (hub : Hub) (event : HubEvent) :
    (s.note key hub event).requeued = s.queuedAgain key hub event := by
  cases event <;> rfl

theorem note_beside (key : String) (s : Retried) (hub : Hub) {event : HubEvent} (hschedule : event ≠ .schedule)
    (hadmission : ∀ http bt now, event ≠ .admission http bt now) :
    (s.note key hub event).due = s.due ∧ (s.note key hub event).smooth = s.smooth := by
  cases event with
  | schedule => exact absurd rfl hschedule
  | admission http bt now => exact absurd rfl (hadmission http bt now)
  | _ => exact ⟨rfl, rfl⟩

end Retried

/-! ### Who queues a task -/

section Requeued

def KeepsOff (key : String) (task task' : Task) : Prop :=
  task'.taskId = task.taskId ∧ (task.taskId = key → waits task' = true → waits task = true)

theorem KeepsOff.of_waits {task task' : Task} (hid : task'.taskId = task.taskId)
    (hwaits : waits task' = true → waits task = true) : KeepsOff key task task' :=
  ⟨hid, fun _ => hwaits⟩

theorem KeepsOff.of_status {task task' : Task} (hid : task'.taskId = task.taskId)
    (hstatus : task'.status ≠ .queued) : KeepsOff key task task' :=
  .of_waits hid fun hwaits => by simp [waits, hstatus] at hwaits

theorem waits_congr {task task' : Task} (hdelete : task'.isDelete = task.isDelete)
    (hstatus : task'.status = task.status) (hprotocol : task'.taskProtocol = task.taskProtocol) :
    waits task' = waits task := by
  simp only [waits, isDownloadTask, hdelete, hstatus, hprotocol]

theorem KeepsOff.of_drift {task task' : Task} (hdrift : Drift task task')
    (hstatus : task'.status = task.status) : KeepsOff key task task' :=
  .of_waits hdrift.taskId fun hwaits =>
    (waits_congr hdrift.isDelete hstatus hdrift.taskProtocol) ▸ hwaits

theorem respectsAlerts_keepsOff : RespectsAlerts (KeepsOff key) where
  refl task := .of_waits rfl id
  trans _ _ _ h h' := ⟨h'.1.trans h.1, fun hkey hwaits => h.2 hkey (h'.2 (h.1.trans hkey) hwaits)⟩
  failed code task _ := by
    refine .of_status rfl ?_
    simp only [failTask]
    split <;> simp
  progress _ _ _ := .of_waits rfl id
  finished _ _ := .of_status rfl (by simp [finishTask])
  conflict _ _ := .of_status rfl (by simp [conflictTask])
  unwrapped _ _ := .of_waits rfl id
  linked magnet task hprotocol := by
    refine .of_drift (drift_linkTask magnet hprotocol) ?_
    rw [linkTask]
    split <;> rfl
  file index task hprotocol := by
    refine .of_drift (drift_completeFileTask index hprotocol) ?_
    rw [completeFileTask]
    split <;> rfl
  piece t index task hprotocol := by
    refine .of_drift (drift_pieceTask t index hprotocol) ?_
    rw [pieceTask]
    split
    · rfl
    · split <;> rfl

theorem keepsOff_parsedTask {alert : Alert} {registry : Registry} {w : World} {env : AcquireEnv}
    (hnot : requeues key alert registry w = false) {id : Nat} {t : Torrent} {task : Task}
    (hparsed : alert.parsed w.session = some id) (ht : w.session.torrent? id = some t)
    (hfind : (loadTask w.store t.hex registry).find? t.hex = some task)
    (hprotocol : task.taskProtocol = .torrent) : KeepsOff key task (parsedTask env w.fs t task) := by
  refine ⟨parsedTask_taskId env w.fs t task, fun hkey hwaits => ?_⟩
  have hhex : t.hex = key := (KeyedList.key_of_find? hfind).symm.trans hkey
  have hstay : (!task.isDelete && (task.wrapperName ≠ "" || !rootTaken w.fs task)) = false := by
    rw [hhex] at hfind
    simpa [requeues, hparsed, ht, hhex, hfind, hprotocol] using hnot
  exact (KeepsOff.of_drift (drift_parsedTask env w.fs t hprotocol)
    (parsedTask_status env w.fs t hstay)).2 hkey hwaits

theorem keepsOff_change {h : Hub} {event : HubEvent} {task task' : Task}
    (hundisturbed : Undisturbed key h event) (halert : ∀ acquire, event ≠ .alert acquire)
    (hchange : Change h event task task') : KeepsOff key task task' := by
  refine ⟨hchange.taskId, fun hkey hwaits => ?_⟩
  cases hchange with
  | same | written => exact hwaits
  | queued priorities hsame hdelete hprotocol =>
      exact absurd (hsame.symm.trans hkey) (by simpa [untouched] using hundisturbed.1)
  | dispatched time result hnext hcalled =>
      simp only [waits, settleDispatched] at hwaits
      split at hwaits <;> simp at hwaits
  | alerted hdrift => exact absurd rfl (halert _)
  | deleted => simp [waits, TorrentEngine.deletedTask] at hwaits
  | broken => simp [waits, TorrentEngine.brokenTask] at hwaits
  | paused | pausedNext => simp [waits, TorrentEngine.pausedTask] at hwaits
  | preempted => simp [waits, settlePaused] at hwaits

/-- **Only the user, an alert that leads to `handle_parsed` and a start queue a task.** -/
theorem waits_of_waits_step {h h' : Hub} {event : HubEvent} (hrooted : Rooted h)
    (hundisturbed : Undisturbed key h event) (hstep : h.step event = some h')
    (hrestart : ∀ now, event ≠ .restart now) (hthere : (h.registry.find? key).isSome = true)
    (hwaits : (h'.registry.find? key).any waits = true) : (h.registry.find? key).any waits = true := by
  have hevolves : h.registry.Evolves (KeepsOff key) (Source h h') h'.registry := by
    refine respectsAlerts_keepsOff.evolves_step hrooted hstep hrestart ?_ fun halert task task' =>
      keepsOff_change hundisturbed halert
    intro acquire alert alerts hevent halerts id t task hparsed ht hfind hprotocol
    subst hevent
    have hnot := hundisturbed.2
    simp only [revives, halerts] at hnot
    exact keepsOff_parsedTask hnot hparsed ht hfind hprotocol
  obtain ⟨task, hfind⟩ := Option.isSome_iff_exists.mp hthere
  obtain ⟨task', hfind', -, hkeeps⟩ := hevolves.find? hfind
  rw [hfind'] at hwaits
  rw [hfind]
  exact hkeeps (KeyedList.key_of_find? hfind) hwaits

end Requeued

/-! ### The round -/

section Round

variable {h h' : Hub} {event : HubEvent} {http : DownloadEnv} {bt : TorrentEnv} {now : Int}

theorem admissible_engines (cfg : ManagerConfig) (task : Task) :
    admissible (Hub.engines cfg http bt now) task = waits task := by
  have hengine : ((Hub.engines cfg http bt now).engineOf task.taskProtocol).isSome = true := by
    simp only [Engines.engineOf, Hub.engines]
    split <;> rfl
  rw [admissible, hengine, Bool.and_true, waits]

theorem waits_of_modify {registry : Registry} {task : Task} {f : Task → Task}
    (hf : ∀ task, (f task).taskId = task.taskId) (hmem : task ∈ registry)
    (hsame : waits (f task) = waits task) :
    ((registry.modify task.taskId f hf).find? key).any waits = (registry.find? key).any waits := by
  by_cases hkey : key = task.taskId
  · subst hkey
    rw [KeyedList.find?_modify_self, KeyedList.find?_key hmem]
    exact hsame
  · rw [KeyedList.find?_modify_of_ne _ _ _ hkey]

/-- A pass all of whose calls succeed leaves the key's task waiting or not, unless it dispatches it. -/
theorem waits_pass (hall : (h.pass http bt now).1.calls.all succeeds = true)
    (hnot : (h.pass http bt now).1.calls.any (answers key) = false) :
    ((h.pass http bt now).1.registry.find? key).any waits = (h.registry.find? key).any waits := by
  have hpass := h.pass_cases http bt now
  rcases hout : h.pass http bt now with ⟨round, again⟩
  rw [hout] at hpass hall hnot
  rcases hpass with hpass | hidle
  · cases hpass with
    | paused next slowest result world at' hnext hfull hforce hslowest hcall hcode =>
        obtain ⟨hmem, hpausable, -⟩ := slowestTask_spec hslowest
        simp only [pausable, Bool.and_eq_true, decide_eq_true_eq] at hpausable
        have hsame : waits (settlePaused at' slowest) = waits slowest := by
          simp [waits, settlePaused, hpausable.1.1.2]
        exact waits_of_modify (f := settlePaused at') (fun _ => rfl) hmem hsame
    | resumed next result world at' hnext hslot hcall hcode =>
        have hgranted : result.code = .none := by simpa [succeeds] using hall
        have hother : key ≠ next.taskId := by
          intro hkey
          simp [answers, hgranted, hkey] at hnot
        exact congrArg (Option.any waits)
          (KeyedList.find?_modify_of_ne _ (settleDispatched at' result) (fun _ => rfl) hother)
    | _ => rfl
  · rw [(Prod.mk.inj hidle).1]

theorem waits_of_resumed {call : Call} (hmem : call ∈ (h.pass http bt now).1.calls)
    (hkind : call.kind = .resume) : call.task ∈ h.registry ∧ waits call.task = true := by
  obtain ⟨hregistry, hadmissible, -⟩ := nextTask_spec (Hub.nextTask_of_resumed hmem hkind)
  exact ⟨hregistry, (admissible_engines h.cfg call.task).symm.trans hadmissible⟩

/-- A pass that ends the round with a slot free, and with no call failed, finds nothing waiting and
calls nobody. -/
theorem idle_of_endsWell {s : Retried} (hend : s.endsWell http bt now = true) :
    s.smooth = true ∧ (s.hub.pass http bt now).1.calls = [] ∧
      ∀ task ∈ s.hub.registry, waits task = false := by
  simp only [Retried.endsWell, Bool.and_eq_true, Bool.not_eq_true', decide_eq_true_eq] at hend
  obtain ⟨⟨hlast, hslot⟩, hsmooth, hall⟩ := hend
  have hlimit : 0 < s.hub.cfg.maxConcurrentDownloads := by omega
  have hpass := @pass_admitOne World s.hub.cfg (Hub.engines s.hub.cfg http bt now)
    ⟨s.hub.registry, s.hub.world, []⟩
  rw [Hub.pass, if_pos hlimit] at hlast hslot hall ⊢
  rcases hout : admitOne s.hub.cfg (Hub.engines s.hub.cfg http bt now)
    ⟨s.hub.registry, s.hub.world, []⟩ with ⟨round, again⟩
  rw [hout] at hpass hlast hslot hall
  simp only at hlast
  subst hlast
  refine ⟨hsmooth, ?_⟩
  cases hpass with
  | idle hnext =>
      refine ⟨rfl, fun task hmem => ?_⟩
      rw [← @admissible_engines http bt now s.hub.cfg task]
      exact nextTask_eq_none_iff.mp hnext task hmem
  | resumeFailed next result world hnext hfree hcall hcode => simp [succeeds, hcode] at hall
  | full next hnext hfull => exact absurd hslot (not_lt.mpr hfull)
  | noRoom next hnext hfull => exact absurd hslot (not_lt.mpr hfull)
  | pauseFailed next slowest result world hnext hfull => exact absurd hslot (not_lt.mpr hfull)

theorem admitting_step (hstep : h.step event = some h') (hadmitting : h'.admitting = true) :
    h.admitting = true ∨ event = .schedule ∧ h'.toPause = [] := by
  cases event with
  | schedule =>
      simp only [Hub.step] at hstep
      split at hstep
      next hnone =>
        obtain ⟨hfree, rfl⟩ := Hub.unlocked_eq_some_iff.mp hstep
        refine Or.inr ⟨rfl, ?_⟩
        simp only [Hub.schedule] at hadmitting ⊢
        split at hadmitting
        next hallowed => rwa [if_pos hallowed]
        next => exact absurd (hfree.symm.trans hadmitting) Bool.false_ne_true
      next => cases hstep
  | restart now =>
      obtain rfl := Option.some.inj hstep
      exact absurd hadmitting Bool.false_ne_true
  | admission http bt now =>
      cases Hub.stepped_of_step hstep with
      | admission hthere => exact Or.inl hthere
  | _ => cases Hub.stepped_of_step hstep <;> exact Or.inl hadmitting

/-- While admission holds the lock, nothing but its passes and a restart reaches the registry. -/
theorem registry_locked (hstep : h.step event = some h') (hlocked : h.admitting = true)
    (hnone : h.toPause = []) (hadmission : ∀ http bt now, event ≠ .admission http bt now)
    (hrestart : ∀ now, event ≠ .restart now) :
    h'.registry = h.registry ∧ h'.toPause = [] := by
  have hbusy : ∀ {next : Hub}, h.unlocked next = none := by
    intro next
    rw [Hub.unlocked, if_pos hlocked]
  cases event with
  | pause params bt =>
      simp only [Hub.step, hbusy] at hstep
      split at hstep
      next hhttp =>
        obtain rfl := Option.some.inj hstep
        simp only [Hub.pauseTask, Hub.put, if_pos hhttp]
        exact ⟨trivial, hnone⟩
      next => cases hstep
  | delete params bt =>
      simp only [Hub.step, hbusy] at hstep
      split at hstep
      next hhttp =>
        obtain rfl := Option.some.inj hstep
        simp only [Hub.deleteTask, Hub.put, if_pos hhttp]
        exact ⟨trivial, hnone⟩
      next => cases hstep
  | admission http bt now => exact absurd rfl (hadmission http bt now)
  | restart now => exact absurd rfl (hrestart now)
  | pauseNext bt =>
      cases Hub.stepped_of_step hstep with
      | pauseNext hnext => exact absurd (hnone.symm.trans hnext) (List.cons_ne_nil _ _).symm
  | applyConfig cfg =>
      cases Hub.stepped_of_step hstep with
      | configKept => exact ⟨rfl, hnone⟩
      | configApplied hfree => exact absurd (hfree.symm.trans hlocked) Bool.false_ne_true
  | sweepHttp | worker | libtorrent | disk =>
      cases Hub.stepped_of_step hstep
      exact ⟨rfl, hnone⟩
  | add params http bt now =>
      cases Hub.stepped_of_step hstep with
      | add hfree => exact absurd (hfree.symm.trans hlocked) Bool.false_ne_true
  | alert acquire =>
      cases Hub.stepped_of_step hstep with
      | alert hfree => exact absurd (hfree.symm.trans hlocked) Bool.false_ne_true
  | resume | schedule | maintain | sweepTorrent =>
      cases Hub.stepped_of_step hstep
      next hfree => exact absurd (hfree.symm.trans hlocked) Bool.false_ne_true

/-- Where a round is under way behind a step that is none of its passes, its head was the step, or it was
under way before and the step left it alone. -/
theorem round_beside (hstep : h.step event = some h') (hnone : h.admitting = true → h.toPause = [])
    (hadmission : ∀ http bt now, event ≠ .admission http bt now) (hrestart : ∀ now, event ≠ .restart now)
    (hlocked : h'.admitting = true) :
    event = .schedule ∧ h'.toPause = [] ∨
      h.admitting = true ∧ event ≠ .schedule ∧ h'.registry = h.registry ∧ h'.toPause = [] := by
  rcases admitting_step hstep hlocked with hthere | hhead
  · refine Or.inr ⟨hthere, ?_, registry_locked hstep hthere (hnone hthere) hadmission hrestart⟩
    rintro rfl
    cases Hub.stepped_of_step hstep with
    | schedule hfree => exact absurd (hthere.symm.trans hfree) nofun
  · exact Or.inl hhead

end Round

/-! ### Runs -/

/-- No retry was left out. A task that is owed one is there, and waits exactly if it was queued behind
its failure; and while a round goes well it waits exactly if none was due at the head. -/
structure RetryKept (key : String) (s : Retried) : Prop where
  rooted : Rooted s.hub
  kept : s.broken = false
  present : s.owed = true → (s.hub.registry.find? key).isSome = true
  queued : s.owed = true → (s.hub.registry.find? key).any waits = s.requeued
  nothingToPause : s.hub.admitting = true → s.hub.toPause = []
  waiting : s.hub.admitting = true → s.smooth = true → s.owed = true →
    (s.hub.registry.find? key).any waits = !s.due
  due : s.hub.admitting = true → s.due = true →
    s.owed = true ∧ (s.hub.registry.find? key).any waits = false

theorem requeue_spec (store : Store) (now : Int) {row : Task} (h : requeueable row = true) :
    (requeue store now (readTask row)).taskId = row.taskId ∧
      waits (requeue store now (readTask row)) = true := by
  simp only [requeueable, Bool.and_eq_true] at h
  obtain ⟨⟨hvisible, -⟩, hdownload⟩ := h
  have hwaits : ∀ task : Task, (!task.isDelete) = true → task.status = .queued →
      isDownloadTask task = true → waits task = true := by
    intro task halive hqueued hkind
    rw [waits, halive, hkind, hqueued]
    rfl
  simp only [requeue]
  split
  next hqueued => exact ⟨rfl, hwaits _ hvisible hqueued hdownload⟩
  next => exact ⟨rfl, hwaits _ hvisible rfl hdownload⟩

theorem waits_startRegistry (store : Store) (now : Int) :
    ((startRegistry store now).find? key).any waits = (store.visible key).any requeueable := by
  rw [Bool.eq_iff_iff, Option.any_eq_true, Option.any_eq_true]
  constructor
  · rintro ⟨task, hfind, -⟩
    obtain ⟨row, hmem, hactive, rfl⟩ :=
      mem_startRegistry_iff_requeueable.mp (KeyedList.mem_of_find? hfind)
    have hkey := (requeue_spec store now hactive).1.symm.trans (KeyedList.key_of_find? hfind)
    have hvisible : row.isDelete = false := by
      simp only [requeueable, Bool.and_eq_true, Bool.not_eq_true'] at hactive
      exact hactive.1.1
    exact ⟨row, Store.visible_eq_some_iff.mpr ⟨hmem, hkey, hvisible⟩, hactive⟩
  · rintro ⟨row, hvisible, hactive⟩
    obtain ⟨hmem, hkey, -⟩ := Store.visible_eq_some_iff.mp hvisible
    obtain ⟨hid, hwaits⟩ := requeue_spec store now hactive
    have hthere : requeue store now (readTask row) ∈ startRegistry store now :=
      mem_startRegistry_iff_requeueable.mpr ⟨row, hmem, hactive, rfl⟩
    have hfind := KeyedList.find?_key hthere
    rw [hid, hkey] at hfind
    exact ⟨_, hfind, hwaits⟩

theorem revives_of_requeueable {h : Hub} {now : Int}
    (hactive : (h.world.store.visible key).any requeueable = true) :
    revives key h (.restart now) = true := by
  obtain ⟨row, hvisible, hrow⟩ := (Option.any_eq_true _ _).mp hactive
  obtain ⟨hmem, hkey, halive⟩ := Store.visible_eq_some_iff.mp hvisible
  simp only [requeueable, Bool.and_eq_true, decide_eq_true_eq] at hrow
  refine List.any_eq_true.mpr ⟨row, KeyedList.mem_def.mp hmem, ?_⟩
  simp [hkey, halive, hrow.1.2]

theorem isSome_step {h h' : Hub} {event : HubEvent} (hrooted : Rooted h) (hstep : h.step event = some h')
    (hrestart : ∀ now, event ≠ .restart now) (hthere : (h.registry.find? key).isSome = true) :
    (h'.registry.find? key).isSome = true := by
  obtain ⟨task, hfind⟩ := Option.isSome_iff_exists.mp hthere
  obtain ⟨task', hfind', -⟩ := (evolves_step hrooted hstep hrestart).find? hfind
  exact Option.isSome_of_eq_some hfind'

theorem failed_of_failsRetryably {h h' : Hub} (hfails : failsRetryably key h h' = true) :
    (h'.registry.find? key).isSome = true ∧ (h'.registry.find? key).any waits = false := by
  rw [failsRetryably] at hfails
  split at hfails
  next => cases hfails
  next =>
    rw [Bool.and_eq_true] at hfails
    obtain ⟨task, hfind, htask⟩ := (Option.any_eq_true _ _).mp hfails.2
    simp only [Bool.and_eq_true, decide_eq_true_eq] at htask
    rw [hfind]
    exact ⟨rfl, by simp [waits, htask.1.2]⟩

theorem find?_of_stillOwed {s : Retried} {hub : Hub} {event : HubEvent}
    (huntouched : untouched key s.hub event = false) (howed : s.stillOwed key hub event = true) :
    hub.registry.find? key = s.hub.registry.find? key := by
  cases event with
  | add | resume =>
      simp only [Retried.stillOwed, Bool.and_eq_true, decide_eq_true_eq] at howed
      exact howed.2
  | _ => simp [untouched] at huntouched

theorem owed_of_stillOwed {s : Retried} {hub : Hub} {event : HubEvent}
    (howed : s.stillOwed key hub event = true) :
    s.owed = true ∨ (∃ acquire, event = .alert acquire) ∧ failsRetryably key s.hub hub = true := by
  cases event with
  | alert acquire => exact ((Bool.or_eq_true _ _).mp howed).imp_right fun hfails => ⟨⟨acquire, rfl⟩, hfails⟩
  | add | pause | resume | delete | admission => exact Or.inl ((Bool.and_eq_true _ _).mp howed).1
  | _ => exact Or.inl howed

/-- A task that is still owed a retry is there, and waits exactly if it was queued behind its failure. -/
theorem queued_step {s : Retried} {hub : Hub} {event : HubEvent} (hkept : RetryKept key s)
    (hkeeps : s.Keeps key event) (hhub : s.hub.step event = some hub)
    (howed : s.stillOwed key hub event = true) :
    (hub.registry.find? key).isSome = true ∧
      (hub.registry.find? key).any waits = s.queuedAgain key hub event := by
  by_cases hrestart : ∃ now, event = .restart now
  · obtain ⟨now, rfl⟩ := hrestart
    have hactive := hkeeps howed
    obtain rfl := Option.some.inj hhub
    have hwaits : ((startHub s.hub.cfg s.hub.httpCfg s.hub.world.store s.hub.world.fs
        now).registry.find? key).any waits = true := (waits_startRegistry _ now).trans hactive
    refine ⟨?_, by rw [Retried.queuedAgain, hwaits, revives_of_requeueable hactive, Bool.or_true]; rfl⟩
    obtain ⟨task, hfind, -⟩ := (Option.any_eq_true _ _).mp hwaits
    exact Option.isSome_of_eq_some hfind
  have hrunning : ∀ now, event ≠ .restart now := fun now heq => hrestart ⟨now, heq⟩
  rcases owed_of_stillOwed howed with hbefore | ⟨-, hfails⟩
  · refine ⟨isSome_step hkept.rooted hhub hrunning (hkept.present hbefore), ?_⟩
    cases hwaits : (hub.registry.find? key).any waits with
    | false => rw [Retried.queuedAgain, hwaits, Bool.and_false]
    | true =>
        rw [Retried.queuedAgain, hwaits, Bool.and_true, eq_comm, Bool.or_eq_true]
        rw [← hkept.queued hbefore]
        cases huntouched : untouched key s.hub event with
        | false => exact Or.inl (find?_of_stillOwed huntouched howed ▸ hwaits)
        | true =>
            cases hrevives : revives key s.hub event with
            | true => exact Or.inr rfl
            | false =>
                exact Or.inl (waits_of_waits_step hkept.rooted ⟨huntouched, hrevives⟩ hhub hrunning
                  (hkept.present hbefore) hwaits)
  · obtain ⟨hthere, hidle⟩ := failed_of_failsRetryably hfails
    exact ⟨hthere, by rw [Retried.queuedAgain, hidle, Bool.and_false]⟩

/-- At the end of a round that went well a retry that is still owed was due at its head. -/
theorem due_of_endsWell {s : Retried} (hkept : RetryKept key s) (hlocked : s.hub.admitting = true)
    {http : DownloadEnv} {bt : TorrentEnv} {now : Int} (howed : s.owed = true)
    (hend : s.endsWell http bt now = true) : s.due = true := by
  obtain ⟨hsmooth, -, hidle⟩ := idle_of_endsWell hend
  have hnone : (s.hub.registry.find? key).any waits = false := by
    cases hfind : s.hub.registry.find? key with
    | none => rfl
    | some task => exact hidle task (KeyedList.mem_of_find? hfind)
  rw [hkept.waiting hlocked hsmooth howed] at hnone
  simpa using hnone

theorem not_answers_of_not_waits {h : Hub} {http : DownloadEnv} {bt : TorrentEnv} {now : Int}
    (hidle : (h.registry.find? key).any waits = false) :
    (h.pass http bt now).1.calls.any (answers key) = false := by
  rw [List.any_eq_false]
  intro call hcall hanswers
  simp only [answers, Bool.and_eq_true, decide_eq_true_eq] at hanswers
  obtain ⟨⟨hkind, hkey⟩, -⟩ := hanswers
  obtain ⟨hmem, hwaits⟩ := waits_of_resumed hcall hkind
  rw [← hkey, KeyedList.find?_key hmem, Option.any_some, hwaits] at hidle
  cases hidle

theorem retryKept_admission {s s' : Retried} {http : DownloadEnv} {bt : TorrentEnv} {now : Int}
    (hkept : RetryKept key s) (hkeeps : s.Keeps key (.admission http bt now))
    (hstep : s.step key (.admission http bt now) = some s') : RetryKept key s' := by
  obtain ⟨hub, hhub, rfl⟩ := Option.map_eq_some_iff.mp hstep
  have hqueued := queued_step hkept hkeeps hhub
  have hrooted : Rooted hub := rooted_step hkept.rooted hhub
  have hundisturbed : Undisturbed key s.hub (.admission http bt now) := ⟨rfl, rfl⟩
  have hback := waits_of_waits_step hkept.rooted hundisturbed hhub nofun
  cases Hub.stepped_of_step hhub with
  | admission hlocked =>
    refine ⟨hrooted, ?_, fun howed => (hqueued howed).1, fun howed => (hqueued howed).2,
      fun _ => hkept.nothingToPause hlocked, fun _ hsmooth howed => ?_, fun _ hdue => ?_⟩
    · simp only [Retried.note, hkept.kept, Bool.false_or, Bool.and_eq_false_iff]
      by_contra hboth
      simp only [not_or, Bool.not_eq_false] at hboth
      have hbefore : s.owed = true := ((Bool.and_eq_true _ _).mp hboth.1).1
      have hdue := due_of_endsWell hkept hlocked hbefore hboth.2
      rw [hkeeps hboth.2] at hdue
      cases hdue
    · simp only [Retried.note, Retried.stillOwed, Bool.and_eq_true, Bool.not_eq_true'] at hsmooth howed ⊢
      rw [← hkept.waiting hlocked hsmooth.1 howed.1]
      exact waits_pass hsmooth.2 howed.2
    · obtain ⟨howed, hidle⟩ := hkept.due hlocked hdue
      refine ⟨?_, ?_⟩
      · simp [Retried.note, Retried.stillOwed, howed, not_answers_of_not_waits hidle]
      · by_contra hwaits
        rw [Bool.not_eq_false] at hwaits
        rw [hback (hkept.present howed) hwaits] at hidle
        cases hidle

theorem retryKept_restart {s s' : Retried} {now : Int} (hkept : RetryKept key s)
    (hkeeps : s.Keeps key (.restart now)) (hstep : s.step key (.restart now) = some s') :
    RetryKept key s' := by
  obtain ⟨hub, hhub, rfl⟩ := Option.map_eq_some_iff.mp hstep
  have hqueued := queued_step hkept hkeeps hhub
  have hrooted : Rooted hub := rooted_step hkept.rooted hhub
  obtain rfl := Option.some.inj hhub
  refine ⟨hrooted, ?_, fun howed => (hqueued howed).1, fun howed => (hqueued howed).2, nofun, nofun, nofun⟩
  cases howed : s.owed with
  | false => simp [Retried.note, hkept.kept, howed]
  | true =>
      have hrequeued := hkeeps howed
      simp [Retried.note, hkept.kept, startHub, waits_startRegistry, hrequeued]

theorem retryKept_step {s s' : Retried} {event : HubEvent} (hkept : RetryKept key s)
    (hkeeps : s.Keeps key event) (hstep : s.step key event = some s') : RetryKept key s' := by
  by_cases hadmission : ∃ http bt now, event = .admission http bt now
  · obtain ⟨http, bt, now, rfl⟩ := hadmission
    exact retryKept_admission hkept hkeeps hstep
  by_cases hrestart : ∃ now, event = .restart now
  · obtain ⟨now, rfl⟩ := hrestart
    exact retryKept_restart hkept hkeeps hstep
  obtain ⟨hub, hhub, rfl⟩ := Option.map_eq_some_iff.mp hstep
  have hqueued := queued_step hkept hkeeps hhub
  have hpasses : ∀ http bt now, event ≠ .admission http bt now := fun http bt now heq =>
    hadmission ⟨http, bt, now, heq⟩
  have hround := round_beside hhub hkept.nothingToPause hpasses fun now heq => hrestart ⟨now, heq⟩
  refine ⟨?_, ?_, fun howed => ?_, fun howed => ?_, fun hlocked => ?_, fun hlocked hsmooth howed => ?_,
    fun hlocked hdue => ?_⟩
  · rw [Retried.note_hub]
    exact rooted_step hkept.rooted hhub
  · cases event with
    | admission http bt now => exact absurd ⟨http, bt, now, rfl⟩ hadmission
    | restart now => exact absurd ⟨now, rfl⟩ hrestart
    | _ => exact hkept.kept
  · rw [Retried.note_hub]
    exact (hqueued (Retried.note_owed s hub event ▸ howed)).1
  · rw [Retried.note_hub, Retried.note_requeued]
    exact (hqueued (Retried.note_owed s hub event ▸ howed)).2
  · rw [Retried.note_hub] at hlocked ⊢
    exact (hround hlocked).elim And.right fun hsame => hsame.2.2.2
  · rw [Retried.note_hub] at hlocked ⊢
    rcases hround hlocked with ⟨rfl, -⟩ | ⟨hthere, hlater, hsame, -⟩
    · rw [(hqueued howed).2]
      simp only [Retried.note] at howed ⊢
      simp [howed]
    · rw [hsame]
      rcases owed_of_stillOwed (Retried.note_owed s hub event ▸ howed) with hbefore | ⟨⟨acquire, rfl⟩, -⟩
      · obtain ⟨hdue, hsame⟩ := s.note_beside key hub hlater hpasses
        rw [hsame] at hsmooth
        rw [hdue]
        exact hkept.waiting hthere hsmooth hbefore
      · cases Hub.stepped_of_step hhub with
        | alert hfree => exact absurd (hthere.symm.trans hfree) nofun
  · rw [Retried.note_hub] at hlocked ⊢
    rcases hround hlocked with ⟨rfl, -⟩ | ⟨hthere, hlater, hsame, -⟩
    · simp only [Retried.note, Bool.and_eq_true, Bool.not_eq_true'] at hdue ⊢
      exact ⟨hdue.1, (hqueued hdue.1).2.trans hdue.2⟩
    · rw [(s.note_beside key hub hlater hpasses).1] at hdue
      obtain ⟨howed, hidle⟩ := hkept.due hthere hdue
      rw [hsame, Retried.note_owed]
      refine ⟨?_, hidle⟩
      cases event with
      | admission http bt now => exact absurd ⟨http, bt, now, rfl⟩ hadmission
      | add | pause | resume | delete => simp [Retried.stillOwed, howed, hsame]
      | alert => simp [Retried.stillOwed, howed]
      | _ => exact howed

/-- **Failures worth a retry**: in every run in which every round that goes well begins with no retry
due and every restart finds the row of a task that is owed one active, no round that ends with a slot
free and no call failed leaves the task undispatched, and every restart queues it; the first step of
another kind leaves a retry out. -/
theorem retried_of_reaches {cfg : ManagerConfig} {httpCfg : HttpConfig} {store : Store} {fs : Fs}
    {start : Int} {s : Retried}
    (hrun : Reaches (Retried.step key) (Retried.Keeps key)
      { hub := startHub cfg httpCfg store fs start } s) :
    s.broken = false ∧
      ∀ event s', s.step key event = some s' → ¬ s.Keeps key event → s'.broken = true := by
  have hkept : RetryKept key s := by
    refine hrun.invariant (fun _ _ _ hinv hkeeps hstep => retryKept_step hinv hkeeps hstep) ?_
    exact ⟨rooted_startHub cfg httpCfg store fs start, rfl, nofun, nofun, nofun, nofun, nofun⟩
  refine ⟨hkept.kept, fun event s' hstep hnot => ?_⟩
  obtain ⟨hub, hhub, rfl⟩ := Option.map_eq_some_iff.mp hstep
  cases event with
  | admission http bt now =>
      simp only [Retried.Keeps, Classical.not_imp, Bool.not_eq_false] at hnot
      obtain ⟨hend, hdue⟩ := hnot
      cases Hub.stepped_of_step hhub with
      | admission hlocked =>
          obtain ⟨howed, -⟩ := hkept.due hlocked hdue
          simp [Retried.note, Retried.stillOwed, howed, hend, (idle_of_endsWell hend).2.1]
  | restart now =>
      obtain rfl := Option.some.inj hhub
      simp only [Retried.Keeps, Classical.not_imp, Bool.not_eq_true] at hnot
      obtain ⟨howed, hlost⟩ := hnot
      simp [Retried.note, howed, startHub, waits_startRegistry, hlost]
  | _ => exact absurd trivial hnot

def timedOut : List HubEvent :=
  [.add oneLink {} oneMagnet 0, .alert {},
    .libtorrent [oneTorrent] [.torrentError 0 (some (.system .timedOut))], .alert {}]

/-- The next round, behind `between`, dispatches the task that failed. -/
def RetriedBehind (between : List HubEvent) : Prop :=
  ∃ failed s : Retried, failed.owed = true ∧
    (failed.hub.registry.find? oneHash).map Task.status = some .fail ∧
    play (Retried.step oneHash) (Retried.Keeps oneHash) failed
      (between ++ [.schedule, .admission {} oneMagnet 2, .admission {} oneMagnet 2]) = some s ∧
    (s.hub.registry.find? oneHash).map Task.status = some .downloading ∧
    s.owed = false ∧ s.broken = false

/-- A restart queues the failed task, and so does metadata that comes behind the failure. -/
theorem retried_of_reaches_requeued :
    RetriedBehind [.restart 1] ∧
      RetriedBehind [.libtorrent [oneTorrent] [.metadataReceived 0], .alert {}] := by
  have hplayed : ∀ between : List HubEvent,
      ((play (Retried.step oneHash) (Retried.Keeps oneHash) { hub := firstHub } timedOut).bind
        fun failed =>
          (play (Retried.step oneHash) (Retried.Keeps oneHash) failed
            (between ++ [.schedule, .admission {} oneMagnet 2, .admission {} oneMagnet 2])).map fun s =>
              ((failed.owed, (failed.hub.registry.find? oneHash).map Task.status),
                s.owed, (s.hub.registry.find? oneHash).map Task.status)) =
        some ((true, some .fail), false, some .downloading) → RetriedBehind between := by
    intro between hrun
    obtain ⟨failed, hfailed, hrun⟩ := Option.bind_eq_some_iff.mp hrun
    obtain ⟨s, hrest, hout⟩ := Option.map_eq_some_iff.mp hrun
    simp only [Prod.mk.injEq] at hout
    obtain ⟨⟨howed, hfail⟩, hpaid, hstatus⟩ := hout
    have hkept := retried_of_reaches ((reaches_of_play hfailed).trans (reaches_of_play hrest))
    exact ⟨failed, s, howed, hfail, hrest, hstatus, hpaid, hkept.1⟩
  exact ⟨hplayed _ (by decide +kernel), hplayed _ (by decide +kernel)⟩

/-- Without a restart the round looks for queued tasks only: it ends with the slot free and the task
failed as it was. -/
theorem not_retried_timedOut :
    ∃ s : Retried, Reaches (Retried.step oneHash) anyEvent { hub := firstHub } s ∧
      s.broken = true ∧ s.owed = true ∧ s.hub.admitting = false ∧ s.hub.netAllowed = true ∧
      (activeCount s.hub.registry : Int) < s.hub.cfg.maxConcurrentDownloads ∧
      (s.hub.registry.find? oneHash).map Task.status = some .fail := by
  have hrun : ((play (Retried.step oneHash) anyEvent { hub := firstHub }
      (timedOut ++ [.schedule, .admission {} oneMagnet 1])).map fun s =>
        ((s.broken, s.owed, s.hub.admitting, s.hub.netAllowed),
          decide ((activeCount s.hub.registry : Int) < s.hub.cfg.maxConcurrentDownloads),
          (s.hub.registry.find? oneHash).map Task.status)) =
      some ((true, true, false, true), true, some .fail) := by
    decide +kernel
  obtain ⟨s, hplay, hout⟩ := Option.map_eq_some_iff.mp hrun
  simp only [Prod.mk.injEq, decide_eq_true_eq] at hout
  obtain ⟨⟨hbroken, howed, hended, hallowed⟩, hfree, hstatus⟩ := hout
  exact ⟨s, reaches_of_play hplay, hbroken, howed, hended, hallowed, hfree, hstatus⟩

end DownloadWrapper
