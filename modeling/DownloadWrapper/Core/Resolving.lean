import DownloadWrapper.Core.Rooted

/-!
# From resolving to queued

`handle_parsed` decides by the wrapper and the name of a BT task, and neither is among the columns of
the tasks table: the task of the registry never has one. So what it asks is whether `save_path`
itself is there, and the storage it moves then is moved to where it is.
-/

namespace DownloadWrapper

open Transition

variable {id : Nat} {key : String}

structure Move where
  target : String
  existed : Bool
  deriving DecidableEq

def standsAt (fs : Fs) (dir name : String) : Bool :=
  if name = "" then fs dir = some .dir else fs.exist (joinPath dir name)

def parsedMove (env : AcquireEnv) (fs : Fs) (task : Task) : Option Move :=
  if task.isDelete then none
  else if task.wrapperName = "" ∧ rootTaken fs task then
    let wrapper := (acquireWrapperName env fs task.savePath task.name).1
    some ⟨joinPath task.savePath wrapper, standsAt fs task.savePath wrapper⟩
  else none

def parsedFor (h : Hub) (i : Nat) : Option Task :=
  match h.world.session.torrent? i with
  | none => none
  | some t =>
      if t.hex = "" then none
      else findTorrentTask t.hex (loadTask h.world.store t.hex h.registry)

/-- The hub under the eyes of one who watches one BT task: the moves of its storage and the alerts
that answered them, whether an alert brought its metadata, and its status behind the last of these
alerts. -/
structure Watched where
  hub : Hub
  moves : List Move := []
  answered : Nat := 0
  metadata : Bool := false
  status : Option TaskStatus := none

/-- The alert being handled, if it leads to `handle_parsed` with the handle `id`, or with another one
that names the task of the key. -/
def parsing (id : Nat) (key : String) (h : Hub) : HubEvent → Option (AcquireEnv × Alert × Nat)
  | .alert acquire =>
      match h.world.alerts with
      | [] => none
      | alert :: _ =>
          match alert.parsed h.world.session with
          | none => none
          | some i =>
              if i = id ∨ h.world.session.hexOf i = key then some (acquire, alert, i) else none
  | _ => none

def Alert.answersMove : Alert → Bool
  | .storageMoved _ => true
  | _ => false

namespace Watched

def step (id : Nat) (key : String) (s : Watched) (event : HubEvent) : Option Watched :=
  (s.hub.step event).map fun hub =>
    match parsing id key s.hub event with
    | none => { s with hub := hub }
    | some (acquire, alert, i) =>
        { hub := hub
          moves := s.moves ++ (((parsedFor s.hub i).filter (·.taskId = key)).bind
            (parsedMove acquire s.hub.world.fs)).toList
          answered := if alert.answersMove then s.answered + 1 else s.answered
          metadata := s.metadata || !alert.answersMove
          status := (hub.registry.find? key).map Task.status }

structure Resolves (s : Watched) : Prop where
  once : s.moves.length ≤ 1
  fresh : ∀ move ∈ s.moves, move.existed = false
  queued : s.metadata = true → s.answered = s.moves.length → s.status = some .queued

end Watched

/-- When `handle_parsed` runs, the handle names the task, which is there and not deleted, and its
`save_path` is not an existing directory. -/
def unblocked (id : Nat) (key : String) (s : Watched) (event : HubEvent) : Bool :=
  match parsing id key s.hub event with
  | none => true
  | some (_, _, i) =>
      (parsedFor s.hub i).any fun task =>
        task.taskId = key && !task.isDelete && s.hub.world.fs task.savePath ≠ some .dir

/-! ### Tasks have no names -/

def Nameless (task : Task) : Prop := task.name = "" ∧ task.wrapperName = ""

def KeepsNameless (task task' : Task) : Prop := Nameless task → Nameless task'

theorem KeepsNameless.of_eq {task task' : Task} (hname : task'.name = task.name)
    (hwrapper : task'.wrapperName = task.wrapperName) : KeepsNameless task task' := by
  intro hnameless
  exact ⟨hname.trans hnameless.1, hwrapper.trans hnameless.2⟩

theorem respectsAlerts_keepsNameless : RespectsAlerts KeepsNameless where
  refl _ := id
  trans _ _ _ h h' := h' ∘ h
  failed _ _ _ := .of_eq rfl rfl
  progress _ _ _ := .of_eq rfl rfl
  finished _ _ := .of_eq rfl rfl
  conflict _ _ := .of_eq rfl rfl
  unwrapped _ _ hnameless := ⟨hnameless.1, rfl⟩
  linked magnet task _ := by
    unfold linkTask
    split <;> exact .of_eq rfl rfl
  file index task _ := by
    unfold completeFileTask
    split <;> exact .of_eq rfl rfl
  piece t index task _ := by
    unfold pieceTask
    split
    · exact .of_eq rfl rfl
    · split <;> exact .of_eq rfl rfl

theorem acquireWrapperName_empty (env : AcquireEnv) (fs : Fs) (dir : String) :
    acquireWrapperName env fs dir "" = ("", fs, true) := by
  unfold acquireWrapperName acquireUniqueName
  exact if_pos rfl

theorem keepsNameless_parsedTask (env : AcquireEnv) (fs : Fs) (t : Torrent) (task : Task) :
    KeepsNameless task (parsedTask env fs t task) := by
  intro hnameless
  unfold parsedTask
  split
  · exact hnameless
  · cases t.info <;> simp only <;> split
    · exact ⟨hnameless.1, by rw [hnameless.1, acquireWrapperName_empty]⟩
    · exact hnameless
    · exact ⟨hnameless.1, by rw [hnameless.1, acquireWrapperName_empty]⟩
    · exact hnameless

theorem nameless_of_loadedFrom {store : Store} {task : Task} (h : LoadedFrom store task) :
    Nameless task := by
  obtain ⟨row, files, isRead, -, rfl⟩ := h
  exact ⟨rfl, rfl⟩

theorem keepsNameless_change {h : Hub} {event : HubEvent} {task task' : Task}
    (halert : ∀ acquire, event ≠ .alert acquire) (hchange : Change h event task task') :
    KeepsNameless task task' := by
  cases hchange with
  | alerted hdrift => exact absurd rfl (halert _)
  | _ => exact .of_eq rfl rfl

theorem evolves_keepsNameless {h h' : Hub} {event : HubEvent} (hrooted : Rooted h)
    (hstep : h.step event = some h') (hrestart : ∀ now, event ≠ .restart now) :
    h.registry.Evolves KeepsNameless (Source h h') h'.registry := by
  apply respectsAlerts_keepsNameless.evolves_step hrooted hstep hrestart
  · intro acquire alert alerts hevent halerts i t task hparsed ht hfind hprotocol
    exact keepsNameless_parsedTask acquire h.world.fs t task
  · intro halert task task' hchange
    exact keepsNameless_change halert hchange

structure Unnamed (h : Hub) : Prop where
  rooted : Rooted h
  nameless : ∀ task ∈ h.registry, Nameless task

theorem unnamed_startHub (cfg : ManagerConfig) (httpCfg : HttpConfig) (store : Store) (fs : Fs)
    (now : Int) : Unnamed (startHub cfg httpCfg store fs now) := by
  refine ⟨rooted_startHub cfg httpCfg store fs now, fun task hmem => ?_⟩
  obtain ⟨row, -, -, -, -, rfl⟩ := mem_startRegistry.mp hmem
  unfold requeue
  split <;> exact ⟨rfl, rfl⟩

theorem unnamed_step {h h' : Hub} {event : HubEvent} (hunnamed : Unnamed h)
    (hstep : h.step event = some h') : Unnamed h' := by
  refine ⟨rooted_step hunnamed.rooted hstep, fun task' hmem => ?_⟩
  by_cases hrestart : ∃ now, event = .restart now
  · obtain ⟨now, rfl⟩ := hrestart
    obtain rfl := Option.some.inj hstep
    exact (unnamed_startHub _ _ _ _ _).nameless task' hmem
  · have hevolves := evolves_keepsNameless hunnamed.rooted hstep fun now heq => hrestart ⟨now, heq⟩
    rcases hevolves.find?_of_find? (KeyedList.find?_key hmem) with
      ⟨task, hfind, hkeeps⟩ | ⟨-, task, hsource, hkeeps⟩
    · exact hkeeps (hunnamed.nameless task (KeyedList.mem_of_find? hfind))
    · refine hkeeps (hsource.elim nameless_of_loadedFrom fun hnew => ?_)
      exact nameless_of_loadedFrom hnew.2

theorem nameless_of_parsedFor {h : Hub} (hunnamed : Unnamed h) {i : Nat} {task : Task}
    (hfound : parsedFor h i = some task) : Nameless task := by
  unfold parsedFor at hfound
  split at hfound
  · simp at hfound
  next t _ =>
    split at hfound
    · simp at hfound
    · obtain ⟨hfind, -⟩ := Option.filter_eq_some_iff.mp hfound
      have hloads : h.registry.Evolves Eq (LoadedFrom h.world.store)
          (loadTask h.world.store t.hex h.registry) := evolves_loadTask
      rcases hloads.find?_of_find? hfind with
        ⟨old, hold, rfl⟩ | ⟨-, row, hloaded, rfl⟩
      · exact hunnamed.nameless old (KeyedList.mem_of_find? hold)
      · exact nameless_of_loadedFrom hloaded

theorem rootTaken_of_nameless {fs : Fs} {task : Task} (hnameless : Nameless task) :
    rootTaken fs task = decide (fs task.savePath = some .dir) := by
  unfold rootTaken
  exact if_pos hnameless.1

/-! ### One `handle_parsed` -/

theorem status_linkTask (magnet : String) (task : Task) :
    (linkTask magnet task).status = task.status := by
  unfold linkTask
  split <;> rfl

theorem parsedTask_queued (env : AcquireEnv) (fs : Fs) (t : Torrent) {task : Task}
    (hdelete : task.isDelete = false) (hfree : rootTaken fs task = false) :
    (parsedTask env fs t task).status = .queued := by
  have hnot : ∀ files, ¬ (task.wrapperName = "" ∧
      rootTaken fs { task with files := files } = true) := by
    rintro files ⟨-, htaken⟩
    exact absurd (hfree.symm.trans htaken) (by simp)
  unfold parsedTask
  rw [if_neg (by simp [hdelete])]
  cases t.info with
  | none => exact congrArg Task.status (if_neg (hnot task.files))
  | some info => exact congrArg Task.status (if_neg (hnot _))

theorem parsedMove_eq_none {env : AcquireEnv} {fs : Fs} {task : Task}
    (hfree : rootTaken fs task = false) : parsedMove env fs task = none := by
  unfold parsedMove
  simp [hfree]

theorem parsedMove_of_nameless (env : AcquireEnv) {fs : Fs} {task : Task}
    (hnameless : Nameless task) (hdelete : task.isDelete = false)
    (hdir : fs task.savePath = some .dir) :
    parsedMove env fs task = some ⟨joinPath task.savePath "", true⟩ := by
  have htaken : rootTaken fs task = true := by
    rw [rootTaken_of_nameless hnameless]
    exact decide_eq_true hdir
  unfold parsedMove
  simp [hdelete, hnameless.1, hnameless.2, htaken, acquireWrapperName_empty, standsAt, hdir]

theorem find?_handleParsed {env : AcquireEnv} {i : Nat} {registry : Registry} {w : World}
    {t : Torrent} (ht : w.session.torrent? i = some t) (hhex : t.hex ≠ "") {task : Task}
    (hfound : findTorrentTask t.hex (loadTask w.store t.hex registry) = some task) :
    (handleParsed env i registry w).1.find? t.hex = some (parsedTask env w.fs t task) := by
  obtain ⟨hfind, hprotocol⟩ := Option.filter_eq_some_iff.mp hfound
  unfold handleParsed
  simp only [ht, if_neg hhex, updateTorrentTask, KeyedList.find?_modify_self, hfind,
    Option.map_some]
  rw [if_pos (of_decide_eq_true hprotocol)]

theorem status_handleAlert {env : AcquireEnv} {alert : Alert} {registry : Registry} {w : World}
    {i : Nat} (hparsed : alert.parsed w.session = some i) {t : Torrent}
    (ht : w.session.torrent? i = some t) (hhex : t.hex ≠ "") {task : Task}
    (hfound : findTorrentTask t.hex (loadTask w.store t.hex registry) = some task) :
    ((handleAlert env alert registry w).1.find? t.hex).map Task.status =
      some (parsedTask env w.fs t task).status := by
  have hfind := @find?_handleParsed env i registry w t ht hhex task hfound
  cases alert with
  | addTorrent j infoHash magnet error =>
      cases error with
      | some code => simp [Alert.parsed] at hparsed
      | none =>
          simp only [Alert.parsed] at hparsed
          split at hparsed
          next hmeta =>
            obtain rfl : j = i := Option.some.inj hparsed
            simp only [handleAlert, if_pos hmeta]
            have hlinked : KeyedList.Evolves (fun task task' : Task => task'.status = task.status)
                (LoadedFrom (handleParsed env j registry w).2.store)
                (handleParsed env j registry w).1
                (updateTorrentTask (handleParsed env j registry w).2.store infoHash
                  (linkTask magnet) (linkTask_taskId magnet) (handleParsed env j registry w).1) :=
              evolves_updateTorrentTask (linkTask_taskId magnet) (fun _ => rfl)
                fun task _ _ => status_linkTask magnet task
            obtain ⟨task', hfind', hstatus⟩ := hlinked.find? hfind
            rw [hfind', Option.map_some, hstatus]
          next => simp at hparsed
  | metadataReceived j =>
      obtain rfl := Option.some.inj hparsed
      exact congrArg (Option.map Task.status) hfind
  | storageMoved j =>
      obtain rfl := Option.some.inj hparsed
      exact congrArg (Option.map Task.status) hfind
  | _ => simp [Alert.parsed] at hparsed

theorem parsedFor_eq_some {h : Hub} {i : Nat} {task : Task} (hfound : parsedFor h i = some task) :
    ∃ t, h.world.session.torrent? i = some t ∧ t.hex ≠ "" ∧
      findTorrentTask t.hex (loadTask h.world.store t.hex h.registry) = some task := by
  unfold parsedFor at hfound
  split at hfound
  · simp at hfound
  next t ht =>
    split at hfound
    · simp at hfound
    next hhex => exact ⟨t, ht, hhex, hfound⟩

theorem parsing_eq_some {h : Hub} {event : HubEvent} {acquire : AcquireEnv} {alert : Alert} {i : Nat}
    (hparsing : parsing id key h event = some (acquire, alert, i)) :
    ∃ alerts, event = .alert acquire ∧ h.world.alerts = alert :: alerts ∧
      alert.parsed h.world.session = some i := by
  cases event with
  | alert env =>
      simp only [parsing] at hparsing
      split at hparsing
      · simp at hparsing
      next first alerts halerts =>
        split at hparsing
        · simp at hparsing
        next j hparsed =>
          split at hparsing
          · simp only [Option.some.injEq, Prod.mk.injEq] at hparsing
            obtain ⟨rfl, rfl, rfl⟩ := hparsing
            exact ⟨alerts, rfl, halerts, hparsed⟩
          · simp at hparsing
  | _ => simp [parsing] at hparsing

theorem status_of_parsing {h h' : Hub} {event : HubEvent} {acquire : AcquireEnv} {alert : Alert}
    {i : Nat} (hparsing : parsing id key h event = some (acquire, alert, i)) {task : Task}
    (hfound : parsedFor h i = some task) (hstep : h.step event = some h') :
    ∃ t : Torrent, (h'.registry.find? task.taskId).map Task.status =
      some (parsedTask acquire h.world.fs t task).status := by
  obtain ⟨alerts, rfl, halerts, hparsed⟩ := parsing_eq_some hparsing
  obtain ⟨t, ht, hhex, hfound⟩ := parsedFor_eq_some hfound
  have hkey : task.taskId = t.hex :=
    KeyedList.key_of_find? (Option.filter_eq_some_iff.mp hfound).1
  cases Hub.stepped_of_step hstep with
  | @alert _ first rest hfree hrest =>
      obtain ⟨rfl, rfl⟩ := List.cons.inj (halerts.symm.trans hrest)
      rw [hkey]
      exact ⟨t, @status_handleAlert acquire alert h.registry { h.world with alerts := alerts } i
        hparsed t ht hhex task hfound⟩

/-! ### Every run -/

namespace Watched

theorem hub_step {s s' : Watched} {event : HubEvent} (hstep : s.step id key event = some s') :
    s.hub.step event = some s'.hub := by
  obtain ⟨hub, hhub, rfl⟩ := Option.map_eq_some_iff.mp hstep
  rw [hhub]
  split <;> rfl

structure Quiet (s : Watched) : Prop where
  unnamed : Unnamed s.hub
  still : s.moves = []
  queued : s.metadata = true → s.status = some .queued

theorem Quiet.step {s s' : Watched} {event : HubEvent} (hquiet : s.Quiet)
    (hclear : unblocked id key s event = true) (hstep : s.step id key event = some s') :
    s'.Quiet := by
  have hhub := hub_step hstep
  have hunnamed := unnamed_step hquiet.unnamed hhub
  obtain ⟨hub, -, heq⟩ := Option.map_eq_some_iff.mp hstep
  subst heq
  cases hparsing : parsing id key s.hub event with
  | none =>
      simp only [hparsing] at hunnamed ⊢
      exact ⟨hunnamed, hquiet.still, hquiet.queued⟩
  | some found =>
      obtain ⟨acquire, alert, i⟩ := found
      unfold unblocked at hclear
      simp only [hparsing] at hclear hhub hunnamed ⊢
      obtain ⟨task, hfound, htask⟩ := (Option.any_eq_true _ _).mp hclear
      simp only [Bool.and_eq_true, decide_eq_true_eq, Bool.not_eq_true'] at htask
      obtain ⟨⟨hkey, hdelete⟩, hdir⟩ := htask
      have hfree : rootTaken s.hub.world.fs task = false := by
        rw [rootTaken_of_nameless (nameless_of_parsedFor hquiet.unnamed hfound)]
        exact decide_eq_false hdir
      obtain ⟨t, hstatus⟩ := status_of_parsing hparsing hfound hhub
      rw [parsedTask_queued acquire _ t hdelete hfree, hkey] at hstatus
      refine ⟨hunnamed, ?_, fun _ => hstatus⟩
      simp [hquiet.still, hfound, hkey, parsedMove_eq_none hfree]

theorem mem_moves_step {s s' : Watched} {event : HubEvent} {move : Move} (hmem : move ∈ s.moves)
    (hstep : s.step id key event = some s') : move ∈ s'.moves := by
  obtain ⟨hub, -, rfl⟩ := Option.map_eq_some_iff.mp hstep
  split
  · exact hmem
  · exact List.mem_append_left _ hmem

end Watched

/-- **A BT task leaves resolving.** In any run from any state that can be reached, if each time
`handle_parsed` runs the handle names the task, which is there and not deleted, and its `save_path`
is not an existing directory, then no storage is moved and a task whose metadata came is queued. -/
theorem resolves_of_unblocked {cfg : ManagerConfig} {httpCfg : HttpConfig} {store : Store} {fs : Fs}
    {start : Int} {h : Hub} {s : Watched}
    (hreach : Reaches Hub.step anyEvent (startHub cfg httpCfg store fs start) h)
    (hrun : Reaches (Watched.step id key) (fun s event => unblocked id key s event = true)
      { hub := h } s) : s.Resolves := by
  have hunnamed : Unnamed h :=
    hreach.invariant (fun _ _ _ hinv _ hstep => unnamed_step hinv hstep) (unnamed_startHub _ _ _ _ _)
  have hquiet : s.Quiet := by
    refine hrun.invariant (fun _ _ _ hinv hclear hstep => hinv.step hclear hstep) ?_
    exact ⟨hunnamed, rfl, fun hmetadata => absurd hmetadata (by simp)⟩
  refine ⟨?_, fun move hmem => ?_, fun hmetadata _ => hquiet.queued hmetadata⟩
  · rw [hquiet.still]
    exact Nat.zero_le 1
  · rw [hquiet.still] at hmem
    exact absurd hmem List.not_mem_nil

/-- Once `handle_parsed` finds the task alive and its `save_path` an existing directory, the storage
is moved to where it is, and nothing later makes that good. -/
theorem not_resolves_of_blocked {cfg : ManagerConfig} {httpCfg : HttpConfig} {store : Store}
    {fs : Fs} {start : Int} {h : Hub} {s s' s'' : Watched} {event : HubEvent}
    {acquire : AcquireEnv} {alert : Alert} {i : Nat} {task : Task}
    (hreach : Reaches Hub.step anyEvent (startHub cfg httpCfg store fs start) h)
    (hrun : Reaches (Watched.step id key) anyEvent { hub := h } s)
    (hparsing : parsing id key s.hub event = some (acquire, alert, i))
    (hfound : parsedFor s.hub i = some task) (hkey : task.taskId = key)
    (hdelete : task.isDelete = false) (hdir : s.hub.world.fs task.savePath = some .dir)
    (hstep : s.step id key event = some s')
    (hrest : Reaches (Watched.step id key) anyEvent s' s'') : ¬ s''.Resolves := by
  have hunnamed : Unnamed s.hub := by
    refine hrun.invariant (fun _ _ _ hinv _ hstep => unnamed_step hinv (Watched.hub_step hstep)) ?_
    exact hreach.invariant (fun _ _ _ hinv _ hstep => unnamed_step hinv hstep)
      (unnamed_startHub _ _ _ _ _)
  have hmove : (⟨joinPath task.savePath "", true⟩ : Move) ∈ s'.moves := by
    obtain ⟨hub, -, rfl⟩ := Option.map_eq_some_iff.mp hstep
    have hown : (parsedFor s.hub i).filter (·.taskId = key) = some task := by
      rw [hfound]
      exact Option.filter_eq_some_iff.mpr ⟨rfl, decide_eq_true hkey⟩
    have hnameless := nameless_of_parsedFor hunnamed hfound
    simp only [hparsing, hown, Option.bind_some,
      parsedMove_of_nameless acquire hnameless hdelete hdir]
    exact List.mem_append_right _ (List.mem_singleton.mpr rfl)
  have hkept : (⟨joinPath task.savePath "", true⟩ : Move) ∈ s''.moves :=
    hrest.invariant (fun _ _ _ hmem _ hstep => Watched.mem_moves_step hmem hstep) hmove
  intro hresolves
  exact absurd (hresolves.fresh _ hkept) (by simp)

def oneDir : Fs := fun path => if path = oneLink.savePath then some .dir else none

/-- The directory is gone when the metadata comes: the task is queued. -/
theorem resolves_of_unblocked_gone :
    ∃ s : Watched, s.Resolves ∧ s.metadata = true ∧ s.status = some .queued := by
  have hrun : ((play Hub.step anyEvent firstHub
      [.disk oneDir, .add oneLink {} oneMagnet 0]).bind fun h =>
        (play (Watched.step 0 oneHash) (fun s event => unblocked 0 oneHash s event = true)
          { hub := h } [.alert {}, .disk fun _ => none,
            .libtorrent [oneTorrent] [.metadataReceived 0], .alert {}]).map fun s =>
              (s.metadata, s.status)) =
      some (true, some .queued) := by
    decide +kernel
  simp only [Option.bind_eq_some_iff, Option.map_eq_some_iff, Prod.mk.injEq] at hrun
  obtain ⟨h, hstart, s, hwatched, hmetadata, hstatus⟩ := hrun
  exact ⟨s, resolves_of_unblocked (reaches_of_play hstart) (reaches_of_play hwatched), hmetadata,
    hstatus⟩

/-- The directory is there, as the app made it: the storage is moved onto itself, and the answer of
that moves it once more. Only when the directory goes away the task is queued. -/
theorem not_resolves_onto_itself :
    ∃ h₀ h₁ : Hub, ∃ s : Watched, Reaches Hub.step anyEvent firstHub h₀ ∧
      h₀.world.fs oneLink.savePath = some .dir ∧
      h₀.step (.add oneLink {} oneMagnet 0) = some h₁ ∧
      (h₀.addTask oneLink {} oneMagnet 0).1.code = .none ∧
      Reaches (Watched.step 0 oneHash) anyEvent { hub := h₁ } s ∧
      s.metadata = true ∧ s.answered = s.moves.length ∧ ¬ s.Resolves := by
  have hrun : ((play Hub.step anyEvent firstHub [.disk oneDir]).bind fun h₀ =>
      (h₀.step (.add oneLink {} oneMagnet 0)).bind fun h₁ =>
        (play (Watched.step 0 oneHash) anyEvent { hub := h₁ }
          [.alert {}, .libtorrent [oneTorrent] [.metadataReceived 0], .alert {},
            .libtorrent [oneTorrent] [.storageMoved 0], .alert {},
            .disk fun _ => none, .libtorrent [oneTorrent] [.storageMoved 0], .alert {}]).map fun s =>
              (h₀.world.fs oneLink.savePath, (h₀.addTask oneLink {} oneMagnet 0).1.code,
                (s.metadata, s.answered), s.moves.map Move.existed)) =
      some (some .dir, .none, (true, 2), [true, true]) := by
    decide +kernel
  simp only [Option.bind_eq_some_iff, Option.map_eq_some_iff, Prod.mk.injEq] at hrun
  obtain ⟨h₀, hstart, h₁, hadd, s, hwatched, hdir, hcode, ⟨hmetadata, hanswered⟩, hmoves⟩ := hrun
  have htwo : s.moves.length = 2 := by
    rw [← List.length_map Move.existed, hmoves]
    rfl
  refine ⟨h₀, h₁, s, reaches_of_play hstart, hdir, hadd, hcode, reaches_of_play hwatched, hmetadata,
    hanswered.trans htwo.symm, fun hresolves => ?_⟩
  have honce := hresolves.once
  omega

end DownloadWrapper
