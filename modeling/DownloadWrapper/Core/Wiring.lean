import DownloadWrapper.Core.Coherence

/-!
# The engines and their manager

`dw_init` makes a manager and two engines, and each engine keeps the manager in a global of its own. The
managers are numbered in the order in which they are made, so that a global that outlives its manager can
be told from one that follows the next.
-/

namespace DownloadWrapper

open Transition

/-- What the process holds, with the objects behind it. -/
structure Process where
  library : Library := {}
  /-- How many managers have been made. -/
  made : Nat := 0
  /-- The manager of `g_downloader`. -/
  manager : Option Nat := none
  /-- The HTTP engine's `g_task_manager`. -/
  httpManager : Option Nat := none
  /-- The BT engine object, by its `initialized_`. -/
  torrentEngine : Option Bool := none
  /-- The BT engine's `g_task_manager`. -/
  torrentManager : Option Nat := none
  /-- The BT engine's `g_running`: its session is there and its threads run. -/
  torrentRunning : Bool := false
  deriving DecidableEq

namespace Process

/-- `HttpEngine::destroy`, which is also what the destructor of a running engine does. -/
def destroyHttp (p : Process) : Process :=
  { p with
    library := p.library.destroyHttp
    httpManager :=
      if p.library.httpEngine = some true ∧ p.library.gRunning = true then none else p.httpManager }

/-- The new engine is there before the one in its place goes. -/
def newHttp (manager : Nat) (p : Process) : Process :=
  let p := { p with httpManager := some manager }.destroyHttp
  { p with library := { p.library with httpEngine := some false } }

/-- `TorrentEngine::destroy`, which is also what the destructor of a running engine does. -/
def destroyTorrent (p : Process) : Process :=
  if p.torrentEngine = some true then
    { p with torrentEngine := some false, torrentRunning := false, torrentManager := none }
  else p

def newTorrent (manager : Nat) (p : Process) : Process :=
  { { p with torrentManager := some manager }.destroyTorrent with torrentEngine := some false }

/-- `TorrentEngine::init` that comes to its end; it asks the engine's own manager, not the global one. -/
def initTorrent (p : Process) : Process := { p with torrentEngine := some true, torrentRunning := true }

/-- `dw_init` from the HTTP engine's start on. -/
def startTorrent (env : InitEnv) (p : Process) : Response × Process :=
  if !env.torrent then (resultToJson (.failure .error "BT 引擎初始化失败"), p.destroyHttp)
  else if !env.start then
    (resultToJson (.failure .error "下载器启动失败"),
      { p.initTorrent with library := { p.library with taskManager := none }, manager := none })
  else
    (resultToJson .success, { p.initTorrent with library := { p.library with initialized := true } })

/-- `dw_init` from the applied configuration on, with the manager it has made. -/
def startEngines (manager : Nat) (cfg : Config) (env : InitEnv) (p : Process) : Response × Process :=
  let p := (p.newHttp manager).newTorrent manager
  match p.library.initHttp cfg env with
  | (false, l) => (resultToJson (.failure .error "HTTP 引擎初始化失败"), { p with library := l })
  | (true, l) => { p with library := l }.startTorrent env

/-- `dw_init` on a downloader that has to start, with its configuration already in place. -/
def startUp (env : InitEnv) (p : Process) : Response × Process :=
  let (result, config) := TaskManager.applyConfig .defaults p.library.config
  let number := p.made
  let p :=
    { p with
      library := { p.library with taskManager := some config }
      made := number + 1
      manager := some number }
  if result.code ≠ .none then (resultToJson result, p) else p.startEngines number config env

def dwInit (configJson : Option ConfigText) (env : InitEnv) (p : Process) : Response × Process :=
  let p := { p with library := { p.library with created := true } }
  match p.library.initConfig configJson with
  | none => (resultToJson (.failure .invalidInput "非法输入"), p)
  | some cfg =>
      let p := { p with library := { p.library with config := cfg } }
      if p.library.initialized then (resultToJson .success, p) else p.startUp env

def dwDestroy (p : Process) : Process :=
  if !p.library.created then p
  else if !p.library.initialized then p
  else
    let p := p.destroyHttp.destroyTorrent
    { p with
      library :=
        { p.library with
          httpEngine := none, taskManager := none, config := .defaults, initialized := false }
      manager := none
      torrentEngine := none }

def dwSetConfig (configJson : Option ConfigText) (p : Process) : Response × Process :=
  ((p.library.dwSetConfig configJson).1, { p with library := (p.library.dwSetConfig configJson).2 })

def call (p : Process) : LifecycleCall → Option Response × Process
  | .init configJson env => ((p.dwInit configJson env).1, (p.dwInit configJson env).2)
  | .destroy => (none, p.dwDestroy)
  | .setConfig configJson => ((p.dwSetConfig configJson).1, (p.dwSetConfig configJson).2)

def next (p : Process) (call : LifecycleCall) : Process := (p.call call).2

/-! ### The process over the library -/

theorem library_destroyTorrent (p : Process) : p.destroyTorrent.library = p.library := by
  unfold destroyTorrent
  split_ifs <;> rfl

theorem library_newTorrent (manager : Nat) (p : Process) : (p.newTorrent manager).library = p.library :=
  library_destroyTorrent _

theorem library_newHttp (manager : Nat) (p : Process) :
    (p.newHttp manager).library = p.library.newHttp := rfl

theorem startEngines_library (manager : Nat) (cfg : Config) (env : InitEnv) (p : Process) :
    ((p.startEngines manager cfg env).1, (p.startEngines manager cfg env).2.library) =
      p.library.startEngines cfg env := by
  have hlibrary : ((p.newHttp manager).newTorrent manager).library = p.library.newHttp :=
    library_newTorrent ..
  unfold startEngines Library.startEngines
  dsimp only
  rw [hlibrary]
  rcases p.library.newHttp.initHttp cfg env with ⟨up, l⟩
  cases up with
  | false => rfl
  | true =>
      dsimp only [startTorrent]
      split_ifs <;> rfl

theorem startUp_library (env : InitEnv) (p : Process) :
    ((p.startUp env).1, (p.startUp env).2.library) = p.library.startUp env := by
  unfold startUp Library.startUp
  dsimp only
  split_ifs
  · rfl
  · exact startEngines_library _ _ _ _

theorem dwInit_library (configJson : Option ConfigText) (env : InitEnv) (p : Process) :
    ((p.dwInit configJson env).1, (p.dwInit configJson env).2.library) =
      p.library.dwInit configJson env := by
  unfold dwInit Library.dwInit
  dsimp only
  cases ({ p.library with created := true } : Library).initConfig configJson with
  | none => rfl
  | some cfg =>
      dsimp only
      split_ifs
      · rfl
      · exact startUp_library ..

theorem dwDestroy_library (p : Process) : p.dwDestroy.library = p.library.dwDestroy := by
  unfold dwDestroy Library.dwDestroy
  split_ifs
  · rfl
  · rfl
  · dsimp only
    rw [library_destroyTorrent]
    rfl

theorem call_library (p : Process) (call : LifecycleCall) :
    ((p.call call).1, (p.call call).2.library) = p.library.call call := by
  cases call with
  | init configJson env =>
      have h := dwInit_library configJson env p
      simp only [Process.call, Library.call, ← h]
  | destroy => exact Prod.ext rfl (dwDestroy_library p)
  | setConfig configJson => rfl

/-! ### What is asked of the engines' globals -/

/-- **Wired.** The engines of an initialised downloader have its manager, and the threads of the BT engine
have a manager that is there for as long as they run. -/
structure Wired (p : Process) : Prop where
  engines : p.library.initialized = true →
    ∃ m, p.manager = some m ∧ p.httpManager = some m ∧ p.torrentManager = some m
  threads : p.torrentRunning = true → ∃ m, p.manager = some m ∧ p.torrentManager = some m

def StartFails (p : Process) : LifecycleCall → Prop
  | .init configJson env =>
      p.library.initialized = false ∧
        (∃ cfg, p.library.initConfig configJson = some cfg ∧ cfg.clientId ≠ "") ∧
        (p.library.newHttp.gRunning || env.curl) = true ∧ env.torrent = true ∧ env.start = false
  | _ => False

structure Idle (p : Process) : Prop where
  httpEngine : p.library.httpEngine ≠ some true
  torrentEngine : p.torrentEngine ≠ some true
  torrentRunning : p.torrentRunning = false

structure Settled (p : Process) : Prop where
  wired : p.Wired
  torrent : p.torrentRunning = true → p.torrentEngine = some true
  idle : p.library.initialized = false → p.Idle

section Step

variable {p : Process} {manager : Nat} {cfg : Config} {env : InitEnv} {configJson : Option ConfigText}

theorem Idle.wired (h : p.Idle) (hinit : p.library.initialized = false) : p.Wired where
  engines := fun hup => absurd (hinit.symm.trans hup) Bool.false_ne_true
  threads := fun hrunning => absurd (h.torrentRunning.symm.trans hrunning) Bool.false_ne_true

theorem Idle.settled (h : p.Idle) (hinit : p.library.initialized = false) : p.Settled where
  wired := h.wired hinit
  torrent := fun hrunning => absurd (h.torrentRunning.symm.trans hrunning) Bool.false_ne_true
  idle := fun _ => h

def fitted (p : Process) (manager : Nat) : Process :=
  { p with
    library := { p.library with httpEngine := some false }
    httpManager := some manager
    torrentManager := some manager
    torrentEngine := some false }

theorem Idle.newHttp_newTorrent (h : p.Idle) : (p.newHttp manager).newTorrent manager = p.fitted manager := by
  have hhttp : ({ p with httpManager := some manager } : Process).destroyHttp =
      { p with httpManager := some manager } := by
    simp [destroyHttp, Library.destroyHttp, h.httpEngine]
  simp [newHttp, hhttp, newTorrent, destroyTorrent, h.torrentEngine, fitted]

theorem Idle.newHttp_library (h : p.Idle) :
    p.library.newHttp = { p.library with httpEngine := some false } := by
  simp [Library.newHttp, Library.destroyHttp, h.httpEngine]

theorem Idle.startEngines (h : p.Idle) (hmanager : p.manager = some manager)
    (hinit : p.library.initialized = false) :
    let q := (p.startEngines manager cfg env).2
    (q.Wired ↔ ¬ ((p.library.gRunning || env.curl) = true ∧ env.torrent = true ∧ env.start = false)) ∧
      (q.Wired → q.Settled) := by
  have hrunning : (p.fitted manager).library.gRunning = p.library.gRunning := rfl
  simp only [Process.startEngines, h.newHttp_newTorrent]
  cases hup : p.library.gRunning || env.curl with
  | false =>
      rw [Library.initHttp_of_down (by rw [hrunning, hup])]
      have hidle : Idle { p.fitted manager with
          library := { (p.fitted manager).library with
            gCfg := HttpEngine.syncConfig cfg (p.fitted manager).library.gCfg } } :=
        ⟨by simp [fitted], by simp [fitted], h.torrentRunning⟩
      exact ⟨iff_of_true (hidle.wired hinit) (by simp), fun _ => hidle.settled hinit⟩
  | true =>
      rw [Library.initHttp_of_up (by rw [hrunning, hup])]
      dsimp only [startTorrent]
      cases htorrent : env.torrent with
      | false =>
          have hidle : Idle ({ p.fitted manager with
              library := (p.fitted manager).library.up cfg } : Process).destroyHttp :=
            ⟨by simp [destroyHttp, Library.destroyHttp, Library.up], by simp [destroyHttp, fitted],
              h.torrentRunning⟩
          have hdown : ({ p.fitted manager with
              library := (p.fitted manager).library.up cfg } : Process).destroyHttp.library.initialized =
                false := by
            simp [destroyHttp, Library.destroyHttp, Library.up, fitted, hinit]
          exact ⟨iff_of_true (hidle.wired hdown) (by simp), fun _ => hidle.settled hdown⟩
      | true =>
          cases hstart : env.start with
          | false =>
              -- the threads run, and their manager is gone
              refine ⟨iff_of_false (fun hwired => ?_) (by simp), fun hwired => ?_⟩ <;>
                · obtain ⟨m, hnone, -⟩ := hwired.threads rfl
                  simp at hnone
          | true =>
              have hengines : ∃ m, p.manager = some m ∧ (p.fitted manager).httpManager = some m ∧
                  (p.fitted manager).torrentManager = some m := ⟨manager, hmanager, rfl, rfl⟩
              refine ⟨iff_of_true ⟨fun _ => hengines, fun _ => ?_⟩ (by simp), fun hwired =>
                ⟨hwired, fun _ => rfl, fun hdown => ?_⟩⟩
              · exact ⟨manager, hmanager, rfl⟩
              · simp at hdown

theorem Settled.of_library (hs : p.Settled) {l : Library} (hinit : l.initialized = p.library.initialized)
    (hengine : l.httpEngine = p.library.httpEngine) : Settled { p with library := l } where
  wired := ⟨fun hup => hs.wired.engines (hinit ▸ hup), hs.wired.threads⟩
  torrent := hs.torrent
  idle := fun hdown => ⟨hengine ▸ (hs.idle (hinit ▸ hdown)).1, (hs.idle (hinit ▸ hdown)).2,
    (hs.idle (hinit ▸ hdown)).3⟩

theorem dwInit_of_unread (h : p.library.initConfig configJson = none) :
    (p.dwInit configJson env).2 = { p with library := { p.library with created := true } } := by
  have hcreated : ({ p.library with created := true } : Library).initConfig configJson = none := h
  simp [dwInit, hcreated]

def configured (p : Process) (cfg : Config) : Process :=
  { p with library := p.library.configured cfg }

theorem dwInit_of_read (h : p.library.initConfig configJson = some cfg) :
    (p.dwInit configJson env).2 =
      if p.library.initialized then p.configured cfg else ((p.configured cfg).startUp env).2 := by
  have hcreated : ({ p.library with created := true } : Library).initConfig configJson = some cfg := h
  simp only [dwInit, hcreated, configured, Library.configured]
  split_ifs <;> rfl

def managed (p : Process) (config : Config) : Process :=
  { p with
    library := { p.library with taskManager := some config }
    made := p.made + 1
    manager := some p.made }

theorem startUp_of_rejected (h : cfg.clientId = "") :
    ((p.configured cfg).startUp env).2 = (p.configured cfg).managed .defaults := by
  simp [startUp, TaskManager.applyConfig, configured, Library.configured, managed, h, SubmitResult.failure]

theorem startUp_of_accepted (h : cfg.clientId ≠ "") :
    (p.configured cfg).startUp env =
      ((p.configured cfg).managed cfg.applied).startEngines p.made cfg.applied env := by
  simp [startUp, TaskManager.applyConfig, configured, Library.configured, managed, h, SubmitResult.success]

/-- What `dw_init` leaves is wired if its start does not fail, and settled if it is wired. -/
theorem Settled.init_iff (hs : p.Settled) :
    ((p.dwInit configJson env).2.Wired ↔ ¬ p.StartFails (.init configJson env)) ∧
      ((p.dwInit configJson env).2.Wired → (p.dwInit configJson env).2.Settled) := by
  cases hread : p.library.initConfig configJson with
  | none =>
      have hsettled : (p.dwInit configJson env).2.Settled := by
        rw [dwInit_of_unread hread]
        exact hs.of_library rfl rfl
      exact ⟨iff_of_true hsettled.wired (by simp [StartFails, hread]), fun _ => hsettled⟩
  | some cfg =>
      rw [dwInit_of_read hread]
      cases hinit : p.library.initialized with
      | true =>
          have hsettled : (p.configured cfg).Settled := hs.of_library rfl rfl
          simp only [if_true]
          exact ⟨iff_of_true hsettled.wired (by simp [StartFails, hinit]), fun _ => hsettled⟩
      | false =>
          have hidle := hs.idle hinit
          simp only [Bool.false_eq_true, if_false]
          by_cases hclient : cfg.clientId = ""
          · have hstill : ((p.configured cfg).managed .defaults).Idle := ⟨hidle.1, hidle.2, hidle.3⟩
            rw [startUp_of_rejected hclient]
            refine ⟨iff_of_true (hstill.wired hinit) ?_, fun _ => hstill.settled hinit⟩
            simp [StartFails, hread, hclient]
          · have hready : ((p.configured cfg).managed cfg.applied).Idle := ⟨hidle.1, hidle.2, hidle.3⟩
            rw [startUp_of_accepted hclient]
            have hstart := @Idle.startEngines _ _ cfg.applied env hready rfl hinit
            have hfails : p.StartFails (.init configJson env) ↔
                (p.library.gRunning || env.curl) = true ∧ env.torrent = true ∧ env.start = false := by
              simp [StartFails, hinit, hread, hclient, hidle.newHttp_library]
            rw [hfails]
            exact hstart

theorem Settled.setConfig (hs : p.Settled) : (p.next (.setConfig configJson)).Settled := by
  refine hs.of_library ?_ ?_ <;>
    · cases hconfig : p.library.configOf (.setConfig configJson) with
      | none => rw [Library.dwSetConfig_of_unread hconfig]
      | some cfg => rw [Library.dwSetConfig_of_read hconfig]

theorem Settled.destroy (hs : p.Settled) : (p.next .destroy).Settled := by
  change p.dwDestroy.Settled
  unfold dwDestroy
  split_ifs with hcreated hinit
  · exact hs
  · exact hs
  · refine Idle.settled ⟨by simp, by simp, ?_⟩ rfl
    dsimp only [destroyTorrent]
    split_ifs with hengine
    · rfl
    · exact Bool.not_eq_true _ ▸ fun hrunning => hengine (hs.torrent hrunning)

/-- What a call leaves is wired if its start does not fail, and settled if it is wired. -/
theorem Settled.next_iff (hs : p.Settled) (event : LifecycleCall) :
    ((p.next event).Wired ↔ ¬ p.StartFails event) ∧ ((p.next event).Wired → (p.next event).Settled) := by
  cases event with
  | init configJson env => exact hs.init_iff
  | destroy => exact ⟨iff_of_true hs.destroy.wired not_false, fun _ => hs.destroy⟩
  | setConfig configJson => exact ⟨iff_of_true hs.setConfig.wired not_false, fun _ => hs.setConfig⟩

end Step

theorem settled_initial : Settled {} :=
  Idle.settled ⟨by simp, by simp, rfl⟩ rfl

/-- **The engines have their manager.** From the start of the process on, every call leaves the engines
wired exactly as long as no `dw_init` fails at the start of the manager. -/
theorem wired_along_iff (calls : List LifecycleCall) :
    Along next (fun p call => (p.next call).Wired) {} calls ↔
      Along next (fun p call => ¬ p.StartFails call) {} calls :=
  along_iff (fun _ call hs hwired => (hs.next_iff call).2 hwired) (fun _ call hs => (hs.next_iff call).1)
    settled_initial calls

/-! ### After a start that failed -/

structure Stale (p : Process) : Prop where
  initialized : p.library.initialized = false
  httpEngine : p.library.httpEngine = some true
  gRunning : p.library.gRunning = true
  torrentEngine : p.torrentEngine = some true

/-- **Orphaned.** The engines of an initialised downloader have no manager, and a start will bring them
none. -/
def Orphaned (p : Process) : Prop :=
  p.Stale ∨ p.library.initialized = true ∧ p.httpManager = none ∧ p.torrentManager = none

def Heals (p : Process) : LifecycleCall → Prop
  | .init configJson env =>
      p.library.initialized = false ∧
        (∃ cfg, p.library.initConfig configJson = some cfg ∧ cfg.clientId ≠ "") ∧
        (env.curl = false ∨ env.torrent = false)
  | .destroy => p.library.created = true ∧ p.library.initialized = true
  | .setConfig _ => False

section Orphans

variable {p : Process} {manager : Nat} {cfg : Config} {env : InitEnv} {configJson : Option ConfigText}

theorem startTorrent_of_startFails (htorrent : env.torrent = true) (hstart : env.start = false)
    (hinit : p.library.initialized = false) (hengine : p.library.httpEngine = some true)
    (hrunning : p.library.gRunning = true) : (p.startTorrent env).2.Stale := by
  simp only [startTorrent, htorrent, hstart, Bool.not_true, Bool.not_false, Bool.false_eq_true, if_false,
    if_true]
  exact ⟨hinit, hengine, hrunning, rfl⟩

theorem StartFails.stale {event : LifecycleCall} (h : p.StartFails event) : (p.next event).Stale := by
  cases event with
  | destroy => cases h
  | setConfig => cases h
  | init configJson env =>
      obtain ⟨hinit, ⟨cfg, hread, hclient⟩, hup, htorrent, hstart⟩ := h
      change (p.dwInit configJson env).2.Stale
      rw [dwInit_of_read hread, if_neg (by simp [hinit]), startUp_of_accepted hclient]
      have hlibrary : ((((p.configured cfg).managed cfg.applied).newHttp p.made).newTorrent
          p.made).library = ((p.configured cfg).managed cfg.applied).library.newHttp :=
        library_newTorrent ..
      have hdown : ((p.configured cfg).managed cfg.applied).library.newHttp.initialized = false := by
        obtain ⟨engine, running, g, heq, -⟩ :=
          ((p.configured cfg).managed cfg.applied).library.destroyHttp_frame
        rw [Library.newHttp, heq]
        exact hinit
      have hup' : (((p.configured cfg).managed cfg.applied).library.newHttp.gRunning || env.curl) = true := by
        rw [Library.gRunning_newHttp] at hup ⊢
        exact hup
      simp only [startEngines]
      rw [hlibrary, Library.initHttp_of_up hup']
      exact startTorrent_of_startFails htorrent hstart hdown rfl rfl

def orphans (p : Process) : Process :=
  { p with
    library := { p.library with httpEngine := some false, gRunning := false, gCfg := .defaults }
    httpManager := none
    torrentEngine := some false
    torrentRunning := false
    torrentManager := none }

theorem Stale.newHttp_newTorrent (h : p.Stale) :
    (p.newHttp manager).newTorrent manager = p.orphans := by
  simp [newHttp, destroyHttp, Library.destroyHttp, newTorrent, destroyTorrent, orphans, h.httpEngine,
    h.gRunning, h.torrentEngine]

theorem Stale.startEngines (h : p.Stale) :
    (p.startEngines manager cfg env).2.Orphaned ↔ ¬ (env.curl = false ∨ env.torrent = false) := by
  have hinit : p.orphans.library.initialized = false := h.initialized
  have hrunning : p.orphans.library.gRunning = false := rfl
  simp only [Process.startEngines, h.newHttp_newTorrent]
  cases hcurl : env.curl with
  | false =>
      rw [Library.initHttp_of_down (by rw [hrunning, hcurl]; rfl)]
      refine iff_of_false ?_ (by simp)
      rintro (hstale | ⟨hup, -⟩)
      · exact absurd hstale.httpEngine (by simp [orphans])
      · exact absurd (hinit.symm.trans hup) (by simp)
  | true =>
      rw [Library.initHttp_of_up (by rw [hcurl, Bool.or_true])]
      cases htorrent : env.torrent with
      | false =>
          refine iff_of_false ?_ (by simp)
          simp only [startTorrent, htorrent, Bool.not_false, if_true]
          rintro (hstale | ⟨hup, -⟩)
          · exact absurd hstale.httpEngine (by simp [destroyHttp, Library.destroyHttp, Library.up])
          · simp [destroyHttp, Library.destroyHttp, Library.up, hinit] at hup
      | true =>
          refine iff_of_true ?_ (by simp)
          cases hstart : env.start with
          | false => exact Or.inl (startTorrent_of_startFails htorrent hstart hinit rfl rfl)
          | true =>
              simp only [startTorrent, htorrent, hstart, Bool.not_true, Bool.false_eq_true, if_false]
              exact Or.inr ⟨rfl, rfl, rfl⟩

theorem Orphaned.init_iff (h : p.Orphaned) :
    (p.dwInit configJson env).2.Orphaned ↔ ¬ p.Heals (.init configJson env) := by
  have hframe : ∀ l : Library, l.initialized = p.library.initialized →
      l.httpEngine = p.library.httpEngine → l.gRunning = p.library.gRunning →
      Orphaned { p with library := l } := by
    intro l hinit hengine hrunning
    refine h.imp (fun hstale => ?_) fun hup => ⟨hinit.trans hup.1, hup.2⟩
    exact ⟨hinit.trans hstale.1, hengine.trans hstale.2, hrunning.trans hstale.3, hstale.4⟩
  cases hread : p.library.initConfig configJson with
  | none =>
      rw [dwInit_of_unread hread]
      exact iff_of_true (hframe _ rfl rfl rfl) (by simp [Heals, hread])
  | some cfg =>
      rw [dwInit_of_read hread]
      cases hinit : p.library.initialized with
      | true =>
          simp only [if_true]
          exact iff_of_true (hframe _ rfl rfl rfl) (by simp [Heals, hinit])
      | false =>
          have hstale : p.Stale := h.resolve_right fun hup => absurd (hinit.symm.trans hup.1) (by simp)
          simp only [Bool.false_eq_true, if_false]
          by_cases hclient : cfg.clientId = ""
          · rw [startUp_of_rejected hclient]
            refine iff_of_true (Or.inl ⟨hstale.1, hstale.2, hstale.3, hstale.4⟩) ?_
            simp [Heals, hread, hclient]
          · have hready : ((p.configured cfg).managed cfg.applied).Stale :=
              ⟨hstale.1, hstale.2, hstale.3, hstale.4⟩
            rw [startUp_of_accepted hclient, hready.startEngines]
            simp [Heals, hinit, hread, hclient]

theorem Orphaned.next_iff (h : p.Orphaned) (event : LifecycleCall) :
    (p.next event).Orphaned ↔ ¬ p.Heals event := by
  cases event with
  | init configJson env => exact h.init_iff
  | setConfig configJson =>
      refine iff_of_true ?_ not_false
      cases hconfig : p.library.configOf (.setConfig configJson) with
      | none =>
          simp only [Process.next, Process.call, dwSetConfig, Library.dwSetConfig_of_unread hconfig]
          exact h
      | some cfg =>
          simp only [Process.next, Process.call, dwSetConfig, Library.dwSetConfig_of_read hconfig]
          exact h.imp (fun hstale => ⟨hstale.1, hstale.2, hstale.3, hstale.4⟩) id
  | destroy =>
      change p.dwDestroy.Orphaned ↔ _
      unfold dwDestroy
      split_ifs with hcreated hinit
      · exact iff_of_true h fun hheals => by simp [hheals.1] at hcreated
      · exact iff_of_true h fun hheals => by simp [hheals.2] at hinit
      · refine iff_of_false ?_ (not_not.mpr ⟨by simpa using hcreated, by simpa using hinit⟩)
        rintro (hstale | ⟨hup, -⟩)
        · exact absurd hstale.httpEngine (by simp)
        · simp at hup

/-- **A failed start is not made good by the next.** After a `dw_init` that failed at the start of the
manager, the engines stay without one, also in a downloader that a later `dw_init` reports as initialised,
exactly as long as no call takes the engines down without bringing up others. -/
theorem orphaned_along_iff {event : LifecycleCall} (h : p.StartFails event) (calls : List LifecycleCall) :
    Along next (fun p call => (p.next call).Orphaned) (p.next event) calls ↔
      Along next (fun p call => ¬ p.Heals call) (p.next event) calls := by
  have horphaned : (p.next event).Orphaned := Or.inl h.stale
  exact @along_iff Process LifecycleCall next _ _ Orphaned (fun _ _ _ hnext => hnext)
    (fun _ call hq => hq.next_iff call) _ horphaned calls

theorem orphaned_second_try :
    Along next (fun p call => (p.next call).Orphaned)
      (({} : Process).next (.init (some (.value (.object [("client_id", .string "c")]))) ⟨true, true, false⟩))
      [.init none ⟨true, true, true⟩] := by
  refine (orphaned_along_iff (p := {}) ?_ _).mpr ?_
  · refine ⟨rfl, ⟨_, rfl, ?_⟩, rfl, rfl, rfl⟩
    decide +kernel
  · exact ⟨fun hheals => by simp [Heals] at hheals, trivial⟩

end Orphans

end Process

end DownloadWrapper
