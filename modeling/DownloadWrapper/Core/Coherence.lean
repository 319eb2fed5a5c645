import DownloadWrapper.Core.Lifecycle

/-!
# The copies of the configuration

When the three copies agree on what `dw_set_config` documents as taking effect at run time. A start
brings them together, and no later call writes `g_cfg`; so the copies agree along a run exactly as
long as no call changes what is in force.
-/

namespace DownloadWrapper

open Transition

structure HttpSettings where
  connectTimeoutSeconds : Int
  requestTimeoutSeconds : Int
  lowSpeedLimitBps : Int
  lowSpeedTime : Int
  maxRetries : Int
  defaultParts : Int
  downloadRateLimit : Int
  verifySsl : Bool
  deriving DecidableEq

/-- What the scheduler and the BT engine go by. -/
structure HubSettings where
  maxConcurrentDownloads : Int
  uploadRateLimit : Int
  seedRatioLimit : ℚ
  deriving DecidableEq

namespace Config

variable (c cfg g : Config)

/-- Brought into range as `sync_config` does it. -/
def httpSettings : HttpSettings where
  connectTimeoutSeconds := if 0 < c.connectTimeoutSeconds then c.connectTimeoutSeconds else 15
  requestTimeoutSeconds := c.requestTimeoutSeconds
  lowSpeedLimitBps := if 0 ≤ c.lowSpeedLimitBps then c.lowSpeedLimitBps else 0
  lowSpeedTime := if 0 < c.lowSpeedTime then c.lowSpeedTime else 0
  maxRetries := if 0 ≤ c.maxRetries then c.maxRetries else 3
  defaultParts := if 0 < c.defaultParts then c.defaultParts else 4
  downloadRateLimit := if 0 < c.downloadRateLimit then c.downloadRateLimit else 0
  verifySsl := c.verifySsl

/-- Brought into range as `apply_config` and the seeding sweep do it: a ratio of 0 is 3, and every
negative one seeds for good. -/
def hubSettings : HubSettings where
  maxConcurrentDownloads := c.concurrency
  uploadRateLimit := c.uploadRateLimit
  seedRatioLimit :=
    if c.seedRatioLimit < 0 then -1 else if c.seedRatioLimit = 0 then 3 else c.seedRatioLimit

/-- **The settings a change is documented to reach at once.** -/
def runtime : HttpSettings × HubSettings := (c.httpSettings, c.hubSettings)

def Rejected : Prop := (TaskManager.applyConfig .defaults c).1.code ≠ .none

theorem rejected_iff : c.Rejected ↔ c.clientId = "" := by
  unfold Rejected TaskManager.applyConfig
  split <;> simp_all [SubmitResult.failure, SubmitResult.success]

@[simp] theorem runtime_applied : c.applied.runtime = c.runtime := by
  have hconcurrency : c.applied.concurrency = c.concurrency := by
    simp only [applied, concurrency]
    split_ifs <;> omega
  simp only [runtime, hubSettings, hconcurrency]
  rfl

@[simp] theorem httpSettings_syncConfig :
    (HttpEngine.syncConfig cfg g).httpSettings = cfg.httpSettings := by
  simp only [httpSettings, HttpEngine.syncConfig, HttpSettings.mk.injEq, and_true, true_and]
  refine ⟨?_, ?_, ?_, ?_, ?_, ?_⟩ <;> split_ifs <;> omega

@[simp] theorem hubSettings_syncConfig :
    (HttpEngine.syncConfig cfg g).hubSettings = g.hubSettings :=
  rfl

theorem runtime_eq_syncConfig_iff :
    cfg.runtime = (HttpEngine.syncConfig cfg g).runtime ↔ cfg.hubSettings = g.hubSettings := by
  simp [runtime]

end Config

namespace Library

/-- **Agreement.** All three copies are there and have the same settings in force. -/
def Agrees (l : Library) : Prop :=
  ∃ config, l.taskManager = some config ∧
    l.config.runtime = config.runtime ∧ config.runtime = l.gCfg.runtime

def configOf (l : Library) : LifecycleCall → Option Config
  | .init configJson _ => l.initConfig configJson
  | .destroy => none
  | .setConfig configJson =>
      if l.created then configJson.bind fun text => parseConfig text .defaults else none

def copies (l : Library) : Config × Option Config × Config := (l.config, l.taskManager, l.gCfg)

/-- **Coherence of one call.** A configuration `apply_config` turns down is answered with an error
and changes no copy, and an initialised downloader is left with copies that agree. -/
structure Coherent (l : Library) (call : LifecycleCall) : Prop where
  refuses : ∀ cfg, l.configOf call = some cfg → cfg.Rejected →
    (∃ response, (l.call call).1 = some response ∧ response.IsError) ∧
      (l.next call).copies = l.copies
  agrees : (l.next call).initialized = true → (l.next call).Agrees

def starts (l : Library) (env : InitEnv) : Bool :=
  (l.newHttp.gRunning || env.curl) && env.torrent && env.start

/-- **What a call may bring.** On an initialised downloader, a client and the settings in force. A
start brings the settings `sync_config` leaves out at their defaults; one without a client only
repeats the start that was refused before it. -/
def Accords (l : Library) : LifecycleCall → Prop
  | .init configJson env => ∀ cfg, l.initConfig configJson = some cfg →
      if l.initialized then cfg.clientId ≠ "" ∧ cfg.runtime = l.config.runtime
      else if cfg.clientId = "" then cfg = l.config ∧ l.taskManager = some .defaults
      else l.starts env = true → cfg.hubSettings = Config.defaults.hubSettings
  | .destroy => True
  | .setConfig configJson => ∀ cfg, l.configOf (.setConfig configJson) = some cfg →
      cfg.clientId ≠ "" ∧ (l.initialized = true → cfg.runtime = l.config.runtime)

/-! ### What each call does -/

section Calls

variable {l : Library} {cfg : Config} {env : InitEnv} {configJson : Option ConfigText}

/-- The settings of `g_cfg` that only the scheduler and the BT engine go by are the defaults. -/
def Bare (l : Library) : Prop := l.gCfg.hubSettings = Config.defaults.hubSettings

theorem destroyHttp_frame (l : Library) :
    ∃ engine running g, l.destroyHttp =
        { l with httpEngine := engine, gRunning := running, gCfg := g } ∧
      (g = l.gCfg ∨ g = .defaults) := by
  unfold destroyHttp
  split_ifs
  · exact ⟨_, _, _, rfl, Or.inr rfl⟩
  · exact ⟨_, _, _, rfl, Or.inl rfl⟩
  · exact ⟨_, _, _, rfl, Or.inl rfl⟩

theorem Bare.destroyHttp (h : l.Bare) : l.destroyHttp.Bare := by
  obtain ⟨engine, running, g, heq, hg⟩ := l.destroyHttp_frame
  rw [heq]
  cases hg with
  | inl hg => exact (congrArg Config.hubSettings hg).trans h
  | inr hg => exact congrArg Config.hubSettings hg

theorem gRunning_newHttp (l : Library) :
    l.newHttp.gRunning = (l.gRunning && l.httpEngine ≠ some true) := by
  unfold newHttp destroyHttp
  split_ifs with hengine hrunning
  · simp [hengine]
  · simp [hrunning]
  · simp [hengine]

/-- The engine of `initHttp` that is up: `g_cfg` follows the configuration. -/
def up (l : Library) (cfg : Config) : Library :=
  { l with gCfg := HttpEngine.syncConfig cfg l.gCfg, gRunning := true, httpEngine := some true }

theorem initHttp_of_up (h : (l.gRunning || env.curl) = true) :
    l.initHttp cfg env = (true, l.up cfg) :=
  if_pos h

theorem initHttp_of_down (h : (l.gRunning || env.curl) = false) :
    l.initHttp cfg env = (false, { l with gCfg := HttpEngine.syncConfig cfg l.gCfg }) := by
  simp [initHttp, h]

def started (l : Library) (cfg : Config) : Library := { l.newHttp.up cfg with initialized := true }

theorem startEngines_of_starts (h : l.starts env = true) :
    l.startEngines cfg env = (resultToJson .success, l.started cfg) := by
  simp only [starts, Bool.and_eq_true] at h
  obtain ⟨⟨hup, htorrent⟩, hstart⟩ := h
  simp [startEngines, initHttp_of_up hup, htorrent, hstart, started]

/-- A failed start leaves a downloader that is not initialised, whatever it did to the globals. -/
theorem startEngines_of_not_starts (h : l.starts env = false) (hl : l.initialized = false)
    (hbare : l.Bare) :
    (l.startEngines cfg env).2.initialized = false ∧ (l.startEngines cfg env).2.Bare := by
  have hnew : l.newHttp.initialized = false := by
    obtain ⟨engine, running, g, heq, -⟩ := l.destroyHttp_frame
    rw [newHttp, heq]
    exact hl
  have hbareNew : l.newHttp.Bare := hbare.destroyHttp
  unfold startEngines
  cases hup : l.newHttp.gRunning || env.curl with
  | false =>
      rw [initHttp_of_down hup]
      exact ⟨hnew, hbareNew⟩
  | true =>
      rw [initHttp_of_up hup]
      dsimp only
      split_ifs with htorrent hstart
      · obtain ⟨engine, running, g, heq, -⟩ := (l.newHttp.up cfg).destroyHttp_frame
        refine ⟨?_, Bare.destroyHttp hbareNew⟩
        rw [heq]
        exact hnew
      · exact ⟨hnew, hbareNew⟩
      · rw [Bool.not_eq_true, Bool.not_eq_false'] at htorrent hstart
        simp [starts, hup, htorrent, hstart] at h

theorem dwInit_of_unread (h : l.initConfig configJson = none) :
    l.dwInit configJson env =
      (resultToJson (.failure .invalidInput "非法输入"), { l with created := true }) := by
  have hcreated : ({ l with created := true } : Library).initConfig configJson = none := h
  simp [dwInit, hcreated]

def configured (l : Library) (cfg : Config) : Library := { l with created := true, config := cfg }

theorem dwInit_of_read (h : l.initConfig configJson = some cfg) :
    l.dwInit configJson env =
      if l.initialized then (resultToJson .success, l.configured cfg)
      else (l.configured cfg).startUp env := by
  have hcreated : ({ l with created := true } : Library).initConfig configJson = some cfg := h
  simp [dwInit, hcreated, configured]

def refused (l : Library) (cfg : Config) : Library :=
  { l.configured cfg with taskManager := some .defaults }

theorem startUp_of_rejected (h : cfg.clientId = "") :
    (l.configured cfg).startUp env = (resultToJson .failure, l.refused cfg) := by
  simp [startUp, TaskManager.applyConfig, configured, refused, h, SubmitResult.failure]

def ready (l : Library) (cfg : Config) : Library :=
  { l.configured cfg with taskManager := some cfg.applied }

theorem startUp_of_accepted (h : cfg.clientId ≠ "") :
    (l.configured cfg).startUp env = (l.ready cfg).startEngines cfg.applied env := by
  simp [startUp, TaskManager.applyConfig, configured, ready, h, SubmitResult.success]

theorem starts_ready : (l.ready cfg).starts env = l.starts env := by
  rw [starts, starts, gRunning_newHttp, gRunning_newHttp]
  rfl

theorem dwSetConfig_of_unread (h : l.configOf (.setConfig configJson) = none) :
    (l.dwSetConfig configJson).2 = l := by
  unfold dwSetConfig
  cases hcreated : l.created with
  | false => rfl
  | true =>
      cases configJson with
      | none => rfl
      | some text =>
          have hparse : parseConfig text .defaults = none := by simpa [configOf, hcreated] using h
          simp [hparse]

theorem dwSetConfig_of_read (h : l.configOf (.setConfig configJson) = some cfg) :
    l.dwSetConfig configJson = (makeSuccessResponse,
      { l with
        config := cfg
        taskManager := l.taskManager.map fun config => (TaskManager.applyConfig config cfg).2 }) := by
  unfold dwSetConfig
  cases hcreated : l.created with
  | false => simp [configOf, hcreated] at h
  | true =>
      cases configJson with
      | none => simp [configOf, hcreated] at h
      | some text =>
          have hparse : parseConfig text .defaults = some cfg := by simpa [configOf, hcreated] using h
          simp [hparse]

/-! ### The invariant of runs -/

structure Settled (l : Library) : Prop where
  created : l.initialized = true → l.created = true
  bare : l.Bare
  agrees : l.initialized = true → l.Agrees

theorem agrees_iff {m : Config} (h : l.taskManager = some m) :
    l.Agrees ↔ l.config.runtime = m.runtime ∧ m.runtime = l.gCfg.runtime := by
  simp [Agrees, h]

theorem Agrees.runtime_eq (h : l.Agrees) : l.config.runtime = l.gCfg.runtime := by
  obtain ⟨config, -, hfirst, hsecond⟩ := h
  exact hfirst.trans hsecond

/-- Where the copies agree, other settings in the first two agree with the third if they are those
in force. -/
theorem Agrees.replace_iff {m : Config} (h : l.Agrees) (hm : m.runtime = cfg.runtime) :
    Agrees { l with config := cfg, taskManager := some m } ↔ cfg.runtime = l.config.runtime := by
  obtain ⟨config, hsome, hconfig, hg⟩ := h
  rw [agrees_iff rfl, hm, hconfig, hg]
  simp

theorem agrees_started_iff {m : Config} (hbare : l.Bare) (hsome : l.taskManager = some m)
    (hm : m.runtime = l.config.runtime) :
    (l.started m).Agrees ↔ l.config.hubSettings = Config.defaults.hubSettings := by
  obtain ⟨engine, running, g, heq, -⟩ := l.destroyHttp_frame
  have hbareNew : l.newHttp.gCfg.hubSettings = Config.defaults.hubSettings := hbare.destroyHttp
  have hconfig : (l.started m).config = l.config := by
    simp only [started, up, newHttp, heq]
  have hmanager : (l.started m).taskManager = some m := by
    simp only [started, up, newHttp, heq, hsome]
  have hg : (l.started m).gCfg = HttpEngine.syncConfig m l.newHttp.gCfg := rfl
  have hhub : m.hubSettings = l.config.hubSettings := congrArg Prod.snd hm
  rw [agrees_iff hmanager, hconfig, hg, Config.runtime_eq_syncConfig_iff, hbareNew, hm, hhub]
  exact and_iff_right rfl

section Step

variable {event : LifecycleCall} {response : Response}

theorem coherent_of_accepted_iff (hconfig : l.configOf event = some cfg)
    (hclient : cfg.clientId ≠ "") :
    l.Coherent event ↔ ((l.next event).initialized = true → (l.next event).Agrees) := by
  constructor
  · exact fun h => h.agrees
  · intro h
    refine ⟨fun cfg' hcfg' hrejected => ?_, h⟩
    rw [hconfig] at hcfg'
    cases hcfg'
    exact absurd (cfg.rejected_iff.mp hrejected) hclient

theorem not_coherent_of_success (hconfig : l.configOf event = some cfg)
    (hclient : cfg.clientId = "") (hresponse : (l.call event).1 = some response)
    (hok : ¬response.IsError) : ¬l.Coherent event := by
  intro h
  obtain ⟨⟨answer, hanswer, herror⟩, -⟩ := h.refuses cfg hconfig (cfg.rejected_iff.mpr hclient)
  rw [hresponse] at hanswer
  cases hanswer
  exact hok herror

theorem coherent_init_rejected_iff (hread : l.initConfig configJson = some cfg)
    (hinit : l.initialized = false) (hclient : cfg.clientId = "") :
    l.Coherent (.init configJson env) ↔ cfg = l.config ∧ l.taskManager = some .defaults := by
  have hcall : l.call (.init configJson env) =
      (some (resultToJson .failure), l.refused cfg) := by
    simp [call, dwInit_of_read hread, hinit, startUp_of_rejected hclient]
  constructor
  · intro h
    have hcopies := (h.refuses cfg hread (cfg.rejected_iff.mpr hclient)).2
    simp only [next, hcall, copies, refused, configured, Prod.mk.injEq, and_true] at hcopies
    exact ⟨hcopies.1, hcopies.2.symm⟩
  · rintro ⟨hsame, hdefault⟩
    have herror : (resultToJson .failure).IsError := isError_resultToJson (by decide)
    refine ⟨fun _ _ _ => ⟨⟨_, congrArg Prod.fst hcall, herror⟩, ?_⟩, fun hnext => ?_⟩
    · simp [next, hcall, copies, refused, configured, hsame, hdefault]
    · simp [next, hcall, refused, configured, hinit] at hnext

variable (hs : l.Settled)
include hs

theorem Settled.coherent_of_frame (hconfig : l.configOf event = none)
    (hcopies : (l.next event).copies = l.copies)
    (hinit : (l.next event).initialized = true → l.initialized = true) : l.Coherent event := by
  refine ⟨fun cfg hcfg => by simp [hconfig] at hcfg, fun hnext => ?_⟩
  simp only [copies, Prod.mk.injEq] at hcopies
  unfold Agrees
  rw [hcopies.1, hcopies.2.1, hcopies.2.2]
  exact hs.agrees (hinit hnext)

/-- `dw_init` on an initialised downloader reads its text over the first copy and reports
success. -/
theorem Settled.coherent_init_running_iff (hread : l.initConfig configJson = some cfg)
    (hinit : l.initialized = true) :
    l.Coherent (.init configJson env) ↔
      cfg.clientId ≠ "" ∧ cfg.runtime = l.config.runtime := by
  have hcall : l.call (.init configJson env) =
      (some (resultToJson .success), l.configured cfg) := by
    simp [call, dwInit_of_read hread, hinit]
  have hconfig : l.configOf (.init configJson env) = some cfg := hread
  by_cases hclient : cfg.clientId = ""
  · have hnot := not_coherent_of_success hconfig hclient (congrArg Prod.fst hcall) (by decide)
    exact iff_of_false hnot fun h => h.1 hclient
  · obtain ⟨m, hsome, hfirst, hsecond⟩ := hs.agrees hinit
    have hagrees : (l.configured cfg).Agrees ↔ cfg.runtime = l.config.runtime := by
      rw [agrees_iff (l := l.configured cfg) hsome, hfirst]
      exact and_iff_left hsecond
    rw [coherent_of_accepted_iff hconfig hclient, next, hcall, hagrees]
    exact ⟨fun h => ⟨hclient, h hinit⟩, fun h _ => h.2⟩

theorem Settled.coherent_init_accepted_iff (hread : l.initConfig configJson = some cfg)
    (hinit : l.initialized = false) (hclient : cfg.clientId ≠ "") :
    l.Coherent (.init configJson env) ↔
      (l.starts env = true → cfg.hubSettings = Config.defaults.hubSettings) := by
  have hconfig : l.configOf (.init configJson env) = some cfg := hread
  have hnext : l.next (.init configJson env) =
      ((l.ready cfg).startEngines cfg.applied env).2 := by
    simp [next, call, dwInit_of_read hread, hinit, startUp_of_accepted hclient]
  have hstarts : (l.ready cfg).starts env = l.starts env := starts_ready
  rw [coherent_of_accepted_iff hconfig hclient, hnext]
  cases h : l.starts env with
  | false =>
      have hdown : ((l.ready cfg).startEngines cfg.applied env).2.initialized = false ∧ _ :=
        startEngines_of_not_starts (hstarts.trans h) hinit hs.bare
      simp [hdown.1]
  | true =>
      have hagrees : ((l.ready cfg).started cfg.applied).Agrees ↔ _ :=
        agrees_started_iff hs.bare rfl cfg.runtime_applied
      rw [startEngines_of_starts (hstarts.trans h), hagrees]
      exact ⟨fun h _ => h rfl, fun h _ => h rfl⟩

theorem Settled.coherent_init_iff :
    l.Coherent (.init configJson env) ↔ l.Accords (.init configJson env) := by
  cases hread : l.initConfig configJson with
  | none =>
      have hcall : l.dwInit configJson env = _ := dwInit_of_unread hread
      have hcoherent : l.Coherent (.init configJson env) := by
        have hconfig : l.configOf (.init configJson env) = none := hread
        apply hs.coherent_of_frame hconfig
        · simp [next, call, hcall, copies]
        · simp [next, call, hcall]
      exact iff_of_true hcoherent fun cfg hcfg => by simp [hread] at hcfg
  | some cfg =>
      have haccords : l.Accords (.init configJson env) ↔
          if l.initialized then cfg.clientId ≠ "" ∧ cfg.runtime = l.config.runtime
          else if cfg.clientId = "" then cfg = l.config ∧ l.taskManager = some .defaults
          else l.starts env = true → cfg.hubSettings = Config.defaults.hubSettings := by
        simp [Accords, hread]
      rw [haccords]
      split_ifs with hinit hclient
      · exact hs.coherent_init_running_iff hread hinit
      · exact coherent_init_rejected_iff hread (Bool.not_eq_true _ ▸ hinit) hclient
      · exact hs.coherent_init_accepted_iff hread (Bool.not_eq_true _ ▸ hinit) hclient

/-- `dw_set_config` reports success, so it must bring a client; and `g_cfg` does not follow it. -/
theorem Settled.coherent_setConfig_iff :
    l.Coherent (.setConfig configJson) ↔ l.Accords (.setConfig configJson) := by
  cases hconfig : l.configOf (.setConfig configJson) with
  | none =>
      have hnext : l.next (.setConfig configJson) = l := dwSetConfig_of_unread hconfig
      have hcoherent : l.Coherent (.setConfig configJson) :=
        hs.coherent_of_frame hconfig (by rw [hnext]) (by rw [hnext]; exact id)
      exact iff_of_true hcoherent fun cfg hcfg => by simp [hconfig] at hcfg
  | some cfg =>
      have haccords : l.Accords (.setConfig configJson) ↔
          cfg.clientId ≠ "" ∧ (l.initialized = true → cfg.runtime = l.config.runtime) := by
        simp [Accords, hconfig]
      have hcall := dwSetConfig_of_read hconfig
      rw [haccords]
      by_cases hclient : cfg.clientId = ""
      · have hresponse : (l.call (.setConfig configJson)).1 = some makeSuccessResponse := by
          simp [call, hcall]
        have hnot := not_coherent_of_success hconfig hclient hresponse (by decide)
        exact iff_of_false hnot fun h => h.1 hclient
      · have hnext : l.next (.setConfig configJson) =
            { l with config := cfg, taskManager := l.taskManager.map fun _ => cfg.applied } := by
          simp [next, call, hcall, TaskManager.applyConfig, hclient]
        rw [coherent_of_accepted_iff hconfig hclient, hnext]
        have hagrees (hinit : l.initialized = true) :
            Agrees { l with
              config := cfg, taskManager := l.taskManager.map fun _ => cfg.applied } ↔
              cfg.runtime = l.config.runtime := by
          obtain ⟨m, hsome, -⟩ := hs.agrees hinit
          rw [hsome]
          exact (hs.agrees hinit).replace_iff cfg.runtime_applied
        exact ⟨fun h => ⟨hclient, fun hinit => (hagrees hinit).mp (h hinit)⟩,
          fun h hinit => (hagrees hinit).mpr (h.2 hinit)⟩

theorem Settled.initialized_destroy : (l.next .destroy).initialized = false := by
  change l.dwDestroy.initialized = false
  unfold dwDestroy
  split_ifs with hcreated hinit
  · cases hl : l.initialized with
    | false => rfl
    | true => simp [hs.created hl] at hcreated
  · simpa using hinit
  · rfl

theorem Settled.coherent_destroy : l.Coherent .destroy := by
  refine ⟨fun cfg hcfg => by simp [configOf] at hcfg, fun hinit => ?_⟩
  rw [hs.initialized_destroy] at hinit
  cases hinit

theorem Settled.coherent_iff (event : LifecycleCall) : l.Coherent event ↔ l.Accords event := by
  cases event with
  | init configJson env => exact hs.coherent_init_iff
  | destroy => exact iff_of_true hs.coherent_destroy trivial
  | setConfig configJson => exact hs.coherent_setConfig_iff

theorem Settled.startUp (hinit : l.initialized = false) :
    (((l.configured cfg).startUp env).2.initialized = true →
      ((l.configured cfg).startUp env).2.created = true) ∧
      ((l.configured cfg).startUp env).2.Bare := by
  by_cases hclient : cfg.clientId = ""
  · rw [startUp_of_rejected hclient]
    exact ⟨fun _ => rfl, hs.bare⟩
  · rw [startUp_of_accepted hclient]
    cases hstarts : (l.ready cfg).starts env with
    | false =>
        obtain ⟨hdown, hbare⟩ :
            ((l.ready cfg).startEngines cfg.applied env).2.initialized = false ∧ _ :=
          startEngines_of_not_starts hstarts hinit hs.bare
        exact ⟨fun h => by simp [hdown] at h, hbare⟩
    | true =>
        rw [startEngines_of_starts hstarts]
        obtain ⟨engine, running, g, heq, -⟩ := (l.ready cfg).destroyHttp_frame
        have hbare : (l.ready cfg).newHttp.Bare := Bare.destroyHttp hs.bare
        refine ⟨fun _ => ?_, hbare⟩
        simp only [started, up, newHttp, heq]
        rfl

theorem Settled.next {event : LifecycleCall} (h : l.Coherent event) : (l.next event).Settled := by
  suffices hrest : ((l.next event).initialized = true → (l.next event).created = true) ∧
      (l.next event).Bare from ⟨hrest.1, hrest.2, h.agrees⟩
  cases event with
  | init configJson env =>
      change ((l.dwInit configJson env).2.initialized = true →
        (l.dwInit configJson env).2.created = true) ∧ (l.dwInit configJson env).2.Bare
      cases hread : l.initConfig configJson with
      | none =>
          rw [dwInit_of_unread hread]
          exact ⟨fun _ => rfl, hs.bare⟩
      | some cfg =>
          rw [dwInit_of_read hread]
          split_ifs with hinit
          · exact ⟨fun _ => rfl, hs.bare⟩
          · exact hs.startUp (Bool.not_eq_true _ ▸ hinit)
  | destroy =>
      refine ⟨fun hinit => by simp [hs.initialized_destroy] at hinit, ?_⟩
      change l.dwDestroy.Bare
      unfold dwDestroy
      split_ifs
      · exact hs.bare
      · exact hs.bare
      · exact hs.bare.destroyHttp
  | setConfig configJson =>
      change ((l.dwSetConfig configJson).2.initialized = true →
        (l.dwSetConfig configJson).2.created = true) ∧ (l.dwSetConfig configJson).2.Bare
      cases hconfig : l.configOf (.setConfig configJson) with
      | none =>
          rw [dwSetConfig_of_unread hconfig]
          exact ⟨hs.created, hs.bare⟩
      | some cfg =>
          rw [dwSetConfig_of_read hconfig]
          exact ⟨hs.created, hs.bare⟩

end Step

end Calls

theorem settled_start : Settled {} where
  created := fun h => by cases h
  bare := rfl
  agrees := fun h => by cases h

/-- **Coherence of the copies.** The calls from the start of the process on are all coherent exactly
as long as each of them brings what it may. -/
theorem coherent_along_iff (calls : List LifecycleCall) :
    Along next Coherent {} calls ↔ Along next Accords {} calls :=
  along_iff (fun _ _ hs h => hs.next h) (fun _ event hs => hs.coherent_iff event) settled_start calls

/-- A new connect timeout on a running downloader reaches the manager and not the connections. -/
theorem not_coherent_connect_timeout :
    ¬Along next Coherent {}
      [.init (some (.value (.object [("client_id", .string "c")]))) ⟨true, true, true⟩,
        .setConfig (some (.value (.object
          [("client_id", .string "c"), ("connect_timeout", .number (some 5) 5)])))] := by
  rintro ⟨-, hcoherent, -⟩
  have hsame := (hcoherent.agrees (by decide +kernel)).runtime_eq
  exact absurd hsame (by decide +kernel)

end Library

end DownloadWrapper
