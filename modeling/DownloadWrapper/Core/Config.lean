import DownloadWrapper.Core.Scheduler
import DownloadWrapper.Http.Types
import Mathlib.Algebra.Group.Nat.Defs
import Mathlib.Data.Int.DivMod

/-!
# The configuration

The `Config` record, how a JSON text changes one, and what the manager and the HTTP engine make of
it when they take their copies. The C structure of the interface is not read by any of it.
-/

namespace DownloadWrapper

/-- A JSON value as the parser hands it out. A number comes with its `int64_t`, if it is kept as
one, and with the double it converts to; an object has one member a key. -/
inductive Json where
  | null
  | bool (b : Bool)
  | number (int64 : Option Int) (double : ℚ)
  | string (s : String)
  | array (elems : List Json)
  | object (members : List (String × Json))

def Json.ofInt (n : Int) : Json := .number (some n) n

/-- The text of a call, by what the parser makes of it. The empty text does not parse either; it is
kept apart because `dw_init` asks for it. -/
inductive ConfigText where
  | empty
  | malformed
  | value (json : Json)

def ifContains (obj : List (String × Json)) (key : String) : Option Json :=
  (obj.find? fun member => member.1 = key).map Prod.snd

/-- A string through `c_str()`: it ends at the first NUL. -/
def cStr (s : String) : String :=
  String.ofList (s.toList.takeWhile fun c => c.toNat ≠ 0)

def extractString (obj : List (String × Json)) (key : String) (out : String) : String :=
  match ifContains obj key with
  | some (.string s) => cStr s
  | _ => out

def extractInt64 (obj : List (String × Json)) (key : String) (out : Int) : Int :=
  match ifContains obj key with
  | some (.number (some n) _) => n
  | _ => out

def extractInt32 (obj : List (String × Json)) (key : String) (out : Int) : Int :=
  match ifContains obj key with
  | some (.number (some n) _) => n.bmod (2 ^ 32)
  | _ => out

def castInt (n : Int) : Int := n.bmod (2 ^ 32)

theorem castInt_eq_iff {n : Int} : castInt n = n ↔ -2 ^ 31 ≤ n ∧ n < 2 ^ 31 := by
  constructor
  · intro hsame
    have hle : -(((2 ^ 32 : Nat) : Int) / 2) ≤ castInt n := Int.le_bmod (by decide)
    have hlt : castInt n < (((2 ^ 32 : Nat) : Int) + 1) / 2 := Int.bmod_lt (by decide)
    rw [hsame] at hle hlt
    omega
  · exact fun hfits => Int.bmod_eq_of_le (by omega) (by omega)

theorem castInt_castInt (n : Int) : castInt (castInt n) = castInt n := by simp [castInt]

def extractBool (obj : List (String × Json)) (key : String) (out : Bool) : Bool :=
  match ifContains obj key with
  | some (.bool b) => b
  | _ => out

/-- `to_number<double>`. -/
def extractDouble (obj : List (String × Json)) (key : String) (out : ℚ) : ℚ :=
  match ifContains obj key with
  | some (.number _ x) => x
  | _ => out

/-- An array replaces the list; what is not a string in it is skipped. -/
def extractStrings (obj : List (String × Json)) (key : String) (out : List String) : List String :=
  match ifContains obj key with
  | some (.array elems) =>
      elems.filterMap fun
        | .string s => some (cStr s)
        | _ => none
  | _ => out

structure Config where
  connectTimeoutSeconds : Int := 30
  requestTimeoutSeconds : Int := 300
  lowSpeedLimitBps : Int := 1024
  lowSpeedTime : Int := 60
  maxRedirect : Int := 5
  proxy : String := ""
  proxyUsername : String := ""
  proxyPassword : String := ""
  userAgent : String := ""
  verifySsl : Bool := true
  caBundle : String := ""
  maxRetries : Int := 3
  defaultParts : Int := 4
  minSizeForSplit : Int := 1024 * 1024
  listenPort : Int := 6881
  maxConcurrentDownloads : Int := 5
  downloadRateLimit : Int := 0
  uploadRateLimit : Int := 0
  seedRatioLimit : ℚ := 1
  /-- `DW_LOG_DEBUG` is 0, `DW_LOG_INFO` 1, `DW_LOG_ERROR` 2. -/
  logLevel : Int := 1
  workDir : String := ""
  clientId : String := ""
  savePath : String := "."
  trackers : List String := []
  allowMobileData : Bool := false
  networkType : Int := 1
  deriving DecidableEq

/-- `Config{}`. -/
def Config.defaults : Config := {}

def fromJson (obj : List (String × Json)) (c : Config) : Config where
  connectTimeoutSeconds := extractInt32 obj "connect_timeout" c.connectTimeoutSeconds
  requestTimeoutSeconds := extractInt32 obj "request_timeout" c.requestTimeoutSeconds
  lowSpeedLimitBps := extractInt64 obj "low_speed_limit" c.lowSpeedLimitBps
  lowSpeedTime := extractInt32 obj "low_speed_time" c.lowSpeedTime
  maxRedirect := extractInt32 obj "max_redirect" c.maxRedirect
  proxy := extractString obj "proxy" c.proxy
  proxyUsername := extractString obj "proxy_username" c.proxyUsername
  proxyPassword := extractString obj "proxy_password" c.proxyPassword
  userAgent := extractString obj "user_agent" c.userAgent
  verifySsl := extractBool obj "verify_ssl" c.verifySsl
  caBundle := extractString obj "ca_bundle" c.caBundle
  maxRetries := extractInt32 obj "max_retries" c.maxRetries
  defaultParts := extractInt32 obj "default_parts" c.defaultParts
  minSizeForSplit := extractInt64 obj "min_size_for_split" c.minSizeForSplit
  listenPort := extractInt32 obj "listen_port" c.listenPort
  maxConcurrentDownloads := extractInt32 obj "max_concurrent" c.maxConcurrentDownloads
  downloadRateLimit := extractInt64 obj "dl_rate_limit" c.downloadRateLimit
  uploadRateLimit := extractInt64 obj "ul_rate_limit" c.uploadRateLimit
  seedRatioLimit := extractDouble obj "seed_ratio" c.seedRatioLimit
  logLevel := extractInt64 obj "log_level" c.logLevel
  workDir := extractString obj "work_dir" c.workDir
  clientId := extractString obj "client_id" c.clientId
  savePath := extractString obj "save_path" c.savePath
  trackers := extractStrings obj "trackers" c.trackers
  allowMobileData := extractBool obj "allow_mobile_data" c.allowMobileData
  networkType := extractInt32 obj "network_type" c.networkType

/-- `parse_config`: the configuration read over `out`, or nothing and `out` stays as it is. -/
def parseConfig (text : ConfigText) (out : Config) : Option Config :=
  match text with
  | .value (.object obj) => some (fromJson obj out)
  | _ => none

namespace Config

/-- A limit below zero falls back to 3. -/
def concurrency (c : Config) : Int :=
  if c.maxConcurrentDownloads < 0 then 3 else c.maxConcurrentDownloads

def applied (c : Config) : Config := { c with maxConcurrentDownloads := c.concurrency }

def manager (c : Config) : ManagerConfig where
  clientId := c.clientId
  savePath := c.savePath
  maxConcurrentDownloads := c.maxConcurrentDownloads
  networkType := c.networkType
  allowMobileData := c.allowMobileData
  trackers := c.trackers
  seedRatioLimit := c.seedRatioLimit

end Config

/-- `TaskManager::apply_config` on the manager's `config_`: without a client it changes nothing. -/
def TaskManager.applyConfig (config cfg : Config) : SubmitResult × Config :=
  if cfg.clientId = "" then (.failure, config) else (.success, cfg.applied)

theorem applyConfig_manager (config cfg : Config) :
    applyConfig cfg.manager =
      if (TaskManager.applyConfig config cfg).1.code = .none then
        some (TaskManager.applyConfig config cfg).2.manager
      else none := by
  by_cases hclient : cfg.clientId = ""
  · simp [applyConfig, TaskManager.applyConfig, Config.manager, SubmitResult.failure, hclient]
  · have hmanager : cfg.manager.clientId ≠ "" := hclient
    simp only [applyConfig, TaskManager.applyConfig, if_neg hclient, if_neg hmanager]
    rfl

/-- `sync_config` on `g_cfg`: values out of range fall back, and what the engine has no use for
stays as it is. -/
def HttpEngine.syncConfig (cfg g : Config) : Config :=
  { g with
    connectTimeoutSeconds := if 0 < cfg.connectTimeoutSeconds then cfg.connectTimeoutSeconds else 15
    requestTimeoutSeconds := cfg.requestTimeoutSeconds
    lowSpeedLimitBps := if 0 ≤ cfg.lowSpeedLimitBps then cfg.lowSpeedLimitBps else 0
    lowSpeedTime := if 0 < cfg.lowSpeedTime then cfg.lowSpeedTime else 0
    maxRedirect := if 0 < cfg.maxRedirect then cfg.maxRedirect else 5
    verifySsl := cfg.verifySsl
    maxRetries := if 0 ≤ cfg.maxRetries then cfg.maxRetries else 3
    defaultParts := if 0 < cfg.defaultParts then cfg.defaultParts else 4
    minSizeForSplit := if 0 < cfg.minSizeForSplit then cfg.minSizeForSplit else 1 * 1024 * 1024
    downloadRateLimit := if 0 < cfg.downloadRateLimit then cfg.downloadRateLimit else 0
    logLevel := if 0 ≤ cfg.logLevel ∧ cfg.logLevel ≤ 2 then cfg.logLevel else 1
    proxy := cfg.proxy
    proxyUsername := cfg.proxyUsername
    proxyPassword := cfg.proxyPassword
    userAgent := cfg.userAgent
    caBundle := cfg.caBundle }

theorem syncConfig_fields (cfg g : Config) :
    let http := syncConfig cfg.maxRetries cfg.defaultParts cfg.minSizeForSplit
    let synced := HttpEngine.syncConfig cfg g
    synced.maxRetries = http.maxRetries ∧ synced.defaultParts = http.defaultParts ∧
      synced.minSizeForSplit = http.minSizeForSplit :=
  ⟨rfl, rfl, rfl⟩

end DownloadWrapper
