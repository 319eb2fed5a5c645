import DownloadWrapper.Core.Config
import DownloadWrapper.Lib.Transition

/-!
# The life of the downloader

`dw_init`, `dw_destroy` and `dw_set_config` on the three copies of the configuration: the
downloader's own, the manager's and the HTTP engine's `g_cfg`. The calls come one after the other,
so a call is one step.
-/

namespace DownloadWrapper

structure Response where
  code : Int := 0
  message : String := ""
  deriving DecidableEq, Repr

def Reason.toCode : Reason → Int
  | .none => 0
  | .internal => 1
  | .network => 2
  | .invalidInput => 3
  | .auth => 4
  | .error => 5
  | .fail => 6

def resultToJson (result : SubmitResult) : Response :=
  if result.code = .none then {}
  else {
    code := result.code.toCode
    message := if result.message = "" then "操作失败" else result.message }

def makeErrorResponse (message : String) : Response := { code := -1, message := message }

def makeSuccessResponse : Response := {}

def Response.IsError (r : Response) : Prop := r.code ≠ 0

instance (r : Response) : Decidable r.IsError := inferInstanceAs (Decidable (_ ≠ _))

theorem isError_resultToJson {result : SubmitResult} (h : result.code ≠ .none) :
    (resultToJson result).IsError := by
  rw [resultToJson, if_neg h, Response.IsError]
  cases hcode : result.code with
  | none => exact absurd hcode h
  | _ => simp [Reason.toCode]

/-- What the process holds. `httpEngine` is the engine object, by its `initialized_`; `gRunning` and
`gCfg` are the engine's globals. -/
structure Library where
  /-- `g_downloader` exists. -/
  created : Bool := false
  initialized : Bool := false
  config : Config := .defaults
  taskManager : Option Config := none
  httpEngine : Option Bool := none
  gRunning : Bool := false
  gCfg : Config := .defaults
  deriving DecidableEq

/-- What the libraries answer to `dw_init`: `curl_global_init`, the start of the BT engine, and the
start of the manager on its database. -/
structure InitEnv where
  curl : Bool
  torrent : Bool
  start : Bool
  deriving DecidableEq

namespace Library

/-- `HttpEngine::destroy`, which is also what the destructor of a running engine does. -/
def destroyHttp (l : Library) : Library :=
  if l.httpEngine = some true then
    if l.gRunning then { l with httpEngine := some false, gCfg := .defaults, gRunning := false }
    else { l with httpEngine := some false }
  else l

def newHttp (l : Library) : Library := { l.destroyHttp with httpEngine := some false }

/-- `HttpEngine::init` with the manager's configuration: the globals, then `ensure_running`. -/
def initHttp (cfg : Config) (env : InitEnv) (l : Library) : Bool × Library :=
  let l := { l with gCfg := HttpEngine.syncConfig cfg l.gCfg }
  if l.gRunning || env.curl then (true, { l with gRunning := true, httpEngine := some true })
  else (false, l)

/-- The configuration `dw_init` works with: the text read over the one in place, which stays as it
is without a text. -/
def initConfig (l : Library) : Option ConfigText → Option Config
  | none => some l.config
  | some .empty => some l.config
  | some text => parseConfig text l.config

/-- `dw_init` from the applied configuration on: the engines and the manager start. -/
def startEngines (cfg : Config) (env : InitEnv) (l : Library) : Response × Library :=
  match l.newHttp.initHttp cfg env with
  | (false, l) => (resultToJson (.failure .error "HTTP 引擎初始化失败"), l)
  | (true, l) =>
      if !env.torrent then (resultToJson (.failure .error "BT 引擎初始化失败"), l.destroyHttp)
      else if !env.start then
        (resultToJson (.failure .error "下载器启动失败"), { l with taskManager := none })
      else (resultToJson .success, { l with initialized := true })

/-- `dw_init` on a downloader that has to start, with its configuration already in place. -/
def startUp (env : InitEnv) (l : Library) : Response × Library :=
  let (result, config) := TaskManager.applyConfig .defaults l.config
  let l := { l with taskManager := some config }
  if result.code ≠ .none then (resultToJson result, l) else l.startEngines config env

def dwInit (configJson : Option ConfigText) (env : InitEnv) (l : Library) : Response × Library :=
  let l := { l with created := true }
  match l.initConfig configJson with
  | none => (resultToJson (.failure .invalidInput "非法输入"), l)
  | some cfg =>
      let l := { l with config := cfg }
      if l.initialized then (resultToJson .success, l) else l.startUp env

/-- `dw_destroy` answers nothing. -/
def dwDestroy (l : Library) : Library :=
  if !l.created then l
  else if !l.initialized then l
  else
    { l.destroyHttp with
      httpEngine := none, taskManager := none, config := .defaults, initialized := false }

def dwSetConfig (configJson : Option ConfigText) (l : Library) : Response × Library :=
  if !l.created then (makeErrorResponse "下载器已销毁", l)
  else
    match configJson with
    | none => (makeErrorResponse "参数为空", l)
    | some text =>
        match parseConfig text .defaults with
        | none => (makeErrorResponse "非法输入", l)
        | some cfg =>
            -- the manager's answer is not looked at, and `g_cfg` is not written
            (makeSuccessResponse,
              { l with
                config := cfg
                taskManager := l.taskManager.map fun config =>
                  (TaskManager.applyConfig config cfg).2 })

end Library

inductive LifecycleCall where
  | init (configJson : Option ConfigText) (env : InitEnv)
  | destroy
  | setConfig (configJson : Option ConfigText)

namespace Library

def call (l : Library) : LifecycleCall → Option Response × Library
  | .init configJson env => ((l.dwInit configJson env).1, (l.dwInit configJson env).2)
  | .destroy => (none, l.dwDestroy)
  | .setConfig configJson => ((l.dwSetConfig configJson).1, (l.dwSetConfig configJson).2)

def next (l : Library) (call : LifecycleCall) : Library := (l.call call).2

end Library

end DownloadWrapper
