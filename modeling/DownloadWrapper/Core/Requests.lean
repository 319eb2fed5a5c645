import DownloadWrapper.Core.Lifecycle
import DownloadWrapper.Lib.SortedMap
import DownloadWrapper.Utils.Text
import Mathlib.Data.Int.Order.Basic

/-!
# Requests

`dw_add_task`, `dw_pause_task`, `dw_resume_task` and `dw_delete_task`: the text is decoded leniently,
the parameters are checked, and the manager passes them on to an engine or not. The check asks for a
client, the manager for none, so nothing is ever passed on.
-/

namespace DownloadWrapper

open SortedMap

/-- An array replaces the list; what is not an integer in it is skipped. -/
def extractInt32s (obj : List (String × Json)) (key : String) (out : List Int) : List Int :=
  match ifContains obj key with
  | some (.array elems) =>
      elems.filterMap fun
        | .number (some n) _ => some (n.bmod (2 ^ 32))
        | _ => none
  | _ => out

/-- `priority`, which is not truncated: a value out of range is skipped. -/
def readQueuePriority (obj : List (String × Json)) (out : Option Int) : Option Int :=
  match ifContains obj "priority" with
  | some (.number (some n) _) => if inRangeInt32 n then some n else out
  | _ => out

def readFilePriority (priorities : List (Int × Int)) (member : String × Json) : List (Int × Int) :=
  match wholeInt32 member.1.toList, member.2 with
  | some index, .number (some level) _ =>
      if 0 ≤ index ∧ 0 ≤ level ∧ level ≤ 7 then insertOrAssign index level priorities else priorities
  | _, _ => priorities

def sharedLevel (queuePriority : Option Int) : Int :=
  let priority := queuePriority.getD 4
  if priority < 4 then 1 else if 4 < priority then 7 else 4

def readPriorityIndex (level : Int) (priorities : List (Int × Int)) : Json → List (Int × Int)
  | .number (some index) _ =>
      if 0 ≤ index ∧ inRangeInt32 index then tryEmplace index level priorities else priorities
  | _ => priorities

/-- `file_priorities`, or else the older `priority_file_indexes`. -/
def readFilePriorities (obj : List (String × Json)) (queuePriority : Option Int)
    (out : List (Int × Int)) : List (Int × Int) :=
  match ifContains obj "file_priorities" with
  | some (.object members) => members.foldl readFilePriority []
  | _ =>
      match ifContains obj "priority_file_indexes" with
      | some (.array elems) => elems.foldl (readPriorityIndex (sharedLevel queuePriority)) []
      | _ => out

/-- The value of the `protocol` variable, which need not be one of the names: an `int64_t` cast to
the enumeration keeps its low 32 bits. -/
def readProtocol (obj : List (String × Json)) (out : Int) : Int :=
  match ifContains obj "protocol" with
  | some (.number (some n) _) => n.bmod (2 ^ 32)
  | _ => out

def protocolOf : Int → Option Protocol
  | 0 => some .http
  | 1 => some .torrent
  | 2 => some .local
  | _ => none

/-- `from_json`, but for the protocol. -/
def TaskParams.fromJson (obj : List (String × Json)) (p : TaskParams) : TaskParams :=
  let queuePriority := readQueuePriority obj p.queuePriority
  { p with
    clientId := extractString obj "client_id" p.clientId
    naturalKey := extractString obj "natural_key" p.naturalKey
    savePath := extractString obj "save_path" p.savePath
    url := extractString obj "url" p.url
    infoHash := extractString obj "info_hash" p.infoHash
    magnetLink := extractString obj "magnet_link" p.magnetLink
    torrentFile := extractString obj "torrent_file" p.torrentFile
    queuePriority := queuePriority
    deleteFiles := extractBool obj "delete_files" p.deleteFiles
    force := extractBool obj "force" p.force
    fileIndexes := extractInt32s obj "file_indexes" p.fileIndexes
    filePriorities := readFilePriorities obj queuePriority p.filePriorities
    urlSeeds := extractStrings obj "url_seeds" p.urlSeeds }

/-- `parse_task_params` into a new record: the protocol's value, and the rest. -/
def parseTaskParams (json : ConfigText) : Option (Int × TaskParams) :=
  match json with
  | .value (.object obj) => some (readProtocol obj 0, TaskParams.fromJson obj {})
  | _ => none

def validateAndParseTaskParams (l : Library) (paramsJson : ConfigText) : Except Response TaskParams :=
  if ¬ (l.created ∧ l.initialized) then .error (makeErrorResponse "参数非法")
  else
    match parseTaskParams paramsJson with
    | none => .error (makeErrorResponse "参数解析失败")
    | some (value, params) =>
        match protocolOf value with
        | none | some .local => .error (makeErrorResponse "未知协议")
        | some protocol =>
            if params.clientId = "" then .error (makeErrorResponse "客户端标识为空")
            else .ok { params with protocol := protocol }

inductive Operation where
  | add
  | pause
  | resume
  | delete
  deriving DecidableEq, Repr

/-- One call on an engine: `http` is the HTTP engine, `torrent` the BT engine. -/
structure EngineCall where
  operation : Operation
  engine : Protocol
  params : TaskParams
  deriving DecidableEq

structure Desk (ω : Type*) where
  world : ω
  calls : List EngineCall := []

def TaskManager.engineOf (protocol : Protocol) : Protocol :=
  if protocol = .http then .http else .torrent

section Serving

variable {ω : Type*} (answer : EngineCall → ω → SubmitResult × ω)

def callEngine (operation : Operation) (params : TaskParams) (s : Desk ω) : SubmitResult × Desk ω :=
  let call := { operation := operation, engine := TaskManager.engineOf params.protocol, params := params }
  let (result, world) := answer call s.world
  (result, { world := world, calls := call :: s.calls })

def TaskManager.add (config : Config) (params : TaskParams) (s : Desk ω) : SubmitResult × Desk ω :=
  if params.protocol = .http ∧ params.url = "" then (.failure, s)
  else if params.protocol = .torrent ∧ (params.magnetLink = "" ∨ params.torrentFile = "") then
    (.failure, s)
  else if params.clientId = "" then callEngine answer .add { params with savePath := config.savePath } s
  else (.failure, s)

def TaskManager.forward (operation : Operation) (params : TaskParams) (s : Desk ω) :
    SubmitResult × Desk ω :=
  if params.clientId = "" then callEngine answer operation params s else (.failure, s)

def TaskManager.pause : TaskParams → Desk ω → SubmitResult × Desk ω := forward answer .pause

def TaskManager.resume : TaskParams → Desk ω → SubmitResult × Desk ω := forward answer .resume

def TaskManager.remove : TaskParams → Desk ω → SubmitResult × Desk ω := forward answer .delete

/-- What the calls of the interface do alike: check, and have the manager serve the request. -/
def serveTask (l : Library) (serve : Config → TaskParams → Desk ω → SubmitResult × Desk ω)
    (paramsJson : ConfigText) (s : Desk ω) : Response × Desk ω :=
  match validateAndParseTaskParams l paramsJson with
  | .error response => (response, s)
  | .ok params =>
      match l.taskManager with
      | none => (makeErrorResponse "管理器未初始化", s)
      | some config =>
          let (result, s) := serve config params s
          (resultToJson result, s)

def dwAddTask (l : Library) : ConfigText → Desk ω → Response × Desk ω :=
  serveTask l (TaskManager.add answer)

def dwPauseTask (l : Library) : ConfigText → Desk ω → Response × Desk ω :=
  serveTask l fun _ => TaskManager.pause answer

def dwResumeTask (l : Library) : ConfigText → Desk ω → Response × Desk ω :=
  serveTask l fun _ => TaskManager.resume answer

def dwDeleteTask (l : Library) : ConfigText → Desk ω → Response × Desk ω :=
  serveTask l fun _ => TaskManager.remove answer

def dwTask (l : Library) : Operation → ConfigText → Desk ω → Response × Desk ω
  | .add => dwAddTask answer l
  | .pause => dwPauseTask answer l
  | .resume => dwResumeTask answer l
  | .delete => dwDeleteTask answer l

end Serving

/-! ### What the decoder makes of priorities -/

def PrioritiesInRange (priorities : List (Int × Int)) : Prop :=
  Sorted priorities ∧ ∀ entry ∈ priorities, 0 ≤ entry.1 ∧ inRangeInt32 entry.1 ∧ 0 ≤ entry.2 ∧ entry.2 ≤ 7

theorem prioritiesInRange_readFilePriority {priorities : List (Int × Int)}
    (h : PrioritiesInRange priorities) (member : String × Json) :
    PrioritiesInRange (readFilePriority priorities member) := by
  rw [readFilePriority]
  split
  next index level x hindex hvalue =>
    have hrange : inRangeInt32 index = true := by
      rw [wholeInt32] at hindex
      simp only [Option.ite_none_right_eq_some, Option.filter_eq_some_iff] at hindex
      exact hindex.2.2
    split
    next hin =>
      refine ⟨h.1.insertOrAssign index level, fun entry hentry => ?_⟩
      rcases mem_insertOrAssign hentry with rfl | hold
      · exact ⟨hin.1, hrange, hin.2⟩
      · exact h.2 entry hold
    next => exact h
  next => exact h

theorem prioritiesInRange_readPriorityIndex {priorities : List (Int × Int)}
    (h : PrioritiesInRange priorities) {level : Int} (hlevel : 0 ≤ level ∧ level ≤ 7) (elem : Json) :
    PrioritiesInRange (readPriorityIndex level priorities elem) := by
  rw [readPriorityIndex.eq_def]
  split
  next index x =>
    split
    next hin =>
      refine ⟨h.1.tryEmplace index level, fun entry hentry => ?_⟩
      rcases mem_tryEmplace hentry with rfl | hold
      · exact ⟨hin.1, hin.2, hlevel⟩
      · exact h.2 entry hold
    next => exact h
  next => exact h

/-- **What is read of the priorities is in range**, whatever the request says. -/
theorem prioritiesInRange_fromJson (obj : List (String × Json)) :
    PrioritiesInRange (TaskParams.fromJson obj {}).filePriorities := by
  have hempty : PrioritiesInRange [] := ⟨List.Pairwise.nil, by simp⟩
  simp only [TaskParams.fromJson, readFilePriorities]
  split
  next members _ =>
    exact List.foldlRecOn members _ hempty fun priorities h member _ =>
      prioritiesInRange_readFilePriority h member
  next =>
    split
    next elems _ =>
      have hlevel : ∀ queuePriority, 0 ≤ sharedLevel queuePriority ∧ sharedLevel queuePriority ≤ 7 := by
        intro queuePriority
        simp only [sharedLevel]
        split_ifs <;> decide
      exact List.foldlRecOn elems _ hempty fun priorities h elem _ =>
        prioritiesInRange_readPriorityIndex h (hlevel _) elem
    next => exact hempty

/-! ### What is documented, and what happens -/

/-- A documented request of a downloader that is ready, for the engine of `protocol`. -/
structure Documented (l : Library) (operation : Operation) (obj : List (String × Json))
    (protocol : Protocol) : Prop where
  ready : l.created = true ∧ l.initialized = true
  client : ∃ config clientId, l.taskManager = some config ∧ config.clientId ≠ "" ∧
    ifContains obj "client_id" = some (.string clientId) ∧ cStr clientId = config.clientId
  member : ∃ value x, ifContains obj "protocol" = some (.number (some value) x) ∧
    (value = 0 ∧ protocol = .http ∨ value = 1 ∧ protocol = .torrent)
  source : operation = .add →
    if protocol = .http then extractString obj "url" "" ≠ ""
    else extractString obj "magnet_link" "" ≠ "" ∨ extractString obj "torrent_file" "" ≠ ""

def IsDocumented (l : Library) (operation : Operation) (paramsJson : ConfigText) (protocol : Protocol) :
    Prop :=
  match paramsJson with
  | .value (.object obj) => Documented l operation obj protocol
  | _ => False

/-- A documented request reaches its engine once; any other one is refused and reaches none. -/
structure AdmitsExactly {ω : Type*} (answer : EngineCall → ω → SubmitResult × ω) (l : Library)
    (operation : Operation) (paramsJson : ConfigText) (world : ω) : Prop where
  served : ∀ protocol, IsDocumented l operation paramsJson protocol →
    ∃ params, (dwTask answer l operation paramsJson ⟨world, []⟩).2.calls = [⟨operation, protocol, params⟩]
  refused : (∀ protocol, ¬ IsDocumented l operation paramsJson protocol) →
    (dwTask answer l operation paramsJson ⟨world, []⟩).1.IsError ∧
      (dwTask answer l operation paramsJson ⟨world, []⟩).2.calls = []

theorem isError_of_validate {l : Library} {paramsJson : ConfigText} {response : Response}
    (h : validateAndParseTaskParams l paramsJson = .error response) : response.IsError := by
  have herror : ∀ message, (makeErrorResponse message).IsError := fun _ => by
    simp [makeErrorResponse, Response.IsError]
  rw [validateAndParseTaskParams] at h
  split at h
  · exact Except.error.inj h ▸ herror _
  split at h
  · exact Except.error.inj h ▸ herror _
  split at h
  · exact Except.error.inj h ▸ herror _
  · exact Except.error.inj h ▸ herror _
  split at h
  · exact Except.error.inj h ▸ herror _
  · simp at h

theorem client_of_validate {l : Library} {paramsJson : ConfigText} {params : TaskParams}
    (h : validateAndParseTaskParams l paramsJson = .ok params) : params.clientId ≠ "" := by
  rw [validateAndParseTaskParams] at h
  split at h
  · simp at h
  split at h
  · simp at h
  split at h
  · simp at h
  · simp at h
  split at h
  · simp at h
  next hclient => exact Except.ok.inj h ▸ hclient

theorem validate_of_documented {l : Library} {operation : Operation} {obj : List (String × Json)}
    {protocol : Protocol} (h : Documented l operation obj protocol) :
    validateAndParseTaskParams l (.value (.object obj)) =
      .ok { TaskParams.fromJson obj {} with protocol := protocol } := by
  obtain ⟨config, clientId, -, hconfigured, hmember, hclient⟩ := h.client
  obtain ⟨value, x, hprotocol, hvalue⟩ := h.member
  have hread : (TaskParams.fromJson obj {}).clientId ≠ "" := by
    simp only [TaskParams.fromJson, extractString, hmember, hclient]
    exact hconfigured
  have hcast : readProtocol obj 0 = value := by
    simp only [readProtocol, hprotocol]
    rcases hvalue with ⟨rfl, -⟩ | ⟨rfl, -⟩ <;> decide
  rw [validateAndParseTaskParams, if_neg (not_not.mpr h.ready), parseTaskParams]
  simp only [hcast]
  rcases hvalue with ⟨rfl, rfl⟩ | ⟨rfl, rfl⟩ <;> simp only [protocolOf, if_neg hread]

section Serving

variable {ω : Type*} (answer : EngineCall → ω → SubmitResult × ω)

theorem forward_refuses (operation : Operation) {params : TaskParams} (h : params.clientId ≠ "")
    (s : Desk ω) : TaskManager.forward answer operation params s = (.failure, s) := if_neg h

theorem add_refuses (config : Config) {params : TaskParams} (h : params.clientId ≠ "") (s : Desk ω) :
    TaskManager.add answer config params s = (.failure, s) := by
  rw [TaskManager.add, if_neg h]
  split_ifs <;> rfl

theorem serveTask_refuses {l : Library} {serve : Config → TaskParams → Desk ω → SubmitResult × Desk ω}
    (hserve : ∀ config params s, params.clientId ≠ "" → serve config params s = (.failure, s))
    (paramsJson : ConfigText) (s : Desk ω) :
    (serveTask l serve paramsJson s).1.IsError ∧ (serveTask l serve paramsJson s).2 = s := by
  rw [serveTask]
  split
  next response hresponse => exact ⟨isError_of_validate hresponse, rfl⟩
  next params hparams =>
    split
    · exact ⟨by simp [makeErrorResponse, Response.IsError], rfl⟩
    next config _ =>
      rw [hserve config params s (client_of_validate hparams)]
      exact ⟨isError_resultToJson (by simp [SubmitResult.failure]), rfl⟩

/-- **No request reaches an engine**, in any state of the downloader. -/
theorem dwTask_refuses (l : Library) (operation : Operation) (paramsJson : ConfigText) (s : Desk ω) :
    (dwTask answer l operation paramsJson s).1.IsError ∧ (dwTask answer l operation paramsJson s).2 = s := by
  cases operation with
  | add => exact serveTask_refuses (fun config _ s h => add_refuses answer config h s) paramsJson s
  | pause => exact serveTask_refuses (fun _ _ s h => forward_refuses answer .pause h s) paramsJson s
  | resume => exact serveTask_refuses (fun _ _ s h => forward_refuses answer .resume h s) paramsJson s
  | delete => exact serveTask_refuses (fun _ _ s h => forward_refuses answer .delete h s) paramsJson s

/-- **Admission is right exactly for the requests that are not documented.** -/
theorem admitsExactly_iff (l : Library) (operation : Operation) (paramsJson : ConfigText) (world : ω) :
    AdmitsExactly answer l operation paramsJson world ↔
      ∀ protocol, ¬ IsDocumented l operation paramsJson protocol := by
  obtain ⟨herror, hsame⟩ := dwTask_refuses answer l operation paramsJson ⟨world, []⟩
  constructor
  · intro h protocol hdocumented
    obtain ⟨params, hcalls⟩ := h.served protocol hdocumented
    simp [hsame] at hcalls
  · intro h
    exact ⟨fun protocol hdocumented => absurd hdocumented (h protocol), fun _ => ⟨herror, by rw [hsame]⟩⟩

end Serving

def readyLibrary : Library where
  created := true
  initialized := true
  taskManager := some { Config.defaults with clientId := "c" }

/-- `{"client_id": "c", "protocol": 0, "url": "http://h/f"}`. -/
def plainRequest : ConfigText :=
  .value (.object [("client_id", .string "c"), ("protocol", .number (some 0) 0),
    ("url", .string "http://h/f")])

/-- **A plain request is refused**, to add as to pause. -/
theorem not_admitsExactly_plainRequest :
    ¬ AdmitsExactly (fun _ world => (.success, world)) readyLibrary .add plainRequest () ∧
      ¬ AdmitsExactly (fun _ world => (.success, world)) readyLibrary .pause plainRequest () := by
  have hdocumented : ∀ operation, IsDocumented readyLibrary operation plainRequest .http := by
    intro operation
    refine ⟨⟨rfl, rfl⟩, ⟨_, "c", rfl, by decide, rfl, by decide⟩, ⟨0, 0, rfl, Or.inl ⟨rfl, rfl⟩⟩, fun _ => ?_⟩
    rw [if_pos rfl]
    decide
  have hrefused : ∀ operation, ¬ AdmitsExactly (fun _ world => (.success, world)) readyLibrary operation
      plainRequest () := by
    intro operation h
    obtain ⟨params, hcalls⟩ := h.served .http (hdocumented operation)
    rw [(dwTask_refuses _ readyLibrary operation plainRequest _).2] at hcalls
    simp at hcalls
  exact ⟨hrefused .add, hrefused .pause⟩

end DownloadWrapper
