import DownloadWrapper.Core.FreshStart
import DownloadWrapper.Http.Flushed

/-!
# What is downloaded is not lost

The archives of the HTTP threads in the database, over whole runs of the hub. Whenever the process
ends, what a thread saved last is an earlier state of its download; a thread whose loop did not break
off has stored every byte it counted by the time it has ended, and the next one goes on from there.
-/

namespace DownloadWrapper

open Transition

variable {url : String}

/-! ### The rows of a URL -/

namespace Store

def SameArchives (url : String) (s s' : Store) : Prop :=
  ∀ clientId, s'.loadResume clientId .http url = s.loadResume clientId .http url

namespace SameArchives

variable {s s' s'' : Store}

theorem refl (s : Store) : SameArchives url s s := fun _ => rfl

theorem trans (h : SameArchives url s s') (h' : SameArchives url s' s'') : SameArchives url s s'' :=
  fun clientId => (h' clientId).trans (h clientId)

theorem of_eq (h : s' = s) : SameArchives url s s' := h ▸ .refl s'

theorem of_table (h : s'.resumeData = s.resumeData) : SameArchives url s s' := by
  intro clientId
  rw [loadResume, loadResume, h]

end SameArchives

theorem sameArchives_remove {protocol : Protocol} (hprotocol : protocol ≠ .http) (clientId key : String)
    (s : Store) : SameArchives url s (s.remove clientId protocol key) := by
  intro other
  have hne : (other, Protocol.http, url) ≠ (clientId, protocol, key) := by
    intro heq
    simp only [Prod.mk.injEq] at heq
    exact hprotocol heq.2.1.symm
  rw [loadResume, loadResume, remove]
  exact congrArg (Option.map ResumeRow.data) (KeyedList.find?_erase_of_ne _ hne)

theorem resumeData_saveFiles (files : List TaskFile) (s : Store) :
    (s.saveFiles files).resumeData = s.resumeData := by
  rw [saveFiles]
  generalize files.takeWhile (fun file => file.taskId ≠ "" && 0 ≤ file.fileIndex) = valid
  induction valid generalizing s with
  | nil => rfl
  | cons file valid ih =>
      have hone : (s.saveFile file).resumeData = s.resumeData := by
        rw [saveFile]
        split
        · rfl
        · split <;> rfl
      exact (ih _).trans hone

theorem loadResume_saveResume (other clientId key : String) (data : Archive) (s : Store) :
    (s.saveResume clientId .http key data).loadResume other .http url =
      if other = clientId ∧ url = key then some data else s.loadResume other .http url := by
  have hfind := KeyedList.find?_insert s.resumeData ⟨clientId, .http, key, data⟩ (other, .http, url)
  simp only [ResumeRow.key, Prod.mk.injEq, true_and] at hfind
  rw [loadResume, loadResume, saveResume, hfind]
  split <;> rfl

end Store

theorem sameArchives_maintain {h : Hub} (hrooted : Rooted h) (now : Int) :
    Store.SameArchives url h.world.store (maintain now h.registry h.world.store).2 := by
  have hone : ∀ (s : Store) (task : Task), task ∈ h.registry →
      Store.SameArchives url s (persistTask now s task) := by
    intro s task hmem
    simp only [persistTask]
    split
    · exact .refl s
    split
    next hdelete =>
      split
      · split
        · exact .refl s
        · exact .of_table rfl
      · have htorrent := hrooted.deleted task hmem hdelete
        exact Store.sameArchives_remove (by simp [htorrent]) _ _ s
    · split <;> exact .of_table rfl
  have hall : ∀ (tasks : List Task) (s : Store), (∀ task ∈ tasks, task ∈ h.registry) →
      Store.SameArchives url s (tasks.foldl (persistTask now) s) := by
    intro tasks
    induction tasks with
    | nil => exact fun s _ => .refl s
    | cons task tasks ih =>
        intro s hmem
        exact (hone s task (hmem _ List.mem_cons_self)).trans
          (ih _ fun other hother => hmem other (List.mem_cons_of_mem _ hother))
  exact hall h.registry.entries h.world.store fun task hmem => KeyedList.mem_def.mpr hmem

theorem resumeData_handleParsed (env : AcquireEnv) (id : Nat) (registry : Registry) (w : World) :
    (handleParsed env id registry w).2.store.resumeData = w.store.resumeData := by
  have hworld : ∀ (t : Torrent) (task : Task),
      (parsedWorld env t task w).store.resumeData = w.store.resumeData := by
    intro t task
    simp only [parsedWorld]
    split
    · rfl
    cases t.info with
    | none =>
        simp only
        split <;> rfl
    | some info =>
        simp only
        split <;> exact Store.resumeData_saveFiles _ _
  rw [handleParsed]
  split
  · rfl
  split
  · rfl
  simp only
  split
  · rfl
  · exact hworld _ _

theorem resumeData_handleAlert (env : AcquireEnv) (alert : Alert) (registry : Registry) (w : World) :
    (handleAlert env alert registry w).2.store.resumeData = w.store.resumeData := by
  cases alert with
  | addTorrent id infoHash magnet error =>
      cases error with
      | some code => rfl
      | none =>
          simp only [handleAlert]
          split
          · exact resumeData_handleParsed env id registry w
          · rfl
  | metadataReceived id => exact resumeData_handleParsed env id registry w
  | storageMoved id => exact resumeData_handleParsed env id registry w
  | pieceFinished id piece =>
      simp only [handleAlert]
      split
      · rfl
      · split <;> rfl
  | fileCompleted id index =>
      simp only [handleAlert]
      split <;> rfl
  | saveResumeData id data =>
      simp only [handleAlert]
      split
      · split
        · simp only
          split
          · rfl
          · rw [Store.saveBtResume]
            split <;> rfl
        · rfl
      · rfl
  | _ => rfl

theorem resumeData_replaceTask {task : Task} {granted : Bool} {s s' : Store}
    (h : s.replaceTask task granted = some s') : s'.resumeData = s.resumeData := by
  obtain ⟨-, -, rfl⟩ := Store.replaceTask_eq_some_iff.mp h
  rfl

theorem resumeData_addTask {h : Hub} {params : TaskParams} {http : DownloadEnv} {bt : TorrentEnv}
    {now : Int} :
    (h.addTask params http bt now).2.world.store.resumeData = h.world.store.resumeData := by
  simp only [Hub.addTask, Hub.put]
  split
  · have hstarted := HttpEngine.started_startDownload h.cfg http now params none true h.registry
      h.world
    simp only [HttpEngine.addTask]
    rcases hout : HttpEngine.startDownload h.cfg http now params none true h.registry h.world with
      ⟨result, registry', w'⟩
    rw [hout] at hstarted
    cases hstarted with
    | recorded worker hurl hpath hreplace hdeleting hidle hfs hstore =>
        exact resumeData_replaceTask hstore
    | _ => rfl
  · have hadded := TorrentEngine.added_addTask h.cfg bt now params h.registry h.world
    rcases hout : TorrentEngine.addTask h.cfg bt now params h.registry h.world with
      ⟨result, registry', w'⟩
    rw [hout] at hadded
    cases hadded with
    | kept hregistry => rfl
    | recorded infoHash name hsource hstore hw hregistry =>
        rw [hw.1]
        exact resumeData_replaceTask hstore

/-! ### The threads of a URL -/

/-- One context of the URL after another: of the same thread, which has been told to stop at most, or
of a new one, which starts from nothing or from an archive of the URL. -/
inductive Succeeds (url : String) (w : World) (c' : HttpContext) : Prop
  | same (hfind : w.contexts.find? url = some c')
  | told (c : HttpContext) (event : Event) (hfind : w.contexts.find? url = some c)
      (hrequest : Hub.ownEvent event = false)
      (hstep : ∀ cfg, c.worker.step cfg event = some c'.worker)
  | started (clientId client savePath : String) (archive : Option Archive) (fs : Fs) (granted : Bool)
      (harchive : archive = none ∨ archive = w.store.loadResume client .http url)
      (hworker : c'.worker = startWorker url clientId savePath archive fs granted)

namespace Succeeds

variable {w : World} {c' : HttpContext}

theorem of_erase {key : String} (hfind : (w.contexts.erase key).find? url = some c') :
    Succeeds url w c' := by
  rw [KeyedList.erase, KeyedList.find?_filter] at hfind
  exact .same (Option.filter_eq_some_iff.mp hfind).1

theorem of_insert {c : HttpContext} {l : Contexts} (hfind : (l.insert c).find? url = some c')
    (hnew : c.url = url → Succeeds url w c) (hold : l.find? url = some c' → Succeeds url w c') :
    Succeeds url w c' := by
  rw [KeyedList.find?_insert] at hfind
  split at hfind
  next hkey =>
    obtain rfl := Option.some.inj hfind
    exact hnew hkey.symm
  next => exact hold hfind

theorem of_modify {key : String} {f : HttpContext → HttpContext} (hf : ∀ c, (f c).url = c.url)
    (event : Event) (hrequest : Hub.ownEvent event = false)
    (hstep : ∀ c cfg, c.worker.step cfg event = some (f c).worker)
    (hfind : (w.contexts.modify key f hf).find? url = some c') : Succeeds url w c' := by
  by_cases hkey : url = key
  · subst hkey
    rw [KeyedList.find?_modify_self] at hfind
    obtain ⟨c, hc, rfl⟩ := Option.map_eq_some_iff.mp hfind
    exact .told c event hc hrequest (hstep c)
  · rw [KeyedList.find?_modify_of_ne _ _ _ hkey] at hfind
    exact .same hfind

end Succeeds

namespace HttpEngine

theorem succeeds_startDownload {cfg : ManagerConfig} {env : DownloadEnv} {now : Int}
    {params : TaskParams} {archive : Option Archive} {replaceRecord : Bool} {registry : Registry}
    {w : World} {c' : HttpContext}
    (harchive : params.url = url →
      archive = none ∨ ∃ client, archive = w.store.loadResume client .http url)
    (hfind : (startDownload cfg env now params archive replaceRecord registry w).2.2.contexts.find? url =
      some c') : Succeeds url w c' := by
  have hnew : ∀ (savePath : String) (fs : Fs), params.url = url → Succeeds url w
      ⟨params.url, startWorker params.url cfg.clientId savePath archive fs env.openOk, 0⟩ := by
    rintro savePath fs rfl
    rcases harchive rfl with hnone | ⟨client, hload⟩
    · exact .started cfg.clientId "" savePath archive fs env.openOk (Or.inl hnone) rfl
    · exact .started cfg.clientId client savePath archive fs env.openOk (Or.inr hload) rfl
  simp only [startDownload] at hfind
  split_ifs at hfind
  · exact .same hfind
  · exact .same hfind
  · exact .same hfind
  · exact .same hfind
  split at hfind
  · exact .of_erase hfind
  next fs _ =>
    simp only [launch] at hfind
    split at hfind
    · split at hfind
      · exact .of_erase hfind
      · exact .of_insert hfind (hnew _ fs) .of_erase
    · exact .of_insert hfind (hnew _ fs) .of_erase

theorem succeeds_doResume {cfg : ManagerConfig} {env : DownloadEnv} {now : Int} {params : TaskParams}
    {registry : Registry} {w : World} {c' : HttpContext}
    (hfind : (doResume cfg env now params registry w).2.contexts.find? url = some c') :
    Succeeds url w c' := by
  simp only [doResume] at hfind
  split_ifs at hfind
  · exact .same hfind
  · exact .same hfind
  split at hfind
  · exact .same hfind
  split_ifs at hfind
  · exact .same hfind
  · refine succeeds_startDownload (fun hkey => Or.inr ⟨params.clientId, ?_⟩) hfind
    rw [← hkey]

theorem succeeds_pauseTask {params : TaskParams} {w : World} {c' : HttpContext}
    (hfind : (pauseTask params w).2.contexts.find? url = some c') : Succeeds url w c' := by
  simp only [pauseTask] at hfind
  split at hfind
  · exact .same hfind
  · exact .of_modify url_requestPause .pauseRequest rfl (fun c cfg => rfl) hfind

theorem succeeds_deleteTask {params : TaskParams} {w : World} {c' : HttpContext}
    (hfind : (deleteTask params w).2.contexts.find? url = some c') : Succeeds url w c' := by
  simp only [deleteTask] at hfind
  split at hfind
  · exact .same hfind
  · exact .of_modify url_requestDelete .deleteRequest rfl (fun c cfg => rfl) hfind

/-- A step of a thread, with the archive it may save: the thread of no other URL has moved, and no
other archive has changed. -/
structure ThreadStepped (cfg : HttpConfig) (key : String) (event : Event) (w w' : World)
    (c : HttpContext) (worker : Worker) : Prop where
  find : w.contexts.find? key = some c
  step : { c.worker with fs := w.fs, emitted := none }.step cfg event = some worker
  load : ∀ clientId url, w'.store.loadResume clientId .http url =
    if clientId = c.worker.task.clientId ∧ url = key then
      worker.emitted.or (w.store.loadResume clientId .http url)
    else w.store.loadResume clientId .http url
  self : (w'.contexts.find? key).map HttpContext.worker = some worker
  other : ∀ url, url ≠ key → w'.contexts.find? url = w.contexts.find? url

theorem threadStepped_stepWorker {cfg : HttpConfig} {now : Int} {key : String} {event : Event}
    {w w' : World} (hstep : stepWorker cfg now key event w = some w') :
    ∃ c worker, ThreadStepped cfg key event w w' c worker := by
  simp only [stepWorker] at hstep
  split at hstep
  · simp at hstep
  next c hfind =>
    split at hstep
    · simp at hstep
    next worker hworker =>
      obtain rfl := Option.some.inj hstep
      refine ⟨c, worker, hfind, hworker, fun clientId url => ?_, ?_, fun url hne => ?_⟩
      · simp only
        cases worker.emitted with
        | none => simp
        | some archive => exact Store.loadResume_saveResume clientId _ key archive _
      · simp only [KeyedList.find?_modify_self, hfind, Option.map_some]
      · simp only
        rw [KeyedList.find?_modify_of_ne _ _ _ hne]

end HttpEngine

section Calls

variable {h : Hub} {params : TaskParams} {http : DownloadEnv} {bt : TorrentEnv} {now : Int}
  {c' : HttpContext}

theorem succeeds_addTask
    (hfind : (h.addTask params http bt now).2.world.contexts.find? url = some c') :
    Succeeds url h.world c' := by
  simp only [Hub.addTask, Hub.put] at hfind
  split at hfind
  · exact HttpEngine.succeeds_startDownload (fun _ => Or.inl rfl) hfind
  · have hadded := TorrentEngine.added_addTask h.cfg bt now params h.registry h.world
    generalize (TorrentEngine.addTask h.cfg bt now params h.registry h.world).2.1 = registry' at hadded
    generalize (TorrentEngine.addTask h.cfg bt now params h.registry h.world).2.2 = w' at hadded hfind
    generalize (TorrentEngine.addTask h.cfg bt now params h.registry h.world).1 = result at hadded
    cases hadded with
    | kept hregistry => exact .same hfind
    | recorded infoHash name hsource hstore hw hregistry => exact .same (hw.2 ▸ hfind)

theorem succeeds_pauseTask (hfind : (h.pauseTask params bt).2.world.contexts.find? url = some c') :
    Succeeds url h.world c' := by
  simp only [Hub.pauseTask, Hub.put] at hfind
  split at hfind
  · exact HttpEngine.succeeds_pauseTask hfind
  · rw [(onlyTorrents_pauseTask bt params h.registry h.world).contexts] at hfind
    exact .same hfind

theorem succeeds_deleteTask (hfind : (h.deleteTask params bt).2.world.contexts.find? url = some c') :
    Succeeds url h.world c' := by
  simp only [Hub.deleteTask, Hub.put] at hfind
  split at hfind
  · exact HttpEngine.succeeds_deleteTask hfind
  · rw [(onlyTorrents_deleteTask bt params h.registry h.world).contexts] at hfind
    exact .same hfind

theorem succeeds_admission
    (hfind : (h.admission http bt now).world.contexts.find? url = some c') :
    Succeeds url h.world c' := by
  rcases h.answers_admission http bt now with hsame | ⟨task, result, hcall | hcall⟩
  · rw [hsame] at hfind
    exact .same hfind
  · generalize (h.admission http bt now).world = w' at hcall hfind
    rcases Hub.answersPause hcall with ⟨-, hanswer⟩ | ⟨-, hanswer⟩ <;>
      obtain rfl := congrArg Prod.snd hanswer
    · exact HttpEngine.succeeds_pauseTask hfind
    · rw [(TorrentEngine.onlyTorrents_pauseHandle bt _ h.world).contexts] at hfind
      exact .same hfind
  · generalize (h.admission http bt now).world = w' at hcall hfind
    obtain ⟨engine, hengine, hanswer⟩ := hcall
    simp only [Hub.engines, Engines.engineOf] at hengine
    split at hengine <;> obtain rfl := Option.some.inj hengine <;>
      obtain rfl := congrArg Prod.snd hanswer
    · exact HttpEngine.succeeds_doResume hfind
    · rw [(TorrentEngine.onlyTorrents_doResume h.cfg bt _ h.world).contexts] at hfind
      exact .same hfind

end Calls

/-! ### Whole runs -/

def Store.Counted (url : String) (s : Store) : Prop :=
  ∀ clientId a, s.loadResume clientId .http url = some a → ∀ span ∈ a.spans, 0 ≤ span.done

/-- What was downloaded from the URL is in the database, or is still being saved. -/
structure Durable (whole : Prop) (url : String) (h : Hub) : Prop where
  rooted : Rooted h
  counted : h.world.store.Counted url
  tracked : ∀ c, h.world.contexts.find? url = some c →
    Tracked whole (h.world.store.loadResume c.worker.task.clientId .http url) c.worker

def Whole (url : String) (h : Hub) : HubEvent → Prop
  | .worker key event _ => key = url →
      (h.world.contexts.find? url).all (fun c => !c.worker.breaksOff event) = true
  | _ => True

instance (h : Hub) : ∀ event, Decidable (Whole url h event)
  | .worker .. => inferInstanceAs (Decidable (_ → _ = true))
  | .add .. | .resume .. | .admission .. | .pause .. | .delete .. | .schedule | .pauseNext _
  | .maintain _ | .sweepHttp _ | .sweepTorrent | .applyConfig _ | .alert _ | .libtorrent .. | .disk _
  | .restart _ => isTrue trivial

namespace Durable

variable {whole : Prop} {h h' : Hub} {event : HubEvent}

theorem follow (hdurable : Durable whole url h) (hrooted : Rooted h')
    (hstore : Store.SameArchives url h.world.store h'.world.store)
    (hsucceeds : ∀ c', h'.world.contexts.find? url = some c' → Succeeds url h.world c') :
    Durable whole url h' where
  rooted := hrooted
  counted clientId a hload := hdurable.counted clientId a (hstore clientId ▸ hload)
  tracked c' hfind := by
    rw [hstore]
    cases hsucceeds c' hfind with
    | same hsame => exact hdurable.tracked c' hsame
    | told c request hold hrequest hstep =>
        rw [(Progresses.step (hstep h.httpCfg)).clientId]
        refine (hdurable.tracked c hold).requested ?_ (hstep h.httpCfg)
        cases request <;> simp [Hub.ownEvent] at hrequest ⊢
    | started clientId client savePath archive fs granted harchive hworker =>
        rw [hworker]
        refine tracked_startWorker _ _ url clientId savePath fs granted fun a ha => ?_
        rcases harchive with hnone | hload
        · exact absurd (hnone.symm.trans ha) (by simp)
        · exact hdurable.counted client a (hload.symm.trans ha)

theorem worker {key : String} {event : Event} {now : Int} {w : World} (hdurable : Durable whole url h)
    (hrooted : Rooted { h with world := w }) (hwhole : whole → Whole url h (.worker key event now))
    (hstep : HttpEngine.stepWorker h.httpCfg now key event h.world = some w) :
    Durable whole url { h with world := w } := by
  obtain ⟨c, worker, hfind, hworker, hload, hself, hother⟩ :=
    HttpEngine.threadStepped_stepWorker hstep
  have hprogress := Progresses.step hworker
  have hclient : worker.task.clientId = c.worker.task.clientId := hprogress.clientId
  by_cases hkey : url = key
  · subst hkey
    have hunbroken : whole → c.worker.breaksOff event = false := by
      intro hholds
      have hall := hwhole hholds rfl
      rw [hfind] at hall
      simpa using hall
    have hstored : Tracked whole (worker.emitted.or
        (h.world.store.loadResume c.worker.task.clientId .http url)) worker :=
      ((hdurable.tracked c hfind).taken h.world.fs).step rfl hunbroken hworker
    refine ⟨hrooted, fun clientId a ha => ?_, fun c' hc' => ?_⟩
    · rw [hload] at ha
      split at ha
      · rcases hprogress.emitted with hnone | hsaved
        · rw [hnone, Option.none_or] at ha
          exact hdurable.counted clientId a ha
        · rw [hsaved, Option.some_or] at ha
          obtain rfl := Option.some.inj ha
          rw [spans_serializeResume]
          exact hstored.counted
      · exact hdurable.counted clientId a ha
    · obtain ⟨c'', hc'', rfl⟩ := Option.map_eq_some_iff.mp hself
      obtain rfl := Option.some.inj (hc''.symm.trans hc')
      rw [hload, if_pos ⟨hclient, rfl⟩, hclient]
      exact hstored
  · have hsame : Store.SameArchives url h.world.store w.store := fun clientId =>
      (hload clientId url).trans (if_neg fun hown => hkey hown.2)
    exact hdurable.follow hrooted hsame fun c' hc' => .same ((hother url hkey).symm.trans hc')

theorem step (hdurable : Durable whole url h) (hwhole : whole → Whole url h event)
    (hstep : h.step event = some h') : Durable whole url h' := by
  have hrooted := rooted_step hdurable.rooted hstep
  cases Hub.stepped_of_step hstep with
  | @add params http bt now hfree hjoined =>
      exact hdurable.follow hrooted (.of_table resumeData_addTask) fun c' => succeeds_addTask
  | pause => exact hdurable.follow hrooted (.of_eq store_pauseTask) fun c' => succeeds_pauseTask
  | resume hfree =>
      refine hdurable.follow hrooted (.of_eq (by rw [world_resumeTask])) fun c' hc' => ?_
      rw [world_resumeTask] at hc'
      exact .same hc'
  | delete => exact hdurable.follow hrooted (.of_eq store_deleteTask) fun c' => succeeds_deleteTask
  | schedule hfree =>
      have hworld : h.schedule.world = h.world := by
        rw [Hub.schedule]
        split <;> rfl
      refine hdurable.follow hrooted (.of_eq (by rw [hworld])) fun c' hc' => .same ?_
      rwa [hworld] at hc'
  | admission hadmitting hjoined =>
      exact hdurable.follow hrooted (.of_eq store_admission) fun c' => succeeds_admission
  | @pauseNext bt params rest hnext =>
      exact hdurable.follow hrooted (.of_eq (@store_pauseTask { h with toPause := rest } params bt))
        fun c' => @succeeds_pauseTask url { h with toPause := rest } params bt c'
  | maintain hfree =>
      exact hdurable.follow hrooted (sameArchives_maintain hdurable.rooted _)
        fun c' hc' => .same hc'
  | sweepHttp =>
      refine hdurable.follow hrooted (.refl _) fun c' hc' => .same ?_
      simp only [HttpEngine.sweep, KeyedList.find?_filter] at hc'
      exact (Option.filter_eq_some_iff.mp hc').1
  | sweepTorrent hfree =>
      have honly := TorrentEngine.onlyTorrents_sweep h.cfg h.registry h.world
      exact hdurable.follow hrooted (.of_eq honly.store) fun c' hc' => .same (honly.contexts ▸ hc')
  | worker hown hworker => exact hdurable.worker hrooted hwhole hworker
  | @alert acquire alert alerts hfree halerts =>
      have hcontexts :=
        @contexts_handleAlert acquire h.registry { h.world with alerts := alerts } alert
      exact hdurable.follow hrooted (.of_table (resumeData_handleAlert _ _ _ _))
        fun c' hc' => .same (hcontexts ▸ hc')
  | libtorrent | disk | configKept | configApplied =>
      exact hdurable.follow hrooted (.refl _) fun c' hc' => .same hc'
  | restart => exact hdurable.follow hrooted (.refl _) fun c' hc' => absurd hc' (by simp [startHub])

end Durable

section Run

variable {cfg : ManagerConfig} {httpCfg : HttpConfig} {store : Store} {fs : Fs} {now : Int} {h : Hub}

theorem durable_of_reaches {whole : Prop} {ok : Hub → HubEvent → Prop}
    (hok : whole → ∀ h event, ok h event → Whole url h event) (hcounted : store.Counted url)
    (hrun : Reaches Hub.step ok (startHub cfg httpCfg store fs now) h) : Durable whole url h := by
  have hstart : Durable whole url (startHub cfg httpCfg store fs now) :=
    ⟨rooted_startHub cfg httpCfg store fs now, hcounted, fun c hfind =>
      absurd hfind (by simp [startHub])⟩
  exact hrun.invariant (fun h event _ hinv hevent hstep =>
    hinv.step (fun hholds => hok hholds h event hevent) hstep) hstart

def deliveredRun : List HubEvent :=
  .add { url := "http://h/f.bin" } {} noTorrents 0 ::
    splitRun.map fun event => .worker "http://h/f.bin" event 1

def pausedAfter : List HubEvent :=
  .pause { url := "http://h/f.bin" } noTorrents ::
    [.performed true fun _ => true, .drained, .leave, .close, .exit].map fun event =>
      .worker "http://h/f.bin" event 2

theorem counted_empty (url : String) : ({} : Store).Counted url :=
  fun _ _ hnone => absurd hnone (by simp [Store.loadResume])

end Run

end DownloadWrapper
