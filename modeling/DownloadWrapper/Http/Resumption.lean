import DownloadWrapper.Http.Engine
import DownloadWrapper.Http.PartInvariant
import DownloadWrapper.Http.Progress

/-!
# Resuming beside the last worker

`do_resume` looks whether the task is being paused, loads the archive, and lets `start_download` take
the old context away: three sections, with anything in between. The old thread saves without the
manager's lock, so the archive that was loaded need not be the one saved last any more when the new
thread starts from it.
-/

namespace DownloadWrapper

open Transition TaskCtx

def stepContext (cfg : HttpConfig) (now : Int) (event : Event) (c : HttpContext) (w : World) :
    Option (HttpContext × World) :=
  ({ c.worker with fs := w.fs, emitted := none }.step cfg event).map fun worker =>
    ({ c with
        worker := worker
        finishedAt := if c.worker.running && !worker.running then now else c.finishedAt },
      { w with
        fs := worker.fs
        store := match worker.emitted with
          | some archive => w.store.saveResume c.worker.task.clientId .http c.url archive
          | none => w.store })

def putWorker (url : String) (out : HttpContext × World) : World :=
  { out.2 with
    contexts := out.2.contexts.modify url
      (fun c => { c with worker := out.1.worker, finishedAt := out.1.finishedAt }) fun _ => rfl }

theorem stepWorker_eq (cfg : HttpConfig) (now : Int) (url : String) (event : Event) (w : World) :
    HttpEngine.stepWorker cfg now url event w =
      (w.contexts.find? url).bind fun c => (stepContext cfg now event c w).map (putWorker url) := by
  rw [HttpEngine.stepWorker]
  cases hfind : w.contexts.find? url with
  | none => rfl
  | some c =>
      obtain rfl : c.url = url := KeyedList.key_of_find? hfind
      simp only [Option.bind_some, stepContext, Option.map_map]
      cases { c.worker with fs := w.fs, emitted := none }.step cfg event with
      | none => rfl
      | some worker =>
          cases hemitted : worker.emitted with
          | none => simp [putWorker, hemitted]
          | some archive => simp [putWorker, hemitted]

def pausing (url : String) (w : World) : Bool :=
  (w.contexts.find? url).any fun c => c.worker.task.pauseReq && c.worker.running

/-- What `do_resume` hands to `start_download`. `overtaken` says that the thread has saved since. -/
structure Loaded where
  savePath : String
  archive : Option Archive
  overtaken : Bool := false

def Loaded.overtake (l : Loaded) : Loaded := { l with overtaken := true }

/-- Where `do_resume` stands: past its check, past its load, waiting for the thread it found, or about
to start the new one. -/
inductive ResumeStage where
  | idle
  | checked
  | loaded (l : Loaded)
  | joining (l : Loaded) (stale : HttpContext)
  | preparing (l : Loaded)

namespace ResumeStage

def overtake : ResumeStage → ResumeStage
  | idle => idle
  | checked => checked
  | loaded l => loaded l.overtake
  | joining l stale => joining l.overtake stale
  | preparing l => preparing l.overtake

def loaded? : ResumeStage → Option Loaded
  | idle | checked => none
  | loaded l | joining l _ | preparing l => some l

def parted : ResumeStage → Bool
  | joining .. | preparing _ => true
  | _ => false

end ResumeStage

/-- A worker that `do_resume` has started: the archive it restores, and the one that was saved last. -/
structure Launch where
  archive : Option Archive
  saved : Option Archive
  worker : Worker

/-- `saved` is the last archive a thread of the URL saved, `launched` the last worker started. -/
structure Resumption where
  world : World
  stage : ResumeStage := .idle
  saved : Option Archive
  launched : Option Launch := none

inductive ResumeEvent where
  | check
  /-- The client id of the call, and the save path of the task, if there is one. -/
  | load (clientId : String) (savePath : Option String)
  /-- The first section of `start_download`. -/
  | start
  | joined
  | insert (mkdirOk openOk : Bool)
  | thread (cfg : HttpConfig) (event : Event) (now : Int)
  | pause (params : TaskParams)
  | delete (params : TaskParams)
  | sweep (now : Int)
  /-- Whatever else happens to the disk. -/
  | disk (fs : Fs)

namespace Resumption

def current (url : String) (x : Resumption) : Option HttpContext :=
  match x.stage with
  | .joining _ stale => some stale
  | _ => x.world.contexts.find? url

def note (emitted : Option Archive) (x : Resumption) : Resumption :=
  match emitted with
  | none => x
  | some a => { x with saved := some a, stage := x.stage.overtake }

def withThread (url : String) (out : HttpContext × World) (x : Resumption) : Resumption :=
  match x.stage with
  | .joining l _ => { x with world := out.2, stage := .joining l out.1 }
  | _ => { x with world := putWorker url out }

def threadStep (url : String) (cfg : HttpConfig) (event : Event) (now : Int) (x : Resumption) :
    Option Resumption :=
  (x.current url).bind fun c => (stepContext cfg now event c x.world).map fun out =>
    (x.withThread url out).note out.1.worker.emitted

/-- The first section of `start_download`: a running thread is let go on, any other context taken
out. -/
def startSection (url : String) (l : Loaded) (x : Resumption) : Resumption :=
  match x.world.contexts.find? url with
  | none => { x with stage := .preparing l }
  | some c =>
      if c.worker.running && !c.worker.task.deleteReq then { x with stage := .idle }
      else
        { x with
          world := { x.world with contexts := x.world.contexts.erase url }
          stage := .joining l c }

def insertSection (client url : String) (mkdirOk openOk : Bool) (l : Loaded) (x : Resumption) :
    Resumption :=
  match mkdirRecursive x.world.fs l.savePath mkdirOk with
  | none => { x with stage := .idle }
  | some fs =>
      if (x.world.contexts.find? url).isSome then
        { x with world := { x.world with fs := fs }, stage := .idle }
      else
        let worker := startWorker url client l.savePath l.archive fs openOk
        { x with
          world := { x.world with
            fs := fs
            contexts := x.world.contexts.insert { url := url, worker := worker } }
          stage := .idle
          launched := some ⟨l.archive, x.saved, worker⟩ }

/-- One section, or one step outside of them. `client` is the manager's client id. -/
def step (client url : String) (x : Resumption) : ResumeEvent → Option Resumption
  | .check =>
      match x.stage with
      | .idle => some (if pausing url x.world then x else { x with stage := .checked })
      | _ => none
  | .load clientId savePath =>
      match x.stage with
      | .checked =>
          let path := savePath.getD ""
          if clientId = "" ∨ path = "" then some { x with stage := .idle }
          else
            let archive := x.world.store.loadResume clientId .http url
            some { x with stage := .loaded { savePath := path, archive := archive } }
      | _ => none
  | .start =>
      match x.stage with
      | .loaded l => some (x.startSection url l)
      | _ => none
  | .joined =>
      match x.stage with
      | .joining l stale => if stale.worker.running then none else some { x with stage := .preparing l }
      | _ => none
  | .insert mkdirOk openOk =>
      match x.stage with
      | .preparing l => some (x.insertSection client url mkdirOk openOk l)
      | _ => none
  | .thread cfg event now => x.threadStep url cfg event now
  | .pause params => some { x with world := (HttpEngine.pauseTask params x.world).2 }
  | .delete params => some { x with world := (HttpEngine.deleteTask params x.world).2 }
  | .sweep now => some { x with world := HttpEngine.sweep now x.world }
  | .disk fs => some { x with world := { x.world with fs := fs } }

/-- `do_resume` looks under the client id the threads save under, or finds the same there; and no
thread saves between the load and the start of a new worker. -/
def Timely (client url : String) (x : Resumption) : ResumeEvent → Prop
  | .load clientId _ =>
      x.world.store.loadResume clientId .http url = x.world.store.loadResume client .http url
  | .insert mkdirOk _ => ∀ l, x.stage = .preparing l →
      (mkdirRecursive x.world.fs l.savePath mkdirOk).isSome = true → l.overtaken = false
  | _ => True

instance (client url : String) (x : Resumption) :
    ∀ event : ResumeEvent, Decidable (x.Timely client url event)
  | .load clientId _ => inferInstanceAs (Decidable
      (x.world.store.loadResume clientId .http url = x.world.store.loadResume client .http url))
  | .insert mkdirOk _ =>
      match hstage : x.stage with
      | .preparing l => decidable_of_iff
          ((mkdirRecursive x.world.fs l.savePath mkdirOk).isSome = true → l.overtaken = false) (by
            simp only [Timely, hstage, ResumeStage.preparing.injEq]
            exact ⟨fun h _ heq => heq ▸ h, fun h => h l rfl⟩)
      | .idle | .checked | .loaded _ | .joining .. => isTrue fun _ heq => nomatch hstage.symm.trans heq
  | .check | .start | .joined | .thread .. | .pause _ | .delete _ | .sweep _ | .disk _ => isTrue trivial

/-- What is claimed of a state: the last worker started restores the archive saved last, all the bytes
it counts, and what is saved from then on is no less. -/
structure Continues (client url : String) (x : Resumption) : Prop where
  stored : x.world.store.loadResume client .http url = x.saved
  latest : ∀ l, x.launched = some l → l.archive = l.saved
  whole : ∀ l, x.launched = some l → l.worker.task.probing = false →
    ∃ a, l.saved = some a ∧ l.worker.task.totalDone = a.totalDone
  forward : ∀ l, x.launched = some l → l.worker.task.probing = false →
    ∃ a, x.saved = some a ∧ l.worker.task.totalDone ≤ a.totalDone

def begin (client url : String) (w : World) : Resumption where
  world := w
  saved := w.store.loadResume client .http url

theorem insertSection_world (cfg : ManagerConfig) (env : DownloadEnv) (now : Int) (clientId url : String)
    (registry : Registry) (l : Loaded) {x : Resumption} {w : World}
    (hworld : x.world = { w with contexts := w.contexts.erase url }) :
    (x.insertSection cfg.clientId url env.mkdirOk env.openOk l).world =
      (match mkdirRecursive w.fs l.savePath env.mkdirOk with
        | none => (SubmitResult.failure .error "目录创建失败", registry,
            { w with contexts := w.contexts.erase url })
        | some fs => HttpEngine.launch env now
            { clientId := clientId, url := url, savePath := l.savePath } l.savePath
            (startWorker url cfg.clientId l.savePath l.archive fs env.openOk) false registry
            { w with contexts := w.contexts.erase url, fs := fs }).2.2 := by
  have hfs : x.world.fs = w.fs := by rw [hworld]
  rw [insertSection, hfs]
  cases mkdirRecursive w.fs l.savePath env.mkdirOk with
  | none => exact hworld
  | some fs =>
      simp only [hworld, KeyedList.find?_erase_self, Option.isSome_none, Bool.false_eq_true, if_false,
        HttpEngine.launch]

/-- The sections of `start_download` in a row, once the thread they wait for has ended. -/
theorem reaches_startDownload (cfg : ManagerConfig) (env : DownloadEnv) (now : Int)
    (clientId : String) {url : String} (registry : Registry) {x : Resumption} {l : Loaded}
    (hstage : x.stage = .loaded l) (hurl : url ≠ "") (hpath : l.savePath ≠ "")
    (hended : ∀ c, x.world.contexts.find? url = some c → c.worker.task.deleteReq = true →
      c.worker.running = false) :
    ∃ x', Reaches (step cfg.clientId url) anyEvent x x' ∧
      x'.world = (HttpEngine.startDownload cfg env now
        { clientId := clientId, url := url, savePath := l.savePath } l.archive false registry
        x.world).2.2 := by
  have hsave : HttpEngine.savePathOf cfg
      { clientId := clientId, url := url, savePath := l.savePath } = l.savePath := if_pos hpath
  simp only [HttpEngine.startDownload, hsave, if_neg hurl, if_neg hpath, Bool.false_eq_true,
    false_and, if_false]
  have hinsert : ∀ {x₁ : Resumption}, x₁.stage = .preparing l →
      Reaches (step cfg.clientId url) anyEvent x x₁ → Reaches (step cfg.clientId url) anyEvent x
        (x₁.insertSection cfg.clientId url env.mkdirOk env.openOk l) := fun hpreparing hrun =>
    hrun.tail ⟨.insert env.mkdirOk env.openOk, trivial, by rw [step, hpreparing]⟩
  cases hfind : x.world.contexts.find? url with
  | none =>
      have hstart : step cfg.clientId url x .start = some { x with stage := .preparing l } := by
        rw [step, hstage]
        simp only [startSection, hfind]
      refine ⟨_, hinsert rfl (.single ⟨.start, trivial, hstart⟩), ?_⟩
      refine insertSection_world cfg env now clientId url _ l ?_
      rw [KeyedList.erase_of_find?_none hfind]
  | some c =>
      cases hbusy : c.worker.running && !c.worker.task.deleteReq with
      | true =>
          refine ⟨{ x with stage := .idle }, .single ⟨.start, trivial, ?_⟩, ?_⟩
          · rw [step, hstage]
            simp only [startSection, hfind, hbusy, if_true]
          · simp only [hbusy, if_true]
      | false =>
          have hquiet : c.worker.running = false := by
            cases hdelete : c.worker.task.deleteReq with
            | true => exact hended c hfind hdelete
            | false => simpa [hdelete] using hbusy
          have hstart : step cfg.clientId url x .start = some { x with
              world := { x.world with contexts := x.world.contexts.erase url }
              stage := .joining l c } := by
            rw [step, hstage]
            simp only [startSection, hfind, hbusy, Bool.false_eq_true, if_false]
          have hrun := Relation.ReflTransGen.single
            (show Next (step cfg.clientId url) anyEvent x _ from ⟨.start, trivial, hstart⟩)
          simp only [hbusy, Bool.false_eq_true, if_false]
          have hjoined : step cfg.clientId url { x with
              world := { x.world with contexts := x.world.contexts.erase url }
              stage := .joining l c } .joined = some { x with
                world := { x.world with contexts := x.world.contexts.erase url }
                stage := .preparing l } := by
            simp only [step, hquiet, Bool.false_eq_true, if_false]
          exact ⟨_, hinsert rfl (hrun.tail ⟨.joined, trivial, hjoined⟩),
            insertSection_world cfg env now clientId url _ l rfl⟩

end Resumption

/-- A `do_resume` that nothing comes between leaves the world as the whole call does, once a thread
that is being deleted has ended. -/
theorem reaches_doResume (cfg : ManagerConfig) (env : DownloadEnv) (now : Int) (params : TaskParams)
    (registry : Registry) (w : World)
    (hended : ∀ c, w.contexts.find? params.taskKey = some c → c.worker.task.deleteReq = true →
      c.worker.running = false) :
    ∃ x : Resumption, Reaches (Resumption.step cfg.clientId params.taskKey) anyEvent
        (Resumption.begin cfg.clientId params.taskKey w) x ∧
      x.world = (HttpEngine.doResume cfg env now params registry w).2 := by
  have hstays : ∃ x : Resumption, Reaches (Resumption.step cfg.clientId params.taskKey) anyEvent
      (Resumption.begin cfg.clientId params.taskKey w) x ∧ x.world = w :=
    ⟨_, Relation.ReflTransGen.refl, rfl⟩
  simp only [HttpEngine.doResume]
  split_ifs with hids hpausing
  · exact hstays
  · exact hstays
  split
  next => exact hstays
  next task hrecord =>
    split_ifs with hpath
    · exact hstays
    rw [not_or] at hids
    have hcheck : pausing params.taskKey w = false := by
      rw [pausing]
      cases hfind : w.contexts.find? params.taskKey with
      | none => rfl
      | some c =>
          rw [hfind] at hpausing
          exact Bool.eq_false_iff.mpr hpausing
    obtain ⟨x, hrun, hworld⟩ := Resumption.reaches_startDownload cfg env now
      params.clientId registry
      (x := { Resumption.begin cfg.clientId params.taskKey w with
        stage := .loaded ⟨task.savePath,
          w.store.loadResume params.clientId .http params.taskKey, false⟩ })
      rfl hids.1 hpath hended
    have hloaded : Resumption.step cfg.clientId params.taskKey
        { Resumption.begin cfg.clientId params.taskKey w with stage := .checked }
        (.load params.clientId task.savePath) = some _ := if_neg (not_or.mpr ⟨hids.2, hpath⟩)
    have hchecked : Resumption.step cfg.clientId params.taskKey
        (Resumption.begin cfg.clientId params.taskKey w) .check =
          some { Resumption.begin cfg.clientId params.taskKey w with stage := .checked } := by
      simp only [Resumption.step, Resumption.begin, hcheck, Bool.false_eq_true, if_false]
    exact ⟨x, .head ⟨.check, trivial, hchecked⟩ (.head ⟨_, trivial, hloaded⟩ hrun), hworld⟩

namespace Resumption

/-! ### What every section keeps -/

/-- The thread at work saves under the client's id, and has all that was saved last if it goes on from
the last start. -/
structure Chained (client url : String) (x : Resumption) : Prop extends Continues client url x where
  own : ∀ c, x.current url = some c → c.worker.task.clientId = client ∧ c.url = url
  parted : x.stage.parted = true → x.world.contexts.find? url = none
  loaded : ∀ l, x.stage.loaded? = some l → (l.overtaken = false → l.archive = x.saved)
  ahead : ∀ l, x.launched = some l → l.worker.task.probing = false → ∀ c, x.current url = some c →
    c.worker.task.probing = false ∧ ∀ a, x.saved = some a → a.totalDone ≤ c.worker.task.totalDone

section Sections

variable {client url : String} {x x' : Resumption}

/-- What leaves the archives alone keeps all of it, if the thread at work is the one there was. -/
theorem Chained.of_same (h : Chained client url x) (hsaved : x'.saved = x.saved)
    (hlaunched : x'.launched = x.launched) (hstore : x'.world.store = x.world.store)
    (hcurrent : ∀ c', x'.current url = some c' →
      ∃ c, x.current url = some c ∧ c'.url = c.url ∧ Advances c.worker.task c'.worker.task)
    (hparted : x'.stage.parted = true → x'.world.contexts.find? url = none)
    (hloaded : ∀ l, x'.stage.loaded? = some l → (l.overtaken = false → l.archive = x.saved)) :
    Chained client url x' where
  stored := by rw [hstore, hsaved, h.stored]
  latest l hl := h.latest l (hlaunched ▸ hl)
  whole l hl := h.whole l (hlaunched ▸ hl)
  forward l hl hprobing := hsaved ▸ h.forward l (hlaunched ▸ hl) hprobing
  own c' hc' := by
    obtain ⟨c, hc, hurl, hgoes⟩ := hcurrent c' hc'
    exact ⟨hgoes.clientId.trans (h.own c hc).1, hurl.trans (h.own c hc).2⟩
  parted := hparted
  loaded := hsaved ▸ hloaded
  ahead l hl hprobing c' hc' := by
    obtain ⟨c, hc, -, hgoes⟩ := hcurrent c' hc'
    obtain ⟨hsettled, hbelow⟩ := h.ahead l (hlaunched ▸ hl) hprobing c hc
    exact ⟨hgoes.probing hsettled, fun a ha =>
      (hbelow a (hsaved ▸ ha)).trans (hgoes.totalDone hsettled)⟩

theorem Chained.of_saved (h : Chained client url x) {c c' : HttpContext}
    (hc : x.current url = some c) (hgoes : Advances c.worker.task c'.worker.task) (hurl : c'.url = c.url)
    (hsaved : x'.saved = some (serializeResume c'.worker.task))
    (hlaunched : x'.launched = x.launched)
    (hstored : x'.world.store.loadResume client .http url = x'.saved)
    (hcurrent : ∀ d, x'.current url = some d → d.worker = c'.worker ∧ d.url = c'.url)
    (hparted : x'.stage.parted = true → x'.world.contexts.find? url = none)
    (hloaded : ∀ l, x'.stage.loaded? = some l → (l.overtaken = false → l.archive = x'.saved)) :
    Chained client url x' where
  stored := hstored
  latest l hl := h.latest l (hlaunched ▸ hl)
  whole l hl := h.whole l (hlaunched ▸ hl)
  forward l hl hprobing := by
    obtain ⟨a, ha, hle⟩ := h.forward l (hlaunched ▸ hl) hprobing
    obtain ⟨hsettled, hbelow⟩ := h.ahead l (hlaunched ▸ hl) hprobing c hc
    refine ⟨_, hsaved, ?_⟩
    calc l.worker.task.totalDone
        ≤ a.totalDone := hle
      _ ≤ c.worker.task.totalDone := hbelow a ha
      _ ≤ c'.worker.task.totalDone := hgoes.totalDone hsettled
      _ = (serializeResume c'.worker.task).totalDone := (totalDone_serializeResume _).symm
  own d hd := by
    obtain ⟨hworker, hkey⟩ := hcurrent d hd
    rw [hworker, hkey, hgoes.clientId, hurl]
    exact h.own c hc
  parted := hparted
  loaded := hloaded
  ahead l hl hprobing d hd := by
    obtain ⟨hworker, -⟩ := hcurrent d hd
    have hsettled := (h.ahead l (hlaunched ▸ hl) hprobing c hc).1
    rw [hworker]
    refine ⟨hgoes.probing hsettled, fun a ha => ?_⟩
    obtain rfl := Option.some.inj (hsaved.symm.trans ha)
    exact (totalDone_serializeResume _).le

theorem Chained.of_contexts (h : Chained client url x) {world : World}
    (hstore : world.store = x.world.store)
    (hfind : ∀ c', world.contexts.find? url = some c' →
      ∃ c, x.world.contexts.find? url = some c ∧ c'.url = c.url ∧ Advances c.worker.task c'.worker.task) :
    Chained client url { x with world := world } := by
  refine h.of_same rfl rfl hstore (fun c' hc' => ?_) (fun hparted => ?_) h.loaded
  · cases hstage : x.stage with
    | joining l stale =>
        simp only [current, hstage] at hc' ⊢
        exact ⟨c', hc', rfl, .refl _⟩
    | idle | checked | loaded l | preparing l =>
        simp only [current, hstage] at hc' ⊢
        exact hfind c' hc'
  · cases hthere : world.contexts.find? url with
    | none => rfl
    | some c' =>
        obtain ⟨c, hc, -⟩ := hfind c' hthere
        rw [h.parted hparted] at hc
        cases hc

theorem Chained.requested (h : Chained client url x) (key : String) {f : HttpContext → HttpContext}
    (hf : ∀ c, (f c).url = c.url) (hgoes : ∀ c, Advances c.worker.task (f c).worker.task) :
    Chained client url
      { x with world := { x.world with contexts := x.world.contexts.modify key f hf } } := by
  refine h.of_contexts rfl fun c' hc' => ?_
  rw [KeyedList.modify, KeyedList.find?_map, Option.map_eq_some_iff] at hc'
  obtain ⟨c, hc, rfl⟩ := hc'
  refine ⟨c, hc, ?_⟩
  split
  · exact ⟨hf c, hgoes c⟩
  · exact ⟨rfl, .refl _⟩

theorem Chained.sweep (h : Chained client url x) (now : Int) :
    Chained client url { x with world := HttpEngine.sweep now x.world } := by
  refine h.of_contexts rfl fun c' hc' => ?_
  obtain ⟨hmem, hkey⟩ := KeyedList.find?_eq_some_iff.mp hc'
  obtain ⟨hmem, -⟩ := KeyedList.mem_filter.mp hmem
  exact ⟨c', hkey ▸ KeyedList.find?_key hmem, rfl, .refl _⟩

/-! ### The thread -/

theorem stepContext_spec {cfg : HttpConfig} {now : Int} {event : Event} {c : HttpContext}
    {w : World} {out : HttpContext × World} (hstep : stepContext cfg now event c w = some out) :
    Advances c.worker.task out.1.worker.task ∧ out.1.url = c.url ∧ out.2.contexts = w.contexts ∧
      (out.1.worker.emitted = none ∧ out.2.store = w.store ∨
        out.1.worker.emitted = some (serializeResume out.1.worker.task) ∧
          out.2.store = w.store.saveResume c.worker.task.clientId .http c.url
            (serializeResume out.1.worker.task)) := by
  obtain ⟨worker, hworker, rfl⟩ := Option.map_eq_some_iff.mp hstep
  have hgoes := Progresses.step hworker
  refine ⟨hgoes.toAdvances, rfl, rfl, ?_⟩
  rcases hgoes.emitted with hnone | hsome
  · exact Or.inl ⟨hnone, by simp only [hnone]⟩
  · exact Or.inr ⟨hsome, by simp only [hsome]⟩

theorem withThread_same (url : String) (out : HttpContext × World) (x : Resumption) :
    (x.withThread url out).saved = x.saved ∧ (x.withThread url out).launched = x.launched ∧
      (x.withThread url out).world.store = out.2.store ∧
      (x.withThread url out).stage.loaded? = x.stage.loaded? ∧
      (x.withThread url out).stage.parted = x.stage.parted := by
  cases hstage : x.stage <;> simp [withThread, hstage, putWorker, ResumeStage.loaded?, ResumeStage.parted]

theorem current_withThread {c : HttpContext} {out : HttpContext × World}
    (hc : x.current url = some c) (hurl : out.1.url = c.url)
    (hcontexts : out.2.contexts = x.world.contexts) :
    ∃ d, (x.withThread url out).current url = some d ∧ d.worker = out.1.worker ∧ d.url = c.url := by
  cases hstage : x.stage with
  | joining l stale =>
      refine ⟨out.1, ?_, rfl, hurl⟩
      simp only [withThread, current, hstage]
  | idle | checked | loaded l | preparing l =>
      simp only [current, hstage] at hc
      refine ⟨{ c with worker := out.1.worker, finishedAt := out.1.finishedAt }, ?_, rfl, rfl⟩
      simp only [withThread, current, hstage, putWorker, KeyedList.find?_modify_self, hcontexts, hc,
        Option.map_some]

theorem find?_withThread {out : HttpContext × World} (hcontexts : out.2.contexts = x.world.contexts)
    (hnone : x.world.contexts.find? url = none) :
    (x.withThread url out).world.contexts.find? url = none := by
  cases hstage : x.stage <;> simp [withThread, hstage, putWorker, hcontexts, hnone]

@[simp] theorem current_note (emitted : Option Archive) (x : Resumption) :
    (x.note emitted).current url = x.current url := by
  cases emitted with
  | none => rfl
  | some a => cases hstage : x.stage <;> simp [note, current, hstage, ResumeStage.overtake]

theorem overtaken_of_overtake {stage : ResumeStage} {l : Loaded}
    (hl : stage.overtake.loaded? = some l) : l.overtaken = true := by
  cases stage with
  | idle | checked => cases hl
  | loaded l' | joining l' | preparing l' =>
      obtain rfl := Option.some.inj hl
      rfl

@[simp] theorem parted_overtake (stage : ResumeStage) : stage.overtake.parted = stage.parted := by
  cases stage <;> rfl

theorem loadResume_saveResume (clientId url : String) (a : Archive) (store : Store) :
    (store.saveResume clientId .http url a).loadResume clientId .http url = some a := by
  have hfind := KeyedList.find?_insert_self store.resumeData ⟨clientId, .http, url, a⟩
  rw [Store.loadResume, Store.saveResume]
  exact congrArg (Option.map ResumeRow.data) hfind

theorem Chained.thread (h : Chained client url x) {cfg : HttpConfig} {event : Event} {now : Int}
    (hstep : x.threadStep url cfg event now = some x') : Chained client url x' := by
  obtain ⟨c, hc, hstep⟩ := Option.bind_eq_some_iff.mp hstep
  obtain ⟨out, hout, rfl⟩ := Option.map_eq_some_iff.mp hstep
  obtain ⟨hgoes, hurl, hcontexts, hemission⟩ := stepContext_spec hout
  obtain ⟨hclient, hkey⟩ := h.own c hc
  obtain ⟨d, hd, hworker, hdurl⟩ := current_withThread hc hurl hcontexts
  obtain ⟨hsaved, hlaunched, hstore, hloaded, hparted⟩ := withThread_same url out x
  have hapart : (x.withThread url out).stage.parted = true →
      (x.withThread url out).world.contexts.find? url = none := fun hwaits =>
    find?_withThread hcontexts (h.parted (hparted ▸ hwaits))
  rcases hemission with ⟨hnone, hsame⟩ | ⟨hsome, hrow⟩
  · rw [hnone]
    refine h.of_same hsaved hlaunched (hstore.trans hsame) (fun d' hd' => ?_) hapart
      (fun l hl => h.loaded l (hloaded ▸ hl))
    obtain rfl := Option.some.inj (hd.symm.trans hd')
    exact ⟨c, hc, hdurl, hworker ▸ hgoes⟩
  · rw [hsome]
    refine h.of_saved hc hgoes hurl rfl hlaunched ?_ (fun d' hd' => ?_) (fun hwaits => ?_)
      fun l hl hintime => absurd (overtaken_of_overtake hl) (by simp [hintime])
    · have hsource : out.2.store.loadResume client .http url =
          some (serializeResume out.1.worker.task) := by
        rw [hrow, hclient, hkey]
        exact loadResume_saveResume client url _ _
      exact (congrArg (Store.loadResume client .http url) hstore).trans hsource
    · rw [current_note] at hd'
      obtain rfl := Option.some.inj (hd.symm.trans hd')
      exact ⟨hworker, hdurl.trans hurl.symm⟩
    · exact hapart ((parted_overtake _).symm.trans hwaits)

/-! ### The sections of `do_resume` -/

theorem Chained.startSection (h : Chained client url x) {l : Loaded} (hstage : x.stage = .loaded l) :
    Chained client url (x.startSection url l) := by
  have hcurrent : x.current url = x.world.contexts.find? url := by rw [current, hstage]
  have hloaded : ∀ l', some l = some l' → (l'.overtaken = false → l'.archive = x.saved) := by
    intro l' hl'
    exact h.loaded l' (by rw [hstage]; exact hl')
  rw [Resumption.startSection]
  split
  next hnone =>
    refine h.of_same rfl rfl rfl (fun c' hc' => ?_) (fun _ => hnone) hloaded
    exact absurd (hnone.symm.trans hc') nofun
  next c hfind =>
    split
    · refine h.of_same rfl rfl rfl (fun c' hc' => ?_) nofun nofun
      exact ⟨c', hcurrent.trans hc', rfl, .refl _⟩
    · refine h.of_same rfl rfl rfl (fun c' hc' => ?_) (fun _ => KeyedList.find?_erase_self _ _) hloaded
      obtain rfl := Option.some.inj hc'
      exact ⟨c, hcurrent.trans hfind, rfl, .refl _⟩

theorem Chained.insertSection (h : Chained client url x) {l : Loaded} (hstage : x.stage = .preparing l)
    {mkdirOk openOk : Bool}
    (hlast : (mkdirRecursive x.world.fs l.savePath mkdirOk).isSome = true → l.archive = x.saved) :
    Chained client url (x.insertSection client url mkdirOk openOk l) := by
  have hnone : x.world.contexts.find? url = none := h.parted (by rw [hstage]; rfl)
  rw [Resumption.insertSection]
  split
  · refine h.of_same rfl rfl rfl (fun c' hc' => ?_) (by intro hparted; cases hparted) (by rintro _ ⟨⟩)
    exact absurd (hnone.symm.trans hc') (by simp)
  next fs hmade =>
    rw [hnone, Option.isSome_none, if_neg Bool.false_ne_true]
    have harchive : l.archive = x.saved := hlast (by rw [hmade]; rfl)
    -- what a worker restores is what its archive counts
    have hrestored : (startWorker url client l.savePath l.archive fs openOk).task.probing = false →
        ∃ a, x.saved = some a ∧
          (startWorker url client l.savePath l.archive fs openOk).task.totalDone = a.totalDone := by
      intro hprobing
      rcases startFrom_cases url client l.savePath l.archive fs openOk with
        heq | ⟨a, ha, -, -, -, heq⟩
      · simp [startWorker, heq, taskCreateNew] at hprobing
      · refine ⟨a, harchive.symm.trans ha, ?_⟩
        rw [startWorker, heq]
        exact totalDone_continueFrom _ a
    have hclient : (startWorker url client l.savePath l.archive fs openOk).task.clientId = client := by
      rcases startFrom_cases url client l.savePath l.archive fs openOk with heq | ⟨a, -, -, -, -, heq⟩
      · rw [startWorker, heq]
        rfl
      · rw [startWorker, heq]
        rfl
    refine ⟨⟨h.stored, ?_, ?_, ?_⟩, ?_, (by intro hparted; cases hparted), (by rintro _ ⟨⟩), ?_⟩
    · rintro _ ⟨⟩
      exact harchive
    · rintro _ ⟨⟩ hprobing
      exact hrestored hprobing
    · rintro _ ⟨⟩ hprobing
      obtain ⟨a, ha, hsum⟩ := hrestored hprobing
      exact ⟨a, ha, hsum.le⟩
    · intro c hc
      obtain rfl := Option.some.inj ((KeyedList.find?_insert_self _ _).symm.trans hc)
      exact ⟨hclient, rfl⟩
    · rintro _ ⟨⟩ hprobing c hc
      obtain rfl := Option.some.inj ((KeyedList.find?_insert_self _ _).symm.trans hc)
      obtain ⟨a, ha, hsum⟩ := hrestored hprobing
      refine ⟨hprobing, fun a' ha' => ?_⟩
      obtain rfl := Option.some.inj (ha.symm.trans ha')
      exact hsum.ge

/-- **One step**: in time, it keeps all of it. -/
theorem Chained.step (h : Chained client url x) {event : ResumeEvent}
    (htimely : x.Timely client url event) (hstep : x.step client url event = some x') :
    Chained client url x' := by
  cases event with
  | check =>
      cases hstage : x.stage <;> simp only [Resumption.step, hstage, reduceCtorEq] at hstep
      obtain rfl := Option.some.inj hstep
      split
      · exact h
      · refine h.of_same rfl rfl rfl (fun c' hc' => ⟨c', ?_, rfl, .refl _⟩) nofun nofun
        rw [current, hstage]
        exact hc'
  | load clientId savePath =>
      cases hstage : x.stage <;> simp only [Resumption.step, hstage, reduceCtorEq] at hstep
      have hcurrent : x.current url = x.world.contexts.find? url := by rw [current, hstage]
      split at hstep
      · obtain rfl := Option.some.inj hstep
        exact h.of_same rfl rfl rfl (fun c' hc' => ⟨c', hcurrent.trans hc', rfl, .refl _⟩) nofun nofun
      · obtain rfl := Option.some.inj hstep
        refine h.of_same rfl rfl rfl (fun c' hc' => ⟨c', hcurrent.trans hc', rfl, .refl _⟩) nofun ?_
        rintro _ ⟨⟩
        exact fun _ => htimely.trans h.stored
  | start =>
      cases hstage : x.stage <;> simp only [Resumption.step, hstage, reduceCtorEq] at hstep
      exact Option.some.inj hstep ▸ h.startSection hstage
  | joined =>
      cases hstage : x.stage <;> simp only [Resumption.step, hstage, reduceCtorEq] at hstep
      next l stale =>
        split at hstep
        · cases hstep
        obtain rfl := Option.some.inj hstep
        have hnone : x.world.contexts.find? url = none := h.parted (by rw [hstage]; rfl)
        refine h.of_same rfl rfl rfl (fun c' hc' => ?_) (fun _ => hnone) ?_
        · exact absurd (hnone.symm.trans hc') nofun
        · rintro _ ⟨⟩
          exact h.loaded l (by rw [hstage]; rfl)
  | insert mkdirOk openOk =>
      cases hstage : x.stage <;> simp only [Resumption.step, hstage, reduceCtorEq] at hstep
      next l =>
        refine Option.some.inj hstep ▸ h.insertSection hstage fun hmade => ?_
        exact h.loaded l (by rw [hstage]; rfl) (htimely l hstage hmade)
  | thread cfg event now => exact h.thread hstep
  | pause params =>
      obtain rfl := Option.some.inj hstep
      simp only [HttpEngine.pauseTask]
      split
      · exact h
      · exact h.requested (f := HttpEngine.requestPause) _ (fun _ => rfl) fun _ => ⟨rfl, id, fun _ => le_rfl⟩
  | delete params =>
      obtain rfl := Option.some.inj hstep
      simp only [HttpEngine.deleteTask]
      split
      · exact h
      · exact h.requested (f := HttpEngine.requestDelete) _ (fun _ => rfl) fun _ => ⟨rfl, id, fun _ => le_rfl⟩
  | sweep now => exact Option.some.inj hstep ▸ h.sweep now
  | disk fs =>
      obtain rfl := Option.some.inj hstep
      exact h.of_contexts rfl fun c' hc' => ⟨c', hc', rfl, .refl _⟩

end Sections

theorem chained_begin {client url : String} {w : World}
    (hclient : ∀ c, w.contexts.find? url = some c → c.worker.task.clientId = client) :
    Chained client url (begin client url w) where
  stored := rfl
  latest l hl := by cases hl
  whole l hl := by cases hl
  forward l hl := by cases hl
  own c hc := ⟨hclient c hc, KeyedList.key_of_find? hc⟩
  parted hparted := by cases hparted
  loaded l hl := by cases hl
  ahead l hl := by cases hl

end Resumption

/-- **Resuming from the last archive**: in every run in which no thread saves between a load and the
start of a new worker, every worker that `do_resume` starts restores the archive saved last, and what
is saved never falls behind it. Where a thread does, the start goes on so only if it has saved the very
archive that was loaded. -/
theorem continues_of_reaches {client url : String} {w : World} {x : Resumption}
    (hclient : ∀ c, w.contexts.find? url = some c → c.worker.task.clientId = client)
    (hrun : Reaches (Resumption.step client url) (Resumption.Timely client url)
      (Resumption.begin client url w) x) :
    x.Continues client url ∧ ∀ mkdirOk openOk l x', x.stage = .preparing l →
      (mkdirRecursive x.world.fs l.savePath mkdirOk).isSome = true →
        x.step client url (.insert mkdirOk openOk) = some x' →
          (x'.Continues client url ↔ l.archive = x.saved) := by
  have hchained : Resumption.Chained client url x := by
    refine hrun.invariant (fun _ _ _ hinv htimely hstep => ?_) (Resumption.chained_begin hclient)
    exact Resumption.Chained.step hinv htimely hstep
  refine ⟨hchained.toContinues, fun mkdirOk openOk l x' hstage hmade hstep => ⟨fun hcontinues => ?_,
    fun hlast => ?_⟩⟩
  · have hnone : x.world.contexts.find? url = none := hchained.parted (by rw [hstage]; rfl)
    obtain ⟨fs, hfs⟩ := Option.isSome_iff_exists.mp hmade
    simp only [Resumption.step, hstage, Resumption.insertSection, hfs, hnone, Option.isSome_none,
      Bool.false_eq_true, if_false, Option.some.injEq] at hstep
    obtain rfl := hstep
    exact hcontinues.latest _ rfl
  · simp only [Resumption.step, hstage, Option.some.injEq] at hstep
    obtain rfl := hstep
    exact (hchained.insertSection hstage fun _ => hlast).toContinues

def threadEvent (event : Event) : ResumeEvent := .thread plainCfg event 0

def firstByte : List ResumeEvent :=
  [.check, .load "c" (some "/d"), .start, .insert true true, threadEvent (.enter true fun _ => true),
    threadEvent (.header 0 "HTTP/1.1 206 Partial Content\r\n"),
    threadEvent (.header 0 "Content-Range: bytes 0-3/4\r\n"), threadEvent (.body 0 [1] grantAll),
    threadEvent (.performed true fun _ => true), threadEvent .drained]

def secondByte : List ResumeEvent :=
  [threadEvent (.body 0 [2] grantAll), .pause { url := "http://h/f.bin" },
    threadEvent (.performed true fun _ => true), threadEvent .drained, threadEvent .leave,
    threadEvent .close, threadEvent .exit]

def restoredSum (x : Resumption) : Option ((Bool × Int) × Option Int) :=
  x.launched.map fun l =>
    ((l.worker.task.probing, l.worker.task.totalDone), l.saved.map Archive.totalDone)

theorem continues_of_reaches_paused :
    ∃ x : Resumption, restoredSum x = some ((false, 2), some 2) ∧ x.Continues "c" "http://h/f.bin" := by
  have hplayed : (play (Resumption.step "c" "http://h/f.bin") (Resumption.Timely "c" "http://h/f.bin")
      (Resumption.begin "c" "http://h/f.bin" {}) (firstByte ++ secondByte ++ [.check,
        .load "c" (some "/d"), .start, .joined, .insert true true])).map restoredSum =
      some (some ((false, 2), some 2)) := by decide +kernel
  obtain ⟨x, hrun, hsum⟩ := Option.map_eq_some_iff.mp hplayed
  exact ⟨x, hsum, (continues_of_reaches (fun c hc => by cases hc) (reaches_of_play hrun)).1⟩

/-- The second byte comes between the load and the start, and is forgotten. -/
theorem not_continues_overtaken :
    ∃ x : Resumption, Reaches (Resumption.step "c" "http://h/f.bin") anyEvent
        (Resumption.begin "c" "http://h/f.bin" {}) x ∧
      restoredSum x = some ((false, 1), some 2) ∧ ¬ x.Continues "c" "http://h/f.bin" := by
  have hplayed : (play (Resumption.step "c" "http://h/f.bin") anyEvent
      (Resumption.begin "c" "http://h/f.bin" {}) (firstByte ++ [.check, .load "c" (some "/d")] ++
        secondByte ++ [.start, .joined, .insert true true])).map restoredSum =
      some (some ((false, 1), some 2)) := by decide +kernel
  obtain ⟨x, hrun, hsum⟩ := Option.map_eq_some_iff.mp hplayed
  refine ⟨x, reaches_of_play hrun, hsum, fun hcontinues => ?_⟩
  obtain ⟨l, hl, hvalues⟩ := Option.map_eq_some_iff.mp hsum
  simp only [Prod.mk.injEq] at hvalues
  obtain ⟨⟨hprobing, hdone⟩, hsaved⟩ := hvalues
  obtain ⟨a, ha, hwhole⟩ := hcontinues.whole l hl hprobing
  rw [ha, Option.map_some, ← hwhole, hdone] at hsaved
  exact absurd hsaved (by decide)

end DownloadWrapper
