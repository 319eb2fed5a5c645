import DownloadWrapper.Core.LimitRuns
import DownloadWrapper.Http.Place
import DownloadWrapper.Http.Terminal

/-!
# Without the network

A round that finds the network forbidden notes down the tasks that hold a slot, and pauses them one
after the other, without the lock: everything else goes on in between. What the pauses have reached
once they are all made, and what they have not, is said here for any such run.
-/

namespace DownloadWrapper

open Transition

variable {url : String}

def Worker.told (w : Worker) : Bool := w.task.pauseReq || w.task.cancelReq

def World.goesOn (w : World) (url : String) : Bool :=
  (w.contexts.find? url).any fun c => c.worker.running && !c.worker.told

theorem World.goesOn_eq_true_iff {w : World} :
    w.goesOn url = true ↔
      ∃ c, w.contexts.find? url = some c ∧ c.worker.running = true ∧ c.worker.told = false := by
  simp [World.goesOn, Option.any_eq_true]

/-- One context of a URL after another, of the same thread: what has ended stays so, and nobody takes
a request back. -/
structure Continues (c c' : HttpContext) : Prop where
  running : c'.worker.running = true → c.worker.running = true
  told : c.worker.told = true → c'.worker.told = true

theorem Continues.refl (c : HttpContext) : Continues c c := ⟨id, id⟩

def NoneNew (l l' : Contexts) : Prop :=
  ∀ url c', l'.find? url = some c' → ∃ c, l.find? url = some c ∧ Continues c c'

namespace NoneNew

variable {l : Contexts}

theorem refl (l : Contexts) : NoneNew l l := fun _ c hfind => ⟨c, hfind, .refl c⟩

theorem filter (p : HttpContext → Bool) : NoneNew l (l.filter p) := by
  intro url c hfind
  rw [KeyedList.find?_filter] at hfind
  exact ⟨c, (Option.filter_eq_some_iff.mp hfind).1, .refl c⟩

theorem modify (key : String) (f : HttpContext → HttpContext) (hf : ∀ c, (f c).url = c.url)
    (hcontinues : ∀ c, l.find? key = some c → Continues c (f c)) :
    NoneNew l (l.modify key f hf) := by
  intro url c' hfind
  by_cases hkey : url = key
  · subst hkey
    rw [KeyedList.find?_modify_self] at hfind
    obtain ⟨c, hc, rfl⟩ := Option.map_eq_some_iff.mp hfind
    exact ⟨c, hc, hcontinues c hc⟩
  · rw [KeyedList.find?_modify_of_ne _ _ _ hkey] at hfind
    exact ⟨c', hfind, .refl c'⟩

theorem goesOn {w w' : World} (h : NoneNew w.contexts w'.contexts) (hgoes : w'.goesOn url = true) :
    w.goesOn url = true := by
  obtain ⟨c', hfind', hrunning, htold⟩ := World.goesOn_eq_true_iff.mp hgoes
  obtain ⟨c, hfind, hcontinues⟩ := h url c' hfind'
  refine World.goesOn_eq_true_iff.mpr ⟨c, hfind, hcontinues.running hrunning, ?_⟩
  by_contra hwas
  have hstill := hcontinues.told (by simpa using hwas)
  rw [hstill] at htold
  exact absurd htold (by simp)

end NoneNew

theorem continues_requestPause (c : HttpContext) :
    Continues c (HttpEngine.requestPause c) where
  running := id
  told := fun _ => by simp [HttpEngine.requestPause, Worker.told, Worker.modifyTask]

theorem continues_requestDelete (c : HttpContext) :
    Continues c (HttpEngine.requestDelete c) where
  running := id
  told := fun _ => by simp [HttpEngine.requestDelete, Worker.told, Worker.modifyTask]

namespace HttpEngine

theorem noneNew_pauseTask (params : TaskParams) (w : World) :
    NoneNew w.contexts (pauseTask params w).2.contexts := by
  simp only [pauseTask]
  split
  · exact .refl _
  · exact .modify _ _ url_requestPause fun c _ => continues_requestPause c

theorem noneNew_deleteTask (params : TaskParams) (w : World) :
    NoneNew w.contexts (deleteTask params w).2.contexts := by
  simp only [deleteTask]
  split
  · exact .refl _
  · exact .modify _ _ url_requestDelete fun c _ => continues_requestDelete c

theorem goesOn_pauseTask {params : TaskParams} (w : World) (hkey : params.taskKey ≠ "") :
    (pauseTask params w).2.goesOn params.taskKey = false := by
  simp only [pauseTask, if_neg hkey, World.goesOn]
  rw [KeyedList.find?_modify_self w.contexts params.taskKey requestPause url_requestPause]
  cases w.contexts.find? params.taskKey with
  | none => rfl
  | some c => simp [requestPause, Worker.told, Worker.modifyTask]

theorem noneNew_stepWorker {cfg : HttpConfig} {now : Int} {key : String} {event : Event}
    {w w' : World} (hown : Hub.ownEvent event = true)
    (hstep : stepWorker cfg now key event w = some w') : NoneNew w.contexts w'.contexts := by
  simp only [stepWorker] at hstep
  split at hstep
  · simp at hstep
  next c hfind =>
    split at hstep
    · simp at hstep
    next worker hworker =>
      obtain rfl := Option.some.inj hstep
      refine NoneNew.modify key (fun other => { other with
        worker := worker
        finishedAt := if c.worker.running && !worker.running then now else c.finishedAt })
        (fun _ => rfl) fun other hother => ?_
      obtain rfl := Option.some.inj (hfind.symm.trans hother)
      have hthread := Worker.running_of_step hown hworker
      refine ⟨fun _ => hthread, fun htold => ?_⟩
      have hsame : worker.task.cancelReq = c.worker.task.cancelReq ∧
          worker.task.pauseReq = c.worker.task.pauseReq := by
        refine (requests_of_step hworker).resolve_right ?_
        rintro (rfl | rfl | rfl) <;> simp [Hub.ownEvent] at hown
      simpa [Worker.told, hsame] using htold

theorem fs_of_stepWorker {cfg : HttpConfig} {now : Int} {event : Event} {w w' : World}
    (hown : Hub.ownEvent event = true) (hquiet : w.goesOn url = false)
    (hstep : stepWorker cfg now url event w = some w') : w'.fs = w.fs := by
  simp only [stepWorker] at hstep
  split at hstep
  · simp at hstep
  next c hfind =>
    split at hstep
    · simp at hstep
    next worker hworker =>
      obtain rfl := Option.some.inj hstep
      have hrunning := Worker.running_of_step hown hworker
      have htold : c.worker.told = true := by
        by_contra hnot
        have hgoes := World.goesOn_eq_true_iff.mpr ⟨c, hfind, hrunning, by simpa using hnot⟩
        rw [hquiet] at hgoes
        exact absurd hgoes (by simp)
      by_cases hbody : ∃ i data env, event = .body i data env
      · obtain ⟨i, data, env, rfl⟩ := hbody
        cases Worker.stepped_of_step hworker with
        | body hphase hlive =>
            refine (samePlace_body_of_shut cfg i env ?_).fs
            simp only [Worker.told, Bool.or_eq_true] at htold
            rcases htold with hpause | hcancel
            · simp [admits, hpause]
            · simp [admits, hcancel]
      · exact (SamePlace.step hworker fun i data env heq => hbody ⟨i, data, env, heq⟩).fs

end HttpEngine

/-! ### Steps without the network -/

def KeepsOffline (h : Hub) : HubEvent → Prop
  | .add params http _ _ => params.protocol = .http → opensThread h params http = false
  | .applyConfig cfg => (applyConfig cfg).all (fun cfg' => !cfg'.netAllowed) = true
  | _ => True

instance (h : Hub) : ∀ event, Decidable (KeepsOffline h event)
  | .add .. => inferInstanceAs (Decidable (_ → _ = false))
  | .applyConfig _ => inferInstanceAs (Decidable (_ = true))
  | .resume .. | .admission .. | .pause .. | .delete .. | .schedule | .pauseNext _ | .maintain _
  | .sweepHttp _ | .sweepTorrent | .worker .. | .alert _ | .libtorrent .. | .disk _ | .restart _ =>
      isTrue trivial

structure Barred (h : Hub) : Prop where
  network : h.netAllowed = false
  idle : h.admitting = false

section Steps

variable {h h' : Hub} {event : HubEvent}

theorem barred_step (hbarred : Barred h) (hkeeps : KeepsOffline h event)
    (hstep : h.step event = some h') : Barred h' := by
  cases Hub.stepped_of_step hstep with
  | admission hadmitting hjoined => exact absurd (hbarred.idle.symm.trans hadmitting) (by simp)
  | schedule hfree =>
      simp only [Hub.schedule, hbarred.network]
      exact ⟨hbarred.network, hbarred.idle⟩
  | @configApplied cfg cfg' hfree hcfg =>
      have hoff : (applyConfig cfg).all (fun cfg' => !cfg'.netAllowed) = true := hkeeps
      rw [hcfg] at hoff
      exact ⟨by simpa [Hub.netAllowed] using hoff, hbarred.idle⟩
  | restart => exact ⟨hbarred.network, rfl⟩
  | _ => exact ⟨hbarred.network, hbarred.idle⟩

theorem noneNew_addTask {params : TaskParams} {http : DownloadEnv} {bt : TorrentEnv} {now : Int}
    (hkeeps : KeepsOffline h (.add params http bt now))
    (hjoined : ¬ (params.protocol = .http ∧ Hub.joinPending h.world params.url)) :
    NoneNew h.world.contexts (h.addTask params http bt now).2.world.contexts := by
  by_cases hprotocol : params.protocol = .http
  · have hshut : opensThread h params http = false := hkeeps hprotocol
    have hstarted := started_addTask h http bt now hprotocol
    generalize (h.addTask params http bt now).2.registry = registry' at hstarted
    generalize (h.addTask params http bt now).2.world = w' at hstarted ⊢
    generalize (h.addTask params http bt now).1 = result at hstarted
    cases hstarted with
    | refused hcode hregistry => exact .refl _
    | busy hbusy => exact .refl _
    | undone fs hcode => exact .filter _
    | relaunched fs worker hreplace => exact absurd hreplace (by simp)
    | @recorded store fs worker hurl hpath hreplace hdeleting hidle hfs hstore =>
        -- neither a thread that runs on nor one being joined was in the way
        have hended : h.world.running params.url = false := by
          by_contra hrunning
          obtain ⟨c, hfind, hthread⟩ := World.running_eq_true_iff.mp (by simpa using hrunning)
          refine hidle c hfind ⟨hthread, ?_⟩
          by_contra hdelete
          exact hjoined ⟨hprotocol, by simp [Hub.joinPending, hfind, hthread, hdelete]⟩
        rw [opensThread_of_recorded hended hurl hpath hdeleting hfs hstore] at hshut
        exact absurd hshut (by simp)
  · have hadded := added_addTask h http bt now hprotocol
    generalize (h.addTask params http bt now).2.registry = registry' at hadded
    generalize (h.addTask params http bt now).2.world = w' at hadded ⊢
    generalize (h.addTask params http bt now).1 = result at hadded
    cases hadded with
    | kept hregistry => exact .refl _
    | recorded infoHash name hsource hstore hw hregistry => exact hw.2 ▸ .refl _

theorem noneNew_pauseTask {params : TaskParams} {bt : TorrentEnv} :
    NoneNew h.world.contexts (h.pauseTask params bt).2.world.contexts := by
  simp only [Hub.pauseTask, Hub.put]
  split
  · exact HttpEngine.noneNew_pauseTask params h.world
  · rw [(onlyTorrents_pauseTask bt params h.registry h.world).contexts]
    exact .refl _

theorem noneNew_deleteTask {params : TaskParams} {bt : TorrentEnv} :
    NoneNew h.world.contexts (h.deleteTask params bt).2.world.contexts := by
  simp only [Hub.deleteTask, Hub.put]
  split
  · exact HttpEngine.noneNew_deleteTask params h.world
  · rw [(onlyTorrents_deleteTask bt params h.registry h.world).contexts]
    exact .refl _

/-- **No step starts a thread** while the network is forbidden. -/
theorem noneNew_step (hbarred : Barred h) (hkeeps : KeepsOffline h event)
    (hstep : h.step event = some h') : NoneNew h.world.contexts h'.world.contexts := by
  cases Hub.stepped_of_step hstep with
  | add hfree hjoined => exact noneNew_addTask hkeeps hjoined
  | pause => exact noneNew_pauseTask
  | resume hfree => rw [world_resumeTask]; exact .refl _
  | delete => exact noneNew_deleteTask
  | schedule hfree =>
      simp only [Hub.schedule]
      split <;> exact .refl _
  | admission hadmitting hjoined => exact absurd (hbarred.idle.symm.trans hadmitting) (by simp)
  | pauseNext hnext => exact @noneNew_pauseTask { h with toPause := _ } _ _
  | sweepHttp => exact .filter _
  | sweepTorrent hfree =>
      have honly := TorrentEngine.onlyTorrents_sweep h.cfg h.registry h.world
      exact honly.contexts ▸ .refl _
  | worker hown hworker => exact HttpEngine.noneNew_stepWorker hown hworker
  | @alert acquire alert alerts hfree halerts =>
      have hsame := @contexts_handleAlert acquire h.registry { h.world with alerts := alerts } alert
      exact hsame ▸ .refl _
  | restart => exact fun _ _ hfind => absurd hfind (by simp [startHub])
  | maintain | libtorrent | disk | configKept | configApplied => exact .refl _

theorem goesOn_step (hbarred : Barred h) (hkeeps : KeepsOffline h event)
    (hstep : h.step event = some h') (hgoes : h'.world.goesOn url = true) :
    h.world.goesOn url = true :=
  (noneNew_step hbarred hkeeps hstep).goesOn hgoes

end Steps

/-! ### The round's pauses -/

def Notified (url : String) (h : Hub) : Prop :=
  h.world.goesOn url = false ∨
    ∃ params ∈ h.toPause, params.protocol = .http ∧ params.taskKey = url

section Round

variable {h h' : Hub} {event : HubEvent}

theorem notified_schedule (hoff : h.netAllowed = false) (hcovers : Covers h.registry url) :
    Notified url h.schedule := by
  obtain ⟨task, hmem, rfl, hhttp, hactive⟩ := hcovers
  have hkept : task ∈ h.registry.filter fun task => !erasable task := by
    simp only [occupiesSlot, Bool.and_eq_true, Bool.not_eq_true'] at hactive
    exact KeyedList.mem_filter.mpr ⟨hmem, by simp [erasable, hactive.1.1]⟩
  refine Or.inr ⟨paramsOf h.cfg task, ?_, hhttp, Hub.taskKey_paramsOf h.cfg task⟩
  simp only [Hub.schedule, hoff]
  exact List.mem_map_of_mem (List.mem_filter.mpr ⟨KeyedList.mem_def.mp hkept, hactive⟩)

theorem notified_step (hurl : url ≠ "") (hbarred : Barred h) (hnotified : Notified url h)
    (hkeeps : KeepsOffline h event) (hstep : h.step event = some h') : Notified url h' := by
  rcases hnotified with hquiet | ⟨params, hmem, hprotocol, hkey⟩
  · left
    by_contra hgoes
    have hwas := goesOn_step hbarred hkeeps hstep (by simpa using hgoes)
    exact absurd (hquiet.symm.trans hwas) (by simp)
  · cases Hub.stepped_of_step hstep with
    | schedule hfree =>
        have hempty : h.toPause = [] := by
          by_contra hpending
          simp [Hub.step, hpending] at hstep
        rw [hempty] at hmem
        exact absurd hmem List.not_mem_nil
    | @pauseNext bt first rest hnext =>
        rw [hnext] at hmem
        rcases List.mem_cons.mp hmem with rfl | hrest
        · left
          simp only [Hub.pauseTask, Hub.put, if_pos hprotocol]
          exact hkey ▸ HttpEngine.goesOn_pauseTask h.world (hkey ▸ hurl)
        · exact Or.inr ⟨params, hrest, hprotocol, hkey⟩
    | restart => exact Or.inl rfl
    | admission hadmitting hjoined => exact absurd (hbarred.idle.symm.trans hadmitting) (by simp)
    | _ => exact Or.inr ⟨params, hmem, hprotocol, hkey⟩

end Round

section Run

variable {h mid done h' : Hub}

theorem barred_of_reaches (hbarred : Barred h) (hrun : Reaches Hub.step KeepsOffline h h') :
    Barred h' :=
  hrun.invariant (fun _ _ _ hinv hkeeps hstep => barred_step hinv hkeeps hstep) hbarred

theorem goesOn_of_reaches (hbarred : Barred h) (hrun : Reaches Hub.step KeepsOffline h h')
    (hgoes : h'.world.goesOn url = true) : h.world.goesOn url = true := by
  induction hrun with
  | refl => exact hgoes
  | tail hbefore hnext ih =>
      obtain ⟨event, hkeeps, hstep⟩ := hnext
      exact ih (goesOn_step (barred_of_reaches hbarred hbefore) hkeeps hstep hgoes)

theorem notified_of_reaches (hurl : url ≠ "") (hbarred : Barred h) (hnotified : Notified url h)
    (hrun : Reaches Hub.step KeepsOffline h h') : Notified url h' := by
  induction hrun with
  | refl => exact hnotified
  | tail hbefore hnext ih =>
      obtain ⟨event, hkeeps, hstep⟩ := hnext
      exact notified_step hurl (barred_of_reaches hbarred hbefore) ih hkeeps hstep

theorem covers_of_holdsSlot (hholds : holdsSlot h url = true) : Covers h.registry url := by
  obtain ⟨task, hfind, hhttp⟩ := (Option.any_eq_true _ _).mp hholds
  simp only [Bool.and_eq_true, decide_eq_true_eq] at hhttp
  exact ⟨task, KeyedList.mem_of_find? hfind, KeyedList.key_of_find? hfind, hhttp.1, hhttp.2⟩

end Run

end DownloadWrapper
