import DownloadWrapper.Core.Rooted

/-!
# File priorities on their way to the engine

A request gives levels by file index. `add_task` writes another level to each index, `insert_task`
leaves them all out, and the record is loaded without any; a `resume_task` puts its levels over those
of the task in memory, and the scheduler hands out what is there.
-/

namespace DownloadWrapper

open Transition

variable {key : String}

def levels (entries : List (Int × Int)) (index : Int) : Option Int := entries.lookup index

def override (new old : Int → Option Int) (index : Int) : Option Int := (new index).or (old index)

theorem lookup_filter {β : Type} (p : Int → Bool) (entries : List (Int × β)) (index : Int) :
    (entries.filter fun entry => p entry.1).lookup index =
      if p index then entries.lookup index else none := by
  induction entries with
  | nil => simp
  | cons entry entries ih =>
      obtain ⟨first, level⟩ := entry
      by_cases hindex : index = first
      · subst hindex
        cases hp : p index <;> simp [hp, ih]
      · have hbeq : (index == first) = false := by simpa using hindex
        cases hp : p first <;> simp [hp, List.lookup_cons, hbeq, ih]

theorem levels_mergePriorities (old new : List (Int × Int)) :
    levels (TorrentEngine.mergePriorities old new) = override (levels new) (levels old) := by
  funext index
  have hkept := lookup_filter (fun i => new.all (·.1 ≠ i)) old index
  rw [levels, TorrentEngine.mergePriorities, List.lookup_append, hkept, override, levels, levels]
  cases hnew : new.lookup index with
  | none =>
      rw [List.lookup_eq_none_iff] at hnew
      rw [if_pos, Option.or_none, Option.none_or]
      rw [List.all_eq_true]
      intro entry hentry
      have hother : index ≠ entry.1 := by simpa using hnew entry hentry
      exact decide_eq_true (Ne.symm hother)
  | some level =>
      obtain ⟨front, back, hsplit, -⟩ := List.lookup_eq_some_iff.mp hnew
      rw [if_neg, Option.none_or, Option.some_or]
      intro hall
      have hentry := List.all_eq_true.mp hall (index, level)
        (hsplit ▸ List.mem_append_right front List.mem_cons_self)
      simp at hentry

theorem levels_eq_iff {entries others : List (Int × Int)} :
    levels entries = levels others ↔
      ∀ entry ∈ entries ++ others, entries.lookup entry.1 = others.lookup entry.1 := by
  constructor
  · intro hsame entry _
    exact congrFun hsame entry.1
  · intro hsame
    funext index
    by_cases hindex : ∃ entry ∈ entries ++ others, entry.1 = index
    · obtain ⟨entry, hentry, rfl⟩ := hindex
      exact hsame entry hentry
    · have hnone : ∀ part : List (Int × Int), part ⊆ entries ++ others → part.lookup index = none := by
        intro part hpart
        rw [List.lookup_eq_none_iff]
        intro entry hentry
        simpa using fun heq => hindex ⟨entry, hpart hentry, heq.symm⟩
      rw [levels, levels, hnone entries (List.subset_append_left _ _),
        hnone others (List.subset_append_right _ _)]

instance (entries others : List (Int × Int)) : Decidable (levels entries = levels others) :=
  decidable_of_iff _ levels_eq_iff.symm

def dispatchParams (cfg : ManagerConfig) (task : Task) : TaskParams :=
  { paramsOf cfg task with filePriorities := task.priorityFileIndexes }

def heldPriorities (key : String) (registry : Registry) : List (Int × Int) :=
  ((registry.find? key).map Task.priorityFileIndexes).getD []

/-- The hub, and the priorities that the next dispatch of the watched task owes: those of the last
`add_task` that took it, under those of the requests to resume it since. -/
structure Requested where
  hub : Hub
  due : Option (Int → Option Int) := none

def takes (key : String) (h : Hub) (params : TaskParams) (http : DownloadEnv) (bt : TorrentEnv)
    (now : Int) : Bool :=
  params.protocol ≠ .http && (recordOf h.cfg bt.lib params now).map Task.taskId = some key &&
    (h.addTask params http bt now).1.code = .none

def renews (key : String) (h : Hub) (params : TaskParams) (now : Int) : Bool :=
  params.protocol ≠ .http && params.taskKey = key && (h.resumeTask params now).1.code = .none

namespace Requested

def dueAfter (key : String) (s : Requested) : HubEvent → Option (Int → Option Int)
  | .add params http bt now =>
      if takes key s.hub params http bt now then some (levels params.filePriorities) else s.due
  | .resume params now =>
      if renews key s.hub params now then s.due.map (override (levels params.filePriorities))
      else s.due
  | _ => s.due

def step (key : String) (s : Requested) (event : HubEvent) : Option Requested :=
  (s.hub.step event).map fun hub => { hub := hub, due := s.dueAfter key event }

/-- Whatever the scheduler's pass dispatches of the task carries what is due. -/
def Delivers (key : String) (s : Requested) : Prop :=
  ∀ due, s.due = some due → ∀ http bt now, ∀ call ∈ (s.hub.pass http bt now).1.calls,
    call.kind = .resume → call.task.taskId = key →
      levels (dispatchParams s.hub.cfg call.task).filePriorities = due

/-- The steps that keep what is due: an `add_task` whose priorities the task in memory has already,
and a restart while there are none. -/
def Keeps (key : String) (s : Requested) : HubEvent → Prop
  | .add params http bt now => takes key s.hub params http bt now = true →
      levels (heldPriorities key s.hub.registry) = levels params.filePriorities
  | .restart _ => s.due.isSome = true → levels (heldPriorities key s.hub.registry) = levels []
  | _ => True

end Requested

instance (s : Requested) : ∀ event, Decidable (s.Keeps key event)
  | .add params http bt now =>
      inferInstanceAs (Decidable (takes key s.hub params http bt now = true → _))
  | .restart _ => inferInstanceAs (Decidable (s.due.isSome = true → _))
  | .pause .. | .resume .. | .delete .. | .schedule | .admission .. | .pauseNext _ | .maintain _
  | .sweepHttp _ | .sweepTorrent | .worker .. | .alert _ | .libtorrent .. | .disk _
  | .applyConfig _ => isTrue trivial

/-! ### What the steps do to the priorities in memory -/

def SamePriorities (key : String) (task task' : Task) : Prop :=
  task'.taskId = task.taskId ∧
    (task.taskId = key → task'.priorityFileIndexes = task.priorityFileIndexes)

theorem SamePriorities.of_eq {task task' : Task} (hid : task'.taskId = task.taskId)
    (hsame : task'.priorityFileIndexes = task.priorityFileIndexes) : SamePriorities key task task' :=
  ⟨hid, fun _ => hsame⟩

theorem samePriorities_parsedTask (env : AcquireEnv) (fs : Fs) (t : Torrent) (task : Task) :
    SamePriorities key task (parsedTask env fs t task) := by
  refine .of_eq (parsedTask_taskId env fs t task) ?_
  simp only [parsedTask]
  split
  · rfl
  · cases t.info <;> simp only <;> split <;> rfl

theorem respectsAlerts_samePriorities : RespectsAlerts (SamePriorities key) where
  refl _ := .of_eq rfl rfl
  trans _ _ _ h h' :=
    ⟨h'.1.trans h.1, fun hkey => (h'.2 (h.1.trans hkey)).trans (h.2 hkey)⟩
  failed _ _ _ := .of_eq rfl rfl
  progress _ _ _ := .of_eq rfl rfl
  finished _ _ := .of_eq rfl rfl
  conflict _ _ := .of_eq rfl rfl
  unwrapped _ _ := .of_eq rfl rfl
  linked magnet task _ := by
    refine .of_eq (linkTask_taskId magnet task) ?_
    rw [linkTask]
    split <;> rfl
  file index task _ := by
    refine .of_eq (completeFileTask_taskId index task) ?_
    rw [completeFileTask]
    split <;> rfl
  piece t index task _ := by
    refine .of_eq (pieceTask_taskId t index task) ?_
    rw [pieceTask]
    split
    · rfl
    · split <;> rfl

theorem samePriorities_change {h : Hub} {event : HubEvent} {task task' : Task}
    (hresume : ∀ params now, event = .resume params now → params.taskKey ≠ key)
    (halert : ∀ acquire, event ≠ .alert acquire) (hchange : Change h event task task') :
    SamePriorities key task task' := by
  cases hchange with
  | @queued params now _ priorities hsame hdelete hprotocol =>
      exact ⟨rfl, fun hkey => absurd (hsame.symm.trans hkey) (hresume params now rfl)⟩
  | alerted hdrift => exact absurd rfl (halert _)
  | _ => exact .of_eq rfl rfl

theorem LoadedFrom.priorityFileIndexes {s : Store} {task : Task} (h : LoadedFrom s task) :
    task.priorityFileIndexes = [] := by
  obtain ⟨row, files, isRead, -, heq⟩ := h
  rw [heq]
  rfl

theorem heldPriorities_of_evolves {h h' : Hub}
    (hevolves : h.registry.Evolves (SamePriorities key) (Source h h') h'.registry) :
    heldPriorities key h'.registry = heldPriorities key h.registry := by
  rw [heldPriorities, heldPriorities]
  cases hfind : h.registry.find? key with
  | some task =>
      obtain ⟨task', hfind', hid, hsame⟩ := hevolves.find? hfind
      rw [hfind']
      exact hsame (KeyedList.key_of_find? hfind)
  | none =>
      cases hfind' : h'.registry.find? key with
      | none => rfl
      | some task' =>
          rcases hevolves.find?_of_find? hfind' with ⟨task, hold, -⟩ | ⟨-, task, hsource, hid, hsame⟩
          · exact absurd (hfind.symm.trans hold) nofun
          · have hkey : task.taskId = key := hid.symm.trans (KeyedList.key_of_find? hfind')
            have hnone : task.priorityFileIndexes = [] :=
              hsource.elim LoadedFrom.priorityFileIndexes fun hnew => hnew.2.priorityFileIndexes
            simp [hsame hkey, hnone]

theorem heldPriorities_step {h h' : Hub} {event : HubEvent} (hrooted : Rooted h)
    (hstep : h.step event = some h') (hrestart : ∀ now, event ≠ .restart now)
    (hresume : ∀ params now, event = .resume params now → params.taskKey ≠ key) :
    heldPriorities key h'.registry = heldPriorities key h.registry := by
  apply heldPriorities_of_evolves
  apply respectsAlerts_samePriorities.evolves_step hrooted hstep hrestart
  · intro acquire alert alerts _ _ id t task _ _ _ _
    exact samePriorities_parsedTask acquire h.world.fs t task
  · intro halert task task' hchange
    exact samePriorities_change hresume halert hchange

theorem heldPriorities_loadTask (s : Store) (key : String) (registry : Registry) :
    heldPriorities key (loadTask s key registry) = heldPriorities key registry := by
  rw [heldPriorities, heldPriorities, find?_loadTask_self]
  cases hfind : registry.find? key with
  | some task => rfl
  | none =>
      cases hrow : s.findByTaskId key false with
      | none => rfl
      | some row =>
          obtain ⟨-, stored, -, -, -, rfl⟩ := Store.findByTaskId_eq_some_iff.mp hrow
          rfl

/-- A `resume_task` puts the levels of its request over those in memory when it succeeds, and leaves
them when it fails. -/
theorem TorrentEngine.levels_resumeTask {now : Int} {params : TaskParams}
    {registry registry' : Registry} {w w' : World} {result : SubmitResult}
    (hcall : resumeTask now params registry w = (result, registry', w')) :
    levels (heldPriorities params.taskKey registry') =
      if result.code = .none then
        override (levels params.filePriorities) (levels (heldPriorities params.taskKey registry))
      else levels (heldPriorities params.taskKey registry) := by
  have hload := heldPriorities_loadTask w.store params.taskKey registry
  simp only [resumeTask] at hcall
  split at hcall
  · obtain ⟨rfl, rfl, -⟩ := hcall
    rw [hload]
    rfl
  next task hfind =>
    have hthere := (Option.filter_eq_some_iff.mp hfind).1
    split at hcall
    · obtain ⟨rfl, rfl, -⟩ := hcall
      rw [hload]
      rfl
    · obtain ⟨rfl, rfl, -⟩ := hcall
      have hcode : SubmitResult.success.code = .none := rfl
      rw [if_pos hcode, ← hload, heldPriorities, KeyedList.find?_modify_self, heldPriorities, hthere]
      exact levels_mergePriorities _ _

theorem HttpEngine.heldPriorities_resumeTask {now : Int} {params : TaskParams}
    {registry registry' : Registry} {w w' : World} {result : SubmitResult}
    (hcall : resumeTask now params registry w = (result, registry', w')) :
    heldPriorities params.taskKey registry' = heldPriorities params.taskKey registry := by
  have hload := heldPriorities_loadTask w.store params.taskKey registry
  simp only [resumeTask] at hcall
  split at hcall
  · obtain ⟨-, rfl, -⟩ := hcall
    rfl
  split at hcall
  · obtain ⟨-, rfl, -⟩ := hcall
    exact hload
  next task hfind =>
    split at hcall
    · obtain ⟨-, rfl, -⟩ := hcall
      exact hload
    · obtain ⟨-, rfl, -⟩ := hcall
      rw [← hload, heldPriorities, KeyedList.find?_modify_self, heldPriorities, hfind]
      rfl

theorem levels_resume (h : Hub) (params : TaskParams) (now : Int) (hkey : params.taskKey = key) :
    levels (heldPriorities key (h.resumeTask params now).2.registry) =
      if renews key h params now then
        override (levels params.filePriorities) (levels (heldPriorities key h.registry))
      else levels (heldPriorities key h.registry) := by
  subst hkey
  by_cases hprotocol : params.protocol = .http
  · rw [if_neg (by simp [renews, hprotocol])]
    rcases hcall : HttpEngine.resumeTask now params h.registry h.world with ⟨result, registry', w'⟩
    simp only [Hub.resumeTask, Hub.put, if_pos hprotocol, hcall]
    exact congrArg levels (HttpEngine.heldPriorities_resumeTask hcall)
  · rcases hcall : TorrentEngine.resumeTask now params h.registry h.world with
      ⟨result, registry', w'⟩
    have hlevels := TorrentEngine.levels_resumeTask hcall
    simp only [renews, Hub.resumeTask, Hub.put, if_neg hprotocol, hcall, hlevels]
    refine if_congr ?_ rfl rfl
    simp [hprotocol]

/-! ### Runs -/

structure Bears (key : String) (s : Requested) : Prop where
  rooted : Rooted s.hub
  due : ∀ due, s.due = some due → levels (heldPriorities key s.hub.registry) = due

theorem heldPriorities_startRegistry (store : Store) (now : Int) :
    heldPriorities key (startRegistry store now) = [] := by
  rw [heldPriorities]
  cases hfind : (startRegistry store now).find? key with
  | none => rfl
  | some task =>
      obtain ⟨row, -, -, -, -, rfl⟩ := mem_startRegistry.mp (KeyedList.mem_of_find? hfind)
      simp only [Option.map_some, Option.getD_some, requeue]
      split <;> rfl

theorem bears_step {s s' : Requested} {event : HubEvent} (hbears : Bears key s)
    (hkeeps : s.Keeps key event) (hstep : s.step key event = some s') : Bears key s' := by
  obtain ⟨hub, hhub, rfl⟩ := Option.map_eq_some_iff.mp hstep
  refine ⟨rooted_step hbears.rooted hhub, fun due hdue => ?_⟩
  -- a step that neither restarts nor resumes the task leaves what it holds
  have hsame := @heldPriorities_step key s.hub hub event hbears.rooted hhub
  cases event with
  | add params http bt now =>
      simp only [Requested.dueAfter] at hdue
      refine (congrArg levels (hsame nofun nofun)).trans ?_
      split at hdue
      next htakes => exact (hkeeps htakes).trans (Option.some.inj hdue)
      next => exact hbears.due due hdue
  | resume params now =>
      simp only [Requested.dueAfter] at hdue
      by_cases hkey : params.taskKey = key
      · have hlevels := levels_resume s.hub params now hkey
        cases Hub.stepped_of_step hhub with
        | resume hfree =>
            simp only [hlevels]
            split at hdue
            next hrenews =>
              obtain ⟨old, hold, rfl⟩ := Option.map_eq_some_iff.mp hdue
              rw [if_pos hrenews, hbears.due old hold]
            next hrenews =>
              rw [if_neg hrenews]
              exact hbears.due due hdue
      · rw [if_neg (by simp [renews, hkey])] at hdue
        have hother : ∀ params' now', HubEvent.resume params now = .resume params' now' →
            params'.taskKey ≠ key := by
          rintro params' now' heq
          obtain ⟨rfl, -⟩ := HubEvent.resume.inj heq
          exact hkey
        exact (congrArg levels (hsame nofun hother)).trans (hbears.due due hdue)
  | restart now =>
      obtain rfl := Option.some.inj hhub
      have hempty := hkeeps (Option.isSome_of_eq_some hdue)
      exact (congrArg levels (heldPriorities_startRegistry _ now)).trans
        (hempty.symm.trans (hbears.due due hdue))
  | _ =>
      have hkept := hsame (by intro _ hevent; cases hevent) (by intro _ _ hevent; cases hevent)
      exact (congrArg levels hkept).trans (hbears.due due hdue)

/-- **The priorities of a request**: in every run whose `add_task`s of the BT task find its priorities
in memory already, and whose restarts find none, whatever the scheduler dispatches of the task carries
the priorities of the last `add_task`, under those of the requests to resume it since. -/
theorem delivers_of_keeps {cfg : ManagerConfig} {httpCfg : HttpConfig} {store : Store} {fs : Fs}
    {start : Int} {s : Requested}
    (hrun : Reaches (Requested.step key) (Requested.Keeps key)
      ⟨startHub cfg httpCfg store fs start, none⟩ s) : s.Delivers key := by
  have hbears : Bears key s := by
    refine hrun.invariant (fun _ _ _ hinv hkeeps hstep => bears_step hinv hkeeps hstep) ?_
    exact ⟨rooted_startHub _ _ _ _ _, nofun⟩
  intro due hdue http bt now call hcall hkind hkey
  obtain ⟨hmem, -⟩ := Hub.queued_of_resumed hcall hkind
  have hfind : s.hub.registry.find? key = some call.task := hkey ▸ KeyedList.find?_key hmem
  have hheld : heldPriorities key s.hub.registry = call.task.priorityFileIndexes := by
    rw [heldPriorities, hfind]
    rfl
  rw [dispatchParams, ← hheld]
  exact hbears.due due hdue

def urgentLink : TaskParams := { oneLink with filePriorities := [(0, 7)] }

/-- The level comes in with a request to resume the task, a second `add_task` asks for it again, and
the scheduler hands it out. -/
theorem delivers_of_keeps_resumed :
    ∃ s : Requested, (∃ due, s.due = some due ∧ due 0 = some 7) ∧
      ∃ call ∈ (s.hub.pass {} oneMagnet 4).1.calls, call.kind = .resume ∧
        call.task.taskId = oneHash ∧
          levels (dispatchParams s.hub.cfg call.task).filePriorities 0 = some 7 := by
  have hrun : (play (Requested.step oneHash) (Requested.Keeps oneHash) ⟨firstHub, none⟩
      [.add oneLink {} oneMagnet 0, .resume urgentLink 1, .add urgentLink {} oneMagnet 2,
        .schedule]).map (fun s =>
          (s.due.map fun due => due 0,
            (s.hub.pass {} oneMagnet 4).1.calls.map fun call => (call.kind, call.task.taskId))) =
      some (some (some 7), [(.resume, oneHash)]) := by
    decide +kernel
  obtain ⟨s, hplay, hout⟩ := Option.map_eq_some_iff.mp hrun
  obtain ⟨hdue, hcalls⟩ := Prod.mk.inj hout
  obtain ⟨due, hsome, hlevel⟩ := Option.map_eq_some_iff.mp hdue
  obtain ⟨call, hcall, hkind⟩ := List.mem_map.mp (hcalls.symm ▸ List.mem_singleton_self _)
  obtain ⟨hresume, hkey⟩ := Prod.mk.inj hkind
  have hdelivers := delivers_of_keeps (reaches_of_play hplay)
  refine ⟨s, ⟨due, hsome, hlevel⟩, call, hcall, hresume, hkey, ?_⟩
  rw [hdelivers due hsome {} oneMagnet 4 call hcall hresume hkey, hlevel]

/-- The link is added with the level, and resumed without any: the scheduler hands out none. -/
theorem not_delivers_urgentLink :
    ∃ s : Requested, Reaches (Requested.step oneHash) (fun _ _ => True) ⟨firstHub, none⟩ s ∧
      (∃ due, s.due = some due ∧ due 0 = some 7) ∧ ¬ s.Delivers oneHash ∧
      ∃ call ∈ (s.hub.pass {} oneMagnet 4).1.calls, call.kind = .resume ∧
        call.task.taskId = oneHash ∧ (dispatchParams s.hub.cfg call.task).filePriorities = [] := by
  have hrun : (play (Requested.step oneHash) (fun _ _ => True) ⟨firstHub, none⟩
      [.add urgentLink {} oneMagnet 0, .resume oneLink 1, .schedule]).map (fun s =>
        (s.due.map fun due => due 0,
          (s.hub.pass {} oneMagnet 4).1.calls.map fun call => (call.kind, call.task.taskId,
            decide ((dispatchParams s.hub.cfg call.task).filePriorities = [])))) =
      some (some (some 7), [(.resume, oneHash, true)]) := by
    decide +kernel
  obtain ⟨s, hplay, hout⟩ := Option.map_eq_some_iff.mp hrun
  obtain ⟨hdue, hcalls⟩ := Prod.mk.inj hout
  obtain ⟨due, hsome, hlevel⟩ := Option.map_eq_some_iff.mp hdue
  obtain ⟨call, hcall, hkind⟩ := List.mem_map.mp (hcalls.symm ▸ List.mem_singleton_self _)
  simp only [Prod.mk.injEq, decide_eq_true_eq] at hkind
  obtain ⟨hresume, hkey, hnone⟩ := hkind
  refine ⟨s, reaches_of_play hplay, ⟨due, hsome, hlevel⟩, fun hdelivers => ?_, call, hcall, hresume,
    hkey, hnone⟩
  have hcarried := hdelivers due hsome {} oneMagnet 4 call hcall hresume hkey
  rw [hnone] at hcarried
  rw [← hcarried] at hlevel
  exact absurd hlevel nofun

end DownloadWrapper
