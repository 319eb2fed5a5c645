import DownloadWrapper.Core.Readding

/-!
# What a failed add leaves

`add_task` looks the task up and replaces its record before the last step that can fail. What a
failure leaves behind is the lookup's task and, for a torrent that cannot be built, the record.
-/

namespace DownloadWrapper

open Transition

def requeueable (row : Task) : Bool :=
  !row.isDelete && row.status ∈ activeStatuses && isDownloadTask row

theorem mem_startRegistry_iff_requeueable {store : Store} {now : Int} {task : Task} :
    task ∈ startRegistry store now ↔
      ∃ row ∈ store.tasks, requeueable row = true ∧ task = requeue store now (readTask row) := by
  simp only [mem_startRegistry, requeueable, Bool.and_eq_true, Bool.not_eq_true', decide_eq_true_eq,
    and_assoc]

/-- Nothing became active: the tasks that take a slot and the rows a start would queue are those
there were, and no HTTP thread was started. -/
structure Untouched (h h' : Hub) : Prop where
  active : ∀ task, task ∈ h'.registry ∧ occupiesSlot task = true ↔
    task ∈ h.registry ∧ occupiesSlot task = true
  requeued : ∀ row, row ∈ h'.world.store.tasks ∧ requeueable row = true ↔
    row ∈ h.world.store.tasks ∧ requeueable row = true
  contexts : ∀ c ∈ h'.world.contexts, c ∈ h.world.contexts

/-! ### The outcomes of a failure -/

namespace HttpEngine

/-- A failure before the lookup leaves everything; one behind it leaves the lookup's task, and takes
a context away at most. -/
theorem failed_addTask {cfg : ManagerConfig} {env : DownloadEnv} {now : Int} {params : TaskParams}
    {registry registry' : Registry} {w w' : World} {result : SubmitResult}
    (hcall : addTask cfg env now params registry w = (result, registry', w'))
    (hfailed : result.code ≠ .none) :
    (registry' = if params.url = "" ∨ savePathOf cfg params = "" then registry
      else loadTask w.store params.url registry) ∧
      w'.store = w.store ∧ ∀ c ∈ w'.contexts, c ∈ w.contexts := by
  have herased : ∀ c ∈ w.contexts.erase params.url, c ∈ w.contexts := fun c hc =>
    (KeyedList.mem_filter.mp hc).1
  simp only [addTask, startDownload] at hcall
  split_ifs at hcall with hurl hpath hdeleting hbusy
  · obtain ⟨-, rfl, rfl⟩ := hcall
    exact ⟨by simp [hurl], rfl, fun _ => id⟩
  · obtain ⟨-, rfl, rfl⟩ := hcall
    exact ⟨by simp [hpath], rfl, fun _ => id⟩
  · obtain ⟨-, rfl, rfl⟩ := hcall
    exact ⟨(if_neg (not_or.mpr ⟨hurl, hpath⟩)).symm, rfl, fun _ => id⟩
  · obtain ⟨rfl, -⟩ := hcall
    exact absurd rfl hfailed
  · rw [if_neg (not_or.mpr ⟨hurl, hpath⟩)]
    split at hcall
    · obtain ⟨-, rfl, rfl⟩ := hcall
      exact ⟨rfl, rfl, herased⟩
    simp only [launch, if_true] at hcall
    split at hcall
    · obtain ⟨-, rfl, rfl⟩ := hcall
      exact ⟨rfl, rfl, herased⟩
    · obtain ⟨rfl, -⟩ := hcall
      exact absurd rfl hfailed

end HttpEngine

namespace TorrentEngine

def deleting (infoHash : String) (registry : Registry) : Bool :=
  (findTorrentTask infoHash registry).any fun task =>
    task.isDelete && !(task.needDeleteSession && task.needDeleteFile)

/-- The record a call that fails has put in, if it came to that: the source was read, no deletion was
under way, and the database took the record. -/
def recordLeft (env : TorrentEnv) (now : Int) (params : TaskParams) (registry : Registry)
    (store : Store) : Option Task :=
  match parseSource env.lib params with
  | none => none
  | some (infoHash, name) =>
      if infoHash = "" ∨ deleting infoHash (loadTask store infoHash registry) ∨ ¬ env.persistOk then
        none
      else some (newTask params infoHash name now)

def registryLeft (env : TorrentEnv) (now : Int) (record : Task) (store store' : Store)
    (registry : Registry) : Registry :=
  let registry := loadTask store' record.taskId (loadTask store record.taskId registry)
  match env.throws with
  | none => registry
  | some message =>
      updateTorrentTask store' record.taskId (brokenTask now message) (brokenTask_taskId now message) registry

theorem loadTask_empty (store : Store) (registry : Registry) : loadTask store "" registry = registry := by
  rw [loadTask]
  split
  · rfl
  · simp [Store.findByTaskId]

theorem failed_buildHandle {cfg : ManagerConfig} {env : TorrentEnv} {now : Int} {infoHash : String}
    {registry registry' : Registry} {w w' : World} {result : SubmitResult}
    (hcall : buildHandle cfg env now infoHash registry w = (result, registry', w'))
    (hfailed : result.code ≠ .none) :
    w'.store = w.store ∧ w'.contexts = w.contexts ∧
      registry' = match env.throws with
        | none => registry
        | some message =>
            updateTorrentTask w.store infoHash (brokenTask now message) (fun _ => rfl) registry := by
  have hfind := onlyTorrents_findHandle env infoHash true w
  rw [buildHandle] at hcall
  cases hthrows : env.throws with
  | some message =>
      rw [hthrows] at hcall
      obtain ⟨-, rfl, rfl⟩ := hcall
      exact ⟨hfind.store, hfind.contexts, rfl⟩
  | none =>
      rcases hout : findHandle env infoHash true w with ⟨_ | t, found⟩ <;>
        simp only [hthrows, hout] at hcall hfind
      · obtain ⟨-, rfl, rfl⟩ := hcall
        exact ⟨hfind.store, hfind.contexts, rfl⟩
      · obtain ⟨rfl, -⟩ := hcall
        exact absurd rfl hfailed

theorem failed_addTask {cfg : ManagerConfig} {env : TorrentEnv} {now : Int} {params : TaskParams}
    {registry registry' : Registry} {w w' : World} {result : SubmitResult}
    (hcall : addTask cfg env now params registry w = (result, registry', w'))
    (hfailed : result.code ≠ .none) :
    w'.contexts = w.contexts ∧
      match recordLeft env now params registry w.store with
      | none => w'.store = w.store ∧
          registry' = ((parseSource env.lib params).elim registry fun source =>
            loadTask w.store source.1 registry)
      | some record => ∃ store', w.store.replaceTask record true = some store' ∧
          w'.store = store' ∧ registry' = registryLeft env now record w.store store' registry := by
  simp only [addTask, recordLeft] at hcall ⊢
  cases hsource : parseSource env.lib params with
  | none =>
      rw [hsource] at hcall
      obtain ⟨-, rfl, rfl⟩ := hcall
      exact ⟨rfl, rfl, rfl⟩
  | some source =>
      obtain ⟨infoHash, name⟩ := source
      simp only [hsource] at hcall
      simp only [Option.elim_some]
      split_ifs at hcall with hempty hdeleting halive
      · obtain ⟨-, rfl, rfl⟩ := hcall
        rw [if_pos (Or.inl hempty), hempty, loadTask_empty]
        exact ⟨rfl, rfl, rfl⟩
      · obtain ⟨-, rfl, rfl⟩ := hcall
        have hrefused : deleting infoHash (loadTask w.store infoHash registry) = true := hdeleting
        rw [if_pos (Or.inr (Or.inl hrefused))]
        exact ⟨rfl, rfl, rfl⟩
      · obtain ⟨rfl, -⟩ := hcall
        exact absurd rfl hfailed
      · cases hreplaced : w.store.replaceTask (newTask params infoHash name now) env.persistOk with
        | none =>
            have hrefused : ¬ env.persistOk = true := by
              intro hgranted
              have hkey : (newTask params infoHash name now).taskId = infoHash := rfl
              simp [Store.replaceTask, hkey, hempty, hgranted] at hreplaced
            rw [hreplaced] at hcall
            obtain ⟨-, rfl, rfl⟩ := hcall
            rw [if_pos (Or.inr (Or.inr hrefused))]
            exact ⟨rfl, rfl, rfl⟩
        | some store =>
            have hgranted := (Store.replaceTask_eq_some_iff.mp hreplaced).2.1
            have hput : ¬ (infoHash = "" ∨
                deleting infoHash (loadTask w.store infoHash registry) = true ∨
                  ¬ env.persistOk = true) := by
              simp only [not_or, not_not]
              exact ⟨hempty, hdeleting, hgranted⟩
            rw [hreplaced] at hcall
            rw [if_neg hput]
            obtain ⟨hstore, hcontexts, hregistry⟩ := failed_buildHandle hcall hfailed
            exact ⟨hcontexts, store, hgranted ▸ hreplaced, hstore, hregistry⟩

end TorrentEngine

/-! ### What is active afterwards -/

/-- The lookup of the key makes nothing active: the registry has a task of it, or there is no row of
it that takes a slot. -/
def NothingToLoad (s : Store) (key : String) (registry : Registry) : Prop :=
  registry.find? key = none → ∀ task, s.findByTaskId key false = some task → occupiesSlot task = false

section Active

variable {s s' : Store} {key : String} {registry : Registry} {record : Task}

theorem mem_loadTask {task : Task} :
    task ∈ loadTask s key registry ↔ task ∈ registry ∨ registry.find? key = none ∧
      ∃ row, s.findByTaskId key false = some row ∧ task = { row with files := s.filesOf key } := by
  rw [loadTask]
  cases hfind : registry.find? key with
  | some old => simp
  | none =>
      cases hrow : s.findByTaskId key false with
      | none => simp
      | some row =>
          have hid := taskId_of_findByTaskId hrow
          have hfresh : ∀ old ∈ registry, old.taskId ≠ row.taskId :=
            hid ▸ KeyedList.find?_eq_none_iff.mp hfind
          simp only [KeyedList.mem_insert, true_and, Option.some.injEq, exists_eq_left']
          constructor
          · rintro (hnew | ⟨hold, -⟩)
            · exact Or.inr hnew
            · exact Or.inl hold
          · rintro (hold | hnew)
            · exact Or.inr ⟨hold, hfresh task hold⟩
            · exact Or.inl hnew

theorem active_loadTask_iff :
    (∀ task, task ∈ loadTask s key registry ∧ occupiesSlot task = true ↔
      task ∈ registry ∧ occupiesSlot task = true) ↔ NothingToLoad s key registry := by
  constructor
  · intro hsame hnone row hrow
    by_contra hinactive
    have hactive : occupiesSlot row = true := by simpa using hinactive
    have hid : row.taskId = key := taskId_of_findByTaskId hrow
    have hmem := ((hsame { row with files := s.filesOf key }).mp
      ⟨mem_loadTask.mpr (Or.inr ⟨hnone, row, hrow, rfl⟩), hactive⟩).1
    exact KeyedList.find?_eq_none_iff.mp hnone _ hmem hid
  · intro hnothing task
    rw [mem_loadTask]
    constructor
    · rintro ⟨hold | ⟨hnone, row, hrow, rfl⟩, hactive⟩
      · exact ⟨hold, hactive⟩
      · have hwas : occupiesSlot row = true := hactive
        rw [hnothing hnone row hrow] at hwas
        cases hwas
    · rintro ⟨hold, hactive⟩
      exact ⟨Or.inl hold, hactive⟩

/-- A replacement leaves the rows of the next start alone exactly when it puts in what was there. -/
theorem requeued_replaceTask_iff {granted : Bool} (hreplaced : s.replaceTask record granted = some s')
    (hrecord : requeueable record = true) :
    (∀ row, row ∈ s'.tasks ∧ requeueable row = true ↔ row ∈ s.tasks ∧ requeueable row = true) ↔
      record ∈ s.tasks := by
  obtain ⟨-, -, rfl⟩ := Store.replaceTask_eq_some_iff.mp hreplaced
  simp only [KeyedList.mem_insert]
  constructor
  · intro hsame
    exact ((hsame record).mp ⟨Or.inl rfl, hrecord⟩).1
  · intro hthere row
    constructor
    · rintro ⟨rfl | ⟨hold, -⟩, hactive⟩
      · exact ⟨hthere, hactive⟩
      · exact ⟨hold, hactive⟩
    · rintro ⟨hold, hactive⟩
      by_cases hkey : row.taskId = record.taskId
      · exact ⟨Or.inl (KeyedList.eq_of_key_eq hold hthere hkey), hactive⟩
      · exact ⟨Or.inr ⟨hold, hkey⟩, hactive⟩

theorem findByTaskId_of_mem (hmem : record ∈ s.tasks) (hkey : record.taskId ≠ "")
    (hdelete : record.isDelete = false) :
    s.findByTaskId record.taskId false = some (readTask record) :=
  Store.findByTaskId_eq_some_iff.mpr ⟨hkey, record, hmem, rfl, hdelete, rfl⟩

/-- With the record in the table the lookup before the replacement is the only one that loads. -/
theorem loadTask_loadTask_of_mem (hmem : record ∈ s.tasks) (hkey : record.taskId ≠ "")
    (hdelete : record.isDelete = false) :
    loadTask s' record.taskId (loadTask s record.taskId registry) =
      loadTask s record.taskId registry := by
  have hfind : ((loadTask s record.taskId registry).find? record.taskId).isSome := by
    rw [find?_loadTask_self, findByTaskId_of_mem hmem hkey hdelete]
    cases registry.find? record.taskId <;> rfl
  obtain ⟨task, htask⟩ := Option.isSome_iff_exists.mp hfind
  exact loadTask_of_find? htask

theorem active_brokenTask {now : Int} {message : String} {task : Task}
    (hprotocol : task.taskProtocol = .torrent) :
    occupiesSlot (if task.taskProtocol = .torrent then TorrentEngine.brokenTask now message task
      else task) = false := by
  rw [if_pos hprotocol]
  simp [occupiesSlot, TorrentEngine.brokenTask, statusOccupiesSlot]

theorem active_broken_iff {now : Int} {message : String} (hmem : record ∈ s.tasks)
    (hkey : record.taskId ≠ "") (hdelete : record.isDelete = false)
    (hprotocol : record.taskProtocol = .torrent) :
    (∀ task, task ∈ updateTorrentTask s' record.taskId (TorrentEngine.brokenTask now message)
          (fun _ => rfl) (loadTask s record.taskId registry) ∧ occupiesSlot task = true ↔
        task ∈ registry ∧ occupiesSlot task = true) ↔
      ∀ task, registry.find? record.taskId = some task → task.taskProtocol = .torrent →
        occupiesSlot task = false := by
  simp only [updateTorrentTask, loadTask_loadTask_of_mem hmem hkey hdelete, KeyedList.mem_modify]
  constructor
  · intro hsame old hfind htorrent
    by_contra hactive
    have hold := KeyedList.mem_of_find? hfind
    rcases ((hsame old).mpr ⟨hold, by simpa using hactive⟩).1 with
      ⟨-, hne⟩ | ⟨task, -, -, rfl⟩
    · exact hne (KeyedList.key_of_find? hfind)
    · by_cases hbroken : task.taskProtocol = .torrent
      · exact hactive (active_brokenTask hbroken)
      · rw [if_neg hbroken] at htorrent
        exact hbroken htorrent
  · intro hold task
    constructor
    · rintro ⟨⟨hloaded, hne⟩ | ⟨task, hloaded, hid, rfl⟩, hactive⟩
      · rcases mem_loadTask.mp hloaded with hthere | ⟨-, row, hrow, rfl⟩
        · exact ⟨hthere, hactive⟩
        · exact absurd (taskId_of_findByTaskId hrow) hne
      · have hother : task.taskProtocol ≠ .torrent := by
          intro hbroken
          rw [active_brokenTask hbroken] at hactive
          cases hactive
        rw [if_neg hother] at hactive ⊢
        rcases mem_loadTask.mp hloaded with hthere | ⟨-, row, hrow, rfl⟩
        · exact ⟨hthere, hactive⟩
        · rw [findByTaskId_of_mem hmem hkey hdelete] at hrow
          obtain rfl := Option.some.inj hrow
          exact absurd hprotocol hother
    · rintro ⟨hthere, hactive⟩
      have hloaded : task ∈ loadTask s record.taskId registry := mem_loadTask.mpr (Or.inl hthere)
      by_cases hid : task.taskId = record.taskId
      · have hother : task.taskProtocol ≠ .torrent := by
          intro htorrent
          rw [hold task (hid ▸ KeyedList.find?_key hthere) htorrent] at hactive
          cases hactive
        exact ⟨Or.inr ⟨task, hloaded, hid, if_neg hother⟩, hactive⟩
      · exact ⟨Or.inl ⟨hloaded, hid⟩, hactive⟩

end Active

/-- The condition under which a failing `add_task` leaves nothing active. A call that reaches its
lookup must not find a row that takes a slot and that the registry lacks. A torrent that cannot be
built must have had the very record in the table, and when the handle throws, no registered torrent
that takes a slot. -/
def Spared (h : Hub) (params : TaskParams) (bt : TorrentEnv) (now : Int) : Prop :=
  if params.protocol = .http then
    params.url = "" ∨ HttpEngine.savePathOf h.cfg params = "" ∨
      NothingToLoad h.world.store params.url h.registry
  else
    match TorrentEngine.recordLeft bt now params h.registry h.world.store with
    | none => ∀ source, TorrentEngine.parseSource bt.lib params = some source →
        NothingToLoad h.world.store source.1 h.registry
    | some record => record ∈ h.world.store.tasks ∧
        match bt.throws with
        | none => NothingToLoad h.world.store record.taskId h.registry
        | some _ => ∀ task, h.registry.find? record.taskId = some task →
            task.taskProtocol = .torrent → occupiesSlot task = false

theorem TorrentEngine.recordLeft_spec {env : TorrentEnv} {now : Int} {params : TaskParams}
    {registry : Registry} {store : Store} {record : Task}
    (h : recordLeft env now params registry store = some record) :
    record.taskId ≠ "" ∧ record.isDelete = false ∧ record.taskProtocol = .torrent ∧
      requeueable record = true := by
  rw [recordLeft] at h
  split at h
  · cases h
  · obtain ⟨hput, heq⟩ := (Option.ite_none_left_eq_some).mp h
    obtain rfl := Option.some.inj heq
    exact ⟨fun hempty => hput (Or.inl hempty), rfl, rfl, rfl⟩

section Main

variable {h : Hub} {params : TaskParams} {http : DownloadEnv} {bt : TorrentEnv} {now : Int}

theorem untouched_iff_of_store {h' : Hub} (hstore : h'.world.store = h.world.store)
    (hcontexts : ∀ c ∈ h'.world.contexts, c ∈ h.world.contexts) :
    Untouched h h' ↔ ∀ task, task ∈ h'.registry ∧ occupiesSlot task = true ↔
      task ∈ h.registry ∧ occupiesSlot task = true :=
  ⟨fun hsame => hsame.active, fun hactive => ⟨hactive, fun row => by rw [hstore], hcontexts⟩⟩

theorem untouched_iff_of_replaced {h' : Hub} {record : Task}
    (hstore : h.world.store.replaceTask record true = some h'.world.store)
    (hrecord : requeueable record = true) (hcontexts : h'.world.contexts = h.world.contexts) :
    Untouched h h' ↔ record ∈ h.world.store.tasks ∧
      ∀ task, task ∈ h'.registry ∧ occupiesSlot task = true ↔
        task ∈ h.registry ∧ occupiesSlot task = true := by
  have hrequeued := requeued_replaceTask_iff hstore hrecord
  constructor
  · rintro ⟨hactive, hrows, -⟩
    exact ⟨hrequeued.mp hrows, hactive⟩
  · rintro ⟨hmem, hactive⟩
    exact ⟨hactive, hrequeued.mpr hmem, fun c hc => hcontexts ▸ hc⟩

/-- **A failed add**: in every state, whatever failed, nothing is active that was not, if and only if
the call was spared. -/
theorem Hub.untouched_iff_spared (hfailed : (h.addTask params http bt now).1.code ≠ .none) :
    Untouched h (h.addTask params http bt now).2 ↔ Spared h params bt now := by
  by_cases hprotocol : params.protocol = .http
  · have hcall : HttpEngine.addTask h.cfg http now params h.registry h.world =
        ((h.addTask params http bt now).1, (h.addTask params http bt now).2.registry,
          (h.addTask params http bt now).2.world) := by
      simp only [addTask, put, if_pos hprotocol]
    obtain ⟨hregistry, hstore, hcontexts⟩ := HttpEngine.failed_addTask hcall hfailed
    rw [untouched_iff_of_store hstore hcontexts, Spared, if_pos hprotocol, hregistry]
    split
    next hearly =>
      rw [← or_assoc]
      exact iff_of_true (fun _ => Iff.rfl) (Or.inl hearly)
    next hlookup =>
      rw [active_loadTask_iff, ← or_assoc]
      exact (or_iff_right hlookup).symm
  · have hcall : TorrentEngine.addTask h.cfg bt now params h.registry h.world =
        ((h.addTask params http bt now).1, (h.addTask params http bt now).2.registry,
          (h.addTask params http bt now).2.world) := by
      simp only [addTask, put, if_neg hprotocol]
    obtain ⟨hcontexts, houtcome⟩ := TorrentEngine.failed_addTask hcall hfailed
    rw [Spared, if_neg hprotocol]
    cases hleft : TorrentEngine.recordLeft bt now params h.registry h.world.store with
    | none =>
        rw [hleft] at houtcome
        obtain ⟨hstore, hregistry⟩ := houtcome
        rw [untouched_iff_of_store hstore fun c hc => hcontexts ▸ hc, hregistry]
        cases TorrentEngine.parseSource bt.lib params with
        | none => exact iff_of_true (fun _ => Iff.rfl) (by simp)
        | some source => simpa using active_loadTask_iff
    | some record =>
        rw [hleft] at houtcome
        obtain ⟨store', hreplaced, rfl, hregistry⟩ := houtcome
        obtain ⟨hkey, hdelete, htorrent, hrequeueable⟩ := TorrentEngine.recordLeft_spec hleft
        rw [untouched_iff_of_replaced hreplaced hrequeueable hcontexts, hregistry]
        refine and_congr_right fun hmem => ?_
        simp only [TorrentEngine.registryLeft, loadTask_loadTask_of_mem hmem hkey hdelete]
        cases bt.throws with
        | none => exact active_loadTask_iff
        | some message => exact active_broken_iff hmem hkey hdelete htorrent

end Main

/-- A bare info hash: it is parsed, and no torrent comes of it. -/
def bareHash : TaskParams where
  protocol := .torrent
  savePath := "/d"
  magnetLink := oneHash

/-- The save path cannot be made: the failed download leaves nothing. -/
theorem untouched_iff_spared_refused :
    Untouched firstHub (firstHub.addTask firstLink { mkdirOk := false } noTorrents 0).2 := by
  refine (Hub.untouched_iff_spared (by decide +kernel)).mpr ?_
  rw [Spared, if_pos (by decide)]
  refine Or.inr (Or.inr fun _ task hrow => ?_)
  have hnone : firstHub.world.store.findByTaskId firstLink.url false = none := by decide +kernel
  exact absurd (hnone.symm.trans hrow) nofun

/-- The bare hash fails, takes the only slot, and is queued again by the next start. -/
theorem not_untouched_bareHash :
    (firstHub.addTask bareHash {} noTorrents 0).1.code ≠ .none ∧
      ¬ Untouched firstHub (firstHub.addTask bareHash {} noTorrents 0).2 ∧
      activeCount firstHub.registry = 0 ∧
      activeCount (firstHub.addTask bareHash {} noTorrents 0).2.registry = 1 ∧
      ((startRegistry (firstHub.addTask bareHash {} noTorrents 0).2.world.store 1).entries.map
        fun task => (task.taskId, task.status)) = [(oneHash, .queued)] := by
  have hfailed : (firstHub.addTask bareHash {} noTorrents 0).1.code ≠ .none := by decide +kernel
  have hbefore : activeCount firstHub.registry = 0 := by decide +kernel
  have hafter : activeCount (firstHub.addTask bareHash {} noTorrents 0).2.registry = 1 := by
    decide +kernel
  refine ⟨hfailed, fun hsame => ?_, hbefore, hafter, by decide +kernel⟩
  obtain ⟨task, hmem, hactive⟩ := List.countP_pos_iff.mp (hafter.symm ▸ Nat.one_pos)
  have hwas := (hsame.active task).mp ⟨hmem, hactive⟩
  exact absurd (List.countP_pos_iff.mpr ⟨task, hwas⟩) (hbefore ▸ Nat.lt_irrefl 0)

end DownloadWrapper
