import DownloadWrapper.Core.Limit

/-!
# Runs within the limit

An orderly step keeps the limit. Most steps start nothing; `add_task` and the passes of the admission
loop are the two that do.
-/

namespace DownloadWrapper

open Transition

variable {limit : Int}

theorem Limited.of_evolves {h h' : Hub} {event : HubEvent} (hlimited : Limited limit h)
    (horderly : Orderly h event) (hadmission : ∀ http bt now, event ≠ .admission http bt now)
    (hevolves : h.registry.Evolves (Change h event) (Source h h') h'.registry)
    (hrows : SameRows h.world.store h'.world.store)
    (hrunning : ∀ url, h'.world.running url = true → h.world.running url = true)
    (hconfig : h'.cfg.maxConcurrentDownloads = limit)
    (hnetwork : h'.admitting = true → h'.netAllowed = true) : Limited limit h' where
  config := hconfig
  network := hnetwork
  thread := fun url hthread => hlimited.covers horderly hevolves (hrunning url hthread)
  active := by
    have hle : activeCount h'.registry ≤ activeCount h.registry := by
      refine KeyedList.count_le_count fun task' hmem hactive => ?_
      rcases hevolves.find?_of_find? (KeyedList.find?_key hmem) with
        ⟨task, hfind, hchange⟩ | ⟨hnone, task, hsource, hchange⟩
      · exact ⟨task, KeyedList.mem_of_find? hfind, active_of_change hadmission hchange hactive,
          KeyedList.key_of_find? hfind⟩
      · have hwas := active_of_change hadmission hchange hactive
        rw [hchange.taskId] at hnone
        rcases hsource with hloaded | ⟨hfresh, hloaded⟩
        · rw [hlimited.inactive_of_loaded hloaded hnone] at hwas
          exact absurd hwas (by simp)
        · have hsome := (hrows.visible_isSome_iff task.taskId).mp hloaded.isSome
          rw [hfresh] at hsome
          exact absurd hsome (by simp)
    have hactive := hlimited.active
    omega
  row := by
    intro key row' hrow' hactive
    obtain ⟨row, hrow, isRead, rfl⟩ := hrows.visible_of_visible hrow'
    obtain ⟨task, hfind⟩ := Option.ne_none_iff_exists'.mp (hlimited.row key row hrow hactive)
    obtain ⟨task', hfind', -⟩ := hevolves.find? hfind
    simp [hfind']

/-! ### Adding -/

theorem started_addTask (h : Hub) {params : TaskParams} (http : DownloadEnv) (bt : TorrentEnv)
    (now : Int) (hprotocol : params.protocol = .http) :
    HttpEngine.Started http now params (HttpEngine.savePathOf h.cfg params) true h.registry h.world
      (h.addTask params http bt now).1 (h.addTask params http bt now).2.registry
      (h.addTask params http bt now).2.world := by
  simp only [Hub.addTask, Hub.put, if_pos hprotocol, HttpEngine.addTask]
  exact HttpEngine.started_startDownload h.cfg http now params none true h.registry h.world

theorem added_addTask (h : Hub) {params : TaskParams} (http : DownloadEnv) (bt : TorrentEnv)
    (now : Int) (hprotocol : params.protocol ≠ .http) :
    TorrentEngine.Added bt now params h.registry h.world
      (h.addTask params http bt now).1 (h.addTask params http bt now).2.registry
      (h.addTask params http bt now).2.world := by
  simp only [Hub.addTask, Hub.put, if_neg hprotocol]
  exact TorrentEngine.added_addTask h.cfg bt now params h.registry h.world

section Add

variable {h : Hub} {params : TaskParams} {http : DownloadEnv} {bt : TorrentEnv} {now : Int}

theorem opensThread_of_recorded {store : Store} {fs : Fs}
    (hrunning : h.world.running params.url = false) (hurl : params.url ≠ "")
    (hpath : HttpEngine.savePathOf h.cfg params ≠ "")
    (hdeleting : HttpEngine.deletePending params.url
      (loadTask h.world.store params.url h.registry) = false)
    (hfs : mkdirRecursive h.world.fs (HttpEngine.savePathOf h.cfg params) http.mkdirOk = some fs)
    (hstore : h.world.store.replaceTask
      (HttpEngine.newTask params (HttpEngine.savePathOf h.cfg params) now) http.persistOk =
        some store) : opensThread h params http = true := by
  obtain ⟨-, hgranted, -⟩ := Store.replaceTask_eq_some_iff.mp hstore
  simp [opensThread, hurl, hpath, hdeleting, hrunning, hfs, hgranted]

theorem find?_loadTask_visible {store : Store} {key : String} {row : Task} {registry : Registry}
    (hkey : key ≠ "") (hnone : registry.find? key = none) (hrow : store.visible key = some row) :
    (loadTask store key registry).find? key =
      some { readTask row with files := store.filesOf key } := by
  rw [find?_loadTask_self, hnone, Store.findByTaskId_eq_visible hkey, hrow]
  rfl

theorem active_of_twice {store : Store} {record : Task} {granted : Bool} {task' : Task}
    (hlimited : Limited limit h)
    (hstore : h.world.store.replaceTask record granted = some store) {key : String}
    (hmem : task' ∈ loadTask store key (loadTask h.world.store key h.registry))
    (hactive : occupiesSlot task' = true) :
    task' ∈ h.registry ∨ task'.taskId = record.taskId ∧ LoadedFrom store task' ∧
      h.registry.find? record.taskId = none ∧ h.world.store.visible record.taskId = none := by
  rcases evolves_loadTask_twice.find?_of_find? (KeyedList.find?_key hmem) with
    ⟨task, hfind, rfl⟩ | ⟨hnone, task, hloaded | ⟨hfresh, hloaded⟩, rfl⟩
  · exact Or.inl (KeyedList.mem_of_find? hfind)
  · rw [hlimited.inactive_of_loaded hloaded hnone] at hactive
    exact absurd hactive (by simp)
  · have hid : task.taskId = record.taskId := by
      by_contra hne
      have hsome := hloaded.isSome
      rw [Store.visible_replaceTask_of_ne hstore hne, hfresh] at hsome
      exact absurd hsome (by simp)
    exact Or.inr ⟨hid, hloaded, hid ▸ hnone, hid ▸ hfresh⟩

theorem Limited.mem_of_loadTask (hlimited : Limited limit h) {key : String} {task' : Task}
    (hmem : task' ∈ loadTask h.world.store key h.registry)
    (hactive : occupiesSlot task' = true) : task' ∈ h.registry := by
  rcases evolves_loadTask.find?_of_find? (KeyedList.find?_key hmem) with
    ⟨task, hfind, rfl⟩ | ⟨hnone, task, hrow, rfl⟩
  · exact KeyedList.mem_of_find? hfind
  · rw [hlimited.inactive_of_loaded hrow hnone] at hactive
    exact absurd hactive (by simp)

theorem active_addHttp {task' : Task} (hlimited : Limited limit h)
    (horderly : Orderly h (.add params http bt now)) (hprotocol : params.protocol = .http)
    (hmem : task' ∈ (h.addTask params http bt now).2.registry)
    (hactive : occupiesSlot task' = true) :
    task' ∈ h.registry ∨ params.url = task'.taskId ∧ slotFree h = true := by
  have hstarted := started_addTask h http bt now hprotocol
  generalize (h.addTask params http bt now).2.registry = registry' at hmem hstarted
  generalize (h.addTask params http bt now).2.world = w' at hstarted
  generalize (h.addTask params http bt now).1 = result at hstarted
  cases hstarted with
  | refused hcode hregistry =>
      rcases hregistry with rfl | rfl
      · exact Or.inl hmem
      · exact Or.inl (hlimited.mem_of_loadTask hmem hactive)
  | busy hrunning => exact Or.inl (hlimited.mem_of_loadTask hmem hactive)
  | undone fs hcode => exact Or.inl (hlimited.mem_of_loadTask hmem hactive)
  | relaunched fs worker hreplace => exact absurd hreplace (by simp)
  | recorded worker hurl hpath hreplace hdeleting hidle hfs hstore =>
      rcases active_of_twice hlimited hstore hmem hactive with hthere | ⟨hid, -, hnone, hfresh⟩
      · exact Or.inl hthere
      · refine Or.inr ⟨hid.symm, ?_⟩
        have hrunning : h.world.running params.url = false := by
          by_contra hthread
          obtain ⟨task, htask, hkey, -⟩ := hlimited.thread params.url (by simpa using hthread)
          exact KeyedList.find?_eq_none_iff.mp hnone task htask hkey
        have hopens := opensThread_of_recorded hrunning hurl hpath hdeleting hfs hstore
        simp only [Orderly, if_pos hprotocol] at horderly
        rcases (horderly hopens).2 with hholds | ⟨-, hfree⟩
        · rw [holdsSlot, show h.registry.find? params.url = none from hnone] at hholds
          exact absurd hholds (by simp)
        · exact hfree

/-- A torrent that failed to be added leaves its task broken: the record takes no slot. -/
theorem active_of_broken {store : Store} {infoHash name message : String} {granted : Bool}
    {task' : Task} (hlimited : Limited limit h)
    (hstore : h.world.store.replaceTask (TorrentEngine.newTask params infoHash name now) granted =
      some store)
    (hmem : task' ∈ updateTorrentTask store infoHash (TorrentEngine.brokenTask now message)
      (fun _ => rfl) (loadTask store infoHash (loadTask h.world.store infoHash h.registry)))
    (hactive : occupiesSlot task' = true) :
    ∃ task ∈ h.registry, occupiesSlot task = true ∧ task.taskId = task'.taskId := by
  simp only [updateTorrentTask, loadTask_loadTask] at hmem
  have hfind := KeyedList.find?_key hmem
  by_cases hkey : task'.taskId = infoHash
  · rw [hkey, KeyedList.find?_modify_self] at hfind
    obtain ⟨task, htask, rfl⟩ := Option.map_eq_some_iff.mp hfind
    split at hactive
    next => simp [occupiesSlot, TorrentEngine.brokenTask, statusOccupiesSlot] at hactive
    next hother =>
      rw [if_neg hother]
      rcases active_of_twice hlimited hstore (KeyedList.mem_of_find? htask) hactive with
        hthere | ⟨hid, hloaded, -⟩
      · exact ⟨task, hthere, hactive, rfl⟩
      · obtain ⟨files, isRead, heq⟩ := hloaded.of_replaceTask hstore rfl hid
        exact absurd (by rw [heq]; rfl) hother
  · rw [KeyedList.find?_modify_of_ne _ _ _ hkey] at hfind
    rcases active_of_twice hlimited hstore (KeyedList.mem_of_find? hfind) hactive with
      hthere | ⟨hid, -⟩
    · exact ⟨task', hthere, hactive, rfl⟩
    · exact absurd hid hkey

theorem active_addTorrent {task' : Task} (hlimited : Limited limit h)
    (horderly : Orderly h (.add params http bt now)) (hprotocol : params.protocol ≠ .http)
    (hmem : task' ∈ (h.addTask params http bt now).2.registry)
    (hactive : occupiesSlot task' = true) :
    (∃ task ∈ h.registry, occupiesSlot task = true ∧ task.taskId = task'.taskId) ∨
      ∃ name, TorrentEngine.parseSource bt.lib params = some (task'.taskId, name) ∧
        slotFree h = true := by
  have hadded := added_addTask h http bt now hprotocol
  generalize (h.addTask params http bt now).2.registry = registry' at hmem hadded
  generalize (h.addTask params http bt now).2.world = w' at hadded
  generalize (h.addTask params http bt now).1 = result at hadded
  cases hadded with
  | kept hregistry =>
      rcases hregistry with rfl | ⟨infoHash, rfl⟩
      · exact Or.inl ⟨task', hmem, hactive, rfl⟩
      · exact Or.inl ⟨task', hlimited.mem_of_loadTask hmem hactive, hactive, rfl⟩
  | recorded infoHash name hsource hstore hw hregistry =>
      rcases hregistry with ⟨hthrows, rfl⟩ | ⟨message, -, -, rfl⟩
      · rcases active_of_twice hlimited hstore hmem hactive with hthere | ⟨hid, -, hnone, hfresh⟩
        · exact Or.inl ⟨task', hthere, hactive, rfl⟩
        · refine Or.inr ⟨name, by rw [hid]; exact hsource, ?_⟩
          simp only [Orderly, if_neg hprotocol] at horderly
          refine horderly ?_
          obtain ⟨hempty, hgranted, -⟩ := Store.replaceTask_eq_some_iff.mp hstore
          have hkey : infoHash ≠ "" := hempty
          have hnone' : h.registry.find? infoHash = none := hnone
          have hfresh' : h.world.store.visible infoHash = none := hfresh
          simp [registersTask, hsource, hkey, unknownKey, hnone', hfresh', hgranted, hthrows]
      · exact Or.inl (active_of_broken hlimited hstore hmem hactive)

theorem active_addTask {task' : Task} (hlimited : Limited limit h)
    (horderly : Orderly h (.add params http bt now))
    (hmem : task' ∈ (h.addTask params http bt now).2.registry)
    (hactive : occupiesSlot task' = true) :
    (∃ task ∈ h.registry, occupiesSlot task = true ∧ task.taskId = task'.taskId) ∨
      (recordOf h.cfg bt.lib params now).map Task.taskId = some task'.taskId ∧
        slotFree h = true := by
  by_cases hprotocol : params.protocol = .http
  · rcases active_addHttp hlimited horderly hprotocol hmem hactive with hold | ⟨hid, hfree⟩
    · exact Or.inl ⟨task', hold, hactive, rfl⟩
    · refine Or.inr ⟨?_, hfree⟩
      rw [recordOf, if_pos hprotocol, ← hid]
      rfl
  · rcases active_addTorrent hlimited horderly hprotocol hmem hactive with hold | ⟨name, hsource, hfree⟩
    · exact Or.inl hold
    · refine Or.inr ⟨?_, hfree⟩
      rw [recordOf, if_neg hprotocol, hsource]
      rfl

/-- The step neither raises the count over the limit, nor starts a thread without a task. -/
theorem activeCount_addTask_le (hlimited : Limited limit h)
    (horderly : Orderly h (.add params http bt now)) :
    (activeCount (h.addTask params http bt now).2.registry : Int) ≤ limit := by
  have hactive := hlimited.active
  cases hfree : slotFree h with
  | true =>
      have hle : activeCount (h.addTask params http bt now).2.registry ≤
          activeCount h.registry + 1 := by
        refine KeyedList.count_le_count_add_one
          (((recordOf h.cfg bt.lib params now).map Task.taskId).getD "")
          fun task' hmem hnow hne => ?_
        rcases active_addTask hlimited horderly hmem hnow with hold | ⟨hrecord, -⟩
        · exact hold
        · rw [hrecord] at hne
          exact absurd rfl hne
      simp only [slotFree, decide_eq_true_eq, hlimited.config] at hfree
      omega
  | false =>
      have hle : activeCount (h.addTask params http bt now).2.registry ≤ activeCount h.registry := by
        refine KeyedList.count_le_count fun task' hmem hnow => ?_
        rcases active_addTask hlimited horderly hmem hnow with hold | ⟨-, hslot⟩
        · exact hold
        · rw [hfree] at hslot
          exact absurd hslot (by simp)
      omega

theorem running_addTask {url : String} (horderly : Orderly h (.add params http bt now))
    (hrunning : (h.addTask params http bt now).2.world.running url = true) :
    h.world.running url = true ∨
      h.netAllowed = true ∧ Covers (h.addTask params http bt now).2.registry url := by
  by_cases hthere : h.world.running url = true
  · exact Or.inl hthere
  right
  by_cases hprotocol : params.protocol = .http
  · have hstarted := started_addTask h http bt now hprotocol
    generalize (h.addTask params http bt now).2.registry = registry' at hstarted ⊢
    generalize (h.addTask params http bt now).2.world = w' at hstarted hrunning
    generalize (h.addTask params http bt now).1 = result at hstarted
    cases hstarted with
    | refused hcode hregistry => exact absurd hrunning hthere
    | busy hbusy => exact absurd hrunning hthere
    | undone fs hcode => exact absurd (World.running_of_erased rfl hrunning) hthere
    | relaunched fs worker hreplace => exact absurd hreplace (by simp)
    | @recorded store fs worker hurl hpath hreplace hdeleting hidle hfs hstore =>
        obtain rfl := (World.running_of_replaced rfl rfl hrunning).resolve_right hthere
        have hopens := opensThread_of_recorded (by simpa using hthere) hurl hpath hdeleting hfs
          hstore
        simp only [Orderly, if_pos hprotocol] at horderly
        obtain ⟨hnetwork, hslot⟩ := horderly hopens
        refine ⟨hnetwork, ?_⟩
        rcases hslot with hholds | ⟨hunknown, -⟩
        · obtain ⟨task, hfind, hhttp⟩ := (Option.any_eq_true _ _).mp hholds
          simp only [Bool.and_eq_true, decide_eq_true_eq] at hhttp
          have hloads : h.registry.Evolves Eq _ (loadTask store params.url
            (loadTask h.world.store params.url h.registry)) := evolves_loadTask_twice
          obtain ⟨task', hfind', rfl⟩ := hloads.find? hfind
          exact ⟨task, KeyedList.mem_of_find? hfind', KeyedList.key_of_find? hfind, hhttp.1, hhttp.2⟩
        · simp only [unknownKey, Bool.and_eq_true, Option.isNone_iff_eq_none] at hunknown
          have hmid : (loadTask h.world.store params.url h.registry).find? params.url = none := by
            rw [find?_loadTask_self, hunknown.1, Store.findByTaskId_eq_none_of_visible hunknown.2]
            rfl
          have hfind := find?_loadTask_visible hurl hmid
            (Store.visible_replaceTask_self hstore rfl)
          exact ⟨_, KeyedList.mem_of_find? hfind, rfl, rfl, rfl⟩
  · have hadded := added_addTask h http bt now hprotocol
    generalize (h.addTask params http bt now).2.registry = registry' at hadded ⊢
    generalize (h.addTask params http bt now).2.world = w' at hadded hrunning
    generalize (h.addTask params http bt now).1 = result at hadded
    cases hadded with
    | kept hregistry => exact absurd hrunning hthere
    | recorded infoHash name hsource hstore hw hregistry =>
        exact absurd (World.running_of_contexts hw.2 ▸ hrunning) hthere

theorem row_addTask (hlimited : Limited limit h) {key : String} {row : Task}
    (hrow : (h.addTask params http bt now).2.world.store.visible key = some row)
    (hactive : occupiesSlot row = true) :
    (h.addTask params http bt now).2.registry.find? key ≠ none := by
  have hkept : h.registry.find? key ≠ none →
      (h.addTask params http bt now).2.registry.find? key ≠ none := by
    intro hsome
    obtain ⟨task, hfind⟩ := Option.ne_none_iff_exists'.mp hsome
    obtain ⟨task', hfind', -⟩ := (@evolves_addTask h params http bt now).find? hfind
    simp [hfind']
  have hloaded : ∀ {store : Store} {record : Task} {granted : Bool} {registry : Registry},
      h.world.store.replaceTask record granted = some store → record.isDelete = false →
      (loadTask store record.taskId registry).find? record.taskId ≠ none := by
    intro store record granted registry hstore hdelete
    rw [find?_loadTask_self, Store.findByTaskId_eq_visible
      (Store.replaceTask_eq_some_iff.mp hstore).1, Store.visible_replaceTask_self hstore hdelete]
    simp
  by_cases hprotocol : params.protocol = .http
  · have hstarted := started_addTask h http bt now hprotocol
    generalize (h.addTask params http bt now).2.registry = registry' at hstarted hkept ⊢
    generalize (h.addTask params http bt now).2.world = w' at hstarted hrow
    generalize (h.addTask params http bt now).1 = result at hstarted
    cases hstarted with
    | relaunched fs worker hreplace => exact absurd hreplace (by simp)
    | recorded worker hurl hpath hreplace hdeleting hidle hfs hstore =>
        by_cases hkey : key = params.url
        · rw [hkey]
          exact hloaded hstore rfl
        · refine hkept (hlimited.row key row ?_ hactive)
          rwa [← Store.visible_replaceTask_of_ne hstore hkey]
    | _ => exact hkept (hlimited.row key row hrow hactive)
  · have hadded := added_addTask h http bt now hprotocol
    generalize (h.addTask params http bt now).2.registry = registry' at hadded hkept ⊢
    generalize (h.addTask params http bt now).2.world = w' at hadded hrow
    generalize (h.addTask params http bt now).1 = result at hadded
    cases hadded with
    | kept hregistry => exact hkept (hlimited.row key row hrow hactive)
    | recorded infoHash name hsource hstore hw hregistry =>
        rw [hw.1] at hrow
        by_cases hkey : key = infoHash
        · rw [hkey]
          rcases hregistry with ⟨-, rfl⟩ | ⟨message, -, -, rfl⟩
          · exact hloaded hstore rfl
          · have hthere : ∀ registry, (loadTask _ infoHash registry).find? infoHash ≠ none :=
              fun registry => @hloaded _ _ _ registry hstore rfl
            simpa [updateTorrentTask, KeyedList.find?_modify_self] using hthere _
        · refine hkept (hlimited.row key row ?_ hactive)
          rwa [← Store.visible_replaceTask_of_ne hstore hkey]

theorem limited_addTask (hlimited : Limited limit h) (hfree : h.admitting = false)
    (horderly : Orderly h (.add params http bt now)) :
    Limited limit (h.addTask params http bt now).2 where
  config := hlimited.config
  active := activeCount_addTask_le hlimited horderly
  thread := fun _ hrunning =>
    (running_addTask horderly hrunning).elim
      (hlimited.covers horderly evolves_addTask) And.right
  row := fun _ _ => row_addTask hlimited
  network := fun hadmitting => absurd (hfree.symm.trans hadmitting) (by simp)

end Add

/-! ### Admitting -/

section Admit

variable {h : Hub} {http : DownloadEnv} {bt : TorrentEnv} {now : Int}

theorem activeCount_admit_le (hlimited : Limited limit h) :
    (activeCount (h.admission http bt now).registry : Int) ≤ limit := by
  have hactive := hlimited.active
  have hpass := h.pass_cases http bt now
  simp only [Hub.admission]
  rcases hout : h.pass http bt now with ⟨round, again⟩
  rw [hout] at hpass
  rcases hpass with hpass | hidle
  · have hstart : Admitting h.cfg (Hub.engines h.cfg http bt now) h.registry
        (⟨h.registry, h.world, []⟩ : Round World) :=
      ⟨by simp, List.Pairwise.nil, by simp [dispatched], le_max_right _ _⟩
    have hcount := (hstart.pass hpass).count
    rw [hlimited.config, max_eq_left hactive] at hcount
    exact hcount
  · rw [(Prod.mk.inj hidle).1]
    exact hactive

theorem running_admission {url : String}
    (hrunning : (h.admission http bt now).world.running url = true) :
    h.world.running url = true ∨ Covers (h.admission http bt now).registry url := by
  have hpass := h.pass_cases http bt now
  simp only [Hub.admission] at hrunning ⊢
  rcases hout : h.pass http bt now with ⟨round, again⟩
  rw [hout] at hpass
  simp only [hout] at hrunning
  have hpaused : ∀ {task : Task} {result : SubmitResult} {w : World},
      AnswersPause h.cfg (Hub.engines h.cfg http bt now) ⟨h.registry, h.world, []⟩ task result w →
      w.running url = h.world.running url := by
    intro task result w hcall
    rcases Hub.answersPause hcall with ⟨-, hanswer⟩ | ⟨-, hanswer⟩
    · have hsame := @HttpEngine.running_pauseTask url (paramsOf h.cfg task) h.world
      rwa [hanswer] at hsame
    · have honly := TorrentEngine.onlyTorrents_pauseHandle bt (paramsOf h.cfg task) h.world
      rw [hanswer] at honly
      exact World.running_of_contexts honly.contexts
  have hresumed : ∀ {task : Task} {result : SubmitResult} {w : World},
      AnswersResume h.cfg (Hub.engines h.cfg http bt now) ⟨h.registry, h.world, []⟩ task result w →
      w.running url = true → h.world.running url = true ∨
        task.taskProtocol = .http ∧ url = task.taskId ∧ result.code = .none := by
    intro task result w hcall hthread
    rcases Hub.answersResume hcall with ⟨hhttp, hresumed⟩ | ⟨-, honly⟩
    · exact (hresumed.running hthread).symm.imp_right fun hnew => ⟨hhttp, hnew⟩
    · exact Or.inl (World.running_of_contexts honly.contexts ▸ hthread)
  rcases hpass with hpass | hidle
  · simp only at hpass hrunning ⊢
    cases hpass with
    | pauseFailed next slowest result world hnext hfull hforce hslowest hcall hcode =>
        exact Or.inl (hpaused hcall ▸ hrunning)
    | paused next slowest result world time hnext hfull hforce hslowest hcall hcode =>
        exact Or.inl (hpaused hcall ▸ hrunning)
    | resumeFailed next result world hnext hslot hcall hcode =>
        rcases hresumed hcall hrunning with hthere | ⟨-, -, hnone⟩
        · exact Or.inl hthere
        · rw [hnone] at hcode
          exact absurd hcode (by simp)
    | resumed next result world time hnext hslot hcall hcode =>
        refine (hresumed hcall hrunning).imp_right ?_
        rintro ⟨hhttp, rfl, hnone⟩
        obtain ⟨hmem, hadmissible, -⟩ := nextTask_spec hnext
        refine ⟨settleDispatched time result next, KeyedList.mem_of_find? (k := next.taskId) ?_, rfl,
          hhttp, ?_⟩
        · have hself := h.registry.find?_modify_self next.taskId (settleDispatched time result)
            fun _ => rfl
          exact hself.trans (by rw [KeyedList.find?_key hmem]; rfl)
        · simp only [admissible, Bool.and_eq_true, Bool.not_eq_true'] at hadmissible
          simp only [occupiesSlot, settleDispatched, hnone, if_true, hadmissible.1.1.1]
          simp [isDownloadTask, hhttp, statusOccupiesSlot]
    | _ => exact Or.inl hrunning
  · rw [(Prod.mk.inj hidle).1] at hrunning
    exact Or.inl hrunning

theorem limited_admission (hlimited : Limited limit h) (horderly : Orderly h (.admission http bt now))
    (hadmitting : h.admitting = true) : Limited limit (h.admission http bt now) where
  config := hlimited.config
  active := activeCount_admit_le hlimited
  thread := fun _ hrunning => (running_admission hrunning).elim (hlimited.covers horderly evolves_admission) id
  row := by
    intro key row hrow hactive
    rw [store_admission] at hrow
    obtain ⟨task, hfind⟩ := Option.ne_none_iff_exists'.mp (hlimited.row key row hrow hactive)
    obtain ⟨task', hfind', -⟩ := (@evolves_admission h http bt now).find? hfind
    simp [hfind']
  network := fun _ => hlimited.network hadmitting

end Admit

theorem limited_startHub {cfg : ManagerConfig} {httpCfg : HttpConfig} {store : Store} {fs : Fs}
    {now : Int} (hlimit : 0 ≤ cfg.maxConcurrentDownloads) :
    Limited cfg.maxConcurrentDownloads (startHub cfg httpCfg store fs now) where
  config := rfl
  active := by
    have hnone : activeCount (startHub cfg httpCfg store fs now).registry = 0 := by
      rw [activeCount, KeyedList.count, List.countP_eq_zero]
      intro task hmem
      obtain ⟨row, -, -, -, -, rfl⟩ := mem_startRegistry.mp hmem
      have hqueued : (requeue store now (readTask row)).status = .queued := by
        simp only [requeue]
        split
        next heq => exact heq
        next => rfl
      simp [occupiesSlot, hqueued, statusOccupiesSlot]
    rw [hnone]
    exact hlimit
  thread := by
    intro url hrunning
    obtain ⟨c, hfind, -⟩ := World.running_eq_true_iff.mp hrunning
    exact absurd hfind (by simp [startHub])
  row := by
    intro key row hrow hactive
    obtain ⟨hmem, rfl, hvisible⟩ := Store.visible_eq_some_iff.mp hrow
    simp only [occupiesSlot, statusOccupiesSlot, Bool.and_eq_true, Bool.or_eq_true,
      decide_eq_true_eq] at hactive
    have hstarted : requeue store now (readTask row) ∈ startRegistry store now := by
      refine mem_startRegistry.mpr ⟨row, hmem, hvisible, ?_, hactive.1.2, rfl⟩
      rcases hactive.2 with heq | heq <;> simp [heq, activeStatuses]
    intro hnone
    exact KeyedList.find?_eq_none_iff.mp hnone _ hstarted (requeue_taskId _ _ _)
  network := fun hadmitting => absurd hadmitting (by simp [startHub])

/-! ### Every run -/

section Run

variable {h h' : Hub} {event : HubEvent}

theorem running_of_pauseTask {params : TaskParams} {bt : TorrentEnv} {url : String}
    (hrunning : (h.pauseTask params bt).2.world.running url = true) :
    h.world.running url = true := by
  simp only [Hub.pauseTask, Hub.put] at hrunning
  split at hrunning
  · rwa [HttpEngine.running_pauseTask] at hrunning
  · rwa [World.running_of_contexts (onlyTorrents_pauseTask bt params h.registry h.world).contexts]
      at hrunning

theorem running_of_deleteTask {params : TaskParams} {bt : TorrentEnv} {url : String}
    (hrunning : (h.deleteTask params bt).2.world.running url = true) :
    h.world.running url = true := by
  simp only [Hub.deleteTask, Hub.put] at hrunning
  split at hrunning
  · rwa [HttpEngine.running_deleteTask] at hrunning
  · rwa [World.running_of_contexts
      (onlyTorrents_deleteTask bt params h.registry h.world).contexts] at hrunning

theorem running_of_resumeTask {params : TaskParams} {now : Int} {url : String}
    (hrunning : (h.resumeTask params now).2.world.running url = true) :
    h.world.running url = true := by
  simpa [world_resumeTask] using hrunning

/-- **What starts a thread.** Only `add_task` and the admission loop do. -/
theorem running_of_step (hstep : h.step event = some h')
    (hadd : ∀ params http bt now, event ≠ .add params http bt now)
    (hadmission : ∀ http bt now, event ≠ .admission http bt now) {url : String}
    (hrunning : h'.world.running url = true) : h.world.running url = true := by
  cases Hub.stepped_of_step hstep with
  | add hfree hjoined => exact absurd rfl (hadd _ _ _ _)
  | admission hadmitting hjoined => exact absurd rfl (hadmission _ _ _)
  | pause => exact running_of_pauseTask hrunning
  | resume hfree => exact running_of_resumeTask hrunning
  | delete => exact running_of_deleteTask hrunning
  | schedule hfree =>
      simp only [Hub.schedule] at hrunning
      split at hrunning <;> exact hrunning
  | pauseNext hnext => exact running_of_pauseTask hrunning
  | sweepHttp => exact HttpEngine.running_of_sweep hrunning
  | sweepTorrent hfree =>
      have honly := TorrentEngine.onlyTorrents_sweep h.cfg h.registry h.world
      exact World.running_of_contexts honly.contexts ▸ hrunning
  | worker hown hworker => exact HttpEngine.running_of_stepWorker hown hworker hrunning
  | @alert acquire alert alerts hfree halerts =>
      have hsame := @contexts_handleAlert acquire h.registry { h.world with alerts := alerts } alert
      exact World.running_of_contexts (w := h.world) hsame ▸ hrunning
  | restart =>
      obtain ⟨c, hfind, -⟩ := World.running_eq_true_iff.mp hrunning
      exact absurd hfind (by simp [startHub])
  | maintain | libtorrent | disk | configKept | configApplied => exact hrunning

theorem limited_step (hrooted : Rooted h) (hlimited : Limited limit h) (hlimit : 0 ≤ limit)
    (horderly : Orderly h event) (hstep : h.step event = some h') : Limited limit h' := by
  have hquiet : (∀ params http bt now, event ≠ .add params http bt now) →
      (∀ http bt now, event ≠ .admission http bt now) → (∀ now, event ≠ .restart now) →
      h'.cfg.maxConcurrentDownloads = limit → (h'.admitting = true → h'.netAllowed = true) →
      Limited limit h' := by
    intro hadd hadmission hrestart hconfig hnetwork
    refine hlimited.of_evolves horderly hadmission (evolves_step hrooted hstep hrestart) ?_
      (fun url => running_of_step hstep hadd hadmission) hconfig hnetwork
    rcases rows_step hstep with hrows | ⟨task, store, hrecording, -⟩
    · exact hrows
    · obtain ⟨params, http, bt, now, heq, -⟩ := hrecording.event
      exact absurd heq (hadd _ _ _ _)
  cases Hub.stepped_of_step hstep with
  | add hfree hjoined => exact limited_addTask hlimited hfree horderly
  | admission hadmitting hjoined => exact limited_admission hlimited horderly hadmitting
  | restart => exact hlimited.config ▸ limited_startHub (hlimited.config.symm ▸ hlimit)
  | schedule hfree =>
      refine hquiet (by simp) (by simp) (by simp) ?_ ?_ <;> simp only [Hub.schedule] <;> split
      · exact hlimited.config
      · exact hlimited.config
      next hallowed => exact fun _ => hallowed
      next => exact fun hadmitting => absurd (hfree.symm.trans hadmitting) (by simp)
  | @configApplied cfg cfg' hfree hcfg =>
      refine hquiet (by simp) (by simp) (by simp) ?_ ?_
      · have hkept : (applyConfig cfg).all (fun cfg' =>
            cfg'.maxConcurrentDownloads = h.cfg.maxConcurrentDownloads) = true := horderly
        rw [hcfg] at hkept
        exact (by simpa using hkept : _ = h.cfg.maxConcurrentDownloads).trans hlimited.config
      · exact fun hadmitting => absurd (hfree.symm.trans hadmitting) (by simp)
  | _ => exact hquiet (by simp) (by simp) (by simp) hlimited.config hlimited.network

theorem netAllowed_of_step (hlimited : Limited limit h) (horderly : Orderly h event)
    (hstep : h.step event = some h') {url : String} (hidle : h.world.running url = false)
    (hrunning : h'.world.running url = true) : h.netAllowed = true := by
  have hnew : h.world.running url ≠ true := by simp [hidle]
  by_cases hadd : ∃ params http bt now, event = .add params http bt now
  · obtain ⟨params, http, bt, now, rfl⟩ := hadd
    cases Hub.stepped_of_step hstep with
    | add hfree hjoined => exact ((running_addTask horderly hrunning).resolve_left hnew).1
  by_cases hadmission : ∃ http bt now, event = .admission http bt now
  · obtain ⟨http, bt, now, rfl⟩ := hadmission
    cases Hub.stepped_of_step hstep with
    | admission hadmitting hjoined => exact hlimited.network hadmitting
  · exact absurd (running_of_step hstep (fun _ _ _ _ heq => hadd ⟨_, _, _, _, heq⟩)
      (fun _ _ _ heq => hadmission ⟨_, _, _, heq⟩) hrunning) hnew

end Run

def torrentCount (registry : Registry) : Nat :=
  registry.count fun task => occupiesSlot task && task.taskProtocol = .torrent

theorem torrentCount_eq (registry : Registry) :
    torrentCount registry =
      registry.count fun task => occupiesSlot task && task.taskProtocol ≠ .http := by
  refine congrArg registry.count (funext fun task => ?_)
  simp only [occupiesSlot, isDownloadTask]
  cases task.taskProtocol <;> simp

/-- **The limit.** In a run whose steps all are orderly the active tasks stay within the limit, and
so do the running threads and the BT tasks at work together; no thread starts without the
network. -/
theorem limited_of_started {cfg : ManagerConfig} {httpCfg : HttpConfig} {store : Store} {fs : Fs}
    {start : Int} {h : Hub} (hlimit : 1 ≤ cfg.maxConcurrentDownloads)
    (hrun : Reaches Hub.step Orderly (startHub cfg httpCfg store fs start) h) :
    (activeCount h.registry : Int) ≤ cfg.maxConcurrentDownloads ∧
      (h.world.runningCount + torrentCount h.registry : Int) ≤ cfg.maxConcurrentDownloads ∧
      ∀ event h', Orderly h event → h.step event = some h' → ∀ url,
        h.world.running url = false → h'.world.running url = true → h.netAllowed = true := by
  have hall : Rooted h ∧ Limited cfg.maxConcurrentDownloads h := by
    refine @Reaches.invariant _ _ _ _
      (fun h => Rooted h ∧ Limited cfg.maxConcurrentDownloads h) _ _ hrun ?_ ?_
    · rintro h event h' ⟨hrooted, hlimited⟩ horderly hstep
      exact ⟨rooted_step hrooted hstep,
        limited_step hrooted hlimited (by omega) horderly hstep⟩
    · exact ⟨rooted_startHub _ _ _ _ _, limited_startHub (by omega)⟩
  refine ⟨hall.2.active, ?_, fun event h' horderly hstep url => netAllowed_of_step hall.2 horderly
    hstep⟩
  have hcount := hall.2.count_le
  rwa [← torrentCount_eq] at hcount

/-- One download is added, and the scheduler's round leaves it alone. -/
theorem limited_of_started_one :
    ∃ h : Hub, h.world.runningCount = 1 ∧ (activeCount h.registry : Int) ≤ 1 ∧
      (h.world.runningCount + torrentCount h.registry : Int) ≤ 1 := by
  have hrun : ((play Hub.step Orderly firstHub
      [.add { url := "u" } {} noTorrents 0, .schedule, .admission {} noTorrents 1]).map fun h =>
        h.world.runningCount) = some 1 := by
    decide +kernel
  obtain ⟨h, hplay, hcount⟩ := Option.map_eq_some_iff.mp hrun
  obtain ⟨hactive, hrunning, -⟩ := limited_of_started (by decide) (reaches_of_play hplay)
  exact ⟨h, hcount, hactive, hrunning⟩

/-- Two downloads are added under a limit of one: both threads run, and both tasks are active. -/
theorem not_limited_twoAdds :
    ∃ h : Hub, Reaches Hub.step anyEvent firstHub h ∧ firstHub.cfg.maxConcurrentDownloads = 1 ∧
      ¬ (activeCount h.registry : Int) ≤ 1 ∧
      ¬ (h.world.runningCount + torrentCount h.registry : Int) ≤ 1 := by
  have hrun : ((play Hub.step anyEvent firstHub
      [.add { url := "u" } {} noTorrents 0, .add { url := "v" } {} noTorrents 0]).map fun h =>
        (activeCount h.registry, h.world.runningCount)) = some (2, 2) := by
    decide +kernel
  simp only [Option.map_eq_some_iff, Prod.mk.injEq] at hrun
  obtain ⟨h, hplay, hactive, hcount⟩ := hrun
  exact ⟨h, reaches_of_play hplay, rfl, by omega, by omega⟩

end DownloadWrapper
