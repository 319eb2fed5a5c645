import DownloadWrapper.Core.Rooted

/-!
# What the app is told

The maintenance collects the dirty tasks under the lock, clears their marks, and tells the app about
them behind the lock, while everything else goes on. A change that sets no mark would never be told.
-/

namespace DownloadWrapper

open Transition

/-- What the app is shown of a task. -/
structure Display where
  status : TaskStatus
  reason : Reason
  message : String
  isDelete : Bool
  force : Bool
  totalSize : Int
  totalDone : Int
  downloadRate : ℚ
  uploadRate : ℚ
  deriving DecidableEq

def Task.display (task : Task) : Display where
  status := task.status
  reason := task.reason
  message := task.message
  isDelete := task.isDelete
  force := task.force
  totalSize := task.totalSize
  totalDone := task.totalDone
  downloadRate := task.downloadRate
  uploadRate := task.uploadRate

def dirtyRecords (registry : Registry) : List Task := registry.entries.filter Task.dirty

theorem find?_dirtyRecords (registry : Registry) (key : String) :
    (dirtyRecords registry).reverse.find? (·.taskId = key) =
      (registry.find? key).filter Task.dirty := by
  ext task
  rw [Option.filter_eq_some_iff]
  constructor
  · intro hfind
    have hmem := List.mem_of_find?_eq_some hfind
    rw [List.mem_reverse] at hmem
    obtain ⟨hregistry, hdirty⟩ := List.mem_filter.mp hmem
    have hkey : task.taskId = key := by simpa using List.find?_some hfind
    exact ⟨KeyedList.find?_eq_some_iff.mpr ⟨hregistry, hkey⟩, hdirty⟩
  · rintro ⟨hfind, hdirty⟩
    obtain ⟨hregistry, hkey⟩ := KeyedList.find?_eq_some_iff.mp hfind
    have hmem : task ∈ (dirtyRecords registry).reverse :=
      List.mem_reverse.mpr (List.mem_filter.mpr ⟨hregistry, hdirty⟩)
    cases hfirst : (dirtyRecords registry).reverse.find? (·.taskId = key) with
    | none =>
        have hnone := List.find?_eq_none.mp hfirst task hmem
        simp [hkey] at hnone
    | some first =>
        have hmem' := List.mem_of_find?_eq_some hfirst
        rw [List.mem_reverse] at hmem'
        have hkey' : first.taskId = key := by simpa using List.find?_some hfirst
        rw [KeyedList.eq_of_key_eq (List.mem_filter.mp hmem').1 hregistry (hkey'.trans hkey.symm)]

/-- The hub with its maintenance thread. `collected` are the snapshots of this process and `emitted`
those the app was told of, in their order; `toEmit` is what is left of the pass. `loaded` is each
task of the registry as it came from the database. -/
structure Reporter where
  hub : Hub
  loaded : String → Option Task
  collected : List Task := []
  emitted : List Task := []
  toEmit : List Task := []

inductive ReportEvent where
  | hub (event : HubEvent)
  /-- The part of a pass under the lock. -/
  | collect (now : Int)
  /-- One call of `emit_progress`. -/
  | emit

namespace Reporter

def start (hub : Hub) : Reporter where
  hub := hub
  loaded := fun key => (hub.world.store.visible key).map readTask

/-- The row a task that enters during a step was loaded from: the one that was there, or else the one
the step inserts. -/
def loadedRow (h h' : Hub) (key : String) : Option Task :=
  ((h.world.store.visible key).or (h'.world.store.visible key)).map readTask

def step (r : Reporter) : ReportEvent → Option Reporter
  | .hub (.maintain _) => none
  | .hub (.restart now) => (r.hub.step (.restart now)).map start
  | .hub event =>
      (r.hub.step event).map fun hub =>
        { r with
          hub := hub
          loaded := fun key =>
            if r.hub.registry.find? key = none then loadedRow r.hub hub key else r.loaded key }
  | .collect now =>
      if r.toEmit = [] then
        (r.hub.step (.maintain now)).map fun hub =>
          { r with
            hub := hub
            collected := r.collected ++ dirtyRecords r.hub.registry
            toEmit := dirtyRecords r.hub.registry }
      else none
  | .emit =>
      match r.toEmit with
      | [] => none
      | task :: rest => some { r with emitted := r.emitted ++ [task], toEmit := rest }

def lastShown (r : Reporter) (key : String) : Option Task :=
  (r.collected.reverse.find? (·.taskId = key)).or (r.loaded key)

end Reporter

/-- A change that is not marked shows nothing new. -/
structure Marks (task task' : Task) : Prop where
  taskId : task'.taskId = task.taskId
  display : task'.dirty = false → task.dirty = false ∧ task'.display = task.display

theorem Marks.of_dirty {task task' : Task} (hid : task'.taskId = task.taskId)
    (hdirty : task'.dirty = true) : Marks task task' := by
  refine ⟨hid, fun hclean => ?_⟩
  exact absurd (hdirty.symm.trans hclean) (by simp)

theorem Marks.of_display {task task' : Task} (hid : task'.taskId = task.taskId)
    (hdirty : task'.dirty = task.dirty) (hdisplay : task'.display = task.display) :
    Marks task task' :=
  ⟨hid, fun hclean => ⟨hdirty.symm.trans hclean, hdisplay⟩⟩

theorem Marks.refl (task : Task) : Marks task task := .of_display rfl rfl rfl

theorem Marks.trans {task task' task'' : Task} (h : Marks task task') (h' : Marks task' task'') :
    Marks task task'' := by
  refine ⟨h'.taskId.trans h.taskId, fun hclean => ?_⟩
  obtain ⟨hclean', hdisplay'⟩ := h'.display hclean
  obtain ⟨hclean'', hdisplay⟩ := h.display hclean'
  exact ⟨hclean'', hdisplay'.trans hdisplay⟩

theorem respectsAlerts_marks : RespectsAlerts Marks where
  refl := .refl
  trans _ _ _ := .trans
  failed _ _ _ := .of_dirty rfl rfl
  progress _ _ _ := .of_dirty rfl rfl
  finished _ _ := .of_dirty rfl rfl
  conflict _ _ := .of_dirty rfl rfl
  unwrapped _ _ := .of_display rfl rfl rfl
  linked magnet task _ := by
    unfold linkTask
    split
    · exact .of_dirty rfl rfl
    · exact .refl task
  file index task _ := by
    unfold completeFileTask
    split
    · exact .of_dirty rfl rfl
    · exact .refl task
  piece t index task _ := by
    unfold pieceTask
    split
    · exact .refl task
    · split
      · exact .refl task
      · exact .of_dirty rfl rfl

theorem marks_parsedTask (env : AcquireEnv) (fs : Fs) (t : Torrent) (task : Task) :
    Marks task (parsedTask env fs t task) := by
  unfold parsedTask
  split
  · exact .refl task
  · cases t.info <;> simp only <;> split
    · exact .of_display rfl rfl rfl
    · exact .of_dirty rfl rfl
    · exact .of_display rfl rfl rfl
    · exact .of_dirty rfl rfl

theorem marks_change {h : Hub} {event : HubEvent} {task task' : Task}
    (halert : ∀ acquire, event ≠ .alert acquire) (hmaintain : ∀ now, event ≠ .maintain now)
    (hchange : Change h event task task') : Marks task task' := by
  cases hchange with
  | same => exact .refl task
  | alerted hdrift => exact absurd rfl (halert _)
  | written task => exact absurd rfl (hmaintain _)
  | _ => exact .of_dirty rfl rfl

/-- **Every step marks what it changes**, but for the maintenance, which takes the marks away. -/
theorem evolves_marks {h h' : Hub} {event : HubEvent} (hrooted : Rooted h)
    (hstep : h.step event = some h') (hrestart : ∀ now, event ≠ .restart now)
    (hmaintain : ∀ now, event ≠ .maintain now) :
    h.registry.Evolves Marks (Source h h') h'.registry := by
  apply respectsAlerts_marks.evolves_step hrooted hstep hrestart
  · intro acquire alert alerts hevent halerts id t task hparsed ht hfind hprotocol
    exact marks_parsedTask acquire h.world.fs t task
  · intro halert task task' hchange
    exact marks_change halert hmaintain hchange

/-! ### Every run -/

theorem display_of_source {h h' : Hub} {task : Task} (hsource : Source h h' task) :
    ∃ row, Reporter.loadedRow h h' task.taskId = some row ∧ task.display = row.display := by
  unfold Reporter.loadedRow
  rcases hsource with ⟨row, files, isRead, hrow, heq⟩ | ⟨hnone, row, files, isRead, hrow, heq⟩
  · refine ⟨readTask row, ?_, ?_⟩
    · rw [hrow]
      rfl
    · rw [heq]
      rfl
  · refine ⟨readTask row, ?_, ?_⟩
    · rw [hnone, hrow]
      rfl
    · rw [heq]
      rfl

namespace Reporter

structure Faithful (r : Reporter) : Prop where
  rooted : Rooted r.hub
  known : ∀ task ∈ r.collected, (r.hub.registry.find? task.taskId).isSome
  shown : ∀ task ∈ r.hub.registry, task.dirty = false →
    ∃ old, r.lastShown task.taskId = some old ∧ task.display = old.display
  ordered : r.collected = r.emitted ++ r.toEmit

theorem faithful_start {cfg : ManagerConfig} {httpCfg : HttpConfig} {store : Store} {fs : Fs}
    {now : Int} : (start (startHub cfg httpCfg store fs now)).Faithful := by
  refine ⟨rooted_startHub _ _ _ _ _, fun task hmem => absurd hmem List.not_mem_nil,
    fun task hmem hclean => ?_, rfl⟩
  obtain ⟨row, hrow, hvisible, -, -, rfl⟩ := mem_startRegistry.mp hmem
  refine ⟨readTask row, ?_, ?_⟩
  · have hfind : store.visible row.taskId = some row :=
      Store.visible_eq_some_iff.mpr ⟨hrow, rfl, hvisible⟩
    rw [requeue_taskId]
    exact congrArg (Option.map readTask) hfind
  · unfold requeue at hclean ⊢
    split
    · rfl
    next hstatus =>
      rw [if_neg hstatus] at hclean
      exact absurd hclean (by simp)

theorem Faithful.of_hub {r : Reporter} {event : HubEvent} {hub : Hub} (hfaithful : r.Faithful)
    (hstep : r.hub.step event = some hub) (hrestart : ∀ now, event ≠ .restart now)
    (hmaintain : ∀ now, event ≠ .maintain now) :
    Faithful { r with
      hub := hub
      loaded := fun key =>
        if r.hub.registry.find? key = none then loadedRow r.hub hub key else r.loaded key } := by
  have hevolves := evolves_marks hfaithful.rooted hstep hrestart hmaintain
  refine ⟨rooted_step hfaithful.rooted hstep, fun task hmem => ?_, fun task' hmem hclean => ?_,
    hfaithful.ordered⟩
  · obtain ⟨old, hold⟩ := Option.isSome_iff_exists.mp (hfaithful.known task hmem)
    obtain ⟨task', hfind', -⟩ := hevolves.find? hold
    exact Option.isSome_of_eq_some hfind'
  · unfold lastShown
    rcases hevolves.find?_of_find? (KeyedList.find?_key hmem) with
      ⟨task, hfind, hmarks⟩ | ⟨hnone, task, hsource, hmarks⟩
    · obtain ⟨hclean', hdisplay⟩ := hmarks.display hclean
      obtain ⟨old, hshown, hsame⟩ :=
        hfaithful.shown task (KeyedList.mem_of_find? hfind) hclean'
      rw [← hmarks.taskId] at hshown
      refine ⟨old, ?_, hdisplay.trans hsame⟩
      simp only [hfind, reduceCtorEq, if_false]
      exact hshown
    · obtain ⟨-, hdisplay⟩ := hmarks.display hclean
      obtain ⟨row, hrow, hsame⟩ := display_of_source hsource
      have hnew : r.collected.reverse.find? (·.taskId = task'.taskId) = none := by
        rw [List.find?_eq_none]
        intro snapshot hsnapshot
        have hsome := hfaithful.known snapshot (List.mem_reverse.mp hsnapshot)
        intro hkey
        rw [of_decide_eq_true hkey, hnone] at hsome
        exact absurd hsome (by simp)
      refine ⟨row, ?_, hdisplay.trans hsame⟩
      rw [hnew, Option.none_or]
      simp only [hnone, if_true]
      rw [hmarks.taskId]
      exact hrow

theorem Faithful.of_maintain {r : Reporter} {now : Int} {hub : Hub} (hfaithful : r.Faithful)
    (hstep : r.hub.step (.maintain now) = some hub) (hdone : r.toEmit = []) :
    Faithful { r with
      hub := hub
      collected := r.collected ++ dirtyRecords r.hub.registry
      toEmit := dirtyRecords r.hub.registry } := by
  have hrooted := rooted_step hfaithful.rooted hstep
  have hordered := hfaithful.ordered
  rw [hdone, List.append_nil] at hordered
  have hfind : ∀ key, hub.registry.find? key =
      (r.hub.registry.find? key).map fun task => { task with dirty := false } := by
    intro key
    cases Hub.stepped_of_step hstep with
    | maintain hfree =>
        exact KeyedList.find?_map r.hub.registry (fun task => { task with dirty := false })
          (fun _ => rfl) key
  refine ⟨hrooted, fun task hmem => ?_, fun task' hmem _ => ?_, congrArg (· ++ _) hordered⟩
  · rw [hfind, Option.isSome_map]
    rcases List.mem_append.mp hmem with hold | hnew
    · exact hfaithful.known task hold
    · rw [KeyedList.find?_key (List.mem_filter.mp hnew).1]
      rfl
  · have hfind' := KeyedList.find?_key hmem
    rw [hfind] at hfind'
    obtain ⟨task, htask, rfl⟩ := Option.map_eq_some_iff.mp hfind'
    unfold lastShown
    simp only [List.reverse_append, List.find?_append, find?_dirtyRecords]
    rw [htask]
    cases hdirty : task.dirty with
    | true => exact ⟨task, by simp [Option.filter, hdirty], rfl⟩
    | false =>
        obtain ⟨old, hshown, hsame⟩ :=
          hfaithful.shown task (KeyedList.mem_of_find? htask) hdirty
        rw [KeyedList.key_of_find? htask] at hshown
        have hnone : (some task).filter Task.dirty = none := by simp [Option.filter, hdirty]
        refine ⟨old, ?_, hsame⟩
        rw [KeyedList.key_of_find? htask, hnone, Option.none_or]
        exact hshown

theorem Faithful.step {r r' : Reporter} {event : ReportEvent} (hfaithful : r.Faithful)
    (hstep : r.step event = some r') : r'.Faithful := by
  cases event with
  | hub event =>
      by_cases hmaintain : ∃ now, event = .maintain now
      · obtain ⟨now, rfl⟩ := hmaintain
        exact absurd hstep (by simp [Reporter.step])
      by_cases hrestart : ∃ now, event = .restart now
      · obtain ⟨now, rfl⟩ := hrestart
        have hone : r.step (.hub (.restart now)) = (r.hub.step (.restart now)).map start := rfl
        rw [hone] at hstep
        obtain ⟨hub, hhub, rfl⟩ := Option.map_eq_some_iff.mp hstep
        obtain rfl := Option.some.inj hhub
        exact faithful_start
      · have hone : r.step (.hub event) = (r.hub.step event).map fun hub =>
            { r with
              hub := hub
              loaded := fun key =>
                if r.hub.registry.find? key = none then loadedRow r.hub hub key
                else r.loaded key } := by
          cases event with
          | maintain now => exact absurd ⟨now, rfl⟩ hmaintain
          | restart now => exact absurd ⟨now, rfl⟩ hrestart
          | _ => rfl
        rw [hone] at hstep
        obtain ⟨hub, hhub, rfl⟩ := Option.map_eq_some_iff.mp hstep
        exact hfaithful.of_hub hhub (fun now heq => hrestart ⟨now, heq⟩)
          fun now heq => hmaintain ⟨now, heq⟩
  | collect now =>
      simp only [Reporter.step] at hstep
      split at hstep
      next hdone =>
        obtain ⟨hub, hhub, rfl⟩ := Option.map_eq_some_iff.mp hstep
        exact hfaithful.of_maintain hhub hdone
      next => simp at hstep
  | emit =>
      simp only [Reporter.step] at hstep
      split at hstep
      · simp at hstep
      next task rest hrest =>
        obtain rfl := Option.some.inj hstep
        refine ⟨hfaithful.rooted, hfaithful.known, hfaithful.shown, ?_⟩
        rw [hfaithful.ordered, hrest, List.append_assoc]
        rfl

end Reporter

/-- **No change is lost to the app.** In every state of every run, the maintenance interleaved with
everything else, a task of the registry without a mark shows what the last snapshot of it shows, or
what it showed when it was loaded; and the app was told of the snapshots in the order in which they
were collected, up to those of the pass that is going on. -/
theorem shown_of_reaches {cfg : ManagerConfig} {httpCfg : HttpConfig} {store : Store} {fs : Fs}
    {now : Int} {r : Reporter}
    (hrun : Reaches Reporter.step anyEvent (Reporter.start (startHub cfg httpCfg store fs now)) r) :
    (∀ task ∈ r.hub.registry, task.dirty = false →
        ∃ old, r.lastShown task.taskId = some old ∧ task.display = old.display) ∧
      r.collected = r.emitted ++ r.toEmit := by
  have hfaithful : r.Faithful :=
    hrun.invariant (fun _ _ _ hinv _ hstep => hinv.step hstep) Reporter.faithful_start
  exact ⟨hfaithful.shown, hfaithful.ordered⟩

/-- A link is added and paused, and the maintenance collects the pause. -/
theorem shown_of_reaches_paused :
    ∃ r : Reporter, ∃ task ∈ r.hub.registry, task.status = .paused ∧ task.dirty = false ∧
      ∃ old, r.lastShown task.taskId = some old ∧ task.display = old.display := by
  have hrun : ((play Reporter.step anyEvent (Reporter.start firstHub)
      [.hub (.add oneLink {} oneMagnet 0), .hub (.pause oneLink oneMagnet), .collect 1,
        .emit]).map fun r =>
          (r.hub.registry.find? oneHash).map fun task => (task.status, task.dirty)) =
      some (some (.paused, false)) := by
    decide +kernel
  simp only [Option.map_eq_some_iff, Prod.mk.injEq] at hrun
  obtain ⟨r, hplay, task, hfind, hpaused, hclean⟩ := hrun
  have hmem := KeyedList.mem_of_find? hfind
  exact ⟨r, task, hmem, hpaused, hclean,
    (shown_of_reaches (reaches_of_play hplay)).1 task hmem hclean⟩

end DownloadWrapper
