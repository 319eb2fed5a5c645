import DownloadWrapper.Core.Rooted

/-!
# Deletion

`delete_task` marks what is in memory; nothing marks the row of the tasks table, which `list`,
`get_engine_task` and the next start read. So a deletion lasts exactly where there was no row to
delete.
-/

namespace DownloadWrapper

open Transition

/-- No part of the program knows a live task of the key: not `list`, not `get_engine_task`, not the
start of a later process. -/
structure Gone (h : Hub) (key : String) : Prop where
  listed : ∀ task ∈ h.world.store.findAll, task.taskId ≠ key
  engine : ∀ task, (loadTask h.world.store key h.registry).find? key = some task →
    task.isDelete = true
  restarted : ∀ now, ∀ task ∈ startRegistry h.world.store now, task.taskId ≠ key

def AddsTask (key : String) (h : Hub) : HubEvent → Prop
  | .add params http bt now =>
      (recordOf h.cfg bt.lib params now).map Task.taskId = some key ∧
        (h.addTask params http bt now).1.code = .none
  | _ => False

def Store.records (key : String) (s : Store) : List Task := s.inserted.filter (·.taskId = key)

/-- **A task is gone exactly when it has no visible row.** -/
theorem gone_iff {h : Hub} (hrooted : Rooted h) (key : String) :
    Gone h key ↔ h.world.store.visible key = none := by
  constructor
  · intro hgone
    by_contra hsome
    obtain ⟨row, hrow⟩ := Option.ne_none_iff_exists'.mp hsome
    obtain ⟨hmem, hkey, hvisible⟩ := Store.visible_eq_some_iff.mp hrow
    exact hgone.listed _ (Store.mem_findAll.mpr ⟨row, hmem, hvisible, rfl⟩) hkey
  · intro hnone
    have hrow : ∀ row ∈ h.world.store.tasks, row.isDelete = false → row.taskId ≠ key := by
      rintro row hmem hvisible rfl
      rw [Store.visible_eq_some_iff.mpr ⟨hmem, rfl, hvisible⟩] at hnone
      exact absurd hnone (by simp)
    refine ⟨fun task htask => ?_, fun task hfind => ?_, fun now task htask => ?_⟩
    · obtain ⟨row, hmem, hvisible, rfl⟩ := Store.mem_findAll.mp htask
      exact hrow row hmem hvisible
    · rw [find?_loadTask_self, Store.findByTaskId_eq_none_of_visible hnone] at hfind
      have hfind' : h.registry.find? key = some task := by simpa using hfind
      have hsome := hrooted.row task (KeyedList.mem_of_find? hfind')
      rw [KeyedList.key_of_find? hfind', hnone] at hsome
      exact absurd hsome (by simp)
    · obtain ⟨row, hmem, hvisible, -, -, rfl⟩ := mem_startRegistry.mp htask
      rw [requeue_taskId]
      exact hrow row hmem hvisible

/-! ### The rows of a key over a run -/

/-- Since `h₀` no record of the key was inserted and its row is as visible as it was, or one was
inserted and its row is visible. -/
def RowSince (h₀ : Hub) (key : String) (h : Hub) : Prop :=
  (h.world.store.records key = h₀.world.store.records key ∧
      ((h.world.store.visible key).isSome ↔ (h₀.world.store.visible key).isSome)) ∨
    (h₀.world.store.records key).length < (h.world.store.records key).length ∧
      (h.world.store.visible key).isSome

theorem rowSince_step {h₀ h h' : Hub} {key : String} {event : HubEvent} (hsince : RowSince h₀ key h)
    (hstep : h.step event = some h') : RowSince h₀ key h' := by
  rcases rows_step hstep with hrows | ⟨task, store, hrecording, hrows⟩
  · have hvisible := hrows.visible_isSome_iff key
    simp only [RowSince, Store.records, hrows.inserted, hvisible] at hsince ⊢
    exact hsince
  · obtain ⟨params, http, bt, now, rfl, hrecord⟩ := hrecording.event
    obtain ⟨granted, hreplaced⟩ := hrecording.replaced
    have hvisible := hrows.visible_isSome_iff key
    have hinserted : store.inserted = task :: h.world.store.inserted := by
      obtain ⟨-, -, rfl⟩ := Store.replaceTask_eq_some_iff.mp hreplaced
      rfl
    by_cases hkey : task.taskId = key
    · refine Or.inr ⟨?_, ?_⟩
      · have hrecords : h'.world.store.records key = task :: h.world.store.records key := by
          rw [Store.records, hrows.inserted, hinserted,
            List.filter_cons_of_pos (by simpa using hkey), Store.records]
        have hlength : (h₀.world.store.records key).length ≤ (h.world.store.records key).length := by
          rcases hsince with ⟨heq, -⟩ | ⟨hless, -⟩
          · rw [heq]
          · exact hless.le
        rw [hrecords]
        exact Nat.lt_succ_of_le hlength
      · rw [hvisible, ← hkey,
          Store.visible_replaceTask_self hreplaced (isDelete_of_recordOf hrecord)]
        rfl
    · have hrecords : h'.world.store.records key = h.world.store.records key := by
        rw [Store.records, hrows.inserted, hinserted, List.filter_cons_of_neg (by simpa using hkey)]
        rfl
      rw [Store.visible_replaceTask_of_ne hreplaced (Ne.symm hkey)] at hvisible
      simp only [RowSince, hrecords, hvisible] at hsince ⊢
      exact hsince

theorem rowSince_of_reaches {ok : Hub → HubEvent → Prop} {h₀ h : Hub} (key : String)
    (hrun : Reaches Hub.step ok h₀ h) : RowSince h₀ key h :=
  hrun.invariant (fun _ _ _ hsince _ hstep => rowSince_step hsince hstep) (Or.inl ⟨rfl, Iff.rfl⟩)

/-! ### The deletion -/

/-- **When a deletion lasts.** After a successful `delete_task`, at any time behind a maintenance and
before the key is added again, the task is gone exactly when it had no visible row at the deletion
and no failed `add_task` has inserted one since. -/
theorem gone_iff_of_deleted {cfg : ManagerConfig} {httpCfg : HttpConfig} {store : Store} {fs : Fs}
    {start now : Int} {h₀ h₁ h₂ h₃ h₄ : Hub} {params : TaskParams} {bt : TorrentEnv}
    (hreach : Reaches Hub.step anyEvent (startHub cfg httpCfg store fs start) h₀)
    (hdelete : h₀.step (.delete params bt) = some h₁)
    (_hsuccess : (h₀.deleteTask params bt).1.code = .none)
    (hbefore : Reaches Hub.step (fun h event => ¬ AddsTask params.taskKey h event) h₁ h₂)
    (hmaintain : h₂.step (.maintain now) = some h₃)
    (hafter : Reaches Hub.step (fun h event => ¬ AddsTask params.taskKey h event) h₃ h₄) :
    Gone h₄ params.taskKey ↔
      h₀.world.store.visible params.taskKey = none ∧
        h₄.world.store.records params.taskKey = h₀.world.store.records params.taskKey := by
  have hrun : Reaches Hub.step anyEvent h₀ h₄ :=
    (Relation.ReflTransGen.head ⟨_, trivial, hdelete⟩ (hbefore.mono fun _ _ _ => trivial)).trans
      (Relation.ReflTransGen.head ⟨_, trivial, hmaintain⟩ (hafter.mono fun _ _ _ => trivial))
  rw [gone_iff (rooted_of_started (hreach.trans hrun))]
  rcases rowSince_of_reaches params.taskKey hrun with ⟨hsame, hiff⟩ | ⟨hless, hsome⟩
  · rw [← Option.not_isSome_iff_eq_none, ← Option.not_isSome_iff_eq_none, hiff]
    simp [hsame]
  · constructor
    · intro hnone
      rw [hnone] at hsome
      exact absurd hsome (by simp)
    · rintro ⟨-, heq⟩
      rw [heq] at hless
      exact absurd hless (lt_irrefl _)

/-- A download that was added is not gone: its row was visible at the deletion, and is. -/
theorem gone_iff_of_deleted_added :
    ∃ h₀ h₁ h₂ h₃ h₄ : Hub, Reaches Hub.step anyEvent firstHub h₀ ∧
      (h₀.world.store.records "u").length = 1 ∧
      h₀.step (.delete { url := "u" } noTorrents) = some h₁ ∧
      h₁.step (.worker "u" (.enter true fun _ => true) 1) = some h₂ ∧
      h₂.step (.maintain 2) = some h₃ ∧ h₃.step (.sweepHttp 2) = some h₄ ∧ ¬ Gone h₄ "u" := by
  have hrun : ((firstHub.step (.add { url := "u" } {} noTorrents 0)).bind fun h₀ =>
      (h₀.step (.delete { url := "u" } noTorrents)).bind fun h₁ =>
        (h₁.step (.worker "u" (.enter true fun _ => true) 1)).bind fun h₂ =>
          (h₂.step (.maintain 2)).bind fun h₃ => (h₃.step (.sweepHttp 2)).map fun _ =>
            ((h₀.world.store.records "u").length, (h₀.world.store.visible "u").isSome,
              (h₀.deleteTask { url := "u" } noTorrents).1.code)) = some (1, true, .none) := by
    decide +kernel
  simp only [Option.bind_eq_some_iff, Option.map_eq_some_iff, Prod.mk.injEq] at hrun
  obtain ⟨h₀, hadd, h₁, hdelete, h₂, hexit, h₃, hmaintain, h₄, hsweep, hone, hvisible, hsuccess⟩ := hrun
  have hreach : Reaches Hub.step anyEvent firstHub h₀ := .single ⟨_, trivial, hadd⟩
  refine ⟨h₀, h₁, h₂, h₃, h₄, hreach, hone, hdelete, hexit, hmaintain, hsweep, fun hgone => ?_⟩
  have hnone : h₀.world.store.visible "u" = none :=
    ((gone_iff_of_deleted hreach hdelete hsuccess
      (.single ⟨.worker "u" (.enter true fun _ => true) 1, not_false, hexit⟩) hmaintain
      (.single ⟨.sweepHttp 2, not_false, hsweep⟩)).mp hgone).1
  rw [hnone] at hvisible
  exact absurd hvisible (by decide)

/-- A download is added and deleted, and a maintenance runs: it is still there. -/
theorem not_gone_addedDownload :
    ∃ h₀ h₁ h₃ : Hub,
      Reaches Hub.step anyEvent firstHub h₀ ∧
        h₀.step (.delete { url := "u" } noTorrents) = some h₁ ∧
        (h₀.deleteTask { url := "u" } noTorrents).1.code = .none ∧
        h₁.step (.maintain 1) = some h₃ ∧ ¬ Gone h₃ "u" := by
  have hrun : ((firstHub.step (.add { url := "u" } {} noTorrents 0)).bind fun h₀ =>
      (h₀.step (.delete { url := "u" } noTorrents)).bind fun h₁ =>
        (h₁.step (.maintain 1)).map fun h₃ =>
          ((h₀.deleteTask { url := "u" } noTorrents).1.code,
            h₃.world.store.findAll.map Task.taskId)) = some (.none, ["u"]) := by
    decide +kernel
  simp only [Option.bind_eq_some_iff, Option.map_eq_some_iff, Prod.mk.injEq] at hrun
  obtain ⟨h₀, hadd, h₁, hdelete, h₃, hmaintain, hsuccess, hlist⟩ := hrun
  refine ⟨h₀, h₁, h₃, Relation.ReflTransGen.single ⟨_, trivial, hadd⟩, hdelete, hsuccess, hmaintain,
    fun hgone => ?_⟩
  obtain ⟨task, htask, hkey⟩ := List.mem_map.mp (hlist ▸ List.mem_singleton_self "u")
  exact hgone.listed task htask hkey

/-! ### Adding again

`add_task` and the erasure at the head of a scheduler round both wait for two marks of a deleted BT
task, and the alerts about its removal are only logged. -/

/-- The BT task of the key is in the registry and marked deleted. -/
structure Marked (key : String) (h : Hub) : Prop where
  rooted : Rooted h
  marked : ∃ task, h.registry.find? key = some task ∧ task.taskProtocol = .torrent ∧
    task.isDelete = true

theorem marked_step {h h' : Hub} {key : String} {event : HubEvent} (hmarked : Marked key h)
    (hstep : h.step event = some h') (hrestart : ∀ now, event ≠ .restart now) : Marked key h' := by
  obtain ⟨task, hfind, hprotocol, hdelete⟩ := hmarked.marked
  obtain ⟨task', hfind', hchange⟩ := (evolves_step hmarked.rooted hstep hrestart).find? hfind
  refine ⟨rooted_step hmarked.rooted hstep, task', hfind', ?_, ?_⟩
  · rw [hchange.taskProtocol, hprotocol]
  · exact hchange.isDelete_of_isDelete hdelete

theorem marked_of_deleted {h₀ h₁ : Hub} {params : TaskParams} {bt : TorrentEnv} {task : Task}
    (hrooted : Rooted h₀) (hbt : params.protocol ≠ .http)
    (hfound : findTorrentTask params.taskKey
      (loadTask h₀.world.store params.taskKey h₀.registry) = some task)
    (hdelete : h₀.step (.delete params bt) = some h₁)
    (hsuccess : (h₀.deleteTask params bt).1.code = .none) : Marked params.taskKey h₁ := by
  refine ⟨rooted_step hrooted hdelete, ?_⟩
  obtain ⟨hfind, hprotocol⟩ := Option.filter_eq_some_iff.mp hfound
  replace hprotocol : task.taskProtocol = .torrent := of_decide_eq_true hprotocol
  cases Hub.stepped_of_step hdelete with
  | delete =>
      have honly := TorrentEngine.onlyTorrents_findHandle bt params.taskKey params.deleteFiles
        h₀.world
      simp only [Hub.deleteTask, Hub.put, if_neg hbt, TorrentEngine.deleteTask, hfound,
        Option.any_some] at hsuccess ⊢
      cases hmark : task.isDelete with
      | true =>
          simp only [if_true]
          exact ⟨task, hfind, hprotocol, hmark⟩
      | false =>
          simp only [hmark, Bool.false_eq_true, if_false] at hsuccess ⊢
          rcases hout : TorrentEngine.findHandle bt params.taskKey params.deleteFiles h₀.world with
            ⟨handle, w'⟩
          rw [hout] at honly
          simp only [hout] at hsuccess ⊢
          cases hthrows : bt.throws.isSome with
          | true =>
              simp only [hthrows, if_true] at hsuccess
              exact absurd hsuccess (by simp [SubmitResult.failure])
          | false =>
              simp only [Bool.false_eq_true, if_false]
              refine ⟨TorrentEngine.deletedTask task, ?_, hprotocol, rfl⟩
              unfold updateTorrentTask
              rw [KeyedList.find?_modify_self, loadTask_of_find? hfind, hfind]
              simp [hprotocol]

theorem rejected_of_marked {h : Hub} {key : String} (hmarked : Marked key h) (hkey : key ≠ "")
    {params : TaskParams} {name : String} (http : DownloadEnv) {bt : TorrentEnv} (now : Int)
    (hbt : params.protocol ≠ .http)
    (hsource : TorrentEngine.parseSource bt.lib params = some (key, name)) :
    (h.addTask params http bt now).1 = .failure .error "BT 任务正在删除" := by
  obtain ⟨task, hfind, hprotocol, hdelete⟩ := hmarked.marked
  have hunmarked := hmarked.rooted.unmarked task (KeyedList.mem_of_find? hfind)
  have hfound : findTorrentTask key (loadTask h.world.store key h.registry) = some task := by
    rw [loadTask_of_find? hfind]
    exact Option.filter_eq_some_iff.mpr ⟨hfind, decide_eq_true hprotocol⟩
  simp only [Hub.addTask, Hub.put, if_neg hbt, TorrentEngine.addTask, hsource, if_neg hkey, hfound,
    Option.any_some, hdelete, hunmarked]
  rfl

/-- **A deleted BT task is never erased.** Behind a successful `delete_task` of a BT task, in every
state of every run of the process, whatever alerts are handled and however often the maintenance and
the scheduler run, the task is in the registry, no round of the scheduler erases it, and an `add_task`
of its info hash is rejected as still being deleted. -/
theorem rejected_of_deleted {cfg : ManagerConfig} {httpCfg : HttpConfig} {store : Store} {fs : Fs}
    {start : Int} {h₀ h₁ h₂ : Hub} {params : TaskParams} {bt : TorrentEnv} {task : Task}
    (hreach : Reaches Hub.step anyEvent (startHub cfg httpCfg store fs start) h₀)
    (hbt : params.protocol ≠ .http) (hkey : params.taskKey ≠ "")
    (hfound : findTorrentTask params.taskKey
      (loadTask h₀.world.store params.taskKey h₀.registry) = some task)
    (hdelete : h₀.step (.delete params bt) = some h₁)
    (hsuccess : (h₀.deleteTask params bt).1.code = .none)
    (hrun : Reaches Hub.step (fun _ event => ∀ now, event ≠ .restart now) h₁ h₂) :
    (∃ task ∈ h₂.registry, task.taskId = params.taskKey) ∧
      (∃ task ∈ h₂.schedule.registry, task.taskId = params.taskKey) ∧
      ∀ again http bt' now name, again.protocol ≠ .http →
        TorrentEngine.parseSource bt'.lib again = some (params.taskKey, name) →
        (h₂.addTask again http bt' now).1 = .failure .error "BT 任务正在删除" := by
  have hmarked : Marked params.taskKey h₂ :=
    hrun.invariant (fun _ _ _ hinv hrestart hstep => marked_step hinv hstep hrestart)
      (marked_of_deleted (rooted_of_started hreach) hbt hfound hdelete hsuccess)
  obtain ⟨marked, hfind, -, -⟩ := hmarked.marked
  have hid := KeyedList.key_of_find? hfind
  refine ⟨⟨marked, KeyedList.mem_of_find? hfind, hid⟩, ?_,
    fun again http bt' now name hbt' hsource =>
      rejected_of_marked hmarked hkey http now hbt' hsource⟩
  obtain ⟨kept, hkept, hchange⟩ := (evolves_schedule hmarked.rooted).find? hfind
  exact ⟨kept, KeyedList.mem_of_find? hkept, hchange.taskId.trans hid⟩

/-- A link is added and deleted. -/
theorem rejected_of_deleted_link :
    ∃ h₁ : Hub, ∃ task ∈ h₁.registry, task.taskId = oneHash := by
  have hrun : ((firstHub.step (.add oneLink {} oneMagnet 0)).bind fun h₀ =>
      (h₀.step (.delete oneLink oneMagnet)).map fun _ =>
        ((findTorrentTask oneLink.taskKey
            (loadTask h₀.world.store oneLink.taskKey h₀.registry)).isSome,
          (h₀.deleteTask oneLink oneMagnet).1.code)) = some (true, .none) := by
    decide +kernel
  have hkey : oneLink.taskKey = oneHash := by decide
  simp only [Option.bind_eq_some_iff, Option.map_eq_some_iff, Prod.mk.injEq] at hrun
  obtain ⟨h₀, hadd, h₁, hdelete, hsome, hsuccess⟩ := hrun
  obtain ⟨task, hfound⟩ := Option.isSome_iff_exists.mp hsome
  obtain ⟨kept, hmem, hid⟩ := (rejected_of_deleted
    (Relation.ReflTransGen.single ⟨_, trivial, hadd⟩) (by decide) (by decide) hfound hdelete hsuccess
    Relation.ReflTransGen.refl).1
  exact ⟨h₁, kept, hmem, hid.trans hkey⟩

/-- The link is deleted, the alerts of its removal are handled, the maintenance and a round of the
scheduler run, and it cannot be added again. -/
theorem not_erased_link :
    ∃ h₀ h₁ h₂ : Hub, Reaches Hub.step anyEvent firstHub h₀ ∧
      h₀.step (.delete { oneLink with deleteFiles := true } oneMagnet) = some h₁ ∧
      (h₀.deleteTask { oneLink with deleteFiles := true } oneMagnet).1.code = .none ∧
      play Hub.step anyEvent h₁ [.libtorrent [] [.logged, .logged], .alert {}, .alert {}, .alert {},
        .maintain 1, .schedule] = some h₂ ∧
      h₂.world.alerts = [] ∧ (h₂.registry.find? oneHash).isSome = true ∧
      (h₂.addTask oneLink {} oneMagnet 2).1 = .failure .error "BT 任务正在删除" := by
  have hrun : ((play Hub.step anyEvent firstHub [.add oneLink {} oneMagnet 0]).bind fun h₀ =>
      (h₀.step (.delete { oneLink with deleteFiles := true } oneMagnet)).bind fun h₁ =>
        (play Hub.step anyEvent h₁ [.libtorrent [] [.logged, .logged], .alert {}, .alert {},
          .alert {}, .maintain 1, .schedule]).map fun h₂ =>
            ((h₀.deleteTask { oneLink with deleteFiles := true } oneMagnet).1.code,
              h₂.world.alerts, (h₂.registry.find? oneHash).isSome,
              (h₂.addTask oneLink {} oneMagnet 2).1)) =
      some (.none, [], true, .failure .error "BT 任务正在删除") := by
    decide +kernel
  simp only [Option.bind_eq_some_iff, Option.map_eq_some_iff, Prod.mk.injEq] at hrun
  obtain ⟨h₀, hadd, h₁, hdelete, h₂, hplay, hsuccess, halerts, hthere, hrejected⟩ := hrun
  exact ⟨h₀, h₁, h₂, reaches_of_play hadd, hdelete, hsuccess, hplay, halerts, hthere, hrejected⟩

end DownloadWrapper
