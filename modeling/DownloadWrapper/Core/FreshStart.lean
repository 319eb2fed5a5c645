import DownloadWrapper.Core.Rooted
import DownloadWrapper.Http.PartInvariant

/-!
# Starting afresh

Resume data lies in two tables of its own, under the key of its task. Replacing the task's record
leaves them alone, so what the next incarnation of the task is resumed from may be what the last one
left. It is its own exactly when nothing was left.
-/

namespace DownloadWrapper

open Transition

inductive ResumeItem where
  | archive (row : ResumeRow)
  | torrent (row : BtResume)

namespace ResumeItem

def key : ResumeItem → String
  | archive row => row.naturalKey
  | torrent row => row.infoHash

def protocol : ResumeItem → Protocol
  | archive _ => .http
  | torrent _ => .torrent

def Of (item : ResumeItem) (task : Task) : Prop :=
  item.key = task.taskId ∧ item.protocol = task.taskProtocol

end ResumeItem

namespace Store

def Holds (s : Store) : ResumeItem → Prop
  | .archive row => row ∈ s.resumeData
  | .torrent row => row ∈ s.btResume

def NoMore (s s' : Store) : Prop := ∀ item, s'.Holds item → s.Holds item

theorem NoMore.refl (s : Store) : NoMore s s := fun _ => id

theorem NoMore.trans {s s' s'' : Store} (h : NoMore s s') (h' : NoMore s' s'') : NoMore s s'' :=
  fun item hitem => h item (h' item hitem)

theorem NoMore.of_eq {s s' : Store} (h : s' = s) : NoMore s s' := h ▸ .refl s

theorem NoMore.of_tables {s s' : Store} (hdata : s'.resumeData = s.resumeData)
    (hbt : s'.btResume = s.btResume) : NoMore s s' := by
  intro item hitem
  cases item with
  | archive row =>
      rw [Holds, hdata] at hitem
      exact hitem
  | torrent row =>
      rw [Holds, hbt] at hitem
      exact hitem

theorem noMore_replaceTask {task : Task} {granted : Bool} {s s' : Store}
    (h : s.replaceTask task granted = some s') : NoMore s s' := by
  obtain ⟨-, -, rfl⟩ := replaceTask_eq_some_iff.mp h
  exact .of_tables rfl rfl

theorem noMore_remove (clientId : String) (protocol : Protocol) (naturalKey : String) (s : Store) :
    NoMore s (s.remove clientId protocol naturalKey) := by
  intro item hitem
  cases item with
  | archive row => exact (KeyedList.mem_filter.mp hitem).1
  | torrent row => exact hitem

theorem noMore_saveFiles (files : List TaskFile) (s : Store) : NoMore s (s.saveFiles files) := by
  rw [saveFiles]
  generalize files.takeWhile (fun file => file.taskId ≠ "" && 0 ≤ file.fileIndex) = valid
  induction valid generalizing s with
  | nil => exact .refl s
  | cons file valid ih =>
      have hone : NoMore s (s.saveFile file) := by
        rw [saveFile]
        split
        · exact .of_tables rfl rfl
        · split
          · exact .refl s
          · exact .of_tables rfl rfl
      exact hone.trans (ih _)

theorem holds_saveResume {clientId naturalKey : String} {protocol : Protocol} {data : Archive}
    {s : Store} {item : ResumeItem}
    (h : (s.saveResume clientId protocol naturalKey data).Holds item) :
    s.Holds item ∨ item = .archive ⟨clientId, protocol, naturalKey, data⟩ := by
  cases item with
  | archive row =>
      rcases KeyedList.mem_insert.mp h with rfl | ⟨hold, -⟩
      · exact Or.inr rfl
      · exact Or.inl hold
  | torrent row => exact Or.inl h

theorem holds_saveBtResume {row : BtResume} {s : Store} {item : ResumeItem}
    (h : (s.saveBtResume row).Holds item) : s.Holds item ∨ item = .torrent row := by
  rw [saveBtResume] at h
  split at h
  · exact Or.inl h
  · cases item with
    | archive other => exact Or.inl h
    | torrent other =>
        rcases KeyedList.mem_insert.mp h with rfl | ⟨hold, -⟩
        · exact Or.inr rfl
        · exact Or.inl hold

end Store

inductive Saves (h : Hub) : HubEvent → ResumeItem → Prop
  | archive {url : String} {event : Event} {now : Int} {c : HttpContext} {worker : Worker}
      {data : Archive} (hfind : h.world.contexts.find? url = some c)
      (hstep : { c.worker with fs := h.world.fs, emitted := none }.step h.httpCfg event = some worker)
      (hemitted : worker.emitted = some data) :
      Saves h (.worker url event now) (.archive ⟨c.worker.task.clientId, .http, url, data⟩)
  | torrent {acquire : AcquireEnv} {id : Nat} {data : List Byte} {alerts : List Alert}
      (halerts : h.world.alerts = .saveResumeData id data :: alerts) :
      Saves h (.alert acquire) (.torrent ⟨h.world.session.hexOf id, data⟩)

/-- In the step `find_handle` is asked for the torrent of an info hash and may rebuild it. -/
inductive AsksHandle (h : Hub) : HubEvent → String → Prop
  | add {params : TaskParams} {http : DownloadEnv} {bt : TorrentEnv} {now : Int} {record : Task}
      (hprotocol : params.protocol ≠ .http) (hrecord : recordOf h.cfg bt.lib params now = some record)
      (hreplaced : (h.addTask params http bt now).2.world.store.inserted =
        record :: h.world.store.inserted) :
      AsksHandle h (.add params http bt now) record.taskId
  | pause {params : TaskParams} {bt : TorrentEnv} (hprotocol : params.protocol ≠ .http) :
      AsksHandle h (.pause params bt) params.taskKey
  | pauseNext {bt : TorrentEnv} {params : TaskParams} {rest : List TaskParams}
      (hnext : h.toPause = params :: rest) (hprotocol : params.protocol ≠ .http) :
      AsksHandle h (.pauseNext bt) params.taskKey
  | delete {params : TaskParams} {bt : TorrentEnv} (hprotocol : params.protocol ≠ .http)
      (hfiles : params.deleteFiles = true) : AsksHandle h (.delete params bt) params.taskKey
  | admission {http : DownloadEnv} {bt : TorrentEnv} {now : Int} {call : Call}
      (hcall : call ∈ (h.pass http bt now).1.calls) (hprotocol : call.task.taskProtocol ≠ .http) :
      AsksHandle h (.admission http bt now) call.task.taskId

/-- The step reads the row to resume a download from it: `do_resume` hands it to `start_download`,
`find_handle` builds the torrent from it. -/
inductive Consumes (h : Hub) : HubEvent → ResumeItem → Prop
  | doResume {http : DownloadEnv} {bt : TorrentEnv} {now : Int} {call : Call} {data : Archive}
      (hcall : call ∈ (h.pass http bt now).1.calls) (hkind : call.kind = .resume)
      (hprotocol : call.task.taskProtocol = .http)
      (hload : h.world.store.loadResume (paramsOf h.cfg call.task).clientId .http call.task.taskId =
        some data) :
      Consumes h (.admission http bt now)
        (.archive ⟨(paramsOf h.cfg call.task).clientId, .http, call.task.taskId, data⟩)
  | findHandle {event : HubEvent} {infoHash : String} {data : List Byte}
      (hasks : AsksHandle h event infoHash) (hlookup : h.world.session.lookup infoHash = none)
      (hfind : h.world.store.findBtResume infoHash = some data) (hdata : data ≠ []) :
      Consumes h event (.torrent ⟨infoHash, data⟩)

theorem Consumes.holds {h : Hub} {event : HubEvent} {item : ResumeItem} (hreads : Consumes h event item) :
    h.world.store.Holds item := by
  cases hreads with
  | doResume hcall hkind hprotocol hload =>
      obtain ⟨row, hrow, rfl⟩ := Option.map_eq_some_iff.mp hload
      have hkey := KeyedList.key_of_find? hrow
      simp only [ResumeRow.key, Prod.mk.injEq] at hkey
      rw [← hkey.1, ← hkey.2.1, ← hkey.2.2]
      exact KeyedList.mem_of_find? hrow
  | findHandle hasks hlookup hfind hdata =>
      rw [Store.findBtResume] at hfind
      split at hfind
      · simp at hfind
      obtain ⟨row, hrow, rfl⟩ := Option.map_eq_some_iff.mp hfind
      rw [← KeyedList.key_of_find? hrow]
      exact KeyedList.mem_of_find? hrow

/-! ### Where a row comes from -/

theorem noMore_maintain (now : Int) (registry : Registry) (store : Store) :
    Store.NoMore store (maintain now registry store).2 := by
  have hone : ∀ (s : Store) (task : Task), Store.NoMore s (persistTask now s task) := by
    intro s task
    simp only [persistTask]
    split
    · exact .refl s
    split
    · split
      · split
        · exact .refl s
        · exact .of_tables rfl rfl
      · exact Store.noMore_remove _ _ _ s
    · split <;> exact .of_tables rfl rfl
  rw [maintain]
  simp only
  induction registry.entries generalizing store with
  | nil => exact .refl store
  | cons task tasks ih => exact (hone store task).trans (ih _)

theorem noMore_handleParsed (env : AcquireEnv) (id : Nat) (registry : Registry) (w : World) :
    Store.NoMore w.store (handleParsed env id registry w).2.store := by
  have hworld : ∀ (t : Torrent) (task : Task),
      Store.NoMore w.store (parsedWorld env t task w).store := by
    intro t task
    simp only [parsedWorld]
    split
    · exact .refl _
    cases t.info with
    | none =>
        simp only
        split <;> exact .refl _
    | some info =>
        simp only
        split <;> exact Store.noMore_saveFiles _ _
  rw [handleParsed]
  split
  · exact .refl _
  split
  · exact .refl _
  simp only
  split
  · exact .refl _
  · exact hworld _ _

theorem holds_handleAlert {env : AcquireEnv} {alert : Alert} {registry : Registry} {w : World}
    {item : ResumeItem} (h : (handleAlert env alert registry w).2.store.Holds item) :
    w.store.Holds item ∨
      ∃ id data, alert = .saveResumeData id data ∧ item = .torrent ⟨w.session.hexOf id, data⟩ := by
  cases alert with
  | addTorrent id infoHash magnet error =>
      left
      cases error with
      | some code => exact h
      | none =>
          simp only [handleAlert] at h
          split at h
          · exact noMore_handleParsed env id registry w item h
          · exact h
  | metadataReceived id => exact Or.inl (noMore_handleParsed env id registry w item h)
  | storageMoved id => exact Or.inl (noMore_handleParsed env id registry w item h)
  | pieceFinished id piece =>
      left
      simp only [handleAlert] at h
      split at h
      · exact h
      · split at h <;> exact h
  | fileCompleted id index =>
      left
      simp only [handleAlert] at h
      split at h <;> exact h
  | saveResumeData id data =>
      simp only [handleAlert] at h
      split at h
      · split at h
        · simp only at h
          split at h
          · exact Or.inl h
          · exact (Store.holds_saveBtResume h).imp_right fun heq => ⟨id, data, rfl, heq⟩
        · exact Or.inl h
      · exact Or.inl h
  | _ => exact Or.inl h

theorem noMore_addTask {h : Hub} {params : TaskParams} {http : DownloadEnv} {bt : TorrentEnv}
    {now : Int} : Store.NoMore h.world.store (h.addTask params http bt now).2.world.store := by
  simp only [Hub.addTask, Hub.put]
  split
  · have hstarted := HttpEngine.started_startDownload h.cfg http now params none true h.registry
      h.world
    simp only [HttpEngine.addTask]
    cases hout : HttpEngine.startDownload h.cfg http now params none true h.registry h.world with
    | mk result rest =>
        cases rest with
        | mk registry' w' =>
            rw [hout] at hstarted
            cases hstarted with
            | recorded worker hurl hpath hreplace hdeleting hidle hfs hstore =>
                exact Store.noMore_replaceTask hstore
            | _ => exact .refl _
  · have hadded := TorrentEngine.added_addTask h.cfg bt now params h.registry h.world
    cases hout : TorrentEngine.addTask h.cfg bt now params h.registry h.world with
    | mk result rest =>
        cases rest with
        | mk registry' w' =>
            rw [hout] at hadded
            cases hadded with
            | kept hregistry => exact .refl _
            | recorded infoHash name hsource hstore hw hregistry =>
                exact (Store.noMore_replaceTask hstore).trans (.of_eq hw.1)

/-- **A row is there because it was there before, or the step saved it.** -/
theorem holds_step {h h' : Hub} {event : HubEvent} (hstep : h.step event = some h')
    {item : ResumeItem} (hitem : h'.world.store.Holds item) :
    h.world.store.Holds item ∨ Saves h event item := by
  have hsame : ∀ {s : Store}, s = h.world.store → s.Holds item → h.world.store.Holds item := by
    rintro s rfl
    exact id
  cases Hub.stepped_of_step hstep with
  | add hfree hjoined => exact Or.inl (noMore_addTask item hitem)
  | pause => exact Or.inl (hsame store_pauseTask hitem)
  | resume hfree => exact Or.inl (hsame (by rw [world_resumeTask]) hitem)
  | delete => exact Or.inl (hsame store_deleteTask hitem)
  | schedule hfree =>
      refine Or.inl (hsame ?_ hitem)
      simp only [Hub.schedule]
      split <;> rfl
  | admission hadmitting hjoined => exact Or.inl (hsame store_admission hitem)
  | pauseNext hnext => exact Or.inl (hsame store_pauseTask hitem)
  | maintain hfree => exact Or.inl (noMore_maintain _ _ _ item hitem)
  | sweepTorrent hfree =>
      exact Or.inl (hsame (TorrentEngine.onlyTorrents_sweep h.cfg h.registry h.world).store hitem)
  | @worker url event now w hown hworker =>
      simp only [HttpEngine.stepWorker] at hworker
      split at hworker
      · simp at hworker
      next c hfind =>
        split at hworker
        · simp at hworker
        next worker hworkerStep =>
          obtain rfl := Option.some.inj hworker
          simp only at hitem
          cases hemitted : worker.emitted with
          | none =>
              rw [hemitted] at hitem
              exact Or.inl hitem
          | some data =>
              rw [hemitted] at hitem
              rcases Store.holds_saveResume hitem with hold | rfl
              · exact Or.inl hold
              · exact Or.inr (.archive hfind hworkerStep hemitted)
  | @alert acquire alert alerts hfree halerts =>
      rcases holds_handleAlert hitem with hold | ⟨id, data, rfl, rfl⟩
      · exact Or.inl hold
      · exact Or.inr (.torrent halerts)
  | sweepHttp | libtorrent | disk | configKept | configApplied | restart => exact Or.inl hitem

/-! ### Since the replacement -/

def SavedSince (h₁ h : Hub) (item : ResumeItem) : Prop :=
  ∃ before after event, Reaches Hub.step anyEvent h₁ before ∧ before.step event = some after ∧
    Saves before event item ∧ Reaches Hub.step anyEvent after h

theorem SavedSince.step {h₁ h h' : Hub} {event : HubEvent} {item : ResumeItem}
    (hsince : SavedSince h₁ h item) (hstep : h.step event = some h') : SavedSince h₁ h' item := by
  obtain ⟨before, after, saving, hbefore, hsaving, hsaves, hafter⟩ := hsince
  exact ⟨before, after, saving, hbefore, hsaving, hsaves, hafter.tail ⟨event, trivial, hstep⟩⟩

theorem savedSince_of_reaches {h₁ h : Hub} {task : Task}
    (hclear : ∀ item, h₁.world.store.Holds item → ¬ item.Of task)
    (hrun : Reaches Hub.step anyEvent h₁ h) :
    ∀ item, h.world.store.Holds item → item.Of task → SavedSince h₁ h item := by
  induction hrun with
  | refl =>
      intro item hitem hof
      exact absurd hof (hclear item hitem)
  | tail hrun hnext ih =>
      obtain ⟨event, -, hstep⟩ := hnext
      intro item hitem hof
      rcases holds_step hstep hitem with hold | hsaves
      · exact (ih item hold hof).step hstep
      · exact ⟨_, _, event, hrun, hstep, hsaves, .refl⟩

/-- The `add_task` itself, and every later step, resumes the task from what was saved since. -/
def StartsFresh (h₀ : Hub) (event : HubEvent) (task : Task) : Prop :=
  (∀ item, Consumes h₀ event item → ¬ item.Of task) ∧
    ∀ h₁, h₀.step event = some h₁ → ∀ h, Reaches Hub.step anyEvent h₁ h →
      ∀ later item, Consumes h later item → item.Of task → SavedSince h₁ h item

/-- **A re-added task starts afresh** when its last incarnation left no resume data. -/
theorem startsFresh_of_clear {h₀ : Hub} {params : TaskParams} {http : DownloadEnv} {bt : TorrentEnv}
    {now : Int} {record : Task} (_hrecord : recordOf h₀.cfg bt.lib params now = some record)
    (hclear : ∀ item, h₀.world.store.Holds item → ¬ item.Of record) :
    StartsFresh h₀ (.add params http bt now) record := by
  refine ⟨fun item hreads => hclear item hreads.holds, ?_⟩
  intro h₁ hadd h hrun later item hreads hof
  refine savedSince_of_reaches ?_ hrun item hreads.holds hof
  intro old hold
  rcases holds_step hadd hold with hbefore | hsaves
  · exact hclear old hbefore
  · cases hsaves

/-- A download saves its archive; another is added and deleted before its first byte, its thread ends,
and the maintenance takes its context away. -/
def deletedEarly : List HubEvent :=
  .add { url := "http://g/f.bin" } {} noTorrents 0 ::
    (splitRun.map fun event => .worker "http://g/f.bin" event 0) ++
      [.add { url := "http://h/f.bin" } {} noTorrents 0, .delete { url := "http://h/f.bin" } noTorrents,
        .worker "http://h/f.bin" (.enter true fun _ => true) 1, .maintain 2, .sweepHttp 2]

/-- It is added again: its record is replaced, and it does not start from the other's archive. -/
theorem startsFresh_of_clear_deleted :
    ∃ h₀ record, Reaches Hub.step anyEvent (startHub oneSlot plainCfg {} (fun _ => none) 0) h₀ ∧
      h₀.world.store.inserted.map Task.taskId = ["http://h/f.bin", "http://g/f.bin"] ∧
      h₀.world.store.resumeData.entries.map ResumeRow.naturalKey = ["http://g/f.bin"] ∧
      record.taskId = "http://h/f.bin" ∧
      (h₀.addTask { url := "http://h/f.bin" } {} noTorrents 3).1.code = .none ∧
      (h₀.addTask { url := "http://h/f.bin" } {} noTorrents 3).2.world.store.inserted =
        record :: h₀.world.store.inserted ∧
      StartsFresh h₀ (.add { url := "http://h/f.bin" } {} noTorrents 3) record := by
  let record := HttpEngine.newTask { url := "http://h/f.bin" } "/d" 3
  have hplayed : (play Hub.step anyEvent (startHub oneSlot plainCfg {} (fun _ => none) 0)
      deletedEarly).map (fun h₀ =>
        let out := h₀.addTask { url := "http://h/f.bin" } {} noTorrents 3
        ((h₀.world.store.inserted.map Task.taskId,
          h₀.world.store.resumeData.entries.map ResumeRow.naturalKey, h₀.world.store.btResume.entries),
          recordOf h₀.cfg noTorrents.lib { url := "http://h/f.bin" } 3, out.1.code,
          decide (out.2.world.store.inserted = record :: h₀.world.store.inserted))) =
      some ((["http://h/f.bin", "http://g/f.bin"], ["http://g/f.bin"], []), some record, .none,
        true) := by
    decide +kernel
  obtain ⟨h₀, hrun, hvalues⟩ := Option.map_eq_some_iff.mp hplayed
  simp only [Prod.mk.injEq, decide_eq_true_eq] at hvalues
  obtain ⟨⟨hinserted, harchives, htorrents⟩, hrecord, hsuccess, hreplaced⟩ := hvalues
  refine ⟨h₀, record, reaches_of_play hrun, hinserted, harchives, rfl, hsuccess, hreplaced,
    startsFresh_of_clear hrecord fun item hitem hof => ?_⟩
  cases item with
  | archive row =>
      have hkey := List.mem_map_of_mem (f := ResumeRow.naturalKey) (KeyedList.mem_def.mp hitem)
      rw [harchives, List.mem_singleton] at hkey
      exact absurd (hkey.symm.trans hof.1) (by decide)
  | torrent row =>
      have hrow := KeyedList.mem_def.mp hitem
      rw [htorrents] at hrow
      exact absurd hrow List.not_mem_nil

theorem not_startsFresh_of_left {h₀ : Hub} {params : TaskParams} {http : DownloadEnv}
    {bt : TorrentEnv} {now : Int} {record : Task} {data : List Byte} (hprotocol : params.protocol ≠ .http)
    (hrecord : recordOf h₀.cfg bt.lib params now = some record)
    (hreplaced : (h₀.addTask params http bt now).2.world.store.inserted =
      record :: h₀.world.store.inserted)
    (hlookup : h₀.world.session.lookup record.taskId = none)
    (hleft : h₀.world.store.findBtResume record.taskId = some data) (hdata : data ≠ []) :
    ¬ StartsFresh h₀ (.add params http bt now) record := by
  intro hfresh
  have htorrent : record.taskProtocol = .torrent := by
    rw [recordOf, if_neg hprotocol] at hrecord
    obtain ⟨source, -, rfl⟩ := Option.map_eq_some_iff.mp hrecord
    rfl
  exact hfresh.1 _ (.findHandle (.add hprotocol hrecord hreplaced) hlookup hleft hdata)
    ⟨rfl, htorrent.symm⟩

def seeded : Torrent := { oneTorrent with seeding := true, totalDone := 1, allTimeUpload := 5 }

def movedLink : TaskParams := { oneLink with savePath := "/e" }

def oneResumed : TorrentEnv :=
  { oneMagnet with rebuilt := fun
      | .resumeData => some { oneTorrent with savePath := "/d" }
      | source => oneMagnet.rebuilt source }

/-- A torrent leaves its data behind when it has seeded enough; its link, added again with another
save path, is rebuilt from that data, with the old path. -/
theorem not_startsFresh_seeded :
    ∃ h₀, Reaches Hub.step anyEvent firstHub h₀ ∧
      (h₀.addTask movedLink {} oneResumed 1).1.code = .none ∧
      (h₀.addTask movedLink {} oneResumed 1).2.world.session.map Torrent.savePath = ["/d"] ∧
      ¬ StartsFresh h₀ (.add movedLink {} oneResumed 1)
        (TorrentEngine.newTask movedLink oneHash "" 1) := by
  have hrun : (play Hub.step anyEvent firstHub
      [.add oneLink {} oneMagnet 0, .alert {}, .libtorrent [seeded] [.saveResumeData 0 [1]],
        .alert {}, .sweepTorrent]).map (fun h₀ =>
      ((h₀.addTask movedLink {} oneResumed 1).1.code,
        (h₀.addTask movedLink {} oneResumed 1).2.world.session.map Torrent.savePath,
        h₀.world.store.findBtResume oneHash,
        (h₀.world.session.lookup oneHash).isNone && decide ((h₀.addTask movedLink {} oneResumed 1).2.world.store.inserted =
          TorrentEngine.newTask movedLink oneHash "" 1 :: h₀.world.store.inserted))) =
      some (.none, ["/d"], some [1], true) := by
    decide +kernel
  simp only [Option.map_eq_some_iff, Prod.mk.injEq, Bool.and_eq_true, decide_eq_true_eq] at hrun
  obtain ⟨h₀, hplay, hsuccess, hpath, hleft, hlookup, hreplaced⟩ := hrun
  refine ⟨h₀, reaches_of_play hplay, hsuccess, hpath, ?_⟩
  refine not_startsFresh_of_left (by decide) ?_ hreplaced ?_ hleft (by decide)
  · rfl
  · exact Option.isNone_iff_eq_none.mp hlookup

end DownloadWrapper
