import DownloadWrapper.Http.Replica

/-!
# The worker of a replica

The invariant of one worker: until the probe is finalized nothing is laid out and nothing saved;
afterwards the finalization has failed for good, or the file and the last archive are replicas of one
version. It rests on what the connections bring, which is put as a hypothesis here.
-/

namespace DownloadWrapper

open ByteFile TaskCtx

variable {V : Type*} {R : Resource V} {v : V} {stored : Option Archive} {w w' : Worker}

/-- The file is a replica of a version, and so is what was saved of it last. -/
def Genuine (R : Resource V) (v : V) (stored : Option Archive) (w : Worker) : Prop :=
  ∃ bytes, w.fs.bytes? w.task.fullFilePath = some bytes ∧ Replicates R v w.task bytes ∧
    ∀ a, w.emitted.or stored = some a → Archived R v w.task.fullFilePath bytes a

structure Vacant (stored : Option Archive) (w : Worker) : Prop where
  unprobed : w.task.Unprobed
  unsaved : w.emitted.or stored = none

structure Sourced (R : Resource V) (stored : Option Archive) (w : Worker) : Prop where
  ctxs : w.task.partCtx.length = w.task.parts.length
  probing : w.task.probing → Vacant stored w ∧ ∀ p ∈ w.task.parts, p.status ≠ .completed
  filed : w.task.probing = false → Stuck w ∧ Vacant stored w ∨ ∃ v, Genuine R v stored w
  finished : w.task.status = .completed →
    (w.phase = .closing ∨ w.phase = .ending ∨ w.phase = .exited) ∧
      ∀ p ∈ w.task.parts, p.status = .completed

theorem Genuine.of_steady (h : Genuine R v stored w) (hs : Steady w.task w'.task)
    (hetag : w.task.etag ≠ "" → w'.task.etag = w.task.etag) (hfs : w'.fs = w.fs)
    (hemitted : w'.emitted = w.emitted) : Genuine R v stored w' := by
  obtain ⟨bytes, hbytes, hreplica, hsaved⟩ := h
  have hsame := hetag (hreplica.etag ▸ R.etag_ne v)
  refine ⟨bytes, ?_, hreplica.of_steady hs hsame, fun a ha => ?_⟩
  · rw [hfs, hs.fullFilePath, hbytes]
  · rw [hs.fullFilePath]
    exact hsaved a (hemitted ▸ ha)

theorem Vacant.of_quiet (h : Vacant stored w) (hq : Quiet w.task w'.task)
    (hemitted : w'.emitted = w.emitted) : Vacant stored w' :=
  ⟨h.unprobed.of_quiet hq, hemitted ▸ h.unsaved⟩

namespace Sourced

theorem of_steady (h : Sourced R stored w) (hs : Steady w.task w'.task)
    (hetag : w.task.etag ≠ "" → w'.task.etag = w.task.etag) (hfs : w'.fs = w.fs)
    (hemitted : w'.emitted = w.emitted) (hexited : w.phase = .exited → w'.phase = .exited)
    (hlate : w.phase = .closing ∨ w.phase = .ending ∨ w.phase = .exited →
      (w'.phase = .closing ∨ w'.phase = .ending ∨ w'.phase = .exited) ∧
        w'.task.parts = w.task.parts) : Sourced R stored w' where
  ctxs := by rw [hs.ctxs, hs.toQuiet.length, h.ctxs]
  probing hprobing := by
    obtain ⟨hvacant, hopen⟩ := h.probing (hs.probing ▸ hprobing)
    exact ⟨hvacant.of_quiet hs.toQuiet hemitted, hvacant.unprobed.open_of_steady hopen hs⟩
  filed hprobing := by
    rcases h.filed (hs.probing ▸ hprobing) with ⟨hstuck, hvacant⟩ | ⟨v, hgenuine⟩
    · refine Or.inl ⟨⟨fun hcompleted => hstuck.status (hs.status hcompleted), ?_⟩,
        hvacant.of_quiet hs.toQuiet hemitted⟩
      exact hstuck.stuck.imp hs.failed hexited
    · exact Or.inr ⟨v, hgenuine.of_steady hs hetag hfs hemitted⟩
  finished hcompleted := by
    obtain ⟨hphase, hparts⟩ := h.finished (hs.status hcompleted)
    obtain ⟨hphase', hsame⟩ := hlate hphase
    exact ⟨hphase', hsame ▸ hparts⟩

theorem of_steady_early (h : Sourced R stored w) (hs : Steady w.task w'.task)
    (hetag : w.task.etag ≠ "" → w'.task.etag = w.task.etag) (hfs : w'.fs = w.fs)
    (hemitted : w'.emitted = w.emitted)
    (hearly : ¬ (w.phase = .closing ∨ w.phase = .ending ∨ w.phase = .exited)) :
    Sourced R stored w' :=
  h.of_steady hs hetag hfs hemitted (fun hexited => absurd (Or.inr (Or.inr hexited)) hearly)
    fun hlate => absurd hlate hearly

theorem of_same_parts (h : Sourced R stored w) (hq : Quiet w.task w'.task)
    (hparts : w'.task.parts = w.task.parts) (hetag : w'.task.etag = w.task.etag)
    (hstatus : w'.task.status = .completed → w.task.status = .completed) (hfs : w'.fs = w.fs)
    (hemitted : w'.emitted = w.emitted) (hexited : w.phase = .exited → w'.phase = .exited)
    (hlate : w.phase = .closing ∨ w.phase = .ending ∨ w.phase = .exited →
      w'.phase = .closing ∨ w'.phase = .ending ∨ w'.phase = .exited) : Sourced R stored w' :=
  h.of_steady (hq.steady hparts hstatus) (fun _ => hetag) hfs hemitted hexited
    fun h => ⟨hlate h, hparts⟩

theorem of_filed (hctxs : w.task.partCtx.length = w.task.parts.length)
    (hprobing : w.task.probing = false) (hstatus : w.task.status ≠ .completed)
    (hfiled : Stuck w ∧ Vacant stored w ∨ ∃ v, Genuine R v stored w) : Sourced R stored w :=
  ⟨hctxs, fun h => absurd (hprobing ▸ h) (by simp), fun _ => hfiled, fun h => absurd h hstatus⟩

theorem pausedExit (h : Sourced R stored w) :
    Sourced R stored { w.modifyTask fun t => { t with status := .paused } with phase := .exited } where
  ctxs := h.ctxs
  probing hprobing := by
    obtain ⟨⟨hunprobed, hunsaved⟩, hopen⟩ := h.probing hprobing
    exact ⟨⟨⟨hunprobed.extents, hunprobed.ctxs, hunprobed.supportRange⟩, hunsaved⟩, hopen⟩
  filed hprobing := by
    rcases h.filed hprobing with ⟨-, hunprobed, hunsaved⟩ | ⟨v, bytes, hbytes, hreplica, hsaved⟩
    · exact Or.inl ⟨⟨by simp [Worker.modifyTask], Or.inr rfl⟩,
        ⟨⟨hunprobed.extents, hunprobed.ctxs, hunprobed.supportRange⟩, hunsaved⟩⟩
    · exact Or.inr ⟨v, bytes, hbytes,
        ⟨hreplica.etag, hreplica.path, hreplica.full, hreplica.copied⟩, hsaved⟩
  finished hcompleted := absurd hcompleted (by simp [Worker.modifyTask])

theorem emitResume (h : Sourced R stored w) (hprobing : w.task.probing = false)
    (hgenuine : ∃ v, Genuine R v stored w) : Sourced R stored w.emitResume where
  ctxs := h.ctxs
  probing hp := absurd (hprobing ▸ hp) (by simp)
  filed _ := by
    obtain ⟨v, bytes, hbytes, hreplica, -⟩ := hgenuine
    refine Or.inr ⟨v, bytes, hbytes, hreplica, fun a ha => ?_⟩
    obtain rfl := Option.some.inj ha
    exact hreplica.archived
  finished := h.finished

theorem genuine_of_supportRange (h : Sourced R stored w) (hsupport : w.task.supportRange ≠ 0) :
    w.task.probing = false ∧ ∃ v, Genuine R v stored w := by
  have hprobing : w.task.probing = false := by
    rw [← Bool.not_eq_true]
    exact fun hprobing => hsupport (h.probing hprobing).1.unprobed.supportRange
  refine ⟨hprobing, (h.filed hprobing).resolve_left ?_⟩
  exact fun hvacant => hsupport hvacant.2.unprobed.supportRange

theorem maybeEmitResume (h : Sourced R stored w) : Sourced R stored w.maybeEmitResume := by
  rw [Worker.maybeEmitResume]
  split
  · exact h
  next hready =>
    have hnoted : Sourced R stored (w.modifyTask fun t => { t with lastEmitDone := t.totalDone }) :=
      h.of_same_parts ⟨rfl, rfl, rfl, rfl, rfl, fun _ => rfl, id⟩ rfl rfl id rfl rfl id id
    obtain ⟨hprobing, hgenuine⟩ :=
      hnoted.genuine_of_supportRange fun h0 => hready (Or.inl h0)
    exact hnoted.emitResume hprobing hgenuine

theorem probing_eq_false (h : Sourced R stored w) (hall : ∀ p ∈ w.task.parts, p.status = .completed) :
    w.task.probing = false := by
  rw [← Bool.not_eq_true]
  intro hprobing
  obtain ⟨hvacant, hopen⟩ := h.probing hprobing
  exact hvacant.unprobed.not_all_completed hopen hall

theorem genuine_of_completed (h : Sourced R stored w) (hcompleted : w.task.status = .completed) :
    w.task.probing = false ∧ ∃ v, Genuine R v stored w := by
  obtain ⟨-, hall⟩ := h.finished hcompleted
  have hprobing := h.probing_eq_false hall
  exact ⟨hprobing, (h.filed hprobing).resolve_left fun hstuck => hstuck.1.status hcompleted⟩

/-! ### The thread's own steps -/

theorem enter (h : Sourced R stored w) (multiOk : Bool) (built : Nat → Bool)
    (hphase : w.phase = .created) : Sourced R stored (w.enter multiOk built) := by
  have hearly : ¬ (w.phase = .closing ∨ w.phase = .ending ∨ w.phase = .exited) := by simp [hphase]
  rw [Worker.enter]
  split
  · exact h.of_steady_early (.refl _) (fun _ => rfl) rfl rfl hearly
  split
  · rw [Worker.maybeEmitResume_withPhase]
    exact h.pausedExit.maybeEmitResume
  split
  · exact h.of_steady_early (Worker.steady_threadFailed _) (fun _ => rfl) rfl rfl hearly
  · refine h.of_steady_early ?_ ?_ (by simp) (by simp) hearly
    · rw [Worker.loopHead_task]
      exact Worker.steady_spawnNewParts built w
    · rw [Worker.loopHead_task]
      exact fun _ => Worker.spawnNewParts_etag built w

theorem leave (h : Sourced R stored w) (hphase : w.phase = .leaving) : Sourced R stored w.leave := by
  have hearly : ¬ (w.phase = .closing ∨ w.phase = .ending ∨ w.phase = .exited) := by simp [hphase]
  have hclean : Sourced R stored (w.modifyTask Worker.cleanupAll) :=
    h.of_steady_early (Worker.steady_cleanupAll _) (fun _ => rfl) rfl rfl hearly
  rcases aggregateStatus_cases (Worker.cleanupAll w.task) with hs | ⟨heq, hfailed, hall⟩
  · exact hclean.of_steady_early hs (fun _ => aggregateStatus_etag _) rfl rfl hearly
  have htask : w.leave.task = { Worker.cleanupAll w.task with
      status := .completed, reason := .none } := heq
  have hprobing := h.probing_eq_false hall
  have hgenuine := (hclean.filed hprobing).resolve_left fun ⟨hstuck, _⟩ => by
    rcases hstuck.stuck with hfail | hexited
    · exact absurd hfail (by simp [Worker.modifyTask, hfailed])
    · simp [Worker.modifyTask, hphase] at hexited
  obtain ⟨v, bytes, hbytes, hreplica, hsaved⟩ := hgenuine
  refine ⟨?_, fun hp => ?_, fun _ => Or.inr ⟨v, bytes, ?_, ?_, ?_⟩, fun _ => ⟨Or.inl rfl, ?_⟩⟩ <;>
    rw [htask] at *
  · exact hclean.ctxs
  · exact absurd (hprobing ▸ hp) (by simp)
  · exact hbytes
  · exact ⟨hreplica.etag, hreplica.path, hreplica.full, hreplica.copied⟩
  · exact hsaved
  · exact hall

theorem close (h : Sourced R stored w) (hphase : w.phase = .closing) : Sourced R stored w.close := by
  have hending : Sourced R stored { w with phase := .ending } :=
    h.of_steady (.refl _) (fun _ => rfl) rfl rfl (by simp [hphase])
      fun _ => ⟨Or.inr (Or.inl rfl), rfl⟩
  simp only [Worker.close]
  split
  next hcompleted =>
    have hclosed : Sourced R stored { w.modifyTask fun t => { t with
        partCtx := t.partCtx.map fun c => { c with fileOpen := false } } with phase := .ending } :=
      hending.of_same_parts ⟨rfl, rfl, rfl, rfl, by simp [Worker.modifyTask], fun _ => rfl, id⟩ rfl
        rfl id rfl rfl id id
    obtain ⟨hprobing, hgenuine⟩ := hclosed.genuine_of_completed hcompleted
    exact hclosed.emitResume hprobing hgenuine
  split
  · rw [Worker.maybeEmitResume_withPhase]
    exact hending.maybeEmitResume
  · exact hending

theorem exit (h : Sourced R stored w) : Sourced R stored w.exit := by
  simp only [Worker.exit]
  split
  · exact h.pausedExit
  · exact h.of_same_parts ⟨rfl, rfl, rfl, rfl, rfl, fun _ => rfl, id⟩ rfl rfl id rfl rfl (fun _ => rfl)
      fun _ => Or.inr (Or.inr rfl)

theorem unprobed_or_genuine (h : Sourced R stored w) :
    w.task.Unprobed ∨ ∃ v, Genuine R v stored w := by
  cases hprobing : w.task.probing with
  | true => exact Or.inl (h.probing hprobing).1.unprobed
  | false => exact (h.filed hprobing).imp_left fun hvacant => hvacant.2.unprobed

theorem size_eq_done (h : Sourced R stored w) {i : Nat} (hi : i < w.task.parts.length)
    (hsize : (w.task.part i).size ≤ 0) : (w.task.part i).size = (w.task.part i).done := by
  rcases h.unprobed_or_genuine with hunprobed | ⟨v, bytes, -, hreplica, -⟩
  · exact hunprobed.size_eq_done hi
  · have := hreplica.copied.laid.size_pos (List.mem_map_of_mem (part_mem hi))
    simp only [PartState.extent] at this
    exact absurd hsize (not_le.mpr this)

theorem quiet_result (cfg : HttpConfig) (h : Sourced R stored w) {i : Nat} (rc : CurlCode)
    (httpCode : Int) (hi : i < w.task.partCtx.length) :
    Quiet w.task (handlePartResult cfg (Worker.dropEasy w.task i) i rc httpCode).1 := by
  have hdrop : Quiet w.task (Worker.dropEasy w.task i) := (steady_modifyCtx _ i _).toQuiet
  rcases handlePartResult_cases cfg (Worker.dropEasy w.task i) i rc httpCode with hs | ⟨hunsized, heq⟩
  · exact hdrop.trans hs.toQuiet
  · rw [heq]
    exact hdrop.trans (quiet_completeUnsized _ i (h.size_eq_done (h.ctxs ▸ hi) hunsized.2.1))

theorem message (cfg : HttpConfig) (h : Sourced R stored w) {i : Nat} {rc : CurlCode}
    {httpCode : Int} {built : Bool} (hi : i < w.task.partCtx.length) (hphase : w.phase = .draining)
    (hsized : ¬ (w.task.cancelReq ∨ w.task.pauseReq) → completesUnsized w.task i rc httpCode →
      w.task.probing = false) : Sourced R stored (w.message cfg i rc httpCode built) := by
  have hearly : ¬ (w.phase = .closing ∨ w.phase = .ending ∨ w.phase = .exited) := by simp [hphase]
  have hdrop : Steady w.task (Worker.dropEasy w.task i) := steady_modifyCtx _ i _
  have hsteady : ∀ t active, Steady w.task t → (w.task.etag ≠ "" → t.etag = w.task.etag) →
      Sourced R stored { w with task := t, active := active } :=
    fun t active hs hetag => h.of_steady_early hs hetag rfl rfl hearly
  simp only [Worker.message]
  split
  · exact hsteady _ _ hdrop fun _ => rfl
  next hgo =>
    have hbeside : Beside i w.task (handlePartResult cfg (Worker.dropEasy w.task i) i rc httpCode).1 :=
      (Beside.modifyCtx _ _).trans (Beside.handlePartResult cfg _ rc httpCode)
    have hquiet := h.quiet_result cfg rc httpCode hi
    rcases handlePartResult_cases cfg (Worker.dropEasy w.task i) i rc httpCode with hs | ⟨hunsized, heq⟩
    · have hs := hdrop.trans hs
      generalize handlePartResult cfg (Worker.dropEasy w.task i) i rc httpCode = out
        at hs hbeside ⊢
      obtain ⟨t, again⟩ := out
      simp only at hs hbeside ⊢
      split
      · exact hsteady _ _ (hs.trans (Worker.steady_addPart t i built))
          (hbeside.trans (Beside.addPart t built)).etag
      · exact hsteady _ _ hs hbeside.etag
    · obtain ⟨herror, hsize, hrc, hcode, hwindow⟩ := hunsized
      have hctx : ((Worker.dropEasy w.task i).ctx i).probeWindow = (w.task.ctx i).probeWindow := by
        rw [Worker.dropEasy, modifyCtx_ctx_self hi]
      have hprobing := hsized hgo ⟨herror, hsize, hrc, hcode, hctx ▸ hwindow⟩
      rw [heq] at hquiet ⊢
      rcases h.filed hprobing with ⟨hstuck, hvacant⟩ | ⟨v, bytes, -, hreplica, -⟩
      · -- a part that was never laid out may be called complete, in a task that never will be
        refine of_filed ?_ hprobing hstuck.status (Or.inl ⟨⟨hstuck.status, hstuck.stuck⟩,
          hvacant.of_quiet hquiet rfl⟩)
        simpa [Worker.dropEasy, completeUnsized] using h.ctxs
      · have := hreplica.copied.laid.size_pos (List.mem_map_of_mem (part_mem (h.ctxs ▸ hi)))
        simp only [PartState.extent] at this
        exact absurd hsize (not_le.mpr this)

/-! ### Where parts stand -/

theorem place_nonneg (h : Sourced R stored w) {i : Nat} (hi : i < w.task.parts.length) :
    0 ≤ (w.task.part i).start + (w.task.part i).done := by
  rcases h.unprobed_or_genuine with hunprobed | ⟨v, bytes, -, hreplica, -⟩
  · exact (hunprobed.place i).ge
  · have hmem : (w.task.part i).extent ∈ w.task.extents := List.mem_map_of_mem (part_mem hi)
    have hbounds := hreplica.copied.laid.bounds hmem
    have hcounted := hreplica.copied.laid.counted _ hmem
    simp only [PartState.extent] at hbounds hcounted
    omega

theorem place_of_fullStreamOk (h : Sourced R stored w) {i : Nat} (hi : i < w.task.parts.length)
    (hfull : w.task.fullStreamOk i = true) :
    (w.task.part i).start + (w.task.part i).done = 0 := by
  simp only [fullStreamOk, Bool.and_eq_true, decide_eq_true_eq] at hfull
  obtain ⟨hone, hdone⟩ := hfull
  rcases h.unprobed_or_genuine with hunprobed | ⟨v, bytes, -, hreplica, -⟩
  · exact hunprobed.place i
  · have htiles := hreplica.copied.laid.tiles
    obtain ⟨p, hp⟩ := List.length_eq_one_iff.mp (show w.task.parts.length = 1 by omega)
    obtain rfl : i = 0 := by omega
    rw [extents, hp] at htiles
    have hstart : p.start = 0 := htiles.1
    simp only [part, hp, List.getD_cons_zero] at hdone ⊢
    omega

end Sourced

/-! ### Chunks -/

/-- What a connection brings next: of the version whose validator the task has, the bytes that belong
where its part stands; and the probe is not finalized with less than the version's length. -/
structure Brings (R : Resource V) (t : TaskCtx) (i : Nat) (v : V) (data : List Byte) : Prop where
  etag : t.etag = R.etag v
  piece : data <+: (R.bytes v).drop ((t.part i).start + (t.part i).done).toNat
  enough : t.probing → R.length v ≤ settledTotal true t.totalSize (t.ctx i).seenTotalSize

theorem totalSize_settleProbe (urlLib : UrlLib) (t : TaskCtx) (i : Nat) :
    (t.settleProbe urlLib i).totalSize
      = settledTotal true t.totalSize (t.ctx i).seenTotalSize := by
  simp only [settleProbe, settledTotal, true_and]

theorem Sourced.finalized (cfg : HttpConfig) (env : WriteEnv) (h : Sourced R stored w) {i : Nat}
    {data : List Byte} (hprobing : w.task.probing = true) (hbrings : Brings R w.task i v data) :
    (probed cfg env w.fs w.task i).1.failed = true ∧
        Vacant stored { w with task := (probed cfg env w.fs w.task i).1 } ∨
      (probed cfg env w.fs w.task i).1.status = w.task.status ∧
        Genuine R v stored { w with
          task := (probed cfg env w.fs w.task i).1, fs := (probed cfg env w.fs w.task i).2 } := by
  obtain ⟨⟨hunprobed, hunsaved⟩, hopen⟩ := h.probing hprobing
  have henough : R.length v ≤ (acquirePath env.probe w.fs
      (w.task.settleProbe env.probe.urlLib i)).1.totalSize := by
    have := hbrings.enough hprobing
    rw [← totalSize_settleProbe env.probe.urlLib] at this
    exact this
  have hpos := R.length_pos v
  have hpath : (acquirePath env.probe w.fs (w.task.settleProbe env.probe.urlLib i)).1.fullFilePath
      = plannedPath env.probe w i := rfl
  have hunprobed' := unprobed_acquirePath hunprobed env.probe w.fs i
  rcases probed_created cfg env i hprobing with ⟨message, made, heq⟩ | ⟨made, hcreated, heq⟩
  · rw [heq]
    exact Or.inl ⟨rfl, ⟨hunprobed'.extents, hunprobed'.ctxs, hunprobed'.supportRange⟩, hunsaved⟩
  rw [heq]
  obtain ⟨bytes, hbytes, hlength⟩ : ∃ bytes, made.bytes? (plannedPath env.probe w i) = some bytes ∧
      (bytes.length : Int) = (acquirePath env.probe w.fs
        (w.task.settleProbe env.probe.urlLib i)).1.totalSize := by
    refine ⟨_, bytes?_createTarget hcreated, ?_⟩
    rw [if_neg (by omega), length_resize]
    omega
  refine Or.inr ⟨layOut_status cfg _ _, bytes, ?_, ⟨?_, ?_, ?_, ?_⟩, fun a ha => ?_⟩
  · simp only [layOut_fullFilePath, hpath]
    exact hbytes
  · rw [layOut_etag]
    exact hbrings.etag
  · rw [layOut_fullFilePath, hpath]
    exact plannedPath_ne_empty env.probe w i
  · intro p hp hcompleted
    have hopen' : ∀ q ∈ (acquirePath env.probe w.fs
        (w.task.settleProbe env.probe.urlLib i)).1.parts, q.status ≠ .completed := hopen
    exact absurd hcompleted (layOut_not_completed cfg _ hopen' p hp)
  · generalize (acquirePath env.probe w.fs (w.task.settleProbe env.probe.urlLib i)).1 = settled
      at henough hlength hunprobed' ⊢
    have hdone := layOut_done cfg (w.task.ctx i).seenHttpCode hunprobed'
    rw [layOut_totalSize]
    refine ⟨by omega, layOut_laid cfg _ hunprobed' (by omega), hlength, henough, fun e he => ?_⟩
    refine copies_of_le _ _ ?_
    rw [hdone e he, add_zero]
  · exact absurd (hunsaved.symm.trans ha) (by simp)

theorem Genuine.written (env : WriteEnv) (h : Genuine R v stored w) {i : Nat}
    {data chunk : List Byte} (hi : i < w.task.parts.length) (hfit : w.task.fit i data = some chunk)
    (hpiece : chunk <+: (R.bytes v).drop ((w.task.part i).start + (w.task.part i).done).toNat) :
    Genuine R v stored { w with
      task := (writeChunk env w.fs w.task i chunk).task
      fs := (writeChunk env w.fs w.task i chunk).fs } := by
  obtain ⟨bytes, hbytes, hreplica, hsaved⟩ := h
  have hmem : (w.task.part i).extent ∈ w.task.extents := List.mem_map_of_mem (part_mem hi)
  have hsize := hreplica.copied.laid.size_pos hmem
  have hroom := length_le_of_fit hfit hsize
  have hbounds := hreplica.copied.laid.bounds hmem
  have hsized := hreplica.copied.laid.sized _ hmem
  have hcounted := hreplica.copied.laid.counted _ hmem
  have hlength := hreplica.copied.length
  simp only [PartState.extent] at hbounds hsized hcounted
  have hout := writeChunk_outcome env w.fs w.task i chunk
  generalize writeChunk env w.fs w.task i chunk = out at hout ⊢
  have hpath : out.task.fullFilePath = w.task.fullFilePath := by
    cases hout <;> rfl
  have hetag : out.task.etag = w.task.etag := by
    cases hout <;> rfl
  obtain ⟨piece, hprefix, hlanded, hcase⟩ := hout.landed hbytes
  have hshort := hprefix.length_le
  have htrue := hprefix.trans hpiece
  have hinside : ((w.task.part i).start + (w.task.part i).done).toNat + piece.length
      ≤ bytes.length := by omega
  have hcopied := hreplica.copied.writeAt htrue hinside
  refine ⟨_, by rw [hpath]; exact hlanded, ?_, fun a ha => ?_⟩
  · rcases hcase with ⟨-, hsteady⟩ | ⟨rfl, -, granted, htask⟩
    · have hsame : Replicates R v w.task (ByteFile.writeAt bytes
          ((w.task.part i).start + (w.task.part i).done).toNat piece) :=
        ⟨hreplica.etag, hreplica.path, hreplica.full, hcopied⟩
      exact hsame.of_steady hsteady hetag
    · refine ⟨hetag.trans hreplica.etag, hpath ▸ hreplica.path, ?_, ?_⟩
      · simp only [htask]
        exact FullWhenCompleted.count (t := w.task.ensureOpen w.fs i granted) hreplica.full
          (room_of_fit hfit hsize) _
      · simp only [htask]
        exact Copied.count (t := w.task.ensureOpen w.fs i granted) hcopied hi hroom
          (copies_writeAt bytes hpiece)
  · obtain ⟨haetag, hapath, hacopied⟩ := hsaved a ha
    exact ⟨haetag, hpath ▸ hapath, hacopied.writeAt htrue hinside⟩

theorem probed_place (cfg : HttpConfig) (env : WriteEnv) (fs : Fs) {t : TaskCtx} {i : Nat}
    (hi : i < t.parts.length) (hunprobed : t.probing → t.Unprobed) :
    ((probed cfg env fs t i).1.part i).start + ((probed cfg env fs t i).1.part i).done
      = (t.part i).start + (t.part i).done := by
  cases hprobing : t.probing with
  | false => rw [probed_of_not_probing cfg env fs i hprobing]
  | true =>
      have hu := hunprobed hprobing
      have hprobed : probed cfg env fs t i = finalizeProbing cfg env.probe fs t i := by
        simp [probed, hprobing]
      have hzero : i = 0 := by
        obtain ⟨p, hp, -⟩ := hu.parts
        rw [hp] at hi
        simpa using hi
      rw [hprobed]
      rcases finalizeProbing_cases cfg env.probe fs t i with ⟨message, heq⟩ | heq
      · rw [heq]
        rfl
      · have hu' : (acquirePath env.probe fs (t.settleProbe env.probe.urlLib i)).1.Unprobed :=
          ⟨hu.extents, hu.ctxs, hu.supportRange⟩
        have hlong : i < ((acquirePath env.probe fs (t.settleProbe env.probe.urlLib i)).1.layOut cfg
            (t.ctx i).seenHttpCode).parts.length :=
          lt_of_lt_of_le hi (length_le_layOut cfg
            (acquirePath env.probe fs (t.settleProbe env.probe.urlLib i)).1 _)
        have hdone := layOut_done cfg (t.ctx i).seenHttpCode hu' _
          (List.mem_map_of_mem (f := PartState.extent) (part_mem hlong))
        have hstart := layOut_part_zero cfg (t.ctx i).seenHttpCode hu'
        have hold : (t.part i).extent ∈ t.extents := List.mem_map_of_mem (part_mem hi)
        rw [hu.extents, List.mem_singleton] at hold
        have hstart' : (t.part i).start = 0 := congrArg Extent.start hold
        have hdone' : (t.part i).done = 0 := congrArg Extent.done hold
        rw [← hzero] at hstart
        simp only [PartState.extent] at hdone
        rw [heq, hstart, hdone, hstart', hdone']

theorem writeCb_place (cfg : HttpConfig) (env : WriteEnv) (fs : Fs) {t : TaskCtx} {i : Nat}
    {data : List Byte} (hi : i < t.parts.length) (hunprobed : t.probing → t.Unprobed)
    (hconsumed : (writeCb cfg env fs t i data).consumed = data.length) :
    ((writeCb cfg env fs t i data).task.part i).start
        + ((writeCb cfg env fs t i data).task.part i).done
      = (t.part i).start + (t.part i).done + data.length := by
  rcases writeCb_cases cfg env fs t i data with hdoor | ⟨-, hdata, hrest⟩
  · rw [hdoor] at hconsumed ⊢
    simp only at hconsumed ⊢
    omega
  have hpos : 0 < data.length := List.length_pos_iff.mpr hdata
  have hplace := probed_place cfg env fs hi hunprobed
  have hlong := lt_of_lt_of_le hi (length_le_probed cfg env fs t i)
  generalize probed cfg env fs t i = start at hplace hlong hrest
  obtain ⟨t', fs'⟩ := start
  simp only at hplace hlong hrest
  rcases hrest with ⟨-, heq⟩ | ⟨chunk, -, hfit, heq⟩
  · rw [heq] at hconsumed
    simp only at hconsumed
    omega
  · rw [heq] at hconsumed ⊢
    have hout := writeChunk_outcome env fs' t' i chunk
    generalize writeChunk env fs' t' i chunk = out at hout hconsumed ⊢
    cases hout with
    | missing => exact absurd hconsumed hpos.ne
    | failed granted message landed => exact absurd hconsumed hpos.ne
    | stored granted =>
        have hpart : ((t'.ensureOpen fs' i granted).modifyPart i fun p =>
            { p with done := p.done + chunk.length }).part i
              = { t'.part i with done := (t'.part i).done + chunk.length } := by
          simp [part, ensureOpen, hlong]
        have hlength : (chunk.length : Int) = data.length := by exact_mod_cast hconsumed
        rw [hpart]
        simp only
        rw [hlength, ← add_assoc, hplace]

theorem Sourced.body (cfg : HttpConfig) (h : Sourced R stored w) {i : Nat} {data : List Byte}
    {env : WriteEnv} (hi : i < w.task.parts.length) (hphase : w.phase = .performing)
    (hbrings : ¬ (w.task.status = .error ∨ w.task.cancelReq ∨ w.task.pauseReq ∨ data = []) →
      ∃ v, Brings R w.task i v data) : Sourced R stored (w.body cfg i data env) := by
  have hearly : ¬ (w.phase = .closing ∨ w.phase = .ending ∨ w.phase = .exited) := by simp [hphase]
  have hopen : w.task.status ≠ .completed := fun hcompleted => hearly (h.finished hcompleted).1
  -- giving the connection up or not, it is what `write_cb` leaves that counts
  suffices hleft : Sourced R stored { w with
      task := (writeCb cfg env w.fs w.task i data).task
      fs := (writeCb cfg env w.fs w.task i data).fs } by
    refine hleft.of_steady_early ?_ ?_ rfl rfl hearly
    · simp only [Worker.body]
      split
      · exact .refl _
      · exact steady_modifyCtx _ i _
    · intro _
      simp only [Worker.body]
      split <;> rfl
  by_cases hdoor : w.task.status = .error ∨ w.task.cancelReq ∨ w.task.pauseReq ∨ data = []
  · rw [writeCb, if_pos hdoor]
    exact h
  obtain ⟨v, hb⟩ := hbrings hdoor
  rcases writeCb_cases cfg env w.fs w.task i data with hout | ⟨hstatus, -, hrest⟩
  · rw [hout]
    exact h
  have hctxs := probed_ctxs cfg env w.fs i h.ctxs
  have hover := probed_probing cfg env w.fs w.task i
  have hlength := lt_of_lt_of_le hi (length_le_probed cfg env w.fs w.task i)
  have hplace := probed_place cfg env w.fs hi fun hprobing => (h.probing hprobing).1.unprobed
  have hprobed : (probed cfg env w.fs w.task i).1.failed = true ∧
        Vacant stored { w with task := (probed cfg env w.fs w.task i).1 } ∨
      (probed cfg env w.fs w.task i).1.status = w.task.status ∧
        Genuine R v stored { w with
          task := (probed cfg env w.fs w.task i).1, fs := (probed cfg env w.fs w.task i).2 } := by
    cases hprobing : w.task.probing with
    | true => exact h.finalized cfg env hprobing hb
    | false =>
        rw [probed_of_not_probing cfg env w.fs i hprobing]
        refine Or.inr ⟨rfl, ?_⟩
        obtain ⟨v', hgenuine⟩ := (h.filed hprobing).resolve_left fun hgone => by
          rcases hgone.1.stuck with hfailed | hexited
          · exact hstatus (status_of_failed hfailed)
          · simp [hphase] at hexited
        -- two versions with one validator are one
        have hsame : v' = v := by
          obtain ⟨bytes, -, hreplica, -⟩ := hgenuine
          exact R.etag_injective (hreplica.etag.symm.trans hb.etag)
        exact hsame ▸ hgenuine
  generalize probed cfg env w.fs w.task i = start at hctxs hover hlength hplace hprobed hrest
  obtain ⟨t, fs⟩ := start
  simp only at hctxs hover hlength hplace hprobed hrest
  rcases hprobed with ⟨hfailed, hvacant⟩ | ⟨hsame, hgenuine⟩
  · have herror := status_of_failed hfailed
    rcases hrest with ⟨-, heq⟩ | ⟨chunk, hstart, -⟩
    · rw [heq]
      exact of_filed hctxs hover (by simp [herror])
        (Or.inl ⟨⟨by simp [herror], Or.inl hfailed⟩, hvacant.unprobed, hvacant.unsaved⟩)
    · exact absurd herror hstart
  · rcases hrest with ⟨-, heq⟩ | ⟨chunk, hstart, hfit, heq⟩
    · rw [heq]
      exact of_filed hctxs hover (by simpa [hsame] using hopen) (Or.inr ⟨v, hgenuine⟩)
    · rw [heq]
      have hpiece : chunk <+: (R.bytes v).drop ((t.part i).start + (t.part i).done).toNat :=
        hplace ▸ (prefix_of_fit hfit).trans hb.piece
      have hwritten := hgenuine.written env hlength hfit hpiece
      simp only at hwritten
      have hout := writeChunk_outcome env fs t i chunk
      refine of_filed ?_ ?_ ?_ (Or.inr ⟨v, hwritten⟩)
      · generalize writeChunk env fs t i chunk = out at hout ⊢
        cases hout <;> simpa [writeFailed, ensureOpen] using hctxs
      · generalize writeChunk env fs t i chunk = out at hout ⊢
        cases hout <;> exact hover
      · generalize writeChunk env fs t i chunk = out at hout ⊢
        cases hout <;> exact hsame ▸ hopen

/-! ### A new worker -/

theorem sourced_fresh (R : Resource V) (url clientId savePath : String) (fs : Fs) :
    Sourced R none (startWorker url clientId savePath none fs true) where
  ctxs := rfl
  probing _ := ⟨⟨⟨rfl, rfl, rfl⟩, rfl⟩, by simp [startWorker, startFrom, taskCreateNew]⟩
  filed hprobing := absurd hprobing (by simp [startWorker, startFrom, taskCreateNew])
  finished hcompleted := absurd hcompleted (by simp [startWorker, startFrom, taskCreateNew])

theorem Archived.startFrom_eq {path : String} {bytes : List Byte} {a : Archive}
    (h : Archived R v path bytes a) (hpath : path ≠ "") {fs : Fs} (hbytes : fs.bytes? path = some bytes)
    (url clientId savePath : String) :
    startFrom url clientId savePath (some a) fs true =
      (taskCreateNew url clientId savePath).continueFrom (deserializeResume a) := by
  have hparts : a.parts ≠ [] := by
    intro hnil
    have htiles := h.copied.laid.tiles
    have hpos := h.copied.pos
    simp only [Archive.extents, hnil, List.map_nil, Tiling.tiles_nil] at htiles
    omega
  rw [← h.path] at hpath hbytes
  simp only [startFrom]
  refine if_pos ⟨by simpa [deserializeResume] using hparts, hpath, ?_⟩
  rw [show (deserializeResume a).fullFilePath = a.path from rfl, Fs.openFile_of_bytes? hbytes]
  rfl

theorem Sourced.restarted (h : Sourced R stored w) (url clientId savePath : String) :
    Sourced R (w.emitted.or stored)
      (startWorker url clientId savePath (w.emitted.or stored) w.fs true) := by
  cases hsaved : w.emitted.or stored with
  | none => exact sourced_fresh R url clientId savePath w.fs
  | some a =>
      -- what was saved was saved of a replica
      have hprobing : w.task.probing = false := by
        rw [← Bool.not_eq_true]
        intro hprobing
        simp [(h.probing hprobing).1.unsaved] at hsaved
      obtain ⟨v, bytes, hbytes, hreplica, harchived⟩ :=
        (h.filed hprobing).resolve_left fun ⟨_, hvacant⟩ => by simp [hvacant.unsaved] at hsaved
      have ha := harchived a hsaved
      have htask : (startWorker url clientId savePath (some a) w.fs true).task =
          (taskCreateNew url clientId savePath).continueFrom (deserializeResume a) :=
        ha.startFrom_eq hreplica.path hbytes url clientId savePath
      have hpath : (startWorker url clientId savePath (some a) w.fs true).task.fullFilePath
          = w.task.fullFilePath := by
        rw [htask]
        exact ha.path
      refine of_filed ?_ ?_ ?_ (Or.inr ⟨v, bytes, ?_, ?_, fun b hb => ?_⟩)
      · rw [htask]
        simp [continueFrom]
      · rw [htask]
        rfl
      · rw [htask]
        simp [continueFrom, taskCreateNew]
      · rw [hpath]
        exact hbytes
      · rw [htask]
        exact ha.continued hreplica.path _
      · obtain rfl : a = b := Option.some.inj hb
        rw [hpath]
        exact ha

end DownloadWrapper
