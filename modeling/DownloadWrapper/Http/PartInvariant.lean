import DownloadWrapper.Http.Layout

/-!
# Parts never overlap

The invariant of a sized download against an arbitrary server: the parts tile the file from the
moment the probe is finalized, through every callback, retry, pause and restart from an archive, and
every write stays in the interval of its own part. A download whose finalization fails keeps its one
empty part and never writes.
-/

namespace DownloadWrapper

open Tiling TaskCtx

/-- A `pwrite_at` began where its part stood and stayed in the part's interval. -/
structure Placed (t : TaskCtx) (e : PWrite) : Prop where
  part : (t.extents.map Extent.range)[e.index]? = some (e.part.start, e.part.endByte)
  off : e.off = e.part.start + e.part.done
  lower : e.part.start ≤ e.off
  upper : e.off + e.len ≤ e.part.endByte + 1

structure Refused (t : TaskCtx) (phase : Phase) : Prop where
  unprobed : t.Unprobed
  stuck : t.failed ∨ phase = .exited

/-- The invariant. `fixed` says that `finalize_probing` has fixed a positive total. -/
structure Sound (fixed : Bool) (w : Worker) : Prop where
  ctxs : w.task.partCtx.length = w.task.parts.length
  probing : w.task.probing → w.task.Unprobed ∧ w.pwrites = [] ∧ fixed = false
  unsaved : w.task.probing → w.emitted ≠ none → w.phase = .ending ∨ w.phase = .exited
  laid : fixed → 0 < w.task.totalSize ∧ (Laid w.task.extents w.task.totalSize ∨ Refused w.task w.phase)
  placed : fixed → ∀ e ∈ w.pwrites, Placed w.task e
  saved : fixed → ∀ a, w.emitted = some a → 0 < a.totalSize ∧ Laid a.extents a.totalSize

namespace Sound

variable {fixed : Bool} {w w' : Worker}

theorem of_quiet (h : Sound fixed w) (hq : Quiet w.task w'.task) (hwrites : w'.pwrites = w.pwrites)
    (hemitted : w'.emitted = w.emitted)
    (hphase : w.phase = .ending ∨ w.phase = .exited → w'.phase = .ending ∨ w'.phase = .exited)
    (hexited : w.phase = .exited → w'.phase = .exited) : Sound fixed w' where
  ctxs := by rw [hq.ctxs, hq.length, h.ctxs]
  probing hprobing := by
    obtain ⟨hunprobed, hnone, hfixed⟩ := h.probing (hq.probing ▸ hprobing)
    exact ⟨hunprobed.of_quiet hq, hwrites.trans hnone, hfixed⟩
  unsaved hprobing hsome := hphase (h.unsaved (hq.probing ▸ hprobing) (hemitted ▸ hsome))
  laid hfixed := by
    obtain ⟨hpos, hcase⟩ := h.laid hfixed
    refine ⟨(hq.total hpos).symm ▸ hpos, hcase.imp (fun hlaid => ?_) fun hrefused => ?_⟩
    · rw [hq.extents, hq.total hpos]
      exact hlaid
    · exact ⟨hrefused.unprobed.of_quiet hq, hrefused.stuck.imp hq.failed hexited⟩
  placed hfixed e he := by
    obtain ⟨hpart, hoff, hlower, hupper⟩ := h.placed hfixed e (hwrites ▸ he)
    exact ⟨hq.extents.symm ▸ hpart, hoff, hlower, hupper⟩
  saved hfixed a ha := h.saved hfixed a (hemitted ▸ ha)

theorem pausedExit (h : Sound fixed w) :
    Sound fixed { w.modifyTask fun t => { t with status := .paused } with phase := .exited } where
  ctxs := h.ctxs
  probing hprobing := by
    obtain ⟨hunprobed, hnone, hfixed⟩ := h.probing hprobing
    exact ⟨⟨hunprobed.extents, hunprobed.ctxs, hunprobed.supportRange⟩, hnone, hfixed⟩
  unsaved _ _ := Or.inr rfl
  laid hfixed := by
    obtain ⟨hpos, hcase⟩ := h.laid hfixed
    refine ⟨hpos, hcase.imp id fun hrefused => ⟨?_, Or.inr rfl⟩⟩
    exact ⟨hrefused.unprobed.extents, hrefused.unprobed.ctxs, hrefused.unprobed.supportRange⟩
  placed hfixed e he :=
    have hplaced := h.placed hfixed e he
    ⟨hplaced.part, hplaced.off, hplaced.lower, hplaced.upper⟩
  saved := h.saved

theorem emitResume (h : Sound fixed w)
    (hend : w.task.probing → w.phase = .ending ∨ w.phase = .exited)
    (hok : ¬ Refused w.task w.phase) : Sound fixed w.emitResume where
  ctxs := h.ctxs
  probing := h.probing
  unsaved hprobing _ := hend hprobing
  laid hfixed := by
    obtain ⟨hpos, hcase⟩ := h.laid hfixed
    exact ⟨hpos, Or.inl (hcase.resolve_right hok)⟩
  placed := h.placed
  saved hfixed a ha := by
    obtain rfl := Option.some.inj ha
    obtain ⟨hpos, hcase⟩ := h.laid hfixed
    have hlaid := hcase.resolve_right hok
    rw [hlaid.extents_serializeResume]
    exact ⟨hpos, hlaid⟩

theorem maybeEmitResume (h : Sound fixed w) : Sound fixed w.maybeEmitResume := by
  rw [Worker.maybeEmitResume]
  split
  · exact h
  next hready =>
    have hsupport : w.task.supportRange ≠ 0 := fun h0 => hready (Or.inl h0)
    refine emitResume (h.of_quiet ⟨rfl, rfl, rfl, rfl, rfl, fun _ => rfl, id⟩ rfl rfl id id) ?_ ?_
    · intro hprobing
      exact absurd (h.probing hprobing).1.supportRange hsupport
    · intro hrefused
      exact hsupport hrefused.unprobed.supportRange

theorem loopHead (h : Sound fixed w) (hphase : ¬ (w.phase = .ending ∨ w.phase = .exited)) :
    Sound fixed w.loopHead := by
  refine h.of_quiet (Worker.loopHead_task w ▸ .refl _) ?_ ?_ (fun h => absurd h hphase)
    fun h => absurd (Or.inr h) hphase
  · rw [Worker.loopHead]
    split <;> rfl
  · rw [Worker.loopHead]
    split <;> rfl

end Sound

/-! ### One step -/

/-- Whether a positive total is fixed after a step: finalizing the probe decides it. -/
def fixedAfter (fixed : Bool) (w w' : Worker) : Bool :=
  if w.task.probing ∧ ¬ w'.task.probing then decide (0 < w'.task.totalSize) else fixed

theorem fixedAfter_of_probing_eq {fixed : Bool} {w w' : Worker}
    (h : w'.task.probing = w.task.probing) : fixedAfter fixed w w' = fixed := by
  rw [fixedAfter, if_neg]
  rintro ⟨hbefore, hafter⟩
  exact hafter (h.trans hbefore)

theorem fixedAfter_congr {fixed : Bool} {w v v' : Worker} (hprobing : v'.task.probing = v.task.probing)
    (htotal : v'.task.totalSize = v.task.totalSize) :
    fixedAfter fixed w v' = fixedAfter fixed w v := by
  rw [fixedAfter, fixedAfter, hprobing, htotal]

namespace Sound

variable {fixed : Bool} {w w' : Worker}

theorem finalized (cfg : HttpConfig) (env : WriteEnv) (h : Sound fixed w) (i : Nat)
    (hprobing : w.task.probing = true) (hphase : w.phase = .performing) :
    Sound (fixedAfter fixed w { w with task := (probed cfg env w.fs w.task i).1 })
      { w with
        task := (probed cfg env w.fs w.task i).1
        fs := (probed cfg env w.fs w.task i).2 } := by
  obtain ⟨hunprobed, hwrites, -⟩ := h.probing hprobing
  have hemitted : w.emitted = none := by
    by_contra hsome
    rcases h.unsaved hprobing hsome with hend | hend <;> simp [hphase] at hend
  have hprobed : (probed cfg env w.fs w.task i).1 = (finalizeProbing cfg env.probe w.fs w.task i).1 :=
    by simp [probed, hprobing]
  obtain ⟨total, name, path, hacquired⟩ := acquirePath_settleProbe env.probe w.fs w.task i
  obtain ⟨settled, hsettled⟩ : ∃ settled, settled = { w.task with
      probing := false, totalSize := total, filename := name, fullFilePath := path } := ⟨_, rfl⟩
  have hunprobed' : settled.Unprobed := by
    rw [hsettled]
    exact ⟨hunprobed.extents, hunprobed.ctxs, hunprobed.supportRange⟩
  have hctxs : settled.partCtx.length = settled.parts.length := by
    rw [hsettled]
    exact h.ctxs
  have hover : settled.probing = false := by rw [hsettled]
  have hcases := finalizeProbing_cases cfg env.probe w.fs w.task i
  rw [hacquired, ← hsettled, ← hprobed] at hcases
  generalize (probed cfg env w.fs w.task i).1 = t at hcases ⊢
  have hdecided : t.probing = false → (fixedAfter fixed w { w with task := t } → 0 < t.totalSize) := by
    intro hover hfixed
    simpa [fixedAfter, hprobing, hover] using hfixed
  rcases hcases with ⟨message, rfl⟩ | rfl
  · -- failed: nothing was laid out, and the error stays
    have hrefused : Refused (settled.fail message) w.phase :=
      ⟨⟨hunprobed'.extents, hunprobed'.ctxs, hunprobed'.supportRange⟩, Or.inl rfl⟩
    exact ⟨hctxs, fun h => absurd (hover ▸ h) (by simp), fun h => absurd (hover ▸ h) (by simp),
      fun hfixed => ⟨hdecided hover hfixed, Or.inr hrefused⟩,
      fun _ e he => absurd (hwrites ▸ he) (by simp),
      fun _ a ha => absurd (hemitted ▸ ha) (by simp)⟩
  · have hover' : (settled.layOut cfg (w.task.ctx i).seenHttpCode).probing = false := by
      rw [layOut_probing, hover]
    refine ⟨layOut_ctxs cfg _ hctxs, fun h => absurd (hover' ▸ h) (by simp),
      fun h => absurd (hover' ▸ h) (by simp), fun hfixed => ?_,
      fun _ e he => absurd (hwrites ▸ he) (by simp),
      fun _ a ha => absurd (hemitted ▸ ha) (by simp)⟩
    have hpos := hdecided hover' hfixed
    refine ⟨hpos, Or.inl ?_⟩
    simp only [layOut_totalSize] at hpos ⊢
    exact layOut_laid cfg _ hunprobed' hpos

theorem written (env : WriteEnv) (h : Sound fixed w) {i : Nat} {data chunk : List Byte}
    (hi : i < w.task.parts.length) (hprobing : w.task.probing = false)
    (hphase : w.phase = .performing) (hstatus : w.task.status ≠ .error)
    (hfit : w.task.fit i data = some chunk) :
    Sound fixed { w with
      task := (writeChunk env w.fs w.task i chunk).task
      fs := (writeChunk env w.fs w.task i chunk).fs
      pwrites := (writeChunk env w.fs w.task i chunk).issued.toList ++ w.pwrites } := by
  have hlaid : fixed → 0 < w.task.totalSize ∧ Laid w.task.extents w.task.totalSize := by
    intro hfixed
    obtain ⟨hpos, hcase⟩ := h.laid hfixed
    refine ⟨hpos, hcase.resolve_right fun hrefused => ?_⟩
    rcases hrefused.stuck with hfailed | hexited
    · exact hstatus (status_of_failed hfailed)
    · simp [hphase] at hexited
  have hroom : fixed → (chunk.length : Int) ≤ (w.task.part i).size - (w.task.part i).done :=
    fun hfixed => length_le_of_fit hfit
      ((hlaid hfixed).2.size_pos (List.mem_map_of_mem (part_mem hi)))
  have hnew : fixed → Placed w.task (pwriteOf w.task i chunk) := by
    intro hfixed
    have hmem : (w.task.part i).extent ∈ w.task.extents := List.mem_map_of_mem (part_mem hi)
    have hsized := (hlaid hfixed).2.sized _ hmem
    have hcounted := (hlaid hfixed).2.counted _ hmem
    have := hroom hfixed
    simp only [PartState.extent] at hsized hcounted
    refine ⟨?_, rfl, by simp only [pwriteOf]; omega, by simp only [pwriteOf]; omega⟩
    simp [pwriteOf, extents, part, hi, Extent.range, PartState.extent]
  -- the failures leave every count, so only the list of writes grows
  have hquiet : ∀ (t : TaskCtx) (fs : Fs) (writes : List PWrite), Quiet w.task t →
      (fixed → ∀ e ∈ writes, Placed w.task e) →
      Sound fixed { w with task := t, fs := fs, pwrites := writes } := by
    intro t fs writes hq hwrites
    have hbase : Sound fixed { w with task := t, fs := fs } := h.of_quiet hq rfl rfl id id
    refine ⟨hbase.ctxs, fun hp => ?_, hbase.unsaved, hbase.laid, fun hfixed e he => ?_, hbase.saved⟩
    · exact absurd (hq.probing ▸ hp) (by simp [hprobing])
    · obtain ⟨hpart, hoff, hlower, hupper⟩ := hwrites hfixed e he
      exact ⟨hq.extents.symm ▸ hpart, hoff, hlower, hupper⟩
  have hlog : fixed → ∀ e ∈ pwriteOf w.task i chunk :: w.pwrites, Placed w.task e := by
    intro hfixed e he
    rcases List.mem_cons.mp he with rfl | he
    · exact hnew hfixed
    · exact h.placed hfixed e he
  have houtcome := writeChunk_outcome env w.fs w.task i chunk
  generalize writeChunk env w.fs w.task i chunk = out at houtcome ⊢
  cases houtcome with
  | missing => exact hquiet _ _ _ (steady_writeFailed _ i _).toQuiet h.placed
  | failed granted message landed =>
      exact hquiet _ _ _ ((steady_modifyCtx _ i _).toQuiet.trans (steady_writeFailed _ i _).toQuiet) hlog
  | stored granted =>
      have hopen := hquiet (w.task.ensureOpen w.fs i granted) w.fs _ (steady_modifyCtx _ i _).toQuiet hlog
      refine ⟨by simpa using hopen.ctxs, fun hp => absurd hp (by
          change ¬ w.task.probing = true
          simp [hprobing]), hopen.unsaved, fun hfixed => ?_, fun hfixed e he => ?_, hopen.saved⟩
      · obtain ⟨hpos, hlaid⟩ := hlaid hfixed
        exact ⟨hpos, Or.inl (laid_count hlaid hi (hroom hfixed))⟩
      · obtain ⟨hpart, hoff, hlower, hupper⟩ := hlog hfixed e he
        refine ⟨?_, hoff, hlower, hupper⟩
        rw [← hpart, extents_count_range]
        rfl

theorem of_unfixed (hctxs : w.task.partCtx.length = w.task.parts.length)
    (hprobing : w.task.probing = false) : Sound false w :=
  ⟨hctxs, fun h => absurd (hprobing ▸ h) (by simp), fun h => absurd (hprobing ▸ h) (by simp),
    by simp, by simp, by simp⟩

theorem size_eq_done (h : Sound fixed w) (hknown : fixed = true ∨ w.task.probing = true) {i : Nat}
    (hi : i < w.task.parts.length) (hsize : (w.task.part i).size ≤ 0) :
    (w.task.part i).size = (w.task.part i).done := by
  rcases hknown with hfixed | hprobing
  · rcases (h.laid hfixed).2 with hlaid | hrefused
    · have := hlaid.size_pos (List.mem_map_of_mem (part_mem hi))
      simp only [PartState.extent] at this
      omega
    · exact hrefused.unprobed.size_eq_done hi
  · exact (h.probing hprobing).1.size_eq_done hi

theorem message (cfg : HttpConfig) (h : Sound fixed w) {i : Nat} (hi : i < w.task.parts.length)
    (rc : CurlCode) (httpCode : Int) (built : Bool) (hphase : w.phase = .draining) :
    Sound fixed (w.message cfg i rc httpCode built) := by
  have hend : ¬ (w.phase = .ending ∨ w.phase = .exited) := by simp [hphase]
  have hquiet : ∀ t active, Quiet w.task t → Sound fixed { w with task := t, active := active } :=
    fun t active hq => h.of_quiet hq rfl rfl id id
  have hdrop : Quiet w.task (Worker.dropEasy w.task i) :=
    (steady_modifyCtx _ i _).toQuiet
  simp only [Worker.message]
  split
  · exact hquiet _ _ hdrop
  rcases handlePartResult_cases cfg (Worker.dropEasy w.task i) i rc httpCode with hq | ⟨hunsized, heq⟩
  · have hq := hdrop.trans hq.toQuiet
    generalize handlePartResult cfg (Worker.dropEasy w.task i) i rc httpCode = out at hq ⊢
    obtain ⟨t, again⟩ := out
    simp only at hq ⊢
    split
    · exact hquiet _ _ (hq.trans (Worker.steady_addPart t i built).toQuiet)
    · exact hquiet _ _ hq
  · rw [heq]
    by_cases hknown : fixed = true ∨ w.task.probing = true
    · have hdone := h.size_eq_done hknown hi hunsized.2.1
      exact hquiet _ _ (hdrop.trans (quiet_completeUnsized _ i hdone))
    · simp only [not_or, Bool.not_eq_true] at hknown
      rw [hknown.1]
      refine of_unfixed ?_ hknown.2
      simpa [Worker.dropEasy, completeUnsized] using h.ctxs

theorem writeCb (cfg : HttpConfig) (env : WriteEnv) (h : Sound fixed w) {i : Nat} (data : List Byte)
    (hi : i < w.task.parts.length) (hphase : w.phase = .performing) {out : Written}
    (hout : writeCb cfg env w.fs w.task i data = out) :
    Sound (fixedAfter fixed w { w with task := out.task })
      { w with task := out.task, fs := out.fs, pwrites := out.issued.toList ++ w.pwrites } := by
  rcases writeCb_cases cfg env w.fs w.task i data with hdoor | ⟨-, -, hrest⟩
  · rw [← hout, hdoor, fixedAfter_of_probing_eq rfl]
    exact h
  obtain ⟨t, fs, hprobed⟩ : ∃ t fs, probed cfg env w.fs w.task i = (t, fs) := ⟨_, _, rfl⟩
  rw [hprobed] at hrest
  -- up to the chunk the worker is the same, or its probe was finalized
  have hbefore : Sound (fixedAfter fixed w { w with task := t }) { w with task := t, fs := fs } := by
    cases hprobing : w.task.probing with
    | true =>
        have := h.finalized cfg env i hprobing hphase
        rwa [hprobed] at this
    | false =>
        rw [probed_of_not_probing cfg env w.fs i hprobing] at hprobed
        obtain ⟨rfl, rfl⟩ := Prod.mk.inj hprobed
        rwa [fixedAfter_of_probing_eq rfl]
  have hover : t.probing = false := by
    have := congrArg (fun p : TaskCtx × Fs => p.1.probing) hprobed
    simp only at this
    rw [← this, probed_probing]
  have hlength : i < t.parts.length := by
    have := length_le_probed cfg env w.fs w.task i
    rw [hprobed] at this
    exact lt_of_lt_of_le hi this
  rcases hrest with ⟨-, heq⟩ | ⟨chunk, hstatus, hfit, heq⟩
  · rw [← hout, heq]
    exact hbefore
  · have hwritten := hbefore.written env hlength hover hphase hstatus hfit
    simp only at hwritten heq
    rw [heq] at hout
    rw [hout] at hwritten
    have houtcome := writeChunk_outcome env fs t i chunk
    rw [hout] at houtcome
    have hsame : fixedAfter fixed w { w with task := out.task }
        = fixedAfter fixed w { w with task := t } := by
      cases houtcome <;> exact fixedAfter_congr rfl rfl
    rw [hsame]
    exact hwritten

theorem body (cfg : HttpConfig) (env : WriteEnv) (h : Sound fixed w) {i : Nat} (data : List Byte)
    (hi : i < w.task.parts.length) (hphase : w.phase = .performing) :
    Sound (fixedAfter fixed w (w.body cfg i data env)) (w.body cfg i data env) := by
  obtain ⟨out, hout⟩ : ∃ out, DownloadWrapper.writeCb cfg env w.fs w.task i data = out := ⟨_, rfl⟩
  have hsound := h.writeCb cfg env data hi hphase hout
  simp only [Worker.body, hout]
  split
  · exact hsound
  · have hsame : fixedAfter fixed w { w with
        task := Worker.abortEasy out.task i, fs := out.fs, pwrites := out.issued.toList ++ w.pwrites }
        = fixedAfter fixed w { w with task := out.task } := fixedAfter_congr rfl rfl
    rw [hsame]
    exact hsound.of_quiet (steady_modifyCtx _ i _).toQuiet rfl rfl id id

theorem spawnNewParts (h : Sound fixed w) (built : Nat → Bool) :
    Sound fixed (w.spawnNewParts built) := by
  refine Worker.spawnNewParts_induction built (fun v i hv => ?_) h
  refine hv.of_quiet (Worker.steady_spawnPart built v i).toQuiet ?_ ?_ ?_ ?_ <;>
    (simp only [Worker.spawnPart]; split <;> first | rfl | exact id)

theorem enter (h : Sound fixed w) (multiOk : Bool) (built : Nat → Bool) (hphase : w.phase = .created) :
    Sound fixed (w.enter multiOk built) := by
  have hend : ¬ (w.phase = .ending ∨ w.phase = .exited) := by simp [hphase]
  rw [Worker.enter]
  split
  · exact h.of_quiet (.refl _) rfl rfl (fun h => absurd h hend) fun _ => rfl
  split
  · rw [Worker.maybeEmitResume_withPhase]
    exact h.pausedExit.maybeEmitResume
  split
  · exact h.of_quiet (Worker.steady_threadFailed _).toQuiet rfl rfl (fun h => absurd h hend)
      fun h => absurd (Or.inr h) hend
  · exact (h.spawnNewParts built).loopHead (by simpa using hend)

theorem close (h : Sound fixed w) (hphase : w.phase = .closing) : Sound fixed w.close := by
  have hending : Sound fixed { w with phase := .ending } :=
    h.of_quiet (.refl _) rfl rfl (fun _ => Or.inl rfl) (by simp [hphase])
  simp only [Worker.close]
  split
  next hcompleted =>
    have hclosed : Sound fixed { w.modifyTask fun t => { t with
        partCtx := t.partCtx.map fun c => { c with fileOpen := false } } with phase := .ending } :=
      hending.of_quiet ⟨rfl, rfl, rfl, rfl, by simp [Worker.modifyTask], fun _ => rfl, id⟩ rfl rfl id id
    refine hclosed.emitResume (fun _ => Or.inl rfl) fun hrefused => ?_
    rcases hrefused.stuck with hfailed | hexited
    · simp [failed, Worker.modifyTask, hcompleted] at hfailed
    · simp at hexited
  split
  · rw [Worker.maybeEmitResume_withPhase]
    exact hending.maybeEmitResume
  · exact hending

theorem exit (h : Sound fixed w) : Sound fixed w.exit := by
  simp only [Worker.exit]
  split
  · refine h.pausedExit.of_quiet ?_ rfl rfl id id
    exact ⟨rfl, rfl, rfl, rfl, rfl, fun _ => rfl, id⟩
  · refine h.of_quiet ?_ rfl rfl (fun _ => Or.inr rfl) fun _ => rfl
    exact ⟨rfl, rfl, rfl, rfl, rfl, fun _ => rfl, id⟩

theorem of_probing_eq (h : Sound fixed w') (hprobing : w'.task.probing = w.task.probing) :
    Sound (fixedAfter fixed w w') w' := by
  rwa [fixedAfter_of_probing_eq hprobing]

theorem quietStep (h : Sound fixed w) (hq : Quiet w.task w'.task)
    (hwrites : w'.pwrites = w.pwrites) (hemitted : w'.emitted = w.emitted)
    (hphase : w.phase = .ending ∨ w.phase = .exited → w'.phase = w.phase) :
    Sound (fixedAfter fixed w w') w' := by
  refine (h.of_quiet hq hwrites hemitted (fun hend => (hphase hend).symm ▸ hend)
    fun hexited => (hphase (Or.inr hexited)).trans hexited).of_probing_eq hq.probing

/-- **One step of the worker keeps the invariant.** -/
theorem step {cfg : HttpConfig} (h : Sound fixed w) {e : Event} (hstep : w.step cfg e = some w') :
    Sound (fixedAfter fixed w w') w' := by
  cases Worker.stepped_of_step hstep with
  | @enter multiOk built hphase =>
      exact (h.enter multiOk built hphase).of_probing_eq (Worker.enter_probing w multiOk built)
  | @header i line hphase hlive =>
      have hline := (steady_headerCb w.task i line).toQuiet
      refine h.quietStep ?_ rfl rfl fun _ => rfl
      simp only [Worker.header]
      split
      · exact hline
      · exact hline.trans (steady_modifyCtx _ i _).toQuiet
  | @body i data env hphase hlive => exact h.body cfg env data (h.ctxs ▸ Worker.lt_of_live hlive) hphase
  | @performed built hphase =>
      refine of_probing_eq ?_ (Worker.steady_spawnNewParts built w).probing
      exact (h.spawnNewParts built).of_quiet (.refl _) rfl rfl (by simp [hphase]) (by simp [hphase])
  | multiFailed hphase => exact h.quietStep (.refl _) rfl rfl (by simp [hphase])
  | @message i rc httpCode built hphase heasy =>
      have hmessage := h.message cfg (h.ctxs ▸ Worker.lt_of_easy heasy) rc httpCode built hphase
      exact hmessage.of_probing_eq (Worker.message_probing cfg w i rc httpCode built)
  | drained hphase =>
      have hloop : ¬ (w.maybeEmitResume.phase = .ending ∨ w.maybeEmitResume.phase = .exited) := by
        simp [hphase]
      refine (h.maybeEmitResume.loopHead hloop).of_probing_eq ?_
      rw [Worker.loopHead_task, (Worker.steady_maybeEmitResume w).probing]
  | raised hphase =>
      refine h.quietStep (Worker.steady_threadFailed _).toQuiet rfl rfl fun hend => ?_
      rcases hphase with hphase | hphase <;> simp [hphase] at hend
  | raisedLate hphase => exact h.quietStep (steady_fail _ _).toQuiet rfl rfl (by simp [hphase])
  | leave hphase =>
      have hleave := (Worker.steady_cleanupAll w.task).toQuiet.trans (quiet_aggregateStatus _)
      exact h.quietStep hleave rfl rfl (by simp [hphase])
  | close hphase => exact (h.close hphase).of_probing_eq (Worker.close_probing w)
  | exit hphase => exact h.exit.of_probing_eq (Worker.exit_probing w)
  | pauseRequest | deleteRequest | shutdown =>
      exact h.quietStep ⟨rfl, rfl, rfl, rfl, rfl, fun _ => rfl, id⟩ rfl rfl fun _ => rfl

end Sound

/-! ### Every run -/

/-- The workers of one download, over every configuration and every sequence of callbacks: started
new, after any step, or restarted from the archive an earlier one saved. The flag says whether
`finalize_probing` has fixed a positive total. -/
inductive Started : Bool → Worker → Prop
  | fresh (url clientId savePath : String) (fs : Fs) :
      Started false (startWorker url clientId savePath none fs true)
  | step {fixed : Bool} {w w' : Worker} (cfg : HttpConfig) (e : Event) :
      Started fixed w → w.step cfg e = some w' → Started (fixedAfter fixed w w') w'
  | restored {fixed : Bool} {w : Worker} {a : Archive} (url clientId savePath : String) (fs : Fs)
      (granted : Bool) : Started fixed w → w.emitted = some a →
      Started (fixed && !(startWorker url clientId savePath (some a) fs granted).task.probing)
        (startWorker url clientId savePath (some a) fs granted)

theorem sound_startWorker {fixed : Bool} (url clientId savePath : String) {archive : Option Archive}
    (fs : Fs) (granted : Bool)
    (hsaved : fixed → ∀ a, archive = some a → 0 < a.totalSize ∧ Laid a.extents a.totalSize) :
    Sound (fixed && !(startWorker url clientId savePath archive fs granted).task.probing)
      (startWorker url clientId savePath archive fs granted) := by
  rcases startFrom_cases url clientId savePath archive fs granted with heq | ⟨a, ha, -, -, -, heq⟩
  · have hprobing : (startWorker url clientId savePath archive fs granted).task.probing = true := by
      simp [startWorker, heq, taskCreateNew]
    rw [hprobing, Bool.not_true, Bool.and_false]
    refine ⟨?_, fun _ => ⟨?_, rfl, rfl⟩, fun _ h => absurd rfl h, by simp, by simp, by simp⟩ <;>
      simp only [startWorker, heq]
    · rfl
    · exact ⟨rfl, rfl, rfl⟩
  · have hprobing : (startWorker url clientId savePath archive fs granted).task.probing = false := by
      simp [startWorker, heq, continueFrom]
    rw [hprobing, Bool.not_false, Bool.and_true]
    refine ⟨?_, fun h => absurd (hprobing ▸ h) (by simp), fun h => absurd (hprobing ▸ h) (by simp),
      fun hfixed => ?_, fun _ e he => absurd he (by simp [startWorker]),
      fun _ a ha => absurd ha (by simp [startWorker])⟩ <;> simp only [startWorker, heq]
    · simp [continueFrom]
    · obtain ⟨hpos, hlaid⟩ := hsaved hfixed a ha
      refine ⟨hpos, Or.inl ?_⟩
      have hextents : ((taskCreateNew url clientId savePath).continueFrom
          (deserializeResume a)).extents = a.extents := by
        simp [extents, continueFrom, deserializeResume, Archive.extents]
      rw [hextents]
      exact hlaid

theorem sound_of_started {fixed : Bool} {w : Worker} (h : Started fixed w) : Sound fixed w := by
  induction h with
  | fresh url clientId savePath fs =>
      have hsaved : false = true → ∀ a : Archive, none = some a →
          0 < a.totalSize ∧ Laid a.extents a.totalSize := by simp
      simpa using sound_startWorker url clientId savePath fs true hsaved
  | step cfg e _ hstep ih => exact ih.step hstep
  | restored url clientId savePath fs granted _ ha ih =>
      refine sound_startWorker url clientId savePath fs granted fun hfixed b hb => ?_
      obtain rfl := Option.some.inj hb
      exact ih.saved hfixed _ ha

/-- The parts are apart, in the file and counted right; every write was made where its part stood,
in that part's interval, and no two parts ever wrote to the same place. -/
structure WriteSafe (w : Worker) : Prop where
  apart : ∀ i j (hi : i < w.task.parts.length) (hj : j < w.task.parts.length), i ≠ j →
    ∀ x, ¬ ((w.task.parts[i].start ≤ x ∧ x ≤ w.task.parts[i].endByte) ∧
      (w.task.parts[j].start ≤ x ∧ x ≤ w.task.parts[j].endByte))
  inFile : ∀ p ∈ w.task.parts, ∀ x, p.start ≤ x → x ≤ p.endByte → 0 ≤ x ∧ x < w.task.totalSize
  counted : ∀ p ∈ w.task.parts, 0 ≤ p.done ∧ p.done ≤ p.size ∧ p.size = p.endByte - p.start + 1
  written : ∀ e ∈ w.pwrites, ∃ p, w.task.parts[e.index]? = some p ∧ p.start = e.part.start ∧
    p.endByte = e.part.endByte ∧ e.off = e.part.start + e.part.done ∧ p.start ≤ e.off ∧
    e.off + e.len ≤ p.endByte + 1
  writtenInFile : ∀ e ∈ w.pwrites, 0 ≤ e.off ∧ e.off + e.len ≤ w.task.totalSize
  writtenApart : ∀ e ∈ w.pwrites, ∀ f ∈ w.pwrites, e.index ≠ f.index →
    e.off + e.len ≤ f.off ∨ f.off + f.len ≤ e.off

namespace Sound

variable {w : Worker}

theorem ranges (h : Sound true w) :
    (∀ r ∈ w.task.extents.map Extent.range, 0 ≤ r.1 ∧ r.2 < w.task.totalSize) ∧
      (w.task.extents.map Extent.range).Pairwise fun a b => a.2 < b.1 := by
  obtain ⟨hpos, hlaid | hrefused⟩ := h.laid rfl
  · refine ⟨fun r hr => ?_, hlaid.tiles.pairwise⟩
    have := hlaid.tiles.mem_range hr
    omega
  · rw [hrefused.unprobed.extents]
    refine ⟨fun r hr => ?_, List.pairwise_singleton _ _⟩
    obtain rfl := List.mem_singleton.mp hr
    simpa [Extent.range] using by omega

theorem counted (h : Sound true w) {p : PartState} (hp : p ∈ w.task.parts) :
    0 ≤ p.done ∧ p.done ≤ p.size ∧ p.size = p.endByte - p.start + 1 := by
  have hmem : p.extent ∈ w.task.extents := List.mem_map_of_mem hp
  obtain ⟨-, hlaid | hrefused⟩ := h.laid rfl
  · have hcounted := hlaid.counted _ hmem
    have hsized := hlaid.sized _ hmem
    exact ⟨hcounted.1, hcounted.2, hsized⟩
  · rw [hrefused.unprobed.extents, List.mem_singleton] at hmem
    have hstart : p.start = 0 := congrArg Extent.start hmem
    have hend : p.endByte = -1 := congrArg Extent.endByte hmem
    have hsize : p.size = 0 := congrArg Extent.size hmem
    have hdone : p.done = 0 := congrArg Extent.done hmem
    omega

theorem writeSafe (h : Sound true w) : WriteSafe w := by
  obtain ⟨hin, hpairwise⟩ := h.ranges
  have hplaced := h.placed rfl
  -- of two positions, the earlier part ends before the later one begins
  have hordered : ∀ {i j : Nat} {a b : Int × Int}, i < j →
      (w.task.extents.map Extent.range)[i]? = some a →
      (w.task.extents.map Extent.range)[j]? = some b → a.2 < b.1 := by
    intro i j a b hij ha hb
    obtain ⟨hi, rfl⟩ := List.getElem?_eq_some_iff.mp ha
    obtain ⟨hj, rfl⟩ := List.getElem?_eq_some_iff.mp hb
    exact List.pairwise_iff_getElem.mp hpairwise i j hi hj hij
  have hrange : ∀ {i : Nat} (hi : i < w.task.parts.length),
      (w.task.extents.map Extent.range)[i]?
        = some (w.task.parts[i].start, w.task.parts[i].endByte) := by
    intro i hi
    simp [extents, hi, Extent.range, PartState.extent]
  refine ⟨?_, ?_, fun p hp => h.counted hp, ?_, ?_, ?_⟩
  · rintro i j hi hj hne x ⟨⟨hilo, hihi⟩, hjlo, hjhi⟩
    rcases lt_or_gt_of_ne hne with hlt | hgt
    · have := hordered hlt (hrange hi) (hrange hj)
      simp only at this
      omega
    · have := hordered hgt (hrange hj) (hrange hi)
      simp only at this
      omega
  · intro p hp x hlo hhi
    have := hin (p.start, p.endByte)
      (List.mem_map_of_mem (f := Extent.range) (List.mem_map_of_mem (f := PartState.extent) hp))
    simp only at this
    omega
  · intro e he
    obtain ⟨hpart, hoff, hlower, hupper⟩ := hplaced e he
    rw [extents, List.map_map, List.getElem?_map, Option.map_eq_some_iff] at hpart
    obtain ⟨p, hp, hbounds⟩ := hpart
    obtain ⟨hstart, hend⟩ := Prod.mk.inj hbounds
    simp only [PartState.extent] at hstart hend
    exact ⟨p, hp, hstart, hend, hoff, by omega, by omega⟩
  · intro e he
    obtain ⟨hpart, hoff, hlower, hupper⟩ := hplaced e he
    have := hin _ (List.mem_of_getElem? hpart)
    simp only at this
    omega
  · intro e he f hf hne
    obtain ⟨hepart, -, helower, heupper⟩ := hplaced e he
    obtain ⟨hfpart, -, hflower, hfupper⟩ := hplaced f hf
    rcases lt_or_gt_of_ne hne with hlt | hgt
    · have := hordered hlt hepart hfpart
      simp only at this
      omega
    · have := hordered hgt hfpart hepart
      simp only at this
      omega

end Sound

/-- **Write safety against an arbitrary server.** Once `finalize_probing` has fixed a positive total,
whatever the connections deliver, in whatever order, through any restart from a saved archive. -/
theorem writeSafe_of_started {w : Worker} (h : Started true w) : WriteSafe w :=
  (sound_of_started h).writeSafe

def stepFixed (cfg : HttpConfig) (s : Bool × Worker) (e : Event) : Option (Bool × Worker) :=
  (s.2.step cfg e).map fun w => (fixedAfter s.1 s.2 w, w)

theorem Started.of_reaches {cfg : HttpConfig} {s t : Bool × Worker} (h : Started s.1 s.2)
    (hrun : Transition.Reaches (stepFixed cfg) Transition.anyEvent s t) : Started t.1 t.2 := by
  have hstep : ∀ s e t, Started s.1 s.2 → Transition.anyEvent s e →
      stepFixed cfg s e = some t → Started t.1 t.2 := by
    intro s e t hs _ hstep
    obtain ⟨w, hw, rfl⟩ := Option.map_eq_some_iff.mp hstep
    exact .step cfg e hs hw
  exact hrun.invariant hstep h

/-- Boost.URL where it parses nothing: names come from the last slash on. -/
def noUrlLib : UrlLib := ⟨fun _ => none, id⟩

def plainCfg : HttpConfig := syncConfig 3 4 (1024 * 1024)

def grantAll : WriteEnv := { probe := { urlLib := noUrlLib } }

def emptyFs : Fs := fun _ => none

def splitRun : List Event :=
  [.enter true fun _ => true, .header 0 "HTTP/1.1 206 Partial Content\r\n",
    .header 0 "Content-Range: bytes 0-1048575/3145728\r\n", .body 0 [1, 2, 3] grantAll,
    .performed true fun _ => true, .drained, .body 1 [4] grantAll]

theorem writeSafe_of_started_splitRun :
    ∃ w, Started true w ∧ w.task.parts.map PartState.done = [3, 1, 0, 0] ∧ WriteSafe w := by
  have hplayed : ((Transition.play (stepFixed plainCfg) Transition.anyEvent
      (false, startWorker "http://h/f.bin" "c" "/d" none emptyFs true) splitRun).map fun s =>
        (s.1, s.2.task.parts.map PartState.done)) = some (true, [3, 1, 0, 0]) := by decide +kernel
  obtain ⟨⟨fixed, w⟩, hrun, hvalues⟩ := Option.map_eq_some_iff.mp hplayed
  obtain ⟨hfixed, hdone⟩ := Prod.mk.inj hvalues
  have hstarted : Started fixed w := Started.of_reaches
    (.fresh "http://h/f.bin" "c" "/d" emptyFs) (Transition.reaches_of_play hrun)
  simp only at hfixed
  rw [hfixed] at hstarted
  exact ⟨w, hstarted, hdone, writeSafe_of_started hstarted⟩

end DownloadWrapper
