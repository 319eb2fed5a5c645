import DownloadWrapper.Http.Place

/-!
# How far a worker has come

Once the probe is through, no step takes anything off what the parts have done, and what is saved is
the task as it is then. The client a task belongs to never changes.
-/

namespace DownloadWrapper

open TaskCtx

@[simp] theorem clientId_headerCb (t : TaskCtx) (i : Nat) (line : String) :
    (headerCb t i line).1.clientId = t.clientId := by
  rw [headerCb]
  split
  · rfl
  · unfold applyHeaderLine
    split <;> (try simp only) <;> (try split) <;> rfl

@[simp] theorem clientId_probed (cfg : HttpConfig) (env : WriteEnv) (fs : Fs) (t : TaskCtx)
    (i : Nat) : (probed cfg env fs t i).1.clientId = t.clientId := by
  rw [probed]
  split
  · rcases finalizeProbing_cases cfg env.probe fs t i with ⟨message, hfail⟩ | hlaid
    · rw [hfail]
      rfl
    · rw [hlaid, layOut]
      split <;> rfl
  · rfl

@[simp] theorem clientId_handlePartResult (cfg : HttpConfig) (t : TaskCtx) (i : Nat) (rc : CurlCode)
    (httpCode : Int) : (handlePartResult cfg t i rc httpCode).1.clientId = t.clientId := by
  simp only [handlePartResult]
  split_ifs <;> rfl

@[simp] theorem clientId_aggregateStatus (t : TaskCtx) :
    (aggregateStatus t).clientId = t.clientId := by
  rw [aggregateStatus]
  split_ifs <;> rfl

namespace Worker

@[simp] theorem clientId_addPart (t : TaskCtx) (i : Nat) (built : Bool) :
    (addPart t i built).clientId = t.clientId := by
  rw [addPart]
  split <;> rfl

@[simp] theorem clientId_spawnNewParts (built : Nat → Bool) (w : Worker) :
    (w.spawnNewParts built).task.clientId = w.task.clientId := by
  refine spawnNewParts_induction (P := fun v => v.task.clientId = w.task.clientId) built
    (fun v i h => ?_) rfl
  simp only [spawnPart]
  split
  · exact h
  · simpa using h

@[simp] theorem clientId_maybeEmitResume (w : Worker) :
    w.maybeEmitResume.task.clientId = w.task.clientId := by
  obtain ⟨emitDone, heq⟩ := maybeEmitResume_task w
  rw [heq]

end Worker

theorem TaskCtx.totalDone_of_extents {t t' : TaskCtx} (h : t'.extents = t.extents) :
    t'.totalDone = t.totalDone := by
  have hdones : ∀ t : TaskCtx, t.totalDone = (t.extents.map Extent.done).sum := by
    intro t
    rw [totalDone, extents, List.map_map]
    rfl
  rw [hdones, hdones, h]

theorem totalDone_completeUnsized (t : TaskCtx) (i : Nat) :
    (t.completeUnsized i).totalDone = t.totalDone := by
  simp only [totalDone, completeUnsized, modifyPart_parts]
  congr 1
  refine List.ext_getElem (by simp) fun j hj hj' => ?_
  simp only [List.getElem_map, List.getElem_modify]
  split <;> rfl

theorem totalDone_le_modifyPart (t : TaskCtx) (i : Nat) {f : PartState → PartState}
    (hf : ∀ p, p.done ≤ (f p).done) : t.totalDone ≤ (t.modifyPart i f).totalDone := by
  simp only [totalDone, modifyPart_parts]
  refine List.Forall₂.sum_le_sum (List.forall₂_iff_get.mpr ⟨by simp, fun j hj hj' => ?_⟩)
  simp only [List.get_eq_getElem, List.getElem_map, List.getElem_modify]
  split
  · exact hf _
  · exact le_rfl

def Archive.totalDone (a : Archive) : Int := (a.parts.map ArchivedPart.done).sum

@[simp] theorem totalDone_serializeResume (t : TaskCtx) :
    (serializeResume t).totalDone = t.totalDone := by
  rw [Archive.totalDone, serializeResume, TaskCtx.totalDone, List.map_map]
  rfl

@[simp] theorem totalDone_continueFrom (t : TaskCtx) (a : Archive) :
    (t.continueFrom (deserializeResume a)).totalDone = a.totalDone := by
  rw [Archive.totalDone, TaskCtx.totalDone, continueFrom, deserializeResume, List.map_map]
  rfl

/-! ### One step -/

/-- The same task later on: once its probe is through, it has done no less. -/
structure TaskCtx.Advances (t t' : TaskCtx) : Prop where
  clientId : t'.clientId = t.clientId
  probing : t.probing = false → t'.probing = false
  totalDone : t.probing = false → t.totalDone ≤ t'.totalDone

theorem TaskCtx.Advances.refl (t : TaskCtx) : Advances t t := ⟨rfl, id, fun _ => le_rfl⟩

/-- A step of a worker: it goes forward, and saves what it has come to if it saves. -/
structure Progresses (w w' : Worker) : Prop extends Advances w.task w'.task where
  emitted : w'.emitted = w.emitted ∨ w'.emitted = some (serializeResume w'.task)

namespace Progresses

variable {w w' : Worker}

theorem of_quiet (h : TaskCtx.Quiet w.task w'.task) (hclient : w'.task.clientId = w.task.clientId)
    (hemitted : w'.emitted = w.emitted) : Progresses w w' where
  clientId := hclient
  probing hprobing := h.probing.trans hprobing
  totalDone _ := (totalDone_of_extents h.extents).ge
  emitted := Or.inl hemitted

theorem refl (w : Worker) : Progresses w w := of_quiet (.refl _) rfl rfl

/-- Where a step keeps the task but for its flags, what is saved stays what the task has come to. -/
theorem then_same {w'' : Worker} (h : Progresses w w')
    (hsaved : serializeResume w''.task = serializeResume w'.task)
    (hclient : w''.task.clientId = w'.task.clientId) (hprobing : w''.task.probing = w'.task.probing)
    (hemitted : w''.emitted = w'.emitted) : Progresses w w'' where
  clientId := hclient.trans h.clientId
  probing hsettled := hprobing.trans (h.probing hsettled)
  totalDone hsettled := by
    have hdone := congrArg Archive.totalDone hsaved
    rw [totalDone_serializeResume, totalDone_serializeResume] at hdone
    exact hdone ▸ h.totalDone hsettled
  emitted := by
    rw [hemitted, hsaved]
    exact h.emitted

theorem maybeEmitResume (w : Worker) : Progresses w w.maybeEmitResume := by
  have hsteady := Worker.steady_maybeEmitResume w
  have hquiet : Progresses w { w.maybeEmitResume with emitted := w.emitted } :=
    of_quiet hsteady.toQuiet (by simp) rfl
  refine { hquiet with emitted := ?_ }
  rw [Worker.maybeEmitResume]
  split
  · exact Or.inl rfl
  · exact Or.inr rfl

theorem enter (w : Worker) (multiOk : Bool) (built : Nat → Bool) :
    Progresses w (w.enter multiOk built) := by
  rw [Worker.enter]
  split
  · exact (refl w).then_same rfl rfl rfl rfl
  split
  · have hpaused := maybeEmitResume (w.modifyTask fun t => { t with status := .paused })
    have hmarked : Progresses w (w.modifyTask fun t => { t with status := .paused }) :=
      (refl w).then_same rfl rfl rfl rfl
    exact {
      clientId := hpaused.clientId.trans hmarked.clientId
      probing := fun hsettled => hpaused.probing (hmarked.probing hsettled)
      totalDone := fun hsettled =>
        (hmarked.totalDone hsettled).trans (hpaused.totalDone (hmarked.probing hsettled))
      emitted := hpaused.emitted }
  split
  · exact of_quiet (Worker.steady_threadFailed w.task).toQuiet rfl rfl
  · refine of_quiet ?_ ?_ ?_
    · rw [Worker.loopHead_task]
      exact (Worker.steady_spawnNewParts built w).toQuiet
    · rw [Worker.loopHead_task, Worker.clientId_spawnNewParts]
    · simp

theorem message (cfg : HttpConfig) (w : Worker) (i : Nat) (rc : CurlCode) (httpCode : Int)
    (built : Bool) : Progresses w (w.message cfg i rc httpCode built) := by
  have hprobing := Worker.message_probing cfg w i rc httpCode built
  have hdropped : (Worker.dropEasy w.task i).totalDone = w.task.totalDone := rfl
  have hresult : (handlePartResult cfg (Worker.dropEasy w.task i) i rc httpCode).1.totalDone =
      w.task.totalDone := by
    rcases handlePartResult_cases cfg (Worker.dropEasy w.task i) i rc httpCode with hs | ⟨-, heq⟩
    · exact (totalDone_of_extents hs.extents).trans hdropped
    · rw [heq, totalDone_completeUnsized, hdropped]
  refine ⟨⟨?_, fun hsettled => hprobing.trans hsettled, fun _ => ge_of_eq ?_⟩, Or.inl ?_⟩
  · simp only [Worker.message]
    split
    · rfl
    have hclient : (handlePartResult cfg (Worker.dropEasy w.task i) i rc httpCode).1.clientId =
        w.task.clientId := clientId_handlePartResult cfg _ i rc httpCode
    split
    · exact (Worker.clientId_addPart _ i built).trans hclient
    · exact hclient
  · simp only [Worker.message]
    split
    · rfl
    split
    · exact (totalDone_of_extents (Worker.steady_addPart _ i built).extents).trans hresult
    · exact hresult
  · simp only [Worker.message]
    split
    · rfl
    split <;> rfl

theorem body (cfg : HttpConfig) (w : Worker) (i : Nat) (data : List Byte) (env : WriteEnv) :
    Progresses w (w.body cfg i data env) := by
  -- what the callback leaves of the task, whatever becomes of the chunk
  have hwritten : ∀ out, writeCb cfg env w.fs w.task i data = out →
      out.task.clientId = w.task.clientId ∧ (w.task.probing = false →
        out.task.probing = false ∧ w.task.totalDone ≤ out.task.totalDone) := by
    rintro out rfl
    have hclient := clientId_probed cfg env w.fs w.task i
    have hprobing := probed_probing cfg env w.fs w.task i
    have hdone : w.task.probing = false →
        (probed cfg env w.fs w.task i).1.totalDone = w.task.totalDone := fun hsettled => by
      rw [probed_of_not_probing cfg env w.fs i hsettled]
    rcases writeCb_cases cfg env w.fs w.task i data with heq | ⟨-, -, ⟨-, heq⟩ | ⟨chunk, -, -, heq⟩⟩
    · rw [heq]
      exact ⟨rfl, fun hsettled => ⟨hsettled, le_rfl⟩⟩
    · rw [heq]
      exact ⟨hclient, fun hsettled => ⟨hprobing, (hdone hsettled).ge⟩⟩
    · rw [heq]
      have hout := writeChunk_outcome env (probed cfg env w.fs w.task i).2
        (probed cfg env w.fs w.task i).1 i chunk
      generalize writeChunk env (probed cfg env w.fs w.task i).2
        (probed cfg env w.fs w.task i).1 i chunk = out at hout
      cases hout with
      | missing =>
          have hsame := totalDone_of_extents
            (steady_writeFailed (probed cfg env w.fs w.task i).1 i "文件不存在").extents
          exact ⟨hclient, fun hsettled => ⟨hprobing, ((hsame.trans (hdone hsettled))).ge⟩⟩
      | failed granted text landed =>
          have hsame := totalDone_of_extents (steady_writeFailed
            ((probed cfg env w.fs w.task i).1.ensureOpen (probed cfg env w.fs w.task i).2 i granted)
            i text).extents
          exact ⟨hclient, fun hsettled => ⟨hprobing, (hsame.trans (hdone hsettled)).ge⟩⟩
      | stored granted =>
          refine ⟨hclient, fun hsettled => ⟨hprobing, ?_⟩⟩
          rw [← hdone hsettled]
          exact totalDone_le_modifyPart _ i fun p => by simp
  obtain ⟨hclient, hrest⟩ := hwritten _ rfl
  have hadvances := Advances.mk hclient (fun hsettled => (hrest hsettled).1)
    fun hsettled => (hrest hsettled).2
  simp only [Worker.body]
  split
  · exact ⟨hadvances, Or.inl rfl⟩
  · exact ⟨⟨hclient, hadvances.probing, hadvances.totalDone⟩, Or.inl rfl⟩

theorem close (w : Worker) : Progresses w w.close := by
  simp only [Worker.close]
  split
  · exact ⟨⟨rfl, id, fun _ => le_rfl⟩, Or.inr rfl⟩
  split
  · exact (maybeEmitResume w).then_same rfl rfl rfl rfl
  · exact (refl w).then_same rfl rfl rfl rfl

theorem exit (w : Worker) : Progresses w w.exit := by
  simp only [Worker.exit]
  split <;> exact (refl w).then_same rfl rfl rfl rfl

/-- **One step**: it goes forward. -/
theorem step {cfg : HttpConfig} {e : Event} (hstep : w.step cfg e = some w') : Progresses w w' := by
  cases Worker.stepped_of_step hstep with
  | @enter multiOk built hphase => exact enter w multiOk built
  | @header i line hphase hlive =>
      have hline := (steady_headerCb w.task i line).toQuiet
      refine of_quiet ?_ ?_ rfl
      · simp only [Worker.header]
        split
        · exact hline
        · exact hline.trans (steady_modifyCtx _ i _).toQuiet
      · simp only [Worker.header]
        split
        · exact clientId_headerCb w.task i line
        · exact clientId_headerCb w.task i line
  | @body i data env hphase hlive => exact body cfg w i data env
  | @performed built hphase =>
      exact of_quiet (Worker.steady_spawnNewParts built w).toQuiet (by simp) (by simp)
  | multiFailed hphase => exact (refl w).then_same rfl rfl rfl rfl
  | @message i rc httpCode built hphase heasy => exact message cfg w i rc httpCode built
  | drained hphase =>
      have hsame := Worker.loopHead_task w.maybeEmitResume
      refine (maybeEmitResume w).then_same ?_ ?_ ?_ (Worker.loopHead_emitted _)
      · rw [hsame]
      · rw [hsame]
      · rw [hsame]
  | raised hphase => exact of_quiet (Worker.steady_threadFailed _).toQuiet rfl rfl
  | raisedLate hphase => exact of_quiet (steady_fail _ _).toQuiet rfl rfl
  | leave hphase =>
      exact of_quiet ((Worker.steady_cleanupAll w.task).toQuiet.trans (quiet_aggregateStatus _))
        (clientId_aggregateStatus _) rfl
  | close hphase => exact close w
  | exit hphase => exact exit w
  | pauseRequest | deleteRequest | shutdown => exact (refl w).then_same rfl rfl rfl rfl

end Progresses

end DownloadWrapper
