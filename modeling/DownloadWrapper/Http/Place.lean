import DownloadWrapper.Http.Fallback
import DownloadWrapper.Http.Layout

/-!
# The file's place in one worker

The first body byte that is let in says where the file is; every later one writes there. Nothing else
a worker does moves the file or touches the disk.
-/

namespace DownloadWrapper

open TaskCtx

/-- What the callbacks and the loop leave alone: only a body byte says where the file is, and only it
touches the disk. -/
structure SamePlace (w w' : Worker) : Prop where
  probing : w'.task.probing = w.task.probing
  path : w'.task.fullFilePath = w.task.fullFilePath
  fs : w'.fs = w.fs

namespace SamePlace

variable {w w' : Worker}

theorem of_quiet (h : TaskCtx.Quiet w.task w'.task) (hfs : w'.fs = w.fs) : SamePlace w w' :=
  ⟨h.probing, h.fullFilePath, hfs⟩

theorem enter (w : Worker) (multiOk : Bool) (built : Nat → Bool) :
    SamePlace w (w.enter multiOk built) := by
  rw [Worker.enter]
  split
  · exact ⟨rfl, rfl, rfl⟩
  split
  · have hsaved := Worker.steady_maybeEmitResume (w.modifyTask fun t => { t with status := .paused })
    exact ⟨hsaved.probing, hsaved.fullFilePath, Worker.maybeEmitResume_fs _⟩
  split
  · exact ⟨rfl, rfl, rfl⟩
  · have hspawned := Worker.steady_spawnNewParts built w
    refine ⟨?_, ?_, by simp⟩
    · rw [Worker.loopHead_task, hspawned.probing]
    · rw [Worker.loopHead_task, hspawned.fullFilePath]

theorem message (cfg : HttpConfig) (w : Worker) (i : Nat) (rc : CurlCode) (httpCode : Int)
    (built : Bool) : SamePlace w (w.message cfg i rc httpCode built) := by
  refine ⟨Worker.message_probing cfg w i rc httpCode built, ?_, ?_⟩
  · simp only [Worker.message]
    split
    · rfl
    have hresult : (handlePartResult cfg (Worker.dropEasy w.task i) i rc httpCode).1.fullFilePath =
        w.task.fullFilePath := by
      rcases handlePartResult_cases cfg (Worker.dropEasy w.task i) i rc httpCode with hs | ⟨-, heq⟩
      · exact hs.fullFilePath
      · rw [heq]
        rfl
    split
    · exact (Worker.steady_addPart _ i built).fullFilePath.trans hresult
    · exact hresult
  · simp only [Worker.message]
    split
    · rfl
    split <;> rfl

theorem close (w : Worker) : SamePlace w w.close := by
  refine ⟨Worker.close_probing w, ?_, ?_⟩
  · simp only [Worker.close]
    split
    · rfl
    split
    · exact (Worker.steady_maybeEmitResume w).fullFilePath
    · rfl
  · simp only [Worker.close]
    split
    · rfl
    split
    · exact Worker.maybeEmitResume_fs w
    · rfl

theorem exit (w : Worker) : SamePlace w w.exit := by
  refine ⟨Worker.exit_probing w, ?_, ?_⟩ <;>
  · simp only [Worker.exit]
    split <;> rfl

theorem step {cfg : HttpConfig} {e : Event} (hstep : w.step cfg e = some w')
    (hbody : ∀ i data env, e ≠ .body i data env) : SamePlace w w' := by
  cases Worker.stepped_of_step hstep with
  | @enter multiOk built hphase => exact enter w multiOk built
  | @header i line hphase hlive =>
      have hline := (steady_headerCb w.task i line).toQuiet
      refine of_quiet ?_ rfl
      simp only [Worker.header]
      split
      · exact hline
      · exact hline.trans (steady_modifyCtx _ i _).toQuiet
  | @body i data env hphase hlive => exact absurd rfl (hbody i data env)
  | @performed built hphase =>
      exact of_quiet (Worker.steady_spawnNewParts built w).toQuiet (Worker.spawnNewParts_fs built w)
  | multiFailed hphase => exact ⟨rfl, rfl, rfl⟩
  | @message i rc httpCode built hphase heasy => exact message cfg w i rc httpCode built
  | drained hphase =>
      have hsaved := Worker.steady_maybeEmitResume w
      refine ⟨?_, ?_, by simp⟩
      · rw [Worker.loopHead_task, hsaved.probing]
      · rw [Worker.loopHead_task, hsaved.fullFilePath]
  | raised hphase => exact of_quiet (Worker.steady_threadFailed _).toQuiet rfl
  | raisedLate hphase => exact of_quiet (steady_fail _ _).toQuiet rfl
  | leave hphase =>
      exact of_quiet ((Worker.steady_cleanupAll w.task).toQuiet.trans (quiet_aggregateStatus _)) rfl
  | close hphase => exact close w
  | exit hphase => exact exit w
  | pauseRequest | deleteRequest | shutdown => exact ⟨rfl, rfl, rfl⟩

end SamePlace

/-- The door of the write callback is open to a chunk. -/
def admits (t : TaskCtx) (data : List Byte) : Bool :=
  t.status ≠ .error && !t.cancelReq && !t.pauseReq && data ≠ []

theorem samePlace_body_of_shut (cfg : HttpConfig) {w : Worker} (i : Nat) {data : List Byte}
    (env : WriteEnv) (hshut : admits w.task data = false) : SamePlace w (w.body cfg i data env) := by
  have hturned : writeCb cfg env w.fs w.task i data = ⟨w.task, w.fs, 0, none⟩ := by
    rw [writeCb, if_pos]
    simpa [admits, or_iff_not_imp_left] using hshut
  simp only [Worker.body, hturned]
  split <;> exact ⟨rfl, rfl, rfl⟩

/-- A chunk that is let in finds the place `probed` settles, and touches the file there alone. -/
theorem place_body (cfg : HttpConfig) {w : Worker} (i : Nat) {data : List Byte} (env : WriteEnv)
    (hopen : admits w.task data = true) :
    (w.body cfg i data env).task.probing = false ∧
      (w.body cfg i data env).task.fullFilePath =
        (probed cfg env w.fs w.task i).1.fullFilePath ∧
      OnlyFile (probed cfg env w.fs w.task i).1.fullFilePath (probed cfg env w.fs w.task i).2
        (w.body cfg i data env).fs := by
  have hprobing := probed_probing cfg env w.fs w.task i
  have hwritten : ∃ t fs consumed issued, writeCb cfg env w.fs w.task i data =
        ⟨t, fs, consumed, issued⟩ ∧ t.probing = false ∧
      t.fullFilePath = (probed cfg env w.fs w.task i).1.fullFilePath ∧
      OnlyFile (probed cfg env w.fs w.task i).1.fullFilePath (probed cfg env w.fs w.task i).2 fs := by
    have hdoor : ¬ (w.task.status = .error ∨ w.task.cancelReq = true ∨ w.task.pauseReq = true ∨
        data = []) := by simpa [admits, and_assoc] using hopen
    rw [writeCb, if_neg hdoor]
    generalize probed cfg env w.fs w.task i = start at hprobing
    obtain ⟨t, fs⟩ := start
    simp only
    split
    · exact ⟨t, fs, 0, none, rfl, hprobing, rfl, .refl _ _⟩
    split
    · exact ⟨t, fs, 0, none, rfl, hprobing, rfl, .refl _ _⟩
    next chunk _ =>
      have hout := writeChunk_outcome env fs t i chunk
      generalize writeChunk env fs t i chunk = out at hout
      cases hout with
      | missing => exact ⟨_, _, _, _, rfl, hprobing, rfl, .refl _ _⟩
      | failed granted message landed => exact ⟨_, _, _, _, rfl, hprobing, rfl, .pwrite _ _ _ _⟩
      | stored granted => exact ⟨_, _, _, _, rfl, hprobing, rfl, .pwrite _ _ _ _⟩
  obtain ⟨t, fs, consumed, issued, heq, hplace⟩ := hwritten
  simp only [Worker.body, heq]
  split <;> exact hplace

end DownloadWrapper
