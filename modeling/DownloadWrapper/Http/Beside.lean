import DownloadWrapper.Http.Frame

/-!
# What a connection leaves of the others

A callback or a result of one connection touches the context of that connection and of no other, and
a validator the task has once taken is never replaced.
-/

namespace DownloadWrapper

open TaskCtx

/-- The later task differs from the earlier one in connection `i` alone, as far as connections go,
and has its validator. -/
structure Beside (i : Nat) (t t' : TaskCtx) : Prop where
  etag : t.etag ≠ "" → t'.etag = t.etag
  ctx : ∀ j, j ≠ i → t'.ctx j = t.ctx j

namespace Beside

variable {i : Nat} {t t' t'' : TaskCtx}

theorem of_eq (hetag : t'.etag = t.etag) (hctxs : t'.partCtx = t.partCtx) : Beside i t t' :=
  ⟨fun _ => hetag, fun j _ => by rw [TaskCtx.ctx, hctxs, TaskCtx.ctx]⟩

theorem refl (t : TaskCtx) : Beside i t t := of_eq rfl rfl

theorem trans (h : Beside i t t') (h' : Beside i t' t'') : Beside i t t'' where
  etag hne := by
    have hetag := h.etag hne
    rw [h'.etag (hetag ▸ hne), hetag]
  ctx j hj := (h'.ctx j hj).trans (h.ctx j hj)

theorem modifyCtx (t : TaskCtx) (f : PartCtx → PartCtx) : Beside i t (t.modifyCtx i f) where
  etag _ := rfl
  ctx j hj := by simp [TaskCtx.ctx, List.getD, Ne.symm hj]

theorem after (h : Beside i t t') (hetag : t''.etag = t'.etag) (hctxs : t''.partCtx = t'.partCtx) :
    Beside i t t'' := h.trans (of_eq hetag hctxs)

theorem drift (h : Beside i t t') (drift : Prop) [Decidable drift] :
    Beside i t (if drift then (t'.markDriftError i, false) else (t', true)).1 := by
  split
  · exact h.after rfl rfl
  · exact h

theorem applyHeaderLine (t : TaskCtx) (line : HeaderLine) :
    Beside i t (applyHeaderLine t i line).1 := by
  cases line with
  | blank => exact refl t
  | other => exact refl t
  | status code =>
      cases code with
      | none => exact refl t
      | some code => exact (modifyCtx t _).drift _
  | contentRange total =>
      cases total with
      | none => exact refl t
      | some total =>
          have hsee : Beside i t (t.seeTotal i total) := (modifyCtx t _).after rfl rfl
          exact hsee.drift _
  | contentLength length =>
      cases length with
      | none => exact refl t
      | some length =>
          simp only [DownloadWrapper.applyHeaderLine]
          split
          · exact modifyCtx t _
          · exact refl t
  | contentDisposition name =>
      simp only [DownloadWrapper.applyHeaderLine]
      split
      · exact of_eq rfl rfl
      · exact refl t
  | etag value =>
      have hsee : Beside i t (t.seeEtag i value) :=
        ⟨fun hne => if_neg hne, (modifyCtx t fun c => { c with seenEtag := value }).ctx⟩
      exact hsee.drift _
  | lastModified value =>
      have hsee : Beside i t (t.seeLastModified i value) := (modifyCtx t _).after rfl rfl
      exact hsee.drift _

theorem headerCb (t : TaskCtx) (line : String) : Beside i t (headerCb t i line).1 := by
  rw [DownloadWrapper.headerCb]
  split
  · exact refl t
  · exact applyHeaderLine t _

theorem handlePartResult (cfg : HttpConfig) (t : TaskCtx) (rc : CurlCode) (httpCode : Int) :
    Beside i t (handlePartResult cfg t i rc httpCode).1 := by
  simp only [DownloadWrapper.handlePartResult]
  split
  · exact refl t
  split
  · exact of_eq rfl rfl
  split
  · exact modifyCtx t _
  split
  · exact of_eq rfl rfl
  split
  · split
    · exact modifyCtx t _
    · exact of_eq rfl rfl
  · split
    · exact modifyCtx t _
    · exact of_eq rfl rfl

theorem addPart (t : TaskCtx) (built : Bool) : Beside i t (Worker.addPart t i built) := by
  rw [Worker.addPart]
  split
  · exact modifyCtx t _
  · exact of_eq rfl rfl

theorem of_chunk {fs : Fs} {data : List Byte} {out : Written} (h : ChunkOutcome fs t i data out) :
    Beside i t out.task := by
  have hopen (granted : Bool) : Beside i t (t.ensureOpen fs i granted) := modifyCtx t _
  cases h with
  | missing => exact of_eq rfl rfl
  | failed granted message landed => exact (hopen granted).after rfl rfl
  | stored granted => exact (hopen granted).after rfl rfl

end Beside

theorem aggregateStatus_etag (t : TaskCtx) : (aggregateStatus t).etag = t.etag := by
  rw [aggregateStatus]
  split_ifs <;> rfl

theorem aggregateStatus_parts (t : TaskCtx) : (aggregateStatus t).parts = t.parts := by
  rw [aggregateStatus]
  split_ifs <;> rfl

theorem aggregateStatus_partCtx (t : TaskCtx) : (aggregateStatus t).partCtx = t.partCtx := by
  rw [aggregateStatus]
  split_ifs <;> rfl

namespace Worker

@[simp] theorem loopHead_spawned (w : Worker) : w.loopHead.spawned = w.spawned := by
  rw [loopHead]
  split <;> rfl

@[simp] theorem maybeEmitResume_spawned (w : Worker) : w.maybeEmitResume.spawned = w.spawned := by
  rw [maybeEmitResume]
  split <;> rfl

theorem message_spawned (cfg : HttpConfig) (w : Worker) (i : Nat) (rc : CurlCode) (httpCode : Int)
    (built : Bool) : (w.message cfg i rc httpCode built).spawned = w.spawned := by
  simp only [message]
  split
  · rfl
  split <;> rfl

theorem close_spawned (w : Worker) : w.close.spawned = w.spawned := by
  simp only [close]
  split
  · rfl
  split
  · exact maybeEmitResume_spawned w
  · rfl

theorem addPart_etag (t : TaskCtx) (i : Nat) (built : Bool) : (addPart t i built).etag = t.etag := by
  rw [addPart]
  split <;> rfl

theorem spawnPart_etag (built : Nat → Bool) (w : Worker) (i : Nat) :
    (spawnPart built w i).task.etag = w.task.etag := by
  simp only [spawnPart]
  split
  · rfl
  · exact addPart_etag _ i _

theorem spawnNewParts_etag (built : Nat → Bool) (w : Worker) :
    (w.spawnNewParts built).task.etag = w.task.etag :=
  spawnNewParts_induction (P := fun v => v.task.etag = w.task.etag) built
    (fun v i h => (spawnPart_etag built v i).trans h) rfl

end Worker

theorem startWorker_easy (url clientId savePath : String) (archive : Option Archive) (fs : Fs)
    (granted : Bool) (i : Nat) :
    ((startWorker url clientId savePath archive fs granted).task.ctx i).easy = none := by
  rcases startFrom_cases url clientId savePath archive fs granted with heq | ⟨a, -, -, -, -, heq⟩
  · rw [startWorker, heq]
    cases i <;> rfl
  · rw [startWorker, heq]
    simp only [ctx, continueFrom, List.getD, List.getElem?_mapIdx]
    cases (deserializeResume a).parts[i]? <;> rfl

end DownloadWrapper
