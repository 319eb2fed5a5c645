import DownloadWrapper.Http.Loop
import DownloadWrapper.Http.PartInvariant

/-!
# What an archive brings back

An archive keeps of a part its number, its interval and its count; size and completion are computed
from the interval when it is read. That is faithful for a part with a known length. A part whose
length became known only at its completion keeps the empty interval `[0, -1]`, and its completion is
lost: these are the only states that do not come back as they were saved.
-/

namespace DownloadWrapper

open TaskCtx

def PartState.complete (p : PartState) : Prop := p.status = .completed ∨ 0 < p.size ∧ p.size ≤ p.done

structure SamePart (p q : PartState) : Prop where
  index : q.index = p.index
  start : q.start = p.start
  endByte : q.endByte = p.endByte
  size : q.size = p.size
  done : q.done = p.done
  completed : q.status = .completed ↔ p.complete

/-- What is saved of the task comes back, and a completed task asks for nothing any more. -/
structure RoundTrips (t : TaskCtx) : Prop where
  ok : (deserializeResume (serializeResume t)).ok = true
  totalSize : (deserializeResume (serializeResume t)).totalSize = t.totalSize
  supportRange : (deserializeResume (serializeResume t)).supportRange = t.supportRange
  etag : (deserializeResume (serializeResume t)).etag = t.etag
  lastModified : (deserializeResume (serializeResume t)).lastModified = t.lastModified
  path : (deserializeResume (serializeResume t)).fullFilePath = t.fullFilePath
  parts : List.Forall₂ SamePart t.parts (deserializeResume (serializeResume t)).parts
  settled : t.status = .completed →
    ∀ q ∈ (deserializeResume (serializeResume t)).parts, q.status = .completed
  idle : t.status = .completed → ∀ (url clientId savePath : String) (fs : Fs) (granted : Bool)
    (built : Nat → Bool),
    (startWorker url clientId savePath (some (serializeResume t)) fs granted).task.probing = false →
    ∀ i, ((startWorker url clientId savePath (some (serializeResume t)) fs granted).enter true
      built).task.owns i = false

/-- No part was completed whose length was not known before. -/
def LengthsKnown (t : TaskCtx) : Prop := ∀ p ∈ t.parts, p.status = .completed → p.start ≤ p.endByte

instance (t : TaskCtx) : Decidable (LengthsKnown t) :=
  inferInstanceAs (Decidable (∀ p ∈ t.parts, _ → _))

structure Sized (p : PartState) : Prop where
  bounds : p.start ≤ p.endByte
  size : p.size = p.endByte - p.start + 1
  full : p.status = .completed → p.size ≤ p.done

structure Unbounded (p : PartState) : Prop where
  bounds : p.endByte < p.start
  size : p.size = 0 ∨ p.status = .completed

inductive Shaped : List PartState → Prop
  | sized {parts : List PartState} : parts ≠ [] → (∀ p ∈ parts, Sized p) → Shaped parts
  | unbounded {p : PartState} : Unbounded p → Shaped [p]

/-- A part as it is read back. -/
def PartState.reread (p : PartState) : PartState :=
  ArchivedPart.restore ⟨p.index, p.start, p.endByte, p.done⟩

theorem parts_deserialize_serialize (t : TaskCtx) :
    (deserializeResume (serializeResume t)).parts = t.parts.map PartState.reread := by
  simp only [deserializeResume, serializeResume, List.map_map]
  rfl

theorem Sized.size_pos {p : PartState} (h : Sized p) : 0 < p.size := by
  have hbounds := h.bounds
  have hsize := h.size
  omega

theorem Sized.samePart {p : PartState} (h : Sized p) : SamePart p p.reread := by
  have hsize : p.reread.size = p.size := by
    simp only [PartState.reread, ArchivedPart.restore, if_pos h.bounds, h.size]
  have hstatus : p.reread.status = .completed ↔ 0 < p.size ∧ p.size ≤ p.done := by
    simp only [PartState.reread, ArchivedPart.restore, if_pos h.bounds, ← h.size]
    split <;> simp_all
  refine ⟨rfl, rfl, rfl, hsize, rfl, hstatus.trans ⟨Or.inr, fun hcomplete => ?_⟩⟩
  rcases hcomplete with hcompleted | hfull
  · exact ⟨h.size_pos, h.full hcompleted⟩
  · exact hfull

theorem Unbounded.samePart_iff {p : PartState} (h : Unbounded p) :
    SamePart p p.reread ↔ p.status ≠ .completed := by
  have hbounds : ¬ p.start ≤ p.endByte := not_le.mpr h.bounds
  have hsize : p.reread.size = 0 := by
    simp [PartState.reread, ArchivedPart.restore, hbounds]
  have hstatus : p.reread.status = .downloading := by
    simp [PartState.reread, ArchivedPart.restore, hbounds]
  constructor
  · intro hsame hcompleted
    have := hsame.completed.mpr (Or.inl hcompleted)
    simp [hstatus] at this
  · intro hopen
    have hzero : p.size = 0 := h.size.resolve_right hopen
    refine ⟨rfl, rfl, rfl, hsize.trans hzero.symm, rfl, ?_⟩
    simp [hstatus, PartState.complete, hopen, hzero]

theorem sized_reread {p : PartState} (h : Sized p) : Sized p.reread := by
  have hsame := h.samePart
  refine ⟨h.bounds, hsame.size.trans h.size, fun hcompleted => ?_⟩
  rw [hsame.size]
  rcases hsame.completed.mp hcompleted with hcompleted | hfull
  · exact h.full hcompleted
  · exact hfull.2

theorem Shaped.ne_nil {parts : List PartState} (h : Shaped parts) : parts ≠ [] := by
  cases h with
  | sized hne _ => exact hne
  | unbounded _ => simp

theorem Shaped.reread {parts : List PartState} (h : Shaped parts) :
    Shaped (parts.map PartState.reread) := by
  cases h with
  | sized hne hall =>
      refine .sized (by simpa using hne) fun q hq => ?_
      obtain ⟨p, hp, rfl⟩ := List.mem_map.mp hq
      exact sized_reread (hall p hp)
  | @unbounded p hp =>
      refine .unbounded ⟨hp.bounds, Or.inl ?_⟩
      simp [PartState.reread, ArchivedPart.restore, not_le.mpr hp.bounds]

/-! ### What steps make of the parts -/

theorem Sized.of_marked {p q : PartState} (h : Sized p) (hm : Marked p q) : Sized q := by
  have hstart : q.start = p.start := congrArg Extent.start hm.extent
  have hend : q.endByte = p.endByte := congrArg Extent.endByte hm.extent
  have hsize : q.size = p.size := congrArg Extent.size hm.extent
  have hdone : q.done = p.done := congrArg Extent.done hm.extent
  refine ⟨by rw [hstart, hend]; exact h.bounds, by rw [hstart, hend, hsize]; exact h.size, ?_⟩
  rw [hsize, hdone]
  intro hcompleted
  rcases hm.status with hsame | herror | ⟨-, -, -, hfull⟩
  · exact h.full (hsame ▸ hcompleted)
  · simp [hcompleted] at herror
  · exact hfull

theorem Shaped.of_steady {t t' : TaskCtx} (h : Shaped t.parts) (hs : Steady t t')
    (hkeep : ∀ p, t.parts = [p] → p.status = .completed → t'.parts = t.parts) : Shaped t'.parts := by
  have hmarked := hs.marked
  generalize hparts : t.parts = parts at h hmarked
  cases h with
  | sized hne hall =>
      refine .sized (fun hnil => hne ?_) fun q hq => ?_
      · rw [hnil, List.forall₂_nil_right_iff] at hmarked
        exact hmarked
      · obtain ⟨i, hi, rfl⟩ := List.getElem_of_mem hq
        have hi' : i < parts.length := hmarked.length_eq ▸ hi
        exact (hall _ (List.getElem_mem hi')).of_marked ((List.forall₂_iff_get.mp hmarked).2 i hi' hi)
  | @unbounded p hp =>
      by_cases hcompleted : p.status = .completed
      · rw [hkeep p hparts hcompleted, hparts]
        exact .unbounded hp
      · rw [List.forall₂_cons_left_iff] at hmarked
        obtain ⟨q, rest, hq, hrest, hparts'⟩ := hmarked
        rw [List.forall₂_nil_left_iff] at hrest
        have hstart : q.start = p.start := congrArg Extent.start hq.extent
        have hend : q.endByte = p.endByte := congrArg Extent.endByte hq.extent
        have hsize : q.size = p.size := congrArg Extent.size hq.extent
        rw [hparts', hrest]
        exact .unbounded ⟨by rw [hstart, hend]; exact hp.bounds,
          Or.inl (hsize.trans (hp.size.resolve_right hcompleted))⟩

theorem Shaped.count {t : TaskCtx} (h : Shaped t.parts) (i n : Nat) :
    Shaped (t.modifyPart i fun p => { p with done := p.done + n }).parts := by
  rw [modifyPart_parts]
  generalize t.parts = parts at h ⊢
  cases h with
  | sized hne hall =>
      refine .sized (by simpa using hne) fun q hq => ?_
      obtain ⟨j, hj, rfl⟩ := List.getElem_of_mem hq
      have hj' : j < parts.length := by simpa using hj
      have hpart := hall _ (List.getElem_mem hj')
      rw [List.getElem_modify]
      split
      · exact ⟨hpart.bounds, hpart.size, fun hc => by have := hpart.full hc; simp only; omega⟩
      · exact hpart
  | @unbounded p hp =>
      cases i with
      | zero => exact .unbounded ⟨hp.bounds, hp.size⟩
      | succ i => simpa using Shaped.unbounded hp

theorem Shaped.completeUnsized {t : TaskCtx} (h : Shaped t.parts) {i : Nat} (hi : i < t.parts.length)
    (hsize : (t.part i).size ≤ 0) : Shaped (t.completeUnsized i).parts := by
  simp only [TaskCtx.completeUnsized, modifyPart_parts]
  rw [part_eq_getElem hi] at hsize
  generalize t.parts = parts at h hi hsize ⊢
  cases h with
  | sized hne hall =>
      have := (hall _ (List.getElem_mem hi)).size_pos
      omega
  | @unbounded p hp =>
      have hzero : i = 0 := by simpa using hi
      subst hzero
      exact .unbounded ⟨hp.bounds, Or.inr rfl⟩

/-- Finalizing the probe: a known total gives every part its length, an unknown one leaves a lone
part of unknown length. -/
theorem shaped_layOut (cfg : HttpConfig) {t : TaskCtx} (code : Int) (h : t.Unprobed)
    (hopen : ∀ p ∈ t.parts, p.status ≠ .completed) : Shaped (t.layOut cfg code).parts := by
  by_cases htotal : 0 < t.totalSize
  · have hlaid := layOut_laid cfg code h htotal
    have hincomplete := layOut_not_completed cfg code hopen
    refine .sized (fun hnil => ?_) fun p hp => ?_
    · have hlength := length_le_layOut cfg t code
      obtain ⟨q, hq, -⟩ := h.parts
      simp [hnil, hq] at hlength
    · have hmem : p.extent ∈ (t.layOut cfg code).extents := List.mem_map_of_mem hp
      exact ⟨(hlaid.bounds hmem).2.1, hlaid.sized _ hmem, fun hc => absurd hc (hincomplete p hp)⟩
  · obtain ⟨p, hp, hstart, hsize, -, hend⟩ := layOut_unsized cfg code h (not_lt.mp htotal)
    rw [hp]
    exact .unbounded ⟨by omega, Or.inl hsize⟩

/-! ### Every step -/

/-- The invariant: the parts and what was saved of them are of a shape, and a completed task is
behind its loop with all its parts complete. -/
structure Savable (w : Worker) : Prop where
  shaped : Shaped w.task.parts
  emitted : ∀ a, w.emitted = some a → Shaped (a.parts.map ArchivedPart.restore)
  finished : w.task.status = .completed →
    w.phase.looping = false ∧ ∀ p ∈ w.task.parts, p.status = .completed

namespace Savable

variable {w w' : Worker}

theorem of_steady (h : Savable w) (hs : Steady w.task w'.task)
    (hkeep : ∀ p, w.task.parts = [p] → p.status = .completed → w'.task.parts = w.task.parts)
    (hemitted : w'.emitted = w.emitted)
    (hbehind : w.phase.looping = false → w'.phase.looping = false ∧ w'.task.parts = w.task.parts) :
    Savable w' where
  shaped := h.shaped.of_steady hs hkeep
  emitted a ha := h.emitted a (hemitted ▸ ha)
  finished hcompleted := by
    obtain ⟨hphase, hall⟩ := h.finished (hs.status hcompleted)
    obtain ⟨hphase', hparts⟩ := hbehind hphase
    exact ⟨hphase', hparts ▸ hall⟩

theorem of_parts (h : Savable w) (hparts : w'.task.parts = w.task.parts)
    (hstatus : w'.task.status = .completed → w.task.status = .completed)
    (hemitted : w'.emitted = w.emitted)
    (hbehind : w.phase.looping = false → w'.phase.looping = false) : Savable w' where
  shaped := hparts ▸ h.shaped
  emitted a ha := h.emitted a (hemitted ▸ ha)
  finished hcompleted := by
    obtain ⟨hphase, hall⟩ := h.finished (hstatus hcompleted)
    exact ⟨hbehind hphase, hparts ▸ hall⟩

theorem emitResume (h : Savable w) : Savable w.emitResume where
  shaped := h.shaped
  emitted a ha := by
    obtain rfl := Option.some.inj ha
    have hsame := parts_deserialize_serialize w.task
    simp only [deserializeResume] at hsame
    rw [hsame]
    exact h.shaped.reread
  finished := h.finished

theorem maybeEmitResume (h : Savable w) : Savable w.maybeEmitResume := by
  rw [Worker.maybeEmitResume]
  split
  · exact h
  · exact emitResume (w := w.modifyTask fun t => { t with lastEmitDone := t.totalDone })
      (h.of_parts rfl id rfl id)

theorem loopHead (h : Savable w) (hlooping : w.phase.looping = true) : Savable w.loopHead := by
  have hin : w.phase.looping = false → False := by simp [hlooping]
  rw [Worker.loopHead]
  split <;> exact h.of_parts rfl id rfl fun hout => (hin hout).elim

theorem spawnPart (h : Savable w) (hlooping : w.phase.looping = true) (built : Nat → Bool) (i : Nat) :
    Savable (Worker.spawnPart built w i) := by
  have hin : ∀ {P : Prop}, w.phase.looping = false → P := by simp [hlooping]
  refine h.of_steady (Worker.steady_spawnPart built w i) (fun p hp hcompleted => ?_) ?_ hin
  · simp only [Worker.spawnPart]
    split
    · rfl
    next hopen =>
      simp only [Worker.addPart]
      split
      · rfl
      · cases i with
        | zero => exact absurd (by simp [TaskCtx.part, hp, hcompleted]) hopen
        | succ i => simp [failPart, hp]
  · rw [Worker.spawnPart]
    split <;> rfl

theorem spawnNewParts (h : Savable w) (hlooping : w.phase.looping = true) (built : Nat → Bool) :
    Savable (w.spawnNewParts built) := by
  have hrun := Worker.spawnNewParts_induction built
    (P := fun v => Savable v ∧ v.phase = w.phase) (fun v i hv => ?_) ⟨h, rfl⟩
  · exact hrun.1
  · refine ⟨hv.1.spawnPart (hv.2 ▸ hlooping) built i, ?_⟩
    rw [← hv.2, Worker.spawnPart]
    split <;> rfl

theorem open_of_owns (hb : Booked w) {i : Nat} (howned : w.task.owns i = true) {p : PartState}
    (hp : w.task.parts = [p]) : p.status ≠ .completed := by
  have hi : i < w.task.parts.length := hb.ctxs ▸ Worker.lt_of_easy howned
  have hzero : i = 0 := by simpa [hp] using hi
  have hopen := hb.incomplete i howned
  rwa [hzero, TaskCtx.part, hp] at hopen

theorem probed (cfg : HttpConfig) (env : WriteEnv) (h : Savable w) (hb : Booked w)
    (hunprobed : w.task.probing = true → w.task.Unprobed) {i : Nat}
    (howned : w.task.owns i = true) :
    Shaped (probed cfg env w.fs w.task i).1.parts := by
  rw [DownloadWrapper.probed]
  split
  next hprobing =>
    obtain ⟨hextents, hctxs, hsupport⟩ := hunprobed hprobing
    have hopen : ∀ p ∈ w.task.parts, p.status ≠ .completed := by
      obtain ⟨p, hp, -⟩ := (hunprobed hprobing).parts
      rw [hp]
      exact fun q hq => List.mem_singleton.mp hq ▸ open_of_owns hb howned hp
    obtain ⟨total, name, path, hacquired⟩ := acquirePath_settleProbe env.probe w.fs w.task i
    rcases finalizeProbing_cases cfg env.probe w.fs w.task i with ⟨message, heq⟩ | heq
    · rw [heq, hacquired]
      exact h.shaped
    · rw [heq, hacquired]
      exact shaped_layOut cfg _ ⟨hextents, hctxs, hsupport⟩ hopen
  next => exact h.shaped

theorem shaped_writeCb (cfg : HttpConfig) (env : WriteEnv) (h : Savable w) (hb : Booked w)
    (hunprobed : w.task.probing = true → w.task.Unprobed) {i : Nat} (data : List Byte)
    (hphase : w.phase = .performing) (howned : w.task.owns i = true) :
    Shaped (writeCb cfg env w.fs w.task i data).task.parts := by
  have hprobed := h.probed cfg env hb hunprobed howned
  have hbooked := hb.probed cfg env hphase howned
  have howned' : (DownloadWrapper.probed cfg env w.fs w.task i).1.owns i = true :=
    (probed_owns cfg env w.fs w.task i i).trans howned
  rcases writeCb_cases cfg env w.fs w.task i data with hdoor | ⟨-, -, ⟨-, heq⟩ | ⟨chunk, -, -, heq⟩⟩
  · exact hdoor ▸ h.shaped
  · exact heq ▸ hprobed
  · have houtcome := writeChunk_outcome env (DownloadWrapper.probed cfg env w.fs w.task i).2
      (DownloadWrapper.probed cfg env w.fs w.task i).1 i chunk
    rw [← heq] at houtcome
    have hkeep : ∀ (t : TaskCtx) (p : PartState),
        (DownloadWrapper.probed cfg env w.fs w.task i).1.parts = [p] → p.status = .completed →
          t.parts = (DownloadWrapper.probed cfg env w.fs w.task i).1.parts := fun _ _ hp hcompleted =>
      absurd hcompleted (open_of_owns hbooked howned' hp)
    generalize DownloadWrapper.writeCb cfg env w.fs w.task i data = out at houtcome ⊢
    cases houtcome with
    | missing => exact hprobed.of_steady (steady_writeFailed _ i _) (hkeep _)
    | failed granted message landed =>
        exact hprobed.of_steady ((steady_modifyCtx _ i _).trans (steady_writeFailed _ i _)) (hkeep _)
    | stored granted => exact Shaped.count (t := ensureOpen _ _ i granted) hprobed i chunk.length

theorem message (cfg : HttpConfig) (h : Savable w) (hb : Booked w) {i : Nat} (rc : CurlCode)
    (httpCode : Int) (built : Bool) (hphase : w.phase = .draining) (howned : w.task.owns i = true) :
    Savable (w.message cfg i rc httpCode built) := by
  have hi : i < w.task.parts.length := hb.ctxs ▸ Worker.lt_of_easy howned
  have hin : ∀ {P : Prop}, w.phase.looping = false → P := by simp [hphase, Phase.looping]
  have hkeep : ∀ (t : TaskCtx) (p : PartState), w.task.parts = [p] → p.status = .completed →
      t.parts = w.task.parts := fun _ _ hp hcompleted => absurd hcompleted (open_of_owns hb howned hp)
  have hsteady : ∀ (t : TaskCtx) (active : Int), Steady w.task t →
      Savable { w with task := t, active := active } := fun t _ hs => h.of_steady hs (hkeep t) rfl hin
  have hdrop : Steady w.task (Worker.dropEasy w.task i) := steady_modifyCtx _ i _
  simp only [Worker.message]
  split
  · exact hsteady _ _ hdrop
  rcases handlePartResult_cases cfg (Worker.dropEasy w.task i) i rc httpCode with hs | ⟨hunsized, heq⟩
  · have hs := hdrop.trans hs
    generalize handlePartResult cfg (Worker.dropEasy w.task i) i rc httpCode = out at hs ⊢
    obtain ⟨t, again⟩ := out
    simp only at hs ⊢
    split
    · exact hsteady _ _ (hs.trans (Worker.steady_addPart t i built))
    · exact hsteady _ _ hs
  · rw [heq]
    have hshaped : Shaped ((Worker.dropEasy w.task i).completeUnsized i).parts :=
      Shaped.completeUnsized (t := Worker.dropEasy w.task i) h.shaped hi hunsized.2.1
    refine ⟨hshaped, h.emitted, fun hcompleted => ?_⟩
    exact hin (h.finished hcompleted).1

theorem leave (h : Savable w) (hphase : w.phase = .leaving) : Savable w.leave := by
  have hparts : w.leave.task.parts = w.task.parts := aggregateStatus_parts (Worker.cleanupAll w.task)
  refine ⟨hparts ▸ h.shaped, h.emitted, fun hcompleted => ⟨rfl, ?_⟩⟩
  rcases aggregateStatus_cases (Worker.cleanupAll w.task) with hs | ⟨-, -, hall⟩
  · have := (h.finished (((Worker.steady_cleanupAll w.task).trans hs).status hcompleted)).1
    simp [hphase, Phase.looping] at this
  · exact hparts ▸ hall

theorem enter (h : Savable w) (multiOk : Bool) (built : Nat → Bool) (hphase : w.phase = .created) :
    Savable (w.enter multiOk built) := by
  have hlooping : w.phase.looping = true := by rw [hphase]; rfl
  rw [Worker.enter]
  split
  · exact h.of_parts rfl id rfl fun _ => rfl
  split
  · rw [Worker.maybeEmitResume_withPhase]
    have hpaused : Savable { w.modifyTask fun t => { t with status := .paused } with phase := .exited } :=
      h.of_parts rfl (by simp [Worker.modifyTask]) rfl fun _ => rfl
    exact hpaused.maybeEmitResume
  split
  · exact h.of_parts rfl (by simp [Worker.modifyTask, Worker.threadFailed]) rfl (by simp [hlooping])
  · refine (h.spawnNewParts hlooping built).loopHead ?_
    rw [Worker.spawnNewParts_phase]
    exact hlooping

theorem close (h : Savable w) : Savable w.close := by
  have hending : ∀ {v : Worker}, Savable v → Savable { v with phase := .ending } := fun hv =>
    hv.of_parts rfl id rfl fun _ => rfl
  simp only [Worker.close]
  split
  · exact hending (emitResume (w := w.modifyTask fun t => { t with
      partCtx := t.partCtx.map fun c => { c with fileOpen := false } }) (h.of_parts rfl id rfl id))
  split
  · exact hending h.maybeEmitResume
  · exact hending h

/-- **One step of the worker keeps the shape.** -/
theorem step {cfg : HttpConfig} (h : Savable w) (hb : Booked w)
    (hunprobed : w.task.probing = true → w.task.Unprobed) {e : Event}
    (hstep : w.step cfg e = some w') : Savable w' := by
  cases Worker.stepped_of_step hstep with
  | @enter multiOk built hphase => exact h.enter multiOk built hphase
  | @header i line hphase hlive =>
      have hkeep : ∀ (t : TaskCtx) (p : PartState), w.task.parts = [p] → p.status = .completed →
          t.parts = w.task.parts := fun _ _ hp hcompleted =>
        absurd hcompleted (open_of_owns hb (owns_of_live hlive) hp)
      have hin : ∀ {P : Prop}, w.phase.looping = false → P := by simp [hphase, Phase.looping]
      have hline := steady_headerCb w.task i line
      simp only [Worker.header]
      split
      · exact h.of_steady hline (hkeep _) rfl hin
      · exact h.of_steady (hline.trans (steady_modifyCtx _ i _)) (hkeep _) rfl hin
  | @body i data env hphase hlive =>
      have hshaped := h.shaped_writeCb cfg env hb hunprobed data hphase (owns_of_live hlive)
      have hstatus : (writeCb cfg env w.fs w.task i data).task.status ≠ .completed := by
        intro hcompleted
        rcases writeCb_status cfg env w.fs w.task i data with hsame | herror
        · have := (h.finished (hsame ▸ hcompleted)).1
          simp [hphase, Phase.looping] at this
        · simp [hcompleted] at herror
      simp only [Worker.body]
      split
      · exact ⟨hshaped, h.emitted, fun hcompleted => absurd hcompleted hstatus⟩
      · exact ⟨hshaped, h.emitted, fun hcompleted => absurd hcompleted hstatus⟩
  | @performed built hphase =>
      have hlooping : w.phase.looping = true := by rw [hphase]; rfl
      exact (h.spawnNewParts hlooping built).of_parts rfl id rfl (by simp [hlooping])
  | multiFailed hphase => exact h.of_parts rfl id rfl (by simp [hphase, Phase.looping])
  | @message i rc httpCode built hphase heasy => exact h.message cfg hb rc httpCode built hphase heasy
  | drained hphase =>
      refine h.maybeEmitResume.loopHead ?_
      simp [hphase, Phase.looping]
  | raised hphase =>
      refine h.of_parts rfl (by simp [Worker.modifyTask, Worker.threadFailed]) rfl fun hout => ?_
      rcases hphase with hphase | hphase <;> simp [hphase, Phase.looping] at hout
  | raisedLate hphase =>
      exact h.of_parts rfl (by simp [Worker.modifyTask, TaskCtx.fail]) rfl fun _ => rfl
  | leave hphase => exact h.leave hphase
  | close hphase => exact h.close
  | exit hphase =>
      simp only [Worker.exit]
      split
      · exact h.of_parts rfl (by simp [Worker.modifyTask]) rfl fun _ => rfl
      · exact h.of_parts rfl id rfl fun _ => rfl
  | pauseRequest | deleteRequest | shutdown => exact h.of_parts rfl id rfl id

end Savable

/-! ### Every run -/

theorem booked_of_started {fixed : Bool} {w : Worker} (h : Started fixed w) : Booked w := by
  induction h with
  | fresh url clientId savePath fs => exact booked_startWorker url clientId savePath none fs true
  | step cfg e _ hstep ih => exact ih.step hstep
  | restored url clientId savePath fs granted => exact booked_startWorker url clientId savePath _ fs granted

theorem savable_of_started {fixed : Bool} {w : Worker} (h : Started fixed w) : Savable w := by
  have hnew : ∀ parts : List PartState, parts = [{ endByte := -1 }] → Shaped parts := fun _ hparts =>
    hparts ▸ .unbounded ⟨by decide, Or.inl rfl⟩
  induction h with
  | fresh url clientId savePath fs =>
      exact ⟨hnew _ rfl, fun _ ha => by simp [startWorker] at ha,
        fun hc => by simp [startWorker, startFrom, taskCreateNew] at hc⟩
  | step cfg e hbefore hstep ih =>
      exact ih.step (booked_of_started hbefore) (fun hp => ((sound_of_started hbefore).probing hp).1) hstep
  | @restored fixed w a url clientId savePath fs granted _ ha ih =>
      have hstatus : (startWorker url clientId savePath (some a) fs granted).task.status
          = .downloading := by
        rcases startFrom_cases url clientId savePath (some a) fs granted with heq | ⟨b, -, -, -, -, heq⟩ <;>
          simp [startWorker, heq, taskCreateNew, continueFrom]
      refine ⟨?_, fun _ ha => by simp [startWorker] at ha, fun hc => by simp [hstatus] at hc⟩
      simp only [startWorker]
      rcases startFrom_cases url clientId savePath (some a) fs granted with heq | ⟨b, hb, -, -, -, heq⟩
      · rw [heq]
        exact hnew _ rfl
      · obtain rfl := Option.some.inj hb
        rw [heq]
        exact ih.emitted _ ha

theorem enter_of_completed {w : Worker} (hspawned : w.spawned ≤ w.task.partCtx.length)
    (hcancel : w.task.cancelReq = false) (hpause : w.task.pauseReq = false)
    (hall : ∀ i < w.task.partCtx.length, (w.task.part i).status = .completed) (built : Nat → Bool) :
    (w.enter true built).task = w.task := by
  have hrun : (w.spawnNewParts built).task = w.task := by
    refine (Worker.spawnNewParts_watermark built (P := fun v => v.task = w.task)
      (fun v hv hlt => ?_) hspawned rfl).1
    rw [hv] at hlt
    simp only [Worker.spawnPart, hv, if_pos (hall _ hlt)]
  rw [Worker.enter, hcancel, hpause]
  simp [hrun]

theorem forall₂_reread (parts : List PartState) :
    List.Forall₂ SamePart parts (parts.map PartState.reread) ↔ ∀ p ∈ parts, SamePart p p.reread := by
  rw [List.forall₂_map_right_iff]
  exact List.forall₂_same

theorem Shaped.samePart_iff {parts : List PartState} (h : Shaped parts) :
    (∀ p ∈ parts, SamePart p p.reread) ↔ ∀ p ∈ parts, p.status = .completed → p.start ≤ p.endByte := by
  cases h with
  | sized hne hall =>
      exact ⟨fun _ p hp _ => (hall p hp).bounds, fun _ p hp => (hall p hp).samePart⟩
  | @unbounded p hp =>
      have hlt := hp.bounds
      simp only [List.mem_singleton, forall_eq, hp.samePart_iff]
      exact ⟨fun hopen hcompleted => absurd hcompleted hopen, fun hknown hcompleted => by
        have := hknown hcompleted
        omega⟩

theorem RoundTrips.lengthsKnown {fixed : Bool} {w : Worker} (h : Started fixed w)
    (hround : RoundTrips w.task) : LengthsKnown w.task := by
  have hsame := hround.parts
  rw [parts_deserialize_serialize, forall₂_reread] at hsame
  exact (savable_of_started h).shaped.samePart_iff.mp hsame

/-- **What comes back is what was saved**, in every run of a download and its restarts, exactly where
no part was completed whose length was not known before. -/
theorem roundTrips_iff {fixed : Bool} {w : Worker} (h : Started fixed w) :
    RoundTrips w.task ↔ LengthsKnown w.task := by
  have hsavable := savable_of_started h
  have hparts := parts_deserialize_serialize w.task
  refine ⟨RoundTrips.lengthsKnown h, fun hknown => ?_⟩
  have hsame := hsavable.shaped.samePart_iff.mpr hknown
  have hsettled : w.task.status = .completed →
      ∀ q ∈ (deserializeResume (serializeResume w.task)).parts, q.status = .completed := by
    intro hcompleted q hq
    obtain ⟨p, hp, rfl⟩ := List.mem_map.mp (hparts ▸ hq)
    exact (hsame p hp).completed.mpr (Or.inl ((hsavable.finished hcompleted).2 p hp))
  refine ⟨?_, rfl, rfl, rfl, rfl, rfl, ?_, hsettled, ?_⟩
  · simp [deserializeResume, serializeResume, hsavable.shaped.ne_nil]
  · rw [hparts, forall₂_reread]
    exact hsame
  · intro hcompleted url clientId savePath fs granted built hresumed i
    have hclosed := startWorker_easy url clientId savePath (some (serializeResume w.task)) fs granted i
    have hbooked := booked_startWorker url clientId savePath (some (serializeResume w.task)) fs granted
    rcases startFrom_cases url clientId savePath (some (serializeResume w.task)) fs granted with
      heq | ⟨a, ha, -, -, -, heq⟩
    · simp [startWorker, heq, taskCreateNew] at hresumed
    · obtain rfl := Option.some.inj ha
      have htask : (startWorker url clientId savePath (some (serializeResume w.task)) fs granted).task
          = (taskCreateNew url clientId savePath).continueFrom
            (deserializeResume (serializeResume w.task)) := heq
      rw [enter_of_completed hbooked.spawned_le (by rw [htask]; rfl) (by rw [htask]; rfl) ?_ built, owns,
        hclosed]
      · rfl
      · intro j hj
        have hj' : j < (deserializeResume (serializeResume w.task)).parts.length := by
          rw [hbooked.ctxs, htask] at hj
          exact hj
        rw [htask]
        have hmem := List.getElem_mem hj'
        simpa [TaskCtx.part, continueFrom, hj'] using hsettled hcompleted _ hmem

def unsizedRun : List Event :=
  [.enter true fun _ => true, .header 0 "HTTP/1.1 200 OK\r\n", .body 0 [1, 2, 3] grantAll,
    .performed true fun _ => true, .message 0 .ok 200 true, .drained, .leave, .close]

/-- **A completion that does not come back.** The archive of a completed stream without a length is
read as a task with nothing complete. -/
theorem not_roundTrips_unsizedRun :
    ∃ w, Started false w ∧ w.emitted = some (serializeResume w.task) ∧ w.task.status = .completed ∧
      ¬ RoundTrips w.task := by
  obtain ⟨played, hplayed⟩ : ∃ played, played = Transition.play (stepFixed plainCfg) Transition.anyEvent
      (false, startWorker "http://h/f.bin" "c" "/d" none emptyFs true) unsizedRun := ⟨_, rfl⟩
  have hvalues : (played.map fun s => (s.1, decide (s.2.emitted = some (serializeResume s.2.task)),
      s.2.task.status, decide (LengthsKnown s.2.task))) = some (false, true, .completed, false) := by
    rw [hplayed]
    decide +kernel
  obtain ⟨⟨fixed, w⟩, hrun, hw⟩ := Option.map_eq_some_iff.mp hvalues
  simp only [Prod.mk.injEq, decide_eq_true_eq, decide_eq_false_iff_not] at hw
  obtain ⟨rfl, hemitted, hcompleted, hunknown⟩ := hw
  have hstarted : Started false w := Started.of_reaches
    (.fresh "http://h/f.bin" "c" "/d" emptyFs) (Transition.reaches_of_play (hplayed ▸ hrun))
  exact ⟨w, hstarted, hemitted, hcompleted, fun hround =>
    hunknown (hround.lengthsKnown hstarted)⟩

/-- The probe split in four and an archive saved of it: everything comes back. -/
theorem roundTrips_iff_splitRun :
    ∃ w, Started true w ∧ w.emitted.isSome ∧ RoundTrips w.task := by
  obtain ⟨played, hplayed⟩ : ∃ played, played = Transition.play (stepFixed plainCfg) Transition.anyEvent
      (false, startWorker "http://h/f.bin" "c" "/d" none emptyFs true) splitRun := ⟨_, rfl⟩
  have hvalues : (played.map fun s => (s.1, s.2.emitted.isSome, decide (LengthsKnown s.2.task))) =
      some (true, true, true) := by
    rw [hplayed]
    decide +kernel
  obtain ⟨⟨fixed, w⟩, hrun, hw⟩ := Option.map_eq_some_iff.mp hvalues
  simp only [Prod.mk.injEq, decide_eq_true_eq] at hw
  obtain ⟨rfl, hemitted, hknown⟩ := hw
  have hstarted : Started true w := Started.of_reaches
    (.fresh "http://h/f.bin" "c" "/d" emptyFs) (Transition.reaches_of_play (hplayed ▸ hrun))
  exact ⟨w, hstarted, hemitted, (roundTrips_iff hstarted).mpr hknown⟩

end DownloadWrapper
