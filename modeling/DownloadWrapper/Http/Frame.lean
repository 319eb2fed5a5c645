import DownloadWrapper.Http.Worker
import Mathlib.Data.List.Forall2

/-!
# What the callbacks leave alone

Only finalizing the probe lays out parts, and only a body chunk moves a part's count. Every other
operation of the worker is *quiet*: the same intervals and counts, the same path, and a total that
stays once it is positive. All but two of them are also *steady*: a part that becomes complete is
full, an error stays, and the task does not become complete. Each operation is classified once; the
invariants use that alone.
-/

namespace DownloadWrapper

structure Extent where
  start : Int
  endByte : Int
  size : Int
  done : Int
  deriving DecidableEq, Repr, Inhabited

def PartState.extent (p : PartState) : Extent := ⟨p.start, p.endByte, p.size, p.done⟩

namespace TaskCtx

def extents (t : TaskCtx) : List Extent := t.parts.map PartState.extent

structure Quiet (t t' : TaskCtx) : Prop where
  probing : t'.probing = t.probing
  supportRange : t'.supportRange = t.supportRange
  fullFilePath : t'.fullFilePath = t.fullFilePath
  extents : t'.extents = t.extents
  ctxs : t'.partCtx.length = t.partCtx.length
  total : 0 < t.totalSize → t'.totalSize = t.totalSize
  failed : t.failed → t'.failed

namespace Quiet

variable {t t' t'' : TaskCtx}

theorem refl (t : TaskCtx) : Quiet t t := ⟨rfl, rfl, rfl, rfl, rfl, fun _ => rfl, id⟩

theorem trans (h : Quiet t t') (h' : Quiet t' t'') : Quiet t t'' where
  probing := h'.probing.trans h.probing
  supportRange := h'.supportRange.trans h.supportRange
  fullFilePath := h'.fullFilePath.trans h.fullFilePath
  extents := h'.extents.trans h.extents
  ctxs := h'.ctxs.trans h.ctxs
  total hpos := by
    have htotal := h.total hpos
    rw [h'.total (htotal ▸ hpos), htotal]
  failed hfailed := h'.failed (h.failed hfailed)

theorem length (h : Quiet t t') : t'.parts.length = t.parts.length := by
  have := congrArg List.length h.extents
  simpa [TaskCtx.extents] using this

end Quiet

structure Marked (p q : PartState) : Prop where
  extent : q.extent = p.extent
  status : q.status = p.status ∨ q.status = .error ∨
    q.status = .completed ∧ p.status ≠ .error ∧ 0 < p.size ∧ p.size ≤ p.done

theorem Marked.refl (p : PartState) : Marked p p := ⟨rfl, Or.inl rfl⟩

theorem Marked.trans {p q r : PartState} (h : Marked p q) (h' : Marked q r) : Marked p r where
  extent := h'.extent.trans h.extent
  status := by
    have hsize : q.size = p.size := congrArg Extent.size h.extent
    have hdone : q.done = p.done := congrArg Extent.done h.extent
    rcases h'.status with hsame | herror | ⟨hcompleted, hne, hfull⟩
    · rw [hsame]
      exact h.status
    · exact Or.inr (Or.inl herror)
    · rw [hsize, hdone] at hfull
      refine Or.inr (Or.inr ⟨hcompleted, ?_, hfull⟩)
      rcases h.status with hsame | herror | ⟨-, hne', -⟩
      · exact hsame ▸ hne
      · exact absurd herror hne
      · exact hne'

structure Steady (t t' : TaskCtx) : Prop extends Quiet t t' where
  marked : List.Forall₂ Marked t.parts t'.parts
  status : t'.status = .completed → t.status = .completed

theorem Quiet.steady {t t' : TaskCtx} (h : Quiet t t') (hparts : t'.parts = t.parts)
    (hstatus : t'.status = .completed → t.status = .completed) : Steady t t' :=
  { h with
    marked := hparts ▸ List.forall₂_same.mpr fun p _ => Marked.refl p
    status := hstatus }

namespace Steady

variable {t t' t'' : TaskCtx}

theorem refl (t : TaskCtx) : Steady t t := (Quiet.refl t).steady rfl id

theorem trans (h : Steady t t') (h' : Steady t' t'') : Steady t t'' where
  toQuiet := h.toQuiet.trans h'.toQuiet
  marked := by
    refine List.forall₂_iff_get.mpr ⟨h.marked.length_eq.trans h'.marked.length_eq, ?_⟩
    intro i hi hi''
    have hi' : i < t'.parts.length := h.marked.length_eq ▸ hi
    exact ((List.forall₂_iff_get.mp h.marked).2 i hi hi').trans
      ((List.forall₂_iff_get.mp h'.marked).2 i hi' hi'')
  status hstatus := h.status (h'.status hstatus)

end Steady

theorem marked_modifyPart (t : TaskCtx) (i : Nat) {f : PartState → PartState}
    (hf : ∀ p, t.part i = p → Marked p (f p)) :
    List.Forall₂ Marked t.parts (t.modifyPart i f).parts := by
  refine List.forall₂_iff_get.mpr ⟨by simp, fun j hj hj' => ?_⟩
  simp only [modifyPart_parts, List.get_eq_getElem, List.getElem_modify]
  split
  next hij =>
    subst hij
    exact hf _ (part_eq_getElem hj)
  next => exact Marked.refl _

theorem extents_of_marked {t t' : TaskCtx} (h : List.Forall₂ Marked t.parts t'.parts) :
    t'.extents = t.extents := by
  have heq : List.Forall₂ (· = ·) t'.extents t.extents := by
    rw [extents, extents, List.forall₂_map_left_iff, List.forall₂_map_right_iff]
    exact h.flip.imp fun _ _ hmarked => hmarked.extent
  rwa [List.forall₂_eq_eq_eq] at heq

theorem steady_modifyPart (t : TaskCtx) (i : Nat) {f : PartState → PartState}
    (hf : ∀ p, t.part i = p → Marked p (f p)) : Steady t (t.modifyPart i f) where
  probing := rfl
  supportRange := rfl
  fullFilePath := rfl
  extents := extents_of_marked (marked_modifyPart t i hf)
  ctxs := rfl
  total _ := rfl
  failed := id
  marked := marked_modifyPart t i hf
  status := id

theorem steady_modifyCtx (t : TaskCtx) (i : Nat) (f : PartCtx → PartCtx) :
    Steady t (t.modifyCtx i f) :=
  Quiet.steady ⟨rfl, rfl, rfl, rfl, by simp, fun _ => rfl, id⟩ rfl id

theorem steady_fail (t : TaskCtx) (message : String) : Steady t (t.fail message) :=
  Quiet.steady ⟨rfl, rfl, rfl, rfl, rfl, fun _ => rfl, fun _ => rfl⟩ rfl (by simp [fail])

theorem marked_error (p : PartState) (reason : Reason) :
    Marked p { p with status := .error, reason := reason } :=
  ⟨rfl, Or.inr (Or.inl rfl)⟩

theorem steady_failPart (t : TaskCtx) (i : Nat) (reason : Reason) :
    Steady t (t.failPart i reason) := steady_modifyPart t i fun p _ => marked_error p reason

theorem steady_message (t : TaskCtx) (message : String) : Steady t { t with message := message } :=
  Quiet.steady ⟨rfl, rfl, rfl, rfl, rfl, fun _ => rfl, id⟩ rfl id

theorem steady_markDriftError (t : TaskCtx) (i : Nat) : Steady t (t.markDriftError i) :=
  (steady_failPart t i .error).trans (steady_fail _ _)

theorem steady_writeFailed (t : TaskCtx) (i : Nat) (message : String) :
    Steady t (t.writeFailed i message) :=
  (steady_failPart t i .error).trans (steady_message _ _)

end TaskCtx

open TaskCtx

/-! ### Header lines -/

theorem steady_seeTotal (t : TaskCtx) (i : Nat) (total : Int) : Steady t (t.seeTotal i total) :=
  Quiet.steady ⟨rfl, rfl, rfl, rfl, by simp [seeTotal], fun hpos => if_neg (by omega), id⟩ rfl id

theorem steady_seeEtag (t : TaskCtx) (i : Nat) (value : String) : Steady t (t.seeEtag i value) :=
  Quiet.steady ⟨rfl, rfl, rfl, rfl, by simp [seeEtag], fun _ => rfl, id⟩ rfl id

theorem steady_seeLastModified (t : TaskCtx) (i : Nat) (value : String) :
    Steady t (t.seeLastModified i value) :=
  Quiet.steady ⟨rfl, rfl, rfl, rfl, by simp [seeLastModified], fun _ => rfl, id⟩ rfl id

theorem steady_drift {t t' : TaskCtx} (h : Steady t t') (i : Nat) (drift : Prop) [Decidable drift] :
    Steady t (if drift then (t'.markDriftError i, false) else (t', true)).1 := by
  split
  · exact h.trans (steady_markDriftError t' i)
  · exact h

theorem steady_applyHeaderLine (t : TaskCtx) (i : Nat) (line : HeaderLine) :
    Steady t (applyHeaderLine t i line).1 := by
  cases line with
  | blank => exact .refl t
  | other => exact .refl t
  | status code =>
      cases code with
      | none => exact .refl t
      | some code => exact steady_drift (steady_modifyCtx t i _) i _
  | contentRange total =>
      cases total with
      | none => exact .refl t
      | some total => exact steady_drift (steady_seeTotal t i total) i _
  | contentLength length =>
      cases length with
      | none => exact .refl t
      | some length =>
          simp only [applyHeaderLine]
          split
          · exact steady_modifyCtx t i _
          · exact .refl t
  | contentDisposition name =>
      simp only [applyHeaderLine]
      split
      · exact Quiet.steady ⟨rfl, rfl, rfl, rfl, rfl, fun _ => rfl, id⟩ rfl id
      · exact .refl t
  | etag value => exact steady_drift (steady_seeEtag t i value) i _
  | lastModified value => exact steady_drift (steady_seeLastModified t i value) i _

theorem steady_headerCb (t : TaskCtx) (i : Nat) (line : String) :
    Steady t (headerCb t i line).1 := by
  rw [headerCb]
  split
  · exact .refl t
  · exact steady_applyHeaderLine t i _

/-! ### Results of connections -/

theorem extents_completeUnsized (t : TaskCtx) (i : Nat) (hdone : (t.part i).size = (t.part i).done) :
    (t.completeUnsized i).extents = t.extents := by
  refine List.ext_getElem? fun j => ?_
  simp only [TaskCtx.extents, completeUnsized, modifyPart_parts, List.getElem?_map,
    List.getElem?_modify]
  split
  next hij =>
    cases hj : t.parts[j]? with
    | none => rfl
    | some p =>
        have hpart : t.part i = p := by simp [TaskCtx.part, hij, hj]
        simp [PartState.extent, ← hpart, hdone]
  next => simp

theorem quiet_completeUnsized (t : TaskCtx) (i : Nat) (hdone : (t.part i).size = (t.part i).done) :
    Quiet t (t.completeUnsized i) :=
  ⟨rfl, rfl, rfl, extents_completeUnsized t i hdone, rfl, fun hpos => if_neg (by omega), id⟩

theorem handlePartResult_cases (cfg : HttpConfig) (t : TaskCtx) (i : Nat) (rc : CurlCode)
    (httpCode : Int) :
    Steady t (handlePartResult cfg t i rc httpCode).1 ∨
      completesUnsized t i rc httpCode ∧
        handlePartResult cfg t i rc httpCode = (t.completeUnsized i, false) := by
  simp only [handlePartResult]
  split
  · exact Or.inl (.refl t)
  next herror =>
    split
    next hfull =>
      refine Or.inl (steady_modifyPart t i fun p hp => ⟨rfl, Or.inr (Or.inr ⟨rfl, ?_⟩)⟩)
      exact hp ▸ ⟨herror, hfull⟩
    split
    · exact Or.inl (steady_modifyCtx t i _)
    next hwindow =>
      split
      next h =>
        refine Or.inr ⟨⟨herror, h.2.2, h.1, h.2.1, fun hw => hwindow ?_⟩, rfl⟩
        exact ⟨hw.1, h.1, hw.2.1, hw.2.2⟩
      split
      · split
        · exact Or.inl (steady_modifyCtx t i _)
        · exact Or.inl (steady_failPart t i _)
      split
      · exact Or.inl (steady_modifyCtx t i _)
      · exact Or.inl ((steady_failPart t i _).trans (steady_message _ _))

/-- Aggregating is steady, unless it completes the task, which it does when all parts are. -/
theorem aggregateStatus_cases (t : TaskCtx) :
    Steady t (aggregateStatus t) ∨
      aggregateStatus t = { t with status := .completed, reason := .none } ∧ t.failed = false ∧
        ∀ p ∈ t.parts, p.status = .completed := by
  rw [aggregateStatus]
  split
  · exact Or.inl (.refl t)
  next hfailed =>
    split
    · exact Or.inl (Quiet.steady ⟨rfl, rfl, rfl, rfl, rfl, fun _ => rfl, fun h => absurd h hfailed⟩ rfl
        (by simp))
    split
    next hall => exact Or.inr ⟨rfl, by simpa using hfailed, by simpa using hall⟩
    split
    · exact Or.inl (Quiet.steady ⟨rfl, rfl, rfl, rfl, rfl, fun _ => rfl, fun h => absurd h hfailed⟩ rfl
        (by simp))
    · exact Or.inl (.refl t)

theorem quiet_aggregateStatus (t : TaskCtx) : Quiet t (aggregateStatus t) := by
  rcases aggregateStatus_cases t with hs | ⟨heq, hfailed, -⟩
  · exact hs.toQuiet
  · rw [heq]
    exact ⟨rfl, rfl, rfl, rfl, rfl, fun _ => rfl, fun h => absurd h (by simp [hfailed])⟩

/-! ### The write callback -/

theorem Fs.pwrite_nil (fs : Fs) (path : String) (off : Nat) : fs.pwrite path off [] = fs := by
  rw [Fs.pwrite]
  split
  next bytes hfile => rw [ByteFile.writeAt_nil, ← hfile, Function.update_eq_self]
  next => rfl

def pwriteOf (t : TaskCtx) (i : Nat) (data : List Byte) : PWrite :=
  { index := i, part := t.part i, off := (t.part i).start + (t.part i).done, len := data.length }

/-- What can become of a chunk: the file is gone, the write fails after some bytes, or all of it is
stored and counted. -/
inductive ChunkOutcome (fs : Fs) (t : TaskCtx) (i : Nat) (data : List Byte) : Written → Prop
  | missing : fs.exist t.fullFilePath = false →
      ChunkOutcome fs t i data ⟨t.writeFailed i "文件不存在", fs, 0, none⟩
  | failed (granted : Bool) (message : String) (landed : Nat) :
      ChunkOutcome fs t i data ⟨(t.ensureOpen fs i granted).writeFailed i message,
        fs.pwrite t.fullFilePath ((t.part i).start + (t.part i).done).toNat (data.take landed), 0,
        some (pwriteOf t i data)⟩
  | stored (granted : Bool) :
      ChunkOutcome fs t i data ⟨(t.ensureOpen fs i granted).modifyPart i fun p =>
          { p with done := p.done + data.length },
        fs.pwrite t.fullFilePath ((t.part i).start + (t.part i).done).toNat data, data.length,
        some (pwriteOf t i data)⟩

theorem writeChunk_outcome (env : WriteEnv) (fs : Fs) (t : TaskCtx) (i : Nat) (data : List Byte) :
    ChunkOutcome fs t i data (writeChunk env fs t i data) := by
  rw [writeChunk]
  split
  next hmissing => exact .missing hmissing
  next =>
    have hpart : (t.ensureOpen fs i env.openOk).part i = t.part i := rfl
    have hpath : (t.ensureOpen fs i env.openOk).fullFilePath = t.fullFilePath := rfl
    simp only [hpart, hpath, pwriteAt]
    split
    · -- the handle is not open: nothing reaches the disk
      have := @ChunkOutcome.failed fs t i data env.openOk
        (if ebadf = enospc then "存储空间不足" else "保存失败 [" ++ toString ebadf ++ "]") 0
      rw [List.take_zero, Fs.pwrite_nil] at this
      exact this
    · cases env.failure with
      | none => exact .stored env.openOk
      | some failure =>
          have hne : (if failure.errno ≠ 0 then failure.errno else eio) ≠ 0 := by
            split
            · assumption
            · decide
          simp only [if_neg hne]
          exact .failed env.openOk _ failure.landed

theorem ChunkOutcome.status {fs : Fs} {t : TaskCtx} {i : Nat} {data : List Byte} {out : Written}
    (h : ChunkOutcome fs t i data out) : out.task.status = t.status := by cases h <;> rfl

theorem ChunkOutcome.probing {fs : Fs} {t : TaskCtx} {i : Nat} {data : List Byte} {out : Written}
    (h : ChunkOutcome fs t i data out) : out.task.probing = t.probing := by cases h <;> rfl

theorem ChunkOutcome.landed {fs : Fs} {t : TaskCtx} {i : Nat} {data bytes : List Byte} {out : Written}
    (h : ChunkOutcome fs t i data out) (hbytes : fs.bytes? t.fullFilePath = some bytes) :
    ∃ piece, piece <+: data ∧
      out.fs.bytes? t.fullFilePath =
        some (ByteFile.writeAt bytes ((t.part i).start + (t.part i).done).toNat piece) ∧
      (out.consumed = 0 ∧ Steady t out.task ∨
        piece = data ∧ out.consumed = data.length ∧ ∃ granted, out.task =
          (t.ensureOpen fs i granted).modifyPart i fun p => { p with done := p.done + data.length }) := by
  cases h with
  | missing =>
      refine ⟨[], List.nil_prefix, ?_, Or.inl ⟨rfl, steady_writeFailed t i _⟩⟩
      rw [ByteFile.writeAt_nil, hbytes]
  | failed granted message landed =>
      refine ⟨data.take landed, List.take_prefix _ _, ?_, Or.inl ⟨rfl, ?_⟩⟩
      · rw [Fs.bytes?_pwrite, hbytes, Option.map_some]
      · exact (steady_modifyCtx t i _).trans (steady_writeFailed _ i message)
  | stored granted =>
      refine ⟨data, List.prefix_refl _, ?_, Or.inr ⟨rfl, rfl, granted, rfl⟩⟩
      rw [Fs.bytes?_pwrite, hbytes, Option.map_some]

/-- What `finalize_probing` settles before the disk is touched: the probe is over, total, name and
path are fixed. -/
theorem acquirePath_settleProbe (env : ProbeEnv) (fs : Fs) (t : TaskCtx) (i : Nat) :
    ∃ total name path, (acquirePath env fs (t.settleProbe env.urlLib i)).1 =
      { t with probing := false, totalSize := total, filename := name, fullFilePath := path } :=
  ⟨_, _, _, rfl⟩

theorem filename_settleProbe_ne_empty (urlLib : UrlLib) (t : TaskCtx) (i : Nat) :
    (t.settleProbe urlLib i).filename ≠ "" := by
  simp only [settleProbe]
  generalize (if t.filename = "" then extractFilenameFromUrl urlLib t.url else t.filename) = name
  split
  · decide
  · assumption

theorem finalizeProbing_cases (cfg : HttpConfig) (env : ProbeEnv) (fs : Fs) (t : TaskCtx) (i : Nat) :
    (∃ message, (finalizeProbing cfg env fs t i).1 =
        (acquirePath env fs (t.settleProbe env.urlLib i)).1.fail message) ∨
      (finalizeProbing cfg env fs t i).1 =
        (acquirePath env fs (t.settleProbe env.urlLib i)).1.layOut cfg (t.ctx i).seenHttpCode := by
  simp only [finalizeProbing]
  split
  · exact Or.inr rfl
  · split
    next message _ _ => exact Or.inl ⟨message, rfl⟩
    next => exact Or.inr rfl

theorem fullFilePath_finalizeProbing (cfg : HttpConfig) (env : ProbeEnv) (fs : Fs) (t : TaskCtx)
    (i : Nat) : (finalizeProbing cfg env fs t i).1.fullFilePath =
      (acquirePath env fs (t.settleProbe env.urlLib i)).1.fullFilePath := by
  rcases finalizeProbing_cases cfg env fs t i with ⟨message, hfail⟩ | hlaid
  · rw [hfail]
    rfl
  · rw [hlaid, layOut]
    split <;> rfl

theorem probed_of_not_probing (cfg : HttpConfig) (env : WriteEnv) (fs : Fs) {t : TaskCtx} (i : Nat)
    (h : t.probing = false) : probed cfg env fs t i = (t, fs) := by
  simp [probed, h]

/-- A chunk is turned away at the door, turned away after the probe was finalized, or written. -/
theorem writeCb_cases (cfg : HttpConfig) (env : WriteEnv) (fs : Fs) (t : TaskCtx) (i : Nat)
    (data : List Byte) :
    writeCb cfg env fs t i data = ⟨t, fs, 0, none⟩ ∨
      t.status ≠ .error ∧ data ≠ [] ∧
        (((probed cfg env fs t i).1.status = .error ∨ (probed cfg env fs t i).1.fit i data = none) ∧
            writeCb cfg env fs t i data =
              ⟨(probed cfg env fs t i).1, (probed cfg env fs t i).2, 0, none⟩ ∨
          ∃ chunk, (probed cfg env fs t i).1.status ≠ .error ∧
            (probed cfg env fs t i).1.fit i data = some chunk ∧
            writeCb cfg env fs t i data =
              writeChunk env (probed cfg env fs t i).2 (probed cfg env fs t i).1 i chunk) := by
  rw [writeCb]
  split
  · exact Or.inl rfl
  next hdoor =>
    simp only [not_or] at hdoor
    refine Or.inr ⟨hdoor.1, hdoor.2.2.2, ?_⟩
    generalize probed cfg env fs t i = start
    obtain ⟨t', fs'⟩ := start
    by_cases hstatus : t'.status = .error
    · exact Or.inl ⟨Or.inl hstatus, by simp [hstatus]⟩
    simp only [if_neg hstatus]
    cases hfit : t'.fit i data with
    | none => exact Or.inl ⟨Or.inr rfl, rfl⟩
    | some chunk => exact Or.inr ⟨chunk, hstatus, rfl, rfl⟩

/-! ### Connections and the thread -/

namespace Worker

theorem steady_addPart (t : TaskCtx) (i : Nat) (built : Bool) : Steady t (addPart t i built) := by
  rw [addPart]
  split
  · exact steady_modifyCtx t i _
  · exact steady_failPart t i _

theorem steady_spawnPart (built : Nat → Bool) (w : Worker) (i : Nat) :
    Steady w.task (spawnPart built w i).task := by
  simp only [spawnPart]
  split
  · exact .refl _
  · exact steady_addPart _ i _

theorem spawnNewParts_induction {P : Worker → Prop} (built : Nat → Bool)
    (hpart : ∀ w i, P w → P (spawnPart built w i)) {w : Worker} (h : P w) :
    P (w.spawnNewParts built) := by
  rw [spawnNewParts]
  generalize List.range' w.spawned (w.task.partCtx.length - w.spawned) = indices
  induction indices generalizing w with
  | nil => exact h
  | cons i rest ih => exact ih (hpart w i h)

theorem spawnNewParts_watermark {P : Worker → Prop} (built : Nat → Bool)
    (hpart : ∀ w, P w → w.spawned < w.task.partCtx.length → P (spawnPart built w w.spawned))
    {w : Worker} (hle : w.spawned ≤ w.task.partCtx.length) (h : P w) :
    P (w.spawnNewParts built) ∧
      (w.spawnNewParts built).spawned = (w.spawnNewParts built).task.partCtx.length := by
  rw [spawnNewParts]
  obtain ⟨count, hcount⟩ : ∃ count, count = w.task.partCtx.length - w.spawned := ⟨_, rfl⟩
  rw [← hcount]
  induction count generalizing w with
  | zero => exact ⟨h, by simp only [List.range'_zero, List.foldl_nil]; omega⟩
  | succ count ih =>
      rw [List.range'_succ, List.foldl_cons]
      have hlength : (spawnPart built w w.spawned).task.partCtx.length = w.task.partCtx.length :=
        (steady_spawnPart built w w.spawned).ctxs
      have hspawned : (spawnPart built w w.spawned).spawned = w.spawned + 1 := by
        simp only [spawnPart]
        split <;> rfl
      rw [← hspawned]
      exact ih (by omega) (hpart w h (by omega)) (by omega)

theorem steady_spawnNewParts (built : Nat → Bool) (w : Worker) :
    Steady w.task (w.spawnNewParts built).task :=
  spawnNewParts_induction (P := fun v => Steady w.task v.task) built
    (fun v i h => h.trans (steady_spawnPart built v i)) (.refl _)

theorem steady_cleanupAll (t : TaskCtx) : Steady t (cleanupAll t) :=
  Quiet.steady ⟨rfl, rfl, rfl, rfl, by simp [cleanupAll], fun _ => rfl, id⟩ rfl id

theorem steady_threadFailed (t : TaskCtx) : Steady t (threadFailed t) :=
  steady_fail t _

@[simp] theorem loopHead_task (w : Worker) : w.loopHead.task = w.task := by
  rw [loopHead]
  split <;> rfl

theorem maybeEmitResume_task (w : Worker) :
    ∃ emitDone, w.maybeEmitResume.task = { w.task with lastEmitDone := emitDone } := by
  rw [maybeEmitResume]
  split
  · exact ⟨_, rfl⟩
  · exact ⟨_, rfl⟩

@[simp] theorem maybeEmitResume_phase (w : Worker) : w.maybeEmitResume.phase = w.phase := by
  rw [maybeEmitResume]
  split <;> rfl

@[simp] theorem maybeEmitResume_fs (w : Worker) : w.maybeEmitResume.fs = w.fs := by
  rw [maybeEmitResume]
  split <;> rfl

theorem steady_maybeEmitResume (w : Worker) : Steady w.task w.maybeEmitResume.task := by
  obtain ⟨emitDone, heq⟩ := maybeEmitResume_task w
  rw [heq]
  exact Quiet.steady ⟨rfl, rfl, rfl, rfl, rfl, fun _ => rfl, id⟩ rfl id

theorem enter_probing (w : Worker) (multiOk : Bool) (built : Nat → Bool) :
    (w.enter multiOk built).task.probing = w.task.probing := by
  rw [enter]
  split
  · rfl
  split
  · exact (steady_maybeEmitResume (w.modifyTask fun t => { t with status := .paused })).probing
  split
  · rfl
  · rw [loopHead_task, (steady_spawnNewParts built w).probing]

theorem close_probing (w : Worker) : w.close.task.probing = w.task.probing := by
  simp only [close]
  split
  · rfl
  split
  · exact (steady_maybeEmitResume w).probing
  · rfl

theorem exit_probing (w : Worker) : w.exit.task.probing = w.task.probing := by
  simp only [exit]
  split <;> rfl

theorem message_probing (cfg : HttpConfig) (w : Worker) (i : Nat) (rc : CurlCode) (httpCode : Int)
    (built : Bool) : (w.message cfg i rc httpCode built).task.probing = w.task.probing := by
  simp only [message]
  split
  · rfl
  have hprobing : (handlePartResult cfg (dropEasy w.task i) i rc httpCode).1.probing
      = w.task.probing := by
    rcases handlePartResult_cases cfg (dropEasy w.task i) i rc httpCode with hq | ⟨-, heq⟩
    · exact hq.probing
    · rw [heq]
      rfl
  split
  · exact (steady_addPart _ i built).probing.trans hprobing
  · exact hprobing

theorem lt_of_live {t : TaskCtx} {i : Nat} (h : live t i = true) : i < t.partCtx.length := by
  by_contra hout
  simp [live, ctx_of_length_le (not_lt.mp hout)] at h

theorem lt_of_easy {t : TaskCtx} {i : Nat} (h : (t.ctx i).easy.isSome = true) :
    i < t.partCtx.length := by
  by_contra hout
  simp [ctx_of_length_le (not_lt.mp hout)] at h

theorem maybeEmitResume_withPhase (w : Worker) (phase : Phase) :
    { w.maybeEmitResume with phase := phase } = { w with phase := phase }.maybeEmitResume := by
  rw [maybeEmitResume, maybeEmitResume]
  split <;> rfl

@[simp] theorem loopHead_fs (w : Worker) : w.loopHead.fs = w.fs := by
  rw [loopHead]
  split <;> rfl

@[simp] theorem spawnNewParts_fs (built : Nat → Bool) (w : Worker) :
    (w.spawnNewParts built).fs = w.fs := by
  refine spawnNewParts_induction (P := fun v => v.fs = w.fs) built (fun v i h => ?_) rfl
  rw [spawnPart]
  split <;> exact h

@[simp] theorem spawnNewParts_phase (built : Nat → Bool) (w : Worker) :
    (w.spawnNewParts built).phase = w.phase := by
  refine spawnNewParts_induction (P := fun v => v.phase = w.phase) built (fun v i h => ?_) rfl
  rw [spawnPart]
  split <;> exact h

@[simp] theorem loopHead_emitted (w : Worker) : w.loopHead.emitted = w.emitted := by
  rw [loopHead]
  split <;> rfl

@[simp] theorem spawnNewParts_emitted (built : Nat → Bool) (w : Worker) :
    (w.spawnNewParts built).emitted = w.emitted := by
  refine spawnNewParts_induction (P := fun v => v.emitted = w.emitted) built (fun v i h => ?_) rfl
  rw [spawnPart]
  split <;> exact h

/-! ### What a step is -/

inductive Stepped (cfg : HttpConfig) (w : Worker) : Event → Worker → Prop
  | enter {multiOk : Bool} {built : Nat → Bool} (hphase : w.phase = .created) :
      Stepped cfg w (.enter multiOk built) (w.enter multiOk built)
  | header {i : Nat} {line : String} (hphase : w.phase = .performing)
      (hlive : live w.task i = true) : Stepped cfg w (.header i line) (w.header i line)
  | body {i : Nat} {data : List Byte} {env : WriteEnv} (hphase : w.phase = .performing)
      (hlive : live w.task i = true) : Stepped cfg w (.body i data env) (w.body cfg i data env)
  | performed {built : Nat → Bool} (hphase : w.phase = .performing) :
      Stepped cfg w (.performed true built) { w.spawnNewParts built with phase := .draining }
  | multiFailed {built : Nat → Bool} (hphase : w.phase = .performing) :
      Stepped cfg w (.performed false built) { w with phase := .leaving }
  | message {i : Nat} {rc : CurlCode} {httpCode : Int} {built : Bool} (hphase : w.phase = .draining)
      (heasy : (w.task.ctx i).easy.isSome = true) :
      Stepped cfg w (.message i rc httpCode built) (w.message cfg i rc httpCode built)
  | drained (hphase : w.phase = .draining) : Stepped cfg w .drained w.maybeEmitResume.loopHead
  | raised (hphase : w.phase = .performing ∨ w.phase = .draining) :
      Stepped cfg w .raised { w.modifyTask threadFailed with phase := .leaving }
  | raisedLate (hphase : w.phase = .closing) :
      Stepped cfg w .raised { w.modifyTask (·.fail "任务线程异常终止") with phase := .ending }
  | leave (hphase : w.phase = .leaving) : Stepped cfg w .leave w.leave
  | close (hphase : w.phase = .closing) : Stepped cfg w .close w.close
  | exit (hphase : w.phase = .ending) : Stepped cfg w .exit w.exit
  | pauseRequest : Stepped cfg w .pauseRequest (w.modifyTask fun t => { t with pauseReq := true })
  | deleteRequest : Stepped cfg w .deleteRequest
      (w.modifyTask fun t => { t with cancelReq := true, deleteReq := true })
  | shutdown : Stepped cfg w .shutdown (w.modifyTask fun t => { t with cancelReq := true })

theorem stepped_of_step {cfg : HttpConfig} {w w' : Worker} {e : Event}
    (hstep : w.step cfg e = some w') : Stepped cfg w e w' := by
  cases e with
  | enter multiOk built =>
      simp only [step, Option.ite_none_right_eq_some, Option.some.injEq] at hstep
      obtain ⟨hphase, rfl⟩ := hstep
      exact .enter hphase
  | header i line =>
      simp only [step, Option.ite_none_right_eq_some, Option.some.injEq] at hstep
      obtain ⟨⟨hphase, hlive⟩, rfl⟩ := hstep
      exact .header hphase hlive
  | body i data env =>
      simp only [step, Option.ite_none_right_eq_some, Option.some.injEq] at hstep
      obtain ⟨⟨hphase, hlive⟩, rfl⟩ := hstep
      exact .body hphase hlive
  | performed multiOk built =>
      simp only [step, ne_eq, ite_not, Option.ite_none_right_eq_some] at hstep
      obtain ⟨hphase, hstep⟩ := hstep
      cases multiOk with
      | true =>
          obtain rfl := Option.some.inj hstep
          exact .performed hphase
      | false =>
          obtain rfl := Option.some.inj hstep
          exact .multiFailed hphase
  | message i rc httpCode built =>
      simp only [step, Option.ite_none_right_eq_some, Option.some.injEq] at hstep
      obtain ⟨⟨hphase, heasy⟩, rfl⟩ := hstep
      exact .message hphase heasy
  | drained =>
      simp only [step, Option.ite_none_right_eq_some, Option.some.injEq] at hstep
      obtain ⟨hphase, rfl⟩ := hstep
      exact .drained hphase
  | raised =>
      simp only [step] at hstep
      split at hstep
      next hphase =>
        obtain rfl := Option.some.inj hstep
        exact .raised hphase
      next =>
        simp only [Option.ite_none_right_eq_some, Option.some.injEq] at hstep
        obtain ⟨hphase, rfl⟩ := hstep
        exact .raisedLate hphase
  | leave =>
      simp only [step, Option.ite_none_right_eq_some, Option.some.injEq] at hstep
      obtain ⟨hphase, rfl⟩ := hstep
      exact .leave hphase
  | close =>
      simp only [step, Option.ite_none_right_eq_some, Option.some.injEq] at hstep
      obtain ⟨hphase, rfl⟩ := hstep
      exact .close hphase
  | exit =>
      simp only [step, Option.ite_none_right_eq_some, Option.some.injEq] at hstep
      obtain ⟨hphase, rfl⟩ := hstep
      exact .exit hphase
  | pauseRequest =>
      obtain rfl := Option.some.inj hstep
      exact .pauseRequest
  | deleteRequest =>
      obtain rfl := Option.some.inj hstep
      exact .deleteRequest
  | shutdown =>
      obtain rfl := Option.some.inj hstep
      exact .shutdown

end Worker

end DownloadWrapper
