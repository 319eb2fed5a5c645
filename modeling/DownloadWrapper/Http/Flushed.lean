import DownloadWrapper.Http.PartInvariant
import DownloadWrapper.Http.Place
import DownloadWrapper.Http.Progress

/-!
# What a thread leaves behind

A thread saves its archive at the end of a round of the loop, and only if it has come further than at
the last time. Between two rounds the callbacks write on. When the thread leaves the loop at its head,
nothing has been written since it saved.
-/

namespace DownloadWrapper

open TaskCtx

structure Span where
  start : Int
  endByte : Int
  done : Int
  deriving DecidableEq, Repr

def PartState.span (p : PartState) : Span := ⟨p.start, p.endByte, p.done⟩

def ArchivedPart.span (p : ArchivedPart) : Span := ⟨p.start, p.endByte, p.done⟩

def TaskCtx.spans (t : TaskCtx) : List Span := t.parts.map PartState.span

def Archive.spans (a : Archive) : List Span := a.parts.map ArchivedPart.span

structure Span.Grown (s s' : Span) : Prop where
  start : s'.start = s.start
  endByte : s'.endByte = s.endByte
  done : s.done ≤ s'.done

theorem Span.Grown.refl (s : Span) : s.Grown s := ⟨rfl, rfl, le_rfl⟩

theorem Span.Grown.trans {s s' s'' : Span} (h : s.Grown s') (h' : s'.Grown s'') : s.Grown s'' :=
  ⟨h'.start.trans h.start, h'.endByte.trans h.endByte, h.done.trans h'.done⟩

theorem sum_le_of_grown {l l' : List Span} (h : List.Forall₂ Span.Grown l l') :
    (l.map Span.done).sum ≤ (l'.map Span.done).sum := by
  induction h with
  | nil => rfl
  | cons hhead htail ih =>
      have hdone := hhead.done
      simp only [List.map_cons, List.sum_cons]
      omega

theorem eq_of_grown {l l' : List Span} (h : List.Forall₂ Span.Grown l l')
    (hsum : (l'.map Span.done).sum ≤ (l.map Span.done).sum) : l' = l := by
  induction h with
  | nil => rfl
  | @cons s s' l l' hhead htail ih =>
      have hdone := hhead.done
      have htails := sum_le_of_grown htail
      simp only [List.map_cons, List.sum_cons] at hsum
      have hsame : s' = s := by
        obtain ⟨hstart, hend, -⟩ := hhead
        cases s
        cases s'
        simp_all only [Span.mk.injEq, true_and]
        omega
      rw [hsame, ih (by omega)]

theorem sum_spans (t : TaskCtx) : (t.spans.map Span.done).sum = t.totalDone := by
  rw [spans, List.map_map]
  rfl

theorem sum_spans_archive (a : Archive) : (a.spans.map Span.done).sum = a.totalDone := by
  rw [Archive.spans, List.map_map]
  rfl

theorem spans_of_extents {t t' : TaskCtx} (h : t'.extents = t.extents) : t'.spans = t.spans := by
  have hspans : ∀ t : TaskCtx, t.spans = t.extents.map fun e => ⟨e.start, e.endByte, e.done⟩ := by
    intro t
    rw [spans, extents, List.map_map]
    rfl
  rw [hspans, hspans, h]

@[simp] theorem spans_serializeResume (t : TaskCtx) : (serializeResume t).spans = t.spans := by
  rw [Archive.spans, serializeResume, spans, List.map_map]
  rfl

@[simp] theorem spans_continueFrom (t : TaskCtx) (a : Archive) :
    (t.continueFrom (deserializeResume a)).spans = a.spans := by
  rw [Archive.spans, spans, continueFrom, deserializeResume, List.map_map]
  rfl

theorem spans_completeUnsized (t : TaskCtx) (i : Nat) : (t.completeUnsized i).spans = t.spans := by
  refine List.ext_getElem (by simp [spans, completeUnsized]) fun j hj hj' => ?_
  simp only [spans, completeUnsized, modifyPart_parts, List.getElem_map, List.getElem_modify]
  split <;> rfl

theorem grown_modifyPart (t : TaskCtx) (i : Nat) {f : PartState → PartState}
    (hf : ∀ p : PartState, p.span.Grown (f p).span) :
    List.Forall₂ Span.Grown t.spans (t.modifyPart i f).spans := by
  refine List.forall₂_iff_get.mpr ⟨by simp [spans], fun j hj hj' => ?_⟩
  simp only [spans, modifyPart_parts, List.get_eq_getElem, List.getElem_map, List.getElem_modify]
  split
  · exact hf _
  · exact .refl _

@[simp] theorem lastEmitDone_headerCb (t : TaskCtx) (i : Nat) (line : String) :
    (headerCb t i line).1.lastEmitDone = t.lastEmitDone := by
  rw [headerCb]
  split
  · rfl
  · unfold applyHeaderLine
    split <;> (try simp only) <;> (try split) <;> rfl

@[simp] theorem lastEmitDone_probed (cfg : HttpConfig) (env : WriteEnv) (fs : Fs) (t : TaskCtx)
    (i : Nat) : (probed cfg env fs t i).1.lastEmitDone = t.lastEmitDone := by
  rw [probed]
  split
  · rcases finalizeProbing_cases cfg env.probe fs t i with ⟨message, hfail⟩ | hlaid
    · rw [hfail]
      rfl
    · rw [hlaid, layOut]
      split <;> rfl
  · rfl

@[simp] theorem lastEmitDone_handlePartResult (cfg : HttpConfig) (t : TaskCtx) (i : Nat)
    (rc : CurlCode) (httpCode : Int) :
    (handlePartResult cfg t i rc httpCode).1.lastEmitDone = t.lastEmitDone := by
  simp only [handlePartResult]
  split_ifs <;> rfl

@[simp] theorem lastEmitDone_aggregateStatus (t : TaskCtx) :
    (aggregateStatus t).lastEmitDone = t.lastEmitDone := by
  rw [aggregateStatus]
  split_ifs <;> rfl

namespace Worker

@[simp] theorem lastEmitDone_addPart (t : TaskCtx) (i : Nat) (built : Bool) :
    (addPart t i built).lastEmitDone = t.lastEmitDone := by
  rw [addPart]
  split <;> rfl

@[simp] theorem lastEmitDone_spawnNewParts (built : Nat → Bool) (w : Worker) :
    (w.spawnNewParts built).task.lastEmitDone = w.task.lastEmitDone := by
  refine spawnNewParts_induction (P := fun v => v.task.lastEmitDone = w.task.lastEmitDone) built
    (fun v i h => ?_) rfl
  simp only [spawnPart]
  split
  · exact h
  · simpa using h

@[simp] theorem pwrites_spawnNewParts (built : Nat → Bool) (w : Worker) :
    (w.spawnNewParts built).pwrites = w.pwrites := by
  refine spawnNewParts_induction (P := fun v => v.pwrites = w.pwrites) built (fun v i h => ?_) rfl
  rw [spawnPart]
  split <;> exact h

@[simp] theorem pwrites_loopHead (w : Worker) : w.loopHead.pwrites = w.pwrites := by
  rw [loopHead]
  split <;> rfl

@[simp] theorem pwrites_maybeEmitResume (w : Worker) : w.maybeEmitResume.pwrites = w.pwrites := by
  rw [maybeEmitResume]
  split <;> rfl

end Worker

/-! ### One step, once the probe is over -/

structure TaskCtx.Onward (t t' : TaskCtx) : Prop where
  path : t'.fullFilePath = t.fullFilePath
  spans : List.Forall₂ Span.Grown t.spans t'.spans

theorem grown_refl (l : List Span) : List.Forall₂ Span.Grown l l :=
  List.forall₂_same.mpr fun s _ => .refl s

namespace TaskCtx.Onward

variable {t t' t'' : TaskCtx}

theorem of_spans (hpath : t'.fullFilePath = t.fullFilePath) (hspans : t'.spans = t.spans) :
    Onward t t' := ⟨hpath, hspans ▸ grown_refl t'.spans⟩

theorem of_quiet (h : TaskCtx.Quiet t t') : Onward t t' :=
  of_spans h.fullFilePath (spans_of_extents h.extents)

theorem refl (t : TaskCtx) : Onward t t := of_spans rfl rfl

end TaskCtx.Onward

theorem grown_trans {l l' l'' : List Span} (h : List.Forall₂ Span.Grown l l')
    (h' : List.Forall₂ Span.Grown l' l'') : List.Forall₂ Span.Grown l l'' := by
  induction h generalizing l'' with
  | nil => exact h'
  | cons hhead htail ih =>
      cases h' with
      | cons hhead' htail' => exact .cons (hhead.trans hhead') (ih htail')

theorem onward_of_chunk {fs : Fs} {t : TaskCtx} {i : Nat} {data : List Byte} {out : Written}
    (h : ChunkOutcome fs t i data out) : Onward t out.task := by
  cases h with
  | missing => exact .of_quiet (steady_writeFailed t i "文件不存在").toQuiet
  | failed granted message landed =>
      exact .of_quiet ((steady_modifyCtx t i _).trans (steady_writeFailed _ i message)).toQuiet
  | stored granted =>
      refine ⟨rfl, ?_⟩
      have hopened : (t.ensureOpen fs i granted).spans = t.spans := rfl
      rw [← hopened]
      exact grown_modifyPart _ i fun p => ⟨rfl, rfl, by simp [PartState.span]⟩

theorem spans_message (cfg : HttpConfig) (w : Worker) (i : Nat) (rc : CurlCode) (httpCode : Int)
    (built : Bool) : (w.message cfg i rc httpCode built).task.spans = w.task.spans := by
  have hresult : (handlePartResult cfg (Worker.dropEasy w.task i) i rc httpCode).1.spans =
      w.task.spans := by
    rcases handlePartResult_cases cfg (Worker.dropEasy w.task i) i rc httpCode with hs | ⟨-, heq⟩
    · exact spans_of_extents hs.extents
    · rw [heq]
      exact spans_completeUnsized _ i
  simp only [Worker.message]
  split
  · rfl
  split
  · exact (spans_of_extents (Worker.steady_addPart _ i built).extents).trans hresult
  · exact hresult

theorem onward_body (cfg : HttpConfig) (w : Worker) (i : Nat) (data : List Byte) (env : WriteEnv)
    (hsettled : w.task.probing = false) : Onward w.task (w.body cfg i data env).task := by
  have hwritten : Onward w.task (writeCb cfg env w.fs w.task i data).task := by
    rcases writeCb_cases cfg env w.fs w.task i data with heq | ⟨-, -, ⟨-, heq⟩ | ⟨chunk, -, -, heq⟩⟩
    · exact heq ▸ .refl _
    · rw [heq, probed_of_not_probing cfg env w.fs i hsettled]
      exact .refl _
    · rw [heq, probed_of_not_probing cfg env w.fs i hsettled]
      exact onward_of_chunk (writeChunk_outcome env w.fs w.task i chunk)
  simp only [Worker.body]
  split
  · exact hwritten
  · exact ⟨hwritten.path, hwritten.spans⟩

theorem counted_of_grown {l l' : List Span} (h : List.Forall₂ Span.Grown l l')
    (hcounted : ∀ s ∈ l, 0 ≤ s.done) : ∀ s ∈ l', 0 ≤ s.done := by
  induction h with
  | nil => exact hcounted
  | cons hhead htail ih =>
      intro s hs
      rcases List.mem_cons.mp hs with rfl | hs
      · exact (hcounted _ List.mem_cons_self).trans hhead.done
      · exact ih (fun s hs => hcounted s (List.mem_cons_of_mem _ hs)) s hs

theorem counted_of_extents {t : TaskCtx} (h : ∀ e ∈ t.extents, e.done = 0) :
    ∀ s ∈ t.spans, 0 ≤ s.done := by
  intro s hs
  obtain ⟨p, hp, rfl⟩ := List.mem_map.mp hs
  exact (h p.extent (List.mem_map_of_mem hp)).ge

theorem extents_probed (cfg : HttpConfig) (env : WriteEnv) (fs : Fs) {t : TaskCtx} (i : Nat)
    (h : t.Unprobed) : ∀ e ∈ (probed cfg env fs t i).1.extents, e.done = 0 := by
  have hnone : ∀ e ∈ t.extents, e.done = 0 := by
    rw [h.extents]
    simp
  rw [probed]
  split
  · obtain ⟨total, name, path, hacquired⟩ := acquirePath_settleProbe env.probe fs t i
    rcases finalizeProbing_cases cfg env.probe fs t i with ⟨message, heq⟩ | heq
    · rw [heq, hacquired]
      exact hnone
    · rw [heq, hacquired]
      exact layOut_done cfg _ ⟨h.extents, h.ctxs, h.supportRange⟩
  · exact hnone

theorem counted_body (cfg : HttpConfig) (w : Worker) (i : Nat) (data : List Byte) (env : WriteEnv)
    (h : w.task.Unprobed) : ∀ s ∈ (w.body cfg i data env).task.spans, 0 ≤ s.done := by
  have hprobed := counted_of_extents (extents_probed cfg env w.fs i h)
  have hwritten : ∀ s ∈ (writeCb cfg env w.fs w.task i data).task.spans, 0 ≤ s.done := by
    rcases writeCb_cases cfg env w.fs w.task i data with heq | ⟨-, -, ⟨-, heq⟩ | ⟨chunk, -, -, heq⟩⟩
    · rw [heq]
      exact counted_of_extents (by rw [h.extents]; simp)
    · rw [heq]
      exact hprobed
    · rw [heq]
      exact counted_of_grown (onward_of_chunk (writeChunk_outcome env _ _ i chunk)).spans hprobed
  simp only [Worker.body]
  split <;> exact hwritten

theorem lastEmitDone_body (cfg : HttpConfig) (w : Worker) (i : Nat) (data : List Byte)
    (env : WriteEnv) : (w.body cfg i data env).task.lastEmitDone = w.task.lastEmitDone := by
  have hwritten : (writeCb cfg env w.fs w.task i data).task.lastEmitDone = w.task.lastEmitDone := by
    rcases writeCb_cases cfg env w.fs w.task i data with heq | ⟨-, -, ⟨-, heq⟩ | ⟨chunk, -, -, heq⟩⟩
    · rw [heq]
    · rw [heq]
      exact lastEmitDone_probed cfg env w.fs w.task i
    · rw [heq, ← lastEmitDone_probed cfg env w.fs w.task i]
      have hout := writeChunk_outcome env (probed cfg env w.fs w.task i).2
        (probed cfg env w.fs w.task i).1 i chunk
      generalize writeChunk env (probed cfg env w.fs w.task i).2
        (probed cfg env w.fs w.task i).1 i chunk = out at hout ⊢
      cases hout <;> rfl
  simp only [Worker.body]
  split <;> exact hwritten

theorem lastEmitDone_message (cfg : HttpConfig) (w : Worker) (i : Nat) (rc : CurlCode)
    (httpCode : Int) (built : Bool) :
    (w.message cfg i rc httpCode built).task.lastEmitDone = w.task.lastEmitDone := by
  have hresult := lastEmitDone_handlePartResult cfg (Worker.dropEasy w.task i) i rc httpCode
  simp only [Worker.message]
  split
  · rfl
  split
  · exact (Worker.lastEmitDone_addPart _ i built).trans hresult
  · exact hresult

/-! ### What is stored -/

/-- The loop is left for good. -/
def Phase.left : Phase → Bool
  | .leaving | .closing | .ending | .exited => true
  | .created | .performing | .draining => false

/-- The event breaks the loop off: `curl_multi_perform` fails, or something is thrown in it. -/
def Worker.breaksOff (w : Worker) : Event → Bool
  | .performed multiOk _ => !multiOk
  | .raised => !w.phase.left
  | _ => false

def Saved (stored : Option Archive) (t : TaskCtx) : Prop :=
  ∃ a, stored = some a ∧ a.path = t.fullFilePath ∧ a.spans = t.spans

/-- A thread, and the archive stored under its key. What it saved so far is an earlier state of its
task; where its loop is whole, it is the last state from the moment the thread has left it. -/
structure Tracked (whole : Prop) (stored : Option Archive) (w : Worker) : Prop where
  sound : Sound false w
  counted : ∀ s ∈ w.task.spans, 0 ≤ s.done
  untouched : w.phase = .created → w.pwrites = []
  behind : w.task.lastEmitDone = -1 ∨
    (w.task.probing = true → w.phase = .ending ∨ w.phase = .exited) ∧
      ∃ a, stored = some a ∧ w.task.fullFilePath = a.path ∧
        List.Forall₂ Span.Grown a.spans w.task.spans ∧ w.task.lastEmitDone ≤ a.totalDone
  flushed : whole → w.phase.left = true → w.task.supportRange ≠ 0 → w.pwrites = [] ∨ Saved stored w.task

structure Unwritten (w w' : Worker) : Prop where
  path : w'.task.fullFilePath = w.task.fullFilePath
  spans : w'.task.spans = w.task.spans
  lastEmitDone : w'.task.lastEmitDone = w.task.lastEmitDone
  probing : w'.task.probing = w.task.probing
  pwrites : w'.pwrites = w.pwrites

theorem Unwritten.of_quiet {w w' : Worker} (h : TaskCtx.Quiet w.task w'.task)
    (hemitDone : w'.task.lastEmitDone = w.task.lastEmitDone) (hwrites : w'.pwrites = w.pwrites) :
    Unwritten w w' :=
  ⟨h.fullFilePath, spans_of_extents h.extents, hemitDone, h.probing, hwrites⟩

theorem Sound.unfixed {fixed : Bool} {w : Worker} (h : Sound fixed w) : Sound false w where
  ctxs := h.ctxs
  probing hprobing := ⟨(h.probing hprobing).1, (h.probing hprobing).2.1, rfl⟩
  unsaved := h.unsaved
  laid hfixed := absurd hfixed (by simp)
  placed hfixed := absurd hfixed (by simp)
  saved hfixed := absurd hfixed (by simp)

namespace Tracked

variable {whole : Prop} {stored : Option Archive} {w w' : Worker}

theorem after (h : Tracked whole stored w) (hsound : Sound false w') (hsame : Unwritten w w')
    (hcreated : w'.phase = .created → w.phase = .created)
    (hended : w.phase = .ending ∨ w.phase = .exited → w'.phase = .ending ∨ w'.phase = .exited)
    (hleft : whole → w'.phase.left = true → w.phase = .created ∨
      w.phase.left = true ∧ w'.task.supportRange = w.task.supportRange) :
    Tracked whole stored w' where
  sound := hsound
  counted := hsame.spans.symm ▸ h.counted
  untouched hphase := hsame.pwrites.trans (h.untouched (hcreated hphase))
  behind := by
    rw [hsame.lastEmitDone, hsame.probing, hsame.path, hsame.spans]
    exact h.behind.imp_right fun hbehind => ⟨fun hprobing => hended (hbehind.1 hprobing), hbehind.2⟩
  flushed hwhole hphase hranged := by
    rw [Saved, hsame.pwrites, hsame.path, hsame.spans]
    rcases hleft hwhole hphase with hnew | ⟨hwas, hrange⟩
    · exact Or.inl (h.untouched hnew)
    · exact h.flushed hwhole hwas (hrange ▸ hranged)

theorem unsaved (h : Tracked whole stored w) (hnone : w.emitted = none) :
    Tracked whole (w.emitted.or stored) w := by
  rw [hnone, Option.none_or]
  exact h

theorem saved_of_le (h : Tracked whole stored w) (hle : w.task.totalDone ≤ w.task.lastEmitDone) :
    Saved stored w.task := by
  rcases h.behind with hnone | ⟨-, a, hstored, hpath, hgrown, hcount⟩
  · have hnonneg : 0 ≤ w.task.totalDone := by
      rw [← sum_spans]
      exact List.sum_nonneg fun n hn => by
        obtain ⟨s, hs, rfl⟩ := List.mem_map.mp hn
        exact h.counted s hs
    omega
  · refine ⟨a, hstored, hpath.symm, (eq_of_grown hgrown ?_).symm⟩
    rw [sum_spans, sum_spans_archive]
    exact hle.trans hcount

theorem emitted (h : Tracked whole stored w) (hsound : Sound false w') (hspans : w'.task.spans = w.task.spans)
    (hcount : w'.task.lastEmitDone = w.task.lastEmitDone ∨ w'.task.lastEmitDone = w'.task.totalDone)
    (hsettled : w'.task.probing = true → w'.phase = .ending ∨ w'.phase = .exited)
    (hcreated : w'.phase ≠ .created) : Tracked whole (some (serializeResume w'.task)) w' where
  sound := hsound
  counted := hspans.symm ▸ h.counted
  untouched hphase := absurd hphase hcreated
  behind := by
    have hself : w'.task.lastEmitDone ≤ (serializeResume w'.task).totalDone →
        (w'.task.probing = true → w'.phase = .ending ∨ w'.phase = .exited) ∧
          ∃ a, some (serializeResume w'.task) = some a ∧ w'.task.fullFilePath = a.path ∧
            List.Forall₂ Span.Grown a.spans w'.task.spans ∧ w'.task.lastEmitDone ≤ a.totalDone :=
      fun hle => ⟨hsettled, _, rfl, rfl, by rw [spans_serializeResume]; exact grown_refl _, hle⟩
    rcases hcount with hsame | htotal
    · rcases h.behind with hnone | ⟨-, a, -, -, hgrown, hle⟩
      · exact Or.inl (hsame.trans hnone)
      · refine Or.inr (hself ?_)
        have hsum := sum_le_of_grown hgrown
        rw [sum_spans_archive] at hsum
        rw [hsame, totalDone_serializeResume, ← sum_spans, hspans]
        exact hle.trans hsum
    · exact Or.inr (hself (by rw [totalDone_serializeResume, htotal]))
  flushed _ _ _ := Or.inr ⟨_, rfl, rfl, spans_serializeResume _⟩

/-- **`maybe_emit_resume` leaves nothing behind**: what it does not save is stored already. -/
theorem flushes (h : Tracked whole stored w) (hnone : w.emitted = none) (hsound : Sound false w')
    (htask : w'.task = w.maybeEmitResume.task) (hemitted : w'.emitted = w.maybeEmitResume.emitted)
    (hcreated : w'.phase ≠ .created)
    (hended : w.phase = .ending ∨ w.phase = .exited → w'.phase = .ending ∨ w'.phase = .exited) :
    Tracked whole (w'.emitted.or stored) w' := by
  rw [Worker.maybeEmitResume] at htask hemitted
  split at htask
  next hskip =>
    rw [if_pos hskip, hnone] at hemitted
    rw [hemitted, Option.none_or]
    refine ⟨hsound, htask ▸ h.counted, fun hphase => absurd hphase hcreated, ?_, ?_⟩
    · rw [htask]
      exact h.behind.imp_right fun hbehind => ⟨fun hprobing => hended (hbehind.1 hprobing), hbehind.2⟩
    · intro _ _ hranged
      rw [htask] at hranged ⊢
      exact Or.inr (h.saved_of_le (hskip.resolve_left hranged))
  next hready =>
    rw [if_neg hready] at hemitted
    have hsaved : w'.emitted = some (serializeResume w'.task) := by
      rw [hemitted, htask]
      rfl
    rw [hsaved, Option.some_or]
    refine h.emitted hsound (by rw [htask]; rfl) (Or.inr (by rw [htask]; rfl)) (fun hprobing => ?_)
      hcreated
    have hunprobed := (h.sound.probing (by rw [htask] at hprobing; exact hprobing)).1
    exact absurd (Or.inl hunprobed.supportRange) hready

theorem body (cfg : HttpConfig) (h : Tracked whole stored w) (i : Nat) (data : List Byte) (env : WriteEnv)
    (hsound : Sound false (w.body cfg i data env)) (hphase : w.phase = .performing) :
    Tracked whole stored (w.body cfg i data env) := by
  have hphase' : (w.body cfg i data env).phase = .performing := hphase
  have hstays : whole → (w.body cfg i data env).phase.left = true →
      (w.body cfg i data env).task.supportRange ≠ 0 →
        (w.body cfg i data env).pwrites = [] ∨ Saved stored (w.body cfg i data env).task :=
    fun _ hleft => absurd (hphase' ▸ hleft) (by simp [Phase.left])
  have hcount := lastEmitDone_body cfg w i data env
  cases hprobing : w.task.probing with
  | true =>
      have hunprobed := (h.sound.probing hprobing).1
      refine ⟨hsound, counted_body cfg w i data env hunprobed, fun hnew => ?_, Or.inl ?_, hstays⟩
      · simp [hphase'] at hnew
      · rcases h.behind with hnone | ⟨hended, -⟩
        · exact hcount.trans hnone
        · have := hended hprobing
          simp [hphase] at this
  | false =>
      have honward := onward_body cfg w i data env hprobing
      have hsettled := (Progresses.body cfg w i data env).probing hprobing
      refine ⟨hsound, counted_of_grown honward.spans h.counted, fun hnew => ?_, ?_, hstays⟩
      · simp [hphase'] at hnew
      · rw [hcount, hsettled, honward.path]
        refine h.behind.imp_right fun hbehind => ⟨fun hstill => absurd hstill (by simp), ?_⟩
        obtain ⟨-, a, hstored, hpath, hgrown, hle⟩ := hbehind
        exact ⟨a, hstored, hpath, grown_trans hgrown honward.spans, hle⟩

theorem enter (h : Tracked whole stored w) (hnone : w.emitted = none) (multiOk : Bool) (built : Nat → Bool)
    (hphase : w.phase = .created) (hsound : Sound false (w.enter multiOk built)) :
    Tracked whole ((w.enter multiOk built).emitted.or stored) (w.enter multiOk built) := by
  have hnew : ∀ phase : Phase, phase.left = true →
      w.phase = .created ∨ w.phase.left = true ∧ w.task.supportRange = w.task.supportRange :=
    fun _ _ => Or.inl hphase
  have hopen : w.phase = .ending ∨ w.phase = .exited → False := by simp [hphase]
  rw [Worker.enter] at hsound ⊢
  split at hsound
  next hcancel =>
    rw [if_pos hcancel]
    exact (h.after hsound (.of_quiet (.refl _) rfl rfl) (by simp) (fun h => (hopen h).elim)
      fun _ _ => Or.inl hphase).unsaved hnone
  next hcancel =>
    rw [if_neg hcancel]
    split at hsound
    next hpause =>
      rw [if_pos hpause]
      rw [Worker.maybeEmitResume_withPhase] at hsound ⊢
      have hpaused : Tracked whole stored
          { w.modifyTask fun t => { t with status := .paused } with phase := .exited } :=
        h.after h.sound.pausedExit ⟨rfl, rfl, rfl, rfl, rfl⟩ (by simp) (fun h => (hopen h).elim)
          fun _ _ => Or.inl hphase
      exact hpaused.flushes hnone hsound rfl rfl (by simp) (by simp)
    next hpause =>
      rw [if_neg hpause]
      split at hsound
      next hmulti =>
        rw [if_pos hmulti]
        exact (h.after hsound (.of_quiet (Worker.steady_threadFailed _).toQuiet rfl rfl) (by simp)
          (fun h => (hopen h).elim) fun _ _ => Or.inl hphase).unsaved hnone
      next hmulti =>
        rw [if_neg hmulti]
        refine unsaved (h.after hsound ?_ (fun _ => hphase) (fun h => (hopen h).elim)
          fun _ _ => Or.inl hphase) (by simp [hnone])
        refine .of_quiet ?_ ?_ ?_
        · rw [Worker.loopHead_task]
          exact (Worker.steady_spawnNewParts built w).toQuiet
        · simp
        · simp

theorem close (h : Tracked whole stored w) (hnone : w.emitted = none) (hphase : w.phase = .closing)
    (hsound : Sound false w.close) : Tracked whole (w.close.emitted.or stored) w.close := by
  have hopen : w.phase = .ending ∨ w.phase = .exited → False := by simp [hphase]
  simp only [Worker.close] at hsound ⊢
  split at hsound
  next hcompleted =>
    simp only [if_pos hcompleted]
    exact h.emitted hsound rfl (Or.inl rfl) (fun _ => Or.inl rfl) (by simp)
  next hcompleted =>
    simp only [if_neg hcompleted]
    split at hsound
    next hpause =>
      simp only [if_pos hpause]
      exact h.flushes hnone hsound rfl rfl (by simp) fun h => (hopen h).elim
    next hpause =>
      simp only [if_neg hpause]
      exact (h.after hsound (.of_quiet (.refl _) rfl rfl) (by simp) (fun h => (hopen h).elim)
        fun _ _ => Or.inr ⟨by simp [hphase, Phase.left], rfl⟩).unsaved hnone

theorem requested {cfg : HttpConfig} {e : Event} (h : Tracked whole stored w)
    (hrequest : e = .pauseRequest ∨ e = .deleteRequest ∨ e = .shutdown)
    (hstep : w.step cfg e = some w') : Tracked whole stored w' := by
  have hsound : Sound false w' := (h.sound.step hstep).unfixed
  rcases hrequest with rfl | rfl | rfl <;>
    obtain rfl := Option.some.inj hstep <;>
    exact h.after hsound ⟨rfl, rfl, rfl, rfl, rfl⟩ id id fun _ hleft => Or.inr ⟨hleft, rfl⟩

theorem taken (h : Tracked whole stored w) (fs : Fs) :
    Tracked whole stored { w with fs := fs, emitted := none } where
  sound := {
    ctxs := h.sound.ctxs
    probing := h.sound.probing
    unsaved := fun _ hsome => absurd rfl hsome
    laid := fun hfixed => absurd hfixed (by simp)
    placed := fun hfixed => absurd hfixed (by simp)
    saved := fun hfixed => absurd hfixed (by simp) }
  counted := h.counted
  untouched := h.untouched
  behind := h.behind
  flushed := h.flushed

/-- **One step** of a thread that does not break off, and what it leaves stored. -/
theorem step {cfg : HttpConfig} {e : Event} (h : Tracked whole stored w) (hnone : w.emitted = none)
    (hwhole : whole → w.breaksOff e = false) (hstep : w.step cfg e = some w') :
    Tracked whole (w'.emitted.or stored) w' := by
  have hsound : Sound false w' := (h.sound.step hstep).unfixed
  -- nothing written, nothing saved
  have hafter : Unwritten w w' → w'.emitted = w.emitted →
      (w'.phase = .created → w.phase = .created) →
      (w.phase = .ending ∨ w.phase = .exited → w'.phase = .ending ∨ w'.phase = .exited) →
      (whole → w'.phase.left = true → w.phase = .created ∨
        w.phase.left = true ∧ w'.task.supportRange = w.task.supportRange) →
      Tracked whole (w'.emitted.or stored) w' := by
    intro hsame hemitted hcreated hended hleft
    exact (h.after hsound hsame hcreated hended hleft).unsaved (hemitted.trans hnone)
  cases Worker.stepped_of_step hstep with
  | @enter multiOk built hphase => exact h.enter hnone multiOk built hphase hsound
  | @header i line hphase hlive =>
      have hline := (steady_headerCb w.task i line).toQuiet
      refine hafter (.of_quiet ?_ ?_ rfl) rfl id id fun _ hleft => ?_
      · simp only [Worker.header]
        split
        · exact hline
        · exact hline.trans (steady_modifyCtx _ i _).toQuiet
      · simp only [Worker.header]
        split
        · exact lastEmitDone_headerCb w.task i line
        · exact lastEmitDone_headerCb w.task i line
      · have hstill : w.phase.left = true := hleft
        simp [hphase, Phase.left] at hstill
  | @body i data env hphase hlive =>
      exact (h.body cfg i data env hsound hphase).unsaved hnone
  | @performed built hphase =>
      exact hafter (.of_quiet (Worker.steady_spawnNewParts built w).toQuiet (by simp) (by simp))
        (by simp) (by simp) (by simp [hphase]) (by simp [Phase.left])
  | multiFailed hphase =>
      exact hafter ⟨rfl, rfl, rfl, rfl, rfl⟩ rfl (by simp) (by simp [hphase]) fun hholds =>
        absurd (hwhole hholds) (by simp [Worker.breaksOff])
  | @message i rc httpCode built hphase heasy =>
      have hsame : (w.message cfg i rc httpCode built).phase = w.phase ∧
          (w.message cfg i rc httpCode built).pwrites = w.pwrites ∧
          (w.message cfg i rc httpCode built).emitted = w.emitted := by
        simp only [Worker.message]
        split
        · exact ⟨rfl, rfl, rfl⟩
        split <;> exact ⟨rfl, rfl, rfl⟩
      refine hafter ⟨(SamePlace.message cfg w i rc httpCode built).path,
        spans_message cfg w i rc httpCode built, lastEmitDone_message cfg w i rc httpCode built,
        Worker.message_probing cfg w i rc httpCode built, hsame.2.1⟩ hsame.2.2 ?_ ?_ ?_ <;>
      · rw [hsame.1, hphase]
        simp [Phase.left]
  | drained hphase =>
      refine h.flushes hnone hsound (by simp) (by simp) ?_ (by simp [hphase])
      rw [Worker.loopHead]
      split <;> simp
  | raised hphase =>
      refine hafter (.of_quiet (Worker.steady_threadFailed _).toQuiet rfl rfl) rfl (by simp) ?_
        fun hholds => ?_
      · rcases hphase with hphase | hphase <;> simp [hphase]
      · have hbroken := hwhole hholds
        rcases hphase with hphase | hphase <;> simp [Worker.breaksOff, hphase, Phase.left] at hbroken
  | raisedLate hphase =>
      exact hafter (.of_quiet (steady_fail _ _).toQuiet rfl rfl) rfl (by simp) (by simp)
        fun _ _ => Or.inr ⟨by simp [hphase, Phase.left], rfl⟩
  | leave hphase =>
      have hleave := (Worker.steady_cleanupAll w.task).toQuiet.trans (quiet_aggregateStatus _)
      exact hafter (.of_quiet hleave (lastEmitDone_aggregateStatus _) rfl) rfl (by simp [Worker.leave])
        (by simp [hphase]) fun _ _ => Or.inr ⟨by simp [hphase, Phase.left], hleave.supportRange⟩
  | close hphase => exact h.close hnone hphase hsound
  | exit hphase =>
      have hsame : Unwritten w w.exit ∧ w.exit.emitted = w.emitted ∧
          w.exit.task.supportRange = w.task.supportRange := by
        rw [Worker.exit]
        split <;> exact ⟨⟨rfl, rfl, rfl, rfl, rfl⟩, rfl, rfl⟩
      exact hafter hsame.1 hsame.2.1 (by simp [Worker.exit]) (fun _ => Or.inr rfl)
        fun _ _ => Or.inr ⟨by simp [hphase, Phase.left], hsame.2.2⟩
  | pauseRequest => exact (h.requested (Or.inl rfl) hstep).unsaved hnone
  | deleteRequest => exact (h.requested (Or.inr (Or.inl rfl)) hstep).unsaved hnone
  | shutdown => exact (h.requested (Or.inr (Or.inr rfl)) hstep).unsaved hnone

end Tracked

/-- A thread that starts, from nothing or from an archive: it has neither written nor saved. -/
theorem tracked_startWorker (whole : Prop) (stored : Option Archive) (url clientId savePath : String)
    {archive : Option Archive} (fs : Fs) (granted : Bool)
    (hcounted : ∀ a, archive = some a → ∀ s ∈ a.spans, 0 ≤ s.done) :
    Tracked whole stored (startWorker url clientId savePath archive fs granted) where
  sound := (sound_startWorker url clientId savePath fs granted
    fun hfixed : false = true => absurd hfixed (by simp)).unfixed
  counted := by
    simp only [startWorker]
    rcases startFrom_cases url clientId savePath archive fs granted with
      heq | ⟨a, ha, -, -, -, heq⟩ <;> rw [heq]
    · simp [TaskCtx.spans, taskCreateNew, PartState.span]
    · rw [spans_continueFrom]
      exact hcounted a ha
  untouched _ := rfl
  behind := by
    refine Or.inl ?_
    simp only [startWorker]
    rcases startFrom_cases url clientId savePath archive fs granted with
      heq | ⟨a, -, -, -, -, heq⟩ <;> rw [heq] <;> rfl
  flushed _ hleft := absurd hleft (by simp [startWorker, Phase.left])

theorem restored_startWorker {url clientId savePath : String} {a : Archive} {fs : Fs} {granted : Bool}
    (hsettled : (startWorker url clientId savePath (some a) fs granted).task.probing = false) :
    (startWorker url clientId savePath (some a) fs granted).task.fullFilePath = a.path ∧
      (startWorker url clientId savePath (some a) fs granted).task.spans = a.spans := by
  simp only [startWorker] at hsettled ⊢
  rcases startFrom_cases url clientId savePath (some a) fs granted with heq | ⟨b, hb, -, -, -, heq⟩ <;>
    rw [heq] at hsettled ⊢
  · simp [taskCreateNew] at hsettled
  · obtain rfl := Option.some.inj hb
    exact ⟨rfl, spans_continueFrom _ a⟩

end DownloadWrapper
