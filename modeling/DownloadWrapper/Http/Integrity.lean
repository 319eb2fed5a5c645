import DownloadWrapper.Http.Connections

/-!
# What was downloaded is what was there

Over whole runs of a download against a versioned resource, through pauses, crashes and restarts: the
bytes that the parts count are one version's, and a completed download is that version, if no
connection is taken for the end of a file while the probe still waits for its first byte, and no probe
is finalized with a total that an answer broken off before its validator left behind.
-/

namespace DownloadWrapper

open ByteFile TaskCtx Transition

section AllProper

variable {V : Type*} {R : Resource V} {t t' : TaskCtx} {spawned i : Nat}
  {deliveries : Nat → Option (Delivery V)}

structure AllProper (R : Resource V) (t : TaskCtx) (spawned : Nat)
    (deliveries : Nat → Option (Delivery V)) : Prop where
  proper : ∀ i, Proper R t i (deliveries i)
  unspawned : ∀ i, spawned ≤ i → (t.ctx i).easy = none ∧ deliveries i = none

namespace AllProper

theorem lt_of_easy (h : AllProper R t spawned deliveries) (heasy : (t.ctx i).easy ≠ none) :
    i < spawned := by
  by_contra hout
  exact heasy (h.unspawned i (not_lt.mp hout)).1

theorem lt_of_live (h : AllProper R t spawned deliveries) (hlive : Worker.live t i = true) :
    i < spawned := by
  refine h.lt_of_easy fun hnone => ?_
  simp [Worker.live, hnone] at hlive

/-- An event at connection `i`; the others find the task as they left it, or are closed. -/
theorem at_connection (h : AllProper R t spawned deliveries) {o : Option (Delivery V)}
    (hi : i < spawned) (ho : Proper R t' i o)
    (hothers : ∀ j, j ≠ i → Unmoved j t t' ∨ (t'.ctx j).easy = none) :
    AllProper R t' spawned (Function.update deliveries i o) where
  proper j := by
    by_cases hj : j = i
    · subst hj
      rw [Function.update_self]
      exact ho
    · rw [Function.update_of_ne hj]
      rcases hothers j hj with hunmoved | hnone
      · exact (h.proper j).of_unmoved hunmoved
      · exact proper_of_easy_none _ hnone
  unspawned j hj := by
    have hne : j ≠ i := by omega
    obtain ⟨hclosed, hnone⟩ := h.unspawned j hj
    rw [Function.update_of_ne hne]
    refine ⟨(hothers j hne).elim (fun hunmoved => ?_) id, hnone⟩
    cases heasy : (t'.ctx j).easy with
    | none => rfl
    | some easy => simp [hunmoved.easy easy heasy] at hclosed

theorem of_unmoved (h : AllProper R t spawned deliveries) (hunmoved : ∀ i, Unmoved i t t') :
    AllProper R t' spawned deliveries where
  proper i := (h.proper i).of_unmoved (hunmoved i)
  unspawned i hi := by
    obtain ⟨hclosed, hnone⟩ := h.unspawned i hi
    refine ⟨?_, hnone⟩
    cases heasy : (t'.ctx i).easy with
    | none => rfl
    | some easy => simp [(hunmoved i).easy easy heasy] at hclosed

theorem of_closed (h : AllProper R t spawned deliveries) (hclosed : ∀ i, (t'.ctx i).easy = none) :
    AllProper R t' spawned deliveries where
  proper i := proper_of_easy_none _ (hclosed i)
  unspawned i hi := ⟨hclosed i, (h.unspawned i hi).2⟩

theorem spawnPart {w : Worker} (built : Nat → Bool) (h : AllProper R w.task w.spawned deliveries)
    (hunprobed : w.task.probing → w.task.Unprobed) :
    AllProper R (Worker.spawnPart built w w.spawned).task (w.spawned + 1) deliveries := by
  simp only [Worker.spawnPart]
  split
  · exact ⟨h.proper, fun i hi => h.unspawned i (by omega)⟩
  obtain ⟨hclosed, hnone⟩ := h.unspawned w.spawned le_rfl
  have hproper := proper_addPart R (built w.spawned) hclosed hunprobed
  have hothers : ∀ j, j ≠ w.spawned →
      Unmoved j w.task (Worker.addPart w.task w.spawned (built w.spawned)) := fun j hj =>
    Unmoved.of_beside (Worker.steady_addPart _ _ _).toQuiet (Beside.addPart _ _) hj
  refine ⟨fun j => ?_, fun j hj => ?_⟩
  · by_cases hj : j = w.spawned
    · subst hj
      rw [hnone]
      exact hproper
    · exact (h.proper j).of_unmoved (hothers j hj)
  · obtain ⟨hclosed', hnone'⟩ := h.unspawned j (by omega)
    refine ⟨?_, hnone'⟩
    rw [(Beside.addPart w.task (built w.spawned)).ctx j (by omega), hclosed']

theorem spawnNewParts {w : Worker} (built : Nat → Bool) (h : AllProper R w.task w.spawned deliveries)
    (hunprobed : w.task.probing → w.task.Unprobed) :
    AllProper R (w.spawnNewParts built).task (w.spawnNewParts built).spawned deliveries := by
  rw [Worker.spawnNewParts]
  generalize w.task.partCtx.length - w.spawned = count
  induction count generalizing w with
  | zero => exact h
  | succ count ih =>
      have hnext : (Worker.spawnPart built w w.spawned).spawned = w.spawned + 1 := by
        rw [Worker.spawnPart]
        split <;> rfl
      have hquiet := (Worker.steady_spawnPart built w w.spawned).toQuiet
      have hspawned := ih (w := Worker.spawnPart built w w.spawned)
        (hnext.symm ▸ h.spawnPart built hunprobed)
        fun hprobing => (hunprobed (hquiet.probing ▸ hprobing)).of_quiet hquiet
      rw [hnext] at hspawned
      exact hspawned

/-! ### Events at a connection -/

variable {stored : Option Archive} {w : Worker} {d : Delivery V}

theorem header (h : AllProper R w.task w.spawned deliveries) (hs : Sourced R stored w)
    (hlive : Worker.live w.task i = true) (hd : deliveries i = some d) {line : String}
    {lines : List String} (hlines : d.lines = line :: lines) :
    AllProper R (w.header i line).task w.spawned
      (Function.update deliveries i (some { d with lines := lines })) := by
  have hi : i < w.task.parts.length := hs.ctxs ▸ Worker.lt_of_live hlive
  have hproper : Proper R w.task i (some d) := hd ▸ h.proper i
  refine h.at_connection (h.lt_of_live hlive)
    (hproper.header hlines hlive (hs.place_of_fullStreamOk hi)) fun j hj => Or.inl ?_
  have hline : Unmoved j w.task (headerCb w.task i line).1 :=
    Unmoved.of_beside (steady_headerCb _ i line).toQuiet (Beside.headerCb _ line) hj
  simp only [Worker.header]
  split
  · exact hline
  · exact hline.trans (Unmoved.of_beside (steady_modifyCtx _ i _).toQuiet (Beside.modifyCtx _ _) hj)

theorem body (cfg : HttpConfig) (env : WriteEnv) (h : AllProper R w.task w.spawned deliveries)
    (hs : Sourced R stored w) (hlive : Worker.live w.task i = true) (hd : deliveries i = some d)
    (hlines : d.lines = []) (data : List Byte) :
    AllProper R (w.body cfg i data env).task w.spawned
      (Function.update deliveries i (some { d with body := d.body.drop data.length })) := by
  have hctx := Worker.lt_of_live hlive
  have hi : i < w.task.parts.length := hs.ctxs ▸ hctx
  have hproper : Proper R w.task i (some d) := hd ▸ h.proper i
  refine h.at_connection (h.lt_of_live hlive) (hproper.body cfg env hlines hlive hi
    (fun hprobing => (hs.probing hprobing).1.unprobed) (hs.place_nonneg hi)) fun j hj => ?_
  have habort : ∀ t : TaskCtx, Unmoved j t (Worker.abortEasy t i) := fun t =>
    Unmoved.of_beside (steady_modifyCtx _ i _).toQuiet (Beside.modifyCtx _ _) hj
  cases hprobing : w.task.probing with
  | false =>
      left
      have hchunk := Unmoved.of_writeCb cfg env w.fs data hprobing hj
      simp only [Worker.body]
      split
      · exact hchunk
      · exact hchunk.trans (habort _)
  | true =>
      -- the probing connection is the only one there is
      right
      have hone := (hs.probing hprobing).1.unprobed.ctxs
      have hnone : (w.task.ctx j).easy = none := by
        rw [ctx_of_length_le (by omega)]
      have hpassed := (writeCb_passed cfg env w.fs w.task i data).easy j
      rw [hnone] at hpassed
      simp only [Worker.body]
      split
      · exact hpassed
      · rw [Worker.abortEasy, (Beside.modifyCtx _ _).ctx j hj]
        exact hpassed

theorem message (cfg : HttpConfig) (h : AllProper R w.task w.spawned deliveries)
    (hs : Sourced R stored w) (heasy : (w.task.ctx i).easy.isSome = true) (rc : CurlCode)
    (httpCode : Int) (built : Bool) :
    AllProper R (w.message cfg i rc httpCode built).task w.spawned
      (Function.update deliveries i none) := by
  have hspawned : i < w.spawned := h.lt_of_easy (Option.isSome_iff_ne_none.mp heasy)
  have hdrop : Beside i w.task (Worker.dropEasy w.task i) := Beside.modifyCtx _ _
  simp only [Worker.message]
  split
  · refine h.at_connection hspawned (proper_of_easy_none none (dropEasy_easy _ i)) fun j hj => ?_
    exact Or.inl (Unmoved.of_beside (steady_modifyCtx _ i _).toQuiet hdrop hj)
  have hquiet := hs.quiet_result cfg rc httpCode (Worker.lt_of_easy heasy)
  have hbeside := hdrop.trans (Beside.handlePartResult cfg _ rc httpCode)
  have hclosed := handlePartResult_easy cfg (Worker.dropEasy w.task i) i i rc httpCode
  rw [dropEasy_easy] at hclosed
  generalize handlePartResult cfg (Worker.dropEasy w.task i) i rc httpCode = out
    at hquiet hbeside hclosed ⊢
  obtain ⟨t, again⟩ := out
  simp only at hquiet hbeside hclosed ⊢
  split
  · refine h.at_connection hspawned (proper_addPart R built hclosed fun hprobing => ?_)
      fun j hj => Or.inl ?_
    · exact (hs.probing (hquiet.probing ▸ hprobing)).1.unprobed.of_quiet hquiet
    · exact Unmoved.of_beside (hquiet.trans (Worker.steady_addPart t i built).toQuiet)
        (hbeside.trans (Beside.addPart t built)) hj
  · exact h.at_connection hspawned (proper_of_easy_none none hclosed) fun j hj =>
      Or.inl (Unmoved.of_beside hquiet hbeside hj)

/-! ### Events of the thread -/

theorem maybeEmitResume (h : AllProper R w.task w.spawned deliveries) :
    AllProper R w.maybeEmitResume.task w.spawned deliveries := by
  obtain ⟨emitDone, heq⟩ := Worker.maybeEmitResume_task w
  rw [heq]
  exact h.of_unmoved fun _ => Unmoved.of_same rfl rfl rfl rfl rfl

theorem leave (h : AllProper R w.task w.spawned deliveries) :
    AllProper R w.leave.task w.spawned deliveries := by
  refine h.of_closed fun i => ?_
  have hctxs : w.leave.task.partCtx = (Worker.cleanupAll w.task).partCtx :=
    aggregateStatus_partCtx _
  rw [ctx, hctxs, Worker.cleanupAll, List.getD, List.getElem?_map]
  cases w.task.partCtx[i]? <;> rfl

theorem close (h : AllProper R w.task w.spawned deliveries) :
    AllProper R w.close.task w.spawned deliveries := by
  simp only [Worker.close]
  split
  · refine h.of_unmoved fun i => ?_
    have hctx : ((w.task.partCtx.map fun c => { c with fileOpen := false }).getD i default)
        = { w.task.ctx i with fileOpen := false } := by
      simp only [ctx, List.getD, List.getElem?_map]
      cases w.task.partCtx[i]? <;> rfl
    refine ⟨fun easy heasy => ?_, rfl, fun _ => rfl, fun _ => rfl, fun hprobing => ⟨hprobing, ?_, ?_⟩⟩
    · rw [ctx, Worker.emitResume, Worker.modifyTask, hctx] at heasy
      exact heasy
    · rw [ctx, Worker.emitResume, Worker.modifyTask, hctx]
    · rw [ctx, Worker.emitResume, Worker.modifyTask, hctx]
  split
  · exact h.maybeEmitResume
  · exact h

theorem enter (h : AllProper R w.task w.spawned deliveries) (hs : Sourced R stored w)
    (multiOk : Bool) (built : Nat → Bool) :
    AllProper R (w.enter multiOk built).task (w.enter multiOk built).spawned deliveries := by
  have hsame : ∀ status message reason, AllProper R
      { w.task with status := status, message := message, reason := reason } w.spawned deliveries :=
    fun _ _ _ => h.of_unmoved fun _ => Unmoved.of_same rfl rfl rfl rfl rfl
  rw [Worker.enter]
  split
  · exact h
  split
  · have hpaused : AllProper R (w.modifyTask fun t => { t with status := .paused }).task
        (w.modifyTask fun t => { t with status := .paused }).spawned deliveries := hsame _ _ _
    rw [Worker.maybeEmitResume_withPhase, Worker.maybeEmitResume_spawned]
    exact hpaused.maybeEmitResume (w := { w.modifyTask fun t => { t with status := .paused } with
      phase := .exited })
  split
  · exact hsame _ _ _
  · rw [Worker.loopHead_task, Worker.loopHead_spawned]
    exact h.spawnNewParts built fun hprobing => (hs.probing hprobing).1.unprobed

end AllProper

end AllProper

/-! ### The condition on steps -/

namespace Transfer

variable {V : Type*}

/-- No connection's end completes a part while the probe still waits for its first byte, and the first
byte does not find a total on the task that is smaller than what its own header announced. -/
def StepKeepsSource (x : Transfer V) : Turn V → Prop
  | .work (.message i rc httpCode _) =>
      ¬ (x.worker.task.cancelReq ∨ x.worker.task.pauseReq) →
        completesUnsized x.worker.task i rc httpCode → x.worker.task.probing = false
  | .work (.body i data _) =>
      ¬ (x.worker.task.status = .error ∨ x.worker.task.cancelReq ∨ x.worker.task.pauseReq ∨
          data = []) →
        x.worker.task.probing →
          ¬ (0 < x.worker.task.totalSize ∧
            x.worker.task.totalSize < (x.worker.task.ctx i).seenTotalSize)
  | _ => True

instance (x : Transfer V) : ∀ turn : Turn V, Decidable (x.StepKeepsSource turn)
  | .work (.message i rc httpCode _) =>
      inferInstanceAs (Decidable (¬ (x.worker.task.cancelReq ∨ x.worker.task.pauseReq) →
        completesUnsized x.worker.task i rc httpCode → x.worker.task.probing = false))
  | .work (.body i data _) =>
      inferInstanceAs (Decidable (¬ (x.worker.task.status = .error ∨ x.worker.task.cancelReq ∨
        x.worker.task.pauseReq ∨ data = []) → x.worker.task.probing →
          ¬ (0 < x.worker.task.totalSize ∧
            x.worker.task.totalSize < (x.worker.task.ctx i).seenTotalSize)))
  | .answer .. | .restart | .work (.enter ..) | .work (.header ..) | .work (.performed ..)
  | .work .drained | .work .raised | .work .leave | .work .close | .work .exit
  | .work .pauseRequest | .work .deleteRequest | .work .shutdown => isTrue trivial

/-- The server keeps its contract, and the step the condition. -/
def Careful (R : Resource V) (x : Transfer V) (turn : Turn V) : Prop :=
  x.Honest R turn ∧ x.StepKeepsSource turn

instance (R : Resource V) (x : Transfer V) (turn : Turn V) : Decidable (x.Careful R turn) :=
  inferInstanceAs (Decidable (_ ∧ _))

/-- What is promised of every state. The bytes that the parts count are on disk, all of one version,
whose validator the task has; so are those of the last archive; and a completed download is that
version. -/
structure Intact (R : Resource V) (x : Transfer V) : Prop where
  counted : (∀ p ∈ x.worker.task.parts, p.done = 0) ∨
    ∃ v bytes, x.worker.task.etag = R.etag v ∧
      x.worker.fs.bytes? x.worker.task.fullFilePath = some bytes ∧
      ∀ p ∈ x.worker.task.parts,
        Copies bytes (R.bytes v) p.start.toNat (p.start + p.done).toNat
  saved : ∀ a, x.saved = some a → ∃ v bytes, a.etag = R.etag v ∧
    x.worker.fs.bytes? a.path = some bytes ∧
    ∀ p ∈ a.parts, Copies bytes (R.bytes v) p.start.toNat (p.start + p.done).toNat
  completed : x.worker.task.status = .completed → ∃ v, x.worker.task.etag = R.etag v ∧
    x.worker.fs.bytes? x.worker.task.fullFilePath = some (R.bytes v)

structure Trusted (R : Resource V) (x : Transfer V) : Prop where
  sourced : Sourced R x.stored x.worker
  connections : AllProper R x.worker.task x.worker.spawned x.deliveries

namespace Trusted

variable {R : Resource V} {x x' : Transfer V}

theorem answer (h : Trusted R x) {i : Nat} {a : Answer V}
    (hlive : Worker.live x.worker.task i = true) (hnone : x.deliveries i = none)
    (hhonest : x.Honest R (.answer i a)) : Trusted R (x.answer i a) where
  sourced := h.sourced
  connections := by
    obtain ⟨easy, heasy⟩ : ∃ easy, (x.worker.task.ctx i).easy = some easy := by
      cases heasy : (x.worker.task.ctx i).easy with
      | none => simp [Worker.live, heasy] at hlive
      | some easy => exact ⟨easy, rfl⟩
    have hproper : Proper R x.worker.task i none := hnone ▸ h.connections.proper i
    exact h.connections.at_connection (h.connections.lt_of_live hlive)
      (hproper.answered heasy (hhonest easy heasy)) fun _ _ => Or.inl (.refl _)

theorem restart (h : Trusted R x) (url clientId savePath : String) :
    Trusted R (x.restart url clientId savePath) where
  sourced := h.sourced.restarted url clientId savePath
  connections := by
    have hclosed : ∀ i, (((x.restart url clientId savePath).worker.task).ctx i).easy = none :=
      startWorker_easy url clientId savePath x.saved x.worker.fs true
    exact ⟨fun i => proper_of_easy_none _ (hclosed i), fun i _ => ⟨hclosed i, rfl⟩⟩

theorem header (h : Trusted R x) {i : Nat} {line : String} (hphase : x.worker.phase = .performing)
    (hlive : Worker.live x.worker.task i = true) {deliveries : Nat → Option (Delivery V)}
    (hdeliver : deliver x.deliveries (.header i line) = some deliveries) :
    Trusted R { x with worker := x.worker.header i line, deliveries := deliveries } := by
  obtain ⟨hs, hc⟩ := h
  obtain ⟨d, hd, hnext⟩ := Option.bind_eq_some_iff.mp hdeliver
  simp only [Option.ite_none_right_eq_some, Option.some.injEq] at hnext
  obtain ⟨hhead, rfl⟩ := hnext
  have hlines : d.lines = line :: d.lines.tail := (List.cons_head?_tail hhead).symm
  refine ⟨?_, hc.header hs hlive hd hlines⟩
  have hline := steady_headerCb x.worker.task i line
  have hbeside : Beside i x.worker.task (headerCb x.worker.task i line).1 := Beside.headerCb _ line
  refine hs.of_steady_early ?_ ?_ rfl rfl (by simp [hphase])
  · simp only [Worker.header]
    split
    · exact hline
    · exact hline.trans (steady_modifyCtx _ i _)
  · simp only [Worker.header]
    split
    · exact hbeside.etag
    · exact (hbeside.trans (Beside.modifyCtx _ _)).etag

theorem body (h : Trusted R x) (cfg : HttpConfig) {i : Nat} {data : List Byte} {env : WriteEnv}
    (hok : x.StepKeepsSource (.work (.body i data env))) (hphase : x.worker.phase = .performing)
    (hlive : Worker.live x.worker.task i = true) {deliveries : Nat → Option (Delivery V)}
    (hdeliver : deliver x.deliveries (.body i data env) = some deliveries) :
    Trusted R { x with worker := x.worker.body cfg i data env, deliveries := deliveries } := by
  obtain ⟨hs, hc⟩ := h
  obtain ⟨d, hd, hnext⟩ := Option.bind_eq_some_iff.mp hdeliver
  simp only [Option.ite_none_right_eq_some, Option.some.injEq] at hnext
  obtain ⟨⟨hlines, hdata⟩, rfl⟩ := hnext
  have hi : i < x.worker.task.parts.length := hs.ctxs ▸ Worker.lt_of_live hlive
  refine ⟨hs.body cfg hi hphase fun hdoor => ?_, hc.body cfg env hs hlive hd hlines data⟩
  have hproper : Proper R x.worker.task i (some d) := hd ▸ hc.proper i
  rcases hproper hlive with hnone | hpromised
  · rw [hnone] at hdata
    exact absurd (Or.inr (Or.inr (Or.inr (List.prefix_nil.mp hdata)))) hdoor
  · exact ⟨_, hpromised.brings hlines hdata (hok hdoor)⟩

theorem work {cfg : HttpConfig} (h : Trusted R x) {e : Event} (hok : x.StepKeepsSource (.work e))
    {w : Worker} (hstep : x.worker.step cfg e = some w) {deliveries : Nat → Option (Delivery V)}
    (hdeliver : deliver x.deliveries e = some deliveries) :
    Trusted R { x with worker := w, deliveries := deliveries } := by
  obtain ⟨hs, hc⟩ := h
  -- events of the thread leave what is under way
  have hthread : ∀ {w : Worker}, Sourced R x.stored w → AllProper R w.task w.spawned x.deliveries →
      some x.deliveries = some deliveries →
      Trusted R { x with worker := w, deliveries := deliveries } := by
    intro w hs hc hsame
    obtain rfl := Option.some.inj hsame
    exact ⟨hs, hc⟩
  cases Worker.stepped_of_step hstep with
  | @enter multiOk built hphase => exact hthread (hs.enter multiOk built hphase) (hc.enter hs _ _) hdeliver
  | header hphase hlive => exact header ⟨hs, hc⟩ hphase hlive hdeliver
  | body hphase hlive => exact body ⟨hs, hc⟩ cfg hok hphase hlive hdeliver
  | @performed built hphase =>
      refine hthread ?_ (hc.spawnNewParts built fun hp => (hs.probing hp).1.unprobed) hdeliver
      exact hs.of_steady_early (Worker.steady_spawnNewParts built x.worker)
        (fun _ => Worker.spawnNewParts_etag built x.worker) (by simp) (by simp) (by simp [hphase])
  | multiFailed hphase =>
      exact hthread (hs.of_steady_early (.refl _) (fun _ => rfl) rfl rfl (by simp [hphase])) hc hdeliver
  | @message i rc httpCode built hphase heasy =>
      have hnext : (if httpCode = responseCode (x.deliveries i) then
          some (Function.update x.deliveries i none) else none) = some deliveries := hdeliver
      simp only [Option.ite_none_right_eq_some, Option.some.injEq] at hnext
      obtain ⟨-, rfl⟩ := hnext
      refine ⟨hs.message cfg (Worker.lt_of_easy heasy) hphase hok, ?_⟩
      rw [Worker.message_spawned]
      exact hc.message cfg hs heasy rc _ built
  | drained hphase =>
      refine hthread ?_ ?_ hdeliver
      · refine hs.maybeEmitResume.of_steady_early ?_ ?_ (by simp) (by simp) ?_
        · rw [Worker.loopHead_task]
          exact .refl _
        · rw [Worker.loopHead_task]
          exact fun _ => rfl
        · simp [hphase]
      · rw [Worker.loopHead_task, Worker.loopHead_spawned, Worker.maybeEmitResume_spawned]
        exact hc.maybeEmitResume
  | raised hphase =>
      refine hthread ?_ (hc.of_unmoved fun _ => Unmoved.of_same rfl rfl rfl rfl rfl) hdeliver
      refine hs.of_steady_early (Worker.steady_threadFailed _) (fun _ => rfl) rfl rfl ?_
      rcases hphase with hphase | hphase <;> simp [hphase]
  | raisedLate hphase =>
      refine hthread ?_ (hc.of_unmoved fun _ => Unmoved.of_same rfl rfl rfl rfl rfl) hdeliver
      exact hs.of_steady (steady_fail _ _) (fun _ => rfl) rfl rfl (by simp [hphase])
        fun _ => ⟨Or.inr (Or.inl rfl), rfl⟩
  | leave hphase => exact hthread (hs.leave hphase) hc.leave hdeliver
  | close hphase =>
      refine hthread (hs.close hphase) ?_ hdeliver
      rw [Worker.close_spawned]
      exact hc.close
  | exit hphase =>
      refine hthread hs.exit ?_ hdeliver
      simp only [Worker.exit]
      split
      · exact hc.of_unmoved fun _ => Unmoved.of_same rfl rfl rfl rfl rfl
      · exact hc
  | pauseRequest | deleteRequest | shutdown =>
      refine hthread ?_ (hc.of_unmoved fun _ => Unmoved.of_same rfl rfl rfl rfl rfl) hdeliver
      exact hs.of_same_parts ⟨rfl, rfl, rfl, rfl, rfl, fun _ => rfl, id⟩ rfl rfl id rfl rfl id id

/-- **One step keeps the replica.** -/
theorem step {cfg : HttpConfig} {url clientId savePath : String} (h : Trusted R x) {turn : Turn V}
    (hok : x.Careful R turn) (hstep : x.step cfg url clientId savePath turn = some x') :
    Trusted R x' := by
  cases turn with
  | answer i a =>
      simp only [Transfer.step, Option.ite_none_right_eq_some, Option.some.injEq] at hstep
      obtain ⟨⟨hlive, hnone⟩, rfl⟩ := hstep
      exact h.answer hlive (Option.isNone_iff_eq_none.mp hnone) hok.1
  | work e =>
      obtain ⟨w, hw, hnext⟩ := Option.bind_eq_some_iff.mp hstep
      obtain ⟨deliveries, hdeliver, rfl⟩ := Option.map_eq_some_iff.mp hnext
      exact h.work hok.2 hw hdeliver
  | restart =>
      obtain rfl := Option.some.inj hstep
      exact h.restart url clientId savePath

theorem intact (h : Trusted R x) : x.Intact R where
  counted := by
    rcases h.sourced.unprobed_or_genuine with hunprobed | ⟨v, bytes, hbytes, hreplica, -⟩
    · obtain ⟨p, hp, hextent⟩ := hunprobed.parts
      left
      intro q hq
      obtain rfl : q = p := by simpa [hp] using hq
      exact congrArg Extent.done hextent
    · exact Or.inr ⟨v, bytes, hreplica.etag, hbytes, fun p hp =>
        hreplica.copied.copied p.extent (List.mem_map_of_mem hp)⟩
  saved a ha := by
    have hsaved : x.worker.emitted.or x.stored = some a := ha
    have hprobing : x.worker.task.probing = false := by
      rw [← Bool.not_eq_true]
      intro hprobing
      simp [(h.sourced.probing hprobing).1.unsaved] at hsaved
    obtain ⟨v, bytes, hbytes, -, harchived⟩ := (h.sourced.filed hprobing).resolve_left
      fun ⟨_, hvacant⟩ => by simp [hvacant.unsaved] at hsaved
    obtain ⟨hetag, hpath, hcopied⟩ := harchived a hsaved
    exact ⟨v, bytes, hetag, hpath ▸ hbytes, fun p hp =>
      hcopied.copied p.restore.extent (List.mem_map_of_mem hp)⟩
  completed hcompleted := by
    obtain ⟨-, hall⟩ := h.sourced.finished hcompleted
    obtain ⟨-, v, bytes, hbytes, hreplica, -⟩ := h.sourced.genuine_of_completed hcompleted
    have hsource : bytes = R.bytes v := by
      refine hreplica.copied.eq_source fun e he => ?_
      obtain ⟨p, hp, rfl⟩ := List.mem_map.mp he
      exact hreplica.full p hp (hall p hp)
    exact ⟨v, hreplica.etag, hsource ▸ hbytes⟩

end Trusted

theorem trusted_begin (R : Resource V) (url clientId savePath : String) (fs : Fs) :
    Trusted R (begin url clientId savePath fs) where
  sourced := sourced_fresh R url clientId savePath fs
  connections :=
    have hclosed : ∀ i, ((startWorker url clientId savePath none fs true).task.ctx i).easy = none :=
      startWorker_easy url clientId savePath none fs true
    ⟨fun i => proper_of_easy_none _ (hclosed i), fun i _ => ⟨hclosed i, rfl⟩⟩

/-- **What was downloaded is what was there**, in every state of every run whose steps meet the
condition. -/
theorem intact_of_reaches {R : Resource V} {cfg : HttpConfig} {url clientId savePath : String}
    {fs : Fs} {x : Transfer V}
    (hrun : Reaches (step cfg url clientId savePath) (Careful R) (begin url clientId savePath fs) x) :
    x.Intact R :=
  (hrun.invariant (fun _ _ _ hs hok hstep => hs.step hok hstep)
    (trusted_begin R url clientId savePath fs)).intact

end Transfer

def HeaderLine.isStatus : HeaderLine → Bool
  | .status _ => true
  | _ => false

def Block.of (statusLine : String) (code : Int) (fields : List String)
    (h : parseHeaderLine statusLine = .status (some code) ∧
      ∀ field ∈ fields, field ≠ "" ∧ (parseHeaderLine field).isStatus = false) : Block where
  statusLine := statusLine
  code := code
  fields := fields
  status_eq := h.1
  fields_ne field hfield := (h.2 field hfield).1
  fields_plain field hfield status hstatus := by
    have hplain := (h.2 field hfield).2
    rw [hstatus] at hplain
    exact Bool.noConfusion hplain

def replacedResource : Resource Bool where
  bytes new := if new then [1, 2, 3, 4] else [9, 8]
  etag new := if new then "new" else "old"
  bytes_ne := by decide
  etag_ne := by decide
  etag_injective := by
    intro v v'
    revert v v'
    decide

def oldPartial : Block := .of "HTTP/1.1 206 Partial Content\r\n" 206
  ["Content-Range: bytes 0-1/2\r\n", "ETag: old\r\n", "\r\n"] (by decide)

def newPartial : Block := .of "HTTP/1.1 206 Partial Content\r\n" 206
  ["Content-Range: bytes 0-3/4\r\n", "ETag: new\r\n", "\r\n"] (by decide)

def newRest : Block := .of "HTTP/1.1 206 Partial Content\r\n" 206
  ["Content-Range: bytes 2-3/4\r\n", "ETag: new\r\n", "\r\n"] (by decide)

def newFull : Block := .of "HTTP/1.1 200 OK\r\n" 200
  ["Content-Length: 4\r\n", "ETag: new\r\n", "\r\n"] (by decide)

def hearAll (lines : List String) : List (Turn Bool) := lines.map fun line => .work (.header 0 line)

def endWith (rc : CurlCode) (httpCode : Int) : List (Turn Bool) :=
  [.work (.performed true fun _ => true), .work (.message 0 rc httpCode true), .work .drained,
    .work .leave]

/-- The process is gone after two of four bytes; the next one fetches the rest. -/
def crashedRun : List (Turn Bool) :=
  [.work (.enter true fun _ => true), .answer 0 ⟨true, newPartial, [1, 2, 3, 4]⟩] ++
    hearAll newPartial.lines ++ [.work (.body 0 [1, 2] grantAll),
    .work (.performed true fun _ => true), .work .drained, .restart,
    .work (.enter true fun _ => true), .answer 0 ⟨true, newRest, [3, 4]⟩] ++
    hearAll newRest.lines ++ [.work (.body 0 [3, 4] grantAll)] ++ endWith .ok 206

def bodilessRun : List (Turn Bool) :=
  [.work (.enter true fun _ => true), .answer 0 ⟨true, newFull, []⟩] ++ hearAll newFull.lines ++
    endWith .ok 200

/-- The probe's answer breaks off behind its total; the next one is a full stream of what has
replaced the file in between. -/
def replacedRun : List (Turn Bool) :=
  [.work (.enter true fun _ => true), .answer 0 ⟨false, oldPartial, []⟩] ++
    hearAll (oldPartial.lines.take 2) ++ [.work (.performed true fun _ => true),
    .work (.message 0 .recvError 206 true), .work .drained,
    .answer 0 ⟨true, newFull, [1, 2, 3, 4]⟩] ++ hearAll newFull.lines ++
    [.work (.body 0 [1, 2, 3, 4] grantAll)] ++ endWith .writeError 200

namespace Transfer

theorem intact_of_reaches_crashedRun :
    ∃ x : Transfer Bool, x.worker.task.status = .completed ∧
      x.worker.fs.bytes? x.worker.task.fullFilePath = some [1, 2, 3, 4] ∧
      x.Intact replacedResource := by
  have hplayed : ((play (step plainCfg "http://h/f.bin" "c" "/d") (Careful replacedResource)
      (begin "http://h/f.bin" "c" "/d" emptyFs) crashedRun).map fun x =>
        (x.worker.task.status, x.worker.fs.bytes? x.worker.task.fullFilePath)) =
      some (.completed, some [1, 2, 3, 4]) := by decide +kernel
  obtain ⟨x, hrun, hvalues⟩ := Option.map_eq_some_iff.mp hplayed
  obtain ⟨hcompleted, hbytes⟩ := Prod.mk.inj hvalues
  exact ⟨x, hcompleted, hbytes, intact_of_reaches (reaches_of_play hrun)⟩

/-- **Completed with what never was there**: with no file at all, and with a file that begins like a
version and is none. -/
theorem not_intact_bodilessRun_replacedRun :
    (∃ x : Transfer Bool, Reaches (step plainCfg "http://h/f.bin" "c" "/d")
        (Honest replacedResource) (begin "http://h/f.bin" "c" "/d" emptyFs) x ∧
      x.worker.task.status = .completed ∧ x.worker.task.fullFilePath = "" ∧
      ¬ x.Intact replacedResource) ∧
    ∃ x : Transfer Bool, Reaches (step plainCfg "http://h/f.bin" "c" "/d")
        (Honest replacedResource) (begin "http://h/f.bin" "c" "/d" emptyFs) x ∧
      x.worker.task.status = .completed ∧
      x.worker.fs.bytes? x.worker.task.fullFilePath = some [1, 2] ∧
      ¬ x.Intact replacedResource := by
  refine ⟨?_, ?_⟩
  · have hplayed : ((play (step plainCfg "http://h/f.bin" "c" "/d") (Honest replacedResource)
        (begin "http://h/f.bin" "c" "/d" emptyFs) bodilessRun).map fun x =>
          (x.worker.task.status, x.worker.task.fullFilePath,
            x.worker.fs.bytes? x.worker.task.fullFilePath)) = some (.completed, "", none) := by
      decide +kernel
    obtain ⟨x, hrun, hvalues⟩ := Option.map_eq_some_iff.mp hplayed
    obtain ⟨hcompleted, hrest⟩ := Prod.mk.inj hvalues
    obtain ⟨hpath, hbytes⟩ := Prod.mk.inj hrest
    refine ⟨x, reaches_of_play hrun, hcompleted, hpath, fun h => ?_⟩
    obtain ⟨v, -, hfile⟩ := h.completed hcompleted
    simp [hbytes] at hfile
  · have hplayed : ((play (step plainCfg "http://h/f.bin" "c" "/d") (Honest replacedResource)
        (begin "http://h/f.bin" "c" "/d" emptyFs) replacedRun).map fun x =>
          (x.worker.task.status, x.worker.fs.bytes? x.worker.task.fullFilePath)) =
        some (.completed, some [1, 2]) := by decide +kernel
    obtain ⟨x, hrun, hvalues⟩ := Option.map_eq_some_iff.mp hplayed
    obtain ⟨hcompleted, hbytes⟩ := Prod.mk.inj hvalues
    refine ⟨x, reaches_of_play hrun, hcompleted, hbytes, fun h => ?_⟩
    obtain ⟨v, -, hfile⟩ := h.completed hcompleted
    have hother : ∀ v, replacedResource.bytes v ≠ [1, 2] := by decide
    exact hother v (Option.some.inj (hfile.symm.trans hbytes))

end Transfer

end DownloadWrapper
