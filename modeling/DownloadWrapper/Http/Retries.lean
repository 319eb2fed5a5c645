import DownloadWrapper.Http.Terminal

/-!
# The connections of a part

A part asks for another connection when it retries, at most `max_retries` times, and once more when
the probe window ends; the finalization of the probe gives part 0 its retries back. So the connections
of a part are bounded by its retries, before the probe and behind it.
-/

namespace DownloadWrapper

open TaskCtx Transition

def SameRetries (t t' : TaskCtx) : Prop :=
  ∀ j, (t'.ctx j).retryCount = (t.ctx j).retryCount ∧ (t'.ctx j).probeWindow = (t.ctx j).probeWindow

theorem TaskCtx.Retained.sameRetries {t t' : TaskCtx} (h : Retained t t') : SameRetries t t' :=
  fun j => ⟨(h.ctx j).retryCount, (h.ctx j).probeWindow⟩

theorem sameRetries_cleanupAll (t : TaskCtx) : SameRetries t (Worker.cleanupAll t) := by
  intro j
  simp only [TaskCtx.ctx, Worker.cleanupAll, List.getD, List.getElem?_map]
  cases t.partCtx[j]? <;> exact ⟨rfl, rfl⟩

theorem layOut_retries (cfg : HttpConfig) (t : TaskCtx) (code : Int) (j : Nat) :
    ((t.layOut cfg code).ctx j).probeWindow = (t.ctx j).probeWindow ∧
      (((t.layOut cfg code).ctx j).retryCount = (t.ctx j).retryCount ∨
        ((t.layOut cfg code).ctx j).retryCount = 0) := by
  rw [layOut]
  split
  · by_cases hj : j < t.partCtx.length
    · simp only [TaskCtx.ctx, splitParts, List.getD]
      rw [List.getElem?_append_left (by simpa using hj), List.getElem?_modify,
        List.getElem?_eq_getElem hj]
      by_cases hzero : 0 = j <;> simp [hzero]
    · rw [ctx_of_length_le (t := t) (not_lt.mp hj)]
      simp only [TaskCtx.ctx, splitParts, List.getD]
      rw [List.getElem?_append_right (by simpa using hj), List.getElem?_map]
      cases (tailParts (splitPlan cfg t.totalSize) t.totalSize)[
        j - (t.partCtx.modify 0 fun p => { p with
          seenTotalSize := 0, seenEtag := "", seenLastModified := "", seenHttpCode := 0
          retryCount := 0 }).length]? <;> exact ⟨rfl, Or.inl rfl⟩
  · exact ⟨rfl, Or.inl rfl⟩

theorem probed_retries (cfg : HttpConfig) (env : WriteEnv) (fs : Fs) (t : TaskCtx) (i : Nat) :
    SameRetries t (probed cfg env fs t i).1 ∧ (probed cfg env fs t i).1.probing = t.probing ∨
      t.probing = true ∧ (probed cfg env fs t i).1.probing = false ∧
        ∀ j, ((probed cfg env fs t i).1.ctx j).probeWindow = (t.ctx j).probeWindow ∧
          (((probed cfg env fs t i).1.ctx j).retryCount = (t.ctx j).retryCount ∨
            ((probed cfg env fs t i).1.ctx j).retryCount = 0) := by
  rw [probed]
  split
  next hprobing =>
    refine Or.inr ⟨hprobing, ?_⟩
    rcases finalizeProbing_cases cfg env.probe fs t i with ⟨message, heq⟩ | heq
    · rw [heq]
      exact ⟨rfl, fun _ => ⟨rfl, Or.inl rfl⟩⟩
    · rw [heq]
      refine ⟨?_, fun j => layOut_retries cfg _ _ j⟩
      rw [layOut]
      split <;> rfl
  next => exact Or.inl ⟨fun _ => ⟨rfl, rfl⟩, rfl⟩

theorem writeCb_retries (cfg : HttpConfig) (env : WriteEnv) (fs : Fs) (t : TaskCtx) (i : Nat)
    (data : List Byte) :
    SameRetries t (writeCb cfg env fs t i data).task ∧
        (writeCb cfg env fs t i data).task.probing = t.probing ∨
      t.probing = true ∧ (writeCb cfg env fs t i data).task.probing = false ∧
        ∀ j, ((writeCb cfg env fs t i data).task.ctx j).probeWindow = (t.ctx j).probeWindow ∧
          (((writeCb cfg env fs t i data).task.ctx j).retryCount = (t.ctx j).retryCount ∨
            ((writeCb cfg env fs t i data).task.ctx j).retryCount = 0) := by
  rcases writeCb_cases cfg env fs t i data with hdoor | ⟨-, -, ⟨-, heq⟩ | ⟨chunk, -, -, heq⟩⟩
  · exact Or.inl (hdoor ▸ ⟨fun _ => ⟨rfl, rfl⟩, rfl⟩)
  · exact heq ▸ probed_retries cfg env fs t i
  · have hprobed := probed_retries cfg env fs t i
    have houtcome := writeChunk_outcome env (probed cfg env fs t i).2 (probed cfg env fs t i).1 i chunk
    have hsame := (Retained.of_chunk houtcome).sameRetries
    rw [← heq] at houtcome hsame
    have hprobing := houtcome.probing
    rcases hprobed with ⟨hkept, hp⟩ | ⟨hstart, hdone, hkept⟩
    · exact Or.inl ⟨fun j => ⟨(hsame j).1.trans (hkept j).1, (hsame j).2.trans (hkept j).2⟩,
        hprobing.trans hp⟩
    · refine Or.inr ⟨hstart, hprobing.trans hdone, fun j => ?_⟩
      rw [(hsame j).1, (hsame j).2]
      exact hkept j

/-- A result lets its part connect again behind the probe window, or at the price of a retry. -/
theorem handlePartResult_retries (cfg : HttpConfig) (t : TaskCtx) {i : Nat} (hi : i < t.partCtx.length)
    (rc : CurlCode) (httpCode : Int) :
    (∀ j, j ≠ i → (handlePartResult cfg t i rc httpCode).1.ctx j = t.ctx j) ∧
      ((handlePartResult cfg t i rc httpCode).2 = false ∧
          ((handlePartResult cfg t i rc httpCode).1.ctx i).retryCount = (t.ctx i).retryCount ∧
          ((handlePartResult cfg t i rc httpCode).1.ctx i).probeWindow = (t.ctx i).probeWindow ∨
        (handlePartResult cfg t i rc httpCode).2 = true ∧ (t.ctx i).probeWindow = true ∧
          0 < (t.part i).done ∧
          ((handlePartResult cfg t i rc httpCode).1.ctx i).retryCount = (t.ctx i).retryCount ∧
          ((handlePartResult cfg t i rc httpCode).1.ctx i).probeWindow = false ∨
        (handlePartResult cfg t i rc httpCode).2 = true ∧ (t.ctx i).retryCount < cfg.maxRetries ∧
          ((handlePartResult cfg t i rc httpCode).1.ctx i).retryCount = (t.ctx i).retryCount + 1 ∧
          ((handlePartResult cfg t i rc httpCode).1.ctx i).probeWindow = (t.ctx i).probeWindow) := by
  have hother : ∀ (f : PartCtx → PartCtx) (j : Nat), j ≠ i → (t.modifyCtx i f).ctx j = t.ctx j := by
    intro f j hj
    rw [ctx_modifyCtx, if_neg fun h => hj h.1.symm]
  have hcount : ((t.countRetry i).ctx i).retryCount = (t.ctx i).retryCount + 1 ∧
      ((t.countRetry i).ctx i).probeWindow = (t.ctx i).probeWindow := by
    rw [countRetry, modifyCtx_ctx_self hi]
    exact ⟨rfl, rfl⟩
  simp only [handlePartResult]
  split
  · exact ⟨fun _ _ => rfl, Or.inl ⟨rfl, rfl, rfl⟩⟩
  split
  · exact ⟨fun _ _ => rfl, Or.inl ⟨rfl, rfl, rfl⟩⟩
  split
  next hwindow =>
    refine ⟨hother _, Or.inr (Or.inl ⟨rfl, hwindow.1, hwindow.2.2.2, ?_, ?_⟩)⟩
    · rw [modifyCtx_ctx_self hi]
    · rw [modifyCtx_ctx_self hi]
  split
  · exact ⟨fun _ _ => rfl, Or.inl ⟨rfl, rfl, rfl⟩⟩
  split
  · split
    next hleft => exact ⟨hother _, Or.inr (Or.inr ⟨rfl, by simpa using hleft, hcount⟩)⟩
    next => exact ⟨fun _ _ => rfl, Or.inl ⟨rfl, rfl, rfl⟩⟩
  · split
    next hleft => exact ⟨hother _, Or.inr (Or.inr ⟨rfl, by simpa using hleft.2, hcount⟩)⟩
    next => exact ⟨fun _ _ => rfl, Or.inl ⟨rfl, rfl, rfl⟩⟩

theorem dropEasy_retries (t : TaskCtx) (i : Nat) : SameRetries t (Worker.dropEasy t i) := by
  intro j
  rw [Worker.dropEasy, ctx_modifyCtx]
  split <;> exact ⟨rfl, rfl⟩

/-- Adding a part leaves its retries; its window is that of the probe, if it connects. -/
theorem addPart_retries (t : TaskCtx) {i : Nat} (hi : i < t.partCtx.length) (built : Bool) :
    (∀ j, j ≠ i → (Worker.addPart t i built).ctx j = t.ctx j) ∧
      ((Worker.addPart t i built).ctx i).retryCount = (t.ctx i).retryCount ∧
      ((Worker.addPart t i built).ctx i).probeWindow =
        if built then t.probing else (t.ctx i).probeWindow := by
  cases built with
  | true =>
      simp only [Worker.addPart, if_true, Worker.buildEasyForPart]
      refine ⟨fun j hj => ?_, ?_, ?_⟩
      · rw [ctx_modifyCtx, if_neg fun h => hj h.1.symm]
      · rw [modifyCtx_ctx_self hi]
      · rw [modifyCtx_ctx_self hi]
  | false => exact ⟨fun _ _ => rfl, rfl, rfl⟩

theorem message_of_no_request {cfg : HttpConfig} {w : Worker} (hcancel : w.task.cancelReq = false)
    (hpause : w.task.pauseReq = false) {i : Nat} {rc : CurlCode} {httpCode : Int} {built : Bool} :
    w.message cfg i rc httpCode built =
      if (handlePartResult cfg (Worker.dropEasy w.task i) i rc httpCode).2 then
        { w with
          task := Worker.addPart (handlePartResult cfg (Worker.dropEasy w.task i) i rc httpCode).1 i built
          active := if built then w.active else w.active - 1 }
      else
        { w with
          task := (handlePartResult cfg (Worker.dropEasy w.task i) i rc httpCode).1
          active := w.active - 1 } := by
  simp only [Worker.message]
  rw [if_neg (by simp [Worker.dropEasy, TaskCtx.modifyCtx, hcancel, hpause])]

def Event.concludes (i : Nat) : Event → Bool
  | .message j _ _ _ => j = i
  | _ => false

/-- The step opened a connection of part `i`: one that was not there, or that follows the one whose
result it took. -/
def connects (e : Event) (w w' : Worker) (i : Nat) : Bool :=
  w'.task.owns i && (!w.task.owns i || e.concludes i)

/-- A worker with the connections opened and the results taken so far, part by part. -/
structure Tally where
  worker : Worker
  opened : Nat → Nat := fun _ => 0
  closed : Nat → Nat := fun _ => 0

def Tally.step (cfg : HttpConfig) (s : Tally) (e : Event) : Option Tally :=
  (s.worker.step cfg e).map fun w =>
    { worker := w
      opened := fun i => s.opened i + if connects e s.worker w i then 1 else 0
      closed := fun i => s.closed i + if e.concludes i then 1 else 0 }

def LeftAlone (_ : Tally) : Event → Prop
  | .pauseRequest | .deleteRequest | .shutdown | .performed false _ => False
  | _ => True

instance : ∀ (s : Tally) (e : Event), Decidable (LeftAlone s e)
  | _, .pauseRequest | _, .deleteRequest | _, .shutdown | _, .performed false _ => isFalse id
  | _, .enter .. | _, .performed true _ | _, .header .. | _, .body .. | _, .message .. | _, .drained
  | _, .raised | _, .leave | _, .close | _, .exit => isTrue trivial

/-! ### The budget of a part -/

/-- What part `i` may still spend: a connection for each retry behind the first one, and for part 0,
once the probe is over, those of the probe and the one behind its window. -/
structure Budgeted (m : Int) (t : TaskCtx) (i opened closed : Nat) : Prop where
  retries : ((t.ctx i).retryCount : Int) ≤ m
  first : t.probing = true ∨ i ≠ 0 → opened ≤ 1 + (t.ctx i).retryCount
  again : t.probing = false → i = 0 →
    (opened : Int) + (if (t.ctx i).probeWindow then 1 else 0) ≤ m + 2 + (t.ctx i).retryCount
  window : i ≠ 0 → (t.ctx i).probeWindow = false
  balance : closed + (if t.owns i then 1 else 0) ≤ opened

namespace Budgeted

variable {m : Int} {t t' : TaskCtx} {i opened closed : Nat}

theorem of_kept (h : Budgeted m t i opened closed) (hretries : (t'.ctx i).retryCount = (t.ctx i).retryCount)
    (hwindow : (t'.ctx i).probeWindow = (t.ctx i).probeWindow) (hprobing : t'.probing = t.probing)
    (howns : t'.owns i = true → t.owns i = true) : Budgeted m t' i opened closed where
  retries := hretries ▸ h.retries
  first := by
    rw [hretries, hprobing]
    exact h.first
  again := by
    rw [hretries, hprobing, hwindow]
    exact h.again
  window := hwindow ▸ h.window
  balance := by
    have := h.balance
    by_cases howned : t'.owns i = true
    · simpa [howned, howns howned] using this
    · simp only [howned, Bool.false_eq_true, if_false]
      omega

theorem of_ctx (h : Budgeted m t i opened closed) (hctx : t'.ctx i = t.ctx i)
    (hprobing : t'.probing = t.probing) : Budgeted m t' i opened closed := by
  refine h.of_kept (by rw [hctx]) (by rw [hctx]) hprobing ?_
  rw [TaskCtx.owns, TaskCtx.owns, hctx]
  exact id

theorem bound (h : Budgeted m t i opened closed) :
    (i = 0 → (opened : Int) ≤ 2 * m + 2) ∧ (i ≠ 0 → (opened : Int) ≤ m + 1) ∧ closed ≤ opened := by
  have hretries := h.retries
  have hbalance := h.balance
  refine ⟨fun hzero => ?_, fun hi => ?_, by omega⟩
  · cases hprobing : t.probing with
    | true =>
        have := h.first (Or.inl hprobing)
        omega
    | false =>
        have := h.again hprobing hzero
        split at this <;> omega
  · have := h.first (Or.inr hi)
    omega

theorem start (hretries : ((t.ctx i).retryCount : Int) ≤ m)
    (hwindow : i ≠ 0 → (t.ctx i).probeWindow = false) (hopened : opened ≤ 1)
    (howns : t.owns i = true → opened = 1) : Budgeted m t i opened 0 where
  retries := hretries
  first _ := by omega
  again _ _ := by split <;> omega
  window := hwindow
  balance := by
    split
    next howned => rw [howns howned]
    next => omega

section Reopened

variable {opened' closed' : Nat} (h : Budgeted m t i opened closed) (hprobing : t'.probing = t.probing)
  (hopened : opened' ≤ opened + 1) (hbalance : closed' + (if t'.owns i then 1 else 0) ≤ opened')
include h hprobing hopened hbalance

theorem behind_window (hprobed : t.probing = false) (hzero : i = 0) (hwindow : (t.ctx i).probeWindow = true)
    (hretries : (t'.ctx i).retryCount = (t.ctx i).retryCount)
    (hclosed : (t'.ctx i).probeWindow = false) : Budgeted m t' i opened' closed' where
  retries := hretries ▸ h.retries
  first := by
    rintro (hp | hne)
    · simp [hprobing, hprobed] at hp
    · exact absurd hzero hne
  again _ _ := by
    have hagain := h.again hprobed hzero
    rw [hwindow] at hagain
    rw [hretries, hclosed]
    simp only [if_true, Bool.false_eq_true, if_false] at hagain ⊢
    omega
  window hne := absurd hzero hne
  balance := hbalance

theorem retried (hsingle : i ≠ 0 → t.probing = false) (hleft : ((t.ctx i).retryCount : Int) < m)
    (hspent : (t'.ctx i).retryCount = (t.ctx i).retryCount + 1)
    (hwindow : t.probing = false → (t'.ctx i).probeWindow = true → (t.ctx i).probeWindow = true) :
    Budgeted m t' i opened' closed' where
  retries := by
    rw [hspent]
    omega
  first hor := by
    have hfirst := h.first (hprobing ▸ hor)
    rw [hspent]
    omega
  again hp hzero := by
    rw [hprobing] at hp
    have hagain := h.again hp hzero
    have hless : (if (t'.ctx i).probeWindow = true then (1 : Int) else 0) ≤
        if (t.ctx i).probeWindow = true then 1 else 0 := by
      by_cases hopen : (t'.ctx i).probeWindow = true
      · rw [if_pos hopen, if_pos (hwindow hp hopen)]
      · rw [if_neg hopen]
        split <;> decide
    rw [hspent]
    push_cast
    omega
  window hne := by
    by_contra hopen
    have hbefore := hwindow (hsingle hne) (by simpa using hopen)
    simp [h.window hne] at hbefore
  balance := hbalance

end Reopened

end Budgeted

/-! ### Every step -/

theorem probing_eq_false_of_part {w : Worker} (hb : Booked w) {i : Nat}
    (hi : i < w.task.partCtx.length) (hne : i ≠ 0) : w.task.probing = false := by
  by_contra hprobing
  have hone := hb.single (by simpa using hprobing)
  omega

/-- The invariant of the tally: no part is over its budget, and the parts to come have spent nothing. -/
structure Spending (m : Int) (w : Worker) (opened closed : Nat → Nat) : Prop where
  budget : ∀ i, Budgeted m w.task i (opened i) (closed i)
  unspawned : ∀ i, w.spawned ≤ i → opened i = 0

namespace Spending

variable {m : Int} {w w' : Worker} {opened opened' closed closed' : Nat → Nat}

theorem closed_zero (h : Spending m w opened closed) {i : Nat} (hi : w.spawned ≤ i) : closed i = 0 := by
  have := (h.budget i).balance
  have := h.unspawned i hi
  omega

theorem of_kept (h : Spending m w opened closed) (hsame : SameRetries w.task w'.task)
    (hprobing : w'.task.probing = w.task.probing) (hspawned : w'.spawned = w.spawned)
    (howns : ∀ i, w'.task.owns i = true → w.task.owns i = true) : Spending m w' opened closed where
  budget i := (h.budget i).of_kept (hsame i).1 (hsame i).2 hprobing (howns i)
  unspawned i hi := h.unspawned i (hspawned ▸ hi)

theorem at_part (h : Spending m w opened closed) {i : Nat} (hi : i < w'.spawned)
    (hspawned : ∀ j, j ≠ i → w'.spawned ≤ j → w.spawned ≤ j)
    (hprobing : w'.task.probing = w.task.probing)
    (hother : ∀ j, j ≠ i → w'.task.ctx j = w.task.ctx j ∧ opened' j = opened j ∧ closed' j = closed j)
    (hself : Budgeted m w'.task i (opened' i) (closed' i)) : Spending m w' opened' closed' where
  budget j := by
    by_cases hj : j = i
    · exact hj ▸ hself
    · obtain ⟨hctx, hopened, hclosed⟩ := hother j hj
      rw [hopened, hclosed]
      exact (h.budget j).of_ctx hctx hprobing
  unspawned j hle := by
    have hj : j ≠ i := by omega
    rw [(hother j hj).2.1]
    exact h.unspawned j (hspawned j hj hle)

def opening (w : Worker) (opened : Nat → Nat) (v : Worker) (i : Nat) : Nat :=
  opened i + if v.task.owns i && !w.task.owns i then 1 else 0

theorem opening_self (w : Worker) (opened : Nat → Nat) : opening w opened w = opened := by
  funext i
  simp [opening]

theorem opening_of_owned {v : Worker} {i : Nat} (h : v.task.owns i = w.task.owns i) :
    opening w opened v i = opened i := by
  simp [opening, h]

theorem opening_le (w : Worker) (opened : Nat → Nat) (v : Worker) (i : Nat) :
    opening w opened v i ≤ opened i + 1 := by
  rw [opening]
  split <;> omega

theorem spawnPart {v : Worker} (hb : Booked v)
    (hopen : Spending m v (opening w opened v) closed) (hfree : w.task.owns v.spawned = false)
    (built : Nat → Bool) (hlt : v.spawned < v.task.partCtx.length) :
    Spending m (Worker.spawnPart built v v.spawned)
      (opening w opened (Worker.spawnPart built v v.spawned)) closed := by
  have hnone : v.task.owns v.spawned = false := hb.unspawned _ le_rfl
  have hbudget := hopen.budget v.spawned
  have hzero := hopen.unspawned v.spawned le_rfl
  have hclosed := hopen.closed_zero (le_refl v.spawned)
  rw [opening_of_owned (hnone.trans hfree.symm)] at hzero
  rw [opening_of_owned (hnone.trans hfree.symm)] at hbudget
  rw [hclosed] at hbudget
  simp only [Worker.spawnPart]
  split
  next hcompleted =>
    refine hopen.at_part (i := v.spawned) (Nat.lt_succ_self _) (fun j hj hle => ?_) rfl
      (fun j _ => ⟨rfl, rfl, rfl⟩) ?_
    · simp only at hle
      omega
    · rw [hclosed, opening, if_neg (by simp [hnone])]
      exact hbudget
  next =>
    obtain ⟨hother, hretries, hwindow⟩ := addPart_retries v.task hlt (built v.spawned)
    have hprobing : (Worker.addPart v.task v.spawned (built v.spawned)).probing = v.task.probing :=
      (Worker.steady_addPart v.task v.spawned (built v.spawned)).probing
    refine hopen.at_part (i := v.spawned) (Nat.lt_succ_self _) (fun j hj hle => ?_) hprobing
      (fun j hj => ⟨hother j hj, ?_, rfl⟩) ?_
    · simp only at hle
      omega
    · simp only [opening, TaskCtx.owns, hother j hj]
      rfl
    · rw [hclosed]
      refine Budgeted.start (hretries ▸ hbudget.retries) (fun hi => ?_) ?_ fun howned => ?_
      · rw [hwindow, probing_eq_false_of_part hb hlt hi, hbudget.window hi, ite_self]
      · exact (opening_le w opened _ v.spawned).trans (by omega)
      · simp only at howned
        simp [opening, hzero, howned, hfree]

theorem spawnNewParts (h : Spending m w opened closed) (hb : Booked w) (hlooping : w.phase.looping = true)
    (hphase : w.phase ≠ .draining) (built : Nat → Bool) :
    Spending m (w.spawnNewParts built) (opening w opened (w.spawnNewParts built)) closed := by
  have hrun := Worker.spawnNewParts_watermark built
    (P := fun v => (Booked v ∧ v.phase = w.phase ∧ w.spawned ≤ v.spawned) ∧
      Spending m v (opening w opened v) closed) (fun v hv hlt => ?_) hb.spawned_le
    ⟨⟨hb, rfl, le_rfl⟩, by rw [opening_self]; exact h⟩
  · exact hrun.1.2
  · obtain ⟨⟨hbooked, hsame, hle⟩, hspending⟩ := hv
    refine ⟨⟨hbooked.spawnPart (hsame ▸ hlooping) (hsame ▸ hphase) built hlt, ?_⟩,
      spawnPart hbooked hspending (hb.unspawned _ hle) built hlt⟩
    simp only [Worker.spawnPart]
    split
    · exact ⟨hsame, by simp only; omega⟩
    · exact ⟨hsame, by simp only; omega⟩

theorem at_message (h : Spending m w opened closed) {i : Nat} (howned : w.task.owns i = true)
    (hi : i < w.spawned) (hspawned : w'.spawned = w.spawned) (hprobing : w'.task.probing = w.task.probing)
    (hother : ∀ j, j ≠ i → w'.task.ctx j = w.task.ctx j)
    (hself : Budgeted m w'.task i (opened i + if w'.task.owns i then 1 else 0) (closed i + 1)) :
    Spending m w'
      (fun j => opened j + if w'.task.owns j && (!w.task.owns j || decide (i = j)) then 1 else 0)
      (fun j => closed j + if decide (i = j) then 1 else 0) := by
  refine h.at_part (i := i) (hspawned ▸ hi) (fun j _ hle => hspawned ▸ hle) hprobing
    (fun j hj => ⟨hother j hj, ?_, ?_⟩) ?_
  · have howns : w'.task.owns j = w.task.owns j := by rw [TaskCtx.owns, TaskCtx.owns, hother j hj]
    simp [howns, Ne.symm hj]
  · simp [Ne.symm hj]
  · simpa [howned] using hself

/-- The end of a connection: the next one is paid for by a retry, or is the one behind the window. -/
theorem message {cfg : HttpConfig} (h : Spending cfg.maxRetries w opened closed) (hb : Booked w)
    (hunprobed : w.task.probing = true → w.task.Unprobed) (hcancel : w.task.cancelReq = false)
    (hpause : w.task.pauseReq = false) {i : Nat} (hphase : w.phase = .draining)
    (howned : w.task.owns i = true) (rc : CurlCode) (httpCode : Int) (built : Bool) :
    Spending cfg.maxRetries (w.message cfg i rc httpCode built)
      (fun j => opened j + if (w.message cfg i rc httpCode built).task.owns j &&
        (!w.task.owns j || decide (i = j)) then 1 else 0)
      (fun j => closed j + if decide (i = j) then 1 else 0) := by
  have hi : i < w.task.partCtx.length := Worker.lt_of_easy howned
  have hspawned : i < w.spawned := hb.drained hphase ▸ hi
  have hdropped : i < (Worker.dropEasy w.task i).partCtx.length := by simpa [Worker.dropEasy] using hi
  have hbudget := h.budget i
  have hbalance : closed i + 1 ≤ opened i := by simpa [howned] using hbudget.balance
  obtain ⟨hretries, hwindow⟩ := dropEasy_retries w.task i i
  have hfree : (Worker.dropEasy w.task i).owns i = false := by simp [owns_dropEasy]
  have hframe := handlePartResult_frame cfg (Worker.dropEasy w.task i) i rc httpCode
  have hbooks := handlePartResult_books cfg (Worker.dropEasy w.task i) (hb.ctxs ▸ hi) rc httpCode
  obtain ⟨hother, hresult⟩ := handlePartResult_retries cfg (Worker.dropEasy w.task i) hdropped rc httpCode
  rw [hretries, hwindow] at hresult
  rw [message_of_no_request hcancel hpause]
  generalize handlePartResult cfg (Worker.dropEasy w.task i) i rc httpCode = out
    at hframe hbooks hother hresult ⊢
  obtain ⟨t, again⟩ := out
  simp only at hframe hbooks hother hresult ⊢
  have hprobing : t.probing = w.task.probing := hframe.2.2.1
  have hti : i < t.partCtx.length := hframe.1 ▸ hdropped
  have hunowned : t.owns i = false := (hbooks.1 i).trans hfree
  have hbeside : ∀ j, j ≠ i → t.ctx j = w.task.ctx j := fun j hj => by
    rw [hother j hj, Worker.dropEasy, ctx_modifyCtx, if_neg fun h => hj h.1.symm]
  cases again with
  | false =>
      simp only [Bool.false_eq_true, if_false]
      obtain ⟨hkept, hwindow'⟩ : (t.ctx i).retryCount = (w.task.ctx i).retryCount ∧
          (t.ctx i).probeWindow = (w.task.ctx i).probeWindow := by simpa using hresult
      have hquiet : Budgeted cfg.maxRetries t i (opened i) (closed i) :=
        hbudget.of_kept hkept hwindow' hprobing fun _ => howned
      refine h.at_message howned hspawned rfl hprobing hbeside ?_
      simp only [hunowned, Bool.false_eq_true, if_false, Nat.add_zero]
      exact ⟨hquiet.retries, hquiet.first, hquiet.again, hquiet.window, by simpa [hunowned] using hbalance⟩
  | true =>
      simp only [if_true]
      obtain ⟨hadded, hretries', hwindow'⟩ := addPart_retries t hti built
      have hsteady : (Worker.addPart t i built).probing = w.task.probing :=
        (Worker.steady_addPart t i built).probing.trans hprobing
      refine h.at_message howned hspawned rfl hsteady (fun j hj => (hadded j hj).trans (hbeside j hj)) ?_
      have hopened : opened i + (if (Worker.addPart t i built).owns i then 1 else 0) ≤ opened i + 1 := by
        split <;> omega
      have hbalance' : closed i + 1 + (if (Worker.addPart t i built).owns i then 1 else 0) ≤
          opened i + if (Worker.addPart t i built).owns i then 1 else 0 := by omega
      rcases hresult with ⟨hno, -⟩ | ⟨-, hwindowed, hdone, hkept, hclosed⟩ | ⟨-, hleft, hspent, hkept⟩
      · simp at hno
      · -- the window is over: so is the probe
        have hprobed : w.task.probing = false := by
          cases hp : w.task.probing with
          | true => exact absurd hdone (not_lt.mpr ((hunprobed hp).done i).le)
          | false => rfl
        have hzero : i = 0 := by
          by_contra hne
          simp [hbudget.window hne] at hwindowed
        refine hbudget.behind_window hsteady hopened hbalance' hprobed hzero hwindowed
          (hretries'.trans hkept) ?_
        rw [hwindow', hclosed, hprobing, hprobed, ite_self]
      · -- a part that is not part 0 has no window, for the probe has no other part
        refine hbudget.retried hsteady hopened hbalance' (probing_eq_false_of_part hb hi) hleft
          (hretries'.trans hspent) ?_
        intro hprobed hopen
        rw [hwindow', hprobing, hprobed, hkept] at hopen
        split at hopen
        · simp at hopen
        · exact hopen

/-- The chunk that finalizes the probe gives part 0 its retries back and makes the other parts. -/
theorem writeCb {cfg : HttpConfig} (h : Spending m w opened closed) (hb : Booked w) (env : WriteEnv)
    (i : Nat) (data : List Byte) (htask : w'.task = (writeCb cfg env w.fs w.task i data).task)
    (hspawned : w'.spawned = w.spawned) : Spending m w' opened closed := by
  have howns : ∀ j, w'.task.owns j = w.task.owns j := fun j => by
    rw [htask]
    exact writeCb_owns cfg env w.fs w.task i data j
  rcases writeCb_retries cfg env w.fs w.task i data with ⟨hsame, hprobing⟩ | ⟨hstart, hprobed, hkept⟩
  · refine h.of_kept ?_ ?_ hspawned fun j => howns j ▸ id
    · rw [htask]
      exact hsame
    · rw [htask]
      exact hprobing
  · refine ⟨fun j => ?_, fun j hj => h.unspawned j (hspawned ▸ hj)⟩
    have hbudget := h.budget j
    obtain ⟨hwindow, hretries⟩ := hkept j
    rw [← htask] at hprobed hwindow hretries
    have hfirst := hbudget.first (Or.inl hstart)
    have hle := hbudget.retries
    refine ⟨?_, ?_, ?_, fun hj => hwindow.trans (hbudget.window hj), ?_⟩
    · rcases hretries with hr | hr <;> omega
    · rintro (hp | hj)
      · simp [hprobed] at hp
      · -- the other parts are not there yet
        have hzero := h.unspawned j (by have := hb.single hstart; have := hb.spawned_le; omega)
        omega
    · intro _ _
      split <;> omega
    · rw [howns]
      exact hbudget.balance

theorem of_retained (h : Spending m w opened closed) (hr : Retained w.task w'.task)
    (hprobing : w'.task.probing = w.task.probing) (hspawned : w'.spawned = w.spawned) :
    Spending m w' opened closed :=
  h.of_kept hr.sameRetries hprobing hspawned fun i => hr.owns i ▸ id

theorem uncounted (w : Worker) (e : Event) (h : Spending m w' opened closed)
    (hresult : ∀ i, e.concludes i = false) (howns : ∀ i, w'.task.owns i = true → w.task.owns i = true) :
    Spending m w' (fun i => opened i + if connects e w w' i then 1 else 0)
      (fun i => closed i + if e.concludes i then 1 else 0) := by
  have hnone : ∀ i, connects e w w' i = false := fun i => by
    cases howned : w'.task.owns i with
    | true => simp [connects, howned, howns i howned, hresult]
    | false => simp [connects, howned]
  simpa [hnone, hresult] using h

theorem counted (w : Worker) (e : Event) (h : Spending m w' (opening w opened w') closed)
    (hresult : ∀ i, e.concludes i = false) :
    Spending m w' (fun i => opened i + if connects e w w' i then 1 else 0)
      (fun i => closed i + if e.concludes i then 1 else 0) := by
  have hcounts : (fun i => opened i + if connects e w w' i then 1 else 0) = opening w opened w' := by
    funext i
    simp only [connects, hresult, Bool.or_false, opening]
  rw [hcounts]
  simpa [hresult] using h

theorem leave (h : Spending m w opened closed) :
    Spending m w.leave opened closed ∧ ∀ i, w.leave.task.owns i = false := by
  have hctxs : w.leave.task.partCtx = (Worker.cleanupAll w.task).partCtx :=
    aggregateStatus_partCtx (Worker.cleanupAll w.task)
  have hclosed : ∀ i, w.leave.task.owns i = false := fun i => by
    simp only [TaskCtx.owns, TaskCtx.ctx, hctxs, Worker.cleanupAll, List.getD, List.getElem?_map]
    cases w.task.partCtx[i]? <;> rfl
  refine ⟨h.of_kept (fun i => ?_) ?_ rfl fun i howned => by simp [hclosed i] at howned, hclosed⟩
  · have hsame := sameRetries_cleanupAll w.task i
    simp only [TaskCtx.ctx, hctxs] at hsame ⊢
    exact hsame
  · exact (quiet_aggregateStatus (Worker.cleanupAll w.task)).probing

theorem retained_close (w : Worker) : Retained w.task w.close.task ∧ w.close.spawned = w.spawned := by
  obtain ⟨emitDone, htask⟩ := Worker.maybeEmitResume_task w
  simp only [Worker.close]
  split
  · exact ⟨.mapCtx _ fun _ => ⟨rfl, rfl, rfl, rfl⟩, rfl⟩
  split
  · refine ⟨?_, Worker.maybeEmitResume_spawned w⟩
    rw [htask]
    exact .of_eq rfl rfl
  · exact ⟨.refl _, rfl⟩

/-- **One undisturbed step keeps every part within its budget.** -/
theorem step {cfg : HttpConfig} (h : Spending cfg.maxRetries w opened closed) (hb : Booked w)
    (hunprobed : w.task.probing = true → w.task.Unprobed) (hcancel : w.task.cancelReq = false)
    (hpause : w.task.pauseReq = false) {e : Event} (hstep : w.step cfg e = some w') :
    Spending cfg.maxRetries w' (fun i => opened i + if connects e w w' i then 1 else 0)
      (fun i => closed i + if e.concludes i then 1 else 0) := by
  cases Worker.stepped_of_step hstep with
  | @enter multiOk built hphase =>
      have hlooping : w.phase.looping = true := by rw [hphase]; rfl
      rw [Worker.enter, if_neg (by simp [hcancel]), if_neg (by simp [hpause])]
      split
      · exact uncounted w _ (h.of_retained (.of_eq rfl rfl) rfl rfl) (fun _ => rfl) fun _ => id
      · have hspawned := h.spawnNewParts hb hlooping (by simp [hphase]) built
        refine counted w _ ?_ fun _ => rfl
        have hopening : opening w opened (w.spawnNewParts built).loopHead =
            opening w opened (w.spawnNewParts built) := by
          funext i
          rw [opening, opening, Worker.loopHead_task]
        rw [hopening]
        exact hspawned.of_retained (.of_eq (by rw [Worker.loopHead_task]) (by rw [Worker.loopHead_task]))
          (by rw [Worker.loopHead_task]) (Worker.loopHead_spawned _)
  | @header i line hphase hlive =>
      have hline : Retained w.task (headerCb w.task i line).1 := .headerCb w.task i line
      have hprobing := (steady_headerCb w.task i line).probing
      simp only [Worker.header]
      split
      · exact uncounted w _ (h.of_retained hline hprobing rfl) (fun _ => rfl) fun j =>
          (hline.owns j).symm.trans
      · have habort := hline.trans (.abortEasy _ i)
        exact uncounted w _ (h.of_retained habort hprobing rfl) (fun _ => rfl) fun j =>
          (habort.owns j).symm.trans
  | @body i data env hphase hlive =>
      have hwritten : Spending cfg.maxRetries
          { w with task := (DownloadWrapper.writeCb cfg env w.fs w.task i data).task } opened closed :=
        h.writeCb hb env i data rfl rfl
      have howns : ∀ j, (DownloadWrapper.writeCb cfg env w.fs w.task i data).task.owns j = w.task.owns j :=
        writeCb_owns cfg env w.fs w.task i data
      simp only [Worker.body]
      split
      · exact uncounted w _ (hwritten.of_retained (.refl _) rfl rfl) (fun _ => rfl) fun j =>
          (howns j).symm.trans
      · have habort := Retained.abortEasy (DownloadWrapper.writeCb cfg env w.fs w.task i data).task i
        exact uncounted w _ (hwritten.of_retained habort rfl rfl) (fun _ => rfl) fun j =>
          ((habort.owns j).trans (howns j)).symm.trans
  | @performed built hphase =>
      have hlooping : w.phase.looping = true := by rw [hphase]; rfl
      have hspawned := h.spawnNewParts hb hlooping (by simp [hphase]) built
      exact counted w _ (hspawned.of_retained (.refl _) rfl rfl) fun _ => rfl
  | @message i rc httpCode built hphase heasy =>
      exact h.message hb hunprobed hcancel hpause hphase heasy rc httpCode built
  | drained hphase =>
      obtain ⟨emitDone, htask⟩ := Worker.maybeEmitResume_task w
      have hsame : Retained w.task w.maybeEmitResume.loopHead.task := by
        rw [Worker.loopHead_task, htask]
        exact .of_eq rfl rfl
      refine uncounted w _ (h.of_retained hsame ?_ ?_) (fun _ => rfl) fun j => (hsame.owns j).symm.trans
      · rw [Worker.loopHead_task, htask]
      · rw [Worker.loopHead_spawned, Worker.maybeEmitResume_spawned]
  | leave hphase =>
      obtain ⟨hleft, hclosed⟩ := h.leave
      exact uncounted w _ hleft (fun _ => rfl) fun i howned => by simp [hclosed i] at howned
  | close hphase =>
      obtain ⟨hclose, hspawned⟩ := retained_close w
      exact uncounted w _ (h.of_retained hclose (Worker.close_probing w) hspawned) (fun _ => rfl) fun j =>
        (hclose.owns j).symm.trans
  | exit hphase =>
      simp only [Worker.exit]
      split
      · exact uncounted w _ (h.of_retained (.of_eq rfl rfl) rfl rfl) (fun _ => rfl) fun _ => id
      · exact uncounted w _ (h.of_retained (.of_eq rfl rfl) rfl rfl) (fun _ => rfl) fun _ => id
  | multiFailed | raised | raisedLate | pauseRequest | deleteRequest | shutdown =>
      exact uncounted w _ (h.of_retained (.of_eq rfl rfl) rfl rfl) (fun _ => rfl) fun _ => id

end Spending

end DownloadWrapper
