import DownloadWrapper.Http.Beside
import DownloadWrapper.Http.Retained
import Mathlib.Data.Finset.Card
import Mathlib.Data.Finset.Range

/-!
# The event loop's books

`run_parts_multi` counts the connections it has open and the parts it has spawned. The invariant here
says what these numbers mean, over every run of a worker started in any way: `active` is the number
of parts that own an easy handle, a part that owns one is not complete, and a spawned part that owns
none has come to its end, unless a request cut the loop short.
-/

namespace DownloadWrapper

open TaskCtx

namespace TaskCtx

def owns (t : TaskCtx) (i : Nat) : Bool := (t.ctx i).easy.isSome

def owners (t : TaskCtx) : Finset Nat := (Finset.range t.partCtx.length).filter fun i => t.owns i

theorem mem_owners {t : TaskCtx} {i : Nat} : i ∈ t.owners ↔ t.owns i = true := by
  rw [owners, Finset.mem_filter, Finset.mem_range, and_iff_right_iff_imp]
  exact Worker.lt_of_easy

theorem owns_of_live {t : TaskCtx} {i : Nat} (h : Worker.live t i = true) : t.owns i = true := by
  rw [Worker.live] at h
  rw [owns]
  cases heasy : (t.ctx i).easy with
  | none => simp [heasy] at h
  | some easy => rfl

theorem owners_congr {t t' : TaskCtx} (h : ∀ i, t'.owns i = t.owns i) : t'.owners = t.owners := by
  ext i
  rw [mem_owners, mem_owners, h]

theorem Retained.owns {t t' : TaskCtx} (h : Retained t t') (i : Nat) : t'.owns i = t.owns i :=
  (h.ctx i).owns

/-- The part neither waits nor runs. -/
def ended (t : TaskCtx) (i : Nat) : Prop :=
  (t.part i).status = .completed ∨ (t.part i).status = .error

end TaskCtx

def Phase.looping : Phase → Bool
  | .created | .performing | .draining | .leaving => true
  | .closing | .ending | .exited => false

structure Booked (w : Worker) : Prop where
  ctxs : w.task.partCtx.length = w.task.parts.length
  single : w.task.probing = true → w.task.partCtx.length = 1
  statuses : ∀ i, (w.task.part i).status = .downloading ∨ w.task.ended i
  spawned_le : w.spawned ≤ w.task.partCtx.length
  unspawned : ∀ i, w.spawned ≤ i → w.task.owns i = false
  incomplete : ∀ i, w.task.owns i = true → (w.task.part i).status ≠ .completed
  active : w.phase.looping = true → w.active = w.task.owners.card
  ended : w.phase.looping = true → w.task.cancelReq = false → w.task.pauseReq = false →
    ∀ i < w.spawned, w.task.owns i = false → w.task.ended i
  drained : w.phase = .draining → w.spawned = w.task.partCtx.length

/-! ### What results and connections do to the books -/

theorem owns_modifyCtx (t : TaskCtx) (i j : Nat) (f : PartCtx → PartCtx)
    (hf : ∀ c, (f c).easy = c.easy) : (t.modifyCtx i f).owns j = t.owns j :=
  congrArg Option.isSome (modifyCtx_easy t i j f hf)

/-- A result leaves the connections, and every part but its own; the part ends, or is as it was and
asks again. -/
theorem handlePartResult_books (cfg : HttpConfig) (t : TaskCtx) {i : Nat} (hi : i < t.parts.length)
    (rc : CurlCode) (httpCode : Int) :
    (∀ j, (handlePartResult cfg t i rc httpCode).1.owns j = t.owns j) ∧
      (∀ j, j ≠ i → ((handlePartResult cfg t i rc httpCode).1.part j) = t.part j) ∧
      ((handlePartResult cfg t i rc httpCode).2 = true ∧
          (handlePartResult cfg t i rc httpCode).1.parts = t.parts ∨
        (handlePartResult cfg t i rc httpCode).2 = false ∧
          (handlePartResult cfg t i rc httpCode).1.ended i) := by
  have hother : ∀ (f : PartState → PartState) (j : Nat), j ≠ i → (t.modifyPart i f).part j = t.part j := by
    intro f j hj
    rw [part_modifyPart, if_neg fun h => hj h.1.symm]
  have hself : ∀ f : PartState → PartState, (t.modifyPart i f).part i = f (t.part i) := fun f => by
    rw [part_modifyPart, if_pos ⟨rfl, hi⟩]
  have hfail : ∀ reason, (t.failPart i reason).ended i := fun reason =>
    Or.inr (by rw [failPart, hself])
  simp only [handlePartResult]
  split
  next herror => exact ⟨fun _ => rfl, fun _ _ => rfl, Or.inr ⟨rfl, Or.inr herror⟩⟩
  split
  · refine ⟨fun _ => rfl, hother _, Or.inr ⟨rfl, Or.inl ?_⟩⟩
    rw [completePart, hself]
  split
  · exact ⟨fun j => owns_modifyCtx t i j _ fun _ => rfl, fun _ _ => rfl, Or.inl ⟨rfl, rfl⟩⟩
  split
  · refine ⟨fun _ => rfl, hother _, Or.inr ⟨rfl, Or.inl ?_⟩⟩
    exact congrArg PartState.status (hself _)
  split
  · split
    · exact ⟨fun j => owns_modifyCtx t i j _ fun _ => rfl, fun _ _ => rfl, Or.inl ⟨rfl, rfl⟩⟩
    · exact ⟨fun _ => rfl, hother _, Or.inr ⟨rfl, hfail _⟩⟩
  · split
    · exact ⟨fun j => owns_modifyCtx t i j _ fun _ => rfl, fun _ _ => rfl, Or.inl ⟨rfl, rfl⟩⟩
    · exact ⟨fun _ => rfl, hother _, Or.inr ⟨rfl, hfail _⟩⟩

theorem handlePartResult_frame (cfg : HttpConfig) (t : TaskCtx) (i : Nat) (rc : CurlCode)
    (httpCode : Int) :
    (handlePartResult cfg t i rc httpCode).1.partCtx.length = t.partCtx.length ∧
      (handlePartResult cfg t i rc httpCode).1.parts.length = t.parts.length ∧
      (handlePartResult cfg t i rc httpCode).1.probing = t.probing ∧
      (handlePartResult cfg t i rc httpCode).1.cancelReq = t.cancelReq ∧
      (handlePartResult cfg t i rc httpCode).1.pauseReq = t.pauseReq := by
  simp only [handlePartResult]
  split_ifs <;> simp [completePart, failPart, countRetry, completeUnsized, modifyPart, modifyCtx]

theorem owns_dropEasy (t : TaskCtx) (i j : Nat) :
    (Worker.dropEasy t i).owns j = (decide (i ≠ j) && t.owns j) := by
  rw [owns, Worker.dropEasy, ctx_modifyCtx]
  by_cases hij : i = j
  · subst hij
    by_cases hi : i < t.partCtx.length
    · simp [hi]
    · simp [hi, ctx_of_length_le (not_lt.mp hi)]
  · simp [hij, owns]

theorem owners_dropEasy (t : TaskCtx) (i : Nat) :
    (Worker.dropEasy t i).owners = t.owners.erase i := by
  ext j
  rw [mem_owners, owns_dropEasy, Finset.mem_erase, mem_owners, Bool.and_eq_true, decide_eq_true_eq]
  exact and_congr_left fun _ => ne_comm

theorem owns_addPart (t : TaskCtx) {i : Nat} (hi : i < t.partCtx.length) (built : Bool) (j : Nat) :
    (Worker.addPart t i built).owns j = (decide (built ∧ i = j) || t.owns j) := by
  cases built with
  | true =>
      rw [owns, Worker.addPart, if_pos rfl, Worker.buildEasyForPart, ctx_modifyCtx]
      by_cases hij : i = j
      · subst hij
        simp [hi]
      · simp [hij, owns]
  | false => simp [Worker.addPart, owns, failPart]

theorem addPart_books (t : TaskCtx) {i : Nat} (hctxs : i < t.partCtx.length) (hi : i < t.parts.length)
    (built : Bool) :
    (∀ j, j ≠ i → (Worker.addPart t i built).part j = t.part j ∧
        (Worker.addPart t i built).owns j = t.owns j) ∧
      ((Worker.addPart t i built).owns i = true ∧ (Worker.addPart t i built).part i = t.part i ∨
        (Worker.addPart t i built).owns i = t.owns i ∧
          ((Worker.addPart t i built).part i).status = .error) := by
  refine ⟨fun j hj => ⟨?_, by rw [owns_addPart t hctxs]; simp [Ne.symm hj]⟩, ?_⟩
  · cases built with
    | true => rfl
    | false =>
        rw [Worker.addPart, if_neg (by simp), failPart, part_modifyPart, if_neg fun h => hj h.1.symm]
  · rw [owns_addPart t hctxs]
    cases built with
    | true => exact Or.inl ⟨by simp, rfl⟩
    | false =>
        refine Or.inr ⟨by simp, ?_⟩
        rw [Worker.addPart, if_neg (by simp), failPart, part_modifyPart, if_pos ⟨rfl, hi⟩]

theorem owners_addPart {t : TaskCtx} {i : Nat} (hi : i < t.partCtx.length) (hnone : t.owns i = false)
    (built : Bool) :
    ((Worker.addPart t i built).owners.card : Int) =
      if built then (t.owners.card : Int) + 1 else t.owners.card := by
  cases built with
  | true =>
      have hinsert : (Worker.addPart t i true).owners = insert i t.owners := by
        ext j
        rw [mem_owners, owns_addPart t hi, Finset.mem_insert, mem_owners]
        simp [@eq_comm _ i j]
      have hnotin : i ∉ t.owners := by simp [mem_owners, hnone]
      rw [hinsert, Finset.card_insert_of_notMem hnotin]
      simp
  | false =>
      have hsame : (Worker.addPart t i false).owners = t.owners :=
        owners_congr fun j => owns_addPart t hi false j
      simp [hsame]

theorem addPart_requests (t : TaskCtx) (i : Nat) (built : Bool) :
    (Worker.addPart t i built).cancelReq = t.cancelReq ∧
      (Worker.addPart t i built).pauseReq = t.pauseReq := by
  rw [Worker.addPart]
  split <;> exact ⟨rfl, rfl⟩

theorem layOut_part_status (cfg : HttpConfig) (t : TaskCtx) (code : Int) (j : Nat) :
    ((t.layOut cfg code).part j).status = (t.part j).status ∨
      ((t.layOut cfg code).part j).status = .downloading := by
  rw [layOut]
  split
  · simp only [TaskCtx.part, splitParts, List.getD]
    by_cases hj : j < t.parts.length
    · rw [List.getElem?_append_left (by simpa using hj), List.getElem?_modify,
        List.getElem?_eq_getElem hj]
      by_cases hzero : 0 = j
      · exact Or.inr (by simp [hzero, headPart])
      · exact Or.inl (by simp [hzero])
    · rw [List.getElem?_append_right (by simpa using hj)]
      refine Or.inr ?_
      cases htail : (tailParts (splitPlan cfg t.totalSize) t.totalSize)[
          j - (t.parts.modify 0 fun _ => headPart (splitPlan cfg t.totalSize) t.totalSize).length]? with
      | none => rfl
      | some p =>
          obtain ⟨k, -, rfl⟩ := List.mem_map.mp (List.mem_of_getElem? htail)
          rfl
  · refine Or.inl ?_
    simp only [singlePart]
    rw [show (TaskCtx.part { t.modifyPart 0 _ with supportRange := 0 } j) = (t.modifyPart 0 _).part j
      from rfl, part_modifyPart]
    split <;> rfl

theorem probed_owns (cfg : HttpConfig) (env : WriteEnv) (fs : Fs) (t : TaskCtx) (i j : Nat) :
    (probed cfg env fs t i).1.owns j = t.owns j := by
  rw [probed]
  split
  · rcases finalizeProbing_cases cfg env.probe fs t i with ⟨message, heq⟩ | heq
    · rw [heq]
      rfl
    · rw [heq]
      exact congrArg Option.isSome (layOut_easy cfg _ _ j)
  · rfl

theorem writeCb_owns (cfg : HttpConfig) (env : WriteEnv) (fs : Fs) (t : TaskCtx) (i : Nat)
    (data : List Byte) (j : Nat) : (writeCb cfg env fs t i data).task.owns j = t.owns j := by
  rcases Retained.writeCb cfg env fs t i data with hr | hr
  · exact hr.owns j
  · exact (hr.owns j).trans (probed_owns cfg env fs t i j)

/-! ### Every step -/

namespace Booked

variable {w w' : Worker}

theorem of_retained (h : Booked w) (hr : Retained w.task w'.task)
    (hprobing : w'.task.probing = true → w.task.probing = true) (hspawned : w'.spawned = w.spawned)
    (hactive : w'.phase.looping = true → w.phase.looping = true ∧ w'.active = w.active)
    (hcancel : w'.task.cancelReq = false → w.task.cancelReq = false)
    (hpause : w'.task.pauseReq = false → w.task.pauseReq = false)
    (hdrained : w'.phase = .draining → w.phase = .draining) : Booked w' where
  ctxs := by rw [hr.length, hr.parts, h.ctxs]
  single hp := hr.length.trans (h.single (hprobing hp))
  statuses i := by
    rw [TaskCtx.ended]
    rcases hr.status i with hsame | herror
    · rw [hsame]
      exact h.statuses i
    · exact Or.inr (Or.inr herror)
  spawned_le := by
    rw [hspawned, hr.length]
    exact h.spawned_le
  unspawned i hi := by
    rw [hr.owns]
    exact h.unspawned i (hspawned ▸ hi)
  incomplete i howns := by
    rw [hr.owns] at howns
    rcases hr.status i with hsame | herror
    · rw [hsame]
      exact h.incomplete i howns
    · simp [herror]
  active hlooping := by
    obtain ⟨hbefore, hsame⟩ := hactive hlooping
    rw [hsame, owners_congr hr.owns]
    exact h.active hbefore
  ended hlooping hc hp i hi howns := by
    rw [hr.owns] at howns
    rcases hr.status i with hsame | herror
    · rw [TaskCtx.ended, hsame]
      exact h.ended (hactive hlooping).1 (hcancel hc) (hpause hp) i (hspawned ▸ hi) howns
    · exact Or.inr herror
  drained hphase := by
    rw [hspawned, hr.length]
    exact h.drained (hdrained hphase)

theorem of_closed (hctxs : w'.task.partCtx.length = w'.task.parts.length)
    (hsingle : w'.task.probing = true → w'.task.partCtx.length = 1)
    (hstatuses : ∀ i, (w'.task.part i).status = .downloading ∨ w'.task.ended i)
    (hspawned : w'.spawned ≤ w'.task.partCtx.length) (hclosed : ∀ i, w'.task.owns i = false)
    (hphase : w'.phase.looping = false) : Booked w' where
  ctxs := hctxs
  single := hsingle
  statuses := hstatuses
  spawned_le := hspawned
  unspawned i _ := hclosed i
  incomplete i howns := by simp [hclosed i] at howns
  active hlooping := by simp [hphase] at hlooping
  ended hlooping := by simp [hphase] at hlooping
  drained hdraining := by simp [hdraining, Phase.looping] at hphase

/-- A step that concerns part `i` alone: afterwards it owns a connection, or has ended, unless a
request cut it short. -/
theorem at_part (h : Booked w) {i : Nat} (hlooping : w.phase.looping = true) (hphase : w'.phase = w.phase)
    (hctxs : w'.task.partCtx.length = w.task.partCtx.length)
    (hparts : w'.task.parts.length = w.task.parts.length)
    (hprobing : w'.task.probing = w.task.probing)
    (hcancel : w'.task.cancelReq = w.task.cancelReq) (hpause : w'.task.pauseReq = w.task.pauseReq)
    (hother : ∀ j, j ≠ i → w'.task.part j = w.task.part j ∧ w'.task.owns j = w.task.owns j)
    (hspawned : ∀ j, j ≠ i → (j < w'.spawned ↔ j < w.spawned)) (hi : i < w'.spawned)
    (hle : w'.spawned ≤ w.task.partCtx.length)
    (hdrained : w.phase = .draining → w'.spawned = w.task.partCtx.length)
    (hactive : w'.active = w'.task.owners.card)
    (hstatus : (w'.task.part i).status = .downloading ∨ w'.task.ended i)
    (hself : w'.task.owns i = true ∧ (w'.task.part i).status ≠ .completed ∨
      w'.task.owns i = false ∧
        (w'.task.ended i ∨ w.task.cancelReq = true ∨ w.task.pauseReq = true)) : Booked w' where
  ctxs := by rw [hctxs, hparts, h.ctxs]
  single hp := hctxs.trans (h.single (hprobing ▸ hp))
  statuses j := by
    by_cases hj : j = i
    · exact hj ▸ hstatus
    · rw [TaskCtx.ended, (hother j hj).1]
      exact h.statuses j
  spawned_le := hctxs ▸ hle
  unspawned j hjle := by
    have hj : j ≠ i := by omega
    have := hspawned j hj
    rw [(hother j hj).2]
    exact h.unspawned j (by omega)
  incomplete j howned := by
    by_cases hj : j = i
    · subst hj
      rcases hself with ⟨-, hopen⟩ | ⟨hfree, -⟩
      · exact hopen
      · simp [hfree] at howned
    · rw [(hother j hj).1]
      exact h.incomplete j ((hother j hj).2 ▸ howned)
  active _ := hactive
  ended _ hc hp j hjlt hfree := by
    by_cases hj : j = i
    · subst hj
      rcases hself with ⟨howned, -⟩ | ⟨-, hended | hreq | hreq⟩
      · simp [hfree] at howned
      · exact hended
      · simp [hcancel, hreq] at hc
      · simp [hpause, hreq] at hp
    · rw [TaskCtx.ended, (hother j hj).1]
      exact h.ended hlooping (hcancel ▸ hc) (hpause ▸ hp) j ((hspawned j hj).mp hjlt)
        ((hother j hj).2 ▸ hfree)
  drained hd := by
    rw [hctxs]
    exact hdrained (hphase ▸ hd)

theorem spawnPart (h : Booked w) (hlooping : w.phase.looping = true) (hphase : w.phase ≠ .draining)
    (built : Nat → Bool) (hlt : w.spawned < w.task.partCtx.length) :
    Booked (Worker.spawnPart built w w.spawned) := by
  have hi : w.spawned < w.task.parts.length := h.ctxs ▸ hlt
  have hnone : w.task.owns w.spawned = false := h.unspawned _ le_rfl
  have hnext : ∀ j, j ≠ w.spawned → (j < w.spawned + 1 ↔ j < w.spawned) := fun j hj => by omega
  simp only [Worker.spawnPart]
  split
  next hcompleted =>
    exact h.at_part hlooping rfl rfl rfl rfl rfl rfl (fun _ _ => ⟨rfl, rfl⟩) hnext (Nat.lt_succ_self _)
      hlt (fun hd => absurd hd hphase) (h.active hlooping) (h.statuses _)
      (Or.inr ⟨hnone, Or.inl (Or.inl hcompleted)⟩)
  next hopen =>
    obtain ⟨hother, hself⟩ := addPart_books w.task hlt hi (built w.spawned)
    have hsteady := Worker.steady_addPart w.task w.spawned (built w.spawned)
    obtain ⟨hcancel, hpause⟩ := addPart_requests w.task w.spawned (built w.spawned)
    refine h.at_part hlooping rfl hsteady.ctxs hsteady.length hsteady.probing hcancel hpause
      hother hnext (Nat.lt_succ_self _) hlt (fun hd => absurd hd hphase) ?_ ?_ ?_
    · simp only [owners_addPart hlt hnone, h.active hlooping]
    · rcases hself with ⟨-, hsame⟩ | ⟨-, herror⟩
      · simp only [TaskCtx.ended, hsame]
        exact h.statuses _
      · exact Or.inr (Or.inr herror)
    · rcases hself with ⟨howned, hsame⟩ | ⟨hfree, herror⟩
      · exact Or.inl ⟨howned, by simpa only [hsame] using hopen⟩
      · exact Or.inr ⟨hfree.trans hnone, Or.inl (Or.inr herror)⟩

theorem spawnNewParts (h : Booked w) (hlooping : w.phase.looping = true) (hphase : w.phase ≠ .draining)
    (built : Nat → Bool) :
    Booked (w.spawnNewParts built) ∧
      (w.spawnNewParts built).spawned = (w.spawnNewParts built).task.partCtx.length := by
  have hrun := Worker.spawnNewParts_watermark built
    (P := fun v => Booked v ∧ v.phase = w.phase) (fun v hv hlt => ?_) h.spawned_le ⟨h, rfl⟩
  · exact ⟨hrun.1.1, hrun.2⟩
  · obtain ⟨hbooked, hsame⟩ := hv
    refine ⟨hbooked.spawnPart (hsame ▸ hlooping) (hsame ▸ hphase) built hlt, ?_⟩
    rw [← hsame, Worker.spawnPart]
    split <;> rfl

theorem message (cfg : HttpConfig) (h : Booked w) {i : Nat} (hphase : w.phase = .draining)
    (howned : w.task.owns i = true) (rc : CurlCode) (httpCode : Int) (built : Bool) :
    Booked (w.message cfg i rc httpCode built) := by
  have hi : i < w.task.parts.length := h.ctxs ▸ Worker.lt_of_easy howned
  have hmem : i ∈ w.task.owners := mem_owners.mpr howned
  have hlooping : w.phase.looping = true := by rw [hphase]; rfl
  have hspawned : i < w.spawned := h.drained hphase ▸ Worker.lt_of_easy howned
  have hdropped : ((Worker.dropEasy w.task i).owners.card : Int) = w.active - 1 := by
    have hpositive : 0 < w.task.owners.card := Finset.card_pos.mpr ⟨i, hmem⟩
    rw [owners_dropEasy, Finset.card_erase_of_mem hmem, h.active hlooping]
    omega
  have hdrop : Steady w.task (Worker.dropEasy w.task i) := steady_modifyCtx _ i _
  have hfree : (Worker.dropEasy w.task i).owns i = false := by simp [owns_dropEasy]
  have hbeside : ∀ j, j ≠ i → (Worker.dropEasy w.task i).owns j = w.task.owns j := fun j hj => by
    simp [owns_dropEasy, Ne.symm hj]
  -- whatever the result made of part `i`, the rest of the books follows
  have hafter : ∀ (t : TaskCtx) (active : Int), t.partCtx.length = w.task.partCtx.length →
      t.parts.length = w.task.parts.length → t.probing = w.task.probing →
      t.cancelReq = w.task.cancelReq → t.pauseReq = w.task.pauseReq →
      (∀ j, j ≠ i → t.part j = w.task.part j ∧ t.owns j = w.task.owns j) →
      active = t.owners.card → ((t.part i).status = .downloading ∨ t.ended i) →
      (t.owns i = true ∧ (t.part i).status ≠ .completed ∨ t.owns i = false ∧
        (t.ended i ∨ w.task.cancelReq = true ∨ w.task.pauseReq = true)) →
      Booked { w with task := t, active := active } := by
    intro t active hctxs hparts hprobing hcancel hpause hother hactive hstatus hself
    exact h.at_part hlooping rfl hctxs hparts hprobing hcancel hpause hother (fun _ _ => Iff.rfl)
      hspawned h.spawned_le h.drained hactive hstatus hself
  simp only [Worker.message]
  split
  next hreq =>
    refine hafter _ _ hdrop.ctxs hdrop.length rfl rfl rfl (fun j hj => ⟨rfl, hbeside j hj⟩)
      hdropped.symm (h.statuses i) (Or.inr ⟨hfree, Or.inr hreq⟩)
  next hreq =>
    obtain ⟨howns, hother, hresult⟩ := handlePartResult_books cfg (Worker.dropEasy w.task i) hi rc httpCode
    have hframe := handlePartResult_frame cfg (Worker.dropEasy w.task i) i rc httpCode
    generalize handlePartResult cfg (Worker.dropEasy w.task i) i rc httpCode = out at howns hother hresult hframe ⊢
    obtain ⟨t, again⟩ := out
    simp only at howns hother hresult hframe ⊢
    obtain ⟨hctxs, hparts, hprobing, hcancel, hpause⟩ := hframe
    have hi' : i < t.parts.length := hparts ▸ hi
    have hictx : i < t.partCtx.length := by rw [hctxs]; exact hdrop.ctxs ▸ Worker.lt_of_easy howned
    have hcard : (t.owners.card : Int) = w.active - 1 := by rw [owners_congr howns, hdropped]
    split
    next hagain =>
      have hsame : t.parts = w.task.parts := by
        rcases hresult with ⟨-, hsame⟩ | ⟨hno, -⟩
        · exact hsame
        · simp [hagain] at hno
      have hpart : t.part i = w.task.part i := by rw [TaskCtx.part, hsame, TaskCtx.part]
      obtain ⟨hother', hself⟩ := addPart_books t hictx hi' built
      have hsteady := Worker.steady_addPart t i built
      obtain ⟨hcancel', hpause'⟩ := addPart_requests t i built
      have hnone : t.owns i = false := (howns i).trans hfree
      refine hafter _ _ (hsteady.ctxs.trans (hctxs.trans hdrop.ctxs)) (hsteady.length.trans hparts)
        (hsteady.probing.trans hprobing) (hcancel'.trans hcancel) (hpause'.trans hpause)
        (fun j hj => ⟨(hother' j hj).1.trans (hother j hj), ?_⟩) ?_ ?_ ?_
      · rw [(hother' j hj).2, howns, hbeside j hj]
      · rw [owners_addPart hictx hnone, hcard]
        split <;> omega
      · rcases hself with ⟨-, hkept⟩ | ⟨-, herror⟩
        · rw [TaskCtx.ended, hkept, hpart]
          exact h.statuses i
        · exact Or.inr (Or.inr herror)
      · rcases hself with ⟨hopened, hkept⟩ | ⟨hclosed, herror⟩
        · refine Or.inl ⟨hopened, ?_⟩
          rw [hkept, hpart]
          exact h.incomplete i howned
        · exact Or.inr ⟨hclosed.trans hnone, Or.inl (Or.inr herror)⟩
    next hagain =>
      have hended : t.ended i := by
        rcases hresult with ⟨hyes, -⟩ | ⟨-, hended⟩
        · simp [hyes] at hagain
        · exact hended
      exact hafter _ _ (hctxs.trans hdrop.ctxs) hparts hprobing hcancel hpause
        (fun j hj => ⟨hother j hj, (howns j).trans (hbeside j hj)⟩) hcard.symm (Or.inr hended)
        (Or.inr ⟨(howns i).trans hfree, Or.inl hended⟩)

theorem probed (cfg : HttpConfig) (env : WriteEnv) (h : Booked w) {i : Nat}
    (hphase : w.phase = .performing) (howned : w.task.owns i = true) :
    Booked { w with task := (probed cfg env w.fs w.task i).1, fs := (probed cfg env w.fs w.task i).2 } := by
  cases hprobing : w.task.probing with
  | false =>
      rw [probed_of_not_probing cfg env w.fs i hprobing]
      exact h
  | true =>
      have hone := h.single hprobing
      have hzero : i = 0 := by
        have := Worker.lt_of_easy howned
        omega
      have hover := probed_probing cfg env w.fs w.task i
      have hctxs := probed_ctxs cfg env w.fs i h.ctxs
      have hspawned := h.spawned_le
      have hprobed : (DownloadWrapper.probed cfg env w.fs w.task i).1
          = (finalizeProbing cfg env.probe w.fs w.task i).1 := by
        simp [DownloadWrapper.probed, hprobing]
      obtain ⟨total, name, path, hacquired⟩ := acquirePath_settleProbe env.probe w.fs w.task i
      have hcases := finalizeProbing_cases cfg env.probe w.fs w.task i
      rw [hacquired, ← hprobed] at hcases
      generalize (DownloadWrapper.probed cfg env w.fs w.task i).1 = t at hover hctxs hcases ⊢
      rcases hcases with ⟨message, rfl⟩ | heq
      · exact h.of_retained (.of_eq rfl rfl) (fun hp => absurd hp (by simp [fail])) rfl (fun hl => ⟨hl, rfl⟩)
          id id id
      · have howns : ∀ j, t.owns j = w.task.owns j := fun j => by
          rw [heq]
          exact congrArg Option.isSome (layOut_easy cfg _ _ j)
        have hstatus : ∀ j, (t.part j).status = (w.task.part j).status ∨
            (t.part j).status = .downloading := fun j => by
          rw [heq]
          exact layOut_part_status cfg _ _ j
        have hlength : w.task.partCtx.length ≤ t.partCtx.length := by
          rw [hctxs, h.ctxs, heq]
          exact length_le_layOut cfg { w.task with
            probing := false, totalSize := total, filename := name, fullFilePath := path } _
        refine ⟨hctxs, fun hp => absurd (hover ▸ hp) (by simp), fun j => ?_, hspawned.trans hlength,
          fun j hj => (howns j).trans (h.unspawned j hj), fun j hj => ?_, fun _ => ?_,
          fun _ _ _ j hj hfree => ?_, fun hd => absurd (hphase ▸ hd) (by simp)⟩
        · rcases hstatus j with hsame | hopen
          · rw [TaskCtx.ended, hsame]
            exact h.statuses j
          · exact Or.inl hopen
        · rcases hstatus j with hsame | hopen
          · rw [hsame]
            exact h.incomplete j ((howns j).symm.trans hj)
          · simp [hopen]
        · rw [owners_congr howns]
          exact h.active (by rw [hphase]; rfl)
        · -- the one spawned part is the one whose chunk is being written
          simp only at hj
          have hj' : j = i := by omega
          rw [hj', howns, howned] at hfree
          simp at hfree

theorem writeCb (cfg : HttpConfig) (env : WriteEnv) (h : Booked w) {i : Nat} (data : List Byte)
    (hphase : w.phase = .performing) (howned : w.task.owns i = true) :
    Booked { w with task := (writeCb cfg env w.fs w.task i data).task } := by
  have hprobed := h.probed cfg env hphase howned
  rcases writeCb_cases cfg env w.fs w.task i data with hdoor | ⟨-, -, ⟨-, heq⟩ | ⟨chunk, -, -, heq⟩⟩
  · exact hdoor ▸ h
  · exact heq ▸ hprobed.of_retained (.refl _) id rfl (fun hl => ⟨hl, rfl⟩) id id id
  · have houtcome := writeChunk_outcome env (DownloadWrapper.probed cfg env w.fs w.task i).2
      (DownloadWrapper.probed cfg env w.fs w.task i).1 i chunk
    rw [← heq] at houtcome
    have hrequests := SameRequests.of_chunk houtcome
    exact hprobed.of_retained (.of_chunk houtcome) hrequests.probing rfl (fun hl => ⟨hl, rfl⟩)
      (fun hc => hrequests.cancelReq ▸ hc) (fun hp => hrequests.pauseReq ▸ hp) id

theorem body (cfg : HttpConfig) (env : WriteEnv) (h : Booked w) {i : Nat} (data : List Byte)
    (hphase : w.phase = .performing) (howned : w.task.owns i = true) :
    Booked (w.body cfg i data env) := by
  have hchunk := h.writeCb cfg env data hphase howned
  simp only [Worker.body]
  split
  · exact hchunk.of_retained (.refl _) id rfl (fun hl => ⟨hl, rfl⟩) id id id
  · exact hchunk.of_retained (.abortEasy _ i) id rfl (fun hl => ⟨hl, rfl⟩) id id id

theorem loopHead (h : Booked w) (hlooping : w.phase.looping = true) : Booked w.loopHead := by
  rw [Worker.loopHead]
  split
  · exact h.of_retained (.refl _) id rfl (fun _ => ⟨hlooping, rfl⟩) id id (by simp)
  · exact h.of_retained (.refl _) id rfl (fun _ => ⟨hlooping, rfl⟩) id id (by simp)

theorem maybeEmitResume (h : Booked w) : Booked w.maybeEmitResume := by
  rw [Worker.maybeEmitResume]
  split
  · exact h
  · exact h.of_retained (.of_eq rfl rfl) id rfl (fun hl => ⟨hl, rfl⟩) id id id

theorem enter (h : Booked w) (multiOk : Bool) (built : Nat → Bool) (hphase : w.phase = .created) :
    Booked (w.enter multiOk built) := by
  have hlooping : w.phase.looping = true := by rw [hphase]; rfl
  rw [Worker.enter]
  split
  · exact h.of_retained (.refl _) id rfl (by simp [Phase.looping]) id id (by simp)
  split
  · rw [Worker.maybeEmitResume_withPhase]
    have hpaused : Booked { w.modifyTask fun t => { t with status := .paused } with phase := .exited } :=
      h.of_retained (.of_eq rfl rfl) id rfl (by simp [Phase.looping]) id id (by simp)
    exact hpaused.maybeEmitResume
  split
  · exact h.of_retained (.of_eq rfl rfl) id rfl (fun _ => ⟨hlooping, rfl⟩) id id (by simp)
  · refine (h.spawnNewParts hlooping (by simp [hphase]) built).1.loopHead ?_
    rw [Worker.spawnNewParts_phase]
    exact hlooping

theorem performed (h : Booked w) (hphase : w.phase = .performing) (built : Nat → Bool) :
    Booked { w.spawnNewParts built with phase := .draining } := by
  have hlooping : w.phase.looping = true := by rw [hphase]; rfl
  obtain ⟨hspawned, hall⟩ := h.spawnNewParts hlooping (by simp [hphase]) built
  have hbefore : (w.spawnNewParts built).phase.looping = true := by
    rw [Worker.spawnNewParts_phase]
    exact hlooping
  exact { hspawned with
    active := fun _ => hspawned.active hbefore
    ended := fun _ => hspawned.ended hbefore
    drained := fun _ => hall }

theorem leave (h : Booked w) : Booked w.leave := by
  have hparts : w.leave.task.parts = w.task.parts := aggregateStatus_parts (Worker.cleanupAll w.task)
  have hctxs : w.leave.task.partCtx = w.task.partCtx.map fun c => { c with easy := none } :=
    aggregateStatus_partCtx (Worker.cleanupAll w.task)
  have hlength : w.leave.task.partCtx.length = w.task.partCtx.length := by simp [hctxs]
  have hpart : ∀ i, w.leave.task.part i = w.task.part i := fun i => by
    rw [TaskCtx.part, hparts, TaskCtx.part]
  refine of_closed ?_ (fun hp => ?_) (fun i => ?_) (hlength ▸ h.spawned_le) (fun i => ?_) rfl
  · rw [hlength, hparts, h.ctxs]
  · rw [hlength]
    exact h.single ((quiet_aggregateStatus (Worker.cleanupAll w.task)).probing ▸ hp)
  · rw [TaskCtx.ended, hpart]
    exact h.statuses i
  · simp only [owns, TaskCtx.ctx, hctxs, List.getD, List.getElem?_map]
    cases w.task.partCtx[i]? <;> rfl

theorem close (h : Booked w) : Booked w.close := by
  have hending : ∀ {v : Worker}, Booked v → Booked { v with phase := .ending } := fun hv =>
    hv.of_retained (.refl _) id rfl (by simp [Phase.looping]) id id (by simp)
  simp only [Worker.close]
  split
  · exact hending (h.of_retained (.mapCtx _ fun _ => ⟨rfl, rfl, rfl, rfl⟩) id rfl (fun hl => ⟨hl, rfl⟩)
      id id id)
  split
  · exact hending h.maybeEmitResume
  · exact hending h

/-- **One step of the worker keeps the books.** -/
theorem step {cfg : HttpConfig} (h : Booked w) {e : Event} (hstep : w.step cfg e = some w') :
    Booked w' := by
  cases Worker.stepped_of_step hstep with
  | @enter multiOk built hphase => exact h.enter multiOk built hphase
  | @header i line hphase hlive =>
      have hrequests := SameRequests.headerCb w.task i line
      have hline : Booked { w with task := (headerCb w.task i line).1 } :=
        h.of_retained (.headerCb w.task i line) hrequests.probing rfl (fun hl => ⟨hl, rfl⟩)
          (fun hc => hrequests.cancelReq ▸ hc) (fun hp => hrequests.pauseReq ▸ hp) id
      simp only [Worker.header]
      split
      · exact hline
      · exact hline.of_retained (.abortEasy _ i) id rfl (fun hl => ⟨hl, rfl⟩) id id id
  | @body i data env hphase hlive => exact h.body cfg env data hphase (owns_of_live hlive)
  | @performed built hphase => exact h.performed hphase built
  | multiFailed hphase =>
      exact h.of_retained (.refl _) id rfl (fun _ => ⟨by rw [hphase]; rfl, rfl⟩) id id (by simp)
  | @message i rc httpCode built hphase heasy => exact h.message cfg hphase heasy rc httpCode built
  | drained hphase =>
      refine h.maybeEmitResume.loopHead ?_
      simp [hphase, Phase.looping]
  | raised hphase =>
      refine h.of_retained (.of_eq rfl rfl) id rfl (fun _ => ⟨?_, rfl⟩) id id (by simp)
      rcases hphase with hphase | hphase <;> rw [hphase] <;> rfl
  | raisedLate hphase =>
      exact h.of_retained (.of_eq rfl rfl) id rfl (by simp [Phase.looping]) id id (by simp)
  | leave hphase => exact h.leave
  | close hphase => exact h.close
  | exit hphase =>
      simp only [Worker.exit]
      split <;> exact h.of_retained (.of_eq rfl rfl) id rfl (by simp [Phase.looping]) id id (by simp)
  | pauseRequest =>
      exact h.of_retained (.of_eq rfl rfl) id rfl (fun hl => ⟨hl, rfl⟩) id (by simp [Worker.modifyTask]) id
  | deleteRequest | shutdown =>
      exact h.of_retained (.of_eq rfl rfl) id rfl (fun hl => ⟨hl, rfl⟩) (by simp [Worker.modifyTask]) id id

end Booked

theorem ArchivedPart.status_restore (a : ArchivedPart) :
    a.restore.status = .downloading ∨ a.restore.status = .completed :=
  (ite_eq_or_eq _ _ _).symm

/-- **The books of every run**, whether the worker was started new or from an archive of any shape. -/
theorem booked_startWorker (url clientId savePath : String) (archive : Option Archive) (fs : Fs)
    (granted : Bool) : Booked (startWorker url clientId savePath archive fs granted) := by
  have hclosed : ∀ i, (startWorker url clientId savePath archive fs granted).task.owns i = false := by
    intro i
    rw [owns, startWorker_easy]
    rfl
  have hbooks : ∀ t : TaskCtx, t.partCtx.length = t.parts.length →
      (t.probing = true → t.partCtx.length = 1) →
      (∀ i, (t.part i).status = .downloading ∨ t.ended i) → (∀ i, t.owns i = false) →
      Booked { task := t, fs := fs } := by
    intro t hctxs hsingle hstatuses hclosed
    refine ⟨hctxs, hsingle, hstatuses, Nat.zero_le _, fun i _ => hclosed i, fun i howned => ?_,
      fun _ => ?_, fun _ _ _ i hi => absurd hi (Nat.not_lt_zero i), by simp⟩
    · simp [hclosed i] at howned
    · have hnone : t.owners = ∅ := Finset.eq_empty_of_forall_notMem fun i hi => by
        simp [mem_owners, hclosed i] at hi
      simp [hnone]
  refine hbooks _ ?_ ?_ ?_ hclosed <;>
    rcases startFrom_cases url clientId savePath archive fs granted with heq | ⟨a, -, -, -, -, heq⟩ <;>
    simp only [heq]
  · rfl
  · simp [continueFrom]
  · exact fun _ => rfl
  · exact fun hp => absurd hp (by simp [continueFrom])
  · intro i
    cases i <;> exact Or.inl rfl
  · intro i
    simp only [TaskCtx.ended, TaskCtx.part, continueFrom, deserializeResume, List.getD, List.getElem?_map]
    cases a.parts[i]? with
    | none => exact Or.inl rfl
    | some p => exact (ArchivedPart.status_restore p).imp_right Or.inl

end DownloadWrapper
