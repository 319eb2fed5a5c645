import DownloadWrapper.Http.Engine
import DownloadWrapper.Http.Loop
import DownloadWrapper.Http.PartInvariant

/-!
# How a worker ends

When the thread has ended without being cancelled, `sweep` can take the context only if its status
says so. Every way out of the loop leads there but one: an error of `curl_multi` breaks the loop with
parts still downloading, and these make the whole task `DOWNLOADING` for good. A pause that comes
after the last part, and an exception while the end is saved, make a complete task something else.
`StepFinishes` excludes just these steps.
-/

namespace DownloadWrapper

open Transition TaskCtx

def AllComplete (t : TaskCtx) : Prop := ∀ p ∈ t.parts, p.status = .completed

instance (t : TaskCtx) : Decidable (AllComplete t) :=
  inferInstanceAs (Decidable (∀ p ∈ t.parts, _))

/-- The status of a context whose thread has ended: one `sweep` acts on, once the delay for the ends
that are not pauses is over, and that of a complete task when all its parts are complete. -/
structure Finished (w : Worker) : Prop where
  terminal : w.task.status = .completed ∨ w.task.status = .error ∨ w.task.status = .paused
  reclaimed : ∀ (url : String) (finishedAt now : Int), finishedAt + 4000 ≤ now →
    HttpEngine.reclaimable now { url := url, worker := w, finishedAt := finishedAt } = true
  completed : AllComplete w.task → w.task.status = .completed

/-- The step does not end a download that is under way, and does not end a complete one otherwise
than complete. -/
def StepFinishes (w : Worker) : Event → Prop
  | .enter false _ | .raised => ¬ AllComplete w.task
  | .performed false _ => w.task.cancelReq = true ∨ w.task.pauseReq = true ∨ w.task.failed = true ∨
      ∀ p ∈ w.task.parts, p.status ≠ .downloading
  | .pauseRequest => w.phase ≠ .exited → ¬ AllComplete w.task
  | _ => True

/-- libcurl does not end with `CURLE_OK` a connection a callback of which refused what it was given.
When the file could not be made, before any part failed, that is what all of them do. -/
def RefusedFails (w : Worker) : Event → Prop
  | .message _ rc _ _ => w.task.failed = true → (∀ p ∈ w.task.parts, p.status ≠ .error) → rc ≠ .ok
  | _ => True

def EndsWell (w : Worker) (e : Event) : Prop := StepFinishes w e ∧ RefusedFails w e

instance : ∀ (w : Worker) (e : Event), Decidable (EndsWell w e)
  | w, .enter false _ => inferInstanceAs (Decidable (¬ AllComplete w.task ∧ True))
  | w, .performed false _ => inferInstanceAs (Decidable ((w.task.cancelReq = true ∨
      w.task.pauseReq = true ∨ w.task.failed = true ∨
      ∀ p ∈ w.task.parts, p.status ≠ .downloading) ∧ True))
  | w, .raised => inferInstanceAs (Decidable (¬ AllComplete w.task ∧ True))
  | w, .pauseRequest => inferInstanceAs (Decidable ((w.phase ≠ .exited → ¬ AllComplete w.task) ∧ True))
  | w, .message _ rc _ _ => inferInstanceAs (Decidable (True ∧ (w.task.failed = true →
      (∀ p ∈ w.task.parts, p.status ≠ .error) → rc ≠ .ok)))
  | _, .enter true _ | _, .performed true _ | _, .header .. | _, .body .. | _, .drained | _, .leave
  | _, .close | _, .exit | _, .deleteRequest | _, .shutdown => isTrue ⟨trivial, trivial⟩

theorem allComplete_iff {t : TaskCtx} :
    AllComplete t ↔ ∀ i < t.parts.length, (t.part i).status = .completed := by
  constructor
  · intro h i hi
    exact h _ (part_mem hi)
  · intro h p hp
    obtain ⟨i, hi, rfl⟩ := List.getElem_of_mem hp
    rw [← part_eq_getElem hi]
    exact h i hi

theorem allComplete_of_retained {t t' : TaskCtx} (hr : Retained t t') (h : AllComplete t') :
    AllComplete t := by
  rw [allComplete_iff] at h ⊢
  intro i hi
  have hdone := h i (hr.parts ▸ hi)
  rcases hr.status i with hsame | herror
  · exact hsame ▸ hdone
  · simp [hdone] at herror

theorem Booked.not_allComplete {w : Worker} (h : Booked w) {i : Nat} (howned : w.task.owns i = true) :
    ¬ AllComplete w.task := by
  rw [allComplete_iff]
  intro hall
  exact h.incomplete i howned (hall i (h.ctxs ▸ Worker.lt_of_easy howned))

theorem allComplete_of_spawnNewParts {w : Worker} {built : Nat → Bool}
    (h : AllComplete (w.spawnNewParts built).task) : AllComplete w.task := by
  have hkeep : ∀ (v : Worker) (i : Nat), AllComplete (Worker.spawnPart built v i).task →
      AllComplete v.task := by
    intro v i hall
    simp only [Worker.spawnPart] at hall
    split at hall
    · exact hall
    · simp only [Worker.addPart] at hall
      split at hall
      · exact hall
      · exact allComplete_of_retained (.failPart v.task i .error) hall
  exact Worker.spawnNewParts_induction built
    (P := fun v => AllComplete v.task → AllComplete w.task)
    (fun v i hv hall => hv (hkeep v i hall)) id h

/-! ### The invariant -/

def Caused (t : TaskCtx) : Prop :=
  (∃ p ∈ t.parts, p.status = .error) ∨ ∀ p ∈ t.parts, p.size ≤ 0

structure Finishing (w : Worker) : Prop where
  open_ : w.phase ≠ .exited → w.task.pauseReq = true ∨ w.task.failed = true → ¬ AllComplete w.task
  caused : w.phase = .created ∨ w.phase = .performing ∨ w.phase = .draining →
    w.task.failed = true → Caused w.task
  left : w.phase = .leaving → w.task.pauseReq = true ∨ w.task.failed = true ∨
    ∀ p ∈ w.task.parts, p.status ≠ .downloading
  closed : w.phase = .closing ∨ w.phase = .ending → w.task.pauseReq = true ∨
    w.task.status = .completed ∨ w.task.status = .error
  ended : w.phase = .exited → w.task.status = .completed ∨ w.task.status = .error ∨
    w.task.status = .paused ∧ w.task.pauseReq = true
  completed : w.phase = .closing ∨ w.phase = .ending ∨ w.phase = .exited → AllComplete w.task →
    w.task.status = .completed

namespace Finishing

variable {w w' : Worker}

theorem of_loop (hphase : w.phase = .created ∨ w.phase = .performing ∨ w.phase = .draining)
    (hopen : w.task.pauseReq = true ∨ w.task.failed = true → ¬ AllComplete w.task)
    (hcaused : w.task.failed = true → Caused w.task) : Finishing w := by
  refine ⟨fun _ => hopen, fun _ => hcaused, ?_, ?_, ?_, ?_⟩ <;>
    rcases hphase with hphase | hphase | hphase <;> simp [hphase]

theorem of_leaving (hphase : w.phase = .leaving)
    (hopen : w.task.pauseReq = true ∨ w.task.failed = true → ¬ AllComplete w.task)
    (hleft : w.task.pauseReq = true ∨ w.task.failed = true ∨
      ∀ p ∈ w.task.parts, p.status ≠ .downloading) : Finishing w := by
  refine ⟨fun _ => hopen, ?_, fun _ => hleft, ?_, ?_, ?_⟩ <;> simp [hphase]

theorem of_closing (hphase : w.phase = .closing ∨ w.phase = .ending)
    (hopen : w.task.pauseReq = true ∨ w.task.failed = true → ¬ AllComplete w.task)
    (hclosed : w.task.pauseReq = true ∨ w.task.status = .completed ∨ w.task.status = .error)
    (hcompleted : AllComplete w.task → w.task.status = .completed) : Finishing w := by
  refine ⟨fun _ => hopen, ?_, ?_, fun _ => hclosed, ?_, fun _ => hcompleted⟩ <;>
    rcases hphase with hphase | hphase <;> simp [hphase]

theorem of_exited (hphase : w.phase = .exited)
    (hended : w.task.status = .completed ∨ w.task.status = .error ∨
      w.task.status = .paused ∧ w.task.pauseReq = true)
    (hcompleted : AllComplete w.task → w.task.status = .completed) : Finishing w := by
  refine ⟨?_, ?_, ?_, ?_, fun _ => hended, fun _ => hcompleted⟩ <;> simp [hphase]

/-- At the head of the loop: if it is left, a request or a failure ended it, or every part has come to
its end. -/
theorem loopHead (hb : Booked w) (hlooping : w.phase.looping = true)
    (hall : w.spawned = w.task.partCtx.length) (hcancel : w.task.cancelReq = false)
    (hopen : w.task.pauseReq = true ∨ w.task.failed = true → ¬ AllComplete w.task)
    (hcaused : w.task.failed = true → Caused w.task) : Finishing w.loopHead := by
  rw [Worker.loopHead]
  split
  next hleave =>
    refine of_leaving rfl hopen ?_
    rcases hleave with hidle | hcancel' | hpause | hfailed
    · by_cases hpause : w.task.pauseReq = true
      · exact Or.inl hpause
      · refine Or.inr (Or.inr fun p hp => ?_)
        have hnone : w.task.owners = ∅ := by
          have hcard := hb.active hlooping
          exact Finset.card_eq_zero.mp (by omega)
        obtain ⟨i, hi, rfl⟩ := List.getElem_of_mem hp
        have hi' : i < w.spawned := by rw [hall, hb.ctxs]; exact hi
        have hfree : w.task.owns i = false := by
          rw [← Bool.not_eq_true, ← mem_owners, hnone]
          simp
        have hended := hb.ended hlooping hcancel (by simpa using hpause) i hi' hfree
        rw [TaskCtx.ended, part_eq_getElem hi] at hended
        rcases hended with hend | hend <;> simp [hend]
    · simp [hcancel] at hcancel'
    · exact Or.inl hpause
    · exact Or.inr (Or.inl hfailed)
  next => exact of_loop (Or.inr (Or.inl rfl)) hopen hcaused

end Finishing

theorem error_of_steady {t t' : TaskCtx} (hs : Steady t t') (h : ∃ p ∈ t.parts, p.status = .error) :
    ∃ q ∈ t'.parts, q.status = .error := by
  obtain ⟨p, hp, herror⟩ := h
  obtain ⟨i, hi, rfl⟩ := List.getElem_of_mem hp
  have hi' : i < t'.parts.length := hs.marked.length_eq ▸ hi
  refine ⟨t'.parts[i], List.getElem_mem hi', ?_⟩
  rcases ((List.forall₂_iff_get.mp hs.marked).2 i hi hi').status with hsame | herror' | ⟨-, hne, -⟩
  · exact hsame.trans herror
  · exact herror'
  · exact absurd herror hne

theorem sizes_of_steady {t t' : TaskCtx} (hs : Steady t t') (h : ∀ p ∈ t.parts, p.size ≤ 0) :
    ∀ q ∈ t'.parts, q.size ≤ 0 := by
  intro q hq
  have hmem : q.extent ∈ t.extents := hs.extents ▸ List.mem_map_of_mem hq
  obtain ⟨p, hp, hextent⟩ := List.mem_map.mp hmem
  have hsize : p.size = q.size := congrArg Extent.size hextent
  exact hsize ▸ h p hp

theorem Caused.of_steady {t t' : TaskCtx} (h : Caused t) (hs : Steady t t') : Caused t' :=
  h.imp (error_of_steady hs) (sizes_of_steady hs)

theorem allComplete_of_steady {t t' : TaskCtx} (hs : Steady t t') (hcaused : Caused t)
    (h : AllComplete t') : AllComplete t := by
  rcases hcaused with herror | hsizes
  · obtain ⟨q, hq, herror⟩ := error_of_steady hs herror
    simp [h q hq] at herror
  · intro p hp
    obtain ⟨i, hi, rfl⟩ := List.getElem_of_mem hp
    have hi' : i < t'.parts.length := hs.marked.length_eq ▸ hi
    have hdone := h _ (List.getElem_mem hi')
    rcases ((List.forall₂_iff_get.mp hs.marked).2 i hi hi').status with hsame | herror | ⟨-, -, hpos, -⟩
    · exact hsame ▸ hdone
    · simp [List.get_eq_getElem, hdone] at herror
    · have := hsizes _ (List.getElem_mem hi)
      simp only [List.get_eq_getElem] at hpos
      omega

theorem failed_headerCb (t : TaskCtx) (i : Nat) (hi : i < t.parts.length) (line : String) :
    (headerCb t i line).1.failed = t.failed ∨ ((headerCb t i line).1.part i).status = .error := by
  have hdrift : ∀ (t' : TaskCtx) (drift : Prop) [Decidable drift], t'.failed = t.failed →
      t'.parts = t.parts →
      (if drift then (t'.markDriftError i, false) else (t', true)).1.failed = t.failed ∨
        ((if drift then (t'.markDriftError i, false) else (t', true)).1.part i).status = .error := by
    intro t' drift _ hfailed hparts
    split
    · right
      change ((t'.failPart i .error).part i).status = .error
      rw [failPart, part_modifyPart, if_pos ⟨rfl, hparts ▸ hi⟩]
    · exact Or.inl hfailed
  rw [headerCb]
  split
  · exact Or.inl rfl
  · cases parseHeaderLine line with
    | blank | other => exact Or.inl rfl
    | status value | contentRange value =>
        cases value with
        | none => exact Or.inl rfl
        | some value => exact hdrift _ _ rfl rfl
    | contentLength value =>
        cases value with
        | none => exact Or.inl rfl
        | some value =>
            simp only [applyHeaderLine]
            split <;> exact Or.inl rfl
    | contentDisposition name =>
        simp only [applyHeaderLine]
        split <;> exact Or.inl rfl
    | etag value | lastModified value => exact hdrift _ _ rfl rfl

theorem caused_headerCb {t : TaskCtx} {i : Nat} (hi : i < t.parts.length) (line : String)
    (h : t.failed = true → Caused t) (hfailed : (headerCb t i line).1.failed = true) :
    Caused (headerCb t i line).1 := by
  have hr := Retained.headerCb t i line
  rcases failed_headerCb t i hi line with hsame | herror
  · exact (h (hsame ▸ hfailed)).of_steady (steady_headerCb t i line)
  · exact Or.inl ⟨_, part_mem (hr.parts.symm ▸ hi), herror⟩

theorem caused_writeCb (cfg : HttpConfig) (env : WriteEnv) (fs : Fs) {t : TaskCtx} (i : Nat)
    (data : List Byte) (hunprobed : t.probing = true → t.Unprobed) (h : t.failed = true → Caused t)
    (hfailed : (writeCb cfg env fs t i data).task.failed = true) :
    Caused (writeCb cfg env fs t i data).task := by
  rcases writeCb_cases cfg env fs t i data with hdoor | ⟨hstatus, -, hrest⟩
  · rw [hdoor] at hfailed ⊢
    exact h hfailed
  · have hnot : t.failed ≠ true := fun hf => hstatus (status_of_failed hf)
    have hprobed : (probed cfg env fs t i).1.failed = true → Caused (probed cfg env fs t i).1 := by
      intro hfailed
      rw [probed] at hfailed ⊢
      split at hfailed
      next hprobing =>
        rw [if_pos hprobing]
        obtain ⟨total, name, path, hacquired⟩ := acquirePath_settleProbe env.probe fs t i
        rcases finalizeProbing_cases cfg env.probe fs t i with ⟨message, heq⟩ | heq
        · rw [heq, hacquired]
          obtain ⟨p, hp, hextent⟩ := (hunprobed hprobing).parts
          have hsize : p.size = 0 := congrArg Extent.size hextent
          refine Or.inr fun q hq => ?_
          have hq' : q = p := List.mem_singleton.mp (hp ▸ hq)
          exact hq' ▸ hsize.le
        · rw [heq] at hfailed
          exfalso
          refine hnot ?_
          rw [← hfailed, layOut]
          split <;> rfl
      next => exact absurd hfailed hnot
    rcases hrest with ⟨-, heq⟩ | ⟨chunk, hgood, -, heq⟩
    · rw [heq] at hfailed ⊢
      exact hprobed hfailed
    · have houtcome := writeChunk_outcome env (probed cfg env fs t i).2 (probed cfg env fs t i).1 i chunk
      rw [← heq] at houtcome
      exact absurd (houtcome.status ▸ status_of_failed hfailed) hgood

/-! ### Every step -/

theorem failed_handlePartResult (cfg : HttpConfig) (t : TaskCtx) (i : Nat) (rc : CurlCode)
    (httpCode : Int) : (handlePartResult cfg t i rc httpCode).1.failed = t.failed := by
  simp only [handlePartResult]
  split_ifs <;> rfl

theorem failed_addPart (t : TaskCtx) (i : Nat) (built : Bool) :
    (Worker.addPart t i built).failed = t.failed := by
  rw [Worker.addPart]
  split <;> rfl

theorem failed_spawnNewParts (built : Nat → Bool) (w : Worker) :
    (w.spawnNewParts built).task.failed = w.task.failed ∧
      (w.spawnNewParts built).task.pauseReq = w.task.pauseReq ∧
      (w.spawnNewParts built).task.cancelReq = w.task.cancelReq := by
  refine Worker.spawnNewParts_induction built (P := fun v => v.task.failed = w.task.failed ∧
    v.task.pauseReq = w.task.pauseReq ∧ v.task.cancelReq = w.task.cancelReq)
    (fun v i ⟨hfailed, hpause, hcancel⟩ => ?_) ⟨rfl, rfl, rfl⟩
  simp only [Worker.spawnPart]
  split
  · exact ⟨hfailed, hpause, hcancel⟩
  · obtain ⟨hcancel', hpause'⟩ := addPart_requests v.task i (built i)
    exact ⟨(failed_addPart _ _ _).trans hfailed, hpause'.trans hpause, hcancel'.trans hcancel⟩

namespace Finishing

variable {w w' : Worker}

theorem message (cfg : HttpConfig) (h : Finishing w) {i : Nat} {rc : CurlCode} {httpCode : Int}
    {built : Bool} (hok : RefusedFails w (.message i rc httpCode built)) (hphase : w.phase = .draining) :
    Finishing (w.message cfg i rc httpCode built) := by
  have hbefore : w.task.pauseReq = true ∨ w.task.failed = true → ¬ AllComplete w.task :=
    h.open_ (by simp [hphase])
  have hcaused := h.caused (Or.inr (Or.inr hphase))
  have hin : w.phase = .created ∨ w.phase = .performing ∨ w.phase = .draining := Or.inr (Or.inr hphase)
  have hdrop : Steady w.task (Worker.dropEasy w.task i) := steady_modifyCtx _ i _
  simp only [Worker.message]
  split
  · exact of_loop hin hbefore hcaused
  next hreq =>
    have hframe := handlePartResult_frame cfg (Worker.dropEasy w.task i) i rc httpCode
    have hfailed := failed_handlePartResult cfg (Worker.dropEasy w.task i) i rc httpCode
    have hresult : w.task.failed = true →
        ¬ AllComplete (handlePartResult cfg (Worker.dropEasy w.task i) i rc httpCode).1 ∧
          Caused (handlePartResult cfg (Worker.dropEasy w.task i) i rc httpCode).1 := by
      intro hf
      rcases handlePartResult_cases cfg (Worker.dropEasy w.task i) i rc httpCode with
        hs | ⟨hunsized, heq⟩
      · have hs := hdrop.trans hs
        exact ⟨fun hall => hbefore (Or.inr hf) (allComplete_of_steady hs (hcaused hf) hall),
          (hcaused hf).of_steady hs⟩
      · -- a connection that ends well leaves some other part in error
        have herror : ∃ p ∈ w.task.parts, p.status = .error := by
          by_contra hnone
          exact hok hf (fun p hp he => hnone ⟨p, hp, he⟩) hunsized.2.2.1
        obtain ⟨p, hp, hstatus⟩ := herror
        obtain ⟨j, hj, rfl⟩ := List.getElem_of_mem hp
        have hji : i ≠ j := by
          rintro rfl
          exact hunsized.1 (by rw [← part_eq_getElem hj] at hstatus; exact hstatus)
        have hmem : ∃ q ∈ ((Worker.dropEasy w.task i).completeUnsized i).parts, q.status = .error := by
          refine ⟨w.task.parts[j], List.mem_iff_getElem.mpr ⟨j, ?_, ?_⟩, hstatus⟩
          · simpa [TaskCtx.completeUnsized, Worker.dropEasy] using hj
          · simp [TaskCtx.completeUnsized, Worker.dropEasy, hji]
        rw [heq]
        refine ⟨fun hall => ?_, Or.inl hmem⟩
        obtain ⟨q, hq, hqerror⟩ := hmem
        simp [hall q hq] at hqerror
    generalize handlePartResult cfg (Worker.dropEasy w.task i) i rc httpCode = out
      at hframe hfailed hresult ⊢
    obtain ⟨t, again⟩ := out
    simp only at hframe hfailed hresult ⊢
    obtain ⟨-, -, -, -, hpause⟩ := hframe
    have hunpaused : t.pauseReq ≠ true := fun hp => hreq (Or.inr (hpause ▸ hp))
    split
    · have hs := Worker.steady_addPart t i built
      have hfail : (Worker.addPart t i built).failed = w.task.failed :=
        (failed_addPart t i built).trans hfailed
      refine of_loop hin (fun hreq' => ?_) fun hf => ?_
      · rcases hreq' with hp | hf
        · exact absurd ((addPart_requests t i built).2 ▸ hp) hunpaused
        · obtain ⟨hopen, hc⟩ := hresult (hfail ▸ hf)
          exact fun hall => hopen (allComplete_of_steady hs hc hall)
      · exact (hresult (hfail ▸ hf)).2.of_steady hs
    · refine of_loop hin (fun hreq' => ?_) fun hf => (hresult (hfailed ▸ hf)).2
      rcases hreq' with hp | hf
      · exact absurd hp hunpaused
      · exact (hresult (hfailed ▸ hf)).1

theorem maybeEmitResume (h : Finishing w) : Finishing w.maybeEmitResume := by
  rw [Worker.maybeEmitResume]
  split
  · exact h
  · exact ⟨h.open_, h.caused, h.left, h.closed, h.ended, h.completed⟩

theorem enter (h : Finishing w) (hb : Booked w) {multiOk : Bool} {built : Nat → Bool}
    (hok : StepFinishes w (.enter multiOk built)) (hphase : w.phase = .created)
    (hcancel : w.task.cancelReq = false) : Finishing (w.enter multiOk built) := by
  have hlooping : w.phase.looping = true := by rw [hphase]; rfl
  have hbefore := h.open_ (by simp [hphase])
  rw [Worker.enter, if_neg (by simp [hcancel])]
  split
  next hpause =>
    have hpaused : Finishing { w.modifyTask fun t => { t with status := .paused } with phase := .exited } :=
      of_exited rfl (Or.inr (Or.inr ⟨rfl, hpause⟩)) fun hall => absurd hall (hbefore (Or.inl hpause))
    rw [Worker.maybeEmitResume_withPhase]
    exact hpaused.maybeEmitResume
  next hpause =>
    split
    next hmulti =>
      have hopen : ¬ AllComplete w.task := by
        cases multiOk with
        | true => simp at hmulti
        | false => exact hok
      exact of_leaving rfl (fun _ => hopen) (Or.inr (Or.inl rfl))
    next =>
      obtain ⟨hbooked, hall⟩ := hb.spawnNewParts hlooping (by simp [hphase]) built
      obtain ⟨hfailed, hpause', hcancel'⟩ := failed_spawnNewParts built w
      refine loopHead hbooked ?_ hall (hcancel'.trans hcancel) ?_ ?_
      · rw [Worker.spawnNewParts_phase]
        exact hlooping
      · rw [hpause', hfailed]
        exact fun hreq hdone => hbefore hreq (allComplete_of_spawnNewParts hdone)
      · rw [hfailed]
        exact fun hf => (h.caused (Or.inl hphase) hf).of_steady (Worker.steady_spawnNewParts built w)

theorem leave (h : Finishing w) (hb : Booked w) (hphase : w.phase = .leaving) : Finishing w.leave := by
  have hbefore := h.open_ (by simp [hphase])
  have hleft := h.left hphase
  have hincomplete : ∀ t : TaskCtx, t.parts = w.task.parts → ∀ p ∈ w.task.parts, p.status ≠ .completed →
      ¬ AllComplete t := fun t hparts p hp hopen hall => hopen (hall p (hparts ▸ hp))
  simp only [Worker.leave]
  rw [aggregateStatus]
  split
  next hfailed =>
    have hopen : ¬ AllComplete (Worker.cleanupAll w.task) := hbefore (Or.inr hfailed)
    exact of_closing (Or.inl rfl) (fun _ => hopen) (Or.inr (Or.inr (status_of_failed hfailed)))
      fun hall => absurd hall hopen
  next hfailed =>
    split
    next hany =>
      obtain ⟨p, hp, hdownloading⟩ : ∃ p ∈ (Worker.cleanupAll w.task).parts, p.status = .downloading :=
        by simpa using hany
      have hopen := fun (t : TaskCtx) (hparts : t.parts = w.task.parts) =>
        hincomplete t hparts p hp (by simp [hdownloading])
      refine of_closing (Or.inl rfl) (fun _ => hopen _ rfl) (Or.inl ?_) fun hall => absurd hall (hopen _ rfl)
      rcases hleft with hpause | hf | hnone
      · exact hpause
      · exact absurd hf hfailed
      · exact absurd hdownloading (hnone p hp)
    next hdone =>
      split
      next hall =>
        refine of_closing (Or.inl rfl) (fun hreq => ?_) (Or.inr (Or.inl rfl)) fun _ => rfl
        rcases hreq with hpause | hf
        · exact hbefore (Or.inl hpause)
        · simp [failed] at hf
      next hnotall =>
        obtain ⟨p, hp, hpart⟩ : ∃ p ∈ (Worker.cleanupAll w.task).parts, p.status ≠ .completed := by
          simpa using hnotall
        have hopen := fun (t : TaskCtx) (hparts : t.parts = w.task.parts) =>
          hincomplete t hparts p hp hpart
        split
        next herror =>
          exact of_closing (Or.inl rfl) (fun _ => hopen _ rfl) (Or.inr (Or.inr rfl)) fun hall =>
            absurd hall (hopen _ rfl)
        next hnoerror =>
          -- a part neither complete nor in error would be downloading
          exfalso
          simp only [List.any_eq_true, decide_eq_true_eq, not_exists, not_and] at hdone hnoerror
          obtain ⟨i, hi, rfl⟩ := List.getElem_of_mem hp
          have hstatus := hb.statuses i
          rw [TaskCtx.ended, part_eq_getElem (t := w.task) hi] at hstatus
          rcases hstatus with hd | hc | he
          · exact hdone _ hp hd
          · exact hpart hc
          · exact hnoerror _ hp he

theorem header (h : Finishing w) (hb : Booked w) {i : Nat} (line : String)
    (hphase : w.phase = .performing) (howned : w.task.owns i = true) : Finishing (w.header i line) := by
  have hi : i < w.task.parts.length := hb.ctxs ▸ Worker.lt_of_easy howned
  have hopen : ¬ AllComplete (headerCb w.task i line).1 := fun hall =>
    hb.not_allComplete howned (allComplete_of_retained (.headerCb w.task i line) hall)
  have hcaused := caused_headerCb hi line (h.caused (Or.inr (Or.inl hphase)))
  simp only [Worker.header]
  split
  · exact of_loop (Or.inr (Or.inl hphase)) (fun _ => hopen) hcaused
  · exact of_loop (Or.inr (Or.inl hphase)) (fun _ => hopen) hcaused

theorem body (h : Finishing w) (hb : Booked w) (hunprobed : w.task.probing = true → w.task.Unprobed)
    (cfg : HttpConfig) {i : Nat} (data : List Byte) (env : WriteEnv) (hphase : w.phase = .performing)
    (howned : w.task.owns i = true) : Finishing (w.body cfg i data env) := by
  have hcaused := caused_writeCb cfg env w.fs i data hunprobed (h.caused (Or.inr (Or.inl hphase)))
  have hopen : ¬ AllComplete (writeCb cfg env w.fs w.task i data).task :=
    (hb.writeCb cfg env data hphase howned).not_allComplete
      ((writeCb_owns cfg env w.fs w.task i data i).trans howned)
  simp only [Worker.body]
  split
  · exact of_loop (Or.inr (Or.inl hphase)) (fun _ => hopen) hcaused
  · exact of_loop (Or.inr (Or.inl hphase)) (fun _ => hopen) hcaused

theorem close (h : Finishing w) (hphase : w.phase = .closing) : Finishing w.close := by
  have hending : ∀ {v : Worker}, v.phase = .closing → Finishing v → Finishing { v with phase := .ending } :=
    fun hv hf => of_closing (Or.inr rfl) (hf.open_ (by simp [hv])) (hf.closed (Or.inl hv))
      (hf.completed (Or.inl hv))
  simp only [Worker.close]
  split
  · exact of_closing (Or.inr rfl) (h.open_ (by simp [hphase])) (h.closed (Or.inl hphase))
      (h.completed (Or.inl hphase))
  split
  · exact hending ((Worker.maybeEmitResume_phase w).trans hphase) h.maybeEmitResume
  · exact hending hphase h

theorem exit (h : Finishing w) (hphase : w.phase = .ending) (hcancel : w.task.cancelReq = false) :
    Finishing w.exit := by
  have hbefore := h.open_ (by simp [hphase])
  simp only [Worker.exit]
  split
  next hreq =>
    exact of_exited rfl (Or.inr (Or.inr ⟨rfl, hreq.2⟩)) fun hall => absurd hall (hbefore (Or.inl hreq.2))
  next hreq =>
    have hunpaused : ¬ w.task.pauseReq = true := fun hp => hreq ⟨by simp [hcancel], hp⟩
    refine of_exited rfl ?_ (h.completed (Or.inr (Or.inl hphase)))
    rcases h.closed (Or.inr hphase) with hp | hc | he
    · exact absurd hp hunpaused
    · exact Or.inl hc
    · exact Or.inr (Or.inl he)

/-- **One step ends well, or leaves the end open.** -/
theorem step {cfg : HttpConfig} (h : Finishing w) (hb : Booked w)
    (hunprobed : w.task.probing = true → w.task.Unprobed) (hcancel : w.task.cancelReq = false) {e : Event}
    (hok : EndsWell w e) (hstep : w.step cfg e = some w') (hcancel' : w'.task.cancelReq = false) :
    Finishing w' := by
  obtain ⟨hsteps, hrefused⟩ := hok
  cases Worker.stepped_of_step hstep with
  | enter hphase => exact h.enter hb hsteps hphase hcancel
  | header hphase hlive => exact h.header hb _ hphase (owns_of_live hlive)
  | body hphase hlive => exact h.body hb hunprobed cfg _ _ hphase (owns_of_live hlive)
  | @performed built hphase =>
      obtain ⟨hfailed, hpause, -⟩ := failed_spawnNewParts built w
      refine of_loop (Or.inr (Or.inr rfl)) ?_ ?_
      · simp only [hpause, hfailed]
        exact fun hreq hall => h.open_ (by simp [hphase]) hreq (allComplete_of_spawnNewParts hall)
      · simp only [hfailed]
        exact fun hf => (h.caused (Or.inr (Or.inl hphase)) hf).of_steady
          (Worker.steady_spawnNewParts built w)
  | multiFailed hphase =>
      exact of_leaving rfl (h.open_ (by simp [hphase])) (hsteps.resolve_left (by simp [hcancel]))
  | message hphase heasy => exact h.message cfg hrefused hphase
  | drained hphase =>
      have hemitted := h.maybeEmitResume
      have hbooked := hb.maybeEmitResume
      obtain ⟨emitDone, htask⟩ := Worker.maybeEmitResume_task w
      have hphase' : w.maybeEmitResume.phase = .draining :=
        (Worker.maybeEmitResume_phase w).trans hphase
      refine loopHead hbooked (by rw [hphase']; rfl) (hbooked.drained hphase') (by rw [htask]; exact hcancel)
        (hemitted.open_ (by simp [hphase])) (hemitted.caused (Or.inr (Or.inr hphase')))
  | raised hphase => exact of_leaving rfl (fun _ => hsteps) (Or.inr (Or.inl rfl))
  | raisedLate hphase =>
      exact of_closing (Or.inr rfl) (fun _ => hsteps) (Or.inr (Or.inr rfl)) fun hall => absurd hall hsteps
  | leave hphase => exact h.leave hb hphase
  | close hphase => exact h.close hphase
  | exit hphase => exact h.exit hphase hcancel
  | pauseRequest =>
      exact ⟨fun hphase _ => hsteps hphase, h.caused, fun hphase => Or.inl rfl, fun _ => Or.inl rfl,
        fun hphase => (h.ended hphase).imp_right (Or.imp_right fun hp => ⟨hp.1, rfl⟩), h.completed⟩
  | deleteRequest | shutdown => simp [Worker.modifyTask] at hcancel'

end Finishing

/-! ### Every run -/

theorem requests_writeCb (cfg : HttpConfig) (env : WriteEnv) (fs : Fs) (t : TaskCtx) (i : Nat)
    (data : List Byte) : SameRequests t (writeCb cfg env fs t i data).task := by
  rcases writeCb_cases cfg env fs t i data with hdoor | ⟨-, -, ⟨-, heq⟩ | ⟨chunk, -, -, heq⟩⟩
  · exact hdoor ▸ .refl t
  · exact heq ▸ .probed cfg env fs t i
  · have houtcome := writeChunk_outcome env (probed cfg env fs t i).2 (probed cfg env fs t i).1 i chunk
    rw [heq]
    exact (SameRequests.probed cfg env fs t i).trans (.of_chunk houtcome)

theorem requests_of_step {cfg : HttpConfig} {w w' : Worker} {e : Event} (hstep : w.step cfg e = some w') :
    w'.task.cancelReq = w.task.cancelReq ∧ w'.task.pauseReq = w.task.pauseReq ∨
      e = .pauseRequest ∨ e = .deleteRequest ∨ e = .shutdown := by
  cases Worker.stepped_of_step hstep with
  | pauseRequest => exact Or.inr (Or.inl rfl)
  | deleteRequest => exact Or.inr (Or.inr (Or.inl rfl))
  | shutdown => exact Or.inr (Or.inr (Or.inr rfl))
  | enter hphase =>
      refine Or.inl ?_
      simp only [Worker.enter]
      split
      · exact ⟨rfl, rfl⟩
      split
      · obtain ⟨emitDone, htask⟩ := Worker.maybeEmitResume_task (w.modifyTask fun t => { t with status := .paused })
        simp only [htask]
        exact ⟨rfl, rfl⟩
      split
      · exact ⟨rfl, rfl⟩
      · rw [Worker.loopHead_task]
        exact ⟨(failed_spawnNewParts _ w).2.2, (failed_spawnNewParts _ w).2.1⟩
  | @header i line hphase hlive =>
      have hsame := SameRequests.headerCb w.task i line
      refine Or.inl ?_
      simp only [Worker.header]
      split <;> exact ⟨hsame.cancelReq, hsame.pauseReq⟩
  | @body i data env hphase hlive =>
      have hsame := requests_writeCb cfg env w.fs w.task i data
      refine Or.inl ?_
      simp only [Worker.body]
      split <;> exact ⟨hsame.cancelReq, hsame.pauseReq⟩
  | @performed built hphase =>
      exact Or.inl ⟨(failed_spawnNewParts built w).2.2, (failed_spawnNewParts built w).2.1⟩
  | @message i rc httpCode built hphase heasy =>
      obtain ⟨-, -, -, hcancel, hpause⟩ := handlePartResult_frame cfg (Worker.dropEasy w.task i) i rc httpCode
      refine Or.inl ?_
      simp only [Worker.message]
      split
      · exact ⟨rfl, rfl⟩
      split
      · obtain ⟨hcancel', hpause'⟩ := addPart_requests
          (handlePartResult cfg (Worker.dropEasy w.task i) i rc httpCode).1 i built
        exact ⟨hcancel'.trans hcancel, hpause'.trans hpause⟩
      · exact ⟨hcancel, hpause⟩
  | drained hphase =>
      obtain ⟨emitDone, htask⟩ := Worker.maybeEmitResume_task w
      rw [Worker.loopHead_task, htask]
      exact Or.inl ⟨rfl, rfl⟩
  | leave hphase =>
      refine Or.inl ?_
      simp only [Worker.leave, aggregateStatus]
      split_ifs <;> exact ⟨rfl, rfl⟩
  | close hphase =>
      refine Or.inl ?_
      obtain ⟨emitDone, htask⟩ := Worker.maybeEmitResume_task w
      simp only [Worker.close]
      split_ifs
      · exact ⟨rfl, rfl⟩
      · simp [htask]
      · exact ⟨rfl, rfl⟩
  | exit hphase =>
      refine Or.inl ?_
      simp only [Worker.exit]
      split <;> exact ⟨rfl, rfl⟩
  | multiFailed | raised | raisedLate => exact Or.inl ⟨rfl, rfl⟩

theorem cancelReq_of_step {cfg : HttpConfig} {w w' : Worker} {e : Event} (hstep : w.step cfg e = some w')
    (hcancel : w'.task.cancelReq = false) : w.task.cancelReq = false := by
  rcases requests_of_step hstep with ⟨hsame, -⟩ | rfl | rfl | rfl
  · exact hsame ▸ hcancel
  · obtain rfl := Option.some.inj hstep
    exact hcancel
  · obtain rfl := Option.some.inj hstep
    simp [Worker.modifyTask] at hcancel
  · obtain rfl := Option.some.inj hstep
    simp [Worker.modifyTask] at hcancel

structure Ending (w : Worker) : Prop where
  booked : Booked w
  sound : ∃ fixed, Sound fixed w
  finishing : w.task.cancelReq = false → Finishing w

theorem Ending.step {cfg : HttpConfig} {w w' : Worker} (h : Ending w) {e : Event} (hok : EndsWell w e)
    (hstep : w.step cfg e = some w') : Ending w' := by
  obtain ⟨fixed, hsound⟩ := h.sound
  refine ⟨h.booked.step hstep, ⟨_, hsound.step hstep⟩, fun hcancel' => ?_⟩
  have hcancel := cancelReq_of_step hstep hcancel'
  exact (h.finishing hcancel).step h.booked (fun hp => (hsound.probing hp).1) hcancel hok hstep hcancel'

theorem ending_startWorker (url clientId savePath : String) (archive : Option Archive) (fs : Fs)
    (granted : Bool) : Ending (startWorker url clientId savePath archive fs granted) := by
  have hfresh : (startWorker url clientId savePath archive fs granted).task.pauseReq = false ∧
      (startWorker url clientId savePath archive fs granted).task.failed = false := by
    rcases startFrom_cases url clientId savePath archive fs granted with heq | ⟨a, -, -, -, -, heq⟩ <;>
      simp [startWorker, heq, taskCreateNew, continueFrom, failed]
  refine ⟨booked_startWorker url clientId savePath archive fs granted, ?_, fun _ => ?_⟩
  · exact ⟨_, @sound_startWorker false url clientId savePath _ fs granted (by simp)⟩
  · exact .of_loop (Or.inl rfl) (by simp [hfresh]) (by simp [hfresh])

theorem Finishing.finished {w : Worker} (h : Finishing w) (hphase : w.phase = .exited) : Finished w := by
  have hended := h.ended hphase
  refine ⟨hended.imp_right (Or.imp_right And.left), fun url finishedAt now hlate => ?_,
    h.completed (Or.inr (Or.inr hphase))⟩
  have hrunning : w.running = false := by simp [Worker.running, hphase]
  have hdelay : 4000 ≤ now - finishedAt := by omega
  rcases hended with hc | he | ⟨hp, hpause⟩
  · simp [HttpEngine.reclaimable, hrunning, hc, hdelay]
  · simp [HttpEngine.reclaimable, hrunning, he, hdelay]
  · simp [HttpEngine.reclaimable, hrunning, hp, hpause]

/-- **A finished worker has a terminal status**, in every run whose steps end well, however it was
started. -/
theorem finished_of_reaches {cfg : HttpConfig} {url clientId savePath : String}
    {archive : Option Archive} {fs : Fs} {granted : Bool} {w : Worker}
    (hrun : Reaches (Worker.step cfg) EndsWell
      (startWorker url clientId savePath archive fs granted) w)
    (hphase : w.phase = .exited) (hcancel : w.task.cancelReq = false) : Finished w := by
  have hending : Ending w := hrun.invariant (fun _ _ _ hs hok hstep => hs.step hok hstep)
    (ending_startWorker url clientId savePath archive fs granted)
  exact (hending.finishing hcancel).finished hphase

def pausedRun : List Event :=
  [.enter true fun _ => true, .header 0 "HTTP/1.1 200 OK\r\n", .body 0 [1, 2, 3] grantAll,
    .performed true fun _ => true, .pauseRequest, .drained, .leave, .close, .exit]

theorem finished_of_reaches_pausedRun : ∃ w, w.task.status = .paused ∧ Finished w := by
  have hplayed : ((play (Worker.step plainCfg) EndsWell
      (startWorker "http://h/f.bin" "c" "/d" none emptyFs true) pausedRun).map fun w =>
        (w.phase, w.task.cancelReq, w.task.status)) = some (.exited, false, .paused) := by
    decide +kernel
  obtain ⟨w, hrun, hvalues⟩ := Option.map_eq_some_iff.mp hplayed
  simp only [Prod.mk.injEq] at hvalues
  obtain ⟨hphase, hcancel, hstatus⟩ := hvalues
  exact ⟨w, hstatus, finished_of_reaches (reaches_of_play hrun) hphase hcancel⟩

def brokenRun : List Event :=
  [.enter true fun _ => true, .performed false fun _ => true, .leave, .close, .exit]

def latePauseRun : List Event :=
  [.enter true fun _ => true, .header 0 "HTTP/1.1 200 OK\r\n", .header 0 "Content-Length: 3\r\n",
    .body 0 [1, 2, 3] grantAll, .performed true fun _ => true, .message 0 .ok 200 true, .drained,
    .leave, .close, .pauseRequest, .exit]

/-- **Two ends that are none.** After an error of `curl_multi` the task is downloading for good; after
a late pause a download with every part complete is paused. -/
theorem not_finished_brokenRun_latePauseRun :
    (∃ w, Reaches (Worker.step plainCfg) anyEvent
        (startWorker "http://h/f.bin" "c" "/d" none emptyFs true) w ∧ w.phase = .exited ∧
        w.task.cancelReq = false ∧ w.task.status = .downloading) ∧
      ∃ w, Reaches (Worker.step plainCfg) anyEvent
        (startWorker "http://h/f.bin" "c" "/d" none emptyFs true) w ∧ w.phase = .exited ∧
        w.task.cancelReq = false ∧ AllComplete w.task ∧ w.task.failed = false ∧
        w.task.status = .paused := by
  constructor
  · have hplayed : ((play (Worker.step plainCfg) anyEvent
        (startWorker "http://h/f.bin" "c" "/d" none emptyFs true) brokenRun).map fun w =>
          (w.phase, w.task.cancelReq, w.task.status)) = some (.exited, false, .downloading) := by
      decide +kernel
    obtain ⟨w, hrun, hvalues⟩ := Option.map_eq_some_iff.mp hplayed
    simp only [Prod.mk.injEq] at hvalues
    exact ⟨w, reaches_of_play hrun, hvalues⟩
  · have hplayed : ((play (Worker.step plainCfg) anyEvent
        (startWorker "http://h/f.bin" "c" "/d" none emptyFs true) latePauseRun).map fun w =>
          (decide (w.phase = .exited ∧ w.task.cancelReq = false), decide (AllComplete w.task),
            w.task.failed, w.task.status)) = some (true, true, false, .paused) := by
      decide +kernel
    obtain ⟨w, hrun, hvalues⟩ := Option.map_eq_some_iff.mp hplayed
    simp only [Prod.mk.injEq, decide_eq_true_eq] at hvalues
    obtain ⟨⟨hphase, hcancel⟩, hall, hfailed, hstatus⟩ := hvalues
    exact ⟨w, reaches_of_play hrun, hphase, hcancel, hall, hfailed, hstatus⟩

end DownloadWrapper
