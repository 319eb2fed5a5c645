import DownloadWrapper.Http.Retries
import Mathlib.Algebra.BigOperators.Group.Finset.Basic
import Mathlib.Algebra.Order.BigOperators.Group.Finset
import Mathlib.Data.Prod.Lex

/-!
# The event loop ends

Every result of a connection is paid for by one that was opened, and those are bounded. So the loop
goes round only as often as connections end, however libcurl spreads its callbacks and results over the
rounds, and at its head it is left as soon as no connection is open. What it leaves behind has been
spawned and has ended.
-/

namespace DownloadWrapper

open TaskCtx Transition

def Event.atHead : Event → Bool
  | .enter .. | .drained => true
  | _ => false

namespace Worker

variable {cfg : HttpConfig} {w w' : Worker} {e : Event}

theorem loopHead_active (w : Worker) : w.loopHead.active = w.active := by
  rw [loopHead]
  split <;> rfl

theorem loopHead_phase (w : Worker) : w.loopHead.phase = .performing ∨ w.loopHead.phase = .leaving := by
  rw [loopHead]
  split
  · exact Or.inr rfl
  · exact Or.inl rfl

theorem loopHead_leaving_iff (w : Worker) : w.loopHead.phase = .leaving ↔
    w.loopHead.active ≤ 0 ∨ w.loopHead.task.cancelReq = true ∨ w.loopHead.task.pauseReq = true ∨
      w.loopHead.task.failed = true := by
  rw [loopHead_active, loopHead_task, loopHead]
  split
  next hleave => exact iff_of_true rfl hleave
  next hstay => exact iff_of_false (by simp) hstay

/-- The loop is left at its head exactly when no connection is open, a request came or the task failed. -/
theorem leaving_iff_of_atHead (hcancel : w.task.cancelReq = false) (hpause : w.task.pauseReq = false)
    (hhead : e.atHead = true) (hstep : w.step cfg e = some w') : w'.phase = .leaving ↔
      w'.active ≤ 0 ∨ w'.task.cancelReq = true ∨ w'.task.pauseReq = true ∨ w'.task.failed = true := by
  cases stepped_of_step hstep with
  | @enter multiOk built hphase =>
      rw [enter, if_neg (by simp [hcancel]), if_neg (by simp [hpause])]
      split
      · exact iff_of_true rfl (Or.inr (Or.inr (Or.inr rfl)))
      · exact loopHead_leaving_iff _
  | drained hphase => exact loopHead_leaving_iff _
  | _ => simp [Event.atHead] at hhead

end Worker

def Event.callback : Event → Bool
  | .header .. | .body .. => true
  | _ => false

def Event.result : Event → Bool
  | .message .. => true
  | _ => false

/-- One round of the loop: the callbacks, the handles the new parts get, the connections that ended. -/
structure LoopRound where
  traffic : List Event
  callbacks : ∀ e ∈ traffic, e.callback = true
  built : Nat → Bool
  ended : List Event
  results : ∀ e ∈ ended, e.result = true

def LoopRound.events (r : LoopRound) : List Event :=
  r.traffic ++ .performed true r.built :: (r.ended ++ [.drained])

def Tally.meet (cfg : HttpConfig) (s : Tally) (e : Event) : Tally := (s.step cfg e).getD s

def Tally.turn (cfg : HttpConfig) (s : Tally) (r : LoopRound) : Tally := r.events.foldl (Tally.meet cfg) s

def Tally.loop (cfg : HttpConfig) (rounds : Nat → LoopRound) (s : Tally) : Nat → Tally
  | 0 => s
  | n + 1 =>
      let t := Tally.loop cfg rounds s n
      if t.worker.phase = .performing then t.turn cfg (rounds n) else t

/-- The connections end: no part is open for good. -/
def ConnectionsEnd (rounds : Nat → LoopRound) : Prop :=
  ∀ i n, ∃ k, n ≤ k ∧ ∃ e ∈ (rounds k).ended, e.concludes i = true

/-! ### The undisturbed run -/

structure Undisrupted (maxRetries : Int) (s : Tally) : Prop where
  booked : Booked s.worker
  sound : ∃ fixed, Sound fixed s.worker
  uncancelled : s.worker.task.cancelReq = false
  unpaused : s.worker.task.pauseReq = false
  spending : Spending maxRetries s.worker s.opened s.closed
  going : s.worker.phase = .performing → 0 < s.worker.active
  left : s.worker.phase = .leaving → s.worker.task.failed = false →
    s.worker.spawned = s.worker.task.partCtx.length ∧ s.worker.active ≤ 0

namespace Undisrupted

variable {m : Int} {s s' : Tally}

theorem left_loopHead {w : Worker} (hall : w.spawned = w.task.partCtx.length)
    (hcancel : w.task.cancelReq = false) (hpause : w.task.pauseReq = false)
    (hphase : w.loopHead.phase = .leaving) (hfailed : w.task.failed = false) :
    w.spawned = w.task.partCtx.length ∧ w.active ≤ 0 := by
  refine ⟨hall, ?_⟩
  rw [Worker.loopHead] at hphase
  split at hphase
  next hidle => simpa [hcancel, hpause, hfailed] using hidle
  next => simp at hphase

theorem left_step {cfg : HttpConfig} {w w' : Worker} (hb : Booked w)
    (hcancel : w.task.cancelReq = false) (hpause : w.task.pauseReq = false) {e : Event}
    (hok : LeftAlone s e) (hstep : w.step cfg e = some w') (hphase' : w'.phase = .leaving)
    (hfailed : w'.task.failed = false) : w'.spawned = w'.task.partCtx.length ∧ w'.active ≤ 0 := by
  have hthread : ∀ t : TaskCtx, (Worker.threadFailed t).failed = true := fun _ => rfl
  cases Worker.stepped_of_step hstep with
  | @enter multiOk built hphase =>
      have hlooping : w.phase.looping = true := by rw [hphase]; rfl
      rw [Worker.enter, if_neg (by simp [hcancel]), if_neg (by simp [hpause])] at hphase' hfailed ⊢
      split at hphase'
      next hmulti =>
        rw [if_pos hmulti] at hfailed
        simp [Worker.modifyTask, hthread] at hfailed
      next hmulti =>
        rw [if_neg hmulti] at hfailed ⊢
        obtain ⟨-, hall⟩ := hb.spawnNewParts hlooping (by simp [hphase]) built
        obtain ⟨-, hpause', hcancel'⟩ := failed_spawnNewParts built w
        rw [Worker.loopHead_task] at hfailed
        rw [Worker.loopHead_task, Worker.loopHead_spawned, Worker.loopHead_active]
        exact left_loopHead hall (hcancel'.trans hcancel) (hpause'.trans hpause) hphase' hfailed
  | @header i line hphase hlive => simp [Worker.header, hphase] at hphase'
  | @body i data env hphase hlive => simp [Worker.body, hphase] at hphase'
  | performed hphase => simp at hphase'
  | @message i rc httpCode built hphase heasy =>
      simp only [Worker.message] at hphase'
      split_ifs at hphase' <;> simp [hphase] at hphase'
  | drained hphase =>
      obtain ⟨emitDone, htask⟩ := Worker.maybeEmitResume_task w
      have hall : w.maybeEmitResume.spawned = w.maybeEmitResume.task.partCtx.length := by
        rw [Worker.maybeEmitResume_spawned, htask]
        exact hb.drained hphase
      rw [Worker.loopHead_task] at hfailed
      rw [Worker.loopHead_task, Worker.loopHead_spawned, Worker.loopHead_active]
      exact left_loopHead hall (by rw [htask]; exact hcancel) (by rw [htask]; exact hpause) hphase' hfailed
  | raised hphase => simp [Worker.modifyTask, hthread] at hfailed
  | raisedLate hphase => simp at hphase'
  | leave hphase => simp [Worker.leave] at hphase'
  | close hphase => simp [Worker.close] at hphase'
  | exit hphase => simp [Worker.exit] at hphase'
  | multiFailed | pauseRequest | deleteRequest | shutdown => exact absurd hok id

theorem going_step {cfg : HttpConfig} {w w' : Worker} (hcancel : w.task.cancelReq = false)
    (hpause : w.task.pauseReq = false) (hgoing : w.phase = .performing → 0 < w.active) {e : Event}
    (hstep : w.step cfg e = some w') (hphase' : w'.phase = .performing) : 0 < w'.active := by
  have hhead : e.atHead = true → 0 < w'.active := fun hhead => by
    have hiff := Worker.leaving_iff_of_atHead hcancel hpause hhead hstep
    rw [hphase'] at hiff
    by_contra hidle
    exact absurd (hiff.mpr (Or.inl (by omega))) (by decide)
  cases Worker.stepped_of_step hstep with
  | enter => exact hhead rfl
  | drained => exact hhead rfl
  | @header i line hphase hlive => exact hgoing hphase
  | @body i data env hphase hlive => exact hgoing hphase
  | @message i rc httpCode built hphase heasy =>
      simp only [Worker.message] at hphase'
      split_ifs at hphase' <;> simp [hphase] at hphase'
  | pauseRequest | deleteRequest | shutdown => exact hgoing hphase'
  | leave => simp [Worker.leave] at hphase'
  | close => simp [Worker.close] at hphase'
  | exit => simp [Worker.exit] at hphase'
  | performed | multiFailed | raised | raisedLate => simp at hphase'

theorem step {cfg : HttpConfig} (h : Undisrupted cfg.maxRetries s) {e : Event} (hok : LeftAlone s e)
    (hstep : s.step cfg e = some s') : Undisrupted cfg.maxRetries s' := by
  obtain ⟨w, hworker, rfl⟩ := Option.map_eq_some_iff.mp hstep
  obtain ⟨fixed, hsound⟩ := h.sound
  obtain ⟨hcancel, hpause⟩ : w.task.cancelReq = s.worker.task.cancelReq ∧
      w.task.pauseReq = s.worker.task.pauseReq := by
    rcases requests_of_step hworker with hsame | rfl | rfl | rfl
    · exact hsame
    all_goals exact absurd hok id
  exact ⟨h.booked.step hworker, ⟨_, hsound.step hworker⟩, hcancel.trans h.uncancelled,
    hpause.trans h.unpaused,
    h.spending.step h.booked (fun hp => (hsound.probing hp).1) h.uncancelled h.unpaused hworker,
    going_step h.uncancelled h.unpaused h.going hworker, left_step h.booked h.uncancelled h.unpaused hok hworker⟩

end Undisrupted

theorem undisrupted_startWorker {m : Int} (hm : 0 ≤ m) (url clientId savePath : String) (fs : Fs)
    (granted : Bool) :
    Undisrupted m { worker := startWorker url clientId savePath none fs granted } where
  booked := booked_startWorker url clientId savePath none fs granted
  sound := ⟨_, @sound_startWorker false url clientId savePath _ fs granted (by simp)⟩
  uncancelled := rfl
  unpaused := rfl
  spending := by
    have hctx : ∀ i, (startWorker url clientId savePath none fs granted).task.ctx i = {} := by
      intro i
      cases i with
      | zero => rfl
      | succ i => exact ctx_of_length_le (by simp [startWorker, startFrom, taskCreateNew])
    refine ⟨fun i => Budgeted.start ?_ (fun _ => ?_) (Nat.zero_le _) fun howned => ?_, fun _ _ => rfl⟩
    · rw [hctx]
      exact hm
    · rw [hctx]
    · simp [TaskCtx.owns, hctx] at howned
  going hphase := by simp [startWorker] at hphase
  left hphase := by simp [startWorker] at hphase

/-! ### What a round brings -/

def Event.inRound : Event → Bool
  | .header .. | .body .. | .performed true _ | .message .. | .drained => true
  | _ => false

namespace Worker

variable {cfg : HttpConfig} {w w' : Worker} {e : Event}

theorem probed_size (cfg : HttpConfig) (env : WriteEnv) (fs : Fs) (t : TaskCtx) (i : Nat) :
    (probed cfg env fs t i).1.probing = t.probing ∧
        (probed cfg env fs t i).1.partCtx.length = t.partCtx.length ∨
      t.probing = true ∧ (probed cfg env fs t i).1.probing = false := by
  cases hprobing : t.probing with
  | true => exact Or.inr ⟨rfl, probed_probing cfg env fs t i⟩
  | false =>
      rw [probed, if_neg (by simp [hprobing])]
      exact Or.inl ⟨hprobing, rfl⟩

theorem writeCb_size (cfg : HttpConfig) (env : WriteEnv) (fs : Fs) (t : TaskCtx) (i : Nat)
    (data : List Byte) :
    (writeCb cfg env fs t i data).task.probing = t.probing ∧
        (writeCb cfg env fs t i data).task.partCtx.length = t.partCtx.length ∨
      t.probing = true ∧ (writeCb cfg env fs t i data).task.probing = false := by
  rcases writeCb_cases cfg env fs t i data with hdoor | ⟨-, -, ⟨-, heq⟩ | ⟨chunk, -, -, heq⟩⟩
  · exact Or.inl (hdoor ▸ ⟨rfl, rfl⟩)
  · exact heq ▸ probed_size cfg env fs t i
  · have houtcome := writeChunk_outcome env (probed cfg env fs t i).2 (probed cfg env fs t i).1 i chunk
    have hlength := (Retained.of_chunk houtcome).length
    rw [heq, houtcome.probing, hlength]
    exact probed_size cfg env fs t i

theorem message_size (cfg : HttpConfig) (w : Worker) (i : Nat) (rc : CurlCode) (httpCode : Int)
    (built : Bool) : (w.message cfg i rc httpCode built).task.partCtx.length = w.task.partCtx.length := by
  have hdrop : (dropEasy w.task i).partCtx.length = w.task.partCtx.length := (steady_modifyCtx _ i _).ctxs
  have hframe := (handlePartResult_frame cfg (dropEasy w.task i) i rc httpCode).1
  simp only [message]
  split
  · exact hdrop
  split
  · exact (steady_addPart _ i built).ctxs.trans (hframe.trans hdrop)
  · exact hframe.trans hdrop

theorem size_of_inRound (hround : e.inRound = true) (hstep : w.step cfg e = some w') :
    w'.task.probing = w.task.probing ∧ w'.task.partCtx.length = w.task.partCtx.length ∨
      w.task.probing = true ∧ w'.task.probing = false := by
  cases stepped_of_step hstep with
  | @header i line hphase hlive =>
      have hline := steady_headerCb w.task i line
      simp only [header]
      split
      · exact Or.inl ⟨hline.probing, hline.ctxs⟩
      · have habort : Steady w.task (abortEasy (headerCb w.task i line).1 i) :=
          hline.trans (steady_modifyCtx _ i _)
        exact Or.inl ⟨habort.probing, habort.ctxs⟩
  | @body i data env hphase hlive =>
      have hwritten := writeCb_size cfg env w.fs w.task i data
      simp only [body]
      split
      · exact hwritten
      · have habort : Steady _ (abortEasy (DownloadWrapper.writeCb cfg env w.fs w.task i data).task i) :=
          steady_modifyCtx _ i _
        rw [habort.probing, habort.ctxs]
        exact hwritten
  | @performed built hphase =>
      have hspawned := steady_spawnNewParts built w
      exact Or.inl ⟨hspawned.probing, hspawned.ctxs⟩
  | @message i rc httpCode built hphase heasy =>
      exact Or.inl ⟨message_probing cfg w i rc httpCode built, message_size cfg w i rc httpCode built⟩
  | drained hphase =>
      have hsaved := steady_maybeEmitResume w
      rw [loopHead_task]
      exact Or.inl ⟨hsaved.probing, hsaved.ctxs⟩
  | _ => simp [Event.inRound] at hround

theorem owns_of_inRound (hb : Booked w) (hround : e.inRound = true) (hstep : w.step cfg e = some w')
    {i : Nat} (howned : w.task.owns i = true) (hother : e.concludes i = false) :
    w'.task.owns i = true := by
  cases stepped_of_step hstep with
  | @header j line hphase hlive =>
      have hline : Retained w.task (headerCb w.task j line).1 := .headerCb w.task j line
      simp only [header]
      split
      · rw [hline.owns, howned]
      · rw [(hline.trans (.abortEasy _ j)).owns, howned]
  | @body j data env hphase hlive =>
      have hwritten := (writeCb_owns cfg env w.fs w.task j data i).trans howned
      simp only [body]
      split
      · exact hwritten
      · rw [(Retained.abortEasy (DownloadWrapper.writeCb cfg env w.fs w.task j data).task j).owns, hwritten]
  | @performed built hphase =>
      refine (spawnNewParts_watermark (P := fun v => v.task.owns i = true) built (fun v hv hlt => ?_)
        hb.spawned_le howned).1
      simp only [spawnPart]
      split
      · exact hv
      · rw [owns_addPart v.task hlt, hv, Bool.or_true]
  | @message j rc httpCode built hphase heasy =>
      have hj : j < w.task.partCtx.length := lt_of_easy heasy
      have hne : j ≠ i := by simpa [Event.concludes] using hother
      have hdropped : (dropEasy w.task j).owns i = true := by simp [owns_dropEasy, hne, howned]
      have hframe := (handlePartResult_frame cfg (dropEasy w.task j) j rc httpCode).1
      have hbooks := (handlePartResult_books cfg (dropEasy w.task j) (hb.ctxs ▸ hj) rc httpCode).1 i
      have hbound : j < (handlePartResult cfg (dropEasy w.task j) j rc httpCode).1.partCtx.length := by
        rw [hframe]
        simpa [dropEasy] using hj
      simp only [message]
      split
      · exact hdropped
      split
      · rw [owns_addPart _ hbound, hbooks, hdropped, Bool.or_true]
      · rw [hbooks, hdropped]
  | drained hphase =>
      obtain ⟨emitDone, htask⟩ := maybeEmitResume_task w
      rw [loopHead_task, htask]
      exact howned
  | _ => simp [Event.inRound] at hround

end Worker

namespace Tally

/-- The connections a part may have. -/
def allowance (m : Int) (i : Nat) : Nat := if i = 0 then (2 * m + 2).toNat else (m + 1).toNat

def rank (m : Int) (s : Tally) : Nat ×ₗ Nat :=
  toLex (if s.worker.task.probing then 1 else 0,
    ∑ i ∈ Finset.range s.worker.task.partCtx.length, (allowance m i - s.closed i))

theorem closed_le_allowance {m : Int} {s : Tally} (h : Undisrupted m s) (i : Nat) :
    s.closed i ≤ allowance m i := by
  obtain ⟨hhead, hothers, hresults⟩ := (h.spending.budget i).bound
  rw [allowance]
  split
  next hzero => have := hhead hzero; omega
  next hi => have := hothers hi; omega

variable {cfg : HttpConfig} {s s' : Tally} {e : Event}

theorem closed_of_step (hstep : s.step cfg e = some s') (i : Nat) :
    s'.closed i = s.closed i + if e.concludes i then 1 else 0 := by
  obtain ⟨w, -, rfl⟩ := Option.map_eq_some_iff.mp hstep
  rfl

theorem rank_le_of_step (hround : e.inRound = true) (hstep : s.step cfg e = some s') (m : Int) :
    s'.rank m ≤ s.rank m := by
  obtain ⟨w, hworker, rfl⟩ := Option.map_eq_some_iff.mp hstep
  rw [rank, rank, Prod.Lex.toLex_le_toLex]
  rcases Worker.size_of_inRound hround hworker with ⟨hprobing, hlength⟩ | ⟨hbefore, hafter⟩
  · refine Or.inr ⟨by rw [hprobing], ?_⟩
    simp only [hlength]
    exact Finset.sum_le_sum fun i _ => Nat.sub_le_sub_left (Nat.le_add_right _ _) _
  · exact Or.inl (by simp [hbefore, hafter])

theorem rank_lt_of_step (h' : Undisrupted cfg.maxRetries s')
    (hround : e.inRound = true) (hstep : s.step cfg e = some s') {i : Nat}
    (howned : s.worker.task.owns i = true) (hresult : e.concludes i = true) :
    s'.rank cfg.maxRetries < s.rank cfg.maxRetries := by
  have hroom : s.closed i < allowance cfg.maxRetries i := by
    have hspent := closed_of_step hstep i
    have hle := closed_le_allowance h' i
    rw [hspent, if_pos hresult] at hle
    omega
  obtain ⟨w, hworker, rfl⟩ := Option.map_eq_some_iff.mp hstep
  rw [rank, rank, Prod.Lex.toLex_lt_toLex]
  rcases Worker.size_of_inRound hround hworker with ⟨hprobing, hlength⟩ | ⟨hbefore, hafter⟩
  · refine Or.inr ⟨by rw [hprobing], ?_⟩
    simp only [hlength]
    refine Finset.sum_lt_sum (fun j _ => Nat.sub_le_sub_left (Nat.le_add_right _ _) _) ⟨i, ?_, ?_⟩
    · exact Finset.mem_range.mpr (Worker.lt_of_easy howned)
    · simp only [hresult, if_true]
      omega
  · exact Or.inl (by simp [hbefore, hafter])

end Tally

/-! ### The loop ends -/

theorem Event.inRound_of_callback {e : Event} (h : e.callback = true) : e.inRound = true := by
  cases e <;> simp_all [Event.callback, Event.inRound]

theorem Event.inRound_of_result {e : Event} (h : e.result = true) : e.inRound = true := by
  cases e <;> simp_all [Event.result, Event.inRound]

theorem Event.leftAlone_of_inRound {e : Event} (h : e.inRound = true) (s : Tally) : LeftAlone s e := by
  cases e with
  | performed multiOk built =>
      cases multiOk with
      | true => trivial
      | false => simp [Event.inRound] at h
  | _ => trivial

namespace Tally

variable {cfg : HttpConfig} {m : Int} {s t : Tally} {i : Nat}

/-- `t` comes behind `s` within a round: as well undisturbed, of no greater rank, and if part `i` is
open in `s` it is open in `t`. -/
structure Behind (cfg : HttpConfig) (i : Nat) (s t : Tally) : Prop where
  undisrupted : Undisrupted cfg.maxRetries t
  rank_le : t.rank cfg.maxRetries ≤ s.rank cfg.maxRetries
  owned : s.worker.task.owns i = true →
    t.worker.task.owns i = true ∨ t.rank cfg.maxRetries < s.rank cfg.maxRetries

theorem behind_self (h : Undisrupted cfg.maxRetries s) (i : Nat) : Behind cfg i s s :=
  ⟨h, le_rfl, Or.inl⟩

theorem Behind.trans {u : Tally} (h : Behind cfg i s t) (h' : Behind cfg i t u) : Behind cfg i s u where
  undisrupted := h'.undisrupted
  rank_le := h'.rank_le.trans h.rank_le
  owned howned := by
    rcases h.owned howned with hstill | hfell
    · exact (h'.owned hstill).imp_right fun hfell => hfell.trans_le h.rank_le
    · exact Or.inr (h'.rank_le.trans_lt hfell)

theorem behind_of_step (h : Undisrupted cfg.maxRetries s) {e : Event} (hround : e.inRound = true)
    (hstep : s.step cfg e = some t) : Behind cfg i s t ∧
      (e.concludes i = true → s.worker.task.owns i = true →
        t.rank cfg.maxRetries < s.rank cfg.maxRetries) := by
  have hafter : Undisrupted cfg.maxRetries t := h.step (Event.leftAlone_of_inRound hround s) hstep
  refine ⟨⟨hafter, rank_le_of_step hround hstep _, fun howned => ?_⟩, fun hresult howned =>
    rank_lt_of_step hafter hround hstep howned hresult⟩
  cases hresult : e.concludes i with
  | true => exact Or.inr (rank_lt_of_step hafter hround hstep howned hresult)
  | false =>
      obtain ⟨w, hworker, rfl⟩ := Option.map_eq_some_iff.mp hstep
      exact Or.inl (Worker.owns_of_inRound h.booked hround hworker howned hresult)

theorem behind_meet (h : Undisrupted cfg.maxRetries s) {e : Event} (hround : e.inRound = true) :
    Behind cfg i s (s.meet cfg e) := by
  rw [meet]
  cases hstep : s.step cfg e with
  | none => exact behind_self h i
  | some t => exact (behind_of_step h hround hstep).1

theorem behind_foldl (h : Undisrupted cfg.maxRetries s) {es : List Event}
    (hround : ∀ e ∈ es, e.inRound = true) : Behind cfg i s (es.foldl (meet cfg) s) := by
  induction es generalizing s with
  | nil => exact behind_self h i
  | cons e es ih =>
      have hmet : Behind cfg i s (s.meet cfg e) := behind_meet h (hround e List.mem_cons_self)
      exact hmet.trans (ih hmet.undisrupted fun e he => hround e (List.mem_cons_of_mem _ he))

theorem meet_phase_of_callback {e : Event} (he : e.callback = true) :
    (s.meet cfg e).worker.phase = s.worker.phase := by
  rw [meet]
  cases hstep : s.step cfg e with
  | none => rfl
  | some t =>
      obtain ⟨w, hworker, rfl⟩ := Option.map_eq_some_iff.mp hstep
      cases Worker.stepped_of_step hworker with
      | header | body => rfl
      | _ => simp [Event.callback] at he

theorem meet_phase_of_result {e : Event} (he : e.result = true) :
    (s.meet cfg e).worker.phase = s.worker.phase := by
  rw [meet]
  cases hstep : s.step cfg e with
  | none => rfl
  | some t =>
      obtain ⟨w, hworker, rfl⟩ := Option.map_eq_some_iff.mp hstep
      cases Worker.stepped_of_step hworker with
      | @message i rc httpCode built =>
          simp only [Option.getD_some, Worker.message]
          split_ifs <;> rfl
      | _ => simp [Event.result] at he

theorem foldl_meet_phase {es : List Event} (h : ∀ e ∈ es, ∀ s : Tally,
    (s.meet cfg e).worker.phase = s.worker.phase) :
    (es.foldl (meet cfg) s).worker.phase = s.worker.phase := by
  induction es generalizing s with
  | nil => rfl
  | cons e es ih =>
      rw [List.foldl_cons, ih fun e he => h e (List.mem_cons_of_mem _ he), h e List.mem_cons_self]

/-- The results of a round use up the rank if one of them is that of an open connection. -/
theorem rank_lt_of_results (h : Undisrupted cfg.maxRetries s) (hphase : s.worker.phase = .draining)
    (howned : s.worker.task.owns i = true) {es : List Event} (hresults : ∀ e ∈ es, e.result = true)
    (hended : ∃ e ∈ es, e.concludes i = true) :
    (es.foldl (meet cfg) s).rank cfg.maxRetries < s.rank cfg.maxRetries := by
  induction es generalizing s with
  | nil => simp at hended
  | cons e es ih =>
      have hresult := hresults e List.mem_cons_self
      have hrest : ∀ e ∈ es, e.result = true := fun e he => hresults e (List.mem_cons_of_mem _ he)
      have hmet : Behind cfg i s (s.meet cfg e) := behind_meet h (Event.inRound_of_result hresult)
      have hfold : Behind cfg i (s.meet cfg e) (es.foldl (meet cfg) (s.meet cfg e)) :=
        behind_foldl hmet.undisrupted fun e he => Event.inRound_of_result (hrest e he)
      rw [List.foldl_cons]
      by_cases hself : e.concludes i = true
      · -- the connection is open, so its end is taken
        refine hfold.rank_le.trans_lt ?_
        cases e with
        | message j rc httpCode built =>
            obtain rfl : j = i := by simpa [Event.concludes] using hself
            have hstep : s.step cfg (.message j rc httpCode built) =
                some (s.meet cfg (.message j rc httpCode built)) := by
              simp [meet, step, Worker.step, hphase, show (s.worker.task.ctx j).easy.isSome = true from howned]
            exact (behind_of_step h rfl hstep).2 hself howned
        | _ => simp [Event.result] at hresult
      · rcases hmet.owned howned with hstill | hfell
        · refine (ih hmet.undisrupted ((meet_phase_of_result hresult).trans hphase) hstill hrest ?_).trans_le
            hmet.rank_le
          obtain ⟨e', he', hconcludes⟩ := hended
          rcases List.mem_cons.mp he' with rfl | hmem
          · exact absurd hconcludes hself
          · exact ⟨e', hmem, hconcludes⟩
        · exact hfold.rank_le.trans_lt hfell

/-- **One round** comes back to the head of the loop, and the rank has fallen if the connection of an
open part ended. -/
theorem turn_spec (h : Undisrupted cfg.maxRetries s) (hphase : s.worker.phase = .performing)
    (r : LoopRound) (i : Nat) :
    Behind cfg i s (s.turn cfg r) ∧
      ((s.turn cfg r).worker.phase = .performing ∨ (s.turn cfg r).worker.phase = .leaving) ∧
      (s.worker.task.owns i = true → (∃ e ∈ r.ended, e.concludes i = true) →
        (s.turn cfg r).rank cfg.maxRetries < s.rank cfg.maxRetries) := by
  have hturn : s.turn cfg r = ((r.ended.foldl (meet cfg)
      ((r.traffic.foldl (meet cfg) s).meet cfg (.performed true r.built))).meet cfg .drained) := by
    simp [turn, LoopRound.events, List.foldl_append]
  have htraffic : Behind cfg i s (r.traffic.foldl (meet cfg) s) :=
    behind_foldl h fun e he => Event.inRound_of_callback (r.callbacks e he)
  have hcalled : (r.traffic.foldl (meet cfg) s).worker.phase = .performing :=
    (foldl_meet_phase fun e he _ => meet_phase_of_callback (r.callbacks e he)).trans hphase
  generalize r.traffic.foldl (meet cfg) s = called at hturn htraffic hcalled
  have hperformed : Behind cfg i called (called.meet cfg (.performed true r.built)) :=
    behind_meet htraffic.undisrupted rfl
  have hdraining : (called.meet cfg (.performed true r.built)).worker.phase = .draining := by
    simp [meet, step, Worker.step, hcalled]
  generalize called.meet cfg (.performed true r.built) = polled at hturn hperformed hdraining
  have hread : Behind cfg i polled (r.ended.foldl (meet cfg) polled) :=
    behind_foldl hperformed.undisrupted fun e he => Event.inRound_of_result (r.results e he)
  have hdrained : (r.ended.foldl (meet cfg) polled).worker.phase = .draining :=
    (foldl_meet_phase fun e he _ => meet_phase_of_result (r.results e he)).trans hdraining
  have hfell := fun howned hended =>
    rank_lt_of_results hperformed.undisrupted hdraining (i := i) howned r.results hended
  generalize r.ended.foldl (meet cfg) polled = read at hturn hread hdrained hfell
  have hback : Behind cfg i read (read.meet cfg .drained) := behind_meet hread.undisrupted rfl
  rw [hturn]
  refine ⟨htraffic.trans (hperformed.trans (hread.trans hback)), ?_, fun howned hended => ?_⟩
  · have hhead : (read.meet cfg .drained).worker = read.worker.maybeEmitResume.loopHead := by
      simp [meet, step, Worker.step, hdrained]
    rw [hhead]
    exact Worker.loopHead_phase _
  · refine hback.rank_le.trans_lt ?_
    rcases (htraffic.trans hperformed).owned howned with hstill | hbefore
    · exact (hfell hstill hended).trans_le (htraffic.trans hperformed).rank_le
    · exact hread.rank_le.trans_lt hbefore

end Tally

namespace Undisrupted

variable {cfg : HttpConfig} {s : Tally}

theorem loop (h : Undisrupted cfg.maxRetries s) (hphase : s.worker.phase = .performing)
    (rounds : Nat → LoopRound) (n : Nat) :
    Undisrupted cfg.maxRetries (s.loop cfg rounds n) ∧
      ((s.loop cfg rounds n).worker.phase = .performing ∨ (s.loop cfg rounds n).worker.phase = .leaving) := by
  induction n with
  | zero => exact ⟨h, Or.inl hphase⟩
  | succ n ih =>
      simp only [Tally.loop]
      split
      next hgoing =>
        obtain ⟨hbehind, hhead, -⟩ := Tally.turn_spec ih.1 hgoing (rounds n) 0
        exact ⟨hbehind.undisrupted, hhead⟩
      next => exact ih

/-- **The loop is left**, if the connections end: every end uses up the rank, and while the loop goes
round a connection is open. -/
theorem exists_leaving (h : Undisrupted cfg.maxRetries s) (hphase : s.worker.phase = .performing)
    {rounds : Nat → LoopRound} (hends : ConnectionsEnd rounds) :
    ∃ n, (s.loop cfg rounds n).worker.phase = .leaving := by
  have hgoing : ∀ n, (s.loop cfg rounds n).worker.phase ≠ .leaving →
      (s.loop cfg rounds n).worker.phase = .performing := fun n hn =>
    (h.loop hphase rounds n).2.resolve_right hn
  have hturn : ∀ n, (s.loop cfg rounds n).worker.phase ≠ .leaving →
      s.loop cfg rounds (n + 1) = (s.loop cfg rounds n).turn cfg (rounds n) := fun n hn => by
    rw [Tally.loop, if_pos (hgoing n hn)]
  refine exists_of_rank (fun n => (s.loop cfg rounds n).rank cfg.maxRetries) (fun n hn => ?_) fun n hn => ?_
  · simp only [hturn n hn]
    exact (Tally.turn_spec (h.loop hphase rounds n).1 (hgoing n hn) (rounds n) 0).1.rank_le
  · -- some part is open here, and stays open until its end is reported
    by_contra hnever
    push Not at hnever
    have hlooping : (s.loop cfg rounds n).worker.phase.looping = true := by rw [hgoing n hn]; rfl
    obtain ⟨i, hi⟩ : (s.loop cfg rounds n).worker.task.owners.Nonempty := by
      have hactive := (h.loop hphase rounds n).1.booked.active hlooping
      have hpositive := (h.loop hphase rounds n).1.going (hgoing n hn)
      rw [← Finset.card_pos]
      omega
    have hopen : ∀ d, (s.loop cfg rounds (n + d)).worker.task.owns i = true := by
      intro d
      induction d with
      | zero => exact mem_owners.mp hi
      | succ d ih =>
          obtain ⟨hstays, hfalls⟩ := hnever (n + d) (Nat.le_add_right n d)
          have hbehind := (Tally.turn_spec (h.loop hphase rounds _).1 (hgoing _ hstays) (rounds (n + d)) i).1
          rw [← hturn _ hstays] at hbehind
          exact (hbehind.owned ih).resolve_right hfalls.not_gt
    obtain ⟨k, hk, e, he, hconcludes⟩ := hends i n
    obtain ⟨hstays, hfalls⟩ := hnever k hk
    have hspec := (Tally.turn_spec (h.loop hphase rounds _).1 (hgoing _ hstays) (rounds k) i).2.2
    rw [← hturn _ hstays] at hspec
    obtain ⟨d, rfl⟩ := Nat.exists_eq_add_of_le hk
    exact hfalls.not_gt (hspec (hopen d) ⟨e, he, hconcludes⟩)

end Undisrupted

/-- The connections are bounded, every result is that of a connection, the active ones are the open
ones; the loop is left at its head exactly when none is open or the task failed, and it is left if the
connections end; and once it has returned without an error of its own no part is left behind. -/
structure WindsUp (cfg : HttpConfig) (s : Tally) : Prop where
  head : (s.opened 0 : Int) ≤ 2 * cfg.maxRetries + 2
  others : ∀ i, i ≠ 0 → (s.opened i : Int) ≤ cfg.maxRetries + 1
  results : ∀ i, s.closed i ≤ s.opened i
  active : s.worker.phase.looping = true → s.worker.active = s.worker.task.owners.card
  leaves : ∀ e w, e.atHead = true → s.worker.step cfg e = some w → (w.phase = .leaving ↔
    w.active ≤ 0 ∨ w.task.cancelReq = true ∨ w.task.pauseReq = true ∨ w.task.failed = true)
  ends : s.worker.phase = .performing → ∀ rounds, ConnectionsEnd rounds →
    ∃ n, (s.loop cfg rounds n).worker.phase = .leaving
  complete : s.worker.phase = .leaving → s.worker.task.failed = false →
    s.worker.spawned = s.worker.leave.task.parts.length ∧
      ∀ p ∈ s.worker.leave.task.parts, p.status = .completed ∨ p.status = .error

theorem Undisrupted.windsUp {cfg : HttpConfig} {s : Tally} (h : Undisrupted cfg.maxRetries s) :
    WindsUp cfg s where
  head := (h.spending.budget 0).bound.1 rfl
  others i := (h.spending.budget i).bound.2.1
  results i := (h.spending.budget i).bound.2.2
  active := h.booked.active
  leaves _ _ hhead hstep := Worker.leaving_iff_of_atHead h.uncancelled h.unpaused hhead hstep
  ends hphase _ hends := h.exists_leaving hphase hends
  complete hphase hfailed := by
    obtain ⟨hall, hidle⟩ := h.left hphase hfailed
    have hlooping : s.worker.phase.looping = true := by rw [hphase]; rfl
    have hparts : s.worker.leave.task.parts = s.worker.task.parts :=
      aggregateStatus_parts (Worker.cleanupAll s.worker.task)
    rw [hparts]
    refine ⟨hall.trans h.booked.ctxs, fun p hp => ?_⟩
    obtain ⟨i, hi, rfl⟩ := List.getElem_of_mem hp
    have hnone : s.worker.task.owners = ∅ := by
      rw [← Finset.card_eq_zero]
      have := h.booked.active hlooping
      omega
    have hfree : s.worker.task.owns i = false := by
      cases howned : s.worker.task.owns i with
      | true => simpa [hnone] using mem_owners.mpr howned
      | false => rfl
    have hended := h.booked.ended hlooping h.uncancelled h.unpaused i
      (by rw [hall, h.booked.ctxs]; exact hi) hfree
    rw [TaskCtx.ended, part_eq_getElem hi] at hended
    exact hended

/-- **The event loop ends and leaves no part behind**, whatever the connections answer. -/
theorem windsUp_of_reaches {cfg : HttpConfig} (hretries : 0 ≤ cfg.maxRetries)
    {url clientId savePath : String} {fs : Fs} {granted : Bool} {s : Tally}
    (hrun : Reaches (Tally.step cfg) LeftAlone
      { worker := startWorker url clientId savePath none fs granted } s) : WindsUp cfg s :=
  (hrun.invariant (fun _ _ _ h hok hstep => h.step hok hstep)
    (undisrupted_startWorker hretries url clientId savePath fs granted)).windsUp

def retriedRun : List Event :=
  [.enter true fun _ => true, .performed true fun _ => true, .message 0 .recvError 0 true, .drained,
    .header 0 "HTTP/1.1 200 OK\r\n", .header 0 "Content-Length: 3\r\n", .body 0 [1, 2, 3] grantAll,
    .performed true fun _ => true, .message 0 .ok 200 true, .drained]

def lostRound (n : Nat) : LoopRound where
  traffic := []
  callbacks := by simp
  built _ := true
  ended := (List.range (n + 1)).map fun i => .message i .recvError 0 true
  results := by simp [Event.result]

theorem connectionsEnd_lostRound : ConnectionsEnd lostRound := fun i n =>
  ⟨max i n, le_max_right i n, .message i .recvError 0 true,
    List.mem_map_of_mem (List.mem_range.mpr (Nat.lt_succ_of_le (le_max_left i n))),
    decide_eq_true rfl⟩

theorem windsUp_of_reaches_retriedRun :
    (∃ s, s.worker.phase = .leaving ∧ s.opened 0 = 2 ∧ WindsUp plainCfg s) ∧
      ∃ s : Tally, s.worker.phase = .performing ∧ s.worker.active = 1 ∧
        ∃ n, (s.loop plainCfg lostRound n).worker.phase = .leaving := by
  have hplayed : ∀ (es : List Event) (values : Phase × Int × Nat), ((play (Tally.step plainCfg) LeftAlone
      { worker := startWorker "http://h/f.bin" "c" "/d" none emptyFs true } es).map fun s =>
        (s.worker.phase, s.worker.active, s.opened 0)) = some values →
      ∃ s, (s.worker.phase, s.worker.active, s.opened 0) = values ∧ WindsUp plainCfg s := by
    intro es values hplay
    obtain ⟨s, hrun, hvalues⟩ := Option.map_eq_some_iff.mp hplay
    exact ⟨s, hvalues, windsUp_of_reaches (by decide) (reaches_of_play hrun)⟩
  constructor
  · obtain ⟨s, hvalues, hs⟩ := hplayed retriedRun (Phase.leaving, 0, 2) (by decide +kernel)
    simp only [Prod.mk.injEq] at hvalues
    exact ⟨s, hvalues.1, hvalues.2.2, hs⟩
  · obtain ⟨s, hvalues, hs⟩ := hplayed (retriedRun.take 4) (Phase.performing, 1, 2) (by decide +kernel)
    simp only [Prod.mk.injEq] at hvalues
    exact ⟨s, hvalues.1, hvalues.2.1, hs.ends hvalues.1 lostRound connectionsEnd_lostRound⟩

end DownloadWrapper
