import DownloadWrapper.Http.Beside
import DownloadWrapper.Http.PartInvariant
import DownloadWrapper.Http.Retained
import DownloadWrapper.Lib.Checked

/-!
# The split of a 206 answer

What finalizing the probe leaves when the server can serve ranges: parts that partition the file,
numbered in order, each with the connection of its number, and part 0 wide enough for the probe
window. The source computes the split in `int64_t` and `int32_t`; no step of it leaves these types or
divides by zero.
-/

namespace DownloadWrapper

open Tiling TaskCtx Checked

/-- `splitPlan` as the source computes it: sizes are `int64_t`, part counts `int32_t`. -/
def splitPlanChecked (cfg : HttpConfig) (total : Int) : Option SplitPlan := do
  let wantParts := if cfg.minSizeForSplit ≤ total ∧ 1 < cfg.defaultParts then cfg.defaultParts else 1
  let part0Size ← (if 1 < wantParts then
      (div 64 total wantParts).map fun share => max share (min probeWindowBytes total)
    else some total)
  let wantParts ← (if 1 < wantParts then
      (sub 64 total part0Size).bind fun rest =>
        if rest ≤ 0 then some 1
        else (sub 32 wantParts 1).map fun tails => if rest < tails then 2 else wantParts
    else some wantParts)
  let part0Size := if wantParts = 1 then total else part0Size
  let chunk ← (if 1 < wantParts then
      (sub 64 total part0Size).bind fun rest => (sub 32 wantParts 1).bind fun tails => div 64 rest tails
    else some 0)
  some { wantParts := wantParts, part0Size := part0Size, chunk := chunk }

def headPartChecked (plan : SplitPlan) (total : Int) : Option PartState := do
  let endByte ← (if 0 < total then sub 64 plan.part0Size 1 else some (-1))
  let size ← (if 0 ≤ endByte then add 64 endByte 1 else some 0)
  some { index := 0, start := 0, endByte := endByte, size := size, done := 0 }

def tailPartChecked (plan : SplitPlan) (total : Int) (i : Int) : Option PartState := do
  let before ← sub 32 i 1
  let offset ← mul 64 plan.chunk before
  let start ← add 64 plan.part0Size offset
  let lastIndex ← sub 32 plan.wantParts 1
  let endByte ← (if i = lastIndex then sub 64 total 1
    else (add 64 start plan.chunk).bind fun stop => sub 64 stop 1)
  let size ← (if start ≤ endByte then (sub 64 endByte start).bind fun width => add 64 width 1
    else some 0)
  some { index := i, start := start, endByte := endByte, size := size, done := 0 }

/-- The loop over the parts behind part 0, its counter an `int32_t`. -/
def tailPartsChecked (plan : SplitPlan) (total : Int) : Option (List PartState) :=
  (List.range (plan.wantParts - 1).toNat).mapM fun k : Nat =>
    (add 32 k 1).bind (tailPartChecked plan total)

def splitPartsChecked (cfg : HttpConfig) (total : Int) : Option (List PartState) := do
  let plan ← splitPlanChecked cfg total
  let head ← headPartChecked plan total
  let tails ← tailPartsChecked plan total
  some (head :: tails)

theorem splitPlanChecked_eq (cfg : HttpConfig) {total : Int} (htotal : 0 < total)
    (hint64 : InRange 64 total) (hint32 : InRange 32 cfg.defaultParts) :
    splitPlanChecked cfg total = some (splitPlan cfg total) := by
  rw [inRange_64] at hint64
  rw [inRange_32] at hint32
  by_cases hsplit : cfg.minSizeForSplit ≤ total ∧ 1 < cfg.defaultParts
  · obtain ⟨share, hshare⟩ : ∃ share, share = total / cfg.defaultParts := ⟨_, rfl⟩
    have hdiv : div 64 total cfg.defaultParts = some share :=
      hshare ▸ div_eq htotal.le (by omega) (inRange_64.mpr hint64)
    have hle : share ≤ total := hshare ▸ Int.ediv_le_self _ htotal.le
    have hnonneg : 0 ≤ share := hshare ▸ Int.ediv_nonneg htotal.le (by omega)
    obtain ⟨part0, hpart0⟩ : ∃ part0, part0 = max share (min probeWindowBytes total) := ⟨_, rfl⟩
    have hbounds : 0 ≤ part0 ∧ part0 ≤ total := by
      simp only [probeWindowBytes] at hpart0
      omega
    have hrest : sub 64 total part0 = some (total - part0) := sub_eq (inRange_64.mpr (by omega))
    have htails : sub 32 cfg.defaultParts 1 = some (cfg.defaultParts - 1) :=
      sub_eq (inRange_32.mpr (by omega))
    have hchunk : ∀ parts : Int, 1 < parts → parts ≤ cfg.defaultParts →
        div 64 (total - part0) (parts - 1) = some ((total - part0) / (parts - 1)) :=
      fun parts _ _ => div_eq (by omega) (by omega) (inRange_64.mpr (by omega))
    by_cases hempty : total - part0 ≤ 0
    · simp [splitPlanChecked, splitPlan, hsplit, hdiv, ← hshare, ← hpart0, hrest, htails, hempty]
    by_cases hfew : total - part0 < cfg.defaultParts - 1
    · have htwo : sub 32 2 1 = some 1 := rfl
      have hlast : div 64 (total - part0) 1 = some ((total - part0) / 1) := hchunk 2 (by omega) hsplit.2
      simp [splitPlanChecked, splitPlan, hsplit, hdiv, ← hshare, ← hpart0, hrest, htails, hempty, hfew,
        htwo, hlast]
    · have hne : cfg.defaultParts ≠ 1 := by omega
      simp [splitPlanChecked, splitPlan, hsplit, hdiv, ← hshare, ← hpart0, hrest, htails, hempty, hfew,
        hne, hchunk cfg.defaultParts hsplit.2 le_rfl]
  · simp [splitPlanChecked, splitPlan, hsplit]

theorem headPartChecked_eq {plan : SplitPlan} {total : Int} (htotal : 0 < total)
    (hfits : plan.Fits total) (hle : plan.part0Size ≤ total) (hint64 : InRange 64 total) :
    headPartChecked plan total = some (headPart plan total) := by
  have hpos := hfits.part0Size_pos
  rw [inRange_64] at hint64
  have hend : sub 64 plan.part0Size 1 = some (plan.part0Size - 1) :=
    sub_eq (inRange_64.mpr (by omega))
  have hsize : add 64 (plan.part0Size - 1) 1 = some (plan.part0Size - 1 + 1) :=
    add_eq (inRange_64.mpr (by omega))
  simp [headPartChecked, headPart, htotal, hend, hsize, hpos]

theorem tailPartChecked_eq {plan : SplitPlan} {total : Int} (hfits : plan.Fits total)
    (hint64 : InRange 64 total) (hint32 : InRange 32 plan.wantParts) {i : Nat} (hlow : 1 ≤ i)
    (hhigh : (i : Int) < plan.wantParts) :
    tailPartChecked plan total i = some (tailPart plan total i) := by
  rw [inRange_64] at hint64
  rw [inRange_32] at hint32
  have hmany : 1 < plan.wantParts := by omega
  have hpos := hfits.part0Size_pos
  have hchunk := hfits.chunk_pos hmany
  have hlast := hfits.last_pos hmany
  obtain ⟨offset, hoffset⟩ : ∃ offset, offset = plan.chunk * ((i : Int) - 1) := ⟨_, rfl⟩
  have hnonneg : 0 ≤ offset := hoffset ▸ mul_nonneg (by omega) (by omega)
  have hle : offset ≤ plan.chunk * (plan.wantParts - 2) :=
    hoffset ▸ mul_le_mul_of_nonneg_left (by omega) (by omega)
  have hbefore : sub 32 i 1 = some ((i : Int) - 1) := sub_eq (inRange_32.mpr (by omega))
  have hmul : mul 64 plan.chunk ((i : Int) - 1) = some offset :=
    hoffset ▸ mul_eq (inRange_64.mpr (by rw [← hoffset]; omega))
  have hstart : add 64 plan.part0Size offset = some (plan.part0Size + offset) :=
    add_eq (inRange_64.mpr (by omega))
  have hindex : sub 32 plan.wantParts 1 = some (plan.wantParts - 1) :=
    sub_eq (inRange_32.mpr (by omega))
  have hwidth : ∀ endByte : Int, endByte < total → plan.part0Size + offset ≤ endByte →
      (sub 64 endByte (plan.part0Size + offset)).bind (fun width => add 64 width 1)
        = some (endByte - (plan.part0Size + offset) + 1) := fun endByte _ _ => by
    rw [sub_eq (inRange_64.mpr (by omega)), Option.bind_some, add_eq (inRange_64.mpr (by omega))]
  by_cases hend : (i : Int) = plan.wantParts - 1
  · have hstop : sub 64 total 1 = some (total - 1) := sub_eq (inRange_64.mpr (by omega))
    have hroom : plan.part0Size + offset ≤ total - 1 := by omega
    simp only [tailPartChecked, tailPart, hbefore, hmul, hstart, hindex, if_pos hend, hstop,
      if_pos hroom, hwidth (total - 1) (by omega) hroom, ← hoffset, Option.bind_eq_bind, Option.bind_some]
  · have hnext : offset + plan.chunk ≤ plan.chunk * (plan.wantParts - 2) := by
      calc offset + plan.chunk = plan.chunk * i := by rw [hoffset]; ring
        _ ≤ plan.chunk * (plan.wantParts - 2) := mul_le_mul_of_nonneg_left (by omega) (by omega)
    have hsum : add 64 (plan.part0Size + offset) plan.chunk
        = some (plan.part0Size + offset + plan.chunk) := add_eq (inRange_64.mpr (by omega))
    have hstop : sub 64 (plan.part0Size + offset + plan.chunk) 1
        = some (plan.part0Size + offset + plan.chunk - 1) := sub_eq (inRange_64.mpr (by omega))
    have hroom : plan.part0Size + offset ≤ plan.part0Size + offset + plan.chunk - 1 := by omega
    simp only [tailPartChecked, tailPart, hbefore, hmul, hstart, hindex, if_neg hend, hsum, hstop,
      if_pos hroom, hwidth _ (by omega) hroom, ← hoffset, Option.bind_eq_bind, Option.bind_some]

theorem tailPartsChecked_eq {plan : SplitPlan} {total : Int} (hfits : plan.Fits total)
    (hint64 : InRange 64 total) (hint32 : InRange 32 plan.wantParts) :
    tailPartsChecked plan total = some (tailParts plan total) := by
  have hround : ∀ k ∈ List.range (plan.wantParts - 1).toNat,
      (add 32 k 1).bind (tailPartChecked plan total) = some (tailPart plan total (k + 1)) := by
    intro k hk
    have hlt : k < (plan.wantParts - 1).toNat := List.mem_range.mp hk
    have hnext : add 32 k 1 = some ((k + 1 : Nat) : Int) := by
      rw [inRange_32] at hint32
      exact add_eq (inRange_32.mpr (by omega))
    rw [hnext, Option.bind_some]
    exact tailPartChecked_eq hfits hint64 hint32 (by omega) (by omega)
  exact mapM_eq_some hround

/-! ### What the plan promises -/

theorem splitPlan_wantParts_le (cfg : HttpConfig) (total : Int) :
    (splitPlan cfg total).wantParts ≤ max 1 cfg.defaultParts := by
  simp only [splitPlan]
  split_ifs <;> omega

theorem splitPlan_window (cfg : HttpConfig) (total : Int) :
    min probeWindowBytes total ≤ (splitPlan cfg total).part0Size := by
  simp only [splitPlan]
  split_ifs <;> omega

theorem SplitPlan.Fits.part0Size_le {plan : SplitPlan} {total : Int} (h : plan.Fits total) :
    plan.part0Size ≤ total := by
  by_cases hmany : 1 < plan.wantParts
  · have hlast := h.last_pos hmany
    have hoffset : 0 ≤ plan.chunk * (plan.wantParts - 2) :=
      mul_nonneg (by have := h.chunk_pos hmany; omega) (by omega)
    omega
  · have hone := h.wantParts_pos
    exact (h.single (by omega)).le

/-- **No step of the split leaves its machine type or divides by zero.** -/
theorem splitPartsChecked_eq (cfg : HttpConfig) {total : Int} (htotal : 0 < total)
    (hint64 : InRange 64 total) (hint32 : InRange 32 cfg.defaultParts) :
    splitPartsChecked cfg total =
      some (headPart (splitPlan cfg total) total :: tailParts (splitPlan cfg total) total) := by
  have hfits := splitPlan_fits cfg htotal
  have hwant : InRange 32 (splitPlan cfg total).wantParts := by
    have hle := splitPlan_wantParts_le cfg total
    have hpos := hfits.wantParts_pos
    rw [inRange_32] at hint32 ⊢
    omega
  rw [splitPartsChecked, splitPlanChecked_eq cfg htotal hint64 hint32, Option.bind_eq_bind,
    Option.bind_some, headPartChecked_eq htotal hfits hfits.part0Size_le hint64, Option.bind_eq_bind,
    Option.bind_some, tailPartsChecked_eq hfits hint64 hwant]
  rfl

theorem getElem_tailParts_index (plan : SplitPlan) (total : Int) {k : Nat}
    (hk : k < (tailParts plan total).length) : (tailParts plan total)[k].index = k + 1 := by
  simp [tailParts, tailPart]

namespace TaskCtx

theorem Numbered.splitParts (cfg : HttpConfig) {t : TaskCtx} (h : t.Numbered)
    (hone : t.partCtx.length = 1) : (t.splitParts cfg).Numbered := by
  obtain ⟨c, hc⟩ := List.length_eq_one_iff.mp hone
  have hindex : c.index = 0 := by
    have := h 0 (by omega)
    simpa [ctx, hc] using this
  intro j hj
  cases j with
  | zero => simp [ctx, TaskCtx.splitParts, hc, hindex]
  | succ k =>
      have hk : k < (tailParts (splitPlan cfg t.totalSize) t.totalSize).length := by
        simp only [TaskCtx.splitParts, hc] at hj
        simpa using hj
      have := getElem_tailParts_index _ _ hk
      simp [ctx, TaskCtx.splitParts, hc, hk, this]

theorem Numbered.layOut (cfg : HttpConfig) {t : TaskCtx} (code : Int) (h : t.Numbered)
    (hone : t.partCtx.length = 1) : (t.layOut cfg code).Numbered := by
  rw [TaskCtx.layOut]
  split
  · exact h.splitParts cfg hone
  · exact h

theorem Numbered.probed (cfg : HttpConfig) (env : WriteEnv) (fs : Fs) {t : TaskCtx} (i : Nat)
    (h : t.Numbered) (hone : t.probing = true → t.partCtx.length = 1) :
    (DownloadWrapper.probed cfg env fs t i).1.Numbered := by
  rw [DownloadWrapper.probed]
  split
  next hprobing =>
    rcases finalizeProbing_cases cfg env.probe fs t i with ⟨message, heq⟩ | heq
    · rw [heq]
      exact h
    · rw [heq]
      exact layOut cfg (t := (acquirePath env.probe fs (t.settleProbe env.probe.urlLib i)).1) _ h
        (hone hprobing)
  next => exact h

end TaskCtx

/-! ### Every run -/

theorem numbered_spawnNewParts {w : Worker} (h : w.task.Numbered) (built : Nat → Bool) :
    (w.spawnNewParts built).task.Numbered := by
  refine Worker.spawnNewParts_induction (P := fun v => v.task.Numbered) built (fun v i hv => ?_) h
  simp only [Worker.spawnPart]
  split
  · exact hv
  · exact hv.addPart _

theorem numbered_maybeEmitResume {w : Worker} (h : w.task.Numbered) :
    w.maybeEmitResume.task.Numbered := by
  obtain ⟨emitDone, heq⟩ := Worker.maybeEmitResume_task w
  rw [heq]
  exact h

theorem numbered_step {cfg : HttpConfig} {w w' : Worker} (h : w.task.Numbered)
    (hone : w.task.probing = true → w.task.partCtx.length = 1) {e : Event}
    (hstep : w.step cfg e = some w') : w'.task.Numbered := by
  cases Worker.stepped_of_step hstep with
  | @enter multiOk built hphase =>
      simp only [Worker.enter]
      split
      · exact h
      split
      · exact numbered_maybeEmitResume (w := w.modifyTask fun t => { t with status := .paused }) h
      split
      · exact h
      · rw [Worker.loopHead_task]
        exact numbered_spawnNewParts h built
  | @header i line hphase hlive =>
      have hline := h.of_retained (.headerCb w.task i line)
      simp only [Worker.header]
      split
      · exact hline
      · exact hline.of_retained (.abortEasy _ i)
  | @body i data env hphase hlive =>
      have hchunk : (writeCb cfg env w.fs w.task i data).task.Numbered :=
        (Retained.writeCb cfg env w.fs w.task i data).elim h.of_retained
          (h.probed cfg env w.fs i hone).of_retained
      simp only [Worker.body]
      split
      · exact hchunk
      · exact hchunk.of_retained (.abortEasy _ i)
  | performed hphase => exact numbered_spawnNewParts h _
  | multiFailed hphase => exact h
  | @message i rc httpCode built hphase heasy =>
      have hdrop : (Worker.dropEasy w.task i).Numbered := h.modifyCtx fun _ => rfl
      have hresult := hdrop.handlePartResult cfg (i := i) rc httpCode
      simp only [Worker.message]
      split
      · exact hdrop
      split
      · exact hresult.addPart built
      · exact hresult
  | drained hphase =>
      rw [Worker.loopHead_task]
      exact numbered_maybeEmitResume h
  | raised hphase => exact h
  | raisedLate hphase => exact h
  | leave hphase =>
      have hcleanup : (Worker.cleanupAll w.task).Numbered := h.mapCtx fun _ => rfl
      exact hcleanup.of_retained (.of_eq (aggregateStatus_partCtx _) (aggregateStatus_parts _))
  | close hphase =>
      simp only [Worker.close]
      split
      · exact h.mapCtx fun _ => rfl
      split
      · exact numbered_maybeEmitResume h
      · exact h
  | exit hphase =>
      simp only [Worker.exit]
      split <;> exact h
  | pauseRequest | deleteRequest | shutdown => exact h

theorem numbered_of_started {fixed : Bool} {w : Worker} (h : Started fixed w) : w.task.Numbered := by
  have hstart : ∀ (url clientId savePath : String) (archive : Option Archive) (fs : Fs)
      (granted : Bool), (startWorker url clientId savePath archive fs granted).task.Numbered := by
    intro url clientId savePath archive fs granted j hj
    simp only [startWorker] at hj ⊢
    rcases startFrom_cases url clientId savePath archive fs granted with heq | ⟨a, -, -, -, -, heq⟩
    · rw [heq] at hj ⊢
      have hzero : j = 0 := by simpa [taskCreateNew] using hj
      rw [hzero]
      rfl
    · rw [heq] at hj ⊢
      have hj' : j < (deserializeResume a).parts.length := by simpa [continueFrom] using hj
      simp [ctx, continueFrom, hj']
  induction h with
  | fresh url clientId savePath fs => exact hstart url clientId savePath none fs true
  | step cfg e hbefore hstep ih =>
      exact numbered_step ih (fun hp => ((sound_of_started hbefore).probing hp).1.ctxs) hstep
  | restored url clientId savePath fs granted => exact hstart url clientId savePath _ fs granted

/-! ### The answer to the probe -/

/-- The parts a 206 answer leaves partition the file, each part with the connection of its number,
and their computation never left the source's types. -/
structure ExactSplit (cfg : HttpConfig) (t : TaskCtx) : Prop where
  count : (t.parts.length : Int) ≤ max 1 cfg.defaultParts
  numbers : ∀ j (hj : j < t.parts.length), t.parts[j].index = j
  tiles : Tiles (t.parts.map fun p => (p.start, p.endByte)) 0 t.totalSize
  sized : ∀ p ∈ t.parts, p.size = p.endByte - p.start + 1
  sum : (t.parts.map PartState.size).sum = t.totalSize
  window : (t.part 0).start = 0 ∧ min (1024 * 1024) t.totalSize ≤ (t.part 0).size
  ctxs : t.partCtx.length = t.parts.length
  ctxNumbers : ∀ j (hj : j < t.partCtx.length), t.partCtx[j].index = j
  computed : splitPartsChecked cfg t.totalSize = some t.parts

theorem exactSplit_splitParts (cfg : HttpConfig) {t : TaskCtx} (hunprobed : t.Unprobed)
    (hnumbered : t.Numbered) (htotal : 0 < t.totalSize) (hint64 : InRange 64 t.totalSize)
    (hint32 : InRange 32 cfg.defaultParts) : ExactSplit cfg (t.splitParts cfg) := by
  obtain ⟨p, hp, -⟩ := hunprobed.parts
  have hparts : (t.splitParts cfg).parts
      = headPart (splitPlan cfg t.totalSize) t.totalSize :: tailParts (splitPlan cfg t.totalSize) t.totalSize := by
    simp [splitParts, hp]
  have hlaid := split_laid cfg htotal
  rw [← hparts] at hlaid
  have hhead := headPart_extent htotal (splitPlan_fits cfg htotal)
  have hzero : (t.splitParts cfg).part 0 = headPart (splitPlan cfg t.totalSize) t.totalSize := by
    simp [part, hparts]
  refine ⟨?_, ?_, ?_, fun q hq => hlaid.sized _ (List.mem_map_of_mem hq), ?_, ?_, ?_, ?_, ?_⟩
  · have hle := splitPlan_wantParts_le cfg t.totalSize
    have hpos := (splitPlan_fits cfg htotal).wantParts_pos
    rw [hparts]
    simp only [tailParts, List.length_cons, List.length_map, List.length_range]
    omega
  · intro j hj
    simp only [hparts] at hj ⊢
    cases j with
    | zero => rfl
    | succ k =>
        rw [List.getElem_cons_succ, getElem_tailParts_index]
        rfl
  · have htiles := hlaid.tiles
    rw [List.map_map] at htiles
    exact htiles
  · have hsum := hlaid.sum_size
    rw [List.map_map] at hsum
    exact hsum
  · have hstart := congrArg Extent.start hhead
    have hsize := congrArg Extent.size hhead
    simp only [PartState.extent] at hstart hsize
    rw [hzero, hstart, hsize]
    exact ⟨rfl, splitPlan_window cfg t.totalSize⟩
  · simp [splitParts, hunprobed.ctxs, hp, Nat.add_comm]
  · intro j hj
    have hindex := hnumbered.splitParts cfg hunprobed.ctxs j hj
    simpa [ctx, hj] using hindex
  · rw [hparts]
    exact splitPartsChecked_eq cfg htotal hint64 hint32

/-- **A 206 answer to the probe is an exact partition**, in every run, for every total, number of
parts and minimum size of the source's types. -/
theorem finalizeProbing_exactSplit {fixed : Bool} {w : Worker} (h : Started fixed w)
    (hprobing : w.task.probing = true) (cfg : HttpConfig) (env : ProbeEnv) (i : Nat)
    (hcode : (w.task.ctx i).seenHttpCode = 206)
    (hok : (finalizeProbing cfg env w.fs w.task i).1.failed = false)
    (htotal : 0 < (finalizeProbing cfg env w.fs w.task i).1.totalSize)
    (hint64 : InRange 64 (finalizeProbing cfg env w.fs w.task i).1.totalSize)
    (hint32 : InRange 32 cfg.defaultParts) :
    ExactSplit cfg (finalizeProbing cfg env w.fs w.task i).1 := by
  have hunprobed := ((sound_of_started h).probing hprobing).1
  have hnumbered := numbered_of_started h
  obtain ⟨total, name, path, hacquired⟩ := acquirePath_settleProbe env w.fs w.task i
  rcases finalizeProbing_cases cfg env w.fs w.task i with ⟨message, heq⟩ | heq
  · rw [heq] at hok
    simp [failed, fail] at hok
  · rw [heq, hacquired, hcode] at htotal hint64 ⊢
    rw [layOut_totalSize] at htotal hint64
    exact exactSplit_splitParts cfg ⟨hunprobed.extents, hunprobed.ctxs, hunprobed.supportRange⟩
      hnumbered htotal hint64 hint32

def probedRun : List Event :=
  [.enter true fun _ => true, .header 0 "HTTP/1.1 206 Partial Content\r\n",
    .header 0 "Content-Range: bytes 0-1048575/3145728\r\n"]

theorem finalizeProbing_exactSplit_probedRun :
    ∃ w, Started false w ∧
      ExactSplit plainCfg (finalizeProbing plainCfg grantAll.probe w.fs w.task 0).1 := by
  obtain ⟨played, hplayed⟩ : ∃ played, played = Transition.play (stepFixed plainCfg) Transition.anyEvent
      (false, startWorker "http://h/f.bin" "c" "/d" none emptyFs true) probedRun := ⟨_, rfl⟩
  have hvalues : (played.map fun s => (s.1, s.2.task.probing, (s.2.task.ctx 0).seenHttpCode,
      (finalizeProbing plainCfg grantAll.probe s.2.fs s.2.task 0).1.failed)) =
        some (false, true, 206, false) := by
    rw [hplayed]
    decide +kernel
  have htotal : (played.map fun s =>
      (finalizeProbing plainCfg grantAll.probe s.2.fs s.2.task 0).1.totalSize) = some 3145728 := by
    rw [hplayed]
    decide +kernel
  obtain ⟨⟨fixed, w⟩, hrun, hw⟩ := Option.map_eq_some_iff.mp hvalues
  rw [hrun, Option.map_some, Option.some.injEq] at htotal
  simp only [Prod.mk.injEq] at hw htotal
  obtain ⟨hfixed, hprobing, hcode, hok⟩ := hw
  have hstarted : Started fixed w := Started.of_reaches
    (.fresh "http://h/f.bin" "c" "/d" emptyFs) (Transition.reaches_of_play (hplayed ▸ hrun))
  rw [hfixed] at hstarted
  exact ⟨w, hstarted, finalizeProbing_exactSplit hstarted hprobing plainCfg grantAll.probe 0 hcode hok
    (by rw [htotal]; decide) (by rw [htotal]; decide) (by decide)⟩

end DownloadWrapper
