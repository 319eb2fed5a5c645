import DownloadWrapper.Http.Frame
import DownloadWrapper.Lib.Tiling

/-!
# The layout of a sized download

Finalizing the probe with a positive total lays the parts out as a tiling of the file, each with as
many bytes as its interval is long and none of them done. A write then moves one count forward,
inside that part's interval.
-/

namespace DownloadWrapper

open Tiling

def Extent.range (e : Extent) : Int × Int := (e.start, e.endByte)

structure Laid (extents : List Extent) (total : Int) : Prop where
  tiles : Tiles (extents.map Extent.range) 0 total
  sized : ∀ e ∈ extents, e.size = e.endByte - e.start + 1
  counted : ∀ e ∈ extents, 0 ≤ e.done ∧ e.done ≤ e.size

theorem Laid.bounds {extents : List Extent} {total : Int} (h : Laid extents total) {e : Extent}
    (he : e ∈ extents) : 0 ≤ e.start ∧ e.start ≤ e.endByte ∧ e.endByte < total :=
  h.tiles.mem_range (List.mem_map_of_mem he)

theorem Laid.size_pos {extents : List Extent} {total : Int} (h : Laid extents total) {e : Extent}
    (he : e ∈ extents) : 0 < e.size := by
  have hbounds := h.bounds he
  have hsized := h.sized e he
  omega

theorem Laid.sum_size {extents : List Extent} {total : Int} (h : Laid extents total) :
    (extents.map Extent.size).sum = total := by
  have hsum := h.tiles.sum_length
  rw [List.map_map] at hsum
  have hsize : extents.map Extent.size
      = extents.map ((fun tile : Int × Int => tile.2 - tile.1 + 1) ∘ Extent.range) :=
    List.map_congr_left fun e he => h.sized e he
  rw [hsize, hsum]
  omega

/-! ### The split -/

/-- What the arithmetic of the split guarantees: part 0 and the last part are non-empty, and the
chunks between them fit. -/
structure SplitPlan.Fits (plan : SplitPlan) (total : Int) : Prop where
  wantParts_pos : 1 ≤ plan.wantParts
  part0Size_pos : 1 ≤ plan.part0Size
  single : plan.wantParts = 1 → plan.part0Size = total
  chunk_pos : 1 < plan.wantParts → 1 ≤ plan.chunk
  last_pos : 1 < plan.wantParts →
    plan.part0Size + plan.chunk * (plan.wantParts - 2) < total

theorem splitPlan_fits (cfg : HttpConfig) {total : Int} (htotal : 0 < total) :
    (splitPlan cfg total).Fits total := by
  have hchunk : ∀ rest parts : Int, 1 ≤ parts → parts ≤ rest →
      1 ≤ rest / parts ∧ rest / parts * (parts - 1) < rest := by
    intro rest parts hparts hrest
    have hpos : 1 ≤ rest / parts := by
      rw [Int.le_ediv_iff_mul_le (by omega)]
      omega
    have hle : rest / parts * parts ≤ rest := Int.ediv_mul_le rest (by omega)
    refine ⟨hpos, ?_⟩
    rw [mul_sub, mul_one]
    omega
  by_cases hsplit : cfg.minSizeForSplit ≤ total ∧ 1 < cfg.defaultParts
  · -- part 0 holds at least one byte of the window, so only the rest can be too short to share
    obtain ⟨part0, hpart0⟩ : ∃ part0,
        part0 = max (total / cfg.defaultParts) (min probeWindowBytes total) := ⟨_, rfl⟩
    have hpos : 1 ≤ part0 := by
      have hwindow : (1 : Int) ≤ min probeWindowBytes total := by
        simp only [probeWindowBytes]
        omega
      omega
    by_cases hrest : total - part0 ≤ 0
    · have hplan : splitPlan cfg total = ⟨1, total, 0⟩ := by
        simp [splitPlan, hsplit.1, hsplit.2, ← hpart0, hrest]
      rw [hplan]
      exact ⟨by simp, htotal, fun _ => rfl, by simp, by simp⟩
    by_cases hfew : total - part0 < cfg.defaultParts - 1
    · have hplan : splitPlan cfg total = ⟨2, part0, total - part0⟩ := by
        simp [splitPlan, hsplit.1, hsplit.2, ← hpart0, hrest, hfew]
      rw [hplan]
      exact ⟨by simp, hpos, by simp, fun _ => by simp only; omega, fun _ => by simp only; omega⟩
    · have hne : cfg.defaultParts ≠ 1 := by omega
      have hplan : splitPlan cfg total =
          ⟨cfg.defaultParts, part0, (total - part0) / (cfg.defaultParts - 1)⟩ := by
        simp [splitPlan, hsplit.1, hsplit.2, ← hpart0, hrest, hfew, hne]
      obtain ⟨hchunk_pos, hlast⟩ :=
        hchunk (total - part0) (cfg.defaultParts - 1) (by omega) (by omega)
      have hcount : cfg.defaultParts - 1 - 1 = cfg.defaultParts - 2 := by ring
      rw [hcount] at hlast
      rw [hplan]
      exact ⟨by simp only; omega, hpos, fun h => absurd h hne, fun _ => hchunk_pos,
        fun _ => by simp only; omega⟩
  · have hplan : splitPlan cfg total = ⟨1, total, 0⟩ := by
      simp [splitPlan, hsplit]
    rw [hplan]
    exact ⟨by simp, htotal, fun _ => rfl, by simp, by simp⟩

theorem headPart_extent {plan : SplitPlan} {total : Int} (htotal : 0 < total)
    (hfits : plan.Fits total) :
    (headPart plan total).extent = ⟨0, plan.part0Size - 1, plan.part0Size, 0⟩ := by
  have := hfits.part0Size_pos
  simp only [headPart, PartState.extent, if_pos htotal]
  rw [if_pos (by omega)]
  simp

theorem tailPart_sized (plan : SplitPlan) (total : Int) (i : Nat)
    (h : (tailPart plan total i).start ≤ (tailPart plan total i).endByte) :
    (tailPart plan total i).size = (tailPart plan total i).endByte - (tailPart plan total i).start + 1 :=
  if_pos h

theorem tailParts_tiles {plan : SplitPlan} {total : Int} (hfits : plan.Fits total)
    (hmany : 1 < plan.wantParts) :
    Tiles ((tailParts plan total).map fun p => (p.start, p.endByte)) plan.part0Size total := by
  obtain ⟨n, hn⟩ : ∃ n : Nat, plan.wantParts = n + 2 :=
    ⟨(plan.wantParts - 2).toNat, by omega⟩
  have hcount : (plan.wantParts - 1).toNat = n + 1 := by omega
  have hchunk := hfits.chunk_pos hmany
  have hlast := hfits.last_pos hmany
  have hn2 : plan.wantParts - 2 = n := by omega
  rw [hn2] at hlast
  have hmiddle : ((List.range n).map fun k => tailPart plan total (k + 1)).map
      (fun p => (p.start, p.endByte)) = (List.range n).map fun k : Nat =>
        (plan.part0Size + plan.chunk * k, plan.part0Size + plan.chunk * k + plan.chunk - 1) := by
    rw [List.map_map]
    refine List.map_congr_left fun k hk => ?_
    have hlt : k < n := List.mem_range.mp hk
    have hinner : ¬ ((k + 1 : Nat) : Int) = plan.wantParts - 1 := by omega
    simp only [Function.comp_apply, tailPart, if_neg hinner]
    push_cast
    simp
  rw [tailParts, hcount, List.range_succ, List.map_append, List.map_append, hmiddle]
  refine (tiles_chunks plan.part0Size plan.chunk (by omega) n).append ?_
  have hend : ((n + 1 : Nat) : Int) = plan.wantParts - 1 := by omega
  simp only [List.map_cons, List.map_nil, tailPart, if_pos hend, tiles_cons, tiles_nil]
  push_cast
  refine ⟨by simp, by omega, by omega⟩

theorem tailParts_nil {plan : SplitPlan} {total : Int} (hone : ¬ 1 < plan.wantParts) :
    tailParts plan total = [] := by
  rw [tailParts, show (plan.wantParts - 1).toNat = 0 by omega]
  rfl

/-- **The split of a positive total is a layout.** -/
theorem split_laid (cfg : HttpConfig) {total : Int} (htotal : 0 < total) :
    Laid ((headPart (splitPlan cfg total) total :: tailParts (splitPlan cfg total) total).map
      PartState.extent) total := by
  have hfits := splitPlan_fits cfg htotal
  have hhead := headPart_extent htotal hfits
  generalize splitPlan cfg total = plan at hfits hhead ⊢
  have hpos := hfits.part0Size_pos
  have htiles : Tiles ((tailParts plan total).map fun p => (p.start, p.endByte)) plan.part0Size
      total := by
    by_cases hmany : 1 < plan.wantParts
    · exact tailParts_tiles hfits hmany
    · rw [tailParts_nil hmany, List.map_nil, tiles_nil]
      exact hfits.single (by have := hfits.wantParts_pos; omega)
  have hsized : ∀ p ∈ tailParts plan total, p.size = p.endByte - p.start + 1 ∧ p.done = 0 := by
    intro p hp
    have hbounds := htiles.mem_range (List.mem_map_of_mem hp)
    obtain ⟨k, -, rfl⟩ := List.mem_map.mp hp
    exact ⟨tailPart_sized plan total _ hbounds.2.1, rfl⟩
  have hranges : (tailParts plan total).map (Extent.range ∘ PartState.extent)
      = (tailParts plan total).map fun p => (p.start, p.endByte) := rfl
  refine ⟨?_, ?_, ?_⟩
  · rw [List.map_cons, List.map_cons, hhead, List.map_map, hranges]
    refine ⟨rfl, by simp only; omega, ?_⟩
    simpa [Extent.range] using htiles
  · intro e he
    rcases List.mem_cons.mp (List.map_cons ▸ he) with rfl | he
    · rw [hhead]
      simp
    · obtain ⟨p, hp, rfl⟩ := List.mem_map.mp he
      exact (hsized p hp).1
  · intro e he
    rcases List.mem_cons.mp (List.map_cons ▸ he) with rfl | he
    · rw [hhead]
      exact ⟨le_rfl, by simp only; omega⟩
    · obtain ⟨p, hp, rfl⟩ := List.mem_map.mp he
      have hbounds := htiles.mem_range (List.mem_map_of_mem hp)
      obtain ⟨hsize, hdone⟩ := hsized p hp
      simp only [PartState.extent, hdone, hsize]
      exact ⟨le_rfl, by omega⟩

/-! ### Finalizing the probe -/

namespace TaskCtx

structure Unprobed (t : TaskCtx) : Prop where
  extents : t.extents = [⟨0, -1, 0, 0⟩]
  ctxs : t.partCtx.length = 1
  supportRange : t.supportRange = 0

theorem Unprobed.of_quiet {t t' : TaskCtx} (h : t.Unprobed) (hq : Quiet t t') : t'.Unprobed :=
  ⟨hq.extents.trans h.extents, hq.ctxs.trans h.ctxs, hq.supportRange.trans h.supportRange⟩

theorem Unprobed.parts {t : TaskCtx} (h : t.Unprobed) :
    ∃ p : PartState, t.parts = [p] ∧ p.extent = ⟨0, -1, 0, 0⟩ := by
  obtain ⟨p, hp, hextent⟩ := List.map_eq_singleton_iff.mp h.extents
  exact ⟨p, hp, hextent⟩

theorem Unprobed.place {t : TaskCtx} (h : t.Unprobed) (i : Nat) :
    (t.part i).start + (t.part i).done = 0 := by
  obtain ⟨p, hp, hextent⟩ := h.parts
  have hstart : p.start = 0 := congrArg Extent.start hextent
  have hdone : p.done = 0 := congrArg Extent.done hextent
  cases i with
  | zero => simp [part, hp, hstart, hdone]
  | succ i =>
      simp only [part, hp, List.getD_cons_succ, List.getD_nil]
      rfl

theorem Unprobed.done {t : TaskCtx} (h : t.Unprobed) (i : Nat) : (t.part i).done = 0 := by
  obtain ⟨p, hp, hextent⟩ := h.parts
  have hdone : p.done = 0 := congrArg Extent.done hextent
  cases i with
  | zero => simp [part, hp, hdone]
  | succ i =>
      simp only [part, hp, List.getD_cons_succ, List.getD_nil]
      rfl

theorem Unprobed.size_eq_done {t : TaskCtx} (h : t.Unprobed) {i : Nat} (hi : i < t.parts.length) :
    (t.part i).size = (t.part i).done := by
  have hmem : (t.part i).extent ∈ t.extents := List.mem_map_of_mem (part_mem hi)
  rw [h.extents, List.mem_singleton] at hmem
  rw [show (t.part i).size = 0 from congrArg Extent.size hmem,
    show (t.part i).done = 0 from congrArg Extent.done hmem]

@[simp] theorem layOut_totalSize (cfg : HttpConfig) (t : TaskCtx) (code : Int) :
    (t.layOut cfg code).totalSize = t.totalSize := by
  rw [layOut]
  split <;> rfl

@[simp] theorem layOut_probing (cfg : HttpConfig) (t : TaskCtx) (code : Int) :
    (t.layOut cfg code).probing = t.probing := by
  rw [layOut]
  split <;> rfl

@[simp] theorem layOut_fullFilePath (cfg : HttpConfig) (t : TaskCtx) (code : Int) :
    (t.layOut cfg code).fullFilePath = t.fullFilePath := by
  rw [layOut]
  split <;> rfl

@[simp] theorem layOut_status (cfg : HttpConfig) (t : TaskCtx) (code : Int) :
    (t.layOut cfg code).status = t.status := by
  rw [layOut]
  split <;> rfl

@[simp] theorem layOut_etag (cfg : HttpConfig) (t : TaskCtx) (code : Int) :
    (t.layOut cfg code).etag = t.etag := by
  rw [layOut]
  split <;> rfl

@[simp] theorem layOut_lastModified (cfg : HttpConfig) (t : TaskCtx) (code : Int) :
    (t.layOut cfg code).lastModified = t.lastModified := by
  rw [layOut]
  split <;> rfl

@[simp] theorem layOut_filename (cfg : HttpConfig) (t : TaskCtx) (code : Int) :
    (t.layOut cfg code).filename = t.filename := by
  rw [layOut]
  split <;> rfl

theorem length_le_layOut (cfg : HttpConfig) (t : TaskCtx) (code : Int) :
    t.parts.length ≤ (t.layOut cfg code).parts.length := by
  rw [layOut]
  split
  · simp [splitParts]
  · simp [singlePart]

theorem layOut_ctxs (cfg : HttpConfig) {t : TaskCtx} (code : Int)
    (h : t.partCtx.length = t.parts.length) :
    (t.layOut cfg code).partCtx.length = (t.layOut cfg code).parts.length := by
  rw [layOut]
  split
  · simp [splitParts, h]
  · simp [singlePart, h]

theorem probed_probing (cfg : HttpConfig) (env : WriteEnv) (fs : Fs) (t : TaskCtx) (i : Nat) :
    (probed cfg env fs t i).1.probing = false := by
  rw [probed]
  split
  next =>
    rcases finalizeProbing_cases cfg env.probe fs t i with ⟨message, heq⟩ | heq
    · rw [heq]
      rfl
    · rw [heq, layOut_probing]
      rfl
  next h => simpa using h

theorem length_le_probed (cfg : HttpConfig) (env : WriteEnv) (fs : Fs) (t : TaskCtx) (i : Nat) :
    t.parts.length ≤ (probed cfg env fs t i).1.parts.length := by
  rw [probed]
  split
  · rcases finalizeProbing_cases cfg env.probe fs t i with ⟨message, heq⟩ | heq
    · rw [heq]
      exact le_rfl
    · rw [heq]
      exact length_le_layOut cfg (acquirePath env.probe fs (t.settleProbe env.probe.urlLib i)).1 _
  · exact le_rfl

theorem probed_ctxs (cfg : HttpConfig) (env : WriteEnv) (fs : Fs) {t : TaskCtx} (i : Nat)
    (h : t.partCtx.length = t.parts.length) :
    (probed cfg env fs t i).1.partCtx.length = (probed cfg env fs t i).1.parts.length := by
  rw [probed]
  split
  · rcases finalizeProbing_cases cfg env.probe fs t i with ⟨message, heq⟩ | heq
    · rw [heq]
      exact h
    · rw [heq]
      exact layOut_ctxs cfg (t := (acquirePath env.probe fs (t.settleProbe env.probe.urlLib i)).1) _ h
  · exact h

theorem layOut_not_completed (cfg : HttpConfig) {t : TaskCtx} (code : Int)
    (h : ∀ p ∈ t.parts, p.status ≠ .completed) :
    ∀ p ∈ (t.layOut cfg code).parts, p.status ≠ .completed := by
  intro p hp
  rw [layOut] at hp
  split at hp
  · simp only [splitParts] at hp
    rcases List.mem_append.mp hp with hp | hp
    · obtain ⟨i, hi, rfl⟩ := List.getElem_of_mem hp
      rw [List.getElem_modify]
      split
      · simp [headPart]
      · exact h _ (List.getElem_mem _)
    · obtain ⟨k, -, rfl⟩ := List.mem_map.mp hp
      simp [tailPart]
  · obtain ⟨i, hi, rfl⟩ := List.getElem_of_mem hp
    have hi' : i < t.parts.length := by simpa [singlePart] using hi
    have hold := h _ (List.getElem_mem hi')
    simp only [singlePart, modifyPart_parts, List.getElem_modify]
    split
    · exact hold
    · exact hold

theorem layOut_unsized (cfg : HttpConfig) {t : TaskCtx} (code : Int) (h : t.Unprobed)
    (htotal : t.totalSize ≤ 0) :
    ∃ p, (t.layOut cfg code).parts = [p] ∧ p.start = 0 ∧ p.size = 0 ∧ p.done = 0 ∧ p.endByte = -1 := by
  obtain ⟨p, hp, hextent⟩ := h.parts
  have hpos : ¬ 0 < t.totalSize := by omega
  rw [layOut]
  split
  · have hsmall : ¬ cfg.minSizeForSplit ≤ t.totalSize := by
      have := cfg.minSizeForSplit_pos
      omega
    have hone : (splitPlan cfg t.totalSize).wantParts = 1 := by
      simp [splitPlan, hsmall]
    refine ⟨headPart (splitPlan cfg t.totalSize) t.totalSize, ?_, ?_⟩
    · simp [splitParts, hp, tailParts_nil (show ¬ 1 < (splitPlan cfg t.totalSize).wantParts by omega)]
    · simp [headPart, hpos]
  · refine ⟨_, by simp only [singlePart, modifyPart_parts, hp, List.modify_cons, if_pos]; rfl, rfl, ?_, ?_, ?_⟩
    · simp [hpos]
    · exact congrArg Extent.done hextent
    · simp [hpos]

/-- **Finalizing with a positive total lays the parts out.** -/
theorem layOut_laid (cfg : HttpConfig) {t : TaskCtx} (code : Int) (h : t.Unprobed)
    (htotal : 0 < t.totalSize) : Laid (t.layOut cfg code).extents t.totalSize := by
  obtain ⟨p, hp, hextent⟩ := h.parts
  rw [layOut]
  split
  · have := split_laid cfg htotal
    simpa [splitParts, extents, hp] using this
  · have hdone : p.done = 0 := congrArg Extent.done hextent
    have hext : t.singlePart.extents = [⟨0, t.totalSize - 1, t.totalSize, 0⟩] := by
      simp [singlePart, extents, hp, PartState.extent, hdone, htotal]
    rw [hext]
    refine ⟨⟨rfl, by simp only; omega, ?_⟩, ?_, ?_⟩
    · simp
    · intro e he
      obtain rfl := List.mem_singleton.mp he
      simp
    · intro e he
      obtain rfl := List.mem_singleton.mp he
      exact ⟨le_rfl, by simp only; omega⟩

theorem layOut_done (cfg : HttpConfig) {t : TaskCtx} (code : Int) (h : t.Unprobed) :
    ∀ e ∈ (t.layOut cfg code).extents, e.done = 0 := by
  obtain ⟨p, hp, hextent⟩ := h.parts
  intro e he
  obtain ⟨q, hq, rfl⟩ := List.mem_map.mp he
  rw [layOut] at hq
  split at hq
  · simp only [splitParts, hp, List.modify_cons, if_pos, List.singleton_append] at hq
    rcases List.mem_cons.mp hq with rfl | hq
    · rfl
    · obtain ⟨k, -, rfl⟩ := List.mem_map.mp hq
      rfl
  · simp only [singlePart, modifyPart_parts, hp, List.modify_cons, if_pos] at hq
    obtain rfl := List.mem_singleton.mp hq
    exact congrArg Extent.done hextent

theorem layOut_part_zero (cfg : HttpConfig) {t : TaskCtx} (code : Int) (h : t.Unprobed) :
    ((t.layOut cfg code).part 0).start = 0 := by
  obtain ⟨p, hp, -⟩ := h.parts
  rw [layOut]
  split
  · simp [part, splitParts, hp, headPart]
  · simp [part, singlePart, hp]

theorem modifyCtx_easy (t : TaskCtx) (i j : Nat) (f : PartCtx → PartCtx)
    (hf : ∀ c, (f c).easy = c.easy) : ((t.modifyCtx i f).ctx j).easy = (t.ctx j).easy := by
  simp only [ctx, modifyCtx_partCtx, List.getD, List.getElem?_modify]
  cases t.partCtx[j]? with
  | none => rfl
  | some c => split <;> simp [hf]

theorem layOut_easy (cfg : HttpConfig) (t : TaskCtx) (code : Int) (j : Nat) :
    ((t.layOut cfg code).ctx j).easy = (t.ctx j).easy := by
  rw [layOut]
  split
  · rw [← modifyCtx_easy t 0 j (fun p => { p with
      seenTotalSize := 0, seenEtag := "", seenLastModified := "", seenHttpCode := 0
      retryCount := 0 }) fun _ => rfl]
    by_cases hj : j < t.partCtx.length
    · simp only [ctx, splitParts, modifyCtx_partCtx, List.getD]
      rw [List.getElem?_append_left (by simpa using hj)]
    · rw [ctx_of_length_le (t := t.modifyCtx 0 _) (by simpa using hj)]
      simp only [ctx, splitParts, List.getD]
      rw [List.getElem?_append_right (by simpa using hj), List.getElem?_map]
      cases (tailParts (splitPlan cfg t.totalSize) t.totalSize)[
        j - (t.partCtx.modify 0 fun p => { p with
          seenTotalSize := 0, seenEtag := "", seenLastModified := "", seenHttpCode := 0
          retryCount := 0 }).length]? <;> rfl
  · rfl

/-! ### Writing -/

theorem length_le_of_fit {t : TaskCtx} {i : Nat} {data chunk : List Byte}
    (hfit : t.fit i data = some chunk) (hsize : 0 < (t.part i).size) :
    (chunk.length : Int) ≤ (t.part i).size - (t.part i).done := by
  simp only [fit, if_pos hsize] at hfit
  split at hfit
  · simp at hfit
  · obtain rfl := Option.some.inj hfit
    rw [List.length_take]
    omega

theorem prefix_of_fit {t : TaskCtx} {i : Nat} {data chunk : List Byte}
    (hfit : t.fit i data = some chunk) : chunk <+: data := by
  simp only [fit] at hfit
  split at hfit
  · split at hfit
    · simp at hfit
    · exact Option.some.inj hfit ▸ List.take_prefix _ _
  · exact Option.some.inj hfit ▸ List.prefix_refl _

theorem extents_count_range (t : TaskCtx) (i n : Nat) :
    (t.modifyPart i fun p => { p with done := p.done + n }).extents.map Extent.range
      = t.extents.map Extent.range := by
  refine List.ext_getElem? fun j => ?_
  simp only [extents, modifyPart_parts, List.getElem?_map, List.getElem?_modify]
  cases t.parts[j]? with
  | none => rfl
  | some p => split <;> rfl

theorem mem_extents_count {t : TaskCtx} {i n : Nat} {e : Extent}
    (he : e ∈ (t.modifyPart i fun p => { p with done := p.done + n }).extents) :
    e ∈ t.extents ∨ e = { (t.part i).extent with done := (t.part i).done + n } := by
  obtain ⟨p, hp, rfl⟩ := List.mem_map.mp he
  obtain ⟨j, hj, rfl⟩ := List.getElem_of_mem hp
  have hj' : j < t.parts.length := by simpa using hj
  simp only [modifyPart_parts, List.getElem_modify]
  split
  next hij =>
    subst hij
    exact Or.inr (by rw [part_eq_getElem hj']; rfl)
  next => exact Or.inl (List.mem_map_of_mem (List.getElem_mem hj'))

theorem laid_count {t : TaskCtx} {total : Int} (h : Laid t.extents total) {i : Nat}
    (hi : i < t.parts.length) {n : Nat} (hn : (n : Int) ≤ (t.part i).size - (t.part i).done) :
    Laid (t.modifyPart i fun p => { p with done := p.done + n }).extents total := by
  have hpart : (t.part i).extent ∈ t.extents := List.mem_map_of_mem (part_mem hi)
  have hsized := h.sized _ hpart
  have hcounted := h.counted _ hpart
  simp only [PartState.extent] at hsized hcounted
  refine ⟨(extents_count_range t i n).symm ▸ h.tiles, fun e he => ?_, fun e he => ?_⟩
  · rcases mem_extents_count he with he | rfl
    · exact h.sized e he
    · exact hsized
  · rcases mem_extents_count he with he | rfl
    · exact h.counted e he
    · simp only [PartState.extent]
      omega

end TaskCtx

def Archive.extents (a : Archive) : List Extent := a.parts.map fun p => p.restore.extent

theorem Laid.extents_serializeResume {t : TaskCtx} {total : Int} (h : Laid t.extents total) :
    (serializeResume t).extents = t.extents := by
  rw [Archive.extents, serializeResume, TaskCtx.extents, List.map_map]
  refine List.map_congr_left fun p hp => ?_
  have hmem : p.extent ∈ t.extents := List.mem_map_of_mem hp
  have hsized := h.sized _ hmem
  have hbounds := h.bounds hmem
  simp only [PartState.extent] at hsized hbounds
  simp only [Function.comp_apply, ArchivedPart.restore, PartState.extent, if_pos hbounds.2.1, hsized]

end DownloadWrapper
