import DownloadWrapper.Http.PartInvariant

/-!
# What completion leaves on disk

A task completes when all its parts have. For a sized download that means the file, of the size the
probe fixed, is full. A part without a size completes when its connection ends normally, and then
everything hangs on whether its file was there to write to: `StepKeepsFile` says when it was, and the
run theorem that this is all there is to it.
-/

namespace DownloadWrapper

open Transition TaskCtx

def plannedPath (env : ProbeEnv) (w : Worker) (i : Nat) : String :=
  (acquirePath env w.fs (w.task.settleProbe env.urlLib i)).1.fullFilePath

/-- A first chunk finds no file at the path it settles on; a part of unknown size is completed only
after its first chunk, and only when no total is known that it falls short of. -/
def StepKeepsFile (w : Worker) : Event → Prop
  | .body i _ env => w.task.probing → w.fs.bytes? (plannedPath env.probe w i) = none
  | .message i rc httpCode _ =>
      ¬ (w.task.cancelReq ∨ w.task.pauseReq) → completesUnsized w.task i rc httpCode →
        w.task.probing = false ∧ (w.task.totalSize ≤ 0 ∨ w.task.totalSize = (w.task.part i).done)
  | _ => True

instance : ∀ (w : Worker) (e : Event), Decidable (StepKeepsFile w e)
  | w, .body i _ env =>
      inferInstanceAs (Decidable (w.task.probing → w.fs.bytes? (plannedPath env.probe w i) = none))
  | w, .message i rc httpCode _ =>
      inferInstanceAs (Decidable (¬ (w.task.cancelReq ∨ w.task.pauseReq) →
        completesUnsized w.task i rc httpCode → w.task.probing = false ∧
          (w.task.totalSize ≤ 0 ∨ w.task.totalSize = (w.task.part i).done)))
  | _, .enter .. | _, .header .. | _, .performed .. | _, .drained | _, .raised | _, .leave
  | _, .close | _, .exit | _, .pauseRequest | _, .deleteRequest | _, .shutdown => isTrue trivial

/-- What completion promises: the file was made by this download, and its length, the sum of the
parts and the total are one number. -/
structure FileComplete (before : Fs) (w : Worker) : Prop where
  path : w.task.fullFilePath ≠ ""
  absent : before.bytes? w.task.fullFilePath = none
  file : ∃ bytes, w.fs.bytes? w.task.fullFilePath = some bytes ∧
    w.task.totalDone = w.task.totalSize ∧ w.task.totalSize = bytes.length

def FullWhenCompleted (t : TaskCtx) : Prop :=
  ∀ p ∈ t.parts, p.status = .completed → p.done = p.size

/-- The one part of a download whose size nobody told: in error, complete with everything that came,
or `least` bytes or more into the file. -/
structure Unsized (t : TaskCtx) (bytes : List Byte) (least : Int) (p : PartState) : Prop where
  parts : t.parts = [p]
  start : p.start = 0
  done_nonneg : 0 ≤ p.done
  state : p.status = .error ∨ least ≤ p.done ∧ (bytes.length : Int) = p.done ∧
    (p.size ≤ 0 ∧ p.status ≠ .completed ∨
      p.status = .completed ∧ 0 < p.done ∧ p.size = p.done ∧ t.totalSize = p.done)

def Holds (t : TaskCtx) (bytes : List Byte) (least : Int) : Prop :=
  (0 < t.totalSize ∧ Laid t.extents t.totalSize ∧ (bytes.length : Int) = t.totalSize ∧
      FullWhenCompleted t) ∨
    ∃ p, Unsized t bytes least p

/-- The file was made by this download and holds what its parts count. -/
structure Filed (before : Fs) (w : Worker) (least : Int) : Prop where
  path : w.task.fullFilePath ≠ ""
  absent : before.bytes? w.task.fullFilePath = none
  holds : ∃ bytes, w.fs.bytes? w.task.fullFilePath = some bytes ∧ Holds w.task bytes least

structure Stuck (w : Worker) : Prop where
  status : w.task.status ≠ .completed
  stuck : w.task.failed ∨ w.phase = .exited

structure Kept (before : Fs) (w : Worker) : Prop where
  ctxs : w.task.partCtx.length = w.task.parts.length
  probing : w.task.probing → w.task.Unprobed ∧ w.fs = before ∧
    ∀ p ∈ w.task.parts, p.status ≠ .completed
  filed : w.task.probing = false → Stuck w ∨ Filed before w 1
  finished : w.task.status = .completed →
    (w.phase = .closing ∨ w.phase = .ending ∨ w.phase = .exited) ∧
      ∀ p ∈ w.task.parts, p.status = .completed

theorem TaskCtx.Unprobed.not_all_completed {t : TaskCtx} (h : t.Unprobed)
    (hopen : ∀ p ∈ t.parts, p.status ≠ .completed) : ¬ ∀ p ∈ t.parts, p.status = .completed := by
  intro hall
  obtain ⟨p, hp, -⟩ := h.parts
  have hmem : p ∈ t.parts := hp ▸ List.mem_singleton_self p
  exact hopen p hmem (hall p hmem)

theorem Kept.probing_eq_false {before : Fs} {w : Worker} (h : Kept before w)
    (hall : ∀ p ∈ w.task.parts, p.status = .completed) : w.task.probing = false := by
  rw [← Bool.not_eq_true]
  intro hprobing
  obtain ⟨hunprobed, -, hopen⟩ := h.probing hprobing
  exact hunprobed.not_all_completed hopen hall

/-! ### Steady steps -/

/-- The empty part of a probing task is not full, so a steady step does not complete it. -/
theorem TaskCtx.Unprobed.open_of_steady {t t' : TaskCtx} (h : t.Unprobed)
    (hopen : ∀ p ∈ t.parts, p.status ≠ .completed) (hs : Steady t t') :
    ∀ q ∈ t'.parts, q.status ≠ .completed := by
  intro q hq hcompleted
  obtain ⟨p, hp, hextent⟩ := h.parts
  have hmarked := hs.marked
  rw [hp, List.forall₂_cons_left_iff] at hmarked
  obtain ⟨q', rest, hq', hrest, hparts⟩ := hmarked
  rw [List.forall₂_nil_left_iff] at hrest
  rw [hparts, hrest, List.mem_singleton] at hq
  subst hq
  have hsize : p.size = 0 := congrArg Extent.size hextent
  rcases hq'.status with hsame | herror | ⟨-, -, hpos, -⟩
  · exact hopen p (hp ▸ List.mem_singleton_self p) (hsame ▸ hcompleted)
  · simp [hcompleted] at herror
  · omega

theorem FullWhenCompleted.of_steady {t t' : TaskCtx} {total : Int} (h : FullWhenCompleted t)
    (hlaid : Laid t.extents total) (hs : Steady t t') : FullWhenCompleted t' := by
  intro q hq hcompleted
  obtain ⟨i, hi, rfl⟩ := List.getElem_of_mem hq
  have hi' : i < t.parts.length := hs.marked.length_eq ▸ hi
  have hmarked := (List.forall₂_iff_get.mp hs.marked).2 i hi' hi
  simp only [List.get_eq_getElem] at hmarked
  have hsize := congrArg Extent.size hmarked.extent
  have hdone := congrArg Extent.done hmarked.extent
  simp only [PartState.extent] at hsize hdone
  have hcounted := hlaid.counted _ (List.mem_map_of_mem (f := PartState.extent)
    (List.getElem_mem hi'))
  simp only [PartState.extent] at hcounted
  rcases hmarked.status with hsame | herror | ⟨-, -, -, hfull⟩
  · have := h _ (List.getElem_mem hi') (hsame ▸ hcompleted)
    omega
  · simp [hcompleted] at herror
  · omega

theorem Unsized.of_steady {t t' : TaskCtx} {bytes : List Byte} {least : Int} {p : PartState}
    (h : Unsized t bytes least p) (hs : Steady t t') : ∃ q, Unsized t' bytes least q := by
  have hmarked := hs.marked
  rw [h.parts, List.forall₂_cons_left_iff] at hmarked
  obtain ⟨q, rest, hq, hrest, hparts⟩ := hmarked
  rw [List.forall₂_nil_left_iff] at hrest
  have hstart := congrArg Extent.start hq.extent
  have hsize := congrArg Extent.size hq.extent
  have hdone := congrArg Extent.done hq.extent
  simp only [PartState.extent] at hstart hsize hdone
  refine ⟨q, hrest ▸ hparts, hstart.trans h.start, hdone ▸ h.done_nonneg, ?_⟩
  rcases h.state with herror | ⟨hleast, hlength, hstate⟩
  · rcases hq.status with hsame | herror' | ⟨-, hne, -⟩
    · exact Or.inl (hsame.trans herror)
    · exact Or.inl herror'
    · exact absurd herror hne
  · rw [hdone, hsize]
    rcases hq.status with hsame | herror' | ⟨hcompleted, -, hpos, hfull⟩
    · refine Or.inr ⟨hleast, hlength, ?_⟩
      rw [hsame]
      rcases hstate with hle | ⟨hcompleted, hpos, hsize', htotal⟩
      · exact Or.inl hle
      · refine Or.inr ⟨hcompleted, hpos, hsize', ?_⟩
        rw [hs.total (htotal ▸ hpos), htotal]
    · exact Or.inl herror'
    · rcases hstate with ⟨hle, -⟩ | ⟨-, hpos', hsize', htotal⟩
      · omega
      · refine Or.inr ⟨hleast, hlength, Or.inr ⟨hcompleted, hpos', hsize', ?_⟩⟩
        rw [hs.total (htotal ▸ hpos'), htotal]

theorem Holds.of_steady {t t' : TaskCtx} {bytes : List Byte} {least : Int}
    (h : Holds t bytes least) (hs : Steady t t') : Holds t' bytes least := by
  rcases h with ⟨hpos, hlaid, hlength, hfull⟩ | ⟨p, hp⟩
  · have htotal := hs.total hpos
    exact Or.inl ⟨htotal ▸ hpos, by rw [hs.extents, htotal]; exact hlaid, by rw [htotal, hlength],
      hfull.of_steady hlaid hs⟩
  · exact Or.inr (hp.of_steady hs)

theorem Filed.of_steady {before : Fs} {w w' : Worker} {least : Int} (h : Filed before w least)
    (hs : Steady w.task w'.task) (hfs : w'.fs = w.fs) : Filed before w' least := by
  obtain ⟨hpath, habsent, bytes, hbytes, hholds⟩ := h
  refine ⟨hs.fullFilePath.symm ▸ hpath, hs.fullFilePath.symm ▸ habsent, bytes, ?_,
    hholds.of_steady hs⟩
  rw [hfs, hs.fullFilePath, hbytes]

theorem Filed.congr {before : Fs} {w w' : Worker} {least : Int} (h : Filed before w least)
    (hparts : w'.task.parts = w.task.parts) (htotal : w'.task.totalSize = w.task.totalSize)
    (hpath : w'.task.fullFilePath = w.task.fullFilePath) (hfs : w'.fs = w.fs) :
    Filed before w' least := by
  obtain ⟨hne, habsent, bytes, hbytes, hholds⟩ := h
  refine ⟨hpath.symm ▸ hne, hpath.symm ▸ habsent, bytes, by rw [hfs, hpath, hbytes], ?_⟩
  refine hholds.imp (fun h => ?_) fun ⟨p, hp⟩ => ⟨p, ?_⟩
  · rw [extents, FullWhenCompleted, hparts, htotal]
    exact h
  · exact ⟨hparts.trans hp.parts, hp.start, hp.done_nonneg, htotal.symm ▸ hp.state⟩

/-! ### Finalizing -/

theorem plannedPath_ne_empty (env : ProbeEnv) (w : Worker) (i : Nat) : plannedPath env w i ≠ "" :=
  joinPath_ne_empty _ (filename_settleProbe_ne_empty env.urlLib w.task i)

/-- What is in a target that could be created: what was there before, cut or extended to the size. -/
theorem bytes?_createTarget {env : ProbeEnv} {fs fs' : Fs} {path : String} {total : Int}
    (h : createTarget env fs path total = (none, fs')) :
    fs'.bytes? path = some (if total ≤ 0 then (fs.bytes? path).getD []
      else ByteFile.resize ((fs.bytes? path).getD []) total.toNat) := by
  simp only [createTarget] at h
  split at h
  · simp at h
  next made hmade =>
    have hmkdir : made.bytes? path = fs.bytes? path := by
      split at hmade
      · rw [Option.some.inj hmade]
      · simp only [mkdirRecursive] at hmade
        split at hmade
        · simp at hmade
        split at hmade
        · rw [Option.some.inj hmade]
        · simp only [Option.ite_none_right_eq_some, Option.some.injEq] at hmade
          rw [← hmade.2, Fs.bytes?_createDirectories]
    split at h
    · simp at h
    next opened hopened =>
      have hbytes := Fs.bytes?_openFile hopened
      rw [hmkdir] at hbytes
      split at h
      next hle =>
        obtain rfl := (Prod.mk.inj h).2
        rw [hbytes, if_pos hle]
      next hle =>
        split at h
        · obtain rfl := (Prod.mk.inj h).2
          rw [Fs.bytes?_truncate, hbytes, Option.map_some, if_neg hle]
        · simp at h

theorem createTarget_bytes {env : ProbeEnv} {fs fs' : Fs} {path : String} {total : Int}
    (habsent : fs.bytes? path = none) (h : createTarget env fs path total = (none, fs')) :
    ∃ bytes, fs'.bytes? path = some bytes ∧ bytes.length = total.toNat := by
  refine ⟨_, bytes?_createTarget h, ?_⟩
  rw [habsent, Option.getD_none]
  split
  next hle =>
    rw [List.length_nil]
    omega
  next => exact ByteFile.length_resize _ _

/-- The probe is finalized without a file that could be made, or with one that is laid out. -/
theorem probed_created (cfg : HttpConfig) (env : WriteEnv) {w : Worker} (i : Nat)
    (hprobing : w.task.probing = true) :
    (∃ message made, probed cfg env w.fs w.task i =
        ((acquirePath env.probe w.fs (w.task.settleProbe env.probe.urlLib i)).1.fail message, made)) ∨
      ∃ made, createTarget env.probe
            (acquirePath env.probe w.fs (w.task.settleProbe env.probe.urlLib i)).2
            (plannedPath env.probe w i)
            (acquirePath env.probe w.fs (w.task.settleProbe env.probe.urlLib i)).1.totalSize =
          (none, made) ∧
        probed cfg env w.fs w.task i =
          ((acquirePath env.probe w.fs (w.task.settleProbe env.probe.urlLib i)).1.layOut cfg
            (w.task.ctx i).seenHttpCode, made) := by
  have hpath : (acquirePath env.probe w.fs (w.task.settleProbe env.probe.urlLib i)).1.fullFilePath
      = plannedPath env.probe w i := rfl
  rw [probed, if_pos hprobing]
  simp only [finalizeProbing, hpath, if_neg (plannedPath_ne_empty env.probe w i)]
  rcases hcreated : createTarget env.probe
      (acquirePath env.probe w.fs (w.task.settleProbe env.probe.urlLib i)).2
      (plannedPath env.probe w i)
      (acquirePath env.probe w.fs (w.task.settleProbe env.probe.urlLib i)).1.totalSize
    with ⟨result, made⟩
  cases result with
  | some message => exact Or.inl ⟨message, made, rfl⟩
  | none => exact Or.inr ⟨made, rfl, rfl⟩

theorem unprobed_acquirePath {t : TaskCtx} (h : t.Unprobed) (env : ProbeEnv) (fs : Fs) (i : Nat) :
    (acquirePath env fs (t.settleProbe env.urlLib i)).1.Unprobed := by
  obtain ⟨total, name, path, hacquired⟩ := acquirePath_settleProbe env fs t i
  rw [hacquired]
  exact ⟨h.extents, h.ctxs, h.supportRange⟩

theorem Kept.finalized {before : Fs} {w : Worker} (cfg : HttpConfig) (env : WriteEnv)
    (h : Kept before w) (i : Nat) (hprobing : w.task.probing = true)
    (hfree : w.fs.bytes? (plannedPath env.probe w i) = none) :
    (probed cfg env w.fs w.task i).1.failed = true ∨
      (probed cfg env w.fs w.task i).1.status = w.task.status ∧
        Filed before { w with
          task := (probed cfg env w.fs w.task i).1, fs := (probed cfg env w.fs w.task i).2 } 0 := by
  obtain ⟨hunprobed, hfs, hopen⟩ := h.probing hprobing
  have hsame : (acquirePath env.probe w.fs (w.task.settleProbe env.probe.urlLib i)).2.bytes?
      (plannedPath env.probe w i) = none :=
    (bytes?_acquireWrapperName _ _ _ _ _).trans hfree
  have hpath : (acquirePath env.probe w.fs (w.task.settleProbe env.probe.urlLib i)).1.fullFilePath
      = plannedPath env.probe w i := rfl
  rcases probed_created cfg env i hprobing with ⟨message, made, heq⟩ | ⟨made, hcreated, heq⟩
  · exact Or.inl (heq ▸ rfl)
  rw [heq]
  obtain ⟨bytes, hbytes, hlength⟩ := createTarget_bytes hsame hcreated
  refine Or.inr ⟨layOut_status cfg _ _, ?_, ?_, bytes, ?_, ?_⟩
  · simp only [layOut_fullFilePath, hpath]
    exact plannedPath_ne_empty env.probe w i
  · simp only [layOut_fullFilePath, hpath, ← hfs]
    exact hfree
  · simp only [layOut_fullFilePath, hpath]
    exact hbytes
  · have hunprobed' := unprobed_acquirePath hunprobed env.probe w.fs i
    have hopen' : ∀ p ∈ (acquirePath env.probe w.fs
        (w.task.settleProbe env.probe.urlLib i)).1.parts, p.status ≠ .completed := hopen
    generalize (acquirePath env.probe w.fs (w.task.settleProbe env.probe.urlLib i)).1 = settled
      at hlength hunprobed' hopen' ⊢
    by_cases hpos : 0 < settled.totalSize
    · refine Or.inl ⟨?_, ?_, ?_, fun p hp hcompleted => ?_⟩
      · simpa using hpos
      · simpa using layOut_laid cfg (w.task.ctx i).seenHttpCode hunprobed' hpos
      · rw [layOut_totalSize, hlength]
        omega
      · exact absurd hcompleted (layOut_not_completed cfg _ hopen' p hp)
    · obtain ⟨p, hp, hstart, hsize, hdone, -⟩ :=
        layOut_unsized cfg (w.task.ctx i).seenHttpCode hunprobed' (not_lt.mp hpos)
      refine Or.inr ⟨p, hp, hstart, hdone.ge, Or.inr ⟨hdone.ge, ?_, Or.inl ⟨hsize.le, ?_⟩⟩⟩
      · rw [hlength, hdone]
        omega
      · exact layOut_not_completed cfg _ hopen' p (hp ▸ List.mem_singleton_self p)

/-! ### Writing -/

theorem room_of_fit {t : TaskCtx} {i : Nat} {data chunk : List Byte}
    (hfit : t.fit i data = some chunk) (hsize : 0 < (t.part i).size) :
    (t.part i).done < (t.part i).size := by
  simp only [fit, if_pos hsize] at hfit
  split at hfit
  · simp at hfit
  · omega

theorem fit_of_unsized {t : TaskCtx} {i : Nat} {data chunk : List Byte}
    (hfit : t.fit i data = some chunk) (hsize : (t.part i).size ≤ 0) : chunk = data := by
  rw [fit, if_neg (by omega)] at hfit
  exact (Option.some.inj hfit).symm

theorem FullWhenCompleted.count {t : TaskCtx} {i : Nat} (h : FullWhenCompleted t)
    (hroom : (t.part i).done < (t.part i).size) (n : Nat) :
    FullWhenCompleted (t.modifyPart i fun p => { p with done := p.done + n }) := by
  intro p hp hcompleted
  obtain ⟨j, hj, rfl⟩ := List.getElem_of_mem hp
  have hj' : j < t.parts.length := by simpa using hj
  simp only [modifyPart_parts, List.getElem_modify] at hcompleted ⊢
  split at hcompleted
  next hij =>
    subst hij
    have hdone := h _ (part_mem hj') (by rw [part_eq_getElem hj']; exact hcompleted)
    omega
  next hij =>
    rw [if_neg hij]
    exact h _ (List.getElem_mem hj') hcompleted

theorem holds_written_sized {fs : Fs} {t : TaskCtx} {i : Nat} {data chunk : List Byte}
    {bytes : List Byte} {out : Written} (hout : ChunkOutcome fs t i chunk out)
    (hi : i < t.parts.length) (hfit : t.fit i data = some chunk) (hpos : 0 < t.totalSize)
    (hlaid : Laid t.extents t.totalSize) (hlength : (bytes.length : Int) = t.totalSize)
    (hfull : FullWhenCompleted t) (hbytes : fs.bytes? t.fullFilePath = some bytes) :
    ∃ bytes', out.fs.bytes? t.fullFilePath = some bytes' ∧ Holds out.task bytes' 1 := by
  have hmem : (t.part i).extent ∈ t.extents := List.mem_map_of_mem (part_mem hi)
  have hroom := length_le_of_fit hfit (hlaid.size_pos hmem)
  have hbounds := hlaid.bounds hmem
  have hsized := hlaid.sized _ hmem
  have hcounted := hlaid.counted _ hmem
  simp only [PartState.extent] at hbounds hsized hcounted
  obtain ⟨piece, hpiece, hlanded, hcase⟩ := hout.landed hbytes
  -- whatever is written stays inside the file
  have hkeep : (ByteFile.writeAt bytes ((t.part i).start + (t.part i).done).toNat piece).length
      = bytes.length := by
    have := hpiece.length_le
    exact ByteFile.length_writeAt_of_le bytes (by omega)
  refine ⟨_, hlanded, ?_⟩
  rcases hcase with ⟨-, hsteady⟩ | ⟨rfl, -, granted, htask⟩
  · have hbase : Holds t (ByteFile.writeAt bytes ((t.part i).start + (t.part i).done).toNat piece) 1 :=
      Or.inl ⟨hpos, hlaid, by rw [hkeep, hlength], hfull⟩
    exact hbase.of_steady hsteady
  · rw [htask]
    refine Or.inl ⟨hpos, ?_, by rw [hkeep, hlength]; rfl, ?_⟩
    · exact laid_count (t := t.ensureOpen fs i granted) hlaid hi hroom
    · exact FullWhenCompleted.count (t := t.ensureOpen fs i granted) hfull
        (room_of_fit hfit (hlaid.size_pos hmem)) _

theorem holds_written_unsized {fs : Fs} {t : TaskCtx} {i : Nat} {data chunk : List Byte}
    {bytes : List Byte} {p : PartState} {out : Written} (hout : ChunkOutcome fs t i chunk out)
    (hi : i < t.parts.length) (hdata : data ≠ []) (hfit : t.fit i data = some chunk)
    (hp : Unsized t bytes 0 p) (hbytes : fs.bytes? t.fullFilePath = some bytes) :
    ∃ bytes', out.fs.bytes? t.fullFilePath = some bytes' ∧ Holds out.task bytes' 1 := by
  obtain ⟨hparts, hstart, hnonneg, hstate⟩ := hp
  obtain rfl : i = 0 := by
    rw [hparts] at hi
    simpa using hi
  have hpart : t.part 0 = p := by simp [part, hparts]
  have hmodify : ∀ f : PartState → PartState, t.parts.modify 0 f = [f p] := fun f => by
    rw [hparts]
    rfl
  -- an error of the part is an error whatever is in the file
  have herror : ∀ (t' : TaskCtx) (bytes' : List Byte) (q : PartState), t'.parts = [q] →
      q.start = 0 → 0 ≤ q.done → q.status = .error → Holds t' bytes' 1 :=
    fun t' bytes' q hq hstart hdone hstatus => Or.inr ⟨q, hq, hstart, hdone, Or.inl hstatus⟩
  cases hout with
  | missing => exact ⟨bytes, hbytes, herror _ _ _ (hmodify _) hstart hnonneg rfl⟩
  | failed granted message landed =>
      exact ⟨_, by rw [Fs.bytes?_pwrite, hbytes]; rfl,
        herror _ _ _ (hmodify _) hstart hnonneg rfl⟩
  | stored granted =>
      refine ⟨_, by rw [Fs.bytes?_pwrite, hbytes]; rfl, ?_⟩
      have hcount : 0 ≤ p.done + chunk.length := by omega
      rcases hstate with hstatus | ⟨-, hlength, ⟨hsize, hopen⟩ | ⟨-, hpos, hsize, -⟩⟩
      · exact herror _ _ _ (hmodify _) hstart hcount hstatus
      · have hchunk := fit_of_unsized hfit (hpart ▸ hsize)
        have hlen : 0 < chunk.length := List.length_pos_iff.mpr (hchunk ▸ hdata)
        have hoff : ((t.part 0).start + (t.part 0).done).toNat = bytes.length := by
          rw [hpart, hstart]
          omega
        refine Or.inr ⟨_, hmodify _, hstart, hcount, Or.inr ⟨?_, ?_, Or.inl ⟨hsize, hopen⟩⟩⟩
        · simp only
          omega
        · simp only [hoff, ByteFile.writeAt_length, List.length_append]
          push_cast
          rw [hlength]
      · have := room_of_fit hfit (by rw [hpart]; omega)
        rw [hpart] at this
        omega

theorem Filed.written {before : Fs} {w : Worker} (h : Filed before w 0) (env : WriteEnv) {i : Nat}
    {data chunk : List Byte} (hi : i < w.task.parts.length) (hdata : data ≠ [])
    (hfit : w.task.fit i data = some chunk) :
    Filed before { w with
      task := (writeChunk env w.fs w.task i chunk).task
      fs := (writeChunk env w.fs w.task i chunk).fs } 1 := by
  obtain ⟨hpath, habsent, bytes, hbytes, hholds⟩ := h
  have hout := writeChunk_outcome env w.fs w.task i chunk
  generalize writeChunk env w.fs w.task i chunk = out at hout ⊢
  have hsame : out.task.fullFilePath = w.task.fullFilePath := by
    cases hout <;> rfl
  refine ⟨hsame ▸ hpath, hsame ▸ habsent, ?_⟩
  simp only [hsame]
  rcases hholds with ⟨hpos, hlaid, hlength, hfull⟩ | ⟨p, hp⟩
  · exact holds_written_sized hout hi hfit hpos hlaid hlength hfull hbytes
  · exact holds_written_unsized hout hi hdata hfit hp hbytes

theorem Filed.weaken {before : Fs} {w : Worker} (h : Filed before w 1) : Filed before w 0 := by
  obtain ⟨hpath, habsent, bytes, hbytes, hholds⟩ := h
  refine ⟨hpath, habsent, bytes, hbytes, hholds.imp id ?_⟩
  rintro ⟨p, hparts, hstart, hnonneg, hstate⟩
  exact ⟨p, hparts, hstart, hnonneg, hstate.imp id fun ⟨hleast, hrest⟩ => ⟨by omega, hrest⟩⟩

theorem Filed.of_full {before : Fs} {w : Worker} (h : Filed before w 0) {i : Nat} {data : List Byte}
    (hi : i < w.task.parts.length) (hfit : w.task.fit i data = none) : Filed before w 1 := by
  obtain ⟨hpath, habsent, bytes, hbytes, hholds⟩ := h
  refine ⟨hpath, habsent, bytes, hbytes, hholds.imp id ?_⟩
  rintro ⟨p, hparts, hstart, hnonneg, hstate⟩
  refine ⟨p, hparts, hstart, hnonneg, hstate.imp id ?_⟩
  rintro ⟨-, hlength, hcase⟩
  obtain rfl : i = 0 := by
    rw [hparts] at hi
    simpa using hi
  have hpart : w.task.part 0 = p := by simp [part, hparts]
  rcases hcase with ⟨hsize, -⟩ | ⟨hcompleted, hpos, hrest⟩
  · rw [fit, if_neg (by rw [hpart]; omega)] at hfit
    simp at hfit
  · exact ⟨by omega, hlength, Or.inr ⟨hcompleted, hpos, hrest⟩⟩

/-! ### One step -/

namespace Kept

variable {before : Fs} {w w' : Worker}

theorem of_steady (h : Kept before w) (hs : Steady w.task w'.task) (hfs : w'.fs = w.fs)
    (hexited : w.phase = .exited → w'.phase = .exited)
    (hlate : w.phase = .closing ∨ w.phase = .ending ∨ w.phase = .exited →
      (w'.phase = .closing ∨ w'.phase = .ending ∨ w'.phase = .exited) ∧
        w'.task.parts = w.task.parts) : Kept before w' where
  ctxs := by rw [hs.ctxs, hs.toQuiet.length, h.ctxs]
  probing hprobing := by
    obtain ⟨hunprobed, hbefore, hopen⟩ := h.probing (hs.probing ▸ hprobing)
    exact ⟨hunprobed.of_quiet hs.toQuiet, hfs.trans hbefore, hunprobed.open_of_steady hopen hs⟩
  filed hprobing := (h.filed (hs.probing ▸ hprobing)).imp
    (fun hstuck => ⟨fun hcompleted => hstuck.status (hs.status hcompleted),
      hstuck.stuck.imp hs.failed hexited⟩)
    fun hfiled => hfiled.of_steady hs hfs
  finished hcompleted := by
    obtain ⟨hphase, hparts⟩ := h.finished (hs.status hcompleted)
    obtain ⟨hphase', hsame⟩ := hlate hphase
    exact ⟨hphase', hsame ▸ hparts⟩

theorem of_steady_early (h : Kept before w) (hs : Steady w.task w'.task) (hfs : w'.fs = w.fs)
    (hearly : ¬ (w.phase = .closing ∨ w.phase = .ending ∨ w.phase = .exited)) : Kept before w' :=
  h.of_steady hs hfs (fun hexited => absurd (Or.inr (Or.inr hexited)) hearly)
    fun hlate => absurd hlate hearly

theorem of_same_parts (h : Kept before w) (hq : Quiet w.task w'.task)
    (hparts : w'.task.parts = w.task.parts)
    (hstatus : w'.task.status = .completed → w.task.status = .completed) (hfs : w'.fs = w.fs)
    (hexited : w.phase = .exited → w'.phase = .exited)
    (hlate : w.phase = .closing ∨ w.phase = .ending ∨ w.phase = .exited →
      w'.phase = .closing ∨ w'.phase = .ending ∨ w'.phase = .exited) : Kept before w' :=
  h.of_steady (hq.steady hparts hstatus) hfs hexited fun h => ⟨hlate h, hparts⟩

theorem paused (h : Kept before w) (emitDone : Int)
    (htask : w'.task = { w.task with status := .paused, lastEmitDone := emitDone })
    (hfs : w'.fs = w.fs) (hphase : w'.phase = .exited) : Kept before w' := by
  have hnot : w'.task.status ≠ .completed := by
    rw [htask]
    simp
  refine ⟨by rw [htask]; exact h.ctxs, fun hprobing => ?_, fun hprobing => ?_,
    fun hcompleted => absurd hcompleted hnot⟩
  · rw [htask] at hprobing ⊢
    obtain ⟨hunprobed, hbefore, hopen⟩ := h.probing hprobing
    exact ⟨⟨hunprobed.extents, hunprobed.ctxs, hunprobed.supportRange⟩, hfs.trans hbefore, hopen⟩
  · have hprobing' : w.task.probing = false := by rwa [htask] at hprobing
    refine (h.filed hprobing').imp (fun _ => ⟨hnot, Or.inr hphase⟩) fun hfiled => ?_
    refine hfiled.congr ?_ ?_ ?_ hfs <;> rw [htask]

theorem leave (h : Kept before w) (hphase : w.phase = .leaving) : Kept before w.leave := by
  have hearly : ¬ (w.phase = .closing ∨ w.phase = .ending ∨ w.phase = .exited) := by simp [hphase]
  have hclean := Worker.steady_cleanupAll w.task
  rcases aggregateStatus_cases (Worker.cleanupAll w.task) with hs | ⟨heq, hfailed, hall⟩
  · exact h.of_steady_early (hclean.trans hs) rfl hearly
  · have htask : w.leave.task = { Worker.cleanupAll w.task with
        status := .completed, reason := .none } := heq
    have hprobing := h.probing_eq_false hall
    have hfiled := (h.filed hprobing).resolve_left fun hstuck => by
      rcases hstuck.stuck with hfail | hexited
      · have : w.task.failed = false := hfailed
        simp [this] at hfail
      · simp [hphase] at hexited
    refine ⟨?_, fun hp => ?_, fun _ => Or.inr ?_, fun _ => ⟨Or.inl rfl, ?_⟩⟩
    · rw [htask]
      simpa [Worker.cleanupAll] using h.ctxs
    · rw [htask] at hp
      exact absurd (hprobing ▸ hp) (by simp)
    · refine hfiled.congr ?_ ?_ ?_ rfl <;> rw [htask] <;> rfl
    · rw [htask]
      exact hall

theorem of_filed (hctxs : w'.task.partCtx.length = w'.task.parts.length)
    (hprobing : w'.task.probing = false) (hstatus : w'.task.status ≠ .completed)
    (hfiled : Stuck w' ∨ Filed before w' 1) : Kept before w' :=
  ⟨hctxs, fun h => absurd (hprobing ▸ h) (by simp), fun _ => hfiled, fun h => absurd h hstatus⟩

theorem probed (cfg : HttpConfig) (h : Kept before w) {i : Nat} {data : List Byte} {env : WriteEnv}
    (hok : StepKeepsFile w (.body i data env)) (hphase : w.phase = .performing)
    (hstatus : w.task.status ≠ .error) :
    (probed cfg env w.fs w.task i).1.failed = true ∨
      (DownloadWrapper.probed cfg env w.fs w.task i).1.status = w.task.status ∧
        Filed before { w with
          task := (DownloadWrapper.probed cfg env w.fs w.task i).1
          fs := (DownloadWrapper.probed cfg env w.fs w.task i).2 } 0 := by
  cases hprobing : w.task.probing with
  | true => exact h.finalized cfg env i hprobing (hok hprobing)
  | false =>
      rw [probed_of_not_probing cfg env w.fs i hprobing]
      refine Or.inr ⟨rfl, ((h.filed hprobing).resolve_left fun hstuck => ?_).weaken⟩
      rcases hstuck.stuck with hfailed | hexited
      · exact hstatus (status_of_failed hfailed)
      · simp [hphase] at hexited

theorem body (cfg : HttpConfig) (h : Kept before w) {i : Nat} {data : List Byte} {env : WriteEnv}
    (hok : StepKeepsFile w (.body i data env)) (hi : i < w.task.parts.length)
    (hphase : w.phase = .performing) : Kept before (w.body cfg i data env) := by
  have hearly : ¬ (w.phase = .closing ∨ w.phase = .ending ∨ w.phase = .exited) := by simp [hphase]
  have hopen : w.task.status ≠ .completed := fun hcompleted => hearly (h.finished hcompleted).1
  -- giving the connection up or not, it is what `write_cb` leaves that counts
  suffices hleft : Kept before { w with
      task := (writeCb cfg env w.fs w.task i data).task
      fs := (writeCb cfg env w.fs w.task i data).fs } by
    refine hleft.of_steady_early ?_ rfl hearly
    simp only [Worker.body]
    split
    · exact .refl _
    · exact steady_modifyCtx _ i _
  rcases writeCb_cases cfg env w.fs w.task i data with hdoor | ⟨hstatus, hdata, hrest⟩
  · rw [hdoor]
    exact h
  have hctxs := probed_ctxs cfg env w.fs i h.ctxs
  have hover := probed_probing cfg env w.fs w.task i
  have hlength := lt_of_lt_of_le hi (length_le_probed cfg env w.fs w.task i)
  have hprobed := h.probed cfg hok hphase hstatus
  generalize DownloadWrapper.probed cfg env w.fs w.task i = start at hctxs hover hlength hprobed hrest
  obtain ⟨t, fs⟩ := start
  simp only at hctxs hover hlength hprobed hrest
  rcases hrest with ⟨hwhy, heq⟩ | ⟨chunk, hstart, hfit, heq⟩
  · rw [heq]
    rcases hprobed with hfailed | ⟨hsame, hfiled⟩
    · have herror := status_of_failed hfailed
      exact of_filed hctxs hover (by simp [herror]) (Or.inl ⟨by simp [herror], Or.inl hfailed⟩)
    · have hfull := hwhy.resolve_left (hsame ▸ hstatus)
      exact of_filed hctxs hover (by simpa [hsame] using hopen) (Or.inr (hfiled.of_full hlength hfull))
  · rw [heq]
    rcases hprobed with hfailed | ⟨hsame, hfiled⟩
    · exact absurd (status_of_failed hfailed) hstart
    · have hwritten := hfiled.written env hlength hdata hfit
      simp only at hwritten
      have hout := writeChunk_outcome env fs t i chunk
      refine of_filed ?_ ?_ ?_ (Or.inr hwritten)
      · generalize writeChunk env fs t i chunk = out at hout ⊢
        cases hout <;> simpa [writeFailed, ensureOpen] using hctxs
      · generalize writeChunk env fs t i chunk = out at hout ⊢
        cases hout <;> exact hover
      · generalize writeChunk env fs t i chunk = out at hout ⊢
        cases hout <;> exact hsame ▸ hopen

theorem completeUnsized (h : Kept before w) {i : Nat} (hi : i < w.task.parts.length)
    (hearly : ¬ (w.phase = .closing ∨ w.phase = .ending ∨ w.phase = .exited))
    (hprobing : w.task.probing = false) (herror : (w.task.part i).status ≠ .error)
    (hsize : (w.task.part i).size ≤ 0)
    (htotal : w.task.totalSize ≤ 0 ∨ w.task.totalSize = (w.task.part i).done) :
    Kept before (w.modifyTask (·.completeUnsized i)) := by
  have hopen : w.task.status ≠ .completed := fun hcompleted => hearly (h.finished hcompleted).1
  refine of_filed (by simpa [Worker.modifyTask, TaskCtx.completeUnsized] using h.ctxs) hprobing
    hopen ((h.filed hprobing).imp (fun hstuck => ⟨hstuck.status, hstuck.stuck⟩) fun hfiled => ?_)
  obtain ⟨hpath, habsent, bytes, hbytes, hholds⟩ := hfiled
  refine ⟨hpath, habsent, bytes, hbytes, Or.inr ?_⟩
  rcases hholds with ⟨-, hlaid, -⟩ | ⟨p, hparts, hstart, hnonneg, hstate⟩
  · have := hlaid.size_pos (List.mem_map_of_mem (f := PartState.extent) (part_mem hi))
    simp only [PartState.extent] at this
    omega
  obtain rfl : i = 0 := by
    rw [hparts] at hi
    simpa using hi
  have hpart : w.task.part 0 = p := by simp [part, hparts]
  rw [hpart] at herror hsize htotal
  obtain ⟨hleast, hlength, -⟩ := hstate.resolve_left herror
  refine ⟨{ p with status := .completed, reason := .none, size := p.done }, ?_, hstart, hnonneg,
    Or.inr ⟨hleast, hlength, Or.inr ⟨rfl, by simp only; omega, rfl, ?_⟩⟩⟩
  · simp [Worker.modifyTask, TaskCtx.completeUnsized, hparts]
  · simp only [Worker.modifyTask, TaskCtx.completeUnsized, hpart]
    split
    · rfl
    · omega

theorem message (cfg : HttpConfig) (h : Kept before w) {i : Nat} {rc : CurlCode} {httpCode : Int}
    {built : Bool} (hok : StepKeepsFile w (.message i rc httpCode built))
    (hi : i < w.task.partCtx.length) (hphase : w.phase = .draining) :
    Kept before (w.message cfg i rc httpCode built) := by
  have hearly : ¬ (w.phase = .closing ∨ w.phase = .ending ∨ w.phase = .exited) := by simp [hphase]
  have hdrop : Steady w.task (Worker.dropEasy w.task i) := steady_modifyCtx _ i _
  have hsteady : ∀ t active, Steady w.task t → Kept before { w with task := t, active := active } :=
    fun t active hs => h.of_steady_early hs rfl hearly
  simp only [Worker.message]
  split
  · exact hsteady _ _ hdrop
  next hgo =>
    rcases handlePartResult_cases cfg (Worker.dropEasy w.task i) i rc httpCode with hs | ⟨hunsized, heq⟩
    · have hs := hdrop.trans hs
      generalize handlePartResult cfg (Worker.dropEasy w.task i) i rc httpCode = out at hs ⊢
      obtain ⟨t, again⟩ := out
      simp only at hs ⊢
      split
      · exact hsteady _ _ (hs.trans (Worker.steady_addPart t i built))
      · exact hsteady _ _ hs
    · obtain ⟨herror, hsize, hrc, hcode, hwindow⟩ := hunsized
      have hctx : ((Worker.dropEasy w.task i).ctx i).probeWindow = (w.task.ctx i).probeWindow := by
        rw [Worker.dropEasy, modifyCtx_ctx_self hi]
      obtain ⟨hprobing, htotal⟩ := hok hgo ⟨herror, hsize, hrc, hcode, hctx ▸ hwindow⟩
      have hdropped : Kept before (w.modifyTask (Worker.dropEasy · i)) :=
        h.of_steady_early hdrop rfl hearly
      have hcompleted := hdropped.completeUnsized (h.ctxs ▸ hi) hearly hprobing herror hsize htotal
      rw [heq]
      exact hcompleted.of_steady_early (.refl _) rfl hearly

theorem close (h : Kept before w) (hphase : w.phase = .closing) : Kept before w.close := by
  have hending : Kept before { w with phase := .ending } :=
    h.of_steady (.refl _) rfl (by simp [hphase]) fun _ => ⟨Or.inr (Or.inl rfl), rfl⟩
  simp only [Worker.close]
  split
  · refine hending.of_same_parts ?_ rfl id rfl id id
    exact ⟨rfl, rfl, rfl, rfl, by simp [Worker.emitResume, Worker.modifyTask], fun _ => rfl, id⟩
  split
  · have hquiet := (Worker.steady_maybeEmitResume w).toQuiet
    obtain ⟨emitDone, heq⟩ := Worker.maybeEmitResume_task w
    refine hending.of_same_parts hquiet (by rw [heq]) (by rw [heq]; exact id) ?_ id id
    exact Worker.maybeEmitResume_fs w
  · exact hending

theorem enter (h : Kept before w) (multiOk : Bool) (built : Nat → Bool) (hphase : w.phase = .created) :
    Kept before (w.enter multiOk built) := by
  have hearly : ¬ (w.phase = .closing ∨ w.phase = .ending ∨ w.phase = .exited) := by simp [hphase]
  rw [Worker.enter]
  split
  · exact h.of_steady_early (.refl _) rfl hearly
  split
  · obtain ⟨emitDone, heq⟩ :=
      Worker.maybeEmitResume_task (w.modifyTask fun t => { t with status := .paused })
    exact h.paused emitDone heq (Worker.maybeEmitResume_fs _) rfl
  split
  · exact h.of_steady_early (Worker.steady_threadFailed _) rfl hearly
  · refine h.of_steady_early ?_ (by simp) hearly
    rw [Worker.loopHead_task]
    exact Worker.steady_spawnNewParts built w

/-- **One allowed step keeps the file behind the parts.** -/
theorem step {cfg : HttpConfig} (h : Kept before w) {e : Event} (hok : StepKeepsFile w e)
    (hstep : w.step cfg e = some w') : Kept before w' := by
  cases Worker.stepped_of_step hstep with
  | @enter multiOk built hphase => exact h.enter multiOk built hphase
  | @header i line hphase hlive =>
      refine h.of_steady_early ?_ rfl (by simp [hphase])
      simp only [Worker.header]
      split
      · exact steady_headerCb w.task i line
      · exact (steady_headerCb w.task i line).trans (steady_modifyCtx _ i _)
  | @body i data env hphase hlive => exact h.body cfg hok (h.ctxs ▸ Worker.lt_of_live hlive) hphase
  | @performed built hphase =>
      exact h.of_steady_early (Worker.steady_spawnNewParts built w)
        (Worker.spawnNewParts_fs built w) (by simp [hphase])
  | multiFailed hphase => exact h.of_steady_early (.refl _) rfl (by simp [hphase])
  | @message i rc httpCode built hphase heasy => exact h.message cfg hok (Worker.lt_of_easy heasy) hphase
  | drained hphase =>
      refine h.of_steady_early ?_ (by simp) (by simp [hphase])
      rw [Worker.loopHead_task]
      exact Worker.steady_maybeEmitResume w
  | raised hphase =>
      refine h.of_steady_early (Worker.steady_threadFailed _) rfl ?_
      rcases hphase with hphase | hphase <;> simp [hphase]
  | raisedLate hphase =>
      exact h.of_steady (steady_fail _ _) rfl (by simp [hphase]) fun _ => ⟨Or.inr (Or.inl rfl), rfl⟩
  | leave hphase => exact h.leave hphase
  | close hphase => exact h.close hphase
  | exit hphase =>
      simp only [Worker.exit]
      split
      · exact h.paused w.task.lastEmitDone rfl rfl rfl
      · refine h.of_same_parts ?_ rfl id rfl (fun _ => rfl) fun _ => Or.inr (Or.inr rfl)
        exact ⟨rfl, rfl, rfl, rfl, rfl, fun _ => rfl, id⟩
  | pauseRequest | deleteRequest | shutdown =>
      exact h.of_same_parts ⟨rfl, rfl, rfl, rfl, rfl, fun _ => rfl, id⟩ rfl id rfl id id

end Kept

theorem kept_startWorker (url clientId savePath : String) (fs : Fs) :
    Kept fs (startWorker url clientId savePath none fs true) :=
  ⟨rfl, fun _ => ⟨⟨rfl, rfl, rfl⟩, rfl, by simp [startWorker, startFrom, taskCreateNew]⟩,
    fun h => absurd h (by simp [startWorker, startFrom, taskCreateNew]),
    fun h => absurd h (by simp [startWorker, startFrom, taskCreateNew])⟩

theorem Kept.fileComplete {before : Fs} {w : Worker} (h : Kept before w)
    (hcompleted : w.task.status = .completed) : FileComplete before w := by
  obtain ⟨-, hall⟩ := h.finished hcompleted
  have hprobing := h.probing_eq_false hall
  obtain ⟨hpath, habsent, bytes, hbytes, hholds⟩ :=
    (h.filed hprobing).resolve_left fun hstuck => hstuck.status hcompleted
  refine ⟨hpath, habsent, bytes, hbytes, ?_⟩
  rcases hholds with ⟨-, hlaid, hlength, hfull⟩ | ⟨p, hparts, -, -, hstate⟩
  · have hsum : w.task.totalDone = (w.task.extents.map Extent.size).sum := by
      rw [totalDone, extents, List.map_map]
      exact congrArg List.sum (List.map_congr_left fun p hp => hfull p hp (hall p hp))
    rw [hsum, hlaid.sum_size]
    exact ⟨rfl, hlength.symm⟩
  · have hstatus := hall p (hparts ▸ List.mem_singleton_self p)
    obtain ⟨-, hlength, hcase⟩ := hstate.resolve_left (by simp [hstatus])
    obtain ⟨-, -, -, htotal⟩ := hcase.resolve_left fun h => h.2 hstatus
    simp only [totalDone, hparts, List.map_cons, List.map_nil, List.sum_cons, List.sum_nil, add_zero]
    exact ⟨htotal.symm, htotal.trans hlength.symm⟩

def fullStreamRun : List Event :=
  [.enter true fun _ => true, .header 0 "HTTP/1.1 200 OK\r\n", .header 0 "Content-Length: 3\r\n",
    .body 0 [1, 2, 3] grantAll, .performed true fun _ => true, .message 0 .ok 200 true, .drained,
    .leave, .close, .exit]

def emptyBodyRun : List Event :=
  [.enter true fun _ => true, .header 0 "HTTP/1.1 200 OK\r\n", .header 0 "Content-Length: 0\r\n",
    .header 0 "\r\n", .performed true fun _ => true, .message 0 .ok 200 true, .drained, .leave]

end DownloadWrapper
