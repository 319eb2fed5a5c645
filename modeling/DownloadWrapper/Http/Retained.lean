import DownloadWrapper.Http.Layout

/-!
# What the callbacks leave of a connection

Header lines and body chunks collect what the server says, open files and put parts in error; which
part a context is of, whether it owns an easy handle, how its retries stand and whether its part is
complete is decided by results of connections and by the finalization of the probe alone. Results in
turn leave a context its number.
-/

namespace DownloadWrapper

/-- The later context is of the same part, owns a handle when the earlier one does, and has used up
as many retries. -/
structure Kin (c c' : PartCtx) : Prop where
  index : c'.index = c.index
  owns : c'.easy.isSome = c.easy.isSome
  retryCount : c'.retryCount = c.retryCount
  probeWindow : c'.probeWindow = c.probeWindow

theorem Kin.refl (c : PartCtx) : Kin c c := ⟨rfl, rfl, rfl, rfl⟩

theorem Kin.trans {c c' c'' : PartCtx} (h : Kin c c') (h' : Kin c' c'') : Kin c c'' :=
  ⟨h'.index.trans h.index, h'.owns.trans h.owns, h'.retryCount.trans h.retryCount,
    h'.probeWindow.trans h.probeWindow⟩

namespace TaskCtx

theorem ctx_modifyCtx (t : TaskCtx) (i j : Nat) (f : PartCtx → PartCtx) :
    (t.modifyCtx i f).ctx j = if i = j ∧ j < t.partCtx.length then f (t.ctx j) else t.ctx j := by
  by_cases hj : j < t.partCtx.length
  · simp only [ctx, modifyCtx_partCtx, List.getD, List.getElem?_modify, List.getElem?_eq_getElem hj]
    by_cases hij : i = j <;> simp [hij, hj]
  · rw [if_neg fun h => hj h.2, ctx_of_length_le (not_lt.mp hj), ctx_of_length_le (by simpa using hj)]

theorem part_modifyPart (t : TaskCtx) (i j : Nat) (f : PartState → PartState) :
    (t.modifyPart i f).part j = if i = j ∧ j < t.parts.length then f (t.part j) else t.part j := by
  by_cases hj : j < t.parts.length
  · simp only [part, modifyPart_parts, List.getD, List.getElem?_modify, List.getElem?_eq_getElem hj]
    by_cases hij : i = j <;> simp [hij, hj]
  · rw [if_neg fun h => hj h.2]
    simp [part, hj]

/-- Every context of the later task is what the callbacks leave of the earlier one's, and no part's
status changed but into error. -/
structure Retained (t t' : TaskCtx) : Prop where
  length : t'.partCtx.length = t.partCtx.length
  parts : t'.parts.length = t.parts.length
  ctx : ∀ j, Kin (t.ctx j) (t'.ctx j)
  status : ∀ j, (t'.part j).status = (t.part j).status ∨ (t'.part j).status = .error

namespace Retained

variable {t t' t'' : TaskCtx} {i : Nat}

theorem of_eq (hctxs : t'.partCtx = t.partCtx) (hparts : t'.parts = t.parts) : Retained t t' where
  length := by rw [hctxs]
  parts := by rw [hparts]
  ctx j := by
    rw [TaskCtx.ctx, TaskCtx.ctx, hctxs]
    exact .refl _
  status j := Or.inl (by rw [TaskCtx.part, TaskCtx.part, hparts])

theorem refl (t : TaskCtx) : Retained t t := of_eq rfl rfl

theorem trans (h : Retained t t') (h' : Retained t' t'') : Retained t t'' where
  length := h'.length.trans h.length
  parts := h'.parts.trans h.parts
  ctx j := (h.ctx j).trans (h'.ctx j)
  status j := by
    rcases h'.status j with hsame | herror
    · rw [hsame]
      exact h.status j
    · exact Or.inr herror

theorem modifyCtx (t : TaskCtx) (i : Nat) {f : PartCtx → PartCtx} (hf : ∀ c, Kin c (f c)) :
    Retained t (t.modifyCtx i f) where
  length := by simp
  parts := rfl
  ctx j := by
    rw [ctx_modifyCtx]
    split
    · exact hf _
    · exact .refl _
  status _ := Or.inl rfl

theorem mapCtx (t : TaskCtx) {f : PartCtx → PartCtx} (hf : ∀ c, Kin c (f c)) :
    Retained t { t with partCtx := t.partCtx.map f } where
  length := by simp
  parts := rfl
  ctx j := by
    simp only [TaskCtx.ctx, List.getD, List.getElem?_map]
    cases t.partCtx[j]? with
    | none => exact .refl _
    | some c => exact hf c
  status _ := Or.inl rfl

theorem modifyPart (t : TaskCtx) (i : Nat) {f : PartState → PartState}
    (hf : ∀ p, (f p).status = p.status ∨ (f p).status = .error) :
    Retained t (t.modifyPart i f) where
  length := rfl
  parts := by simp
  ctx _ := .refl _
  status j := by
    rw [part_modifyPart]
    split
    · exact hf _
    · exact Or.inl rfl

theorem after (h : Retained t t') (hctxs : t''.partCtx = t'.partCtx) (hparts : t''.parts = t'.parts) :
    Retained t t'' := h.trans (of_eq hctxs hparts)

theorem failPart (t : TaskCtx) (i : Nat) (reason : Reason) : Retained t (t.failPart i reason) :=
  modifyPart t i fun _ => Or.inr rfl

theorem drift (h : Retained t t') (drift : Prop) [Decidable drift] :
    Retained t (if drift then (t'.markDriftError i, false) else (t', true)).1 := by
  split
  · exact (h.trans (failPart t' i .error)).after rfl rfl
  · exact h

theorem applyHeaderLine (t : TaskCtx) (i : Nat) (line : HeaderLine) :
    Retained t (applyHeaderLine t i line).1 := by
  cases line with
  | blank => exact refl t
  | other => exact refl t
  | status code =>
      cases code with
      | none => exact refl t
      | some code =>
          have hsee : Retained t (t.modifyCtx i fun c => { c with seenHttpCode := code }) :=
            modifyCtx t i fun _ => ⟨rfl, rfl, rfl, rfl⟩
          exact hsee.drift _
  | contentRange total =>
      cases total with
      | none => exact refl t
      | some total =>
          have hsee : Retained t (t.seeTotal i total) :=
            (modifyCtx t i (f := fun c => { c with seenTotalSize := total })
              fun _ => ⟨rfl, rfl, rfl, rfl⟩).after rfl rfl
          exact hsee.drift _
  | contentLength length =>
      cases length with
      | none => exact refl t
      | some length =>
          simp only [DownloadWrapper.applyHeaderLine]
          split
          · exact modifyCtx t i fun _ => ⟨rfl, rfl, rfl, rfl⟩
          · exact refl t
  | contentDisposition name =>
      simp only [DownloadWrapper.applyHeaderLine]
      split
      · exact of_eq rfl rfl
      · exact refl t
  | etag value =>
      have hsee : Retained t (t.seeEtag i value) :=
        (modifyCtx t i (f := fun c => { c with seenEtag := value })
          fun _ => ⟨rfl, rfl, rfl, rfl⟩).after rfl rfl
      exact hsee.drift _
  | lastModified value =>
      have hsee : Retained t (t.seeLastModified i value) :=
        (modifyCtx t i (f := fun c => { c with seenLastModified := value })
          fun _ => ⟨rfl, rfl, rfl, rfl⟩).after rfl rfl
      exact hsee.drift _

theorem headerCb (t : TaskCtx) (i : Nat) (line : String) : Retained t (headerCb t i line).1 := by
  rw [DownloadWrapper.headerCb]
  split
  · exact refl t
  · exact applyHeaderLine t i _

theorem abortEasy (t : TaskCtx) (i : Nat) : Retained t (Worker.abortEasy t i) :=
  modifyCtx t i fun _ => ⟨rfl, Option.isSome_map, rfl, rfl⟩

theorem of_chunk {fs : Fs} {data : List Byte} {out : Written} (h : ChunkOutcome fs t i data out) :
    Retained t out.task := by
  have hopen (granted : Bool) : Retained t (t.ensureOpen fs i granted) :=
    modifyCtx t i fun _ => ⟨rfl, rfl, rfl, rfl⟩
  cases h with
  | missing => exact (failPart t i .error).after rfl rfl
  | failed granted message landed =>
      exact ((hopen granted).trans (failPart _ i .error)).after rfl rfl
  | stored granted => exact (hopen granted).trans (modifyPart _ i fun _ => Or.inl rfl)

theorem writeCb (cfg : HttpConfig) (env : WriteEnv) (fs : Fs) (t : TaskCtx) (i : Nat)
    (data : List Byte) :
    Retained t (writeCb cfg env fs t i data).task ∨
      Retained (probed cfg env fs t i).1 (DownloadWrapper.writeCb cfg env fs t i data).task := by
  rcases writeCb_cases cfg env fs t i data with hdoor | ⟨-, -, ⟨-, heq⟩ | ⟨chunk, -, -, heq⟩⟩
  · exact Or.inl (hdoor ▸ refl t)
  · exact Or.inr (heq ▸ refl _)
  · exact Or.inr (heq ▸ of_chunk (writeChunk_outcome env _ _ i chunk))

end Retained

/-! ### Requests -/

structure SameRequests (t t' : TaskCtx) : Prop where
  cancelReq : t'.cancelReq = t.cancelReq
  pauseReq : t'.pauseReq = t.pauseReq
  probing : t'.probing = true → t.probing = true

namespace SameRequests

variable {t t' t'' : TaskCtx}

theorem refl (t : TaskCtx) : SameRequests t t := ⟨rfl, rfl, id⟩

theorem trans (h : SameRequests t t') (h' : SameRequests t' t'') : SameRequests t t'' :=
  ⟨h'.cancelReq.trans h.cancelReq, h'.pauseReq.trans h.pauseReq, fun hp => h.probing (h'.probing hp)⟩

theorem headerCb (t : TaskCtx) (i : Nat) (line : String) :
    SameRequests t (headerCb t i line).1 := by
  rw [DownloadWrapper.headerCb]
  split
  · exact refl t
  · cases parseHeaderLine line with
    | blank | other => exact refl t
    | status code | contentRange code | contentLength code =>
        cases code with
        | none => exact refl t
        | some code =>
            simp only [applyHeaderLine]
            split <;> exact ⟨rfl, rfl, id⟩
    | contentDisposition name | etag name | lastModified name =>
        simp only [applyHeaderLine]
        split <;> exact ⟨rfl, rfl, id⟩

theorem probed (cfg : HttpConfig) (env : WriteEnv) (fs : Fs) (t : TaskCtx) (i : Nat) :
    SameRequests t (probed cfg env fs t i).1 := by
  rw [DownloadWrapper.probed]
  split
  next hprobing =>
    have hany : ∀ t' : TaskCtx, t'.cancelReq = t.cancelReq → t'.pauseReq = t.pauseReq →
        SameRequests t t' := fun _ hcancel hpause => ⟨hcancel, hpause, fun _ => hprobing⟩
    rcases finalizeProbing_cases cfg env.probe fs t i with ⟨message, heq⟩ | heq
    · rw [heq]
      exact hany _ rfl rfl
    · rw [heq, layOut]
      split <;> exact hany _ rfl rfl
  next => exact refl t

theorem of_chunk {fs : Fs} {i : Nat} {data : List Byte} {out : Written}
    (h : ChunkOutcome fs t i data out) : SameRequests t out.task := by
  cases h <;> exact ⟨rfl, rfl, id⟩

end SameRequests

theorem probed_status (cfg : HttpConfig) (env : WriteEnv) (fs : Fs) (t : TaskCtx) (i : Nat) :
    (probed cfg env fs t i).1.status = t.status ∨ (probed cfg env fs t i).1.status = .error := by
  rw [probed]
  split
  · rcases finalizeProbing_cases cfg env.probe fs t i with ⟨message, heq⟩ | heq
    · rw [heq]
      exact Or.inr rfl
    · rw [heq, layOut_status]
      exact Or.inl rfl
  · exact Or.inl rfl

theorem writeCb_status (cfg : HttpConfig) (env : WriteEnv) (fs : Fs) (t : TaskCtx) (i : Nat)
    (data : List Byte) : (writeCb cfg env fs t i data).task.status = t.status ∨
      (writeCb cfg env fs t i data).task.status = .error := by
  rcases writeCb_cases cfg env fs t i data with hdoor | ⟨-, -, ⟨-, heq⟩ | ⟨chunk, -, -, heq⟩⟩
  · exact Or.inl (hdoor ▸ rfl)
  · exact heq ▸ probed_status cfg env fs t i
  · have houtcome := writeChunk_outcome env (probed cfg env fs t i).2 (probed cfg env fs t i).1 i chunk
    rw [← heq] at houtcome
    rw [houtcome.status]
    exact probed_status cfg env fs t i

def Numbered (t : TaskCtx) : Prop := ∀ j < t.partCtx.length, (t.ctx j).index = j

namespace Numbered

variable {t t' : TaskCtx} {i : Nat}

theorem of_retained (h : t.Numbered) (hr : Retained t t') : t'.Numbered := by
  intro j hj
  rw [(hr.ctx j).index]
  exact h j (hr.length ▸ hj)

theorem modifyCtx (h : t.Numbered) {f : PartCtx → PartCtx} (hf : ∀ c, (f c).index = c.index) :
    (t.modifyCtx i f).Numbered := by
  intro j hj
  rw [← h j (by simpa using hj), ctx_modifyCtx]
  split
  · exact hf _
  · rfl

theorem mapCtx (h : t.Numbered) {f : PartCtx → PartCtx} (hf : ∀ c, (f c).index = c.index) :
    Numbered { t with partCtx := t.partCtx.map f } := by
  intro j hj
  have hj' : j < t.partCtx.length := by simpa using hj
  rw [← h j hj']
  simp [TaskCtx.ctx, hj', hf]

theorem handlePartResult (cfg : HttpConfig) (h : t.Numbered) (rc : CurlCode) (httpCode : Int) :
    (handlePartResult cfg t i rc httpCode).1.Numbered := by
  simp only [DownloadWrapper.handlePartResult]
  split
  · exact h
  split
  · exact h
  split
  · exact h.modifyCtx fun _ => rfl
  split
  · exact h
  split
  · split
    · exact h.modifyCtx fun _ => rfl
    · exact h
  · split
    · exact h.modifyCtx fun _ => rfl
    · exact h

theorem addPart (h : t.Numbered) (built : Bool) : (Worker.addPart t i built).Numbered := by
  rw [Worker.addPart]
  split
  · exact h.modifyCtx fun _ => rfl
  · exact h

end Numbered

end TaskCtx

end DownloadWrapper
