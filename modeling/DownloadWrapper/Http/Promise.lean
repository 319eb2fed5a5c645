import DownloadWrapper.Http.Sourced

/-!
# What the connections bring

The invariant of one connection, from the request to the last byte: as long as header lines are to
come, what they will say is what the task will know; once they have been heard, the bytes to come
belong where the part of the connection stands.
-/

namespace DownloadWrapper

open Pin TaskCtx

/-- A line to come says it, unless it is known; none says anything else. -/
structure Owed {α : Type*} (read : HeaderLine → Option α) (value : α) (lines : List String)
    (known : Prop) : Prop where
  only : ∀ line ∈ lines, ∀ x ∈ read (parseHeaderLine line), x = value
  known : known ∨ ∃ line ∈ lines, read (parseHeaderLine line) = some value

namespace Owed

variable {α : Type*} {read : HeaderLine → Option α} {value : α} {line : String}
  {lines : List String} {known known' : Prop}

theorem mono (h : Owed read value lines known) (hknown : known → known') :
    Owed read value lines known' := ⟨h.only, h.known.imp_left hknown⟩

theorem of_nil (h : Owed read value [] known) : known := h.known.resolve_right (by simp)

theorem hear (h : Owed read value (line :: lines) known) (hkeep : known → known')
    (hline : read (parseHeaderLine line) = some value → known') : Owed read value lines known' where
  only l hl := h.only l (List.mem_cons_of_mem line hl)
  known := by
    rcases h.known with hknown | ⟨l, hl, htells⟩
    · exact Or.inl (hkeep hknown)
    · rcases List.mem_cons.mp hl with rfl | hl
      · exact Or.inl (hline htells)
      · exact Or.inr ⟨l, hl, htells⟩

theorem of_block {b : Block} (honly : ∀ x ∈ b.header.filterMap read, x = value)
    (hknown : known ∨ b.header.filterMap read ≠ []) : Owed read value b.lines known where
  only line hline x hx :=
    honly x (List.mem_filterMap.mpr ⟨_, List.mem_map_of_mem hline, hx⟩)
  known := by
    refine hknown.imp_right fun hne => ?_
    obtain ⟨x, hx⟩ := List.exists_mem_of_ne_nil _ hne
    obtain ⟨parsed, hparsed, htells⟩ := List.mem_filterMap.mp hx
    obtain ⟨line, hline, rfl⟩ := List.mem_map.mp hparsed
    exact ⟨line, hline, honly x hx ▸ htells⟩

end Owed

structure Unmoved (i : Nat) (t t' : TaskCtx) : Prop where
  easy : ∀ easy, (t'.ctx i).easy = some easy → (t.ctx i).easy = some easy
  place : (t'.part i).start + (t'.part i).done = (t.part i).start + (t.part i).done
  etag : t.etag ≠ "" → t'.etag = t.etag
  total : 0 < t.totalSize → t'.totalSize = t.totalSize
  probing : t'.probing → t.probing ∧ (t'.ctx i).seenHttpCode = (t.ctx i).seenHttpCode ∧
    (t'.ctx i).seenTotalSize = (t.ctx i).seenTotalSize

namespace Unmoved

variable {i j : Nat} {t t' : TaskCtx}

theorem place_of_quiet (h : Quiet t t') (i : Nat) :
    (t'.part i).start + (t'.part i).done = (t.part i).start + (t.part i).done := by
  have hextent : ∀ u : TaskCtx, (u.part i).extent = (u.extents[i]?).getD default := by
    intro u
    simp only [part, List.getD, extents, List.getElem?_map]
    cases u.parts[i]? <;> rfl
  have hsame : (t'.part i).extent = (t.part i).extent := by rw [hextent, hextent, h.extents]
  have hstart := congrArg Extent.start hsame
  have hdone := congrArg Extent.done hsame
  simp only [PartState.extent] at hstart hdone
  rw [hstart, hdone]

theorem of_quiet (h : Quiet t t') (hetag : t.etag ≠ "" → t'.etag = t.etag)
    (hctx : t'.ctx i = t.ctx i) : Unmoved i t t' where
  easy easy he := hctx ▸ he
  place := place_of_quiet h i
  etag := hetag
  total := h.total
  probing hprobing := ⟨h.probing ▸ hprobing, by rw [hctx], by rw [hctx]⟩

theorem of_beside (h : Quiet t t') (hbeside : Beside i t t') (hne : j ≠ i) : Unmoved j t t' :=
  of_quiet h hbeside.etag (hbeside.ctx j hne)

theorem refl (t : TaskCtx) : Unmoved i t t := of_quiet (.refl t) (fun _ => rfl) rfl

theorem trans {t'' : TaskCtx} (h : Unmoved i t t') (h' : Unmoved i t' t'') : Unmoved i t t'' where
  easy easy heasy := h.easy easy (h'.easy easy heasy)
  place := h'.place.trans h.place
  etag hne := by
    have hetag := h.etag hne
    rw [h'.etag (hetag ▸ hne), hetag]
  total hpos := by
    have htotal := h.total hpos
    rw [h'.total (htotal ▸ hpos), htotal]
  probing hprobing := by
    obtain ⟨hprobing', hseen', hsize'⟩ := h'.probing hprobing
    obtain ⟨hprobing'', hseen, hsize⟩ := h.probing hprobing'
    exact ⟨hprobing'', hseen'.trans hseen, hsize'.trans hsize⟩

theorem of_same (hparts : t'.parts = t.parts) (hctxs : t'.partCtx = t.partCtx)
    (hetag : t'.etag = t.etag) (htotal : t'.totalSize = t.totalSize)
    (hprobing : t'.probing = t.probing) : Unmoved i t t' where
  easy easy heasy := by
    rw [ctx, hctxs] at heasy
    exact heasy
  place := by rw [part, hparts, part]
  etag _ := hetag
  total _ := htotal
  probing h := by
    rw [ctx, hctxs]
    exact ⟨hprobing ▸ h, rfl, rfl⟩

theorem of_writeCb (cfg : HttpConfig) (env : WriteEnv) (fs : Fs) (data : List Byte)
    (hprobing : t.probing = false) (hne : j ≠ i) :
    Unmoved j t (writeCb cfg env fs t i data).task := by
  rcases writeCb_cases cfg env fs t i data with hdoor | ⟨-, -, hrest⟩
  · rw [hdoor]
    exact refl t
  rw [probed_of_not_probing cfg env fs i hprobing] at hrest
  rcases hrest with ⟨-, heq⟩ | ⟨chunk, -, -, heq⟩
  · rw [heq]
    exact refl t
  rw [heq]
  have hout := writeChunk_outcome env fs t i chunk
  generalize writeChunk env fs t i chunk = out at hout ⊢
  have hbeside := Beside.of_chunk hout
  cases hout with
  | missing => exact of_beside (steady_writeFailed t i _).toQuiet hbeside hne
  | failed granted message landed =>
      exact of_beside ((steady_modifyCtx t i _).trans (steady_writeFailed _ i message)).toQuiet
        hbeside hne
  | stored granted =>
      have hctx := hbeside.ctx j hne
      have hpart : ((t.ensureOpen fs i granted).modifyPart i fun p =>
          { p with done := p.done + chunk.length }).part j = t.part j := by
        simp [part, ensureOpen, List.getD, Ne.symm hne]
      refine ⟨fun easy heasy => hctx ▸ heasy, by rw [hpart], hbeside.etag, fun _ => rfl, fun h => ?_⟩
      have hstill : t.probing = true := h
      simp [hprobing] at hstill

theorem live (h : Unmoved i t t') (hlive : Worker.live t' i = true) : Worker.live t i = true := by
  simp only [Worker.live] at hlive ⊢
  cases heasy : (t'.ctx i).easy with
  | none => simp [heasy] at hlive
  | some easy =>
      rw [h.easy easy heasy]
      simpa [heasy] using hlive

end Unmoved

section Proper

variable {V : Type*} (R : Resource V) (t : TaskCtx) (i : Nat)

structure Promised (d : Delivery V) : Prop where
  code : d.answer.block.code = 206 ∨ d.answer.block.code = 200
  etag : Owed HeaderLine.etag? (R.etag d.answer.version) d.lines
    (t.etag = R.etag d.answer.version)
  total : Owed HeaderLine.total? (R.length d.answer.version) d.lines
    (d.answer.block.code = 206 → t.totalSize = R.length d.answer.version)
  body : d.body <+: (R.bytes d.answer.version).drop ((t.part i).start + (t.part i).done).toNat ∨
    d.answer.block.code = 200 ∧ d.body <+: R.bytes d.answer.version
  place : Owed HeaderLine.code? d.answer.block.code d.lines
    (d.body <+: (R.bytes d.answer.version).drop ((t.part i).start + (t.part i).done).toNat)
  length : d.answer.block.code = 200 → t.probing →
    (t.ctx i).seenHttpCode ≠ 206 ∧
      ((t.ctx i).seenTotalSize ≤ 0 ∨ (t.ctx i).seenTotalSize = R.length d.answer.version) ∧
      Owed HeaderLine.length? (R.length d.answer.version) d.lines
        ((t.ctx i).seenTotalSize = R.length d.answer.version)

/-- A request asks for the bytes from where its part stands on, and has heard nothing; an answer,
while libcurl still calls back, brings nothing or what it promised. -/
def Proper : Option (Delivery V) → Prop
  | none => ∀ easy, (t.ctx i).easy = some easy →
      easy.first = (t.part i).start + (t.part i).done ∧
        (t.probing → (t.ctx i).seenHttpCode = 0 ∧ (t.ctx i).seenTotalSize = 0)
  | some d => Worker.live t i = true → d.body = [] ∨ Promised R t i d

end Proper

variable {V : Type*} {R : Resource V} {t t' : TaskCtx} {i : Nat} {d : Delivery V}

theorem Promised.of_unmoved (h : Promised R t i d) (hu : Unmoved i t t') : Promised R t' i d where
  code := h.code
  etag := h.etag.mono fun hknown => (hu.etag (hknown ▸ R.etag_ne _)).trans hknown
  total := h.total.mono fun hknown hcode => by
    have htotal := hknown hcode
    rw [hu.total (htotal ▸ R.length_pos _), htotal]
  body := hu.place ▸ h.body
  place := hu.place ▸ h.place
  length hcode hprobing := by
    obtain ⟨hprobing, hseen, hsize⟩ := hu.probing hprobing
    rw [hseen, hsize]
    exact h.length hcode hprobing

theorem Proper.of_unmoved {o : Option (Delivery V)} (h : Proper R t i o) (hu : Unmoved i t t') :
    Proper R t' i o := by
  cases o with
  | none =>
      intro easy heasy
      obtain ⟨hfirst, hfresh⟩ := h easy (hu.easy easy heasy)
      refine ⟨hfirst.trans hu.place.symm, fun hprobing => ?_⟩
      obtain ⟨hprobing, hseen, hsize⟩ := hu.probing hprobing
      rw [hseen, hsize]
      exact hfresh hprobing
  | some d =>
      intro hlive
      exact (h (hu.live hlive)).imp_right fun hpromised => hpromised.of_unmoved hu

theorem proper_of_easy_none (o : Option (Delivery V)) (h : (t.ctx i).easy = none) :
    Proper R t i o := by
  cases o with
  | none =>
      intro easy heasy
      simp [h] at heasy
  | some d =>
      intro hlive
      simp [Worker.live, h] at hlive

theorem Proper.answered {a : Answer V} {easy : Easy} (h : Proper R t i none)
    (heasy : (t.ctx i).easy = some easy) (hserves : Serves R easy a) :
    Proper R t i (some { answer := a, lines := a.block.lines, body := a.body }) := by
  intro _
  obtain ⟨hfirst, hfresh⟩ := h easy heasy
  rcases hserves with ⟨-, hbody⟩ | ⟨⟨hetags, hetag⟩, htotal, hkind⟩
  · exact Or.inl hbody
  refine Or.inr ?_
  have hheaders := headers_singleton a.block
  simp only [etags, totals, hheaders] at hetags hetag htotal hkind
  rcases hkind with ⟨hcode, htotals, hbody⟩ | ⟨hcode, ⟨hlengths, hlength⟩, hbody⟩
  · have hpiece : a.body <+:
        (R.bytes a.version).drop ((t.part i).start + (t.part i).done).toNat :=
      hfirst ▸ hbody.trans (easy.requested_prefix _)
    exact {
      code := Or.inl hcode
      etag := .of_block hetag (Or.inr hetags)
      total := .of_block htotal (Or.inr htotals)
      body := Or.inl hpiece
      place := .of_block (a.block.code?_eq) (Or.inl hpiece)
      length := fun hfull => by simp [hcode] at hfull }
  · have hcounted : countedLengths [a.block] = a.block.header.filterMap HeaderLine.length? := by
      simp [countedLengths, hcode]
    rw [hcounted] at hlengths hlength
    exact {
      code := Or.inr hcode
      etag := .of_block hetag (Or.inr hetags)
      total := .of_block htotal (Or.inl fun hpartial => by simp [hcode] at hpartial)
      body := Or.inr ⟨hcode, hbody⟩
      place := .of_block (a.block.code?_eq) (Or.inr (by simp [a.block.header_eq, HeaderLine.code?]))
      length := fun _ hprobing => by
        obtain ⟨hseen, hsize⟩ := hfresh hprobing
        exact ⟨by simp [hseen], Or.inl hsize.le, .of_block hlength (Or.inr hlengths)⟩ }

end DownloadWrapper
