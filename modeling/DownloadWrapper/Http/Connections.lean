import DownloadWrapper.Http.Promise
import Mathlib.Data.List.Infix

/-!
# One event at a connection

What an event does to the connection it is about, and to the others: a line that is heard turns a
promise into something known, a chunk moves the part forward by what it brought, and the end of a
connection leaves room for a new request.
-/

namespace DownloadWrapper

open Pin TaskCtx

variable {V : Type*} {R : Resource V} {t t' : TaskCtx} {i j : Nat} {d : Delivery V}

theorem seen_of_consumed {line : String} (hi : i < t.partCtx.length)
    (hconsumed : (headerCb t i line).2 = true) :
    Seen.Accepts (t.fullStreamOk i) (t.seen i) [parseHeaderLine line] ((headerCb t i line).1.seen i) ∧
      (((headerCb t i line).1.ctx i).seenHttpCode, ((headerCb t i line).1.ctx i).seenTotalSize) =
        Seen.track t.probing ((t.ctx i).seenHttpCode, (t.ctx i).seenTotalSize)
          (parseHeaderLine line) := by
  have hdoor : ¬ (t.status = .error ∨ t.cancelReq ∨ line = "") := by
    intro hdoor
    rw [headerCb, if_pos hdoor] at hconsumed
    simp at hconsumed
  simp only [not_or, Bool.not_eq_true] at hdoor
  have hacts := headerCb_actsAs hdoor.1 hdoor.2.1 hi hdoor.2.2
  cases happly : (t.seen i).apply t.probing (t.fullStreamOk i) (parseHeaderLine line) with
  | none =>
      rw [happly] at hacts
      exact absurd hconsumed (by simp [hacts.1])
  | some s =>
      rw [happly] at hacts
      obtain ⟨-, hseen, -⟩ := hacts
      have happlied : (t.seen i).applyAll t.probing (t.fullStreamOk i) [parseHeaderLine line]
          = some s := by
        rw [Seen.applyAll, happly]
        rfl
      obtain ⟨haccepts, -, htrack⟩ := (Seen.applyAll_eq_some_iff _ _ _ _ _).mp happlied
      rw [← hseen] at haccepts htrack
      exact ⟨haccepts, htrack⟩

/-- A line of an answer with the whole version takes the connection's size no further than to its
length. -/
theorem track_whole {parsed : HeaderLine} {code size n : Int} (hcode : code ≠ 206)
    (hsize : size ≤ 0 ∨ size = n) (hcodes : ∀ c, parsed.code? = some c → c ≠ 206)
    (htotals : ∀ total, parsed.total? = some total → total = n)
    (hlengths : ∀ length, parsed.length? = some length → length = n) :
    (Seen.track true (code, size) parsed).1 ≠ 206 ∧
      ((Seen.track true (code, size) parsed).2 = size ∧ parsed.length? ≠ some n ∨
        (Seen.track true (code, size) parsed).2 = n) := by
  have hsilent : Seen.track true (code, size) parsed = (code, size) → parsed.length? = none →
      (Seen.track true (code, size) parsed).1 ≠ 206 ∧
        ((Seen.track true (code, size) parsed).2 = size ∧ parsed.length? ≠ some n ∨
          (Seen.track true (code, size) parsed).2 = n) := by
    intro hsame hnone
    rw [hsame]
    exact ⟨hcode, Or.inl ⟨rfl, by simp [hnone]⟩⟩
  cases parsed with
  | status status =>
      cases status with
      | none => exact hsilent rfl rfl
      | some status => exact ⟨hcodes status rfl, Or.inl ⟨rfl, by simp [HeaderLine.length?]⟩⟩
  | contentRange total =>
      cases total with
      | none => exact hsilent rfl rfl
      | some total => exact ⟨hcode, Or.inr (htotals total rfl)⟩
  | contentLength length =>
      cases length with
      | none => exact hsilent rfl rfl
      | some length =>
          have hsame := hlengths length rfl
          rw [Seen.track]
          by_cases hcounts : size ≤ 0
          · rw [if_pos ⟨hcounts, rfl, hcode⟩]
            exact ⟨hcode, Or.inr hsame⟩
          · rw [if_neg fun hall => hcounts hall.1]
            exact ⟨hcode, Or.inr (hsize.resolve_left hcounts)⟩
  | _ => exact hsilent rfl rfl

theorem Promised.heard (h : Promised R t i d) {line : String} {lines : List String}
    (hlines : d.lines = line :: lines) (hi : i < t.partCtx.length)
    (hfull : t.fullStreamOk i = true → (t.part i).start + (t.part i).done = 0)
    (hconsumed : (headerCb t i line).2 = true) :
    Promised R (headerCb t i line).1 i { d with lines := lines } := by
  obtain ⟨haccepts, htrack⟩ := seen_of_consumed hi hconsumed
  have hquiet := (steady_headerCb t i line).toQuiet
  have hbeside : Beside i t (headerCb t i line).1 := Beside.headerCb t line
  have hplace := Unmoved.place_of_quiet hquiet i
  have hpos := R.length_pos d.answer.version
  obtain ⟨hcode, hetag, htotal, hbody, hhere, hlength⟩ := h
  rw [hlines] at hetag htotal hhere hlength
  generalize (headerCb t i line).1 = t' at haccepts htrack hquiet hbeside hplace ⊢
  refine ⟨hcode, hetag.hear ?_ ?_, htotal.hear ?_ ?_, hplace ▸ hbody, hplace ▸ hhere.hear id ?_, ?_⟩
  · exact fun hknown => (hbeside.etag (hknown ▸ R.etag_ne _)).trans hknown
  · exact fun htells => (eq_of_pinAll_of_mem haccepts.etag (by simp [htells]) (R.etag_ne _)).symm
  · exact fun hknown hpartial => (hquiet.total ((hknown hpartial).symm ▸ hpos)).trans (hknown hpartial)
  · exact fun htells _ =>
      (eq_of_pinAll_of_mem haccepts.total (by simp [htells]) (not_le.mpr hpos)).symm
  · intro htells
    rcases hbody with hpiece | ⟨hwhole, hpiece⟩
    · exact hpiece
    · -- a full stream is accepted into one part that has nothing yet
      have hok := haccepts.status d.answer.block.code (by simp [htells]) hwhole
      rw [hfull hok, Int.toNat_zero, List.drop_zero]
      exact hpiece
  · intro hwhole hprobing
    have hprobing' : t.probing = true := hquiet.probing ▸ hprobing
    obtain ⟨hseen, hsize, howed⟩ := hlength hwhole hprobing'
    have hcodes := hhere.only line List.mem_cons_self
    have htotals := htotal.only line List.mem_cons_self
    have hlengths := howed.only line List.mem_cons_self
    rw [hprobing'] at htrack
    have hcodes' : ∀ code, (parseHeaderLine line).code? = some code → code ≠ 206 := by
      intro code hsaid
      rw [hcodes code hsaid, hwhole]
      decide
    have htracked := track_whole hseen hsize hcodes' htotals hlengths
    rw [← htrack] at htracked
    dsimp only at htracked
    obtain ⟨hseen', hsize'⟩ := htracked
    refine ⟨hseen', ?_, howed.hear (fun hknown => ?_) fun htells => ?_⟩
    · rcases hsize' with ⟨hsame, -⟩ | hknown
      · rw [hsame]
        exact hsize
      · exact Or.inr hknown
    · rcases hsize' with ⟨hsame, -⟩ | hknown'
      · exact hsame.trans hknown
      · exact hknown'
    · rcases hsize' with ⟨-, hsilent⟩ | hknown
      · exact absurd htells hsilent
      · exact hknown

theorem live_abortEasy (t : TaskCtx) (i : Nat) : Worker.live (Worker.abortEasy t i) i = false := by
  by_cases hi : i < t.partCtx.length
  · simp only [Worker.live, Worker.abortEasy, modifyCtx_ctx_self hi]
    cases (t.ctx i).easy <;> rfl
  · rw [Worker.live, ctx_of_length_le (by simpa [Worker.abortEasy] using hi)]

theorem Proper.header {w : Worker} (h : Proper R w.task i (some d)) {line : String}
    {lines : List String} (hlines : d.lines = line :: lines) (hlive : Worker.live w.task i = true)
    (hfull : w.task.fullStreamOk i = true →
      (w.task.part i).start + (w.task.part i).done = 0) :
    Proper R (w.header i line).task i (some { d with lines := lines }) := by
  intro hlive'
  refine (h hlive).imp_right fun hpromised => ?_
  simp only [Worker.header] at hlive' ⊢
  split at hlive'
  next hgo =>
    rw [if_pos hgo]
    rcases hgo with hconsumed | rfl
    · exact hpromised.heard hlines (Worker.lt_of_live hlive) hfull hconsumed
    · -- an empty line says nothing
      have hsame : (headerCb w.task i "").1 = w.task := by simp [headerCb]
      have hblank : parseHeaderLine "" = .blank := by decide
      obtain ⟨hcode, hetag, htotal, hbody, hhere, hlength⟩ := hpromised
      rw [hlines] at hetag htotal hhere hlength
      rw [hsame]
      refine ⟨hcode, hetag.hear id ?_, htotal.hear id ?_, hbody, hhere.hear id ?_, ?_⟩
      · simp [hblank, HeaderLine.etag?]
      · simp [hblank, HeaderLine.total?]
      · simp [hblank, HeaderLine.code?]
      · intro hwhole hprobing
        obtain ⟨hseen, hsize, howed⟩ := hlength hwhole hprobing
        exact ⟨hseen, hsize, howed.hear id (by simp [hblank, HeaderLine.length?])⟩
  · simp [live_abortEasy] at hlive'

/-! ### Chunks -/

theorem probed_easy (cfg : HttpConfig) (env : WriteEnv) (fs : Fs) (t : TaskCtx) (i j : Nat) :
    ((probed cfg env fs t i).1.ctx j).easy = (t.ctx j).easy := by
  rw [probed]
  split
  · rcases finalizeProbing_cases cfg env.probe fs t i with ⟨message, heq⟩ | heq
    · rw [heq]
      rfl
    · rw [heq]
      exact layOut_easy cfg (acquirePath env.probe fs (t.settleProbe env.probe.urlLib i)).1 _ j
  · rfl

theorem probed_etag (cfg : HttpConfig) (env : WriteEnv) (fs : Fs) (t : TaskCtx) (i : Nat) :
    (probed cfg env fs t i).1.etag = t.etag := by
  rw [probed]
  split
  · exact (finalizeProbing_fields cfg env.probe fs t i).2.1
  · rfl

theorem probed_total (cfg : HttpConfig) (env : WriteEnv) (fs : Fs) (t : TaskCtx) (i : Nat)
    (hpos : 0 < t.totalSize) : (probed cfg env fs t i).1.totalSize = t.totalSize := by
  rw [probed]
  split
  · rw [(finalizeProbing_fields cfg env.probe fs t i).1]
    exact if_neg fun hnone => absurd hnone.1 (not_le.mpr hpos)
  · rfl

structure Passed (t t' : TaskCtx) : Prop where
  etag : t'.etag = t.etag
  total : 0 < t.totalSize → t'.totalSize = t.totalSize
  easy : ∀ j, (t'.ctx j).easy = (t.ctx j).easy

theorem ChunkOutcome.passed {fs : Fs} {data : List Byte} {out : Written}
    (h : ChunkOutcome fs t i data out) : Passed t out.task := by
  have hopen : ∀ granted j, ((t.ensureOpen fs i granted).ctx j).easy = (t.ctx j).easy :=
    fun granted j => modifyCtx_easy t i j _ fun _ => rfl
  cases h with
  | missing => exact ⟨rfl, fun _ => rfl, fun _ => rfl⟩
  | failed granted message landed => exact ⟨rfl, fun _ => rfl, hopen granted⟩
  | stored granted => exact ⟨rfl, fun _ => rfl, hopen granted⟩

theorem writeCb_passed (cfg : HttpConfig) (env : WriteEnv) (fs : Fs) (t : TaskCtx) (i : Nat)
    (data : List Byte) : Passed t (writeCb cfg env fs t i data).task := by
  have hprobed : Passed t (probed cfg env fs t i).1 :=
    ⟨probed_etag cfg env fs t i, probed_total cfg env fs t i, probed_easy cfg env fs t i⟩
  rcases writeCb_cases cfg env fs t i data with hdoor | ⟨-, -, ⟨-, heq⟩ | ⟨chunk, -, -, heq⟩⟩
  · rw [hdoor]
    exact ⟨rfl, fun _ => rfl, fun _ => rfl⟩
  · rw [heq]
    exact hprobed
  · rw [heq]
    have hpassed := (writeChunk_outcome env (probed cfg env fs t i).2 (probed cfg env fs t i).1 i
      chunk).passed
    refine ⟨hpassed.etag.trans hprobed.etag, fun hpos => ?_, fun j =>
      (hpassed.easy j).trans (hprobed.easy j)⟩
    have htotal := hprobed.total hpos
    rw [hpassed.total (htotal ▸ hpos), htotal]

theorem writeCb_probing (cfg : HttpConfig) (env : WriteEnv) (fs : Fs) (t : TaskCtx) (i : Nat)
    (data : List Byte) : writeCb cfg env fs t i data = ⟨t, fs, 0, none⟩ ∨
      (writeCb cfg env fs t i data).task.probing = false := by
  rcases writeCb_cases cfg env fs t i data with hdoor | ⟨-, -, ⟨-, heq⟩ | ⟨chunk, -, -, heq⟩⟩
  · exact Or.inl hdoor
  · rw [heq]
    exact Or.inr (probed_probing cfg env fs t i)
  · rw [heq]
    have hout := writeChunk_outcome env (probed cfg env fs t i).2 (probed cfg env fs t i).1 i chunk
    exact Or.inr (hout.probing.trans (probed_probing cfg env fs t i))

theorem Proper.body {w : Worker} (cfg : HttpConfig) (env : WriteEnv) (h : Proper R w.task i (some d))
    {data : List Byte} (hlines : d.lines = []) (hlive : Worker.live w.task i = true)
    (hi : i < w.task.parts.length)
    (hunprobed : w.task.probing → w.task.Unprobed)
    (hplace : 0 ≤ (w.task.part i).start + (w.task.part i).done) :
    Proper R (w.body cfg i data env).task i (some { d with body := d.body.drop data.length }) := by
  intro hlive'
  simp only [Worker.body] at hlive' ⊢
  split at hlive'
  swap
  · simp [live_abortEasy] at hlive'
  next hconsumed =>
  rw [if_pos hconsumed]
  rcases h hlive with hnone | hpromised
  · exact Or.inl (by simp [hnone])
  refine Or.inr ?_
  rcases writeCb_probing cfg env w.fs w.task i data with hdoor | hover
  · rw [hdoor] at hconsumed ⊢
    have hnil : data = [] := List.length_eq_zero_iff.mp hconsumed.symm
    rw [hnil, List.length_nil, List.drop_zero]
    exact hpromised
  have hmoved := writeCb_place cfg env w.fs hi hunprobed hconsumed
  have hpassed := writeCb_passed cfg env w.fs w.task i data
  generalize (writeCb cfg env w.fs w.task i data).task = t' at hover hmoved hpassed ⊢
  obtain ⟨hcode, hetag, htotal, -, hhere, -⟩ := hpromised
  rw [hlines] at hetag htotal hhere
  have hpiece : d.body.drop data.length <+:
      (R.bytes d.answer.version).drop ((t'.part i).start + (t'.part i).done).toNat := by
    rw [hmoved, show ((w.task.part i).start + (w.task.part i).done + data.length).toNat
      = ((w.task.part i).start + (w.task.part i).done).toNat + data.length by omega,
      ← List.drop_drop]
    exact List.IsPrefix.drop hhere.of_nil _
  refine ⟨hcode, ?_, ?_, Or.inl hpiece, ⟨by simp [hlines], Or.inl hpiece⟩, ?_⟩
  · exact ⟨by simp [hlines], Or.inl (hpassed.etag.trans hetag.of_nil)⟩
  · refine ⟨by simp [hlines], Or.inl fun hpartial => ?_⟩
    have hsame := htotal.of_nil hpartial
    rw [hpassed.total (hsame ▸ R.length_pos _), hsame]
  · intro _ hprobing
    simp [hover] at hprobing

/-- What it brings is what the worker's invariant asks for, unless the probe would be finalized with a
total that is too small. -/
theorem Promised.brings (h : Promised R t i d) {data : List Byte} (hlines : d.lines = [])
    (hdata : data <+: d.body)
    (hsized : t.probing → ¬ (0 < t.totalSize ∧ t.totalSize < (t.ctx i).seenTotalSize)) :
    Brings R t i d.answer.version data := by
  obtain ⟨hcode, hetag, htotal, -, hhere, hlength⟩ := h
  rw [hlines] at hetag htotal hhere hlength
  have hpos := R.length_pos d.answer.version
  refine ⟨hetag.of_nil, hdata.trans hhere.of_nil, fun hprobing => ?_⟩
  rcases hcode with hpartial | hwhole
  · have hknown := htotal.of_nil hpartial
    rw [settledTotal_of_pos _ (hknown ▸ hpos), hknown]
  · obtain ⟨-, -, howed⟩ := hlength hwhole hprobing
    have hknown := howed.of_nil
    have hfits := hsized hprobing
    rw [hknown] at hfits ⊢
    simp only [settledTotal, true_and]
    split <;> omega

/-! ### Requests -/

theorem proper_addPart (R : Resource V) (built : Bool) (heasy : (t.ctx i).easy = none)
    (hunprobed : t.probing → t.Unprobed) : Proper R (Worker.addPart t i built) i none := by
  rw [Worker.addPart]
  split
  swap
  · exact proper_of_easy_none none heasy
  intro easy hbuilt
  by_cases hi : i < t.partCtx.length
  · rw [Worker.buildEasyForPart, modifyCtx_ctx_self hi] at hbuilt ⊢
    obtain rfl := Option.some.inj hbuilt
    refine ⟨?_, fun _ => ⟨rfl, rfl⟩⟩
    rw [modifyCtx_part, Worker.easyFor]
    split
    next hprobing => exact ((hunprobed hprobing).place i).symm
    next => rfl
  · rw [Worker.buildEasyForPart, ctx_of_length_le (by simpa using hi)] at hbuilt
    simp at hbuilt

theorem handlePartResult_easy (cfg : HttpConfig) (t : TaskCtx) (i j : Nat) (rc : CurlCode)
    (httpCode : Int) : ((handlePartResult cfg t i rc httpCode).1.ctx j).easy = (t.ctx j).easy := by
  simp only [handlePartResult]
  split
  · rfl
  split
  · rfl
  split
  · exact modifyCtx_easy t i j _ fun _ => rfl
  split
  · rfl
  split
  · split
    · exact modifyCtx_easy t i j _ fun _ => rfl
    · rfl
  · split
    · exact modifyCtx_easy t i j _ fun _ => rfl
    · rfl

theorem dropEasy_easy (t : TaskCtx) (i : Nat) : ((Worker.dropEasy t i).ctx i).easy = none := by
  by_cases hi : i < t.partCtx.length
  · rw [Worker.dropEasy, modifyCtx_ctx_self hi]
  · rw [ctx_of_length_le (by simpa [Worker.dropEasy] using hi)]

end DownloadWrapper
