import DownloadWrapper.Http.PartInvariant
import DownloadWrapper.Lib.Pin

/-!
# Responses before the final one

libcurl hands over the header lines of every response of a connection: redirects, a proxy's answer to
CONNECT, interim responses, and the final one. What they leave is a handful of first-wins registers,
so whether the final response alone decides is a question about registers that were fed before.
-/

namespace DownloadWrapper

open Pin TaskCtx

def HeaderLine.code? : HeaderLine → Option Int
  | .status code => code
  | _ => none

def HeaderLine.total? : HeaderLine → Option Int
  | .contentRange total => total
  | _ => none

def HeaderLine.length? : HeaderLine → Option Int
  | .contentLength length => length
  | _ => none

def HeaderLine.etag? : HeaderLine → Option String
  | .etag value => some value
  | _ => none

def HeaderLine.lastModified? : HeaderLine → Option String
  | .lastModified value => some value
  | _ => none

def HeaderLine.name? : HeaderLine → Option String
  | .contentDisposition name => if name = "" then none else some name
  | _ => none

/-- What the header lines of a connection leave: the connection's code and size, and the task's
total, validators and name. -/
structure Seen where
  code : Int
  size : Int
  total : Int
  etag : String
  lastModified : String
  filename : String
  deriving DecidableEq, Repr

def TaskCtx.seen (t : TaskCtx) (i : Nat) : Seen where
  code := (t.ctx i).seenHttpCode
  size := (t.ctx i).seenTotalSize
  total := t.totalSize
  etag := t.etag
  lastModified := t.lastModified
  filename := t.filename

namespace Seen

/-- One line. `full` says that a full stream is acceptable; none is content drift. -/
def apply (probing full : Bool) (s : Seen) : HeaderLine → Option Seen
  | .status (some code) => if code = 200 ∧ ¬ full then none else some { s with code := code }
  | .contentRange (some total) =>
      (pin (· ≤ 0) s.total total).map fun pinned => { s with size := total, total := pinned }
  | .contentLength (some length) =>
      some (if s.size ≤ 0 ∧ probing ∧ s.code ≠ 206 then { s with size := length } else s)
  | .contentDisposition name =>
      some (if s.filename = "" ∧ name ≠ "" then { s with filename := name } else s)
  | .etag value => (pin (· = "") s.etag value).map fun pinned => { s with etag := pinned }
  | .lastModified value =>
      (pin (· = "") s.lastModified value).map fun pinned => { s with lastModified := pinned }
  | _ => some s

def applyAll (probing full : Bool) (s : Seen) : List HeaderLine → Option Seen
  | [] => some s
  | line :: lines => (s.apply probing full line).bind fun s => applyAll probing full s lines

def track (probing : Bool) (cs : Int × Int) : HeaderLine → Int × Int
  | .status (some code) => (code, cs.2)
  | .contentRange (some total) => (cs.1, total)
  | .contentLength (some length) =>
      if cs.2 ≤ 0 ∧ probing ∧ cs.1 ≠ 206 then (cs.1, length) else cs
  | _ => cs

def firstName (name : String) (names : List String) : String :=
  if name = "" then names.head?.getD "" else name

structure Accepts (full : Bool) (s : Seen) (lines : List HeaderLine) (s' : Seen) : Prop where
  status : ∀ code ∈ lines.filterMap HeaderLine.code?, code = 200 → full
  total : pinAll (· ≤ 0) s.total (lines.filterMap HeaderLine.total?) = some s'.total
  etag : pinAll (· = "") s.etag (lines.filterMap HeaderLine.etag?) = some s'.etag
  lastModified : pinAll (· = "") s.lastModified (lines.filterMap HeaderLine.lastModified?)
    = some s'.lastModified

theorem accepts_iff {full : Bool} {s s' : Seen} {lines : List HeaderLine} :
    Accepts full s lines s' ↔
      (∀ code ∈ lines.filterMap HeaderLine.code?, code = 200 → full) ∧
      pinAll (· ≤ 0) s.total (lines.filterMap HeaderLine.total?) = some s'.total ∧
      pinAll (· = "") s.etag (lines.filterMap HeaderLine.etag?) = some s'.etag ∧
      pinAll (· = "") s.lastModified (lines.filterMap HeaderLine.lastModified?)
        = some s'.lastModified :=
  ⟨fun h => ⟨h.status, h.total, h.etag, h.lastModified⟩, fun ⟨a, b, c, d⟩ => ⟨a, b, c, d⟩⟩

theorem firstName_nil (name : String) : firstName name [] = name := by
  rw [firstName]
  split
  next h => exact h.symm
  next => rfl

theorem firstName_cons {seen : String} (name : String) (names : List String) (hset : seen ≠ "") :
    firstName seen (name :: names) = firstName seen names := by
  simp [firstName, hset]

theorem firstName_empty_cons {name : String} (names : List String) (hname : name ≠ "") :
    firstName "" (name :: names) = firstName name names := by
  simp [firstName, hname]

/-- **The registers are independent.** -/
theorem applyAll_eq_some_iff (probing full : Bool) (s s' : Seen) (lines : List HeaderLine) :
    s.applyAll probing full lines = some s' ↔
      Accepts full s lines s' ∧
        s'.filename = firstName s.filename (lines.filterMap HeaderLine.name?) ∧
        (s'.code, s'.size) = lines.foldl (track probing) (s.code, s.size) := by
  simp only [accepts_iff]
  induction lines generalizing s with
  | nil =>
      have hname := firstName_nil s.filename
      constructor
      · intro h
        obtain rfl := Option.some.inj h
        exact ⟨⟨by simp, rfl, rfl, rfl⟩, hname.symm, rfl⟩
      · rintro ⟨⟨-, htotal, hetag, hmodified⟩, hfilename, htrack⟩
        obtain ⟨hcode, hsize⟩ := Prod.mk.inj htrack
        cases s
        cases s'
        simp_all [applyAll]
  | cons line lines ih =>
      cases line with
      | blank => exact ih s
      | other => exact ih s
      | status code =>
          cases code with
          | none => exact ih s
          | some code =>
              by_cases hcode : code = 200 ∧ ¬ full
              · simp [applyAll, apply, hcode, HeaderLine.code?]
              · have hdrop : (∀ c ∈ (HeaderLine.status (some code) :: lines).filterMap
                    HeaderLine.code?, c = 200 → full) ↔
                    ∀ c ∈ lines.filterMap HeaderLine.code?, c = 200 → full := by
                  simp only [HeaderLine.code?, List.filterMap_cons, List.forall_mem_cons]
                  tauto
                rw [applyAll, apply, if_neg hcode, Option.bind_some, hdrop]
                exact ih { s with code := code }
      | contentRange total =>
          cases total with
          | none => exact ih s
          | some total =>
              simp only [applyAll, apply, HeaderLine.total?, List.filterMap_cons, pinAll_cons]
              cases pin (· ≤ 0) s.total total with
              | none => simp
              | some pinned => exact ih { s with size := total, total := pinned }
      | contentLength length =>
          cases length with
          | none => exact ih s
          | some length =>
              simp only [applyAll, apply, Option.bind_some, List.foldl_cons, track]
              split
              · exact ih { s with size := length }
              · exact ih s
      | contentDisposition name =>
          simp only [applyAll, apply, Option.bind_some, HeaderLine.name?, List.filterMap_cons]
          by_cases hname : name = ""
          · rw [if_neg (fun h => h.2 hname)]
            simp only [if_pos hname]
            exact ih s
          · by_cases hset : s.filename = ""
            · rw [if_pos ⟨hset, hname⟩]
              simp only [if_neg hname, hset, firstName_empty_cons _ hname]
              exact ih { s with filename := name }
            · rw [if_neg (fun h => hset h.1)]
              simp only [if_neg hname, firstName_cons _ _ hset]
              exact ih s
      | etag value =>
          simp only [applyAll, apply, HeaderLine.etag?, List.filterMap_cons, pinAll_cons]
          cases pin (· = "") s.etag value with
          | none => simp
          | some pinned => exact ih { s with etag := pinned }
      | lastModified value =>
          simp only [applyAll, apply, HeaderLine.lastModified?, List.filterMap_cons, pinAll_cons]
          cases pin (· = "") s.lastModified value with
          | none => simp
          | some pinned => exact ih { s with lastModified := pinned }

end Seen

/-! ### The callbacks as registers -/

/-- The lines of a connection, one callback after the other; none follows a line that was not
consumed. -/
def feed (t : TaskCtx) (i : Nat) : List String → TaskCtx × Bool
  | [] => (t, true)
  | line :: lines =>
      match headerCb t i line with
      | (t, true) => feed t i lines
      | (t, false) => (t, false)

/-- The task without what header lines leave. -/
def TaskCtx.shell (t : TaskCtx) : TaskCtx :=
  { t with totalSize := 0, etag := "", lastModified := "", filename := "", partCtx := [] }

theorem contentRangeTotal_pos {val : List Char} {total : Int}
    (h : contentRangeTotal val = some total) : 0 < total := by
  simp only [contentRangeTotal] at h
  split at h
  · simp at h
  · split at h
    · simp at h
    · simpa using (Option.filter_eq_some_iff.mp h).2

theorem parseHeaderLine_total_pos {line : String} {total : Int}
    (h : parseHeaderLine line = .contentRange (some total)) : 0 < total := by
  simp only [parseHeaderLine] at h
  split at h
  · simp at h
  split at h
  · simp at h
  split at h
  · simp at h
  split at h
  · exact contentRangeTotal_pos (HeaderLine.contentRange.inj h)
  all_goals (repeat' split at h) <;> simp at h

theorem parseHeaderLine_length_pos {line : String} {length : Int}
    (h : parseHeaderLine line = .contentLength (some length)) : 0 < length := by
  simp only [parseHeaderLine] at h
  split at h
  · simp at h
  split at h
  · simp at h
  split at h
  · simp at h
  split at h
  · simp at h
  split at h
  · simpa using (Option.filter_eq_some_iff.mp (HeaderLine.contentLength.inj h)).2
  all_goals (repeat' split at h) <;> simp at h

theorem pin_validator (cur value : String) :
    pin (· = "") cur value =
      if (if cur = "" then value else cur) ≠ "" ∧ value ≠ (if cur = "" then value else cur) then none
      else some (if cur = "" then value else cur) := by
  rw [pin]
  by_cases hcur : cur = ""
  · by_cases hvalue : value = "" <;> simp [hcur, hvalue]
  · by_cases hsame : value = cur <;> simp [hcur, hsame]

theorem pin_total (cur : Int) {total : Int} (hpos : 0 < total) :
    pin (· ≤ 0) cur total =
      if 0 < (if cur ≤ 0 then total else cur) ∧ total ≠ (if cur ≤ 0 then total else cur) then none
      else some (if cur ≤ 0 then total else cur) := by
  rw [pin]
  by_cases hcur : cur ≤ 0
  · simp [hcur, not_le.mpr hpos]
  · by_cases hsame : total = cur <;> simp [hcur, hsame, not_le.mp hcur]

theorem TaskCtx.of_shell {β : Type*} (f : TaskCtx → β) (hf : ∀ t : TaskCtx, f t.shell = f t)
    {t t' : TaskCtx} (hshell : t'.shell = t.shell) : f t' = f t := by
  rw [← hf t', hshell, hf t]

/-- A callback did to the task what the line did to the registers; drift puts the task in error. -/
def ActsAs (t : TaskCtx) (i : Nat) (out : TaskCtx × Bool) : Option Seen → Prop
  | some s => out.2 = true ∧ out.1.seen i = s ∧ out.1.shell = t.shell ∧
      out.1.partCtx.length = t.partCtx.length
  | none => out.2 = false ∧ out.1.status = .error

theorem actsAs_drift (t : TaskCtx) {i : Nat} (t' : TaskCtx) (s : Seen) (hseen : t'.seen i = s)
    (hshell : t'.shell = t.shell) (hctxs : t'.partCtx.length = t.partCtx.length) (drift : Prop)
    [Decidable drift] :
    ActsAs t i (if drift then (t'.markDriftError i, false) else (t', true))
      (if drift then none else some s) := by
  by_cases hdrift : drift
  · rw [if_pos hdrift, if_pos hdrift]
    exact ⟨rfl, rfl⟩
  · rw [if_neg hdrift, if_neg hdrift]
    exact ⟨rfl, hseen, hshell, hctxs⟩

/-- **A line acts on the registers alone.** -/
theorem headerCb_actsAs {t : TaskCtx} {i : Nat} {line : String} (hstatus : t.status ≠ .error)
    (hcancel : t.cancelReq = false) (hi : i < t.partCtx.length) (hline : line ≠ "") :
    ActsAs t i (headerCb t i line)
      ((t.seen i).apply t.probing (t.fullStreamOk i) (parseHeaderLine line)) := by
  have hdoor : ¬ (t.status = .error ∨ t.cancelReq ∨ line = "") := by
    simp [hstatus, hcancel, hline]
  rw [headerCb, if_neg hdoor]
  have htotal := @parseHeaderLine_total_pos line
  generalize parseHeaderLine line = parsed at htotal
  have hctx : ∀ f : PartCtx → PartCtx, (t.modifyCtx i f).ctx i = f (t.ctx i) := modifyCtx_ctx_self hi
  cases parsed with
  | blank => exact ⟨rfl, rfl, rfl, rfl⟩
  | other => exact ⟨rfl, rfl, rfl, rfl⟩
  | status code =>
      cases code with
      | none => exact ⟨rfl, rfl, rfl, rfl⟩
      | some code =>
          refine actsAs_drift t (t.modifyCtx i fun c => { c with seenHttpCode := code })
            { t.seen i with code := code } ?_ rfl (by simp) (code = 200 ∧ ¬ t.fullStreamOk i)
          simp only [seen, hctx]
          rfl
  | contentRange total =>
      cases total with
      | none => exact ⟨rfl, rfl, rfl, rfl⟩
      | some total =>
          simp only [Seen.apply, pin_total _ (htotal rfl), apply_ite (Option.map _), Option.map_none,
            Option.map_some]
          refine actsAs_drift t (t.seeTotal i total) _ ?_ rfl (by simp [seeTotal]) _
          have hsee : (t.seeTotal i total).ctx i = { t.ctx i with seenTotalSize := total } := hctx _
          simp only [seen, hsee]
          rfl
  | contentLength length =>
      cases length with
      | none => exact ⟨rfl, rfl, rfl, rfl⟩
      | some length =>
          simp only [Seen.apply, applyHeaderLine]
          by_cases hcounted : (t.ctx i).seenTotalSize ≤ 0 ∧ t.probing ∧ (t.ctx i).seenHttpCode ≠ 206
          · have hcounted' : (t.seen i).size ≤ 0 ∧ t.probing ∧ (t.seen i).code ≠ 206 := hcounted
            rw [if_pos hcounted, if_pos hcounted']
            refine ⟨rfl, ?_, rfl, by simp⟩
            simp only [seen, hctx]
            rfl
          · have hcounted' : ¬ ((t.seen i).size ≤ 0 ∧ t.probing ∧ (t.seen i).code ≠ 206) := hcounted
            rw [if_neg hcounted, if_neg hcounted']
            exact ⟨rfl, rfl, rfl, rfl⟩
  | contentDisposition name =>
      simp only [Seen.apply, applyHeaderLine]
      by_cases hnew : t.filename = "" ∧ name ≠ ""
      · have hnew' : (t.seen i).filename = "" ∧ name ≠ "" := hnew
        rw [if_pos hnew, if_pos hnew']
        exact ⟨rfl, rfl, rfl, rfl⟩
      · have hnew' : ¬ ((t.seen i).filename = "" ∧ name ≠ "") := hnew
        rw [if_neg hnew, if_neg hnew']
        exact ⟨rfl, rfl, rfl, rfl⟩
  | etag value =>
      simp only [Seen.apply, pin_validator, apply_ite (Option.map _), Option.map_none,
        Option.map_some]
      refine actsAs_drift t (t.seeEtag i value) _ ?_ rfl (by simp [seeEtag]) _
      have hsee : (t.seeEtag i value).ctx i = { t.ctx i with seenEtag := value } := hctx _
      simp only [seen, hsee]
      rfl
  | lastModified value =>
      simp only [Seen.apply, pin_validator, apply_ite (Option.map _), Option.map_none,
        Option.map_some]
      refine actsAs_drift t (t.seeLastModified i value) _ ?_ rfl (by simp [seeLastModified]) _
      have hsee : (t.seeLastModified i value).ctx i = { t.ctx i with seenLastModified := value } :=
        hctx _
      simp only [seen, hsee]
      rfl

theorem feed_actsAs {t : TaskCtx} {i : Nat} {lines : List String} (hstatus : t.status ≠ .error)
    (hcancel : t.cancelReq = false) (hi : i < t.partCtx.length) (hlines : ∀ line ∈ lines, line ≠ "") :
    ActsAs t i (feed t i lines)
      ((t.seen i).applyAll t.probing (t.fullStreamOk i) (lines.map parseHeaderLine)) := by
  induction lines generalizing t with
  | nil => exact ⟨rfl, rfl, rfl, rfl⟩
  | cons line lines ih =>
      have hline := headerCb_actsAs hstatus hcancel hi (hlines line List.mem_cons_self)
      rw [List.map_cons, Seen.applyAll, feed]
      cases happly : (t.seen i).apply t.probing (t.fullStreamOk i) (parseHeaderLine line) with
      | none =>
          rw [happly] at hline
          obtain ⟨hnot, herror⟩ := hline
          rcases hcb : headerCb t i line with ⟨t', consumed⟩
          rw [hcb] at hnot herror
          simp only at hnot herror
          subst hnot
          exact ⟨rfl, herror⟩
      | some s =>
          rw [happly] at hline
          obtain ⟨hconsumed, hseen, hshell, hctxs⟩ := hline
          rcases hcb : headerCb t i line with ⟨t', consumed⟩
          rw [hcb] at hconsumed hseen hshell hctxs
          simp only at hconsumed hseen hshell hctxs
          subst hconsumed
          have hprobing : t'.probing = t.probing :=
            TaskCtx.of_shell TaskCtx.probing (fun _ => rfl) hshell
          have hfull : t'.fullStreamOk i = t.fullStreamOk i :=
            TaskCtx.of_shell (TaskCtx.fullStreamOk · i) (fun _ => rfl) hshell
          have hstatus' : t'.status = t.status :=
            TaskCtx.of_shell TaskCtx.status (fun _ => rfl) hshell
          have hcancel' : t'.cancelReq = t.cancelReq :=
            TaskCtx.of_shell TaskCtx.cancelReq (fun _ => rfl) hshell
          have hrest := ih (hstatus' ▸ hstatus) (hcancel'.trans hcancel) (hctxs ▸ hi)
            fun l hl => hlines l (List.mem_cons_of_mem line hl)
          rw [hseen, hprobing, hfull] at hrest
          rw [Option.bind_some]
          cases happly' : s.applyAll t.probing (t.fullStreamOk i) (lines.map parseHeaderLine) with
          | none =>
              rw [happly'] at hrest
              exact hrest
          | some s' =>
              rw [happly'] at hrest
              obtain ⟨hconsumed, hseen', hshell', hctxs'⟩ := hrest
              exact ⟨hconsumed, hseen', hshell'.trans hshell, hctxs'.trans hctxs⟩

/-! ### What a connection fixes -/

structure Fixed where
  totalSize : Int
  partSizes : List Int
  etag : String
  lastModified : String
  filename : String
  deriving DecidableEq, Repr

def TaskCtx.fixed (t : TaskCtx) : Fixed where
  totalSize := t.totalSize
  partSizes := t.parts.map PartState.size
  etag := t.etag
  lastModified := t.lastModified
  filename := t.filename

/-- What the first body byte after these lines finds fixed, a probe being finalized by it; nothing
when a line put the task in error. -/
def fixedBy (cfg : HttpConfig) (env : WriteEnv) (fs : Fs) (t : TaskCtx) (i : Nat)
    (lines : List String) : Option Fixed :=
  match feed t i lines with
  | (t, true) => some (probed cfg env fs t i).1.fixed
  | (_, false) => none

def fallbackName (urlLib : UrlLib) (url : String) : String :=
  if extractFilenameFromUrl urlLib url = "" then "download" else extractFilenameFromUrl urlLib url

def settledTotal (probing : Bool) (total size : Int) : Int :=
  if probing ∧ total ≤ 0 ∧ 0 < size then size else total

def settledName (probing : Bool) (fallback name : String) : String :=
  if probing ∧ name = "" then fallback else name

theorem finalizeProbing_fields (cfg : HttpConfig) (env : ProbeEnv) (fs : Fs) (t : TaskCtx) (i : Nat) :
    (finalizeProbing cfg env fs t i).1.totalSize = (t.settleProbe env.urlLib i).totalSize ∧
      (finalizeProbing cfg env fs t i).1.etag = t.etag ∧
      (finalizeProbing cfg env fs t i).1.lastModified = t.lastModified ∧
      (finalizeProbing cfg env fs t i).1.filename = (t.settleProbe env.urlLib i).filename := by
  rcases finalizeProbing_cases cfg env fs t i with ⟨message, heq⟩ | heq
  · rw [heq]
    exact ⟨rfl, rfl, rfl, rfl⟩
  · rw [heq, layOut_totalSize, layOut_etag, layOut_lastModified, layOut_filename]
    exact ⟨rfl, rfl, rfl, rfl⟩

theorem layOut_parts_congr (cfg : HttpConfig) {t t' : TaskCtx} (code : Int)
    (hparts : t.parts = t'.parts) (htotal : t.totalSize = t'.totalSize) :
    (t.layOut cfg code).parts = (t'.layOut cfg code).parts := by
  rw [layOut, layOut]
  split
  · simp only [splitParts, hparts, htotal]
  · simp only [singlePart, modifyPart_parts, hparts, htotal]

/-- The layout depends on the old parts, the code, and what is settled of total and name. -/
theorem finalizeProbing_parts_congr (cfg : HttpConfig) (env : ProbeEnv) (fs : Fs) {t t' : TaskCtx}
    {i : Nat} (hparts : t.parts = t'.parts) (hdir : t.outputPath = t'.outputPath)
    (hcode : (t.ctx i).seenHttpCode = (t'.ctx i).seenHttpCode)
    (htotal : (t.settleProbe env.urlLib i).totalSize = (t'.settleProbe env.urlLib i).totalSize)
    (hname : (t.settleProbe env.urlLib i).filename = (t'.settleProbe env.urlLib i).filename) :
    (finalizeProbing cfg env fs t i).1.parts = (finalizeProbing cfg env fs t' i).1.parts := by
  have hacquired : (acquirePath env fs (t.settleProbe env.urlLib i)).2
      = (acquirePath env fs (t'.settleProbe env.urlLib i)).2 ∧
      (acquirePath env fs (t.settleProbe env.urlLib i)).1.fullFilePath
        = (acquirePath env fs (t'.settleProbe env.urlLib i)).1.fullFilePath := by
    have hdirs : (t.settleProbe env.urlLib i).outputPath = (t'.settleProbe env.urlLib i).outputPath :=
      hdir
    simp only [acquirePath, hdirs, hname, and_self]
  have hold : (acquirePath env fs (t.settleProbe env.urlLib i)).1.parts
      = (acquirePath env fs (t'.settleProbe env.urlLib i)).1.parts := hparts
  have hsize : (acquirePath env fs (t.settleProbe env.urlLib i)).1.totalSize
      = (acquirePath env fs (t'.settleProbe env.urlLib i)).1.totalSize := htotal
  simp only [finalizeProbing, hcode]
  rcases ha : acquirePath env fs (t.settleProbe env.urlLib i) with ⟨a, fs'⟩
  rcases hb : acquirePath env fs (t'.settleProbe env.urlLib i) with ⟨b, fs''⟩
  rw [ha, hb] at hacquired hold hsize
  obtain ⟨hfs, hpath⟩ := hacquired
  simp only at hfs hpath hold hsize ⊢
  subst hfs
  rw [hpath, hsize]
  split
  · exact layOut_parts_congr cfg _ hold hsize
  · rcases createTarget env fs' b.fullFilePath b.totalSize with ⟨_ | message, made⟩
    · exact layOut_parts_congr cfg _ hold hsize
    · exact hold

/-- **Two connections fix the same** exactly when their registers settle the same total, validators
and name. -/
theorem fixed_eq_iff (cfg : HttpConfig) (env : WriteEnv) (fs : Fs) {t t' : TaskCtx} {i : Nat}
    (hshell : t.shell = t'.shell) (hcode : (t.seen i).code = (t'.seen i).code) :
    (probed cfg env fs t i).1.fixed = (probed cfg env fs t' i).1.fixed ↔
      settledTotal t.probing (t.seen i).total (t.seen i).size =
          settledTotal t.probing (t'.seen i).total (t'.seen i).size ∧
        (t.seen i).etag = (t'.seen i).etag ∧
        (t.seen i).lastModified = (t'.seen i).lastModified ∧
        settledName t.probing (fallbackName env.probe.urlLib t.url) (t.seen i).filename =
          settledName t.probing (fallbackName env.probe.urlLib t.url) (t'.seen i).filename := by
  have hparts : t.parts = t'.parts := of_shell TaskCtx.parts (fun _ => rfl) hshell
  have hdir : t.outputPath = t'.outputPath := of_shell TaskCtx.outputPath (fun _ => rfl) hshell
  have hurl : t.url = t'.url := of_shell TaskCtx.url (fun _ => rfl) hshell
  have hprobing : t.probing = t'.probing := of_shell TaskCtx.probing (fun _ => rfl) hshell
  cases hp : t.probing with
  | false =>
      rw [probed_of_not_probing cfg env fs i hp, probed_of_not_probing cfg env fs i (hprobing ▸ hp)]
      simp [fixed, hparts, seen, settledTotal, settledName]
  | true =>
      have hsettle : ∀ u : TaskCtx, u.url = t.url → (u.settleProbe env.probe.urlLib i).totalSize
          = settledTotal true (u.seen i).total (u.seen i).size ∧
          (u.settleProbe env.probe.urlLib i).filename
            = settledName true (fallbackName env.probe.urlLib t.url) (u.seen i).filename := by
        intro u hu
        refine ⟨?_, ?_⟩
        · simp only [settleProbe, seen, settledTotal, true_and]
        · simp only [settleProbe, seen, settledName, fallbackName, hu, true_and]
          split_ifs <;> rfl
      obtain ⟨htotal, hname⟩ := hsettle t rfl
      obtain ⟨htotal', hname'⟩ := hsettle t' hurl.symm
      have hfields := finalizeProbing_fields cfg env.probe fs t i
      have hfields' := finalizeProbing_fields cfg env.probe fs t' i
      have hprobed : probed cfg env fs t i = finalizeProbing cfg env.probe fs t i := by
        simp [probed, hp]
      have hprobed' : probed cfg env fs t' i = finalizeProbing cfg env.probe fs t' i := by
        simp [probed, ← hprobing, hp]
      rw [hprobed, hprobed']
      rw [htotal, hname] at hfields
      rw [htotal', hname'] at hfields'
      simp only [fixed, Fixed.mk.injEq, hfields, hfields']
      constructor
      · rintro ⟨htotals, -, hetag, hmodified, hnames⟩
        exact ⟨htotals, hetag, hmodified, hnames⟩
      · rintro ⟨htotals, hetag, hmodified, hnames⟩
        refine ⟨htotals, ?_, hetag, hmodified, hnames⟩
        refine congrArg (List.map PartState.size)
          (finalizeProbing_parts_congr cfg env.probe fs hparts hdir hcode ?_ ?_)
        · rw [htotal, htotal', htotals]
        · rw [hname, hname', hnames]

end DownloadWrapper
