import DownloadWrapper.Playback.Session

/-!
# Range negotiation

Which range a session serves is settled in one place, told the client in another and consumed in a third.
They agree where the range lies inside the file; an end behind the file is neither refused nor cut.
-/

namespace DownloadWrapper.Playback

open Transition

structure Asks (request : Request) (info : FileKey → Option ConfigText) (path : String) (n start : Int)
    (stop : Option Int) : Prop where
  range : ∃ key, parseRequest request = .ok (key, start, stop) ∧ readFileInfo (info key) = .ok (path, n)
  known : 0 < n

def Unsatisfiable (n start : Int) (stop : Option Int) : Prop :=
  n ≤ start ∨ ∃ last, stop = some last ∧ last < start

def lastOf (n : Int) : Option Int → Int
  | none => n - 1
  | some last => min last (n - 1)

/-- The whole file is reported, and is there. -/
def Steady (n : Int) (path : String) (supply : Supply) : Prop :=
  segmentsOf supply.ranges = [(0, n - 1)] ∧ ∃ bytes, supply.disk path = some bytes ∧ n ≤ bytes.length

def drive : (Nat → Supply) → Session → Nat → Session
  | _, s, 0 => s
  | supplies, s, k + 1 => drive (fun i => supplies (i + 1)) (s.complete (.succeeded (supplies 0))) k

structure Negotiates (request : Request) (info : FileKey → Option ConfigText) (path : String) (n start : Int)
    (stop : Option Int) : Prop where
  refused : Unsatisfiable n start stop → ∀ disk supply s,
    Reaches Session.step anyEvent (handleRequest request info disk supply) s →
      s.output = [.rangeError (some n)]
  advertised : ¬ Unsatisfiable n start stop → ∀ disk supply s,
    Reaches Session.step anyEvent (handleRequest request info disk supply) s →
      ∀ first last total length, .header first last total length ∈ s.output →
        first = start ∧ last = lastOf n stop ∧ total = some n ∧ length = last - first + 1
  complete : ¬ Unsatisfiable n start stop → ∀ disk supply supplies,
    Steady n path supply → (∀ i, Steady n path (supplies i)) →
      (∀ k pos, (drive supplies (handleRequest request info disk supply) k).phase ≠ .waiting pos) ∧
        ∃ k, ∃ chunks : List (List Byte),
          (drive supplies (handleRequest request info disk supply) k).output =
            .header start (lastOf n stop) (some n) (lastOf n stop - start + 1) ::
              chunks.map .body ++ [.shutdown] ∧
          (chunks.flatten.length : Int) = lastOf n stop - start + 1

def settledEnd (n : Int) (stop : Option Int) : Int :=
  if 0 ≤ stop.getD (-1) then stop.getD (-1) else n - 1

def freshSession (path : String) (n start rangeEnd : Int) : Session :=
  { filePath := path, rangeStart := start, rangeEnd := rangeEnd, totalSize := n }

section Asked

variable {request : Request} {info : FileKey → Option ConfigText} {path : String} {n start : Int}
  {stop : Option Int} (hasks : Asks request info path n start stop)
include hasks

theorem Asks.start_nonneg : 0 ≤ start := by
  obtain ⟨key, hparse, -⟩ := hasks.range
  rw [parseRequest] at hparse
  split at hparse
  · simp at hparse
  split at hparse
  · simp at hparse
  split at hparse
  · simp at hparse
  next range hrange =>
    obtain ⟨-, rfl⟩ := Prod.mk.inj (Except.ok.inj hparse)
    exact Playback.start_nonneg hrange

theorem handleRequest_of_asks (disk : Disk) (supply : Supply) :
    handleRequest request info disk supply =
      if settledEnd n stop < start then
        { freshSession path n start (settledEnd n stop) with output := [.rangeError (some n)] }
      else (freshSession path n start (settledEnd n stop)).doStream start supply := by
  obtain ⟨key, hparse, hinfo⟩ := hasks.range
  have hend : resolveEnd disk path n (stop.getD (-1)) = some (settledEnd n stop) := by
    rw [resolveEnd, settledEnd, if_pos hasks.known]
    split <;> rfl
  simp only [handleRequest, hparse, hinfo, hend, totalOf, if_pos hasks.known, freshSession]

end Asked

theorem output_of_closed {s t : Session} (hclosed : s.phase = .closed)
    (hrun : Reaches Session.step anyEvent s t) : t.phase = .closed ∧ t.output = s.output := by
  refine @Reaches.invariant _ _ _ _ (fun t => t.phase = .closed ∧ t.output = s.output) _ _ hrun ?_
    ⟨hclosed, rfl⟩
  intro u e v h _ hstep
  rw [← Option.some.inj hstep]
  cases e with
  | failed transferred => simp [Session.complete, h.1, h.2]
  | succeeded supply => simp [Session.complete, h.1, h.2]

structure Advertises (n start rangeEnd : Int) (s : Session) : Prop where
  range : s.rangeStart = start ∧ s.rangeEnd = rangeEnd ∧ s.totalSize = n
  headers : ∀ first last total length, .header first last total length ∈ s.output →
    first = start ∧ last = rangeEnd ∧ total = totalOf n ∧ length = rangeEnd - start + 1

section Advertising

variable {n start rangeEnd : Int} {s : Session}

theorem Advertises.append (h : Advertises n start rangeEnd s) {t : Session} (sent : List Output)
    (hrange : t.rangeStart = s.rangeStart ∧ t.rangeEnd = s.rangeEnd ∧ t.totalSize = s.totalSize)
    (houtput : t.output = s.output ++ sent)
    (hsent : ∀ o ∈ sent, o = s.header ∨ ∀ first last total length, o ≠ .header first last total length) :
    Advertises n start rangeEnd t := by
  obtain ⟨hstart, hend, htotal⟩ := h.range
  refine ⟨⟨hrange.1.trans hstart, hrange.2.1.trans hend, hrange.2.2.trans htotal⟩, ?_⟩
  intro first last total length hmem
  rw [houtput, List.mem_append] at hmem
  rcases hmem with hmem | hmem
  · exact h.headers first last total length hmem
  · rcases hsent _ hmem with heq | hno
    · rw [Session.header, Output.header.injEq, hstart, hend, htotal] at heq
      exact heq
    · exact absurd rfl (hno first last total length)

theorem Advertises.doStream (h : Advertises n start rangeEnd s) (pos : Int) (supply : Supply) :
    Advertises n start rangeEnd (s.doStream pos supply) := by
  by_cases hread : s.readAt pos supply = []
  · obtain ⟨refusals, phase, -, heq⟩ := Session.doStream_of_nil hread
    refine h.append (refusals.map .error) ?_ ?_ fun o ho => Or.inr ?_
    · rw [heq]
      exact ⟨rfl, rfl, rfl⟩
    · rw [heq]
    · obtain ⟨refusal, -, rfl⟩ := List.mem_map.mp ho
      intro _ _ _ _
      exact Output.noConfusion
  · obtain ⟨segment, -, -, -, -, heq⟩ := Session.doStream_of_ne_nil hread
    refine h.append [] ?_ ?_ (by simp)
    · rw [heq]
      exact ⟨rfl, rfl, rfl⟩
    · rw [heq, List.append_nil]

/-- **A session tells its own range**, in every run. -/
theorem Advertises.complete (h : Advertises n start rangeEnd s) (e : Completion) :
    Advertises n start rangeEnd (s.complete e) := by
  cases e with
  | failed transferred =>
      rw [Session.complete]
      split
      · exact h.append [_] ⟨rfl, rfl, rfl⟩ rfl fun o ho => Or.inr (by simp_all)
      · exact h.append [] ⟨rfl, rfl, rfl⟩ (List.append_nil _).symm (by simp)
  | succeeded supply =>
      rw [Session.complete]
      split
      · exact h.append [_] ⟨rfl, rfl, rfl⟩ rfl fun o ho => Or.inl (List.mem_singleton.mp ho)
      next nextPos data _ =>
        have hbody : Advertises n start rangeEnd { s with output := s.output ++ [.body data] } :=
          h.append [_] ⟨rfl, rfl, rfl⟩ rfl fun o ho => Or.inr (by simp_all)
        dsimp only
        split
        · exact hbody.append [_] ⟨rfl, rfl, rfl⟩ rfl fun o ho => Or.inr (by simp_all)
        · exact hbody.doStream nextPos supply
      · exact h.doStream _ supply
      · exact h

theorem Advertises.reaches (h : Advertises n start rangeEnd s) {t : Session}
    (hrun : Reaches Session.step anyEvent s t) : Advertises n start rangeEnd t := by
  refine hrun.invariant ?_ h
  intro u e v hadvertises _ hstep
  rw [← Option.some.inj hstep]
  exact hadvertises.complete e

end Advertising

/-! ### A run in which everything is there -/

theorem reaches_drive (supplies : Nat → Supply) (s : Session) (k : Nat) :
    Reaches Session.step anyEvent s (drive supplies s k) := by
  induction k generalizing supplies s with
  | zero => exact Relation.ReflTransGen.refl
  | succ k ih =>
      exact Relation.ReflTransGen.head ⟨.succeeded (supplies 0), trivial, rfl⟩
        (ih (fun i => supplies (i + 1)) _)

section Driving

variable {n : Int} {path : String} {s : Session}

theorem doStream_of_steady {supply : Supply} (hsteady : Steady n path supply) (hpath : s.filePath = path)
    {pos : Int} (hlo : 0 ≤ pos) (hhi : pos ≤ s.rangeEnd) (hend : s.rangeEnd < n) :
    ∃ nextPos data, pos < nextPos ∧ nextPos ≤ s.rangeEnd + 1 ∧ (data.length : Int) = nextPos - pos ∧
      ∃ reported short, s.doStream pos supply = { s with
        headerSent := true, reported := reported, short := short
        phase := if s.headerSent then .writingBody nextPos data else .writingHeader nextPos data } := by
  obtain ⟨hsegments, bytes, hbytes, hlength⟩ := hsteady
  obtain ⟨hfirst, -, hlast⟩ := sendEnd_bounds (show pos ≤ n - 1 by omega) hhi
  have hfind : findSegment pos (segmentsOf supply.ranges) = some (0, n - 1) := by
    rw [hsegments, findSegment, List.find?_cons_of_pos]
    simp only [Bool.and_eq_true, decide_eq_true_eq]
    omega
  have hread : (s.readAt pos supply).length = sendEnd pos (n - 1) s.rangeEnd + 1 - pos := by
    have hsize : ¬ sendEnd pos (n - 1) s.rangeEnd - pos + 1 ≤ 0 := by omega
    simp only [Session.readAt, hfind, readFileData, hpath, hbytes, if_neg hsize, if_neg (not_lt.mpr hlo),
      List.length_take, List.length_drop]
    omega
  have hne : s.readAt pos supply ≠ [] := by
    intro hnil
    rw [hnil, List.length_nil] at hread
    omega
  obtain ⟨segment, hsegment, -, -, -, heq⟩ := Session.doStream_of_ne_nil hne
  rw [hsegments, List.mem_singleton] at hsegment
  subst hsegment
  exact ⟨sendEnd pos (n - 1) s.rangeEnd + 1, s.readAt pos supply, by omega, by omega, hread, _, _, heq⟩

theorem drive_of_closed (hclosed : s.phase = .closed) (supplies : Nat → Supply) (k : Nat) :
    drive supplies s k = s := by
  induction k generalizing supplies with
  | zero => rfl
  | succ k ih =>
      have hsame : s.complete (.succeeded (supplies 0)) = s := by rw [Session.complete, hclosed]
      rw [drive, hsame, ih]

/-- **From a body that is being written on**, the rest of the range is sent and the write side is shut
down. -/
theorem drive_of_writingBody {supplies : Nat → Supply} (hsteady : ∀ i, Steady n path (supplies i))
    (hpath : s.filePath = path) (hsent : s.headerSent = true) (hend : s.rangeEnd < n)
    {nextPos : Int} {data : List Byte} (hphase : s.phase = .writingBody nextPos data) (hlo : 0 ≤ nextPos)
    (hhi : nextPos ≤ s.rangeEnd + 1) :
    (∀ k pos, (drive supplies s k).phase ≠ .waiting pos) ∧
      ∃ k, ∃ chunks : List (List Byte),
        (drive supplies s k).output = s.output ++ chunks.map .body ++ [.shutdown] ∧
          (chunks.flatten.length : Int) = data.length + (s.rangeEnd + 1 - nextPos) := by
  -- The bytes behind the position are fewer after every chunk.
  induction hrest : (s.rangeEnd + 1 - nextPos).toNat using Nat.strong_induction_on
    generalizing s supplies nextPos data with
  | _ rest ih =>
      by_cases hover : s.rangeEnd < nextPos
      · have hcomplete := (Session.complete_writingBody hphase (supplies 0)).trans (if_pos hover)
        constructor
        · intro k pos
          cases k with
          | zero => simp [drive, hphase]
          | succ k =>
              rw [drive, hcomplete, drive_of_closed rfl]
              exact Phase.noConfusion
        · refine ⟨1, [data], ?_, ?_⟩
          · rw [drive, hcomplete]
            rfl
          · simp only [List.flatten_cons, List.flatten_nil, List.append_nil]
            omega
      · obtain ⟨nextPos', data', hlt, hle, hlength, reported, short, heq⟩ :=
          doStream_of_steady (s := { s with output := s.output ++ [.body data] }) (hsteady 0) hpath hlo
            (not_lt.mp hover) hend
        have hcomplete := (Session.complete_writingBody hphase (supplies 0)).trans ((if_neg hover).trans heq)
        have hphase' : (s.complete (.succeeded (supplies 0))).phase = .writingBody nextPos' data' := by
          rw [hcomplete]
          exact if_pos hsent
        have hend' : (s.complete (.succeeded (supplies 0))).rangeEnd = s.rangeEnd := by rw [hcomplete]
        have houtput' : (s.complete (.succeeded (supplies 0))).output = s.output ++ [.body data] := by
          rw [hcomplete]
        obtain ⟨hwaits, k, chunks, houtput, htotal⟩ := ih _ (by rw [hend']; omega)
          (fun i => hsteady (i + 1)) (by rw [hcomplete]; exact hpath) (by rw [hcomplete]) (hend'.trans_lt hend)
          hphase' (by omega) (by rw [hend']; exact hle) rfl
        constructor
        · intro k pos
          cases k with
          | zero => simp [drive, hphase]
          | succ k => exact hwaits k pos
        · refine ⟨k + 1, data :: chunks, ?_, ?_⟩
          · rw [drive, houtput, houtput']
            simp
          · rw [List.flatten_cons, List.length_append, Nat.cast_add, htotal, hend', hlength]
            omega

end Driving

/-! ### Where the range lies -/

/-- The end that is stated lies inside the file or before the start; or it is below zero, and so is no
byte of the file behind the start. -/
def EndsInside (n start : Int) (stop : Option Int) : Prop :=
  ∀ last, stop = some last → if 0 ≤ last then last < start ∨ last < n else n ≤ start

section Inside

variable {n start : Int} {stop : Option Int} (hstart : 0 ≤ start) (hinside : EndsInside n start stop)
include hinside

theorem settledEnd_lt_iff : settledEnd n stop < start ↔ Unsatisfiable n start stop := by
  cases stop with
  | none =>
      have hnone : ¬ ∃ last, (none : Option Int) = some last ∧ last < start := by simp
      have hend : settledEnd n none = n - 1 := rfl
      rw [Unsatisfiable, or_iff_left hnone, hend]
      omega
  | some last =>
      have hlast := hinside last rfl
      simp only [settledEnd, Unsatisfiable, Option.getD_some, Option.some.injEq, exists_eq_left']
      split_ifs at hlast ⊢ <;> omega

include hstart in
theorem settledEnd_eq (hsatisfiable : ¬ Unsatisfiable n start stop) : settledEnd n stop = lastOf n stop := by
  cases stop with
  | none => rfl
  | some last =>
      have hlast := hinside last rfl
      simp only [Unsatisfiable, Option.some.injEq, exists_eq_left', not_or, not_le, not_lt] at hsatisfiable
      rw [settledEnd, lastOf, Option.getD_some, if_pos (by omega)]
      rw [if_pos (by omega)] at hlast
      omega

end Inside

theorem lastOf_lt {n : Int} (stop : Option Int) : lastOf n stop < n := by
  cases stop with
  | none => exact Int.sub_one_lt_of_le le_rfl
  | some last => exact (min_le_right _ _).trans_lt (Int.sub_one_lt_of_le le_rfl)

section Asked

variable {request : Request} {info : FileKey → Option ConfigText} {path : String} {n start : Int}
  {stop : Option Int} (hasks : Asks request info path n start stop)
include hasks

theorem advertises_handleRequest (disk : Disk) (supply : Supply) :
    Advertises n start (settledEnd n stop) (handleRequest request info disk supply) := by
  rw [handleRequest_of_asks hasks]
  split
  · exact ⟨⟨rfl, rfl, rfl⟩, by simp⟩
  · have hfresh : Advertises n start (settledEnd n stop) (freshSession path n start (settledEnd n stop)) :=
      ⟨⟨rfl, rfl, rfl⟩, by simp [freshSession]⟩
    exact hfresh.doStream start supply

/-- **Where everything is there**, the range is sent from end to end. -/
theorem drive_handleRequest (hrange : start ≤ settledEnd n stop) (hend : settledEnd n stop < n) (disk : Disk)
    {supply : Supply} {supplies : Nat → Supply} (hsupply : Steady n path supply)
    (hsteady : ∀ i, Steady n path (supplies i)) :
    (∀ k pos, (drive supplies (handleRequest request info disk supply) k).phase ≠ .waiting pos) ∧
      ∃ k, ∃ chunks : List (List Byte),
        (drive supplies (handleRequest request info disk supply) k).output =
          .header start (settledEnd n stop) (some n) (settledEnd n stop - start + 1) ::
            chunks.map .body ++ [.shutdown] ∧
        (chunks.flatten.length : Int) = settledEnd n stop - start + 1 := by
  obtain ⟨nextPos, data, hlt, hle, hlength, reported, short, heq⟩ :=
    doStream_of_steady (s := freshSession path n start (settledEnd n stop)) hsupply rfl hasks.start_nonneg
      hrange hend
  have hfirst : handleRequest request info disk supply = { freshSession path n start (settledEnd n stop) with
      headerSent := true, reported := reported, short := short, phase := .writingHeader nextPos data } := by
    rw [handleRequest_of_asks hasks, if_neg (not_lt.mpr hrange), heq]
    rfl
  have hheader := Session.complete_writingHeader (s := handleRequest request info disk supply)
    (by rw [hfirst]) (supplies 0)
  rw [hfirst] at hheader
  obtain ⟨hwaits, k, chunks, houtput, htotal⟩ := drive_of_writingBody
    (s := (handleRequest request info disk supply).complete (.succeeded (supplies 0)))
    (fun i => hsteady (i + 1)) (by rw [hfirst, hheader]; rfl) (by rw [hfirst, hheader])
    (by rw [hfirst, hheader]; exact hend) (by rw [hfirst, hheader]) (hasks.start_nonneg.trans hlt.le)
    (by rw [hfirst, hheader]; exact hle)
  constructor
  · intro k pos
    cases k with
    | zero =>
        rw [drive, hfirst]
        exact Phase.noConfusion
    | succ k => exact hwaits k pos
  · refine ⟨k + 1, chunks, ?_, ?_⟩
    · rw [drive, houtput, hfirst, hheader]
      simp [Session.header, totalOf, hasks.known, freshSession]
    · rw [htotal, hfirst, hheader, hlength]
      change nextPos - start + (settledEnd n stop + 1 - nextPos) = _
      omega

theorem negotiates_of_endsInside (hinside : EndsInside n start stop) :
    Negotiates request info path n start stop := by
  have hstart := hasks.start_nonneg
  constructor
  · intro hunsatisfiable disk supply s hrun
    have hrefused := handleRequest_of_asks hasks disk supply
    rw [if_pos ((settledEnd_lt_iff hinside).mpr hunsatisfiable)] at hrefused
    rw [(output_of_closed (by rw [hrefused]; rfl) hrun).2, hrefused]
  · intro hsatisfiable disk supply s hrun first last total length hmem
    obtain ⟨rfl, hlast, htotal, hlength⟩ :=
      ((advertises_handleRequest hasks disk supply).reaches hrun).headers first last total length hmem
    rw [← settledEnd_eq hstart hinside hsatisfiable]
    exact ⟨rfl, hlast, htotal.trans (if_pos hasks.known), hlast ▸ hlength⟩
  · intro hsatisfiable disk supply supplies hsupply hsteady
    have hlast := settledEnd_eq hstart hinside hsatisfiable
    have hrange := (not_congr (settledEnd_lt_iff hinside)).mpr hsatisfiable
    rw [← hlast]
    exact drive_handleRequest hasks (not_lt.mp hrange) (hlast ▸ lastOf_lt stop) disk hsupply hsteady

def steadySupply (n : Int) : Supply where
  ranges := some (rangesAnswer [(0, n - 1)])
  disk _ := some (List.replicate n.toNat 0)

omit hasks in
theorem steady_steadySupply (n : Int) (path : String) : Steady n path (steadySupply n) :=
  ⟨segmentsOf_rangesAnswer _, _, rfl, by rw [List.length_replicate]; omega⟩

theorem endsInside_of_negotiates (h : Negotiates request info path n start stop) :
    EndsInside n start stop := by
  have hstart := hasks.start_nonneg
  rintro last rfl
  -- Where it is not refused, nothing is sent before anything is reported.
  have hstreams : start ≤ settledEnd n (some last) → ¬ Unsatisfiable n start (some last) := by
    intro hrange hunsatisfiable
    have houtput := h.refused hunsatisfiable (fun _ => none) ⟨none, fun _ => none⟩ _ .refl
    rw [handleRequest_of_asks hasks, if_neg (not_lt.mpr hrange)] at houtput
    simp [Session.doStream, segmentsOf, findSegment, freshSession] at houtput
  split
  next hlast =>
    by_contra hbehind
    rw [not_or, not_lt, not_lt] at hbehind
    have hsettled : settledEnd n (some last) = last := if_pos hlast
    have hsatisfiable := hstreams (hbehind.1.trans_eq hsettled.symm)
    -- The header that is due ends with the file, the header that is sent does not.
    obtain ⟨-, k, chunks, houtput, -⟩ := h.complete hsatisfiable (fun _ => none) (steadySupply n)
      (fun _ => steadySupply n) (steady_steadySupply n path) fun _ => steady_steadySupply n path
    have hsent := ((advertises_handleRequest hasks (fun _ => none) (steadySupply n)).reaches
      (reaches_drive (fun _ => steadySupply n) _ k)).headers start (lastOf n (some last)) (some n)
      (lastOf n (some last) - start + 1) (by rw [houtput]; exact List.mem_cons_self)
    have hdue := lastOf_lt (n := n) (some last)
    rw [hsent.2.1, hsettled] at hdue
    omega
  next hlast =>
    by_contra hbefore
    have hsettled : settledEnd n (some last) = n - 1 := if_neg hlast
    exact hstreams (by omega) (Or.inr ⟨last, rfl, by omega⟩)

/-- **A range is negotiated right exactly if its end lies inside the file**, or no byte is left to send. -/
theorem negotiates_iff : Negotiates request info path n start stop ↔ EndsInside n start stop :=
  ⟨endsInside_of_negotiates hasks, negotiates_of_endsInside hasks⟩

end Asked

def fourBytesInfo (_ : FileKey) : Option ConfigText := some (infoAnswer "f" 4)

theorem asks_fourBytes {range : String} {start : Int} {stop : Option Int}
    (h : parseRequest (fileRequest range) = .ok (⟨"c", .http, "k", 0⟩, start, stop)) :
    Asks (fileRequest range) fourBytesInfo "f" 4 start stop := by
  have hpath : cStr "f" = "f" := by decide
  refine ⟨⟨_, h, ?_⟩, by decide⟩
  rw [fourBytesInfo, readFileInfo_infoAnswer, hpath]

theorem negotiates_iff_inside : Negotiates (fileRequest "bytes=1-2") fourBytesInfo "f" 4 1 (some 2) := by
  refine (negotiates_iff (asks_fourBytes (by decide +kernel))).mpr fun last hlast => ?_
  obtain rfl := Option.some.inj hlast
  decide

/-- **An end behind the file** is neither cut nor refused. -/
theorem not_negotiates_behind :
    ¬ Negotiates (fileRequest "bytes=1-9") fourBytesInfo "f" 4 1 (some 9) ∧
      ¬ Negotiates (fileRequest "bytes=5-9") fourBytesInfo "f" 4 5 (some 9) := by
  constructor
  · intro h
    have hinside := endsInside_of_negotiates (asks_fourBytes (by decide +kernel)) h 9 rfl
    exact absurd hinside (by decide)
  · intro h
    have hinside := endsInside_of_negotiates (asks_fourBytes (by decide +kernel)) h 9 rfl
    exact absurd hinside (by decide)

end DownloadWrapper.Playback
