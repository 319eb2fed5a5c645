import DownloadWrapper.Playback.Session

/-!
# Asking for data again

A session asks `dw_get_file_ranges` about its position. The answer comes with a code: 0 for data, 1 for
none as yet, 2 for none as the file is not downloaded, and -1 for an error. The session only tells 0 from
the rest, so it asks again after each of them.
-/

namespace DownloadWrapper.Playback

open Transition

def codeOf : Option ConfigText → Option Int
  | some (.value (.object obj)) => atInt64 obj "code"
  | _ => none

def Final (ranges : Option ConfigText) : Prop := codeOf ranges = some 2 ∨ codeOf ranges = some (-1)

theorem segmentsOf_of_code {ranges : Option ConfigText} (h : codeOf ranges ≠ some 0) :
    segmentsOf ranges = [] := by
  cases ranges with
  | none => rfl
  | some text =>
      cases text with
      | empty => rfl
      | malformed => rfl
      | value json =>
          cases json with
          | object obj => exact if_pos h
          | _ => rfl

namespace Session

def asked (s : Session) : Completion → Option (Int × Supply)
  | .failed _ => none
  | .succeeded supply =>
      match s.phase with
      | .writingBody nextPos _ => if s.rangeEnd < nextPos then none else some (nextPos, supply)
      | .waiting pos => some (pos, supply)
      | _ => none

def Silent (t : Session) : Prop :=
  ∀ es : List Completion, (∀ pos, (es.foldl complete t).phase ≠ .waiting pos) ∧
    ∀ e, (es.foldl complete t).asked e = none

def Waits (pos : Int) (t : Session) : Prop :=
  t.phase = .waiting pos ∧ ∀ supply, t.asked (.succeeded supply) = some (pos, supply)

def Writes (pos : Int) (data : List Byte) (t : Session) : Prop :=
  ∃ nextPos, pos < nextPos ∧
    (t.phase = .writingHeader nextPos data ∨ t.phase = .writingBody nextPos data)

/-- What the code of an answer asks of the session. With data, it goes on at its position: it writes what
it reads there, or waits if the position is in no segment. -/
def Heeds (s : Session) (e : Completion) : Prop :=
  ∀ pos supply, s.asked e = some (pos, supply) →
    (Final supply.ranges → (s.complete e).Silent) ∧
    (codeOf supply.ranges = some 1 → (s.complete e).Waits pos) ∧
    (codeOf supply.ranges = some 0 →
      (findSegment pos (segmentsOf supply.ranges) = none → (s.complete e).Waits pos) ∧
      (s.readAt pos supply ≠ [] → (s.complete e).Writes pos (s.readAt pos supply)))

/-- No answer says that data cannot arrive. -/
def Hopeful (s : Session) (e : Completion) : Prop :=
  ∀ pos supply, s.asked e = some (pos, supply) → ¬ Final supply.ranges

theorem waits_of_phase {pos : Int} {t : Session} (h : t.phase = .waiting pos) : t.Waits pos :=
  ⟨h, fun supply => by rw [asked, h]⟩

theorem not_silent_of_waits {pos : Int} {t : Session} (h : t.Waits pos) : ¬ t.Silent :=
  fun hsilent => (hsilent []).1 pos h.1

theorem silent_of_closed {t : Session} (h : t.phase = .closed) : t.Silent := by
  have hkeep : ∀ es : List Completion, (es.foldl complete t).phase = .closed := by
    intro es
    induction es generalizing t with
    | nil => exact h
    | cons e es ih =>
        refine ih ?_
        cases e <;> simp [complete, h]
  refine fun es => ⟨fun pos => by simp [hkeep es], fun e => ?_⟩
  cases e with
  | failed transferred => rfl
  | succeeded supply => rw [asked, hkeep es]

theorem complete_of_asked {s : Session} {e : Completion} {pos : Int} {supply : Supply}
    (h : s.asked e = some (pos, supply)) :
    ∃ output, s.complete e = { s with output := output }.doStream pos supply := by
  cases e with
  | failed transferred => simp [asked] at h
  | succeeded found =>
      rw [asked] at h
      cases hphase : s.phase with
      | writingHeader nextPos data => simp [hphase] at h
      | writingBody nextPos data =>
          simp only [hphase] at h
          split at h
          · simp at h
          next hrange =>
            obtain ⟨rfl, rfl⟩ := Prod.mk.inj (Option.some.inj h)
            refine ⟨s.output ++ [.body data], ?_⟩
            rw [complete_writingBody hphase, if_neg hrange]
            rfl
      | waiting at' =>
          simp only [hphase] at h
          obtain ⟨rfl, rfl⟩ := Prod.mk.inj (Option.some.inj h)
          refine ⟨s.output, ?_⟩
          unfold complete
          simp only [hphase]
          rfl
      | closed => simp [hphase] at h

theorem waits_of_findSegment {s : Session} {e : Completion} {pos : Int} {supply : Supply}
    (hasked : s.asked e = some (pos, supply)) (hfind : findSegment pos (segmentsOf supply.ranges) = none) :
    (s.complete e).Waits pos := by
  obtain ⟨output, heq⟩ := complete_of_asked hasked
  apply waits_of_phase
  rw [heq, doStream]
  simp [hfind]

/-- **Whatever the code is**, the session waits unless it is 0. -/
theorem waits_of_code {s : Session} {e : Completion} {pos : Int} {supply : Supply}
    (hasked : s.asked e = some (pos, supply)) (hcode : codeOf supply.ranges ≠ some 0) :
    (s.complete e).Waits pos := by
  refine waits_of_findSegment hasked ?_
  rw [segmentsOf_of_code hcode]
  rfl

theorem writes_of_readAt {s : Session} {e : Completion} {pos : Int} {supply : Supply}
    (hasked : s.asked e = some (pos, supply)) (hread : s.readAt pos supply ≠ []) :
    (s.complete e).Writes pos (s.readAt pos supply) := by
  obtain ⟨output, heq⟩ := complete_of_asked hasked
  have hread' : readAt pos supply { s with output := output } ≠ [] := hread
  obtain ⟨segment, -, -, -, hdata, hstream⟩ := doStream_of_ne_nil hread'
  have hlength : ((s.readAt pos supply).length : Int) ≤ sendEnd pos segment.2 s.rangeEnd - pos + 1 := by
    have hne := hread
    change s.readAt pos supply = _ at hdata
    rw [hdata] at hne ⊢
    exact length_readFileData_le hne
  have hpos := List.length_pos_iff.mpr hread
  refine ⟨sendEnd pos segment.2 s.rangeEnd + 1, by omega, ?_⟩
  rw [heq, hstream]
  by_cases hsent : s.headerSent = true
  · exact Or.inr (if_pos hsent)
  · exact Or.inl (if_neg hsent)

theorem heeds_iff (s : Session) (e : Completion) : s.Heeds e ↔ s.Hopeful e := by
  constructor
  · intro h pos supply hasked hfinal
    -- both codes are other than 0, so the session waits and is not silent
    have hcode : codeOf supply.ranges ≠ some 0 := by
      rcases hfinal with hfinal | hfinal <;> simp [hfinal]
    exact not_silent_of_waits (waits_of_code hasked hcode) ((h pos supply hasked).1 hfinal)
  · intro h pos supply hasked
    refine ⟨fun hfinal => absurd hfinal (h pos supply hasked), fun hcode => ?_, fun _ => ⟨?_, ?_⟩⟩
    · exact waits_of_code hasked (by simp [hcode])
    · exact waits_of_findSegment hasked
    · exact writes_of_readAt hasked

/-- The first query is as the one after the timer: an accepted request waits for the start of its range. -/
theorem handleRequest_eq_complete {request : Request} {info : FileKey → Option ConfigText} {disk : Disk}
    {supply : Supply} {key : FileKey} {rangeStart rangeEnd totalSize : Int} {stop : Option Int}
    {filePath : String} (hrequest : parseRequest request = .ok (key, rangeStart, stop))
    (hinfo : readFileInfo (info key) = .ok (filePath, totalSize))
    (hend : resolveEnd disk filePath totalSize (stop.getD (-1)) = some rangeEnd)
    (hrange : ¬ rangeEnd < rangeStart) :
    handleRequest request info disk supply =
      complete { filePath := filePath, rangeStart := rangeStart, rangeEnd := rangeEnd
                 totalSize := totalSize, phase := .waiting rangeStart } (.succeeded supply) := by
  simp only [handleRequest, hrequest, hinfo, hend, if_neg hrange]
  rfl

theorem waits_of_codes {pos : Int} {s : Session} (h : s.phase = .waiting pos) {supplies : List Supply}
    (hcodes : ∀ supply ∈ supplies, codeOf supply.ranges ≠ some 0) :
    ((supplies.map .succeeded).foldl complete s).Waits pos := by
  induction supplies generalizing s with
  | nil => exact waits_of_phase h
  | cons supply supplies ih =>
      rw [List.forall_mem_cons] at hcodes
      have hasked := (waits_of_phase h).2 supply
      exact ih (waits_of_code hasked hcodes.1).1 hcodes.2

/-- **Every answer is heeded just as long as none is final.** -/
theorem along_heeds_iff (s : Session) (es : List Completion) :
    Along complete Heeds s es ↔ Along complete Hopeful s es :=
  along_iff (fun _ _ (_ : True) _ => trivial) (fun s e _ => heeds_iff s e) trivial es

def codeAnswer (code : Int) : ConfigText := .value (.object [("code", .ofInt code)])

/-- **A session polls on after a final answer**: it waits at the start of a file that is not downloaded. -/
theorem not_forall_along_heeds : ¬ ∀ (s : Session) (es : List Completion), Along complete Heeds s es := by
  intro h
  have hheeds := (h { filePath := "f", rangeEnd := 99, totalSize := 100, phase := .waiting 0 }
    [.succeeded ⟨some (codeAnswer 2), fun _ => none⟩]).1 0 _ rfl
  exact (hheeds.1 (Or.inl (by decide)) []).1 0 (by decide)

end Session
end DownloadWrapper.Playback
