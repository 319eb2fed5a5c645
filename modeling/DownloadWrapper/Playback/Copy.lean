import DownloadWrapper.Lib.LaidOut
import DownloadWrapper.Playback.Session

/-!
# What a session sends

The position of a session moves on by what it asked for, not by what it read. As long as no read was cut
short it is the position of the next byte, and what is sent is a copy of the file from the start of the
range on.
-/

namespace DownloadWrapper.Playback

open Transition

def bodyOf (outputs : List Output) : List Byte :=
  outputs.flatMap fun
    | .body data => data
    | _ => []

theorem bodyOf_append (outputs later : List Output) : bodyOf (outputs ++ later) = bodyOf outputs ++ bodyOf later :=
  List.flatMap_append

theorem bodyOf_refusals (refusals : List Refusal) : bodyOf (refusals.map .error) = [] := by
  induction refusals with
  | nil => rfl
  | cons refusal refusals ih => exact ih

/-- What was read and is not sent yet. -/
def Phase.pending : Phase → List Byte
  | .writingHeader _ data => data
  | .writingBody _ data => data
  | _ => []

def Phase.position : Phase → Option Int
  | .writingHeader nextPos _ => some nextPos
  | .writingBody nextPos _ => some nextPos
  | .waiting pos => some pos
  | .closed => none

namespace Session

def body (s : Session) : List Byte := bodyOf s.output

def copied (s : Session) : List Byte := s.body ++ s.phase.pending

/-- The body is a copy of the file from the start of the range on. -/
structure CopiesExactly (content : Int → Byte) (s : Session) : Prop where
  exact : ∀ (i : Nat) b, s.body[i]? = some b → b = content (s.rangeStart + i)
  bounded : ∀ i < s.body.length, s.rangeStart + i ≤ s.rangeEnd
  reported : ∀ i < s.copied.length, ∃ segment ∈ s.reported,
    segment.1 ≤ s.rangeStart + i ∧ s.rangeStart + i ≤ segment.2

/-- Where a segment is reported, the disk holds the bytes of the file, as far as it holds any. -/
def Truthful (content : Int → Byte) (filePath : String) (supply : Supply) : Prop :=
  ∀ segment ∈ segmentsOf supply.ranges, ∀ bytes, supply.disk filePath = some bytes →
    ∀ (pos : Nat) b, segment.1 ≤ pos → pos ≤ segment.2 → bytes[pos]? = some b → b = content pos

/-- The session goes on with truthful segments. -/
def Honest (content : Int → Byte) (s : Session) : Completion → Prop
  | .failed _ => True
  | .succeeded supply => Truthful content s.filePath supply

def Seamless (content : Int → Byte) (s : Session) (e : Completion) : Prop :=
  Honest content s e ∧ ∀ supply, e = .succeeded supply →
    s.short = true → ∀ pos, s.phase.position = some pos → s.readAt pos supply = []

/-! ### The invariant -/

def Right (content : Int → Byte) (rangeEnd : Int) (reported : List (Int × Int)) (pos : Int) (b : Byte) :
    Prop :=
  b = content pos ∧ pos ≤ rangeEnd ∧ ∃ segment ∈ reported, segment.1 ≤ pos ∧ pos ≤ segment.2

theorem Right.mono {content : Int → Byte} {rangeEnd : Int} {reported later : List (Int × Int)} {pos : Int}
    {b : Byte} (h : Right content rangeEnd reported pos b) :
    Right content rangeEnd (reported ++ later) pos b := by
  obtain ⟨hbyte, hle, segment, hsegment, hheld⟩ := h
  exact ⟨hbyte, hle, segment, List.mem_append_left _ hsegment, hheld⟩

structure Copying (content : Int → Byte) (s : Session) : Prop where
  right : LaidOut (Right content s.rangeEnd s.reported) s.rangeStart s.copied
  position : s.short = false → ∀ pos, s.phase.position = some pos →
    pos = s.rangeStart + s.copied.length

variable {content : Int → Byte} {s : Session}

theorem Copying.copiesExactly (h : s.Copying content) : s.CopiesExactly content := by
  obtain ⟨hbody, -⟩ := laidOut_append.mp h.right
  refine ⟨fun i b hb => (hbody i b hb).1, fun i hi => ?_, fun i hi => ?_⟩
  · exact (hbody i _ (List.getElem?_eq_getElem hi)).2.1
  · exact (h.right i _ (List.getElem?_eq_getElem hi)).2.2

theorem copied_written (s : Session) (phase : Phase) (outputs : List Output) :
    copied { s with phase := phase, output := s.output ++ outputs } =
      s.body ++ bodyOf outputs ++ phase.pending := by
  rw [copied, body, bodyOf_append]
  rfl

theorem Copying.written (h : s.Copying content) {phase : Phase} {outputs : List Output}
    (hsame : bodyOf outputs ++ phase.pending = s.phase.pending)
    (hposition : ∀ pos, phase.position = some pos → s.phase.position = some pos) :
    Copying content { s with phase := phase, output := s.output ++ outputs } := by
  have hcopied : copied { s with phase := phase, output := s.output ++ outputs } = s.copied := by
    rw [copied_written, List.append_assoc, hsame, copied]
  refine ⟨hcopied ▸ h.right, fun hshort pos hpos => ?_⟩
  rw [hcopied]
  exact h.position hshort pos (hposition pos hpos)

theorem laidOut_readAt {supply : Supply} (htrue : Truthful content s.filePath supply) (pos : Int) :
    LaidOut (Right content s.rangeEnd (s.reported ++ segmentsOf supply.ranges)) pos (s.readAt pos supply) := by
  by_cases hread : s.readAt pos supply = []
  · rw [hread]
    exact laidOut_nil _ _
  · obtain ⟨segment, hsegment, hlo, hhi, hdata, -⟩ := doStream_of_ne_nil hread
    rw [hdata]
    intro i b hb
    obtain ⟨hi, bytes, hbytes, at', hat, hbyte⟩ := getElem?_readFileData hb
    have hrange : pos ≤ s.rangeEnd := by
      by_contra hbehind
      simp only [sendEnd, chunkSize] at hi
      split_ifs at hi <;> omega
    obtain ⟨-, hle, hle'⟩ := sendEnd_bounds hhi hrange
    refine ⟨hat ▸ htrue segment hsegment bytes hbytes at' b (by omega) (by omega) hbyte, by omega,
      segment, List.mem_append_right _ hsegment, by omega, by omega⟩

/-- **A call of `do_stream` keeps what was read right**, where nothing waits to be sent. -/
theorem Copying.doStream (h : s.Copying content) {pos : Int} {supply : Supply}
    (hpending : s.phase.pending = []) (hpos : s.phase.position = some pos)
    (htrue : Truthful content s.filePath supply) (hseam : s.short = true → s.readAt pos supply = []) :
    (s.doStream pos supply).Copying content := by
  have hcopied : s.copied = s.body := by rw [copied, hpending, List.append_nil]
  by_cases hread : s.readAt pos supply = []
  · obtain ⟨refusals, phase, hphase, heq⟩ := doStream_of_nil hread
    have hsame : (s.doStream pos supply).copied = s.copied := by
      rw [hcopied, heq, copied, body, bodyOf_append, bodyOf_refusals, List.append_nil]
      rcases hphase with rfl | rfl <;> exact List.append_nil _
    constructor
    · rw [hsame, heq]
      exact h.right.mono fun _ _ => Right.mono
    · intro hshort at' hat
      rw [hsame]
      rw [heq] at hshort hat ⊢
      rcases hphase with rfl | rfl
      · obtain rfl := Option.some.inj hat
        exact h.position hshort pos hpos
      · simp [Phase.position] at hat
  · have hshort : s.short = false := by
      by_contra htrue'
      exact hread (hseam (by simpa using htrue'))
    have hstart := h.position hshort pos hpos
    obtain ⟨segment, -, -, -, hdata, heq⟩ := doStream_of_ne_nil hread
    have happend : (s.doStream pos supply).copied = s.copied ++ s.readAt pos supply := by
      rw [hcopied, heq, copied]
      dsimp only
      split <;> rfl
    constructor
    · rw [happend, heq]
      refine laidOut_append.mpr ⟨h.right.mono fun _ _ => Right.mono, ?_⟩
      exact hstart ▸ laidOut_readAt htrue pos
    · intro hfull at' hat
      rw [happend, List.length_append]
      rw [heq] at hfull hat ⊢
      simp only [Bool.or_eq_false_iff, decide_eq_false_iff_not] at hfull
      have hasked : ((s.readAt pos supply).length : Int) ≤ sendEnd pos segment.2 s.rangeEnd - pos + 1 := by
        rw [hdata] at hread ⊢
        exact length_readFileData_le hread
      have hnext : at' = sendEnd pos segment.2 s.rangeEnd + 1 := by
        dsimp only at hat
        split at hat <;> exact (Option.some.inj hat).symm
      change at' = s.rangeStart + _
      omega

theorem Copying.failed (h : s.Copying content) (transferred : Nat) :
    (s.complete (.failed transferred)).Copying content := by
  obtain ⟨hbody, hpending⟩ := laidOut_append.mp h.right
  rw [Session.complete]
  split
  next nextPos data hphase =>
    refine ⟨?_, fun _ _ hat => by simp [Phase.position] at hat⟩
    rw [hphase] at hpending
    have hsent : bodyOf [.body (data.take transferred)] = data.take transferred :=
      List.append_nil _
    rw [copied_written, hsent]
    exact laidOut_append.mpr ⟨laidOut_append.mpr ⟨hbody, hpending.take transferred⟩, laidOut_nil _ _⟩
  next =>
    refine ⟨?_, fun _ _ hat => by simp [Phase.position] at hat⟩
    exact laidOut_append.mpr ⟨hbody, laidOut_nil _ _⟩

/-- **A step that reads nothing behind a short read keeps what was read right.** -/
theorem Copying.complete (h : s.Copying content) {e : Completion} (hseam : Seamless content s e) :
    (s.complete e).Copying content := by
  cases e with
  | failed transferred => exact h.failed transferred
  | succeeded supply =>
      obtain ⟨htrue, hnothing⟩ := hseam
      replace hnothing := hnothing supply rfl
      rw [Session.complete]
      cases hphase : s.phase with
      | writingHeader nextPos data =>
          exact h.written (by rw [hphase]; rfl) fun pos hpos => by rw [hphase]; exact hpos
      | writingBody nextPos data =>
          have hsent : bodyOf [.body data] = s.phase.pending := by
            rw [hphase]
            exact List.append_nil data
          dsimp only
          split
          · rw [List.append_assoc]
            refine h.written ?_ fun pos hpos => by simp [Phase.position] at hpos
            rw [bodyOf_append, hsent]
            exact (List.append_nil _).trans (List.append_nil _)
          · have hwaiting : Copying content
                { s with phase := .waiting nextPos, output := s.output ++ [.body data] } :=
              h.written (by rw [hsent]; exact List.append_nil _) fun pos hpos => by
                rw [hphase]; exact hpos
            rw [← doStream_phase nextPos supply _ (.waiting nextPos)]
            exact hwaiting.doStream rfl rfl htrue fun hshort =>
              hnothing hshort nextPos (by rw [hphase]; rfl)
      | waiting pos =>
          refine h.doStream (by rw [hphase]; rfl) (by rw [hphase]; rfl) htrue fun hshort => ?_
          exact hnothing hshort pos (by rw [hphase]; rfl)
      | closed => exact h

theorem copying_handleRequest {request : Request} {info : FileKey → Option ConfigText} {disk : Disk}
    {supply : Supply} (htrue : Truthful content (handleRequest request info disk supply).filePath supply) :
    (handleRequest request info disk supply).Copying content := by
  have hclosed : ∀ s : Session, s.phase = .closed → s.body = [] → s.Copying content := by
    intro s hphase hbody
    have hcopied : s.copied = [] := by rw [copied, hbody, hphase]; rfl
    exact ⟨hcopied ▸ laidOut_nil _ _, fun _ pos hpos => by simp [hphase, Phase.position] at hpos⟩
  revert htrue
  rw [handleRequest]
  split
  · exact fun _ => hclosed _ rfl rfl
  split
  · exact fun _ => hclosed _ rfl rfl
  split
  · exact fun _ => hclosed _ rfl rfl
  next key rangeStart stop _ _ filePath totalSize _ _ rangeEnd _ =>
    dsimp only
    split
    · exact fun _ => hclosed _ rfl rfl
    · intro htrue
      rw [(doStream_range _ _ _).1] at htrue
      rw [← doStream_phase _ _ _ (.waiting rangeStart)]
      refine Copying.doStream ⟨laidOut_nil _ _, fun _ pos hpos => ?_⟩ rfl rfl htrue fun hshort => ?_
      · rw [← Option.some.inj hpos]
        exact (add_zero rangeStart).symm
      · exact absurd hshort Bool.false_ne_true

/-- **While nothing is read behind a short read**, the body is a copy of the file. -/
theorem copiesExactly_of_reaches (content : Int → Byte) {request : Request}
    {info : FileKey → Option ConfigText} {disk : Disk} {supply : Supply}
    (htrue : Truthful content (handleRequest request info disk supply).filePath supply) {s : Session}
    (hrun : Reaches step (Seamless content) (handleRequest request info disk supply) s) :
    s.CopiesExactly content := by
  refine Copying.copiesExactly (hrun.invariant ?_ (copying_handleRequest htrue))
  intro s e t hcopying hseam hstep
  rw [← Option.some.inj hstep]
  exact hcopying.complete hseam

end Session

def wholeFile : List Byte := [7, 8, 9, 10]

def fileContent (pos : Int) : Byte := wholeFile.getD pos.toNat 0

def wholeFileInfo (_ : FileKey) : Option ConfigText := some (infoAnswer "f" 4)

def supplyOf (last : Int) (count : Nat) : Supply where
  ranges := some (rangesAnswer [(0, last)])
  disk _ := some (wholeFile.take count)

theorem truthful_supplyOf (filePath : String) (last : Int) (count : Nat) :
    Session.Truthful fileContent filePath (supplyOf last count) := by
  intro segment _ bytes hbytes pos b _ _ hb
  obtain rfl := Option.some.inj hbytes
  have hin := (List.getElem?_eq_some_iff.mp hb).1
  rw [List.length_take] at hin
  rw [List.getElem?_take_of_lt (by omega)] at hb
  simp [fileContent, hb]

def wholeSession : Session :=
  handleRequest (fileRequest "bytes=1-") wholeFileInfo (fun _ => none) (supplyOf 3 4)

def wholeRun : List Completion := [.succeeded (supplyOf 3 4), .succeeded (supplyOf 3 4)]

theorem copiesExactly_of_reaches_wholeRun :
    (wholeRun.foldl Session.complete wholeSession).CopiesExactly fileContent ∧
      (wholeRun.foldl Session.complete wholeSession).output =
        [.header 1 3 (some 4) 3, .body [8, 9, 10], .shutdown] := by
  refine ⟨Session.copiesExactly_of_reaches fileContent (truthful_supplyOf _ _ _)
    (reaches_foldl (fun _ _ => rfl) ?_), by decide +kernel⟩
  have hfirst : wholeSession.short = false := by decide +kernel
  have hsecond : (wholeSession.complete (.succeeded (supplyOf 3 4))).short = false := by decide +kernel
  exact ⟨⟨truthful_supplyOf _ _ _, fun _ _ hshort => absurd (hfirst.symm.trans hshort) Bool.false_ne_true⟩,
    ⟨truthful_supplyOf _ _ _, fun _ _ hshort => absurd (hsecond.symm.trans hshort) Bool.false_ne_true⟩,
    trivial⟩

def growingSession : Session :=
  handleRequest (fileRequest "bytes=0-3") wholeFileInfo (fun _ => none) (supplyOf 1 1)

def growingRun : List Completion :=
  [.succeeded (supplyOf 1 1), .succeeded (supplyOf 3 4), .succeeded (supplyOf 3 4)]

/-- **A chunk behind a short read is out of place**: the second byte is left out. -/
theorem not_copiesExactly_growingRun :
    Session.Truthful fileContent growingSession.filePath (supplyOf 1 1) ∧
      ∃ s, Reaches Session.step (Session.Honest fileContent) growingSession s ∧
        ¬ s.CopiesExactly fileContent := by
  have houtput : (growingRun.foldl Session.complete growingSession).output =
      [.header 0 3 (some 4) 4, .body [7], .body [9, 10], .shutdown] := by decide +kernel
  have hstart : (growingRun.foldl Session.complete growingSession).rangeStart = 0 := by decide +kernel
  refine ⟨truthful_supplyOf _ _ _, growingRun.foldl Session.complete growingSession, reaches_foldl (fun _ _ => rfl) ?_, fun h => ?_⟩
  · exact ⟨truthful_supplyOf _ _ _, truthful_supplyOf _ _ _, truthful_supplyOf _ _ _, trivial⟩
  · have hbyte := h.exact 1 9 (by rw [Session.body, houtput]; rfl)
    rw [hstart] at hbyte
    exact absurd hbyte (by decide)

end DownloadWrapper.Playback
