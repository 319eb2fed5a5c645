import DownloadWrapper.Http.Result
import DownloadWrapper.Lib.Selection
import Mathlib.Data.Int.Order.Basic

/-!
# What the parts come to

The status of a task whose connections have all ended is read off its parts. The connections end in any
order; for what comes out only the outcomes count.
-/

namespace DownloadWrapper

/-- The local variables of `aggregate_status`. -/
structure PartTally where
  hasDownloading : Bool := false
  hasError : Bool := false
  allCompleted : Bool := true
  best : Reason × Int := (.none, -1)

def PartTally.add (tally : PartTally) (p : PartState) : PartTally :=
  match p.status with
  | .downloading => { tally with hasDownloading := true, allCompleted := false }
  | .error =>
      { tally with
        hasError := true
        allCompleted := false
        best :=
          if tally.best.2 < reasonRank p.reason then (p.reason, reasonRank p.reason) else tally.best }
  | .completed => tally
  | _ => { tally with allCompleted := false }

theorem foldl_tally (parts : List PartState) (tally : PartTally) :
    parts.foldl PartTally.add tally =
      { hasDownloading := tally.hasDownloading || parts.any (·.status = .downloading)
        hasError := tally.hasError || parts.any (·.status = .error)
        allCompleted := tally.allCompleted && parts.all (·.status = .completed)
        best := parts.foldl (fun (best : Reason × Int) p =>
          if p.status = .error ∧ best.2 < reasonRank p.reason then (p.reason, reasonRank p.reason)
          else best) tally.best } := by
  induction parts generalizing tally with
  | nil => simp
  | cons p parts ih =>
      rw [List.foldl_cons, ih]
      cases hstatus : p.status <;> simp [PartTally.add, hstatus]

/-- `aggregate_status` as it is written: one loop over the parts, and then the status. -/
theorem aggregateStatus_eq_tally (t : TaskCtx) :
    aggregateStatus t =
      if t.failed then t
      else
        let tally := t.parts.foldl PartTally.add {}
        if tally.hasDownloading then { t with status := .downloading, reason := .none }
        else if tally.allCompleted then { t with status := .completed, reason := .none }
        else if tally.hasError then { t with status := .error, reason := tally.best.1 }
        else t := by
  simp only [foldl_tally, Bool.false_or, Bool.true_and]
  rfl

def PartState.Outcome (p : PartState) : Prop :=
  p.status = .downloading ∨ p.status = .completed ∨
    p.status = .error ∧ (p.reason = .auth ∨ p.reason = .error ∨ p.reason = .network)

def weightiest (parts : List PartState) : Option PartState :=
  Selection.select (fun p => p.status = .error)
    (fun p best => decide (reasonRank best.reason < reasonRank p.reason)) parts

theorem reasonRank_nonneg (reason : Reason) : 0 ≤ reasonRank reason := by
  cases reason <;> decide

def weighed (best : Option PartState) : Reason × Int :=
  (best.map fun p => (p.reason, reasonRank p.reason)).getD (.none, -1)

theorem foldl_weighed (parts : List PartState) (best : Option PartState) :
    parts.foldl (fun (best : Reason × Int) p =>
        if p.status = .error ∧ best.2 < reasonRank p.reason then (p.reason, reasonRank p.reason)
        else best) (weighed best) =
      weighed (parts.foldl (Selection.pick (fun p => p.status = .error)
        fun p best => decide (reasonRank best.reason < reasonRank p.reason)) best) := by
  induction parts generalizing best with
  | nil => rfl
  | cons p parts ih =>
      rw [List.foldl_cons, List.foldl_cons, ← ih]
      congr 1
      by_cases herror : p.status = .error
      · have hrank := reasonRank_nonneg p.reason
        cases best with
        | none => simp [weighed, Selection.pick, herror, show (-1 : Int) < reasonRank p.reason by omega]
        | some q =>
            simp only [weighed, Selection.pick, herror, true_and, decide_true, if_true, Option.map_some,
              Option.getD_some, decide_eq_true_eq]
            split <;> rfl
      · simp [Selection.pick, herror]

theorem bestReason_eq (parts : List PartState) : bestReason parts = (weighed (weightiest parts)).1 :=
  congrArg Prod.fst (foldl_weighed parts none)

def WeighsMost (parts : List PartState) (reason : Reason) : Prop :=
  (∃ p ∈ parts, p.status = .error ∧ p.reason = reason) ∧
    ∀ p ∈ parts, p.status = .error → reasonRank p.reason ≤ reasonRank reason

theorem weighsMost_bestReason {parts : List PartState} (h : ∃ p ∈ parts, p.status = .error) :
    WeighsMost parts (bestReason parts) := by
  obtain ⟨p, hmem, herror⟩ := h
  have hweighs : ∀ p q : PartState, decide (reasonRank q.reason < reasonRank p.reason) = true ↔
      reasonRank q.reason < reasonRank p.reason := fun _ _ => decide_eq_true_iff
  cases hbest : weightiest parts with
  | none =>
      have hnone := Selection.select_eq_none_iff.mp hbest p hmem
      exact absurd herror (by simpa using hnone)
  | some q =>
      obtain ⟨hmem', herror', hmost⟩ := Selection.select_spec hweighs hbest
      rw [bestReason_eq, hbest]
      exact ⟨⟨q, hmem', by simpa using herror', rfl⟩, fun p hp herror => hmost p hp (by simpa using herror)⟩

theorem WeighsMost.of_perm {parts parts' : List PartState} {reason : Reason} (hperm : parts'.Perm parts)
    (h : WeighsMost parts' reason) : WeighsMost parts reason := by
  obtain ⟨⟨p, hmem, hp⟩, hmost⟩ := h
  exact ⟨⟨p, hperm.mem_iff.mp hmem, hp⟩, fun q hq => hmost q (hperm.mem_iff.mpr hq)⟩

theorem WeighsMost.eq_ite {parts : List PartState} {reason : Reason} (hparts : ∀ p ∈ parts, p.Outcome)
    (h : WeighsMost parts reason) :
    reason =
      if ∃ p ∈ parts, p.status = .error ∧ p.reason = .auth then .auth
      else if ∃ p ∈ parts, p.status = .error ∧ p.reason = .error then .error
      else .network := by
  obtain ⟨⟨p, hmem, herror, rfl⟩, hmost⟩ := h
  have hreason : p.reason = .auth ∨ p.reason = .error ∨ p.reason = .network := by
    rcases hparts p hmem with hstatus | hstatus | ⟨-, hreason⟩
    · simp [hstatus] at herror
    · simp [hstatus] at herror
    · exact hreason
  split_ifs with hauth hfatal
  · obtain ⟨q, hq, hqerror, hqreason⟩ := hauth
    have hle := hmost q hq hqerror
    rw [hqreason] at hle
    rcases hreason with hreason | hreason | hreason
    · exact hreason
    · rw [hreason] at hle
      exact absurd hle (by decide)
    · rw [hreason] at hle
      exact absurd hle (by decide)
  · obtain ⟨q, hq, hqerror, hqreason⟩ := hfatal
    have hle := hmost q hq hqerror
    rw [hqreason] at hle
    rcases hreason with hreason | hreason | hreason
    · exact absurd ⟨p, hmem, herror, hreason⟩ hauth
    · exact hreason
    · rw [hreason] at hle
      exact absurd hle (by decide)
  · rcases hreason with hreason | hreason | hreason
    · exact absurd ⟨p, hmem, herror, hreason⟩ hauth
    · exact absurd ⟨p, hmem, herror, hreason⟩ hfatal
    · exact hreason

/-! ### The status -/

section Status

variable {t : TaskCtx}

theorem aggregateStatus_failed (h : t.failed = true) : aggregateStatus t = t := by
  rw [aggregateStatus, if_pos h]

theorem aggregateStatus_downloading (hfailed : t.failed = false)
    (h : ∃ p ∈ t.parts, p.status = .downloading) :
    aggregateStatus t = { t with status := .downloading, reason := .none } := by
  have hany : t.parts.any (·.status = .downloading) = true := by simpa using h
  simp only [aggregateStatus, hfailed, hany, Bool.false_eq_true, if_false, if_true]

theorem aggregateStatus_completed (hfailed : t.failed = false)
    (h : ∀ p ∈ t.parts, p.status = .completed) :
    aggregateStatus t = { t with status := .completed, reason := .none } := by
  have hany : t.parts.any (·.status = .downloading) = false := by
    simp only [List.any_eq_false, decide_eq_true_eq]
    intro p hp hdownloading
    simp [h p hp] at hdownloading
  have hall : t.parts.all (·.status = .completed) = true := by simpa using h
  simp only [aggregateStatus, hfailed, hany, hall, Bool.false_eq_true, if_false, if_true]

theorem aggregateStatus_error (hfailed : t.failed = false)
    (hdownloading : ¬ ∃ p ∈ t.parts, p.status = .downloading) (herror : ∃ p ∈ t.parts, p.status = .error) :
    aggregateStatus t = { t with status := .error, reason := bestReason t.parts } := by
  have hnone : t.parts.any (·.status = .downloading) = false := by
    simpa using hdownloading
  have hall : t.parts.all (·.status = .completed) = false := by
    obtain ⟨p, hp, hstatus⟩ := herror
    simp only [List.all_eq_false, decide_eq_true_eq]
    exact ⟨p, hp, by simp [hstatus]⟩
  have hany : t.parts.any (·.status = .error) = true := by simpa using herror
  simp only [aggregateStatus, hfailed, hnone, hall, hany, Bool.false_eq_true, if_false, if_true]

theorem outcome_cases (hparts : ∀ p ∈ t.parts, p.Outcome) :
    (∃ p ∈ t.parts, p.status = .downloading) ∨
      (¬ ∃ p ∈ t.parts, p.status = .downloading) ∧
        ((∀ p ∈ t.parts, p.status = .completed) ∨ ∃ p ∈ t.parts, p.status = .error) := by
  by_cases hdownloading : ∃ p ∈ t.parts, p.status = .downloading
  · exact Or.inl hdownloading
  refine Or.inr ⟨hdownloading, ?_⟩
  by_cases herror : ∃ p ∈ t.parts, p.status = .error
  · exact Or.inr herror
  refine Or.inl fun p hp => ?_
  rcases hparts p hp with hstatus | hstatus | ⟨hstatus, -⟩
  · exact absurd ⟨p, hp, hstatus⟩ hdownloading
  · exact hstatus
  · exact absurd ⟨p, hp, hstatus⟩ herror

theorem bestReason_perm {parts : List PartState} (hparts : ∀ p ∈ t.parts, p.Outcome)
    (hperm : parts.Perm t.parts) (herror : ∃ p ∈ t.parts, p.status = .error) :
    bestReason parts = bestReason t.parts := by
  have herror' : ∃ p ∈ parts, p.status = .error := by
    obtain ⟨p, hp, hstatus⟩ := herror
    exact ⟨p, hperm.mem_iff.mpr hp, hstatus⟩
  rw [((weighsMost_bestReason herror').of_perm hperm).eq_ite hparts,
    ← (weighsMost_bestReason herror).eq_ite hparts]

theorem aggregateStatus_perm (hparts : ∀ p ∈ t.parts, p.Outcome) (hfailed : t.failed = false)
    {parts : List PartState} (hperm : parts.Perm t.parts) :
    aggregateStatus { t with parts := parts } = { aggregateStatus t with parts := parts } := by
  have hexists : ∀ {P : PartState → Prop}, (∃ p ∈ t.parts, P p) ↔ ∃ p ∈ parts, P p := fun {P} =>
    exists_congr fun p => and_congr_left fun _ => hperm.mem_iff.symm
  rcases outcome_cases hparts with hdownloading | ⟨hdownloading, hcompleted | herror⟩
  · rw [aggregateStatus_downloading hfailed hdownloading, aggregateStatus_downloading]
    · exact hfailed
    · exact hexists.mp hdownloading
  · rw [aggregateStatus_completed hfailed hcompleted, aggregateStatus_completed]
    · exact hfailed
    · exact fun p hp => hcompleted p (hperm.mem_iff.mp hp)
  · rw [aggregateStatus_error hfailed hdownloading herror, aggregateStatus_error]
    · rw [bestReason_perm hparts hperm herror]
    · exact hfailed
    · exact fun h => hdownloading (hexists.mpr h)
    · exact hexists.mp herror

theorem aggregateStatus_idem (hparts : ∀ p ∈ t.parts, p.Outcome) :
    aggregateStatus (aggregateStatus t) = aggregateStatus t := by
  cases hfailed : t.failed with
  | true => rw [aggregateStatus_failed hfailed, aggregateStatus_failed hfailed]
  | false =>
      rcases outcome_cases hparts with hdownloading | ⟨hdownloading, hcompleted | herror⟩
      · rw [aggregateStatus_downloading hfailed hdownloading]
        exact aggregateStatus_downloading rfl hdownloading
      · rw [aggregateStatus_completed hfailed hcompleted]
        exact aggregateStatus_completed rfl hcompleted
      · rw [aggregateStatus_error hfailed hdownloading herror]
        cases hsticky : ({ t with status := .error, reason := bestReason t.parts } : TaskCtx).failed with
        | true => exact aggregateStatus_failed hsticky
        | false => exact aggregateStatus_error hsticky hdownloading herror

theorem aggregateStatus_status_cases (hparts : ∀ p ∈ t.parts, p.Outcome) (hfailed : t.failed = false) :
    ((aggregateStatus t).status = .downloading ↔ ∃ p ∈ t.parts, p.status = .downloading) ∧
      ((aggregateStatus t).status = .completed ↔ ∀ p ∈ t.parts, p.status = .completed) := by
  rcases outcome_cases hparts with hdownloading | ⟨hdownloading, hcompleted | herror⟩
  · rw [aggregateStatus_downloading hfailed hdownloading]
    obtain ⟨p, hp, hstatus⟩ := hdownloading
    refine ⟨iff_of_true rfl ⟨p, hp, hstatus⟩, iff_of_false (by simp) fun hall => ?_⟩
    simp [hall p hp] at hstatus
  · rw [aggregateStatus_completed hfailed hcompleted]
    exact ⟨iff_of_false (by simp) hdownloading, iff_of_true rfl hcompleted⟩
  · rw [aggregateStatus_error hfailed hdownloading herror]
    obtain ⟨p, hp, hstatus⟩ := herror
    refine ⟨iff_of_false (by simp) hdownloading, iff_of_false (by simp) fun hall => ?_⟩
    simp [hall p hp] at hstatus

end Status

/-- **The task of its parts.** What aggregating parts with outcomes yields does not depend on their order,
and is fixed by which outcomes there are; a second time changes nothing, and a task that has failed stays
as it is. -/
theorem aggregateStatus_of_outcomes (t : TaskCtx) (hparts : ∀ p ∈ t.parts, p.Outcome) :
    (t.failed = false →
      (∀ parts : List PartState, parts.Perm t.parts →
          (aggregateStatus { t with parts := parts }).status = (aggregateStatus t).status ∧
            (aggregateStatus { t with parts := parts }).reason = (aggregateStatus t).reason) ∧
        ((aggregateStatus t).status = .downloading ↔ ∃ p ∈ t.parts, p.status = .downloading) ∧
        ((aggregateStatus t).status = .completed ↔ ∀ p ∈ t.parts, p.status = .completed) ∧
        ((¬ ∃ p ∈ t.parts, p.status = .downloading) → (∃ p ∈ t.parts, p.status = .error) →
          (aggregateStatus t).status = .error ∧
            (aggregateStatus t).reason =
              if ∃ p ∈ t.parts, p.status = .error ∧ p.reason = .auth then .auth
              else if ∃ p ∈ t.parts, p.status = .error ∧ p.reason = .error then .error
              else .network)) ∧
      aggregateStatus (aggregateStatus t) = aggregateStatus t ∧
      (t.failed = true → aggregateStatus t = t) := by
  refine ⟨fun hfailed => ?_, aggregateStatus_idem hparts, aggregateStatus_failed⟩
  obtain ⟨hdownloading, hcompleted⟩ := aggregateStatus_status_cases hparts hfailed
  refine ⟨fun parts hperm => ?_, hdownloading, hcompleted, fun hnone herror => ?_⟩
  · rw [aggregateStatus_perm hparts hfailed hperm]
    exact ⟨rfl, rfl⟩
  · rw [aggregateStatus_error hfailed hnone herror]
    exact ⟨rfl, (weighsMost_bestReason herror).eq_ite hparts⟩

def mixedParts : TaskCtx where
  url := "http://h/f"
  outputPath := "/d"
  parts := [{ status := .error, reason := .network }, { status := .completed },
    { status := .error, reason := .auth }]
  partCtx := []

theorem aggregateStatus_mixedParts :
    (aggregateStatus mixedParts).reason = .auth ∧
      (aggregateStatus { mixedParts with parts := mixedParts.parts.reverse }).reason = .auth := by
  have hparts : ∀ p ∈ mixedParts.parts, p.Outcome := by
    simp [mixedParts, PartState.Outcome]
  obtain ⟨hperm, -, -, hreason⟩ := (aggregateStatus_of_outcomes mixedParts hparts).1 (by decide)
  obtain ⟨-, hauth⟩ := hreason (by decide) (by decide)
  exact ⟨hauth, (hperm _ (List.reverse_perm _)).2.trans hauth⟩

end DownloadWrapper
