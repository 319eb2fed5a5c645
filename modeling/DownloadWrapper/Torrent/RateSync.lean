import DownloadWrapper.Core.Config

/-!
# The session's rate limits

The BT session is given its rate limits by `init`, and from then on by `status_loop`: every second it
compares the configured limits with the ones it handed over last, and hands over those that differ. Its
record of the last ones begins at -1, not at what `init` set.
-/

namespace DownloadWrapper

inductive Direction where
  | download
  | upload
  deriving DecidableEq

def Config.rateLimit (c : Config) : Direction → Int
  | .download => c.downloadRateLimit
  | .upload => c.uploadRateLimit

/-- The manager's configuration, the session's settings and the locals of `status_loop`. No step reads
`met`, the limits that the loop came across so far. -/
structure RateSync where
  config : Config
  session : Direction → Int
  last : Direction → Int := fun _ => -1
  met : List (Direction → Int) := []

namespace RateSync

/-- `TorrentEngine::init`, and the entry of `status_loop`. -/
def init (cfg : Config) : RateSync where
  config := cfg
  session := fun direction => castInt (cfg.rateLimit direction)

/-- A limit that is not the last one handed over. -/
def changed (s : RateSync) (direction : Direction) : Bool :=
  s.config.rateLimit direction ≠ s.last direction

/-- One pass of the loop. An exception of the session, out of `post_torrent_updates` or out of
`apply_settings`, ends the pass where it is. -/
def sync (updatesOk settingsOk : Bool) (s : RateSync) : RateSync :=
  if !updatesOk then s
  else if s.changed .download || s.changed .upload then
    if settingsOk then
      { s with
        session := fun direction =>
          if s.changed direction then castInt (s.config.rateLimit direction) else s.session direction
        last := s.config.rateLimit
        met := s.config.rateLimit :: s.met }
    else s
  else { s with met := s.config.rateLimit :: s.met }

inductive Event where
  /-- `apply_config` on the manager. -/
  | configure (cfg : Config)
  | sync (updatesOk settingsOk : Bool)

def next (s : RateSync) : Event → RateSync
  | .configure cfg => { s with config := (TaskManager.applyConfig s.config cfg).2 }
  | .sync updatesOk settingsOk => s.sync updatesOk settingsOk

/-- The pass met a limit it can tell from the -1 its record begins with. -/
def Noticed (s : RateSync) (direction : Direction) : Prop := ∃ limit ∈ s.met, limit direction ≠ -1

/-- From the first limit that was noticed the record is what the session has; until then the record is at
-1, and the session has what `init` gave it. -/
structure Recorded (cfg : Config) (s : RateSync) : Prop where
  noticed : ∀ direction, s.Noticed direction → s.session direction = castInt (s.last direction)
  unnoticed : ∀ direction, ¬ s.Noticed direction →
    s.last direction = -1 ∧ s.session direction = castInt (cfg.rateLimit direction)

theorem recorded_init (cfg : Config) : Recorded cfg (init cfg) where
  noticed := fun _ hnoticed => by
    obtain ⟨limit, hmem, -⟩ := hnoticed
    exact absurd hmem List.not_mem_nil
  unnoticed := fun _ _ => ⟨rfl, rfl⟩

section Sync

variable {cfg : Config} {s : RateSync}

theorem last_sync (direction : Direction) : (s.sync true true).last direction = s.config.rateLimit direction := by
  simp only [sync, Bool.not_true, Bool.false_eq_true, if_false, if_true]
  split
  · rfl
  next hsame =>
    simp only [changed, Bool.or_eq_true, decide_eq_true_eq, not_or, not_not] at hsame
    cases direction with
    | download => exact hsame.1.symm
    | upload => exact hsame.2.symm

theorem session_sync (direction : Direction) :
    (s.sync true true).session direction =
      if s.changed direction then castInt (s.config.rateLimit direction) else s.session direction := by
  simp only [sync, Bool.not_true, Bool.false_eq_true, if_false, if_true]
  split
  · rfl
  next hsame =>
    simp only [Bool.or_eq_true, not_or] at hsame
    cases direction with
    | download => rw [if_neg hsame.1]
    | upload => rw [if_neg hsame.2]

theorem noticed_sync (direction : Direction) :
    (s.sync true true).Noticed direction ↔
      s.config.rateLimit direction ≠ -1 ∨ s.Noticed direction := by
  have hmet : (s.sync true true).met = s.config.rateLimit :: s.met := by
    simp only [sync, Bool.not_true, Bool.false_eq_true, if_false, if_true]
    split <;> rfl
  simp [Noticed, hmet]

theorem sync_cases (updatesOk settingsOk : Bool) :
    s.sync updatesOk settingsOk = s ∨ s.sync updatesOk settingsOk = s.sync true true := by
  cases updatesOk with
  | false => exact Or.inl rfl
  | true =>
      simp only [sync, Bool.not_true, Bool.false_eq_true, if_false, if_true]
      split
      · cases settingsOk with
        | false => exact Or.inl rfl
        | true => exact Or.inr rfl
      · exact Or.inr rfl

theorem recorded_sync (h : Recorded cfg s) : Recorded cfg (s.sync true true) := by
  refine ⟨fun direction hnoticed => ?_, fun direction hnot => ?_⟩
  · rw [last_sync, session_sync]
    split
    · rfl
    next hsame =>
      simp only [changed, decide_eq_true_eq, not_not] at hsame
      rw [hsame]
      rcases (noticed_sync direction).mp hnoticed with hlimit | hbefore
      · refine h.noticed direction ?_
        by_contra hnot
        exact hlimit (hsame.trans (h.unnoticed direction hnot).1)
      · exact h.noticed direction hbefore
  · rw [noticed_sync, not_or, not_not] at hnot
    obtain ⟨hlast, hsession⟩ := h.unnoticed direction hnot.2
    have hsame : s.changed direction = false := by simp [changed, hnot.1, hlast]
    rw [last_sync, session_sync, hsame]
    exact ⟨hnot.1, hsession⟩

theorem recorded_next (h : Recorded cfg s) (event : Event) : Recorded cfg (s.next event) := by
  cases event with
  | configure newer => exact ⟨h.noticed, h.unnoticed⟩
  | sync updatesOk settingsOk =>
      rcases s.sync_cases updatesOk settingsOk with heq | heq <;> simp only [next, heq]
      · exact h
      · exact recorded_sync h

end Sync

theorem recorded_foldl (cfg : Config) (events : List Event) :
    Recorded cfg (events.foldl next (init cfg)) := by
  have hfrom : ∀ s, Recorded cfg s → Recorded cfg (events.foldl next s) := by
    induction events with
    | nil => exact fun s h => h
    | cons event events ih => exact fun s h => ih _ (recorded_next h event)
  exact hfrom _ (recorded_init cfg)

/-- **When the session runs with the configured limits.** After a pass that came to its end, whatever was
configured and whichever passes failed before: a limit is the configured one if and only if that fits in
32 bits and, being -1, has been told from the -1 the loop's record begins with, by a pass that met another
limit, unless the engine started with it. -/
theorem session_eq_iff (cfg : Config) (events : List Event) (direction : Direction) :
    let s := events.foldl next (init cfg)
    (s.sync true true).session direction = s.config.rateLimit direction ↔
      (-2 ^ 31 ≤ s.config.rateLimit direction ∧ s.config.rateLimit direction < 2 ^ 31) ∧
        (s.config.rateLimit direction = -1 →
          s.Noticed direction ∨ castInt (cfg.rateLimit direction) = -1) := by
  intro s
  have hrecorded : Recorded cfg s := recorded_foldl cfg events
  have hgiven : s.Noticed direction ∨ s.config.rateLimit direction ≠ -1 →
      (s.sync true true).session direction = castInt (s.config.rateLimit direction) := by
    intro hnoticed
    rw [← last_sync]
    exact (recorded_sync hrecorded).noticed direction ((noticed_sync direction).mpr hnoticed.symm)
  by_cases hnoticed : s.Noticed direction ∨ s.config.rateLimit direction ≠ -1
  · rw [hgiven hnoticed, castInt_eq_iff]
    exact ⟨fun hfits => ⟨hfits, fun hminus => Or.inl (hnoticed.resolve_right (not_not.mpr hminus))⟩,
      fun hboth => hboth.1⟩
  · rw [not_or, not_not] at hnoticed
    obtain ⟨hlast, hsession⟩ := hrecorded.unnoticed direction hnoticed.1
    have hsame : s.changed direction = false := by simp [changed, hnoticed.2, hlast]
    rw [session_sync, hsame, if_neg (by simp), hsession, hnoticed.2]
    constructor
    · exact fun hstarted => ⟨by omega, fun _ => Or.inr hstarted⟩
    · exact fun hboth => (hboth.2 rfl).resolve_left hnoticed.1

/-- The engine starts with 1024; the limit is set to -1 before the loop's first pass, and stays 1024. -/
example : ((init { Config.defaults with downloadRateLimit := 1024 }).next
    (.configure { Config.defaults with clientId := "c", downloadRateLimit := -1 })
    |>.sync true true).session .download = 1024 := by decide

end RateSync

end DownloadWrapper
