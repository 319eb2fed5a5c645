import DownloadWrapper.Core.Rooted

/-!
# The HTTP threads

A thread starts in one place, the last part of `start_download`, which a call of the app reaches by
`add_task` and the scheduler by `do_resume`. No other step makes a thread of one that has ended.
-/

namespace DownloadWrapper

variable {url : String}

namespace World

theorem running_eq_true_iff {w : World} :
    w.running url = true ↔ ∃ c, w.contexts.find? url = some c ∧ c.worker.running = true := by
  rw [running]
  cases w.contexts.find? url <;> simp

theorem running_of_contexts {w w' : World} (h : w'.contexts = w.contexts) :
    w'.running url = w.running url := by
  rw [running, running, h]

theorem running_of_replaced {w w' : World} {key : String} {c : HttpContext} (hurl : c.url = key)
    (h : w'.contexts = (w.contexts.erase key).insert c) (hrunning : w'.running url = true) :
    url = key ∨ w.running url = true := by
  obtain ⟨found, hfind, hthread⟩ := running_eq_true_iff.mp hrunning
  by_cases hkey : url = key
  · exact Or.inl hkey
  · right
    rw [h, KeyedList.find?_insert_of_ne _ (hurl.symm ▸ hkey), KeyedList.find?_erase_of_ne _ hkey]
      at hfind
    exact running_eq_true_iff.mpr ⟨found, hfind, hthread⟩

theorem running_of_erased {w w' : World} {key : String} (h : w'.contexts = w.contexts.erase key)
    (hrunning : w'.running url = true) : w.running url = true := by
  obtain ⟨found, hfind, hthread⟩ := running_eq_true_iff.mp hrunning
  rw [h, KeyedList.erase, KeyedList.find?_filter] at hfind
  exact running_eq_true_iff.mpr ⟨found, (Option.filter_eq_some_iff.mp hfind).1, hthread⟩

theorem running_of_modified {w w' : World} {key : String} (f : HttpContext → HttpContext)
    (hf : ∀ c, (f c).url = c.url) (hthread : ∀ c, (f c).worker.running = c.worker.running)
    (h : w'.contexts = w.contexts.modify key f hf) : w'.running url = w.running url := by
  by_cases hkey : url = key
  · rw [running, running, h, hkey, KeyedList.find?_modify_self]
    cases w.contexts.find? key with
    | none => rfl
    | some c => exact hthread c
  · rw [running, running, h, KeyedList.find?_modify_of_ne _ _ _ hkey]

end World

theorem Worker.running_of_step {cfg : HttpConfig} {w w' : Worker} {event : Event}
    (hown : Hub.ownEvent event = true) (hstep : w.step cfg event = some w') : w.running = true := by
  by_contra hended
  have hphase : w.phase = .exited := by simpa [running] using hended
  cases event <;> simp [step, hphase, Hub.ownEvent] at hstep hown

namespace HttpEngine

theorem running_of_stepWorker {cfg : HttpConfig} {now : Int} {key : String} {event : Event}
    {w w' : World} (hown : Hub.ownEvent event = true)
    (hstep : stepWorker cfg now key event w = some w') (hrunning : w'.running url = true) :
    w.running url = true := by
  simp only [stepWorker] at hstep
  split at hstep
  · simp at hstep
  next c hfind =>
    split at hstep
    · simp at hstep
    next worker hworker =>
      obtain rfl := Option.some.inj hstep
      by_cases hkey : url = key
      · rw [hkey]
        have hthread := Worker.running_of_step hown hworker
        exact World.running_eq_true_iff.mpr ⟨c, hfind, hthread⟩
      · obtain ⟨found, hfound, hthread⟩ := World.running_eq_true_iff.mp hrunning
        rw [KeyedList.find?_modify_of_ne _ _ _ hkey] at hfound
        exact World.running_eq_true_iff.mpr ⟨found, hfound, hthread⟩

theorem running_pauseTask (params : TaskParams) (w : World) :
    (pauseTask params w).2.running url = w.running url := by
  simp only [pauseTask]
  split
  · rfl
  · exact World.running_of_modified requestPause (fun _ => rfl) (fun _ => rfl) rfl

theorem running_deleteTask (params : TaskParams) (w : World) :
    (deleteTask params w).2.running url = w.running url := by
  simp only [deleteTask]
  split
  · rfl
  · exact World.running_of_modified requestDelete (fun _ => rfl) (fun _ => rfl) rfl

theorem running_of_sweep {now : Int} {w : World} (hrunning : (sweep now w).running url = true) :
    w.running url = true := by
  obtain ⟨c, hfind, hthread⟩ := World.running_eq_true_iff.mp hrunning
  simp only [sweep, KeyedList.find?_filter] at hfind
  exact World.running_eq_true_iff.mpr ⟨c, (Option.filter_eq_some_iff.mp hfind).1, hthread⟩

theorem Resumed.running {key : String} {w w' : World} {result : SubmitResult}
    (h : Resumed key w result w') (hrunning : w'.running url = true) :
    url = key ∧ result.code = .none ∨ w.running url = true := by
  cases h with
  | failed hcode hstore hcontexts =>
      rcases hcontexts with hsame | herased
      · exact Or.inr (World.running_of_contexts hsame ▸ hrunning)
      · exact Or.inr (World.running_of_erased herased hrunning)
  | busy hcode hthere => exact Or.inr hrunning
  | relaunched worker hcode hstore hcontexts =>
      exact (World.running_of_replaced rfl hcontexts hrunning).imp_left fun hkey => ⟨hkey, hcode⟩

end HttpEngine

end DownloadWrapper
