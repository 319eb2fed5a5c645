import DownloadWrapper.Http.Place
import DownloadWrapper.Http.PartInvariant

/-!
# A download over its restarts

The workers of one download, each started from what the last one stored. They keep to the file of the
first archive as long as every probe among them comes back to it.
-/

namespace DownloadWrapper

open Transition TaskCtx

/-- A download whose first archive names `path`: the archive stored last, the worker at work, and the
disk it was started on. -/
structure Lineage (path : String) where
  stored : Archive
  worker : Worker
  found : Standing path

inductive LineageEvent (path : String) where
  | work (cfg : HttpConfig) (event : Event)
  | restart (url clientId savePath : String) (disk : Standing path) (granted : Bool)

namespace Lineage

variable {path : String}

def start (archive : Archive) (url clientId savePath : String) (disk : Standing path)
    (granted : Bool) : Lineage path where
  stored := archive
  worker := startWorker url clientId savePath (some archive) disk.fs granted
  found := disk

def step (x : Lineage path) : LineageEvent path → Option (Lineage path)
  | .work cfg event => (x.worker.step cfg event).map fun worker =>
      { x with worker := worker, stored := worker.emitted.getD x.stored }
  | .restart url clientId savePath disk granted =>
      if x.stored.path = path then some (start x.stored url clientId savePath disk granted) else none

structure Stays (x : Lineage path) : Prop where
  place : x.worker.task.probing = false → x.worker.task.fullFilePath = path
  disk : OnlyFile path x.found.fs x.worker.fs

def Returns (x : Lineage path) : LineageEvent path → Prop
  | .work _ (.body _ data env) => x.worker.task.probing = true → admits x.worker.task data = true →
      ComesBack env.probe.acquire x.worker.fs x.worker.task.outputPath
        (probedName env.probe.urlLib x.worker.task) path
  | _ => True

instance (x : Lineage path) : ∀ event : LineageEvent path, Decidable (x.Returns event)
  | .work _ (.body _ data env) =>
      inferInstanceAs (Decidable (x.worker.task.probing = true → admits x.worker.task data = true →
        ComesBack env.probe.acquire x.worker.fs x.worker.task.outputPath
          (probedName env.probe.urlLib x.worker.task) path))
  | .restart .. | .work _ (.enter ..) | .work _ (.header ..) | .work _ (.performed ..)
  | .work _ (.message ..) | .work _ .drained | .work _ .raised | .work _ .leave | .work _ .close
  | .work _ .exit | .work _ .pauseRequest | .work _ .deleteRequest | .work _ .shutdown => isTrue trivial

structure Rests (x : Lineage path) : Prop where
  stays : x.Stays
  untouched : x.worker.task.probing = true → x.worker.fs = x.found.fs

theorem rests_start {archive : Archive} (harchive : archive.path = path)
    (url clientId savePath : String) (disk : Standing path) (granted : Bool) :
    (start archive url clientId savePath disk granted).Rests := by
  refine ⟨⟨fun hprobing => ?_, .refl path disk.fs⟩, fun _ => rfl⟩
  rcases startFrom_cases url clientId savePath (some archive) disk.fs granted with
    heq | ⟨a, ha, -, -, -, heq⟩
  · simp [start, startWorker, heq, taskCreateNew] at hprobing
  · obtain rfl := Option.some.inj ha
    rw [start, startWorker, heq]
    exact harchive

theorem rests_of_samePlace {x : Lineage path} (h : x.Rests) {worker : Worker} {stored : Archive}
    (hsame : SamePlace x.worker worker) : Rests { x with worker := worker, stored := stored } where
  stays := by
    refine ⟨fun hprobing => ?_, ?_⟩
    · exact hsame.path.trans (h.stays.place (hsame.probing.symm.trans hprobing))
    · exact hsame.fs.symm ▸ h.stays.disk
  untouched hprobing := hsame.fs.trans (h.untouched (hsame.probing.symm.trans hprobing))

/-- **The first body byte**: the file keeps its place exactly when the name comes back to it. -/
theorem stays_body_iff {x : Lineage path} (h : x.Rests) (cfg : HttpConfig) (i : Nat)
    (data : List Byte) (env : WriteEnv) (stored : Archive) :
    Stays { x with worker := x.worker.body cfg i data env, stored := stored } ↔
      x.Returns (.work cfg (.body i data env)) := by
  cases hopen : admits x.worker.task data with
  | false =>
      have hrests : Rests { x with worker := x.worker.body cfg i data env, stored := stored } :=
        rests_of_samePlace h (samePlace_body_of_shut cfg i env hopen)
      simp [Returns, hopen, hrests.stays]
  | true =>
      obtain ⟨hprobing', hpath, hdisk⟩ := place_body cfg i env hopen
      cases hprobing : x.worker.task.probing with
      | false =>
          have hplace := h.stays.place hprobing
          rw [probed_of_not_probing cfg env x.worker.fs i hprobing] at hpath hdisk
          rw [hplace] at hpath hdisk
          simp only [Returns, hprobing, Bool.false_eq_true, false_implies, iff_true]
          exact ⟨fun _ => hpath, h.stays.disk.trans hdisk⟩
      | true =>
          have huntouched := h.untouched hprobing
          have hiff := comesBack_iff cfg env.probe x.found x.worker.task i
          rw [← huntouched] at hiff
          have hfinal : probed cfg env x.worker.fs x.worker.task i =
              finalizeProbing cfg env.probe x.worker.fs x.worker.task i := by
            rw [probed, if_pos hprobing]
          rw [hfinal] at hpath hdisk
          simp only [Returns, hprobing, hopen, forall_const]
          rw [← hiff]
          constructor
          · intro hstays
            have hsame := hpath.symm.trans (hstays.place hprobing')
            refine ⟨hsame, ?_⟩
            rw [hsame] at hdisk
            exact (huntouched ▸ hstays.disk).trans hdisk.symm
          · rintro ⟨hsame, honly⟩
            rw [hsame] at hpath hdisk
            exact ⟨fun _ => hpath, huntouched ▸ honly.trans hdisk⟩

theorem rests_step {x x' : Lineage path} {event : LineageEvent path} (h : x.Rests)
    (hreturns : x.Returns event) (hstep : x.step event = some x') : x'.Rests := by
  cases event with
  | restart url clientId savePath disk granted =>
      obtain ⟨harchive, heq⟩ := (Option.ite_none_right_eq_some).mp hstep
      exact Option.some.inj heq ▸ rests_start harchive url clientId savePath disk granted
  | work cfg event =>
      obtain ⟨worker, hworker, rfl⟩ := Option.map_eq_some_iff.mp hstep
      by_cases hbody : ∃ i data env, event = .body i data env
      · obtain ⟨i, data, env, rfl⟩ := hbody
        cases Worker.stepped_of_step hworker with
        | body hphase hlive =>
          refine ⟨(stays_body_iff h cfg i data env _).mpr hreturns, fun hprobing => ?_⟩
          cases hopen : admits x.worker.task data with
          | false =>
              have hrests : Rests { x with worker := x.worker.body cfg i data env } :=
                rests_of_samePlace h (samePlace_body_of_shut cfg i env hopen)
              exact hrests.untouched hprobing
          | true => exact absurd ((place_body cfg i env hopen).1.symm.trans hprobing) nofun
      · refine rests_of_samePlace h (SamePlace.step hworker fun i data env heq => ?_)
        exact hbody ⟨i, data, env, heq⟩

end Lineage

/-- **Over every restart**: in every run whose first body bytes all come back, the file keeps its place
and nothing else comes to be; the first one that does not come back loses the place. -/
theorem stays_of_reaches {archive : Archive} {url clientId savePath : String}
    {disk : Standing archive.path} {granted : Bool} {x : Lineage archive.path}
    (hrun : Reaches Lineage.step Lineage.Returns
      (Lineage.start archive url clientId savePath disk granted) x) :
    x.Stays ∧ ∀ event x', x.step event = some x' → ¬ x.Returns event → ¬ x'.Stays := by
  have hrests : x.Rests := by
    refine hrun.invariant (fun _ _ _ hinv hreturns hstep => Lineage.rests_step hinv hreturns hstep) ?_
    exact Lineage.rests_start rfl url clientId savePath disk granted
  refine ⟨hrests.stays, fun event x' hstep hnot hstays => ?_⟩
  cases event with
  | restart => exact hnot trivial
  | work cfg event =>
      obtain ⟨worker, hworker, rfl⟩ := Option.map_eq_some_iff.mp hstep
      cases event with
      | body i data env =>
          cases Worker.stepped_of_step hworker with
          | body hphase hlive => exact hnot ((Lineage.stays_body_iff hrests cfg i data env _).mp hstays)
      | _ => exact hnot trivial

def lostArchive (wrapper : String) : Archive where
  totalSize := 4
  supportRange := 1
  etag := ""
  lastModified := ""
  path := "/d/" ++ wrapper ++ "/f.bin"
  parts := [⟨0, 0, 3, 2⟩]

def crowdedFs : Fs := fun p => if Fs.isAncestorOrSelf "/d/f_5/f.bin" p then none else some .dir

theorem grounded_crowdedFs : crowdedFs.Grounded := by
  intro path above hpath habove _
  simp only [Fs.exist, crowdedFs] at hpath ⊢
  split
  next hbelow =>
    rw [if_pos (Fs.isAncestorOrSelf_trans hbelow habove)] at hpath
    cases hpath
  next => rfl

theorem file_lostArchive : (lostArchive "f_5").path.toList.getLast? ≠ some '/' := by decide

theorem wrapper_crowdedFs : crowdedFs (parentPath (lostArchive "f_5").path) = some .dir := by decide +kernel

def crowded : Standing (lostArchive "f_5").path where
  fs := crowdedFs
  grounded := grounded_crowdedFs
  file := file_lostArchive
  wrapper := wrapper_crowdedFs

theorem exhausted_crowded : exhausted crowdedFs "/d" "f" = true := by
  have htaken : ∀ name : String, name.toList[0]? = some 'f' → name.toList[1]? ≠ some '_' →
      crowdedFs.exist ("/d/" ++ name) = true := by
    intro name hfirst hsecond
    have hbeside : Fs.isAncestorOrSelf "/d/f_5/f.bin" ("/d/" ++ name) = false := by
      rw [Bool.eq_false_iff]
      intro hbelow
      simp only [Fs.isAncestorOrSelf, Bool.or_eq_true, decide_eq_true_eq,
        List.isPrefixOf_iff_prefix] at hbelow
      have hchar : ("/d/" ++ name).toList[4]? = some '_' := by
        rcases hbelow with heq | ⟨rest, hrest⟩
        · rw [← heq]
          rfl
        · rw [← hrest]
          rfl
      rw [String.toList_append] at hchar
      exact hsecond (by simpa using hchar)
    simp [Fs.exist, crowdedFs, hbeside]
  have hclosed : ClosedPath "/d" := by constructor <;> decide
  rw [exhausted, Bool.and_eq_true, Option.isNone_iff_eq_none, firstFree_eq_none_iff]
  refine ⟨by decide +kernel, fun j _ _ => ?_⟩
  rw [joinPath_of_closed hclosed (plainName_numberedName (by decide) j)]
  refine htaken (numberedName "f" j) ?_ ?_ <;> simp [numberedName_eq, String.toList_append]

def probeRun (path : String) : List (LineageEvent path) :=
  [.work plainCfg (.enter true fun _ => true),
    .work plainCfg (.header 0 "HTTP/1.1 206 Partial Content\r\n"),
    .work plainCfg (.header 0 "Content-Range: bytes 0-3/4\r\n")]

/-- At five milliseconds past the epoch the file comes back. -/
theorem stays_of_reaches_crowded :
    ∃ x : Lineage (lostArchive "f_5").path,
      (x.worker.task.probing = false ∧ x.worker.task.fullFilePath = "/d/f_5/f.bin") ∧ x.Stays := by
  let begun := Lineage.start (lostArchive "f_5") "http://h/f.bin" "c" "/d" crowded true
  obtain ⟨x, hplay⟩ : ∃ x, play Lineage.step Lineage.Returns begun (probeRun _) = some x := ⟨_, rfl⟩
  have hbefore : (play Lineage.step Lineage.Returns begun (probeRun _)).map (fun x =>
        (x.worker.phase, Worker.live x.worker.task 0, admits x.worker.task [1],
          x.worker.task.outputPath, probedName noUrlLib x.worker.task)) =
      some (.performing, true, true, "/d", "f.bin") := by decide +kernel
  have hfs : x.worker.fs = crowdedFs := by
    have hsame : (play Lineage.step Lineage.Returns begun (probeRun _)).map (fun x => x.worker.fs) = some crowdedFs := rfl
    rw [hplay] at hsame
    exact Option.some.inj hsame
  rw [hplay] at hbefore
  simp only [Option.map_some, Option.some.injEq, Prod.mk.injEq] at hbefore
  obtain ⟨hphase, hlive, hopen, hdir, hname⟩ := hbefore
  let env : WriteEnv := { probe := { urlLib := noUrlLib, acquire := { nowMs := 5 } } }
  have hreturns : x.Returns (.work plainCfg (.body 0 [1] env)) := by
    intro _ _
    have hstrip : stripExtension "f.bin" = "f" := by decide +kernel
    rw [hfs, hdir, hname, ComesBack, hstrip, if_pos exhausted_crowded]
    exact ⟨by decide +kernel, fun _ => by decide +kernel⟩
  have hrun := (reaches_of_play hplay).tail ⟨_, hreturns, show x.step _ = some
    { x with
      worker := x.worker.body plainCfg 0 [1] env
      stored := (x.worker.body plainCfg 0 [1] env).emitted.getD x.stored } by
    rw [Lineage.step, Worker.step, if_pos ⟨hphase, hlive⟩]
    rfl⟩
  have hstays := (stays_of_reaches hrun).1
  have hprobing := (place_body plainCfg 0 env hopen).1
  exact ⟨_, ⟨hprobing, hstays.place hprobing⟩, hstays⟩

def emptied : Standing (lostArchive "f").path where
  fs := emptyFs.createDirectories "/d/f"
  grounded := by
    refine Fs.Grounded.createDirectories (fun path above hpath => ?_) "/d/f"
    cases hpath
  file := by decide
  wrapper := by decide +kernel

/-- The wrapper that stands makes the name taken: the download goes on in a second one. -/
theorem not_stays_renamed :
    emptied.fs.openFile "/d/f/f.bin" false true = none ∧
      ∃ x, Reaches Lineage.step anyEvent
          (Lineage.start (lostArchive "f") "http://h/f.bin" "c" "/d" emptied true) x ∧
        x.worker.task.fullFilePath = "/d/f(1)/f.bin" ∧
        (emptied.fs "/d/f(1)" = none ∧ x.worker.fs "/d/f(1)" = some .dir) ∧ ¬ x.Stays := by
  have hplayed : ((play Lineage.step anyEvent
      (Lineage.start (lostArchive "f") "http://h/f.bin" "c" "/d" emptied true)
      (probeRun _ ++ [.work plainCfg (.body 0 [1] grantAll)])).map
        fun x => (x.worker.task.probing, x.worker.task.fullFilePath, x.worker.fs "/d/f(1)")) =
      some (false, "/d/f(1)/f.bin", some .dir) := by decide +kernel
  obtain ⟨x, hrun, hvalues⟩ := Option.map_eq_some_iff.mp hplayed
  simp only [Prod.mk.injEq] at hvalues
  obtain ⟨hprobing, hpath, hmade⟩ := hvalues
  refine ⟨by decide +kernel, x, reaches_of_play hrun, hpath, ⟨by decide +kernel, hmade⟩, fun hstays => ?_⟩
  have hkept := hstays.place hprobing
  rw [hpath] at hkept
  exact absurd hkept (by decide)

end DownloadWrapper
