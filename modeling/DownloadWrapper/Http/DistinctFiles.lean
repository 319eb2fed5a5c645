import DownloadWrapper.Http.Naming
import DownloadWrapper.Http.PartInvariant
import DownloadWrapper.Utils.Disk

/-!
# Distinct files

Workers that finalize on one disk choose distinct files as long as each really makes its wrapper
directory. Nothing sees to that: between a worker's look at a name and the directory it makes,
another may take the same name, and making a directory that is there succeeds.
-/

namespace DownloadWrapper

open Transition TaskCtx PathTree

/-- The disk and the workers on it, one for each task. -/
structure SharedDisk (ι : Type*) where
  disk : Disk
  workers : ι → Finalizer

def Stage.named : Stage → Bool
  | .before | .checking _ | .taking _ => false
  | .ensuring | .making | .opening | .sizing | .finished => true

/-- The name, put in a directory, leads to something below it. -/
def LeadsInside (name : String) : Prop :=
  isAbsolute name = false ∧ within [] (hopsOf name) ≠ none ∧ within [] (hopsOf name) ≠ some []

instance (name : String) : Decidable (LeadsInside name) := inferInstanceAs (Decidable (_ ∧ _ ∧ _))

/-- The directories that the file's name leads through in the wrapper directory: none, if there is no separator
in the name. -/
def Finalizer.waypoints (disk : Disk) (f : Finalizer) : List (List String) :=
  match disk.resolve f.wrapper, within [] (hopsOf f.task.filename) with
  | .found home, some names => (names.tail.tails.filter (· ≠ [])).map (· ++ home)
  | _, _ => []

variable {ι : Type*} [DecidableEq ι]

namespace SharedDisk

def step (cfg : HttpConfig) (s : SharedDisk ι) (event : ι × ProbeEnv) : Option (SharedDisk ι) :=
  ((s.workers event.1).next cfg event.2 s.disk).map fun (f, disk) =>
    { disk := disk, workers := Function.update s.workers event.1 f }

def start (disk : Disk) (tasks : ι → TaskCtx) (conns : ι → Nat) : SharedDisk ι where
  disk := disk
  workers i := { task := tasks i, conn := conns i }

/-- A worker that makes its wrapper directory makes it anew, for a name that stays inside it, and off the way
to the files of the others. -/
def TakesOwn (s : SharedDisk ι) (event : ι × ProbeEnv) : Prop :=
  match (s.workers event.1).stage with
  | .taking unique =>
      let f := s.workers event.1
      let (disk, made) := s.disk.createDirectories (targetOf f.task unique)
      event.2.acquire.createOk = true ∧ made = some true ∧ PlainName unique ∧ StdPath.Proper unique ∧
        LeadsInside f.task.filename ∧
        ∀ k, (s.workers k).stage.named = true →
          ∀ place ∈ (s.workers k).waypoints s.disk, disk.resolve (targetOf f.task unique) ≠ .found place
  | _ => True

instance [Fintype ι] (s : SharedDisk ι) (event : ι × ProbeEnv) : Decidable (TakesOwn s event) := by
  unfold TakesOwn
  split <;> infer_instance

end SharedDisk

/-- Nothing existed at the file of a task that is past finalization, and no two of them share one, under one
path or under two. -/
def FilesApart (s : SharedDisk ι) : Prop :=
  (∀ i, (s.workers i).stage = .finished → (s.workers i).existed = false) ∧
    ∀ i j, i ≠ j → (s.workers i).stage = .finished → (s.workers j).stage = .finished →
      (s.workers i).task.fullFilePath ≠ (s.workers j).task.fullFilePath ∧
        ∀ place, s.disk.resolve (s.workers i).task.fullFilePath = .found place →
          s.disk.resolve (s.workers j).task.fullFilePath ≠ .found place

/-- The worker's wrapper directory is at `home`, with no links below it, and its file is to be `names` deep in
it. Nothing existed in the file's place. -/
structure Owns (disk : Disk) (f : Finalizer) (home names : List String) : Prop where
  path : f.task.fullFilePath = joinPath f.wrapper f.task.filename
  closed : ClosedPath f.wrapper
  relative : isAbsolute f.task.filename = false
  found : disk.resolve f.wrapper = .found home
  stands : disk.tree.node home ≠ none
  unlinked : disk.tree.Unlinked home
  inside : within [] (hopsOf f.task.filename) = some names
  deeper : names ≠ []
  fresh : f.existed = false

/-- What the workers keep: each named one has a place for its file, no two the same. -/
structure Apart (s : SharedDisk ι) : Prop where
  owns : ∀ i, (s.workers i).stage.named = true → ∃ home names, Owns s.disk (s.workers i) home names
  places : ∀ i j, i ≠ j → (s.workers i).stage.named = true → (s.workers j).stage.named = true →
    ∀ home names home' names', Owns s.disk (s.workers i) home names →
      Owns s.disk (s.workers j) home' names' → names ++ home ≠ names' ++ home'

section Owns

variable {disk disk' : Disk} {f f' g : Finalizer} {home names home' names' : List String}

theorem Owns.mono (h : Owns disk f home names) (hgrows : disk.Grows disk')
    (hpath : f'.task.fullFilePath = f.task.fullFilePath) (hname : f'.task.filename = f.task.filename)
    (hwrapper : f'.wrapper = f.wrapper) (hexisted : f'.existed = f.existed) :
    Owns disk' f' home names where
  path := by rw [hpath, hwrapper, hname, h.path]
  closed := hwrapper ▸ h.closed
  relative := hname ▸ h.relative
  found := hwrapper ▸ hgrows.found h.found
  stands := hgrows.tree.stands h.stands
  unlinked := h.unlinked.grows hgrows.tree
  inside := hname ▸ h.inside
  deeper := h.deeper
  fresh := hexisted ▸ h.fresh

theorem Owns.unique (h : Owns disk f home names) (h' : Owns disk f home' names') :
    home = home' ∧ names = names' :=
  ⟨Resolved.found.inj (h.found.symm.trans h'.found), Option.some.inj (h.inside.symm.trans h'.inside)⟩

theorem Owns.filename_ne (h : Owns disk f home names) : f.task.filename ≠ "" := by
  intro hempty
  have hinside := h.inside
  rw [hempty] at hinside
  exact h.deeper (Option.some.inj hinside).symm

theorem Owns.hops (h : Owns disk f home names) :
    hopsOf f.task.fullFilePath = hopsOf f.wrapper ++ hopsOf f.task.filename := by
  rw [h.path, hopsOf_joinPath _ h.relative h.filename_ne, hopsOf_of_closed h.closed]

theorem Owns.start (h : Owns disk f home names) : disk.start f.task.fullFilePath = disk.start f.wrapper := by
  rw [h.path, disk.start_joinPath _ h.relative]

theorem Owns.resolve_wrapper (h : Owns disk f home names) :
    disk.tree.resolve Disk.maxLinks (disk.start f.task.fullFilePath) (hopsOf f.wrapper) = .found home := by
  rw [h.start, ← disk.resolve_eq h.closed.1, h.found]

theorem Owns.place (h : Owns disk f home names) {place : List String}
    (hplace : disk.resolve f.task.fullFilePath = .found place) : place = names ++ home := by
  have hne : f.task.fullFilePath ≠ "" := h.path ▸ joinPath_ne_empty _ h.filename_ne
  rw [disk.resolve_eq hne, h.hops] at hplace
  obtain ⟨m, -, hys⟩ := resolve_append h.resolve_wrapper
  rw [hys] at hplace
  exact found_within h.unlinked h.inside (by rwa [List.nil_append])

theorem Owns.same_place {middle : List (Hop String)} (h : Owns disk f home names)
    (h' : Owns disk g home' names') (hpath : f.task.fullFilePath = g.task.fullFilePath)
    (hwrapper : hopsOf g.wrapper = hopsOf f.wrapper ++ middle)
    (hname : hopsOf f.task.filename = middle ++ hopsOf g.task.filename) :
    names ++ home = names' ++ home' := by
  obtain ⟨m, -, hys⟩ := resolve_append h.resolve_wrapper
  have hfound := h'.resolve_wrapper
  rw [hwrapper, ← hpath, hys] at hfound
  have hinside := h.inside
  rw [hname, within_append, Option.bind_eq_some_iff] at hinside
  obtain ⟨between, hbetween, hrest⟩ := hinside
  have hhome : home' = between ++ home := found_within h.unlinked hbetween (by rwa [List.nil_append])
  have hbehind := within_behind between h'.inside
  rw [List.nil_append, hrest] at hbehind
  rw [Option.some.inj hbehind, hhome, List.append_assoc]

theorem Owns.path_ne (h : Owns disk f home names) (h' : Owns disk g home' names')
    (hne : names ++ home ≠ names' ++ home') : f.task.fullFilePath ≠ g.task.fullFilePath := by
  intro hpath
  have hhops := congrArg hopsOf hpath
  rw [h.hops, h'.hops] at hhops
  rcases List.append_eq_append_iff.mp hhops with ⟨middle, hwrapper, hname⟩ | ⟨middle, hwrapper, hname⟩
  · exact hne (h.same_place h' hpath hwrapper hname)
  · exact hne (h'.same_place h hpath.symm hwrapper hname).symm

end Owns

/-! ### One step of one worker -/

structure Builds (disk : Disk) (f f' : Finalizer) (disk' : Disk) : Prop where
  named : f'.stage.named = true
  path : f'.task.fullFilePath = f.task.fullFilePath
  filename : f'.task.filename = f.task.filename
  wrapper : f'.wrapper = f.wrapper
  existed : f'.existed = f.existed
  grows : disk.Grows disk'

inductive Finalizer.Moved (env : ProbeEnv) (disk : Disk) (f : Finalizer) : Finalizer → Disk → Prop
  | looks {f' : Finalizer} (hlooks : f'.stage.named = false) : Moved env disk f f' disk
  | takes {unique : String} (hstage : f.stage = .taking unique) :
      Moved env disk f (f.take env.acquire disk unique).1 (f.take env.acquire disk unique).2
  | builds {f' : Finalizer} {disk' : Disk} (hbefore : f.stage.named = true)
      (hbuilds : Builds disk f f' disk') : Moved env disk f f' disk'

theorem Finalizer.moved_of_next {cfg : HttpConfig} {env : ProbeEnv} {disk disk' : Disk}
    {f f' : Finalizer} (h : f.next cfg env disk = some (f', disk')) : f.Moved env disk f' disk' := by
  -- laying out and failing keep path, name and what was found
  have hlaid : ∀ {later : Disk}, disk.Grows later → Builds disk f (f.layOut cfg) later :=
    fun hgrows => ⟨rfl, layOut_fullFilePath .., layOut_filename .., rfl, rfl, hgrows⟩
  have hkept : ∀ {f' : Finalizer} {later : Disk}, disk.Grows later → f'.stage.named = true →
      f'.task.fullFilePath = f.task.fullFilePath → f'.task.filename = f.task.filename →
      f'.wrapper = f.wrapper → f'.existed = f.existed → Builds disk f f' later :=
    fun hgrows hnamed hpath hname hwrapper hexisted =>
      ⟨hnamed, hpath, hname, hwrapper, hexisted, hgrows⟩
  simp only [next] at h
  cases hstage : f.stage with
  | before =>
      simp only [hstage, Option.some.injEq, Prod.mk.injEq] at h
      obtain ⟨rfl, rfl⟩ := h
      exact .looks rfl
  | checking n =>
      simp only [hstage, Option.some.injEq, Prod.mk.injEq] at h
      obtain ⟨rfl, rfl⟩ := h
      refine .looks ?_
      simp only [check]
      split
      · rfl
      split <;> rfl
  | taking unique =>
      simp only [hstage, Option.some.injEq] at h
      obtain ⟨hf, hdisk⟩ := Prod.mk.inj h
      exact hf ▸ hdisk ▸ .takes hstage
  | ensuring =>
      simp only [hstage] at h
      refine .builds (by rw [hstage]; rfl) ?_
      split at h <;>
      · obtain ⟨rfl, rfl⟩ := Prod.mk.inj (Option.some.inj h)
        exact hkept (.refl disk) rfl rfl rfl rfl rfl
  | making =>
      simp only [hstage] at h
      refine .builds (by rw [hstage]; rfl) ?_
      have hgrows := disk.grows_createDirectories (parentPath f.task.fullFilePath)
      split at h
      · split at h
        next made heq =>
          rw [Disk.createDirectories_eq] at heq
          rw [heq] at hgrows
          obtain ⟨rfl, rfl⟩ := Prod.mk.inj (Option.some.inj h)
          exact hkept hgrows rfl rfl rfl rfl rfl
        next made answer _ heq =>
          rw [Disk.createDirectories_eq] at heq
          rw [heq] at hgrows
          obtain ⟨rfl, rfl⟩ := Prod.mk.inj (Option.some.inj h)
          exact hkept hgrows rfl rfl rfl rfl rfl
      · obtain ⟨rfl, rfl⟩ := Prod.mk.inj (Option.some.inj h)
        exact hkept (.refl disk) rfl rfl rfl rfl rfl
  | opening =>
      simp only [hstage] at h
      refine .builds (by rw [hstage]; rfl) ?_
      split at h
      · obtain ⟨rfl, rfl⟩ := Prod.mk.inj (Option.some.inj h)
        exact hkept (.refl disk) rfl rfl rfl rfl rfl
      next opened hopen =>
        obtain ⟨rfl, rfl⟩ := Prod.mk.inj (Option.some.inj h)
        have hgrows := Disk.grows_openFile hopen
        split
        · exact hlaid hgrows
        · exact hkept hgrows rfl rfl rfl rfl rfl
  | sizing =>
      simp only [hstage] at h
      refine .builds (by rw [hstage]; rfl) ?_
      split at h <;> obtain ⟨rfl, rfl⟩ := Prod.mk.inj (Option.some.inj h)
      · exact hlaid (disk.grows_truncate _ _)
      · exact hkept (.refl disk) rfl rfl rfl rfl rfl
  | finished => simp [hstage] at h

/-! ### One step of all -/

section Step

variable {s s' : SharedDisk ι} {cfg : HttpConfig}

theorem owns_take {disk : Disk} {f : Finalizer} {env : AcquireEnv} {unique : String}
    (hgranted : env.createOk = true)
    (hmade : (disk.createDirectories (targetOf f.task unique)).2 = some true) (hplain : PlainName unique)
    (hproper : StdPath.Proper unique) (hinside : LeadsInside f.task.filename) :
    (f.take env disk unique).2 = (disk.createDirectories (targetOf f.task unique)).1 ∧
      ∃ home names, Owns (f.take env disk unique).2 (f.take env disk unique).1 home names ∧
        disk.tree.node home = none := by
  obtain ⟨hrelative, hsome, hdeeper⟩ := hinside
  obtain ⟨names, hnames⟩ := Option.ne_none_iff_exists'.mp hsome
  have hdisk : (f.take env disk unique).2 = (disk.createDirectories (targetOf f.task unique)).1 := by
    simp [Finalizer.take, createEntry, hgranted]
  have hfilename : f.task.filename ≠ "" := by
    intro hempty
    rw [hempty] at hdeeper
    exact hdeeper rfl
  obtain ⟨hfree, home, hfound, hnew, hstands, hunlinked⟩ :=
    Disk.made_spec hplain hproper (Prod.ext rfl hmade)
  have hclosed := closedPath_joinPath f.task.outputPath hplain
  refine ⟨hdisk, home, names, ?_, hnew⟩
  rw [hdisk]
  refine ⟨rfl, hclosed, hrelative, hfound, hstands, hunlinked, hnames, ?_, ?_⟩
  · rintro rfl
    exact hdeeper hnames
  · by_contra hexisted
    have hthere : disk.exist (joinPath (targetOf f.task unique) f.task.filename) = true := by
      simpa [Finalizer.take] using hexisted
    exact absurd (hfree.symm.trans (Disk.exist_of_below hclosed hrelative hfilename hthere)) (by decide)

/-- A new directory that is on the way to another worker's file is not where that file is to be, nor above. -/
theorem place_ne_of_new {disk : Disk} {f : Finalizer} {home names home' names' : List String}
    (hnew : disk.tree.node home = none) (hdeeper : names ≠ []) (howns : Owns disk f home' names')
    (hway : home ∉ f.waypoints disk) : names ++ home ≠ names' ++ home' := by
  intro hsame
  rcases List.append_eq_append_iff.mp hsame with ⟨middle, hnames, hhome⟩ | ⟨middle, -, hhome⟩
  · by_cases hnil : middle = []
    · subst hnil
      rw [List.nil_append] at hhome
      exact howns.stands (hhome ▸ hnew)
    · refine hway ?_
      rw [Finalizer.waypoints, howns.found, howns.inside]
      refine List.mem_map.mpr ⟨middle, List.mem_filter.mpr ⟨?_, by simpa using hnil⟩, hhome.symm⟩
      rw [List.mem_tails, hnames, List.tail_append_of_ne_nil hdeeper]
      exact List.suffix_append _ _
  · exact stands_of_suffix ⟨middle, hhome.symm⟩ howns.stands hnew

theorem Apart.takes (h : Apart s) {i : ι} {env : ProbeEnv} {unique : String}
    (hown : s.TakesOwn (i, env)) (hstage : (s.workers i).stage = .taking unique) :
    Apart
      { disk := ((s.workers i).take env.acquire s.disk unique).2
        workers := Function.update s.workers i ((s.workers i).take env.acquire s.disk unique).1 } := by
  unfold SharedDisk.TakesOwn at hown
  simp only [hstage] at hown
  obtain ⟨hgranted, hmade, hplain, hproper, hinside, hway⟩ := hown
  obtain ⟨hdisk, home, names, hself, hnew⟩ := owns_take hgranted hmade hplain hproper hinside
  have hgrows : s.disk.Grows ((s.workers i).take env.acquire s.disk unique).2 := by
    rw [hdisk]
    exact s.disk.grows_createDirectories _
  have hlater : ∀ {j : ι} {home' names' : List String}, Owns s.disk (s.workers j) home' names' →
      Owns ((s.workers i).take env.acquire s.disk unique).2 (s.workers j) home' names' :=
    fun howns => howns.mono hgrows rfl rfl rfl rfl
  -- the file of another worker is to be somewhere else than in the new directory
  have hother : ∀ j, (s.workers j).stage.named = true → ∀ home₁ names₁ home' names',
      Owns ((s.workers i).take env.acquire s.disk unique).2
        ((s.workers i).take env.acquire s.disk unique).1 home₁ names₁ →
      Owns ((s.workers i).take env.acquire s.disk unique).2 (s.workers j) home' names' →
      names₁ ++ home₁ ≠ names' ++ home' := by
    intro j hnamed home₁ names₁ home' names' howns₁ howns'
    obtain ⟨rfl, rfl⟩ := howns₁.unique hself
    obtain ⟨home₂, names₂, hbefore⟩ := h.owns j hnamed
    obtain ⟨rfl, rfl⟩ := howns'.unique (hlater hbefore)
    refine place_ne_of_new hnew hself.deeper hbefore fun hmem => ?_
    have hfound := hself.found
    rw [hdisk] at hfound
    exact hway j hnamed _ hmem hfound
  refine ⟨fun j hnamed => ?_, fun j k hne hj hk => ?_⟩
  · by_cases hji : j = i
    · subst hji
      simpa using ⟨home, names, hself⟩
    · simp only [Function.update_of_ne hji] at hnamed ⊢
      obtain ⟨home', names', howns⟩ := h.owns j hnamed
      exact ⟨home', names', hlater howns⟩
  · by_cases hji : j = i
    · subst hji
      have hkj : k ≠ j := fun heq => hne heq.symm
      simp only [Function.update_of_ne hkj, Function.update_self] at hk ⊢
      exact fun _ _ _ _ => hother k hk _ _ _ _
    · by_cases hki : k = i
      · subst hki
        simp only [Function.update_of_ne hji, Function.update_self] at hj ⊢
        exact fun _ _ _ _ howns howns' => (hother j hj _ _ _ _ howns' howns).symm
      · simp only [Function.update_of_ne hji, Function.update_of_ne hki] at hj hk ⊢
        intro home' names' home'' names'' howns howns'
        obtain ⟨homeⱼ, namesⱼ, hownsⱼ⟩ := h.owns j hj
        obtain ⟨homeₖ, namesₖ, hownsₖ⟩ := h.owns k hk
        obtain ⟨rfl, rfl⟩ := howns.unique (hlater hownsⱼ)
        obtain ⟨rfl, rfl⟩ := howns'.unique (hlater hownsₖ)
        exact h.places j k hne hj hk _ _ _ _ hownsⱼ hownsₖ

theorem Apart.updated (h : Apart s) {i : ι} {f : Finalizer} {disk : Disk} (hgrows : s.disk.Grows disk)
    (hkept : f.stage.named = true → (s.workers i).stage.named = true ∧
      f.task.fullFilePath = (s.workers i).task.fullFilePath ∧
      f.task.filename = (s.workers i).task.filename ∧ f.wrapper = (s.workers i).wrapper ∧
      f.existed = (s.workers i).existed) :
    Apart { disk := disk, workers := Function.update s.workers i f } := by
  -- a worker that is named was, with the same place for its file
  have hwas : ∀ j, (Function.update s.workers i f j).stage.named = true →
      (s.workers j).stage.named = true ∧ ∀ home names, Owns s.disk (s.workers j) home names →
        Owns disk (Function.update s.workers i f j) home names := by
    intro j hnamed
    by_cases hji : j = i
    · subst hji
      simp only [Function.update_self] at hnamed ⊢
      obtain ⟨hbefore, hpath, hname, hwrapper, hexisted⟩ := hkept hnamed
      exact ⟨hbefore, fun _ _ howns => howns.mono hgrows hpath hname hwrapper hexisted⟩
    · simp only [Function.update_of_ne hji] at hnamed ⊢
      exact ⟨hnamed, fun _ _ howns => howns.mono hgrows rfl rfl rfl rfl⟩
  refine ⟨fun j hnamed => ?_, fun j k hne hj hk => ?_⟩
  · obtain ⟨hbefore, hlater⟩ := hwas j hnamed
    obtain ⟨home, names, howns⟩ := h.owns j hbefore
    exact ⟨home, names, hlater home names howns⟩
  · obtain ⟨hj', hlaterj⟩ := hwas j hj
    obtain ⟨hk', hlaterk⟩ := hwas k hk
    intro home names home' names' howns howns'
    obtain ⟨homeⱼ, namesⱼ, hownsⱼ⟩ := h.owns j hj'
    obtain ⟨homeₖ, namesₖ, hownsₖ⟩ := h.owns k hk'
    obtain ⟨rfl, rfl⟩ := howns.unique (hlaterj _ _ hownsⱼ)
    obtain ⟨rfl, rfl⟩ := howns'.unique (hlaterk _ _ hownsₖ)
    exact h.places j k hne hj' hk' _ _ _ _ hownsⱼ hownsₖ

theorem apart_step (h : Apart s) {event : ι × ProbeEnv} (hown : s.TakesOwn event)
    (hstep : s.step cfg event = some s') : Apart s' := by
  obtain ⟨i, env⟩ := event
  obtain ⟨⟨f, disk⟩, hnext, rfl⟩ := Option.map_eq_some_iff.mp hstep
  have hmoved := Finalizer.moved_of_next hnext
  cases hmoved with
  | looks hlooks =>
      refine h.updated (.refl s.disk) fun hnamed => ?_
      rw [hlooks] at hnamed
      cases hnamed
  | takes hstage => exact h.takes hown hstage
  | builds hbefore hbuilds =>
      exact h.updated hbuilds.grows fun _ =>
        ⟨hbefore, hbuilds.path, hbuilds.filename, hbuilds.wrapper, hbuilds.existed⟩

end Step

omit [DecidableEq ι] in
theorem Apart.filesApart {s : SharedDisk ι} (h : Apart s) : FilesApart s := by
  have hnamed : ∀ i, (s.workers i).stage = .finished → (s.workers i).stage.named = true :=
    fun i hfinished => by rw [hfinished]; rfl
  refine ⟨fun i hi => ?_, fun i j hne hi hj => ?_⟩
  · obtain ⟨home, names, howns⟩ := h.owns i (hnamed i hi)
    exact howns.fresh
  · obtain ⟨home, names, howns⟩ := h.owns i (hnamed i hi)
    obtain ⟨home', names', howns'⟩ := h.owns j (hnamed j hj)
    have hplaces := h.places i j hne (hnamed i hi) (hnamed j hj) _ _ _ _ howns howns'
    refine ⟨howns.path_ne howns' hplaces, fun place hplace hplace' => hplaces ?_⟩
    exact (howns.place hplace).symm.trans (howns'.place hplace')

/-- **Distinct tasks have distinct files**, in every interleaving in which each worker makes its
wrapper directory itself. -/
theorem filesApart_of_reaches {cfg : HttpConfig} {disk : Disk} {tasks : ι → TaskCtx} {conns : ι → Nat}
    {s : SharedDisk ι}
    (hrun : Reaches (SharedDisk.step cfg) SharedDisk.TakesOwn (SharedDisk.start disk tasks conns) s) :
    FilesApart s := by
  have hstart : Apart (SharedDisk.start disk tasks conns) :=
    ⟨by simp [SharedDisk.start, Stage.named], by simp [SharedDisk.start, Stage.named]⟩
  have hinv : Apart s := hrun.invariant (fun _ _ _ h hown hstep => apart_step h hown hstep) hstart
  exact hinv.filesApart

def emptyDisk : Disk where
  tree := PathTree.empty

/-- Two URLs that end in one name, the first one for `/d`. -/
def twoTasks (dir : String) : Bool → TaskCtx
  | false => taskCreateNew "http://g/f.bin" "c" "/d"
  | true => taskCreateNew "http://h/f.bin" "c" dir

/-- The steps of two workers in some order. -/
def inOrder (order : List Bool) : List (Bool × ProbeEnv) :=
  order.map fun worker => (worker, { urlLib := noUrlLib })

def outcome (s : SharedDisk Bool) : (Stage × String) × Stage × String :=
  (((s.workers false).stage, (s.workers false).task.fullFilePath),
    (s.workers true).stage, (s.workers true).task.fullFilePath)

/-- One after the other, the second finds the name taken, though it spells the directory in another way. -/
theorem filesApart_of_reaches_twoTasks :
    ∃ s : SharedDisk Bool, (s.workers false).task.fullFilePath = "/d/f/f.bin" ∧
      (s.workers true).task.fullFilePath = "/d/./f(1)/f.bin" ∧ FilesApart s := by
  have hplayed : ((play (SharedDisk.step plainCfg) SharedDisk.TakesOwn
      (SharedDisk.start emptyDisk (twoTasks "/d/.") fun _ => 0)
      (inOrder [false, false, false, false, false, true, true, true, true, true, true])).map
        outcome) =
      some ((.finished, "/d/f/f.bin"), .finished, "/d/./f(1)/f.bin") := by decide +kernel
  obtain ⟨s, hrun, hvalues⟩ := Option.map_eq_some_iff.mp hplayed
  simp only [outcome, Prod.mk.injEq] at hvalues
  exact ⟨s, hvalues.1.2, hvalues.2.2, filesApart_of_reaches (reaches_of_play hrun)⟩

/-- Both look before either makes the directory: both take the name, and write to one file. -/
theorem not_filesApart_race :
    ∃ s : SharedDisk Bool, (twoTasks "/d" false).url ≠ (twoTasks "/d" true).url ∧
      Reaches (SharedDisk.step plainCfg) anyEvent
        (SharedDisk.start emptyDisk (twoTasks "/d") fun _ => 0) s ∧
      ¬ FilesApart s := by
  have hplayed : ((play (SharedDisk.step plainCfg) anyEvent
      (SharedDisk.start emptyDisk (twoTasks "/d") fun _ => 0)
      (inOrder [false, true, false, true, false, true, false, false, true, true])).map outcome) =
      some ((.finished, "/d/f/f.bin"), .finished, "/d/f/f.bin") := by decide +kernel
  obtain ⟨s, hrun, hvalues⟩ := Option.map_eq_some_iff.mp hplayed
  simp only [outcome, Prod.mk.injEq] at hvalues
  obtain ⟨⟨hfirst, hpath⟩, hsecond, hpath'⟩ := hvalues
  refine ⟨s, by decide, reaches_of_play hrun, fun hapart => ?_⟩
  exact (hapart.2 false true (by decide) hfirst hsecond).1 (hpath.trans hpath'.symm)

end DownloadWrapper
