import DownloadWrapper.Lib.Transition
import DownloadWrapper.Utils.Disk
import DownloadWrapper.Utils.UniqueName

/-!
# Names are acquired once

Every name that was handed out exists from then on, and a name that exists is not handed out. So no two calls
on one directory get the same. What exists is what a path leads to: a link that leads nowhere does not.
-/

namespace DownloadWrapper

open Transition PathTree

section Entry

variable {env : AcquireEnv} {disk disk' : Disk} {dir name : String} {isDir : Bool}

theorem createEntry_cases {path : String} (h : createEntry env disk path isDir = (disk', true)) :
    (isDir = true ∧ ∃ made, disk.createDirectories path = (disk', some made)) ∨
      (isDir = false ∧ ∃ middle made, disk.createDirectories (parentPath path) = (middle, some made) ∧
        middle.openFile path true true = some disk') := by
  rw [createEntry] at h
  cases henv : env.createOk with
  | false => simp [henv] at h
  | true =>
      cases isDir with
      | true =>
          rcases hmade : disk.createDirectories path with ⟨middle, made⟩
          simp only [henv, if_true, Disk.createDirectories_eq, hmade, Prod.mk.injEq,
            Option.isSome_iff_exists] at h
          obtain ⟨rfl, made', rfl⟩ := h
          exact Or.inl ⟨rfl, made', rfl⟩
      | false =>
          rcases hmade : disk.createDirectories (parentPath path) with ⟨middle, _ | made⟩
          · simp [henv, hmade] at h
          · cases hopen : middle.openFile path true true with
            | none => simp [henv, hmade, hopen] at h
            | some disk'' =>
                simp only [henv, if_true, Bool.false_eq_true, if_false, Disk.createDirectories_eq, hmade,
                  Disk.openFile_eq, hopen, Prod.mk.injEq, and_true] at h
                exact Or.inr ⟨rfl, middle, made, rfl, h ▸ hopen⟩

theorem grows_createEntry {path : String} (h : createEntry env disk path isDir = (disk', true)) :
    disk.Grows disk' ∧ Extends disk.tree disk'.tree := by
  rcases createEntry_cases h with ⟨-, made, hmade⟩ | ⟨-, middle, made, hmade, hopen⟩
  · have hgrows := disk.grows_createDirectories path
    have hextends := disk.extends_createDirectories path
    rw [hmade] at hgrows hextends
    exact ⟨hgrows, hextends⟩
  · have hgrows := disk.grows_createDirectories (parentPath path)
    have hextends := disk.extends_createDirectories (parentPath path)
    rw [hmade] at hgrows hextends
    exact ⟨hgrows.trans (Disk.grows_openFile hopen), fun place x hx =>
      Disk.extends_openFile hopen place x (hextends place x hx)⟩

theorem stat_createEntry (hname : PlainName name)
    (h : createEntry env disk (joinPath dir name) isDir = (disk', true)) :
    if isDir then disk'.stat (joinPath dir name) = some .dir
    else ∃ bytes, disk'.stat (joinPath dir name) = some (.file bytes) := by
  rcases createEntry_cases h with ⟨rfl, made, hmade⟩ | ⟨rfl, middle, made, -, hopen⟩
  · exact Disk.stat_createDirectories hmade (by simp [hopsOf_joinPath_plain dir hname])
  · exact Disk.stat_openFile hopen

end Entry

namespace Disk

/-- Behind what is missing of the directory's path comes no `..`. -/
def Descends (disk : Disk) (dir : String) : Prop :=
  match disk.tree.resolve maxLinks (disk.start dir) (dirHops dir) with
  | .absent _ _ rest => .up ∉ rest
  | _ => True

instance (disk : Disk) (dir : String) : Decidable (disk.Descends dir) := by
  unfold Descends
  split <;> infer_instance

theorem Descends.climb {disk : Disk} {dir : String} (h : disk.Descends dir) :
    ∀ target name rest, disk.tree.resolve maxLinks (disk.start dir) (dirHops dir) =
      .absent target name rest → .up ∉ rest := by
  intro target name rest habsent
  rwa [Descends, habsent] at h

theorem lstat_joinPath (disk : Disk) (dir : String) {name : String} (hname : PlainName name)
    (hproper : StdPath.Proper name) :
    disk.lstat (joinPath dir name) = disk.tree.child maxLinks (disk.start dir) (dirHops dir) name := by
  rw [lstat, hopsOf_joinPath_plain dir hname, hopOf_of_proper hproper, List.getLast?_concat,
    List.dropLast_concat, disk.start_joinPath dir hname.relative]

theorem resolve_joinPath (disk : Disk) (dir : String) {name : String} (hname : PlainName name)
    (hproper : StdPath.Proper name) :
    disk.resolve (joinPath dir name) =
      disk.tree.resolve maxLinks (disk.start dir) (dirHops dir ++ [.down name]) := by
  rw [disk.resolve_eq (joinPath_ne_empty dir hname.1), hopsOf_joinPath_plain dir hname,
    hopOf_of_proper hproper, disk.start_joinPath dir hname.relative]

end Disk

/-- **A created entry is entered in its directory**, when nothing existed at its path, no link stands in a
file's place and the directory's path can be made. -/
theorem entered_createEntry {env : AcquireEnv} {disk disk' : Disk} {dir name : String} {isDir : Bool}
    (hname : PlainName name) (hproper : StdPath.Proper name) (hdescends : disk.Descends dir)
    (hfree : disk.exist (joinPath dir name) = false)
    (hlink : isDir = false → disk.lstat (joinPath dir name) = none)
    (h : createEntry env disk (joinPath dir name) isDir = (disk', true)) :
    ∃ middle place, Entered disk.tree disk'.tree Disk.maxLinks (disk.start dir) (dirHops dir) name
      (if isDir then .dir else .file []) middle place := by
  have hne := joinPath_ne_empty dir hname.1
  have hnowhere : ∀ target, disk.tree.resolve Disk.maxLinks (disk.start dir) (dirHops dir ++ [.down name]) ≠
      .found target := by
    intro target hfound
    rw [← disk.resolve_joinPath dir hname hproper] at hfound
    rw [Disk.exist_iff.mpr ⟨target, hfound⟩] at hfree
    cases hfree
  rcases createEntry_cases h with ⟨rfl, made, hmade⟩ | ⟨rfl, middle, made, hmade, hopen⟩
  · rw [disk.createDirectories_of_ne hne, hopsOf_joinPath_plain dir hname, hopOf_of_proper hproper,
      disk.start_joinPath dir hname.relative] at hmade
    obtain ⟨rfl, hsome⟩ := Prod.mk.inj hmade
    exact entered_of_makeDirs hdescends.climb hnowhere (Prod.ext rfl hsome)
  · have hparent : parentPath (joinPath dir name) ≠ "" := by
      intro hempty
      rw [hempty, Disk.createDirectories, if_pos rfl] at hmade
      cases hmade
    have hstart : disk.start (parentPath (joinPath dir name)) = disk.start dir := by
      rw [Disk.start, isAbsolute_parentPath, isAbsolute_joinPath dir hname.relative]
      rfl
    rw [disk.createDirectories_of_ne hparent, hopsOf_parentPath dir hname, hstart] at hmade
    obtain ⟨rfl, hsome⟩ := Prod.mk.inj hmade
    rw [disk.lstat_joinPath dir hname hproper] at hlink
    rcases Disk.openFile_cases hopen with ⟨place, bytes, hfound, -⟩ | ⟨place, c, habsent, rfl⟩
    · rw [Disk.resolve_joinPath _ dir hname hproper] at hfound
      exact absurd hfound (nowhere_of_makeDirs hdescends.climb hnowhere (Prod.ext rfl hsome) place)
    · rw [Disk.resolve_joinPath _ dir hname hproper] at habsent
      exact ⟨_, place, entered_of_absent hdescends.climb (hlink rfl) (Prod.ext rfl hsome) habsent⟩

/-! ### One call -/

/-- A call on a directory: `acquire_unique_name` or `acquire_wrapper_name`. -/
inductive AcquireCall where
  | unique (name : String) (multiFile : Bool)
  | wrapper (name : String)

namespace AcquireCall

def name : AcquireCall → String
  | unique name _ | wrapper name => name

def isDir : AcquireCall → Bool
  | unique _ multiFile => multiFile
  | wrapper _ => true

def serve (env : AcquireEnv) (disk : Disk) (dir : String) : AcquireCall → String × Disk × Bool
  | unique name multiFile => acquireUniqueName env disk dir name multiFile
  | wrapper name => acquireWrapperName env disk dir name

theorem serve_eq (call : AcquireCall) (env : AcquireEnv) (disk : Disk) (dir : String) :
    call.serve env disk dir = acquireUniqueName env disk dir call.name call.isDir := by
  cases call <;> rfl

end AcquireCall

def HasRoom (disk : Disk) (dir name : String) : Prop :=
  ∃ k, (1 ≤ k ∧ k ≤ 9999) ∧ disk.exist (joinPath dir (numberedName name k)) = false

instance (disk : Disk) (dir name : String) : Decidable (HasRoom disk dir name) := by
  refine decidable_of_iff ((List.range' 1 9999).any fun k =>
    !disk.exist (joinPath dir (numberedName name k))) ?_
  simp only [List.any_eq_true, List.mem_range'_1, Bool.not_eq_true', HasRoom]
  exact exists_congr fun k => and_congr_left fun _ => by omega

/-- No link that leads nowhere stands where a file is asked for, and the directory is there, or can be made
along its path for a name of its own. -/
def Clear (disk : Disk) (dir name : String) (isDir : Bool) : Prop :=
  (isDir = false → disk.exist (joinPath dir name) = false → disk.lstat (joinPath dir name) = none) ∧
    disk.Descends dir ∧ (disk.exist (joinPath dir name) = false → StdPath.Proper name)

instance (disk : Disk) (dir name : String) (isDir : Bool) : Decidable (Clear disk dir name isDir) :=
  inferInstanceAs (Decidable (_ ∧ _ ∧ _))

/-- What a call promises of the name `out.1` and of the disk `out.2.1`: which name it is, that nothing existed
there and something of the right form does now, and that what was on the disk is as it was. -/
structure Acquires (disk : Disk) (dir name : String) (isDir : Bool) (out : String × Disk × Bool) : Prop where
  own : disk.exist (joinPath dir name) = false → out.1 = name
  least : disk.exist (joinPath dir name) = true → ∃ k, (1 ≤ k ∧ k ≤ 9999) ∧
    out.1 = numberedName name k ∧ disk.exist (joinPath dir (numberedName name k)) = false ∧
      ∀ j, 1 ≤ j → j < k → disk.exist (joinPath dir (numberedName name j)) = true
  fresh : disk.exist (joinPath dir out.1) = false
  stands : if isDir = true ∨ out.1 ≠ name then out.2.1.stat (joinPath dir out.1) = some .dir
    else ∃ bytes, out.2.1.stat (joinPath dir out.1) = some (.file bytes)
  kept : Extends disk.tree out.2.1.tree

theorem Acquires.exist {disk : Disk} {dir name : String} {isDir : Bool} {out : String × Disk × Bool}
    (h : Acquires disk dir name isDir out) : out.2.1.exist (joinPath dir out.1) = true := by
  have hstands := h.stands
  refine Disk.exist_of_stat ?_
  split at hstands
  · simp [hstands]
  · obtain ⟨bytes, hbytes⟩ := hstands
    simp [hbytes]

/-- What it promises of the directory's entries, links among them. -/
structure Enters (disk : Disk) (dir name : String) (isDir : Bool) (out : String × Disk × Bool) : Prop where
  free : disk.lstat (joinPath dir out.1) = none
  placed : out.2.1.lstat (joinPath dir out.1) =
    some (if isDir = true ∨ out.1 ≠ name then .dir else .file [])
  others : ∀ other, PlainName other → StdPath.Proper other → other ≠ out.1 →
    out.2.1.lstat (joinPath dir other) = disk.lstat (joinPath dir other)
  added : ∀ place, disk.tree.node place = none → out.2.1.tree.node place ≠ none →
    ∃ target, out.2.1.resolve (joinPath dir out.1) = .found target ∧ place <:+ target

section Call

variable {env : AcquireEnv} {disk : Disk} {dir name : String} {isDir : Bool}

theorem plainName_numberedName (hname : PlainName name) (n : Nat) :
    PlainName (numberedName name n) := by
  rw [numberedName_eq]
  refine ⟨by simp [String.append_eq_empty_iff], ?_⟩
  rw [String.toList_append, List.mem_append, not_or]
  exact ⟨hname.2, (plainSuffix_number n).2.1⟩

theorem numberedName_ne (name : String) (n : Nat) : numberedName name n ≠ name := by
  intro hsame
  have hlength := congrArg (fun s => s.toList.length) hsame
  rw [numberedName_eq] at hlength
  have hsuffix : 0 < ("(" ++ toString n ++ ")").toList.length :=
    List.length_pos_of_ne_nil (by simp)
  simp only [String.toList_append, List.length_append] at hlength hsuffix
  omega

theorem proper_numberedName (name : String) (n : Nat) : StdPath.Proper (numberedName name n) := by
  have hlast : (numberedName name n).toList.getLast? = some ')' := by
    rw [numberedName, String.toList_append]
    exact List.getLast?_concat
  refine ⟨?_, ?_, ?_⟩ <;>
  · intro heq
    rw [heq] at hlast
    exact absurd hlast (by decide)

/-- **Which entry a call creates**: its own name when nothing exists there, else that of the least number at
which nothing does, which is a directory's. -/
theorem acquireUniqueName_cases (env : AcquireEnv) (isDir : Bool) (hne : name ≠ "")
    (hroom : HasRoom disk dir name) :
    (disk.exist (joinPath dir name) = false ∧
        acquireUniqueName env disk dir name isDir =
          (name, createEntry env disk (joinPath dir name) isDir)) ∨
      disk.exist (joinPath dir name) = true ∧ ∃ k, (1 ≤ k ∧ k ≤ 9999) ∧
        disk.exist (joinPath dir (numberedName name k)) = false ∧
        (∀ j, 1 ≤ j → j < k → disk.exist (joinPath dir (numberedName name j)) = true) ∧
        acquireUniqueName env disk dir name isDir =
          (numberedName name k, createEntry env disk (joinPath dir (numberedName name k)) true) := by
  rw [acquireUniqueName, if_neg hne]
  cases hown : disk.exist (joinPath dir name) with
  | false => exact Or.inl ⟨rfl, by simp [hown]⟩
  | true =>
      right
      rw [if_neg (by simp [hown])]
      obtain ⟨k, ⟨hlow, hhigh⟩, hvacant⟩ := hroom
      cases hfirst : firstFree disk dir name 9999 1 with
      | none =>
          have hall := firstFree_eq_none_iff.mp hfirst k hlow (by omega)
          exact absurd (hvacant.symm.trans hall) (by decide)
      | some n =>
          obtain ⟨hrange, hfree, hbelow⟩ := firstFree_eq_some_iff.mp hfirst
          exact ⟨rfl, n, by omega, hfree, hbelow, rfl⟩

theorem exists_createEntry (hname : PlainName name) (hroom : HasRoom disk dir name)
    (hsuccess : (acquireUniqueName env disk dir name isDir).2.2 = true) :
    ∃ result form disk', acquireUniqueName env disk dir name isDir = (result, disk', true) ∧
      PlainName result ∧ createEntry env disk (joinPath dir result) form = (disk', true) ∧
      disk.exist (joinPath dir result) = false ∧ form = decide (isDir = true ∨ result ≠ name) ∧
      (result = name ∧ disk.exist (joinPath dir name) = false ∨ StdPath.Proper result ∧ form = true) := by
  rcases acquireUniqueName_cases env isDir hname.1 hroom with
    ⟨hfree, hout⟩ | ⟨-, k, -, hfree, -, hout⟩
  · rw [hout] at hsuccess ⊢
    exact ⟨name, isDir, _, Prod.ext rfl (Prod.ext rfl hsuccess), hname, Prod.ext rfl hsuccess, hfree,
      by simp, Or.inl ⟨rfl, hfree⟩⟩
  · rw [hout] at hsuccess ⊢
    exact ⟨numberedName name k, true, _, Prod.ext rfl (Prod.ext rfl hsuccess),
      plainName_numberedName hname k, Prod.ext rfl hsuccess, hfree, by simp [numberedName_ne],
      Or.inr ⟨proper_numberedName name k, rfl⟩⟩

theorem acquires_acquireUniqueName (hname : PlainName name) (hroom : HasRoom disk dir name)
    (hsuccess : (acquireUniqueName env disk dir name isDir).2.2 = true) :
    Acquires disk dir name isDir (acquireUniqueName env disk dir name isDir) := by
  have hwhich := acquireUniqueName_cases env isDir hname.1 hroom
  obtain ⟨result, form, disk', hout, hplain, hcreate, hfree, rfl, -⟩ :=
    exists_createEntry hname hroom hsuccess
  have hstands := stat_createEntry hplain hcreate
  rw [hout] at hwhich ⊢
  refine ⟨fun hown => ?_, fun hown => ?_, hfree, by simpa using hstands, (grows_createEntry hcreate).2⟩
  · rcases hwhich with ⟨-, hself⟩ | ⟨htaken, -⟩
    · exact congrArg Prod.fst hself
    · exact absurd (hown.symm.trans htaken) (by decide)
  · rcases hwhich with ⟨hvacant, -⟩ | ⟨-, k, hrange, hvacant, hbelow, hnumbered⟩
    · exact absurd (hown.symm.trans hvacant) (by decide)
    · exact ⟨k, hrange, congrArg Prod.fst hnumbered, hvacant, hbelow⟩

theorem enters_acquireUniqueName (hname : PlainName name) (hroom : HasRoom disk dir name)
    (hclear : Clear disk dir name isDir)
    (hsuccess : (acquireUniqueName env disk dir name isDir).2.2 = true) :
    Enters disk dir name isDir (acquireUniqueName env disk dir name isDir) := by
  obtain ⟨hlink, hdescends, hown⟩ := hclear
  obtain ⟨result, form, disk', hout, hplain, hcreate, hfree, hform, hkind⟩ :=
    exists_createEntry hname hroom hsuccess
  have hproper : StdPath.Proper result := by
    rcases hkind with ⟨rfl, -⟩ | ⟨hproper, -⟩
    · exact hown hfree
    · exact hproper
  have hnolink : form = false → disk.lstat (joinPath dir result) = none := by
    intro hfile
    rcases hkind with ⟨rfl, -⟩ | ⟨-, hdir⟩
    · exact hlink (by simpa [hform] using hfile) hfree
    · exact absurd (hfile.symm.trans hdir) (by decide)
  obtain ⟨middle, place, hentered⟩ := entered_createEntry hplain hproper hdescends hfree hnolink hcreate
  have hx : ∀ rooted (hops : List (Hop String)),
      (if form then Node.dir else Node.file ([] : List Byte)) ≠ .link rooted hops := by
    cases form <;> simp
  have hstart : disk'.start dir = disk.start dir := by
    rw [Disk.start, (grows_createEntry hcreate).1.cwd]
    rfl
  rw [hout]
  refine ⟨?_, ?_, fun other hother hotherProper hne => ?_, fun q hnone hsome => ?_⟩
  · rw [disk.lstat_joinPath dir hplain hproper, hentered.free]
  · rw [disk'.lstat_joinPath dir hplain hproper, hstart, hentered.placed hx, hform]
    simp
  · rw [disk'.lstat_joinPath dir hother hotherProper, hstart, hentered.others hx hne,
      disk.lstat_joinPath dir hother hotherProper]
  · refine ⟨result :: place, ?_, hentered.added hnone hsome⟩
    obtain ⟨m, -, hys⟩ := resolve_append (hentered.resolve hx)
    have hplaced := hentered.placed hx
    rw [child_of_found (hentered.resolve hx)] at hplaced
    have hdir := disk'.tree.above result place (by simp [hplaced])
    rw [disk'.resolve_joinPath dir hplain hproper, hstart, hys, resolve_down hdir hplaced hx, resolve_nil]

end Call

/-! ### Calls one after another -/

structure Acquisitions where
  disk : Disk
  results : List String := []

namespace Acquisitions

def step (dir : String) (s : Acquisitions) (event : AcquireCall × AcquireEnv) : Option Acquisitions :=
  let (result, disk, _) := event.1.serve event.2 s.disk dir
  some { disk := disk, results := result :: s.results }

variable {dir : String}

def Allows (dir : String) (s : Acquisitions) (event : AcquireCall × AcquireEnv) : Prop :=
  PlainName event.1.name ∧ (event.1.serve event.2 s.disk dir).2.2 = true ∧ HasRoom s.disk dir event.1.name

instance (s : Acquisitions) (event : AcquireCall × AcquireEnv) : Decidable (Allows dir s event) :=
  inferInstanceAs (Decidable (_ ∧ _ ∧ _))

structure Handed (dir : String) (s : Acquisitions) : Prop where
  nodup : s.results.Nodup
  stands : ∀ result ∈ s.results, s.disk.exist (joinPath dir result) = true

theorem acquires_serve {s : Acquisitions} {event : AcquireCall × AcquireEnv}
    (hallows : Allows dir s event) :
    Acquires s.disk dir event.1.name event.1.isDir (event.1.serve event.2 s.disk dir) := by
  obtain ⟨hname, hsuccess, hroom⟩ := hallows
  rw [AcquireCall.serve_eq] at hsuccess ⊢
  exact acquires_acquireUniqueName hname hroom hsuccess

theorem grows_serve {s : Acquisitions} {event : AcquireCall × AcquireEnv}
    (hallows : Allows dir s event) : s.disk.Grows (event.1.serve event.2 s.disk dir).2.1 := by
  obtain ⟨hname, hsuccess, hroom⟩ := hallows
  rw [AcquireCall.serve_eq] at hsuccess ⊢
  obtain ⟨result, form, disk', hout, -, hcreate, -⟩ := exists_createEntry hname hroom hsuccess
  rw [hout]
  exact (grows_createEntry hcreate).1

theorem handed_step {s s' : Acquisitions} {event : AcquireCall × AcquireEnv} (hhanded : Handed dir s)
    (hallows : Allows dir s event) (hstep : s.step dir event = some s') : Handed dir s' := by
  have hacquires := acquires_serve hallows
  have hgrows := grows_serve hallows
  rcases hserve : event.1.serve event.2 s.disk dir with ⟨acquired, disk', success⟩
  rw [hserve] at hacquires hgrows
  simp only [step, hserve, Option.some.injEq] at hstep
  subst hstep
  refine ⟨List.nodup_cons.mpr ⟨fun hmem => ?_, hhanded.nodup⟩, fun result hmem => ?_⟩
  · have hthere := hhanded.stands _ hmem
    exact absurd (hacquires.fresh.symm.trans hthere) (by decide)
  · rcases List.mem_cons.mp hmem with rfl | hold
    · exact hacquires.exist
    · exact hgrows.exist (hhanded.stands result hold)

end Acquisitions

/-- **Acquiring names**: on a directory with whatever content, links among it, as long as entries are created
and not all numbered candidates are taken, every call does what its contract promises, and no two calls get
the same name. -/
theorem acquires_of_reaches {dir : String} {disk : Disk} {s : Acquisitions}
    (hrun : Reaches (Acquisitions.step dir) (Acquisitions.Allows dir) { disk := disk } s) :
    s.results.Nodup ∧ ∀ call env, s.Allows dir (call, env) →
      Acquires s.disk dir call.name call.isDir (call.serve env s.disk dir) ∧
        (Clear s.disk dir call.name call.isDir →
          Enters s.disk dir call.name call.isDir (call.serve env s.disk dir)) := by
  have hhanded : s.Handed dir := by
    refine hrun.invariant (fun _ _ _ hinv hallows hstep => Acquisitions.handed_step hinv hallows hstep) ?_
    exact ⟨List.nodup_nil, fun _ hmem => absurd hmem List.not_mem_nil⟩
  refine ⟨hhanded.nodup, fun call env hallows => ⟨Acquisitions.acquires_serve hallows, fun hclear => ?_⟩⟩
  obtain ⟨hname, hsuccess, hroom⟩ := hallows
  rw [AcquireCall.serve_eq] at hsuccess ⊢
  exact enters_acquireUniqueName hname hroom hclear hsuccess

def withA : Disk where
  tree := (PathTree.empty.put [] "d" .dir).put ["d"] "a" (.file [1])

/-- The name, the same name again, and what that became: all numbered apart. -/
theorem acquires_of_reaches_withA :
    ∃ s : Acquisitions, s.results = ["a(1)(1)", "b", "a(2)", "a(1)"] ∧ s.results.Nodup ∧
      Acquires s.disk "/d" "a" false ((AcquireCall.unique "a" false).serve {} s.disk "/d") ∧
      Enters s.disk "/d" "a" false ((AcquireCall.unique "a" false).serve {} s.disk "/d") := by
  have hrun : (play (Acquisitions.step "/d") (Acquisitions.Allows "/d") { disk := withA }
      [(.unique "a" false, {}), (.wrapper "a", {}), (.unique "b" false, {}),
        (.wrapper "a(1)", {})]).map (fun s =>
          (s.results, decide (s.Allows "/d" (.unique "a" false, {})),
            decide (Clear s.disk "/d" "a" false))) =
      some (["a(1)(1)", "b", "a(2)", "a(1)"], true, true) := by
    decide +kernel
  obtain ⟨s, hplay, hout⟩ := Option.map_eq_some_iff.mp hrun
  simp only [Prod.mk.injEq, decide_eq_true_eq] at hout
  obtain ⟨hresults, hallows, hclear⟩ := hout
  have hspec := acquires_of_reaches (reaches_of_play hplay)
  exact ⟨s, hresults, hspec.1, (hspec.2 _ _ hallows).1, (hspec.2 _ _ hallows).2 hclear⟩

/-- A directory with a link `a` in it, to a name `b` that is missing. -/
def withDangling : Disk where
  tree := (PathTree.empty.put [] "d" .dir).put ["d"] "a" (.link false [.down "b"])

/-- A file is asked for under the link's name: the name is returned though the link is there, and another
entry of the directory is created. -/
theorem not_enters_withDangling :
    ∃ out : String × Disk × Bool, acquireUniqueName {} withDangling "/d" "a" false = out ∧
      out.2.2 = true ∧ HasRoom withDangling "/d" "a" ∧ out.1 = "a" ∧
      withDangling.lstat (joinPath "/d" out.1) = some (.link false [.down "b"]) ∧
      withDangling.lstat "/d/b" = none ∧ out.2.1.lstat "/d/b" = some (.file []) := by
  refine ⟨_, rfl, ?_⟩
  decide +kernel

end DownloadWrapper
