import DownloadWrapper.Lib.PathEntries
import DownloadWrapper.Utils.FileTree
import DownloadWrapper.Utils.StdPath

/-!
# The disk

A tree of directories, files and symbolic links, and the working directory. A path is resolved on it as the
operating system does: every filename but the last has to lead to a directory, links are followed, and `.`
and `..` are taken where the path has come to. So two spellings of a path meet.
-/

namespace DownloadWrapper

open PathTree

/-- A filename as a hop. The empty one stands behind a trailing separator. -/
def hopOf (name : String) : Hop String :=
  if name = "" ∨ name = "." then .stay else if name = ".." then .up else .down name

def hopsOf (path : String) : List (Hop String) := (StdPath.ofString path).filenames.map hopOf

structure Disk where
  tree : PathTree String (List Byte)
  cwd : List String := []

namespace Disk

/-- As many links are followed as the kernel follows. -/
def maxLinks : Nat := 40

def start (disk : Disk) (path : String) : List String := if isAbsolute path then [] else disk.cwd

def resolve (disk : Disk) (path : String) : Resolved String :=
  if path = "" then .lost else disk.tree.resolve maxLinks (disk.start path) (hopsOf path)

/-- `exists`: links are followed, and one that leads nowhere does not exist. -/
def exist (disk : Disk) (path : String) : Bool :=
  match disk.resolve path with
  | .found _ => true
  | _ => false

/-- `status`. -/
def stat (disk : Disk) (path : String) : Option (Node String (List Byte)) :=
  match disk.resolve path with
  | .found place => disk.tree.node place
  | _ => none

/-- `symlink_status`: a link that the path ends in is not followed. -/
def lstat (disk : Disk) (path : String) : Option (Node String (List Byte)) :=
  match (hopsOf path).getLast? with
  | some (.down name) => disk.tree.child maxLinks (disk.start path) (hopsOf path).dropLast name
  | _ => disk.stat path

/-- `create_directories`. The empty path is refused. -/
def createDirectories (disk : Disk) (path : String) : Disk × Option Bool :=
  if path = "" then (disk, none)
  else
    let (tree, made) := makeDirs maxLinks (disk.start path) disk.tree [] (hopsOf path) false
    ({ tree := tree, cwd := disk.cwd }, made)

/-- An existing file is opened as it is; a missing one is created, also at the end of a link. -/
def openFile (disk : Disk) (path : String) (create granted : Bool) : Option Disk :=
  match disk.resolve path with
  | .found place => if disk.tree.holds place && granted then some disk else none
  | .absent place name [] =>
      if create && granted then
        some { tree := disk.tree.put place name (.file []), cwd := disk.cwd }
      else none
  | _ => none

/-- `resize_file`. -/
def truncate (disk : Disk) (path : String) (size : Nat) : Disk :=
  match disk.resolve path with
  | .found place =>
      match disk.tree.node place with
      | some (.file bytes) =>
          { tree := disk.tree.write place (ByteFile.resize bytes size), cwd := disk.cwd }
      | _ => disk
  | _ => disk

instance : FileSystem Disk where
  exist := exist
  createDirectories := createDirectories
  openFile := openFile
  truncate := truncate

@[simp] theorem exist_eq (disk : Disk) (path : String) : FileSystem.exist disk path = disk.exist path := rfl

@[simp] theorem createDirectories_eq (disk : Disk) (path : String) :
    FileSystem.createDirectories disk path = disk.createDirectories path := rfl

@[simp] theorem openFile_eq (disk : Disk) (path : String) (create granted : Bool) :
    FileSystem.openFile disk path create granted = disk.openFile path create granted := rfl

@[simp] theorem truncate_eq (disk : Disk) (path : String) (size : Nat) :
    FileSystem.truncate disk path size = disk.truncate path size := rfl

end Disk

/-! ### Paths as hops -/

section Hops

def chunks (cs : List Char) : List (List Char) := (cs.splitOn '/').filter (· ≠ [])

theorem splitOn_slash (front back : List Char) :
    (front ++ '/' :: back).splitOn '/' = front.splitOn '/' ++ back.splitOn '/' := by
  rw [List.splitOn_eq_splitOnP, List.splitOnP_append_cons _ _ (by decide)]
  rfl

theorem splitOn_of_not_mem {piece : List Char} (h : '/' ∉ piece) : piece.splitOn '/' = [piece] := by
  rw [List.splitOn_eq_splitOnP, List.splitOnP_eq_singleton]
  intro c hc
  rw [beq_eq_false_iff_ne]
  rintro rfl
  exact h hc

theorem chunks_slash (front back : List Char) : chunks (front ++ '/' :: back) = chunks front ++ chunks back := by
  rw [chunks, splitOn_slash, List.filter_append]
  rfl

theorem chunks_concat_slash (front : List Char) : chunks (front ++ ['/']) = chunks front := by
  rw [chunks_slash]
  exact List.append_nil _

theorem filenames_ofString (s : String) :
    (StdPath.ofString s).filenames = (chunks s.toList).map String.ofList ++
      if chunks s.toList ≠ [] ∧ (s.toList.splitOn '/').getLast? = some [] then [""] else [] := by
  have hnames : (StdPath.ofString s).filenames =
      if (chunks s.toList).map String.ofList ≠ [] ∧ (s.toList.splitOn '/').getLast? = some [] then
        (chunks s.toList).map String.ofList ++ [""]
      else (chunks s.toList).map String.ofList := rfl
  rw [hnames]
  by_cases htrails : chunks s.toList ≠ [] ∧ (s.toList.splitOn '/').getLast? = some []
  · rw [if_pos htrails, if_pos ⟨by simpa using htrails.1, htrails.2⟩]
  · rw [if_neg htrails, if_neg fun h => htrails ⟨by simpa using h.1, h.2⟩, List.append_nil]

/-- The hops of a directory's path, whether or not a separator ends it. -/
def dirHops (dir : String) : List (Hop String) := (chunks dir.toList).map fun piece => hopOf (String.ofList piece)

theorem hopsOf_eq (path : String) :
    hopsOf path = dirHops path ++
      if chunks path.toList ≠ [] ∧ (path.toList.splitOn '/').getLast? = some [] then [.stay] else [] := by
  rw [hopsOf, filenames_ofString, List.map_append, List.map_map, dirHops]
  congr 1
  split <;> rfl

theorem chunks_ne_nil {cs : List Char} (hne : cs ≠ []) (hhead : cs.head? ≠ some '/') : chunks cs ≠ [] := by
  by_cases hslash : '/' ∈ cs
  · obtain ⟨front, back, rfl, hfront⟩ := List.eq_append_cons_of_mem hslash
    have hpiece : front ≠ [] := by
      rintro rfl
      exact hhead rfl
    rw [chunks_slash, chunks, splitOn_of_not_mem hfront]
    simp [hpiece]
  · rw [chunks, splitOn_of_not_mem hslash]
    simp [hne]

theorem joinPath_cases (dir : String) {name : String} (hrelative : isAbsolute name = false) :
    (dir = "" ∧ joinPath dir name = name) ∨
      (∃ front, dir.toList = front ++ ['/'] ∧ (joinPath dir name).toList = front ++ '/' :: name.toList) ∨
      (dir ≠ "" ∧ (joinPath dir name).toList = dir.toList ++ '/' :: name.toList) := by
  have hhead : name.toList.head? ≠ some '/' := by simpa [isAbsolute] using hrelative
  by_cases hempty : dir = ""
  · exact Or.inl ⟨hempty, by rw [joinPath, if_pos (Or.inr hempty)]⟩
  by_cases hlast : dir.toList.getLast? = some '/'
  · obtain ⟨front, hfront⟩ := List.getLast?_eq_some_iff.mp hlast
    refine Or.inr (Or.inl ⟨front, hfront, ?_⟩)
    rw [joinPath, if_neg (by simp [hhead, hempty]), if_pos hlast, String.toList_append, hfront]
    simp
  · refine Or.inr (Or.inr ⟨hempty, ?_⟩)
    rw [joinPath, if_neg (by simp [hhead, hempty]), if_neg hlast]
    simp [String.toList_append]

/-- **A relative path goes on from the directory it is appended to.** -/
theorem hopsOf_joinPath (dir : String) {name : String} (hrelative : isAbsolute name = false)
    (hne : name ≠ "") : hopsOf (joinPath dir name) = dirHops dir ++ hopsOf name := by
  have hname : chunks name.toList ≠ [] :=
    chunks_ne_nil (by simpa using hne) (by simpa [isAbsolute] using hrelative)
  have hjoined : ∀ front, chunks front = chunks dir.toList →
      (joinPath dir name).toList = front ++ '/' :: name.toList →
      hopsOf (joinPath dir name) = dirHops dir ++ hopsOf name := by
    intro front hfront htext
    have hlast : ((front ++ '/' :: name.toList).splitOn '/').getLast? =
        (name.toList.splitOn '/').getLast? := by
      rw [splitOn_slash]
      exact List.getLast?_append_of_ne_nil _ (List.splitOn_ne_nil _ _)
    have hchunks : chunks (front ++ '/' :: name.toList) ≠ [] := by
      rw [chunks_slash]
      exact List.append_ne_nil_of_right_ne_nil _ hname
    rw [hopsOf_eq, hopsOf_eq, dirHops, htext, hlast, if_congr (and_iff_right hchunks) rfl rfl,
      if_congr (and_iff_right hname) rfl rfl, chunks_slash, List.map_append, hfront, List.append_assoc]
    rfl
  rcases joinPath_cases dir hrelative with ⟨rfl, hself⟩ | ⟨front, hdir, htext⟩ | ⟨-, htext⟩
  · rw [hself]
    rfl
  · refine hjoined front ?_ htext
    rw [hdir, chunks_concat_slash]
  · exact hjoined dir.toList rfl htext

theorem isAbsolute_joinPath (dir : String) {name : String} (hrelative : isAbsolute name = false) :
    isAbsolute (joinPath dir name) = isAbsolute dir := by
  rcases joinPath_cases dir hrelative with ⟨rfl, hself⟩ | ⟨front, hdir, htext⟩ | ⟨hne, htext⟩
  · rw [hself, hrelative]
    rfl
  · rw [isAbsolute, isAbsolute, htext, hdir]
    cases front <;> rfl
  · rw [isAbsolute, isAbsolute, htext, List.head?_append_of_ne_nil _ (by simpa using hne)]

theorem getLast?_splitOn_ne {cs : List Char} (hne : cs ≠ []) (hlast : cs.getLast? ≠ some '/') :
    (cs.splitOn '/').getLast? ≠ some [] := by
  by_cases hslash : '/' ∈ cs.reverse
  · obtain ⟨back, front, hcs, hback⟩ := List.eq_append_cons_of_mem hslash
    obtain rfl : cs = front.reverse ++ '/' :: back.reverse := by
      rw [← List.reverse_reverse cs, hcs]
      simp
    have hpiece : back.reverse.splitOn '/' = [back.reverse] := splitOn_of_not_mem (by simpa using hback)
    rw [splitOn_slash, hpiece, List.getLast?_concat]
    intro hnil
    obtain rfl : back = [] := by simpa using hnil
    exact hlast (by simp)
  · rw [splitOn_of_not_mem (by simpa using hslash)]
    simpa using hne

theorem hopsOf_of_closed {path : String} (h : ClosedPath path) : hopsOf path = dirHops path := by
  have hends := getLast?_splitOn_ne (by simpa using h.1) h.2
  rw [hopsOf_eq, if_neg fun htrails => hends htrails.2, List.append_nil]

theorem hopsOf_plain {name : String} (h : PlainName name) : hopsOf name = [hopOf name] := by
  have hlast : name.toList.getLast? ≠ some '/' := fun hslash => h.2 (List.mem_of_getLast? hslash)
  have hne : name.toList ≠ [] := by simpa using h.1
  rw [hopsOf_of_closed ⟨h.1, hlast⟩, dirHops, chunks, splitOn_of_not_mem h.2]
  simp [hne]

theorem PlainName.relative {name : String} (h : PlainName name) : isAbsolute name = false := by
  simpa [isAbsolute] using h.head_ne

theorem hopsOf_joinPath_plain (dir : String) {name : String} (h : PlainName name) :
    hopsOf (joinPath dir name) = dirHops dir ++ [hopOf name] := by
  rw [hopsOf_joinPath dir h.relative h.1, hopsOf_plain h]

theorem hopOf_of_proper {name : String} (h : StdPath.Proper name) : hopOf name = .down name := by
  rw [hopOf, if_neg (not_or.mpr ⟨h.1, h.2.1⟩), if_neg h.2.2]

theorem chunks_dropWhile (cs : List Char) :
    chunks (cs.dropWhile (· = '/')).reverse = chunks cs.reverse := by
  induction cs with
  | nil => rfl
  | cons c cs ih =>
      rw [List.dropWhile_cons]
      split
      next hslash =>
        obtain rfl : c = '/' := by simpa using hslash
        rw [ih, List.reverse_cons, chunks_concat_slash]
      next => rfl

theorem hopsOf_parentPath (dir : String) {name : String} (h : PlainName name) :
    hopsOf (parentPath (joinPath dir name)) = dirHops dir := by
  have hparent : ∀ front, (front = [] ∨ front.getLast? = some '/') → chunks front = chunks dir.toList →
      (joinPath dir name).toList = front ++ name.toList →
      hopsOf (parentPath (joinPath dir name)) = dirHops dir := by
    intro front hclosed hfront htext
    rw [parentPath, htext, dropWhile_reverse_segment hclosed h.2]
    have hchunks := chunks_dropWhile front.reverse
    rw [List.reverse_reverse, hfront] at hchunks
    split
    next hroot =>
      rw [hroot.2] at hchunks
      rw [dirHops, ← hchunks]
      rfl
    next hroot =>
      generalize hcore : (front.reverse.dropWhile (· = '/')).reverse = core at hchunks hroot ⊢
      rw [dirHops, ← hchunks]
      by_cases hnil : core = []
      · subst hnil
        rfl
      · have hlast : core.getLast? ≠ some '/' := by
          rw [← hcore, List.getLast?_reverse]
          intro hhead
          have hkept := List.head?_dropWhile_not (· = '/') front.reverse
          rw [hhead] at hkept
          simp at hkept
        have hclosedPath : ClosedPath (String.ofList core) := by
          refine ⟨fun hempty => hnil ?_, by rwa [String.toList_ofList]⟩
          simpa using congrArg String.toList hempty
        rw [hopsOf_of_closed hclosedPath, dirHops, String.toList_ofList]
  rcases joinPath_cases dir h.relative with ⟨rfl, hself⟩ | ⟨front, hdir, htext⟩ | ⟨-, htext⟩
  · exact hparent [] (Or.inl rfl) rfl (by rw [hself]; rfl)
  · refine hparent dir.toList (Or.inr (by simp [hdir])) rfl ?_
    rw [htext, hdir]
    simp
  · refine hparent (dir.toList ++ ['/']) (Or.inr (by simp)) (chunks_concat_slash _) ?_
    rw [htext]
    simp

theorem isAbsolute_parentPath (path : String) : isAbsolute (parentPath path) = isAbsolute path := by
  obtain ⟨before, hbefore⟩ : ∃ before, path.toList.reverse.dropWhile (· ≠ '/') = before := ⟨_, rfl⟩
  obtain ⟨core, hcore⟩ : ∃ core, before.dropWhile (· = '/') = core := ⟨_, rfl⟩
  have hpath : path.toList = before.reverse ++ (path.toList.reverse.takeWhile (· ≠ '/')).reverse := by
    rw [← List.reverse_append, ← hbefore, List.takeWhile_append_dropWhile, List.reverse_reverse]
  have hsplit : before.reverse = core.reverse ++ (before.takeWhile (· = '/')).reverse := by
    rw [← List.reverse_append, ← hcore, List.takeWhile_append_dropWhile]
  rw [parentPath, hbefore]
  simp only [hcore]
  by_cases hnil : core = []
  · by_cases hbeforeNil : before = []
    · have hnone : '/' ∉ path.toList.reverse := by
        intro hmem
        have hall := List.dropWhile_eq_nil_iff.mp (hbefore.trans hbeforeNil) _ hmem
        simp at hall
      rw [if_neg fun h => h.1 hbeforeNil, hnil, isAbsolute, isAbsolute, String.toList_ofList]
      cases htext : path.toList with
      | nil => rfl
      | cons c cs =>
          have hc : c ≠ '/' := by
            rintro rfl
            exact hnone (by simp [htext])
          simp [hc]
    · have hall := List.dropWhile_eq_nil_iff.mp (hcore.trans hnil)
      have hhead : before.reverse.head? = some '/' := by
        obtain ⟨c, hc⟩ := Option.ne_none_iff_exists'.mp
          (fun h => hbeforeNil (List.reverse_eq_nil_iff.mp (List.head?_eq_none_iff.mp h)))
        have hslash := hall c (List.mem_reverse.mp (List.mem_of_head? hc))
        rw [hc, of_decide_eq_true hslash]
      rw [if_pos ⟨hbeforeNil, by rw [hnil]; rfl⟩, isAbsolute, isAbsolute, hpath,
        List.head?_append_of_ne_nil _ (by simpa using hbeforeNil), hhead]
      rfl
  · have hne : core.reverse ≠ [] := by simpa using hnil
    rw [if_neg fun h => hne h.2, isAbsolute, isAbsolute, String.toList_ofList, hpath, hsplit,
      List.append_assoc, List.head?_append_of_ne_nil _ hne]

end Hops

/-! ### What the operations leave -/

namespace Disk

variable {disk disk' : Disk} {path : String}

theorem start_joinPath (disk : Disk) (dir : String) {name : String} (hrelative : isAbsolute name = false) :
    disk.start (joinPath dir name) = disk.start dir := by
  rw [start, start, isAbsolute_joinPath dir hrelative]

theorem exist_iff : disk.exist path = true ↔ ∃ place, disk.resolve path = .found place := by
  rw [exist]
  split
  next place h => simp [h]
  next hother => simpa using hother

theorem exist_of_stat (h : disk.stat path ≠ none) : disk.exist path = true := by
  rw [stat] at h
  split at h
  next place hplace => exact exist_iff.mpr ⟨place, hplace⟩
  next => exact absurd rfl h

theorem resolve_eq (disk : Disk) (hne : path ≠ "") :
    disk.resolve path = disk.tree.resolve maxLinks (disk.start path) (hopsOf path) := by
  rw [resolve, if_neg hne]

theorem stands_of_resolve {place : List String} (hhops : hopsOf path ≠ [])
    (h : disk.resolve path = .found place) : disk.tree.node place ≠ none := by
  rw [resolve] at h
  split at h
  · cases h
  · exact stands_of_found_of_ne_nil h hhops

theorem exist_of_below {name : String} (hdir : ClosedPath path) (hrelative : isAbsolute name = false)
    (hne : name ≠ "") (h : disk.exist (joinPath path name) = true) : disk.exist path = true := by
  obtain ⟨place, hplace⟩ := exist_iff.mp h
  rw [disk.resolve_eq (joinPath_ne_empty path hne), hopsOf_joinPath path hrelative hne,
    disk.start_joinPath path hrelative] at hplace
  obtain ⟨middle, hmiddle⟩ := resolve_of_append hplace
  refine exist_iff.mpr ⟨middle, ?_⟩
  rw [disk.resolve_eq hdir.1, hopsOf_of_closed hdir, hmiddle]

theorem createDirectories_of_ne (disk : Disk) (hne : path ≠ "") :
    disk.createDirectories path =
      ({ tree := (makeDirs maxLinks (disk.start path) disk.tree [] (hopsOf path) false).1, cwd := disk.cwd },
        (makeDirs maxLinks (disk.start path) disk.tree [] (hopsOf path) false).2) := by
  rw [createDirectories, if_neg hne]

/-- The later disk has what the earlier one has, and no new links. -/
structure Grows (disk disk' : Disk) : Prop where
  tree : PathTree.Grows disk.tree disk'.tree
  cwd : disk'.cwd = disk.cwd

theorem Grows.refl (disk : Disk) : Grows disk disk := ⟨.refl disk.tree, rfl⟩

theorem Grows.trans {disk'' : Disk} (h : Grows disk disk') (h' : Grows disk' disk'') : Grows disk disk'' :=
  ⟨h.tree.trans h'.tree, h'.cwd.trans h.cwd⟩

theorem Grows.found (h : Grows disk disk') {place : List String} (hfound : disk.resolve path = .found place) :
    disk'.resolve path = .found place := by
  rw [resolve] at hfound ⊢
  split at hfound
  · cases hfound
  next hne =>
    rw [if_neg hne, start, h.cwd]
    exact h.tree.found hfound

theorem Grows.exist (h : Grows disk disk') (hthere : disk.exist path = true) : disk'.exist path = true := by
  obtain ⟨place, hplace⟩ := exist_iff.mp hthere
  exact exist_iff.mpr ⟨place, h.found hplace⟩

theorem grows_createDirectories (disk : Disk) (path : String) :
    Grows disk (disk.createDirectories path).1 := by
  by_cases hempty : path = ""
  · rw [createDirectories, if_pos hempty]
    exact .refl disk
  · rw [createDirectories_of_ne disk hempty]
    exact ⟨grows_makeDirs .., rfl⟩

theorem openFile_cases {create granted : Bool} (h : disk.openFile path create granted = some disk') :
    (∃ place bytes, disk.resolve path = .found place ∧ disk.tree.node place = some (.file bytes) ∧
        disk' = disk) ∨
      ∃ place name, disk.resolve path = .absent place name [] ∧
        disk' = { tree := disk.tree.put place name (.file []), cwd := disk.cwd } := by
  rw [openFile] at h
  split at h
  next place hfound =>
    rw [Option.ite_none_right_eq_some, Bool.and_eq_true] at h
    obtain ⟨bytes, hbytes⟩ := holds_iff.mp h.1.1
    exact Or.inl ⟨place, bytes, hfound, hbytes, (Option.some.inj h.2).symm⟩
  next place name habsent =>
    rw [Option.ite_none_right_eq_some] at h
    exact Or.inr ⟨place, name, habsent, (Option.some.inj h.2).symm⟩
  · cases h

theorem grows_openFile {create granted : Bool} (h : disk.openFile path create granted = some disk') :
    Grows disk disk' := by
  rcases openFile_cases h with ⟨-, -, -, -, rfl⟩ | ⟨place, name, -, rfl⟩
  · exact .refl disk'
  · exact ⟨grows_put _ _ _ (by simp), rfl⟩

theorem grows_truncate (disk : Disk) (path : String) (size : Nat) : Grows disk (disk.truncate path size) := by
  rw [truncate]
  split
  · split
    · exact ⟨grows_write .., rfl⟩
    · exact .refl disk
  · exact .refl disk

/-- Nothing that was there is another after directories are made or a file is opened. -/
theorem extends_createDirectories (disk : Disk) (path : String) :
    Extends disk.tree (disk.createDirectories path).1.tree := by
  by_cases hempty : path = ""
  · rw [createDirectories, if_pos hempty]
    exact fun _ _ h => h
  · rw [createDirectories_of_ne disk hempty]
    exact extends_makeDirs maxLinks (disk.start path) disk.tree [] (hopsOf path) false

theorem extends_openFile {create granted : Bool} (h : disk.openFile path create granted = some disk') :
    Extends disk.tree disk'.tree := by
  rcases openFile_cases h with ⟨-, -, -, -, rfl⟩ | ⟨place, name, -, rfl⟩
  · exact fun _ _ hx => hx
  · exact extends_put disk.tree place name (.file [])

theorem stat_openFile {create granted : Bool} (h : disk.openFile path create granted = some disk') :
    ∃ bytes, disk'.stat path = some (.file bytes) := by
  rcases openFile_cases h with ⟨place, bytes, hfound, hbytes, rfl⟩ | ⟨place, name, habsent, rfl⟩
  · exact ⟨bytes, by rw [stat, hfound]; exact hbytes⟩
  · have hne : path ≠ "" := by
      rintro rfl
      rw [resolve, if_pos rfl] at habsent
      cases habsent
    rw [resolve_eq disk hne] at habsent
    have hlacks := lacks_iff.mpr (absent_spec habsent)
    have hfound := resolve_put_of_absent habsent (x := .file ([] : List Byte)) (by simp)
    refine ⟨[], ?_⟩
    rw [stat, resolve_eq _ hne]
    simp only [start] at hfound ⊢
    rw [hfound]
    simp only
    rw [node_put hlacks, Function.update_self]

theorem stat_createDirectories {made : Bool} (h : disk.createDirectories path = (disk', some made))
    (hhops : hopsOf path ≠ []) : disk'.stat path = some .dir := by
  by_cases hempty : path = ""
  · rw [createDirectories, if_pos hempty] at h
    cases h
  rw [createDirectories_of_ne disk hempty] at h
  obtain ⟨rfl, hmade⟩ := Prod.mk.inj h
  obtain ⟨place, hplace, hdir⟩ :=
    leadsToDir_iff.mp (leadsToDir_makeDirs (Or.inr hhops) (Prod.ext rfl hmade))
  rw [stat, resolve, if_neg hempty]
  simp only [start] at hplace ⊢
  rw [List.nil_append] at hplace
  rw [hplace]
  exact hdir

/-- **A directory that was made is new**: nothing existed under its path, and it has nothing in it. -/
theorem made_spec {dir name : String} (hname : PlainName name) (hproper : StdPath.Proper name)
    (h : disk.createDirectories (joinPath dir name) = (disk', some true)) :
    disk.exist (joinPath dir name) = false ∧
      ∃ place, disk'.resolve (joinPath dir name) = .found place ∧ disk.tree.node place = none ∧
        disk'.tree.node place ≠ none ∧ disk'.tree.Unlinked place := by
  have hne := joinPath_ne_empty dir hname.1
  have hhops : hopsOf (joinPath dir name) = dirHops dir ++ [.down name] := by
    rw [hopsOf_joinPath_plain dir hname, hopOf_of_proper hproper]
  have hgrows := disk.grows_createDirectories (joinPath dir name)
  rw [h] at hgrows
  rw [disk.createDirectories_of_ne hne, hhops] at h
  obtain ⟨htree, hmade⟩ := Prod.mk.inj h
  obtain ⟨place, hplace, hnew, hdir, hempty⟩ := makeDirs_made (Prod.ext (congrArg Disk.tree htree) hmade)
  have hfound : disk'.resolve (joinPath dir name) = .found place := by
    rw [disk'.resolve_eq hne, hhops, start, hgrows.cwd]
    exact hplace
  refine ⟨?_, place, hfound, hnew, by simp [hdir], unlinked_of_empty hdir hempty⟩
  by_contra hexists
  obtain ⟨old, hold⟩ := exist_iff.mp (by simpa using hexists)
  obtain rfl : old = place := Resolved.found.inj ((hgrows.found hold).symm.trans hfound)
  exact stands_of_resolve (by simp [hhops]) hold hnew

end Disk

end DownloadWrapper
