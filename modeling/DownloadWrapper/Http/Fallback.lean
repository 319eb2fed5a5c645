import DownloadWrapper.Http.Frame
import DownloadWrapper.Utils.Acquisition
import DownloadWrapper.Utils.LexicalPath

/-!
# A restart that has lost its file

An archive whose file cannot be opened is dropped, and with it the file's name: the download is probed
and named as if it were new. The wrapper directory of the lost file stands in the way of its own name,
so only the time stamp, which nobody checks, can lead back to it.
-/

namespace DownloadWrapper

open Transition TaskCtx

/-- The file at `path` is all that differs between two disks; the empty path is none. -/
structure OnlyFile (path : String) (fs fs' : Fs) : Prop where
  dirs : ∀ p, p ≠ "" → (fs' p = some .dir ↔ fs p = some .dir)
  files : ∀ p, p ≠ path → fs'.bytes? p = fs.bytes? p

namespace OnlyFile

variable {path : String} {fs fs' fs'' : Fs}

theorem refl (path : String) (fs : Fs) : OnlyFile path fs fs :=
  ⟨fun _ _ => Iff.rfl, fun _ _ => rfl⟩

theorem trans (h : OnlyFile path fs fs') (h' : OnlyFile path fs' fs'') : OnlyFile path fs fs'' where
  dirs p hp := (h'.dirs p hp).trans (h.dirs p hp)
  files p hp := (h'.files p hp).trans (h.files p hp)

theorem symm (h : OnlyFile path fs fs') : OnlyFile path fs' fs where
  dirs p hp := (h.dirs p hp).symm
  files p hp := (h.files p hp).symm

theorem update {bytes : List Byte} (hfile : fs path ≠ some .dir) :
    OnlyFile path fs (Function.update fs path (some (.file bytes))) where
  dirs p hp := by
    by_cases hself : p = path
    · subst hself
      simp [hfile]
    · rw [Function.update_of_ne hself]
  files p hp := by
    simp only [Fs.bytes?, Function.update_of_ne hp]

theorem openFile {create granted : Bool} (h : fs.openFile path create granted = some fs') :
    OnlyFile path fs fs' := by
  simp only [Fs.openFile] at h
  split at h
  · obtain ⟨-, heq⟩ := (Option.ite_none_right_eq_some).mp h
    exact Option.some.inj heq ▸ .refl path fs
  · cases h
  next hnone =>
    obtain ⟨-, heq⟩ := (Option.ite_none_right_eq_some).mp h
    obtain rfl := Option.some.inj heq
    exact update (by simp [hnone])

theorem truncate (path : String) (fs : Fs) (size : Nat) : OnlyFile path fs (fs.truncate path size) := by
  rw [Fs.truncate]
  split
  next hfile => exact update (by simp [hfile])
  next => exact .refl path fs

theorem pwrite (path : String) (fs : Fs) (off : Nat) (data : List Byte) :
    OnlyFile path fs (fs.pwrite path off data) := by
  rw [Fs.pwrite]
  split
  next hfile => exact update (by simp [hfile])
  next => exact .refl path fs

end OnlyFile

theorem onlyFile_createDirectories {path target : String} {fs : Fs} (hgrounded : fs.Grounded)
    (hthere : fs.exist target = true) : OnlyFile path fs (fs.createDirectories target) where
  dirs p hp := by
    simp only [Fs.createDirectories]
    cases hentry : fs p with
    | some entry => rfl
    | none =>
        have hbeside : Fs.isAncestorOrSelf p target = false := by
          rw [Bool.eq_false_iff]
          intro habove
          have hthere' := hgrounded target p hthere habove hp
          rw [Fs.exist, hentry] at hthere'
          cases hthere'
        simp [hbeside]
  files p hp := Fs.bytes?_createDirectories fs target p

/-- The directory of `path` stands, so making the file at `path` reaches nothing else. -/
theorem onlyFile_createTarget (env : ProbeEnv) {fs : Fs} {path : String} (total : Int)
    (hthere : fs.exist (parentPath path) = true) :
    OnlyFile path fs (createTarget env fs path total).2 := by
  have hdir : (if parentPath path = "" then some fs
      else mkdirRecursive fs (parentPath path) env.mkdirOk) = some fs := by
    split
    · rfl
    next hne => rw [mkdirRecursive, if_neg hne, if_pos hthere]
  simp only [createTarget, hdir]
  cases hopen : fs.openFile path true env.openOk with
  | none => exact .refl path fs
  | some fs' =>
      have hopened := OnlyFile.openFile hopen
      simp only
      split
      · exact hopened
      split
      · exact hopened.trans (.truncate path fs' _)
      · exact hopened

theorem isAncestorOrSelf_parentPath_joinPath {dir name : String} (hdir : ClosedPath dir)
    (hname : name ≠ "") (hrelative : isAbsolute name = false) :
    Fs.isAncestorOrSelf dir (parentPath (joinPath dir name)) = true := by
  by_cases hslash : '/' ∈ name.toList
  · have hhead : name.toList.head? ≠ some '/' := by simpa [isAbsolute] using hrelative
    have hpath : (joinPath dir name).toList = dir.toList ++ '/' :: name.toList := by
      rw [joinPath, if_neg (not_or.mpr ⟨hhead, hdir.1⟩), if_neg hdir.2]
      simp [String.toList_append]
    -- the name: its first character, and the last separator behind it
    obtain ⟨c, rest, hname'⟩ := List.exists_cons_of_ne_nil (List.ne_nil_of_mem hslash)
    have hc : c ≠ '/' := by
      rintro rfl
      exact hhead (by rw [hname']; rfl)
    have hrest : '/' ∈ rest.reverse := by
      rw [hname', List.mem_cons] at hslash
      exact List.mem_reverse.mpr (hslash.resolve_left (Ne.symm hc))
    obtain ⟨last, mid, hsplit, hlast⟩ := List.eq_append_cons_of_mem hrest
    have hbefore : (joinPath dir name).toList.reverse.dropWhile (· ≠ '/') =
        ('/' :: mid) ++ c :: '/' :: dir.toList.reverse := by
      have hwhole : (joinPath dir name).toList =
          ((dir.toList ++ '/' :: c :: mid.reverse) ++ ['/']) ++ last.reverse := by
        rw [hpath, hname', ← List.reverse_reverse rest, hsplit]
        simp
      rw [hwhole, dropWhile_reverse_segment (Or.inr List.getLast?_concat) (by simpa using hlast)]
      simp
    have hkept : ∃ kept, (('/' :: mid) ++ c :: '/' :: dir.toList.reverse).dropWhile (· = '/') =
        kept ++ c :: '/' :: dir.toList.reverse := by
      rw [List.dropWhile_append]
      split
      · exact ⟨[], List.dropWhile_cons_of_neg (by simpa using hc)⟩
      · exact ⟨_, rfl⟩
    obtain ⟨kept, hkept⟩ := hkept
    rw [parentPath]
    simp only [hbefore, hkept]
    rw [if_neg (by simp)]
    simp only [Fs.isAncestorOrSelf, Bool.or_eq_true, List.isPrefixOf_iff_prefix]
    exact Or.inr ⟨c :: kept.reverse, by simp⟩
  · rw [parentPath_joinPath hdir ⟨hname, hslash⟩]
    simp [Fs.isAncestorOrSelf]

/-! ### The name -/

/-- The name and all its numbers are taken. -/
def exhausted (fs : Fs) (dir name : String) : Bool :=
  fs.exist (joinPath dir name) && (firstFree fs dir name 9999 1).isNone

def stampedName (env : AcquireEnv) (name : String) : String := name ++ "_" ++ toString env.nowMs

section Acquire

variable {fs : Fs} {dir name : String} (env : AcquireEnv)

theorem acquireWrapperName_of_exhausted (hname : name ≠ "") (hnone : exhausted fs dir name = true) :
    acquireWrapperName env fs dir name =
      (stampedName env name, createEntry env fs (joinPath dir (stampedName env name)) true) := by
  simp only [exhausted, Bool.and_eq_true, Option.isNone_iff_eq_none] at hnone
  rw [acquireWrapperName, acquireUniqueName, if_neg hname, if_neg (by simp [hnone.1]), hnone.2]
  rfl

theorem acquireWrapperName_of_room (hname : name ≠ "") (hroom : exhausted fs dir name = false) :
    ∃ unique, (unique = name ∨ ∃ n, unique = numberedName name n) ∧
      fs.exist (joinPath dir unique) = false ∧
        acquireWrapperName env fs dir name =
          (unique, createEntry env fs (joinPath dir unique) true) := by
  rw [acquireWrapperName, acquireUniqueName, if_neg hname, Fs.exist_eq]
  split
  next hfree => exact ⟨name, Or.inl rfl, by simpa using hfree, rfl⟩
  next htaken =>
    cases hfirst : firstFree fs dir name 9999 1 with
    | none =>
        rw [not_not] at htaken
        rw [exhausted, htaken, hfirst] at hroom
        cases hroom
    | some n => exact ⟨_, Or.inr ⟨n, rfl⟩, (firstFree_eq_some_iff.mp hfirst).2.1, rfl⟩

theorem onlyFile_createEntry {path target : String} (hgrounded : fs.Grounded)
    (hmade : env.createOk = true → fs.exist target = true) :
    OnlyFile path fs (createEntry env fs target true).1 := by
  rw [createEntry_dir]
  split
  next hcreate => exact onlyFile_createDirectories hgrounded (hmade hcreate)
  next => exact .refl path fs

theorem grows_createEntry_dir (target : String) : fs.Grows (createEntry env fs target true).1 := by
  rw [createEntry_dir]
  split
  · exact Fs.grows_createDirectories fs target
  · exact .refl fs

end Acquire

/-- The disk a restart finds: the wrapper directory of the stored file's path stands. -/
structure Standing (path : String) where
  fs : Fs
  grounded : fs.Grounded
  file : path.toList.getLast? ≠ some '/'
  wrapper : fs (parentPath path) = some .dir

def probedName (urlLib : UrlLib) (t : TaskCtx) : String :=
  let name := if t.filename = "" then extractFilenameFromUrl urlLib t.url else t.filename
  if name = "" then "download" else name

theorem probedName_eq (urlLib : UrlLib) (t : TaskCtx) (i : Nat) :
    (t.settleProbe urlLib i).filename = probedName urlLib t := rfl

theorem probedName_ne_empty (urlLib : UrlLib) (t : TaskCtx) : probedName urlLib t ≠ "" :=
  filename_settleProbe_ne_empty urlLib t 0

/-- Under the name `raw` the download comes back to `path`: the wrapper name it leads to and all its
numbers are taken, and the time stamp makes the name of the old wrapper; or the name is all of `path`.
Either way there must be nothing to make. -/
def ComesBack (env : AcquireEnv) (fs : Fs) (dir raw path : String) : Prop :=
  let stamped := joinPath dir (stampedName env (stripExtension raw))
  if exhausted fs dir (stripExtension raw) = true then
    joinPath stamped raw = path ∧ (env.createOk = true → fs.exist stamped = true)
  else isAbsolute raw = true ∧ raw = path ∧ env.createOk = false

instance (env : AcquireEnv) (fs : Fs) (dir raw path : String) :
    Decidable (ComesBack env fs dir raw path) := by
  unfold ComesBack
  infer_instance

theorem dir_createTarget (env : ProbeEnv) {fs : Fs} (path : String) {p : String} (total : Int)
    (hp : p ≠ "") (hdir : fs p = some .dir) : (createTarget env fs path total).2 p = some .dir := by
  have hmade : ∀ fs', (if parentPath path = "" then some fs
      else mkdirRecursive fs (parentPath path) env.mkdirOk) = some fs' → fs' p = some .dir := by
    intro fs' heq
    rw [mkdirRecursive] at heq
    split_ifs at heq <;> obtain rfl := Option.some.inj heq
    · exact hdir
    · exact hdir
    · simp [Fs.createDirectories, hdir]
  simp only [createTarget]
  split
  · exact hdir
  next fs' heq =>
    have hthere := hmade fs' heq
    split
    · exact hthere
    next opened hopen =>
      have hopened := ((OnlyFile.openFile hopen).dirs p hp).mpr hthere
      split
      · exact hopened
      split
      · exact ((OnlyFile.truncate path opened total.toNat).dirs p hp).mpr hopened
      · exact hopened

theorem finalizeProbing_of_acquired (cfg : HttpConfig) {env : ProbeEnv} {fs : Fs} {made : Fs × Bool}
    {t : TaskCtx} {i : Nat} {unique : String}
    (hacquired : acquireWrapperName env.acquire fs t.outputPath
      (stripExtension (probedName env.urlLib t)) = (unique, made)) :
    (finalizeProbing cfg env fs t i).1.fullFilePath =
        joinPath (joinPath t.outputPath unique) (probedName env.urlLib t) ∧
      ∃ total, (finalizeProbing cfg env fs t i).2 = (createTarget env made.1
        (joinPath (joinPath t.outputPath unique) (probedName env.urlLib t)) total).2 := by
  have hpath : acquirePath env fs (t.settleProbe env.urlLib i) =
      ({ t.settleProbe env.urlLib i with
        fullFilePath := joinPath (joinPath t.outputPath unique) (probedName env.urlLib t) }, made.1) := by
    have hdir : (t.settleProbe env.urlLib i).outputPath = t.outputPath := rfl
    rw [acquirePath, hdir, probedName_eq, hacquired]
    rfl
  have hne := joinPath_ne_empty (joinPath t.outputPath unique) (probedName_ne_empty env.urlLib t)
  constructor
  · rw [fullFilePath_finalizeProbing, hpath]
  · refine ⟨(t.settleProbe env.urlLib i).totalSize, ?_⟩
    simp only [finalizeProbing, hpath, if_neg hne]
    split
    next heq => rw [heq]
    next heq => rw [heq]

/-- A directory the acquisition makes is still there at the end, so it must have stood before. -/
theorem exist_of_onlyFile (cfg : HttpConfig) {env : ProbeEnv} {fs : Fs} {t : TaskCtx} {i : Nat}
    {path unique : String} (hunique : unique ≠ "")
    (hacquired : acquireWrapperName env.acquire fs t.outputPath
      (stripExtension (probedName env.urlLib t)) =
        (unique, createEntry env.acquire fs (joinPath t.outputPath unique) true))
    (honly : OnlyFile path fs (finalizeProbing cfg env fs t i).2)
    (hcreate : env.acquire.createOk = true) : fs.exist (joinPath t.outputPath unique) = true := by
  obtain ⟨-, total, hdisk⟩ := finalizeProbing_of_acquired cfg hacquired (i := i)
  by_contra hfree
  have hnone : fs (joinPath t.outputPath unique) = none := by simpa [Fs.exist] using hfree
  have hne := joinPath_ne_empty t.outputPath hunique
  have hnew : (createEntry env.acquire fs (joinPath t.outputPath unique) true).1
      (joinPath t.outputPath unique) = some .dir := by
    rw [createEntry_dir, if_pos hcreate]
    simp [Fs.createDirectories, hnone, Fs.isAncestorOrSelf]
  have hstays := dir_createTarget env (joinPath (joinPath t.outputPath unique)
    (probedName env.urlLib t)) total hne hnew
  rw [← hdisk, honly.dirs _ hne, hnone] at hstays
  cases hstays

theorem isAbsolute_of_free {path dir raw unique : String} (disk : Standing path) (hraw : raw ≠ "")
    (hform : unique = stripExtension raw ∨ ∃ n, unique = numberedName (stripExtension raw) n)
    (hfree : disk.fs.exist (joinPath dir unique) = false)
    (hpath : joinPath (joinPath dir unique) raw = path) : isAbsolute raw = true := by
  by_contra hrelative
  rw [Bool.not_eq_true] at hrelative
  rcases stripExtension_cases hraw with hplain | ⟨-, front, hfront⟩
  · -- the wrapper would be one of the directories above the file
    have hlead : PlainName (stripExtension raw) := ⟨stripExtension_ne_empty hraw, hplain⟩
    have hunique : PlainName unique := by
      rcases hform with rfl | ⟨n, rfl⟩
      · exact hlead
      · exact plainName_numberedName hlead n
    have habove := isAncestorOrSelf_parentPath_joinPath (closedPath_joinPath dir hunique) hraw hrelative
    have hthere : disk.fs.exist (parentPath path) = true := by simp [Fs.exist, disk.wrapper]
    rw [hpath] at habove
    have hstands := disk.grounded _ _ hthere habove (joinPath_ne_empty dir hunique.1)
    rw [hfree] at hstands
    cases hstands
  · -- the name, and so the path, would end in a separator
    have hlast := getLast?_joinPath (joinPath dir unique) hraw
    rw [hpath, hfront] at hlast
    exact disk.file (hlast.trans (by simp))

/-- **One finalization**: it comes back to the stored path, with nothing else on the disk touched,
exactly under the condition above. -/
theorem comesBack_iff (cfg : HttpConfig) (env : ProbeEnv) {path : String} (disk : Standing path)
    (t : TaskCtx) (i : Nat) :
    ((finalizeProbing cfg env disk.fs t i).1.fullFilePath = path ∧
        OnlyFile path disk.fs (finalizeProbing cfg env disk.fs t i).2) ↔
      ComesBack env.acquire disk.fs t.outputPath (probedName env.urlLib t) path := by
  have hname := probedName_ne_empty env.urlLib t
  have hlead := stripExtension_ne_empty hname
  have hthere : disk.fs.exist (parentPath path) = true := by simp [Fs.exist, disk.wrapper]
  -- nothing is made on the way to the file, so the file is all that changes
  have honly : ∀ {unique total}, joinPath (joinPath t.outputPath unique) (probedName env.urlLib t) = path →
      (env.acquire.createOk = true → disk.fs.exist (joinPath t.outputPath unique) = true) →
      OnlyFile path disk.fs (createTarget env
        (createEntry env.acquire disk.fs (joinPath t.outputPath unique) true).1 path total).2 := by
    intro unique total hpath hmade
    refine (onlyFile_createEntry env.acquire disk.grounded hmade).trans ?_
    exact onlyFile_createTarget env total (grows_createEntry_dir env.acquire _ _ hthere)
  unfold ComesBack
  split
  next hnone =>
    have hacquired := acquireWrapperName_of_exhausted env.acquire hlead hnone
    obtain ⟨hto, total, hdisk⟩ := finalizeProbing_of_acquired cfg hacquired (i := i)
    have hstamped : stampedName env.acquire (stripExtension (probedName env.urlLib t)) ≠ "" := by
      simp [stampedName, String.append_eq_empty_iff]
    rw [hto]
    constructor
    · rintro ⟨hpath, honlyFile⟩
      exact ⟨hpath, exist_of_onlyFile cfg hstamped hacquired honlyFile⟩
    · rintro ⟨hpath, hmade⟩
      refine ⟨hpath, ?_⟩
      rw [hdisk, hpath]
      exact honly hpath hmade
  next hroom =>
    obtain ⟨unique, hform, hfree, hacquired⟩ :=
      acquireWrapperName_of_room env.acquire hlead (Bool.eq_false_iff.mpr hroom)
    obtain ⟨hto, total, hdisk⟩ := finalizeProbing_of_acquired cfg hacquired (i := i)
    have hunique : unique ≠ "" := by
      rcases hform with rfl | ⟨n, rfl⟩
      · exact hlead
      · simp [numberedName_eq, String.append_eq_empty_iff]
    rw [hto]
    constructor
    · rintro ⟨hpath, honlyFile⟩
      have hmade := exist_of_onlyFile cfg hunique hacquired honlyFile
      rw [hfree] at hmade
      have hrefused : env.acquire.createOk = false := by simpa using hmade
      have habsolute := isAbsolute_of_free disk hname hform hfree hpath
      rw [joinPath_of_absolute _ habsolute] at hpath
      exact ⟨habsolute, hpath, hrefused⟩
    · rintro ⟨habsolute, hraw, hrefused⟩
      have hpath := (joinPath_of_absolute (joinPath t.outputPath unique) habsolute).trans hraw
      refine ⟨hpath, ?_⟩
      rw [hdisk, hpath]
      exact honly hpath fun hcreate => absurd (hrefused.symm.trans hcreate) Bool.false_ne_true

end DownloadWrapper
