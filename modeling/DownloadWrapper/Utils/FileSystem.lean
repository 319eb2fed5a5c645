import DownloadWrapper.Lib.ByteFile
import Mathlib.Data.List.DropRight
import Mathlib.Logic.Function.Basic

/-!
# File system

Paths are POSIX path strings with `std::filesystem`'s lexical operations. What the operating system may
refuse (permissions, a full disk) is not in the state of a file system: the operations that can be refused
take the answer as an argument.

`Fs` keeps entries by the text of their paths. Two spellings of a path are two paths to it, `.` and `..` lead
nowhere else, and there are no links; it is for what one worker does along its own paths. Where several
spellings or links matter, paths are resolved on a `Disk`.
-/

namespace DownloadWrapper

/-- `operator/`: an absolute right side replaces the left one. -/
def joinPath (base name : String) : String :=
  if name.toList.head? = some '/' ∨ base = "" then name
  else if base.toList.getLast? = some '/' then base ++ name
  else base ++ "/" ++ name

theorem joinPath_ne_empty (base : String) {name : String} (h : name ≠ "") : joinPath base name ≠ "" := by
  rw [joinPath]
  split
  · exact h
  split
  · simp [String.append_eq_empty_iff, h]
  · simp [String.append_eq_empty_iff]

/-- `path::filename`: what follows the last separator. -/
def fileName (path : String) : String :=
  String.ofList (path.toList.reverse.takeWhile (· ≠ '/')).reverse

def parentPath (path : String) : String :=
  let before := path.toList.reverse.dropWhile (· ≠ '/')
  let parent := (before.dropWhile (· = '/')).reverse
  if before ≠ [] ∧ parent = [] then "/" else String.ofList parent

/-- `path::stem`: the file name without its last extension; a leading dot starts no extension. -/
def stem (path : String) : String :=
  let name := (fileName path).toList
  let front := (name.reverse.dropWhile (· ≠ '.')).drop 1
  if name = ['.', '.'] ∨ front = [] then fileName path else String.ofList front.reverse

theorem slash_not_mem_fileName (path : String) : '/' ∉ (fileName path).toList := by
  rw [fileName, String.toList_ofList, List.mem_reverse]
  intro hmem
  have hkept := List.mem_takeWhile_imp hmem
  simp at hkept

theorem slash_not_mem_stem (path : String) : '/' ∉ (stem path).toList := by
  simp only [stem]
  split
  · exact slash_not_mem_fileName path
  · rw [String.toList_ofList, List.mem_reverse]
    intro hmem
    have hmem' := (List.dropWhile_suffix _).mem (List.mem_of_mem_drop hmem)
    exact slash_not_mem_fileName path (List.mem_reverse.mp hmem')

def stripExtension (name : String) : String :=
  if name = "" then name
  else if stem name = "" then name else stem name

theorem stripExtension_ne_empty {name : String} (h : name ≠ "") : stripExtension name ≠ "" := by
  rw [stripExtension, if_neg h]
  split
  · exact h
  · assumption

theorem stripExtension_cases {name : String} (h : name ≠ "") :
    '/' ∉ (stripExtension name).toList ∨
      stripExtension name = name ∧ ∃ front, name.toList = front ++ ['/'] := by
  rw [stripExtension, if_neg h]
  split
  next hstem =>
    right
    refine ⟨rfl, List.getLast?_eq_some_iff.mp ?_⟩
    have hfile : fileName name = "" := by
      simp only [stem] at hstem
      split at hstem
      · exact hstem
      next hfront =>
        rw [not_or] at hfront
        have hlist := congrArg String.toList hstem
        simp only [String.toList_ofList] at hlist
        exact absurd (List.reverse_eq_nil_iff.mp hlist) hfront.2
    have hlist := congrArg String.toList hfile
    rw [fileName, String.toList_ofList] at hlist
    have hnone := List.reverse_eq_nil_iff.mp hlist
    rw [← List.head?_reverse]
    cases hreverse : name.toList.reverse with
    | nil => exact absurd (String.toList_injective (List.reverse_eq_nil_iff.mp hreverse)) h
    | cons c rest =>
        rw [hreverse, List.takeWhile_cons] at hnone
        split at hnone
        · exact absurd hnone (List.cons_ne_nil _ _)
        next hc => simpa using hc
  · exact Or.inl (slash_not_mem_stem name)

/-- What choosing and creating a file asks of a file system. -/
class FileSystem (σ : Type*) where
  exist : σ → String → Bool
  /-- Whether the last directory was made; none if something stands in the way. -/
  createDirectories : σ → String → σ × Option Bool
  openFile : σ → String → (create granted : Bool) → Option σ
  truncate : σ → String → Nat → σ

abbrev Byte := UInt8

inductive Entry where
  | dir
  | file (bytes : List Byte)
  deriving DecidableEq

abbrev Fs := String → Option Entry

namespace Fs

def exist (fs : Fs) (path : String) : Bool := (fs path).isSome

/-- The bytes of the file at `path`; none when there is no file. -/
def bytes? (fs : Fs) (path : String) : Option (List Byte) :=
  match fs path with
  | some (.file bytes) => some bytes
  | _ => none

/-- `path` is `below` or one of its ancestors. -/
def isAncestorOrSelf (path below : String) : Bool :=
  path = below || (path.toList ++ ['/']).isPrefixOf below.toList

/-- `create_directories`: the directory and its missing ancestors. -/
def createDirectories (fs : Fs) (path : String) : Fs := fun p =>
  match fs p with
  | some entry => some entry
  | none => if isAncestorOrSelf p path then some .dir else none

/-- `DwFile::open`: an existing file is opened as it is, a missing one is created when `create` is
set. `granted` is the operating system's answer. -/
def openFile (fs : Fs) (path : String) (create granted : Bool) : Option Fs :=
  match fs path with
  | some (.file _) => if granted then some fs else none
  | some .dir => none
  | none => if create && granted then some (Function.update fs path (some (.file []))) else none

def truncate (fs : Fs) (path : String) (size : Nat) : Fs :=
  match fs path with
  | some (.file bytes) => Function.update fs path (some (.file (ByteFile.resize bytes size)))
  | _ => fs

instance : FileSystem Fs where
  exist := exist
  createDirectories fs path := (fs.createDirectories path, some !fs.exist path)
  openFile := openFile
  truncate := truncate

@[simp] theorem exist_eq (fs : Fs) (path : String) : FileSystem.exist fs path = fs.exist path := rfl

@[simp] theorem createDirectories_eq (fs : Fs) (path : String) :
    FileSystem.createDirectories fs path = (fs.createDirectories path, some !fs.exist path) := rfl

@[simp] theorem openFile_eq (fs : Fs) (path : String) (create granted : Bool) :
    FileSystem.openFile fs path create granted = fs.openFile path create granted := rfl

@[simp] theorem truncate_eq (fs : Fs) (path : String) (size : Nat) :
    FileSystem.truncate fs path size = fs.truncate path size := rfl

/-- The bytes a positional write leaves in the file at `path`. -/
def pwrite (fs : Fs) (path : String) (off : Nat) (data : List Byte) : Fs :=
  match fs path with
  | some (.file bytes) => Function.update fs path (some (.file (ByteFile.writeAt bytes off data)))
  | _ => fs

@[simp] theorem bytes?_createDirectories (fs : Fs) (path p : String) :
    (fs.createDirectories path).bytes? p = fs.bytes? p := by
  simp only [bytes?, createDirectories]
  cases hp : fs p with
  | some entry => rfl
  | none => cases isAncestorOrSelf p path <;> rfl

/-- Opening makes a file where there was none, and changes no bytes of one that was there. -/
theorem bytes?_openFile {fs fs' : Fs} {path : String} {create granted : Bool}
    (h : fs.openFile path create granted = some fs') :
    fs'.bytes? path = some ((fs.bytes? path).getD []) := by
  simp only [openFile] at h
  split at h
  next bytes hp =>
    simp only [Option.ite_none_right_eq_some, Option.some.injEq] at h
    obtain ⟨-, rfl⟩ := h
    simp [bytes?, hp]
  next => simp at h
  next hp =>
    simp only [Option.ite_none_right_eq_some, Option.some.injEq] at h
    obtain ⟨-, rfl⟩ := h
    simp [bytes?, hp]

theorem openFile_of_bytes? {fs : Fs} {path : String} {bytes : List Byte}
    (h : fs.bytes? path = some bytes) (create : Bool) : fs.openFile path create true = some fs := by
  cases hfile : fs path with
  | none => simp [bytes?, hfile] at h
  | some entry =>
      cases entry with
      | dir => simp [bytes?, hfile] at h
      | file bytes => simp [openFile, hfile]

theorem bytes?_eq_none {fs : Fs} {path : String} (h : ∀ bytes, fs path ≠ some (.file bytes)) :
    fs.bytes? path = none := by
  cases hfile : fs path with
  | none => simp [bytes?, hfile]
  | some entry =>
      cases entry with
      | dir => simp [bytes?, hfile]
      | file bytes => exact absurd hfile (h bytes)

@[simp] theorem bytes?_truncate (fs : Fs) (path : String) (size : Nat) :
    (fs.truncate path size).bytes? path
      = (fs.bytes? path).map fun bytes => ByteFile.resize bytes size := by
  simp only [truncate]
  split
  next bytes hp => simp [bytes?, hp]
  next hp => rw [bytes?_eq_none hp, Option.map_none]

@[simp] theorem bytes?_pwrite (fs : Fs) (path : String) (off : Nat) (data : List Byte) :
    (fs.pwrite path off data).bytes? path
      = (fs.bytes? path).map fun bytes => ByteFile.writeAt bytes off data := by
  simp only [pwrite]
  split
  next bytes hp => simp [bytes?, hp]
  next hp => rw [bytes?_eq_none hp, Option.map_none]

end Fs

end DownloadWrapper
