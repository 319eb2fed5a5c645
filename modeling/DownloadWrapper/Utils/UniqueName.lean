import DownloadWrapper.Utils.FileSystem

/-!
# Acquiring a unique name

Naming materialises: the first free candidate is created on disk at once, so that later calls find
it taken. A refused creation does not stop the naming.
-/

namespace DownloadWrapper

/-- What the operating system and the clock answer during one acquisition. -/
structure AcquireEnv where
  createOk : Bool := true
  nowMs : Nat := 0

section Acquire

variable {σ : Type*} [FileSystem σ]

/-- `create_entry`: a directory, or an empty file with its parent directories. The answer is whether it
succeeds. -/
def createEntry (env : AcquireEnv) (fs : σ) (path : String) (isDir : Bool) : σ × Bool :=
  if env.createOk then
    if isDir then
      let (fs, made) := FileSystem.createDirectories fs path
      (fs, made.isSome)
    else
      match FileSystem.createDirectories fs (parentPath path) with
      | (fs, none) => (fs, false)
      | (fs, some _) =>
          match FileSystem.openFile fs path true true with
          | none => (fs, false)
          | some fs => (fs, true)
  else (fs, false)

/-- `name(n)`. -/
def numberedName (name : String) (n : Nat) : String := name ++ "(" ++ toString n ++ ")"

/-- The first number from `n` on, among `count` of them, whose candidate is free. -/
def firstFree (fs : σ) (dir name : String) : Nat → Nat → Option Nat
  | 0, _ => none
  | count + 1, n =>
      if FileSystem.exist fs (joinPath dir (numberedName name n)) then
        firstFree fs dir name count (n + 1)
      else some n

/-- `acquire_unique_name`: the name itself, the first free numbered name, or a time stamp. `out_error` says
whether the entry was created. -/
def acquireUniqueName (env : AcquireEnv) (fs : σ) (dir name : String) (multiFile : Bool) :
    String × σ × Bool :=
  if name = "" then (name, fs, true)
  else if ¬ FileSystem.exist fs (joinPath dir name) then
    (name, createEntry env fs (joinPath dir name) multiFile)
  else
    match firstFree fs dir name 9999 1 with
    | some n => (numberedName name n, createEntry env fs (joinPath dir (numberedName name n)) true)
    | none =>
        let fallback := name ++ "_" ++ toString env.nowMs
        (fallback, createEntry env fs (joinPath dir fallback) true)

/-- `acquire_wrapper_name`: a wrapper is always a directory. -/
def acquireWrapperName (env : AcquireEnv) (fs : σ) (dir name : String) : String × σ × Bool :=
  acquireUniqueName env fs dir name true

theorem firstFree_eq_some_iff {fs : σ} {dir name : String} {count n k : Nat} :
    firstFree fs dir name count n = some k ↔
      (n ≤ k ∧ k < n + count) ∧ FileSystem.exist fs (joinPath dir (numberedName name k)) = false ∧
        ∀ j, n ≤ j → j < k → FileSystem.exist fs (joinPath dir (numberedName name j)) = true := by
  induction count generalizing n with
  | zero =>
      simp only [firstFree, false_iff, not_and, reduceCtorEq]
      omega
  | succ count ih =>
      rw [firstFree]
      split
      next htaken =>
        rw [ih]
        constructor
        · rintro ⟨hrange, hfree, htakenBelow⟩
          refine ⟨by omega, hfree, fun j hlow hhigh => ?_⟩
          rcases Nat.eq_or_lt_of_le hlow with rfl | hlow
          · exact htaken
          · exact htakenBelow j hlow hhigh
        · rintro ⟨hrange, hfree, htakenBelow⟩
          have hne : n ≠ k := by
            rintro rfl
            rw [htaken] at hfree
            cases hfree
          exact ⟨by omega, hfree, fun j hlow hhigh => htakenBelow j (by omega) hhigh⟩
      next hfree =>
        rw [Option.some.injEq]
        constructor
        · rintro rfl
          exact ⟨by omega, by simpa using hfree, fun j hlow hhigh => by omega⟩
        · rintro ⟨hrange, -, htakenBelow⟩
          by_contra hne
          exact hfree (htakenBelow n le_rfl (by omega))

theorem firstFree_eq_none_iff {fs : σ} {dir name : String} {count n : Nat} :
    firstFree fs dir name count n = none ↔
      ∀ j, n ≤ j → j < n + count → FileSystem.exist fs (joinPath dir (numberedName name j)) = true := by
  induction count generalizing n with
  | zero =>
      simp only [firstFree, true_iff]
      omega
  | succ count ih =>
      rw [firstFree]
      split
      next htaken =>
        rw [ih]
        constructor
        · intro hall j hlow hhigh
          rcases Nat.eq_or_lt_of_le hlow with rfl | hlow
          · exact htaken
          · exact hall j hlow (by omega)
        · intro hall j hlow hhigh
          exact hall j (by omega) (by omega)
      next hfree =>
        simp only [reduceCtorEq, false_iff, not_forall]
        exact ⟨n, le_rfl, by omega, hfree⟩

end Acquire

theorem not_mem_toString (n : Nat) {c : Char} (hc : c.isDigit = false) : c ∉ (toString n).toList := by
  intro hmem
  have hdigits : (toString n).toList = Nat.toDigits 10 n := Nat.toList_repr
  rw [hdigits] at hmem
  have hdigit := Nat.isDigit_of_mem_toDigits (by decide) (by decide) hmem
  exact absurd hdigit (by simp [hc])

/-- Characters that neither cut a path nor make a special segment. -/
def PlainSuffix (suffix : String) : Prop :=
  suffix ≠ "" ∧ '/' ∉ suffix.toList ∧ '.' ∉ suffix.toList

theorem plainSuffix_number (n : Nat) : PlainSuffix ("(" ++ toString n ++ ")") := by
  refine ⟨?_, ?_, ?_⟩
  · simp [String.append_eq_empty_iff]
  · simp only [String.toList_append, List.mem_append, not_or]
    exact ⟨⟨by decide, not_mem_toString n (by decide)⟩, by decide⟩
  · simp only [String.toList_append, List.mem_append, not_or]
    exact ⟨⟨by decide, not_mem_toString n (by decide)⟩, by decide⟩

theorem plainSuffix_stamp (ms : Nat) : PlainSuffix ("_" ++ toString ms) := by
  refine ⟨?_, ?_, ?_⟩
  · simp [String.append_eq_empty_iff]
  · simp only [String.toList_append, List.mem_append, not_or]
    exact ⟨by decide, not_mem_toString ms (by decide)⟩
  · simp only [String.toList_append, List.mem_append, not_or]
    exact ⟨by decide, not_mem_toString ms (by decide)⟩

theorem numberedName_eq (name : String) (n : Nat) :
    numberedName name n = name ++ ("(" ++ toString n ++ ")") := by
  rw [numberedName, String.append_assoc, String.append_assoc, String.append_assoc]

/-- A free name is taken as it is; a name that is not free gets something behind it. -/
theorem acquireWrapperName_fst (env : AcquireEnv) (fs : Fs) (dir : String) {name : String}
    (hname : name ≠ "") :
    if fs.exist (joinPath dir name) then
      ∃ suffix, PlainSuffix suffix ∧ (acquireWrapperName env fs dir name).1 = name ++ suffix
    else (acquireWrapperName env fs dir name).1 = name := by
  unfold acquireWrapperName acquireUniqueName
  rw [if_neg hname]
  cases htaken : fs.exist (joinPath dir name) with
  | false => simp [htaken]
  | true =>
      simp only [Fs.exist_eq, htaken, if_true, not_true_eq_false, if_false]
      split
      next n _ => exact ⟨_, plainSuffix_number n, numberedName_eq name n⟩
      next => exact ⟨_, plainSuffix_stamp env.nowMs, String.append_assoc⟩

theorem createEntry_dir (env : AcquireEnv) (fs : Fs) (path : String) :
    createEntry env fs path true =
      (if env.createOk then fs.createDirectories path else fs, env.createOk) := by
  rw [createEntry]
  cases env.createOk <;> rfl

@[simp] theorem bytes?_acquireWrapperName (env : AcquireEnv) (fs : Fs) (dir name p : String) :
    (acquireWrapperName env fs dir name).2.1.bytes? p = fs.bytes? p := by
  have hentry : ∀ path, (createEntry env fs path true).1.bytes? p = fs.bytes? p := by
    intro path
    rw [createEntry_dir]
    split
    · exact Fs.bytes?_createDirectories fs path p
    · rfl
  simp only [acquireWrapperName, acquireUniqueName]
  split
  · rfl
  split
  · exact hentry _
  split
  · exact hentry _
  · exact hentry _

end DownloadWrapper
