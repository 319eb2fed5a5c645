import DownloadWrapper.Utils.LexicalPath
import Mathlib.Tactic.Ring

/-!
# Lexical operations on paths

`lexically_normal`, `operator/` and `lexically_relative` of `std::filesystem::path`, on the filenames that
a path is iterated over, and the places that come out of them.
-/

namespace DownloadWrapper

open PathForm

/-- A path as it is iterated: whether it starts at the root, and its filenames. A trailing separator leaves
an empty filename at the end. -/
structure StdPath where
  rootDirectory : Bool
  filenames : List String
  deriving DecidableEq

namespace StdPath

def ofString (s : String) : StdPath :=
  let pieces := s.toList.splitOn '/'
  let names := (pieces.filter (· ≠ [])).map String.ofList
  ⟨isAbsolute s, if names ≠ [] ∧ pieces.getLast? = some [] then names ++ [""] else names⟩

def segments (p : StdPath) : List (Segment String) := p.filenames.filterMap fun name => segmentOf name.toList

def place (p : StdPath) : PathForm String := (if p.rootDirectory then root else here).walk p.segments

/-- `operator/`. -/
def append (p q : StdPath) : StdPath :=
  if q.rootDirectory then q
  else
    let front := if p.filenames.getLast? = some "" then p.filenames.dropLast else p.filenames
    ⟨p.rootDirectory, front ++ if q.filenames = [] ∧ p.filenames ≠ [] then [""] else q.filenames⟩

def endsInDirectory (p : StdPath) : Bool :=
  match p.filenames.getLast? with
  | none => false
  | some name => name = "" || name = "." || name = ".."

/-- `lexically_normal`: what is climbed out of, then the names, then a separator if it is a directory's. The
empty path stays empty, and a relative path of which nothing is left becomes `.`. -/
def lexicallyNormal (p : StdPath) : StdPath :=
  if p = ⟨false, []⟩ then p
  else
    let form := p.place
    let tail := if p.endsInDirectory ∧ form.names ≠ [] then [""] else []
    let names := List.replicate form.ups ".." ++ (form.names.reverse ++ tail)
    ⟨p.rootDirectory, if p.rootDirectory = false ∧ names = [] then ["."] else names⟩

/-- `std::mismatch`: what is left of both lists behind their common start. -/
def mismatch : List String → List String → List String × List String
  | a :: as, b :: bs => if a = b then mismatch as bs else (a :: as, b :: bs)
  | as, bs => (as, bs)

def levels (names : List String) : Int :=
  (names.countP fun name => name ≠ "" && name ≠ "." && name ≠ "..") - names.count ".."

/-- What leads to `a` from the place that lies `b` deep, where the two have nothing more in common. -/
def relativeNames (a b : List String) : List String :=
  if a = [] ∧ b = [] then ["."]
  else if levels b < 0 then []
  else if levels b = 0 ∧ (a = [] ∨ a.head? = some "") then ["."]
  else List.replicate (levels b).toNat ".." ++ a

def lexicallyRelative (p base : StdPath) : StdPath :=
  if p.rootDirectory ≠ base.rootDirectory then ⟨false, []⟩
  else
    let (a, b) := mismatch p.filenames base.filenames
    ⟨false, relativeNames a b⟩

example : ((ofString "a/./b/..").lexicallyNormal, (ofString "/a/d").lexicallyRelative (ofString "/a/b/c")) =
    (ofString "a/", ofString "../../d") := by decide

def Proper (name : String) : Prop := name ≠ "" ∧ name ≠ "." ∧ name ≠ ".."

instance (name : String) : Decidable (Proper name) := inferInstanceAs (Decidable (_ ∧ _ ∧ _))

/-- What may stand behind the names of a normal path. -/
def Trailing (tail : List String) : Prop := tail = [] ∨ tail = [""] ∨ tail = ["."]

section Relative

variable {a b names tail : List String}

theorem mismatch_append (front as bs : List String) : mismatch (front ++ as) (front ++ bs) = mismatch as bs := by
  induction front with
  | nil => rfl
  | cons name front ih => rw [List.cons_append, List.cons_append, mismatch, if_pos rfl, ih]

theorem mismatch_of_head_ne (h : ∀ name, a.head? = some name → b.head? ≠ some name) :
    mismatch a b = (a, b) := by
  cases a with
  | nil => rfl
  | cons x as =>
      cases b with
      | nil => rfl
      | cons y bs =>
          have hne : x ≠ y := by
            rintro rfl
            exact h x rfl rfl
          rw [mismatch, if_neg hne]

theorem levels_append (as bs : List String) : levels (as ++ bs) = levels as + levels bs := by
  simp only [levels, List.countP_append, List.count_append]
  push_cast
  ring

theorem levels_of_proper (h : ∀ name ∈ names, Proper name) : levels names = names.length := by
  induction names with
  | nil => rfl
  | cons name names ih =>
      obtain ⟨⟨hempty, hdot, hup⟩, hrest⟩ := List.forall_mem_cons.mp h
      have hone : levels [name] = 1 := by simp [levels, hempty, hdot, hup]
      rw [← List.singleton_append, levels_append, hone, ih hrest, List.length_append, List.length_singleton]
      push_cast
      rfl

theorem levels_of_trailing (h : Trailing tail) : levels tail = 0 := by
  rcases h with rfl | rfl | rfl <;> decide

theorem head?_relativeNames_of_pos (h : 0 < levels b) : (relativeNames a b).head? = some ".." := by
  have hne : b ≠ [] := by
    rintro rfl
    exact absurd h (by decide)
  obtain ⟨n, hn⟩ : ∃ n, (levels b).toNat = n + 1 := ⟨(levels b).toNat - 1, by omega⟩
  rw [relativeNames, if_neg fun hnil => hne hnil.2, if_neg (by omega), if_neg fun hzero => by omega, hn]
  rfl

theorem relativeNames_of_zero (h : levels b = 0) (hne : a ≠ []) (hhead : a.head? ≠ some "") :
    relativeNames a b = a := by
  rw [relativeNames, if_neg fun hnil => hne hnil.1, if_neg (by omega),
    if_neg fun hzero => hzero.2.elim hne hhead, h]
  rfl

theorem relativeNames_trailing {tail' : List String} (h : Trailing tail) (h' : Trailing tail') :
    relativeNames (mismatch tail tail').1 (mismatch tail tail').2 = ["."] := by
  rcases h with rfl | rfl | rfl <;> rcases h' with rfl | rfl | rfl <;> decide

/-- The relative path is empty, or starts with `..`. -/
def Escapes (names : List String) : Prop := names = [] ∨ names.head? = some ".."

theorem not_escapes_of_proper {name : String} (h : Proper name) (names : List String) :
    ¬ Escapes (name :: names) := by
  rintro (hnil | hhead)
  · cases hnil
  · exact h.2.2 (Option.some.inj hhead)

theorem head?_trailing (h : Trailing tail) {name : String} (hproper : Proper name) : tail.head? ≠ some name := by
  rcases h with rfl | rfl | rfl
  · simp
  · simpa using hproper.1.symm
  · simpa using hproper.2.1.symm

theorem head?_ne_up (hnames : ∀ name ∈ names, Proper name) (h : Trailing tail) :
    (names ++ tail).head? ≠ some ".." := by
  cases names with
  | nil => rcases h with rfl | rfl | rfl <;> decide
  | cons name names =>
      have hproper := hnames name List.mem_cons_self
      simpa using hproper.2.2

theorem exists_common (as bs : List String) : ∃ front a b, as = front ++ a ∧ bs = front ++ b ∧
    ∀ name, a.head? = some name → b.head? ≠ some name := by
  induction as generalizing bs with
  | nil => exact ⟨[], [], bs, rfl, rfl, by simp⟩
  | cons x as ih =>
      cases bs with
      | nil => exact ⟨[], x :: as, [], rfl, rfl, by simp⟩
      | cons y bs =>
          by_cases heq : x = y
          · obtain ⟨front, a, b, rfl, rfl, hhead⟩ := ih bs
            exact ⟨x :: front, a, b, rfl, by rw [heq]; rfl, hhead⟩
          · refine ⟨[], x :: as, y :: bs, rfl, rfl, ?_⟩
            rintro name ⟨⟩ hname
            exact heq (Option.some.inj hname).symm

theorem escapes_of_apart {rx ry tx ty : List String} (hrx : ∀ name ∈ rx, Proper name)
    (hry : ∀ name ∈ ry, Proper name) (htx : Trailing tx) (hty : Trailing ty)
    (hhead : ∀ name, rx.head? = some name → ry.head? ≠ some name) :
    Escapes (relativeNames (mismatch (rx ++ tx) (ry ++ ty)).1 (mismatch (rx ++ tx) (ry ++ ty)).2) ↔
      ¬ ry <+: rx := by
  cases ry with
  | nil =>
      refine iff_of_false ?_ fun h => h (List.nil_prefix)
      cases rx with
      | nil =>
          rw [List.nil_append, List.nil_append, relativeNames_trailing htx hty]
          rintro (hnil | hhead)
          · cases hnil
          · exact absurd hhead (by decide)
      | cons x rx =>
          have hproper := hrx x List.mem_cons_self
          have hmismatch : mismatch (x :: rx ++ tx) ty = (x :: rx ++ tx, ty) := by
            apply mismatch_of_head_ne
            rintro name ⟨⟩
            exact head?_trailing hty hproper
          rw [List.nil_append, hmismatch, relativeNames_of_zero (levels_of_trailing hty) (by simp)
            (by simpa using hproper.1)]
          exact not_escapes_of_proper hproper _
  | cons y ry =>
      have hproper := hry y List.mem_cons_self
      have hmismatch : mismatch (rx ++ tx) (y :: ry ++ ty) = (rx ++ tx, y :: ry ++ ty) := by
        apply mismatch_of_head_ne
        cases rx with
        | nil =>
            rintro name hname ⟨⟩
            exact head?_trailing htx hproper hname
        | cons x rx =>
            rintro name ⟨⟩
            exact hhead x rfl
      have hlevels : 0 < levels (y :: ry ++ ty) := by
        rw [levels_append, levels_of_proper hry, levels_of_trailing hty, List.length_cons]
        omega
      rw [hmismatch]
      refine iff_of_true (Or.inr (head?_relativeNames_of_pos hlevels)) ?_
      rintro ⟨more, rfl⟩
      exact hhead y rfl rfl

/-- **What a relative path says.** It leads out just if one has to go up, or the names of the base are not
those it starts with. -/
theorem escapes_relativeNames_iff {xs ys tx ty : List String} (hxs : ∀ name ∈ xs, Proper name)
    (hys : ∀ name ∈ ys, Proper name) (htx : Trailing tx) (hty : Trailing ty) {u v : Nat} (hle : v ≤ u) :
    let rest := mismatch (List.replicate u ".." ++ (xs ++ tx)) (List.replicate v ".." ++ (ys ++ ty))
    Escapes (relativeNames rest.1 rest.2) ↔ ¬ (u = v ∧ ys <+: xs) := by
  obtain ⟨k, rfl⟩ := Nat.exists_eq_add_of_le hle
  have hlevels : levels (ys ++ ty) = ys.length := by
    rw [levels_append, levels_of_proper hys, levels_of_trailing hty, add_zero]
  rw [List.replicate_add, List.append_assoc, mismatch_append]
  cases k with
  | succ k =>
      have hmismatch : mismatch (List.replicate (k + 1) ".." ++ (xs ++ tx)) (ys ++ ty) =
          (List.replicate (k + 1) ".." ++ (xs ++ tx), ys ++ ty) := by
        apply mismatch_of_head_ne
        rintro name ⟨⟩
        exact head?_ne_up hys hty
      simp only [hmismatch]
      refine iff_of_true (Or.inr ?_) fun h => by omega
      cases ys with
      | nil => rw [relativeNames_of_zero hlevels (by simp [List.replicate_succ]) (by simp [List.replicate_succ])]; rfl
      | cons y ys => exact head?_relativeNames_of_pos (by rw [hlevels, List.length_cons]; omega)
  | zero =>
      simp only [List.replicate_zero, List.nil_append, Nat.add_zero, true_and]
      obtain ⟨front, rx, ry, rfl, rfl, hhead⟩ := exists_common xs ys
      have hrx := (List.forall_mem_append.mp hxs).2
      have hry := (List.forall_mem_append.mp hys).2
      rw [List.append_assoc, List.append_assoc, mismatch_append, List.prefix_append_right_inj]
      exact escapes_of_apart hrx hry htx hty hhead

end Relative

/-! ### Places -/

theorem segmentOf_of_proper {name : String} (h : Proper name) : segmentOf name.toList = some (.name name) := by
  obtain ⟨hempty, hdot, hup⟩ := h
  have hne : ∀ text : String, name ≠ text → name.toList ≠ text.toList :=
    fun text h heq => h (String.toList_inj.mp heq)
  have h₀ := hne "" hempty
  have h₁ := hne "." hdot
  have h₂ := hne ".." hup
  unfold segmentOf
  split
  next heq => exact absurd heq h₀
  next heq => exact absurd heq h₁
  next heq => exact absurd heq h₂
  next => rw [String.ofList_toList]

theorem proper_of_segmentOf {piece : List Char} {name : String} (h : segmentOf piece = some (.name name)) :
    Proper name := by
  unfold segmentOf at h
  split at h
  · cases h
  · cases h
  · cases h
  next hnil hdot hup =>
    obtain rfl : String.ofList piece = name := by simpa using h
    have hne : ∀ text : String, piece ≠ text.toList → String.ofList piece ≠ text := by
      rintro text hpiece rfl
      exact hpiece String.toList_ofList.symm
    exact ⟨hne "" hnil, hne "." hdot, hne ".." hup⟩

theorem proper_of_mem_place {p : StdPath} {name : String} (h : name ∈ p.place.names) : Proper name := by
  rcases mem_names_walk h with hstart | hentered
  · revert hstart
    split <;> exact fun hstart => nomatch hstart
  · obtain ⟨piece, -, hpiece⟩ := List.mem_filterMap.mp hentered
    exact proper_of_segmentOf hpiece

theorem segments_ofString (s : String) : (ofString s).segments = pathSegments s := by
  have hnames : (((s.toList.splitOn '/').filter (· ≠ [])).map String.ofList).filterMap
      (fun name => segmentOf name.toList) = pathSegments s := by
    rw [List.filterMap_map, List.filterMap_filter, pathSegments, segmentsOfChars]
    apply List.filterMap_congr
    intro piece _
    by_cases hempty : piece = []
    · subst hempty
      rfl
    · simp [hempty]
  rw [segments, ofString]
  simp only
  split
  · rw [List.filterMap_append, hnames]
    exact List.append_nil _
  · exact hnames

theorem place_ofString (s : String) : (ofString s).place = normalForm s := by
  rw [place, segments_ofString]
  rfl

theorem rooted_place (p : StdPath) : p.place.rooted = p.rootDirectory := by
  rw [place, rooted_walk]
  cases p.rootDirectory <;> rfl

theorem place_append (p q : StdPath) :
    (p.append q).place = if q.rootDirectory then q.place else p.place.walk q.segments := by
  by_cases hroot : q.rootDirectory = true
  · rw [append, if_pos hroot, if_pos hroot]
  · have hfront : (if p.filenames.getLast? = some "" then p.filenames.dropLast else p.filenames).filterMap
        (fun name => segmentOf name.toList) = p.segments := by
      split
      next hlast =>
        obtain ⟨front, hfront⟩ := List.getLast?_eq_some_iff.mp hlast
        rw [segments, hfront, List.dropLast_concat, List.filterMap_append]
        exact (List.append_nil _).symm
      next => rfl
    have hback : (if q.filenames = [] ∧ p.filenames ≠ [] then [""] else q.filenames).filterMap
        (fun name => segmentOf name.toList) = q.segments := by
      split
      next hnil =>
        rw [segments, hnil.1]
        rfl
      next => rfl
    rw [append, if_neg hroot, if_neg hroot, place, segments, List.filterMap_append, hfront, hback,
      walk_append]
    rfl

/-! ### Normal paths -/

theorem filenames_lexicallyNormal (p : StdPath) :
    ∃ tail, Trailing tail ∧ p.lexicallyNormal.filenames =
      List.replicate p.place.ups ".." ++ (p.place.names.reverse ++ tail) := by
  by_cases hempty : p = ⟨false, []⟩
  · subst hempty
    exact ⟨[], Or.inl rfl, by decide⟩
  have htail : Trailing (if p.endsInDirectory ∧ p.place.names ≠ [] then [""] else []) := by
    split
    · exact Or.inr (Or.inl rfl)
    · exact Or.inl rfl
  rw [lexicallyNormal, if_neg hempty]
  dsimp only
  generalize (if p.endsInDirectory ∧ p.place.names ≠ [] then [""] else []) = tail at htail
  by_cases hnone : p.rootDirectory = false ∧
      List.replicate p.place.ups ".." ++ (p.place.names.reverse ++ tail) = []
  · obtain ⟨hups, hrest⟩ := List.append_eq_nil_iff.mp hnone.2
    obtain ⟨hnames, -⟩ := List.append_eq_nil_iff.mp hrest
    refine ⟨["."], Or.inr (Or.inr rfl), ?_⟩
    rw [if_pos hnone, hups, hnames]
    rfl
  · exact ⟨tail, htail, if_neg hnone⟩

theorem rootDirectory_lexicallyNormal (p : StdPath) :
    p.lexicallyNormal.rootDirectory = p.rootDirectory := by
  rw [lexicallyNormal]
  split <;> rfl

theorem place_lexicallyNormal (p : StdPath) : p.lexicallyNormal.place = p.place := by
  obtain ⟨tail, htail, hfilenames⟩ := filenames_lexicallyNormal p
  have hups : (List.replicate p.place.ups "..").filterMap (fun name => segmentOf name.toList) =
      List.replicate p.place.ups .up := by
    have hup : segmentOf "..".toList = some .up := by decide
    rw [List.filterMap_replicate, hup]
  have hnames : p.place.names.reverse.filterMap (fun name => segmentOf name.toList) =
      p.place.names.reverse.map .name := by
    rw [← List.filterMap_eq_map]
    apply List.filterMap_congr
    intro name hname
    exact segmentOf_of_proper (proper_of_mem_place (List.mem_reverse.mp hname))
  have htrailing : tail.filterMap (fun name => segmentOf name.toList) = [] := by
    rcases htail with rfl | rfl | rfl <;> decide
  rw [place, segments, hfilenames, List.filterMap_append, List.filterMap_append, hups, hnames, htrailing,
    List.append_nil, rootDirectory_lexicallyNormal, ← rooted_place]
  exact walk_self p.place

/-- **What the relative path of two normal paths says**: it leads out just if the first one is neither the
second one nor below it. -/
theorem escapes_lexicallyRelative_iff {p base : StdPath}
    (hups : p.place.rooted = base.place.rooted → base.place.ups ≤ p.place.ups) :
    Escapes (p.lexicallyNormal.lexicallyRelative base.lexicallyNormal).filenames ↔
      ¬ (p.place = base.place ∨ p.place.Below base.place) := by
  rw [lexicallyRelative, rootDirectory_lexicallyNormal, rootDirectory_lexicallyNormal, ← rooted_place,
    ← rooted_place]
  by_cases hrooted : p.place.rooted = base.place.rooted
  · obtain ⟨tail, htail, hnames⟩ := filenames_lexicallyNormal p
    obtain ⟨tail', htail', hnames'⟩ := filenames_lexicallyNormal base
    have hproper : ∀ q : StdPath, ∀ name ∈ q.place.names.reverse, Proper name := fun q name hname =>
      proper_of_mem_place (List.mem_reverse.mp hname)
    rw [if_neg (not_not.mpr hrooted), hnames, hnames']
    have hescapes := escapes_relativeNames_iff (hproper p) (hproper base) htail htail' (hups hrooted)
    refine hescapes.trans (not_congr ?_)
    rw [List.reverse_prefix]
    constructor
    · rintro ⟨hsame, hsuffix⟩
      exact eq_or_below hrooted hsame hsuffix
    · rintro (heq | hbelow)
      · rw [heq]
        exact ⟨rfl, List.suffix_refl _⟩
      · exact ⟨hbelow.2.1, hbelow.2.2.1⟩
  · rw [if_pos hrooted]
    refine iff_of_true (Or.inl rfl) ?_
    rintro (heq | hbelow)
    · exact hrooted (congrArg PathForm.rooted heq)
    · exact hrooted hbelow.1

end StdPath

end DownloadWrapper
