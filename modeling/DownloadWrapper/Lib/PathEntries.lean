import DownloadWrapper.Lib.PathTree

/-!
# Entries of directories

The directories along a path are made one after another where they are missing. What is entered in a
directory that was there, or was made for it, leaves everything else as it was.
-/

namespace PathTree

variable {α β : Type*}

def isDir (t : PathTree α β) (place : List α) : Bool :=
  match t.node place with
  | some .dir => true
  | _ => false

theorem isDir_iff {t : PathTree α β} {place : List α} : t.isDir place = true ↔ t.node place = some .dir := by
  rw [isDir]
  split
  next h => simp [h]
  next hother => simpa using hother

def leadsToDir (t : PathTree α β) (n : Nat) (start : List α) (xs : List (Hop α)) : Bool :=
  match t.resolve n start xs with
  | .found place => t.isDir place
  | _ => false

theorem leadsToDir_iff {t : PathTree α β} {n : Nat} {start : List α} {xs : List (Hop α)} :
    t.leadsToDir n start xs = true ↔
      ∃ place, t.resolve n start xs = .found place ∧ t.node place = some .dir := by
  rw [leadsToDir]
  split
  next place h => simp [h, isDir_iff]
  next hother =>
    simp only [Bool.false_eq_true, false_iff]
    rintro ⟨place, h, -⟩
    exact hother place h

def vacancy (t : PathTree α β) (n : Nat) (start : List α) (front : List (Hop α)) :
    Hop α → Option (List α × α)
  | .down name =>
      match t.resolve n start front with
      | .found place => if t.lacks place name then some (place, name) else none
      | _ => none
  | _ => none

theorem vacancy_eq_some_iff {t : PathTree α β} {n : Nat} {start place : List α} {front : List (Hop α)}
    {hop : Hop α} {name : α} :
    t.vacancy n start front hop = some (place, name) ↔
      hop = .down name ∧ t.resolve n start front = .found place ∧ t.lacks place name = true := by
  cases hop with
  | stay => simp [vacancy]
  | up => simp [vacancy]
  | down name' =>
      rw [vacancy]
      split
      next place' h =>
        simp only [Option.ite_none_right_eq_some, Option.some.injEq, Prod.mk.injEq, Hop.down.injEq, h,
          Resolved.found.injEq]
        constructor
        · rintro ⟨hlacks, rfl, rfl⟩
          exact ⟨rfl, rfl, hlacks⟩
        · rintro ⟨rfl, rfl, hlacks⟩
          exact ⟨hlacks, rfl, rfl⟩
      next hother =>
        simp only [reduceCtorEq, false_iff]
        rintro ⟨-, h, -⟩
        exact hother place h

def Hop.isDown : Hop α → Bool
  | down _ => true
  | _ => false

/-- One beginning of a path after another becomes a directory, unless it is one. The answer is whether the
last of them was made; none if something stands in the way. -/
def makeDirs [DecidableEq α] (n : Nat) (start : List α) :
    PathTree α β → List (Hop α) → List (Hop α) → Bool → PathTree α β × Option Bool
  | t, _, [], made => (t, some made)
  | t, front, hop :: rest, made =>
      if t.leadsToDir n start (front ++ [hop]) then
        makeDirs n start t (front ++ [hop]) rest (made && !hop.isDown)
      else
        match t.vacancy n start front hop with
        | some (place, name) => makeDirs n start (t.put place name .dir) (front ++ [hop]) rest true
        | none => (t, none)

section MakeDirs

variable [DecidableEq α] {n : Nat} {start place : List α} {t t' : PathTree α β} {front xs ys : List (Hop α)}
  {hop : Hop α} {name : α} {made made' : Bool}

theorem makeDirs_there (h : t.leadsToDir n start (front ++ [hop]) = true) :
    makeDirs n start t front (hop :: xs) made =
      makeDirs n start t (front ++ [hop]) xs (made && !hop.isDown) := by
  rw [makeDirs, if_pos h]

theorem makeDirs_new (h : t.leadsToDir n start (front ++ [.down name]) = false)
    (hfound : t.resolve n start front = .found place) (hlacks : t.lacks place name = true) :
    makeDirs n start t front (.down name :: xs) made =
      makeDirs n start (t.put place name .dir) (front ++ [.down name]) xs true := by
  have hvacancy : t.vacancy n start front (.down name) = some (place, name) :=
    vacancy_eq_some_iff.mpr ⟨rfl, hfound, hlacks⟩
  rw [makeDirs, if_neg (by simp [h]), hvacancy]

theorem makeDirs_refused (h : t.leadsToDir n start (front ++ [hop]) = false)
    (hvacancy : t.vacancy n start front hop = none) :
    makeDirs n start t front (hop :: xs) made = (t, none) := by
  rw [makeDirs, if_neg (by simp [h]), hvacancy]

/-- **Directories one by one**: what is shown of no hops and of each way to take one holds of the whole. -/
theorem makeDirs_induction (n : Nat) (start : List α)
    {P : PathTree α β → List (Hop α) → List (Hop α) → Bool → Prop}
    (nil : ∀ t front made, P t front [] made)
    (there : ∀ t front hop rest made, t.leadsToDir n start (front ++ [hop]) = true →
      P t (front ++ [hop]) rest (made && !hop.isDown) → P t front (hop :: rest) made)
    (new : ∀ t front name rest made place, t.leadsToDir n start (front ++ [.down name]) = false →
      t.resolve n start front = .found place → t.lacks place name = true →
      P (t.put place name .dir) (front ++ [.down name]) rest true → P t front (.down name :: rest) made)
    (refused : ∀ t front hop rest made, t.leadsToDir n start (front ++ [hop]) = false →
      t.vacancy n start front hop = none → P t front (hop :: rest) made)
    (t : PathTree α β) (front xs : List (Hop α)) (made : Bool) : P t front xs made := by
  induction xs generalizing t front made with
  | nil => exact nil t front made
  | cons hop rest ih =>
      cases hthere : t.leadsToDir n start (front ++ [hop]) with
      | true => exact there t front hop rest made hthere (ih _ _ _)
      | false =>
          cases hvacancy : t.vacancy n start front hop with
          | none => exact refused t front hop rest made hthere hvacancy
          | some vacant =>
              obtain ⟨place, name⟩ := vacant
              obtain ⟨rfl, hfound, hlacks⟩ := vacancy_eq_some_iff.mp hvacancy
              exact new t front name rest made place hthere hfound hlacks (ih _ _ _)

theorem makeDirs_rule {R : PathTree α β → PathTree α β → Prop} (hrefl : ∀ t, R t t)
    (htrans : ∀ t t' t'', R t t' → R t' t'' → R t t'')
    (hput : ∀ t place name, t.lacks place name = true → R t (t.put place name .dir))
    (n : Nat) (start : List α) (t : PathTree α β) (front xs : List (Hop α)) (made : Bool) :
    R t (makeDirs n start t front xs made).1 := by
  induction t, front, xs, made using makeDirs_induction n start with
  | nil t front made => exact hrefl t
  | there t front hop rest made hthere ih => rwa [makeDirs_there hthere]
  | new t front name rest made place hthere hfound hlacks ih =>
      rw [makeDirs_new hthere hfound hlacks]
      exact htrans _ _ _ (hput t place name hlacks) ih
  | refused t front hop rest made hthere hvacancy =>
      rw [makeDirs_refused hthere hvacancy]
      exact hrefl t

theorem grows_makeDirs (n : Nat) (start : List α) (t : PathTree α β) (front xs : List (Hop α)) (made : Bool) :
    Grows t (makeDirs n start t front xs made).1 :=
  makeDirs_rule Grows.refl (fun _ _ _ => Grows.trans)
    (fun t place name _ => grows_put t place name (by simp)) n start t front xs made

theorem extends_makeDirs (n : Nat) (start : List α) (t : PathTree α β) (front xs : List (Hop α))
    (made : Bool) : Extends t (makeDirs n start t front xs made).1 :=
  makeDirs_rule (fun _ _ _ h => h) (fun _ _ _ h h' place x hx => h' place x (h place x hx))
    (fun t place name _ => extends_put t place name .dir) n start t front xs made

theorem makeDirs_append :
    makeDirs n start t front (xs ++ ys) made =
      match makeDirs n start t front xs made with
      | (t', some made') => makeDirs n start t' (front ++ xs) ys made'
      | (t', none) => (t', none) := by
  induction t, front, xs, made using makeDirs_induction n start with
  | nil t front made => simp [makeDirs]
  | there t front hop rest made hthere ih =>
      rw [List.cons_append, makeDirs_there hthere, makeDirs_there hthere, ih]
      simp
  | new t front name rest made place hthere hfound hlacks ih =>
      rw [List.cons_append, makeDirs_new hthere hfound hlacks, makeDirs_new hthere hfound hlacks, ih]
      simp
  | refused t front hop rest made hthere hvacancy =>
      rw [List.cons_append, makeDirs_refused hthere hvacancy, makeDirs_refused hthere hvacancy]

theorem resolve_put (hfound : t.resolve n start front = .found place) (hlacks : t.lacks place name = true) :
    (t.put place name .dir).resolve n start (front ++ [.down name]) = .found (name :: place) := by
  obtain ⟨m, -, hys⟩ := resolve_append ((grows_put t place name (x := .dir) (by simp)).found hfound)
  have hself : (t.put place name .dir).node (name :: place) = some .dir := by
    rw [node_put hlacks, Function.update_self]
  have hdir : (t.put place name .dir).node place = some .dir :=
    (t.put place name .dir).above name place (by simp [hself])
  rw [hys, resolve_down hdir hself (by simp), resolve_nil]

theorem leadsToDir_put (hfound : t.resolve n start front = .found place)
    (hlacks : t.lacks place name = true) :
    (t.put place name .dir).leadsToDir n start (front ++ [.down name]) = true := by
  refine leadsToDir_iff.mpr ⟨name :: place, resolve_put hfound hlacks, ?_⟩
  rw [node_put hlacks, Function.update_self]

theorem node_put_below (hlacks : t.lacks place name = true) (below : α) :
    (t.put place name (.dir : Node α β)).node (below :: name :: place) = none := by
  rw [node_put hlacks, Function.update_of_ne (by simp)]
  by_contra hstands
  have habove := t.above below _ hstands
  rw [(lacks_iff.mp hlacks).2] at habove
  cases habove

/-- **Directories that were made are there.** -/
theorem leadsToDir_makeDirs (hfront : t.leadsToDir n start front = true ∨ xs ≠ [])
    (h : makeDirs n start t front xs made = (t', some made')) :
    t'.leadsToDir n start (front ++ xs) = true := by
  induction t, front, xs, made using makeDirs_induction n start with
  | nil t front made =>
      rw [makeDirs] at h
      obtain rfl := (Prod.mk.inj h).1
      simpa using hfront
  | there t front hop rest made hthere ih =>
      rw [makeDirs_there hthere] at h
      simpa using ih (Or.inl hthere) h
  | new t front name rest made place hthere hfound hlacks ih =>
      rw [makeDirs_new hthere hfound hlacks] at h
      simpa using ih (Or.inl (leadsToDir_put hfound hlacks)) h
  | refused t front hop rest made hthere hvacancy =>
      rw [makeDirs_refused hthere hvacancy] at h
      cases h

/-- **A directory that was made is new and empty**, when the path ends in a name. -/
theorem makeDirs_made (h : makeDirs n start t front (xs ++ [.down name]) made = (t', some true)) :
    ∃ place, t'.resolve n start (front ++ xs ++ [.down name]) = .found place ∧ t.node place = none ∧
      t'.node place = some .dir ∧ ∀ below, t'.node (below :: place) = none := by
  rw [makeDirs_append] at h
  rcases hbefore : makeDirs n start t front xs made with ⟨u, _ | made'⟩
  · rw [hbefore] at h
    cases h
  rw [hbefore] at h
  simp only at h
  cases hthere : u.leadsToDir n start (front ++ xs ++ [.down name]) with
  | true =>
      rw [makeDirs_there hthere, makeDirs] at h
      simp [Hop.isDown] at h
  | false =>
      cases hvacancy : u.vacancy n start (front ++ xs) (.down name) with
      | none =>
          rw [makeDirs_refused hthere hvacancy] at h
          cases h
      | some vacant =>
          obtain ⟨place, name'⟩ := vacant
          obtain ⟨hname, hfound, hlacks⟩ := vacancy_eq_some_iff.mp hvacancy
          obtain rfl := Hop.down.inj hname
          rw [makeDirs_new hthere hfound hlacks, makeDirs] at h
          obtain rfl := (Prod.mk.inj h).1
          have hgrows := grows_makeDirs n start t front xs made
          rw [hbefore] at hgrows
          refine ⟨name :: place, resolve_put hfound hlacks, ?_, ?_, node_put_below hlacks⟩
          · by_contra hstands
            exact hgrows.stands hstands (lacks_iff.mp hlacks).2
          · rw [node_put hlacks, Function.update_self]

/-- Below an empty directory the names that follow all become new directories, and nothing else does. -/
theorem makeDirs_fresh (hfound : t.resolve n start front = .found place)
    (hempty : ∀ below, t.node (below :: place) = none) (hup : .up ∉ xs)
    (h : makeDirs n start t front xs made = (t', some made')) :
    ∃ target, t'.resolve n start (front ++ xs) = .found target ∧
      (∀ below, t'.node (below :: target) = none) ∧ place <:+ target ∧
        ∀ q, t.node q = none → t'.node q ≠ none → q <:+ target := by
  induction t, front, xs, made using makeDirs_induction n start generalizing place with
  | nil t front made =>
      rw [makeDirs] at h
      obtain rfl := (Prod.mk.inj h).1
      exact ⟨place, by simpa using hfound, hempty, List.suffix_rfl, fun q hnone hsome => absurd hnone hsome⟩
  | there t front hop rest made hthere ih =>
      rw [makeDirs_there hthere] at h
      obtain ⟨q, hq, hdir⟩ := leadsToDir_iff.mp hthere
      obtain ⟨m, -, hys⟩ := resolve_append hfound
      rw [hys] at hq
      have hplace : t.node place = some .dir := by
        by_contra hblocked
        rw [resolve_blocked hblocked] at hq
        cases hq
      cases hop with
      | up => exact absurd List.mem_cons_self hup
      | down name =>
          rw [resolve_absent hplace (hempty name)] at hq
          cases hq
      | stay =>
          have hfound' : t.resolve n start (front ++ [.stay]) = .found place := by
            rw [hys, resolve_stay hplace, resolve_nil]
          simpa using ih hfound' hempty (fun hmem => hup (List.mem_cons_of_mem _ hmem)) h
  | new t front name rest made q hthere hq hlacks ih =>
      obtain rfl : place = q := Resolved.found.inj (hfound.symm.trans hq)
      rw [makeDirs_new hthere hq hlacks] at h
      obtain ⟨target, htarget, hempty', hsuffix, hnew⟩ := ih (resolve_put hq hlacks)
        (node_put_below hlacks) (fun hmem => hup (List.mem_cons_of_mem _ hmem)) h
      refine ⟨target, by simpa using htarget, hempty', (List.suffix_cons _ _).trans hsuffix, ?_⟩
      intro q' hnone hsome
      by_cases hself : q' = name :: place
      · rwa [hself]
      · exact hnew q' (by rw [node_put hlacks, Function.update_of_ne hself, hnone]) hsome
  | refused t front hop rest made hthere hvacancy =>
      rw [makeDirs_refused hthere hvacancy] at h
      cases h

/-- Either all directories are there, or from the first missing name on they are made. -/
theorem makeDirs_split (hfront : t.resolve n start front = .found place)
    (h : makeDirs n start t front xs made = (t', some made')) :
    (t' = t ∧ ∃ target, t.resolve n start (front ++ xs) = .found target) ∨
      ∃ done name rest target, xs = done ++ .down name :: rest ∧
        t.resolve n start (front ++ done) = .found target ∧ t.lacks target name = true ∧
        makeDirs n start (t.put target name .dir) (front ++ done ++ [.down name]) rest true =
          (t', some made') := by
  induction t, front, xs, made using makeDirs_induction n start generalizing place with
  | nil t front made =>
      rw [makeDirs] at h
      exact Or.inl ⟨(Prod.mk.inj h).1.symm, place, by simpa using hfront⟩
  | there t front hop rest made hthere ih =>
      rw [makeDirs_there hthere] at h
      obtain ⟨q, hq, -⟩ := leadsToDir_iff.mp hthere
      rcases ih hq h with ⟨rfl, hall⟩ | ⟨done, name, rest', target, rfl, hdone, hlacks, hmade⟩
      · exact Or.inl ⟨rfl, by simpa using hall⟩
      · exact Or.inr ⟨hop :: done, name, rest', target, rfl, by simpa using hdone, hlacks,
          by simpa using hmade⟩
  | new t front name rest made q hthere hq hlacks ih =>
      rw [makeDirs_new hthere hq hlacks] at h
      exact Or.inr ⟨[], name, rest, q, rfl, by simpa using hq, hlacks, by simpa using h⟩
  | refused t front hop rest made hthere hvacancy =>
      rw [makeDirs_refused hthere hvacancy] at h
      cases h

/-- **Making directories** along a path that does not climb behind its first missing name: they were all
there and nothing changes, or the last one is empty and only directories above it are new. -/
theorem makeDirs_cases
    (hclimb : ∀ target name rest, t.resolve n start xs = .absent target name rest → .up ∉ rest)
    (h : makeDirs n start t [] xs made = (t', some made')) :
    (t' = t ∧ ∃ target, t.resolve n start xs = .found target) ∨
      (∃ place name rest, t.resolve n start xs = .absent place name rest) ∧
        ∃ target, t'.resolve n start xs = .found target ∧ (∀ below, t'.node (below :: target) = none) ∧
          ∀ q, t.node q = none → t'.node q ≠ none → q <:+ target := by
  rcases makeDirs_split (resolve_nil t n start) h with hall | ⟨done, name, rest, place, rfl, hdone, hlacks, hmade⟩
  · exact Or.inl (by simpa using hall)
  · right
    simp only [List.nil_append] at hdone hmade
    obtain ⟨m, -, hys⟩ := resolve_append hdone
    have habsent : t.resolve n start (done ++ .down name :: rest) = .absent place name rest := by
      rw [hys, resolve_absent (lacks_iff.mp hlacks).1 (lacks_iff.mp hlacks).2]
    obtain ⟨target, htarget, hempty, hsuffix, hnew⟩ := makeDirs_fresh (resolve_put hdone hlacks)
      (node_put_below hlacks) (hclimb place name rest habsent) hmade
    refine ⟨⟨place, name, rest, habsent⟩, target, by simpa using htarget, hempty, fun q hnone hsome => ?_⟩
    by_cases hself : q = name :: place
    · rwa [hself]
    · exact hnew q (by rw [node_put hlacks, Function.update_of_ne hself, hnone]) hsome

end MakeDirs

/-! ### Entries -/

def child (t : PathTree α β) (n : Nat) (start : List α) (base : List (Hop α)) (name : α) :
    Option (Node α β) :=
  match t.resolve n start base with
  | .found place => t.node (name :: place)
  | _ => none

theorem child_of_found {t : PathTree α β} {n : Nat} {start place : List α} {base : List (Hop α)} {name : α}
    (h : t.resolve n start base = .found place) : t.child n start base name = t.node (name :: place) := by
  rw [child, h]

theorem child_of_not_found {t : PathTree α β} {n : Nat} {start : List α} {base : List (Hop α)} {name : α}
    (h : ∀ place, t.resolve n start base ≠ .found place) : t.child n start base name = none := by
  rw [child]
  split
  next place hplace => exact absurd hplace (h place)
  next => rfl

/-- `t'` is `t` with `x` under `name` in the directory at the end of `base`, which was there, or which was
made, with what was missing above it, in `middle`. -/
structure Entered [DecidableEq α] (t t' : PathTree α β) (n : Nat) (start : List α) (base : List (Hop α))
    (name : α) (x : Node α β) (middle : PathTree α β) (place : List α) : Prop where
  found : middle.resolve n start base = .found place
  lacks : middle.lacks place name = true
  eq : t' = middle.put place name x
  made : middle = t ∨ (∀ target, t.resolve n start base ≠ .found target) ∧
    (∀ below, middle.node (below :: place) = none) ∧ Extends t middle ∧
      ∀ q, t.node q = none → middle.node q ≠ none → q <:+ place

section Entered

variable [DecidableEq α] {t t' middle : PathTree α β} {n : Nat} {start place : List α}
  {base : List (Hop α)} {name other : α} {x : Node α β} {made made' : Bool}

theorem Entered.free (h : Entered t t' n start base name x middle place) : t.child n start base name = none := by
  rcases h.made with rfl | ⟨hmissing, -⟩
  · rw [child_of_found h.found, (lacks_iff.mp h.lacks).2]
  · exact child_of_not_found hmissing

theorem Entered.resolve (h : Entered t t' n start base name x middle place)
    (hx : ∀ rooted hops, x ≠ .link rooted hops) : t'.resolve n start base = .found place :=
  h.eq ▸ (grows_put middle place name hx).found h.found

theorem Entered.placed (h : Entered t t' n start base name x middle place)
    (hx : ∀ rooted hops, x ≠ .link rooted hops) : t'.child n start base name = some x := by
  rw [child_of_found (h.resolve hx), h.eq, node_put h.lacks, Function.update_self]

theorem Entered.others (h : Entered t t' n start base name x middle place)
    (hx : ∀ rooted hops, x ≠ .link rooted hops) (hne : other ≠ name) :
    t'.child n start base other = t.child n start base other := by
  have hbeside : other :: place ≠ name :: place := by simpa using hne
  rw [child_of_found (h.resolve hx), h.eq, node_put h.lacks, Function.update_of_ne hbeside]
  rcases h.made with rfl | ⟨hmissing, hempty, -⟩
  · exact (child_of_found h.found).symm
  · rw [hempty, child_of_not_found hmissing]

theorem Entered.added (h : Entered t t' n start base name x middle place) {q : List α}
    (hnone : t.node q = none) (hsome : t'.node q ≠ none) : q <:+ name :: place := by
  rw [h.eq, node_put h.lacks] at hsome
  by_cases hself : q = name :: place
  · exact hself ▸ List.suffix_rfl
  rw [Function.update_of_ne hself] at hsome
  rcases h.made with rfl | ⟨-, -, -, hnew⟩
  · exact absurd hnone hsome
  · exact (hnew q hnone hsome).trans (List.suffix_cons _ _)

theorem made_of_makeDirs
    (hclimb : ∀ target name rest, t.resolve n start base = .absent target name rest → .up ∉ rest)
    (h : makeDirs n start t [] base made = (middle, some made')) :
    ∃ place, middle.resolve n start base = .found place ∧
      (middle = t ∨ (∀ target, t.resolve n start base ≠ .found target) ∧
        (∀ below, middle.node (below :: place) = none) ∧ Extends t middle ∧
          ∀ q, t.node q = none → middle.node q ≠ none → q <:+ place) := by
  rcases makeDirs_cases hclimb h with
    ⟨rfl, place, hplace⟩ | ⟨⟨q, c, rest, habsent⟩, place, hplace, hempty, hnew⟩
  · exact ⟨place, hplace, Or.inl rfl⟩
  · have hextends := extends_makeDirs n start t [] base made
    rw [h] at hextends
    exact ⟨place, hplace, Or.inr ⟨by simp [habsent], hempty, hextends, hnew⟩⟩

theorem nowhere_of_makeDirs
    (hclimb : ∀ target name rest, t.resolve n start base = .absent target name rest → .up ∉ rest)
    (hnowhere : ∀ target, t.resolve n start (base ++ [.down name]) ≠ .found target)
    (h : makeDirs n start t [] base made = (middle, some made')) (target : List α) :
    middle.resolve n start (base ++ [.down name]) ≠ .found target := by
  obtain ⟨place, hplace, rfl | ⟨-, hempty, -⟩⟩ := made_of_makeDirs hclimb h
  · exact hnowhere target
  · obtain ⟨m, -, hys⟩ := resolve_append hplace
    rw [hys]
    by_cases hdir : middle.node place = some .dir
    · simp [resolve_absent hdir (hempty name)]
    · simp [resolve_blocked hdir]

/-- **A directory under a name that led nowhere** is entered. -/
theorem entered_of_makeDirs
    (hclimb : ∀ target name rest, t.resolve n start base = .absent target name rest → .up ∉ rest)
    (hnowhere : ∀ target, t.resolve n start (base ++ [.down name]) ≠ .found target)
    (h : makeDirs n start t [] (base ++ [.down name]) made = (t', some made')) :
    ∃ middle place, Entered t t' n start base name .dir middle place := by
  rw [makeDirs_append] at h
  rcases hbase : makeDirs n start t [] base made with ⟨middle, _ | made''⟩
  · rw [hbase] at h
    cases h
  rw [hbase] at h
  simp only [List.nil_append] at h
  obtain ⟨place, hplace, hmade⟩ := made_of_makeDirs hclimb hbase
  have hleads : middle.leadsToDir n start (base ++ [.down name]) = false := by
    rw [Bool.eq_false_iff]
    intro hleads
    obtain ⟨target, htarget, -⟩ := leadsToDir_iff.mp hleads
    exact nowhere_of_makeDirs hclimb hnowhere hbase target htarget
  cases hvacancy : middle.vacancy n start base (.down name) with
  | none =>
      rw [makeDirs_refused hleads hvacancy] at h
      cases h
  | some vacant =>
      obtain ⟨place', name'⟩ := vacant
      obtain ⟨hname, hplace', hlacks⟩ := vacancy_eq_some_iff.mp hvacancy
      obtain rfl := Hop.down.inj hname
      obtain rfl : place = place' := Resolved.found.inj (hplace.symm.trans hplace')
      rw [makeDirs_new hleads hplace hlacks, makeDirs] at h
      exact ⟨middle, place, hplace, hlacks, (Prod.mk.inj h).1.symm, hmade⟩

/-- **A node put where a path broke off**, once the directories before it are made, is entered. -/
theorem entered_of_absent {q : List α} {c : α}
    (hclimb : ∀ target name rest, t.resolve n start base = .absent target name rest → .up ∉ rest)
    (hfree : t.child n start base name = none)
    (hmade : makeDirs n start t [] base made = (middle, some made'))
    (habsent : middle.resolve n start (base ++ [.down name]) = .absent q c []) :
    Entered t (middle.put q c x) n start base name x middle q := by
  have hbreak : ∀ place, middle.resolve n start base = .found place → middle.node (name :: place) = none →
      q = place ∧ c = name := by
    intro place hplace hnone
    obtain ⟨m, -, hys⟩ := resolve_append hplace
    rw [hys] at habsent
    by_cases hdir : middle.node place = some .dir
    · rw [resolve_absent hdir hnone] at habsent
      obtain ⟨rfl, rfl, -⟩ := Resolved.absent.inj habsent
      exact ⟨rfl, rfl⟩
    · rw [resolve_blocked hdir] at habsent
      cases habsent
  have hlacks : middle.lacks q c = true := lacks_iff.mpr (absent_spec habsent)
  obtain ⟨place, hplace, hbefore⟩ := made_of_makeDirs hclimb hmade
  have hnone : middle.node (name :: place) = none := by
    rcases hbefore with rfl | ⟨-, hempty, -⟩
    · rwa [child_of_found hplace] at hfree
    · exact hempty name
  obtain ⟨rfl, rfl⟩ := hbreak place hplace hnone
  exact ⟨hplace, hlacks, rfl, hbefore⟩

end Entered

end PathTree
