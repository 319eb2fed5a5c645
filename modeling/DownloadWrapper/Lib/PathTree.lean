import Mathlib.Data.List.Infix
import Mathlib.Logic.Function.Basic

/-!
# Trees of files

A place is given by the names down to it, the last one first. What stands at places makes a tree: above
whatever stands there is a directory. A path is a list of hops and is resolved from some place as an
operating system resolves it: a hop is taken in a directory alone, and a link is replaced by the path it
keeps, a bounded number of times.
-/

/-- One hop of a path. -/
inductive PathTree.Hop (α : Type*) where
  | stay
  | up
  | down (name : α)
  deriving DecidableEq

/-- What stands at a place. A link keeps a path, from the root or from the directory the link is in. -/
inductive PathTree.Node (α β : Type*) where
  | dir
  | file (content : β)
  | link (rooted : Bool) (hops : List (PathTree.Hop α))
  deriving DecidableEq

structure PathTree (α β : Type*) where
  node : List α → Option (PathTree.Node α β)
  root : node [] = some .dir
  above : ∀ name place, node (name :: place) ≠ none → node place = some .dir

namespace PathTree

variable {α β : Type*}

def empty : PathTree α β where
  node
    | [] => some .dir
    | _ :: _ => none
  root := rfl
  above _ _ h := absurd rfl h

/-- Where a path leads: to a place, to a name that is missing in a directory, with the hops that are left
behind it, or to nothing. -/
inductive Resolved (α : Type*) where
  | found (place : List α)
  | absent (place : List α) (name : α) (rest : List (Hop α))
  | lost
  deriving DecidableEq

/-- The hops one after another. `follow` goes on from a link. -/
def descend (t : PathTree α β) (follow : List α → List (Hop α) → Resolved α) :
    List α → List (Hop α) → Resolved α
  | place, [] => .found place
  | place, hop :: rest =>
      match t.node place with
      | some .dir =>
          match hop with
          | .stay => descend t follow place rest
          | .up => descend t follow place.tail rest
          | .down name =>
              match t.node (name :: place) with
              | none => .absent place name rest
              | some (.link rooted hops) => follow (if rooted then [] else place) (hops ++ rest)
              | some .dir => descend t follow (name :: place) rest
              | some (.file _) => descend t follow (name :: place) rest
      | _ => .lost

/-- The path from `place`, with at most `n` links followed. -/
def resolve (t : PathTree α β) : Nat → List α → List (Hop α) → Resolved α
  | 0 => t.descend fun _ _ => .lost
  | n + 1 => t.descend (t.resolve n)

section Resolve

variable {t : PathTree α β} {n : Nat} {place : List α} {name : α} {hop : Hop α} {rest : List (Hop α)}

@[simp] theorem resolve_nil (t : PathTree α β) (n : Nat) (place : List α) :
    t.resolve n place [] = .found place := by
  cases n <;> rfl

theorem resolve_blocked (h : t.node place ≠ some .dir) : t.resolve n place (hop :: rest) = .lost := by
  cases n <;>
  · rw [resolve, descend.eq_def]
    simp only

@[simp] theorem resolve_stay (h : t.node place = some .dir) :
    t.resolve n place (.stay :: rest) = t.resolve n place rest := by
  cases n <;> simp [resolve, descend, h]

@[simp] theorem resolve_up (h : t.node place = some .dir) :
    t.resolve n place (.up :: rest) = t.resolve n place.tail rest := by
  cases n <;> simp [resolve, descend, h]

theorem resolve_absent (h : t.node place = some .dir) (hnone : t.node (name :: place) = none) :
    t.resolve n place (.down name :: rest) = .absent place name rest := by
  cases n <;> simp [resolve, descend, h, hnone]

theorem resolve_link_zero {rooted : Bool} {hops : List (Hop α)} (h : t.node place = some .dir)
    (hlink : t.node (name :: place) = some (.link rooted hops)) :
    t.resolve 0 place (.down name :: rest) = .lost := by
  simp [resolve, descend, h, hlink]

theorem resolve_link {rooted : Bool} {hops : List (Hop α)} (h : t.node place = some .dir)
    (hlink : t.node (name :: place) = some (.link rooted hops)) :
    t.resolve (n + 1) place (.down name :: rest) =
      t.resolve n (if rooted then [] else place) (hops ++ rest) := by
  simp [resolve, descend, h, hlink]

theorem resolve_down {x : Node α β} (h : t.node place = some .dir)
    (hnode : t.node (name :: place) = some x) (hx : ∀ rooted hops, x ≠ .link rooted hops) :
    t.resolve n place (.down name :: rest) = t.resolve n (name :: place) rest := by
  cases x with
  | dir => cases n <;> simp [resolve, descend, h, hnode]
  | file content => cases n <;> simp [resolve, descend, h, hnode]
  | link rooted hops => exact absurd rfl (hx rooted hops)

/-- **Resolution step by step**: what is shown of a path for each thing that may stand at its first hop, out
of the path that is left, holds of every path. -/
theorem resolve_induction (t : PathTree α β) {P : Nat → List α → List (Hop α) → Prop}
    (nil : ∀ n place, P n place [])
    (blocked : ∀ n place hop rest, t.node place ≠ some .dir → P n place (hop :: rest))
    (stay : ∀ n place rest, t.node place = some .dir → P n place rest → P n place (.stay :: rest))
    (up : ∀ n place rest, t.node place = some .dir → P n place.tail rest → P n place (.up :: rest))
    (absent : ∀ n place name rest, t.node place = some .dir → t.node (name :: place) = none →
      P n place (.down name :: rest))
    (loop : ∀ place name rest rooted hops, t.node place = some .dir →
      t.node (name :: place) = some (.link rooted hops) → P 0 place (.down name :: rest))
    (link : ∀ n place name rest rooted hops, t.node place = some .dir →
      t.node (name :: place) = some (.link rooted hops) →
      P n (if rooted then [] else place) (hops ++ rest) → P (n + 1) place (.down name :: rest))
    (down : ∀ n place name rest x, t.node place = some .dir → t.node (name :: place) = some x →
      (∀ rooted hops, x ≠ .link rooted hops) → P n (name :: place) rest →
      P n place (.down name :: rest))
    (n : Nat) (place : List α) (hops : List (Hop α)) : P n place hops := by
  -- outside the links that may still be followed, inside the hops
  have hhops : ∀ n, (∀ place name rest rooted hops, t.node place = some .dir →
      t.node (name :: place) = some (.link rooted hops) → P n place (.down name :: rest)) →
      ∀ hops place, P n place hops := by
    intro n hlink hops
    induction hops with
    | nil => exact nil n
    | cons hop rest ih =>
        intro place
        by_cases hdir : t.node place = some .dir
        · cases hop with
          | stay => exact stay n place rest hdir (ih place)
          | up => exact up n place rest hdir (ih place.tail)
          | down name =>
              cases hnode : t.node (name :: place) with
              | none => exact absent n place name rest hdir hnode
              | some x =>
                  cases x with
                  | link rooted hops => exact hlink place name rest rooted hops hdir hnode
                  | dir => exact down n place name rest _ hdir hnode (by simp) (ih _)
                  | file content => exact down n place name rest _ hdir hnode (by simp) (ih _)
        · exact blocked n place hop rest hdir
  induction n generalizing place hops with
  | zero => exact hhops 0 loop hops place
  | succ n ih =>
      refine hhops (n + 1) ?_ hops place
      intro place name rest rooted hops hdir hlink
      exact link n place name rest rooted hops hdir hlink (ih _ _)

end Resolve

/-! ### A path behind a path -/

section Append

variable {t : PathTree α β} {n : Nat} {place target : List α} {xs : List (Hop α)}

def Resolved.onward (t : PathTree α β) (n : Nat) (ys : List (Hop α)) : Resolved α → Resolved α
  | found place => t.resolve n place ys
  | absent place name rest => absent place name (rest ++ ys)
  | lost => lost

/-- **A path behind a path** goes on from where the first one leads. -/
theorem exists_resolve_append (t : PathTree α β) (n : Nat) (place : List α) (xs : List (Hop α)) :
    ∃ m ≤ n, ∀ ys, t.resolve n place (xs ++ ys) = (t.resolve n place xs).onward t m ys := by
  induction n, place, xs using resolve_induction t with
  | nil n place => exact ⟨n, le_rfl, fun ys => by rw [resolve_nil]; rfl⟩
  | blocked n place hop rest hdir =>
      refine ⟨n, le_rfl, fun ys => ?_⟩
      rw [List.cons_append, resolve_blocked hdir, resolve_blocked hdir]
      rfl
  | stay n place rest hdir ih =>
      obtain ⟨m, hm, hys⟩ := ih
      refine ⟨m, hm, fun ys => ?_⟩
      rw [List.cons_append, resolve_stay hdir, resolve_stay hdir, hys]
  | up n place rest hdir ih =>
      obtain ⟨m, hm, hys⟩ := ih
      refine ⟨m, hm, fun ys => ?_⟩
      rw [List.cons_append, resolve_up hdir, resolve_up hdir, hys]
  | absent n place name rest hdir hnone =>
      refine ⟨n, le_rfl, fun ys => ?_⟩
      rw [List.cons_append, resolve_absent hdir hnone, resolve_absent hdir hnone]
      rfl
  | loop place name rest rooted hops hdir hlink =>
      refine ⟨0, le_rfl, fun ys => ?_⟩
      rw [List.cons_append, resolve_link_zero hdir hlink, resolve_link_zero hdir hlink]
      rfl
  | link n place name rest rooted hops hdir hlink ih =>
      obtain ⟨m, hm, hys⟩ := ih
      refine ⟨m, Nat.le_succ_of_le hm, fun ys => ?_⟩
      rw [List.cons_append, resolve_link hdir hlink, resolve_link hdir hlink, ← List.append_assoc, hys]
  | down n place name rest x hdir hnode hx ih =>
      obtain ⟨m, hm, hys⟩ := ih
      refine ⟨m, hm, fun ys => ?_⟩
      rw [List.cons_append, resolve_down hdir hnode hx, resolve_down hdir hnode hx, hys]

theorem resolve_append (h : t.resolve n place xs = .found target) :
    ∃ m ≤ n, ∀ ys, t.resolve n place (xs ++ ys) = t.resolve m target ys := by
  obtain ⟨m, hm, hys⟩ := exists_resolve_append t n place xs
  refine ⟨m, hm, fun ys => ?_⟩
  rw [hys, h]
  rfl

theorem resolve_append_of_absent {name : α} {left : List (Hop α)}
    (h : t.resolve n place xs = .absent target name left) (ys : List (Hop α)) :
    t.resolve n place (xs ++ ys) = .absent target name (left ++ ys) := by
  obtain ⟨m, -, hys⟩ := exists_resolve_append t n place xs
  rw [hys, h]
  rfl

theorem resolve_append_of_lost (h : t.resolve n place xs = .lost) (ys : List (Hop α)) :
    t.resolve n place (xs ++ ys) = .lost := by
  obtain ⟨m, -, hys⟩ := exists_resolve_append t n place xs
  rw [hys, h]
  rfl

theorem resolve_of_append {ys : List (Hop α)} (h : t.resolve n place (xs ++ ys) = .found target) :
    ∃ middle, t.resolve n place xs = .found middle := by
  cases hxs : t.resolve n place xs with
  | found middle => exact ⟨middle, rfl⟩
  | absent q name rest =>
      rw [resolve_append_of_absent hxs] at h
      cases h
  | lost =>
      rw [resolve_append_of_lost hxs] at h
      cases h

theorem stands_of_found (h : t.resolve n place xs = .found target) (hplace : t.node place ≠ none) :
    t.node target ≠ none := by
  induction n, place, xs using resolve_induction t with
  | nil n place =>
      obtain rfl : place = target := by simpa using h
      exact hplace
  | blocked n place hop rest hdir => simp [resolve_blocked hdir] at h
  | stay n place rest hdir ih =>
      rw [resolve_stay hdir] at h
      exact ih h hplace
  | up n place rest hdir ih =>
      rw [resolve_up hdir] at h
      refine ih h ?_
      cases place with
      | nil => exact hplace
      | cons name place => simp [t.above name place hplace]
  | absent n place name rest hdir hnone => simp [resolve_absent hdir hnone] at h
  | loop place name rest rooted hops hdir hlink => simp [resolve_link_zero hdir hlink] at h
  | link n place name rest rooted hops hdir hlink ih =>
      rw [resolve_link hdir hlink] at h
      refine ih h ?_
      cases rooted with
      | true => simp [t.root]
      | false => exact hplace
  | down n place name rest x hdir hnode hx ih =>
      rw [resolve_down hdir hnode hx] at h
      exact ih h (by simp [hnode])

theorem stands_of_found_of_ne_nil (h : t.resolve n place xs = .found target) (hne : xs ≠ []) :
    t.node target ≠ none := by
  refine stands_of_found h fun hnone => ?_
  obtain ⟨hop, rest, rfl⟩ := List.exists_cons_of_ne_nil hne
  rw [resolve_blocked (by simp [hnone])] at h
  cases h

theorem absent_spec {name : α} {left : List (Hop α)}
    (h : t.resolve n place xs = .absent target name left) :
    t.node target = some .dir ∧ t.node (name :: target) = none := by
  induction n, place, xs using resolve_induction t with
  | nil n place => simp at h
  | blocked n place hop rest hdir => simp [resolve_blocked hdir] at h
  | stay n place rest hdir ih => exact ih (by rwa [resolve_stay hdir] at h)
  | up n place rest hdir ih => exact ih (by rwa [resolve_up hdir] at h)
  | absent n place name' rest hdir hnone =>
      rw [resolve_absent hdir hnone] at h
      obtain ⟨rfl, rfl, rfl⟩ := Resolved.absent.inj h
      exact ⟨hdir, hnone⟩
  | loop place name rest rooted hops hdir hlink => simp [resolve_link_zero hdir hlink] at h
  | link n place name rest rooted hops hdir hlink ih => exact ih (by rwa [resolve_link hdir hlink] at h)
  | down n place name rest x hdir hnode hx ih => exact ih (by rwa [resolve_down hdir hnode hx] at h)

theorem stands_of_suffix {low high : List α} (hsuffix : high <:+ low) (h : t.node low ≠ none) :
    t.node high ≠ none := by
  obtain ⟨names, rfl⟩ := hsuffix
  induction names with
  | nil => exact h
  | cons name names ih =>
      have hdir : t.node (names ++ high) = some .dir := t.above name _ h
      exact ih (by simp [hdir])

end Append

/-! ### Changes -/

def Node.kind : Node α β → Node α Unit
  | dir => .dir
  | file _ => .file ()
  | link rooted hops => .link rooted hops

/-- The later tree has what the earlier one has, with other contents perhaps, and no new links. -/
structure Grows (t t' : PathTree α β) : Prop where
  kept : ∀ place x, t.node place = some x → ∃ y, t'.node place = some y ∧ y.kind = x.kind
  unlinked : ∀ place rooted hops, t.node place = none → t'.node place ≠ some (.link rooted hops)

/-- The later tree has all the earlier one has, unchanged. -/
def Extends (t t' : PathTree α β) : Prop := ∀ place x, t.node place = some x → t'.node place = some x

section Grows

variable {t t' t'' : PathTree α β} {n : Nat} {place target : List α} {name : α} {xs : List (Hop α)}

theorem Grows.refl (t : PathTree α β) : Grows t t where
  kept _ x h := ⟨x, h, rfl⟩
  unlinked _ _ _ h h' := by rw [h] at h'; cases h'

theorem Node.kind_eq_dir {x : Node α β} (h : x.kind = .dir) : x = .dir := by
  cases x with
  | dir => rfl
  | file content => cases h
  | link rooted hops => cases h

theorem Node.kind_eq_link {x : Node α β} {rooted : Bool} {hops : List (Hop α)}
    (h : x.kind = .link rooted hops) : x = .link rooted hops := by
  cases x with
  | dir => cases h
  | file content => cases h
  | link rooted' hops' => exact congrArg₂ Node.link (Node.link.inj h).1 (Node.link.inj h).2

theorem Grows.dir (h : Grows t t') (hdir : t.node place = some .dir) : t'.node place = some .dir := by
  obtain ⟨y, hy, hkind⟩ := h.kept place _ hdir
  rw [hy, Node.kind_eq_dir hkind]

theorem Grows.link (h : Grows t t') {rooted : Bool} {hops : List (Hop α)}
    (hlink : t.node place = some (.link rooted hops)) : t'.node place = some (.link rooted hops) := by
  obtain ⟨y, hy, hkind⟩ := h.kept place _ hlink
  rw [hy, Node.kind_eq_link hkind]

theorem Grows.stands (h : Grows t t') (hplace : t.node place ≠ none) : t'.node place ≠ none := by
  obtain ⟨x, hx⟩ := Option.ne_none_iff_exists'.mp hplace
  obtain ⟨y, hy, -⟩ := h.kept place x hx
  simp [hy]

theorem Grows.trans (h : Grows t t') (h' : Grows t' t'') : Grows t t'' where
  kept place x hx := by
    obtain ⟨y, hy, hkind⟩ := h.kept place x hx
    obtain ⟨z, hz, hkind'⟩ := h'.kept place y hy
    exact ⟨z, hz, hkind'.trans hkind⟩
  unlinked place rooted hops hnone hlink := by
    cases hmid : t'.node place with
    | none => exact h'.unlinked place rooted hops hmid hlink
    | some y =>
        obtain ⟨z, hz, hkind⟩ := h'.kept place y hmid
        obtain rfl : z = .link rooted hops := Option.some.inj (hz.symm.trans hlink)
        rw [Node.kind_eq_link hkind.symm] at hmid
        exact h.unlinked place rooted hops hnone hmid

theorem Grows.found (hgrows : Grows t t') (h : t.resolve n place xs = .found target) :
    t'.resolve n place xs = .found target := by
  induction n, place, xs using resolve_induction t with
  | nil n place => rwa [resolve_nil] at h ⊢
  | blocked n place hop rest hdir => simp [resolve_blocked hdir] at h
  | stay n place rest hdir ih =>
      rw [resolve_stay hdir] at h
      rw [resolve_stay (hgrows.dir hdir), ih h]
  | up n place rest hdir ih =>
      rw [resolve_up hdir] at h
      rw [resolve_up (hgrows.dir hdir), ih h]
  | absent n place name rest hdir hnone => simp [resolve_absent hdir hnone] at h
  | loop place name rest rooted hops hdir hlink => simp [resolve_link_zero hdir hlink] at h
  | link n place name rest rooted hops hdir hlink ih =>
      rw [resolve_link hdir hlink] at h
      rw [resolve_link (hgrows.dir hdir) (hgrows.link hlink), ih h]
  | down n place name rest x hdir hnode hx ih =>
      rw [resolve_down hdir hnode hx] at h
      obtain ⟨y, hy, hkind⟩ := hgrows.kept _ x hnode
      have hplain : ∀ rooted hops, y ≠ .link rooted hops := by
        rintro rooted hops rfl
        exact hx rooted hops (Node.kind_eq_link hkind.symm)
      rw [resolve_down (hgrows.dir hdir) hy hplain, ih h]

end Grows

section Put

variable [DecidableEq α] {t : PathTree α β} {n : Nat} {place target : List α} {name : α} {x : Node α β}

/-- There is a directory, without the name. -/
def lacks (t : PathTree α β) (place : List α) (name : α) : Bool :=
  match t.node place, t.node (name :: place) with
  | some .dir, none => true
  | _, _ => false

omit [DecidableEq α] in
theorem lacks_iff : t.lacks place name = true ↔ t.node place = some .dir ∧ t.node (name :: place) = none := by
  rw [lacks]
  split
  next hdir hnone => simp [hdir, hnone]
  next hother =>
    simp only [Bool.false_eq_true, false_iff]
    exact fun h => hother h.1 h.2

/-- A new node in a directory. Where there is none, or the name is taken, nothing changes. -/
def put (t : PathTree α β) (place : List α) (name : α) (x : Node α β) : PathTree α β :=
  if h : t.lacks place name = true then
    { node := Function.update t.node (name :: place) (some x)
      root := by rw [Function.update_of_ne (by simp), t.root]
      above := by
        obtain ⟨hdir, hnone⟩ := lacks_iff.mp h
        intro name' place' hstands
        have hother : place' ≠ name :: place := by
          rintro rfl
          rw [Function.update_of_ne (by simp)] at hstands
          rw [t.above name' _ hstands] at hnone
          cases hnone
        rw [Function.update_of_ne hother]
        by_cases hnew : name' :: place' = name :: place
        · exact (List.cons.inj hnew).2 ▸ hdir
        · rw [Function.update_of_ne hnew] at hstands
          exact t.above name' place' hstands }
  else t

theorem node_put (h : t.lacks place name = true) (x : Node α β) :
    (t.put place name x).node = Function.update t.node (name :: place) (some x) := by
  rw [put, dif_pos h]

theorem extends_put (t : PathTree α β) (place : List α) (name : α) (x : Node α β) :
    Extends t (t.put place name x) := by
  intro q y hy
  by_cases h : t.lacks place name = true
  · have hne : q ≠ name :: place := by
      rintro rfl
      rw [(lacks_iff.mp h).2] at hy
      cases hy
    rw [node_put h, Function.update_of_ne hne, hy]
  · rwa [put, dif_neg h]

theorem grows_put (t : PathTree α β) (place : List α) (name : α)
    (hx : ∀ rooted hops, x ≠ .link rooted hops) : Grows t (t.put place name x) := by
  refine ⟨fun q y hy => ⟨y, extends_put t place name x q y hy, rfl⟩, fun q rooted hops hq => ?_⟩
  by_cases h : t.lacks place name = true
  · rw [node_put h]
    by_cases hq' : q = name :: place
    · rw [hq', Function.update_self]
      exact fun heq => hx rooted hops (Option.some.inj heq)
    · simp [Function.update_of_ne hq', hq]
  · simp [put, h, hq]

theorem resolve_put_of_absent {n : Nat} {start : List α} {xs : List (Hop α)}
    (h : t.resolve n start xs = .absent place name [])
    (hx : ∀ rooted hops, x ≠ .link rooted hops) :
    (t.put place name x).resolve n start xs = .found (name :: place) := by
  have hgrows := grows_put t place name hx
  have hlacks : t.lacks place name = true := lacks_iff.mpr (absent_spec h)
  induction n, start, xs using resolve_induction t with
  | nil n start => simp at h
  | blocked n start hop rest hdir => simp [resolve_blocked hdir] at h
  | stay n start rest hdir ih =>
      rw [resolve_stay hdir] at h
      rw [resolve_stay (hgrows.dir hdir), ih h]
  | up n start rest hdir ih =>
      rw [resolve_up hdir] at h
      rw [resolve_up (hgrows.dir hdir), ih h]
  | absent n start name' rest hdir hnone =>
      rw [resolve_absent hdir hnone] at h
      obtain ⟨rfl, rfl, rfl⟩ := Resolved.absent.inj h
      rw [resolve_down (hgrows.dir hdir) (by rw [node_put hlacks, Function.update_self]) hx, resolve_nil]
  | loop start name' rest rooted hops hdir hlink => simp [resolve_link_zero hdir hlink] at h
  | link n start name' rest rooted hops hdir hlink ih =>
      rw [resolve_link hdir hlink] at h
      rw [resolve_link (hgrows.dir hdir) (hgrows.link hlink), ih h]
  | down n start name' rest y hdir hnode hy ih =>
      rw [resolve_down hdir hnode hy] at h
      rw [resolve_down (hgrows.dir hdir) (extends_put t place name x _ y hnode) hy, ih h]

def holds (t : PathTree α β) (place : List α) : Bool :=
  match t.node place with
  | some (.file _) => true
  | _ => false

omit [DecidableEq α] in
theorem holds_iff : t.holds place = true ↔ ∃ content, t.node place = some (.file content) := by
  rw [holds]
  split
  next content h => simp [h]
  next hother =>
    simp only [Bool.false_eq_true, false_iff]
    rintro ⟨content, h⟩
    exact hother content h

def write (t : PathTree α β) (place : List α) (content : β) : PathTree α β :=
  if h : t.holds place = true then
    { node := Function.update t.node place (some (.file content))
      root := by
        obtain ⟨old, hold⟩ := holds_iff.mp h
        rw [Function.update_of_ne, t.root]
        rintro rfl
        rw [t.root] at hold
        cases hold
      above := by
        obtain ⟨old, hold⟩ := holds_iff.mp h
        intro name' place' hstands
        have hdir : t.node place' = some .dir := by
          refine t.above name' place' fun hnone => hstands ?_
          rw [Function.update_of_ne, hnone]
          rintro rfl
          rw [hold] at hnone
          cases hnone
        rw [Function.update_of_ne, hdir]
        rintro rfl
        rw [hold] at hdir
        cases hdir }
  else t

theorem grows_write (t : PathTree α β) (place : List α) (content : β) : Grows t (t.write place content) := by
  rw [write]
  split
  next h =>
    obtain ⟨old, hold⟩ := holds_iff.mp h
    refine ⟨fun q y hy => ?_, fun q rooted hops hq => ?_⟩
    · by_cases hsame : q = place
      · subst hsame
        obtain rfl : y = .file old := Option.some.inj (hy.symm.trans hold)
        exact ⟨.file content, Function.update_self .., rfl⟩
      · exact ⟨y, (Function.update_of_ne hsame ..).trans hy, rfl⟩
    · have hne : q ≠ place := by
        rintro rfl
        rw [hold] at hq
        cases hq
      simp [Function.update_of_ne hne, hq]
  next => exact .refl t

end Put

/-! ### Below a place -/

/-- The names that hops lead to from `names` on, unless they climb out of where those start. -/
def within : List α → List (Hop α) → Option (List α)
  | names, [] => some names
  | names, .stay :: rest => within names rest
  | [], .up :: _ => none
  | _ :: names, .up :: rest => within names rest
  | names, .down name :: rest => within (name :: names) rest

/-- No link is at the place or below it. -/
def Unlinked (t : PathTree α β) (base : List α) : Prop :=
  ∀ names rooted hops, t.node (names ++ base) ≠ some (.link rooted hops)

section Below

variable {t t' : PathTree α β} {n : Nat} {base names names' target : List α} {xs ys : List (Hop α)}

theorem within_append : within names (xs ++ ys) = (within names xs).bind fun found => within found ys := by
  induction names, xs using within.induct with
  | case1 names => rfl
  | case2 names rest ih => exact ih
  | case3 rest => rfl
  | case4 name names rest ih => exact ih
  | case5 names name rest ih => simpa [within] using ih

theorem within_behind (base : List α) (h : within names xs = some names') :
    within (names ++ base) xs = some (names' ++ base) := by
  induction names, xs using within.induct with
  | case1 names =>
      obtain rfl : names = names' := Option.some.inj h
      cases names <;> cases base <;> rfl
  | case2 names rest ih =>
      rw [within] at h ⊢
      exact ih h
  | case3 rest => cases h
  | case4 name names rest ih =>
      rw [List.cons_append, within]
      exact ih h
  | case5 names name rest ih =>
      rw [within] at h ⊢
      exact ih h

theorem unlinked_of_empty (hdir : t.node base = some .dir) (hempty : ∀ name, t.node (name :: base) = none) :
    t.Unlinked base := by
  intro names rooted hops hlink
  rcases List.eq_nil_or_concat names with rfl | ⟨front, name, rfl⟩
  · rw [List.nil_append, hdir] at hlink
    cases hlink
  · have hsuffix : name :: base <:+ front.concat name ++ base := ⟨front, by simp⟩
    exact stands_of_suffix hsuffix (by rw [hlink]; simp) (hempty name)

theorem Unlinked.grows (h : t.Unlinked base) (hgrows : Grows t t') : t'.Unlinked base := by
  intro names rooted hops hlink
  cases hold : t.node (names ++ base) with
  | none => exact hgrows.unlinked _ rooted hops hold hlink
  | some x =>
      obtain ⟨y, hy, hkind⟩ := hgrows.kept _ x hold
      obtain rfl : y = .link rooted hops := Option.some.inj (hy.symm.trans hlink)
      rw [Node.kind_eq_link hkind.symm] at hold
      exact h names rooted hops hold

/-- **Where there are no links a path leads where its names say.** -/
theorem found_within (h : t.Unlinked base) (hwithin : within names xs = some names')
    (hfound : t.resolve n (names ++ base) xs = .found target) : target = names' ++ base := by
  have hdir : ∀ {place hop rest}, t.resolve n place (hop :: rest) = .found target →
      t.node place = some .dir := by
    intro place hop rest hfound
    by_contra hblocked
    rw [resolve_blocked hblocked] at hfound
    cases hfound
  induction names, xs using within.induct with
  | case1 names =>
      rw [resolve_nil] at hfound
      obtain rfl : names = names' := Option.some.inj hwithin
      exact (Resolved.found.inj hfound).symm
  | case2 names rest ih =>
      rw [within] at hwithin
      exact ih hwithin (by rwa [resolve_stay (hdir hfound)] at hfound)
  | case3 rest => cases hwithin
  | case4 name names rest ih =>
      rw [within] at hwithin
      exact ih hwithin (by rwa [resolve_up (hdir hfound)] at hfound)
  | case5 names name rest ih =>
      rw [within] at hwithin
      refine ih hwithin ?_
      cases hnode : t.node (name :: names ++ base) with
      | none =>
          rw [resolve_absent (hdir hfound) hnode] at hfound
          cases hfound
      | some x =>
          have hx : ∀ rooted hops, x ≠ .link rooted hops := by
            rintro rooted hops rfl
            exact h (name :: names) rooted hops hnode
          rwa [resolve_down (hdir hfound) hnode hx] at hfound

end Below

end PathTree
