import DownloadWrapper.Lib.Transition
import Mathlib.Data.Finset.Max
import Mathlib.Data.List.Basic

/-!
# Locks taken in order

Threads run code of which only the locks are left: which way a branch goes and how often a loop goes
round is open. If every lock is taken above all that the thread holds, in a ranking of the locks, then
no thread waits for ever: whatever has happened, all of them can still run to their end.
-/

namespace LockOrder

variable {L : Type*}

/-- Code by its locks. The branches of `pick` are numbered. -/
inductive Code (L : Type*) where
  | skip
  | seq (first second : Code L)
  | pick (branches : Nat → Code L)
  | loop (body : Code L)
  /-- A section under a lock, which is waited for. -/
  | locked (lock : L) (body : Code L)
  /-- A section under a lock that is left out if the lock is not free. -/
  | tried (lock : L) (body : Code L)

namespace Code

def alt (a b : Code L) : Code L := .pick fun branch => if branch = 0 then a else b

def opt (a : Code L) : Code L := alt .skip a

def oneOf (codes : List (Code L)) : Code L := codes.foldr alt .skip

def block (codes : List (Code L)) : Code L := codes.foldr .seq .skip

def waits (lock : L) : Code L := .locked lock .skip

def waitsAny (locks : Nat → L) : Code L := .pick fun branch => waits (locks branch)

end Code

inductive Item (L : Type*) where
  | run (code : Code L)
  | release (lock : L)

structure Thread (L : Type*) where
  held : List L
  todo : List (Item L)

namespace Thread

def ofCode (code : Code L) : Thread L := ⟨[], [.run code]⟩

/-- A thread that holds a lock for as long as it runs; to join it is to wait for that lock. -/
def alive (self : L) (code : Code L) : Thread L := ⟨[self], [.run code, .release self]⟩

variable [DecidableEq L]

/-- One step of a thread. `free` says of a lock whether this thread can have it now. -/
def advance (free : L → Prop) [DecidablePred free] (choice : Nat) (t : Thread L) : Option (Thread L) :=
  match t.todo with
  | [] => none
  | .release lock :: rest => some ⟨t.held.erase lock, rest⟩
  | .run .skip :: rest => some ⟨t.held, rest⟩
  | .run (.seq a b) :: rest => some ⟨t.held, .run a :: .run b :: rest⟩
  | .run (.pick branches) :: rest => some ⟨t.held, .run (branches choice) :: rest⟩
  | .run (.loop body) :: rest =>
      if choice = 0 then some ⟨t.held, rest⟩ else some ⟨t.held, .run body :: .run (.loop body) :: rest⟩
  | .run (.locked lock body) :: rest =>
      if free lock then some ⟨lock :: t.held, .run body :: .release lock :: rest⟩ else none
  | .run (.tried lock body) :: rest =>
      if choice ≠ 0 ∧ free lock then some ⟨lock :: t.held, .run body :: .release lock :: rest⟩
      else some ⟨t.held, rest⟩

end Thread

section Threads

variable [DecidableEq L]

/-- The thread in this place can have the lock: no other thread holds it, and this one does only if it is
a lock that may be taken again. -/
def Free (reentrant : L → Bool) (threads : List (Thread L)) (place : Nat) (t : Thread L) (lock : L) :
    Prop :=
  (lock ∈ t.held → reentrant lock = true) ∧ ∀ other ∈ threads.eraseIdx place, lock ∉ other.held

instance (reentrant : L → Bool) (threads : List (Thread L)) (place : Nat) (t : Thread L) :
    DecidablePred (Free reentrant threads place t) :=
  fun lock => inferInstanceAs (Decidable ((lock ∈ t.held → reentrant lock = true) ∧
    ∀ other ∈ threads.eraseIdx place, lock ∉ other.held))

inductive Move (L : Type*) where
  | step (place choice : Nat)
  | spawn (thread : Thread L)

def step (reentrant : L → Bool) (threads : List (Thread L)) : Move L → Option (List (Thread L))
  | .step place choice =>
      match threads[place]? with
      | none => none
      | some t => (t.advance (Free reentrant threads place t) choice).map (threads.set place ·)
  | .spawn thread =>
      if ∀ lock ∈ thread.held, ∀ other ∈ threads, lock ∉ other.held then some (threads ++ [thread])
      else none

end Threads

def noSpawn (_ : List (Thread L)) : Move L → Prop
  | .step _ _ => True
  | .spawn _ => False

/-! ### The order -/

section Order

variable (rank : L → Nat) (reentrant : L → Bool)

/-- A lock that may be waited for by a thread with these locks. -/
def Above (held : List L) (lock : L) : Prop :=
  (reentrant lock = true ∧ lock ∈ held) ∨ ∀ other ∈ held, rank other < rank lock

def UpTo (bound : Nat) (held : List L) : Prop := ∀ lock ∈ held, rank lock ≤ bound

/-- Code that takes its locks in order, when it runs under these. -/
def Code.Ordered : Code L → List L → Prop
  | .skip, _ => True
  | .seq a b, held => a.Ordered held ∧ b.Ordered held
  | .pick branches, held => ∀ branch, (branches branch).Ordered held
  | .loop body, held => body.Ordered held
  | .locked lock body, held => Above rank reentrant held lock ∧ body.Ordered (lock :: held)
  | .tried lock body, held => body.Ordered (lock :: held)

/-- What is left of a thread's code takes its locks in order, and gives back what is held from the top. -/
def Ordered : List (Item L) → List L → Prop
  | [], held => held = []
  | .run code :: rest, held => code.Ordered rank reentrant held ∧ Ordered rest held
  | .release lock :: rest, held => ∃ below, held = lock :: below ∧ Ordered rest below

def Thread.Orderly (t : Thread L) : Prop := Ordered rank reentrant t.todo t.held

/-- Threads that take their locks in order, and of which no two hold the same lock. -/
structure Disciplined (threads : List (Thread L)) : Prop where
  orderly : ∀ t ∈ threads, t.Orderly rank reentrant
  exclusive : ∀ {i j : Nat} {t u : Thread L}, threads[i]? = some t → threads[j]? = some u → i ≠ j →
    ∀ lock ∈ t.held, lock ∉ u.held

def orderlySpawn (_ : List (Thread L)) : Move L → Prop
  | .step _ _ => True
  | .spawn thread => thread.Orderly rank reentrant

end Order

section Lemmas

variable {rank : L → Nat} {reentrant : L → Bool} {held : List L} {bound : Nat}

theorem upTo_nil : UpTo rank bound [] := fun _ hlock => absurd hlock List.not_mem_nil

theorem UpTo.cons (h : UpTo rank bound held) {lock : L} (hle : rank lock ≤ bound) :
    UpTo rank bound (lock :: held) :=
  List.forall_mem_cons.mpr ⟨hle, h⟩

theorem UpTo.mono {bound' : Nat} (h : UpTo rank bound held) (hle : bound ≤ bound') :
    UpTo rank bound' held :=
  fun lock hlock => (h lock hlock).trans hle

theorem UpTo.above (h : UpTo rank bound held) (lock : L) (hlt : bound < rank lock) :
    Above rank reentrant held lock :=
  Or.inr fun other hother => (h other hother).trans_lt hlt

/-- A lock that may be taken again and is alone in its rank may be taken under its own rank. -/
theorem UpTo.above_again {lock : L} (h : UpTo rank (rank lock) held) (hagain : reentrant lock = true)
    (halone : ∀ other, rank other = rank lock → other = lock) : Above rank reentrant held lock := by
  by_cases hmem : lock ∈ held
  · exact Or.inl ⟨hagain, hmem⟩
  · right
    intro other hother
    refine lt_of_le_of_ne (h other hother) fun heq => hmem ?_
    exact halone other heq ▸ hother

@[simp]
theorem ordered_skip : (Code.skip : Code L).Ordered rank reentrant held := trivial

@[simp]
theorem ordered_seq {a b : Code L} :
    (Code.seq a b).Ordered rank reentrant held ↔
      a.Ordered rank reentrant held ∧ b.Ordered rank reentrant held := Iff.rfl

@[simp]
theorem ordered_pick {branches : Nat → Code L} :
    (Code.pick branches).Ordered rank reentrant held ↔
      ∀ branch, (branches branch).Ordered rank reentrant held := Iff.rfl

@[simp]
theorem ordered_loop {body : Code L} :
    (Code.loop body).Ordered rank reentrant held ↔ body.Ordered rank reentrant held := Iff.rfl

@[simp]
theorem ordered_locked {lock : L} {body : Code L} :
    (Code.locked lock body).Ordered rank reentrant held ↔
      Above rank reentrant held lock ∧ body.Ordered rank reentrant (lock :: held) := Iff.rfl

@[simp]
theorem ordered_tried {lock : L} {body : Code L} :
    (Code.tried lock body).Ordered rank reentrant held ↔
      body.Ordered rank reentrant (lock :: held) := Iff.rfl

@[simp]
theorem ordered_alt {a b : Code L} :
    (a.alt b).Ordered rank reentrant held ↔
      a.Ordered rank reentrant held ∧ b.Ordered rank reentrant held := by
  constructor
  · intro h
    exact ⟨by simpa using h 0, by simpa using h 1⟩
  · rintro ⟨ha, hb⟩ branch
    dsimp only
    split
    · exact ha
    · exact hb

@[simp]
theorem ordered_opt {a : Code L} :
    a.opt.Ordered rank reentrant held ↔ a.Ordered rank reentrant held := by
  simp [Code.opt]

@[simp]
theorem ordered_block {codes : List (Code L)} :
    (Code.block codes).Ordered rank reentrant held ↔
      ∀ code ∈ codes, code.Ordered rank reentrant held := by
  induction codes with
  | nil => simp [Code.block]
  | cons code codes ih => simpa [Code.block] using fun _ => ih

@[simp]
theorem ordered_oneOf {codes : List (Code L)} :
    (Code.oneOf codes).Ordered rank reentrant held ↔
      ∀ code ∈ codes, code.Ordered rank reentrant held := by
  induction codes with
  | nil => simp [Code.oneOf]
  | cons code codes ih => simpa [Code.oneOf] using fun _ => ih

@[simp]
theorem ordered_waits {lock : L} :
    (Code.waits lock).Ordered rank reentrant held ↔ Above rank reentrant held lock := by
  simp [Code.waits]

@[simp]
theorem ordered_waitsAny {locks : Nat → L} :
    (Code.waitsAny locks).Ordered rank reentrant held ↔
      ∀ branch, Above rank reentrant held (locks branch) := by
  simp [Code.waitsAny]

theorem Thread.orderly_ofCode {code : Code L} (h : code.Ordered rank reentrant []) :
    (Thread.ofCode code).Orderly rank reentrant :=
  ⟨h, rfl⟩

theorem Thread.orderly_alive {self : L} {code : Code L} (h : code.Ordered rank reentrant [self]) :
    (Thread.alive self code).Orderly rank reentrant :=
  ⟨h, [], rfl, rfl⟩

theorem Thread.Orderly.todo_ne_nil {t : Thread L} (h : t.Orderly rank reentrant) {lock : L}
    (hlock : lock ∈ t.held) : t.todo ≠ [] := by
  intro hnil
  rw [Thread.Orderly, hnil, LockOrder.Ordered] at h
  rw [h] at hlock
  exact List.not_mem_nil hlock

variable [DecidableEq L]

/-! ### Steps -/

inductive Thread.Advanced (free : L → Prop) (choice : Nat) : Thread L → Thread L → Prop where
  | release {held : List L} {lock : L} {rest : List (Item L)} :
      Advanced free choice ⟨held, .release lock :: rest⟩ ⟨held.erase lock, rest⟩
  | skip {held : List L} {rest : List (Item L)} :
      Advanced free choice ⟨held, .run .skip :: rest⟩ ⟨held, rest⟩
  | seq {held : List L} {a b : Code L} {rest : List (Item L)} :
      Advanced free choice ⟨held, .run (.seq a b) :: rest⟩ ⟨held, .run a :: .run b :: rest⟩
  | pick {held : List L} {branches : Nat → Code L} {rest : List (Item L)} :
      Advanced free choice ⟨held, .run (.pick branches) :: rest⟩ ⟨held, .run (branches choice) :: rest⟩
  | leave {held : List L} {body : Code L} {rest : List (Item L)} (hchoice : choice = 0) :
      Advanced free choice ⟨held, .run (.loop body) :: rest⟩ ⟨held, rest⟩
  | again {held : List L} {body : Code L} {rest : List (Item L)} (hchoice : choice ≠ 0) :
      Advanced free choice ⟨held, .run (.loop body) :: rest⟩
        ⟨held, .run body :: .run (.loop body) :: rest⟩
  | take {held : List L} {lock : L} {body : Code L} {rest : List (Item L)} (hfree : free lock) :
      Advanced free choice ⟨held, .run (.locked lock body) :: rest⟩
        ⟨lock :: held, .run body :: .release lock :: rest⟩
  | tryTake {held : List L} {lock : L} {body : Code L} {rest : List (Item L)} (hchoice : choice ≠ 0)
      (hfree : free lock) :
      Advanced free choice ⟨held, .run (.tried lock body) :: rest⟩
        ⟨lock :: held, .run body :: .release lock :: rest⟩
  | pass {held : List L} {lock : L} {body : Code L} {rest : List (Item L)} :
      Advanced free choice ⟨held, .run (.tried lock body) :: rest⟩ ⟨held, rest⟩

variable {free : L → Prop} {choice : Nat} {t t' : Thread L}

theorem Thread.Advanced.of_advance [DecidablePred free] (h : t.advance free choice = some t') :
    t.Advanced free choice t' := by
  obtain ⟨held, todo⟩ := t
  match todo with
  | [] => cases h
  | .release lock :: rest => cases h; exact .release
  | .run .skip :: rest => cases h; exact .skip
  | .run (.seq a b) :: rest => cases h; exact .seq
  | .run (.pick branches) :: rest => cases h; exact .pick
  | .run (.loop body) :: rest =>
      simp only [Thread.advance] at h
      split_ifs at h with hchoice
      · cases h; exact .leave hchoice
      · cases h; exact .again hchoice
  | .run (.locked lock body) :: rest =>
      simp only [Thread.advance] at h
      split_ifs at h with hfree
      cases h
      exact .take hfree
  | .run (.tried lock body) :: rest =>
      simp only [Thread.advance] at h
      split_ifs at h with htry
      · cases h; exact .tryTake htry.1 htry.2
      · cases h; exact .pass

theorem Thread.Advanced.holds (h : t.Advanced free choice t') :
    ∀ lock ∈ t'.held, lock ∈ t.held ∨ free lock := by
  have hcons : ∀ {held : List L} {lock' : L}, free lock' →
      ∀ lock ∈ lock' :: held, lock ∈ held ∨ free lock := by
    intro held lock' hfree lock hlock
    rcases List.mem_cons.mp hlock with rfl | hlock
    · exact Or.inr hfree
    · exact Or.inl hlock
  cases h with
  | release => exact fun lock hlock => Or.inl (List.mem_of_mem_erase hlock)
  | take hfree => exact hcons hfree
  | tryTake _ hfree => exact hcons hfree
  | _ => exact fun lock hlock => Or.inl hlock

theorem Thread.Advanced.orderly (h : t.Advanced free choice t') (ht : t.Orderly rank reentrant) :
    t'.Orderly rank reentrant := by
  cases h with
  | release =>
      obtain ⟨below, rfl, hrest⟩ := ht
      rw [Thread.Orderly, List.erase_cons_head]
      exact hrest
  | skip => exact ht.2
  | seq => exact ⟨ht.1.1, ht.1.2, ht.2⟩
  | pick => exact ⟨ht.1 choice, ht.2⟩
  | leave => exact ht.2
  | again => exact ⟨ht.1, ht.1, ht.2⟩
  | take => exact ⟨ht.1.2, _, rfl, ht.2⟩
  | tryTake => exact ⟨ht.1, _, rfl, ht.2⟩
  | pass => exact ht.2

variable {threads threads' : List (Thread L)}

omit [DecidableEq L] in
theorem disciplined_nil : Disciplined rank reentrant ([] : List (Thread L)) where
  orderly := fun t ht => absurd ht List.not_mem_nil
  exclusive := fun {i j t u} ht => by simp at ht

theorem Disciplined.set (h : Disciplined rank reentrant threads) {place : Nat}
    (ht : threads[place]? = some t)
    (hadvanced : t.Advanced (Free reentrant threads place t) choice t') :
    Disciplined rank reentrant (threads.set place t') := by
  have hbound : place < threads.length := (List.getElem?_eq_some_iff.mp ht).1
  have hapart : ∀ {j : Nat} {u : Thread L}, threads[j]? = some u → j ≠ place →
      ∀ lock ∈ t'.held, lock ∉ u.held := by
    intro j u hu hne lock hlock
    rcases hadvanced.holds lock hlock with hheld | hfree
    · exact h.exclusive ht hu hne.symm lock hheld
    · exact hfree.2 u (List.mem_eraseIdx_iff_getElem?.mpr ⟨j, hne, hu⟩)
  constructor
  · intro u hu
    rcases List.mem_or_eq_of_mem_set hu with hu | rfl
    · exact h.orderly u hu
    · exact hadvanced.orderly (h.orderly t (List.mem_of_getElem? ht))
  · intro i j u v hu hv hne lock hlock hlock'
    by_cases hi : i = place
    · subst hi
      rw [List.getElem?_set_self hbound] at hu
      rw [List.getElem?_set_ne hne] at hv
      cases hu
      exact hapart hv hne.symm lock hlock hlock'
    · rw [List.getElem?_set_ne (Ne.symm hi)] at hu
      by_cases hj : j = place
      · subst hj
        rw [List.getElem?_set_self hbound] at hv
        cases hv
        exact hapart hu hi lock hlock' hlock
      · rw [List.getElem?_set_ne (Ne.symm hj)] at hv
        exact h.exclusive hu hv hne lock hlock hlock'

omit [DecidableEq L] in
theorem Disciplined.concat (h : Disciplined rank reentrant threads) (ht : t.Orderly rank reentrant)
    (hfree : ∀ lock ∈ t.held, ∀ other ∈ threads, lock ∉ other.held) :
    Disciplined rank reentrant (threads ++ [t]) := by
  have hplace : ∀ {i : Nat} {u : Thread L}, (threads ++ [t])[i]? = some u →
      threads[i]? = some u ∨ i = threads.length ∧ u = t := by
    intro i u hu
    rcases Nat.lt_or_ge i threads.length with hlt | hge
    · exact Or.inl (List.getElem?_append_left hlt ▸ hu)
    · rw [List.getElem?_append_right hge, List.getElem?_singleton] at hu
      split_ifs at hu with hzero
      exact Or.inr ⟨by omega, (Option.some.inj hu).symm⟩
  constructor
  · intro u hu
    rcases List.mem_append.mp hu with hu | hu
    · exact h.orderly u hu
    · exact List.mem_singleton.mp hu ▸ ht
  · intro i j u v hu hv hne lock hlock hlock'
    rcases hplace hu with hold | ⟨hi, hnew⟩
    · rcases hplace hv with hold' | ⟨hj, hnew'⟩
      · exact h.exclusive hold hold' hne lock hlock hlock'
      · exact hfree lock (hnew' ▸ hlock') u (List.mem_of_getElem? hold) hlock
    · rcases hplace hv with hold' | ⟨hj, hnew'⟩
      · exact hfree lock (hnew ▸ hlock) v (List.mem_of_getElem? hold') hlock'
      · exact hne (hi.trans hj.symm)

theorem disciplined_of_step (h : Disciplined rank reentrant threads) {move : Move L}
    (hmove : orderlySpawn rank reentrant threads move)
    (hstep : step reentrant threads move = some threads') : Disciplined rank reentrant threads' := by
  cases move with
  | step place choice =>
      simp only [step] at hstep
      split at hstep
      · cases hstep
      next t ht =>
        obtain ⟨t', hadvance, rfl⟩ := Option.map_eq_some_iff.mp hstep
        exact h.set ht (.of_advance hadvance)
  | spawn thread =>
      simp only [step] at hstep
      split_ifs at hstep with hfree
      exact Option.some.inj hstep ▸ h.concat hmove hfree

theorem disciplined_of_reaches
    (hrun : Transition.Reaches (step reentrant) (orderlySpawn rank reentrant) threads threads')
    (h : Disciplined rank reentrant threads) : Disciplined rank reentrant threads' :=
  hrun.invariant (fun _ _ _ hinv hmove hstep => disciplined_of_step hinv hmove hstep) h

/-! ### Progress -/

def Thread.Waits (t : Thread L) (lock : L) : Prop :=
  ∃ body rest, t.todo = .run (.locked lock body) :: rest

theorem Thread.waits_of_advance_eq_none [DecidablePred free] (hwork : t.todo ≠ [])
    (h : t.advance free choice = none) : ∃ lock, t.Waits lock ∧ ¬ free lock := by
  obtain ⟨held, todo⟩ := t
  match todo with
  | [] => exact absurd rfl hwork
  | .release lock :: rest => cases h
  | .run .skip :: rest => cases h
  | .run (.seq a b) :: rest => cases h
  | .run (.pick branches) :: rest => cases h
  | .run (.loop body) :: rest => simp only [Thread.advance] at h; split_ifs at h
  | .run (.locked lock body) :: rest =>
      simp only [Thread.advance] at h
      split_ifs at h with hfree
      exact ⟨lock, ⟨body, rest, rfl⟩, hfree⟩
  | .run (.tried lock body) :: rest => simp only [Thread.advance] at h; split_ifs at h

omit [DecidableEq L] in
theorem Thread.Orderly.above (h : t.Orderly rank reentrant) {lock : L} (hwaits : t.Waits lock) :
    Above rank reentrant t.held lock := by
  obtain ⟨body, rest, htodo⟩ := hwaits
  rw [Thread.Orderly, htodo] at h
  exact h.1.1

/-- A lock that is waited for in vain is held by another thread, which has something to do and waits in
vain for no lock but a higher one. -/
theorem Disciplined.holder (h : Disciplined rank reentrant threads) {place : Nat} {lock : L}
    (ht : threads[place]? = some t) (hwaits : t.Waits lock)
    (htaken : ¬ Free reentrant threads place t lock) :
    ∃ place' u, threads[place']? = some u ∧ u.todo ≠ [] ∧
      ∀ lock', u.Waits lock' → ¬ Free reentrant threads place' u lock' → rank lock < rank lock' := by
  have hother : ∃ u ∈ threads.eraseIdx place, lock ∈ u.held := by
    by_contra hnone
    push Not at hnone
    refine htaken ⟨fun hmem => ?_, hnone⟩
    rcases (h.orderly t (List.mem_of_getElem? ht)).above hwaits with ⟨hagain, -⟩ | habove
    · exact hagain
    · exact absurd (habove lock hmem) (lt_irrefl _)
  obtain ⟨u, hmem, hheld⟩ := hother
  obtain ⟨place', -, hu⟩ := List.mem_eraseIdx_iff_getElem?.mp hmem
  have horderly := h.orderly u (List.mem_of_getElem? hu)
  refine ⟨place', u, hu, horderly.todo_ne_nil hheld, fun lock' hwaits' htaken' => ?_⟩
  rcases horderly.above hwaits' with ⟨hagain, hmem'⟩ | habove
  · refine absurd ⟨fun _ => hagain, fun v hv => ?_⟩ htaken'
    obtain ⟨place'', hne, hv'⟩ := List.mem_eraseIdx_iff_getElem?.mp hv
    exact h.exclusive hu hv' hne.symm lock' hmem'
  · exact habove lock hheld

omit [DecidableEq L] in
theorem exists_rank_bound (rank : L → Nat) (threads : List (Thread L)) :
    ∃ bound, ∀ t ∈ threads, ∀ lock, t.Waits lock → rank lock < bound := by
  induction threads with
  | nil => exact ⟨0, fun t ht => absurd ht List.not_mem_nil⟩
  | cons t threads ih =>
      obtain ⟨bound, hbound⟩ := ih
      by_cases hwaits : ∃ lock, t.Waits lock
      · obtain ⟨lock, body, rest, htodo⟩ := hwaits
        refine ⟨max bound (rank lock + 1), List.forall_mem_cons.mpr ⟨?_, fun u hu lock' hwaits' => ?_⟩⟩
        · rintro lock' ⟨body', rest', htodo'⟩
          have heq := htodo.symm.trans htodo'
          simp only [List.cons.injEq, Item.run.injEq, Code.locked.injEq] at heq
          obtain rfl := heq.1.1
          omega
        · have := hbound u hu lock' hwaits'
          omega
      · push Not at hwaits
        refine ⟨bound, List.forall_mem_cons.mpr ⟨fun lock hlock => ?_, hbound⟩⟩
        exact absurd hlock (hwaits lock)

/-- **No circle of waiting threads.** Among threads that take their locks in order, one that has something
to do can do it. -/
theorem Disciplined.exists_advance (h : Disciplined rank reentrant threads)
    (hwork : ∃ t ∈ threads, t.todo ≠ []) (choice : Nat) :
    ∃ place, ∃ t t' : Thread L, threads[place]? = some t ∧
      t.advance (Free reentrant threads place t) choice = some t' := by
  by_contra hstuck
  push Not at hstuck
  have hwaits : ∀ place t, threads[place]? = some t → t.todo ≠ [] →
      ∃ lock, t.Waits lock ∧ ¬ Free reentrant threads place t lock := by
    intro place t ht htodo
    have hnone : t.advance (Free reentrant threads place t) choice = none :=
      Option.eq_none_iff_forall_ne_some.mpr (hstuck place t · ht)
    exact Thread.waits_of_advance_eq_none htodo hnone
  -- from a thread that waits to the holder of its lock, which waits for a higher one, and so on
  have hclimb : ∀ bound : Nat, ∃ place t lock, threads[place]? = some t ∧ t.Waits lock ∧
      ¬ Free reentrant threads place t lock ∧ bound ≤ rank lock := by
    intro bound
    induction bound with
    | zero =>
        obtain ⟨t, hmem, htodo⟩ := hwork
        obtain ⟨place, ht⟩ := List.mem_iff_getElem?.mp hmem
        obtain ⟨lock, hwait, htaken⟩ := hwaits place t ht htodo
        exact ⟨place, t, lock, ht, hwait, htaken, Nat.zero_le _⟩
    | succ bound ih =>
        obtain ⟨place, t, lock, ht, hwait, htaken, hbound⟩ := ih
        obtain ⟨place', u, hu, htodo, hhigher⟩ := h.holder ht hwait htaken
        obtain ⟨lock', hwait', htaken'⟩ := hwaits place' u hu htodo
        have hlt := hhigher lock' hwait' htaken'
        exact ⟨place', u, lock', hu, hwait', htaken', by omega⟩
  obtain ⟨bound, hbound⟩ := exists_rank_bound rank threads
  obtain ⟨place, t, lock, ht, hwait, -, hle⟩ := hclimb bound
  have hlt := hbound t (List.mem_of_getElem? ht) lock hwait
  omega

/-- How far code is from its end if every loop is left at once. -/
def Code.size : Code L → Nat
  | .skip => 1
  | .seq a b => a.size + b.size + 1
  | .pick branches => (branches 0).size + 1
  | .loop _ => 1
  | .locked _ body => body.size + 2
  | .tried _ _ => 1

def Item.size : Item L → Nat
  | .run code => code.size
  | .release _ => 1

def Thread.size (t : Thread L) : Nat := t.todo.foldr (fun item total => item.size + total) 0

def size (threads : List (Thread L)) : Nat := threads.foldr (fun t total => t.size + total) 0

omit [DecidableEq L] in
theorem Code.size_pos (code : Code L) : 0 < code.size := by
  cases code <;> simp [Code.size]

theorem Thread.Advanced.size_lt (h : t.Advanced free 0 t') : t'.size < t.size := by
  cases h with
  | again hchoice => exact absurd rfl hchoice
  | tryTake hchoice => exact absurd rfl hchoice
  | _ => simp [Thread.size, Item.size, Code.size] <;> omega

omit [DecidableEq L] in
theorem size_set_lt {place : Nat} (ht : threads[place]? = some t) (hlt : t'.size < t.size) :
    size (threads.set place t') < size threads := by
  induction threads generalizing place with
  | nil => simp at ht
  | cons u threads ih =>
      cases place with
      | zero =>
          obtain rfl : u = t := by simpa using ht
          simpa [size] using hlt
      | succ place =>
          have hrest : threads[place]? = some t := by simpa using ht
          simpa [size] using ih hrest

/-- **Every call can end.** Whatever has happened to threads that take their locks in order, all of them
can run to their end. -/
theorem Disciplined.finishes (h : Disciplined rank reentrant threads) :
    ∃ threads', Transition.Reaches (step reentrant) noSpawn threads threads' ∧
      ∀ t ∈ threads', t.todo = [] := by
  generalize hsize : size threads = n
  induction n using Nat.strong_induction_on generalizing threads with
  | h n ih =>
    by_cases hwork : ∃ t ∈ threads, t.todo ≠ []
    · obtain ⟨place, t, t', ht, hadvance⟩ := h.exists_advance hwork 0
      have hadvanced := Thread.Advanced.of_advance hadvance
      have hlt := size_set_lt ht hadvanced.size_lt
      obtain ⟨threads', hrun, hend⟩ := ih _ (hsize ▸ hlt) (h.set ht hadvanced) rfl
      have hstep : step reentrant threads (.step place 0) = some (threads.set place t') := by
        simp only [step, ht, hadvance, Option.map_some]
      exact ⟨threads', .head ⟨.step place 0, trivial, hstep⟩ hrun, hend⟩
    · push Not at hwork
      exact ⟨threads, .refl, hwork⟩

/-! ### Circles -/

/-- Threads each of which waits for a lock that it holds itself and may not take again, or that another of
them holds. -/
def Circle (reentrant : L → Bool) (threads : List (Thread L)) (places : List Nat) : Prop :=
  ∀ place ∈ places, ∃ t lock, threads[place]? = some t ∧ t.Waits lock ∧
    (lock ∈ t.held ∧ reentrant lock = false ∨
      ∃ place' ∈ places, place' ≠ place ∧ ∃ u, threads[place']? = some u ∧ lock ∈ u.held)

theorem Circle.step {places : List Nat} (h : Circle reentrant threads places) {move : Move L}
    (hstep : step reentrant threads move = some threads') {place : Nat} (hplace : place ∈ places) :
    threads'[place]? = threads[place]? := by
  obtain ⟨t, lock, ht, ⟨body, rest, htodo⟩, htaken⟩ := h place hplace
  cases move with
  | step moved choice =>
      simp only [LockOrder.step] at hstep
      split at hstep
      · cases hstep
      next u hu =>
        obtain ⟨u', hadvance, rfl⟩ := Option.map_eq_some_iff.mp hstep
        by_cases hmoved : moved = place
        · -- the thread cannot have the lock it waits for
          subst hmoved
          obtain rfl := Option.some.inj (ht.symm.trans hu)
          have hfree : Free reentrant threads moved t lock := by
            by_contra hnot
            simp [Thread.advance, htodo, hnot] at hadvance
          rcases htaken with ⟨hself, honce⟩ | ⟨place', -, hne, v, hv, hheld⟩
          · rw [hfree.1 hself] at honce
            cases honce
          · exact absurd hheld (hfree.2 v (List.mem_eraseIdx_iff_getElem?.mpr ⟨place', hne, hv⟩))
        · rw [List.getElem?_set_ne hmoved]
  | spawn thread =>
      simp only [LockOrder.step] at hstep
      split_ifs at hstep
      obtain rfl := Option.some.inj hstep
      exact List.getElem?_append_left (List.getElem?_eq_some_iff.mp ht).1

omit [DecidableEq L] in
theorem Circle.of_same {places : List Nat} (h : Circle reentrant threads places)
    (hsame : ∀ place ∈ places, threads'[place]? = threads[place]?) : Circle reentrant threads' places := by
  intro place hplace
  obtain ⟨t, lock, ht, hwaits, htaken⟩ := h place hplace
  refine ⟨t, lock, (hsame place hplace).trans ht, hwaits, htaken.imp_right ?_⟩
  rintro ⟨place', hplace', hne, u, hu, hheld⟩
  exact ⟨place', hplace', hne, u, (hsame place' hplace').trans hu, hheld⟩

/-- **Circles stay.** Threads that wait in a circle never move again, whatever the others do. -/
theorem Circle.stuck {places : List Nat} (h : Circle reentrant threads places)
    (hrun : Transition.Reaches (LockOrder.step reentrant) Transition.anyEvent threads threads') :
    ∀ place ∈ places, threads'[place]? = threads[place]? := by
  induction hrun with
  | refl => exact fun _ _ => rfl
  | tail _ hnext ih =>
      intro place hplace
      obtain ⟨move, -, hstep⟩ := hnext
      exact ((h.of_same ih).step hstep hplace).trans (ih place hplace)

def Thread.play (reentrant : L → Bool) (t : Thread L) : List Nat → Option (Thread L)
  | [] => some t
  | choice :: choices =>
      (t.advance (fun lock => lock ∈ t.held → reentrant lock = true) choice).bind
        (·.play reentrant choices)

theorem Thread.advance_alone (t : Thread L) (choice : Nat) :
    t.advance (Free reentrant [t] 0 t) choice =
      t.advance (fun lock => lock ∈ t.held → reentrant lock = true) choice := by
  have hfree : ∀ lock, Free reentrant [t] 0 t lock ↔ (lock ∈ t.held → reentrant lock = true) :=
    fun lock => by simp [Free]
  simp only [Thread.advance, hfree]

theorem Thread.reaches_of_play {ok : List (Thread L) → Move L → Prop}
    (hok : ∀ threads place choice, ok threads (.step place choice)) {choices : List Nat}
    (hplay : t.play reentrant choices = some t') :
    Transition.Reaches (LockOrder.step reentrant) ok [t] [t'] := by
  induction choices generalizing t with
  | nil =>
      obtain rfl := Option.some.inj hplay
      exact .refl
  | cons choice choices ih =>
      obtain ⟨mid, hmid, hrest⟩ := Option.bind_eq_some_iff.mp hplay
      have hstep : LockOrder.step reentrant [t] (.step 0 choice) = some [mid] := by
        simp [LockOrder.step, Thread.advance_alone, hmid]
      exact .head ⟨.step 0 choice, hok _ _ _, hstep⟩ (ih hrest)

end Lemmas

end LockOrder
