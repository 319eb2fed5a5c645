import Mathlib.Data.List.Nodup
import Mathlib.Data.List.Sort
import Mathlib.Data.Option.Basic

/-!
# Lists without repeated keys

A map given by the list of its entries, each of which knows its key. The order of the list is the
order a traversal sees, and nothing depends on it unless it says so. Updates keep the key of what
they update, so the keys stay distinct by construction.
-/

/-- Entries with pairwise distinct keys. -/
structure KeyedList {α κ : Type*} (key : α → κ) where
  entries : List α
  nodup : (entries.map key).Nodup

namespace KeyedList

variable {α κ : Type*} {key : α → κ}

instance : Membership α (KeyedList key) := ⟨fun l a => a ∈ l.entries⟩

theorem mem_def {a : α} {l : KeyedList key} : a ∈ l ↔ a ∈ l.entries := Iff.rfl

def empty : KeyedList key := ⟨[], List.nodup_nil⟩

def map (f : α → α) (hf : ∀ a, key (f a) = key a) (l : KeyedList key) : KeyedList key where
  entries := l.entries.map f
  nodup := by
    rw [List.map_map]
    exact (List.map_congr_left fun a _ => hf a : _ = l.entries.map key) ▸ l.nodup

def filter (p : α → Bool) (l : KeyedList key) : KeyedList key where
  entries := l.entries.filter p
  nodup := l.nodup.sublist (List.filter_sublist.map key)

theorem eq_of_key_eq {l : KeyedList key} {a b : α} (ha : a ∈ l) (hb : b ∈ l)
    (hkey : key a = key b) : a = b :=
  List.inj_on_of_nodup_map l.nodup ha hb hkey

@[simp] theorem mem_map {l : KeyedList key} {f : α → α} {hf : ∀ a, key (f a) = key a} {b : α} :
    b ∈ l.map f hf ↔ ∃ a ∈ l, f a = b :=
  List.mem_map

@[simp] theorem mem_filter {l : KeyedList key} {p : α → Bool} {a : α} :
    a ∈ l.filter p ↔ a ∈ l ∧ p a = true :=
  List.mem_filter

def count (p : α → Bool) (l : KeyedList key) : Nat := l.entries.countP p

variable [DecidableEq κ]

def find? (l : KeyedList key) (k : κ) : Option α := l.entries.find? (key · = k)

def modify (k : κ) (f : α → α) (hf : ∀ a, key (f a) = key a) (l : KeyedList key) : KeyedList key :=
  l.map (fun a => if key a = k then f a else a) fun a => by
    split
    · exact hf a
    · rfl

def erase (k : κ) (l : KeyedList key) : KeyedList key := l.filter (key · ≠ k)

def insert (a : α) (l : KeyedList key) : KeyedList key where
  entries := a :: (l.erase (key a)).entries
  nodup := by
    rw [List.map_cons, List.nodup_cons]
    refine ⟨fun hmem => ?_, (l.erase (key a)).nodup⟩
    obtain ⟨b, hb, hkey⟩ := List.mem_map.mp hmem
    simp [erase, filter, hkey] at hb

theorem find?_eq_some_iff {l : KeyedList key} {k : κ} {a : α} :
    l.find? k = some a ↔ a ∈ l ∧ key a = k := by
  constructor
  · intro h
    exact ⟨List.mem_of_find?_eq_some h, by simpa using List.find?_some h⟩
  · rintro ⟨ha, rfl⟩
    cases hfind : l.find? (key a) with
    | none => simpa using List.find?_eq_none.mp hfind a ha
    | some b =>
        have hkey : key b = key a := by simpa using List.find?_some hfind
        rw [eq_of_key_eq (List.mem_of_find?_eq_some hfind) ha hkey]

theorem find?_eq_none_iff {l : KeyedList key} {k : κ} : l.find? k = none ↔ ∀ a ∈ l, key a ≠ k := by
  simp [find?, mem_def]

theorem find?_key {l : KeyedList key} {a : α} (ha : a ∈ l) : l.find? (key a) = some a :=
  find?_eq_some_iff.mpr ⟨ha, rfl⟩

theorem key_of_find? {l : KeyedList key} {k : κ} {a : α} (h : l.find? k = some a) : key a = k :=
  (find?_eq_some_iff.mp h).2

theorem mem_of_find? {l : KeyedList key} {k : κ} {a : α} (h : l.find? k = some a) : a ∈ l :=
  (find?_eq_some_iff.mp h).1

theorem eq_of_find?_key {l : KeyedList key} {a b : α} (ha : a ∈ l)
    (h : l.find? (key a) = some b) : a = b :=
  Option.some.inj ((find?_key ha).symm.trans h)

@[simp] theorem find?_empty (k : κ) : (empty : KeyedList key).find? k = none := rfl

@[simp] theorem find?_map (l : KeyedList key) (f : α → α) (hf : ∀ a, key (f a) = key a) (k : κ) :
    (l.map f hf).find? k = (l.find? k).map f := by
  simp only [find?, map, List.find?_map, Function.comp_def, hf]

@[simp] theorem find?_modify_self (l : KeyedList key) (k : κ) (f : α → α)
    (hf : ∀ a, key (f a) = key a) : (l.modify k f hf).find? k = (l.find? k).map f := by
  rw [modify, find?_map]
  cases h : l.find? k with
  | none => rfl
  | some a => simp [(find?_eq_some_iff.mp h).2]

theorem find?_modify_of_ne (l : KeyedList key) {k k' : κ} (f : α → α)
    (hf : ∀ a, key (f a) = key a) (hne : k' ≠ k) : (l.modify k f hf).find? k' = l.find? k' := by
  rw [modify, find?_map]
  cases h : l.find? k' with
  | none => rfl
  | some a => simp [(find?_eq_some_iff.mp h).2, hne]

theorem mem_modify {l : KeyedList key} {k : κ} {f : α → α} {hf : ∀ a, key (f a) = key a} {b : α} :
    b ∈ l.modify k f hf ↔ b ∈ l ∧ key b ≠ k ∨ ∃ a ∈ l, key a = k ∧ f a = b := by
  rw [modify, mem_map]
  constructor
  · rintro ⟨a, ha, heq⟩
    split at heq
    next hkey => exact Or.inr ⟨a, ha, hkey, heq⟩
    next hkey => exact Or.inl (heq ▸ ⟨ha, hkey⟩)
  · rintro (⟨hb, hkey⟩ | ⟨a, ha, hkey, heq⟩)
    · exact ⟨b, hb, if_neg hkey⟩
    · exact ⟨a, ha, by rw [if_pos hkey, heq]⟩

theorem mem_modify_of_mem {l : KeyedList key} {f : α → α} {hf : ∀ a, key (f a) = key a} {a b : α}
    (ha : a ∈ l) : b ∈ l.modify (key a) f hf ↔ b ∈ l ∧ b ≠ a ∨ b = f a := by
  rw [mem_modify]
  refine or_congr (and_congr_right fun hb => ?_) ⟨?_, ?_⟩
  · exact not_congr ⟨fun hkey => eq_of_key_eq hb ha hkey, fun heq => heq ▸ rfl⟩
  · rintro ⟨a', ha', hkey, rfl⟩
    rw [eq_of_key_eq ha' ha hkey]
  · rintro rfl
    exact ⟨a, ha, rfl, rfl⟩

theorem find?_filter (l : KeyedList key) (p : α → Bool) (k : κ) :
    (l.filter p).find? k = (l.find? k).filter p := by
  ext a
  simp only [find?_eq_some_iff, mem_filter, Option.filter_eq_some_iff]
  tauto

@[simp] theorem find?_erase_self (l : KeyedList key) (k : κ) : (l.erase k).find? k = none := by
  rw [find?_eq_none_iff]
  intro a ha
  simpa using (mem_filter.mp ha).2

theorem erase_of_find?_none {l : KeyedList key} {k : κ} (h : l.find? k = none) : l.erase k = l := by
  have hentries : (l.erase k).entries = l.entries := by
    refine List.filter_eq_self.mpr fun a ha => ?_
    simpa using find?_eq_none_iff.mp h a ha
  cases l
  simpa only [erase, filter, mk.injEq] using hentries

theorem find?_erase_of_ne (l : KeyedList key) {k k' : κ} (hne : k' ≠ k) :
    (l.erase k).find? k' = l.find? k' := by
  rw [erase, find?_filter]
  cases h : l.find? k' with
  | none => rfl
  | some a => simp [Option.filter, (find?_eq_some_iff.mp h).2, hne]

@[simp] theorem mem_insert {l : KeyedList key} {a b : α} :
    b ∈ l.insert a ↔ b = a ∨ b ∈ l ∧ key b ≠ key a := by
  rw [mem_def, insert, List.mem_cons, ← mem_def, erase, mem_filter]
  simp

@[simp] theorem find?_insert_self (l : KeyedList key) (a : α) :
    (l.insert a).find? (key a) = some a :=
  find?_eq_some_iff.mpr ⟨mem_insert.mpr (Or.inl rfl), rfl⟩

theorem find?_insert_of_ne (l : KeyedList key) {a : α} {k : κ} (hne : k ≠ key a) :
    (l.insert a).find? k = l.find? k := by
  rw [← find?_erase_of_ne l hne, find?, insert, List.find?_cons_of_neg (by simp [hne.symm])]
  rfl

theorem insert_erase_self (l : KeyedList key) (a : α) : (l.erase (key a)).insert a = l.insert a := by
  simp [insert, erase, filter, List.filter_filter]

theorem find?_insert (l : KeyedList key) (a : α) (k : κ) :
    (l.insert a).find? k = if k = key a then some a else l.find? k := by
  split
  next h => rw [h, find?_insert_self]
  next h => exact find?_insert_of_ne l h

@[simp] theorem keys_modify (l : KeyedList key) (k : κ) (f : α → α) (hf : ∀ a, key (f a) = key a) :
    (l.modify k f hf).entries.map key = l.entries.map key := by
  rw [modify, map, List.map_map]
  refine List.map_congr_left fun a _ => ?_
  simp only [Function.comp_apply]
  split
  · exact hf a
  · rfl

def position (l : KeyedList key) (a : α) : Nat := (l.entries.map key).idxOf (key a)

theorem position_congr {l l' : KeyedList key} (h : l'.entries.map key = l.entries.map key) {a b : α}
    (hkey : key a = key b) : l'.position a = l.position b := by
  rw [position, position, h, hkey]

theorem position_lt_of_split {l : KeyedList key} {pre post : List α} {a b : α}
    (hsplit : l.entries = pre ++ a :: post) (hb : b ∈ post) : l.position a < l.position b := by
  have hnodup := l.nodup
  rw [hsplit, List.map_append, List.map_cons, List.nodup_append, List.nodup_cons] at hnodup
  obtain ⟨-, ⟨ha, -⟩, hapart⟩ := hnodup
  have hb' : key b ∈ post.map key := List.mem_map_of_mem hb
  have hapre : key a ∉ pre.map key := fun h => hapart _ h _ List.mem_cons_self rfl
  have hbpre : key b ∉ pre.map key := fun h => hapart _ h _ (List.mem_cons_of_mem _ hb') rfl
  have hne : key a ≠ key b := fun h => ha (h ▸ hb')
  rw [position, position, hsplit, List.map_append, List.map_cons, List.idxOf_append_of_notMem hapre,
    List.idxOf_append_of_notMem hbpre, List.idxOf_cons_self, List.idxOf_cons_ne _ hne]
  omega

theorem pairwise_lt_insertionSort {β : Type*} [LinearOrder β] (f : α → β) {l : List α}
    (h : l.Pairwise fun a b => f a ≠ f b) :
    (l.insertionSort fun a b => f a ≤ f b).Pairwise fun a b => f a < f b := by
  have hsorted := List.pairwise_insertionSort (fun a b => f a ≤ f b) l
  have hdistinct := ((List.perm_insertionSort (fun a b => f a ≤ f b) l).pairwise_iff
    fun hne => Ne.symm hne).mpr h
  exact (hsorted.and hdistinct).imp fun hboth => lt_of_le_of_ne hboth.1 hboth.2

theorem count_modify {l : KeyedList key} (p : α → Bool) {a : α} (ha : a ∈ l) (f : α → α)
    (hf : ∀ a, key (f a) = key a) :
    (l.modify (key a) f hf).count p + (p a).toNat = l.count p + (p (f a)).toNat := by
  obtain ⟨pre, post, hsplit⟩ := List.append_of_mem (mem_def.mp ha)
  have hnodup := l.nodup
  rw [hsplit, List.map_append, List.map_cons, List.nodup_middle, List.nodup_cons,
    List.mem_append] at hnodup
  obtain ⟨hfresh, -⟩ := hnodup
  rw [not_or] at hfresh
  have hkept : ∀ part : List α, key a ∉ part.map key →
      part.map (fun b => if key b = key a then f b else b) = part := by
    intro part hpart
    calc part.map (fun b => if key b = key a then f b else b) = part.map id :=
          List.map_congr_left fun b hb => if_neg fun h : key b = key a => hpart (h ▸ List.mem_map_of_mem hb)
      _ = part := List.map_id part
  simp only [count, modify, map, hsplit, List.map_append, List.map_cons, if_true,
    hkept pre hfresh.1, hkept post hfresh.2, List.countP_append, List.countP_cons]
  cases p a <;> cases p (f a) <;> simp <;> omega

end KeyedList
