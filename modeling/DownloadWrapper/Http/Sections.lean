import DownloadWrapper.Http.Engine

/-!
# The sections of the context map

`start_download` and `sweep` cut into their sections under `g_map_mtx`. Each takes a context out of
the map in one section and joins its thread outside of it; `sweep` chooses what to take in an earlier
section still. In between anything else may step: threads, requests, and the sections of the other.
-/

namespace DownloadWrapper

open Transition

/-- A `dl_task_ctx`. `serial` tells it from the other ones there were for its URL; `threaded` says
that `start_task` has given it its thread. -/
structure Slot where
  context : HttpContext
  serial : Nat
  threaded : Bool := false

namespace Slot

def url (slot : Slot) : String := slot.context.url

/-- `thread_done` is not set. -/
def running (slot : Slot) : Bool := slot.context.worker.running

def live (slot : Slot) : Bool := slot.threaded && slot.running

def deleting (slot : Slot) : Bool := slot.context.worker.task.deleteReq

def step (cfg : HttpConfig) (fs : Fs) (event : Event) (slot : Slot) : Option Worker :=
  if slot.live then { slot.context.worker with fs := fs, emitted := none }.step cfg event else none

def withWorker (worker : Worker) (now : Int) (slot : Slot) : Slot :=
  { slot with context := { slot.context with
      worker := worker
      finishedAt := if worker.running then slot.context.finishedAt else now } }

def withThread (slot : Slot) : Slot := { slot with threaded := true }

end Slot

/-- Where a `start_download` stands. `taken` is the context it took out of the map as it was then,
`stale` as it is now. -/
inductive StartStage where
  | joining (taken stale : Slot)
  | preparing
  | inserted (serial : Nat)

/-- A `start_download` past its first section. The manager's lock lets one at a time be there. -/
structure Starting where
  url : String
  replaceRecord : Bool
  stage : StartStage

/-- `slots` is `g_tasks`. `collected` is what `sweep` chose and has not come to yet, with the serials
the contexts had when it did; `reclaiming` is the context it has taken out. -/
structure Sections where
  slots : KeyedList Slot.url
  starting : Option Starting := none
  collected : Option (List (String × Nat)) := none
  reclaiming : Option Slot := none
  next : Nat := 0

inductive SectionEvent where
  /-- The first section of `start_download`. -/
  | start (url : String) (replaceRecord : Bool)
  | joined
  /-- No directory. -/
  | refused
  /-- The new context goes into the map. -/
  | insert (worker : Worker)
  /-- `replace_task` failed: the new context is erased. -/
  | unrecorded
  | launch
  | thread (serial : Nat) (cfg : HttpConfig) (fs : Fs) (event : Event) (now : Int)
  | pause (url : String)
  | delete (url : String)
  /-- The first section of `sweep`. -/
  | collect (now : Int)
  /-- Its section for the next URL. -/
  | reclaim
  /-- Its join, outside. -/
  | reclaimed

namespace Sections

def stale (s : Sections) : Option Slot :=
  match s.starting with
  | some ⟨_, _, .joining _ stale⟩ => some stale
  | _ => none

def all (s : Sections) : List Slot :=
  s.slots.entries ++ s.stale.toList ++ s.reclaiming.toList

def onSerial (n : Nat) (g : Slot → Slot) (slot : Slot) : Slot :=
  if slot.serial = n then g slot else slot

theorem url_onSerial (n : Nat) {g : Slot → Slot} (hg : ∀ slot, (g slot).url = slot.url)
    (slot : Slot) : (onSerial n g slot).url = slot.url := by
  rw [onSerial]
  split
  · exact hg slot
  · rfl

def mapStale (f : Slot → Slot) : Starting → Starting
  | ⟨url, replaceRecord, .joining taken stale⟩ => ⟨url, replaceRecord, .joining taken (f stale)⟩
  | starting => starting

/-- Update one context, wherever it is. -/
def update (n : Nat) (g : Slot → Slot) (hg : ∀ slot, (g slot).url = slot.url) (s : Sections) :
    Sections :=
  { s with
    slots := s.slots.map (onSerial n g) (url_onSerial n hg)
    starting := s.starting.map (mapStale (onSerial n g))
    reclaiming := s.reclaiming.map (onSerial n g) }

def request (url : String) (f : HttpContext → HttpContext) (hf : ∀ c, (f c).url = c.url)
    (s : Sections) : Sections :=
  match s.slots.find? url with
  | none => s
  | some slot =>
      s.update slot.serial (fun a => { a with context := f a.context }) fun a => hf a.context

def startSection (s : Sections) (url : String) (replaceRecord : Bool) : Sections :=
  match s.slots.find? url with
  | none => { s with starting := some ⟨url, replaceRecord, .preparing⟩ }
  | some slot =>
      if slot.running && !slot.deleting then s
      else
        { s with
          slots := s.slots.erase url
          starting := some ⟨url, replaceRecord, .joining slot slot⟩ }

def insertSection (s : Sections) (url : String) (replaceRecord : Bool) (worker : Worker) :
    Sections :=
  if (s.slots.find? url).isSome then { s with starting := none }
  else
    { s with
      slots := s.slots.insert { context := ⟨url, worker, 0⟩, serial := s.next }
      starting := some ⟨url, replaceRecord, .inserted s.next⟩
      next := s.next + 1 }

/-- What `sweep` chooses. -/
def reclaimables (s : Sections) (now : Int) : List (String × Nat) :=
  (s.slots.entries.filter fun slot => HttpEngine.reclaimable now slot.context).map fun slot =>
    (slot.url, slot.serial)

def reclaimSection (s : Sections) (url : String) (rest : List (String × Nat)) : Sections :=
  match s.slots.find? url with
  | none => { s with collected := some rest }
  | some slot =>
      { s with slots := s.slots.erase url, collected := some rest, reclaiming := some slot }

def step (s : Sections) : SectionEvent → Option Sections
  | .start url replaceRecord =>
      match s.starting with
      | none => some (s.startSection url replaceRecord)
      | some _ => none
  | .joined =>
      match s.starting with
      | some ⟨url, replaceRecord, .joining _ stale⟩ =>
          if stale.live then none
          else some { s with starting := some ⟨url, replaceRecord, .preparing⟩ }
      | _ => none
  | .refused =>
      match s.starting with
      | some ⟨_, _, .preparing⟩ => some { s with starting := none }
      | _ => none
  | .insert worker =>
      match s.starting with
      | some ⟨url, replaceRecord, .preparing⟩ => some (s.insertSection url replaceRecord worker)
      | _ => none
  | .unrecorded =>
      match s.starting with
      | some ⟨url, true, .inserted _⟩ =>
          some { s with slots := s.slots.erase url, starting := none }
      | _ => none
  | .launch =>
      match s.starting with
      | some ⟨_, _, .inserted serial⟩ =>
          some { s.update serial Slot.withThread fun _ => rfl with starting := none }
      | _ => none
  | .thread serial cfg fs event now =>
      ((s.all.find? (·.serial = serial)).bind (Slot.step cfg fs event)).map fun worker =>
        s.update serial (Slot.withWorker worker now) fun _ => rfl
  | .pause url => some (s.request url HttpEngine.requestPause HttpEngine.url_requestPause)
  | .delete url => some (s.request url HttpEngine.requestDelete HttpEngine.url_requestDelete)
  | .collect now =>
      match s.collected, s.reclaiming with
      | none, none => some { s with collected := some (s.reclaimables now) }
      | _, _ => none
  | .reclaim =>
      match s.collected, s.reclaiming with
      | some [], none => some { s with collected := none }
      | some ((url, _) :: rest), none => some (s.reclaimSection url rest)
      | _, _ => none
  | .reclaimed =>
      match s.reclaiming with
      | some slot => if slot.live then none else some { s with reclaiming := none }
      | none => none

/-- What `sweep` takes out is what it chose: no `start_download` has put another context under the URL
since. -/
def TakesChosen (s : Sections) : SectionEvent → Prop
  | .reclaim =>
      match s.collected with
      | some ((url, serial) :: _) => ∀ slot ∈ s.slots, slot.url = url → slot.serial = serial
      | _ => True
  | _ => True

/-! ### What is claimed of a state -/

/-- A `start_download` for its URL has taken the context out because it was being deleted, and waits
for its thread. -/
def Reaping (s : Sections) (a : Slot) : Prop :=
  ∃ replaceRecord taken, s.starting = some ⟨a.url, replaceRecord, .joining taken a⟩ ∧
    taken.deleting = true

/-- One thread for each URL, its context in the map or being reaped; and `sweep` takes out contexts
without a thread only. -/
structure OneWorker (s : Sections) : Prop where
  single : ∀ a ∈ s.all, ∀ b ∈ s.all, a.live = true → b.live = true → a.url = b.url →
    a.serial = b.serial
  reachable : ∀ a ∈ s.all, a.live = true → s.slots.find? a.url = some a ∨ s.Reaping a
  ended : ∀ slot, s.reclaiming = some slot → slot.running = false

structure Kept (s : Sections) : Prop where
  numbered : ∀ a ∈ s.all, a.serial < s.next
  distinct : ∀ a ∈ s.all, ∀ b ∈ s.all, a.serial = b.serial → a = b
  chosen : ∀ entries, s.collected = some entries → ∀ entry ∈ entries, entry.2 < s.next ∧
    ∀ a ∈ s.all, a.serial = entry.2 → a.running = false
  ended : ∀ slot, s.reclaiming = some slot → slot.running = false
  joining : ∀ url replaceRecord taken stale,
    s.starting = some ⟨url, replaceRecord, .joining taken stale⟩ →
      stale.url = url ∧ s.slots.find? url = none ∧ (stale.live = true → taken.deleting = true)

theorem mem_all {s : Sections} {a : Slot} :
    a ∈ s.all ↔ a ∈ s.slots ∨ s.stale = some a ∨ s.reclaiming = some a := by
  simp [all, KeyedList.mem_def]

theorem stale_eq_some_iff {s : Sections} {a : Slot} :
    s.stale = some a ↔
      ∃ url replaceRecord taken, s.starting = some ⟨url, replaceRecord, .joining taken a⟩ := by
  obtain ⟨slots, starting, collected, reclaiming, next⟩ := s
  simp only [stale]
  split
  next url replaceRecord taken stale => simp
  next hother =>
    simp only [reduceCtorEq, false_iff, not_exists]
    rintro url replaceRecord taken rfl
    exact hother _ _ _ _ rfl

theorem Kept.oneWorker {s : Sections} (h : Kept s) : OneWorker s := by
  have hreachable : ∀ a ∈ s.all, a.live = true →
      s.slots.find? a.url = some a ∨ s.Reaping a ∧ s.slots.find? a.url = none := by
    intro a ha hlive
    rcases mem_all.mp ha with hslot | hstale | hreclaiming
    · exact Or.inl (KeyedList.find?_key hslot)
    · obtain ⟨url, replaceRecord, taken, hstarting⟩ := stale_eq_some_iff.mp hstale
      obtain ⟨rfl, hnone, hdeleting⟩ := h.joining _ _ _ _ hstarting
      exact Or.inr ⟨⟨replaceRecord, taken, hstarting, hdeleting hlive⟩, hnone⟩
    · simp [Slot.live, h.ended a hreclaiming] at hlive
  refine ⟨?_, fun a ha hlive => (hreachable a ha hlive).imp_right And.left, h.ended⟩
  intro a ha b hb hlive hlive' hurl
  rcases hreachable a ha hlive with hfind | ⟨⟨_, _, hstarting, -⟩, hnone⟩ <;>
    rcases hreachable b hb hlive' with hfind' | ⟨⟨_, _, hstarting', -⟩, hnone'⟩
  · rw [← hurl, hfind] at hfind'
    exact congrArg Slot.serial (Option.some.inj hfind')
  · rw [← hurl, hfind] at hnone'
    exact absurd hnone' (by simp)
  · rw [hurl, hfind'] at hnone
    exact absurd hnone (by simp)
  · rw [hstarting] at hstarting'
    simp only [Option.some.injEq, Starting.mk.injEq, StartStage.joining.injEq] at hstarting'
    rw [hstarting'.2.2.2]

/-! ### Each section -/

theorem Kept.of_subset {s s' : Sections} (h : Kept s) (hall : ∀ a ∈ s'.all, a ∈ s.all)
    (hnext : s'.next = s.next)
    (hchosen : ∀ entries, s'.collected = some entries → ∀ entry ∈ entries, entry.2 < s.next ∧
      ∀ a ∈ s.all, a.serial = entry.2 → a.running = false)
    (hended : ∀ slot, s'.reclaiming = some slot → slot.running = false)
    (hjoining : ∀ url replaceRecord taken stale,
      s'.starting = some ⟨url, replaceRecord, .joining taken stale⟩ →
        stale.url = url ∧ s'.slots.find? url = none ∧ (stale.live = true → taken.deleting = true)) :
    Kept s' where
  numbered a ha := hnext ▸ h.numbered a (hall a ha)
  distinct a ha b hb := h.distinct a (hall a ha) b (hall b hb)
  chosen entries hentries entry hentry := by
    obtain ⟨hlt, hdone⟩ := hchosen entries hentries entry hentry
    exact ⟨hnext ▸ hlt, fun a ha => hdone a (hall a ha)⟩
  ended := hended
  joining := hjoining

theorem serial_onSerial {n : Nat} {g : Slot → Slot} (hg : ∀ slot, (g slot).serial = slot.serial)
    (slot : Slot) : (onSerial n g slot).serial = slot.serial := by
  rw [onSerial]
  split
  · exact hg slot
  · rfl

theorem mem_all_update {s : Sections} {n : Nat} {g : Slot → Slot}
    {hg : ∀ slot, (g slot).url = slot.url} {a : Slot} :
    a ∈ (s.update n g hg).all ↔ ∃ b ∈ s.all, onSerial n g b = a := by
  have hstale : (s.update n g hg).stale = s.stale.map (onSerial n g) := by
    obtain ⟨slots, starting, collected, reclaiming, next⟩ := s
    cases starting with
    | none => rfl
    | some starting =>
        obtain ⟨url, replaceRecord, stage⟩ := starting
        cases stage <;> rfl
  simp only [mem_all, hstale, Option.map_eq_some_iff]
  simp only [update, KeyedList.mem_map, Option.map_eq_some_iff]
  constructor
  · rintro (⟨b, hb, rfl⟩ | ⟨b, hb, rfl⟩ | ⟨b, hb, rfl⟩)
    · exact ⟨b, Or.inl hb, rfl⟩
    · exact ⟨b, Or.inr (Or.inl hb), rfl⟩
    · exact ⟨b, Or.inr (Or.inr hb), rfl⟩
  · rintro ⟨b, hb | hb | hb, rfl⟩
    · exact Or.inl ⟨b, hb, rfl⟩
    · exact Or.inr (Or.inl ⟨b, hb, rfl⟩)
    · exact Or.inr (Or.inr ⟨b, hb, rfl⟩)

/-- An update that sets no `thread_done` back, and gives no context being reaped a thread. -/
theorem Kept.update {s : Sections} (h : Kept s) {n : Nat} {g : Slot → Slot}
    {hg : ∀ slot, (g slot).url = slot.url} (hserial : ∀ slot, (g slot).serial = slot.serial)
    (hrunning : ∀ a ∈ s.all, a.serial = n → (g a).running = true → a.running = true)
    (hlive : ∀ a, s.stale = some a → a.serial = n → (g a).live = true → a.live = true) :
    Kept (s.update n g hg) where
  numbered a ha := by
    obtain ⟨b, hb, rfl⟩ := mem_all_update.mp ha
    rw [serial_onSerial hserial]
    exact h.numbered b hb
  distinct a ha a' ha' hsame := by
    obtain ⟨b, hb, rfl⟩ := mem_all_update.mp ha
    obtain ⟨b', hb', rfl⟩ := mem_all_update.mp ha'
    rw [serial_onSerial hserial, serial_onSerial hserial] at hsame
    rw [h.distinct b hb b' hb' hsame]
  chosen entries hentries entry hentry := by
    obtain ⟨hlt, hdone⟩ := h.chosen entries hentries entry hentry
    refine ⟨hlt, fun a ha hsame => ?_⟩
    obtain ⟨b, hb, rfl⟩ := mem_all_update.mp ha
    rw [serial_onSerial hserial] at hsame
    have hold := hdone b hb hsame
    rw [onSerial]
    split
    next hn =>
      rw [← Bool.not_eq_true]
      intro hnew
      rw [hrunning b hb hn hnew] at hold
      exact absurd hold (by simp)
    next => exact hold
  ended slot hslot := by
    obtain ⟨b, hb, rfl⟩ := Option.map_eq_some_iff.mp hslot
    have hold := h.ended b hb
    rw [onSerial]
    split
    next hn =>
      rw [← Bool.not_eq_true]
      intro hnew
      rw [hrunning b (mem_all.mpr (Or.inr (Or.inr hb))) hn hnew] at hold
      exact absurd hold (by simp)
    next => exact hold
  joining url replaceRecord taken stale hstarting := by
    obtain ⟨⟨url', replaceRecord', stage⟩, hold, hmap⟩ := Option.map_eq_some_iff.mp hstarting
    cases stage with
    | joining taken' stale' =>
        simp only [mapStale, Starting.mk.injEq, StartStage.joining.injEq] at hmap
        obtain ⟨rfl, rfl, rfl, rfl⟩ := hmap
        obtain ⟨hurl, hnone, hdeleting⟩ := h.joining _ _ _ _ hold
        refine ⟨(url_onSerial n hg stale').trans hurl, ?_, ?_⟩
        · simp only [Sections.update, KeyedList.find?_map, hnone]
          rfl
        · intro hnew
          apply hdeleting
          rw [onSerial] at hnew
          split at hnew
          next hn => exact hlive stale' (stale_eq_some_iff.mpr ⟨_, _, _, hold⟩) hn hnew
          next => exact hnew
    | preparing => simp [mapStale] at hmap
    | inserted serial => simp [mapStale] at hmap

theorem find?_erase_eq_none {s : Sections} {url url' : String} (h : s.slots.find? url = none) :
    (s.slots.erase url').find? url = none := by
  rw [KeyedList.find?_eq_none_iff] at h ⊢
  exact fun a ha => h a (KeyedList.mem_filter.mp ha).1

theorem Kept.idle {s s' : Sections} (h : Kept s) (hslots : ∀ a ∈ s'.slots, a ∈ s.slots)
    (hstale : s'.stale = none) (hcollected : s'.collected = s.collected)
    (hreclaiming : s'.reclaiming = s.reclaiming) (hnext : s'.next = s.next) : Kept s' := by
  refine h.of_subset ?_ hnext (hcollected ▸ h.chosen) (hreclaiming ▸ h.ended) ?_
  · intro a ha
    rcases mem_all.mp ha with hslot | htaken | hgone
    · exact mem_all.mpr (Or.inl (hslots a hslot))
    · rw [hstale] at htaken
      exact absurd htaken (by simp)
    · exact mem_all.mpr (Or.inr (Or.inr (hreclaiming ▸ hgone)))
  · intro url replaceRecord taken stale' hstarting
    have hjoining := stale_eq_some_iff.mpr ⟨_, _, _, hstarting⟩
    rw [hstale] at hjoining
    exact absurd hjoining (by simp)

theorem Kept.startSection {s : Sections} (h : Kept s) (url : String)
    (replaceRecord : Bool) : Kept (s.startSection url replaceRecord) := by
  rw [Sections.startSection]
  split
  next hnone => exact h.idle (fun _ => id) rfl rfl rfl rfl
  next slot hfind =>
    split
    · exact h
    next hidle' =>
      have hslot := KeyedList.mem_of_find? hfind
      refine h.of_subset ?_ rfl h.chosen h.ended ?_
      · intro a ha
        rcases mem_all.mp ha with hkept | htaken | hreclaiming
        · exact mem_all.mpr (Or.inl (KeyedList.mem_filter.mp hkept).1)
        · obtain rfl := Option.some.inj htaken
          exact mem_all.mpr (Or.inl hslot)
        · exact mem_all.mpr (Or.inr (Or.inr hreclaiming))
      · intro url' replaceRecord' taken stale' hstarting
        simp only [Option.some.injEq, Starting.mk.injEq, StartStage.joining.injEq] at hstarting
        obtain ⟨rfl, -, rfl, rfl⟩ := hstarting
        refine ⟨KeyedList.key_of_find? hfind, KeyedList.find?_erase_self _ _, ?_⟩
        intro hlive
        simp only [Slot.live, Bool.and_eq_true] at hlive
        simpa [hlive.2] using hidle'

theorem Kept.insertSection {s : Sections} (h : Kept s) (url : String)
    (replaceRecord : Bool) (worker : Worker) :
    Kept (s.insertSection url replaceRecord worker) := by
  rw [Sections.insertSection]
  split
  · exact h.idle (fun _ => id) rfl rfl rfl rfl
  · have hold : ∀ a ∈ Sections.all { s with
        slots := s.slots.insert { context := ⟨url, worker, 0⟩, serial := s.next }
        starting := some ⟨url, replaceRecord, .inserted s.next⟩
        next := s.next + 1 },
        a = { context := ⟨url, worker, 0⟩, serial := s.next } ∨ a ∈ s.all := by
      intro a ha
      rcases mem_all.mp ha with hslot | hstale' | hreclaiming
      · exact (KeyedList.mem_insert.mp hslot).imp_right fun hkept => mem_all.mpr (Or.inl hkept.1)
      · exact absurd hstale' (by simp [stale])
      · exact Or.inr (mem_all.mpr (Or.inr (Or.inr hreclaiming)))
    refine ⟨?_, ?_, ?_, h.ended, by simp⟩
    · intro a ha
      rcases hold a ha with rfl | hkept
      · exact Nat.lt_succ_self _
      · exact (h.numbered a hkept).trans (Nat.lt_succ_self _)
    · intro a ha b hb hsame
      rcases hold a ha with rfl | hkept <;> rcases hold b hb with rfl | hkept'
      · rfl
      · exact absurd (h.numbered b hkept') (hsame ▸ lt_irrefl _)
      · exact absurd (h.numbered a hkept) (hsame ▸ lt_irrefl _)
      · exact h.distinct a hkept b hkept' hsame
    · intro entries hentries entry hentry
      obtain ⟨hlt, hdone⟩ := h.chosen entries hentries entry hentry
      refine ⟨hlt.trans (Nat.lt_succ_self _), ?_⟩
      intro a ha hsame
      rcases hold a ha with rfl | hkept
      · exact absurd hlt (hsame ▸ lt_irrefl _)
      · exact hdone a hkept hsame

theorem Kept.request {s : Sections} (h : Kept s) (url : String) {f : HttpContext → HttpContext}
    {hf : ∀ c, (f c).url = c.url} (hrunning : ∀ c, (f c).worker.running = c.worker.running) :
    Kept (s.request url f hf) := by
  rw [Sections.request]
  split
  · exact h
  next slot _ =>
    refine h.update (fun _ => rfl) (fun a _ _ hnew => ?_) fun a _ _ hnew => ?_
    · exact (hrunning a.context).symm.trans hnew
    · simp only [Slot.live, Slot.running, hrunning] at hnew ⊢
      exact hnew

theorem Kept.launch {s : Sections} (h : Kept s) (serial : Nat) :
    Kept { s.update serial Slot.withThread fun _ => rfl with starting := none } := by
  have hidle : Kept { s with starting := none } := h.idle (fun _ => id) rfl rfl rfl rfl
  exact @Kept.update _ hidle serial Slot.withThread (fun _ => rfl) (fun _ => rfl)
    (fun _ _ _ => id) fun a hstale => absurd hstale (by simp [stale])

theorem Kept.thread {s : Sections} (h : Kept s) {slot : Slot} (hslot : slot ∈ s.all)
    (hlive : slot.live = true) (worker : Worker) (now : Int) :
    Kept (s.update slot.serial (Slot.withWorker worker now) fun _ => rfl) := by
  have hself : ∀ a ∈ s.all, a.serial = slot.serial → a = slot :=
    fun a ha hsame => h.distinct a ha slot hslot hsame
  refine h.update (fun _ => rfl) (fun a ha hsame _ => ?_) fun a hstale hsame _ => ?_
  · rw [hself a ha hsame]
    simp only [Slot.live, Bool.and_eq_true] at hlive
    exact hlive.2
  · rw [hself a (mem_all.mpr (Or.inr (Or.inl hstale))) hsame]
    exact hlive

theorem Kept.collect {s : Sections} (h : Kept s) (now : Int) :
    Kept { s with collected := some (s.reclaimables now) } := by
  refine h.of_subset (fun _ => id) rfl ?_ h.ended h.joining
  intro entries hentries entry hentry
  obtain rfl := Option.some.inj hentries
  obtain ⟨slot, hslot, rfl⟩ := List.mem_map.mp hentry
  obtain ⟨hslot, hreclaimable⟩ := List.mem_filter.mp hslot
  have hall : slot ∈ s.all := mem_all.mpr (Or.inl hslot)
  refine ⟨h.numbered slot hall, fun a ha hsame => ?_⟩
  rw [h.distinct a ha slot hall hsame]
  simp only [HttpEngine.reclaimable, Bool.and_eq_true, Bool.not_eq_true'] at hreclaimable
  exact hreclaimable.1

theorem Kept.reclaimSection {s : Sections} (h : Kept s) {url : String} {serial : Nat}
    {rest : List (String × Nat)} (hcollected : s.collected = some ((url, serial) :: rest))
    (hchosen : ∀ slot ∈ s.slots, slot.url = url → slot.serial = serial) :
    Kept (s.reclaimSection url rest) := by
  have hrest : ∀ entries, some rest = some entries → ∀ entry ∈ entries, entry.2 < s.next ∧
      ∀ a ∈ s.all, a.serial = entry.2 → a.running = false := by
    intro entries hentries entry hentry
    obtain rfl := Option.some.inj hentries
    exact h.chosen _ hcollected entry (List.mem_cons_of_mem _ hentry)
  rw [Sections.reclaimSection]
  split
  next hnone => exact h.of_subset (fun _ => id) rfl hrest h.ended h.joining
  next slot hfind =>
    have hslot := KeyedList.mem_of_find? hfind
    have hsame := hchosen slot hslot (KeyedList.key_of_find? hfind)
    have hdone := (h.chosen _ hcollected _ List.mem_cons_self).2 slot
      (mem_all.mpr (Or.inl hslot)) hsame
    refine h.of_subset ?_ rfl hrest ?_ ?_
    · intro a ha
      rcases mem_all.mp ha with hkept | hstale | htaken
      · exact mem_all.mpr (Or.inl (KeyedList.mem_filter.mp hkept).1)
      · exact mem_all.mpr (Or.inr (Or.inl hstale))
      · obtain rfl := Option.some.inj htaken
        exact mem_all.mpr (Or.inl hslot)
    · intro other hother
      obtain rfl := Option.some.inj hother
      exact hdone
    · intro url' replaceRecord taken stale' hstarting
      obtain ⟨hurl, hnone, hdeleting⟩ := h.joining _ _ _ _ hstarting
      exact ⟨hurl, find?_erase_eq_none hnone, hdeleting⟩

theorem Kept.reclaimed {s : Sections} (h : Kept s) : Kept { s with reclaiming := none } := by
  refine h.of_subset ?_ rfl h.chosen (by simp) h.joining
  intro a ha
  rcases mem_all.mp ha with hslot | hstale | hgone
  · exact mem_all.mpr (Or.inl hslot)
  · exact mem_all.mpr (Or.inr (Or.inl hstale))
  · exact absurd hgone (by simp)

/-- **Every section keeps it**, as long as `sweep` takes what it chose. -/
theorem Kept.step {s s' : Sections} {event : SectionEvent} (h : Kept s)
    (hchosen : TakesChosen s event) (hstep : s.step event = some s') : Kept s' := by
  cases event with
  | start url replaceRecord =>
      simp only [Sections.step] at hstep
      split at hstep
      next =>
        obtain rfl := Option.some.inj hstep
        exact h.startSection url replaceRecord
      next => simp at hstep
  | joined =>
      simp only [Sections.step] at hstep
      split at hstep
      next url replaceRecord taken stale' hstarting =>
        split at hstep
        · simp at hstep
        · obtain rfl := Option.some.inj hstep
          exact h.idle (fun _ => id) rfl rfl rfl rfl
      next => simp at hstep
  | refused =>
      simp only [Sections.step] at hstep
      split at hstep
      next =>
        obtain rfl := Option.some.inj hstep
        exact h.idle (fun _ => id) rfl rfl rfl rfl
      next => simp at hstep
  | insert worker =>
      simp only [Sections.step] at hstep
      split at hstep
      next url replaceRecord _ =>
        obtain rfl := Option.some.inj hstep
        exact h.insertSection url replaceRecord worker
      next => simp at hstep
  | unrecorded =>
      simp only [Sections.step] at hstep
      split at hstep
      next =>
        obtain rfl := Option.some.inj hstep
        exact h.idle (fun a ha => (KeyedList.mem_filter.mp ha).1) rfl rfl rfl rfl
      next => simp at hstep
  | launch =>
      simp only [Sections.step] at hstep
      split at hstep
      next url replaceRecord serial _ =>
        obtain rfl := Option.some.inj hstep
        exact h.launch serial
      next => simp at hstep
  | thread serial cfg fs event now =>
      simp only [Sections.step, Option.map_eq_some_iff, Option.bind_eq_some_iff] at hstep
      obtain ⟨worker, ⟨slot, hfind, hworker⟩, rfl⟩ := hstep
      have hlive : slot.live = true := by
        rw [Slot.step] at hworker
        split at hworker
        · assumption
        · simp at hworker
      obtain rfl : slot.serial = serial := by simpa using List.find?_some hfind
      exact h.thread (List.mem_of_find?_eq_some hfind) hlive worker now
  | pause url =>
      obtain rfl := Option.some.inj hstep
      exact h.request url fun _ => rfl
  | delete url =>
      obtain rfl := Option.some.inj hstep
      exact h.request url fun _ => rfl
  | collect now =>
      simp only [Sections.step] at hstep
      split at hstep
      next hcollected hreclaiming =>
        obtain rfl := Option.some.inj hstep
        exact h.collect now
      next => simp at hstep
  | reclaim =>
      simp only [Sections.step] at hstep
      split at hstep
      next hcollected hreclaiming =>
        obtain rfl := Option.some.inj hstep
        exact h.of_subset (fun _ => id) rfl (by simp) h.ended h.joining
      next url serial rest hcollected hreclaiming =>
        obtain rfl := Option.some.inj hstep
        simp only [TakesChosen, hcollected] at hchosen
        exact h.reclaimSection hcollected hchosen
      next => simp at hstep
  | reclaimed =>
      simp only [Sections.step] at hstep
      split at hstep
      next slot hreclaiming =>
        split at hstep
        · simp at hstep
        · obtain rfl := Option.some.inj hstep
          exact h.reclaimed
      next => simp at hstep

/-- **One reachable worker for each URL**, in every run in which `sweep` takes what it chose. -/
theorem oneWorker_of_reaches {s : Sections}
    (hrun : Reaches Sections.step TakesChosen { slots := .empty } s) : OneWorker s := by
  refine Kept.oneWorker (hrun.invariant (fun _ _ _ hkept => hkept.step) ?_)
  have hnone : ∀ a, a ∉ Sections.all { slots := .empty } := fun a => List.not_mem_nil
  exact ⟨fun a ha => absurd ha (hnone a), fun a ha => absurd ha (hnone a), by simp, by simp, by simp⟩

instance (s : Sections) (event : SectionEvent) : Decidable (TakesChosen s event) := by
  cases event with
  | reclaim =>
      simp only [TakesChosen]
      split
      · exact inferInstanceAs (Decidable (∀ slot ∈ s.slots.entries, _))
      · exact instDecidableTrue
  | _ => exact instDecidableTrue

def starts (worker : Worker) : List SectionEvent :=
  [.start "u" false, .insert worker, .launch]

def newWorker : Worker := startWorker "u" "" "/d" none (fun _ => none) true

def ends (serial : Nat) : List SectionEvent :=
  [.delete "u", .thread serial (syncConfig 3 4 0) (fun _ => none) (.enter true fun _ => true) 0]

theorem oneWorker_of_reaches_swept :
    ∃ s, play Sections.step TakesChosen { slots := .empty }
        (starts newWorker ++ ends 0 ++ [.collect 0, .reclaim, .reclaimed]) = some s ∧
      OneWorker s := by
  obtain ⟨s, hs⟩ := Option.isSome_iff_exists.mp (by decide +kernel :
    (play Sections.step TakesChosen { slots := .empty }
      (starts newWorker ++ ends 0 ++ [.collect 0, .reclaim, .reclaimed])).isSome = true)
  exact ⟨s, hs, oneWorker_of_reaches (reaches_of_play hs)⟩

/-- The context of a thread that was told to stop is out of the map while its URL is added again. -/
theorem not_stored_reaping :
    ∃ s, Reaches Sections.step anyEvent { slots := .empty } s ∧
      ∃ a ∈ s.all, a.live = true ∧ s.slots.find? a.url ≠ some a := by
  have hrun : (play Sections.step anyEvent { slots := .empty }
      (starts newWorker ++ [.delete "u", .start "u" true])).any (fun s =>
        s.all.any fun a => a.live && (s.slots.find? a.url).isNone) = true := by
    decide +kernel
  rw [Option.any_eq_true] at hrun
  obtain ⟨s, hs, hany⟩ := hrun
  obtain ⟨a, ha, hlive⟩ := List.any_eq_true.mp hany
  simp only [Bool.and_eq_true, Option.isNone_iff_eq_none] at hlive
  exact ⟨s, reaches_of_play hs, a, ha, hlive.1, by simp [hlive.2]⟩

/-- `sweep` chooses a context that is then replaced: it takes out the new one, with its thread, and
the next `start_download` starts a second thread. -/
theorem not_single_replaced :
    ∃ s, Reaches Sections.step anyEvent { slots := .empty } s ∧
      ∃ a ∈ s.all, ∃ b ∈ s.all, a.live = true ∧ b.live = true ∧ a.url = b.url ∧
        a.serial ≠ b.serial := by
  have hrun : (play Sections.step anyEvent { slots := .empty }
      (starts newWorker ++ ends 0 ++ [.collect 0, .start "u" false, .joined, .insert newWorker,
        .launch, .reclaim] ++ starts newWorker)).any (fun s =>
        s.all.any fun a => s.all.any fun b =>
          a.live && b.live && a.url == b.url && a.serial != b.serial) = true := by
    decide +kernel
  rw [Option.any_eq_true] at hrun
  obtain ⟨s, hs, hany⟩ := hrun
  obtain ⟨a, ha, hany'⟩ := List.any_eq_true.mp hany
  obtain ⟨b, hb, hboth⟩ := List.any_eq_true.mp hany'
  simp only [Bool.and_eq_true, beq_iff_eq, bne_iff_ne] at hboth
  obtain ⟨⟨⟨hlive, hlive'⟩, hurl⟩, hserial⟩ := hboth
  exact ⟨s, reaches_of_play hs, a, ha, b, hb, hlive, hlive', hurl, hserial⟩

theorem contexts_eq {l l' : KeyedList Slot.url} (h : l.entries = l'.entries) : l = l' := by
  cases l
  cases l'
  cases h
  rfl

theorem reaches_reclaims {s : Sections} (chosen : List Slot)
    (hcollected : s.collected = some (chosen.map fun slot => (slot.url, slot.serial)))
    (hidle : s.reclaiming = none) (hthere : ∀ slot ∈ chosen, slot ∈ s.slots)
    (hdone : ∀ slot ∈ chosen, slot.running = false) (hnodup : (chosen.map Slot.url).Nodup) :
    Reaches Sections.step anyEvent s { s with
      slots := s.slots.filter fun slot => slot.url ∉ chosen.map Slot.url
      collected := none } := by
  induction chosen generalizing s with
  | nil =>
      have hall : (s.slots.filter fun slot => slot.url ∉ ([] : List Slot).map Slot.url) = s.slots :=
        contexts_eq (List.filter_eq_self.mpr fun _ _ => by simp)
      rw [hall]
      refine Relation.ReflTransGen.single ⟨.reclaim, trivial, ?_⟩
      simp only [Sections.step, hcollected, hidle, List.map_nil]
  | cons slot chosen ih =>
      have hfind : s.slots.find? slot.url = some slot :=
        KeyedList.find?_key (hthere slot List.mem_cons_self)
      have hlive : slot.live = false := by
        simp [Slot.live, hdone slot List.mem_cons_self]
      rw [List.map_cons, List.nodup_cons] at hnodup
      let rest := chosen.map fun slot => (slot.url, slot.serial)
      have htake : s.step .reclaim = some { s with
          slots := s.slots.erase slot.url, collected := some rest, reclaiming := some slot } := by
        simp only [Sections.step, hcollected, hidle, List.map_cons, reclaimSection, hfind]
        rfl
      have hjoin : Sections.step { s with
          slots := s.slots.erase slot.url, collected := some rest, reclaiming := some slot }
          .reclaimed = some { s with
            slots := s.slots.erase slot.url, collected := some rest, reclaiming := none } := by
        simp [Sections.step, hlive]
      have hrest := @ih { s with
        slots := s.slots.erase slot.url, collected := some rest, reclaiming := none } rfl rfl
        (fun other hother => KeyedList.mem_filter.mpr ⟨hthere other (List.mem_cons_of_mem _ hother), by
          simp only [decide_eq_true_eq]
          intro hsame
          exact hnodup.1 (hsame ▸ List.mem_map_of_mem hother)⟩)
        (fun other hother => hdone other (List.mem_cons_of_mem _ hother)) hnodup.2
      have hslots : ((s.slots.erase slot.url).filter fun other => other.url ∉ chosen.map Slot.url) =
          s.slots.filter fun other => other.url ∉ (slot :: chosen).map Slot.url := by
        apply contexts_eq
        simp only [KeyedList.erase, KeyedList.filter, List.filter_filter]
        apply List.filter_congr
        intro other _
        simp only [List.map_cons, List.mem_cons, not_or, Bool.decide_and]
        exact Bool.and_comm _ _
      rw [hslots] at hrest
      rw [hidle]
      exact .head ⟨.reclaim, trivial, htake⟩ (.head ⟨.reclaimed, trivial, hjoin⟩ hrest)

/-- **A pass of `sweep` that nothing comes between** is the engine's `sweep`. -/
theorem reaches_sweep {s : Sections} {w : World} (now : Int) (hcollected : s.collected = none)
    (hidle : s.reclaiming = none) (hw : w.contexts.entries = s.slots.entries.map Slot.context) :
    ∃ slots, Reaches Sections.step anyEvent s { s with slots := slots } ∧
      (HttpEngine.sweep now w).contexts.entries = slots.entries.map Slot.context := by
  let chosen := s.slots.entries.filter fun slot => HttpEngine.reclaimable now slot.context
  have hcollect : s.step (.collect now) = some { s with
      collected := some (chosen.map fun slot => (slot.url, slot.serial)) } := by
    simp only [Sections.step, hcollected, hidle]
    rfl
  have hpass := @reaches_reclaims { s with
    collected := some (chosen.map fun slot => (slot.url, slot.serial)) } chosen rfl hidle
    (fun slot hslot => (List.mem_filter.mp hslot).1)
    (fun slot hslot => by
      have hreclaimable := (List.mem_filter.mp hslot).2
      simp only [HttpEngine.reclaimable, Bool.and_eq_true, Bool.not_eq_true'] at hreclaimable
      exact hreclaimable.1)
    (s.slots.nodup.sublist (List.filter_sublist.map _))
  rw [← hcollected] at hpass
  refine ⟨_, .head ⟨_, trivial, hcollect⟩ hpass, ?_⟩
  simp only [HttpEngine.sweep, KeyedList.filter, hw, List.filter_map]
  congr 1
  apply List.filter_congr
  intro slot hslot
  have hmem : slot.url ∈ chosen.map Slot.url ↔ HttpEngine.reclaimable now slot.context = true := by
    constructor
    · intro hurl
      obtain ⟨other, hother, hsame⟩ := List.mem_map.mp hurl
      obtain ⟨hother, hreclaimable⟩ := List.mem_filter.mp hother
      rwa [KeyedList.eq_of_key_eq hother hslot hsame] at hreclaimable
    · intro hreclaimable
      exact List.mem_map_of_mem (List.mem_filter.mpr ⟨hslot, hreclaimable⟩)
  simp only [Function.comp_apply, hmem]
  cases HttpEngine.reclaimable now slot.context <;> rfl

theorem context_onSerial_withThread (n : Nat) (slot : Slot) :
    (onSerial n Slot.withThread slot).context = slot.context := by
  rw [onSerial]
  split <;> rfl

/-- **A call of `start_download` that nothing comes between**, for a URL without a thread, leaves the
contexts as the engine's call does that starts one. -/
theorem reaches_start {s : Sections} {w : World} (url : String) (worker : Worker)
    (replaceRecord : Bool) (hidle : s.starting = none)
    (hended : ∀ slot, s.slots.find? url = some slot → slot.running = false)
    (hw : w.contexts.entries = s.slots.entries.map Slot.context) :
    ∃ s', Reaches Sections.step anyEvent s s' ∧ s'.starting = none ∧
      ((w.contexts.erase url).insert ⟨url, worker, 0⟩).entries =
        s'.slots.entries.map Slot.context := by
  -- what stood under the URL is out of the way
  have hprepared : Reaches Sections.step anyEvent s { s with
      slots := s.slots.erase url, starting := some ⟨url, replaceRecord, .preparing⟩ } := by
    cases hfind : s.slots.find? url with
    | none =>
        have hslots : s.slots.erase url = s.slots := by
          apply contexts_eq
          refine List.filter_eq_self.mpr fun slot hslot => ?_
          simpa using KeyedList.find?_eq_none_iff.mp hfind slot hslot
        rw [hslots]
        refine .single ⟨.start url replaceRecord, trivial, ?_⟩
        simp only [Sections.step, hidle, startSection, hfind]
    | some slot =>
        have hrunning := hended slot hfind
        have htake : s.step (.start url replaceRecord) = some { s with
            slots := s.slots.erase url
            starting := some ⟨url, replaceRecord, .joining slot slot⟩ } := by
          simp [Sections.step, hidle, startSection, hfind, hrunning]
        refine .head ⟨_, trivial, htake⟩ (.single ⟨.joined, trivial, ?_⟩)
        simp [Sections.step, Slot.live, hrunning]
  have hinsert : Sections.step { s with
      slots := s.slots.erase url, starting := some ⟨url, replaceRecord, .preparing⟩ }
      (.insert worker) = some { s with
        slots := (s.slots.erase url).insert { context := ⟨url, worker, 0⟩, serial := s.next }
        starting := some ⟨url, replaceRecord, .inserted s.next⟩
        next := s.next + 1 } := by
    simp only [Sections.step, insertSection, KeyedList.find?_erase_self, Option.isSome_none]
    rfl
  refine ⟨_, hprepared.trans (.head ⟨_, trivial, hinsert⟩ (.single ⟨.launch, trivial, rfl⟩)), rfl, ?_⟩
  have hcontext : Slot.context ∘ onSerial s.next Slot.withThread = Slot.context :=
    funext (context_onSerial_withThread s.next)
  simp only [Sections.update, KeyedList.map, KeyedList.insert, KeyedList.erase, KeyedList.filter,
    List.map_map, hcontext, List.map_cons, context_onSerial_withThread, hw, List.filter_map]
  rfl

end Sections

end DownloadWrapper
