import DownloadWrapper.Core.Tracking

/-!
# The identity of a BT task

A BT task is registered under the info hash its source gives, once; every alert computes the info hash
of its handle anew. A torrent may have two hashes and its source name only one of them, and then the
metadata brings the other.
-/

namespace DownloadWrapper

open Transition

/-- `lt::info_hash_t` in lower-case hex: a v1 hash, a v2 hash, or both. -/
structure InfoHashes where
  v1 : Option String
  v2 : Option String
  isSome : v1.isSome ∨ v2.isSome
  v1_length : ∀ h, v1 = some h → h.length = 40
  v2_length : ∀ h, v2 = some h → h.length = 64

namespace InfoHashes

/-- `info_hash_hex`. -/
def hex (hashes : InfoHashes) : String := hashHex hashes.v1 hashes.v2

structure Within (source all : InfoHashes) : Prop where
  v1 : ∀ h, source.v1 = some h → all.v1 = some h
  v2 : ∀ h, source.v2 = some h → all.v2 = some h

/-- What libtorrent reports of the torrent: the hashes of the source until the metadata is there, and
all of them afterwards. -/
def reports (source all : InfoHashes) (t : Torrent) : Bool :=
  if t.info.isSome then t.v1 = all.v1 && t.v2 = all.v2
  else t.v1 = source.v1 && t.v2 = source.v2

variable {source all : InfoHashes}

theorem hex_ne_empty (hashes : InfoHashes) : hashes.hex ≠ "" := by
  intro hempty
  unfold hex hashHex at hempty
  cases hv2 : hashes.v2 with
  | some h =>
      have hlength := hashes.v2_length h hv2
      rw [hv2] at hempty
      simp only [Option.some_or, Option.getD_some] at hempty
      rw [hempty] at hlength
      exact absurd hlength (by decide)
  | none =>
      obtain ⟨h, hv1⟩ := Option.isSome_iff_exists.mp
        (hashes.isSome.resolve_right (by simp [hv2]))
      have hlength := hashes.v1_length h hv1
      rw [hv1, hv2] at hempty
      simp only [Option.none_or, Option.getD_some] at hempty
      rw [hempty] at hlength
      exact absurd hlength (by decide)

theorem hex_eq_iff (hwithin : source.Within all) : all.hex = source.hex ↔ all.v2 = source.v2 := by
  unfold hex hashHex
  cases hv2 : source.v2 with
  | some h => simp [hwithin.v2 h hv2]
  | none =>
      obtain ⟨g, hv1⟩ := Option.isSome_iff_exists.mp
        (source.isSome.resolve_right (by simp [hv2]))
      rw [hv1, hwithin.v1 g hv1]
      cases hall : all.v2 with
      | none => simp
      | some k =>
          have hne : k ≠ g := by
            intro heq
            have hk := all.v2_length k hall
            have hg := source.v1_length g hv1
            rw [heq, hg] at hk
            exact absurd hk (by decide)
          simp [hne]

theorem hex_of_reports {t : Torrent} (hreports : source.reports all t = true) :
    t.hex = if t.info.isSome then all.hex else source.hex := by
  unfold reports at hreports
  unfold Torrent.hex hex
  split <;> rename_i hinfo <;>
    simp only [hinfo, if_true, Bool.false_eq_true, if_false, Bool.and_eq_true,
      decide_eq_true_eq] at hreports <;>
    rw [hreports.1, hreports.2]

end InfoHashes

def sourceHashes (lib : TorrentLib) (params : TaskParams) : Option (Option String × Option String) :=
  let magnet := lib.parseMagnetUri params.magnetLink
  if params.magnetLink ≠ "" ∧ magnet.ok then some (magnet.v1, magnet.v2)
  else
    match if params.torrentFile = "" then none else lib.loadTorrentFile params.torrentFile with
    | some hashes => some hashes
    | none =>
        ((fromHex 40 params.magnetLink).map fun h => (some h, none)).or
          ((fromHex 64 params.magnetLink).map fun h => (none, some h))

theorem map_fst_parseSource (lib : TorrentLib) (params : TaskParams) :
    (TorrentEngine.parseSource lib params).map Prod.fst =
      (sourceHashes lib params).map fun hashes => hashHex hashes.1 hashes.2 := by
  unfold TorrentEngine.parseSource sourceHashes
  simp only
  split
  · rfl
  · split
    next v1 v2 hloaded =>
      rw [hloaded]
      rfl
    next hloaded =>
      rw [hloaded]
      cases fromHex 40 params.magnetLink <;> cases fromHex 64 params.magnetLink <;> rfl

/-! ### Resolving an alert -/

namespace Hub

/-- The task an alert of the handle is about: `info_hash_hex`, then `get_task`. -/
def resolve (h : Hub) (id : Nat) : Option Task :=
  findTorrentTask (h.world.session.hexOf id)
    (loadTask h.world.store (h.world.session.hexOf id) h.registry)

def heldByOther (h : Hub) (infoHash : String) : Bool :=
  ((loadTask h.world.store infoHash h.registry).find? infoHash).any fun task =>
    task.taskProtocol ≠ .torrent

end Hub

/-- The process lives on, and whatever libtorrent does, the handle `id` reports the hashes of the
source until the metadata is there, and all of them afterwards. -/
def lasting (id : Nat) (source all : InfoHashes) (_ : Hub) : HubEvent → Bool
  | .libtorrent session _ => session.all fun t => t.id ≠ id || source.reports all t
  | .restart _ => false
  | _ => true

structure Known (id : Nat) (source all : InfoHashes) (other : Bool) (h : Hub) : Prop where
  rooted : Rooted h
  given : id < h.world.nextTorrent
  reports : ∀ t ∈ h.world.session, t.id = id → source.reports all t = true
  registered : ∃ task, h.registry.find? source.hex = some task ∧
    (task.taskProtocol = .torrent ↔ other = false)

section Known

variable {id : Nat} {source all : InfoHashes} {other : Bool} {h h' : Hub} {event : HubEvent}

theorem Known.step (hknown : Known id source all other h)
    (hlasting : lasting id source all h event = true) (hstep : h.step event = some h') :
    Known id source all other h' := by
  have hrestart : ∀ now, event ≠ .restart now := by
    rintro now rfl
    exact absurd hlasting (by simp [lasting])
  have hregistered : ∃ task, h'.registry.find? source.hex = some task ∧
      (task.taskProtocol = .torrent ↔ other = false) := by
    obtain ⟨task, hfind, hprotocol⟩ := hknown.registered
    obtain ⟨task', hfind', hchange⟩ :=
      (evolves_step hknown.rooted hstep hrestart).find? hfind
    exact ⟨task', hfind', by rw [hchange.taskProtocol, hprotocol]⟩
  by_cases hlibtorrent : ∃ session posted, event = .libtorrent session posted
  · obtain ⟨session, posted, rfl⟩ := hlibtorrent
    have hrooted := rooted_step hknown.rooted hstep
    cases Hub.stepped_of_step hstep with
    | libtorrent =>
        refine ⟨hrooted, hknown.given, fun t ht hid => ?_, hregistered⟩
        have hone := List.all_eq_true.mp hlasting t ht
        simpa [hid] using hone
  · have htracks := Hub.tracks_step hstep hrestart fun session posted heq =>
      hlibtorrent ⟨session, posted, heq⟩
    refine ⟨rooted_step hknown.rooted hstep, hknown.given.trans_le htracks.next,
      fun t' ht' hid => ?_, hregistered⟩
    obtain ⟨t, ht, hsame⟩ := htracks.old t' ht' (hid ▸ hknown.given)
    have hreports := hknown.reports t ht (hsame.id.symm.trans hid)
    unfold InfoHashes.reports at hreports ⊢
    rw [hsame.v1, hsame.v2, hsame.info]
    exact hreports

theorem Known.resolve_iff (hknown : Known id source all other h) (hwithin : source.Within all) :
    (∃ task, h.resolve id = some task ∧ task.taskId = source.hex) ↔
      (∃ t, h.world.session.torrent? id = some t ∧ (t.info = none ∨ all.v2 = source.v2)) ∧
        other = false := by
  obtain ⟨registered, hregistered, hprotocol⟩ := hknown.registered
  have hhex : ∀ t, h.world.session.torrent? id = some t →
      h.world.session.hexOf id = if t.info.isSome then all.hex else source.hex := by
    intro t ht
    unfold Session.hexOf
    rw [ht]
    refine InfoHashes.hex_of_reports (hknown.reports t (List.mem_of_find?_eq_some ht) ?_)
    simpa using List.find?_some ht
  unfold Hub.resolve
  constructor
  · rintro ⟨task, hresolve, hkey⟩
    obtain ⟨hfind, htorrent⟩ := Option.filter_eq_some_iff.mp hresolve
    have hsame : h.world.session.hexOf id = source.hex :=
      (KeyedList.key_of_find? hfind).symm.trans hkey
    rw [hsame, loadTask_of_find? hregistered, hregistered] at hfind
    obtain rfl := Option.some.inj hfind
    refine ⟨?_, hprotocol.mp (of_decide_eq_true htorrent)⟩
    cases ht : h.world.session.torrent? id with
    | none =>
        unfold Session.hexOf at hsame
        rw [ht] at hsame
        exact absurd hsame.symm source.hex_ne_empty
    | some t =>
        refine ⟨t, rfl, ?_⟩
        rw [hhex t ht] at hsame
        cases hinfo : t.info with
        | none => exact Or.inl rfl
        | some info =>
            rw [hinfo] at hsame
            exact Or.inr ((InfoHashes.hex_eq_iff hwithin).mp hsame)
  · rintro ⟨⟨t, ht, hunchanged⟩, hother⟩
    have hsame : h.world.session.hexOf id = source.hex := by
      rw [hhex t ht]
      rcases hunchanged with hinfo | hv2
      · rw [hinfo]
        rfl
      · rw [(InfoHashes.hex_eq_iff hwithin).mpr hv2, ite_self]
    refine ⟨registered, ?_, KeyedList.key_of_find? hregistered⟩
    rw [hsame, loadTask_of_find? hregistered]
    exact Option.filter_eq_some_iff.mpr ⟨hregistered, decide_eq_true (hprotocol.mpr hother)⟩

/-- What `get_task` finds behind the record: the task that was known, or the record. -/
theorem find?_of_recorded {registry : Registry} {w : World} {store : Store} {task : Task}
    {granted : Bool} {key : String} (hid : task.taskId = key) (hdelete : task.isDelete = false)
    (htorrent : task.taskProtocol = .torrent)
    (hstore : w.store.replaceTask task granted = some store) :
    ∃ found, (loadTask store key (loadTask w.store key registry)).find? key = some found ∧
      (found.taskProtocol = .torrent ↔
        ((loadTask w.store key registry).find? key).any
          (fun old => old.taskProtocol ≠ .torrent) = false) := by
  subst hid
  cases hfind : (loadTask w.store task.taskId registry).find? task.taskId with
  | some old =>
      rw [loadTask_of_find? hfind]
      exact ⟨old, hfind, by simp⟩
  | none =>
      have hkey : task.taskId ≠ "" := by
        intro hempty
        simp [Store.replaceTask, hempty] at hstore
      refine ⟨{ readTask task with files := store.filesOf task.taskId }, ?_, ?_⟩
      · rw [find?_loadTask_self, hfind, Option.none_or, Store.findByTaskId_eq_visible hkey,
          Store.visible_replaceTask_self hstore hdelete]
        rfl
      · exact iff_of_true htorrent rfl

theorem known_of_built {h₀ h₁ : Hub} {params : TaskParams} {http : DownloadEnv} {bt : TorrentEnv}
    {now : Int} (hrooted : Rooted h₀) (hbt : params.protocol ≠ .http)
    (hadd : h₀.step (.add params http bt now) = some h₁)
    (hsource : sourceHashes bt.lib params = some (source.v1, source.v2))
    (hbuilt : h₀.world.nextTorrent < h₁.world.nextTorrent)
    (hreports : ∀ t ∈ h₁.world.session, t.id = h₀.world.nextTorrent → source.reports all t = true) :
    Known h₀.world.nextTorrent source all (h₀.heldByOther source.hex) h₁ := by
  refine ⟨rooted_step hrooted hadd, hbuilt, hreports, ?_⟩
  cases Hub.stepped_of_step hadd with
  | add hfree hjoined =>
      have hadded := TorrentEngine.added_addTask h₀.cfg bt now params h₀.registry h₀.world
      simp only [Hub.addTask, Hub.put, if_neg hbt] at hbuilt ⊢
      rcases hout : TorrentEngine.addTask h₀.cfg bt now params h₀.registry h₀.world with
        ⟨result, registry', w'⟩
      rw [hout] at hadded hbuilt
      simp only at hadded hbuilt ⊢
      cases hadded with
      | kept hregistry => exact absurd hbuilt (lt_irrefl _)
      | recorded infoHash name hparsed hstore hw hregistry =>
          have hkey : infoHash = source.hex := by
            have hmap := map_fst_parseSource bt.lib params
            rw [hparsed, hsource] at hmap
            exact Option.some.inj hmap
          subst hkey
          obtain ⟨found, hfound, hprotocol⟩ :=
            @find?_of_recorded h₀.registry h₀.world _ _ _ source.hex rfl rfl rfl hstore
          rcases hregistry with ⟨-, rfl⟩ | ⟨message, -, -, rfl⟩
          · exact ⟨found, hfound, hprotocol⟩
          · refine ⟨if found.taskProtocol = .torrent then
              TorrentEngine.brokenTask now message found else found, ?_, ?_⟩
            · unfold updateTorrentTask
              rw [KeyedList.find?_modify_self, loadTask_of_find? hfound, hfound]
              rfl
            · refine Iff.trans ?_ hprotocol
              split <;> rfl

end Known

/-- **When the identity of a BT task is stable.** An `add_task` from a source that names `source` puts
a torrent into the session whose hashes are `all`. In every state of every run behind it, while the
process lives, an alert of that handle resolves to the task of that `add_task` exactly when the
torrent is still in the session, its metadata is not known yet or brings no new v2 hash, and no task
of another engine went by the info hash at the `add_task`. -/
theorem resolve_iff_of_built {cfg : ManagerConfig} {httpCfg : HttpConfig} {store : Store} {fs : Fs}
    {start : Int} {h₀ h₁ h₂ : Hub} {params : TaskParams} {http : DownloadEnv} {bt : TorrentEnv}
    {now : Int} {source all : InfoHashes}
    (hreach : Reaches Hub.step anyEvent (startHub cfg httpCfg store fs start) h₀)
    (hbt : params.protocol ≠ .http) (hadd : h₀.step (.add params http bt now) = some h₁)
    (hsource : sourceHashes bt.lib params = some (source.v1, source.v2))
    (hwithin : source.Within all) (hbuilt : h₀.world.nextTorrent < h₁.world.nextTorrent)
    (hreports : ∀ t ∈ h₁.world.session, t.id = h₀.world.nextTorrent → source.reports all t = true)
    (hrun : Reaches Hub.step
      (fun h event => lasting h₀.world.nextTorrent source all h event = true) h₁ h₂) :
    (∃ task, h₂.resolve h₀.world.nextTorrent = some task ∧ task.taskId = source.hex) ↔
      (∃ t, h₂.world.session.torrent? h₀.world.nextTorrent = some t ∧
          (t.info = none ∨ all.v2 = source.v2)) ∧
        h₀.heldByOther source.hex = false := by
  have hknown : Known h₀.world.nextTorrent source all (h₀.heldByOther source.hex) h₂ :=
    hrun.invariant (fun _ _ _ hinv hlasting hstep => hinv.step hlasting hstep)
      (known_of_built (rooted_of_started hreach) hbt hadd hsource hbuilt hreports)
  exact hknown.resolve_iff hwithin

def oneSource : InfoHashes where
  v1 := some oneHash
  v2 := none
  isSome := Or.inl rfl
  v1_length := by
    intro h heq
    rw [← Option.some.inj heq]
    decide
  v2_length := fun _ heq => absurd heq (by simp)

def twoHash : String := "fedcba9876543210fedcba9876543210fedcba9876543210fedcba9876543210"

def bothHashes : InfoHashes where
  v1 := some oneHash
  v2 := some twoHash
  isSome := Or.inl rfl
  v1_length := oneSource.v1_length
  v2_length := by
    intro h heq
    rw [← Option.some.inj heq]
    decide

/-- The torrent has no other hash: its alerts find the task, with the metadata too. -/
theorem resolve_iff_of_built_v1 :
    ∃ h₂ : Hub, hasMetadata h₂.world.session 0 = true ∧
      ∃ task, h₂.resolve 0 = some task ∧ task.taskId = oneHash := by
  have hrun : ((firstHub.step (.add oneLink {} oneMagnet 0)).bind fun h₁ =>
      (play Hub.step (fun h event => lasting 0 oneSource oneSource h event = true) h₁
        [.libtorrent [oneTorrent] [.metadataReceived 0]]).map fun h₂ =>
          ((h₁.world.session.all fun t => t.id ≠ 0 || oneSource.reports oneSource t,
              decide (0 < h₁.world.nextTorrent)),
            h₂.world.session.torrent? 0, firstHub.heldByOther oneHash)) =
      some ((true, true), some oneTorrent, false) := by
    decide +kernel
  simp only [Option.bind_eq_some_iff, Option.map_eq_some_iff, Prod.mk.injEq] at hrun
  obtain ⟨h₁, hadd, h₂, hplay, ⟨hreports, hbuilt⟩, htorrent, hother⟩ := hrun
  have hreports' : ∀ t ∈ h₁.world.session, t.id = 0 → oneSource.reports oneSource t = true := by
    intro t ht hid
    have hone := List.all_eq_true.mp hreports t ht
    simpa [hid] using hone
  have hresolves := (@resolve_iff_of_built _ _ _ _ _ firstHub h₁ h₂ oneLink {} oneMagnet 0 oneSource
    oneSource .refl (by decide) hadd rfl ⟨fun _ => id, fun _ => id⟩ (of_decide_eq_true hbuilt)
    hreports' (reaches_of_play hplay)).mpr ⟨⟨oneTorrent, htorrent, Or.inr rfl⟩, hother⟩
  refine ⟨h₂, ?_, hresolves⟩
  unfold hasMetadata
  rw [htorrent]
  rfl

/-- The torrent is a hybrid one, and the link names its v1 hash: the alert that brings the metadata,
and every later one, finds no task. -/
theorem not_resolve_hybrid :
    ∃ h₁ h₂ : Hub, firstHub.step (.add oneLink {} oneMagnet 0) = some h₁ ∧
      (firstHub.addTask oneLink {} oneMagnet 0).1.code = .none ∧
      sourceHashes oneMagnet.lib oneLink = some (oneSource.v1, oneSource.v2) ∧
      oneSource.Within bothHashes ∧
      (∀ t ∈ h₁.world.session, oneSource.reports bothHashes t = true) ∧
      (∃ task, h₁.resolve 0 = some task ∧ task.taskId = oneHash) ∧
      Reaches Hub.step (fun h event => lasting 0 oneSource bothHashes h event = true) h₁ h₂ ∧
      Alert.metadataReceived 0 ∈ h₂.world.alerts ∧
      (h₂.world.session.torrent? 0).isSome = true ∧ h₂.resolve 0 = none := by
  have hrun : ((firstHub.step (.add oneLink {} oneMagnet 0)).bind fun h₁ =>
      (play Hub.step (fun h event => lasting 0 oneSource bothHashes h event = true) h₁
        [.alert {}, .libtorrent [{ oneTorrent with v2 := some twoHash }] [.metadataReceived 0]]).map
          fun h₂ => (((firstHub.addTask oneLink {} oneMagnet 0).1.code,
              h₁.world.session.all fun t => oneSource.reports bothHashes t),
            (h₁.resolve 0).map Task.taskId,
            (h₂.world.alerts, (h₂.world.session.torrent? 0).isSome), h₂.resolve 0)) =
      some ((.none, true), some oneHash, ([.metadataReceived 0], true), none) := by
    decide +kernel
  simp only [Option.bind_eq_some_iff, Option.map_eq_some_iff, Prod.mk.injEq] at hrun
  obtain ⟨h₁, hadd, h₂, hplay, ⟨hcode, hreports⟩, hbefore, ⟨halerts, hpresent⟩, hafter⟩ := hrun
  refine ⟨h₁, h₂, hadd, hcode, rfl, ⟨fun _ => id, fun _ h => absurd h (by simp [oneSource])⟩,
    List.all_eq_true.mp hreports, hbefore, reaches_of_play hplay, ?_, hpresent, hafter⟩
  rw [halerts]
  exact List.mem_singleton.mpr rfl

end DownloadWrapper
