import DownloadWrapper.P2p.Adapter

/-!
# Two peers

Each side hands its codes to the other, by whatever way and in whatever order, and the other may accept
any of them at any time. What a connection is told is what the other side issued.
-/

namespace DownloadWrapper.P2p

open Transition

/-- The candidates that were reported, as the other connection is to be given them. -/
def Issue.calls (i : Issue) : List AddCandidate := (i.reported.filterMap id).map IceCandidate.call

structure Issue.Plain (i : Issue) : Prop where
  sdp : NulFree i.sdp
  reported : ∀ c, some c ∈ i.reported → c.Plain

def Connection.Told (c : Connection) (heard : List Issue) : Prop :=
  c.remote = heard.getLast?.map (fun i => (i.role.signalType, i.sdp)) ∧ c.added = heard.flatMap Issue.calls

def Phase.Accepting (phase : Phase) (type : String) (payload : SignalPayload) : Prop :=
  type = "offer" ∧ phase = .acceptingOffer payload ∨ type = "answer" ∧ phase = .acceptingAnswer payload

def Phase.HasSdp (phase : Phase) (sdp : String) : Prop :=
  phase = .settingLocal sdp ∨ phase = .gathering sdp

/-- What holds of a side when `issued` are the issues of the other. -/
structure Adapter.Hears (issued : List Issue) (a : Adapter) : Prop where
  told : ∀ c, a.pc = some c → ∃ heard : List Issue, (∀ i ∈ heard, i ∈ issued) ∧ c.Told heard
  pending : ∀ type payload, a.phase.Accepting type payload →
    ∃ i ∈ issued, i.role.signalType = type ∧ payload = i.payload
  reported : ∀ c, a.pc = some c → ∀ candidate, some candidate ∈ c.reported → candidate.Plain
  sdp : ∀ sdp, a.phase.HasSdp sdp → NulFree sdp
  issued : ∀ i ∈ a.issued, i.Plain

/-- What libwebrtc reports and what the app hands over: texts without NULs and separators, and codes the
other side has issued. -/
def Event.Faithful (json : BoostJson) (issued : List Issue) : Event → Prop
  | .acceptOffer offerCode _ => offerCode ∈ issued.map (Issue.code json)
  | .acceptAnswer answerCode => answerCode ∈ issued.map (Issue.code json)
  | .described sdp => NulFree sdp
  | .iceCandidate candidate => ∀ c, candidate = some c → c.Plain
  | _ => True

section Side

variable {json : BoostJson} {issued : List Issue} {a b : Adapter}

theorem hears_initial : Adapter.Hears issued {} where
  told := by simp
  pending := by simp [Phase.Accepting]
  reported := by simp
  sdp := by simp [Phase.HasSdp]
  issued := by simp

theorem Issue.Plain.nulFree_collected {i : Issue} (h : i.Plain) :
    ∀ entry ∈ collected i.reported, NulFree entry :=
  P2p.nulFree_collected h.reported

theorem Issue.Plain.decode {i : Issue} (h : i.Plain) (hempty : ∃ what, json.parse [] = .error what)
    (hlossless : json.Lossless i.payload.toJson) {expected : String} {payload : SignalPayload}
    (hread : decodeSignal json (i.code json) expected = .ok payload) :
    i.role.signalType = expected ∧ payload = i.payload := by
  have htype : NulFree i.payload.type := by
    cases hrole : i.role <;> simp only [Issue.payload, hrole] <;> decide
  rw [Issue.code, decodeSignal_encodeSignal hempty htype h.sdp h.nulFree_collected hlossless] at hread
  split_ifs at hread with hexpected
  exact ⟨not_not.mp hexpected, (Except.ok.inj hread).symm⟩

theorem Issue.Plain.addCandidates {i : Issue} (h : i.Plain) :
    P2p.addCandidates i.payload.candidates = ⟨i.calls, none⟩ := by
  rw [Issue.payload, collected_eq]
  refine addCandidates_entries fun c hc => h.reported c ?_
  simpa using hc

theorem Connection.Told.hear {c : Connection} {heard : List Issue} (h : c.Told heard) (i : Issue) :
    Connection.Told
      { c with remote := some (i.role.signalType, i.sdp), added := c.added ++ i.calls } (heard ++ [i]) := by
  refine ⟨by simp, ?_⟩
  simp [h.2]

namespace Adapter.Hears

variable (h : a.Hears issued)

include h

theorem mono {issued' : List Issue} (hmono : ∀ i ∈ issued, i ∈ issued') : a.Hears issued' where
  told := fun c hc => by
    obtain ⟨heard, hmem, htold⟩ := h.told c hc
    exact ⟨heard, fun i hi => hmono i (hmem i hi), htold⟩
  pending := fun type payload hphase => by
    obtain ⟨i, hi, htype, heq⟩ := h.pending type payload hphase
    exact ⟨i, hmono i hi, htype, heq⟩
  reported := h.reported
  sdp := h.sdp
  issued := h.issued

theorem of_same (hpc : b.pc = a.pc) (hphase : b.phase = a.phase) (hissued : b.issued = a.issued) :
    b.Hears issued where
  told := hpc ▸ h.told
  pending := hphase ▸ h.pending
  reported := hpc ▸ h.reported
  sdp := hphase ▸ h.sdp
  issued := hissued ▸ h.issued

theorem emitState (state : ConnectionState) (error : P2pError) : (a.emitState state error).Hears issued :=
  h.of_same rfl rfl rfl

theorem setPhase {phase : Phase} (hpending : ∀ type payload, phase.Accepting type payload →
      ∃ i ∈ issued, i.role.signalType = type ∧ payload = i.payload)
    (hsdp : ∀ sdp, phase.HasSdp sdp → NulFree sdp) : Adapter.Hears issued { a with phase := phase } where
  told := h.told
  pending := hpending
  reported := h.reported
  sdp := hsdp
  issued := h.issued

theorem finish (outcome : Outcome) : (a.finish outcome).Hears issued := by
  have hidle : Adapter.Hears issued { a with phase := .idle } :=
    h.setPhase (by simp [Phase.Accepting]) (by simp [Phase.HasSdp])
  exact hidle.of_same rfl rfl rfl

theorem dropPc (hpc : b.pc = none) (hphase : b.phase = a.phase) (hissued : b.issued = a.issued) :
    b.Hears issued where
  told := by simp [hpc]
  pending := hphase ▸ h.pending
  reported := by simp [hpc]
  sdp := hphase ▸ h.sdp
  issued := hissued ▸ h.issued

theorem createPeer {made : Bool} {phase : Phase} (hpending : ∀ type payload, phase.Accepting type payload →
      ∃ i ∈ issued, i.role.signalType = type ∧ payload = i.payload)
    (hsdp : ∀ sdp, phase.HasSdp sdp → NulFree sdp) : (a.createPeer made phase).Hears issued := by
  cases made with
  | false => exact h.finish _
  | true =>
      exact {
        told := by
          rintro c hc
          obtain rfl := Option.some.inj hc
          exact ⟨[], by simp, rfl, rfl⟩
        pending := hpending
        reported := by
          rintro c hc
          obtain rfl := Option.some.inj hc
          simp
        sdp := hsdp
        issued := h.issued }

theorem generateOffer (made : Bool) : (a.generateOffer made).Hears issued := by
  have hreset : Adapter.Hears issued { a.resetInternal with role := .initiator } := h.dropPc rfl rfl rfl
  exact hreset.createPeer (by simp [Phase.Accepting]) (by simp [Phase.HasSdp])

theorem accept {i : Issue} (hi : i ∈ issued) (hplain : i.Plain) :
    (a.accept i.role.signalType i.payload).Hears issued where
  told := by
    intro c' hc'
    obtain ⟨c, hc, rfl⟩ := Option.map_eq_some_iff.mp hc'
    obtain ⟨heard, hmem, htold⟩ := h.told c hc
    refine ⟨heard ++ [i], fun j hj => ?_, ?_⟩
    · rcases List.mem_append.mp hj with hj | hj
      · exact hmem j hj
      · exact List.mem_singleton.mp hj ▸ hi
    · have hsdp : cStr i.payload.sdp = i.sdp := hplain.sdp.cStr_eq
      rw [hsdp, hplain.addCandidates]
      exact htold.hear i
  pending := h.pending
  reported := by
    intro c' hc'
    obtain ⟨c, hc, rfl⟩ := Option.map_eq_some_iff.mp hc'
    exact h.reported c hc
  sdp := h.sdp
  issued := h.issued

theorem send (len : Nat) (thrown : Bool) : (a.send len thrown).2.Hears issued := by
  rw [Adapter.send]
  split_ifs
  · exact h
  · exact h
  · exact h.of_same rfl rfl rfl

theorem close : a.close.Hears issued := by
  rw [Adapter.close]
  split_ifs
  · exact h
  · exact h.dropPc rfl rfl rfl

theorem described {sdp : String} (hsdp : NulFree sdp) (hstep : a.described sdp = some b) :
    b.Hears issued := by
  rw [Adapter.described] at hstep
  split at hstep
  next =>
    obtain rfl := Option.some.inj hstep
    refine h.setPhase (by simp [Phase.Accepting]) fun sdp' hphase => ?_
    rcases hphase with hphase | hphase
    · exact Phase.settingLocal.inj hphase ▸ hsdp
    · cases hphase
  next => cases hstep

theorem describeTimeout (hstep : a.describeTimeout = some b) : b.Hears issued := by
  rw [Adapter.describeTimeout] at hstep
  split at hstep
  · obtain rfl := Option.some.inj hstep
    exact (h.emitState _ _).finish _
  · cases hstep

theorem gatherTimeout (hstep : a.gatherTimeout = some b) : b.Hears issued := by
  rw [Adapter.gatherTimeout] at hstep
  split at hstep
  · split_ifs at hstep
    obtain rfl := Option.some.inj hstep
    exact (h.emitState _ _).finish _
  · cases hstep

theorem mapPc {f : Connection → Connection} (hpc : b.pc = a.pc.map f) (hissued : b.issued = a.issued)
    (hremote : ∀ c, (f c).remote = c.remote) (hadded : ∀ c, (f c).added = c.added)
    (hreported : ∀ c, a.pc = some c → ∀ candidate, some candidate ∈ (f c).reported → candidate.Plain)
    (hpending : ∀ type payload, b.phase.Accepting type payload → a.phase.Accepting type payload)
    (hsdp : ∀ sdp, b.phase.HasSdp sdp → a.phase.HasSdp sdp) : b.Hears issued where
  told := by
    intro c' hc'
    rw [hpc] at hc'
    obtain ⟨c, hc, rfl⟩ := Option.map_eq_some_iff.mp hc'
    obtain ⟨heard, hmem, htold⟩ := h.told c hc
    exact ⟨heard, hmem, (hremote c).trans htold.1, (hadded c).trans htold.2⟩
  pending := fun type payload hphase => h.pending type payload (hpending type payload hphase)
  reported := by
    intro c' hc'
    rw [hpc] at hc'
    obtain ⟨c, hc, rfl⟩ := Option.map_eq_some_iff.mp hc'
    exact hreported c hc
  sdp := fun sdp hphase => h.sdp sdp (hsdp sdp hphase)
  issued := hissued ▸ h.issued

theorem onIceGatheringComplete : a.onIceGatheringComplete.Hears issued :=
  h.mapPc rfl rfl (fun _ => rfl) (fun _ => rfl) h.reported (fun _ _ => id) fun _ => id

theorem onIceCandidate {candidate : Option IceCandidate} (hplain : ∀ c, candidate = some c → c.Plain) :
    (a.onIceCandidate candidate).Hears issued := by
  refine h.mapPc rfl rfl (fun _ => rfl) (fun _ => rfl) (fun c hc candidate' hmem => ?_) (fun _ _ => id)
    fun _ => id
  rcases List.mem_append.mp hmem with hmem | hmem
  · exact h.reported c hc candidate' hmem
  · exact hplain candidate' (List.mem_singleton.mp hmem).symm

theorem onDataChannel (present : Bool) : (a.onDataChannel present).Hears issued := by
  rw [Adapter.onDataChannel]
  split_ifs
  · exact h.of_same rfl rfl rfl
  · exact h

theorem onPeerConnectionState (s : PeerState) : (a.onPeerConnectionState s).Hears issued := by
  cases s <;> exact h.emitState _ _

theorem onChannelState (s : ChannelState) : (a.onChannelState s).Hears issued := by
  cases s
  · exact h
  · exact h.emitState _ _
  · exact h
  · exact h.emitState _ _

theorem onMessage (buffer : Bool) (length : Int) : (a.onMessage buffer length).Hears issued := by
  rw [Adapter.onMessage]
  split_ifs
  · exact h
  · exact h.of_same rfl rfl rfl

theorem gathered (hstep : a.gathered json = some b) : b.Hears issued := by
  rw [Adapter.gathered] at hstep
  split at hstep
  next sdp hphase =>
    split_ifs at hstep
    obtain rfl := Option.some.inj hstep
    have hidle := h.finish (.code (encodeSignal json ⟨a.role.signalType, sdp, a.candidates⟩))
    refine ⟨hidle.told, hidle.pending, hidle.reported, hidle.sdp, fun i hi => ?_⟩
    rcases List.mem_append.mp hi with hi | hi
    · exact h.issued i hi
    · obtain ⟨c, hc, rfl⟩ := List.mem_map.mp hi
      exact ⟨h.sdp sdp (Or.inr hphase), h.reported c (Option.mem_toList.mp hc)⟩
  next => cases hstep

theorem descriptionSet {error : Option String} (hplain : ∀ i ∈ issued, i.Plain)
    (hstep : a.descriptionSet error = some b) : b.Hears issued := by
  unfold Adapter.descriptionSet at hstep
  split at hstep
  next => exact Option.some.inj hstep ▸ h.finish _
  next => exact Option.some.inj hstep ▸ h.finish _
  next => exact Option.some.inj hstep ▸ h.finish _
  next sdp hphase =>
      obtain rfl := Option.some.inj hstep
      refine h.mapPc rfl rfl (fun _ => rfl) (fun _ => rfl) h.reported (by simp [Phase.Accepting]) ?_
      rintro sdp' (hset | hset)
      · cases hset
      · exact Or.inl (Phase.gathering.inj hset ▸ hphase)
  next payload hphase =>
      obtain ⟨i, hi, htype, rfl⟩ := h.pending "offer" payload (Or.inl ⟨rfl, hphase⟩)
      have htold : (a.accept "offer" i.payload).Hears issued := htype ▸ h.accept hi (hplain i hi)
      split at hstep
      next => exact Option.some.inj hstep ▸ htold.finish _
      next => exact Option.some.inj hstep ▸ htold.setPhase (by simp [Phase.Accepting]) (by simp [Phase.HasSdp])
  next payload hphase =>
      obtain ⟨i, hi, htype, rfl⟩ := h.pending "answer" payload (Or.inr ⟨rfl, hphase⟩)
      have htold : (a.accept "answer" i.payload).Hears issued := htype ▸ h.accept hi (hplain i hi)
      split at hstep
      next => exact Option.some.inj hstep ▸ htold.finish _
      next => exact Option.some.inj hstep ▸ (htold.emitState _ _).finish _
  next => cases hstep

variable (hempty : ∃ what, json.parse [] = .error what) (hplain : ∀ i ∈ issued, i.Plain)
  (hlossless : ∀ i ∈ issued, json.Lossless i.payload.toJson)

include hempty hplain hlossless

theorem acceptOffer {offerCode : List Byte} (hcode : offerCode ∈ issued.map (Issue.code json)) (made : Bool) :
    (a.acceptOffer json offerCode made).Hears issued := by
  have hreset : Adapter.Hears issued { a.resetInternal with role := .responder } := h.dropPc rfl rfl rfl
  obtain ⟨i, hi, rfl⟩ := List.mem_map.mp hcode
  rw [Adapter.acceptOffer]
  split
  next => exact hreset.finish _
  next payload hread =>
    obtain ⟨htype, rfl⟩ := (hplain i hi).decode hempty (hlossless i hi) hread
    refine hreset.createPeer ?_ (by simp [Phase.HasSdp])
    rintro type payload (⟨rfl, hphase⟩ | ⟨-, hphase⟩)
    · exact ⟨i, hi, htype, (Phase.acceptingOffer.inj hphase).symm⟩
    · cases hphase

theorem acceptAnswer {answerCode : List Byte} (hcode : answerCode ∈ issued.map (Issue.code json)) :
    (a.acceptAnswer json answerCode).Hears issued := by
  obtain ⟨i, hi, rfl⟩ := List.mem_map.mp hcode
  rw [Adapter.acceptAnswer]
  split
  next => exact h.finish _
  next payload hread =>
    obtain ⟨htype, rfl⟩ := (hplain i hi).decode hempty (hlossless i hi) hread
    split_ifs
    · exact h.finish _
    · refine h.setPhase ?_ (by simp [Phase.HasSdp])
      rintro type payload (⟨-, hphase⟩ | ⟨rfl, hphase⟩)
      · cases hphase
      · exact ⟨i, hi, htype, (Phase.acceptingAnswer.inj hphase).symm⟩

theorem step {event : Event} (hevent : event.Faithful json issued) (hstep : a.step json event = some b) :
    b.Hears issued := by
  cases event with
  | generateOffer made =>
      simp only [Adapter.step] at hstep
      split_ifs at hstep
      exact Option.some.inj hstep ▸ h.generateOffer made
  | acceptOffer offerCode made =>
      simp only [Adapter.step] at hstep
      split_ifs at hstep
      exact Option.some.inj hstep ▸ h.acceptOffer hempty hplain hlossless hevent made
  | acceptAnswer answerCode =>
      simp only [Adapter.step] at hstep
      split_ifs at hstep
      exact Option.some.inj hstep ▸ h.acceptAnswer hempty hplain hlossless hevent
  | send len thrown =>
      simp only [Adapter.step] at hstep
      split_ifs at hstep
      exact Option.some.inj hstep ▸ h.send len thrown
  | close =>
      simp only [Adapter.step] at hstep
      split_ifs at hstep
      exact Option.some.inj hstep ▸ h.close
  | described sdp => exact h.described hevent hstep
  | describeTimeout => exact h.describeTimeout hstep
  | descriptionSet error => exact h.descriptionSet hplain hstep
  | gathered => exact h.gathered hstep
  | gatherTimeout => exact h.gatherTimeout hstep
  | peerConnectionState s =>
      simp only [Adapter.step] at hstep
      split_ifs at hstep
      exact Option.some.inj hstep ▸ h.onPeerConnectionState s
  | iceGatheringComplete =>
      simp only [Adapter.step] at hstep
      split_ifs at hstep
      exact Option.some.inj hstep ▸ h.onIceGatheringComplete
  | iceCandidate candidate =>
      simp only [Adapter.step] at hstep
      split_ifs at hstep
      exact Option.some.inj hstep ▸ h.onIceCandidate hevent
  | dataChannel present =>
      simp only [Adapter.step] at hstep
      split_ifs at hstep
      exact Option.some.inj hstep ▸ h.onDataChannel present
  | channelState s =>
      simp only [Adapter.step] at hstep
      split_ifs at hstep
      exact Option.some.inj hstep ▸ h.onChannelState s
  | message buffer length =>
      simp only [Adapter.step] at hstep
      split_ifs at hstep
      exact Option.some.inj hstep ▸ h.onMessage buffer length

end Adapter.Hears

/-! ### What was issued stays -/

@[simp] theorem Adapter.issued_emitState (a : Adapter) (state : ConnectionState) (error : P2pError) :
    (a.emitState state error).issued = a.issued := rfl

@[simp] theorem Adapter.issued_finish (a : Adapter) (outcome : Outcome) :
    (a.finish outcome).issued = a.issued := rfl

@[simp] theorem Adapter.issued_accept (a : Adapter) (type : String) (payload : SignalPayload) :
    (a.accept type payload).issued = a.issued := rfl

@[simp] theorem Adapter.issued_createPeer (a : Adapter) (made : Bool) (phase : Phase) :
    (a.createPeer made phase).issued = a.issued := by
  cases made <;> rfl

@[simp] theorem Adapter.issued_generateOffer (a : Adapter) (made : Bool) :
    (a.generateOffer made).issued = a.issued :=
  Adapter.issued_createPeer _ _ _

@[simp] theorem Adapter.issued_acceptOffer (a : Adapter) (offerCode : List Byte) (made : Bool) :
    (a.acceptOffer json offerCode made).issued = a.issued := by
  rw [Adapter.acceptOffer]
  split
  · rfl
  · exact Adapter.issued_createPeer _ _ _

@[simp] theorem Adapter.issued_acceptAnswer (a : Adapter) (answerCode : List Byte) :
    (a.acceptAnswer json answerCode).issued = a.issued := by
  rw [Adapter.acceptAnswer]
  split
  · rfl
  · split_ifs <;> rfl

@[simp] theorem Adapter.issued_send (a : Adapter) (len : Nat) (thrown : Bool) :
    (a.send len thrown).2.issued = a.issued := by
  rw [Adapter.send]
  split_ifs <;> rfl

@[simp] theorem Adapter.issued_close (a : Adapter) : a.close.issued = a.issued := by
  rw [Adapter.close]
  split_ifs <;> rfl

theorem Adapter.issued_descriptionSet {error : Option String} (hstep : a.descriptionSet error = some b) :
    b.issued = a.issued := by
  unfold Adapter.descriptionSet at hstep
  split at hstep
  case h_5 => split at hstep <;> exact Option.some.inj hstep ▸ rfl
  case h_6 => split at hstep <;> exact Option.some.inj hstep ▸ rfl
  case h_7 => cases hstep
  all_goals exact Option.some.inj hstep ▸ rfl

theorem Adapter.issued_mono {event : Event} (hstep : a.step json event = some b) :
    ∀ i ∈ a.issued, i ∈ b.issued := by
  intro i hi
  cases event with
  | described sdp =>
      simp only [Adapter.step, Adapter.described] at hstep
      split at hstep
      · exact Option.some.inj hstep ▸ hi
      · cases hstep
  | describeTimeout =>
      simp only [Adapter.step, Adapter.describeTimeout] at hstep
      split at hstep
      · exact Option.some.inj hstep ▸ hi
      · cases hstep
  | descriptionSet error => exact Adapter.issued_descriptionSet hstep ▸ hi
  | gathered =>
      simp only [Adapter.step, Adapter.gathered] at hstep
      split at hstep
      · split_ifs at hstep
        exact Option.some.inj hstep ▸ List.mem_append_left _ hi
      · cases hstep
  | gatherTimeout =>
      simp only [Adapter.step, Adapter.gatherTimeout] at hstep
      split at hstep
      · split_ifs at hstep
        exact Option.some.inj hstep ▸ hi
      · cases hstep
  | peerConnectionState s =>
      simp only [Adapter.step, Option.ite_none_left_eq_some] at hstep
      obtain ⟨-, hb⟩ := hstep
      cases s <;> exact Option.some.inj hb ▸ hi
  | channelState s =>
      simp only [Adapter.step, Option.ite_none_right_eq_some] at hstep
      obtain ⟨-, hb⟩ := hstep
      cases s <;> exact Option.some.inj hb ▸ hi
  | dataChannel present =>
      simp only [Adapter.step, Option.ite_none_left_eq_some] at hstep
      obtain ⟨-, hb⟩ := hstep
      cases present <;> exact Option.some.inj hb ▸ hi
  | message buffer length =>
      simp only [Adapter.step, Option.ite_none_right_eq_some, Adapter.onMessage] at hstep
      obtain ⟨-, hb⟩ := hstep
      split_ifs at hb <;> exact Option.some.inj hb ▸ hi
  | _ =>
      simp only [Adapter.step, Option.ite_none_left_eq_some, Option.ite_none_right_eq_some] at hstep
      obtain ⟨-, hb⟩ := hstep
      have hb := Option.some.inj hb
      subst hb
      simpa [Adapter.onIceGatheringComplete, Adapter.onIceCandidate] using hi

end Side

/-! ### Both sides -/

inductive Side where
  | left | right
  deriving DecidableEq

def Side.other : Side → Side
  | .left => .right
  | .right => .left

@[simp] theorem Side.other_other (side : Side) : side.other.other = side := by
  cases side <;> rfl

@[simp] theorem Side.other_ne (side : Side) : side.other ≠ side := by
  cases side <;> decide

abbrev Peers := Side → Adapter

def Peers.step (json : BoostJson) (p : Peers) (e : Side × Event) : Option Peers :=
  ((p e.1).step json e.2).map (Function.update p e.1)

/-- The codes that are accepted are the other side's, and the texts go through a signal. -/
def Peers.Faithful (json : BoostJson) (p : Peers) (e : Side × Event) : Prop :=
  e.2.Faithful json (p e.1.other).issued

/-- Every code that was issued is read as it was written. -/
def Peers.Lossless (json : BoostJson) (p : Peers) : Prop :=
  ∀ side, ∀ i ∈ (p side).issued, json.Lossless i.payload.toJson

section Pair

variable {json : BoostJson} {p q : Peers}

theorem Peers.step_cases {e : Side × Event} (hstep : p.step json e = some q) :
    ∃ b, (p e.1).step json e.2 = some b ∧ q = Function.update p e.1 b := by
  obtain ⟨b, hb, rfl⟩ := Option.map_eq_some_iff.mp hstep
  exact ⟨b, hb, rfl⟩

theorem Peers.issued_mono {e : Side × Event} (hstep : p.step json e = some q) (side : Side) :
    ∀ i ∈ (p side).issued, i ∈ (q side).issued := by
  obtain ⟨b, hb, rfl⟩ := Peers.step_cases hstep
  intro i hi
  by_cases hside : side = e.1
  · subst hside
    rw [Function.update_self]
    exact Adapter.issued_mono hb i hi
  · rwa [Function.update_of_ne hside]

theorem Peers.Lossless.of_step {e : Side × Event} (h : q.Lossless json) (hstep : p.step json e = some q) :
    p.Lossless json :=
  fun side i hi => h side i (Peers.issued_mono hstep side i hi)

structure Peers.Settled (json : BoostJson) (p : Peers) : Prop where
  sound : ∀ side, (p side).Sound json
  hears : p.Lossless json → ∀ side, (p side).Hears (p side.other).issued

theorem settled_initial : Peers.Settled json fun _ => {} :=
  ⟨fun _ => sound_initial, fun _ _ => hears_initial⟩

theorem Peers.Settled.step (hempty : ∃ what, json.parse [] = .error what) (h : p.Settled json)
    {e : Side × Event} (hok : p.Faithful json e) (hstep : p.step json e = some q) : q.Settled json := by
  obtain ⟨b, hb, hq⟩ := Peers.step_cases hstep
  constructor
  · intro side
    subst hq
    by_cases hside : side = e.1
    · subst hside
      rw [Function.update_self]
      exact (h.sound e.1).step hb
    · rw [Function.update_of_ne hside]
      exact h.sound side
  · intro hlossless side
    have hbefore : p.Lossless json := hlossless.of_step hstep
    have hears := h.hears hbefore
    have hmono : ∀ i ∈ (p side.other).issued, i ∈ (q side.other).issued :=
      Peers.issued_mono hstep side.other
    suffices hside : (q side).Hears (p side.other).issued from hside.mono hmono
    subst hq
    by_cases hside : side = e.1
    · subst hside
      rw [Function.update_self]
      exact (hears e.1).step hempty (hears e.1.other).issued (hbefore e.1.other) hok hb
    · rw [Function.update_of_ne hside]
      exact hears side

/-- **What a connection is told.** Whatever the order in which the two sides call, report, accept codes or
time out: the remote description of a connection and the candidates it was given are those of codes the
other side has issued, in the order they were accepted, with nothing left out; and if the other side's
connection that issued one is still there, it has set that description and reported these candidates. -/
theorem told_of_reaches (hempty : ∃ what, json.parse [] = .error what)
    (hrun : Reaches (Peers.step json) (Peers.Faithful json) (fun _ => {}) p) (hlossless : p.Lossless json)
    {side : Side} {c : Connection} (hc : (p side).pc = some c) :
    ∃ heard : List Issue, c.Told heard ∧ ∀ i ∈ heard, i ∈ (p side.other).issued ∧
      ∀ d, (p side.other).pc = some d → i.number = d.number →
        d.localSdp = some i.sdp ∧ d.complete = true ∧ i.reported <+: d.reported := by
  have hsettled : p.Settled json :=
    hrun.invariant (fun _ _ _ hs hok hstep => hs.step hempty hok hstep) settled_initial
  obtain ⟨heard, hmem, htold⟩ := (hsettled.hears hlossless side).told c hc
  refine ⟨heard, htold, fun i hi => ⟨hmem i hi, fun d hd heq => ?_⟩⟩
  have hplain := (hsettled.hears hlossless side.other).issued i (hmem i hi)
  obtain ⟨hsdp, hcomplete, hprefix⟩ := (hsettled.sound side.other).own d hd i (hmem i hi) heq
  rw [hplain.sdp.cStr_eq] at hsdp
  exact ⟨hsdp, hcomplete, hprefix⟩

theorem Peers.reaches_update {side : Side} {events : List Event} {b : Adapter}
    (hok : ∀ e ∈ events, e.Faithful json (p side.other).issued)
    (hplay : play (Adapter.step json) anyEvent (p side) events = some b) :
    Reaches (Peers.step json) (Peers.Faithful json) p (Function.update p side b) := by
  induction events generalizing p with
  | nil =>
      obtain rfl := Option.some.inj hplay
      rw [Function.update_eq_self]
  | cons e events ih =>
      obtain ⟨he, hevents⟩ := List.forall_mem_cons.mp hok
      have hany : anyEvent (p side) e := trivial
      rw [play, if_pos hany] at hplay
      split at hplay
      next => cases hplay
      next mid hmid =>
        have hnext : p.step json (side, e) = some (Function.update p side mid) := by
          simp only [Peers.step, hmid, Option.map_some]
        have htail := @ih (Function.update p side mid)
          (by rwa [Function.update_of_ne side.other_ne]) (by rwa [Function.update_self])
        rw [Function.update_idem] at htail
        exact Relation.ReflTransGen.head ⟨(side, e), he, hnext⟩ htail

theorem sampleIssue_plain : sampleIssue.Plain where
  sdp := by decide
  reported := by
    intro c hc
    obtain rfl : c = ⟨"candidate:1 1 udp", "0", 0⟩ := by simpa [sampleIssue, sampleCalls] using hc
    exact ⟨by decide, by decide, by decide, by decide, by decide⟩

theorem sampleJson_empty : ∃ what, sampleJson.parse [] = .error what :=
  ⟨"syntax error", by
    change sampleParse [] = _
    rw [sampleParse, if_neg (by decide), if_neg (by decide)]⟩

theorem sampleIssue_lossless : sampleJson.Lossless sampleIssue.payload.toJson := by
  change sampleParse (sampleText "offer") = _
  rw [sampleParse, if_pos rfl]
  rfl

def sampleConnection : Connection where
  number := 0
  remote := some ("offer", "v=0")
  added := [⟨"0", 0, "candidate:1 1 udp"⟩]

def sampleAccepted : Adapter where
  connections := 1
  pc := some sampleConnection
  role := .responder
  phase := .creating

theorem sampleAccepted_play :
    play (Adapter.step sampleJson) anyEvent {}
      [.acceptOffer (sampleIssue.code sampleJson) true, .descriptionSet none] = some sampleAccepted := by
  have hread : decodeSignal sampleJson (sampleIssue.code sampleJson) "offer" = .ok sampleIssue.payload := by
    rw [Issue.code, decodeSignal_encodeSignal sampleJson_empty (by decide) sampleIssue_plain.sdp
      sampleIssue_plain.nulFree_collected sampleIssue_lossless]
    rfl
  simp only [play, anyEvent, if_true, Adapter.step, Adapter.acceptOffer, hread]
  rfl

def samplePeers : Peers
  | .left => sampleOffered
  | .right => sampleAccepted

theorem samplePeers_reaches :
    Reaches (Peers.step sampleJson) (Peers.Faithful sampleJson) (fun _ => {}) samplePeers := by
  have hoffered : Reaches (Peers.step sampleJson) (Peers.Faithful sampleJson) (fun _ => {})
      (Function.update (fun _ => {}) .left sampleOffered) := by
    refine Peers.reaches_update ?_ sampleOffered_play
    have hcandidate := sampleIssue_plain.reported ⟨"candidate:1 1 udp", "0", 0⟩ (by decide)
    have hsdp : NulFree "v=0" := by decide
    simp [sampleOffering, sampleCalls, Event.Faithful, hcandidate, hsdp]
  have haccepted := @Peers.reaches_update sampleJson (Function.update (fun _ => {}) .left sampleOffered) .right
    [.acceptOffer (sampleIssue.code sampleJson) true, .descriptionSet none] sampleAccepted
    (by
      have hissued : sampleIssue.code sampleJson ∈ [sampleIssue].map (Issue.code sampleJson) :=
        List.mem_cons_self
      exact List.forall_mem_cons.mpr ⟨hissued, List.forall_mem_singleton.mpr trivial⟩)
    sampleAccepted_play
  have hpeers : Function.update (Function.update (fun _ => {}) .left sampleOffered) .right sampleAccepted =
      samplePeers := by
    funext side
    cases side <;> rfl
  exact hpeers ▸ hoffered.trans haccepted

theorem told_of_reaches_sample :
    ∃ heard : List Issue, sampleConnection.Told heard ∧ ∀ i ∈ heard, i ∈ [sampleIssue] ∧
      ∀ d, sampleOffered.pc = some d → i.number = d.number →
        d.localSdp = some i.sdp ∧ d.complete = true ∧ i.reported <+: d.reported := by
  have hlossless : samplePeers.Lossless sampleJson := by
    intro side i hi
    cases side with
    | left => exact List.mem_singleton.mp hi ▸ sampleIssue_lossless
    | right => cases hi
  exact @told_of_reaches _ samplePeers sampleJson_empty samplePeers_reaches hlossless .right _ rfl

end Pair

end DownloadWrapper.P2p
