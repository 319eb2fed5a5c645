import DownloadWrapper.Lib.Transition
import DownloadWrapper.P2p.Signal

/-!
# The adapter of a peer

`WebrtcAdapter` on one connection after another. A call that waits for the connection stands in a phase,
and what the connection reports may come in between; calls on one handle come one after the other.
-/

namespace DownloadWrapper.P2p

open Base64 Transition

/-- `dw_p2p_state_t`. -/
inductive ConnectionState where
  | new | waitAnswer | connecting | connected | failed | closed
  deriving DecidableEq

/-- `dw_p2p_role_t`. -/
inductive Role where
  | initiator | responder
  deriving DecidableEq

def Role.signalType : Role → String
  | .initiator => "offer"
  | .responder => "answer"

/-- `dw_p2p_error_t`. -/
inductive P2pError where
  | ok | null | state | decode | transport | notReady | buffer
  deriving DecidableEq

/-- `RTCPeerConnectionState`. -/
inductive PeerState where
  | new | connecting | connected | disconnected | failed | closed
  deriving DecidableEq

/-- `RTCDataChannelState`. -/
inductive ChannelState where
  | connecting | «open» | closing | closed
  deriving DecidableEq

structure Connection where
  number : Nat
  localSdp : Option String := none
  /-- The remote description, with its type. -/
  remote : Option (String × String) := none
  added : List AddCandidate := []
  /-- The calls of `OnIceCandidate`. -/
  reported : List (Option IceCandidate) := []
  /-- It has reported that the gathering is complete. -/
  complete : Bool := false
  deriving DecidableEq

/-- Where a call stands that waits for its connection. -/
inductive Phase where
  | idle
  /-- Waits for `CreateOffer` or `CreateAnswer`. -/
  | creating
  | settingLocal (sdp : String)
  | gathering (sdp : String)
  /-- `accept_offer` waits for `SetRemoteDescription`. -/
  | acceptingOffer (payload : SignalPayload)
  /-- `accept_answer` waits for `SetRemoteDescription`. -/
  | acceptingAnswer (payload : SignalPayload)
  deriving DecidableEq

inductive Outcome where
  | code (text : List Byte)
  | accepted
  | threw (what : String)
  deriving DecidableEq

/-- What a code was packed from: the connection by its number, the description and the candidates. -/
structure Issue where
  number : Nat
  role : Role
  sdp : String
  reported : List (Option IceCandidate)
  deriving DecidableEq

def Issue.payload (i : Issue) : SignalPayload := ⟨i.role.signalType, i.sdp, collected i.reported⟩

def Issue.code (json : BoostJson) (i : Issue) : List Byte := encodeSignal json i.payload

/-- `WebrtcAdapter`. `connections` counts the peer connections made so far; `handed` and `delivered` are
the bytes given to the data channel and to the data callback since the last reset. -/
structure Adapter where
  connections : Nat := 0
  pc : Option Connection := none
  /-- A data channel is there. -/
  dc : Bool := false
  iceDone : Bool := false
  candidates : List String := []
  state : ConnectionState := .new
  role : Role := .initiator
  bytesSent : Nat := 0
  bytesRecv : Nat := 0
  handed : Nat := 0
  delivered : Nat := 0
  phase : Phase := .idle
  /-- The calls of the state callback. -/
  notified : List (ConnectionState × P2pError) := []
  /-- How the calls that have returned ended. -/
  outcomes : List Outcome := []
  /-- What the codes among them were packed from. -/
  issued : List Issue := []
  deriving DecidableEq

namespace Adapter

def emitState (a : Adapter) (state : ConnectionState) (error : P2pError := .ok) : Adapter :=
  { a with state := state, notified := a.notified ++ [(state, error)] }

def resetInternal (a : Adapter) : Adapter :=
  { a with dc := false, pc := none, bytesSent := 0, bytesRecv := 0, handed := 0, delivered := 0, state := .new }

def finish (a : Adapter) (outcome : Outcome) : Adapter :=
  { a with phase := .idle, outcomes := a.outcomes ++ [outcome] }

/-- `create_peer`, and the waiting primitives are cleared; `made` says whether the factory made a
connection. -/
def createPeer (a : Adapter) (made : Bool) (phase : Phase) : Adapter :=
  if made then
    { a with
      pc := some { number := a.connections }
      connections := a.connections + 1
      iceDone := false
      candidates := []
      phase := phase }
  else a.finish (.threw "PeerConnection 创建失败")

/-! ### The calls -/

def generateOffer (a : Adapter) (made : Bool) : Adapter :=
  { a.resetInternal with role := .initiator }.createPeer made .creating

def acceptOffer (json : BoostJson) (a : Adapter) (offerCode : List Byte) (made : Bool) : Adapter :=
  let a := { a.resetInternal with role := .responder }
  match decodeSignal json offerCode "offer" with
  | .error what => a.finish (.threw what)
  | .ok payload => a.createPeer made (.acceptingOffer payload)

def acceptAnswer (json : BoostJson) (a : Adapter) (answerCode : List Byte) : Adapter :=
  match decodeSignal json answerCode "answer" with
  | .error what => a.finish (.threw what)
  | .ok payload =>
      if a.pc = none then a.finish (.threw "无 PeerConnection（未调用 generate_offer）")
      else { a with phase := .acceptingAnswer payload }

/-- `send`; `thrown` says whether the channel throws. It is given a 32-bit length. -/
def send (a : Adapter) (len : Nat) (thrown : Bool) : P2pError × Adapter :=
  if a.state ≠ .connected ∨ a.dc = false then (.notReady, a)
  else if thrown then (.transport, a)
  else (.ok, { a with handed := a.handed + len % 2 ^ 32, bytesSent := a.bytesSent + len })

def close (a : Adapter) : Adapter :=
  if a.state = .closed then a else { a with dc := false, pc := none }.emitState .closed

def described (a : Adapter) (sdp : String) : Option Adapter :=
  match a.phase with
  | .creating => some { a with phase := .settingLocal sdp }
  | _ => none

def describeTimeout (a : Adapter) : Option Adapter :=
  match a.phase with
  | .creating =>
      some ((a.emitState .failed .transport).finish
        (.threw (if a.role = .initiator then "CreateOffer 超时" else "CreateAnswer 超时")))
  | _ => none

def accept (a : Adapter) (type : String) (payload : SignalPayload) : Adapter :=
  { a with
    pc := a.pc.map fun c =>
      { c with
        remote := some (type, cStr payload.sdp)
        added := c.added ++ (addCandidates payload.candidates).added } }

def descriptionSet (a : Adapter) (error : Option String) : Option Adapter :=
  match a.phase, error with
  | .settingLocal _, some err => some (a.finish (.threw err))
  | .acceptingOffer _, some err => some (a.finish (.threw err))
  | .acceptingAnswer _, some err => some (a.finish (.threw err))
  | .settingLocal sdp, none =>
      some { a with
        pc := a.pc.map fun c => { c with localSdp := some (cStr sdp) }
        phase := .gathering sdp }
  | .acceptingOffer payload, none =>
      match (addCandidates payload.candidates).thrown with
      | some what => some ((a.accept "offer" payload).finish (.threw what))
      | none => some { a.accept "offer" payload with phase := .creating }
  | .acceptingAnswer payload, none =>
      match (addCandidates payload.candidates).thrown with
      | some what => some ((a.accept "answer" payload).finish (.threw what))
      | none => some (((a.accept "answer" payload).emitState .connecting).finish .accepted)
  | _, _ => none

def gathered (json : BoostJson) (a : Adapter) : Option Adapter :=
  match a.phase with
  | .gathering sdp =>
      if a.iceDone then
        some { a.finish (.code (encodeSignal json ⟨a.role.signalType, sdp, a.candidates⟩)) with
          issued := a.issued ++ a.pc.toList.map fun c => ⟨c.number, a.role, sdp, c.reported⟩ }
      else none
  | _ => none

def gatherTimeout (a : Adapter) : Option Adapter :=
  match a.phase with
  | .gathering _ =>
      if a.iceDone then none
      else some ((a.emitState .failed .transport).finish (.threw "ICE gathering 超时"))
  | _ => none

/-! ### What the connection reports -/

def onPeerConnectionState (a : Adapter) : PeerState → Adapter
  | .new => a.emitState .connecting
  | .connecting => a.emitState .connecting
  | .connected => a.emitState .connected
  | .failed => a.emitState .failed .transport
  | .disconnected => a.emitState .closed
  | .closed => a.emitState .closed

def onIceGatheringComplete (a : Adapter) : Adapter :=
  { a with iceDone := true, pc := a.pc.map fun c => { c with complete := true } }

def onIceCandidate (a : Adapter) (candidate : Option IceCandidate) : Adapter :=
  { a with
    candidates := P2p.onIceCandidate a.candidates candidate
    pc := a.pc.map fun c => { c with reported := c.reported ++ [candidate] } }

def onDataChannel (a : Adapter) (present : Bool) : Adapter :=
  if present then { a with dc := true } else a

def onChannelState (a : Adapter) : ChannelState → Adapter
  | .open => a.emitState .connected
  | .closed => a.emitState .closed
  | _ => a

def onMessage (a : Adapter) (buffer : Bool) (length : Int) : Adapter :=
  if !buffer || length ≤ 0 then a
  else { a with bytesRecv := a.bytesRecv + length.toNat, delivered := a.delivered + length.toNat }

end Adapter

inductive Event where
  | generateOffer (made : Bool)
  | acceptOffer (offerCode : List Byte) (made : Bool)
  | acceptAnswer (answerCode : List Byte)
  | send (len : Nat) (thrown : Bool)
  | close
  | described (sdp : String)
  | describeTimeout
  | descriptionSet (error : Option String)
  | gathered
  | gatherTimeout
  | peerConnectionState (s : PeerState)
  | iceGatheringComplete
  | iceCandidate (candidate : Option IceCandidate)
  | dataChannel (present : Bool)
  | channelState (s : ChannelState)
  | message (buffer : Bool) (length : Int)

/-- One step. A call begins when none is waiting; a connection reports while it is there, a channel while
there is one. -/
def Adapter.step (json : BoostJson) (a : Adapter) : Event → Option Adapter
  | .generateOffer made => if a.phase = .idle then some (a.generateOffer made) else none
  | .acceptOffer offerCode made => if a.phase = .idle then some (a.acceptOffer json offerCode made) else none
  | .acceptAnswer answerCode => if a.phase = .idle then some (a.acceptAnswer json answerCode) else none
  | .send len thrown => if a.phase = .idle then some (a.send len thrown).2 else none
  | .close => if a.phase = .idle then some a.close else none
  | .described sdp => a.described sdp
  | .describeTimeout => a.describeTimeout
  | .descriptionSet error => a.descriptionSet error
  | .gathered => a.gathered json
  | .gatherTimeout => a.gatherTimeout
  | .peerConnectionState s => if a.pc = none then none else some (a.onPeerConnectionState s)
  | .iceGatheringComplete => if a.pc = none then none else some a.onIceGatheringComplete
  | .iceCandidate candidate => if a.pc = none then none else some (a.onIceCandidate candidate)
  | .dataChannel present => if a.pc = none then none else some (a.onDataChannel present)
  | .channelState s => if a.dc then some (a.onChannelState s) else none
  | .message buffer length => if a.dc then some (a.onMessage buffer length) else none

/-! ### The invariant -/

def Outcome.code? : Outcome → Option (List Byte)
  | .code text => some text
  | _ => none

def Adapter.codes (a : Adapter) : List (List Byte) := a.outcomes.filterMap Outcome.code?

def Phase.packing : Phase → Bool
  | .idle => false
  | .acceptingAnswer _ => false
  | _ => true

/-- What holds of every adapter a run leads to. -/
structure Adapter.Sound (json : BoostJson) (a : Adapter) : Prop where
  numbered : ∀ c, a.pc = some c → c.number < a.connections
  candidates : ∀ c, a.pc = some c → a.candidates = collected c.reported
  iceDone : ∀ c, a.pc = some c → a.iceDone = c.complete
  waiting : a.phase ≠ .idle → a.pc ≠ none
  localSdp : ∀ sdp, a.phase = .gathering sdp → ∀ c, a.pc = some c → c.localSdp = some (cStr sdp)
  codes : a.codes = a.issued.map (Issue.code json)
  ordered : a.issued.Pairwise fun i j => i.number < j.number
  issuedBelow : ∀ i ∈ a.issued, i.number < a.connections
  /-- The connection of a call that is to end with a code has not handed out one. -/
  fresh : a.phase.packing = true → ∀ c, a.pc = some c → ∀ i ∈ a.issued, i.number < c.number
  /-- A code that the connection in place has handed out is its own. -/
  own : ∀ c, a.pc = some c → ∀ i ∈ a.issued, i.number = c.number →
    c.localSdp = some (cStr i.sdp) ∧ c.complete = true ∧ i.reported <+: c.reported

section Sound

variable {json : BoostJson} {a b : Adapter}

theorem sound_initial : Adapter.Sound json {} where
  numbered := by simp
  candidates := by simp
  iceDone := by simp
  waiting := by simp
  localSdp := by simp
  codes := rfl
  ordered := List.Pairwise.nil
  issuedBelow := by simp
  fresh := by simp
  own := by simp

namespace Adapter.Sound

variable (h : a.Sound json)

include h

theorem of_same (hpc : b.pc = a.pc) (hconnections : b.connections = a.connections)
    (hcandidates : b.candidates = a.candidates) (hdone : b.iceDone = a.iceDone) (hphase : b.phase = a.phase)
    (houtcomes : b.outcomes = a.outcomes) (hissued : b.issued = a.issued) : b.Sound json := by
  obtain ⟨⟩ := a
  obtain ⟨⟩ := b
  simp only at hpc hconnections hcandidates hdone hphase houtcomes hissued
  subst hpc hconnections hcandidates hdone hphase houtcomes hissued
  exact ⟨h.numbered, h.candidates, h.iceDone, h.waiting, h.localSdp, h.codes, h.ordered, h.issuedBelow,
    h.fresh, h.own⟩

theorem emitState (state : ConnectionState) (error : P2pError) : (a.emitState state error).Sound json :=
  h.of_same rfl rfl rfl rfl rfl rfl rfl

theorem finish {outcome : Outcome} (hcode : outcome.code? = none) : (a.finish outcome).Sound json where
  numbered := h.numbered
  candidates := h.candidates
  iceDone := h.iceDone
  waiting := by simp [Adapter.finish]
  localSdp := by simp [Adapter.finish]
  codes := by simpa [Adapter.finish, Adapter.codes, hcode] using h.codes
  ordered := h.ordered
  issuedBelow := h.issuedBelow
  fresh := by simp [Adapter.finish, Phase.packing]
  own := h.own

theorem dropPc (hpc : b.pc = none) (hphase : b.phase = .idle)
    (hconnections : b.connections = a.connections) (houtcomes : b.outcomes = a.outcomes)
    (hissued : b.issued = a.issued) : b.Sound json where
  numbered := by simp [hpc]
  candidates := by simp [hpc]
  iceDone := by simp [hpc]
  waiting := by simp [hphase]
  localSdp := by simp [hpc]
  codes := by rw [Adapter.codes, houtcomes, hissued]; exact h.codes
  ordered := hissued ▸ h.ordered
  issuedBelow := by rw [hissued, hconnections]; exact h.issuedBelow
  fresh := by simp [hpc]
  own := by simp [hpc]

theorem createPeer {made : Bool} {phase : Phase} (hphase : ∀ sdp, phase ≠ .gathering sdp) :
    (a.createPeer made phase).Sound json := by
  cases made with
  | false => exact h.finish rfl
  | true =>
      have hbelow : ∀ i ∈ a.issued, i.number < a.connections := h.issuedBelow
      exact {
        numbered := by simp [Adapter.createPeer]
        candidates := by simp [Adapter.createPeer, collected]
        iceDone := by simp [Adapter.createPeer]
        waiting := by simp [Adapter.createPeer]
        localSdp := fun sdp hgathering => absurd hgathering (hphase sdp)
        codes := h.codes
        ordered := h.ordered
        issuedBelow := fun i hi => Nat.lt_succ_of_lt (hbelow i hi)
        fresh := by
          rintro - c hc i hi
          obtain rfl := Option.some.inj hc
          exact hbelow i hi
        own := by
          rintro c hc i hi heq
          obtain rfl := Option.some.inj hc
          exact absurd heq (hbelow i hi).ne }

theorem generateOffer (hidle : a.phase = .idle) (made : Bool) : (a.generateOffer made).Sound json := by
  have hreset : Adapter.Sound json { a.resetInternal with role := .initiator } :=
    h.dropPc rfl hidle rfl rfl rfl
  exact hreset.createPeer (by simp)

theorem acceptOffer (hidle : a.phase = .idle) (offerCode : List Byte) (made : Bool) :
    (a.acceptOffer json offerCode made).Sound json := by
  have hreset : Adapter.Sound json { a.resetInternal with role := .responder } :=
    h.dropPc rfl hidle rfl rfl rfl
  rw [Adapter.acceptOffer]
  split
  · exact hreset.finish rfl
  · exact hreset.createPeer (by simp)

theorem acceptAnswer (answerCode : List Byte) : (a.acceptAnswer json answerCode).Sound json := by
  rw [Adapter.acceptAnswer]
  split
  · exact h.finish rfl
  split_ifs with hpc
  · exact h.finish rfl
  · exact ⟨h.numbered, h.candidates, h.iceDone, fun _ => hpc, by simp, h.codes, h.ordered, h.issuedBelow,
      by simp [Phase.packing], h.own⟩

theorem send (len : Nat) (thrown : Bool) : (a.send len thrown).2.Sound json := by
  rw [Adapter.send]
  split_ifs
  · exact h
  · exact h
  · exact h.of_same rfl rfl rfl rfl rfl rfl rfl

theorem close (hidle : a.phase = .idle) : a.close.Sound json := by
  rw [Adapter.close]
  split_ifs
  · exact h
  · exact h.dropPc rfl hidle rfl rfl rfl

theorem described {sdp : String} (hstep : a.described sdp = some b) : b.Sound json := by
  rw [Adapter.described] at hstep
  split at hstep
  next hphase =>
    obtain rfl := Option.some.inj hstep
    exact ⟨h.numbered, h.candidates, h.iceDone, fun _ => h.waiting (by simp [hphase]), by simp, h.codes,
      h.ordered, h.issuedBelow, fun _ => h.fresh (by simp [hphase, Phase.packing]), h.own⟩
  next => cases hstep

theorem describeTimeout (hstep : a.describeTimeout = some b) : b.Sound json := by
  rw [Adapter.describeTimeout] at hstep
  split at hstep
  · obtain rfl := Option.some.inj hstep
    exact (h.emitState _ _).finish rfl
  · cases hstep

theorem gatherTimeout (hstep : a.gatherTimeout = some b) : b.Sound json := by
  rw [Adapter.gatherTimeout] at hstep
  split at hstep
  · split_ifs at hstep
    obtain rfl := Option.some.inj hstep
    exact (h.emitState _ _).finish rfl
  · cases hstep

theorem mapPc {f : Connection → Connection} (hpc : b.pc = a.pc.map f)
    (hconnections : b.connections = a.connections) (houtcomes : b.outcomes = a.outcomes)
    (hissued : b.issued = a.issued) (hnumber : ∀ c, (f c).number = c.number)
    (hcandidates : ∀ c, a.candidates = collected c.reported → b.candidates = collected (f c).reported)
    (hdone : ∀ c, a.iceDone = c.complete → b.iceDone = (f c).complete)
    (hpacking : b.phase.packing = true → a.phase.packing = true)
    (hwaiting : b.phase ≠ .idle → a.phase ≠ .idle)
    (hlocal : ∀ c, a.pc = some c → ∀ sdp, b.phase = .gathering sdp → (f c).localSdp = some (cStr sdp))
    (hkeep : ∀ c, a.pc = some c → ∀ i ∈ a.issued, i.number = c.number →
      (f c).localSdp = c.localSdp ∧ (c.complete = true → (f c).complete = true) ∧
        c.reported <+: (f c).reported) : b.Sound json := by
  have hsome : ∀ {c'}, b.pc = some c' → ∃ c, a.pc = some c ∧ f c = c' := by
    intro c' hc'
    rw [hpc] at hc'
    exact Option.map_eq_some_iff.mp hc'
  constructor
  · intro c' hc'
    obtain ⟨c, hc, rfl⟩ := hsome hc'
    rw [hnumber, hconnections]
    exact h.numbered c hc
  · intro c' hc'
    obtain ⟨c, hc, rfl⟩ := hsome hc'
    exact hcandidates c (h.candidates c hc)
  · intro c' hc'
    obtain ⟨c, hc, rfl⟩ := hsome hc'
    exact hdone c (h.iceDone c hc)
  · intro hphase
    rw [hpc, ne_eq, Option.map_eq_none_iff]
    exact h.waiting (hwaiting hphase)
  · intro sdp hgathering c' hc'
    obtain ⟨c, hc, rfl⟩ := hsome hc'
    exact hlocal c hc sdp hgathering
  · rw [Adapter.codes, houtcomes, hissued]
    exact h.codes
  · exact hissued ▸ h.ordered
  · rw [hissued, hconnections]
    exact h.issuedBelow
  · intro hphase c' hc'
    obtain ⟨c, hc, rfl⟩ := hsome hc'
    rw [hissued, hnumber]
    exact h.fresh (hpacking hphase) c hc
  · intro c' hc' i hi heq
    obtain ⟨c, hc, rfl⟩ := hsome hc'
    rw [hissued] at hi
    rw [hnumber] at heq
    obtain ⟨hsdp, hcomplete, hprefix⟩ := h.own c hc i hi heq
    obtain ⟨hlocal', hcomplete', hprefix'⟩ := hkeep c hc i hi heq
    exact ⟨hlocal'.trans hsdp, hcomplete' hcomplete, hprefix.trans hprefix'⟩

theorem accept {type : String} {payload : SignalPayload} {phase : Phase}
    (hpacking : phase.packing = true → a.phase.packing = true) (hwaiting : a.phase ≠ .idle)
    (hphase : ∀ sdp, phase ≠ .gathering sdp) :
    Adapter.Sound json { a.accept type payload with phase := phase } :=
  h.mapPc rfl rfl rfl rfl (fun _ => rfl) (fun _ => id) (fun _ => id) hpacking (fun _ => hwaiting)
    (fun _ _ sdp hgathering => absurd hgathering (hphase sdp))
    fun _ _ _ _ _ => ⟨rfl, id, List.prefix_refl _⟩

theorem descriptionSet {error : Option String} (hstep : a.descriptionSet error = some b) :
    b.Sound json := by
  unfold Adapter.descriptionSet at hstep
  split at hstep
  next => exact Option.some.inj hstep ▸ h.finish rfl
  next => exact Option.some.inj hstep ▸ h.finish rfl
  next => exact Option.some.inj hstep ▸ h.finish rfl
  next sdp hphase =>
      obtain rfl := Option.some.inj hstep
      -- a connection that has handed out a code is not told its description again
      refine h.mapPc rfl rfl rfl rfl (fun _ => rfl) (fun _ => id) (fun _ => id)
        (fun _ => by simp [hphase, Phase.packing]) (fun _ => by simp [hphase]) ?_ ?_
      · intro c _ sdp' hgathering
        exact congrArg (fun s => some (cStr s)) (Phase.gathering.inj hgathering)
      · intro c hc i hi heq
        exact absurd heq (h.fresh (by simp [hphase, Phase.packing]) c hc i hi).ne
  next payload hphase =>
      have haccept : ∀ phase : Phase, (∀ sdp, phase ≠ .gathering sdp) →
          Adapter.Sound json { a.accept "offer" payload with phase := phase } := fun phase hne =>
        h.accept (fun _ => by simp [hphase, Phase.packing]) (by simp [hphase]) hne
      split at hstep
      next => exact Option.some.inj hstep ▸ (haccept .idle (by simp)).finish rfl
      next => exact Option.some.inj hstep ▸ haccept .creating (by simp)
  next payload hphase =>
      have haccept : Adapter.Sound json { a.accept "answer" payload with phase := .idle } :=
        h.accept (by simp [Phase.packing]) (by simp [hphase]) (by simp)
      split at hstep
      next => exact Option.some.inj hstep ▸ haccept.finish rfl
      next => exact Option.some.inj hstep ▸ (haccept.emitState .connecting .ok).finish rfl
  next => cases hstep

theorem gathered (hstep : a.gathered json = some b) : b.Sound json := by
  rw [Adapter.gathered] at hstep
  split at hstep
  next sdp hphase =>
    split_ifs at hstep with hdone
    obtain rfl := Option.some.inj hstep
    obtain ⟨c, hpc⟩ := Option.ne_none_iff_exists'.mp (h.waiting (by simp [hphase]))
    have hfresh := h.fresh (by simp [hphase, Phase.packing]) c hpc
    simp only [hpc, Option.toList_some, List.map_cons, List.map_nil]
    constructor
    · exact h.numbered
    · exact h.candidates
    · exact h.iceDone
    · simp [Adapter.finish]
    · simp [Adapter.finish]
    · have hcodes := h.codes
      simp only [Adapter.codes, Adapter.finish, List.filterMap_append, List.map_append] at hcodes ⊢
      rw [hcodes, h.candidates c hpc]
      rfl
    · rw [List.pairwise_append]
      refine ⟨h.ordered, List.pairwise_singleton _ _, fun i hi j hj => ?_⟩
      obtain rfl := List.mem_singleton.mp hj
      exact hfresh i hi
    · intro i hi
      rcases List.mem_append.mp hi with hi | hi
      · exact h.issuedBelow i hi
      · obtain rfl := List.mem_singleton.mp hi
        exact h.numbered c hpc
    · simp [Adapter.finish, Phase.packing]
    · intro c' hc' i hi heq
      obtain rfl : c = c' := Option.some.inj (hpc.symm.trans hc')
      rcases List.mem_append.mp hi with hi | hi
      · exact absurd heq (hfresh i hi).ne
      · obtain rfl := List.mem_singleton.mp hi
        exact ⟨h.localSdp sdp hphase c hpc, (h.iceDone c hpc).symm.trans hdone, List.prefix_refl _⟩
  next => cases hstep

theorem onIceGatheringComplete : a.onIceGatheringComplete.Sound json :=
  h.mapPc rfl rfl rfl rfl (fun _ => rfl) (fun _ => id) (fun _ _ => rfl) id id
    (fun c hc sdp hgathering => h.localSdp sdp hgathering c hc)
    fun _ _ _ _ _ => ⟨rfl, fun _ => rfl, List.prefix_refl _⟩

theorem onIceCandidate (candidate : Option IceCandidate) : (a.onIceCandidate candidate).Sound json := by
  refine h.mapPc rfl rfl rfl rfl (fun _ => rfl) (fun c hcollected => ?_) (fun _ => id) id id
    (fun c hc sdp hgathering => h.localSdp sdp hgathering c hc)
    fun c _ _ _ _ => ⟨rfl, id, List.prefix_append _ _⟩
  simp only [Adapter.onIceCandidate, collected, List.foldl_append, List.foldl_cons, List.foldl_nil]
  rw [hcollected, collected]

theorem onDataChannel (present : Bool) : (a.onDataChannel present).Sound json := by
  rw [Adapter.onDataChannel]
  split_ifs
  · exact h.of_same rfl rfl rfl rfl rfl rfl rfl
  · exact h

theorem onPeerConnectionState (s : PeerState) : (a.onPeerConnectionState s).Sound json := by
  cases s <;> exact h.emitState _ _

theorem onChannelState (s : ChannelState) : (a.onChannelState s).Sound json := by
  cases s
  · exact h
  · exact h.emitState _ _
  · exact h
  · exact h.emitState _ _

theorem onMessage (buffer : Bool) (length : Int) : (a.onMessage buffer length).Sound json := by
  rw [Adapter.onMessage]
  split_ifs
  · exact h
  · exact h.of_same rfl rfl rfl rfl rfl rfl rfl

theorem step {event : Event} (hstep : a.step json event = some b) : b.Sound json := by
  cases event with
  | generateOffer made =>
      simp only [Adapter.step] at hstep
      split_ifs at hstep with hidle
      exact Option.some.inj hstep ▸ h.generateOffer hidle made
  | acceptOffer offerCode made =>
      simp only [Adapter.step] at hstep
      split_ifs at hstep with hidle
      exact Option.some.inj hstep ▸ h.acceptOffer hidle offerCode made
  | acceptAnswer answerCode =>
      simp only [Adapter.step] at hstep
      split_ifs at hstep
      exact Option.some.inj hstep ▸ h.acceptAnswer answerCode
  | send len thrown =>
      simp only [Adapter.step] at hstep
      split_ifs at hstep
      exact Option.some.inj hstep ▸ h.send len thrown
  | close =>
      simp only [Adapter.step] at hstep
      split_ifs at hstep with hidle
      exact Option.some.inj hstep ▸ h.close hidle
  | described sdp => exact h.described hstep
  | describeTimeout => exact h.describeTimeout hstep
  | descriptionSet error => exact h.descriptionSet hstep
  | gathered => exact h.gathered hstep
  | gatherTimeout => exact h.gatherTimeout hstep
  | peerConnectionState s =>
      simp only [Adapter.step] at hstep
      split_ifs at hstep
      exact Option.some.inj hstep ▸ h.onPeerConnectionState s
  | iceGatheringComplete =>
      simp only [Adapter.step] at hstep
      split_ifs at hstep
      exact Option.some.inj hstep ▸ h.onIceGatheringComplete
  | iceCandidate candidate =>
      simp only [Adapter.step] at hstep
      split_ifs at hstep
      exact Option.some.inj hstep ▸ h.onIceCandidate candidate
  | dataChannel present =>
      simp only [Adapter.step] at hstep
      split_ifs at hstep
      exact Option.some.inj hstep ▸ h.onDataChannel present
  | channelState s =>
      simp only [Adapter.step] at hstep
      split_ifs at hstep
      exact Option.some.inj hstep ▸ h.onChannelState s
  | message buffer length =>
      simp only [Adapter.step] at hstep
      split_ifs at hstep
      exact Option.some.inj hstep ▸ h.onMessage buffer length

end Adapter.Sound

theorem sound_of_reaches (hrun : Reaches (Adapter.step json) anyEvent {} a) : a.Sound json :=
  hrun.invariant (fun _ _ _ hs _ hstep => hs.step hstep) sound_initial

/-- **What is handed out.** Over any run of calls, reports, failures and timeouts: the codes that were
handed out are those of the issues, in their order and each from a later connection than the one before,
so that no connection hands out two; and the connection in place has set the description of the code it
handed out, has completed its gathering, and had reported the candidates in it. -/
theorem codes_of_reaches (hrun : Reaches (Adapter.step json) anyEvent {} a) :
    a.codes = a.issued.map (Issue.code json) ∧ a.issued.Pairwise (fun i j => i.number < j.number) ∧
      ∀ c, a.pc = some c → ∀ i ∈ a.issued, i.number = c.number →
        c.localSdp = some (cStr i.sdp) ∧ c.complete = true ∧ i.reported <+: c.reported := by
  have h : a.Sound json := sound_of_reaches hrun
  exact ⟨h.codes, h.ordered, h.own⟩

end Sound

def sampleJson : BoostJson := ⟨sampleSerialize, sampleParse⟩

def sampleIssue : Issue := ⟨0, .initiator, "v=0", sampleCalls⟩

def sampleOffering : List Event :=
  [.generateOffer true, .described "v=0", .descriptionSet none] ++ sampleCalls.map .iceCandidate ++
    [.iceGatheringComplete, .gathered]

def sampleOffered : Adapter where
  connections := 1
  pc := some { number := 0, localSdp := some "v=0", reported := sampleCalls, complete := true }
  iceDone := true
  candidates := collected sampleCalls
  outcomes := [.code (sampleIssue.code sampleJson)]
  issued := [sampleIssue]

theorem sampleOffered_play : play (Adapter.step sampleJson) anyEvent {} sampleOffering = some sampleOffered := by
  rfl

theorem codes_of_reaches_sample :
    sampleOffered.codes = [sampleIssue.code sampleJson] ∧
      [sampleIssue].Pairwise (fun i j => i.number < j.number) ∧
      ∀ c, sampleOffered.pc = some c → ∀ i ∈ [sampleIssue], i.number = c.number →
        c.localSdp = some (cStr i.sdp) ∧ c.complete = true ∧ i.reported <+: c.reported :=
  codes_of_reaches (reaches_of_play sampleOffered_play)

end DownloadWrapper.P2p
