import DownloadWrapper.P2p.Adapter

/-!
# What the app is told of a connection

`get_info` reads the state and the counters, and the state callback is called with every state but the
first one. The state never says that the other side's answer is awaited.
-/

namespace DownloadWrapper.P2p

open Base64 Transition

def notices : List (ConnectionState × P2pError) :=
  [(.connecting, .ok), (.connected, .ok), (.failed, .transport), (.closed, .ok)]

def Adapter.counts (a : Adapter) : (Nat × Nat) × Nat × Nat :=
  ((a.bytesSent, a.handed), a.bytesRecv, a.delivered)

def Adapter.Sends (a : Adapter) (event : Event) (len : Nat) : Prop :=
  event = .send len false ∧ a.phase = .idle ∧ a.state = .connected ∧ a.dc = true

structure Adapter.Kept (a b : Adapter) : Prop where
  channel : b.dc = a.dc
  connection : b.pc.isSome = a.pc.isSome
  counts : b.counts = a.counts

inductive Adapter.Change (a : Adapter) (event : Event) (b : Adapter) : Prop where
  | quiet (kept : a.Kept b) (state : b.state = a.state) (notified : b.notified = a.notified)
  | emits (n : ConnectionState × P2pError) (hn : n ∈ notices) (kept : a.Kept b) (state : b.state = n.1)
      (notified : b.notified = a.notified ++ [n])
  | resets (channel : b.dc = false) (counts : b.counts = ((0, 0), 0, 0)) (state : b.state = .new)
      (notified : b.notified = a.notified)
  | closes (channel : b.dc = false) (counts : b.counts = a.counts) (state : b.state = .closed)
      (notified : b.notified = a.notified ++ [(.closed, .ok)])
  | opens (connection : b.pc.isSome = true) (counts : b.counts = a.counts) (state : b.state = a.state)
      (notified : b.notified = a.notified)
  | receives (n : Nat) (hb : b = { a with bytesRecv := a.bytesRecv + n, delivered := a.delivered + n })
  | sends (len : Nat) (hsends : a.Sends event len)
      (hb : b = { a with handed := a.handed + len % 2 ^ 32, bytesSent := a.bytesSent + len })

section Step

variable {json : BoostJson} {a b : Adapter} {event : Event}

theorem Adapter.Change.refl : a.Change event a := .quiet ⟨rfl, rfl, rfl⟩ rfl rfl

theorem change_acceptOffer (offerCode : List Byte) (made : Bool) :
    a.Change event (a.acceptOffer json offerCode made) := by
  rw [Adapter.acceptOffer]
  split
  · exact .resets rfl rfl rfl rfl
  · cases made <;> exact .resets rfl rfl rfl rfl

theorem change_acceptAnswer (answerCode : List Byte) : a.Change event (a.acceptAnswer json answerCode) := by
  rw [Adapter.acceptAnswer]
  split
  · exact .quiet ⟨rfl, rfl, rfl⟩ rfl rfl
  · split_ifs <;> exact .quiet ⟨rfl, rfl, rfl⟩ rfl rfl

theorem change_send {len : Nat} {thrown : Bool} (hidle : a.phase = .idle) :
    a.Change (.send len thrown) (a.send len thrown).2 := by
  rw [Adapter.send]
  split_ifs with hready hthrown
  · exact .refl
  · exact .refl
  · rw [not_or, not_not, Bool.not_eq_false] at hready
    rw [Bool.not_eq_true] at hthrown
    exact .sends len ⟨by rw [hthrown], hidle, hready.1, hready.2⟩ rfl

theorem change_close : a.Change event a.close := by
  rw [Adapter.close]
  split_ifs
  · exact .refl
  · exact .closes rfl rfl rfl rfl

theorem change_descriptionSet {error : Option String} (hstep : a.descriptionSet error = some b) :
    a.Change event b := by
  have haccept : ∀ type payload, a.Kept (a.accept type payload) := fun type payload =>
    ⟨rfl, Option.isSome_map, rfl⟩
  unfold Adapter.descriptionSet at hstep
  split at hstep
  next => exact Option.some.inj hstep ▸ .quiet ⟨rfl, rfl, rfl⟩ rfl rfl
  next => exact Option.some.inj hstep ▸ .quiet ⟨rfl, rfl, rfl⟩ rfl rfl
  next => exact Option.some.inj hstep ▸ .quiet ⟨rfl, rfl, rfl⟩ rfl rfl
  next => exact Option.some.inj hstep ▸ .quiet ⟨rfl, Option.isSome_map, rfl⟩ rfl rfl
  next payload _ =>
      obtain ⟨hchannel, hconnection, hcounts⟩ := haccept "offer" payload
      split at hstep
      next => exact Option.some.inj hstep ▸ .quiet ⟨hchannel, hconnection, hcounts⟩ rfl rfl
      next => exact Option.some.inj hstep ▸ .quiet ⟨hchannel, hconnection, hcounts⟩ rfl rfl
  next payload _ =>
      obtain ⟨hchannel, hconnection, hcounts⟩ := haccept "answer" payload
      split at hstep
      next => exact Option.some.inj hstep ▸ .quiet ⟨hchannel, hconnection, hcounts⟩ rfl rfl
      next =>
        exact Option.some.inj hstep ▸
          .emits (.connecting, .ok) (by decide) ⟨hchannel, hconnection, hcounts⟩ rfl rfl
  next => cases hstep

theorem change_gathered (hstep : a.gathered json = some b) : a.Change event b := by
  rw [Adapter.gathered] at hstep
  split at hstep
  · split_ifs at hstep
    exact Option.some.inj hstep ▸ .quiet ⟨rfl, rfl, rfl⟩ rfl rfl
  · cases hstep

theorem change_timeout (outcome : Outcome) :
    a.Change event ((a.emitState .failed .transport).finish outcome) :=
  .emits (.failed, .transport) (by decide) ⟨rfl, rfl, rfl⟩ rfl rfl

theorem change_onPeerConnectionState (s : PeerState) : a.Change event (a.onPeerConnectionState s) := by
  cases s
  · exact .emits (.connecting, .ok) (by decide) ⟨rfl, rfl, rfl⟩ rfl rfl
  · exact .emits (.connecting, .ok) (by decide) ⟨rfl, rfl, rfl⟩ rfl rfl
  · exact .emits (.connected, .ok) (by decide) ⟨rfl, rfl, rfl⟩ rfl rfl
  · exact .emits (.closed, .ok) (by decide) ⟨rfl, rfl, rfl⟩ rfl rfl
  · exact .emits (.failed, .transport) (by decide) ⟨rfl, rfl, rfl⟩ rfl rfl
  · exact .emits (.closed, .ok) (by decide) ⟨rfl, rfl, rfl⟩ rfl rfl

theorem change_onChannelState (s : ChannelState) : a.Change event (a.onChannelState s) := by
  cases s
  · exact .refl
  · exact .emits (.connected, .ok) (by decide) ⟨rfl, rfl, rfl⟩ rfl rfl
  · exact .refl
  · exact .emits (.closed, .ok) (by decide) ⟨rfl, rfl, rfl⟩ rfl rfl

theorem change_onMessage (buffer : Bool) (length : Int) : a.Change event (a.onMessage buffer length) := by
  rw [Adapter.onMessage]
  split_ifs
  · exact .refl
  · exact .receives length.toNat rfl

theorem Adapter.change_of_step (hstep : a.step json event = some b) : a.Change event b := by
  cases event with
  | generateOffer made =>
      obtain ⟨-, hb⟩ := Option.ite_none_right_eq_some.mp hstep
      obtain rfl := Option.some.inj hb
      cases made <;> exact .resets rfl rfl rfl rfl
  | acceptOffer offerCode made =>
      obtain ⟨-, hb⟩ := Option.ite_none_right_eq_some.mp hstep
      exact Option.some.inj hb ▸ change_acceptOffer offerCode made
  | acceptAnswer answerCode =>
      obtain ⟨-, hb⟩ := Option.ite_none_right_eq_some.mp hstep
      exact Option.some.inj hb ▸ change_acceptAnswer answerCode
  | send len thrown =>
      obtain ⟨hidle, hb⟩ := Option.ite_none_right_eq_some.mp hstep
      exact Option.some.inj hb ▸ change_send hidle
  | close =>
      obtain ⟨-, hb⟩ := Option.ite_none_right_eq_some.mp hstep
      exact Option.some.inj hb ▸ change_close
  | described sdp =>
      simp only [Adapter.step, Adapter.described] at hstep
      split at hstep
      · exact Option.some.inj hstep ▸ .quiet ⟨rfl, rfl, rfl⟩ rfl rfl
      · cases hstep
  | describeTimeout =>
      simp only [Adapter.step, Adapter.describeTimeout] at hstep
      split at hstep
      · exact Option.some.inj hstep ▸ change_timeout _
      · cases hstep
  | descriptionSet error => exact change_descriptionSet hstep
  | gathered => exact change_gathered hstep
  | gatherTimeout =>
      simp only [Adapter.step, Adapter.gatherTimeout] at hstep
      split at hstep
      · split_ifs at hstep
        exact Option.some.inj hstep ▸ change_timeout _
      · cases hstep
  | peerConnectionState s =>
      obtain ⟨-, hb⟩ := Option.ite_none_left_eq_some.mp hstep
      exact Option.some.inj hb ▸ change_onPeerConnectionState s
  | iceGatheringComplete =>
      obtain ⟨-, hb⟩ := Option.ite_none_left_eq_some.mp hstep
      exact Option.some.inj hb ▸ .quiet ⟨rfl, Option.isSome_map, rfl⟩ rfl rfl
  | iceCandidate candidate =>
      obtain ⟨-, hb⟩ := Option.ite_none_left_eq_some.mp hstep
      exact Option.some.inj hb ▸ .quiet ⟨rfl, Option.isSome_map, rfl⟩ rfl rfl
  | dataChannel present =>
      obtain ⟨hpc, hb⟩ := Option.ite_none_left_eq_some.mp hstep
      obtain rfl := Option.some.inj hb
      cases present
      · exact .refl
      · exact .opens (Option.isSome_iff_ne_none.mpr hpc) rfl rfl rfl
  | channelState s =>
      obtain ⟨-, hb⟩ := Option.ite_none_right_eq_some.mp hstep
      exact Option.some.inj hb ▸ change_onChannelState s
  | message buffer length =>
      obtain ⟨-, hb⟩ := Option.ite_none_right_eq_some.mp hstep
      exact Option.some.inj hb ▸ change_onMessage buffer length

/-! ### The reports of a run -/

structure Adapter.Reports (a : Adapter) : Prop where
  channel : a.dc = true → a.pc.isSome = true
  notified : ∀ n ∈ a.notified, n ∈ notices
  current : a.state = .new ∨ a.notified.getLast?.map Prod.fst = some a.state
  received : a.bytesRecv = a.delivered
  sent : a.handed ≤ a.bytesSent

theorem reports_initial : Adapter.Reports {} :=
  ⟨by simp, by simp, Or.inl rfl, rfl, le_refl _⟩

theorem Adapter.Reports.of_counts (h : a.Reports) (hcounts : b.counts = a.counts) :
    b.bytesRecv = b.delivered ∧ b.handed ≤ b.bytesSent := by
  simp only [Adapter.counts, Prod.mk.injEq] at hcounts
  obtain ⟨⟨hsent, hhanded⟩, hrecv, hdelivered⟩ := hcounts
  exact ⟨by rw [hrecv, hdelivered, h.received], by rw [hsent, hhanded]; exact h.sent⟩

theorem Adapter.Reports.of_emits (h : a.Reports) {n : ConnectionState × P2pError} (hn : n ∈ notices)
    (hchannel : b.dc = true → b.pc.isSome = true) (hcounts : b.counts = a.counts) (hstate : b.state = n.1)
    (hnotified : b.notified = a.notified ++ [n]) : b.Reports where
  channel := hchannel
  notified := by
    rw [hnotified, List.forall_mem_append]
    exact ⟨h.notified, List.forall_mem_singleton.mpr hn⟩
  current := Or.inr (by rw [hnotified, hstate, List.getLast?_concat]; rfl)
  received := (h.of_counts hcounts).1
  sent := (h.of_counts hcounts).2

theorem Adapter.Reports.step (h : a.Reports) (hstep : a.step json event = some b) : b.Reports := by
  cases Adapter.change_of_step hstep with
  | quiet kept state notified =>
      exact ⟨by rw [kept.channel, kept.connection]; exact h.channel, notified ▸ h.notified,
        by rw [state, notified]; exact h.current, (h.of_counts kept.counts).1, (h.of_counts kept.counts).2⟩
  | emits n hn kept state notified =>
      exact h.of_emits hn (by rw [kept.channel, kept.connection]; exact h.channel) kept.counts state notified
  | resets channel counts state notified =>
      simp only [Adapter.counts, Prod.mk.injEq] at counts
      exact ⟨by simp [channel], notified ▸ h.notified, Or.inl state, by rw [counts.2.1, counts.2.2],
        by rw [counts.1.2]; exact Nat.zero_le _⟩
  | closes channel counts state notified =>
      exact h.of_emits (by decide) (by simp [channel]) counts state notified
  | opens connection counts state notified =>
      exact ⟨fun _ => connection, notified ▸ h.notified, by rw [state, notified]; exact h.current,
        (h.of_counts counts).1, (h.of_counts counts).2⟩
  | receives n hb =>
      subst hb
      exact ⟨h.channel, h.notified, h.current, congrArg (· + n) h.received, h.sent⟩
  | sends len _ hb =>
      subst hb
      exact ⟨h.channel, h.notified, h.current, h.received, Nat.add_le_add h.sent (Nat.mod_le len _)⟩

end Step

/-- An event that cannot be is passed over. -/
def Adapter.next (json : BoostJson) (a : Adapter) (event : Event) : Adapter :=
  (a.step json event).getD a

section Next

variable {json : BoostJson} {a b : Adapter} {event : Event}

theorem Adapter.change_next : a.Change event (a.next json event) := by
  rw [Adapter.next]
  cases hstep : a.step json event with
  | none => exact .refl
  | some b => exact Adapter.change_of_step hstep

/-- The step sends what a 32-bit length does not hold. -/
def Adapter.Oversends (a : Adapter) (event : Event) : Prop := ∃ len, a.Sends event len ∧ 2 ^ 32 ≤ len

theorem Adapter.next_counted_iff (h : a.bytesSent = a.handed) :
    (a.next json event).bytesSent = (a.next json event).handed ↔ ¬ a.Oversends event := by
  constructor
  · rintro hcounted ⟨len, ⟨rfl, hidle, hstate, hdc⟩, hlen⟩
    simp only [Adapter.next, Adapter.step, hidle, if_true, Option.getD_some, Adapter.send, hstate, hdc] at hcounted
    simp at hcounted
    have := Nat.mod_lt len (by decide : 2 ^ 32 > 0)
    omega
  · intro hfits
    have hcounts : ∀ b : Adapter, b.counts = a.counts → b.bytesSent = b.handed := by
      intro b hb
      simp only [Adapter.counts, Prod.mk.injEq] at hb
      rw [hb.1.1, hb.1.2, h]
    cases @Adapter.change_next json a event with
    | quiet kept => exact hcounts _ kept.counts
    | emits _ _ kept => exact hcounts _ kept.counts
    | resets _ counts =>
        simp only [Adapter.counts, Prod.mk.injEq] at counts
        rw [counts.1.1, counts.1.2]
    | closes _ counts => exact hcounts _ counts
    | opens _ counts => exact hcounts _ counts
    | receives n hb =>
        rw [hb]
        exact h
    | sends len hsends hb =>
        have hlen : len < 2 ^ 32 := by
          by_contra hlen
          exact hfits ⟨len, hsends, not_lt.mp hlen⟩
        rw [hb]
        exact congrArg₂ (· + ·) h (Nat.mod_eq_of_lt hlen).symm

def Event.Begins : Event → Prop
  | .generateOffer _ => True
  | .acceptOffer _ _ => True
  | _ => False

structure Adapter.Gone (a : Adapter) : Prop where
  state : a.state = .closed
  pc : a.pc = none
  dc : a.dc = false
  idle : a.phase = .idle

theorem Adapter.Gone.next (h : a.Gone) (hevent : ¬ event.Begins) :
    (a.next json event).Gone ∧ (a.next json event).notified = a.notified := by
  obtain ⟨hstate, hpc, hdc, hidle⟩ := h
  have hsame : a.Gone := ⟨hstate, hpc, hdc, hidle⟩
  cases event with
  | generateOffer => exact absurd trivial hevent
  | acceptOffer => exact absurd trivial hevent
  | acceptAnswer answerCode =>
      simp only [Adapter.next, Adapter.step, hidle, if_true, Option.getD_some, Adapter.acceptAnswer, hpc]
      split <;> exact ⟨⟨hstate, hpc, hdc, rfl⟩, rfl⟩
  | send => simpa [Adapter.next, Adapter.step, hidle, Adapter.send, hstate] using hsame
  | close => simpa [Adapter.next, Adapter.step, hidle, Adapter.close, hstate] using hsame
  | described => simpa [Adapter.next, Adapter.step, Adapter.described, hidle] using hsame
  | describeTimeout => simpa [Adapter.next, Adapter.step, Adapter.describeTimeout, hidle] using hsame
  | descriptionSet => simpa [Adapter.next, Adapter.step, Adapter.descriptionSet, hidle] using hsame
  | gathered => simpa [Adapter.next, Adapter.step, Adapter.gathered, hidle] using hsame
  | gatherTimeout => simpa [Adapter.next, Adapter.step, Adapter.gatherTimeout, hidle] using hsame
  | peerConnectionState => simpa [Adapter.next, Adapter.step, hpc] using hsame
  | iceGatheringComplete => simpa [Adapter.next, Adapter.step, hpc] using hsame
  | iceCandidate => simpa [Adapter.next, Adapter.step, hpc] using hsame
  | dataChannel => simpa [Adapter.next, Adapter.step, hpc] using hsame
  | channelState => simpa [Adapter.next, Adapter.step, hdc] using hsame
  | message => simpa [Adapter.next, Adapter.step, hdc] using hsame

theorem Adapter.Gone.foldl (h : a.Gone) {events : List Event} (hevents : ∀ e ∈ events, ¬ e.Begins) :
    (events.foldl (Adapter.next json) a).Gone ∧
      (events.foldl (Adapter.next json) a).notified = a.notified := by
  induction events generalizing a with
  | nil => exact ⟨h, rfl⟩
  | cons e events ih =>
      obtain ⟨he, hrest⟩ := List.forall_mem_cons.mp hevents
      obtain ⟨hgone, hnotified⟩ := @Adapter.Gone.next json a e h he
      obtain ⟨hlast, hsame⟩ := ih hgone hrest
      exact ⟨hlast, hsame.trans hnotified⟩

theorem gone_close (h : a.Reports) (hidle : a.phase = .idle) (hgone : a.state ≠ .closed ∨ a.pc = none) :
    a.close.Gone := by
  rw [Adapter.close]
  split_ifs with hclosed
  · have hpc : a.pc = none := hgone.resolve_left (not_not.mpr hclosed)
    have hdc : a.dc = false := by
      by_contra hdc
      simpa [hpc] using h.channel ((Bool.not_eq_false _).mp hdc)
    exact ⟨hclosed, hpc, hdc, hidle⟩
  · exact ⟨rfl, rfl, rfl, hidle⟩

/-- **Closing.** After `close` the state is closed and the app hears nothing more until the next round of
signals begins, if and only if the state was another one before or there was no connection: a connection
that has reported that the other side is gone is left in place, and may report that it is there again. -/
theorem closed_until_iff (hrun : Reaches (Adapter.step json) anyEvent {} a) (hidle : a.phase = .idle) :
    (∀ events : List Event, (∀ e ∈ events, ¬ e.Begins) →
      (events.foldl (Adapter.next json) a.close).state = .closed ∧
        (events.foldl (Adapter.next json) a.close).notified = a.close.notified) ↔
      a.state ≠ .closed ∨ a.pc = none := by
  have hreports : a.Reports := hrun.invariant (fun _ _ _ hs _ hstep => hs.step hstep) reports_initial
  constructor
  · intro hquiet
    by_contra hnot
    rw [not_or, not_not] at hnot
    obtain ⟨hclosed, hpc⟩ := hnot
    have hclose : a.close = a := if_pos hclosed
    have hback := (hquiet [.peerConnectionState .connected] (by simp [Event.Begins])).1
    simp [hclose, Adapter.next, Adapter.step, hpc, Adapter.onPeerConnectionState, Adapter.emitState] at hback
  · intro hgone events hevents
    obtain ⟨hlast, hsame⟩ := @Adapter.Gone.foldl json _ (gone_close hreports hidle hgone) _ hevents
    exact ⟨hlast.state, hsame⟩

theorem closed_until_iff_sample :
    (∀ events : List Event, (∀ e ∈ events, ¬ e.Begins) →
      (events.foldl (Adapter.next sampleJson) sampleOffered.close).state = .closed ∧
        (events.foldl (Adapter.next sampleJson) sampleOffered.close).notified =
          sampleOffered.close.notified) ↔
      sampleOffered.state ≠ .closed ∨ sampleOffered.pc = none :=
  closed_until_iff (reaches_of_play sampleOffered_play) rfl

end Next

end DownloadWrapper.P2p
