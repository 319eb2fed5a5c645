import DownloadWrapper.Lib.LockOrder

/-!
# The locks of the P2P interface

The calls and the observers of the adapter by the locks they take. libwebrtc works on one thread: a call
of a connection waits for it, and the observers run on it, so it is a lock too, which the thread has
itself. The state callback is called under the mutexes of the adapter and of the entry, and by
`dw_p2p_destroy` under that of the registry.
-/

namespace DownloadWrapper.P2p.Locks

open LockOrder (Thread Move Item)
open LockOrder.Code

inductive Lock where
  /-- `g_registry_mtx`. -/
  | registry
  /-- The thread of libwebrtc. -/
  | signaling
  /-- `ice_mtx_` of an adapter. -/
  | ice (handle : Nat)
  /-- `cb_mtx_` of an adapter. -/
  | adapter (handle : Nat)
  /-- `cb_mtx` of an entry. -/
  | entry (handle : Nat)
  /-- `info_mtx_` of an adapter. -/
  | info (handle : Nat)
  deriving DecidableEq

abbrev Code := LockOrder.Code Lock

/-- What is asked of libwebrtc on its own thread is done at once. -/
def reentrant : Lock → Bool
  | .signaling => true
  | _ => false

def webrtc : Code := waits .signaling

def findEntry : Code := opt (waits .registry)

section Adapter

-- what the callbacks of the app do
variable (onState onData : Code) (handle : Nat)

def emitState : Code := .locked (.adapter handle) (opt (.locked (.entry handle) (opt onState)))

def resetInternal : Code := block [opt webrtc, opt webrtc, waits (.info handle)]

def createPeer : Code := block [webrtc, opt webrtc]

def clearWait : Code := waits (.ice handle)

/-- The description is created and set, and the gathering waited for; a timeout is reported under
`ice_mtx_`. -/
def describe : Code :=
  block [webrtc, opt (emitState onState handle),
    opt (block [webrtc, .locked (.ice handle) (opt (emitState onState handle))])]

def generateOffer : Code :=
  block [resetInternal handle, opt (block [createPeer, clearWait handle, describe onState handle])]

def acceptOffer : Code :=
  block [resetInternal handle,
    opt (block [createPeer, clearWait handle, webrtc, .loop webrtc, opt (describe onState handle)])]

def acceptAnswer : Code := opt (block [webrtc, .loop webrtc, opt (emitState onState handle)])

def send : Code := opt webrtc

def getInfo : Code := waits (.info handle)

def close : Code := opt (block [opt webrtc, opt webrtc, emitState onState handle])

def observer : Code :=
  .locked .signaling (oneOf [emitState onState handle, waits (.ice handle), webrtc,
    .locked (.adapter handle) (opt (.locked (.entry handle) (opt onData)))])

end Adapter

section Bridge

variable (onState onData : Code) (handle : Nat)

def create : Code := block [waits (.adapter handle), waits (.adapter handle), waits .registry]

def destroy : Code := opt (.locked .registry (opt (block [close onState handle, opt webrtc])))

/-- `dw_p2p_set_state_callback` and `dw_p2p_set_data_callback`. -/
def setCallback : Code := block [findEntry, opt (waits (.entry handle))]

def onEntry (call : Code) : Code := block [findEntry, opt call]

def call : Code :=
  oneOf [create handle, destroy onState handle, setCallback handle,
    onEntry (generateOffer onState handle), onEntry (acceptOffer onState handle),
    onEntry (acceptAnswer onState handle), onEntry send, onEntry (getInfo handle),
    onEntry (close onState handle)]

/-- Threads of the app, which call the interface any number of times for any handle, and the thread of
libwebrtc. -/
inductive IsThread (onState onData : Code) : Thread Lock → Prop where
  | app : IsThread onState onData (.ofCode (.loop (.pick (call onState))))
  | webrtc : IsThread onState onData (.ofCode (.loop (.pick (observer onState onData))))

def starts (_ : List (Thread Lock)) : Move Lock → Prop
  | .step _ _ => True
  | .spawn thread => IsThread onState onData thread

end Bridge

def rank : Lock → Nat
  | .registry => 0
  | .signaling => 1
  | .ice _ => 2
  | .adapter _ => 3
  | .entry _ => 4
  | .info _ => 5

abbrev UpTo (bound : Nat) (held : List Lock) : Prop := LockOrder.UpTo rank bound held

section Order

variable {held : List Lock} {handle : Nat}

theorem ordered_webrtc (h : UpTo 1 held) : webrtc.Ordered rank reentrant held := by
  rw [webrtc, LockOrder.ordered_waits]
  exact h.above_again rfl fun other heq => by cases other <;> simp [rank] at heq ⊢

theorem ordered_findEntry : findEntry.Ordered rank reentrant [] := by
  simp [findEntry, LockOrder.Above]

theorem ordered_emitState (h : UpTo 2 held) : (emitState .skip handle).Ordered rank reentrant held := by
  have hentry : UpTo 3 (.adapter handle :: held) := (h.mono (by decide)).cons le_rfl
  simp [emitState, h.above (.adapter handle) (by simp [rank]),
    hentry.above (.entry handle) (by simp [rank])]

theorem ordered_describe : (describe .skip handle).Ordered rank reentrant [] := by
  have hnone : UpTo 1 [] := LockOrder.upTo_nil
  have hice : UpTo 2 [.ice handle] := LockOrder.upTo_nil.cons le_rfl
  simp [describe, ordered_webrtc hnone, ordered_emitState (hnone.mono (by decide)),
    ordered_emitState hice, hnone.above (.ice handle) (by simp [rank])]

theorem ordered_close (h : UpTo 1 held) : (close .skip handle).Ordered rank reentrant held := by
  simp [close, ordered_webrtc h, ordered_emitState (h.mono (by decide))]

theorem ordered_observer : (observer .skip .skip handle).Ordered rank reentrant [] := by
  have hsignaling : UpTo 1 [.signaling] := LockOrder.upTo_nil.cons le_rfl
  have hadapter : UpTo 3 [.adapter handle, .signaling] := (hsignaling.mono (by decide)).cons le_rfl
  have hnone : LockOrder.Above rank reentrant [] .signaling := Or.inr (by simp)
  simp [observer, hnone, ordered_webrtc hsignaling, ordered_emitState (hsignaling.mono (by decide)),
    hsignaling.above (.ice handle) (by simp [rank]), hsignaling.above (.adapter handle) (by simp [rank]),
    hadapter.above (.entry handle) (by simp [rank])]

theorem ordered_call : (call .skip handle).Ordered rank reentrant [] := by
  have hnone : ∀ lock, LockOrder.Above rank reentrant [] lock := fun _ => Or.inr (by simp)
  have hregistry : UpTo 1 [.registry] := LockOrder.upTo_nil.cons (by decide)
  have hupto : UpTo 1 [] := LockOrder.upTo_nil
  simp [call, create, destroy, setCallback, onEntry, generateOffer, acceptOffer, acceptAnswer, send, getInfo,
    resetInternal, createPeer, clearWait, hnone, ordered_webrtc hupto, ordered_webrtc hregistry,
    ordered_findEntry, ordered_describe, ordered_close hupto, ordered_close hregistry,
    ordered_emitState (hupto.mono (show 1 ≤ 2 by decide))]

theorem orderly_of_isThread {thread : Thread Lock} (h : IsThread .skip .skip thread) :
    thread.Orderly rank reentrant := by
  cases h with
  | app => exact Thread.orderly_ofCode fun handle => ordered_call
  | webrtc => exact Thread.orderly_ofCode fun handle => ordered_observer

end Order

/-- **The interface does not hang by itself.** Whatever the app's threads and the thread of libwebrtc have
done so far, on any handles and in any order, all of them can run to their end, if the callbacks call
nothing of the interface. -/
theorem returns_of_reaches {threads : List (Thread Lock)}
    (hrun : Transition.Reaches (LockOrder.step reentrant) (starts .skip .skip) [] threads) :
    ∃ threads', Transition.Reaches (LockOrder.step reentrant) LockOrder.noSpawn threads threads' ∧
      ∀ thread ∈ threads', thread.todo = [] := by
  have horderly : Transition.Reaches (LockOrder.step reentrant)
      (LockOrder.orderlySpawn rank reentrant) [] threads := by
    refine hrun.mono fun _ move hmove => ?_
    cases move with
    | step place choice => trivial
    | spawn thread => exact orderly_of_isThread hmove
  exact (LockOrder.disciplined_of_reaches horderly LockOrder.disciplined_nil).finishes

theorem returns_of_reaches_started :
    ∃ threads', Transition.Reaches (LockOrder.step reentrant) LockOrder.noSpawn
        [Thread.ofCode (.loop (.pick (call .skip))), Thread.ofCode (.loop (.pick (observer .skip .skip)))]
        threads' ∧
      ∀ thread ∈ threads', thread.todo = [] :=
  returns_of_reaches (.tail (.tail .refl
    ⟨.spawn (Thread.ofCode (.loop (.pick (call .skip)))), IsThread.app, rfl⟩)
    ⟨.spawn (Thread.ofCode (.loop (.pick (observer .skip .skip)))), IsThread.webrtc, rfl⟩)

/-- A thread of the app whose state callback, called by `dw_p2p_destroy`, has begun a call about an
entry. -/
def callingBack (rest : Code) (handle : Nat) : Thread Lock where
  held := [.entry handle, .adapter handle, .registry]
  todo := [.run (waits .registry), .run rest, .release (.entry handle), .release (.adapter handle), .run .skip,
    .run (block [opt webrtc]), .release .registry, .run (.loop (.pick (call (.seq (waits .registry) rest))))]

/-- The way there: a call for this handle, `dw_p2p_destroy`, `close`, and the state callback. -/
def toCallback (handle : Nat) : List Nat :=
  [1, handle, 1, 0] ++ [1, 0, 1, 0] ++ [1, 0, 0, 0, 0, 0, 0, 0] ++ [0, 1, 0, 1, 0]

theorem play_toCallback (rest : Code) (handle : Nat) :
    (Thread.ofCode (.loop (.pick (call (.seq (waits .registry) rest))))).play reentrant (toCallback handle) =
      some (callingBack rest handle) := by
  rfl

theorem circle_callingBack (rest : Code) (handle : Nat) :
    LockOrder.Circle reentrant [callingBack rest handle] [0] := by
  intro place hplace
  obtain rfl := List.mem_singleton.mp hplace
  exact ⟨callingBack rest handle, .registry, rfl, ⟨.skip, _, rfl⟩, Or.inl ⟨by simp [callingBack], rfl⟩⟩

/-- **A callback that calls back hangs it for good.** If the state callback begins with a call about an
entry, whichever, then `dw_p2p_destroy` of a connection that is not closed may never return, and the
registry, which every call about an entry goes through, stays locked. -/
theorem hangs_of_calls_back (rest onData : Code) :
    ∃ threads, Transition.Reaches (LockOrder.step reentrant)
        (starts (.seq (waits .registry) rest) onData) [] threads ∧
      ∃ thread, threads[0]? = some thread ∧ .registry ∈ thread.held ∧
        ∀ threads', Transition.Reaches (LockOrder.step reentrant) Transition.anyEvent threads threads' →
          threads'[0]? = some thread := by
  have hspawn : LockOrder.step reentrant []
      (.spawn (Thread.ofCode (.loop (.pick (call (.seq (waits .registry) rest)))))) =
        some [Thread.ofCode (.loop (.pick (call (.seq (waits .registry) rest))))] := rfl
  have hrun : Transition.Reaches (LockOrder.step reentrant) (starts (.seq (waits .registry) rest) onData)
      [Thread.ofCode (.loop (.pick (call (.seq (waits .registry) rest))))] [callingBack rest 0] :=
    Thread.reaches_of_play (fun _ _ _ => trivial) (play_toCallback rest 0)
  refine ⟨[callingBack rest 0], .head ⟨.spawn _, IsThread.app, hspawn⟩ hrun, callingBack rest 0, rfl, ?_, ?_⟩
  · simp [callingBack]
  · intro threads' hlater
    exact (circle_callingBack rest 0).stuck hlater 0 List.mem_cons_self

end DownloadWrapper.P2p.Locks
