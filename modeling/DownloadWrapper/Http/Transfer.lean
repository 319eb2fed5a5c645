import DownloadWrapper.Http.FinalResponse
import DownloadWrapper.Lib.Copies

/-!
# A download against a versioned resource

The worker together with what stands at the other end of its connections: a resource whose content
may change between requests, a server that answers every request with one version of it, and the
archive a new process would restart the task from. Connections end when they please, libcurl hands
over whatever part of an answer it pleases, and the process may be gone after any step.
-/

namespace DownloadWrapper

/-- The versions of a resource: what each holds, and the validator that tells it from the others. -/
structure Resource (V : Type*) where
  bytes : V → List Byte
  etag : V → String
  bytes_ne : ∀ v, bytes v ≠ []
  etag_ne : ∀ v, etag v ≠ ""
  etag_injective : Function.Injective etag

namespace Resource

variable {V : Type*} (R : Resource V)

def length (v : V) : Int := (R.bytes v).length

theorem length_pos (v : V) : 0 < R.length v := by
  have := List.length_pos_iff.mpr (R.bytes_ne v)
  simp only [length]
  omega

end Resource

def Easy.requested (easy : Easy) (bytes : List Byte) : List Byte :=
  match easy.last with
  | none => bytes.drop easy.first.toNat
  | some last => (bytes.drop easy.first.toNat).take (last - easy.first + 1).toNat

theorem Easy.requested_prefix (easy : Easy) (bytes : List Byte) :
    easy.requested bytes <+: bytes.drop easy.first.toNat := by
  rw [requested]
  split
  · exact List.prefix_refl _
  · exact List.take_prefix _ _

/-- What the server sends for one request, as far as the connection lasts. -/
structure Answer (V : Type*) where
  version : V
  block : Block
  body : List Byte

/-- The server's contract. The header names the version, and with it a 206 brings the requested range
from its beginning, a 200 the file from its beginning; an error status brings nothing. -/
def Serves {V : Type*} (R : Resource V) (easy : Easy) (a : Answer V) : Prop :=
  400 ≤ a.block.code ∧ a.body = [] ∨
    (etags [a.block] ≠ [] ∧ ∀ value ∈ etags [a.block], value = R.etag a.version) ∧
    (∀ total ∈ totals [a.block], total = R.length a.version) ∧
    (a.block.code = 206 ∧ totals [a.block] ≠ [] ∧ a.body <+: easy.requested (R.bytes a.version) ∨
      a.block.code = 200 ∧
        (countedLengths [a.block] ≠ [] ∧
          ∀ length ∈ countedLengths [a.block], length = R.length a.version) ∧
        a.body <+: R.bytes a.version)

instance {V : Type*} (R : Resource V) (easy : Easy) (a : Answer V) : Decidable (Serves R easy a) :=
  inferInstanceAs (Decidable (_ ∧ _ ∨ (_ ∧ _) ∧ _ ∧ (_ ∧ _ ∧ _ ∨ _ ∧ (_ ∧ _) ∧ _)))

/-- An answer under way: the header lines and the bytes libcurl has not handed over yet. -/
structure Delivery (V : Type*) where
  answer : Answer V
  lines : List String
  body : List Byte

/-- `CURLINFO_RESPONSE_CODE`: 0 as long as no status line has come. -/
def responseCode {V : Type*} : Option (Delivery V) → Int
  | none => 0
  | some d => if d.lines = d.answer.block.lines then 0 else d.answer.block.code

/-- The worker, the archive stored before it was started, and the answer each connection is
getting. -/
structure Transfer (V : Type*) where
  worker : Worker
  stored : Option Archive := none
  deliveries : Nat → Option (Delivery V) := fun _ => none

inductive Turn (V : Type*) where
  /-- The server answers the request of connection `i`. -/
  | answer (i : Nat) (a : Answer V)
  | work (e : Event)
  /-- The process is gone, or the worker done; `start_download` runs again. -/
  | restart

/-- The answers under way after an event, which has to be one they allow: the header line by line, the
body behind it in chunks of any length, and the end of a connection at any time. -/
def deliver {V : Type*} (deliveries : Nat → Option (Delivery V)) :
    Event → Option (Nat → Option (Delivery V))
  | .header i line =>
      (deliveries i).bind fun d =>
        if d.lines.head? = some line then
          some (Function.update deliveries i (some { d with lines := d.lines.tail }))
        else none
  | .body i data _ =>
      (deliveries i).bind fun d =>
        if d.lines = [] ∧ data <+: d.body then
          some (Function.update deliveries i (some { d with body := d.body.drop data.length }))
        else none
  | .message i _ httpCode _ =>
      if httpCode = responseCode (deliveries i) then some (Function.update deliveries i none)
      else none
  | _ => some deliveries

namespace Transfer

variable {V : Type*}

def saved (x : Transfer V) : Option Archive := x.worker.emitted.or x.stored

def begin (url clientId savePath : String) (fs : Fs) : Transfer V where
  worker := startWorker url clientId savePath none fs true

def answer (x : Transfer V) (i : Nat) (a : Answer V) : Transfer V :=
  { x with deliveries :=
      Function.update x.deliveries i (some { answer := a, lines := a.block.lines, body := a.body }) }

def restart (url clientId savePath : String) (x : Transfer V) : Transfer V where
  worker := startWorker url clientId savePath x.saved x.worker.fs true
  stored := x.saved

/-- One step of either side. -/
def step (cfg : HttpConfig) (url clientId savePath : String) (x : Transfer V) :
    Turn V → Option (Transfer V)
  | .answer i a =>
      if Worker.live x.worker.task i ∧ (x.deliveries i).isNone then some (x.answer i a) else none
  | .work e =>
      (x.worker.step cfg e).bind fun w => (deliver x.deliveries e).map fun deliveries =>
        { x with worker := w, deliveries := deliveries }
  | .restart => some (x.restart url clientId savePath)

/-- The server keeps its contract. -/
def Honest (R : Resource V) (x : Transfer V) : Turn V → Prop
  | .answer i a => ∀ easy ∈ (x.worker.task.ctx i).easy, Serves R easy a
  | _ => True

instance (R : Resource V) (x : Transfer V) : ∀ turn : Turn V, Decidable (x.Honest R turn)
  | .answer i a =>
      inferInstanceAs (Decidable (∀ easy ∈ (x.worker.task.ctx i).easy, Serves R easy a))
  | .work _ | .restart => isTrue trivial

end Transfer

end DownloadWrapper
