import DownloadWrapper.Core.Registry
import DownloadWrapper.Http.Worker
import DownloadWrapper.Torrent.Session

/-!
# The engines' world

What the engines act on next to the registry: the database, the HTTP contexts with their threads,
the BT session with the alerts in flight, and the disk all of them share.
-/

namespace DownloadWrapper

/-- A context of `g_tasks` with its thread, the worker; `finishedAt` is when that ended. -/
structure HttpContext where
  url : String
  worker : Worker
  finishedAt : Int := 0

/-- `g_tasks`, keyed by the URL. -/
abbrev Contexts := KeyedList HttpContext.url

/-- `nextTorrent` numbers the torrents the session is given. -/
structure World where
  store : Store := {}
  contexts : Contexts := .empty
  session : Session := []
  nextTorrent : Nat := 0
  alerts : List Alert := []
  fs : Fs := fun _ => none

namespace World

def running (w : World) (url : String) : Bool :=
  match w.contexts.find? url with
  | some c => c.worker.running
  | none => false

def runningCount (w : World) : Nat := w.contexts.count fun c => c.worker.running

end World

end DownloadWrapper
