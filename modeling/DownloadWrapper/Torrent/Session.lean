import DownloadWrapper.Basic
import DownloadWrapper.Utils.FileSystem
import Mathlib.Data.Rat.Defs

/-!
# The BT session

libtorrent is not part of the program: its session is a list of torrents, each with what the engine
asks it for, and its notices are alerts in flight. What libtorrent decides by itself (metadata that
arrives, pieces that finish, errors) changes the one and posts the other.
-/

namespace DownloadWrapper

structure LayoutFile where
  path : String
  offset : Int
  size : Int
  pad : Bool := false
  deriving DecidableEq

/-- `lt::torrent_info`, as far as the engine reads it. -/
structure TorrentInfo where
  files : List LayoutFile
  pieceLength : Int
  numPieces : Nat
  deriving DecidableEq

/-- A torrent in the session, with the answers of its handle. The hashes are lower-case hex. -/
structure Torrent where
  id : Nat
  v1 : Option String := none
  v2 : Option String := none
  info : Option TorrentInfo := none
  savePath : String := ""
  filePriorities : List Int := []
  fileProgress : List Int := []
  pieceProgress : List Int := []
  pieces : List Bool := []
  trackers : List String := []
  uploadMode : Bool := true
  paused : Bool := false
  seeding : Bool := false
  totalDone : Int := 0
  allTimeUpload : Int := 0
  deriving DecidableEq

/-- `info_hash_hex` of the hashes: v2 before v1. -/
def hashHex (v1 v2 : Option String) : String := (v2.or v1).getD ""

def Torrent.hex (t : Torrent) : String := hashHex t.v1 t.v2

abbrev Session := List Torrent

/-- A handle is valid as long as its torrent is in the session. -/
def Session.torrent? (session : Session) (id : Nat) : Option Torrent :=
  session.find? (·.id = id)

/-- `info_hash_hex` of a handle: empty once the torrent is gone. -/
def Session.hexOf (session : Session) (id : Nat) : String :=
  match session.torrent? id with
  | some t => t.hex
  | none => ""

def Session.modify (session : Session) (id : Nat) (f : Torrent → Torrent) : Session :=
  session.map fun t => if t.id = id then f t else t

/-- `lt::aux::from_hex` for a hash of `n` digits. -/
def fromHex (n : Nat) (s : String) : Option String :=
  let digits := s.toList.map Char.toLower
  if digits.length = n ∧ digits.all fun c => c.isDigit || ('a' ≤ c && c ≤ 'f') then
    some (String.ofList digits)
  else none

/-- `find_torrent` of a 40-digit hash: the v1 hash, or the v2 hash cut to its length. -/
def Torrent.hasSha1 (hash : String) (t : Torrent) : Bool :=
  t.v1 = some hash || (t.v2.map fun v2 => String.ofList (v2.toList.take 40)) = some hash

/-- The session's torrent of an info hash, as `find_handle` looks for it. -/
def Session.lookup (session : Session) (infoHash : String) : Option Torrent :=
  ((fromHex 40 infoHash).bind fun h1 => session.find? (·.hasSha1 h1)).or <|
    ((fromHex 64 infoHash).bind fun h2 => session.find? fun t => t.v2 = some h2).or <|
      session.find? (·.hex = infoHash)

/-- The system errors `handle_task_error` knows. -/
inductive SystemError where
  | noSpaceOnDevice
  | permissionDenied
  | readOnlyFileSystem
  | noSuchFileOrDirectory
  | ioError
  | notEnoughMemory
  | timedOut
  | connectionRefused
  | connectionReset
  | connectionAborted
  | networkDown
  | networkUnreachable
  | hostUnreachable
  | notConnected
  | brokenPipe
  | resourceUnavailableTryAgain
  | interrupted
  deriving DecidableEq

inductive LibraryError where
  | noMemory
  | duplicateTorrent
  | fileCollision
  | fileTooShort
  | failedHashCheck
  | timedOut
  | timedOutOther
  | invalidTorrent
  | invalidLink
  | other (code : Nat)
  deriving DecidableEq

inductive ErrorCode where
  | system (error : SystemError)
  | library (error : LibraryError)
  | other
  deriving DecidableEq

structure TorrentStatus where
  id : Nat
  error : Option ErrorCode := none
  totalWanted : Int := 0
  totalWantedDone : Int := 0
  downloadPayloadRate : ℚ := 0
  uploadPayloadRate : ℚ := 0
  deriving DecidableEq

/-- The alerts `handle_alert` acts on; the rest it only logs. A handle is the torrent's id. -/
inductive Alert where
  | stateUpdate (statuses : List TorrentStatus)
  | torrentFinished (id : Nat)
  /-- `infoHash` and `magnet` are those of the alert's own parameters. -/
  | addTorrent (id : Nat) (infoHash : String) (magnet : String) (error : Option ErrorCode)
  | metadataReceived (id : Nat)
  | pieceFinished (id : Nat) (piece : Nat)
  | fileCompleted (id : Nat) (fileIndex : Int)
  | torrentError (id : Nat) (error : Option ErrorCode)
  | fileError (id : Nat) (error : Option ErrorCode)
  | torrentConflict (id : Nat)
  | storageMovedFailed (id : Nat) (error : Option ErrorCode)
  | saveResumeData (id : Nat) (data : List Byte)
  | storageMoved (id : Nat)
  | logged
  deriving DecidableEq

end DownloadWrapper
