import Consent.Failure
import Consent.File.Files
import Consent.Time.Duration

/-! Log files of limited size: a full one is put aside under a name with the time, and old ones are
deleted. -/

namespace Consent.Log

open Text

structure LogFile where
  name : String
  /-- What was written; a compressed file holds it in a shorter form. -/
  content : List UInt8
  modified : Instant
  compressed : Bool := false
  isDirectory : Bool := false
  deriving DecidableEq, Repr

/-- How log files are kept. Numbers that are not positive set no limit. -/
structure Limits where
  baseName : String := "permstore.log"
  maxSizeMb : Int := 0
  maxBackups : Int := 0
  maxAgeDays : Int := 0
  compress : Bool := false
  deriving DecidableEq, Repr

namespace Limits

/-- The largest size in bytes, as a number of 64 bits. -/
def maxSize (l : Limits) : Int := (l.maxSizeMb * 1048576).bmod Text.limit64

/-- The greatest age in nanoseconds, as a number of 64 bits. -/
def maxAge (l : Limits) : Int := (l.maxAgeDays * 86400000000000).bmod Text.limit64

def isBackup (l : Limits) (f : LogFile) : Bool :=
  !f.isDirectory && (l.baseName ++ ".").toList.isPrefixOf f.name.toList

def isOutdated (l : Limits) (now : Instant) (f : LogFile) : Bool :=
  0 < l.maxAge && l.maxAge < (Duration.between f.modified now).nanos

end Limits

/-- The part of a name that tells by the local clock when a file was put aside. -/
def stamp (zone : Zone) (t : Instant) : String :=
  let shown := t.inZone zone
  let seconds := shown.millis / 1000
  let (y, m, d) := Instant.civil (seconds / 86400)
  let s := seconds % 86400
  .ofList (joinWith '-' [Instant.padded 4 y, Instant.padded 2 m, Instant.padded 2 d,
    Instant.padded 2 (s / 3600), Instant.padded 2 (s / 60 % 60), Instant.padded 2 (s % 60)]
    ++ '.' :: Instant.padded 3 (shown.millis % 1000))

/-- A log that is written to: the files of its directory, and the size of the current file while it
is open. -/
structure Rotator where
  limits : Limits
  files : List LogFile := []
  size : Option Nat := none
  deriving DecidableEq, Repr

namespace Rotator

def current? (r : Rotator) : Option LogFile := r.files.find? (·.name = r.limits.baseName)

def reopen (now : Instant) (r : Rotator) : Rotator :=
  match r.current? with
  | some f => { r with size := some f.content.length }
  | none =>
    { r with files := r.files ++ [⟨r.limits.baseName, [], now, false, false⟩], size := some 0 }

/-- The oldest first; equally old ones by their names. -/
def byAge (files : List LogFile) : List LogFile :=
  (files.mergeSort fun a b => !(b.name < a.name)).mergeSort fun a b => a.modified ≤ b.modified

/-- Deletes the backups that are too old, then the oldest of those that are too many. -/
def prune (now : Instant) (r : Rotator) : Rotator :=
  let files := r.files.filter fun f => !(r.limits.isBackup f && r.limits.isOutdated now f)
  let backups := files.filter r.limits.isBackup
  let excess := backups.length - r.limits.maxBackups.toNat
  if 0 < r.limits.maxBackups && 0 < excess then
    let oldest := (byAge backups).take excess
    { r with files := files.filter fun f => !(oldest.any (·.name = f.name)) }
  else { r with files }

/-- Gives a file another name, in the place of a file that had it. -/
def rename (old new : String) (files : List LogFile) : List LogFile :=
  (files.filter (·.name ≠ new)).map fun f => if f.name = old then { f with name := new } else f

/-- Compresses a file into one with a longer name. -/
def compressFile (now : Instant) (name : String) (files : List LogFile) : List LogFile :=
  let packed := name ++ ".gz"
  (files.filter (·.name ≠ packed)).map fun f =>
    if f.name = name then ⟨packed, f.content, now, true, false⟩ else f

def rotate (zone : Zone) (now : Instant) (r : Rotator) : Rotator :=
  let aside := r.limits.baseName ++ "." ++ stamp zone now
  let files := rename r.limits.baseName aside r.files
  let files := if r.limits.compress then compressFile now aside files else files
  (prune now { r with files }).reopen now

def isFull (r : Rotator) (size count : Nat) : Bool :=
  0 < r.limits.maxSize && 0 < size && r.limits.maxSize < size + count

def append (now : Instant) (bytes : List UInt8) (r : Rotator) : Rotator where
  limits := r.limits
  files := r.files.map fun f =>
    if f.name = r.limits.baseName && !bytes.isEmpty then
      { f with content := f.content ++ bytes, modified := now }
    else f
  size := r.size.map (· + bytes.length)

/-- Writes to the log. A closed log is opened again. -/
def write (zone : Zone) (now : Instant) (bytes : List UInt8) (r : Rotator) : Rotator :=
  let r := if r.size.isNone then r.reopen now else r
  let r := if r.isFull (r.size.getD 0) bytes.length then r.rotate zone now else r
  r.append now bytes

def close (r : Rotator) : Rotator := { r with size := none }

def start (now : Instant) (dir : String) (disk : Files) (limits : Limits) (files : List LogFile) :
    Except Failure Rotator :=
  if dir = "" then .error .emptyLogDirectory
  else
    match disk.obstacle? dir with
    | some file => .error (.during .createLogDirectory (.notDirectory file))
    | none =>
      let limits := if limits.baseName = "" then { limits with baseName := "permstore.log" }
        else limits
      .ok (reopen now ⟨limits, files, none⟩)

end Rotator

end Consent.Log
