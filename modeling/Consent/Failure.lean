import Consent.History.Visit
import Consent.Legacy.Row
import Consent.Settings.Validation
import Consent.Time.Instant.Reader

/-! Everything that can go wrong while decisions and settings are read and written. -/

namespace Consent

open Text

inductive Activity where
  | set (kind : Kind) (origin : String)
  | lookUp (kind : Kind) (origin : String)
  | list (origin : String)
  | purge
  | connect
  | createDirectory
  | dropSession
  | runMigrations (schema : String)
  | checkPending
  | edit (origin : String) (kind : Kind)
  | createDefaultSettings (directory : String)
  | createSettingsDirectory
  | createLogDirectory
  | create (directory : String)
  | loadSettings
  | openHistory
  | start
  /-- Anything that concerns one address. -/
  | atAddress (address : String)
  deriving DecidableEq, Repr

def Activity.message : Activity → String
  | .set kind origin => "failed to set " ++ kind ++ " for " ++ origin
  | .lookUp kind origin => "failed to look up " ++ kind ++ " for " ++ origin
  | .list origin => "failed to list permissions for " ++ origin
  | .purge => "failed to purge expired permissions"
  | .connect => "database initialization failed"
  | .createDirectory => "failed to create database directory"
  | .dropSession => "failed to drop session permissions"
  | .runMigrations schema => "failed to run " ++ schema ++ " migrations"
  | .checkPending => "failed to check pending migrations"
  | .edit origin kind => "cannot change " ++ origin ++ " " ++ kind
  | .createDefaultSettings directory => "failed to create default config at " ++ directory
  | .createSettingsDirectory => "failed to create config directory"
  | .createLogDirectory => "failed to create log directory"
  | .create directory => "failed to create " ++ directory
  | .loadSettings => "load config"
  | .openHistory => "open history database"
  | .start => "initialize app"
  | .atAddress address => address

/-- What may help, said after the cause. -/
def Activity.advice : Activity → String
  | .createDefaultSettings _ => "\nTry creating the directory manually or check permissions"
  | _ => ""

inductive Failure where
  /-- The registry does not list the decision for the kind. -/
  | unavailable (kind : Kind) (state : State)
  | stateName (text : String)
  | registry (error : RegistryError)
  | origin (error : OriginError)
  | visit (error : VisitError)
  | row (error : Legacy.RowError)
  | notFuture (expireAt : Instant)
  | missingRecord
  | closed
  | noTerminal
  | dismissed
  | emptyDatabasePath
  | emptyLogDirectory
  /-- A regular file stands where a directory is needed. -/
  | notDirectory (path : String)
  /-- The database cannot do what it is asked. -/
  | storage
  /-- The table of schema versions has no row. -/
  | noFirstVersion
  /-- Schema versions below the newest recorded one are not recorded. -/
  | outOfOrder (missing : List Int) (newest : Int)
  | missingSettings
  | invalidSettings (faults : List Settings.Fault)
  /-- The settings file is no document. -/
  | unreadableSettings (path : String)
  /-- A setting holds a value that cannot be used. -/
  | unusableSettings (path : String)
  | visitTime (error : TimestampError)
  /-- Some flags of a group were given of which only one may be. -/
  | exclusive (group given : List String)
  /-- Deleting everything was neither confirmed nor forced. -/
  | unconfirmed
  /-- The settings file at a path would be overwritten without force. -/
  | overwrites (path : String)
  | notInteractive
  /-- Something outside reports a failure in its own words. -/
  | reported (text : String)
  | during (activity : Activity) (cause : Failure)
  deriving DecidableEq, Repr

namespace Failure

/-- The wording on schema versions that are not recorded below the newest one. -/
def outOfOrderMessage (missing : List Int) (newest : Int) : String :=
  let plural := if 1 < missing.length then "s" else ""
  "detected " ++ decimal missing.length ++ " missing (out-of-order) migration" ++ plural
    ++ " lower than database version (" ++ decimal newest ++ "): version" ++ plural ++ " "
    ++ ",".intercalate (missing.map decimal)

def message : Failure → String
  | .unavailable kind state =>
    "invalid permission state " ++ state.name ++ " for " ++ quoteString kind
  | .stateName text => "invalid permission state: unknown state name " ++ quoteString text
  | .registry e => e.message
  | .origin e => e.message
  | .visit e => e.message
  | .row e => e.message
  | .notFuture t => "expiry " ++ t.timestamp ++ " is not in the future"
  | .missingRecord => "cannot set nil permission record"
  | .closed => "permission store is closed"
  | .noTerminal => "permission prompt needs an interactive terminal"
  | .dismissed => "permission prompt dismissed"
  | .emptyDatabasePath => "database path cannot be empty"
  | .emptyLogDirectory => "log directory cannot be empty"
  | .notDirectory path => "mkdir " ++ path ++ ": not a directory"
  | .storage => "sqlite3: the database cannot do this"
  | .noFirstVersion => "missing zero version migration"
  | .outOfOrder missing newest => outOfOrderMessage missing newest
  | .missingSettings => "config is nil"
  | .invalidSettings faults => Settings.faultsMessage faults
  | .unreadableSettings path =>
    "failed to read config file at " ++ path
      ++ "\nCheck the file format (must be valid TOML) and permissions"
  | .unusableSettings path =>
    "failed to parse config file at " ++ path
      ++ "\nCheck for syntax errors, invalid values, or type mismatches"
  | .visitTime e => "invalid --at: " ++ e.message
  | .exclusive group given =>
    "if any flags in the group [" ++ " ".intercalate group
      ++ "] are set none of the others can be; [" ++ " ".intercalate given ++ "] were all set"
  | .unconfirmed => "refusing to clear without a terminal; use --force"
  | .overwrites path => "this overwrites " ++ path ++ "; rerun with --force"
  | .notInteractive => "manage needs an interactive terminal; use \"all\" instead"
  | .reported text => text
  | .during activity cause => activity.message ++ ": " ++ cause.message ++ activity.advice

def root : Failure → Failure
  | .during _ cause => cause.root
  | f => f

end Failure

end Consent
