import Consent.Action
import Consent.Command.Basic
import Consent.Command.Catalog
import Consent.Command.Flag
import Consent.Command.Help
import Consent.Command.Line
import Consent.Command.Run
import Consent.Command.Session
import Consent.Decision
import Consent.Dialog.Confirm
import Consent.Dialog.Prompt
import Consent.Failure
import Consent.File.Files
import Consent.File.Path
import Consent.History.Log
import Consent.History.Resolver
import Consent.History.Scripted
import Consent.History.Visit
import Consent.Host.IpAddress
import Consent.Host.PublicSuffix
import Consent.Host.Registrable
import Consent.Host.TypedAddress
import Consent.Legacy.Expand
import Consent.Legacy.HostTable
import Consent.Legacy.Row
import Consent.Log.Event
import Consent.Log.Level
import Consent.Log.Rotation
import Consent.Manage.Model
import Consent.Manage.Table
import Consent.Manage.View
import Consent.Origin.Attributes
import Consent.Origin.Basic
import Consent.Origin.Parser
import Consent.Permission.Record
import Consent.Permission.Registry
import Consent.Permission.State
import Consent.Request
import Consent.Screen.Block
import Consent.Screen.Color
import Consent.Screen.Grid
import Consent.Screen.Message
import Consent.Screen.Theme
import Consent.Settings.Basic
import Consent.Settings.Directories
import Consent.Settings.Document
import Consent.Settings.Layers
import Consent.Settings.Profile
import Consent.Settings.Validation
import Consent.Store.Database
import Consent.Store.Disk
import Consent.Store.Handle
import Consent.Store.Repository
import Consent.Store.Scripted
import Consent.Store.Table
import Consent.Text.Blank
import Consent.Text.Decimal
import Consent.Text.Distance
import Consent.Text.LetterCase
import Consent.Text.Numeral
import Consent.Text.Pieces
import Consent.Text.Printable
import Consent.Text.Quoted
import Consent.Text.Shortest
import Consent.Text.Split
import Consent.Text.Width
import Consent.Time.Duration
import Consent.Time.Duration.Reader
import Consent.Time.Instant
import Consent.Time.Instant.Reader
import Consent.Toml.Node
import Consent.Toml.Reader
import Consent.Toml.Scalar
import Consent.Toml.Sections
import Consent.Toml.Text
import Consent.Toml.Writer
import Consent.Uri.Authority
import Consent.Uri.Basic
import Consent.Uri.Escape
import Consent.Main
import Consent.Proofs.Action
import Consent.Proofs.Command.Start
import Consent.Proofs.Command.TimeLimit
import Consent.Proofs.Decision.Handles
import Consent.Proofs.Decision.Influence
import Consent.Proofs.Decision.Inheritance
import Consent.Proofs.Decision.Isolation
import Consent.Proofs.Decision.Lapse
import Consent.Proofs.Decision.Listing
import Consent.Proofs.Decision.Lookup
import Consent.Proofs.Decision.Migrated
import Consent.Proofs.Decision.Purge
import Consent.Proofs.Decision.Refusal
import Consent.Proofs.Decision.Removal
import Consent.Proofs.Decision.Sound
import Consent.Proofs.Decision.Standing
import Consent.Proofs.Decision.Stored
import Consent.Proofs.Decision.Use
import Consent.Proofs.Dialog.LateKeys
import Consent.Proofs.Except
import Consent.Proofs.Handle.FailedMigration
import Consent.Proofs.Handle.Lifecycle
import Consent.Proofs.Handle.Task
import Consent.Proofs.History.Addressable
import Consent.Proofs.History.Resolution
import Consent.Proofs.History.Resolver
import Consent.Proofs.History.UnderDomain
import Consent.Proofs.History.Visit
import Consent.Proofs.Host.Ancestors
import Consent.Proofs.Host.IpAddress
import Consent.Proofs.Host.Site
import Consent.Proofs.Host.TypedAddress
import Consent.Proofs.Legacy.AppId
import Consent.Proofs.Legacy.Context
import Consent.Proofs.Legacy.Expand
import Consent.Proofs.Legacy.Expansion
import Consent.Proofs.Legacy.Row
import Consent.Proofs.Legacy.Visited
import Consent.Proofs.Log.Backups
import Consent.Proofs.Log.Overflow
import Consent.Proofs.Log.Pruning
import Consent.Proofs.Log.Rotation
import Consent.Proofs.Log.Stamp
import Consent.Proofs.Manage.Editing
import Consent.Proofs.Manage.Selection
import Consent.Proofs.Origin.Attributes
import Consent.Proofs.Origin.FreeText
import Consent.Proofs.Origin.Key
import Consent.Proofs.Origin.NormalForm
import Consent.Proofs.Origin.RoundTrip
import Consent.Proofs.Origin.Spelling
import Consent.Proofs.Origin.Tail
import Consent.Proofs.Permission.Registry
import Consent.Proofs.Request
import Consent.Proofs.Settings.Document
import Consent.Proofs.Settings.Layers
import Consent.Proofs.Settings.RoundTrip
import Consent.Proofs.Settings.Saving
import Consent.Proofs.Settings.Variables
import Consent.Proofs.Store.Carried
import Consent.Proofs.Store.Handle
import Consent.Proofs.Store.Keyed
import Consent.Proofs.Store.Ledger
import Consent.Proofs.Store.Migration
import Consent.Proofs.Store.Opening
import Consent.Proofs.Store.Resumption
import Consent.Proofs.Store.Table
import Consent.Proofs.Store.Trace
import Consent.Proofs.Store.Unchanged
import Consent.Proofs.Store.Upkeep
import Consent.Proofs.Text.Blank
import Consent.Proofs.Text.LetterCase
import Consent.Proofs.Text.Numeral
import Consent.Proofs.Text.Order
import Consent.Proofs.Text.Split
import Consent.Proofs.Time.Calendar
import Consent.Proofs.Time.Millis
import Consent.Proofs.Toml.Reader
import Consent.Proofs.Toml.Sections
import Consent.Proofs.Toml.Sorting
import Consent.Proofs.Toml.Value
import Consent.Proofs.Uri.Bare
import Consent.Proofs.Uri.Escape
import Consent.Proofs.Uri.HostText
import Consent.Proofs.Uri.Userinfo
import Consent.Proofs.Uri.Written
