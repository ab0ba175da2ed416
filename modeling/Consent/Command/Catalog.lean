import Consent.Command.Basic

/-! All commands, ascending by their words. -/

namespace Consent.Command

def root : Command where
  path := []
  summary := "Inspect and edit per-site browser permissions"
  details := "permstore manages the per-site permission decisions of a browser profile.

Decisions are stored per origin (scheme, host, port) and permission kind.
Kinds such as camera or geolocation apply only to the exact origin; others
such as cookie or popup are inherited by subdomains up to the registrable
domain.

Legacy host-keyed databases are upgraded on first use, using browsing
history to decide which schemes and ports each host was reached under."

def setCommand : Command where
  path := ["set"]
  operands := "<uri> <kind> <state>"
  summary := "Store a permission decision for an origin"
  details := "Store a permission decision for the origin of <uri>.

<state> is a state name (allow, block, prompt, allow-session-cookies, unknown)
or its numeric code. Setting \"unknown\" removes the decision.

Examples:
  permstore set https://example.com camera allow
  permstore set https://example.com popup block --session
  permstore set https://example.com geo allow --expire 1h"
  arity := .exactly 3
  flags := [
    { name := "expire", type := .duration, purpose := "expire the decision after this duration" },
    { name := "persistent", type := .truth, purpose := "keep the decision across sessions" },
    { name := "session", type := .truth,
      purpose := "drop the decision when the store is reopened" }]
  exclusive := ["session", "persistent", "expire"]
  task := some fun ws => .set (ws.operand 0) (ws.operand 1) (ws.operand 2) {
    session := ws.given.truth "session"
    persistent := ws.given.truth "persistent"
    expire := ws.given.duration "expire" }

def decisionCommands : List Command := [
  { path := ["all"]
    summary := "List every stored decision"
    flags := [{ name := "kind", purpose := "only show this permission kind" }]
    task := some fun ws => .all (ws.given.text "kind") },
  { path := ["clear"]
    summary := "Remove every stored decision"
    details := "Remove every stored decision.

Asks for confirmation unless --force is given. Without a terminal, --force
is required."
    flags := [forceFlag "do not ask for confirmation"]
    task := some fun ws => .clear (ws.given.truth "force") },
  { path := ["get"]
    operands := "<uri> <kind>"
    summary := "Show the decision that applies to an origin"
    details := "Show the decision that applies to the origin of <uri> for <kind>.

Kinds that are not exact-origin fall back to the nearest parent host up to
the registrable domain."
    arity := .exactly 2
    task := some fun ws => .get (ws.operand 0) (ws.operand 1) },
  { path := ["kinds"]
    summary := "List the permission kinds"
    task := some fun _ => .kinds },
  { path := ["list"]
    operands := "<uri>..."
    summary := "List the decisions stored for one or more origins"
    details := "List the decisions stored at exactly the origin of each <uri>, in the
order they were first set. Decisions inherited from parent domains are not
listed; use \"get\" to resolve one."
    arity := .atLeast 1
    task := some fun ws => .list ws.operands },
  { path := ["manage"]
    summary := "Browse and edit stored decisions interactively"
    task := some fun _ => .manage },
  { path := ["purge-expired"]
    summary := "Delete time-limited decisions that have lapsed"
    task := some fun _ => .purgeExpired },
  { path := ["remove"]
    aliases := ["rm"]
    operands := "<uri> <kind>"
    summary := "Remove the decision stored at exactly an origin"
    arity := .exactly 2
    task := some fun ws => .remove (ws.operand 0) (ws.operand 1) },
  { path := ["request"]
    operands := "<uri> <kind>"
    summary := "Resolve a permission request as a browser would"
    details := "Resolve a site's permission request.

A stored allow or block decision, including one inherited from a parent
domain, answers immediately. Otherwise a prompt asks for a decision:
\"always\"/\"never\" answers are stored persistently, one-off answers for the
session. Without a terminal, or with --no-prompt, the request is blocked."
    arity := .exactly 2
    flags := [{ name := "no-prompt", type := .truth,
                purpose := "block instead of prompting when undecided" }]
    task := some fun ws => .request (ws.operand 0) (ws.operand 1) (ws.given.truth "no-prompt") },
  setCommand,
  { path := ["states"]
    operands := "<kind>"
    summary := "List the states a permission kind accepts"
    arity := .exactly 1
    task := some fun ws => .states (ws.operand 0) }]

def limitFlag : Flag where
  name := "limit"
  letter := some 'n'
  type := .number
  purpose := "maximum visits to list (0 for all)"
  otherwise := 20

def fileCommands : List Command := [
  { path := ["config"]
    summary := "Show or reset the configuration" },
  { path := ["config", "path"]
    summary := "Print the config file path"
    task := some fun _ => .settingsPath },
  { path := ["config", "reset"]
    summary := "Overwrite the config file with the defaults"
    flags := [forceFlag "overwrite without asking"]
    task := some fun ws => .resetSettings (ws.given.truth "force") },
  { path := ["config", "show"]
    summary := "Print the effective configuration as TOML"
    task := some fun _ => .showSettings },
  { path := ["history"]
    summary := "List recorded visits, most recent first"
    flags := [limitFlag]
    task := some fun ws => .history (ws.given.number limitFlag.name limitFlag.otherwise) },
  { path := ["migrate"]
    summary := "Upgrade the permission database and report its tables"
    details := "Apply pending schema migrations, including the upgrade of legacy
host-keyed permissions (moz_hosts) to origin-keyed ones (moz_perms).

With --status, only report the migration state."
    flags := [{ name := "status", type := .truth,
                purpose := "report the state without migrating" }]
    task := some fun ws => .migrate (ws.given.truth "status") },
  { path := ["visit"]
    operands := "<url>..."
    summary := "Record history visits"
    details := "Record visits in the history database.

History tells the legacy migration which schemes and ports a host was
reached under, so visits should be recorded before migrating."
    arity := .atLeast 1
    flags := [{ name := "at", purpose := "visit time (RFC 3339, default now)" }]
    task := some fun ws => .visit (ws.given.text "at") ws.operands }]

def programCommands : List Command := [
  { path := ["completion"]
    summary := "Generate the autocompletion script for the specified shell" },
  { path := ["help"]
    operands := "[command]"
    summary := "Help about any command"
    arity := .atLeast 0
    task := some fun ws => .help ws.operands },
  { path := ["version"]
    summary := "Print version information"
    task := some fun _ => .version }]

/-- All commands but the program itself, ascending by name. -/
def catalog : List Command :=
  (decisionCommands ++ fileCommands ++ programCommands).mergeSort fun a b => !(b.name < a.name)

def children (c : Command) : List Command :=
  catalog.filter fun d => !d.path.isEmpty && d.path.dropLast = c.path

end Consent.Command
