import GradedAccess.Stream.Settings
import GradedAccess.Text.Blank

/-!
# Configuration

A process takes its configuration from environment variables.  Two of them have to be set; every
other one has a default.  Numbers are read before any rule about them is checked, in the order in
which `load` names them, so a malformed number is always reported before a broken rule.

Names are taken without the white space around them, and a name of white space only counts as not
set.  The default name of a consumer is different for every process, so it is an argument.
-/

namespace GradedAccess

/-- The variables a process starts with. -/
abbrev Environment := String → Option String

/-- The configuration of a process. -/
structure Config where
  databaseUrl : String
  streamUrl : String
  maxConnections : Nat
  sweepInterval : Duration
  decisionLifetime : Duration
  reloadTimeout : Duration
  retryMin : Duration
  retryMax : Duration
  stream : StreamSettings
  deriving DecidableEq

namespace Config

/-- The value of a variable that has to be set. -/
def required (env : Environment) (name : String) : Except Fault String :=
  match env name with
  | some value => .ok value
  | none => .error (.settings (.missing name))

/-- The number below `bound` in a variable, or the default if it is not set. -/
def numeral (env : Environment) (bound : Nat) (name : String) (default : Nat) :
    Except Fault Nat :=
  match env name with
  | none => .ok default
  | some value =>
    match readNumeral bound value with
    | .ok n => .ok n
    | .error reason => .error (.settings (.notNumeral name value reason))

/-- The name in a variable, if there is one. -/
def name? (env : Environment) (name : String) : Option String :=
  ((env name).map trimmed).filter (!·.isEmpty)

/-- Refuses configurations that break a rule. -/
def ensure (rule : Bool) (fault : SettingsFault) : Except Fault Unit :=
  if rule then .ok () else .error (.settings fault)

/-- The configuration an environment holds. -/
def load (env : Environment) (processName : String) : Except Fault Config := do
  let databaseUrl ← required env "DATABASE_URL"
  let streamUrl ← required env "REDIS_URL"
  let maxConnections ← numeral env UInt32.size "PERMS_DATABASE_MAX_CONNECTIONS" 5
  let lifetime ← numeral env UInt64.size "PERMS_DECISION_CACHE_TTL_SECONDS" 300
  let sweep ← numeral env UInt64.size "PERMS_DECISION_CACHE_SWEEP_SECONDS" 60
  let reload ← numeral env UInt64.size "PERMS_RELOAD_TIMEOUT_MS" 5000
  let retryMin ← numeral env UInt64.size "PERMS_LISTENER_RETRY_MIN_MS" 500
  let retryMax ← numeral env UInt64.size "PERMS_LISTENER_RETRY_MAX_MS" 30000
  let block ← numeral env UInt64.size "PERMS_BUS_BLOCK_MS" 5000
  let readTimeout ← numeral env UInt64.size "PERMS_BUS_READ_TIMEOUT_MS" 10000
  ensure (0 < maxConnections) .noConnections
  ensure (0 < sweep) .noSweepInterval
  ensure (0 < reload) .noReloadTimeout
  ensure (0 < retryMin && retryMin ≤ retryMax) .retryRange
  ensure (0 < block && block < readTimeout) .blockRange
  pure {
    databaseUrl
    streamUrl
    maxConnections
    sweepInterval := .ofSeconds sweep
    decisionLifetime := .ofSeconds lifetime
    reloadTimeout := .ofMillis reload
    retryMin := .ofMillis retryMin
    retryMax := .ofMillis retryMax
    stream := {
      keyStart := (name? env "PERMS_BUS_STREAM_PREFIX").getD ""
      group := (name? env "PERMS_BUS_CONSUMER_GROUP").getD "rankguard"
      consumer := (name? env "PERMS_BUS_CONSUMER_NAME").getD processName
      block := .ofMillis block
      readTimeout := .ofMillis readTimeout } }

end Config

end GradedAccess
