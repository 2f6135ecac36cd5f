import GradedAccess.Attribute.Kind
import GradedAccess.Id
import GradedAccess.Invalidation
import GradedAccess.Text.Numeral
import GradedAccess.Time

/-!
# Faults

Everything that can go wrong is a constructor of `Fault` that holds what the wording needs and
nothing more.  A fault has a `kind`, which tells a caller how to react, and a `message`.  Only an
unavailable dependency is transient: all other kinds fail again when tried again.

Some faults pass on what a client library of a database, a stream server or a JSON reader said.
That text is the library's and is no part of the fault; the message ends where it would begin.

A store or a bus that this library knows nothing about reports its own faults, with a kind and a
text of its own; they are `reported`.

A fault does not undo anything.  `InPlace` is work on a state that keeps whatever it has done by the
time it is broken off, so that nothing has been done by then is always something to be proved.
-/

namespace GradedAccess

/-- How a caller should understand a fault. -/
inductive FaultKind where
  | validation
  | notFound
  | conflict
  | unavailable
  | internal
  deriving DecidableEq, Repr

namespace FaultKind

/-- All kinds of fault. -/
def all : List FaultKind := [.validation, .notFound, .conflict, .unavailable, .internal]

/-- The name of a kind of fault. -/
def name : FaultKind → String
  | .validation => "Validation"
  | .notFound => "NotFound"
  | .conflict => "Conflict"
  | .unavailable => "Unavailable"
  | .internal => "Internal"

/-- The kind of fault of a name. -/
def ofName? (name : String) : Option FaultKind := all.find? (·.name == name)

/-- What a shown fault of this kind begins with. -/
def label : FaultKind → String
  | .validation => "validation error: "
  | .notFound => "not found: "
  | .conflict => "conflict: "
  | .unavailable => "unavailable: "
  | .internal => "internal error: "

end FaultKind

/-- A rule that the settings of a process break. -/
inductive SettingsFault where
  | missing (name : String)
  | notNumeral (name value : String) (reason : NumeralFault)
  | noConnections
  | noSweepInterval
  | noReloadTimeout
  | retryRange
  | blockRange
  deriving DecidableEq

/-- The wording of a broken rule. -/
def SettingsFault.message : SettingsFault → String
  | .missing name => name ++ " is required"
  | .notNumeral name value reason =>
    "invalid " ++ name ++ " value '" ++ value ++ "': " ++ reason.message
  | .noConnections => "PERMS_DATABASE_MAX_CONNECTIONS must be greater than zero"
  | .noSweepInterval => "PERMS_DECISION_CACHE_SWEEP_SECONDS must be greater than zero"
  | .noReloadTimeout => "PERMS_RELOAD_TIMEOUT_MS must be greater than zero"
  | .retryRange =>
    "PERMS_LISTENER_RETRY_MIN_MS must be positive and not exceed PERMS_LISTENER_RETRY_MAX_MS"
  | .blockRange => "PERMS_BUS_BLOCK_MS must be positive and below PERMS_BUS_READ_TIMEOUT_MS"

/-- A call on the stream server that failed. -/
inductive StreamCall where
  | connect
  | createGroup (group key : String)
  | read
  | acknowledge (entry key : String)
  | publish (key : String)
  deriving DecidableEq

/-- The wording of a failed call, up to what the client library says about it. -/
def StreamCall.message : StreamCall → String
  | .connect => "failed to connect to redis: "
  | .createGroup group key =>
    "failed to create consumer group '" ++ group ++ "' on '" ++ key ++ "': "
  | .read => "failed to read invalidation streams: "
  | .acknowledge entry key => "failed to acknowledge '" ++ entry ++ "' on '" ++ key ++ "': "
  | .publish key => "failed to publish to '" ++ key ++ "': "

/-- Everything that can go wrong. -/
inductive Fault where
  /-- A permission whose category and name hold no letter and no digit. -/
  | guardless (category name : String)
  /-- An attribute with a blank key. -/
  | keyless (attr : AttributeId) (permission : PermissionId)
  /-- A value of another kind than its attribute. -/
  | kindMismatch (found expected : AttributeKind)
  /-- A stored kind that is none. -/
  | unknownKind (name : String)
  /-- A subject that is none. -/
  | unknownSubject (name : String)
  /-- A declared attribute whose valid values are of another kind. -/
  | declaredMismatch (key guard : String) (found expected : AttributeKind)
  /-- A key that one declaration uses for two attributes. -/
  | declaredKeyTwice (key guard : String)
  /-- A guard that two declarations share. -/
  | declaredTwice (guard : String)
  /-- A number too large for a signed column of the database. -/
  | idTooLarge (column : String) (value : UInt64)
  /-- A message that is not of its subject's form. -/
  | malformedPayload (subject : Subject)
  /-- A message that names a blank job. -/
  | blankJob (subject : Subject)
  /-- Waiting for new entries would not wait at all. -/
  | noBlockTime
  /-- A read would be given up before waiting for new entries ends. -/
  | shortReadTimeout (readTimeout block : Duration)
  /-- Settings of a process that cannot be used. -/
  | settings (fault : SettingsFault)
  /-- A second role for the same grade of a job. -/
  | roleTaken (job : String) (grade : Int32)
  /-- A second permission with the same guard. -/
  | permissionTaken (guard : String)
  /-- A second attribute of a permission with the same key. -/
  | attributeTaken (key : String) (permission : PermissionId)
  /-- No role has this number. -/
  | noRole (role : RoleId)
  /-- No permission has this number. -/
  | noPermission (permission : PermissionId)
  /-- No attribute has this number. -/
  | noAttribute (attr : AttributeId)
  /-- No listed attribute has this number. -/
  | notListed (attr : AttributeId)
  /-- The store gave no answer in time. -/
  | timedOut (loading : String) (limit : Duration)
  /-- The database could not be asked to do something. -/
  | databaseOffline (action : String)
  /-- A call on the stream server failed. -/
  | streamCall (call : StreamCall)
  /-- A stored number that no row can have. -/
  | negativeId (column : String) (value : Int)
  /-- A stored value that has not the form of an attribute value. -/
  | undecodable (context : String)
  /-- A fault reported by a store or a bus in its own words. -/
  | reported (kind : FaultKind) (text : String)
  deriving DecidableEq

namespace Fault

/-- How a caller should understand a fault. -/
def kind : Fault → FaultKind
  | guardless .. | keyless .. | kindMismatch .. | unknownKind .. | unknownSubject ..
  | declaredMismatch .. | idTooLarge .. | malformedPayload .. | blankJob .. | noBlockTime
  | shortReadTimeout .. | settings .. => .validation
  | declaredKeyTwice .. | declaredTwice .. | roleTaken .. | permissionTaken ..
  | attributeTaken .. => .conflict
  | noRole .. | noPermission .. | noAttribute .. | notListed .. => .notFound
  | timedOut .. | databaseOffline .. | streamCall .. => .unavailable
  | negativeId .. | undecodable .. => .internal
  | reported kind _ => kind

/-- What a fault says. -/
def message : Fault → String
  | guardless category name =>
    "permission '" ++ category ++ "/" ++ name ++ "' does not produce a guard name"
  | keyless attr permission =>
    "attribute '" ++ toString attr ++ "' of permission '" ++ toString permission
      ++ "' must have a key"
  | kindMismatch found expected =>
    "attribute value of type '" ++ found.name ++ "' does not match attribute type '"
      ++ expected.name ++ "'"
  | unknownKind name => "unknown attribute type '" ++ name ++ "'"
  | unknownSubject name => "unknown invalidation subject '" ++ name ++ "'"
  | declaredMismatch key guard found expected =>
    "attribute '" ++ key ++ "' of permission '" ++ guard ++ "' declares valid values of type '"
      ++ found.name ++ "' for type '" ++ expected.name ++ "'"
  | declaredKeyTwice key guard =>
    "attribute '" ++ key ++ "' is declared twice for permission '" ++ guard ++ "'"
  | declaredTwice guard => "permission '" ++ guard ++ "' is declared twice"
  | idTooLarge column value => column ++ " '" ++ toString value ++ "' is out of range"
  | malformedPayload subject => "invalid payload on '" ++ subject.name ++ "': "
  | blankJob subject => "invalid payload on '" ++ subject.name ++ "': job must not be empty"
  | noBlockTime => "invalidation bus block duration must be greater than zero"
  | shortReadTimeout readTimeout block =>
    "invalidation bus read timeout (" ++ toString readTimeout.millis
      ++ "ms) must exceed the block duration (" ++ toString block.millis ++ "ms)"
  | settings fault => fault.message
  | roleTaken job grade =>
    "role for job '" ++ job ++ "' grade '" ++ toString grade ++ "' already exists"
  | permissionTaken guard => "permission '" ++ guard ++ "' already exists"
  | attributeTaken key permission =>
    "attribute '" ++ key ++ "' already exists for permission '" ++ toString permission ++ "'"
  | noRole role => "role '" ++ toString role ++ "' does not exist"
  | noPermission permission => "permission '" ++ toString permission ++ "' does not exist"
  | noAttribute attr => "attribute '" ++ toString attr ++ "' does not exist"
  | notListed attr => "attribute '" ++ toString attr ++ "'"
  | timedOut loading limit =>
    "loading " ++ loading ++ " timed out after " ++ toString limit.millis ++ "ms"
  | databaseOffline action => "failed to " ++ action ++ ": "
  | streamCall call => call.message
  | negativeId column value =>
    "negative " ++ column ++ " '" ++ toString value ++ "' in permission store"
  | undecodable context => "failed to decode " ++ context ++ ": "
  | reported _ text => text

/-- A fault as it is shown: what kind it is and what it says. -/
def display (fault : Fault) : String := fault.kind.label ++ fault.message

/-- Whether trying again later can succeed. -/
def isTransient (fault : Fault) : Bool := fault.kind == .unavailable

end Fault

/-! ## Work that a fault breaks off -/

/-- Work on a state.  A fault breaks it off, and what has been done to the state by then stays
done. -/
abbrev InPlace (σ : Type) := ExceptT Fault (StateM σ)

/-- Work on a state may look at it. -/
theorem InPlace.get_bind {σ β : Type} (next : σ → InPlace σ β) (state : σ) :
    ((get : InPlace σ σ) >>= next) state = next state state := rfl

/-- A test that does not look at the state.  Work goes on where it passes and stops where it fails,
and the state is the same either way. -/
theorem InPlace.test_bind {σ α β : Type} (test : Except Fault α) (next : α → InPlace σ β)
    (state : σ) :
    ((liftM test : InPlace σ α) >>= next) state =
      match test with
      | .ok a => next a state
      | .error fault => (.error fault, state) := by
  cases test <;> rfl

end GradedAccess
