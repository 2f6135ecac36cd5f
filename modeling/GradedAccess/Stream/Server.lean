import GradedAccess.Fault

/-!
# The stream server

What the bus says to a stream server, and what it hears.  A `Command` is one of the four the bus
uses.  A `Reply` is whatever comes back, which need not fit the command: a reply of the wrong shape
is a failure like an error or a lost connection, and the functions that read replies say which
shape fits.

An entry of a stream is a list of fields.  Of a field that is repeated the last one counts, and
text that is not UTF-8 is no text.

`Server` is all the bus assumes: a connection may be opened, and a command on it gets a reply.
Whoever reasons about the bus for *every* server quantifies over this structure.
-/

namespace GradedAccess

/-- A command to the stream server. -/
inductive Command where
  /-- Create a consumer group that starts behind the last entry, and the stream if need be. -/
  | createGroup (key group : String)
  /-- Read entries of several streams for a consumer of a group: its own pending ones, or new ones,
  for which it may wait some milliseconds. -/
  | read (group consumer : String) (count : Nat) (fresh : Bool) (block : Option Nat)
      (keys : List String)
  /-- Take an entry off the pending ones of a group. -/
  | acknowledge (key group entry : String)
  /-- Append an entry to a stream of limited length. -/
  | append (key : String) (maxLength : Nat) (field payload : String)
  deriving DecidableEq, Repr

/-- The words of a command. -/
def Command.words : Command → List String
  | createGroup key group => ["XGROUP", "CREATE", key, group, "$", "MKSTREAM"]
  | read group consumer count fresh block keys =>
    ["XREADGROUP", "GROUP", group, consumer]
      ++ (match block with
        | some ms => ["BLOCK", toString ms]
        | none => [])
      ++ ["COUNT", toString count, "STREAMS"] ++ keys
      ++ keys.map fun _ => if fresh then ">" else "0"
  | acknowledge key group entry => ["XACK", key, group, entry]
  | append key maxLength field payload =>
    ["XADD", key, "MAXLEN", "~", toString maxLength, "*", field, payload]

/-- An entry of a stream. -/
structure StreamEntry where
  id : String
  fields : List (String × Option String)
  deriving DecidableEq, Repr

/-- The text of a field of an entry. -/
def StreamEntry.text? (entry : StreamEntry) (field : String) : Option String :=
  (entry.fields.reverse.find? (·.1 == field)).bind (·.2)

/-- Entries of one stream. -/
structure StreamBatch where
  key : String
  entries : List StreamEntry
  deriving DecidableEq, Repr

/-- What comes back for a command. -/
inductive Reply where
  | done
  | nothing
  | number (value : Int)
  | text (value : String)
  | batches (batches : List StreamBatch)
  /-- An error, with its code. -/
  | error (code : String)
  /-- The connection was closed, or no reply came in time. -/
  | lost
  deriving DecidableEq, Repr

namespace Reply

/-- Whether a consumer group is there: it has been created, or was there before. -/
def isGroupReady : Reply → Bool
  | done => true
  | error code => code == "BUSYGROUP"
  | _ => false

/-- The batches of a read, none if there was nothing to read. -/
def batches? : Reply → Option (List StreamBatch)
  | batches found => some found
  | nothing => some []
  | _ => none

/-- Whether an entry has been acknowledged. -/
def isAcknowledged : Reply → Bool
  | number _ => true
  | _ => false

/-- Whether an entry has been appended. -/
def isAppended : Reply → Bool
  | text _ => true
  | number _ => true
  | _ => false

end Reply

/-- The number of a connection to the stream server. -/
abbrev Connection := Nat

/-- A stream server with states of type `σ`. -/
structure Server (σ : Type) where
  /-- Opens a connection, if the server can be reached. -/
  connect : σ → Option Connection × σ
  /-- The reply to a command on a connection. -/
  send : Connection → Command → σ → Reply × σ

/-- The server that cannot be reached. -/
def Server.unreachable {σ : Type} : Server σ where
  connect state := (none, state)
  send _ _ state := (.lost, state)

end GradedAccess
