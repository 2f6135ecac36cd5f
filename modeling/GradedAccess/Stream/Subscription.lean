import GradedAccess.Invalidation.Payload
import GradedAccess.Listener.Script
import GradedAccess.Stream.Server
import GradedAccess.Stream.Settings

/-!
# Subscriptions to the streams

A subscription reads the streams of all subjects as one consumer of a group.  An entry that has
been read stays pending for the consumer until it is acknowledged, also when the consumer goes away
and comes back under its name.  So a subscription starts with what is pending: it reads its backlog
until a read brings no entry any more, and from then on it reads new entries only.

`Subscription.sort` takes one reply apart.  An entry whose payload announces an event becomes a
message and waits in the buffer.  Every other entry of the streams that were asked for is malformed:
nobody will ever be able to apply it, so it is acknowledged at once, after all good entries have
been put into the buffer.  Entries of streams that were not asked for are left alone.

A message carries the number of its entry, and its event says which stream the entry is from.
-/

namespace GradedAccess

/-- What a read has brought. -/
structure Sorted where
  /-- The messages, in the order of the reply. -/
  messages : List Message := []
  /-- The malformed entries, each with the key of its stream. -/
  malformed : List (String × String) := []
  /-- The number of entries of the streams that were asked for. -/
  received : Nat := 0
  deriving DecidableEq, Repr

/-- A subscription. -/
structure Subscription where
  settings : StreamSettings
  connection : Connection
  /-- Whether the backlog has been read to its end. -/
  drained : Bool := false
  /-- The messages that have been read and not yet taken. -/
  buffered : List Message := []
  deriving DecidableEq

namespace Subscription

/-- The subject of the stream with a key. -/
def subjectOf (subscription : Subscription) (key : String) : Option Subject :=
  Subject.all.find? (subscription.settings.key · == key)

/-- The message in an entry of the stream of a subject. -/
def messageOf? (subject : Subject) (entry : StreamEntry) : Option Message :=
  match entry.text? Event.payloadField with
  | none => none
  | some payload =>
    match Event.decode subject payload with
    | .ok event => some ⟨entry.id, event⟩
    | .error _ => none

/-- Sorts one more entry of the stream of a subject. -/
def sortEntry (key : String) (subject : Subject) (sorted : Sorted) (entry : StreamEntry) :
    Sorted :=
  match messageOf? subject entry with
  | some message => { sorted with
      messages := sorted.messages ++ [message]
      received := sorted.received + 1 }
  | none => { sorted with
      malformed := sorted.malformed ++ [(key, entry.id)]
      received := sorted.received + 1 }

/-- Sorts the entries of one more stream. -/
def sortBatch (subscription : Subscription) (sorted : Sorted) (batch : StreamBatch) : Sorted :=
  match subscription.subjectOf batch.key with
  | none => sorted
  | some subject => batch.entries.foldl (sortEntry batch.key subject) sorted

/-- Takes a reply apart. -/
def sort (subscription : Subscription) (batches : List StreamBatch) : Sorted :=
  batches.foldl subscription.sortBatch {}

/-- The command of the next read.  Only a read of new entries waits. -/
def readCommand (subscription : Subscription) : Command :=
  let settings := subscription.settings
  .read settings.group settings.consumer (max settings.batchSize 1) subscription.drained
    (if subscription.drained then some settings.block.millis else none)
    (Subject.all.map settings.key)

variable {σ : Type} (server : Server σ)

/-- Acknowledges an entry. -/
def acknowledgeEntry (subscription : Subscription) (key entry : String) (state : σ) :
    Except Fault Unit × σ :=
  let (reply, state) := server.send subscription.connection
    (.acknowledge key subscription.settings.group entry) state
  if reply.isAcknowledged then (.ok (), state)
  else (.error (.streamCall (.acknowledge entry key)), state)

/-- Acknowledges entries one after another, up to the first that cannot be. -/
def acknowledgeAll (subscription : Subscription) :
    List (String × String) → σ → Except Fault Unit × σ
  | [], state => (.ok (), state)
  | (key, entry) :: rest, state =>
    match acknowledgeEntry server subscription key entry state with
    | (.ok (), state) => acknowledgeAll subscription rest state
    | (.error fault, state) => (.error fault, state)

/-- Reads once. -/
def readBatch (subscription : Subscription) (state : σ) :
    Except Fault Unit × Subscription × σ :=
  let (reply, state) := server.send subscription.connection subscription.readCommand state
  match reply.batches? with
  | none => (.error (.streamCall .read), subscription, state)
  | some batches =>
    let sorted := subscription.sort batches
    let buffered := { subscription with buffered := subscription.buffered ++ sorted.messages }
    match acknowledgeAll server subscription sorted.malformed state with
    | (.error fault, state) => (.error fault, buffered, state)
    | (.ok (), state) =>
      (.ok (), { buffered with drained := buffered.drained || sorted.received == 0 }, state)

/-- Takes the first message out of the buffer. -/
def take? (subscription : Subscription) : Option (Message × Subscription) :=
  match subscription.buffered with
  | [] => none
  | message :: rest => some (message, { subscription with buffered := rest })

/-- The next message, if at most `reads` reads are enough for one.  On streams where nothing
happens no number of reads is. -/
def nextMessage (subscription : Subscription) (state : σ) : (reads : Nat) →
    Option (Except Fault Message) × Subscription × σ
  | 0 =>
    match subscription.take? with
    | some (message, subscription) => (some (.ok message), subscription, state)
    | none => (none, subscription, state)
  | reads + 1 =>
    match subscription.take? with
    | some (message, subscription) => (some (.ok message), subscription, state)
    | none =>
      match readBatch server subscription state with
      | (.error fault, subscription, state) => (some (.error fault), subscription, state)
      | (.ok (), subscription, state) => nextMessage subscription state reads

/-- Acknowledges a message on the stream of its subject. -/
def acknowledge (subscription : Subscription) (message : Message) (state : σ) :
    Except Fault Unit × σ :=
  acknowledgeEntry server subscription (subscription.settings.key message.event.subject)
    message.delivery state

end Subscription

namespace StreamSettings

variable {σ : Type} (server : Server σ)

/-- Joins the consumer groups of some subjects, up to the first that cannot be joined. -/
def joinGroups (settings : StreamSettings) (connection : Connection) :
    List Subject → σ → Except Fault Unit × σ
  | [], state => (.ok (), state)
  | subject :: subjects, state =>
    let (reply, state) := server.send connection
      (.createGroup (settings.key subject) settings.group) state
    if reply.isGroupReady then joinGroups settings connection subjects state
    else (.error (.streamCall (.createGroup settings.group (settings.key subject))), state)

/-- Opens a subscription. -/
def subscribe (settings : StreamSettings) (state : σ) : Except Fault Subscription × σ :=
  match settings.validate with
  | .error fault => (.error fault, state)
  | .ok () =>
    match server.connect state with
    | (none, state) => (.error (.streamCall .connect), state)
    | (some connection, state) =>
      match settings.joinGroups server connection Subject.all state with
      | (.error fault, state) => (.error fault, state)
      | (.ok (), state) => (.ok { settings, connection }, state)

/-- Announces an event, on a connection of its own. -/
def publish (settings : StreamSettings) (event : Event) (state : σ) : Except Fault Unit × σ :=
  match server.connect state with
  | (none, state) => (.error (.streamCall .connect), state)
  | (some connection, state) =>
    let key := settings.key event.subject
    let (reply, state) := server.send connection
      (.append key settings.maxLength Event.payloadField event.encode) state
    if reply.isAppended then (.ok (), state) else (.error (.streamCall (.publish key)), state)

end StreamSettings

end GradedAccess
