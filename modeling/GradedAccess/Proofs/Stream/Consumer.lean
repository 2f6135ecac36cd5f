import GradedAccess.Proofs.EachAfter
import GradedAccess.Proofs.Stream.Broker
import GradedAccess.Proofs.Stream.Sorting

/-!
# A consumer and its chapters

Whoever consumes a bus subscribes, takes a message, has it acknowledged, and takes the next one.
After a failure it subscribes again, under the same name.  `Consumer` is this user together with
the server, and `Consumer.step` makes the next `Move`.  A move that does not fit is no step: there
is nothing to take before the last message has been acknowledged, and nothing to acknowledge before
one has been taken.

The notes from one subscription to the next are a `Chapter`.  A chapter is `Orderly` when an entry
is acknowledged only if nobody can apply it or the user has asked for it, when all that was pending
at its beginning has been returned before new entries are asked for, when nothing is returned twice,
and when the messages of each stream are returned in the order of the stream.
-/

namespace GradedAccess

open Broker

/-! ## What notes say -/

/-- The message that a note says has been returned. -/
def Note.message? : Note → Option Message
  | returned message => some message
  | _ => none

/-- The messages that have been returned, in their order. -/
def returnedIn (notes : List Note) : List Message :=
  notes.filterMap Note.message?

/-- The messages about a subject. -/
def onSubject (subject : Subject) (messages : List Message) : List Message :=
  messages.filter (·.event.subject == subject)

theorem mem_returnedIn {notes : List Note} {message : Message} :
    message ∈ returnedIn notes ↔ Note.returned message ∈ notes := by
  rw [returnedIn, List.mem_filterMap]
  constructor
  · rintro ⟨note, hnote, hmessage⟩
    cases note with
    | returned message' =>
      cases hmessage
      exact hnote
    | exchanged command reply => cases hmessage
    | acknowledging message' => cases hmessage
  · intro h
    exact ⟨_, h, rfl⟩

theorem mem_onSubject {subject : Subject} {messages : List Message} {message : Message} :
    message ∈ onSubject subject messages ↔
      message ∈ messages ∧ message.event.subject = subject := by
  rw [onSubject, List.mem_filter, beq_iff_eq]

theorem onSubject_cons_of_eq {subject : Subject} {message : Message} (messages : List Message)
    (h : message.event.subject = subject) :
    onSubject subject (message :: messages) = message :: onSubject subject messages :=
  List.filter_cons_of_pos (p := fun message : Message => message.event.subject == subject)
    (beq_iff_eq.mpr h)

theorem onSubject_cons_of_ne {subject : Subject} {message : Message} (messages : List Message)
    (h : message.event.subject ≠ subject) :
    onSubject subject (message :: messages) = onSubject subject messages :=
  List.filter_cons_of_neg (p := fun message : Message => message.event.subject == subject)
    fun heq => h (beq_iff_eq.mp heq)

section Orders

variable (settings : StreamSettings)

/-- Whether an entry of the stream of a subject has come back on a read. -/
def WasRead (notes : List Note) (subject : Subject) (entry : StreamEntry) : Prop :=
  ∃ count fresh block keys batches batch,
    Note.exchanged (.read settings.group settings.consumer count fresh block keys)
      (.batches batches) ∈ notes ∧
    batch ∈ batches ∧ batch.key = settings.key subject ∧ entry ∈ batch.entries

/-- Whether an entry has been read from the stream with a key, and has no message. -/
def WasMalformed (notes : List Note) (key entry : String) : Prop :=
  ∃ subject read, key = settings.key subject ∧ read.id = entry ∧
    WasRead settings notes subject read ∧ Subscription.messageOf? subject read = none

/-- Whether a message is the one of an entry that has been read. -/
def WasObtained (notes : List Note) (message : Message) : Prop :=
  ∃ read, WasRead settings notes message.event.subject read ∧
    Subscription.messageOf? message.event.subject read = some message

/-- Whether the user has just asked to acknowledge an entry whose message was returned to it. -/
def WasAsked (notes : List Note) (key entry : String) : Prop :=
  ∃ message, key = settings.key message.event.subject ∧ message.delivery = entry ∧
    WasObtained settings notes message ∧ .returned message ∈ notes ∧
    notes.getLast? = some (.acknowledging message)

/-- What was pending on each stream. -/
abbrev Backlog := Subject → List LogEntry

/-- Whether every message of the backlog has been returned. -/
def BacklogReturned (backlog : Backlog) (notes : List Note) : Prop :=
  ∀ subject, ∀ entry ∈ backlog subject, ∀ message,
    Subscription.messageOf? subject entry.sent = some message → .returned message ∈ notes

/-- Whether a note is in order after others. -/
def InOrder (backlog : Backlog) (notes : List Note) : Note → Prop
  | .exchanged (.acknowledge key group entry) _ =>
    group = settings.group ∧
      (WasMalformed settings notes key entry ∨ WasAsked settings notes key entry)
  | .exchanged (.read _ _ _ fresh _ _) _ => fresh = true → BacklogReturned backlog notes
  | .exchanged _ _ => True
  | .returned message => WasObtained settings notes message
  | .acknowledging message => .returned message ∈ notes

/-- What was pending when a subscription was opened, and the notes since then. -/
structure Chapter where
  backlog : Backlog
  notes : List Note

/-- Whether a subscription has lost nothing and confused nothing. -/
structure Chapter.Orderly (chapter : Chapter) : Prop where
  /-- Entries are acknowledged and asked for when they should be. -/
  inOrder : EachAfter (InOrder settings chapter.backlog) chapter.notes
  /-- No entry is returned twice. -/
  once : ((returnedIn chapter.notes).map
    fun message => (message.event.subject, message.delivery)).Nodup
  /-- The entries of a stream are returned in the order of their numbers. -/
  ascending : ∀ subject, ∃ numbers : List EntryNumber,
    numbers.Pairwise EntryNumber.Before ∧
    (onSubject subject (returnedIn chapter.notes)).map Message.delivery
      = numbers.map EntryNumber.text

end Orders

/-! ## The consumer -/

/-- What a consumer has. -/
inductive Phase where
  | idle
  | ready (subscription : Subscription)
  /-- A subscription, and a message of it that is not acknowledged. -/
  | holding (subscription : Subscription) (message : Message)

/-- What a consumer does next. -/
inductive Move where
  | subscribe
  /-- Take the next message, with at most some number of reads. -/
  | next (reads : Nat)
  | acknowledge
  deriving DecidableEq, Repr

/-- A consumer, its server and the chapters that are over. -/
structure Consumer where
  served : Served
  phase : Phase := .idle
  backlog : Backlog := fun _ => []
  past : List Chapter := []

/-- What is pending for a consumer on each stream. -/
def pendingOn (settings : StreamSettings) (broker : Broker) : Backlog :=
  fun subject => (broker (settings.key subject)).pendingFor settings.group settings.consumer

namespace Consumer

/-- All chapters so far, with the open one. -/
def chapters (state : Consumer) : List Chapter :=
  match state.phase with
  | .idle => state.past
  | _ => state.past ++ [⟨state.backlog, state.served.notes⟩]

/-- What is left after a call has failed. -/
def fail (state : Consumer) (served : Served) : Consumer where
  served := served
  past := state.past ++ [⟨state.backlog, served.notes⟩]

/-- Writes a note. -/
def note (served : Served) (note : Note) : Served :=
  { served with notes := served.notes ++ [note] }

variable (settings : StreamSettings) (schedule : Nat → Occasion settings.group settings.consumer)

/-- Begins a chapter. -/
def subscribe (state : Consumer) : Consumer :=
  match settings.subscribe (server schedule) { state.served with notes := [] } with
  | (.ok subscription, served) => {
      served
      phase := .ready subscription
      backlog := pendingOn settings served.broker
      past := state.chapters }
  | (.error _, served) => { served, past := state.chapters }

/-- Takes the next message of a subscription. -/
def next (state : Consumer) (subscription : Subscription) (reads : Nat) : Consumer :=
  match subscription.nextMessage (server schedule) state.served reads with
  | (some (.ok message), subscription, served) => { state with
      served := note served (.returned message)
      phase := .holding subscription message }
  | (some (.error _), _, served) => state.fail served
  | (none, subscription, served) => { state with served, phase := .ready subscription }

/-- Has a message acknowledged. -/
def acknowledge (state : Consumer) (subscription : Subscription) (message : Message) : Consumer :=
  match subscription.acknowledge (server schedule) message
    (note state.served (.acknowledging message)) with
  | (.ok (), served) => { state with served, phase := .ready subscription }
  | (.error _, served) => state.fail served

/-- Makes a move, if it fits. -/
def step (state : Consumer) : Move → Consumer
  | .subscribe => state.subscribe settings schedule
  | .next reads =>
    match state.phase with
    | .ready subscription => state.next settings schedule subscription reads
    | _ => state
  | .acknowledge =>
    match state.phase with
    | .holding subscription message => state.acknowledge settings schedule subscription message
    | _ => state

/-- Makes moves one after another. -/
def run (state : Consumer) (moves : List Move) : Consumer :=
  moves.foldl (step settings schedule) state

end Consumer

end GradedAccess
