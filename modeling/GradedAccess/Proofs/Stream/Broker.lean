import GradedAccess.Invalidation.Payload
import GradedAccess.Listener.Script
import GradedAccess.Proofs.Stream.ConsumerGroup

/-!
# A server with consumer groups

The server one consumer talks to.  A read of the backlog returns what is pending for the consumer,
in the order of the stream and up to a number of entries for each stream.  A read of new entries
returns entries nobody in the group has been given, and makes them pending.  An acknowledgement
takes an entry off the pending ones.

What happens around a command comes with a schedule, one `Occasion` for each command or connection.
Before the command is looked at, other clients may have done anything that is not done in the name
of the consumer.  Then the command is carried out and answered, or refused, or its reply is lost, in
which case it may have been carried out or not.  Nothing is assumed about a schedule.

`Served` also keeps the notes of what was said.  They are what statements about a consumer are
about.
-/

namespace GradedAccess

/-- The streams of a server, by their keys. -/
abbrev Broker := String → StreamLog

/-- One thing that happened between a consumer and the server, or between the consumer and whoever
uses it. -/
inductive Note where
  /-- A command was sent, and this came back. -/
  | exchanged (command : Command) (reply : Reply)
  /-- A message was handed to the user. -/
  | returned (message : Message)
  /-- The user asked for a message to be acknowledged. -/
  | acknowledging (message : Message)
  deriving DecidableEq, Repr

/-- A server, the number of commands and connections so far, and the notes. -/
structure Served where
  broker : Broker
  clock : Nat := 0
  notes : List Note := []

namespace Broker

/-! ## Commands -/

/-- Changes one stream. -/
def change (broker : Broker) (key : String) (f : StreamLog → StreamLog) : Broker :=
  Function.update broker key (f (broker key))

/-- What a read of the backlog brings. -/
def backlogBatches (broker : Broker) (group consumer : String) (count : Nat)
    (keys : List String) : List StreamBatch :=
  keys.map fun key =>
    ⟨key, (((broker key).pendingFor group consumer).take count).map LogEntry.sent⟩

/-- A batch of entries, unless there are none. -/
def batch? (key : String) (entries : List LogEntry) : Option StreamBatch :=
  if entries.isEmpty then none else some ⟨key, entries.map LogEntry.sent⟩

/-- The new entries of a stream that a read takes, of which it may have `offer` at most. -/
def taken (broker : Broker) (group : String) (count : Nat) (offer : String → Nat) (key : String) :
    List LogEntry :=
  ((broker key).unread group).take (min count (offer key))

/-- The streams after a read of new entries. -/
def afterRead (broker : Broker) (group consumer : String) (count : Nat) (offer : String → Nat)
    (keys : List String) : Broker :=
  fun key =>
    if key ∈ keys then (broker key).deliver group consumer (min count (offer key)) else broker key

/-- The reply of a read of new entries. -/
def newReply : List StreamBatch → Reply
  | [] => .nothing
  | batch :: batches => .batches (batch :: batches)

/-- The number of the next entry the server appends itself. -/
def nextNumber (log : StreamLog) : EntryNumber :=
  match log.entries.getLast? with
  | none => ⟨0, 1⟩
  | some last => ⟨last.number.time, last.number.counter + 1⟩

/-- How many entries of a group an acknowledgement is about. -/
def countPending (log : StreamLog) (name entry : String) : Nat :=
  match log.groups name with
  | none => 0
  | some group => (group.pending.filter (·.2.number.text == entry)).length

/-- Carries out a command.  A read of new entries brings at most `offer` entries of a stream. -/
def carryOut (offer : String → Nat) (broker : Broker) : Command → Reply × Broker
  | .createGroup key group =>
    (if ((broker key).groups group).isSome then .error "BUSYGROUP" else .done,
      broker.change key (·.join group))
  | .read group consumer count fresh _ keys =>
    if keys.all fun key => ((broker key).groups group).isSome then
      if fresh then
        (newReply (keys.filterMap fun key => batch? key (broker.taken group count offer key)),
          broker.afterRead group consumer count offer keys)
      else (.batches (broker.backlogBatches group consumer count keys), broker)
    else (.error "NOGROUP", broker)
  | .acknowledge key group entry =>
    (.number (countPending (broker key) group entry),
      broker.change key (·.release group fun _ pending => pending.number.text == entry))
  | .append key _ field payload =>
    let number := nextNumber (broker key)
    (.text number.text, broker.change key (·.append ⟨number, [(field, some payload)]⟩))

/-! ## Other clients and failures -/

/-- Something another client does, so not as the consumer of the group. -/
inductive Deed (group consumer : String) where
  | append (key : String) (entry : LogEntry)
  | join (key name : String)
  | read (key name reader : String) (count : Nat) (other : ¬(name = group ∧ reader = consumer))
  | acknowledge (key name reader : String) (number : EntryNumber)
      (other : ¬(name = group ∧ reader = consumer))

/-- What becomes of a command. -/
inductive Outcome where
  | answered (offer : String → Nat)
  /-- The server refuses the command with an error, which is not that a group exists. -/
  | refused (code : String) (other : code ≠ "BUSYGROUP")
  /-- No reply comes. -/
  | lost (carriedOut : Bool) (offer : String → Nat)

/-- What happens around a command. -/
structure Occasion (group consumer : String) where
  meanwhile : List (Deed group consumer) := []
  outcome : Outcome

variable {group consumer : String}

/-- What another client does to the streams. -/
def Deed.apply (broker : Broker) : Deed group consumer → Broker
  | append key entry => broker.change key (·.append entry)
  | join key name => broker.change key (·.join name)
  | read key name reader count _ => broker.change key (·.deliver name reader count)
  | acknowledge key name reader number _ =>
    broker.change key (·.release name fun owner entry => owner == reader && entry.number == number)

/-- Whether a command is carried out and answered. -/
def Outcome.IsAnswered : Outcome → Prop
  | answered _ => True
  | _ => False

/-- What becomes of a command, and of the streams. -/
def Outcome.settle (command : Command) (broker : Broker) : Outcome → Reply × Broker
  | answered offer => broker.carryOut offer command
  | refused code _ => (.error code, broker)
  | lost carriedOut offer =>
    (.lost, if carriedOut then (broker.carryOut offer command).2 else broker)

/-- The streams when a command arrives. -/
def Occasion.arrive (occasion : Occasion group consumer) (broker : Broker) : Broker :=
  occasion.meanwhile.foldl Deed.apply broker

/-- The server as one consumer of a group meets it. -/
def server (schedule : Nat → Occasion group consumer) : Server Served where
  connect served :=
    let occasion := schedule served.clock
    let broker := occasion.arrive served.broker
    let served' := { served with broker, clock := served.clock + 1 }
    match occasion.outcome with
    | .answered _ => (some served.clock, served')
    | _ => (none, served')
  send _ command served :=
    let occasion := schedule served.clock
    let (reply, broker) := occasion.outcome.settle command (occasion.arrive served.broker)
    (reply, ⟨broker, served.clock + 1, served.notes ++ [.exchanged command reply]⟩)

/-! ## What every command leaves behind -/

/-- What the streams are for a group after anybody has been at them. -/
def Grows (name : String) (broker broker' : Broker) : Prop :=
  ∀ key, (broker key).Grows name (broker' key)

/-- Whether the same is pending for a consumer. -/
def SamePending (name consumer : String) (broker broker' : Broker) : Prop :=
  ∀ key, (broker' key).pendingFor name consumer = (broker key).pendingFor name consumer

variable {broker broker' broker'' : Broker} {name : String}

theorem Grows.refl (name : String) (broker : Broker) : broker.Grows name broker :=
  fun key => .refl name (broker key)

theorem Grows.trans (h : broker.Grows name broker') (h' : broker'.Grows name broker'') :
    broker.Grows name broker'' :=
  fun key => (h key).trans (h' key)

theorem change_self (broker : Broker) (key : String) (f : StreamLog → StreamLog) :
    broker.change key f key = f (broker key) :=
  Function.update_self _ _ _

theorem change_other {key key' : String} (broker : Broker) (f : StreamLog → StreamLog)
    (hne : key' ≠ key) : broker.change key f key' = broker key' :=
  Function.update_of_ne hne _ _

theorem grows_change {f : StreamLog → StreamLog} (hf : ∀ log : StreamLog, log.Grows name (f log))
    (broker : Broker) (key : String) : broker.Grows name (broker.change key f) := by
  intro key'
  by_cases hkey : key' = key
  · subst hkey
    rw [change_self]
    exact hf _
  · rw [change_other broker f hkey]
    exact .refl name _

theorem samePending_change {f : StreamLog → StreamLog}
    (hf : ∀ log : StreamLog, (f log).pendingFor name consumer = log.pendingFor name consumer)
    (broker : Broker) (key : String) : broker.SamePending name consumer (broker.change key f) := by
  intro key'
  by_cases hkey : key' = key
  · subst hkey
    rw [change_self]
    exact hf _
  · rw [change_other broker f hkey]

theorem grows_afterRead (name : String) (broker : Broker) (group consumer : String) (count : Nat)
    (offer : String → Nat) (keys : List String) :
    broker.Grows name (broker.afterRead group consumer count offer keys) := by
  intro key
  rw [afterRead]
  split
  · exact StreamLog.grows_deliver name _ group consumer _
  · exact .refl name _

/-- Streams only grow by what a command does. -/
theorem grows_carryOut (name : String) (offer : String → Nat) (broker : Broker)
    (command : Command) : broker.Grows name (broker.carryOut offer command).2 := by
  cases command with
  | createGroup key group => exact grows_change (fun log => log.grows_join name group) broker key
  | read group consumer count fresh block keys =>
    rw [carryOut]
    split
    · split
      · exact grows_afterRead name broker group consumer count offer keys
      · exact .refl name broker
    · exact .refl name broker
  | acknowledge key group entry =>
    exact grows_change (fun log => log.grows_release name group _) broker key
  | append key maxLength field payload =>
    exact grows_change (fun log => log.grows_append name _) broker key

/-- Streams only grow by what other clients do. -/
theorem grows_apply (name : String) (broker : Broker) (deed : Deed group consumer) :
    broker.Grows name (deed.apply broker) := by
  cases deed with
  | append key entry => exact grows_change (fun log => log.grows_append name entry) broker key
  | join key joined => exact grows_change (fun log => log.grows_join name joined) broker key
  | read key name' reader count other =>
    exact grows_change (fun log => log.grows_deliver name name' reader count) broker key
  | acknowledge key name' reader number other =>
    exact grows_change (fun log => log.grows_release name name' _) broker key

/-- Nothing other clients do changes what is pending for the consumer. -/
theorem samePending_apply (broker : Broker) (deed : Deed group consumer) :
    broker.SamePending group consumer (deed.apply broker) := by
  cases deed with
  | append key entry =>
    exact samePending_change (fun log => log.pendingFor_append group consumer entry) broker key
  | join key joined =>
    exact samePending_change (fun log => log.pendingFor_join group consumer joined) broker key
  | read key name reader count other =>
    exact samePending_change (fun _ => StreamLog.pendingFor_deliver_other count other) broker key
  | acknowledge key name reader number other =>
    refine samePending_change (fun _ => StreamLog.pendingFor_release_other ?_) broker key
    intro hname entry
    have hreader : consumer ≠ reader := fun heq => other ⟨hname, heq.symm⟩
    rw [beq_false_of_ne hreader, Bool.false_and]

theorem grows_foldl_apply (name : String) (deeds : List (Deed group consumer)) (broker : Broker) :
    broker.Grows name (deeds.foldl Deed.apply broker) := by
  induction deeds generalizing broker with
  | nil => exact .refl name broker
  | cons deed deeds ih => exact (grows_apply name broker deed).trans (ih (deed.apply broker))

theorem samePending_foldl_apply (deeds : List (Deed group consumer)) (broker : Broker) :
    broker.SamePending group consumer (deeds.foldl Deed.apply broker) := by
  induction deeds generalizing broker with
  | nil => exact fun key => rfl
  | cons deed deeds ih =>
    intro key
    rw [List.foldl_cons, ih (deed.apply broker) key, samePending_apply broker deed key]

theorem Occasion.grows_arrive (occasion : Occasion group consumer) (name : String)
    (broker : Broker) : broker.Grows name (occasion.arrive broker) :=
  grows_foldl_apply name occasion.meanwhile broker

theorem Occasion.samePending_arrive (occasion : Occasion group consumer) (broker : Broker) :
    broker.SamePending group consumer (occasion.arrive broker) :=
  samePending_foldl_apply occasion.meanwhile broker

theorem Outcome.grows_settle (name : String) (command : Command) (broker : Broker)
    (outcome : Outcome) : broker.Grows name (outcome.settle command broker).2 := by
  cases outcome with
  | answered offer => exact grows_carryOut name offer broker command
  | refused code other => exact .refl name broker
  | lost carriedOut offer =>
    cases carriedOut with
    | false => exact .refl name broker
    | true => exact grows_carryOut name offer broker command

/-! ## Commands of the consumer -/

section Commands

variable (schedule : Nat → Occasion group consumer) (connection : Connection) (served : Served)

theorem notes_send (command : Command) :
    ((server schedule).send connection command served).2.notes = served.notes
      ++ [.exchanged command ((server schedule).send connection command served).1] :=
  rfl

theorem grows_send (name : String) (command : Command) :
    served.broker.Grows name ((server schedule).send connection command served).2.broker :=
  ((schedule served.clock).grows_arrive name served.broker).trans
    (Outcome.grows_settle name command _ _)

/-- A command is answered as the streams are when it arrives, or it fails. -/
theorem send_cases (command : Command) :
    (∃ offer, (schedule served.clock).outcome = .answered offer ∧
      ∃ arrived : Broker, served.broker.Grows group arrived ∧
        served.broker.SamePending group consumer arrived ∧
        ((server schedule).send connection command served).1
          = (arrived.carryOut offer command).1 ∧
        ((server schedule).send connection command served).2.broker
          = (arrived.carryOut offer command).2) ∨
    ¬(schedule served.clock).outcome.IsAnswered ∧
      (((server schedule).send connection command served).1 = .lost ∨
        ∃ code, code ≠ "BUSYGROUP" ∧
          ((server schedule).send connection command served).1 = .error code) := by
  cases houtcome : (schedule served.clock).outcome with
  | answered offer =>
    refine Or.inl ⟨offer, rfl, (schedule served.clock).arrive served.broker,
      (schedule served.clock).grows_arrive group served.broker,
      (schedule served.clock).samePending_arrive served.broker, ?_, ?_⟩
    · simp only [server, houtcome, Outcome.settle]
    · simp only [server, houtcome, Outcome.settle]
  | refused code other =>
    refine Or.inr ⟨id, Or.inr ⟨code, other, ?_⟩⟩
    simp only [server, houtcome, Outcome.settle]
  | lost carriedOut offer =>
    refine Or.inr ⟨id, Or.inl ?_⟩
    simp only [server, houtcome, Outcome.settle]

/-- An acknowledgement that succeeds takes the entry off what is pending, and nothing else. -/
theorem pendingFor_of_isAcknowledged {key entry : String}
    (h : ((server schedule).send connection (.acknowledge key group entry) served).1.isAcknowledged)
    (key' : String) :
    (((server schedule).send connection (.acknowledge key group entry) served).2.broker
      key').pendingFor group consumer
      = ((served.broker key').pendingFor group consumer).filter
          fun pending => !(key' == key && pending.number.text == entry) := by
  rcases send_cases schedule connection served (.acknowledge key group entry) with
    ⟨offer, -, arrived, -, hsame, -, hbroker⟩ | ⟨-, hlost | ⟨code, -, herror⟩⟩
  · rw [hbroker, ← hsame key']
    show (arrived.change key _ key').pendingFor group consumer = _
    by_cases hkey : key' = key
    · subst hkey
      rw [change_self, StreamLog.pendingFor_release_self, beq_self_eq_true]
      rfl
    · rw [change_other arrived _ hkey, beq_false_of_ne hkey]
      exact (List.filter_eq_self.mpr fun _ _ => rfl).symm
  · rw [hlost] at h
    cases h
  · rw [herror] at h
    cases h

theorem isAcknowledged_of_isAnswered {key entry : String}
    (h : (schedule served.clock).outcome.IsAnswered) :
    ((server schedule).send connection (.acknowledge key group entry) served).1.isAcknowledged := by
  rcases send_cases schedule connection served (.acknowledge key group entry) with
    ⟨offer, -, arrived, -, -, hreply, -⟩ | ⟨hnot, -⟩
  · rw [hreply]
    rfl
  · exact absurd h hnot

/-- A read of the backlog brings what is pending, and changes nothing of it. -/
theorem of_read_backlog {count : Nat} {block : Option Nat} {keys : List String}
    {batches : List StreamBatch}
    (h : ((server schedule).send connection (.read group consumer count false block keys)
      served).1.batches? = some batches) :
    batches = served.broker.backlogBatches group consumer count keys ∧
    served.broker.SamePending group consumer
      ((server schedule).send connection (.read group consumer count false block keys)
        served).2.broker := by
  rcases send_cases schedule connection served (.read group consumer count false block keys) with
    ⟨offer, -, arrived, -, hsame, hreply, hbroker⟩ | ⟨-, hlost | ⟨code, -, herror⟩⟩
  · rw [hreply, carryOut] at h
    rw [hbroker, carryOut]
    split at h
    · next hjoined =>
      rw [if_neg Bool.false_ne_true] at h
      rw [if_pos hjoined, if_neg Bool.false_ne_true]
      refine ⟨?_, hsame⟩
      rw [← Option.some.inj h, backlogBatches, backlogBatches]
      exact List.map_congr_left fun key _ => by rw [hsame key]
    · cases h
  · rw [hlost] at h
    cases h
  · rw [herror] at h
    cases h

theorem batches?_newReply (batches : List StreamBatch) :
    (newReply batches).batches? = some batches := by
  cases batches with
  | nil => rfl
  | cons batch batches => rfl

/-- A read of new entries makes those it brings pending, and they come off what nobody has been
given. -/
theorem of_read_new {count : Nat} {block : Option Nat} {keys : List String}
    {batches : List StreamBatch}
    (h : ((server schedule).send connection (.read group consumer count true block keys)
      served).1.batches? = some batches) :
    ∃ given : String → List LogEntry,
      batches = keys.filterMap (fun key => batch? key (given key)) ∧
      ∀ key ∈ keys,
        (((server schedule).send connection (.read group consumer count true block keys)
          served).2.broker key).pendingFor group consumer
          = (served.broker key).pendingFor group consumer ++ given key ∧
        ∃ new, (((server schedule).send connection (.read group consumer count true block keys)
            served).2.broker key).entries = (served.broker key).entries ++ new ∧
          (given key ++ (((server schedule).send connection
              (.read group consumer count true block keys) served).2.broker key).unread
            group).Sublist ((served.broker key).unread group ++ new) := by
  rcases send_cases schedule connection served (.read group consumer count true block keys) with
    ⟨offer, -, arrived, hgrows, hsame, hreply, hbroker⟩ | ⟨-, hlost | ⟨code, -, herror⟩⟩
  · rw [hreply, carryOut] at h
    rw [hbroker, carryOut]
    split at h
    · next hjoined =>
      rw [if_pos rfl, batches?_newReply] at h
      rw [if_pos hjoined, if_pos rfl]
      refine ⟨arrived.taken group count offer, (Option.some.inj h).symm, fun key hkey => ?_⟩
      have hafter : arrived.afterRead group consumer count offer keys key
          = (arrived key).deliver group consumer (min count (offer key)) := if_pos hkey
      obtain ⟨new, hentries, hunread⟩ := (hgrows key).unread
      show ((arrived.afterRead group consumer count offer keys) key).pendingFor group consumer = _ ∧
        ∃ new, ((arrived.afterRead group consumer count offer keys) key).entries = _ ∧
          (_ ++ ((arrived.afterRead group consumer count offer keys) key).unread group).Sublist _
      rw [hafter]
      refine ⟨?_, new, hentries, ?_⟩
      · rw [StreamLog.pendingFor_deliver_self, hsame key, taken]
      · rw [StreamLog.unread_deliver_self, taken, List.take_append_drop]
        exact hunread
    · cases h
  · rw [hlost] at h
    cases h
  · rw [herror] at h
    cases h

theorem isSome_batches?_of_isAnswered {count : Nat} {fresh : Bool} {block : Option Nat}
    {keys : List String} (h : (schedule served.clock).outcome.IsAnswered)
    (hjoined : ∀ key ∈ keys, ((served.broker key).groups group).isSome) :
    ((server schedule).send connection (.read group consumer count fresh block keys)
      served).1.batches?.isSome := by
  rcases send_cases schedule connection served (.read group consumer count fresh block keys) with
    ⟨offer, -, arrived, hgrows, -, hreply, -⟩ | ⟨hnot, -⟩
  · have hall : (keys.all fun key => ((arrived key).groups group).isSome) = true :=
      List.all_eq_true.mpr fun key hkey => (hgrows key).joined (hjoined key hkey)
    rw [hreply, carryOut, if_pos hall]
    cases fresh with
    | false => rfl
    | true => rw [if_pos rfl, batches?_newReply, Option.isSome_some]
  · exact absurd h hnot

/-- Whoever hears that a group is ready is in it, and nothing pending has changed. -/
theorem of_isGroupReady {key : String}
    (h : ((server schedule).send connection (.createGroup key group) served).1.isGroupReady) :
    ((((server schedule).send connection (.createGroup key group) served).2.broker
      key).groups group).isSome ∧
    served.broker.SamePending group consumer
      ((server schedule).send connection (.createGroup key group) served).2.broker := by
  rcases send_cases schedule connection served (.createGroup key group) with
    ⟨offer, -, arrived, -, hsame, -, hbroker⟩ | ⟨-, hlost | ⟨code, hcode, herror⟩⟩
  · rw [hbroker]
    show ((arrived.change key (·.join group) key).groups group).isSome ∧
      served.broker.SamePending group consumer (arrived.change key (·.join group))
    refine ⟨?_, fun key' => ?_⟩
    · rw [change_self]
      exact StreamLog.isSome_groups_join _ group
    · rw [samePending_change (fun log => log.pendingFor_join group consumer group) arrived key key']
      exact hsame key'
  · rw [hlost] at h
    cases h
  · rw [herror] at h
    exact absurd (beq_iff_eq.mp h) hcode

/-- Opening a connection changes nothing for the consumer. -/
theorem of_connect :
    served.broker.Grows group ((server schedule).connect served).2.broker ∧
    served.broker.SamePending group consumer ((server schedule).connect served).2.broker ∧
    ((server schedule).connect served).2.notes = served.notes := by
  have hgrows := (schedule served.clock).grows_arrive group served.broker
  have hsame := (schedule served.clock).samePending_arrive served.broker
  simp only [server]
  cases (schedule served.clock).outcome with
  | answered offer => exact ⟨hgrows, hsame, rfl⟩
  | refused code other => exact ⟨hgrows, hsame, rfl⟩
  | lost carriedOut offer => exact ⟨hgrows, hsame, rfl⟩

end Commands

end Broker

end GradedAccess
