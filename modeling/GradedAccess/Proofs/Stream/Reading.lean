import GradedAccess.Proofs.Stream.Sorting
import Mathlib.Data.List.Basic

/-!
# What one read does

A read takes one reply and leaves it in three places: in the buffer, in the acknowledgements it
sends, and nowhere.  The entries that concern the subscription are its `arrivals`, the entries of the
streams it asked for, in the order of the reply.  An arrival either announces something
(`Arrival.message?`) or nobody will ever apply it, so the buffer and the acknowledgements share out
the arrivals between them.

The buffer is filled first, in one go.  Acknowledging goes from arrival to arrival and may fail at any
of them; what was said until then is `Acknowledges`, proved by induction over the arrivals that are
left.  To have the commands at hand they are kept by a `watched` server, which answers as the server
it watches.
-/

namespace GradedAccess

/-! ## Watching a server -/

/-- A command and the reply to it. -/
abbrev Exchange := Command × Reply

/-- A server that keeps what was said to it and what it replied. -/
def Server.watched {σ : Type} (server : Server σ) : Server (σ × List Exchange) where
  connect state :=
    let (connection, inner) := server.connect state.1
    (connection, inner, state.2)
  send connection command state :=
    let (reply, inner) := server.send connection command state.1
    (reply, inner, state.2 ++ [(command, reply)])

/-- A watched server answers as the server does. -/
theorem Server.send_watched {σ : Type} {server : Server σ} {connection : Connection}
    {command : Command} {state next : σ} {reply : Reply} {log : List Exchange}
    (h : server.send connection command state = (reply, next)) :
    server.watched.send connection command (state, log) =
      (reply, next, log ++ [(command, reply)]) := by
  rw [Server.watched]
  simp only [h]

namespace Subscription

variable {subscription : Subscription}

/-! ## Arrivals -/

/-- An entry of a stream that a subscription asks for. -/
structure Arrival where
  key : String
  subject : Subject
  entry : StreamEntry
  deriving DecidableEq

namespace Arrival

/-- The message of an arrival, if it has a payload that decodes for the subject of its stream. -/
def message? (arrival : Arrival) : Option Message :=
  (arrival.entry.text? Event.payloadField).bind fun payload =>
    (Event.decode arrival.subject payload).toOption.map fun event => ⟨arrival.entry.id, event⟩

/-- The command that takes an arrival off the pending entries, on its own stream. -/
def acknowledgement (group : String) (arrival : Arrival) : Command :=
  .acknowledge arrival.key group arrival.entry.id

theorem message?_eq (arrival : Arrival) :
    arrival.message? = messageOf? arrival.subject arrival.entry := by
  rw [message?, messageOf?]
  cases arrival.entry.text? Event.payloadField with
  | none => rfl
  | some payload =>
    cases hdecode : Event.decode arrival.subject payload with
    | error fault => simp only [Option.bind_some, hdecode, Except.toOption, Option.map_none]
    | ok event => simp only [Option.bind_some, hdecode, Except.toOption, Option.map_some]

end Arrival

/-- The entries of a reply on streams that were asked for, in the order of the reply. -/
def arrivals (subscription : Subscription) (batches : List StreamBatch) : List Arrival :=
  batches.flatMap fun batch =>
    match subscription.subjectOf batch.key with
    | none => []
    | some subject => batch.entries.map (⟨batch.key, subject, ·⟩)

/-- The messages of a reply are those of the arrivals. -/
theorem messages_sort_eq (subscription : Subscription) (batches : List StreamBatch) :
    (subscription.sort batches).messages =
      (subscription.arrivals batches).filterMap Arrival.message? := by
  rw [messages_sort, arrivals, List.filterMap_flatMap]
  congr 1
  funext batch
  rw [messagesOf]
  cases subscription.subjectOf batch.key with
  | none => rfl
  | some subject =>
    rw [List.filterMap_map]
    exact List.filterMap_congr fun entry _ => (Arrival.message?_eq ⟨batch.key, subject, entry⟩).symm

/-- The malformed entries of a reply are the arrivals without a message. -/
theorem malformed_sort_eq (subscription : Subscription) (batches : List StreamBatch) :
    (subscription.sort batches).malformed =
      ((subscription.arrivals batches).filter (·.message?.isNone)).map
        fun arrival => (arrival.key, arrival.entry.id) := by
  rw [malformed_sort, arrivals, List.filter_flatMap, List.map_flatMap]
  congr 1
  funext batch
  rw [malformedOf]
  cases subscription.subjectOf batch.key with
  | none => rfl
  | some subject =>
    simp only [List.filter_map, List.map_map]
    congr 1
    exact List.filter_congr fun entry _ => by
      rw [Function.comp_apply, Arrival.message?_eq]

/-- All arrivals are counted. -/
theorem received_sort_eq (subscription : Subscription) (batches : List StreamBatch) :
    (subscription.sort batches).received = (subscription.arrivals batches).length := by
  rw [received_sort, arrivals, List.length_flatMap, List.length_flatMap]
  congr 2
  funext batch
  rw [knownOf]
  cases subscription.subjectOf batch.key with
  | none => rfl
  | some subject => exact (List.length_map _).symm

/-! ## Acknowledging one after another -/

/-- Whether exchanges acknowledge arrivals one after another and come to a result: all of them are
acknowledged, or the exchanges end with the first that fails. -/
inductive Acknowledges (group : String) (arrivals : List Arrival) (exchanges : List Exchange) :
    Except Fault Unit → Prop
  | all :
    exchanges.map (·.1) = arrivals.map (Arrival.acknowledgement group) →
    (∀ exchange ∈ exchanges, exchange.2.isAcknowledged) →
    Acknowledges group arrivals exchanges (.ok ())
  | upTo {done left : List Arrival} {failed : Arrival} {earlier : List Exchange} {refusal : Reply} :
    arrivals = done ++ failed :: left →
    exchanges = earlier ++ [(failed.acknowledgement group, refusal)] →
    earlier.map (·.1) = done.map (Arrival.acknowledgement group) →
    (∀ exchange ∈ earlier, exchange.2.isAcknowledged) →
    refusal.isAcknowledged = false →
    Acknowledges group arrivals exchanges
      (.error (.streamCall (.acknowledge failed.entry.id failed.key)))

theorem Acknowledges.cons {group : String} {arrival : Arrival} {arrivals : List Arrival}
    {exchanges : List Exchange} {reply : Reply} {result : Except Fault Unit}
    (hreply : reply.isAcknowledged) (h : Acknowledges group arrivals exchanges result) :
    Acknowledges group (arrival :: arrivals)
      ((arrival.acknowledgement group, reply) :: exchanges) result := by
  cases h with
  | all hcommands hacknowledged =>
    refine .all ?_ (List.forall_mem_cons.mpr ⟨hreply, hacknowledged⟩)
    rw [List.map_cons, List.map_cons, hcommands]
  | upTo harrivals hexchanges hcommands hacknowledged hrefusal =>
    refine .upTo (by rw [harrivals, List.cons_append]) (by rw [hexchanges, List.cons_append]) ?_
      (List.forall_mem_cons.mpr ⟨hreply, hacknowledged⟩) hrefusal
    rw [List.map_cons, List.map_cons, hcommands]

section Watched

variable {σ : Type} {server : Server σ} {state next : σ} {reply : Reply}

/-- Acknowledging goes on as long as the replies say so. -/
theorem acknowledgeAll_cons {arrival : Arrival}
    (h : server.send subscription.connection
      (arrival.acknowledgement subscription.settings.group) state = (reply, next))
    (rest : List (String × String)) :
    acknowledgeAll server subscription ((arrival.key, arrival.entry.id) :: rest) state =
      if reply.isAcknowledged then acknowledgeAll server subscription rest next
      else (.error (.streamCall (.acknowledge arrival.entry.id arrival.key)), next) := by
  rw [Arrival.acknowledgement] at h
  rw [acknowledgeAll, acknowledgeEntry, h]
  by_cases hreply : reply.isAcknowledged
  · simp only [if_pos hreply]
  · simp only [if_neg hreply]

/-- Acknowledging arrivals on a watched server goes as on the server, and what is said acknowledges
them up to the first that fails. -/
theorem acknowledgeAll_watched (server : Server σ) (subscription : Subscription)
    (arrivals : List Arrival) (state : σ) (log : List Exchange) :
    ∃ (result : Except Fault Unit) (state' : σ) (exchanges : List Exchange),
      acknowledgeAll server subscription
        (arrivals.map fun arrival => (arrival.key, arrival.entry.id)) state = (result, state') ∧
      acknowledgeAll server.watched subscription
        (arrivals.map fun arrival => (arrival.key, arrival.entry.id)) (state, log) =
          (result, state', log ++ exchanges) ∧
      Acknowledges subscription.settings.group arrivals exchanges result := by
  induction arrivals generalizing state log with
  | nil =>
    refine ⟨.ok (), state, [], rfl, ?_, .all rfl fun exchange hmem => absurd hmem List.not_mem_nil⟩
    rw [List.append_nil]
    rfl
  | cons arrival arrivals ih =>
    obtain ⟨reply, next, hsent⟩ : ∃ reply next, server.send subscription.connection
        (arrival.acknowledgement subscription.settings.group) state = (reply, next) := ⟨_, _, rfl⟩
    rw [List.map_cons, acknowledgeAll_cons hsent, acknowledgeAll_cons (Server.send_watched hsent)]
    by_cases hreply : reply.isAcknowledged
    · rw [if_pos hreply, if_pos hreply]
      obtain ⟨result, state', exchanges, hplain, hwatched, hacknowledges⟩ :=
        ih next (log ++ [(arrival.acknowledgement subscription.settings.group, reply)])
      refine ⟨result, state', _ :: exchanges, hplain, ?_, hacknowledges.cons hreply⟩
      rw [hwatched, List.append_assoc, List.singleton_append]
    · rw [if_neg hreply, if_neg hreply]
      refine ⟨_, next, _, rfl, rfl, .upTo (List.nil_append _).symm (List.nil_append _).symm rfl ?_
        (Bool.eq_false_iff.mpr hreply)⟩
      exact fun exchange hmem => absurd hmem List.not_mem_nil

/-! ## One read -/

/-- The subscription after a read that brought batches, when acknowledging came to a result. -/
def sortedIn (subscription : Subscription) (batches : List StreamBatch)
    (result : Except Fault Unit) : Subscription :=
  { subscription with
    buffered := subscription.buffered ++ (subscription.sort batches).messages
    drained := subscription.drained || result.isOk && (subscription.sort batches).received == 0 }

theorem readBatch_of_none
    (h : server.send subscription.connection subscription.readCommand state = (reply, next))
    (hnone : reply.batches? = none) :
    readBatch server subscription state = (.error (.streamCall .read), subscription, next) := by
  rw [readBatch, h]
  simp only [hnone]

theorem readBatch_of_batches {batches : List StreamBatch} {result : Except Fault Unit} {last : σ}
    (h : server.send subscription.connection subscription.readCommand state = (reply, next))
    (hbatches : reply.batches? = some batches)
    (hall : acknowledgeAll server subscription (subscription.sort batches).malformed next =
      (result, last)) :
    readBatch server subscription state = (result, subscription.sortedIn batches result, last) := by
  rw [readBatch, h]
  simp only [hbatches, hall, sortedIn]
  cases result with
  | error fault => simp only [Except.isOk, Except.toBool, Bool.false_and, Bool.or_false]
  | ok done => simp only [Except.isOk, Except.toBool, Bool.true_and]

/-- What a read does when its reply has batches: the buffer gets the messages of the arrivals, and
the arrivals without a message are acknowledged, up to the first that fails.  The backlog has been
read to its end if there was nothing in it. -/
structure Sorts (subscription : Subscription) (batches : List StreamBatch)
    (result : Except Fault Unit) (after : Subscription) (exchanges : List Exchange) : Prop where
  settings : after.settings = subscription.settings
  connection : after.connection = subscription.connection
  buffered : after.buffered =
    subscription.buffered ++ (subscription.arrivals batches).filterMap Arrival.message?
  acknowledges : Acknowledges subscription.settings.group
    ((subscription.arrivals batches).filter (·.message?.isNone)) exchanges result
  drained : after.drained ↔
    subscription.drained ∨ result = .ok () ∧ subscription.arrivals batches = []

theorem sorts_sortedIn {batches : List StreamBatch} {result : Except Fault Unit}
    {exchanges : List Exchange}
    (h : Acknowledges subscription.settings.group
      ((subscription.arrivals batches).filter (·.message?.isNone)) exchanges result) :
    subscription.Sorts batches result (subscription.sortedIn batches result) exchanges where
  settings := rfl
  connection := rfl
  buffered := by rw [sortedIn, messages_sort_eq]
  acknowledges := h
  drained := by
    rw [sortedIn, received_sort_eq]
    cases result with
    | error fault => simp [Except.isOk, Except.toBool]
    | ok done => simp [Except.isOk, Except.toBool]

/-- **One read takes its reply apart.**  A read sends its command first.  Without batches in the
reply it fails, and the subscription is as it was.  Otherwise the arrivals with a message go into the
buffer, behind what is there, and the other arrivals are acknowledged, in the order of the reply and
up to the first that fails; nothing else is sent.  The subscription goes over to new entries if it
was not there and the read succeeds without arrivals, and never goes back.  To watch the server makes
no difference. -/
theorem read_shares_out_arrivals (server : Server σ) (subscription : Subscription) (state : σ)
    (log : List Exchange) :
    let reply := (server.send subscription.connection subscription.readCommand state).1
    ∃ (result : Except Fault Unit) (after : Subscription) (state' : σ) (exchanges : List Exchange),
      readBatch server subscription state = (result, after, state') ∧
      readBatch server.watched subscription (state, log) =
        (result, after, state', log ++ (subscription.readCommand, reply) :: exchanges) ∧
      (reply.batches? = none →
        result = .error (.streamCall .read) ∧ after = subscription ∧ exchanges = []) ∧
      ∀ batches, reply.batches? = some batches →
        subscription.Sorts batches result after exchanges := by
  intro reply
  obtain ⟨next, hsent⟩ : ∃ next, server.send subscription.connection subscription.readCommand state =
      (reply, next) := ⟨_, rfl⟩
  have hwatching : server.watched.send subscription.connection subscription.readCommand
      (state, log) = (reply, next, log ++ [(subscription.readCommand, reply)]) :=
    Server.send_watched hsent
  cases hbatches : reply.batches? with
  | none =>
    refine ⟨_, _, _, [], readBatch_of_none hsent hbatches, readBatch_of_none hwatching hbatches,
      fun _ => ⟨rfl, rfl, rfl⟩, fun _ h => ?_⟩
    cases h
  | some batches =>
    obtain ⟨result, last, exchanges, hplain, hwatched, hacknowledges⟩ :=
      acknowledgeAll_watched server subscription
        ((subscription.arrivals batches).filter (·.message?.isNone)) next
        (log ++ [(subscription.readCommand, reply)])
    rw [← malformed_sort_eq] at hplain hwatched
    refine ⟨result, subscription.sortedIn batches result, last, exchanges,
      readBatch_of_batches hsent hbatches hplain, ?_, fun h => ?_, fun _ h => ?_⟩
    · rw [readBatch_of_batches hwatching hbatches hwatched, List.append_assoc,
        List.singleton_append]
    · cases h
    · cases h
      exact sorts_sortedIn hacknowledges

end Watched

/-- A subscription with a message in its buffer, which has read its backlog to the end. -/
def waiting : Subscription where
  settings := { consumer := "engine-1" }
  connection := 0
  drained := true
  buffered := [⟨"1-0", .jobCeilings "medic"⟩]

/-- Entries of three streams, of which one is nobody's. -/
def pendingEntries : List StreamBatch :=
  [⟨"elsewhere", [⟨"2-0", []⟩]⟩,
    ⟨waiting.settings.key .roleGrants,
      [⟨"3-0", []⟩, ⟨"4-0", [(Event.payloadField, some (Event.roleGrants ⟨7⟩).encode)]⟩]⟩,
    ⟨waiting.settings.key .jobCeilings,
      [⟨"5-0", [(Event.payloadField, none)]⟩, ⟨"6-0", [(Event.payloadField, some "")]⟩]⟩]

/-- A server that brings these entries, and loses all acknowledgements but the first. -/
def forgetful : Server Unit where
  connect state := (some 0, state)
  send _ command state :=
    match command with
    | .read .. => (.batches pendingEntries, state)
    | .acknowledge _ _ "3-0" => (.number 1, state)
    | _ => (.lost, state)

/-- The one good entry is in the buffer although an acknowledgement is lost, and no acknowledgement
is sent after that one. -/
theorem read_with_lost_acknowledgement :
    let run := readBatch forgetful.watched waiting ((), [])
    waiting.Sorts pendingEntries run.1 run.2.1 run.2.2.2.tail ∧
      run.1 = .error (.streamCall (.acknowledge "5-0" "perms.jobattr.update")) ∧
      run.2.1.buffered = [⟨"1-0", .jobCeilings "medic"⟩, ⟨"4-0", .roleGrants ⟨7⟩⟩] ∧
      run.2.2.2.tail =
        [(.acknowledge "perms.roleperm.update" "rankguard" "3-0", .number 1),
          (.acknowledge "perms.jobattr.update" "rankguard" "5-0", .lost)] := by
  intro run
  obtain ⟨result, after, state, exchanges, -, hwatched, -, hsorts⟩ :=
    read_shares_out_arrivals forgetful waiting () []
  have hrun : run = (result, after, state,
      [] ++ (waiting.readCommand, .batches pendingEntries) :: exchanges) := hwatched
  refine ⟨?_, by decide +kernel⟩
  rw [hrun]
  exact hsorts pendingEntries rfl

end Subscription

end GradedAccess
