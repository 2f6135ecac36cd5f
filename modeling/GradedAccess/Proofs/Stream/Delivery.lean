import GradedAccess.Proofs.Stream.Accounts
import Mathlib.Algebra.GroupWithZero.Nat
import Mathlib.Algebra.Order.BigOperators.Group.List
import Mathlib.Algebra.Order.Group.Nat

/-!
# Nothing is lost

What a consumer makes of its streams, whatever the server and other clients do.  Every chapter is
orderly: entries are acknowledged only when nobody can apply them or the user has asked for it, no
entry is returned twice, and the entries of a stream are returned in its order.  And a subscription
that is answered from now on returns all of its backlog: while a message of the backlog has not been
returned, some number of reads is enough for a message, and each round of taking a message and
having it acknowledged leaves fewer entries pending.
-/

namespace GradedAccess

open Broker Subscription

variable {settings : StreamSettings}
  {schedule : Nat → Occasion settings.group settings.consumer}

namespace Consumer

/-! ## Every chapter is orderly -/

/-- What holds of a subscription that is open. -/
def PhaseSound (settings : StreamSettings) (state : Consumer) : Prop :=
  match state.phase with
  | .idle => True
  | .ready subscription => Working settings state.backlog state.served subscription none
  | .holding subscription message =>
    Working settings state.backlog state.served subscription (some message)

/-- What holds of a consumer at any time. -/
structure Sound (settings : StreamSettings) (state : Consumer) : Prop where
  past : ∀ chapter ∈ state.past, chapter.Orderly settings
  phase : state.PhaseSound settings

theorem sound_start (settings : StreamSettings) (served : Served) :
    Sound settings { served } where
  past := fun _ hmem => absurd hmem List.not_mem_nil
  phase := trivial

variable {state : Consumer}

theorem orderly_concat {past : List Chapter} {last : Chapter}
    (hpast : ∀ chapter ∈ past, chapter.Orderly settings) (hlast : last.Orderly settings) :
    ∀ chapter ∈ past ++ [last], chapter.Orderly settings := by
  intro other hmem
  rcases List.mem_append.mp hmem with hmem | hmem
  · exact hpast other hmem
  · rwa [List.mem_singleton.mp hmem]

/-- All chapters are orderly, with the open one. -/
theorem Sound.chapters (h : state.Sound settings) :
    ∀ chapter ∈ state.chapters, chapter.Orderly settings := by
  have hphase := h.phase
  rw [PhaseSound] at hphase
  rw [Consumer.chapters]
  cases hcase : state.phase with
  | idle => exact h.past
  | ready subscription =>
    rw [hcase] at hphase
    exact orderly_concat h.past hphase.faithful.orderly
  | holding subscription message =>
    rw [hcase] at hphase
    exact orderly_concat h.past hphase.faithful.orderly

/-- A call that fails ends the chapter. -/
theorem Sound.fail (h : state.Sound settings) {served : Served}
    (hfaithful : Faithful settings state.backlog served) : (state.fail served).Sound settings where
  past := orderly_concat h.past hfaithful.orderly
  phase := trivial

theorem Sound.subscribe (h : state.Sound settings) :
    (state.subscribe settings schedule).Sound settings := by
  rw [Consumer.subscribe]
  split
  · next subscription served hsubscribe =>
    exact ⟨h.chapters, working_of_subscribe rfl hsubscribe⟩
  · exact ⟨h.chapters, trivial⟩

theorem Sound.next (h : state.Sound settings) {subscription : Subscription}
    (hworking : Working settings state.backlog state.served subscription none) (reads : Nat) :
    (state.next settings schedule subscription reads).Sound settings := by
  have hafter : AfterNext settings state.backlog
      (subscription.nextMessage (server schedule) state.served reads) :=
    hworking.nextMessage reads
  rw [Consumer.next]
  split
  · next message subscription' served hnext =>
    rw [hnext] at hafter
    exact ⟨h.past, hafter⟩
  · next fault subscription' served hnext =>
    rw [hnext] at hafter
    exact h.fail hafter
  · next subscription' served hnext =>
    rw [hnext] at hafter
    exact ⟨h.past, hafter⟩

theorem Sound.acknowledge (h : state.Sound settings) {subscription : Subscription}
    {message : Message}
    (hworking : Working settings state.backlog state.served subscription (some message)) :
    (state.acknowledge settings schedule subscription message).Sound settings := by
  rw [Consumer.acknowledge]
  split
  · next served hack => exact ⟨h.past, hworking.acknowledge hack⟩
  · next fault served hack =>
    have hsince := since_acknowledgeEntry schedule subscription
      (note state.served (.acknowledging message))
      (subscription.settings.key message.event.subject) message.delivery
    have horder := hworking.inOrder_acknowledge schedule
    rw [← Subscription.acknowledge, hack] at hsince
    rw [hack] at horder
    refine h.fail ⟨horder, fun subject => ?_⟩
    have hreturned : returnedIn served.notes = returnedIn state.served.notes := by
      rw [hsince.returnedIn_eq, note, returnedIn, List.filterMap_append]
      exact List.append_nil _
    rw [hreturned]
    exact (hworking.faithful.returned subject).trans ((hsince.grows _).entries.filterMap _)

/-- Every move keeps the chapters orderly. -/
theorem Sound.step (h : state.Sound settings) (move : Move) :
    (state.step settings schedule move).Sound settings := by
  have hphase := h.phase
  rw [PhaseSound] at hphase
  cases move with
  | subscribe => exact h.subscribe
  | next reads =>
    rw [Consumer.step]
    split
    · next subscription hcase =>
      rw [hcase] at hphase
      exact h.next hphase reads
    · exact h
  | acknowledge =>
    rw [Consumer.step]
    split
    · next subscription message hcase =>
      rw [hcase] at hphase
      exact h.acknowledge hphase
    · exact h

theorem Sound.run (h : state.Sound settings) (moves : List Move) :
    (state.run settings schedule moves).Sound settings := by
  induction moves generalizing state with
  | nil => exact h
  | cons move moves ih => exact ih (h.step move)

/-! ## The backlog is returned -/

/-- How many entries are pending for the consumer. -/
def pendingCount (settings : StreamSettings) (broker : Broker) : Nat :=
  (Subject.all.map fun subject => (pendingOn settings broker subject).length).sum

theorem pendingCount_le {broker broker' : Broker}
    (h : ∀ subject, (pendingOn settings broker' subject).length
      ≤ (pendingOn settings broker subject).length) :
    pendingCount settings broker' ≤ pendingCount settings broker :=
  List.sum_le_sum fun subject _ => h subject

theorem pendingCount_lt {broker broker' : Broker}
    (h : ∀ subject, (pendingOn settings broker' subject).length
      ≤ (pendingOn settings broker subject).length)
    (subject : Subject) (hlt : (pendingOn settings broker' subject).length
      < (pendingOn settings broker subject).length) :
    pendingCount settings broker' < pendingCount settings broker :=
  List.sum_lt_sum _ _ (fun subject _ => h subject) ⟨subject, subject.mem_all, hlt⟩

theorem pendingCount_pos {broker : Broker} {subject : Subject}
    (h : pendingOn settings broker subject ≠ []) : 0 < pendingCount settings broker := by
  refine Nat.lt_of_lt_of_le (List.length_pos_iff.mpr h) ?_
  exact List.single_le_sum (fun _ _ => Nat.zero_le _) _
    (List.mem_map_of_mem (f := fun subject => (pendingOn settings broker subject).length)
      subject.mem_all)

end Consumer

open Consumer

section Progress

variable {backlog : Backlog} {served served' : Served}
  {subscription subscription' : Subscription}

/-- While a message of the backlog has not been returned and none waits in the buffer, an entry is
pending that has not been read. -/
theorem Working.exists_pending (h : Working settings backlog served subscription none)
    (hempty : subscription.buffered = []) (hleft : ¬BacklogReturned backlog served.notes) :
    subscription.drained = false ∧ ∃ subject, pendingOn settings served.broker subject ≠ [] := by
  constructor
  · cases hdrained : subscription.drained with
    | false => rfl
    | true => exact absurd (h.backlogReturned hdrained hempty) hleft
  · by_contra hnone
    refine hleft fun subject entry hentry message hmessage => ?_
    obtain ⟨waiting, rest, haccounts⟩ := h.accounts subject
    rcases haccounts.backlog entry hentry message hmessage with hreturned | hwaits | hrest
    · exact hreturned
    · rw [hempty] at hwaits
      cases hwaits
    · rw [← haccounts.pending_eq_rest hempty] at hrest
      exact absurd ⟨subject, List.ne_nil_of_mem hrest⟩ hnone

/-- A read that is answered succeeds. -/
theorem Working.readBatch_of_answered (h : Working settings backlog served subscription none)
    (hanswered : AnsweredFrom schedule served.clock) :
    ∃ subscription' served', subscription.readBatch (server schedule) served
      = (.ok (), subscription', served') := by
  have hsome := isSome_batches?_afterRead h.configured
    (hanswered served.clock (Nat.le_refl _)) h.joined
  have hafter : AnsweredFrom schedule (afterRead schedule subscription served).2.clock :=
    hanswered.mono (Nat.le_succ _)
  rcases readBatch_cases schedule subscription served with
    ⟨fault, hnone, -⟩ | ⟨batches, -, ⟨fault, hfault, -⟩ | ⟨-, heq⟩⟩
  · rw [hnone] at hsome
    cases hsome
  · rw [acknowledgeAll_of_answered h.configured hafter] at hfault
    cases hfault
  · exact ⟨_, _, heq⟩

/-- A read of the backlog either brings a message, or there are fewer entries pending. -/
theorem Working.progress_readBatch (h : Working settings backlog served subscription none)
    (hempty : subscription.buffered = []) (hleft : ¬BacklogReturned backlog served.notes)
    (hread : subscription.readBatch (server schedule) served = (.ok (), subscription', served')) :
    pendingCount settings served'.broker ≤ pendingCount settings served.broker ∧
      (subscription'.buffered = [] →
        pendingCount settings served'.broker < pendingCount settings served.broker) := by
  obtain ⟨hdrained, subject, hpending⟩ := h.exists_pending hempty hleft
  obtain ⟨received, hrefilled, htake, -⟩ := refilled_of_readBatch h.configured hempty
    (fun h => absurd h (hdrained ▸ Bool.false_ne_true)) hread
  have hcount : ∀ subject, (pendingOn settings served.broker subject).length
      = (received subject).length
        + ((pendingOn settings served.broker subject).drop (max settings.batchSize 1)).length := by
    intro subject
    rw [htake hdrained, ← List.length_append, List.take_append_drop]
  have hle : ∀ subject, (pendingOn settings served'.broker subject).length
      ≤ (pendingOn settings served.broker subject).length := by
    intro subject
    rw [(hrefilled subject).pending, List.length_append, hcount]
    exact Nat.add_le_add_right (List.length_filter_le _ _) _
  refine ⟨pendingCount_le hle, fun hnone => pendingCount_lt hle subject ?_⟩
  -- Nothing was put into the buffer, so all that was received is malformed.
  have hbuffered := (hrefilled subject).buffered
  rw [hnone] at hbuffered
  have hfilter :
      ((received subject).filter fun entry => (messageIn subject entry).isSome) = [] := by
    have hmap := map_filter_isSome subject (received subject)
    rw [← hbuffered] at hmap
    exact List.map_eq_nil_iff.mp hmap
  have hreceived : 0 < (received subject).length := by
    rw [htake hdrained, List.length_take]
    have hpos := List.length_pos_iff.mpr hpending
    omega
  rw [(hrefilled subject).pending, hfilter, List.nil_append, hcount]
  omega

theorem Working.returned_of_since (hsince : served.Since settings served')
    (hleft : ¬BacklogReturned backlog served.notes) :
    ¬BacklogReturned backlog served'.notes := by
  intro hreturned
  refine hleft fun subject entry hentry message hmessage => ?_
  have hmem := hreturned subject entry hentry message hmessage
  rwa [← mem_returnedIn, hsince.returnedIn_eq, mem_returnedIn] at hmem

/-- While a message of the backlog has not been returned, as many reads as entries are pending are
enough for a message. -/
theorem Working.nextMessage_of_answered (h : Working settings backlog served subscription none)
    (hanswered : AnsweredFrom schedule served.clock)
    (hleft : ¬BacklogReturned backlog served.notes) {reads : Nat}
    (hreads : pendingCount settings served.broker ≤ reads) :
    ∃ message subscription' served',
      subscription.nextMessage (server schedule) served reads
        = (some (.ok message), subscription', served') ∧
      pendingCount settings served'.broker ≤ pendingCount settings served.broker ∧
      served.clock ≤ served'.clock := by
  induction reads generalizing served subscription with
  | zero =>
    cases hbuffered : subscription.buffered with
    | nil =>
      obtain ⟨-, subject, hpending⟩ := h.exists_pending hbuffered hleft
      exact absurd (pendingCount_pos hpending) (Nat.not_lt.mpr hreads)
    | cons message buffered =>
      refine ⟨message, { subscription with buffered }, served, ?_, Nat.le_refl _, Nat.le_refl _⟩
      rw [Subscription.nextMessage, take?, hbuffered]
  | succ reads ih =>
    cases hbuffered : subscription.buffered with
    | cons message buffered =>
      refine ⟨message, { subscription with buffered }, served, ?_, Nat.le_refl _, Nat.le_refl _⟩
      rw [Subscription.nextMessage, take?, hbuffered]
    | nil =>
      obtain ⟨subscription', served', hread⟩ := h.readBatch_of_answered hanswered
      have hsince := since_readBatch schedule subscription served
      rw [hread] at hsince
      obtain ⟨hle, hlt⟩ := h.progress_readBatch hbuffered hleft hread
      have hworking := h.readBatch hbuffered hread
      have hanswered' := hanswered.mono hsince.clock
      have hleft' := Working.returned_of_since hsince hleft
      have hnext : subscription.nextMessage (server schedule) served (reads + 1)
          = subscription'.nextMessage (server schedule) served' reads := by
        rw [Subscription.nextMessage, take?, hbuffered]
        dsimp only
        rw [hread]
      rw [hnext]
      cases hbuffered' : subscription'.buffered with
      | nil =>
        obtain ⟨message, last, final, heq, hcount, hclock⟩ := ih hworking hanswered' hleft'
          (by have := hlt hbuffered'; omega)
        exact ⟨message, last, final, heq, Nat.le_trans hcount hle,
          Nat.le_trans hsince.clock hclock⟩
      | cons message buffered =>
        refine ⟨message, { subscription' with buffered }, served', ?_, hle, hsince.clock⟩
        cases reads with
        | zero => rw [Subscription.nextMessage, take?, hbuffered']
        | succ reads => rw [Subscription.nextMessage, take?, hbuffered']

/-- An acknowledgement that is answered succeeds, and leaves fewer entries pending. -/
theorem Working.acknowledge_of_answered {message : Message}
    (h : Working settings backlog served subscription (some message))
    (hanswered : AnsweredFrom schedule served.clock) :
    ∃ served', subscription.acknowledge (server schedule) message
        (note served (.acknowledging message)) = (.ok (), served') ∧
      served.clock ≤ served'.clock ∧
      pendingCount settings served'.broker < pendingCount settings served.broker := by
  have hok : (subscription.acknowledge (server schedule) message
      (note served (.acknowledging message))).1 = .ok () :=
    acknowledgeEntry_of_answered h.configured (hanswered served.clock (Nat.le_refl _))
  have hsince := since_acknowledgeEntry schedule subscription
    (note served (.acknowledging message))
    (subscription.settings.key message.event.subject) message.delivery
  rw [← Subscription.acknowledge] at hsince
  obtain ⟨served', hack⟩ : ∃ served', subscription.acknowledge (server schedule) message
      (note served (.acknowledging message)) = (.ok (), served') := ⟨_, Prod.ext hok rfl⟩
  rw [hack] at hsince
  refine ⟨served', hack, hsince.clock, ?_⟩
  refine pendingCount_lt (fun subject => ?_) message.event.subject ?_
  · obtain ⟨waiting, rest, haccounts, hpending⟩ := h.pendingOn_acknowledge hack subject
    rw [hpending, haccounts.pending, List.length_append, List.length_append]
    split
    · rw [List.length_tail]
      omega
    · exact Nat.le_refl _
  · obtain ⟨waiting, rest, haccounts, hpending⟩ :=
      h.pendingOn_acknowledge hack message.event.subject
    have hwaiting := congrArg List.length haccounts.waiting
    rw [Option.toList_some, List.singleton_append, onSubject_cons_of_eq _ rfl, List.map_cons,
      List.length_map, List.length_cons] at hwaiting
    rw [hpending, haccounts.pending, List.length_append, List.length_append, if_pos rfl,
      List.length_tail]
    omega

end Progress

namespace Consumer

variable {state : Consumer} {subscription : Subscription}

/-- Taking messages and having them acknowledged, so many times. -/
def rounds (reads : Nat) : Nat → List Move
  | 0 => []
  | count + 1 => .next reads :: .acknowledge :: rounds reads count

/-- While a message of the backlog has not been returned, a round leaves fewer entries pending. -/
theorem exists_round (hphase : state.phase = .ready subscription)
    (hworking : Working settings state.backlog state.served subscription none)
    (hanswered : AnsweredFrom schedule state.served.clock)
    (hleft : ¬BacklogReturned state.backlog state.served.notes) {reads : Nat}
    (hreads : pendingCount settings state.served.broker ≤ reads) :
    ∃ subscription' served',
      (state.step settings schedule (.next reads)).step settings schedule .acknowledge
        = { state with served := served', phase := .ready subscription' } ∧
      Working settings state.backlog served' subscription' none ∧
      state.served.clock ≤ served'.clock ∧
      pendingCount settings served'.broker < pendingCount settings state.served.broker := by
  obtain ⟨message, subscription', served, hnext, hcount, hclock⟩ :=
    hworking.nextMessage_of_answered hanswered hleft hreads
  have hholding : AfterNext settings state.backlog
      (subscription.nextMessage (server schedule) state.served reads) :=
    hworking.nextMessage reads
  rw [hnext] at hholding
  obtain ⟨served', hack, hclock', hcount'⟩ := Working.acknowledge_of_answered hholding
    (hanswered.mono hclock)
  refine ⟨subscription', served', ?_, hholding.acknowledge hack,
    Nat.le_trans hclock hclock', Nat.lt_of_lt_of_le hcount' hcount⟩
  have hstep : state.step settings schedule (.next reads) = { state with
      served := note served (.returned message)
      phase := .holding subscription' message } := by
    rw [Consumer.step, hphase]
    dsimp only
    rw [Consumer.next, hnext]
  rw [hstep, Consumer.step]
  dsimp only
  rw [Consumer.acknowledge, hack]

/-- Some number of rounds returns the whole backlog. -/
theorem exists_rounds (hphase : state.phase = .ready subscription)
    (hworking : Working settings state.backlog state.served subscription none)
    (hanswered : AnsweredFrom schedule state.served.clock) {reads : Nat}
    (hreads : pendingCount settings state.served.broker ≤ reads) :
    ∃ count subscription' served', state.run settings schedule (rounds reads count)
        = { state with served := served', phase := .ready subscription' } ∧
      BacklogReturned state.backlog served'.notes := by
  induction hcount : pendingCount settings state.served.broker using Nat.strongRecOn
    generalizing state subscription with
  | ind number ih =>
    by_cases hleft : BacklogReturned state.backlog state.served.notes
    · refine ⟨0, subscription, state.served, ?_, hleft⟩
      rw [← hphase]
      rfl
    · obtain ⟨subscription', served', hround, hworking', hclock, hlt⟩ :=
        exists_round hphase hworking hanswered hleft hreads
      have hready : ({ state with served := served', phase := .ready subscription' } :
          Consumer).phase = .ready subscription' := rfl
      obtain ⟨count, last, final, hrun, hreturned⟩ := ih _ (hcount ▸ hlt) hready hworking'
        (hanswered.mono hclock) (Nat.le_trans (Nat.le_of_lt hlt) hreads) rfl
      refine ⟨count + 1, last, final, ?_, hreturned⟩
      rw [rounds, Consumer.run, List.foldl_cons, List.foldl_cons, hround]
      exact hrun

/-- **Nothing is lost and nothing is confused.**  Whatever the settings, the streams and the
schedule of other clients and failures, and whatever the user does, every chapter is orderly.  And a
subscription that is answered from some time on returns all that was pending when it was opened, if
only the user goes on taking messages and having them acknowledged. -/
theorem delivers_at_least_once (settings : StreamSettings)
    (schedule : Nat → Occasion settings.group settings.consumer) (served : Served)
    (moves : List Move) :
    let state := ({ served } : Consumer).run settings schedule moves
    (∀ chapter ∈ state.chapters, chapter.Orderly settings) ∧
    ∀ subscription, state.phase = .ready subscription →
      AnsweredFrom schedule state.served.clock →
      ∃ reads count subscription' served',
        state.run settings schedule (rounds reads count)
          = { state with served := served', phase := .ready subscription' } ∧
        BacklogReturned state.backlog served'.notes := by
  intro state
  have hsound : state.Sound settings := (sound_start settings served).run moves
  refine ⟨hsound.chapters, fun subscription hphase hanswered => ?_⟩
  have hworking := hsound.phase
  rw [PhaseSound, hphase] at hworking
  exact ⟨_, exists_rounds hphase hworking hanswered (Nat.le_refl _)⟩

/-! A consumer that stopped with two entries pending, of which nobody can apply the second, and
comes back after another entry has been appended. -/

def workerSettings : StreamSettings := { consumer := "worker" }

/-- The announcement of a change to the grants of a role. -/
def announcedEntry : LogEntry :=
  ⟨⟨1, 0⟩, [(Event.payloadField, some (Event.encode (.roleGrants ⟨1⟩)))]⟩

/-- An entry without a payload. -/
def emptyEntry : LogEntry := ⟨⟨1, 1⟩, []⟩

/-- The stream that the consumer comes back to. -/
def leftBehind : StreamLog :=
  (((((StreamLog.empty.join workerSettings.group).append announcedEntry).append
    emptyEntry).deliver workerSettings.group workerSettings.consumer 2).append
      { announcedEntry with number := ⟨2, 0⟩ })

/-- The schedule on which every command is answered and nobody else does anything. -/
def undisturbed : Nat → Occasion workerSettings.group workerSettings.consumer :=
  fun _ => { outcome := .answered fun _ => 10 }

/-- The consumer once it has subscribed again. -/
def resumed : Consumer :=
  ({ served := { broker := fun key =>
      if key = workerSettings.key .roleGrants then leftBehind else .empty } } : Consumer).run
    workerSettings undisturbed [.subscribe]

theorem resumed_returns_backlog :
    resumed.backlog .roleGrants = [announcedEntry, emptyEntry] ∧
    messageIn .roleGrants announcedEntry = some ⟨"1-0", .roleGrants ⟨1⟩⟩ ∧
    (∀ chapter ∈ resumed.chapters, chapter.Orderly workerSettings) ∧
    ∃ reads count subscription served,
      resumed.run workerSettings undisturbed (rounds reads count)
        = { resumed with served := served, phase := .ready subscription } ∧
      BacklogReturned resumed.backlog served.notes := by
  obtain ⟨horderly, hreturned⟩ := delivers_at_least_once workerSettings undisturbed
    { broker := fun key => if key = workerSettings.key .roleGrants then leftBehind else .empty }
    [.subscribe]
  exact ⟨rfl, by decide +kernel, horderly,
    hreturned { settings := workerSettings, connection := 0 } rfl fun _ _ => trivial⟩

/-- Two rounds of one read each return the message that was pending and the new one, in order. -/
example : (returnedIn (resumed.run workerSettings undisturbed (rounds 2 2)).served.notes).map
    Message.delivery = ["1-0", "2-0"] := by
  decide +kernel

end Consumer

end GradedAccess
