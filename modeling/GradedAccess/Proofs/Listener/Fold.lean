import GradedAccess.Proofs.Listener.Steps
import GradedAccess.Proofs.Reload.Failure
import GradedAccess.Proofs.Store.Plain

/-!
# A run is the fold of its messages

What a listener does to an engine, for every bus and every store.  Whenever it is not in the middle
of a reload, the caches are what applying the returned messages one after another makes of the
caches it began with.  Nothing else touches them: neither a subscription that ends or fails, nor an
acknowledgement that is refused, nor a reload that fails.

Towards the bus, every message that a subscription returns is acknowledged exactly once, on that
subscription, when its reload is over, and before the subscription is asked for another one.  A
subscription that has ended, failed or refused an acknowledgement is left alone, and the next call
subscribes again.

Both are invariants of single steps.  `Ledger` is about the messages and what has been made of them,
`Standing` about the last call and the subscription that is open.
-/

namespace GradedAccess

/-- A reload that an event announces leaves the caches as they were when it fails. -/
theorem Source.caches_applyEvent_of_error {σ : Type} (source : Source σ) {event : Event}
    {state : Loaded σ} {fault : Fault} (h : (source.applyEvent event state).1 = .error fault) :
    (source.applyEvent event state).2.caches = state.caches := by
  cases event with
  | roleGrants role => exact source.caches_reloadGrants_of_error h
  | roleValues role => exact source.caches_reloadValues_of_error h
  | jobCeilings job => exact source.caches_reloadJob_of_error h

namespace Listener

/-! ## Calls in order -/

namespace Call

/-- The subscription a call is about. -/
def number? : Call → Option Nat
  | opened number | asking number | read number _ | reloaded number _ _
  | acknowledged number _ _ => some number
  | subscribing | refused _ => none

/-- Whether a call is the end of a subscription. -/
def Ends (number : Nat) : Call → Prop
  | read number' .closed | read number' (.failed _) | acknowledged number' _ (some _) =>
    number' = number
  | _ => False

/-- The message that a subscription has returned. -/
def returned? : Call → Option (Nat × Message)
  | read number (.message message) => some (number, message)
  | _ => none

/-- The message whose reload is over. -/
def reloaded? : Call → Option (Nat × Message)
  | reloaded number message _ => some (number, message)
  | _ => none

/-- The message that a subscription was told is done. -/
def acknowledged? : Call → Option (Nat × Message)
  | acknowledged number message _ => some (number, message)
  | _ => none

end Call

/-- Which calls may follow which. -/
inductive Follows : Option Call → Call → Prop where
  | first : Follows none .subscribing
  | nudged : Follows (some .subscribing) .subscribing
  | refused (fault : Fault) : Follows (some .subscribing) (.refused fault)
  | again (fault : Fault) : Follows (some (.refused fault)) .subscribing
  | opened (number : Nat) : Follows (some .subscribing) (.opened number)
  | asking (number : Nat) : Follows (some (.opened number)) (.asking number)
  | asked (number : Nat) : Follows (some (.asking number)) (.asking number)
  | read (number : Nat) (reading : Reading) :
    Follows (some (.asking number)) (.read number reading)
  | reloaded (number : Nat) (message : Message) (result : Except Fault Report) :
    Follows (some (.read number (.message message))) (.reloaded number message result)
  | acknowledged (number : Nat) (message : Message) (result : Except Fault Report)
      (refusal : Option Fault) :
    Follows (some (.reloaded number message result)) (.acknowledged number message refusal)
  | next (number : Nat) (message : Message) :
    Follows (some (.acknowledged number message none)) (.asking number)
  | over {number : Nat} {last : Call} (hlast : last.Ends number) :
    Follows (some last) .subscribing

/-- Whether a call is in order after others: it may follow the last one, it is not about a
subscription that is over, and a subscription that is opened is a new one. -/
structure InOrder (before : List Call) (call : Call) : Prop where
  follows : Follows before.getLast? call
  alive : ∀ number, call.number? = some number → ∀ earlier ∈ before, ¬earlier.Ends number
  new : ∀ number, call = .opened number → ∀ earlier ∈ before, earlier.number? ≠ some number

/-- The messages that have been returned, each with the number of its subscription. -/
def returnedIn (calls : List Call) : List (Nat × Message) := calls.filterMap Call.returned?

/-- The messages whose reloads are over. -/
def reloadedIn (calls : List Call) : List (Nat × Message) := calls.filterMap Call.reloaded?

/-- The messages that have been acknowledged, whether the subscription took it or not. -/
def acknowledgedIn (calls : List Call) : List (Nat × Message) :=
  calls.filterMap Call.acknowledged?

/-- The message that is being reloaded. -/
def Stage.inReload : Stage → List (Nat × Message)
  | reloading number message _ _ _ => [(number, message)]
  | _ => []

/-- The message that has been returned and not been acknowledged. -/
def Stage.inHand : Stage → List (Nat × Message)
  | reloading number message _ _ _ | acknowledging number message _ _ _ => [(number, message)]
  | _ => []

/-- The message that was delivered. -/
def delivered? : Instant × Happening → Option Message
  | (_, .delivered message) => some message
  | _ => none

/-- The messages that were delivered. -/
def deliveredIn (trace : List (Instant × Happening)) : List Message :=
  trace.filterMap delivered?

/-- Applies messages one after another. -/
def replay {σ : Type} (source : Source σ) (messages : List Message) (loaded : Loaded σ) :
    Loaded σ :=
  messages.foldl (fun loaded message => (source.applyEvent message.event loaded).2) loaded

theorem replay_concat {σ : Type} (source : Source σ) (messages : List Message)
    (message : Message) (loaded : Loaded σ) :
    replay source (messages ++ [message]) loaded
      = (source.applyEvent message.event (replay source messages loaded)).2 :=
  List.foldl_append

/-! ## What waiting leaves alone -/

variable {σ : Type} {listener : Listener σ}

/-- Whether nothing has been reloaded or delivered in between. -/
structure Rests (state state' : Listening σ) : Prop where
  engine : state'.engine = state.engine
  store : state'.store = state.store
  delivered : deliveredIn state'.trace = deliveredIn state.trace

theorem Rests.refl (state : Listening σ) : Rests state state := ⟨rfl, rfl, rfl⟩

theorem Rests.trans {state state' state'' : Listening σ} (h : Rests state state')
    (h' : Rests state' state'') : Rests state state'' :=
  ⟨h'.engine.trans h.engine, h'.store.trans h.store, h'.delivered.trans h.delivered⟩

theorem rests_note (happening : Happening) (state : Listening σ)
    (h : ∀ message, happening ≠ .delivered message) : Rests state (note happening state) := by
  refine ⟨rfl, rfl, ?_⟩
  rw [note, deliveredIn, List.filterMap_append]
  cases happening with
  | delivered message => exact absurd rfl (h message)
  | subscribing => exact List.append_nil _
  | opened => exact List.append_nil _
  | refused => exact List.append_nil _
  | applied event result => exact List.append_nil _
  | acknowledging message => exact List.append_nil _
  | retrying wait => exact List.append_nil _

theorem rests_waitUntil (deadline : Instant) (state : Listening σ) :
    Rests state (waitUntil deadline state).2 := ⟨rfl, rfl, rfl⟩

theorem rests_waitForever (state : Listening σ) : Rests state (waitForever state).2 := by
  rw [waitForever]
  split <;> exact ⟨rfl, rfl, rfl⟩

theorem rests_retry (listener : Listener σ) (state : Listening σ) :
    Rests state (listener.retry state).2 := by
  have hnote := rests_note (.retrying state.wait) state nofun
  have hwait := hnote.trans (rests_waitUntil (state.now + state.wait) _)
  rw [retry]
  split
  · next state' heq =>
    rw [heq] at hwait
    exact hwait
  · next woken state' hne heq =>
    rw [heq] at hwait
    exact ⟨hwait.engine, hwait.store, hwait.delivered⟩

/-! ## The ledger -/

/-- What has become of the messages: those that have been returned have been reloaded and
acknowledged, apart from the one in hand, and the caches are what the reloads have made. -/
structure Ledger (source : Source σ) (start : Listening σ) (state : Listening σ)
    (calls : List Call) (inReload inHand : List (Nat × Message)) : Prop where
  decisions : state.engine.decisions = start.engine.decisions
  loaded : (⟨state.engine.caches, state.store⟩ : Loaded σ)
    = replay source ((reloadedIn calls).map Prod.snd) ⟨start.engine.caches, start.store⟩
  reloaded : returnedIn calls = reloadedIn calls ++ inReload
  acknowledged : returnedIn calls = acknowledgedIn calls ++ inHand
  delivered : deliveredIn state.trace
    = deliveredIn start.trace ++ (returnedIn calls).map Prod.snd

/-- Whether a call is about no message. -/
def Call.Quiet (call : Call) : Prop :=
  call.returned? = none ∧ call.reloaded? = none ∧ call.acknowledged? = none

variable {source : Source σ} {start state state' : Listening σ} {calls : List Call}
  {inReload inHand : List (Nat × Message)}

/-- Waiting and quiet calls leave the ledger as it is. -/
theorem Ledger.quiet (h : Ledger source start state calls inReload inHand)
    (hrests : Rests state state') {call : Call} (hquiet : call.Quiet) :
    Ledger source start state' (calls ++ [call]) inReload inHand := by
  obtain ⟨hreturned, hreloaded, hacknowledged⟩ := hquiet
  have hreturned' : returnedIn (calls ++ [call]) = returnedIn calls := by
    simp [returnedIn, hreturned]
  have hreloaded' : reloadedIn (calls ++ [call]) = reloadedIn calls := by
    simp [reloadedIn, hreloaded]
  have hacknowledged' : acknowledgedIn (calls ++ [call]) = acknowledgedIn calls := by
    simp [acknowledgedIn, hacknowledged]
  refine ⟨?_, ?_, ?_, ?_, ?_⟩
  · rw [hrests.engine, h.decisions]
  · rw [hrests.engine, hrests.store, hreloaded', h.loaded]
  · rw [hreturned', hreloaded', h.reloaded]
  · rw [hreturned', hacknowledged', h.acknowledged]
  · rw [hrests.delivered, hreturned', h.delivered]

theorem Ledger.rests (h : Ledger source start state calls inReload inHand)
    (hrests : Rests state state') : Ledger source start state' calls inReload inHand := by
  refine ⟨?_, ?_, h.reloaded, h.acknowledged, ?_⟩
  · rw [hrests.engine, h.decisions]
  · rw [hrests.engine, hrests.store, h.loaded]
  · rw [hrests.delivered, h.delivered]

/-- A message that is returned is in hand, and its reload is to come. -/
theorem Ledger.read (h : Ledger source start state calls [] []) (number : Nat)
    (message : Message) :
    Ledger source start (note (.delivered message) state)
      (calls ++ [.read number (.message message)]) [(number, message)] [(number, message)] := by
  have hreturned : returnedIn (calls ++ [.read number (.message message)])
      = returnedIn calls ++ [(number, message)] := by simp [returnedIn, Call.returned?]
  have hreloaded : reloadedIn (calls ++ [.read number (.message message)])
      = reloadedIn calls := by simp [reloadedIn, Call.reloaded?]
  have hacknowledged : acknowledgedIn (calls ++ [.read number (.message message)])
      = acknowledgedIn calls := by simp [acknowledgedIn, Call.acknowledged?]
  refine ⟨h.decisions, ?_, ?_, ?_, ?_⟩
  · rw [hreloaded]
    exact h.loaded
  · rw [hreturned, hreloaded, h.reloaded, List.append_nil]
  · rw [hreturned, hacknowledged, h.acknowledged, List.append_nil]
  · rw [hreturned, List.map_append, ← List.append_assoc, ← h.delivered, note, deliveredIn,
      List.filterMap_append]
    rfl

/-- The reload of the message in hand is one more step of the fold. -/
theorem Ledger.reload {number : Nat} {message : Message}
    (h : Ledger listener.source start state calls [(number, message)] [(number, message)])
    (result : Except Fault Report) :
    Ledger listener.source start (listener.apply message.event state)
      (calls ++ [.reloaded number message result]) [] [(number, message)] := by
  have hreturned : returnedIn (calls ++ [.reloaded number message result])
      = returnedIn calls := by simp [returnedIn, Call.returned?]
  have hreloaded : reloadedIn (calls ++ [.reloaded number message result])
      = reloadedIn calls ++ [(number, message)] := by simp [reloadedIn, Call.reloaded?]
  have hacknowledged : acknowledgedIn (calls ++ [.reloaded number message result])
      = acknowledgedIn calls := by simp [acknowledgedIn, Call.acknowledged?]
  refine ⟨h.decisions, ?_, ?_, ?_, ?_⟩
  · rw [hreloaded, List.map_append, List.map_singleton, replay_concat, ← h.loaded]
    rfl
  · rw [hreturned, hreloaded, h.reloaded, List.append_nil]
  · rw [hreturned, hacknowledged, h.acknowledged]
  · rw [hreturned, ← h.delivered]
    show deliveredIn (state.trace ++ [_]) = _
    rw [deliveredIn, List.filterMap_append]
    exact List.append_nil _

/-- The message in hand is acknowledged. -/
theorem Ledger.acknowledge {number : Nat} {message : Message}
    (h : Ledger source start state calls [] [(number, message)]) (refusal : Option Fault) :
    Ledger source start (note (.acknowledging message) state)
      (calls ++ [.acknowledged number message refusal]) [] [] := by
  have hreturned : returnedIn (calls ++ [.acknowledged number message refusal])
      = returnedIn calls := by simp [returnedIn, Call.returned?]
  have hreloaded : reloadedIn (calls ++ [.acknowledged number message refusal])
      = reloadedIn calls := by simp [reloadedIn, Call.reloaded?]
  have hacknowledged : acknowledgedIn (calls ++ [.acknowledged number message refusal])
      = acknowledgedIn calls ++ [(number, message)] := by
    simp [acknowledgedIn, Call.acknowledged?]
  have hrests := rests_note (.acknowledging message) state nofun
  refine ⟨h.decisions, ?_, ?_, ?_, ?_⟩
  · rw [hreloaded]
    exact h.loaded
  · rw [hreturned, hreloaded, h.reloaded]
  · rw [hreturned, hacknowledged, h.acknowledged, List.append_nil]
  · rw [hreturned, hrests.delivered, h.delivered]

/-! ## The open subscription -/

/-- Whether a subscription has just said what it was last asked for, and is not over. -/
def Open (opened : Nat) (calls : List Call) (number : Nat) : Prop :=
  number < opened ∧ ∀ call ∈ calls, ¬call.Ends number

/-- What the calls so far say about the stage of a listener. -/
def Standing (stage : Stage) (opened : Nat) (calls : List Call) : Prop :=
  match stage with
  | .seeking _ | .retrying _ => Follows calls.getLast? .subscribing
  | .listening number _ _ => calls.getLast? = some (.asking number) ∧ Open opened calls number
  | .reloading number message _ _ _ =>
    calls.getLast? = some (.read number (.message message)) ∧ Open opened calls number
  | .acknowledging number message _ _ _ =>
    (∃ result, calls.getLast? = some (.reloaded number message result)) ∧
      Open opened calls number
  | .ended _ => True

/-- Whether the calls so far are in order, and about subscriptions that have been opened. -/
structure Proper (opened : Nat) (calls : List Call) : Prop where
  inOrder : EachAfter InOrder calls
  known : ∀ call ∈ calls, ∀ number, call.number? = some number → number < opened

variable {opened number : Nat} {last call : Call}

theorem follows_of_last (hlast : calls.getLast? = some last) (h : Follows (some last) call) :
    Follows calls.getLast? call := by
  rwa [hlast]

theorem follows_concat (calls : List Call) (h : Follows (some last) call) :
    Follows (calls ++ [last]).getLast? call :=
  follows_of_last List.getLast?_concat h

/-- Calls that are about no subscription need only follow the last one. -/
theorem Proper.concat_none (h : Proper opened calls)
    (hfollows : Follows calls.getLast? call) (hnone : call.number? = none) :
    Proper opened (calls ++ [call]) where
  inOrder := by
    refine h.inOrder.concat ⟨hfollows, fun number hnumber => ?_, fun number hopened => ?_⟩
    · rw [hnone] at hnumber
      cases hnumber
    · rw [hopened] at hnone
      cases hnone
  known call' hmem number hnumber := by
    rcases List.mem_append.mp hmem with hmem | hmem
    · exact h.known call' hmem number hnumber
    · rw [List.mem_singleton.mp hmem, hnone] at hnumber
      cases hnumber

/-- Calls on the open subscription are in order if they follow the last one. -/
theorem Proper.concat_open (h : Proper opened calls) (hopen : Open opened calls number)
    (hfollows : Follows calls.getLast? call) (hnumber : call.number? = some number)
    (hold : call ≠ .opened number) :
    Proper opened (calls ++ [call]) where
  inOrder := by
    refine h.inOrder.concat ⟨hfollows, fun number' hnumber' => ?_, fun number' hopened => ?_⟩
    · cases Option.some.inj (hnumber.symm.trans hnumber')
      exact hopen.2
    · rw [hopened] at hnumber hold
      cases Option.some.inj hnumber
      exact absurd rfl hold
  known call' hmem number' hnumber' := by
    rcases List.mem_append.mp hmem with hmem | hmem
    · exact h.known call' hmem number' hnumber'
    · rw [List.mem_singleton.mp hmem] at hnumber'
      cases Option.some.inj (hnumber.symm.trans hnumber')
      exact hopen.1

/-- Opening a subscription is in order, since its number is new. -/
theorem Proper.concat_opened (h : Proper opened calls)
    (hlast : calls.getLast? = some .subscribing) :
    Proper (opened + 1) (calls ++ [.opened opened]) ∧
      Open (opened + 1) (calls ++ [.opened opened]) opened := by
  have hnew : ∀ earlier ∈ calls, earlier.number? ≠ some opened := fun earlier hmem heq =>
    Nat.lt_irrefl _ (h.known earlier hmem opened heq)
  have halive : ∀ earlier ∈ calls, ¬earlier.Ends opened := by
    intro earlier hmem hends
    refine hnew earlier hmem ?_
    cases earlier with
    | read number reading =>
      cases reading with
      | message message => exact absurd hends id
      | closed => exact congrArg some hends
      | failed fault => exact congrArg some hends
    | acknowledged number message refusal =>
      cases refusal with
      | none => exact absurd hends id
      | some fault => exact congrArg some hends
    | subscribing => exact absurd hends id
    | refused fault => exact absurd hends id
    | opened number => exact absurd hends id
    | asking number => exact absurd hends id
    | reloaded number message result => exact absurd hends id
  refine ⟨⟨h.inOrder.concat ⟨follows_of_last hlast (.opened opened), ?_, ?_⟩, ?_⟩,
    Nat.lt_succ_self _, ?_⟩
  · rintro number hnumber
    cases Option.some.inj hnumber
    exact halive
  · rintro number hopened
    cases hopened
    exact hnew
  · intro call hmem number hnumber
    rcases List.mem_append.mp hmem with hmem | hmem
    · exact Nat.lt_succ_of_lt (h.known call hmem number hnumber)
    · rw [List.mem_singleton.mp hmem] at hnumber
      cases Option.some.inj hnumber
      exact Nat.lt_succ_self _
  · intro call hmem
    rcases List.mem_append.mp hmem with hmem | hmem
    · exact halive call hmem
    · rw [List.mem_singleton.mp hmem]
      exact id

/-- A subscription stays open until a call ends it. -/
theorem Open.concat (h : Open opened calls number) (hcall : ¬call.Ends number) :
    Open opened (calls ++ [call]) number := by
  refine ⟨h.1, fun call' hmem => ?_⟩
  rcases List.mem_append.mp hmem with hmem | hmem
  · exact h.2 call' hmem
  · rwa [List.mem_singleton.mp hmem]

/-! ## Steps -/

/-- What holds of a listener at any point of its run. -/
structure Sound (source : Source σ) (start : Listening σ) (now : Play σ) : Prop where
  ledger : Ledger source start now.state now.calls now.stage.inReload now.stage.inHand
  proper : Proper now.opened now.calls
  standing : Standing now.stage now.opened now.calls

theorem sound_start (source : Source σ) (attempts : List Attempt) (state : Listening σ) :
    Sound source state (.start attempts state) where
  ledger := ⟨rfl, rfl, rfl, rfl, (List.append_nil _).symm⟩
  proper := ⟨.nil InOrder, fun _ hmem => absurd hmem List.not_mem_nil⟩
  standing := .first

variable {now : Play σ}

theorem Sound.seek {attempts : List Attempt} (h : Sound listener.source start now)
    (hstage : now.stage = .seeking attempts) :
    Sound listener.source start (listener.seek attempts now) := by
  obtain ⟨hledger, hproper, hstanding⟩ := h
  rw [hstage] at hledger hstanding
  have hsubscribing := rests_note Happening.subscribing now.state (by simp)
  have hproper' := hproper.concat_none hstanding rfl
  have hlast : (now.calls ++ [Call.subscribing]).getLast? = some .subscribing :=
    List.getLast?_concat
  -- The three calls of a subscription that is opened.
  have hopening : Proper (now.opened + 1) (now.calls ++ [.subscribing] ++ [.opened now.opened]
        ++ [.asking now.opened]) ∧
      Open (now.opened + 1) (now.calls ++ [.subscribing] ++ [.opened now.opened]
        ++ [.asking now.opened]) now.opened := by
    obtain ⟨hopened, hopen⟩ := hproper'.concat_opened hlast
    exact ⟨hopened.concat_open hopen (follows_concat _ (.asking now.opened)) rfl (by simp),
      hopen.concat id⟩
  have hopened : ∀ {state : Listening σ}, Rests now.state state →
      Ledger listener.source start state (now.calls ++ [.subscribing] ++ [.opened now.opened]
        ++ [.asking now.opened]) [] [] := fun {state} hrests =>
    ((hledger.quiet hrests ⟨rfl, rfl, rfl⟩).quiet (.refl state) ⟨rfl, rfl, rfl⟩).quiet (.refl state)
      ⟨rfl, rfl, rfl⟩
  cases attempts with
  | nil =>
    rw [Listener.seek]
    split
    · exact ⟨hledger, hproper, trivial⟩
    · have hnoted := rests_note Happening.opened (note .subscribing now.state) (by simp)
      have hrests := (hsubscribing.trans hnoted).trans (rests_waitForever _)
      exact ⟨hopened hrests, hopening.1, trivial⟩
  | cons attempt rest =>
    have hrests := hsubscribing.trans (rests_waitUntil (now.state.now + attempt.delay) _)
    rw [Listener.seek]
    split
    · exact ⟨hledger, hproper, trivial⟩
    · split
      · next state hwait =>
        rw [hwait] at hrests
        exact ⟨hledger.quiet hrests ⟨rfl, rfl, rfl⟩, hproper', trivial⟩
      · next state hwait =>
        rw [hwait] at hrests
        exact ⟨hledger.quiet hrests ⟨rfl, rfl, rfl⟩, hproper', follows_of_last hlast .nudged⟩
      · next state hwait =>
        rw [hwait] at hrests
        split
        · next fault hanswer =>
          have hrefused := hrests.trans (rests_note .refused state (by simp))
          exact ⟨(hledger.quiet hrefused ⟨rfl, rfl, rfl⟩).quiet (.refl _) ⟨rfl, rfl, rfl⟩,
            hproper'.concat_none (follows_of_last hlast (.refused fault)) rfl,
            follows_concat _ (.again fault)⟩
        · next deliveries hanswer =>
          have hwaits : Rests state { state with wait := listener.settings.shortest } :=
            ⟨rfl, rfl, rfl⟩
          have hrests' := (hrests.trans hwaits).trans (rests_note .opened _ (by simp))
          exact ⟨hopened hrests', hopening.1, List.getLast?_concat, hopening.2⟩

theorem Sound.listen {attempts : List Attempt} {deliveries : List Delivery}
    (h : Sound listener.source start now)
    (hstage : now.stage = .listening number deliveries attempts) :
    Sound listener.source start (listen number attempts now deliveries) := by
  obtain ⟨hledger, hproper, hstanding⟩ := h
  rw [hstage] at hledger hstanding
  obtain ⟨hlast, hopen⟩ := hstanding
  cases deliveries with
  | nil =>
    rw [Listener.listen]
    exact ⟨hledger.rests (rests_waitForever _), hproper, trivial⟩
  | cons delivery rest =>
    cases delivery with
    | silence length =>
      have hrests := rests_waitUntil (now.state.now + length) now.state
      rw [Listener.listen]
      split
      · next state hwait =>
        rw [hwait] at hrests
        exact ⟨hledger.rests hrests, hproper, trivial⟩
      · next state hwait =>
        rw [hwait] at hrests
        exact ⟨hledger.quiet hrests ⟨rfl, rfl, rfl⟩,
          hproper.concat_open hopen (follows_of_last hlast (.asked number)) rfl (by simp),
          List.getLast?_concat, hopen.concat id⟩
      · next state hwait =>
        rw [hwait] at hrests
        exact ⟨hledger.rests hrests, hproper, hlast, hopen⟩
    | message message refusal =>
      exact ⟨hledger.read number message,
        hproper.concat_open hopen (follows_of_last hlast (.read number _)) rfl (by simp),
        List.getLast?_concat, hopen.concat id⟩
    | close =>
      exact ⟨hledger.quiet (.refl _) ⟨rfl, rfl, rfl⟩,
        hproper.concat_open hopen (follows_of_last hlast (.read number _)) rfl (by simp),
        follows_concat _ (.over (rfl : number = number))⟩
    | failure fault =>
      exact ⟨hledger.quiet (.refl _) ⟨rfl, rfl, rfl⟩,
        hproper.concat_open hopen (follows_of_last hlast (.read number _)) rfl (by simp),
        follows_concat _ (.over (rfl : number = number))⟩

/-- Every step keeps the invariant. -/
theorem Sound.step (h : Sound listener.source start now) :
    Sound listener.source start (listener.step now) := by
  rw [Listener.step]
  split
  · next attempts hstage => exact h.seek hstage
  · next number deliveries attempts hstage => exact h.listen hstage
  · next number message refusal deliveries attempts hstage =>
    obtain ⟨hledger, hproper, hstanding⟩ := h
    rw [hstage] at hledger hstanding
    obtain ⟨hlast, hopen⟩ := hstanding
    exact ⟨hledger.reload _,
      hproper.concat_open hopen (follows_of_last hlast (.reloaded number message _)) rfl (by simp),
      ⟨_, List.getLast?_concat⟩, hopen.concat id⟩
  · next number message fault deliveries attempts hstage =>
    obtain ⟨hledger, hproper, hstanding⟩ := h
    rw [hstage] at hledger hstanding
    obtain ⟨⟨result, hlast⟩, hopen⟩ := hstanding
    exact ⟨hledger.acknowledge _,
      hproper.concat_open hopen
        (follows_of_last hlast (.acknowledged number message result (some fault))) rfl (by simp),
      follows_concat _ (.over (rfl : number = number))⟩
  · next number message deliveries attempts hstage =>
    obtain ⟨hledger, hproper, hstanding⟩ := h
    rw [hstage] at hledger hstanding
    obtain ⟨⟨result, hlast⟩, hopen⟩ := hstanding
    have hacknowledged := hproper.concat_open hopen
      (follows_of_last hlast (.acknowledged number message result none)) rfl (by simp)
    have hopen' : Open now.opened (now.calls ++ [.acknowledged number message none]) number :=
      hopen.concat id
    exact ⟨(hledger.acknowledge none).quiet (.refl _) ⟨rfl, rfl, rfl⟩,
      hacknowledged.concat_open hopen' (follows_concat _ (.next number message)) rfl (by simp),
      List.getLast?_concat, hopen'.concat id⟩
  · next attempts hstage =>
    obtain ⟨hledger, hproper, hstanding⟩ := h
    rw [hstage] at hledger hstanding
    have hrests := rests_retry listener now.state
    split
    · next runEnd state hretry =>
      rw [hretry] at hrests
      exact ⟨hledger.rests hrests, hproper, trivial⟩
    · next state hretry =>
      rw [hretry] at hrests
      exact ⟨hledger.rests hrests, hproper, hstanding⟩
  · exact h

theorem Sound.play (h : Sound listener.source start now) (steps : Nat) :
    Sound listener.source start (listener.play steps now) := by
  induction steps generalizing now with
  | zero => exact h
  | succ steps ih => exact ih h.step

/-! ## Without a shutdown -/

/-- Where nobody touches the flag, a wait ends when it is due. -/
theorem waitUntil_calm (deadline : Instant) (h : state.shutdown = {}) :
    ∃ time, waitUntil deadline state = (.due, { state with now := time }) := by
  have hwait : ∃ time, ({} : Shutdown).wait state.now deadline = (.due, time, {}) := by
    rw [Shutdown.wait]
    split <;> exact ⟨_, rfl⟩
  obtain ⟨time, hwait⟩ := hwait
  refine ⟨time, ?_⟩
  rw [waitUntil, h, hwait, ← h]

theorem isStopped_calm (h : state.shutdown = {}) : isStopped state = false := by
  rw [isStopped, h]
  rfl

theorem waitForever_calm (h : state.shutdown = {}) : waitForever state = (.waiting, state) := by
  rw [waitForever, h]
  rfl

theorem retry_calm (listener : Listener σ) (h : state.shutdown = {}) :
    (listener.retry state).1 = none ∧ (listener.retry state).2.shutdown = {} := by
  have hnoted : (note (.retrying state.wait) state).shutdown = {} := h
  obtain ⟨time, hwait⟩ := waitUntil_calm (state.now + state.wait) hnoted
  rw [retry, hwait]
  exact ⟨rfl, h⟩

/-- Where nobody touches the flag, nobody ever does. -/
theorem step_calm (listener : Listener σ) (h : now.state.shutdown = {}) :
    (listener.step now).state.shutdown = {} := by
  have hsubscribing : (note .subscribing now.state).shutdown = {} := h
  rw [step]
  split
  · next attempts hstage =>
    cases attempts with
    | nil =>
      have hopened : (note .opened (note .subscribing now.state)).shutdown = {} := h
      rw [seek, isStopped_calm h, if_neg Bool.false_ne_true, waitForever_calm hopened]
      exact h
    | cons attempt rest =>
      obtain ⟨time, hwait⟩ := waitUntil_calm (now.state.now + attempt.delay) hsubscribing
      rw [seek, isStopped_calm h, if_neg Bool.false_ne_true, hwait]
      dsimp only
      split <;> exact h
  · next number deliveries attempts hstage =>
    cases deliveries with
    | nil =>
      rw [listen, waitForever_calm h]
      exact h
    | cons delivery rest =>
      cases delivery with
      | silence length =>
        obtain ⟨time, hwait⟩ := waitUntil_calm (now.state.now + length) h
        rw [listen, hwait]
        exact h
      | message message refusal => exact h
      | close => exact h
      | failure fault => exact h
  · exact h
  · exact h
  · exact h
  · obtain ⟨hnone, hshutdown⟩ := retry_calm listener h
    split
    · next runEnd state hretry =>
      rw [hretry] at hnone
      cases hnone
    · next state hretry =>
      rw [hretry] at hshutdown
      exact hshutdown
  · exact h

theorem play_calm (listener : Listener σ) (h : now.state.shutdown = {}) (steps : Nat) :
    (listener.play steps now).state.shutdown = {} := by
  induction steps generalizing now with
  | zero => exact h
  | succ steps ih => exact ih (step_calm listener h)

/-- A listener that waits before its next attempt makes it. -/
theorem step_retrying (listener : Listener σ) {attempts : List Attempt}
    (h : now.state.shutdown = {}) (hstage : now.stage = .retrying attempts) :
    (listener.step now).stage = .seeking attempts ∧ (listener.step now).opened = now.opened := by
  obtain ⟨hnone, -⟩ := retry_calm listener h
  rw [step, hstage]
  dsimp only
  split
  · next runEnd state hretry =>
    rw [hretry] at hnone
    cases hnone
  · exact ⟨rfl, rfl⟩

/-- A listener that is about to subscribe has a subscription opened in the end, however many
attempts are refused before. -/
theorem exists_opened (listener : Listener σ) {attempts : List Attempt}
    (h : now.state.shutdown = {}) (hstage : now.stage = .seeking attempts) :
    ∃ later, listener.Leads now later ∧ .opened now.opened ∈ later.calls := by
  have hstep : listener.step now = listener.seek attempts now := by
    rw [step, hstage]
  induction attempts generalizing now with
  | nil =>
    rw [seek, isStopped_calm h, if_neg Bool.false_ne_true] at hstep
    refine ⟨_, leads_step now, ?_⟩
    rw [hstep]
    simp
  | cons attempt attempts ih =>
    have hsubscribing : (note .subscribing now.state).shutdown = {} := h
    obtain ⟨time, hwait⟩ := waitUntil_calm (now.state.now + attempt.delay) hsubscribing
    rw [seek, isStopped_calm h, if_neg Bool.false_ne_true, hwait] at hstep
    dsimp only at hstep
    cases hanswer : attempt.answer with
    | error fault =>
      rw [hanswer] at hstep
      dsimp only at hstep
      have hcalm := step_calm listener h
      have hretrying : (listener.step now).stage = .retrying attempts := congrArg Play.stage hstep
      have hopened' : (listener.step now).opened = now.opened := by rw [hstep]
      obtain ⟨hseeking, hopened⟩ := step_retrying listener hcalm hretrying
      obtain ⟨later, hleads, hmem⟩ := ih (step_calm listener hcalm) hseeking
        (by rw [step, hseeking])
      rw [hopened, hopened'] at hmem
      exact ⟨later, ((leads_step now).trans (leads_step _)).trans hleads, hmem⟩
    | ok deliveries =>
      rw [hanswer] at hstep
      refine ⟨_, leads_step now, ?_⟩
      rw [hstep]
      simp

/-! ## The whole run -/

/-- What can be said of a listener at any point of its run. -/
structure Faithful (source : Source σ) (start : Listening σ) (now : Play σ) : Prop where
  inOrder : EachAfter InOrder now.calls
  /-- Every message has been acknowledged once, where it was returned, apart from the one in
  hand. -/
  acknowledged : returnedIn now.calls = acknowledgedIn now.calls ++ now.stage.inHand
  /-- Unless a message is being reloaded, the caches are the fold of all messages. -/
  caches : now.stage.inReload = [] →
    (⟨now.state.engine.caches, now.state.store⟩ : Loaded σ)
      = replay source ((returnedIn now.calls).map Prod.snd) ⟨start.engine.caches, start.store⟩
  decisions : now.state.engine.decisions = start.engine.decisions
  /-- The messages are those in the trace. -/
  delivered : deliveredIn now.state.trace
    = deliveredIn start.trace ++ (returnedIn now.calls).map Prod.snd

theorem Sound.faithful (h : Sound source start now) : Faithful source start now where
  inOrder := h.proper.inOrder
  acknowledged := h.ledger.acknowledged
  caches hnone := by
    rw [h.ledger.reloaded, hnone, List.append_nil]
    exact h.ledger.loaded
  decisions := h.ledger.decisions
  delivered := h.ledger.delivered

/-- **A run is the fold of its messages.**  At every point of a run, up to its end, the caches are
the fold of the messages that were returned, each of which is acknowledged once and in order; an
application that fails is no change.  And where nobody stops the listener, a subscription that is
over is followed by a new one. -/
theorem run_is_fold (listener : Listener σ) (attempts : List Attempt) (start : Listening σ) :
    (∀ steps, Faithful listener.source start (listener.play steps (.start attempts start))) ∧
    (∀ event loaded fault, (listener.source.applyEvent event loaded).1 = .error fault →
      (listener.source.applyEvent event loaded).2.caches = loaded.caches) ∧
    (start.shutdown = {} → ∀ steps rest,
      (listener.play steps (.start attempts start)).stage = .retrying rest →
      ∃ later, listener.Leads (listener.play steps (.start attempts start)) later ∧
        .opened (listener.play steps (.start attempts start)).opened ∈ later.calls) ∧
    ∃ steps, (listener.play steps (.start attempts start)).stage
        = .ended (listener.run attempts start).1 ∧
      (listener.play steps (.start attempts start)).state = (listener.run attempts start).2 := by
  refine ⟨fun steps => ((sound_start listener.source attempts start).play steps).faithful,
    fun event loaded fault h => listener.source.caches_applyEvent_of_error h, ?_, ?_⟩
  · intro hshutdown steps rest hstage
    have hstart : (Play.start attempts start).state.shutdown = {} := hshutdown
    have hcalm := play_calm listener hstart steps
    obtain ⟨hseeking, hopened⟩ := step_retrying listener hcalm hstage
    obtain ⟨later, hleads, hmem⟩ := exists_opened listener (step_calm listener hcalm) hseeking
    rw [hopened] at hmem
    exact ⟨later, (leads_step _).trans hleads, hmem⟩
  · have hstart : (Play.start attempts start).stage = .seeking attempts := rfl
    obtain ⟨after, ⟨steps, rfl⟩, hstage, hstate⟩ := exists_leads_run listener hstart
    exact ⟨steps, hstage, hstate⟩

/-! A bus that refuses the acknowledgement of its second message, and delivers the message again on
its second subscription.  The message cannot be applied: it names a role with a value of another
kind than the cached attribute. -/

def forgetfulBus : List Attempt :=
  [{ answer := .ok [.message ⟨"1", .roleGrants ⟨1⟩⟩ none,
      .message ⟨"2", .roleValues ⟨1⟩⟩ (some (.streamCall .read)), .close] },
    { answer := .ok [.message ⟨"2", .roleValues ⟨1⟩⟩ none] }]

/-- A listener to it. -/
def hiring : Listener ListStore where
  source := ListStore.source 0
  clock _ := 0
  settings := {}

def beginner : Listening ListStore where
  engine := { Engine.new 0 with caches := { catalog :=
    (Catalog.replaceAttributes {} [⟨⟨3⟩, ⟨2⟩, "fields", .stringList, .strings {}⟩]).1 } }
  store := { rows := {
    roles := [⟨⟨1⟩, "police", 5⟩]
    values := [⟨⟨1⟩, ⟨3⟩, some (.jobs ⟨["police"]⟩)⟩] } }
  wait := 0

/-- The first message has the role cached, and the second one fails and leaves it so.  After the
refusal a second subscription is opened, and what it delivers is one more step of the fold. -/
theorem refused_message_is_replayed :
    let bad : Message := ⟨"2", .roleValues ⟨1⟩⟩
    let before := hiring.play 5 (.start forgetfulBus beginner)
    let applied := hiring.source.applyEvent bad.event
      ⟨before.state.engine.caches, before.state.store⟩
    before.state.engine.caches.roles.role ⟨1⟩ = some ⟨⟨1⟩, "police", 5⟩ ∧
    applied.1 = .error (.kindMismatch .jobList .stringList) ∧
    applied.2.caches = before.state.engine.caches ∧
    (hiring.play 7 (.start forgetfulBus beginner)).stage
      = .retrying [{ answer := .ok [.message bad none] }] ∧
    (∃ later, hiring.Leads (hiring.play 7 (.start forgetfulBus beginner)) later ∧
      .opened 1 ∈ later.calls) ∧
    returnedIn (hiring.play 12 (.start forgetfulBus beginner)).calls
      = [(0, ⟨"1", .roleGrants ⟨1⟩⟩), (0, bad), (1, bad)] ∧
    Faithful hiring.source beginner (hiring.play 12 (.start forgetfulBus beginner)) := by
  intro bad before applied
  obtain ⟨hfaithful, hkept, hopened, -⟩ := run_is_fold hiring forgetfulBus beginner
  have hcached : before.state.engine.caches.roles.role ⟨1⟩ = some ⟨⟨1⟩, "police", 5⟩ := by
    decide +kernel
  have hfailed : applied.1 = .error (.kindMismatch .jobList .stringList) := rfl
  exact ⟨hcached, hfailed, hkept _ _ _ hfailed, rfl, hopened rfl 7 _ rfl, rfl, hfaithful 12⟩

end Listener

end GradedAccess
