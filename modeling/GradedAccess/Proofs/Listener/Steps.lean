import GradedAccess.Listener.Run
import GradedAccess.Proofs.EachAfter

/-!
# A listener step by step

`Listener.run` works off everything a bus does at once.  Here a listener makes one step after
another, so that what holds in between can be said: `Play` is a listener at work with what it is
about to do, and the calls it has made so far.  Subscriptions are numbered as they are opened.

The steps are the run (`exists_play_eq_run`): after some number of them the listener stands where
its run ends, with the same engine, store, clock and trace.
-/

namespace GradedAccess

namespace Listener

/-- What a subscription says when it is asked for the next message. -/
inductive Reading where
  | message (message : Message)
  | closed
  | failed (fault : Fault)

/-- What a listener does with its bus, and what comes of it. -/
inductive Call where
  | subscribing
  | refused (fault : Fault)
  | opened (number : Nat)
  /-- A subscription is asked for the next message. -/
  | asking (number : Nat)
  | read (number : Nat) (reading : Reading)
  /-- The reload a message asks for has come to its end. -/
  | reloaded (number : Nat) (message : Message) (result : Except Fault Report)
  | acknowledged (number : Nat) (message : Message) (refusal : Option Fault)

/-- What a listener is about to do. -/
inductive Stage where
  /-- To subscribe. -/
  | seeking (attempts : List Attempt)
  /-- To wait for what a subscription says. -/
  | listening (number : Nat) (deliveries : List Delivery) (attempts : List Attempt)
  /-- To reload what a message names; no step but this one reloads. -/
  | reloading (number : Nat) (message : Message) (refusal : Option Fault)
      (deliveries : List Delivery) (attempts : List Attempt)
  /-- To acknowledge a message. -/
  | acknowledging (number : Nat) (message : Message) (refusal : Option Fault)
      (deliveries : List Delivery) (attempts : List Attempt)
  /-- To wait before it subscribes again. -/
  | retrying (attempts : List Attempt)
  | ended (runEnd : RunEnd)

/-- A listener in the middle of its run. -/
structure Play (σ : Type) where
  stage : Stage
  state : Listening σ
  /-- The number of subscriptions opened so far. -/
  opened : Nat := 0
  calls : List Call := []

variable {σ : Type}

/-- A listener before its run. -/
def Play.start (attempts : List Attempt) (state : Listening σ) : Play σ where
  stage := .seeking attempts
  state

variable (listener : Listener σ)

/-- Subscribes for the next time. -/
def seek (attempts : List Attempt) (play : Play σ) : Play σ :=
  if isStopped play.state then { play with stage := .ended .stopped }
  else
    match attempts with
    | [] =>
      let (runEnd, state) := waitForever (note .opened (note .subscribing play.state))
      { stage := .ended runEnd
        state
        opened := play.opened + 1
        calls := play.calls ++ [.subscribing] ++ [.opened play.opened] ++ [.asking play.opened] }
    | attempt :: rest =>
      match waitUntil (play.state.now + attempt.delay) (note .subscribing play.state) with
      | (.stopped, state) => { play with
          stage := .ended .stopped, state, calls := play.calls ++ [.subscribing] }
      | (.nudged, state) => { play with
          stage := .seeking rest, state, calls := play.calls ++ [.subscribing] }
      | (.due, state) =>
        match attempt.answer with
        | .error fault => { play with
            stage := .retrying rest
            state := note .refused state
            calls := play.calls ++ [.subscribing] ++ [.refused fault] }
        | .ok deliveries => {
            stage := .listening play.opened deliveries rest
            state := note .opened { state with wait := listener.settings.shortest }
            opened := play.opened + 1
            calls := play.calls ++ [.subscribing] ++ [.opened play.opened]
              ++ [.asking play.opened] }

/-- Waits for what a subscription says. -/
def listen (number : Nat) (attempts : List Attempt) (play : Play σ) : List Delivery → Play σ
  | [] =>
    let (runEnd, state) := waitForever play.state
    { play with stage := .ended runEnd, state }
  | .silence length :: rest =>
    match waitUntil (play.state.now + length) play.state with
    | (.stopped, state) => { play with stage := .ended .stopped, state }
    | (.nudged, state) => { play with
        stage := .listening number rest attempts, state, calls := play.calls ++ [.asking number] }
    | (.due, state) => { play with stage := .listening number rest attempts, state }
  | .message message refusal :: rest => { play with
      stage := .reloading number message refusal rest attempts
      state := note (.delivered message) play.state
      calls := play.calls ++ [.read number (.message message)] }
  | .close :: _ => { play with
      stage := .retrying attempts, calls := play.calls ++ [.read number .closed] }
  | .failure fault :: _ => { play with
      stage := .retrying attempts, calls := play.calls ++ [.read number (.failed fault)] }

/-- Makes the next step. -/
def step (play : Play σ) : Play σ :=
  match play.stage with
  | .seeking attempts => listener.seek attempts play
  | .listening number deliveries attempts => listen number attempts play deliveries
  | .reloading number message refusal deliveries attempts => { play with
      stage := .acknowledging number message refusal deliveries attempts
      state := listener.apply message.event play.state
      calls := play.calls ++ [.reloaded number message (play.state.engine.load
        (listener.source.applyEvent message.event) play.state.store).1] }
  | .acknowledging number message (some fault) _ attempts => { play with
      stage := .retrying attempts
      state := note (.acknowledging message) play.state
      calls := play.calls ++ [.acknowledged number message (some fault)] }
  | .acknowledging number message none deliveries attempts => { play with
      stage := .listening number deliveries attempts
      state := note (.acknowledging message) play.state
      calls := play.calls ++ [.acknowledged number message none] ++ [.asking number] }
  | .retrying attempts =>
    match listener.retry play.state with
    | (some runEnd, state) => { play with stage := .ended runEnd, state }
    | (none, state) => { play with stage := .seeking attempts, state }
  | .ended _ => play

/-- Makes so many steps. -/
def play : Nat → Play σ → Play σ
  | 0, before => before
  | steps + 1, before => play steps (listener.step before)

/-! ## The steps of a run -/

theorem play_add (steps more : Nat) (before : Play σ) :
    listener.play (steps + more) before = listener.play more (listener.play steps before) := by
  induction steps generalizing before with
  | zero => rw [Nat.zero_add, play]
  | succ steps ih => rw [Nat.succ_add, play, play, ih]

/-- Whether some number of steps lead from one point to another. -/
def Leads (before after : Play σ) : Prop :=
  ∃ steps, listener.play steps before = after

variable {listener} {before between after : Play σ}

theorem leads_step (before : Play σ) : listener.Leads before (listener.step before) :=
  ⟨1, rfl⟩

theorem Leads.trans (h : listener.Leads before between) (h' : listener.Leads between after) :
    listener.Leads before after := by
  obtain ⟨steps, rfl⟩ := h
  obtain ⟨more, rfl⟩ := h'
  exact ⟨steps + more, play_add listener steps more before⟩

/-- One step and then others. -/
theorem Leads.cons (hstep : listener.step before = between) (h : listener.Leads between after) :
    listener.Leads before after :=
  (hstep ▸ leads_step before).trans h

/-- Where a listener stands when it is through with a part of its run: at the end, or at the stage
that follows. -/
def AtEnd (next : Stage) (result : Option RunEnd × Listening σ) (play : Play σ) : Prop :=
  play.state = result.2 ∧
    play.stage = match result.1 with
      | some runEnd => .ended runEnd
      | none => next

/-- The steps of a subscription lead to where it ends. -/
theorem exists_leads_consume (listener : Listener σ) {number : Nat} {deliveries : List Delivery}
    {attempts : List Attempt} (hstage : before.stage = .listening number deliveries attempts) :
    ∃ after, listener.Leads before after ∧
      AtEnd (.retrying attempts) (listener.consume deliveries before.state) after := by
  induction deliveries generalizing before with
  | nil =>
    refine ⟨_, leads_step before, ?_⟩
    rw [step, hstage]
    exact ⟨rfl, rfl⟩
  | cons delivery rest ih =>
    cases delivery with
    | silence length =>
      have hstep : listener.step before
          = listen number attempts before (.silence length :: rest) := by rw [step, hstage]
      rw [listen] at hstep
      rw [consume]
      cases hwait : waitUntil (before.state.now + length) before.state with
      | mk woken state =>
        rw [hwait] at hstep
        cases woken with
        | stopped =>
          refine ⟨_, leads_step before, ?_⟩
          rw [hstep]
          exact ⟨rfl, rfl⟩
        | nudged =>
          obtain ⟨after, hleads, hend⟩ := ih (congrArg Play.stage hstep)
          rw [hstep] at hend
          exact ⟨after, (leads_step before).trans hleads, hend⟩
        | due =>
          obtain ⟨after, hleads, hend⟩ := ih (congrArg Play.stage hstep)
          rw [hstep] at hend
          exact ⟨after, (leads_step before).trans hleads, hend⟩
    | message message refusal =>
      -- The message is reloaded and acknowledged in two more steps.
      have hread : listener.step before = { before with
          stage := .reloading number message refusal rest attempts
          state := note (.delivered message) before.state
          calls := before.calls ++ [.read number (.message message)] } := by
        rw [step, hstage]
        rfl
      have hleads : listener.Leads before
          (listener.step (listener.step (listener.step before))) := ⟨3, rfl⟩
      rw [hread] at hleads
      cases refusal with
      | some fault =>
        rw [consume]
        exact ⟨_, hleads, rfl, rfl⟩
      | none =>
        rw [consume]
        have hlistening : (listener.step (listener.step { before with
            stage := .reloading number message none rest attempts
            state := note (.delivered message) before.state
            calls := before.calls ++ [.read number (.message message)] })).stage
              = .listening number rest attempts := rfl
        obtain ⟨after, hleads', hend⟩ := ih hlistening
        exact ⟨after, hleads.trans hleads', hend⟩
    | close =>
      refine ⟨_, leads_step before, ?_⟩
      rw [step, hstage]
      exact ⟨rfl, rfl⟩
    | failure fault =>
      refine ⟨_, leads_step before, ?_⟩
      rw [step, hstage]
      exact ⟨rfl, rfl⟩

/-- The step of the wait before the next attempt. -/
theorem atEnd_retry {attempts : List Attempt} (hstage : before.stage = .retrying attempts) :
    AtEnd (.seeking attempts) (listener.retry before.state) (listener.step before) := by
  rw [step, hstage]
  dsimp only
  split
  · next runEnd state hretry =>
    rw [hretry]
    exact ⟨rfl, rfl⟩
  · next state hretry =>
    rw [hretry]
    exact ⟨rfl, rfl⟩

/-- The steps of an attempt lead to where it ends. -/
theorem exists_leads_attempt {attempt : Attempt} {attempts : List Attempt}
    (hstage : before.stage = .seeking (attempt :: attempts))
    (hrunning : isStopped before.state = false) :
    ∃ after, listener.Leads before after ∧
      AtEnd (.seeking attempts) (listener.attempt attempt before.state) after := by
  have hstep : listener.step before = listener.seek (attempt :: attempts) before := by
    rw [step, hstage]
  rw [seek, if_neg (by simp [hrunning])] at hstep
  rw [Listener.attempt]
  cases hwait : waitUntil (before.state.now + attempt.delay) (note .subscribing before.state) with
  | mk woken state =>
    rw [hwait] at hstep
    cases woken with
    | stopped =>
      refine ⟨_, leads_step before, ?_⟩
      rw [hstep]
      exact ⟨rfl, rfl⟩
    | nudged =>
      refine ⟨_, leads_step before, ?_⟩
      rw [hstep]
      exact ⟨rfl, rfl⟩
    | due =>
      dsimp only at hstep ⊢
      cases hanswer : attempt.answer with
      | error fault =>
        rw [hanswer] at hstep
        dsimp only at hstep ⊢
        refine ⟨_, (leads_step before).trans (leads_step _), ?_⟩
        rw [hstep]
        exact atEnd_retry rfl
      | ok deliveries =>
        rw [hanswer] at hstep
        dsimp only at hstep ⊢
        obtain ⟨between, hleads, hstate, hnext⟩ := exists_leads_consume listener
          (congrArg Play.stage hstep)
        rw [hstep] at hstate hnext
        dsimp only at hstate hnext
        split
        · next runEnd final hconsume =>
          rw [hconsume] at hstate hnext
          exact ⟨between, (leads_step before).trans hleads, hstate, hnext⟩
        · next final hconsume =>
          rw [hconsume] at hstate hnext
          dsimp only at hstate hnext
          refine ⟨_, ((leads_step before).trans hleads).trans (leads_step between), ?_⟩
          rw [← hstate]
          exact atEnd_retry hnext

/-- **The steps are the run.**  After some number of steps a listener stands where its run ends. -/
theorem exists_leads_run (listener : Listener σ) {attempts : List Attempt}
    (hstage : before.stage = .seeking attempts) :
    ∃ after, listener.Leads before after ∧
      after.stage = .ended (listener.run attempts before.state).1 ∧
      after.state = (listener.run attempts before.state).2 := by
  induction attempts generalizing before with
  | nil =>
    refine ⟨_, leads_step before, ?_⟩
    rw [step, hstage]
    dsimp only
    rw [seek, run]
    split
    · exact ⟨rfl, rfl⟩
    · exact ⟨rfl, rfl⟩
  | cons attempt attempts ih =>
    rw [run]
    cases hrunning : isStopped before.state with
    | true =>
      refine ⟨_, leads_step before, ?_⟩
      rw [step, hstage]
      dsimp only
      rw [seek, if_pos hrunning]
      exact ⟨rfl, rfl⟩
    | false =>
      rw [if_neg Bool.false_ne_true]
      obtain ⟨between, hleads, hstate, hnext⟩ := exists_leads_attempt hstage hrunning
      split
      · next runEnd final hattempt =>
        rw [hattempt] at hstate hnext
        exact ⟨between, hleads, hnext, hstate⟩
      · next final hattempt =>
        rw [hattempt] at hstate hnext
        obtain ⟨after, hleads', hend⟩ := ih hnext
        rw [hstate] at hend
        exact ⟨after, hleads.trans hleads', hend⟩

end Listener

end GradedAccess
