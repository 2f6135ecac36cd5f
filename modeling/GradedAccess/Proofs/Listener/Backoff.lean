import GradedAccess.Proofs.Listener.Fold
import Mathlib.Algebra.GroupWithZero.Nat
import Mathlib.Data.List.DropRight

/-!
# When a listener subscribes again

Between two attempts to subscribe a listener waits.  The wait is the shortest one doubled once for
every wait since a subscription was last opened, up to a limit (`RetrySettings.delay`), and doubling
in the bounded range of durations makes no difference (`RetrySettings.next_delay`).

The waits are in the trace, so what is proved is about traces: each entry is in time after those
before it (`Punctual`).  The length of a wait is told by the entries before it, and what follows a
wait is an attempt, which is made when the wait is over, or earlier if somebody nudges the listener.

A listener that is not about to subscribe is `Awake`, one that is about to is `Ready`.  Each step
leads from one to the other, and `Paced` is what this says about whole traces.
-/

namespace GradedAccess

namespace RetrySettings

/-- The length of the wait that comes after so many others. -/
def delay (settings : RetrySettings) (waits : Nat) : Duration :=
  min (settings.shortest * 2 ^ waits) settings.limit

/-- Whether both lengths are durations that can be kept. -/
structure Representable (settings : RetrySettings) : Prop where
  shortest : settings.shortest ≤ Duration.greatest
  longest : settings.longest ≤ Duration.greatest

variable {settings : RetrySettings} {waits waits' : Nat}

theorem shortest_le_limit (settings : RetrySettings) : settings.shortest ≤ settings.limit :=
  Nat.le_max_right _ _

theorem Representable.limit_le (h : settings.Representable) :
    settings.limit ≤ Duration.greatest :=
  Nat.max_le.mpr ⟨h.longest, h.shortest⟩

theorem delay_zero (settings : RetrySettings) : settings.delay 0 = settings.shortest := by
  rw [delay, Nat.pow_zero, Nat.mul_one]
  exact Nat.min_eq_left settings.shortest_le_limit

theorem delay_le_limit (settings : RetrySettings) (waits : Nat) :
    settings.delay waits ≤ settings.limit :=
  Nat.min_le_right _ _

theorem delay_mono (settings : RetrySettings) (h : waits ≤ waits') :
    settings.delay waits ≤ settings.delay waits' := by
  have hpow : settings.shortest * 2 ^ waits ≤ settings.shortest * 2 ^ waits' :=
    Nat.mul_le_mul_left _ (Nat.pow_le_pow_right Nat.two_pos h)
  exact Nat.le_min.mpr ⟨(Nat.min_le_left _ _).trans hpow, Nat.min_le_right _ _⟩

theorem shortest_le_delay (settings : RetrySettings) (waits : Nat) :
    settings.shortest ≤ settings.delay waits := by
  rw [← settings.delay_zero]
  exact settings.delay_mono (Nat.zero_le waits)

/-- The wait after a wait is the one of the next number.  Where doubling is cut off at the greatest
duration the limit cuts off as well. -/
theorem next_delay (h : settings.Representable) (waits : Nat) :
    settings.next (settings.delay waits) = settings.delay (waits + 1) := by
  have hcut : ∀ length limit greatest : Nat, limit ≤ greatest →
      min (min (2 * min length limit) greatest) limit = min (length * 2) limit := by
    omega
  rw [next, Duration.doubled, delay, delay, Nat.pow_succ, ← Nat.mul_assoc]
  exact hcut _ _ _ h.limit_le

end RetrySettings

/-! ## The waits of a trace -/

/-- Whether a subscription has been opened. -/
def Happening.isOpened : Happening → Bool
  | opened => true
  | _ => false

theorem Happening.isOpened_eq_false {happening : Happening} (h : happening ≠ .opened) :
    happening.isOpened = false := by
  cases happening with
  | opened => exact absurd rfl h
  | _ => rfl

/-- Whether a wait has begun. -/
def Happening.isRetrying : Happening → Bool
  | retrying _ => true
  | _ => false

/-- The number of waits since a subscription was last opened, or since the start. -/
def waitsSinceOpened (trace : List (Instant × Happening)) : Nat :=
  (trace.rtakeWhile fun entry => !entry.2.isOpened).countP fun entry => entry.2.isRetrying

section Waits

variable {trace between : List (Instant × Happening)} {entry : Instant × Happening}

theorem waitsSinceOpened_concat_of_opened (h : entry.2.isOpened = true) :
    waitsSinceOpened (trace ++ [entry]) = 0 := by
  rw [waitsSinceOpened, List.rtakeWhile_concat_neg _ _ _ (by simp [h])]
  rfl

theorem waitsSinceOpened_concat (h : entry.2.isOpened = false) :
    waitsSinceOpened (trace ++ [entry])
      = waitsSinceOpened trace + if entry.2.isRetrying then 1 else 0 := by
  rw [waitsSinceOpened, List.rtakeWhile_concat_pos _ _ _ (by simp [h]), List.countP_append,
    List.countP_singleton, ← waitsSinceOpened]

/-- While no subscription is opened the number of waits does not go down. -/
theorem waitsSinceOpened_le_append (trace : List (Instant × Happening))
    (h : ∀ entry ∈ between, entry.2 ≠ .opened) :
    waitsSinceOpened trace ≤ waitsSinceOpened (trace ++ between) := by
  induction between using List.reverseRecOn with
  | nil => rw [List.append_nil]
  | append_singleton between last ih =>
    obtain ⟨hbetween, hlast⟩ := List.forall_mem_append.mp h
    have hclosed := Happening.isOpened_eq_false (hlast last (List.mem_singleton_self last))
    rw [← List.append_assoc, waitsSinceOpened_concat hclosed]
    exact (ih hbetween).trans (Nat.le_add_right _ _)

end Waits

theorem Shutdown.now_wait_le (shutdown : Shutdown) (now deadline : Instant) :
    (shutdown.wait now deadline).2.1 ≤ max now deadline := by
  rw [Shutdown.wait]
  split
  · exact Nat.le_max_left _ _
  · split
    · exact Nat.le_max_right _ _
    · split
      · next hlt => exact (Nat.le_of_lt hlt).trans (Nat.le_max_right _ _)
      · exact Nat.le_max_right _ _

namespace Listener

/-- Whether an entry of a trace is in time after those before it.  Nobody nudges a listener that is
left alone. -/
structure Punctual (settings : RetrySettings) (alone : Prop)
    (before : List (Instant × Happening)) (entry : Instant × Happening) : Prop where
  /-- The length of a wait is told by the number of those since a subscription was opened. -/
  length : ∀ wait, entry.2 = .retrying wait → wait = settings.delay (waitsSinceOpened before)
  /-- What follows a wait is an attempt to subscribe. -/
  followed : ∀ time wait, before.getLast? = some (time, .retrying wait) →
    entry.2 = .subscribing ∧ entry.1 ≤ time + wait ∧ (alone → entry.1 = time + wait)
  /-- Every attempt but the first one follows a wait. -/
  awaited : alone → entry.2 = .subscribing →
    before = [] ∨ ∃ time wait, before.getLast? = some (time, .retrying wait)

variable {σ : Type} {settings : RetrySettings} {alone : Prop} {state state' : Listening σ}

/-- What holds of a listener that is not about to subscribe. -/
structure Awake (settings : RetrySettings) (alone : Prop) (state : Listening σ) : Prop where
  punctual : EachAfter (Punctual settings alone) state.trace
  wait_eq : state.wait = settings.delay (waitsSinceOpened state.trace)
  busy : ∀ time wait, state.trace.getLast? ≠ some (time, .retrying wait)

/-- What holds of a listener that is about to subscribe. -/
structure Ready (settings : RetrySettings) (alone : Prop) (state : Listening σ) : Prop where
  punctual : EachAfter (Punctual settings alone) state.trace
  wait_eq : state.wait = settings.delay (waitsSinceOpened state.trace)
  due : ∀ time wait, state.trace.getLast? = some (time, .retrying wait) →
    state.now ≤ time + wait ∧ (alone → state.now = time + wait)
  awaited : alone →
    state.trace = [] ∨ ∃ time wait, state.trace.getLast? = some (time, .retrying wait)

/-! ## What a listener notes -/

/-- Whether something is neither an attempt, nor a subscription that is opened, nor a wait. -/
def Quiet : Happening → Prop
  | .subscribing | .opened | .retrying _ => False
  | _ => True

theorem getLast?_trace_note (happening : Happening) (state : Listening σ) :
    (note happening state).trace.getLast? = some (state.now, happening) :=
  List.getLast?_concat

theorem Awake.congr (h : Awake settings alone state) (htrace : state'.trace = state.trace)
    (hwait : state'.wait = state.wait) : Awake settings alone state' := by
  refine ⟨?_, ?_, ?_⟩
  · rw [htrace]
    exact h.punctual
  · rw [hwait, htrace]
    exact h.wait_eq
  · rw [htrace]
    exact h.busy

/-- What a listener notes while it is awake is in time, if a wait has the length that it is to
have. -/
theorem Awake.punctual_note (h : Awake settings alone state) {happening : Happening}
    (hsubscribing : happening ≠ .subscribing)
    (hwait : ∀ wait, happening = .retrying wait → wait = state.wait) :
    EachAfter (Punctual settings alone) (note happening state).trace :=
  h.punctual.concat {
    length := fun wait hretrying => (hwait wait hretrying).trans h.wait_eq
    followed := fun time wait hlast => absurd hlast (h.busy time wait)
    awaited := fun _ heq => absurd heq hsubscribing }

theorem Awake.quiet (h : Awake settings alone state) {happening : Happening}
    (hquiet : Quiet happening) : Awake settings alone (note happening state) := by
  have hwaits : waitsSinceOpened (note happening state).trace = waitsSinceOpened state.trace := by
    cases happening with
    | subscribing => exact hquiet.elim
    | opened => exact hquiet.elim
    | retrying wait => exact hquiet.elim
    | refused => exact waitsSinceOpened_concat rfl
    | delivered message => exact waitsSinceOpened_concat rfl
    | applied event result => exact waitsSinceOpened_concat rfl
    | acknowledging message => exact waitsSinceOpened_concat rfl
  refine ⟨h.punctual_note ?_ ?_, ?_, ?_⟩
  · rintro rfl
    exact hquiet
  · rintro wait rfl
    exact hquiet.elim
  · rw [hwaits]
    exact h.wait_eq
  · intro time wait hlast
    rw [getLast?_trace_note] at hlast
    cases hlast
    exact hquiet

theorem Awake.punctual_opened (h : Awake settings alone state) :
    EachAfter (Punctual settings alone) (note .opened state).trace :=
  h.punctual_note nofun nofun

/-- A subscription that is opened makes the next wait the shortest. -/
theorem Awake.opened (h : Awake settings alone state) :
    Awake settings alone (note .opened { state with wait := settings.shortest }) := by
  refine ⟨h.punctual_opened, ?_, ?_⟩
  · refine (settings.delay_zero).symm.trans (congrArg settings.delay ?_)
    exact (waitsSinceOpened_concat_of_opened rfl).symm
  · intro time wait hlast
    rw [getLast?_trace_note] at hlast
    cases hlast

/-- An attempt is in time. -/
theorem Ready.subscribing (h : Ready settings alone state) :
    Awake settings alone (note .subscribing state) := by
  have hwaits : waitsSinceOpened (note .subscribing state).trace = waitsSinceOpened state.trace :=
    waitsSinceOpened_concat rfl
  refine ⟨h.punctual.concat ⟨nofun, ?_, fun halone _ => h.awaited halone⟩, ?_, ?_⟩
  · intro time wait hlast
    exact ⟨rfl, h.due time wait hlast⟩
  · rw [hwaits]
    exact h.wait_eq
  · intro time wait hlast
    rw [getLast?_trace_note] at hlast
    cases hlast

/-! ## Waiting -/

theorem now_waitUntil_le (deadline : Instant) (state : Listening σ) :
    (waitUntil deadline state).2.now ≤ max state.now deadline :=
  Shutdown.now_wait_le state.shutdown state.now deadline

/-- Nothing ends a wait early where nobody touches the flag. -/
theorem now_waitUntil_calm (deadline : Instant) (h : state.shutdown = {}) :
    (waitUntil deadline state).2.now = max state.now deadline := by
  have hwait : (({} : Shutdown).wait state.now deadline).2.1 = max state.now deadline := by
    rw [Shutdown.wait]
    split
    · next hle => exact (Nat.max_eq_left hle).symm
    · next hlt => exact (Nat.max_eq_right (Nat.le_of_not_le hlt)).symm
  rw [← hwait, waitUntil, h]

theorem trace_waitForever (state : Listening σ) : (waitForever state).2.trace = state.trace := by
  rw [waitForever]
  split <;> rfl

/-- The wait before the next attempt is noted, whether it ends the run or not. -/
theorem trace_retry (listener : Listener σ) (state : Listening σ) :
    (listener.retry state).2.trace = (note (.retrying state.wait) state).trace := by
  rw [Listener.retry]
  split
  · next final hwait => exact congrArg (·.2.trace) hwait.symm
  · next woken final hne hwait => exact congrArg (·.2.trace) hwait.symm

/-- A wait that does not end the run is over in time, and sets the length of the next one. -/
theorem retry_of_none {listener : Listener σ} (h : (listener.retry state).1 = none) :
    (listener.retry state).2.wait = listener.settings.next state.wait ∧
      (listener.retry state).2.now ≤ state.now + state.wait ∧
      (state.shutdown = {} → (listener.retry state).2.now = state.now + state.wait) := by
  have hmax : max state.now (state.now + state.wait) = state.now + state.wait :=
    Nat.max_eq_right (Nat.le_add_right _ _)
  have hnow := now_waitUntil_le (state.now + state.wait) (note (.retrying state.wait) state)
  have hcalm (hshutdown : (note (.retrying state.wait) state).shutdown = {}) :=
    now_waitUntil_calm (state.now + state.wait) hshutdown
  rw [Listener.retry] at h ⊢
  split at h
  · cases h
  · next woken final hne hwait =>
    have hkept : final.wait = state.wait := congrArg (·.2.wait) hwait.symm
    rw [hwait] at hnow hcalm
    exact ⟨congrArg listener.settings.next hkept, hnow.trans_eq hmax,
      fun hshutdown => (hcalm hshutdown).trans hmax⟩

/-- What a listener notes before it waits is in time, and after the wait it is ready. -/
theorem Awake.retry {listener : Listener σ} (h : Awake listener.settings alone state)
    (hsettings : listener.settings.Representable) (halone : alone → state.shutdown = {}) :
    EachAfter (Punctual listener.settings alone) (listener.retry state).2.trace ∧
      ((listener.retry state).1 = none →
        Ready listener.settings alone (listener.retry state).2) := by
  have hpunctual : EachAfter (Punctual listener.settings alone)
      (listener.retry state).2.trace := by
    rw [trace_retry]
    exact h.punctual_note nofun fun wait heq => (Happening.retrying.inj heq).symm
  have hlast : (listener.retry state).2.trace.getLast? = some (state.now, .retrying state.wait) := by
    rw [trace_retry, getLast?_trace_note]
  refine ⟨hpunctual, fun hnone => ?_⟩
  obtain ⟨hwait, hnow, hcalm⟩ := retry_of_none hnone
  refine ⟨hpunctual, ?_, ?_, fun _ => Or.inr ⟨state.now, state.wait, hlast⟩⟩
  · have hwaits : waitsSinceOpened (note (.retrying state.wait) state).trace
        = waitsSinceOpened state.trace + 1 := waitsSinceOpened_concat rfl
    rw [hwait, h.wait_eq, RetrySettings.next_delay hsettings, trace_retry, hwaits]
  · intro time wait heq
    cases hlast.symm.trans heq
    exact ⟨hnow, fun hleft => hcalm (halone hleft)⟩

/-! ## Steps -/

/-- What holds of a listener at a stage of its run. -/
def Keeping (settings : RetrySettings) (alone : Prop) (stage : Stage) (state : Listening σ) :
    Prop :=
  match stage with
  | .seeking _ => Ready settings alone state
  | .listening .. | .reloading .. | .acknowledging .. | .retrying _ => Awake settings alone state
  | .ended _ => EachAfter (Punctual settings alone) state.trace

variable {listener : Listener σ} {now : Play σ}

theorem Ready.seek {attempts : List Attempt} (h : Ready listener.settings alone now.state)
    (halone : alone → now.state.shutdown = {}) :
    Keeping listener.settings alone (listener.seek attempts now).stage
      (listener.seek attempts now).state := by
  have hsubscribing := h.subscribing
  cases attempts with
  | nil =>
    rw [Listener.seek]
    split
    · exact h.punctual
    · have hopened : EachAfter (Punctual listener.settings alone)
          (note .opened (note .subscribing now.state)).trace := hsubscribing.punctual_opened
      show EachAfter _ (waitForever _).2.trace
      rw [trace_waitForever]
      exact hopened
  | cons attempt rest =>
    rw [Listener.seek]
    split
    · exact h.punctual
    · have hwaited : Awake listener.settings alone (waitUntil (now.state.now + attempt.delay)
          (note .subscribing now.state)).2 := hsubscribing.congr rfl rfl
      split
      · next state hwait =>
        rw [hwait] at hwaited
        exact hwaited.punctual
      · next state hwait =>
        rw [hwait] at hwaited
        refine ⟨hwaited.punctual, hwaited.wait_eq, ?_, fun hleft => ?_⟩
        · exact fun time wait hlast => absurd hlast (hwaited.busy time wait)
        · -- Nobody nudges a listener that is left alone.
          have hcalm : (note .subscribing now.state).shutdown = {} := halone hleft
          obtain ⟨time, hdue⟩ := waitUntil_calm (now.state.now + attempt.delay) hcalm
          rw [hwait] at hdue
          cases hdue
      · next state hwait =>
        rw [hwait] at hwaited
        split
        · exact hwaited.quiet trivial
        · exact hwaited.opened

theorem Awake.listen {number : Nat} {attempts : List Attempt}
    (h : Awake settings alone now.state) (deliveries : List Delivery) :
    Keeping settings alone (listen number attempts now deliveries).stage
      (listen number attempts now deliveries).state := by
  cases deliveries with
  | nil =>
    rw [Listener.listen]
    show EachAfter _ (waitForever _).2.trace
    rw [trace_waitForever]
    exact h.punctual
  | cons delivery rest =>
    cases delivery with
    | silence length =>
      have hwaited : Awake settings alone (waitUntil (now.state.now + length) now.state).2 :=
        h.congr rfl rfl
      rw [Listener.listen]
      split
      · next state hwait =>
        rw [hwait] at hwaited
        exact hwaited.punctual
      · next state hwait =>
        rw [hwait] at hwaited
        exact hwaited
      · next state hwait =>
        rw [hwait] at hwaited
        exact hwaited
    | message message refusal => exact h.quiet trivial
    | close => exact h
    | failure fault => exact h

theorem Awake.apply (h : Awake settings alone state) (listener : Listener σ) (event : Event) :
    Awake settings alone (listener.apply event state) := by
  rw [Listener.apply]
  obtain ⟨result, engine, store⟩ :=
    state.engine.load (listener.source.applyEvent event) state.store
  have hquiet : Quiet (.applied event result) := trivial
  refine Awake.quiet ?_ hquiet
  exact h.congr rfl rfl

/-- Every step keeps the pace. -/
theorem Keeping.step (h : Keeping listener.settings alone now.stage now.state)
    (hsettings : listener.settings.Representable) (halone : alone → now.state.shutdown = {}) :
    Keeping listener.settings alone (listener.step now).stage (listener.step now).state := by
  rw [Listener.step]
  split
  · next attempts hstage =>
    rw [hstage] at h
    exact h.seek halone
  · next number deliveries attempts hstage =>
    rw [hstage] at h
    exact h.listen deliveries
  · next number message refusal deliveries attempts hstage =>
    rw [hstage] at h
    exact h.apply listener message.event
  · next number message fault deliveries attempts hstage =>
    rw [hstage] at h
    exact h.quiet trivial
  · next number message deliveries attempts hstage =>
    rw [hstage] at h
    exact h.quiet trivial
  · next attempts hstage =>
    rw [hstage] at h
    obtain ⟨hpunctual, hready⟩ := Awake.retry h hsettings halone
    split
    · next runEnd state hretry =>
      rw [hretry] at hpunctual
      exact hpunctual
    · next state hretry =>
      rw [hretry] at hready
      exact hready rfl
  · exact h

theorem Keeping.play (h : Keeping listener.settings alone now.stage now.state)
    (hsettings : listener.settings.Representable) (halone : alone → now.state.shutdown = {})
    (steps : Nat) :
    Keeping listener.settings alone (listener.play steps now).stage
      (listener.play steps now).state := by
  induction steps generalizing now with
  | zero => exact h
  | succ steps ih =>
    exact ih (h.step hsettings halone) fun hleft => step_calm listener (halone hleft)

/-! ## Whole traces -/

/-- What can be said of a trace. -/
structure Paced (settings : RetrySettings) (alone : Prop) (trace : List (Instant × Happening)) :
    Prop where
  punctual : EachAfter (Punctual settings alone) trace
  /-- No wait is too short or too long, or longer than a duration can be. -/
  bounded : ∀ time wait, (time, .retrying wait) ∈ trace →
    settings.shortest ≤ wait ∧ wait ≤ max settings.longest settings.shortest ∧
      wait ≤ Duration.greatest
  /-- The waits do not get shorter while no subscription is opened. -/
  increasing : ∀ before time wait between time' wait' after,
    trace = before ++ (time, .retrying wait) :: (between ++ (time', .retrying wait') :: after) →
    (∀ entry ∈ between, entry.2 ≠ .opened) → wait ≤ wait'

/-- Punctual entries make a trace that keeps to the limits. -/
theorem paced_of_punctual {trace : List (Instant × Happening)} (hsettings : settings.Representable)
    (h : EachAfter (Punctual settings alone) trace) : Paced settings alone trace where
  punctual := h
  bounded := by
    intro time wait hmem
    obtain ⟨before, after, hsplit⟩ := List.append_of_mem hmem
    have hlength : wait = settings.delay (waitsSinceOpened before) :=
      (h before (time, .retrying wait) after hsplit).length wait rfl
    have hlimit := settings.delay_le_limit (waitsSinceOpened before)
    rw [hlength]
    exact ⟨settings.shortest_le_delay _, hlimit, hlimit.trans hsettings.limit_le⟩
  increasing := by
    intro before time wait between time' wait' after hsplit hclosed
    have hlength : wait = settings.delay (waitsSinceOpened before) :=
      (h before (time, .retrying wait) _ hsplit).length wait rfl
    have hsplit' : trace
        = (before ++ (time, .retrying wait) :: between) ++ (time', .retrying wait') :: after := by
      rw [hsplit, List.append_assoc, List.cons_append]
    have hlength' : wait' = settings.delay
        (waitsSinceOpened (before ++ (time, .retrying wait) :: between)) :=
      (h _ (time', .retrying wait') after hsplit').length wait' rfl
    have hclosed' : ∀ entry ∈ (time, Happening.retrying wait) :: between, entry.2 ≠ .opened :=
      List.forall_mem_cons.mpr ⟨nofun, hclosed⟩
    rw [hlength, hlength']
    exact settings.delay_mono (waitsSinceOpened_le_append before hclosed')

/-- A listener that has not done anything. -/
def fresh (listener : Listener σ) (engine : Engine) (store : σ) (now : Instant)
    (shutdown : Shutdown) : Listening σ :=
  { engine, store, now, shutdown, wait := listener.settings.shortest }

/-- **A listener keeps its pace.**  Whatever a bus does, each wait is the shortest one doubled for
every wait since a subscription was opened, up to the limit, and an attempt follows.  If nobody
touches the flag, every attempt but the first one is made just when a wait is over. -/
theorem paced_run (listener : Listener σ) (hsettings : listener.settings.Representable)
    (attempts : List Attempt) (engine : Engine) (store : σ) (now : Instant) (shutdown : Shutdown) :
    Paced listener.settings (shutdown = {})
      (listener.run attempts (listener.fresh engine store now shutdown)).2.trace := by
  have hready : Ready listener.settings (shutdown = {})
      (listener.fresh engine store now shutdown) :=
    ⟨.nil _, listener.settings.delay_zero.symm, nofun, fun _ => Or.inl rfl⟩
  have hstart : Keeping listener.settings (shutdown = {})
      (Play.start attempts (listener.fresh engine store now shutdown)).stage
      (Play.start attempts (listener.fresh engine store now shutdown)).state := hready
  have hseeking : (Play.start attempts (listener.fresh engine store now shutdown)).stage
      = .seeking attempts := rfl
  obtain ⟨final, ⟨steps, rfl⟩, hstage, hstate⟩ := exists_leads_run listener hseeking
  have hkeeping := hstart.play hsettings id steps
  rw [hstage, hstate] at hkeeping
  exact paced_of_punctual hsettings hkeeping

/-- The beginnings and the lengths of waits. -/
def retrying? : Instant × Happening → Option (Instant × Duration)
  | (time, .retrying wait) => some (time, wait)
  | _ => none

/-- A bus that refuses three attempts, opens a subscription that is over at once, and refuses two
more. -/
def waveringBus : List Attempt :=
  [{ answer := .error (.streamCall .read) }, { answer := .error (.streamCall .read) },
    { answer := .error (.streamCall .read) }, { answer := .ok [.close] },
    { answer := .error (.streamCall .read) }, { answer := .error (.streamCall .read) }]

/-- A listener that waits for one second, two, and never more than three. -/
def patient : Listener ListStore :=
  { hiring with settings := ⟨Duration.ofSeconds 1, Duration.ofSeconds 3⟩ }

/-- The subscription that is opened after six seconds makes the waits short again. -/
theorem waits_are_short_again :
    patient.settings.Representable ∧
    Paced patient.settings True
      (patient.run waveringBus (patient.fresh (.new 0) {} 0 {})).2.trace ∧
    (patient.run waveringBus (patient.fresh (.new 0) {} 0 {})).2.trace.filterMap retrying?
      = [(0, 1000000), (1000000, 2000000), (3000000, 3000000), (6000000, 1000000),
        (7000000, 2000000), (9000000, 3000000)] := by
  have hsettings : patient.settings.Representable := ⟨by decide, by decide⟩
  have hpaced := paced_run patient hsettings waveringBus (.new 0) {} 0 {}
  rw [eq_self] at hpaced
  exact ⟨hsettings, hpaced, rfl⟩

end Listener

end GradedAccess
