import GradedAccess.Proofs.Session
import GradedAccess.Proofs.Sync.Refresh

/-!
# Events bring caches up to date

An engine that has loaded everything once can keep up with its store by applying events.  The store
may be operated on and events may be applied in any order, and an event may come several times, or
for nothing.  All it takes is that whatever an operation touches is announced by an event that is
applied afterwards (`Announced`).  Then the caches end up just as a full load of the store, as it
is in the end, would fill empty caches (`loadAll_of_announced`).

What an operation touches while an event is being applied has to be announced by a later event, for
the one that is being applied may have fetched it already.

The invariant is that the caches are in sync up to what is due, and that everything that is due is
still going to be announced.  A step keeps it by `Caches.InSync.applyEvent` or `drift_after`.
-/

namespace GradedAccess

namespace Session

variable {limit : Duration} {state : Loaded MemoryStore} {due : Part → Prop}

/-! ## Steps that operate on the store or apply an event -/

/-- What is done to the store in a step that operates on the store or applies an event. -/
def Step.operations : Step → List Operation
  | .operation op => [op]
  | .call _ meanwhile => meanwhile.flatten

/-- Whether a step operates on the store or applies an event, and all operations fit the attributes
of a store. -/
def Step.Fits (store : MemoryStore) : Step → Prop
  | .operation op => op.Fits store
  | .call (.apply _) meanwhile => ∀ op ∈ meanwhile.flatten, op.Fits store
  | .call _ _ => False

instance (store : MemoryStore) (first : Step) : Decidable (first.Fits store) :=
  match first with
  | .operation op => inferInstanceAs (Decidable (op.Fits store))
  | .call (.apply _) meanwhile =>
    inferInstanceAs (Decidable (∀ op ∈ meanwhile.flatten, op.Fits store))
  | .call (.reload _) _ | .call (.enrol _) _ => inferInstanceAs (Decidable False)

/-- Whether a step applies an event that announces a part. -/
def Step.Refreshes : Step → Part → Prop
  | .call (.apply event) _, part => event.Refreshes part
  | _, _ => False

instance (first : Step) (part : Part) : Decidable (first.Refreshes part) :=
  match first with
  | .call (.apply event) _ => inferInstanceAs (Decidable (event.Refreshes part))
  | .operation _ | .call (.reload _) _ | .call (.enrol _) _ => inferInstanceAs (Decidable False)

/-- Whether every part that a step touches is announced by an event of a later step. -/
def Announced (limit : Duration) : Loaded MemoryStore → List Step → Prop
  | _, [] => True
  | state, first :: steps =>
    (∀ part ∈ touchedParts state.store first.operations, ∃ later ∈ steps, later.Refreshes part) ∧
      Announced limit (step limit state first) steps

instance decidableAnnounced (limit : Duration) :
    (state : Loaded MemoryStore) → (steps : List Step) → Decidable (Announced limit state steps)
  | _, [] => inferInstanceAs (Decidable True)
  | state, first :: steps =>
    have := decidableAnnounced limit (step limit state first) steps
    inferInstanceAs (Decidable ((∀ part ∈ touchedParts state.store first.operations,
      ∃ later ∈ steps, later.Refreshes part) ∧ Announced limit (step limit state first) steps))

/-! ## One step -/

/-- A step that fits is an operation that fits, or an event during which others fit. -/
theorem Step.Fits.cases {first : Step} {store : MemoryStore} (h : first.Fits store) :
    (∃ op, first = .operation op ∧ op.Fits store) ∨
      ∃ event meanwhile, first = .call (.apply event) meanwhile ∧
        ∀ op ∈ meanwhile.flatten, op.Fits store := by
  cases first with
  | operation op => exact Or.inl ⟨op, rfl, h⟩
  | call call meanwhile =>
    cases call with
    | apply event => exact Or.inr ⟨event, meanwhile, rfl, h⟩
    | reload scope => exact h.elim
    | enrol registry => exact h.elim

theorem Step.Fits.operations {first : Step} {store : MemoryStore} (h : first.Fits store) :
    ∀ op ∈ first.operations, op.Fits store := by
  rcases h.cases with ⟨op, rfl, hop⟩ | ⟨event, meanwhile, rfl, hops⟩
  · exact List.forall_mem_singleton.mpr hop
  · exact hops

theorem Step.Fits.congr {store store' : MemoryStore} {first : Step} (h : first.Fits store)
    (hattributes : store'.attributes = store.attributes) : first.Fits store' := by
  rcases h.cases with ⟨op, rfl, hop⟩ | ⟨event, meanwhile, rfl, hops⟩
  · exact Operation.Fits.congr hop hattributes
  · exact fun op hmem => (hops op hmem).congr hattributes

/-- A step does nothing to the store but its operations. -/
theorem store_step {first : Step} {store : MemoryStore} (h : first.Fits store)
    (state : Loaded MemoryStore) :
    (step limit state first).store = state.store.afterAll first.operations := by
  rcases h.cases with ⟨op, rfl, -⟩ | ⟨event, meanwhile, rfl, -⟩
  · rfl
  · exact Shared.settled_applyEvent limit event ⟨state.caches, ⟨state.store, meanwhile⟩⟩

/-- A store drifts only in the parts that a step touches. -/
theorem drift_step {first : Step} (hsound : state.store.Sound) (hfits : first.Fits state.store)
    (hroom : (step limit state first).store.next ≤ UInt64.size) :
    Drift (Touched state.store first.operations) state.store (step limit state first).store := by
  rw [store_step hfits] at hroom ⊢
  exact drift_afterAll hsound hroom hfits.operations

/-- Caches in sync with a store stay so through a step.  What is due afterwards is what the step
has touched, and what was due before and the step has not announced. -/
theorem inSync_step {first : Step} (h : state.caches.InSync due state.store)
    (hfits : first.Fits state.store) (hroom : (step limit state first).store.next ≤ UInt64.size) :
    (step limit state first).caches.InSync
      (DueAfter due (Touched state.store first.operations) first.Refreshes)
      (step limit state first).store := by
  rcases hfits.cases with ⟨op, rfl, -⟩ | ⟨event, meanwhile, rfl, hops⟩
  · exact h.drift (drift_step h.sound hfits hroom)
  · rw [store_step hfits] at hroom ⊢
    have hheads : Shared.Heads (Touched state.store meanwhile.flatten) ⟨state.store, meanwhile⟩
        (state.store.afterAll meanwhile.flatten) :=
      ⟨h.sound, h.kinds, rfl, hroom, hops, fun _ htouched => htouched⟩
    obtain ⟨report, after, hrun, hsync⟩ := h.applyEvent hheads limit event
    have hcaches : (step limit state (.call (.apply event) meanwhile)).caches = after.caches :=
      congrArg (fun result => result.2.caches) hrun
    rw [hcaches]
    exact hsync

/-! ## All steps -/

/-- Numbers are never given back. -/
theorem next_le_run (limit : Duration) (steps : List Step) (state : Loaded MemoryStore) :
    state.store.next ≤ (run limit steps state).store.next :=
  (continues_run limit steps state).evolves.next_le

/-- Caches that are in sync up to what is going to be announced are in sync in the end. -/
theorem inSync_run {steps : List Step} (h : state.caches.InSync due state.store)
    (hfits : ∀ first ∈ steps, first.Fits state.store) (hannounced : Announced limit state steps)
    (hdue : ∀ part, due part → ∃ later ∈ steps, later.Refreshes part)
    (hroom : (run limit steps state).store.next ≤ UInt64.size) :
    (run limit steps state).caches.InSync (fun _ => False) (run limit steps state).store := by
  induction steps generalizing state due with
  | nil =>
    have hnone : due = fun _ => False := by
      funext part
      refine eq_false fun hpart => ?_
      obtain ⟨later, hmem, -⟩ := hdue part hpart
      cases hmem
    rwa [hnone] at h
  | cons first steps ih =>
    rw [List.forall_mem_cons] at hfits
    have hstep := Nat.le_trans (next_le_run limit steps (step limit state first)) hroom
    have hdrift := drift_step h.sound hfits.1 hstep
    refine ih (inSync_step h hfits.1 hstep)
      (fun later hmem => (hfits.2 later hmem).congr hdrift.attributes) hannounced.2 ?_ hroom
    rintro part (htouched | ⟨hpart, hnot⟩)
    · exact hannounced.1 part htouched
    · obtain ⟨later, hmem, hlater⟩ := hdue part hpart
      rcases List.mem_cons.mp hmem with rfl | hmem
      · exact absurd hlater hnot
      · exact ⟨later, hmem, hlater⟩

/-! ## The end of a session -/

/-- A full load of a store that keeps its rules fills empty caches with what caches hold that
mirror the store. -/
theorem loadAll_of_mirrors (limit : Duration) (hmirrors : state.caches.Mirrors state.store)
    (hsound : state.store.Sound) (hkinds : state.store.WellKinded) :
    ∃ report, (MemoryStore.source limit).loadAll ⟨{}, state.store⟩ = (.ok report, state) := by
  have hloads : ∃ caches report, Caches.load {} state.store.rows = .ok (caches, report) :=
    (Caches.exists_load_iff hsound).mpr hkinds
  obtain ⟨caches, report, hload⟩ := hloads
  have hfiled := consistent_nil.filed
  have hkeys : Caches.KeysAgree {} state.store := fun permission key id hkey => by simp at hkey
  obtain rfl := (Caches.Mirrors.of_load hsound hfiled hkeys hload).unique hmirrors
  refine ⟨report, ?_⟩
  exact (Load.fetch_commit_of_ok (MemoryStore.source limit).loadAll_eq
    (MemoryStore.fetchAll_source limit state.store)).trans (Load.commit_of_ok hload)

/-- **Events bring caches up to date.**  Whatever a session has done, once everything has been
loaded, and every later change has been announced by an event that was applied after it, the caches
are those that a full load of the store gives.  So all their lookups and their sizes are the same.
The store may not have run out of numbers. -/
theorem loadAll_of_announced {history steps : List Step} {report : Report}
    {loaded : Loaded MemoryStore}
    (hload : (MemoryStore.source limit).loadAll (reached limit history) = (.ok report, loaded))
    (hfits : ∀ first ∈ steps, first.Fits loaded.store)
    (hannounced : Announced limit loaded steps)
    (hroom : (run limit steps loaded).store.next ≤ UInt64.size) :
    ∃ report', (MemoryStore.source limit).loadAll ⟨{}, (run limit steps loaded).store⟩ =
      (.ok report', run limit steps loaded) := by
  have hstore := store_loadAll limit (reached limit history)
  rw [hload] at hstore
  have hbefore := Nat.le_trans (next_le_run limit steps loaded) hroom
  rw [hstore] at hbefore
  have hconsistent := consistent_reached hbefore
  obtain ⟨hmirrors, hkinds⟩ := mirrors_of_loadAll hconsistent hload
  have hsync := hmirrors.inSync hconsistent.sound hkinds
  rw [← hstore] at hsync
  have hend := inSync_run hsync hfits hannounced (fun _ => False.elim) hroom
  exact loadAll_of_mirrors limit (hend.mirrors fun _ => id) hend.sound hend.kinds

/-- A role of the police is replaced by another in the same slot.  The new one is granted something
while the event about the old one is being applied. -/
def replacement : List Step :=
  [.operation (.deleteRole ⟨3⟩),
    .operation (.createRole "police" 5),
    .call (.apply (.roleGrants ⟨3⟩)) [[.setGrant ⟨4⟩ ⟨1⟩ (some true)]],
    .operation (.setCeiling "police" ⟨2⟩ (some (.strings ⟨["name"]⟩))),
    .call (.apply (.jobCeilings "police")) [],
    .call (.apply (.roleGrants ⟨4⟩)) []]

/-- The events about a replaced role, its successor and their job bring the caches up to date. -/
theorem caches_follow_replacement :
    let loaded := ((MemoryStore.source 0).loadAll (reached 0 hiring)).2
    (∀ first ∈ replacement, first.Fits loaded.store) ∧ Announced 0 loaded replacement ∧
      (run 0 replacement loaded).store.next ≤ UInt64.size ∧
      ∃ report, (MemoryStore.source 0).loadAll ⟨{}, (run 0 replacement loaded).store⟩ =
        (.ok report, run 0 replacement loaded) := by
  intro loaded
  have hreport : ((MemoryStore.source 0).loadAll (reached 0 hiring)).1 = .ok ⟨5, 0, 0, 1⟩ := by
    decide +kernel
  have hfits : ∀ first ∈ replacement, first.Fits loaded.store := by decide +kernel
  have hannounced : Announced 0 loaded replacement := by decide +kernel
  have hroom : (run 0 replacement loaded).store.next ≤ UInt64.size := by decide +kernel
  exact ⟨hfits, hannounced, hroom,
    loadAll_of_announced (Prod.ext hreport rfl) hfits hannounced hroom⟩

end Session

end GradedAccess
