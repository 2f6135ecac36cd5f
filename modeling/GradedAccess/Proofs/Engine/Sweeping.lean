import GradedAccess.Proofs.Engine.Staleness
import GradedAccess.Proofs.Tables

/-!
# Sweeping cannot be seen

A sweep drops the decisions that have ended.  A lookup would not have repeated them anyway, so
whoever looks decisions up cannot tell whether there has been a sweep in between.

Two runs are compared, one with sweeps and the same one without them.  Their entries differ, and so
do the moments at which ended entries disappear: a lookup drops one entry, a sweep all of them.  But
they agree on all entries that have not ended (`AgreesFrom`), and this is kept by every step of the
clock and every use of the decisions.  It rests on lookups and sweeps drawing the same line at the
very instant an entry ends, and on the clock not going back: an entry that has been swept would be
alive again at an earlier instant.

In an engine a check looks a decision up and remembers what it has found out.  So checks are
answered the same too, with or without a sweeper (`Engine.checks_unswept`).
-/

namespace GradedAccess

open Std (ExtTreeMap)

/-! ## Runs with and without some of their steps -/

/-- Two runs from one state, one of them without some steps of the other.  If every step at an
instant keeps the states related from that instant on, the ends of both runs are related from every
instant that is not before the steps.  The clock may not go back. -/
theorem related_foldl_filter {σ ι : Type} {step : σ → ι → σ} {instant? : ι → Option Instant}
    {left : ι → Bool} {R : Instant → σ → σ → Prop}
    (hlater : ∀ {now now' state state'}, R now state state' → now ≤ now' → R now' state state')
    (hstep : ∀ {now state state'}, R now state state' → ∀ last,
      (∀ own, instant? last = some own → own = now) →
        R now (step state last) (if left last then state' else step state' last))
    {state : σ} (hrefl : ∀ now, R now state state) {steps : List ι} {now : Instant}
    (hclock : (steps.filterMap instant?).Pairwise (· ≤ ·))
    (hnow : ∀ own ∈ steps.filterMap instant?, own ≤ now) :
    R now (steps.foldl step state) ((steps.filter fun each => !left each).foldl step state) := by
  induction steps using List.reverseRecOn generalizing now with
  | nil => exact hrefl now
  | append_singleton steps last ih =>
    rw [List.filterMap_append, List.pairwise_append] at hclock
    rw [List.filterMap_append, List.forall_mem_append] at hnow
    have hafter : ((steps ++ [last]).filter fun each => !left each).foldl step state =
        if left last then (steps.filter fun each => !left each).foldl step state
        else step ((steps.filter fun each => !left each).foldl step state) last := by
      rw [List.filter_append]
      cases h : left last <;> simp [h]
    rw [List.foldl_append, List.foldl_cons, List.foldl_nil, hafter]
    -- a step without an instant of its own may be thought of as taken now
    cases hinstant : instant? last with
    | none => exact hstep (ih hclock.1 hnow.1) last (by simp [hinstant])
    | some own =>
      have hmem : own ∈ [last].filterMap instant? := by simp [hinstant]
      have hbefore := ih hclock.1 fun earlier hearlier => hclock.2.2 earlier hearlier own hmem
      exact hlater (hstep hbefore last (by simp [hinstant])) (hnow.2 own hmem)

/-- Whether an entry has ended by an instant. -/
def Decision.hasEnded (entry : Decision) (now : Instant) : Bool := entry.expires ≤ now

namespace Decisions

variable {decisions swept plain : Decisions} {now now' : Instant} {user : UInt64}
variable {permission : PermissionId} {key : UInt64 × PermissionId} {entry : Decision}

/-! ## Uses of decisions -/

/-- Something that is done with remembered decisions. -/
inductive Use where
  | get (now : Instant) (user : UInt64) (permission : PermissionId)
  | insert (now : Instant) (user : UInt64) (permission : PermissionId) (allowed : Bool)
  | clear
  | purge (now : Instant)
  deriving DecidableEq

/-- The instant a use reads from the clock. -/
def Use.instant? : Use → Option Instant
  | .get now .. | .insert now .. | .purge now => some now
  | .clear => none

/-- Whether a use is a sweep. -/
def Use.sweeps : Use → Bool
  | .purge _ => true
  | .get .. | .insert .. | .clear => false

/-- The decisions after a use. -/
def step (decisions : Decisions) : Use → Decisions
  | .get now user permission => (decisions.get now user permission).2
  | .insert now user permission allowed => decisions.insert now user permission allowed
  | .clear => decisions.clear
  | .purge now => (decisions.purge now).2

/-- The decisions after some uses. -/
def after (decisions : Decisions) (uses : List Use) : Decisions := uses.foldl step decisions

/-- The uses of a run that are not sweeps. -/
def unswept (uses : List Use) : List Use := uses.filter fun use => !use.sweeps

/-- Whether the clock never goes back in a run. -/
def Chronological (uses : List Use) : Prop := (uses.filterMap Use.instant?).Pairwise (· ≤ ·)

instance (uses : List Use) : Decidable (Chronological uses) :=
  inferInstanceAs (Decidable (List.Pairwise _ _))

/-! ## Live entries -/

/-- A lookup keeps the entries that have not ended. -/
theorem live_get (hlive : now < entry.expires) :
    (decisions.get now user permission).2.entries[key]? = some entry ↔
      decisions.entries[key]? = some entry := by
  refine ⟨entry_of_get, fun h => ?_⟩
  unfold get
  split
  · exact h
  · next found hfound =>
    split
    · exact h
    · next hended =>
      show (decisions.entries.erase (user, permission))[key]? = some entry
      rw [getElem?_erase_of_ne _ _, h]
      rintro rfl
      rw [hfound, Option.some.injEq] at h
      exact hended (h ▸ hlive)

/-- What is found after a sweep was found before, and has not ended. -/
theorem getElem?_purge_eq_some_iff :
    (decisions.purge now).2.entries[key]? = some entry ↔
      decisions.entries[key]? = some entry ∧ now < entry.expires := by
  simp only [purge, ExtTreeMap.getElem?_filter', Option.filter_eq_some_iff, decide_eq_true_eq]

theorem hits_get : (decisions.get now user permission).2.hits =
    decisions.hits + if (decisions.get now user permission).1.isSome then 1 else 0 := by
  unfold get
  split
  · rfl
  · split <;> rfl

theorem misses_get : (decisions.get now user permission).2.misses =
    decisions.misses + if (decisions.get now user permission).1.isSome then 0 else 1 := by
  unfold get
  split
  · rfl
  · split <;> rfl

/-! ## Counting what has ended -/

/-- A sweep returns the number of entries that have ended. -/
theorem purge_eq_countP (decisions : Decisions) (now : Instant) :
    (decisions.purge now).1 = decisions.entries.toList.countP fun entry => entry.2.hasEnded now := by
  have hkept : (decisions.entries.filter fun _ entry => now < entry.expires).size =
      decisions.entries.toList.countP fun entry => now < entry.2.expires := by
    rw [← ExtTreeMap.length_toList, ExtTreeMap.toList_filter, List.countP_eq_length_filter]
  have hsplit := List.length_eq_countP_add_countP (l := decisions.entries.toList)
    fun entry => decide (now < entry.2.expires)
  simp only [ExtTreeMap.length_toList, decide_eq_true_eq, Nat.not_lt] at hsplit
  show decisions.entries.size -
    (decisions.entries.filter fun _ entry => now < entry.expires).size = _
  unfold Decision.hasEnded
  rw [hkept]
  omega

/-! ## Runs with sweeps and without -/

/-- Whether decisions that may have been swept agree with others from an instant on: they have the
same entries among those that have not ended by then, and have counted the same. -/
structure AgreesFrom (now : Instant) (swept plain : Decisions) : Prop where
  lifetime : swept.lifetime = plain.lifetime
  hits : swept.hits = plain.hits
  misses : swept.misses = plain.misses
  live : ∀ (key : UInt64 × PermissionId) (entry : Decision), now < entry.expires →
    (swept.entries[key]? = some entry ↔ plain.entries[key]? = some entry)

namespace AgreesFrom

theorem refl (now : Instant) (decisions : Decisions) : AgreesFrom now decisions decisions where
  lifetime := rfl
  hits := rfl
  misses := rfl
  live _ _ _ := Iff.rfl

/-- The clock may go on. -/
theorem later (h : AgreesFrom now swept plain) (hnow : now ≤ now') :
    AgreesFrom now' swept plain :=
  { h with live := fun key entry hlive => h.live key entry (Nat.lt_of_le_of_lt hnow hlive) }

/-- A lookup finds the same. -/
theorem get_eq (h : AgreesFrom now swept plain) (user : UInt64) (permission : PermissionId) :
    (swept.get now user permission).1 = (plain.get now user permission).1 := by
  ext allowed
  rw [get_eq_some_iff, get_eq_some_iff]
  refine exists_congr fun entry => ?_
  rw [← and_assoc, ← and_assoc]
  refine and_congr_left fun _ => and_congr_left fun hlive => ?_
  exact h.live (user, permission) entry hlive

theorem get (h : AgreesFrom now swept plain) (user : UInt64) (permission : PermissionId) :
    AgreesFrom now (swept.get now user permission).2 (plain.get now user permission).2 where
  lifetime := by rw [lifetime_get, lifetime_get, h.lifetime]
  hits := by rw [hits_get, hits_get, h.get_eq, h.hits]
  misses := by rw [misses_get, misses_get, h.get_eq, h.misses]
  live key entry hlive := by rw [live_get hlive, live_get hlive, h.live key entry hlive]

theorem insert (h : AgreesFrom now swept plain) (user : UInt64) (permission : PermissionId)
    (allowed : Bool) : AgreesFrom now (swept.insert now user permission allowed)
      (plain.insert now user permission allowed) := by
  unfold Decisions.insert
  rw [h.lifetime]
  split
  · exact h
  · refine ⟨rfl, h.hits, h.misses, fun key entry hlive => ?_⟩
    simp only [ExtTreeMap.getElem?_insert]
    split
    · exact Iff.rfl
    · exact h.live key entry hlive

theorem clear (h : AgreesFrom now swept plain) : AgreesFrom now swept.clear plain.clear :=
  { h with live := fun _ _ _ => Iff.rfl }

/-- A sweep of one side leaves both in agreement. -/
theorem purge (h : AgreesFrom now swept plain) : AgreesFrom now (swept.purge now).2 plain where
  lifetime := h.lifetime
  hits := h.hits
  misses := h.misses
  live key entry hlive := by
    rw [getElem?_purge_eq_some_iff, and_iff_left hlive, h.live key entry hlive]

end AgreesFrom

/-- A use at an instant leaves both sides in agreement. -/
theorem AgreesFrom.step (h : AgreesFrom now swept plain) (last : Use)
    (hlast : ∀ own, last.instant? = some own → own = now) :
    AgreesFrom now (swept.step last) (if last.sweeps then plain else plain.step last) := by
  cases last with
  | get own user permission =>
    obtain rfl := hlast own rfl
    exact h.get user permission
  | insert own user permission allowed =>
    obtain rfl := hlast own rfl
    exact h.insert user permission allowed
  | clear => exact h.clear
  | purge own =>
    obtain rfl := hlast own rfl
    exact h.purge

/-- A run and the same run without its sweeps agree from every instant that is not before them. -/
theorem agreesFrom_after (decisions : Decisions) {uses : List Use} (hclock : Chronological uses)
    (hnow : ∀ own ∈ uses.filterMap Use.instant?, own ≤ now) :
    AgreesFrom now (decisions.after uses) (decisions.after (unswept uses)) := by
  unfold after unswept
  exact related_foldl_filter (R := AgreesFrom) .later .step (.refl · decisions) hclock hnow

/-- **Sweeping cannot be seen.**  As long as the clock does not go back, every lookup of a run finds
the same as in the same run without sweeps, and the hits and misses are the same at every point.
Each sweep returns the number of entries that have ended, and leaves exactly the others. -/
theorem sweeping_unseen (decisions : Decisions) {uses : List Use} (hclock : Chronological uses) :
    (∀ earlier later, uses = earlier ++ later →
      (decisions.after earlier).hits = (decisions.after (unswept earlier)).hits ∧
      (decisions.after earlier).misses = (decisions.after (unswept earlier)).misses) ∧
    (∀ earlier now user permission later, uses = earlier ++ .get now user permission :: later →
      ((decisions.after earlier).get now user permission).1 =
        ((decisions.after (unswept earlier)).get now user permission).1) ∧
    (∀ earlier now later, uses = earlier ++ .purge now :: later →
      ((decisions.after earlier).purge now).1 =
        (decisions.after earlier).entries.toList.countP (fun entry => entry.2.hasEnded now) ∧
      ∀ (key : UInt64 × PermissionId) (entry : Decision),
        ((decisions.after earlier).purge now).2.entries[key]? = some entry ↔
          (decisions.after earlier).entries[key]? = some entry ∧ now < entry.expires) := by
  refine ⟨?_, ?_, ?_⟩
  · rintro earlier later rfl
    rw [Chronological, List.filterMap_append, List.pairwise_append] at hclock
    have hagree := agreesFrom_after decisions hclock.1 fun own hmem =>
      List.le_max?_getD_of_mem (k := 0) hmem
    exact ⟨hagree.hits, hagree.misses⟩
  · rintro earlier now user permission later rfl
    rw [Chronological, List.filterMap_append, List.pairwise_append] at hclock
    have hagree := agreesFrom_after decisions hclock.1 fun own hmem =>
      hclock.2.2 own hmem now List.mem_cons_self
    exact hagree.get_eq user permission
  · rintro earlier now later rfl
    exact ⟨purge_eq_countP _ now, fun key entry => getElem?_purge_eq_some_iff⟩

/-- A sweep at the very instant a decision ends drops it, and the lookup that follows is a miss in
any case. -/
theorem sweep_on_time_unseen :
    let decisions : Decisions := { lifetime := 10 }
    let earlier : List Use := [.insert 0 1 ⟨1⟩ true, .purge 5, .get 9 1 ⟨1⟩]
    let uses : List Use := earlier ++ [.purge 10, .get 10 1 ⟨1⟩]
    Chronological uses ∧
      ((decisions.after earlier).purge 10).1 =
        (decisions.after earlier).entries.toList.countP (fun entry => entry.2.hasEnded 10) ∧
      ((decisions.after earlier).purge 10).1 = 1 ∧
      ((decisions.after (earlier ++ [.purge 10])).get 10 1 ⟨1⟩).1 =
        ((decisions.after (unswept (earlier ++ [.purge 10]))).get 10 1 ⟨1⟩).1 ∧
      (decisions.after uses).hits = (decisions.after (unswept uses)).hits ∧
      (decisions.after uses).misses = (decisions.after (unswept uses)).misses := by
  intro decisions earlier uses
  have hclock : Chronological uses := by decide
  obtain ⟨hcounts, hgets, hpurges⟩ := decisions.sweeping_unseen hclock
  have hsweep := (hpurges earlier 10 [.get 10 1 ⟨1⟩] rfl).1
  have hmiss := hgets (earlier ++ [.purge 10]) 10 1 ⟨1⟩ [] rfl
  have hended : ((decisions.after earlier).purge 10).1 = 1 := by decide +kernel
  have hcount := hcounts uses [] (List.append_nil uses).symm
  exact ⟨hclock, hsweep, hended, hmiss, hcount⟩

end Decisions

/-! ## Engines with sweepers and without -/

namespace Engine

variable {engine swept plain : Engine} {now now' : Instant} {identity : Identity}
variable {category name : String}

/-- Whether a step is a sweep. -/
def Step.sweeps : Step → Bool
  | .sweep _ => true
  | .check .. | .clear | .load _ => false

/-- Whether two engines have the same caches, and decisions that agree from an instant on. -/
structure AgreesFrom (now : Instant) (swept plain : Engine) : Prop where
  caches : swept.caches = plain.caches
  decisions : Decisions.AgreesFrom now swept.decisions plain.decisions

/-- A check is answered the same, and leaves both engines in agreement. -/
theorem AgreesFrom.can (h : AgreesFrom now swept plain) (identity : Identity)
    (category name : String) :
    (swept.can now identity category name).1 = (plain.can now identity category name).1 ∧
      AgreesFrom now (swept.can now identity category name).2
        (plain.can now identity category name).2 := by
  rcases swept.unremembered_or_known identity category name with hskip | ⟨hs, permission, hp⟩
  · have hskip' := hskip
    rw [h.caches] at hskip'
    rw [can_of_unremembered hskip, can_of_unremembered hskip', h.caches]
    exact ⟨rfl, h⟩
  · have hp' := hp
    rw [h.caches] at hp'
    have hanswer := h.decisions.get_eq identity.user permission
    have hafter := h.decisions.get identity.user permission
    rcases hget : swept.decisions.get now identity.user permission with ⟨answer, decisions⟩
    rcases hget' : plain.decisions.get now identity.user permission with ⟨answer', decisions'⟩
    rw [hget, hget'] at hanswer hafter
    obtain rfl : answer = answer' := hanswer
    cases answer with
    | none =>
      rw [can_of_miss hs hp hget, can_of_miss hs hp' hget', h.caches]
      exact ⟨rfl, ⟨rfl, hafter.insert _ _ _⟩⟩
    | some allowed =>
      rw [can_of_hit hs hp hget, can_of_hit hs hp' hget']
      exact ⟨rfl, ⟨h.caches, hafter⟩⟩

theorem AgreesFrom.step (h : AgreesFrom now swept plain) (last : Step)
    (hlast : ∀ own, last.instant? = some own → own = now) :
    AgreesFrom now (swept.step last) (if last.sweeps then plain else plain.step last) := by
  cases last with
  | check own identity category name =>
    obtain rfl := hlast own rfl
    exact (h.can identity category name).2
  | clear => exact ⟨h.caches, h.decisions.clear⟩
  | sweep own =>
    obtain rfl := hlast own rfl
    exact ⟨h.caches, h.decisions.purge⟩
  | load caches => exact ⟨rfl, h.decisions⟩

/-- Every check of a run is answered as in the same run without a sweeper. -/
theorem checks_unswept {steps : List Step}
    (hclock : Chronological (steps ++ [.check now identity category name])) :
    ((engine.after steps).can now identity category name).1 =
      ((engine.after (steps.filter fun each => !each.sweeps)).can now identity category name).1 := by
  rw [Chronological, List.filterMap_append, List.pairwise_append] at hclock
  have hagree : AgreesFrom now (engine.after steps)
      (engine.after (steps.filter fun each => !each.sweeps)) := by
    unfold after
    refine related_foldl_filter (R := AgreesFrom) ?_ .step (fun now => ⟨rfl, .refl now _⟩)
      hclock.1 fun own hmem => hclock.2.2 own hmem now (List.mem_singleton_self now)
    exact fun h hle => ⟨h.caches, h.decisions.later hle⟩
  exact (hagree.can identity category name).1

end Engine

end GradedAccess
