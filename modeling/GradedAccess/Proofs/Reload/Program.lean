import GradedAccess.Enrolment
import GradedAccess.Proofs.Reload.Update

/-!
# What single requests say about programs

A loader asks a store one request after another, and may be stopped by a fault after each of them.
So whatever can be chained and holds of the states before and after every single request holds of
the states before and after a whole program.  `Source.Respects` says the first for a relation, and
the laws here say the second for all that is fetched.  Enrolment also writes, so for it the
requests that write have to be looked at too.

A reload goes on from what was fetched to the caches.  Every reload and every event is one of four
reloads, or two of them in a row; `Source.Carries` says of a relation between caches and stores that
it holds before and after these four.
-/

namespace GradedAccess

variable {σ : Type}

/-- Whether a request does not write. -/
def Request.Reads {α : Type} : Request α → Prop
  | .createPermission _ | .createAttribute _ | .redefine .. => False
  | _ => True

namespace Source

/-- Whether a relation can be chained and relates the states of a store before and after every
request that reads. -/
structure Respects (source : Source σ) (R : σ → σ → Prop) : Prop where
  refl : ∀ state, R state state
  trans : ∀ ⦃a b c : σ⦄, R a b → R b c → R a c
  read : ∀ {α : Type} (loading : String) (request : Request α), request.Reads →
    Fetch.Relates R (source.fetch loading request)

namespace Respects

variable {source : Source σ} {R : σ → σ → Prop} {α β : Type}

theorem pure (h : source.Respects R) (a : α) : Fetch.Relates R (pure a : Fetch σ α) := h.refl

theorem bind (h : source.Respects R) {first : Fetch σ α} {next : α → Fetch σ β}
    (hfirst : Fetch.Relates R first) (hnext : ∀ a, Fetch.Relates R (next a)) :
    Fetch.Relates R (first >>= next) :=
  Fetch.Relates.bind h.trans hfirst hnext

/-! ## Fetching -/

theorem fetchAll (h : source.Respects R) : Fetch.Relates R source.fetchAll := by
  refine h.bind (h.read _ _ trivial) fun permissions => ?_
  refine h.bind (h.read _ _ trivial) fun attributes => ?_
  refine h.bind (h.read _ _ trivial) fun roles => h.bind (h.read _ _ trivial) fun grants => ?_
  refine h.bind (h.read _ _ trivial) fun values => h.bind (h.read _ _ trivial) fun ceilings => ?_
  exact h.pure _

theorem fetchGrants (h : source.Respects R) (id : RoleId) :
    Fetch.Relates R (source.fetchGrants id) :=
  h.bind (h.read _ _ trivial) fun _ => h.bind (h.read _ _ trivial) fun _ => h.pure _

theorem fetchValues (h : source.Respects R) (id : RoleId) :
    Fetch.Relates R (source.fetchValues id) :=
  h.bind (h.read _ _ trivial) fun _ => h.bind (h.read _ _ trivial) fun _ => h.pure _

theorem fetchEach (h : source.Respects R) (roles : List Role) :
    Fetch.Relates R (source.fetchEach roles) := by
  induction roles with
  | nil => exact h.pure _
  | cons role roles ih =>
    exact h.bind (h.read _ _ trivial) fun _ => h.bind (h.read _ _ trivial) fun _ =>
      h.bind ih fun _ => h.pure _

theorem fetchJob (h : source.Respects R) (job : String) :
    Fetch.Relates R (source.fetchJob job) :=
  h.bind (h.read _ _ trivial) fun roles => h.bind (h.read _ _ trivial) fun _ =>
    h.bind (h.fetchEach roles) fun _ => h.pure _

/-! ## Enrolment -/

section Enrolment

variable (h : source.Respects R) (hwrite : ∀ {α : Type} (loading : String) (request : Request α),
  Fetch.Relates R (source.fetch loading request))
include h hwrite

theorem createPermissions (guards : Enrolment.Guards) (count : Nat)
    (definitions : List Definition) :
    Fetch.Relates R (Enrolment.createPermissions source guards count definitions) := by
  induction definitions generalizing guards count with
  | nil => exact h.pure _
  | cons definition definitions ih =>
    rw [Enrolment.createPermissions]
    split
    · exact ih guards count
    · exact h.bind (hwrite _ _) fun created => ih _ _

theorem enrolAttribute (stored : PairTable PermissionId String Attribute)
    (report : EnrolmentReport) (permission : PermissionId) (declared : AttributeDefinition) :
    Fetch.Relates R (Enrolment.enrolAttribute source stored report permission declared) := by
  rw [Enrolment.enrolAttribute]
  split
  · exact h.bind (hwrite _ _) fun _ => h.pure _
  · next attr _ =>
    refine h.bind ?_ fun agrees => ?_
    · cases Enrolment.agrees declared attr with
      | error fault => exact h.refl
      | ok agrees => exact h.pure agrees
    · split
      · exact h.pure _
      · exact h.bind (hwrite _ _) fun _ => h.pure _

theorem enrolAttributes (stored : PairTable PermissionId String Attribute)
    (report : EnrolmentReport) (declared : List (PermissionId × AttributeDefinition)) :
    Fetch.Relates R (Enrolment.enrolAttributes source stored report declared) := by
  induction declared generalizing report with
  | nil => exact h.pure _
  | cons first rest ih =>
    exact h.bind (h.enrolAttribute hwrite stored report first.1 first.2) ih

theorem enrol (registry : Registry) : Fetch.Relates R (source.enrol registry) :=
  h.bind (hwrite _ _) fun _ => h.bind (h.createPermissions hwrite _ _ _) fun _ =>
    h.bind (hwrite _ _) fun _ => h.enrolAttributes hwrite _ _ _

end Enrolment

end Respects

/-! ## Reloads -/

/-- Whether a relation can be chained and relates the caches and the store before and after every
reload that is not made of others. -/
structure Carries (source : Source σ) (R : Loaded σ → Loaded σ → Prop) : Prop where
  refl : ∀ loaded, R loaded loaded
  trans : ∀ ⦃a b c : Loaded σ⦄, R a b → R b c → R a c
  loadAll : Fetch.Relates R source.loadAll
  reloadGrants : ∀ id, Fetch.Relates R (source.reloadGrants id)
  reloadValues : ∀ id, Fetch.Relates R (source.reloadValues id)
  reloadJob : ∀ job, Fetch.Relates R (source.reloadJob job)

namespace Carries

variable {source : Source σ} {R : Loaded σ → Loaded σ → Prop}

/-- The two halves of a reload of a role are two reloads; the second may be the one that fails. -/
theorem reload (h : source.Carries R) (scope : Scope) : Fetch.Relates R (source.reload scope) := by
  cases scope with
  | all => exact h.loadAll
  | role id =>
    refine .bind h.trans (h.reloadGrants id) fun grants => ?_
    exact .bind h.trans (h.reloadValues id) fun values => h.refl
  | job job => exact h.reloadJob job

theorem applyEvent (h : source.Carries R) (event : Event) :
    Fetch.Relates R (source.applyEvent event) := by
  cases event with
  | roleGrants role => exact h.reloadGrants role
  | roleValues role => exact h.reloadValues role
  | jobCeilings job => exact h.reloadJob job

end Carries

/-- A fetch and an update do to the store what the fetch does. -/
theorem relates_fetch_update {α : Type} {R : σ → σ → Prop} {fetch : Fetch σ α}
    (h : Fetch.Relates R fetch) (update : α → Update Report) :
    Fetch.Relates (fun loaded loaded' => R loaded.store loaded'.store)
      (Load.ofFetch fetch >>= fun rows => Load.ofUpdate (update rows)) := by
  intro loaded
  have hstore := h loaded.store
  rcases hfetch : fetch loaded.store with ⟨fault | rows, store⟩
  · have hfetched : Load.ofFetch fetch loaded = (.error fault, { loaded with store }) := by
      rw [Load.ofFetch, hfetch]
    rw [Fetch.bind_of_error hfetched]
    rwa [hfetch] at hstore
  · have hfetched : Load.ofFetch fetch loaded = (.ok rows, { loaded with store }) := by
      rw [Load.ofFetch, hfetch]
    rw [Fetch.bind_of_ok hfetched, Load.store_ofUpdate]
    rwa [hfetch] at hstore

/-- A reload does to the store what it fetches does. -/
theorem Respects.carries {source : Source σ} {R : σ → σ → Prop} (h : source.Respects R) :
    source.Carries fun loaded loaded' => R loaded.store loaded'.store where
  refl _ := h.refl _
  trans _ _ _ h₁ h₂ := h.trans h₁ h₂
  loadAll := relates_fetch_update h.fetchAll _
  reloadGrants id := relates_fetch_update (h.fetchGrants id) _
  reloadValues id := relates_fetch_update (h.fetchValues id) _
  reloadJob job := relates_fetch_update (h.fetchJob job) _

end Source

end GradedAccess
