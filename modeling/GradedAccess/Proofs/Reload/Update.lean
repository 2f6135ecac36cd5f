import GradedAccess.Proofs.Attribute.Value
import GradedAccess.Proofs.Fetch

/-!
# Writes that come to a commit

A reload makes many writes and may fail, and a fault takes nothing back.  Still it comes to the same
as a pure function from caches to caches that fails without a result: where the pure function gives
caches, they are what the writes have left, and where it gives a fault, nothing has been written
(`Update.load_eq` and the three statements after it).  Both halves are read off the order of the
steps.  Screening is all that can fail, it looks at the caches and writes nothing, and every reload
is through with it before its first write.

The writes themselves are brought together from below.  A table of the caches is replaced one row at
a time, by induction on the rows that are left (`Caches.Field.foldlM_write_eq`); parts of the caches
do not touch each other, so that what was read from one of them before the others were written is
still there.

With that, a reload is one fetch and one `Load.commit`, and this is the form in which the rest of
the library speaks about it.
-/

namespace GradedAccess

open Std (ExtTreeSet TransOrd)

/-! ## Single writes -/

namespace Caches.Field

variable {τ ω : Type}

/-- What comes after a write goes on from the caches with the change in them. -/
theorem write_bind (field : Field τ) (change : τ → τ × Tally) (next : Report → Update ω)
    (caches : Caches) :
    (field.write change >>= next) caches =
      next (.ofTally (change (field.read caches)).2)
        (field.put (change (field.read caches)).1 caches) := rfl

variable {α β γ : Type} [Ord α] [Ord β] [TransOrd α] [TransOrd β] [DecidableEq α] [DecidableEq β]

/-- Rows that are written one after another leave the table that a fold over it leaves, and the rest
of the caches as it was. -/
theorem foldlM_write_eq (field : Field (PairTable α β γ)) (fresh : List (α × β × γ)) (as : List α)
    (state : PairTable α β γ × Tally) (caches : Caches) :
    as.foldlM (m := Update) (fun report a => do
        let written ← field.write (·.replaceRow a (PairTable.freshRow fresh a))
        pure (report + written)) (Report.ofTally state.2) (field.put state.1 caches) =
      let replaced := as.foldl (fun state a =>
        let replaced := state.1.replaceRow a (PairTable.freshRow fresh a)
        (replaced.1, state.2 + replaced.2)) state
      (.ok (.ofTally replaced.2), field.put replaced.1 caches) := by
  induction as generalizing state with
  | nil => rfl
  | cons a as ih =>
    let replaced := state.1.replaceRow a (PairTable.freshRow fresh a)
    have hfirst : (do
        let written ← field.write (·.replaceRow a (PairTable.freshRow fresh a))
        pure (Report.ofTally state.2 + written) : Update Report) (field.put state.1 caches) =
          (.ok (.ofTally (state.2 + replaced.2)), field.put replaced.1 caches) := by
      rw [write_bind, field.read_put, field.put_put]
      rfl
    rw [List.foldlM_cons, Fetch.bind_of_ok hfirst, List.foldl_cons]
    exact ih (replaced.1, state.2 + replaced.2)

/-- Replacing rows in their place leaves the table with the rows replaced. -/
theorem writeRows_eq (field : Field (PairTable α β γ)) (named : List α) (fresh : List (α × β × γ))
    (caches : Caches) :
    field.writeRows named fresh caches =
      (.ok (.ofTally ((field.read caches).replaceRows named fresh).2),
        field.put ((field.read caches).replaceRows named fresh).1 caches) := by
  have hfold := foldlM_write_eq field fresh (ExtTreeSet.ofList (named ++ fresh.map (·.1))).toList
    (field.read caches, 0) caches
  rwa [field.put_read] at hfold

end Caches.Field

/-! ## Reloads -/

namespace Update

open Caches (Field)

/-- A change that is made as a whole or not at all. -/
def atOnce (change : Caches → Except Fault (Caches × Report)) : Update Report := fun caches =>
  match change caches with
  | .ok (caches', report) => (.ok report, caches')
  | .error fault => (.error fault, caches)

theorem writeGrants_eq (named : List RoleId)
    (screened : Screened (RoleId × PermissionId × Bool)) (caches : Caches) :
    writeGrants named screened caches =
      (.ok (caches.commitGrants named screened).2, (caches.commitGrants named screened).1) := by
  rw [writeGrants, Fetch.bind_of_ok (Field.writeRows_eq ..)]
  rfl

theorem writeValues_eq (named : List RoleId)
    (screened : Screened (RoleId × AttributeId × AttributeValue)) (caches : Caches) :
    writeValues named screened caches =
      (.ok (caches.commitValues named screened).2, (caches.commitValues named screened).1) := by
  rw [writeValues, Fetch.bind_of_ok (Field.writeRows_eq ..)]
  rfl

theorem writeCeilings_eq (named : List String)
    (screened : Screened ((String × AttributeId) × AttributeValue)) (caches : Caches) :
    writeCeilings named screened caches =
      (.ok (caches.commitCeilings named screened).2,
        (caches.commitCeilings named screened).1) := by
  rw [writeCeilings, Fetch.bind_of_ok (Field.writeRows_eq ..)]
  rfl

theorem hold_bind {ω : Type} (role : Role) (next : Unit → Update ω) (caches : Caches) :
    (hold role >>= next) caches = next () { caches with roles := caches.roles.upsert role } := rfl

theorem forget_eq (role : RoleId) (caches : Caches) :
    forget role caches = (.ok (caches.forget role).2, (caches.forget role).1) := rfl

/-- The writes of a full load, by what they leave and report. -/
theorem takeAll_eq (rows : Rows) (grants : Screened (RoleId × PermissionId × Bool))
    (values : Screened (RoleId × AttributeId × AttributeValue))
    (ceilings : Screened ((String × AttributeId) × AttributeValue)) (caches : Caches) :
    takeAll rows grants values ceilings caches =
      let permissions := caches.catalog.replacePermissions rows.permissions
      let attributes := permissions.1.replaceAttributes (Caches.knownAttributes rows).values
      let roles := caches.roles.replaceAll rows.roles
      let state : Caches := { caches with catalog := attributes.1, roles := roles.1 }
      let granted := state.commitGrants caches.grants.firsts grants
      let valued := granted.1.commitValues caches.values.firsts values
      let limited := valued.1.commitCeilings caches.ceilings.firsts ceilings
      (.ok (.ofTally (permissions.2 + attributes.2 + roles.2) + granted.2 + valued.2 + limited.2),
        limited.1) := by
  extract_lets permissions attributes roles state granted valued limited
  have hpermissions : Field.catalog.write (·.replacePermissions rows.permissions) caches =
      (.ok (.ofTally permissions.2), { caches with catalog := permissions.1 }) := rfl
  have hattributes : Field.catalog.write (·.replaceAttributes (Caches.knownAttributes rows).values)
      { caches with catalog := permissions.1 } =
      (.ok (.ofTally attributes.2), { caches with catalog := attributes.1 }) := rfl
  have hroles : Field.roles.write (·.replaceAll rows.roles)
      { caches with catalog := attributes.1 } = (.ok (.ofTally roles.2), state) := rfl
  have hgranted : writeGrants state.grants.firsts grants state = (.ok granted.2, granted.1) :=
    writeGrants_eq ..
  have hvalued : writeValues granted.1.values.firsts values granted.1 = (.ok valued.2, valued.1) :=
    writeValues_eq ..
  have hlimited : writeCeilings valued.1.ceilings.firsts ceilings valued.1 =
      (.ok limited.2, limited.1) := writeCeilings_eq ..
  rw [takeAll, Fetch.bind_of_ok hpermissions, Fetch.bind_of_ok hattributes, Fetch.bind_of_ok hroles,
    InPlace.get_bind, Fetch.bind_of_ok hgranted, InPlace.get_bind, Fetch.bind_of_ok hvalued,
    InPlace.get_bind, Fetch.bind_of_ok hlimited]
  rfl

/-- A full load leaves what the pure function gives, and where that fails, the caches as they
were. -/
theorem load_eq (rows : Rows) : load rows = atOnce fun caches => caches.load rows := by
  funext caches
  -- from here on one step is rewritten at a time: a `simp` through the whole program leaves a term
  -- that the kernel takes a minute to check
  simp only [load, atOnce, Caches.load, InPlace.test_bind]
  cases (Caches.knownIn rows).screenCeilings rows.ceilings with
  | error fault => rw [error_bind]
  | ok ceilings =>
    rw [ok_bind]
    dsimp only
    cases (Caches.knownIn rows).screenValues
        (fun job attr => ceilings.toCeilings[(job, attr)]?) rows.values with
    | error fault => rw [error_bind]
    | ok values =>
      rw [ok_bind, pure_eq_ok]
      exact takeAll_eq ..

/-- So does the reload of a role's grants, which cannot fail. -/
theorem reloadGrants_eq (id : RoleId) (role : Option Role) (rows : List Grant) :
    reloadGrants id role rows = atOnce fun caches => .ok (caches.reloadGrants id role rows) := by
  funext caches
  cases role with
  | none => exact forget_eq id caches
  | some row =>
    rw [reloadGrants, InPlace.get_bind, hold_bind, writeGrants_eq]
    rfl

/-- So does the reload of a role's values. -/
theorem reloadValues_eq (id : RoleId) (role : Option Role) (rows : List RoleValue) :
    reloadValues id role rows = atOnce fun caches => caches.reloadValues id role rows := by
  funext caches
  cases role with
  | none => exact forget_eq id caches
  | some row =>
    rw [reloadValues, InPlace.get_bind, InPlace.test_bind, atOnce, Caches.reloadValues]
    cases (caches.knownFor id row).screenValues caches.ceiling rows with
    | error fault => rw [error_bind]
    | ok values =>
      rw [ok_bind, pure_eq_ok]
      dsimp only
      rw [hold_bind, writeValues_eq]

/-- The writes of the reload of a job, by what they leave and report. -/
theorem takeJob_eq (job : String) (roles : List Role)
    (grants : Screened (RoleId × PermissionId × Bool))
    (values : Screened (RoleId × AttributeId × AttributeValue))
    (ceilings : Screened ((String × AttributeId) × AttributeValue)) (caches : Caches) :
    takeJob job roles grants values ceilings caches =
      let affected := caches.roles.jobRoles job ++ roles.map (·.id)
      let replaced := caches.roles.replaceJob job roles
      let granted := { caches with roles := replaced.1 }.commitGrants affected grants
      let valued := granted.1.commitValues affected values
      let limited := valued.1.commitCeilings [job] ceilings
      (.ok (.ofTally replaced.2 + granted.2 + valued.2 + limited.2), limited.1) := by
  extract_lets affected replaced granted valued limited
  have hroles : Field.roles.write (·.replaceJob job roles) caches =
      (.ok (.ofTally replaced.2), { caches with roles := replaced.1 }) := rfl
  rw [takeJob, InPlace.get_bind, Fetch.bind_of_ok hroles, Fetch.bind_of_ok (writeGrants_eq ..),
    Fetch.bind_of_ok (writeValues_eq ..), Fetch.bind_of_ok (writeCeilings_eq ..)]
  rfl

/-- So does the reload of a job. -/
theorem reloadJob_eq (job : String) (rows : Caches.JobRows) :
    reloadJob job rows = atOnce fun caches => caches.reloadJob job rows := by
  funext caches
  rw [reloadJob, InPlace.get_bind, InPlace.test_bind, atOnce, Caches.reloadJob]
  generalize caches.knownAmong (rows.roles.filter (·.job = job)) = known
  cases known.screenCeilings (rows.ceilings.filter (·.job = job)) with
  | error fault => rw [error_bind]
  | ok ceilings =>
    rw [ok_bind]
    dsimp only
    rw [InPlace.test_bind]
    cases known.screenValues (fun job attr => ceilings.toCeilings[(job, attr)]?) rows.values with
    | error fault => rw [error_bind]
    | ok values =>
      rw [ok_bind, pure_eq_ok]
      exact takeJob_eq ..

end Update

/-! ## Commits -/

namespace Load

variable {σ α : Type}

/-- Replaces the caches, unless that is a fault. -/
def commit (change : Caches → Except Fault (Caches × Report)) : Load σ Report := fun state =>
  match change state.caches with
  | .ok (caches, report) => (.ok report, { state with caches })
  | .error fault => (.error fault, state)

/-- An update that is made as a whole or not at all is a commit. -/
theorem ofUpdate_atOnce (change : Caches → Except Fault (Caches × Report)) :
    ofUpdate (.atOnce change) = (commit change : Load σ Report) := by
  funext state
  rw [ofUpdate, Update.atOnce, commit]
  rcases change state.caches with fault | ⟨caches, report⟩ <;> rfl

variable {program : Load σ Report} {fetch : Fetch σ α}
variable {change : α → Caches → Except Fault (Caches × Report)}

/-- After a fetch that succeeds, what is fetched is committed to the caches as they are. -/
theorem fetch_commit_of_ok
    (hprogram : program = ofFetch fetch >>= fun rows => commit (change rows)) {caches : Caches}
    {store store' : σ} {rows : α} (hfetch : fetch store = (.ok rows, store')) :
    program ⟨caches, store⟩ = commit (change rows) ⟨caches, store'⟩ := by
  have hfetched : ofFetch fetch ⟨caches, store⟩ = (.ok rows, ⟨caches, store'⟩) := by
    rw [ofFetch, hfetch]
  rw [hprogram, Fetch.bind_of_ok hfetched]

/-- A commit that succeeds replaces the caches. -/
theorem commit_of_ok {change : Caches → Except Fault (Caches × Report)} {caches caches' : Caches}
    {store : σ} {report : Report} (h : change caches = .ok (caches', report)) :
    commit change ⟨caches, store⟩ = (.ok report, ⟨caches', store⟩) := by
  rw [commit, h]

/-- One fetch and one commit leave the store that the fetch leaves.  The caches stay as they are,
unless both succeed. -/
theorem fetch_commit_cases
    (hprogram : program = ofFetch fetch >>= fun rows => commit (change rows)) (state : Loaded σ) :
    (program state).2.store = (fetch state.store).2 ∧ ((program state).2.caches = state.caches ∨
      ∃ rows report, (fetch state.store).1 = .ok rows ∧
        change rows state.caches = .ok ((program state).2.caches, report)) := by
  rw [hprogram]
  rcases hrun : fetch state.store with ⟨fault | rows, store⟩
  · have hfetched : ofFetch fetch state = (.error fault, { state with store }) := by
      rw [ofFetch, hrun]
    rw [Fetch.bind_of_error hfetched]
    exact ⟨rfl, Or.inl rfl⟩
  · have hfetched : ofFetch fetch state = (.ok rows, { state with store }) := by
      rw [ofFetch, hrun]
    rw [Fetch.bind_of_ok hfetched, commit]
    cases hchange : change rows state.caches with
    | error fault => exact ⟨rfl, Or.inl rfl⟩
    | ok changed => exact ⟨rfl, Or.inr ⟨rows, changed.2, rfl, hchange⟩⟩

/-- What holds of the caches before and after every change that succeeds, and of caches that stay as
they are, holds of them before and after a fetch and a commit. -/
theorem relates_caches
    (hprogram : program = ofFetch fetch >>= fun rows => commit (change rows))
    (R : Caches → Caches → Prop) (hrefl : ∀ caches, R caches caches)
    (h : ∀ {rows caches caches' report}, change rows caches = .ok (caches', report) →
      R caches caches') :
    Fetch.Relates (fun loaded loaded' : Loaded σ => R loaded.caches loaded'.caches) program := by
  intro loaded
  rcases (fetch_commit_cases hprogram loaded).2 with hkept | ⟨rows, report, -, hchange⟩
  · rw [hkept]
    exact hrefl _
  · exact h hchange

end Load

/-! ## Scopes -/

namespace Source

variable {σ : Type} (source : Source σ)

theorem loadAll_eq : source.loadAll =
    Load.ofFetch source.fetchAll >>= fun rows => Load.commit fun caches => caches.load rows := by
  simp only [loadAll, Update.load_eq, Load.ofUpdate_atOnce]

theorem reloadGrants_eq (id : RoleId) : source.reloadGrants id =
    Load.ofFetch (source.fetchGrants id) >>= fun rows =>
      Load.commit fun caches => .ok (caches.reloadGrants id rows.1 rows.2) := by
  simp only [reloadGrants, Update.reloadGrants_eq, Load.ofUpdate_atOnce]

theorem reloadValues_eq (id : RoleId) : source.reloadValues id =
    Load.ofFetch (source.fetchValues id) >>= fun rows =>
      Load.commit fun caches => caches.reloadValues id rows.1 rows.2 := by
  simp only [reloadValues, Update.reloadValues_eq, Load.ofUpdate_atOnce]

theorem reloadJob_eq (job : String) : source.reloadJob job =
    Load.ofFetch (source.fetchJob job) >>= fun rows =>
      Load.commit fun caches => caches.reloadJob job rows := by
  simp only [reloadJob, Update.reloadJob_eq, Load.ofUpdate_atOnce]

end Source

end GradedAccess
