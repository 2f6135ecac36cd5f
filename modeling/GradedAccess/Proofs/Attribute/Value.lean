import GradedAccess.Attribute.Value

/-!
# When values are accepted

A value is accepted exactly when its kind is the kind of its attribute, and a value is checked
against its limits exactly when all of them are of that kind.  Both are stated as equivalences, so
that a reload that went through can be read backwards: whatever it has screened was of the right
kind.
-/

namespace GradedAccess

theorem pure_eq_ok {α : Type} (a : α) : (pure a : Except Fault α) = .ok a := rfl

/-- What comes after a step that succeeds. -/
theorem ok_bind {α β : Type} (a : α) (next : α → Except Fault β) :
    (Except.ok a >>= next) = next a := rfl

/-- Nothing comes after a step that fails. -/
theorem error_bind {α β : Type} (fault : Fault) (next : α → Except Fault β) :
    (Except.error fault >>= next) = .error fault := rfl

/-- Two steps that may fail succeed together when each does. -/
theorem bind_eq_ok_iff {α β : Type} {first : Except Fault α} {next : α → Except Fault β} {b : β} :
    (first >>= next) = .ok b ↔ ∃ a, first = .ok a ∧ next a = .ok b := by
  cases first with
  | error fault => exact ⟨nofun, fun ⟨_, h, _⟩ => nomatch h⟩
  | ok a =>
    constructor
    · intro h
      exact ⟨a, rfl, h⟩
    · rintro ⟨_, ⟨⟩, h⟩
      exact h

namespace AttributeValue

variable {kind : AttributeKind} {value : AttributeValue}

/-- A value that may be missing, with the value that holds nothing in its place. -/
def orEmpty (kind : AttributeKind) (given : Option AttributeValue) : AttributeValue :=
  given.getD (empty kind)

theorem kind_orEmpty {given : Option AttributeValue} (h : ∀ v, given = some v → v.kind = kind) :
    (orEmpty kind given).kind = kind := by
  cases given with
  | none => exact kind_empty kind
  | some value => exact h value rfl

theorem ensureKind_eq_ok_iff : value.ensureKind kind = .ok () ↔ value.kind = kind := by
  rw [ensureKind]
  by_cases h : value.kind = kind <;> simp [h]

/-- A limit is accepted if there is none, or if it is of the kind. -/
theorem forM_ensureKind_eq_ok_iff {limit : Option AttributeValue} :
    limit.forM (ensureKind kind) = .ok () ↔ ∀ v, limit = some v → v.kind = kind := by
  cases limit with
  | none => exact ⟨fun _ => nofun, fun _ => rfl⟩
  | some value =>
    have hforM : (some value).forM (ensureKind kind) = value.ensureKind kind := rfl
    rw [hforM, ensureKind_eq_ok_iff]
    exact ⟨fun h v hv => Option.some.inj hv ▸ h, fun h => h value rfl⟩

/-- A value that may be missing is accepted if it is missing or of the kind. -/
theorem orDefault_eq_ok_iff {given : Option AttributeValue} :
    orDefault kind given = .ok value ↔
      (∀ v, given = some v → v.kind = kind) ∧ value = orEmpty kind given := by
  cases given with
  | none =>
    have hdefault : orDefault kind none = .ok (empty kind) := rfl
    rw [hdefault, Except.ok.injEq]
    exact ⟨fun h => ⟨nofun, h.symm⟩, fun h => h.2.symm⟩
  | some given =>
    rw [orDefault, bind_eq_ok_iff]
    constructor
    · rintro ⟨_, hkind, hvalue⟩
      rw [ensureKind_eq_ok_iff] at hkind
      exact ⟨fun v hv => Option.some.inj hv ▸ hkind, (Except.ok.inj hvalue).symm⟩
    · rintro ⟨hkind, rfl⟩
      exact ⟨(), ensureKind_eq_ok_iff.mpr (hkind _ rfl), rfl⟩

/-- The tests a check begins with. -/
def ensureKinds (kind : AttributeKind) (valid most : Option AttributeValue)
    (value : AttributeValue) : Except Fault Unit := do
  value.ensureKind kind
  valid.forM (ensureKind kind)
  most.forM (ensureKind kind)

variable {valid most : Option AttributeValue}

theorem ensureKinds_eq_ok_iff :
    value.ensureKinds kind valid most = .ok () ↔
      value.kind = kind ∧ (∀ v, valid = some v → v.kind = kind) ∧
        ∀ v, most = some v → v.kind = kind := by
  simp only [ensureKinds, bind_eq_ok_iff]
  constructor
  · rintro ⟨_, hvalue, _, hvalid, hmost⟩
    exact ⟨ensureKind_eq_ok_iff.mp hvalue, forM_ensureKind_eq_ok_iff.mp hvalid,
      forM_ensureKind_eq_ok_iff.mp hmost⟩
  · rintro ⟨hvalue, hvalid, hmost⟩
    exact ⟨(), ensureKind_eq_ok_iff.mpr hvalue, (), forM_ensureKind_eq_ok_iff.mpr hvalid,
      forM_ensureKind_eq_ok_iff.mpr hmost⟩

/-- A check makes all of its tests before it touches the value, so whichever of them fails, the
value is still as it was. -/
theorem checkInPlace_eq (kind : AttributeKind) (valid most : Option AttributeValue)
    (value : AttributeValue) :
    checkInPlace kind valid most value =
      match value.ensureKinds kind valid most with
      | .ok () => clamp valid most value
      | .error fault => (.error fault, value) := by
  simp only [checkInPlace, InPlace.get_bind, InPlace.test_bind, ensureKinds]
  cases value.ensureKind kind with
  | error fault => rfl
  | ok _ =>
    cases valid.forM (ensureKind kind) with
    | error fault => rfl
    | ok _ => cases most.forM (ensureKind kind) <;> rfl

/-- A check goes through with what its run reports and leaves. -/
theorem checkInPlace_eq_ok_iff {outcome : CheckOutcome} {left : AttributeValue} :
    checkInPlace kind valid most value = (.ok outcome, left) ↔
      value.check kind valid most = .ok ⟨left, outcome.ok, outcome.changed⟩ := by
  obtain ⟨ok, changed⟩ := outcome
  rw [check]
  rcases checkInPlace kind valid most value with ⟨fault | ⟨ok', changed'⟩, left'⟩
  · exact ⟨nofun, nofun⟩
  · constructor
    · rintro ⟨⟩
      rfl
    · rintro ⟨⟩
      rfl

/-- A value is checked if it and both of its limits are of the kind. -/
theorem check_eq_ok_iff {checked : Checked AttributeValue} :
    value.check kind valid most = .ok checked ↔
      value.kind = kind ∧ (∀ v, valid = some v → v.kind = kind) ∧
        (∀ v, most = some v → v.kind = kind) ∧ checked = limited valid most value := by
  rw [check, checkInPlace_eq, ← and_assoc, ← and_assoc, and_assoc (a := value.kind = kind),
    ← ensureKinds_eq_ok_iff]
  cases value.ensureKinds kind valid most with
  | error fault => simp only [reduceCtorEq, false_and]
  | ok _ =>
    simp only [clamp_eq]
    simp only [Except.ok.injEq, true_and, eq_comm]

end AttributeValue

end GradedAccess
