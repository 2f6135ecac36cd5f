import GradedAccess.Json.Form
import GradedAccess.Proofs.Json.Rereading
import GradedAccess.Wire
import Mathlib.Data.List.Nodup

/-!
# Forms that are read back

`RoundTrips` pairs a way of writing a type with the way of reading it: what is written is plain, so
its text is read as the value again, and reading the type out of that value gives what was written
(`RoundTrips.parse?_write`).  The pairs compose.  Lists and maps of a type that round-trips
round-trip, so do optional fields of it, and a record is read field by field once its names are
known to differ (`fields?_record`).

A number round-trips only because its bounds are those of its type, so both bounds are used here
and nowhere else.
-/

namespace GradedAccess

namespace Json

variable {α β γ : Type}

/-- Whether every value of a type is written as a plain value from which it is read again. -/
structure RoundTrips (toJson : α → Json) (ofJson? : Json → Option α) : Prop where
  plain (value : α) : (toJson value).Plain
  reads (value : α) : ofJson? (toJson value) = some value

variable {toJson : α → Json} {ofJson? : Json → Option α}

/-- The text of a type that round-trips is read as the value it was written for. -/
theorem RoundTrips.parse?_write (h : RoundTrips toJson ofJson?) (value : α) :
    parse? ofJson? (toJson value).write = some value := by
  rw [parse?, read?_write (h.plain value), Option.bind_some, h.reads value]

/-- A record is plain when its values are. -/
theorem Plain.record {members : List (String × Json)} (h : ∀ member ∈ members, member.2.Plain) :
    (record members).Plain := by
  refine .object ?_ ?_
  · rw [List.forall_mem_map]
    exact fun _ _ => rfl
  · rw [List.forall_mem_map]
    exact h

/-! ## Fields

A reader of a record is a chain of binds.  They are resolved one by one with the lemmas of this
section, which take what was read as an equation.  Were it left to computation, the bounds of a
64-bit number would be counted out.
-/

/-- What is done with a value that is there is done with that value. -/
theorem bind_of_eq_some {read : Option β} {value : β} (h : read = some value)
    (next : β → Option γ) : (read >>= next) = next value := by
  rw [h, Option.bind_eq_bind, Option.bind_some]

theorem RoundTrips.required (h : RoundTrips toJson ofJson?) (value : α) :
    Field.required ofJson? (.given (toJson value)) = some value :=
  h.reads value

theorem RoundTrips.bind_required (h : RoundTrips toJson ofJson?) (value : α)
    (next : α → Option β) :
    (Field.required ofJson? (.given (toJson value)) >>= next) = next value :=
  bind_of_eq_some (h.required value) next

theorem RoundTrips.bind_orElse (h : RoundTrips toJson ofJson?) (default value : α)
    (next : α → Option β) :
    (Field.orElse ofJson? default (.given (toJson value)) >>= next) = next value :=
  bind_of_eq_some (h.reads value) next

/-- An optional field is plain when its type is. -/
theorem RoundTrips.plain_ofOption (h : RoundTrips toJson ofJson?) (value : Option α) :
    (ofOption toJson value).Plain := by
  cases value with
  | none => exact .null
  | some value => exact h.plain value

/-- An optional field of a type is read back unless `null` is a value of the type. -/
theorem RoundTrips.optional_ofOption (h : RoundTrips toJson ofJson?) (hnull : ofJson? .null = none)
    (value : Option α) : Field.optional ofJson? (.given (ofOption toJson value)) = some value := by
  cases value with
  | none => rfl
  | some value =>
    have hread := h.reads value
    rw [ofOption]
    cases hjson : toJson value with
    | null =>
      rw [hjson, hnull] at hread
      cases hread
    | _ =>
      rw [← hjson, Field.optional, hread, Option.map_some]
      rw [hjson]
      exact nofun

theorem RoundTrips.bind_optional (h : RoundTrips toJson ofJson?) (hnull : ofJson? .null = none)
    (value : Option α) (next : Option α → Option β) :
    (Field.optional ofJson? (.given (ofOption toJson value)) >>= next) = next value :=
  bind_of_eq_some (h.optional_ofOption hnull value) next

/-! ## Scalars -/

theorem roundTrips_bool : RoundTrips .bool bool? where
  plain value := .bool value
  reads _ := rfl

theorem roundTrips_text : RoundTrips text text? where
  plain s := .string s
  reads _ := rfl

theorem roundTrips_uint64 : RoundTrips ofUInt64 uint64? where
  plain n := .integer n.toNat
  reads n := by
    have hroom : 0 ≤ (n.toNat : Int) ∧ (n.toNat : Int) < UInt64.size :=
      ⟨Int.natCast_nonneg _, Int.ofNat_lt.mpr n.toNat_lt_size⟩
    rw [ofUInt64, uint64?, integer?, Option.bind_eq_bind, Option.bind_some, if_pos hroom,
      Int.toNat_natCast, UInt64.ofNat_toNat]

theorem roundTrips_int32 : RoundTrips ofInt32 int32? where
  plain n := .integer n.toInt
  reads n := by
    have hroom : Int32.minValue.toInt ≤ n.toInt ∧ n.toInt ≤ Int32.maxValue.toInt :=
      ⟨n.minValue_le_toInt, n.toInt_le⟩
    rw [ofInt32, int32?, integer?, Option.bind_eq_bind, Option.bind_some, if_pos hroom,
      Int32.ofInt_toInt]

/-! ## Lists and maps -/

/-- Reading one by one what was made one by one. -/
theorem mapM_map_eq_some {f : β → Option γ} {make : α → β} {made : α → γ} {values : List α}
    (h : ∀ value ∈ values, f (make value) = some (made value)) :
    (values.map make).mapM f = some (values.map made) := by
  induction values with
  | nil => rfl
  | cons value values ih =>
    rw [List.forall_mem_cons] at h
    rw [List.map_cons, List.mapM_cons, h.1, ih h.2]
    rfl

theorem RoundTrips.list (h : RoundTrips toJson ofJson?) :
    RoundTrips (fun values => .array (values.map toJson)) (list? ofJson?) where
  plain values := by
    refine .array ?_
    rw [List.forall_mem_map]
    exact fun value _ => h.plain value
  reads values := by
    rw [list?, mapM_map_eq_some fun value _ => h.reads value, List.map_id']

theorem RoundTrips.entries (h : RoundTrips toJson ofJson?) :
    RoundTrips (fun entries => record (entries.map fun entry => (entry.1, toJson entry.2)))
      (entries? ofJson?) where
  plain entries := by
    refine .record ?_
    rw [List.forall_mem_map]
    exact fun entry _ => h.plain entry.2
  reads entries := by
    have hentry : ∀ entry : String × α, ((ofJson? (toJson entry.2)).bind fun value =>
        some (entry.1, value)) = some entry := by
      intro entry
      rw [h.reads, Option.bind_some]
    rw [record, List.map_map, entries?, mapM_map_eq_some fun entry _ => hentry entry, List.map_id']

/-! ## Records -/

/-- A key that occurs once is given once. -/
theorem valuesAt_of_mem {members : List (Text × Json)} (h : (members.map (·.1)).Nodup)
    {name : String} {value : Json} (hmem : (some name, value) ∈ members) :
    valuesAt name members = [value] := by
  induction members with
  | nil => cases hmem
  | cons member members ih =>
    rw [List.map_cons, List.nodup_cons, List.mem_map] at h
    rw [valuesAt, List.filterMap_cons]
    rcases List.mem_cons.mp hmem with rfl | hmem
    · have hrest : valuesAt name members = [] := by
        rw [valuesAt, List.filterMap_eq_nil_iff]
        exact fun other hother => if_neg fun hkey => h.1 ⟨other, hother, hkey⟩
      rw [if_pos rfl]
      exact congrArg (value :: ·) hrest
    · rw [if_neg fun hkey => h.1 ⟨_, hmem, hkey.symm⟩]
      exact ih h.2 hmem

/-- A record whose keys differ gives each of its members. -/
theorem fields?_record {members : List (String × Json)} (h : (members.map (·.1)).Nodup) :
    (record members).fields? (members.map (·.1)) = some (members.map fun member =>
      .given member.2) := by
  rw [record]
  generalize hkeyed : members.map (fun member => (some member.1, member.2)) = keyed
  have hnodup : (keyed.map (·.1)).Nodup := by
    have hsome := h.map fun _ _ => Option.some.inj
    rw [List.map_map] at hsome
    rwa [← hkeyed, List.map_map]
  have hall : keyed.all (·.1.isSome) = true := by
    rw [← hkeyed, List.all_map, List.all_eq_true]
    exact fun _ _ => rfl
  rw [fields?, if_pos hall]
  refine mapM_map_eq_some fun member hmem => ?_
  have hkey : (some member.1, member.2) ∈ keyed := hkeyed ▸ List.mem_map_of_mem hmem
  rw [fieldAt?, valuesAt_of_mem hnodup hkey]

/-- `fields?_record` with the names and the values listed apart. -/
theorem fields?_record_zip (names : List String) (values : List Json)
    (hlength : names.length = values.length) (hnames : names.Nodup) :
    (record (names.zip values)).fields? names = some (values.map .given) := by
  have hkeys : (names.zip values).map (·.1) = names := List.map_fst_zip hlength.le
  have hvalues : (names.zip values).map (·.2) = values := List.map_snd_zip hlength.ge
  have hfields := fields?_record (hkeys.symm ▸ hnames)
  rw [hkeys] at hfields
  rw [hfields, ← congrArg (List.map Field.given) hvalues, List.map_map]
  rfl

end Json

end GradedAccess
