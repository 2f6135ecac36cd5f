import GradedAccess.Reconcile

/-!
# Lists of rows and the tables they fill

A store lists its rows, and a cache is a table filled from such a list.  The bridge between the two
is `lastFor`, the last row of a list with a key: it is what a lookup finds in a table that was
filled from the list (`getElem?_ofList`), and for a list that has every key once it is membership
(`lastFor_eq_some_iff`).

The rows of one first part are a list with every key once, in ascending order (`pairwise_row`).
A screening turns each of them into one entry of the same key, or into none;
`lastFor_filterMap_row` reads a lookup in such a list off the table.
-/

namespace GradedAccess

open Std (ExtTreeMap ExtTreeSet TransOrd LawfulEqOrd OrientedOrd TransCmp)

/-- The values of a table are those of its entries. -/
theorem values_eq_map_toList {α β : Type} {cmp : α → α → Ordering} [TransCmp cmp]
    (table : ExtTreeMap α β cmp) : table.values = table.toList.map (·.2) := by
  have hfold : table.values = table.foldr (fun _ value values => value :: values) [] := by
    obtain ⟨inner⟩ := table
    induction inner using Std.ExtDTreeMap.inductionOn with
    | mk _ => rfl
  rw [hfold, ExtTreeMap.foldr_eq_foldr_toList]
  induction table.toList with
  | nil => rfl
  | cons entry entries ih => rw [List.foldr_cons, ih, List.map_cons]

/-- The values that pass a test are those of a table of their own. -/
theorem filter_values {α β : Type} {cmp : α → α → Ordering} [TransCmp cmp]
    (table : ExtTreeMap α β cmp) (test : β → Bool) :
    table.values.filter test = (table.filter fun _ value => test value).values := by
  rw [values_eq_map_toList, values_eq_map_toList, ExtTreeMap.toList_filter, List.filter_map]
  rfl

/-- The values of a table are what lookups find. -/
theorem mem_values_iff {α β : Type} {cmp : α → α → Ordering} [TransCmp cmp]
    [Std.LawfulEqCmp cmp] {table : ExtTreeMap α β cmp} {value : β} :
    value ∈ table.values ↔ ∃ key : α, table[key]? = some value := by
  rw [values_eq_map_toList, List.mem_map]
  constructor
  · rintro ⟨entry, hmem, rfl⟩
    exact ⟨entry.1, ExtTreeMap.mem_toList_iff_getElem?_eq_some.mp hmem⟩
  · rintro ⟨key, hkey⟩
    exact ⟨(key, value), ExtTreeMap.mem_toList_iff_getElem?_eq_some.mpr hkey, rfl⟩

/-- The members of a set are listed once each. -/
theorem nodup_toList {α : Type} {cmp : α → α → Ordering} [TransCmp cmp] (set : ExtTreeSet α cmp) :
    set.toList.Nodup := by
  refine ExtTreeSet.distinct_toList.imp fun {a b} hne heq => hne ?_
  rw [heq]
  exact Std.ReflCmp.compare_self

/-- The keys of a table are listed once each. -/
theorem nodup_keys {α β : Type} {cmp : α → α → Ordering} [TransCmp cmp]
    (table : ExtTreeMap α β cmp) : table.keys.Nodup := by
  refine ExtTreeMap.distinct_keys.imp fun {a b} hne heq => hne ?_
  rw [heq]
  exact Std.ReflCmp.compare_self

/-! ## One row more, one row less -/

section Single

variable {α β : Type} {cmp : α → α → Ordering} [TransCmp cmp] [Std.LawfulEqCmp cmp]
variable {table : ExtTreeMap α β cmp} {key key' : α} {value found : β}

omit [Std.LawfulEqCmp cmp] in
theorem mem_iff_exists : key ∈ table ↔ ∃ value, table[key]? = some value := by
  rw [← Option.isSome_iff_exists, ExtTreeMap.isSome_getElem?_iff_mem]

omit [Std.LawfulEqCmp cmp] in
/-- A key under which nothing is found is not in the table. -/
theorem notMem_of_eq_none (h : table[key]? = none) : key ∉ table := by
  rw [mem_iff_exists, h]
  rintro ⟨value, hvalue⟩
  cases hvalue

/-- What is found after an insertion is what was inserted, or was found before. -/
theorem getElem?_insert_cases (h : (table.insert key value)[key']? = some found) :
    key' = key ∧ found = value ∨ key' ≠ key ∧ table[key']? = some found := by
  rw [ExtTreeMap.getElem?_insert] at h
  split at h
  · next hkey =>
    rw [Std.LawfulEqCmp.compare_eq_iff_eq] at hkey
    exact Or.inl ⟨hkey.symm, (Option.some.inj h).symm⟩
  · next hkey =>
    rw [Std.LawfulEqCmp.compare_eq_iff_eq] at hkey
    exact Or.inr ⟨Ne.symm hkey, h⟩

/-- What is in a table after an insertion is what was inserted, or was there before. -/
theorem mem_insert_cases (h : key' ∈ table.insert key value) : key' = key ∨ key' ∈ table := by
  rw [ExtTreeMap.mem_insert, Std.LawfulEqCmp.compare_eq_iff_eq] at h
  exact h.imp Eq.symm id

/-- What is found after a row is gone is another row, and was found before. -/
theorem getElem?_erase_cases (h : (table.erase key)[key']? = some found) :
    key' ≠ key ∧ table[key']? = some found := by
  rw [ExtTreeMap.getElem?_erase] at h
  split at h
  · cases h
  · next hkey =>
    rw [Std.LawfulEqCmp.compare_eq_iff_eq] at hkey
    exact ⟨Ne.symm hkey, h⟩

/-- A row under another key stays when a row is put into a table. -/
theorem getElem?_insert_of_ne (table : ExtTreeMap α β cmp) (value : β) (hne : key' ≠ key) :
    (table.insert key value)[key']? = table[key']? := by
  rw [ExtTreeMap.getElem?_insert, if_neg]
  rw [Std.LawfulEqCmp.compare_eq_iff_eq]
  exact Ne.symm hne

/-- A row under another key stays when a row is taken out of a table. -/
theorem getElem?_erase_of_ne (table : ExtTreeMap α β cmp) (hne : key' ≠ key) :
    (table.erase key)[key']? = table[key']? := by
  rw [ExtTreeMap.getElem?_erase, if_neg]
  rw [Std.LawfulEqCmp.compare_eq_iff_eq]
  exact Ne.symm hne

/-- Taking rows out of a table one after another leaves all others. -/
theorem getElem?_foldl_erase [DecidableEq α] (gone : List α) (table : ExtTreeMap α β cmp)
    (key : α) : (gone.foldl (fun table key => table.erase key) table)[key]? =
      if key ∈ gone then none else table[key]? := by
  induction gone generalizing table with
  | nil => simp
  | cons first gone ih =>
    rw [List.foldl_cons, ih]
    by_cases h : key = first
    · rw [h, ExtTreeMap.getElem?_erase_self]
      simp
    · rw [getElem?_erase_of_ne table h]
      simp [h]

/-- A row that is found in a table can be put there again without changing it. -/
theorem insert_of_found (h : table[key]? = some value) : table.insert key value = table := by
  refine ExtTreeMap.ext_getElem? fun key' => ?_
  rw [ExtTreeMap.getElem?_insert]
  split
  · next hkey =>
    rw [Std.LawfulEqCmp.compare_eq_iff_eq] at hkey
    rw [← hkey, h]
  · rfl

end Single

namespace PairTable

/-- What is in a table without one first part is in the table, under another. -/
theorem mem_dropRow_iff {α β γ : Type} [Ord α] [Ord β] [TransOrd α] [TransOrd β] [LawfulEqOrd α]
    [LawfulEqOrd β] [DecidableEq α] {table : PairTable α β γ} {a a' : α} {b : β} :
    (a', b) ∈ table.dropRow a ↔ a' ≠ a ∧ (a', b) ∈ table := by
  simp only [mem_iff_exists, getElem?_dropRow]
  by_cases h : a' = a <;> simp [h]

variable {α β γ ρ : Type}

/-! ## The last row with a key -/

section LastFor

variable [DecidableEq β] {key : β} {value : γ} {rows : List (β × γ)}

@[simp] theorem lastFor_nil : lastFor key ([] : List (β × γ)) = none := rfl

/-- What is found as the last row with a key is a row with that key. -/
theorem mem_of_lastFor (h : lastFor key rows = some value) : (key, value) ∈ rows := by
  induction rows with
  | nil => cases h
  | cons row rows ih =>
    rw [lastFor, Option.or_eq_some_iff] at h
    rcases h with h | ⟨-, h⟩
    · exact List.mem_cons_of_mem _ (ih h)
    · rw [Option.ite_none_right_eq_some, Option.some.injEq] at h
      obtain ⟨rfl, rfl⟩ := h
      exact List.mem_cons_self

/-- A list with a row of a key has a last one. -/
theorem exists_lastFor (h : (key, value) ∈ rows) : ∃ last, lastFor key rows = some last := by
  induction rows with
  | nil => cases h
  | cons row rows ih =>
    rw [lastFor]
    rcases List.mem_cons.mp h with rfl | hmem
    · rw [if_pos rfl]
      cases lastFor key rows with
      | none => exact ⟨value, rfl⟩
      | some last => exact ⟨last, rfl⟩
    · obtain ⟨last, hlast⟩ := ih hmem
      exact ⟨last, by rw [hlast, Option.some_or]⟩

/-- A list without a row of a key has no last one, and no other list has none. -/
theorem lastFor_eq_none_iff : lastFor key rows = none ↔ ∀ row ∈ rows, row.1 ≠ key := by
  constructor
  · rintro hnone row hmem rfl
    obtain ⟨last, hlast⟩ := exists_lastFor hmem
    rw [hnone] at hlast
    cases hlast
  · intro hne
    refine Option.eq_none_iff_forall_ne_some.mpr fun value hlast => ?_
    exact hne _ (mem_of_lastFor hlast) rfl

/-- In a list that has every key once, the last row with a key is the row with that key. -/
theorem lastFor_eq_some_iff (h : rows.Pairwise fun a b => a.1 ≠ b.1) :
    lastFor key rows = some value ↔ (key, value) ∈ rows := by
  refine ⟨mem_of_lastFor, fun hmem => ?_⟩
  induction rows with
  | nil => cases hmem
  | cons row rows ih =>
    rw [List.pairwise_cons] at h
    rw [lastFor, Option.or_eq_some_iff]
    rcases List.mem_cons.mp hmem with rfl | hmem
    · right
      refine ⟨Option.eq_none_iff_forall_ne_some.mpr fun other hother => ?_, if_pos rfl⟩
      exact h.1 _ (mem_of_lastFor hother) rfl
    · exact Or.inl (ih h.2 hmem)

variable {cmp : β → β → Ordering} [TransCmp cmp] [Std.LawfulEqCmp cmp]

/-- Of the rows put into a table the last one with a key is found, or else what was there. -/
theorem getElem?_foldl_insert (rows : List (β × γ)) (table : ExtTreeMap β γ cmp) (key : β) :
    (rows.foldl (fun table row => table.insert row.1 row.2) table)[key]? =
      (lastFor key rows).or table[key]? := by
  induction rows generalizing table with
  | nil => rfl
  | cons row rows ih =>
    rw [List.foldl_cons, ih, ExtTreeMap.getElem?_insert, lastFor]
    by_cases h : row.1 = key <;> simp [Std.LawfulEqCmp.compare_eq_iff_eq, h]

/-- Of the rows a table is filled from the last one with a key is found. -/
theorem getElem?_ofList (rows : List (β × γ)) (key : β) :
    (ExtTreeMap.ofList rows cmp)[key]? = lastFor key rows := by
  rw [ExtTreeMap.ofList_eq_foldl, getElem?_foldl_insert]
  simp

/-- A table filled from rows that have every key once holds just these rows. -/
theorem getElem?_ofList_eq_some_iff (h : rows.Pairwise fun a b => a.1 ≠ b.1) :
    (ExtTreeMap.ofList rows cmp)[key]? = some value ↔ (key, value) ∈ rows := by
  rw [getElem?_ofList, lastFor_eq_some_iff h]

omit [DecidableEq β] in
/-- The entries of a table have every key once. -/
theorem distinct_toList (table : ExtTreeMap β γ cmp) :
    table.toList.Pairwise fun a b => a.1 ≠ b.1 := by
  refine (ExtTreeMap.distinct_keys_toList (t := table)).imp fun hne heq => hne ?_
  rw [heq, Std.LawfulEqCmp.compare_eq_iff_eq]

/-- The entries of a table are found where they are. -/
theorem lastFor_toList (table : ExtTreeMap β γ cmp) (key : β) :
    lastFor key table.toList = table[key]? := by
  ext value
  rw [lastFor_eq_some_iff (distinct_toList table), ExtTreeMap.mem_toList_iff_getElem?_eq_some]

/-- A table filled from the entries of a table is that table. -/
theorem ofList_toList (table : ExtTreeMap β γ cmp) : ExtTreeMap.ofList table.toList cmp = table := by
  refine ExtTreeMap.ext_getElem? fun key => ?_
  rw [getElem?_ofList, lastFor_toList]

end LastFor

/-! ## The rows of one first part -/

section Rows

variable [Ord α] [Ord β] [TransOrd α] [TransOrd β] [LawfulEqOrd α] [LawfulEqOrd β]
variable [DecidableEq α]

omit [LawfulEqOrd β] in
/-- The rows of one first part are in ascending order. -/
theorem pairwise_row (table : PairTable α β γ) (a : α) :
    (table.row a).Pairwise fun x y => compare x.1 y.1 = .lt := by
  rw [row, List.pairwise_filterMap]
  refine (ExtTreeMap.ordered_keys_toList (t := table)).imp fun {entry entry'} hlt x hx y hy => ?_
  simp only [Option.ite_none_right_eq_some, Option.some.injEq] at hx hy
  obtain ⟨rfl, rfl⟩ := hx
  obtain ⟨ha, rfl⟩ := hy
  have hlex : (compare entry.1.1 entry'.1.1).then (compare entry.1.2 entry'.1.2) = .lt := hlt
  rwa [ha, Std.ReflOrd.compare_self] at hlex

/-- The rows of one first part have every second part once. -/
theorem distinct_row (table : PairTable α β γ) (a : α) :
    (table.row a).Pairwise fun x y => x.1 ≠ y.1 := by
  refine (pairwise_row table a).imp fun {x y} hlt heq => ?_
  rw [heq, Std.ReflOrd.compare_self] at hlt
  cases hlt

/-- Entries made of the rows of one first part, each with its key, are found where the rows
are. -/
theorem lastFor_filterMap_row [DecidableEq β] {δ : Type} (table : PairTable α β γ) (a : α)
    (entry : β → γ → Option δ) (b : β) :
    lastFor b ((table.row a).filterMap fun row => (entry row.1 row.2).map (row.1, ·)) =
      table[(a, b)]?.bind (entry b) := by
  have hdistinct : ((table.row a).filterMap fun row => (entry row.1 row.2).map (row.1, ·)).Pairwise
      fun x y => x.1 ≠ y.1 := by
    rw [List.pairwise_filterMap]
    refine (distinct_row table a).imp fun {x y} hne u hu v hv => ?_
    obtain ⟨_, -, rfl⟩ := Option.map_eq_some_iff.mp hu
    obtain ⟨_, -, rfl⟩ := Option.map_eq_some_iff.mp hv
    exact hne
  ext d
  rw [lastFor_eq_some_iff hdistinct]
  simp only [List.mem_filterMap, Prod.exists, mem_row_iff, Option.map_eq_some_iff, Prod.mk.injEq,
    Option.bind_eq_some_iff]
  constructor
  · rintro ⟨b', c, hrow, d', hentry, rfl, rfl⟩
    exact ⟨c, hrow, hentry⟩
  · rintro ⟨c, hrow, hentry⟩
    exact ⟨b, c, hrow, d, hentry, rfl, rfl⟩

end Rows

/-! ## Fresh rows under one first part -/

section Fresh

variable [DecidableEq α]

theorem freshRow_cons (row : α × β × γ) (fresh : List (α × β × γ)) (a : α) :
    freshRow (row :: fresh) a =
      if row.1 = a then row.2 :: freshRow fresh a else freshRow fresh a := by
  rw [freshRow, List.filterMap_cons]
  by_cases h : row.1 = a <;> simp [h, freshRow]

/-- The fresh rows under one first part come from the listed rows that belong to it. -/
theorem freshRow_filterMap (entry : ρ → Option (α × β × γ)) (owner : ρ → α)
    (howner : ∀ row made, entry row = some made → made.1 = owner row) (rows : List ρ) (a : α) :
    freshRow (rows.filterMap entry) a =
      (rows.filter (owner · = a)).filterMap fun row => (entry row).map (·.2) := by
  induction rows with
  | nil => rfl
  | cons row rows ih =>
    rw [List.filterMap_cons, List.filter_cons]
    cases hentry : entry row with
    | none =>
      by_cases h : owner row = a
      · rw [if_pos (by simpa using h), List.filterMap_cons, hentry, ih]
        rfl
      · rw [if_neg (by simpa using h), ih]
    | some made =>
      have hmade := howner row made hentry
      rw [freshRow_cons, ih]
      by_cases h : owner row = a
      · rw [if_pos (hmade.trans h), if_pos (by simpa using h), List.filterMap_cons, hentry]
        rfl
      · rw [if_neg (hmade ▸ h), if_neg (by simpa using h)]

/-- Looking up a pair is looking up its second part among the rows of its first part. -/
theorem lastFor_pair [DecidableEq β] (fresh : List ((α × β) × γ)) (a : α) (b : β) :
    lastFor (a, b) fresh =
      lastFor b (freshRow (fresh.map fun row => (row.1.1, row.1.2, row.2)) a) := by
  induction fresh with
  | nil => rfl
  | cons row fresh ih =>
    rw [lastFor, ih, List.map_cons, freshRow_cons]
    by_cases ha : row.1.1 = a
    · rw [if_pos ha, lastFor]
      by_cases hb : row.1.2 = b <;> simp [Prod.ext_iff, ha, hb]
    · rw [if_neg ha]
      simp [Prod.ext_iff, ha]

variable [DecidableEq β] [Ord α] [Ord β] [TransOrd α] [TransOrd β] [LawfulEqOrd α] [LawfulEqOrd β]

/-- When all fresh rows belong to those that are named, the rows that are named are replaced and
the others stay. -/
theorem getElem?_replaceRows_of_named (table : PairTable α β γ) {named : List α}
    {fresh : List (α × β × γ)} (hnamed : ∀ row ∈ fresh, row.1 ∈ named) (a : α) (b : β) :
    (table.replaceRows named fresh).1[(a, b)]? =
      if a ∈ named then lastFor b (freshRow fresh a) else table[(a, b)]? := by
  have hiff : (a ∈ named ∨ a ∈ fresh.map (·.1)) ↔ a ∈ named := by
    refine or_iff_left_of_imp fun hmem => ?_
    obtain ⟨row, hrow, rfl⟩ := List.mem_map.mp hmem
    exact hnamed row hrow
  rw [getElem?_replaceRows]
  simp only [hiff]

/-- When all rows of a table are replaced, what is found is what was brought last. -/
theorem getElem?_replaceRows_firsts (table : PairTable α β γ) (fresh : List (α × β × γ)) (a : α)
    (b : β) : (table.replaceRows table.firsts fresh).1[(a, b)]? = lastFor b (freshRow fresh a) := by
  rw [getElem?_replaceRows]
  split
  · rfl
  · next h =>
    rw [not_or] at h
    rw [freshRow_eq_nil h.2, lastFor_nil, ExtTreeMap.getElem?_eq_none]
    intro hmem
    exact h.1 (mem_firsts_iff.mpr ⟨b, hmem⟩)

/-- What is found after rows have been replaced is a fresh row, or was found before under a first
part that is not named. -/
theorem mem_of_replaceRows (table : PairTable α β γ) {named : List α} {fresh : List (α × β × γ)}
    {a : α} {b : β} {c : γ} (h : (table.replaceRows named fresh).1[(a, b)]? = some c) :
    (a, b, c) ∈ fresh ∨ a ∉ named ∧ table[(a, b)]? = some c := by
  rw [getElem?_replaceRows] at h
  split at h
  · left
    obtain ⟨row, hrow, hsome⟩ := List.mem_filterMap.mp (mem_of_lastFor h)
    rw [Option.ite_none_right_eq_some, Option.some.injEq] at hsome
    obtain ⟨rfl, heq⟩ := hsome
    rwa [← heq]
  · next hnot =>
    rw [not_or] at hnot
    exact Or.inr ⟨hnot.1, h⟩

end Fresh

end PairTable

end GradedAccess
