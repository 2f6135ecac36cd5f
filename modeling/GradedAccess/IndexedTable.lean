import GradedAccess.Reconcile

/-!
# Tables with an index

`PairTable.replaceRow` says what the replacement of a row comes to.  This module says how it is made
while others read.  Beside its entries an `IndexedTable` has an index that lists the keys of each
row, and a replacement takes four steps: the fresh keys are listed beside the earlier ones, the
fresh entries are written, the entries that are out of date are erased, and the index is left with
the fresh keys alone.  So an entry that is there before and after is never missing in between.

What is out of date is what the index lists and the fresh entries do not bring.  An entry that the
index does not list would never be erased, and one that is only listed would be counted as removed,
so everything rests on the two tables agreeing.
-/

namespace GradedAccess

open Std (ExtTreeMap ExtTreeSet TransOrd)

/-- A table with two-part keys, and beside it the second parts of its keys by the first parts. -/
structure IndexedTable (α β γ : Type) [Ord α] [Ord β] where
  entries : PairTable α β γ := ∅
  index : ExtTreeMap α (ExtTreeSet β) := ∅

namespace IndexedTable

variable {α β γ : Type} [Ord α] [Ord β] [TransOrd α] [TransOrd β]

/-! ## Lookups -/

/-- The entry of a key. -/
def get (table : IndexedTable α β γ) (a : α) (b : β) : Option γ := table.entries[(a, b)]?

/-- The second parts that are listed for a first part. -/
def listed (table : IndexedTable α β γ) (a : α) : ExtTreeSet β := (table.index[a]?).getD ∅

/-- The keys that are listed for a first part, in order. -/
def keys (table : IndexedTable α β γ) (a : α) : List β := (table.listed a).toList

/-- The entries of the keys that are listed for a first part. -/
def row (table : IndexedTable α β γ) (a : α) : List (β × γ) :=
  (table.keys a).filterMap fun b => (table.get a b).map (b, ·)

/-- The first parts for which something is listed, in order. -/
def firsts (table : IndexedTable α β γ) : List α := table.index.keys

/-- The number of entries. -/
def size (table : IndexedTable α β γ) : Nat := table.entries.size

/-! ## Replacing a row -/

variable [DecidableEq β]

/-- Lists the keys of fresh entries beside the earlier ones, and writes the entries. -/
def publish (table : IndexedTable α β γ) (a : α) (fresh : List (β × γ)) : IndexedTable α β γ where
  index := table.index.insert a ((table.listed a).insertMany (fresh.map (·.1)))
  entries := table.entries.putRow a fresh

/-- The keys that are listed for a first part and have no fresh entry. -/
def stale (table : IndexedTable α β γ) (a : α) (fresh : List (β × γ)) : List β :=
  (table.keys a).filter fun key => !fresh.any (·.1 == key)

/-- Erases what is out of date, and lists the keys of fresh entries alone.  Without any, the first
part is not listed any more. -/
def prune (table : IndexedTable α β γ) (a : α) (fresh : List (β × γ)) : IndexedTable α β γ where
  entries := (table.stale a fresh).foldl (fun entries b => entries.erase (a, b)) table.entries
  index :=
    if fresh.isEmpty then table.index.erase a
    else table.index.insert a (.ofList (fresh.map (·.1)))

/-- The table with the entries of one first part replaced by fresh ones. -/
def replaceRow (table : IndexedTable α β γ) (a : α) (fresh : List (β × γ)) :
    IndexedTable α β γ × Tally :=
  let published := table.publish a fresh
  (published.prune a fresh, ⟨fresh.length, (published.stale a fresh).length⟩)

end IndexedTable

end GradedAccess
