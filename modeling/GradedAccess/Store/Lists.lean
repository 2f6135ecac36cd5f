import GradedAccess.Store.Request

/-!
# A store of plain lists

A store that promises nothing.  Its rows are six lists that anyone may have filled: rows may
repeat, contradict each other and refer to rows that are not there.  Listings return them in the
order they are in.  The store may even ignore which role or job it was asked about.

It creates rows without looking for conflicts, and numbers them from 1000.
-/

namespace GradedAccess

/-- A store of plain lists. -/
structure ListStore where
  rows : Rows := {}
  /-- Whether listings ignore what they were asked about. -/
  unfiltered : Bool := false
  next : UInt64 := 1000
  deriving DecidableEq

namespace ListStore

/-- The rows of a listing: those that belong to what was asked for, or all if that is ignored. -/
def listed {α β : Type} [DecidableEq β] (store : ListStore) (asked : Option β) (owner : α → β)
    (rows : List α) : List α :=
  if store.unfiltered then rows else rows.filter fun row => belongsTo asked (owner row)

/-- The list with its first entry of an attribute's number replaced. -/
def replaceFirst (id : AttributeId) (row : Attribute) : List Attribute → List Attribute
  | [] => []
  | first :: rest => if first.id = id then row :: rest else first :: replaceFirst id row rest

/-- Appends a permission. -/
def createPermission (store : ListStore) (new : NewPermission) :
    Except Fault Permission × ListStore :=
  let store' := { store with next := store.next + 1 }
  match Permission.make? ⟨store.next⟩ new.category new.name new.order with
  | .error fault => (.error fault, store')
  | .ok row =>
    (.ok row, { store' with rows := { store.rows with
      permissions := store.rows.permissions ++ [row] } })

/-- Appends an attribute. -/
def createAttribute (store : ListStore) (new : NewAttribute) :
    Except Fault Attribute × ListStore :=
  let store' := { store with next := store.next + 1 }
  match Attribute.make? ⟨store.next⟩ new.permission new.key new.kind new.valid with
  | .error fault => (.error fault, store')
  | .ok row =>
    (.ok row, { store' with rows := { store.rows with
      attributes := store.rows.attributes ++ [row] } })

/-- Changes the kind and the valid values of the first attribute of a number. -/
def redefine (store : ListStore) (id : AttributeId) (kind : AttributeKind)
    (valid : Option AttributeValue) : Except Fault Unit × ListStore :=
  match store.rows.attributes.find? (·.id = id) with
  | none => (.error (.notListed id), store)
  | some row =>
    match Attribute.make? id row.permission row.key kind valid with
    | .error fault => (.error fault, store)
    | .ok row =>
      (.ok (), { store with rows := { store.rows with
        attributes := replaceFirst id row store.rows.attributes } })

/-- The answer to a request. -/
def answer {α : Type} (request : Request α) (store : ListStore) : Except Fault α × ListStore :=
  match request with
  | .permissions => (.ok store.rows.permissions, store)
  | .attributes => (.ok store.rows.attributes, store)
  | .roles job => (.ok (store.listed job (·.job) store.rows.roles), store)
  | .role id => (.ok (store.rows.roles.find? (·.id = id)), store)
  | .grants role => (.ok (store.listed role (·.role) store.rows.grants), store)
  | .values role => (.ok (store.listed role (·.role) store.rows.values), store)
  | .ceilings job => (.ok (store.listed job (·.job) store.rows.ceilings), store)
  | .createPermission new => store.createPermission new
  | .createAttribute new => store.createAttribute new
  | .redefine id kind valid => store.redefine id kind valid

end ListStore

end GradedAccess
