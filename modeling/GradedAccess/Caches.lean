import GradedAccess.Catalog
import GradedAccess.RoleIndex

/-!
# The caches

Everything an access check looks at: the catalog, the roles, the grants and values of roles, and
the ceilings of jobs.  Grants and values are found by role first and ceilings by job, which are
the scopes in which they are reloaded.
-/

namespace GradedAccess

/-- The cached rows of a store. -/
structure Caches where
  catalog : Catalog := {}
  roles : RoleIndex := {}
  grants : PairTable RoleId PermissionId Bool := ∅
  values : PairTable RoleId AttributeId AttributeValue := ∅
  ceilings : PairTable String AttributeId AttributeValue := ∅
  deriving DecidableEq

/-- How many rows of each kind are cached. -/
structure CacheSizes where
  permissions : Nat
  attributes : Nat
  roles : Nat
  grants : Nat
  values : Nat
  ceilings : Nat
  deriving DecidableEq, Repr

namespace Caches

/-- What a role is granted, if anything has been said about it. -/
def grant (caches : Caches) (role : RoleId) (permission : PermissionId) : Option Bool :=
  caches.grants[(role, permission)]?

/-- The value of an attribute for a role. -/
def value (caches : Caches) (role : RoleId) (attr : AttributeId) : Option AttributeValue :=
  caches.values[(role, attr)]?

/-- The most a job may have of an attribute. -/
def ceiling (caches : Caches) (job : String) (attr : AttributeId) : Option AttributeValue :=
  caches.ceilings[(job, attr)]?

/-- How many rows of each kind are cached. -/
def sizes (caches : Caches) : CacheSizes where
  permissions := caches.catalog.permissions.size
  attributes := caches.catalog.attributes.size
  roles := caches.roles.size
  grants := caches.grants.size
  values := caches.values.size
  ceilings := caches.ceilings.size

end Caches

end GradedAccess
