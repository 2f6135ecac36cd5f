import GradedAccess.Id
import GradedAccess.PairTable
import GradedAccess.Time

/-!
# Remembered decisions

A decision about a user and a permission is remembered for a lifetime, during which it is repeated
without another look at the caches.  A lifetime of zero remembers nothing.

An entry ends when its lifetime is over, at the very instant and not after it.  The clock has an
end too: if the lifetime would reach beyond it, the entry ends at the instant it was made, so it is
stored and never repeated.

Every lookup counts as a hit or a miss.  A lookup that finds an ended entry drops it and is a miss;
`purge` drops all ended entries at once and counts as neither.
-/

namespace GradedAccess

/-- A remembered decision. -/
structure Decision where
  allowed : Bool
  expires : Instant
  deriving DecidableEq, Repr

/-- The decisions that are remembered, and how lookups went. -/
structure Decisions where
  lifetime : Duration
  entries : PairTable UInt64 PermissionId Decision := ∅
  hits : Nat := 0
  misses : Nat := 0
  deriving DecidableEq

namespace Decisions

/-- The instant the clock never reaches. -/
def clockEnd : Instant := Duration.ofSeconds 0x8000000000000000

/-- The end of an entry that is made now. -/
def expiry (lifetime : Duration) (now : Instant) : Instant :=
  if now + lifetime < clockEnd then now + lifetime else now

/-- The remembered decision, and the decisions after the lookup. -/
def get (decisions : Decisions) (now : Instant) (user : UInt64) (permission : PermissionId) :
    Option Bool × Decisions :=
  match decisions.entries[(user, permission)]? with
  | none => (none, { decisions with misses := decisions.misses + 1 })
  | some entry =>
    if now < entry.expires then
      (some entry.allowed, { decisions with hits := decisions.hits + 1 })
    else
      (none, { decisions with
        entries := decisions.entries.erase (user, permission)
        misses := decisions.misses + 1 })

/-- Remembers a decision. -/
def insert (decisions : Decisions) (now : Instant) (user : UInt64) (permission : PermissionId)
    (allowed : Bool) : Decisions :=
  if decisions.lifetime = 0 then decisions
  else { decisions with
    entries := decisions.entries.insert (user, permission)
      ⟨allowed, expiry decisions.lifetime now⟩ }

/-- Drops the entries that have ended, and counts them. -/
def purge (decisions : Decisions) (now : Instant) : Nat × Decisions :=
  let kept := decisions.entries.filter fun _ entry => now < entry.expires
  (decisions.entries.size - kept.size, { decisions with entries := kept })

/-- Forgets all decisions; the counts stay. -/
def clear (decisions : Decisions) : Decisions := { decisions with entries := ∅ }

end Decisions

end GradedAccess
