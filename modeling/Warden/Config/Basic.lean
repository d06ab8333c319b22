/-!
# Configuration

The two switches of a run. Leaks are reported unless the memory check is off; with `strict`, the
command line treats warnings as failures.
-/

namespace Warden

/-- The switches of a run. -/
structure Config where
  /-- Whether allocations that are never freed are reported. -/
  checkMem : Bool := true
  /-- Whether warnings make a run fail. -/
  strict : Bool := false
  deriving DecidableEq, Repr, Inhabited

end Warden
