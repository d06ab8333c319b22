import Warden.Finding.Context

/-!
# The ledger of allocations

A `Ledger` follows the pointers of one function, or of the top level of one module, by the names
they are bound to. It is filled in the order of the statements; it knows nothing of branches or
loops.

* `Ledger.allocate` opens a record for a name.
* `Ledger.release` marks the name's latest record as freed, or says why it cannot.
* `Ledger.rename` lets one name stand for another: `let q = p;` makes `q` mean what `p` means.
  `Ledger.canonical` follows such edges to the name that owns the record.

Records are never removed. What the ledger sees goes to the user as causes; the ledger itself never
refuses a program.
-/

namespace Warden

/-- One allocation. -/
structure Allocation where
  line : Nat
  column : Nat
  /-- The name it was bound to. -/
  name : String
  /-- The function it happened in, if any. -/
  function : Option String
  isFreed : Bool := false
  /-- How often it was freed. -/
  freeCount : Nat := 0
  /-- Where it was freed first. -/
  freeLine : Option Nat := none
  freeColumn : Option Nat := none
  deriving DecidableEq, Repr, Inhabited

/-- What the function being checked declares about ownership. -/
structure Ownership where
  function : String
  returnsOwnership : Bool := false
  takesOwnership : Bool := false
  deriving DecidableEq, Repr, Inhabited

/-- How a pointer leaves a caller's hands. -/
inductive FreeKind where
  /-- By `free(p)`. -/
  | explicit
  /-- By being passed to someone who takes it over. -/
  | transfer
  deriving DecidableEq, Repr, Inhabited

/-- What came of a release. -/
inductive FreeOutcome where
  | freed
  /-- Freed again; with the lines of the allocation and of the first free. -/
  | doubleFree (allocatedAt freedAt : Nat)
  /-- No record for the name. -/
  | untracked
  /-- Passed on after it was freed; with the line of the first free. -/
  | useAfterFree (freedAt : Nat)
  deriving DecidableEq, Repr, Inhabited

namespace FreeOutcome

/-- What there is to report. Passing on a name without a record is no offence. -/
def cause? (name : String) (kind : FreeKind) : FreeOutcome → Option Cause
  | .freed => none
  | .doubleFree allocatedAt freedAt => some (.doubleFree name allocatedAt freedAt)
  | .untracked =>
    match kind with
    | .explicit => some (.untrackedFree name)
    | .transfer => none
  | .useAfterFree freedAt => some (.transferAfterFree name freedAt)

end FreeOutcome

/-- The allocations of a function or module, and the names that stand for other names. -/
structure Ledger where
  allocations : List Allocation := []
  /-- Each name at most once, with the name it stands for. -/
  renames : List (String × String) := []
  deriving DecidableEq, Repr, Inhabited

namespace Ledger

/-! ### Names -/

/-- Follows at most `n` edges. A name that stands for itself ends the walk. -/
def follow (l : Ledger) : Nat → String → String
  | 0, name => name
  | n + 1, name =>
    match l.renames.lookup name with
    | none => name
    | some next => if next == name then name else follow l n next

/-- The name that owns the record: the end of the chain of edges. A chain without repeats has no
more edges than the ledger, so the bound is never felt. -/
def canonical (l : Ledger) (name : String) : String :=
  l.follow (l.renames.length + 1) name

/-- The latest record of a list that is bound to a name. -/
def latest? (name : String) (allocations : List Allocation) : Option Allocation :=
  allocations.reverse.find? (·.name == name)

/-- The latest record behind a name. -/
def allocation? (l : Ledger) (name : String) : Option Allocation :=
  latest? (l.canonical name) l.allocations

/-- Whether there is a record behind the name. -/
def knows (l : Ledger) (name : String) : Bool :=
  (l.allocation? name).isSome

/-- Whether the name stands for another one that has a record. -/
def tracksRenamed (l : Ledger) (name : String) : Bool :=
  (l.renames.lookup name).isSome && l.knows name

/-! ### Events -/

/-- Whether an allocation in a function is recorded: not where the function hands its pointers to
the caller. -/
def isRecorded : Option Ownership → Bool
  | some o => !o.returnsOwnership
  | none => true

/-- Opens a record for a name, which from now on stands for itself. -/
def allocate (l : Ledger) (span : Span) (name : String) (owner : Option Ownership) : Ledger :=
  if isRecorded owner then
    { allocations := l.allocations ++
        [{ line := span.line, column := span.column, name := name
           function := owner.map (·.function) }]
      renames := l.renames.filter (·.1 != name) }
  else l

/-- Changes the latest record that is bound to a name. -/
def updateLatest (name : String) (f : Allocation → Allocation) :
    List Allocation → List Allocation
  | [] => []
  | a :: as =>
    if as.any (·.name == name) then a :: updateLatest name f as
    else if a.name == name then f a :: as
    else a :: as

/-- Marks a record as freed at a place. -/
def markFreed (span : Span) (a : Allocation) : Allocation :=
  { a with isFreed := true, freeCount := 1, freeLine := some span.line,
           freeColumn := some span.column }

/-- Counts one more free of a record. -/
def countFree (a : Allocation) : Allocation :=
  { a with freeCount := a.freeCount + 1 }

/-- Marks the latest record behind a name as freed. If it was freed before, an explicit free is
counted, and a transfer leaves the record as it is. -/
def release (l : Ledger) (name : String) (span : Span) (kind : FreeKind) : Ledger × FreeOutcome :=
  let owner := l.canonical name
  match latest? owner l.allocations with
  | none => (l, .untracked)
  | some a =>
    if a.isFreed then
      match kind with
      | .explicit =>
        ({ l with allocations := updateLatest owner countFree l.allocations },
          .doubleFree a.line (a.freeLine.getD 0))
      | .transfer => (l, .useAfterFree (a.freeLine.getD 0))
    else ({ l with allocations := updateLatest owner (markFreed span) l.allocations }, .freed)

/-- Makes `target` stand for what `source` stands for. A name never comes to stand for itself. -/
def rename (l : Ledger) (target source : String) : Ledger :=
  let owner := l.canonical source
  if owner == target then l
  else { l with renames := (target, owner) :: l.renames.filter (·.1 != target) }

/-! ### Questions -/

/-- The offence of using a name, if its record has been freed. -/
def useCause? (l : Ledger) (name : String) : Option Cause :=
  match l.allocation? name with
  | none => none
  | some a => if a.isFreed then some (.useAfterFree name a.freeLine) else none

/-- The records that were never freed, in order of allocation. -/
def leaks (l : Ledger) : List Allocation :=
  l.allocations.filter (!·.isFreed)

end Ledger

namespace Allocation

/-- Where a leak is reported: at the allocation, as wide as the name. -/
def leakSpan (a : Allocation) : Span :=
  { line := a.line, column := a.column, length := max 1 a.name.utf8ByteSize }

/-- The leak of a record, charged to its function or else to the given module. -/
def leakCause (a : Allocation) (module : String) : Cause :=
  .leak a.name a.line <|
    match a.function with
    | some name => .function name
    | none => .module module

end Allocation

namespace Context

/-- Reports a cause, if there is one. -/
def reportAny (c : Context) (span : Span) : Option Cause → Context
  | none => c
  | some cause => c.report cause span

/-- Reports every record of a ledger that was never freed. -/
def reportLeaks (c : Context) (l : Ledger) : Context :=
  l.leaks.foldl (fun c a => c.report (a.leakCause c.moduleName) a.leakSpan) c

end Context

end Warden
