import Warden.Proofs.Actions

/-!
# The state of a check without its memory analysis

`Checker.withoutMemory` empties the ledgers and the queues of deferred calls of `free`, and strikes
the findings of the memory analysis from the list. Two states agree up to the memory analysis when
they are the same without it.

* **Looking around sees no ledger.** Names, imports, modules and enums are found in the tree as they
  are found in the tree without memory (`ScopeTree.lookup?_withoutMemory` and its neighbours).
* **The ledger operations change nothing else** (`MemoryStep`): `allocate`, `rename`, `release`,
  `checkUse`, `deferFree`, `leaveScope` and `reportLeaks` leave the state without memory as it was
  and only add findings of the memory analysis.
-/

namespace Warden

open ScopeTree

/-! ### Erasing -/

namespace Finding

/-- Whether the memory analysis made the finding. -/
def isMemory (f : Finding) : Bool :=
  f.tag.isMemory

end Finding

namespace Scope

/-- The scope with its ledger emptied, if it owns one, and nothing deferred. -/
def withoutMemory (s : Scope) : Scope :=
  { s with deferred := [], ledger := s.ledger.map fun _ => {} }

end Scope

namespace ScopeTree

/-- The tree with every scope's ledger and queue emptied. -/
def withoutMemory (t : ScopeTree) : ScopeTree :=
  { t with scopes := t.scopes.map Scope.withoutMemory }

end ScopeTree

namespace Context

/-- The context without the findings of the memory analysis. -/
def withoutMemory (c : Context) : Context :=
  { c with findings := c.findings.filter (!·.isMemory) }

end Context

namespace Checker

/-- The state without its memory analysis. -/
def withoutMemory (c : Checker) : Checker :=
  { c with scopes := c.scopes.withoutMemory, context := c.context.withoutMemory }

end Checker

/-! ### Looking around -/

namespace ScopeTree

variable (t : ScopeTree) (id : ScopeId)

@[simp] theorem size_withoutMemory : t.withoutMemory.size = t.size := by
  simp [withoutMemory, size]

@[simp] theorem scope_withoutMemory : t.withoutMemory.scope id = (t.scope id).withoutMemory := by
  simp only [withoutMemory, scope, Array.getD_eq_getD_getElem?, Array.getElem?_map]
  cases t.scopes[id]? <;> rfl

@[simp] theorem climb_withoutMemory (n : Nat) : t.withoutMemory.climb n id = t.climb n id := by
  induction n generalizing id with
  | zero => rfl
  | succ n ih =>
    simp only [climb, scope_withoutMemory, Scope.withoutMemory]
    cases (t.scope id).parent with
    | none => rfl
    | some parent => simp only [ih]

@[simp] theorem ancestors_withoutMemory : t.withoutMemory.ancestors id = t.ancestors id :=
  climb_withoutMemory t id _

@[simp] theorem symbol?_withoutMemory (s : Scope) (name : String) :
    s.withoutMemory.symbol? name = s.symbol? name := rfl

@[simp] theorem import?_withoutMemory (s : Scope) (name : String) :
    s.withoutMemory.import? name = s.import? name := rfl

@[simp] theorem lookup?_withoutMemory (name : String) :
    t.withoutMemory.lookup? id name = t.lookup? id name := by
  simp [lookup?, locate?]

@[simp] theorem owningModule?_withoutMemory :
    t.withoutMemory.owningModule? id = t.owningModule? id := by
  simp only [owningModule?, ancestors_withoutMemory, scope_withoutMemory]
  rfl

@[simp] theorem visible?_withoutMemory (name requester : String) :
    t.withoutMemory.visible? id name requester = t.visible? id name requester := by
  simp [visible?]

@[simp] theorem findImport?_withoutMemory (localName : String) :
    t.withoutMemory.findImport? id localName = t.findImport? id localName := by
  simp [findImport?]

@[simp] theorem qualifiedLookup_withoutMemory (module name : String) :
    t.withoutMemory.qualifiedLookup id module name = t.qualifiedLookup id module name := by
  simp [qualifiedLookup]

@[simp] theorem qualified?_withoutMemory (module name : String) :
    t.withoutMemory.qualified? id module name = t.qualified? id module name := by
  simp [qualified?]

@[simp] theorem enumMembers?_withoutMemory (name : String) :
    t.withoutMemory.enumMembers? id name = t.enumMembers? id name := by
  simp only [enumMembers?, lookup?_withoutMemory, ancestors_withoutMemory, scope_withoutMemory,
    symbol?_withoutMemory]
  rfl

end ScopeTree

/-! ### Writing to the tree -/

namespace ScopeTree

variable (t : ScopeTree) (id : ScopeId)

/-- Erasing commutes with a change of one scope, if it does so on that scope. -/
theorem modify_withoutMemory {f g : Scope → Scope}
    (h : ∀ s, (f s).withoutMemory = g s.withoutMemory) :
    (t.modify id f).withoutMemory = t.withoutMemory.modify id g := by
  have hscopes : (t.scopes.modify id f).map Scope.withoutMemory =
      (t.scopes.map Scope.withoutMemory).modify id g := by
    apply Array.ext
    · simp
    · intro i _ _
      simp only [Array.getElem_map, Array.getElem_modify]
      split
      · exact h _
      · rfl
  simp only [withoutMemory, modify, hscopes]

/-- A change that only touches ledger and queue of a scope is not seen without memory. -/
theorem modify_withoutMemory_eq {f : Scope → Scope}
    (h : ∀ s, (f s).withoutMemory = s.withoutMemory) :
    (t.modify id f).withoutMemory = t.withoutMemory := by
  have hid : ∀ a : Array Scope, a.modify id (fun s => s) = a := by
    intro a
    apply Array.ext
    · simp
    · intro i _ _
      simp [Array.getElem_modify]
  rw [modify_withoutMemory t id (g := fun s => s) h]
  simp only [modify, hid]

theorem addScope_withoutMemory (name : String) (owner : ScopeOwner) {ledger : Option Ledger}
    (h : ledger.map (fun _ => ({} : Ledger)) = ledger) :
    (t.addScope id name owner ledger).withoutMemory =
      t.withoutMemory.addScope id name owner ledger := by
  have hgrown := modify_withoutMemory t id
    (f := fun s => { s with children := s.children ++ [t.size] })
    (g := fun s => { s with children := s.children ++ [t.size] }) (fun _ => rfl)
  simp only [addScope, size_withoutMemory, scope_withoutMemory, ← hgrown]
  simp only [withoutMemory, Array.map_push, Scope.withoutMemory, h]

theorem insert?_withoutMemory (symbol : Symbol) :
    (t.insert? id symbol).map withoutMemory = t.withoutMemory.insert? id symbol := by
  simp only [insert?, scope_withoutMemory, symbol?_withoutMemory]
  split
  · rfl
  · exact congrArg some (modify_withoutMemory t id fun _ => rfl)

theorem updateLedger_withoutMemory (f : Ledger → Ledger) :
    (t.updateLedger id f).withoutMemory = t.withoutMemory := by
  apply modify_withoutMemory_eq
  intro s
  cases h : s.ledger <;> simp [Scope.withoutMemory, h]

theorem clearDeferred_withoutMemory : (t.clearDeferred id).withoutMemory = t.withoutMemory :=
  modify_withoutMemory_eq t id fun _ => rfl

end ScopeTree

/-! ### Steps of the memory analysis -/

/-- The second state is the first one after some work of the memory analysis: without memory the two
are the same, and all that has been found in between has been found by that analysis. -/
structure MemoryStep (c d : Checker) : Prop where
  withoutMemory : d.withoutMemory = c.withoutMemory
  findings : ∃ new, d.context.findings = c.context.findings ++ new ∧ ∀ f ∈ new, f.isMemory = true

namespace MemoryStep

variable {c d e : Checker}

theorem refl (c : Checker) : MemoryStep c c :=
  ⟨rfl, [], by simp⟩

section

variable (h : MemoryStep c d)

include h

theorem trans (h' : MemoryStep d e) : MemoryStep c e := by
  obtain ⟨new, hnew, hmem⟩ := h.findings
  obtain ⟨new', hnew', hmem'⟩ := h'.findings
  refine ⟨h'.withoutMemory.trans h.withoutMemory, new ++ new', ?_, ?_⟩
  · rw [hnew', hnew, List.append_assoc]
  · intro f hf
    exact (List.mem_append.mp hf).elim (hmem f) (hmem' f)

theorem scopes : d.scopes.withoutMemory = c.scopes.withoutMemory := by
  have hscopes := congrArg Checker.scopes h.withoutMemory
  exact hscopes

theorem structs : d.structs = c.structs := by
  have hstructs := congrArg Checker.structs h.withoutMemory
  exact hstructs

theorem types : d.types = c.types := by
  have htypes := congrArg Checker.types h.withoutMemory
  exact htypes

theorem walk : d.walk = c.walk := by
  have hwalk := congrArg Checker.walk h.withoutMemory
  exact hwalk

end

/-- A change of the tree that is not seen without memory. -/
theorem ofScopes {t : ScopeTree} (h : t.withoutMemory = c.scopes.withoutMemory) :
    MemoryStep c { c with scopes := t } :=
  ⟨by simp [Checker.withoutMemory, h], [], by simp⟩

/-- A finding of the memory analysis. -/
theorem ofReport {cause : Cause} (h : cause.tag.isMemory = true) (span : Span) :
    MemoryStep c (c.report cause span) := by
  have hfind : ∀ f : Finding, f.cause = cause → f.isMemory = true := by
    intro f hf
    simpa [Finding.isMemory, Finding.tag, hf] using h
  refine ⟨?_, _, rfl, ?_⟩
  · simp [Checker.withoutMemory, Checker.report, Context.withoutMemory, Context.report, hfind]
  · intro f hf
    exact hfind f (by rw [List.mem_singleton.mp hf])

theorem ofReportAny {cause? : Option Cause} (h : ∀ cause ∈ cause?, cause.tag.isMemory = true)
    (span : Span) : MemoryStep c { c with context := c.context.reportAny span cause? } := by
  cases cause? with
  | none => exact refl c
  | some cause => exact ofReport (h cause rfl) span

end MemoryStep

namespace FreeOutcome

theorem isMemory_of_mem_cause? {outcome : FreeOutcome} {name : String} {kind : FreeKind} :
    ∀ cause ∈ outcome.cause? name kind, cause.tag.isMemory = true := by
  intro cause h
  cases outcome <;> cases kind <;> simp_all [cause?] <;> subst h <;> rfl

end FreeOutcome

namespace Checker

variable (c : Checker) (scope : ScopeId)

theorem memoryStep_allocate (name : String) (span : Span) :
    MemoryStep c (c.allocate scope name span) := by
  unfold allocate
  split
  · exact .refl c
  · exact .ofScopes (updateLedger_withoutMemory _ _ _)

theorem memoryStep_rename (target source : String) :
    MemoryStep c (c.rename scope target source) := by
  unfold rename
  split
  · exact .refl c
  · exact .ofScopes (updateLedger_withoutMemory _ _ _)

theorem memoryStep_release (name : String) (span : Span) (kind : FreeKind) :
    MemoryStep c (c.release scope name span kind) := by
  cases hid : c.scopes.ledgerFor? scope name with
  | none =>
    simp only [release, hid]
    exact .refl c
  | some id =>
    cases hledger : (c.scopes.scope id).ledger with
    | none =>
      simp only [release, hid, hledger]
      exact .refl c
    | some ledger =>
      simp only [release, hid, hledger]
      have hscopes := MemoryStep.ofScopes (c := c)
        (updateLedger_withoutMemory c.scopes id fun l => (l.release name span kind).1)
      exact hscopes.trans (.ofReportAny FreeOutcome.isMemory_of_mem_cause? span)

/-- The use of a name is reported as a use of what has been freed. -/
theorem tag_of_mem_useCause? (name : String) {cause : Cause}
    (h : cause ∈ (c.scopes.ledgerFor? scope name).bind fun id =>
      (c.scopes.scope id).ledger.bind (·.useCause? name)) : cause.tag = .useAfterFree := by
  obtain ⟨id, -, h⟩ := Option.bind_eq_some_iff.mp h
  obtain ⟨ledger, -, h⟩ := Option.bind_eq_some_iff.mp h
  unfold Ledger.useCause? at h
  split at h
  · cases h
  · split at h
    · cases h
      rfl
    · cases h

theorem memoryStep_checkUse (name : String) (span : Span) :
    MemoryStep c (c.checkUse scope name span) := by
  apply MemoryStep.ofReportAny
  intro cause h
  rw [tag_of_mem_useCause? c scope name h]
  rfl

/-- Releasing one name after the other is a step of the memory analysis. -/
theorem memoryStep_releaseAll (waiting : List DeferredFree) :
    MemoryStep c (waiting.foldl (fun c d => c.release scope d.name d.span .explicit) c) := by
  induction waiting generalizing c with
  | nil => exact .refl c
  | cons d waiting ih => exact (memoryStep_release c scope d.name d.span .explicit).trans (ih _)

theorem memoryStep_leaveScope : MemoryStep c (c.leaveScope scope) :=
  (MemoryStep.ofScopes (clearDeferred_withoutMemory _ _)).trans
    (memoryStep_releaseAll _ scope _)

/-- Reporting one leak after the other is a step of the memory analysis. -/
theorem memoryStep_leaks (leaks : List Allocation) : MemoryStep c { c with
      context :=
        leaks.foldl (fun x a => x.report (a.leakCause x.moduleName) a.leakSpan) c.context } := by
  induction leaks generalizing c with
  | nil => exact .refl c
  | cons a leaks ih =>
    have hone : MemoryStep c (c.report (a.leakCause c.context.moduleName) a.leakSpan) :=
      .ofReport rfl _
    exact hone.trans (ih _)

theorem memoryStep_reportLeaks : MemoryStep c (c.reportLeaks scope) := by
  unfold reportLeaks
  split
  · split
    · exact .refl c
    · exact memoryStep_leaks c _
  · exact .refl c

end Checker

/-- The operations of the memory analysis on the state of a check. -/
inductive MemoryOp : (Checker → Checker) → Prop where
  | allocate (scope : ScopeId) (name : String) (span : Span) : MemoryOp (·.allocate scope name span)
  | rename (scope : ScopeId) (target source : String) : MemoryOp (·.rename scope target source)
  | release (scope : ScopeId) (name : String) (span : Span) (kind : FreeKind) :
      MemoryOp (·.release scope name span kind)
  | checkUse (scope : ScopeId) (name : String) (span : Span) : MemoryOp (·.checkUse scope name span)
  | deferFree (scope : ScopeId) (name : String) (span : Span) :
      MemoryOp fun c => { c with scopes := c.scopes.deferFree scope name span }
  | leaveScope (scope : ScopeId) : MemoryOp (·.leaveScope scope)
  | reportLeaks (scope : ScopeId) : MemoryOp (·.reportLeaks scope)

/-- What an operation of the memory analysis does is a step of that analysis, and no more. -/
theorem MemoryOp.step {f : Checker → Checker} (h : MemoryOp f) (c : Checker) :
    MemoryStep c (f c) := by
  cases h with
  | allocate scope name span => exact c.memoryStep_allocate scope name span
  | rename scope target source => exact c.memoryStep_rename scope target source
  | release scope name span kind => exact c.memoryStep_release scope name span kind
  | checkUse scope name span => exact c.memoryStep_checkUse scope name span
  | deferFree scope => exact .ofScopes (modify_withoutMemory_eq _ scope fun _ => rfl)
  | leaveScope scope => exact c.memoryStep_leaveScope scope
  | reportLeaks scope => exact c.memoryStep_reportLeaks scope

end Warden
