import Warden.Proofs.Findings
import Warden.Proofs.Memory.Aliases
import Warden.Proofs.Reachable

/-!
# No ledger of a check has cycles

In every state that a check can come to, the names in each ledger stand for each other without
cycles (`Checker.Reachable.ledgersAcyclic`): each elementary change of a check leaves the ledgers
alone, makes an empty one, or is an event of one of them.
-/

namespace Warden

open ScopeTree

/-- The names in all ledgers stand for each other without cycles. -/
def Checker.LedgersAcyclic (c : Checker) : Prop :=
  ∀ i l, (c.scopes.scope i).ledger = some l → l.Acyclic

namespace Checker.LedgersAcyclic

variable {c : Checker}

section

variable (h : c.LedgersAcyclic)

include h

/-- A change that leaves the ledgers alone, or makes empty ones. -/
theorem congr {d : Checker} (hd : ∀ i, (d.scopes.scope i).ledger = (c.scopes.scope i).ledger ∨
      ∀ l ∈ (d.scopes.scope i).ledger, l = {}) : d.LedgersAcyclic := by
  intro i l hl
  rcases hd i with hsame | hempty
  · exact h i l (hsame ▸ hl)
  · rw [hempty l hl]
    exact .empty

theorem updateLedger (id : ScopeId) {f : Ledger → Ledger}
    (hf : ∀ l : Ledger, l.Acyclic → (f l).Acyclic) (context : Context) :
    LedgersAcyclic { c with scopes := c.scopes.updateLedger id f, context } := by
  intro i l hl
  dsimp only at hl
  rw [ledger_updateLedger] at hl
  split at hl
  · obtain ⟨m, hm, rfl⟩ := Option.map_eq_some_iff.mp hl
    exact hf m (h i m hm)
  · exact h i l hl

theorem modify (id : ScopeId) {f : Scope → Scope} (hf : ∀ s, (f s).ledger = s.ledger) :
    LedgersAcyclic { c with scopes := c.scopes.modify id f } :=
  h.congr fun i => .inl (c.scopes.field_modify id Scope.ledger hf i)

theorem addScope (parent : ScopeId) (name : String) (owner : ScopeOwner) {ledger : Option Ledger}
    (hledger : ∀ l ∈ ledger, l = {}) :
    LedgersAcyclic { c with scopes := c.scopes.addScope parent name owner ledger } := by
  refine h.congr fun i => ?_
  by_cases hi : i = c.scopes.size
  · subst hi
    right
    rw [scope_addScope_size]
    exact hledger
  · exact .inl (c.scopes.field_addScope parent name owner ledger Scope.ledger (fun _ _ => rfl) hi)

theorem release (scope : ScopeId) (name : String) (span : Span) (kind : FreeKind) :
    (c.release scope name span kind).LedgersAcyclic := by
  unfold Checker.release
  split
  · exact h
  · split
    · exact h
    · exact h.updateLedger _ (fun l hl => hl.release name span kind) _

theorem allocate (scope : ScopeId) (name : String) (span : Span) :
    (c.allocate scope name span).LedgersAcyclic := by
  unfold Checker.allocate
  split
  · exact h
  · exact h.updateLedger _ (fun l hl => hl.allocate span name c.ownership?) _

theorem rename (scope : ScopeId) (target source : String) :
    (c.rename scope target source).LedgersAcyclic := by
  unfold Checker.rename
  split
  · exact h
  · exact h.updateLedger _ (fun l hl => hl.rename target source) _

theorem leaveScope (scope : ScopeId) : (c.leaveScope scope).LedgersAcyclic := by
  have hall : ∀ (waiting : List DeferredFree) {c : Checker}, c.LedgersAcyclic →
      (waiting.foldl (fun c d => c.release scope d.name d.span .explicit) c).LedgersAcyclic := by
    intro waiting
    induction waiting with
    | nil => exact id
    | cons d waiting ih => exact fun h => ih (h.release scope d.name d.span .explicit)
  exact hall _ (h.modify scope fun _ => rfl)

theorem reportLeaks (scope : ScopeId) : (c.reportLeaks scope).LedgersAcyclic := by
  unfold Checker.reportLeaks
  split
  · split <;> exact h
  · exact h

theorem memory {f : Checker → Checker} (hf : MemoryOp f) : (f c).LedgersAcyclic := by
  cases hf with
  | allocate scope name span => exact h.allocate scope name span
  | rename scope target source => exact h.rename scope target source
  | release scope name span kind => exact h.release scope name span kind
  | checkUse scope name span => exact h
  | deferFree scope name span => exact h.modify scope fun _ => rfl
  | leaveScope scope => exact h.leaveScope scope
  | reportLeaks scope => exact h.reportLeaks scope

theorem insert {scope : ScopeId} {symbol : Symbol} {t : ScopeTree}
    (ht : c.scopes.insert? scope symbol = some t) : LedgersAcyclic { c with scopes := t } := by
  obtain ⟨-, rfl⟩ := eq_of_insert? ht
  exact h.modify scope fun _ => rfl

theorem addBlock (parent : ScopeId) (name : String) :
    LedgersAcyclic { c with scopes := c.scopes.addBlock parent name } :=
  h.addScope parent name .block nofun

theorem addFunction (parent : ScopeId) (name : String) :
    LedgersAcyclic { c with scopes := c.scopes.addFunction parent name } :=
  h.addScope parent name (.function name) (by simp)

theorem addModule {name : String} {scopes : ScopeTree}
    (hscopes : c.scopes.addModule? name = some scopes) : LedgersAcyclic { c with scopes } := by
  obtain ⟨-, rfl⟩ := eq_of_addModule? hscopes
  exact h.addScope 0 name (.module name) (by simp)

theorem addImport {id : ScopeId} {module localName : String} {scopes : ScopeTree}
    (hscopes : c.scopes.addImport? id module localName = some scopes) :
    LedgersAcyclic { c with scopes } := by
  obtain ⟨_, -, rfl⟩ := eq_of_addImport? hscopes
  exact h.modify id fun _ => rfl

end

/-- At the start there are no ledgers, and every elementary change keeps them without cycles. -/
theorem runInvariant : RunInvariant LedgersAcyclic where
  start config := by
    intro i l hl
    cases i with
    | zero => cases hl
    | succ i => cases hl
  report _ _ h := h
  enter _ h := h
  record _ _ h := h
  memory hf h := h.memory hf
  setWalk _ h := h
  setStructs _ h := h
  addBlock parent name h := h.addBlock parent name
  addFunction parent name h := h.addFunction parent name
  insert h ht := h.insert ht
  addModule h hscopes := h.addModule hscopes
  addImport h hscopes := h.addImport hscopes

end Checker.LedgersAcyclic

theorem Checker.Reachable.ledgersAcyclic {c : Checker} (h : c.Reachable) : c.LedgersAcyclic :=
  h.keeps LedgersAcyclic.runInvariant

end Warden
