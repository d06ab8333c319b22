import Warden.Proofs.Mirror.State
import Warden.Proofs.Observing

/-!
# What an action finds, part by part

Every action of the check puts the walk back to what it was and adds its findings at the end of the
list: it is `Steady`. So what two actions find one after the other is what the first one finds,
followed by what the second one finds from there on (`CheckM.emitted_bind`).
-/

namespace Warden

open CheckM Check

/-- The action leaves the walk as it was, and adds findings to those made before. -/
structure CheckM.Steady {α : Type} (m : CheckM α) : Prop where
  walk : ∀ c, (m.exec c).walk = c.walk
  findings : ∀ c, (m.exec c).context.findings = c.context.findings ++ m.emitted c

namespace CheckM

variable {α β : Type}

theorem emitted_bind {m : CheckM α} {f : α → CheckM β} (hm : m.Steady)
    (hf : ∀ a, (f a).Steady) (c : Checker) :
    (m >>= f).emitted c = m.emitted c ++ (f (m.eval c)).emitted (m.exec c) := by
  apply emitted_eq
  rw [exec_bind, (hf _).findings, hm.findings, List.append_assoc]

namespace Steady

variable {m : CheckM α}

theorem ofPure (a : α) : (pure a : CheckM α).Steady :=
  ⟨fun _ => rfl, fun c => by simp [emitted]⟩

theorem bind {f : α → CheckM β} (hm : m.Steady) (hf : ∀ a, (f a).Steady) : (m >>= f).Steady := by
  refine ⟨fun c => ?_, fun c => ?_⟩
  · rw [exec_bind, (hf _).walk, hm.walk]
  · rw [emitted_bind hm hf, exec_bind, (hf _).findings, hm.findings, List.append_assoc]

theorem ofReport (cause : Cause) (span : Span) : (report cause span).Steady :=
  ⟨fun _ => rfl, fun _ => by simp [emitted, Checker.report, Context.report]⟩

theorem ofMemory {f : Checker → Checker} (hf : MemoryOp f) : (modify f : CheckM Unit).Steady := by
  refine ⟨fun c => (hf.step c).walk, fun c => ?_⟩
  obtain ⟨new, hnew, -⟩ := (hf.step c).findings
  rw [emitted_eq (m := (modify f : CheckM Unit)) hnew]
  exact hnew

theorem ofAddBlock (parent : ScopeId) (name : String) : (addBlock parent name).Steady :=
  ⟨fun _ => rfl, fun c => by simp [emitted]⟩

theorem within (hm : m.Steady) (change : Walk → Walk) : (within change m).Steady :=
  ⟨fun _ => rfl, fun c => hm.findings { c with walk := change c.walk }⟩

/-- An action that is in step with itself, whatever is compared, is steady. -/
theorem ofInStep (scope : ScopeId) {A : α → α → Prop}
    (h : ∀ {R}, Lockstep (.same (fun _ => True) fun _ => True) R →
      InStep (R [⟨scope, false⟩] [⟨scope, false⟩]) A m m) : m.Steady := by
  have hstep := fun c : Checker =>
    h (FindingsSince.invariant c.context.findings).simulation.lockstep c c ⟨rfl, rfl, .refl c⟩
  refine ⟨fun c => (hstep c).walk_left, fun c => ?_⟩
  obtain ⟨-, -, new, hnew, -⟩ := (hstep c).states
  rw [emitted_eq hnew, hnew]

end Steady

theorem IsRule.steady {scope : ScopeId} {node : NodeId → Prop} {m : CheckM α}
    (h : m.IsRule scope node) : m.Steady :=
  .ofInStep scope fun hR =>
    h _ _ (fun _ _ => trivial) (@hR.expr ⟨scope, false⟩ ⟨scope, false⟩ [] [])

end CheckM

/-! ### Findings of a cause -/

/-- What is filed for a cause, if there is one. -/
def Context.filed (c : Context) (span : Span) (cause? : Option Cause) : List Finding :=
  cause?.toList.map fun cause => ⟨cause, span, c.filePath, c.lineText? span.line⟩

theorem Context.findings_reportAny (c : Context) (span : Span) (cause? : Option Cause) :
    (c.reportAny span cause?).findings = c.findings ++ c.filed span cause? := by
  cases cause? <;> simp [reportAny, report, filed]

theorem Context.filed_reportAny (c : Context) (span span' : Span) (cause? cause?' : Option Cause) :
    (c.reportAny span cause?).filed span' cause?' = c.filed span' cause?' := by
  cases cause? <;> rfl

/-! ### The actions of the check -/

section

variable (scope : ScopeId)

theorem steady_stmt (s : Stmt) : (s.check scope).Steady :=
  .ofInStep scope fun hR => hR.inStep_stmt s fun _ _ => trivial

theorem steady_stmts (ss : List Stmt) : (checkStmts scope ss).Steady :=
  .ofInStep scope fun hR => hR.inStep_stmts ss fun _ _ => trivial

theorem steady_block (name : String) (b : Block) : (b.checkIn scope name).Steady :=
  .ofInStep scope fun hR => hR.inStep_block name b fun _ _ => trivial

theorem steady_optionalBlock (name : String) (b : Option Block) :
    (checkOptionalBlock scope name b).Steady :=
  .ofInStep scope fun hR => hR.inStep_optionalBlock name b fun _ _ => trivial

theorem steady_branches (name : String) (branches : List (Expr × Block)) :
    (checkBranches scope name branches).Steady :=
  .ofInStep scope fun hR => hR.inStep_branches name branches fun _ _ => trivial

theorem steady_cases (expected : Option Ty) (cases : List SwitchCase) :
    (checkCases scope expected cases).Steady :=
  .ofInStep scope fun hR =>
    hR.inStep_cases (.refl (Pairing.same_ty _ _) expected) cases fun _ _ => trivial

end

end Warden
