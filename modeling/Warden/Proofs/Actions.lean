import Warden.Check.Stmt

/-!
# Running an action of the check

An action of the check is a function of the state. `CheckM.eval` is what it returns and
`CheckM.exec` the state it leaves. The equations below say what the two are for the building blocks
of the walk, so that a proof about a rule follows the rule line by line and never opens the monad.
-/

namespace Warden.CheckM

variable {α β : Type}

/-- What an action returns when it starts from a state. -/
def eval (m : CheckM α) (c : Checker) : α := (m.run c).1

/-- The state that an action leaves when it starts from a state. -/
def exec (m : CheckM α) (c : Checker) : Checker := (m.run c).2

/-! ### The monad -/

@[simp] theorem eval_pure (a : α) (c : Checker) : (pure a : CheckM α).eval c = a := rfl

@[simp] theorem exec_pure (a : α) (c : Checker) : (pure a : CheckM α).exec c = c := rfl

@[simp] theorem eval_bind (m : CheckM α) (k : α → CheckM β) (c : Checker) :
    (m >>= k).eval c = (k (m.eval c)).eval (m.exec c) := rfl

@[simp] theorem exec_bind (m : CheckM α) (k : α → CheckM β) (c : Checker) :
    (m >>= k).exec c = (k (m.eval c)).exec (m.exec c) := rfl

@[simp] theorem eval_map (f : α → β) (m : CheckM α) (c : Checker) :
    (f <$> m).eval c = f (m.eval c) := rfl

@[simp] theorem exec_map (f : α → β) (m : CheckM α) (c : Checker) :
    (f <$> m).exec c = m.exec c := rfl

@[simp] theorem eval_get (c : Checker) : (get : CheckM Checker).eval c = c := rfl

@[simp] theorem exec_get (c : Checker) : (get : CheckM Checker).exec c = c := rfl

/-- An action that works on from its state, with the state filled in everywhere at once. -/
theorem eval_get_bind (k : Checker → CheckM β) (c : Checker) :
    (get >>= k).eval c = (k c).eval c := rfl

theorem exec_get_bind (k : Checker → CheckM β) (c : Checker) :
    (get >>= k).exec c = (k c).exec c := rfl

@[simp] theorem exec_set (d c : Checker) : (set d : CheckM Unit).exec c = d := rfl

@[simp] theorem exec_modify (f : Checker → Checker) (c : Checker) :
    (modify f : CheckM Unit).exec c = f c := rfl

/-! ### Building blocks of the walk -/

section

variable (cause : Cause)

@[simp] theorem exec_report (span : Span) (c : Checker) :
    (report cause span).exec c = c.report cause span := rfl

@[simp] theorem eval_fail (span : Span) (c : Checker) :
    (fail cause span : CheckM (Option α)).eval c = none := rfl

@[simp] theorem exec_fail (span : Span) (c : Checker) :
    (fail cause span : CheckM (Option α)).exec c = c.report cause span := rfl

@[simp] theorem eval_reject (span : Span) (c : Checker) : (reject cause span).eval c = false := rfl

@[simp] theorem exec_reject (span : Span) (c : Checker) :
    (reject cause span).exec c = c.report cause span := rfl

end

@[simp] theorem eval_recorded (id : NodeId) (ty : Option Ty) (c : Checker) :
    (recorded id ty).eval c = ty := by
  cases ty <;> rfl

@[simp] theorem exec_recorded_none (id : NodeId) (c : Checker) :
    (recorded id none).exec c = c := rfl

@[simp] theorem exec_recorded_some (id : NodeId) (ty : Ty) (c : Checker) :
    (recorded id (some ty)).exec c = c.record id ty := rfl

section

variable (parent : ScopeId)

@[simp] theorem eval_addBlock (name : String) (c : Checker) :
    (addBlock parent name).eval c = c.scopes.size := rfl

@[simp] theorem exec_addBlock (name : String) (c : Checker) :
    (addBlock parent name).exec c = { c with scopes := c.scopes.addBlock parent name } := rfl

@[simp] theorem eval_addFunction (name : String) (c : Checker) :
    (addFunction parent name).eval c = c.scopes.size := rfl

@[simp] theorem exec_addFunction (name : String) (c : Checker) :
    (addFunction parent name).exec c = { c with scopes := c.scopes.addFunction parent name } := rfl

end

/-- A symbol is declared, or its name is taken and that is reported. -/
theorem declare_cases (scope : ScopeId) (symbol : Symbol) (span : Span) (c : Checker) :
    (∃ scopes, c.scopes.insert? scope symbol = some scopes ∧
      (declare scope symbol span).eval c = true ∧
      (declare scope symbol span).exec c = { c with scopes }) ∨
    ∃ cause, (declare scope symbol span).eval c = false ∧
      (declare scope symbol span).exec c = c.report cause span := by
  simp only [declare, eval_bind, exec_bind, eval_get, exec_get]
  cases c.scopes.insert? scope symbol with
  | none => exact .inr ⟨_, rfl, rfl⟩
  | some scopes => exact .inl ⟨scopes, rfl, rfl, rfl⟩

@[simp] theorem eval_within (change : Walk → Walk) (m : CheckM α) (c : Checker) :
    (within change m).eval c = m.eval { c with walk := change c.walk } := rfl

@[simp] theorem exec_within (change : Walk → Walk) (m : CheckM α) (c : Checker) :
    (within change m).exec c =
      { m.exec { c with walk := change c.walk } with walk := c.walk } := rfl

end Warden.CheckM
