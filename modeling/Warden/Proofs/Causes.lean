import Warden.Check.Stmt

/-!
# Which causes come from where

Some groups of causes matter to what is proved about a check. Those that the rules report
(`Cause.isTyping`), as opposed to the memory analysis and the work on modules; those that make a
check fail (`Cause.isFault`), which are all errors but a double free and the use of something freed;
and, among the first and the second, those that the rules for operators and assignments work out as
values before anybody reports them (`Cause.isOperand`). Of the first, three are for jumps that have
nothing to leave (`Cause.isJump`): only the statements that jump report these, and all other rules
report something else (`Cause.isRule`).
-/

namespace Warden

variable {cause : Cause}

namespace Cause

/-- Whether a rule of the check reports the cause. The others come from the memory analysis, or from
bringing the modules into order. -/
def isTyping : Cause → Bool
  | .localNameTaken .. | .duplicateModule .. | .moduleNotFound .. | .circularDependency ..
  | .untrackedFree .. | .doubleFree .. | .transferAfterFree .. | .useAfterFree ..
  | .leak .. => false
  | _ => true

/-- Whether the cause is an error other than freeing twice or using what has been freed. -/
def isFault (cause : Cause) : Bool :=
  cause.severity == .error && cause.tag != .doubleFree && cause.tag != .useAfterFree

/-- Whether the cause is reported when the modules are brought into order. -/
def isLinking : Cause → Bool
  | .localNameTaken .. | .duplicateModule .. | .moduleNotFound .. | .circularDependency .. => true
  | _ => false

/-- Whether operands or the target of an assignment are at fault. -/
def isOperand : Cause → Bool
  | .nonNumericOperands .. | .nonBoolOperands .. | .incomparable .. | .badOperand ..
  | .badAssignmentTarget | .immutableAssignment .. => true
  | _ => false

/-- Whether a jump stands where there is nothing to leave. -/
def isJump : Cause → Bool
  | .breakOutsideLoop | .continueOutsideLoop | .returnOutsideFunction => true
  | _ => false

/-- Whether a rule reports the cause that is not about where a jump stands. -/
def isRule (cause : Cause) : Bool :=
  cause.isTyping && !cause.isJump

theorem isJump_eq (cause : Cause) : cause.isJump = (cause.tag == .invalidControlFlow) := by
  cases cause <;> rfl

variable {cause : Cause}

theorem isTyping_of_isJump (h : cause.isJump = true) : cause.isTyping = true := by
  unfold isJump at h
  split at h
  case h_4 => cases h
  all_goals rfl

theorem not_isMemory_of_isLinking (h : cause.isLinking = true) :
    cause.tag.isMemory = false ∧ cause.isJump = false := by
  unfold isLinking at h
  split at h
  case h_5 => cases h
  all_goals exact ⟨rfl, rfl⟩

theorem isTyping_of_isRule (h : cause.isRule = true) : cause.isTyping = true :=
  (Bool.and_eq_true_iff.mp h).1

theorem isJump_of_isRule (h : cause.isRule = true) : cause.isJump = false := by
  simpa using (Bool.and_eq_true_iff.mp h).2

theorem isMemory_tag_of_isTyping (h : cause.isTyping = true) : cause.tag.isMemory = false := by
  cases cause <;> simp_all [tag, Tag.isMemory, isTyping]

theorem isRule_of_isOperand (h : cause.isOperand = true) : cause.isRule = true := by
  unfold isOperand at h
  split at h
  case h_7 => cases h
  all_goals rfl

theorem isFault_of_isOperand (h : cause.isOperand = true) : cause.isFault = true := by
  unfold isOperand at h
  split at h
  case h_7 => cases h
  all_goals rfl

end Cause

theorem BinaryOp.isOperand_of_error {op : BinaryOp} {lhs rhs : Ty}
    (h : op.resultType lhs rhs = .error cause) : cause.isOperand = true := by
  unfold resultType at h
  split at h
  · split at h
    · cases h
    · split at h
      · cases h
      · cases h
        rfl
  · split at h
    · cases h
    · cases h
      rfl
  · split at h
    · cases h
    · cases h
      rfl

theorem UnaryOp.isOperand_of_error {op : UnaryOp} {ty : Ty} (h : op.resultType ty = .error cause) :
    cause.isOperand = true := by
  cases op with
  | neg =>
    simp only [resultType] at h
    split at h
    · cases h
    · cases h
      rfl
  | not =>
    simp only [resultType] at h
    split at h
    · cases h
    · cases h
      rfl
  | deref => cases ty <;> cases h <;> rfl
  | addrOf => cases h

theorem Check.isOperand_of_assignmentFault? {c : Checker} {target : Expr} {scope : ScopeId}
    (h : assignmentFault? c target scope = some cause) : cause.isOperand = true := by
  unfold assignmentFault? at h
  split at h
  · cases h
    rfl
  · split at h
    · cases h
    · split at h
      · cases h
        rfl
      · cases h

end Warden
