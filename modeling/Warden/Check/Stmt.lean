import Warden.Check.ControlFlow
import Warden.Check.Declarations

/-!
# Statements

`Stmt.check` checks a statement in a scope and says whether it is free of faults. Checking goes on
after a fault, so that each independent mistake is reported once.

Blocks, loops, branches, cases and function bodies get scopes of their own. At the end of a scope
the calls of `free` that were deferred in it are carried out; at the end of a function the
allocations that are left over are reported.

`Module.check` checks the statements of a module. Its imports have been bound before.
-/

namespace Warden

open CheckM

/-- The walk inside a function's body: the function is the innermost, and the loops and `defer`
around its declaration do not reach in. -/
def Walk.enterFunction (frame : Frame) (w : Walk) : Walk :=
  { frames := frame :: w.frames }

/-- The walk inside a loop's body. -/
def Walk.enterLoop (w : Walk) : Walk :=
  { w with loopDepth := w.loopDepth + 1 }

/-- The walk under a `defer` that stands in a scope. -/
def Walk.enterDefer (scope : ScopeId) (w : Walk) : Walk :=
  { w with deferTarget := some scope }

mutual

/-- Checks a statement, and says whether it is free of faults. -/
def Stmt.check (scope : ScopeId) : Stmt → CheckM Bool
  | ⟨span, .var decl⟩ => Check.varDecl decl span scope
  | ⟨span, .fn decl⟩ => do
    match ← Check.fnDecl decl span scope with
    | none => return false
    | some sig => decl.checkBody sig span scope decl.name
  | ⟨span, .struct decl⟩ => do
    match ← Check.structDecl decl span scope with
    | none => return false
    | some head =>
      let ok ← decl.checkMethods scope head.signatures
      return head.isOk && ok
  | ⟨span, .enum decl⟩ => Check.enumDecl decl span scope
  | ⟨span, .importModule module _⟩ => do
    if ((← get).scopes.scope scope).isModule then return true
    else reject (.importNotAtTop module) span
  | ⟨span, .ret value⟩ => do
    let expected := (← get).walk.frames.head?.map (·.returnType)
    let found ← Check.initializer value scope
    Check.returned expected value found span
  | ⟨_, .conditional branches otherwise⟩ => do
    let ok ← checkBranches scope "if" branches
    let rest ← checkOptionalBlock scope "else" otherwise
    return ok && rest
  | ⟨_, .loop init cond step body⟩ => do
    let inner ← addBlock scope "loop"
    let initOk ← checkOptionalStmt inner init
    let condOk ← Check.optionalCondition cond inner
    let stepOk ← Check.optionalEffect step inner
    let bodyOk ← within Walk.enterLoop (body.checkIn inner "loop body")
    modify (·.leaveScope inner)
    return initOk && condOk && stepOk && bodyOk
  | ⟨span, .breakLoop⟩ => do
    if (← get).walk.loopDepth > 0 then return true else reject .breakOutsideLoop span
  | ⟨span, .continueLoop⟩ => do
    if (← get).walk.loopDepth > 0 then return true else reject .continueOutsideLoop span
  | ⟨span, .switch scrutinee cases otherwise⟩ => do
    let ty ← scrutinee.check scope
    let (casesOk, covered) ← checkCases scope ty cases
    let rest ← checkOptionalBlock scope "default" otherwise
    let exhaustive ← Check.exhaustiveness ty covered otherwise.isSome span scope
    return ty.isSome && casesOk && rest && exhaustive
  | ⟨_, .defer stmt⟩ => within (Walk.enterDefer scope) (stmt.check scope)
  | ⟨_, .block block⟩ => block.checkIn scope "block"
  | ⟨_, .expr e⟩ => return (← e.check scope).isSome

/-- Checks statements in a scope, one after the other. -/
def checkStmts (scope : ScopeId) : List Stmt → CheckM Bool
  | [] => return true
  | s :: ss => do
    let ok ← s.check scope
    let rest ← checkStmts scope ss
    return ok && rest

def checkOptionalStmt (scope : ScopeId) : Option Stmt → CheckM Bool
  | none => return true
  | some s => s.check scope

/-- Checks a block in a new scope inside `parent`, and leaves that scope. -/
def Block.checkIn (parent : ScopeId) (name : String) : Block → CheckM Bool
  | ⟨_, stmts⟩ => do
    let scope ← addBlock parent name
    let ok ← checkStmts scope stmts
    modify (·.leaveScope scope)
    return ok

def checkOptionalBlock (parent : ScopeId) (name : String) : Option Block → CheckM Bool
  | none => return true
  | some block => block.checkIn parent name

/-- Checks the branches of a conditional; the scope of the first one is called `name`. -/
def checkBranches (scope : ScopeId) (name : String) : List (Expr × Block) → CheckM Bool
  | [] => return true
  | (cond, block) :: branches => do
    let condOk ← Check.condition cond scope
    let blockOk ← block.checkIn scope name
    let rest ← checkBranches scope "elif" branches
    return condOk && blockOk && rest

/-- Checks the cases of a switch, and collects the enum members that they name. -/
def checkCases (scope : ScopeId) (expected : Option Ty) :
    List SwitchCase → CheckM (Bool × List String)
  | [] => return (true, [])
  | ⟨_, values, body⟩ :: cases => do
    let (valuesOk, covered) ← Check.caseValues expected scope values
    let bodyOk ← body.checkIn scope "case"
    let (rest, more) ← checkCases scope expected cases
    return (valuesOk && bodyOk && rest, covered ++ more)

/-- Checks the body of a function or method in a scope of its own, called `name`. -/
def FnDecl.checkBody (sig : Check.Signature) (span : Span) (parent : ScopeId) (name : String) :
    FnDecl → CheckM Bool
  | ⟨fnName, params, _, ⟨_, stmts⟩, _, returnsOwnership, takesOwnership⟩ => do
    let scope ← addFunction parent name
    let frame : Frame :=
      { returnType := sig.ret, ownership := { function := name, returnsOwnership, takesOwnership } }
    within (Walk.enterFunction frame) do
      let paramsOk ← Check.declareParams takesOwnership scope params sig.params
      let bodyOk ← checkStmts scope stmts
      let returns := sig.ret.isVoid || alwaysReturn stmts
      if !returns then report (.missingReturn fnName sig.ret) span
      modify (·.leaveScope scope)
      modify (·.reportLeaks scope)
      return paramsOk && bodyOk && returns

/-- Checks the bodies of a struct's methods. -/
def StructDecl.checkMethods (scope : ScopeId) (signatures : List (Option Check.Signature)) :
    StructDecl → CheckM Bool
  | ⟨name, _, _, methods⟩ => checkMethods scope name methods signatures

/-- Checks the bodies of the methods that have a signature. -/
def checkMethods (scope : ScopeId) (owner : String) :
    List MethodDecl → List (Option Check.Signature) → CheckM Bool
  | ⟨span, decl⟩ :: methods, some sig :: signatures => do
    let ok ← decl.checkBody sig span scope s!"{owner}.{decl.name}"
    let rest ← checkMethods scope owner methods signatures
    return ok && rest
  | _ :: methods, none :: signatures => checkMethods scope owner methods signatures
  | _, _ => return true

end

/-! ### Modules -/

/-- Whether a statement only imports a module. -/
def Stmt.isImport (s : Stmt) : Bool :=
  match s.kind with
  | .importModule .. => true
  | _ => false

/-- Checks the statements of a module in its scope. -/
def Module.check (m : Module) (scope : ScopeId) : CheckM Unit := do
  modify fun c => { c with context := c.context.enter m }
  let _ ← checkStmts scope (m.body.filter (!·.isImport))
  modify (·.leaveScope scope)
  modify (·.reportLeaks scope)

end Warden
