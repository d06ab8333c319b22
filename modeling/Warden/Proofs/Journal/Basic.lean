import Warden.Proofs.Journal.Rules

/-!
# The journal of a check

A journal says in which order a check comes to things: it visits an expression, it is done with a
statement, it leaves a scope and carries out the calls of `free` that waited there, and it reports
the leaks of a function or a module. The functions here write the journal down. They follow the walk
call by call, as the visits of expressions do.

A statement is entered with the bodies of loops and functions around it (`Enclosure`). These are
read off the program, and the walk of the check has no part in them.

`Journaled` says what can happen between two states, together with the journal of it. What a check
keeps is proved for each of its cases, and then holds of every check.
-/

namespace Warden

open CheckM Check

/-- A body around a statement. -/
inductive Enclosure where
  | loopBody
  | functionBody
  deriving DecidableEq, Repr

/-- A statement with the bodies around it, innermost first, and with the scope and the state in
which the check comes to it. -/
structure StmtVisit where
  stmt : Stmt
  around : List Enclosure
  scope : ScopeId
  state : Checker

/-- An entry of a journal. -/
inductive Entry where
  /-- Part of an expression or a written type is visited. -/
  | visit (v : Visit)
  /-- The check of a statement is done. -/
  | checked (v : StmtVisit)
  /-- A scope is left, and what waited for its end is carried out. -/
  | left (e : Ending)
  /-- The leaks in the ledger of a scope are reported. -/
  | leaks (scope : ScopeId)

/-- The journal of an action by the state in which it starts. -/
abbrev Journal := Checker → List Entry

namespace Journal

variable {α : Type}

def nothing : Journal := fun _ => []

/-- The visits of a rule. -/
def ofTrace (t : Trace) : Journal := fun c => (t c).map .visit

/-- The journal of an action, and then that of what comes after it. -/
def andThen (m : CheckM α) (first : Journal) (rest : α → Journal) : Journal :=
  fun c => first c ++ rest (m.eval c) (m.exec c)

/-- The journal of what comes after an action that has no entries. -/
def after (m : CheckM α) (rest : α → Journal) : Journal :=
  fun c => rest (m.eval c) (m.exec c)

def whenSome (rest : α → Journal) (result : Option α) : Journal :=
  result.elim nothing rest

/-- The journal of an action in a changed walk. -/
def within (change : Walk → Walk) (journal : Journal) : Journal :=
  fun c => journal { c with walk := change c.walk }

/-- A scope is left. -/
def leave (scope : ScopeId) : Journal := fun c => [.left ⟨scope, c⟩]

/-- The scope of a function or a module is left, and then leaks are reported. -/
def leaveBody (scope : ScopeId) : Journal := fun c => [.left ⟨scope, c⟩, .leaks scope]

end Journal

open Journal

/-- At the end of a function's body, a `return` that may be missing is reported. -/
def Check.endOfBody (name : String) (ret : Ty) (stmts : List Stmt) (span : Span) : CheckM Unit :=
  if ret.isVoid || alwaysReturn stmts then pure () else report (.missingReturn name ret) span

/-! ### Statements -/

mutual

def Stmt.journal (scope : ScopeId) (around : List Enclosure) : Stmt → Journal
  | ⟨span, kind⟩ => fun c =>
    kind.journal span scope around c ++ [.checked ⟨⟨span, kind⟩, around, scope, c⟩]

def StmtKind.journal (span : Span) (scope : ScopeId) (around : List Enclosure) :
    StmtKind → Journal
  | .var decl =>
    ofTrace (.andThen ( annotation decl.ty scope) (optionalTypeVisits scope decl.ty)
      (.whenSome fun _ => optionalExprVisits scope decl.value))
  | .fn decl =>
    andThen (fnDecl decl span scope)
      (ofTrace (signatureVisits decl.params decl.returnType scope))
      (whenSome fun sig => decl.bodyJournal sig span scope decl.name around)
  | .struct decl =>
    andThen (structDecl decl span scope) (ofTrace (memberVisits decl span scope))
      (whenSome fun head => decl.methodJournal scope head.signatures around)
  | .enum _ | .importModule .. | .breakLoop | .continueLoop => nothing
  | .ret value => ofTrace (optionalExprVisits scope value)
  | .conditional branches otherwise =>
    andThen (checkBranches scope "if" branches) (branchJournal scope "if" around branches) fun _ =>
      optionalBlockJournal scope "else" around otherwise
  | .loop init cond step body =>
    after (addBlock scope "loop") fun inner =>
      andThen (checkOptionalStmt inner init) (optionalStmtJournal inner around init) fun _ =>
        andThen (optionalCondition cond inner) (ofTrace (optionalExprVisits inner cond)) fun _ =>
          andThen (optionalEffect step inner) (ofTrace (optionalExprVisits inner step)) fun _ =>
            andThen (CheckM.within Walk.enterLoop (body.checkIn inner "loop body"))
              (Journal.within Walk.enterLoop
                (body.journalIn inner "loop body" (.loopBody :: around))) fun _ => leave inner
  | .switch scrutinee cases otherwise =>
    andThen (scrutinee.check scope) (ofTrace (scrutinee.visits scope .value)) fun ty =>
      andThen (checkCases scope ty cases) (caseJournal scope ty around cases) fun _ =>
        optionalBlockJournal scope "default" around otherwise
  | .defer stmt => Journal.within (Walk.enterDefer scope) (stmt.journal scope around)
  | .block block => block.journalIn scope "block" around
  | .expr e => ofTrace (e.visits scope .value)

def stmtJournal (scope : ScopeId) (around : List Enclosure) : List Stmt → Journal
  | [] => nothing
  | s :: ss =>
    andThen (s.check scope) (s.journal scope around) fun _ => stmtJournal scope around ss

def optionalStmtJournal (scope : ScopeId) (around : List Enclosure) : Option Stmt → Journal
  | none => nothing
  | some s => s.journal scope around

def Block.journalIn (parent : ScopeId) (name : String) (around : List Enclosure) :
    Block → Journal
  | ⟨_, stmts⟩ =>
    after (addBlock parent name) fun scope =>
      andThen (checkStmts scope stmts) (stmtJournal scope around stmts) fun _ => leave scope

def optionalBlockJournal (parent : ScopeId) (name : String) (around : List Enclosure) :
    Option Block → Journal
  | none => nothing
  | some block => block.journalIn parent name around

def branchJournal (scope : ScopeId) (name : String) (around : List Enclosure) :
    List (Expr × Block) → Journal
  | [] => nothing
  | (cond, block) :: branches =>
    andThen (condition cond scope) (ofTrace (cond.visits scope .value)) fun _ =>
      andThen (block.checkIn scope name) (block.journalIn scope name around) fun _ =>
        branchJournal scope "elif" around branches

def caseJournal (scope : ScopeId) (expected : Option Ty) (around : List Enclosure) :
    List SwitchCase → Journal
  | [] => nothing
  | ⟨_, values, body⟩ :: cases =>
    andThen (caseValues expected scope values) (ofTrace (caseValueVisits expected scope values))
      fun _ => andThen (body.checkIn scope "case") (body.journalIn scope "case" around) fun _ =>
        caseJournal scope expected around cases

def FnDecl.bodyJournal (sig : Signature) (span : Span) (parent : ScopeId) (name : String)
    (around : List Enclosure) : FnDecl → Journal
  | ⟨fnName, params, _, ⟨_, stmts⟩, _, returnsOwnership, takesOwnership⟩ =>
    after (addFunction parent name) fun scope =>
      Journal.within
        (Walk.enterFunction
          { returnType := sig.ret,
            ownership := { function := name, returnsOwnership, takesOwnership } })
        (after (declareParams takesOwnership scope params sig.params) fun _ =>
          andThen (checkStmts scope stmts) (stmtJournal scope (.functionBody :: around) stmts)
            fun _ => after (endOfBody fnName sig.ret stmts span) fun _ => leaveBody scope)

def StructDecl.methodJournal (scope : ScopeId) (signatures : List (Option Signature))
    (around : List Enclosure) : StructDecl → Journal
  | ⟨name, _, _, methods⟩ => methodJournal scope name around methods signatures

def methodJournal (scope : ScopeId) (owner : String) (around : List Enclosure) :
    List MethodDecl → List (Option Signature) → Journal
  | ⟨span, decl⟩ :: methods, some sig :: signatures =>
    andThen (decl.checkBody sig span scope s!"{owner}.{decl.name}")
      (decl.bodyJournal sig span scope s!"{owner}.{decl.name}" around) fun _ =>
        methodJournal scope owner around methods signatures
  | _ :: methods, none :: signatures => methodJournal scope owner around methods signatures
  | _, _ => nothing

end

/-- The journal of a module in its scope. -/
def Module.journal (m : Module) (scope : ScopeId) : Journal := fun c =>
  andThen (checkStmts scope m.statements) (stmtJournal scope [] m.statements)
    (fun _ => leaveBody scope) (c.entered m)

namespace Resolver

/-- The journal of an event of a tour through modules. -/
def eventJournal (r : Resolver) (c : Checker) : Event → List Entry
  | .check slot =>
    match r.slots[slot]? with
    | none => []
    | some s => s.module.journal s.scope c
  | .cycle .. => []

/-- The journal of several events. -/
def journal (r : Resolver) (c : Checker) : List Event → List Entry
  | [] => []
  | e :: events => r.eventJournal c e ++ r.journal (r.perform c e) events

end Resolver

/-! ### What a journal is about -/

/-- Why a jump has nothing to leave, by the walk in which the check comes to it. -/
def Stmt.jumpFault? (s : Stmt) (w : Walk) : Option Cause :=
  match s.kind with
  | .ret _ => if w.frames.isEmpty then some .returnOutsideFunction else none
  | .breakLoop => if w.loopDepth = 0 then some .breakOutsideLoop else none
  | .continueLoop => if w.loopDepth = 0 then some .continueOutsideLoop else none
  | _ => none

/-- In a scope, with these bodies around, a check can lead from the first state to the second, and
these are its entries. -/
inductive Journaled : ScopeId → List Enclosure → Checker → List Entry → Checker → Prop where
  | rule {scope around visits c d} : Ruled scope visits c d →
      Journaled scope around c (visits.map .visit) d
  | trans {scope around c d e first rest} : Journaled scope around c first d →
      Journaled scope around d rest e → Journaled scope around c (first ++ rest) e
  /-- When the parts of a statement have been checked, it may turn out to be a jump from nowhere. -/
  | stmt {scope around c d entries} (s : Stmt) : Journaled scope around c entries d →
      Journaled scope around c (entries ++ [.checked ⟨s, around, scope, c⟩])
        { d with context := d.context.reportAny s.span (s.jumpFault? c.walk) }
  | block {scope around c d entries} (name : String) :
      Journaled c.scopes.size around { c with scopes := c.scopes.addBlock scope name } entries d →
      Journaled scope around c (entries ++ [.left ⟨c.scopes.size, d⟩])
        (d.leaveScope c.scopes.size)
  | loopBody {scope around c d entries} :
      Journaled scope (.loopBody :: around) { c with walk := c.walk.enterLoop } entries d →
      Journaled scope around c entries { d with walk := c.walk }
  | defer {scope around c d entries} :
      Journaled scope around { c with walk := c.walk.enterDefer scope } entries d →
      Journaled scope around c entries { d with walk := c.walk }
  | function {scope around c d entries} (name : String) (frame : Frame) :
      Journaled c.scopes.size (.functionBody :: around)
        { c with scopes := c.scopes.addFunction scope name, walk := c.walk.enterFunction frame }
        entries d →
      Journaled scope around c (entries ++ [.left ⟨c.scopes.size, d⟩, .leaks c.scopes.size])
        { (d.leaveScope c.scopes.size).reportLeaks c.scopes.size with walk := c.walk }

/-- In a scope, with these bodies around, the journal is that of the action. -/
def Journal.IsOf {α : Type} (journal : Journal) (scope : ScopeId) (around : List Enclosure)
    (m : CheckM α) : Prop :=
  ∀ c, Journaled scope around c (journal c) (m.exec c)

end Warden
