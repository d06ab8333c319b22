import Warden.Proofs.Bodies
import Warden.Proofs.Faults.Reported
import Warden.Proofs.Modules

/-!
# Types stay well formed

All types that a check holds are in order, at every point where it stands between two statements:
each struct that a type mentions, at any depth, is in the table under the name that the type gives
it, and the name of a struct stands for a finalized definition (`types_stay_well_formed`).

`Checker.Session` are the states between calls, in which a program is resolved or a statement or
expression is checked, and those in which the passes over a program stop between their parts.
`Checker.Awaits` goes on into the statements: it holds of a state with the statements that are next
to be checked and their scope, in blocks, branches, loops, cases and bodies of functions and
methods, where the functions around are known by their frames.
-/

namespace Warden

open CheckM Check

variable {scope : ScopeId} {sig : Signature} {name : String}

/-! ### Well-formed types -/

/-- A struct occurs in a type, at any depth, with a position and a name. -/
inductive Ty.Mentions (id : StructId) (name : String) : Ty → Prop where
  | struct : Mentions id name (.struct id name)
  | pointer {pointee : Ty} : Mentions id name pointee → Mentions id name (.pointer pointee)
  | array {element : Ty} {size : Option ArraySize} : Mentions id name element →
      Mentions id name (.array element size)
  | param {params : List Ty} {ret p : Ty} : p ∈ params → Mentions id name p →
      Mentions id name (.function params ret)
  | ret {params : List Ty} {ret : Ty} : Mentions id name ret →
      Mentions id name (.function params ret)

/-- The structs that a type mentions are in the table, under their names. -/
def Ty.WellFormed (t : StructTable) (ty : Ty) : Prop :=
  ∀ id name, ty.Mentions id name → id < t.size ∧ (t.get? id).map (·.name) = some name

theorem Ty.KnownIn.wellFormed {t : StructTable} {ty : Ty} (h : ty.KnownIn t) : ty.WellFormed t := by
  intro id name hmentions
  induction hmentions with
  | struct =>
    cases h with
    | struct hd =>
      obtain ⟨hlt, -⟩ := Array.getElem?_eq_some_iff.mp hd
      exact ⟨hlt, by rw [hd, Option.map_some]⟩
  | pointer _ ih =>
    cases h with
    | pointer h => exact ih h
  | array _ ih =>
    cases h with
    | array _ h => exact ih h
  | param hp _ ih => exact ih (h.params _ hp)
  | ret _ ih => exact ih h.ret

namespace Checker

/-- The types of all symbols, of all members of structs, of all expressions and of the functions
around are well formed. -/
structure TypesWellFormed (c : Checker) : Prop where
  symbols : ∀ s, c.scopes.Declares s → s.ty.WellFormed c.structs
  members : ∀ id d, c.structs.get? id = some d → ∀ m ∈ d.members, m.ty.WellFormed c.structs
  types : ∀ entry ∈ c.types.entries, entry.2.WellFormed c.structs
  frames : ∀ f ∈ c.walk.frames, f.returnType.WellFormed c.structs

theorem WellTyped.typesWellFormed {c : Checker} (h : c.WellTyped) : c.TypesWellFormed where
  symbols s hs := (h.symbols s hs).known.wellFormed
  members id d hd m hm := (h.members id d hd m hm).known.wellFormed
  types entry hentry := (h.types entry hentry).wellFormed
  frames f hf := (h.frames f hf).wellFormed

/-! ### Where a check can stand -/

/-- What the passes over a program do, one after the other. -/
inductive PassStep : Checker → Checker → Prop where
  | enter {c} (m : Module) : PassStep c (c.entered m)
  | report {c} (cause : Cause) (span : Span) : PassStep c (c.report cause span)
  | addModule {c name scopes} : c.scopes.addModule? name = some scopes →
      PassStep c { c with scopes }
  | addImport {c id module localName scopes} :
      c.scopes.addImport? id module localName = some scopes → PassStep c { c with scopes }
  | check {c} (m : Module) (scope : ScopeId) : PassStep c ((m.check scope).exec c)

/-- The states between the calls of a check, in any order, and between the parts of a pass. -/
inductive Session : Checker → Prop where
  | start (config : Config) : Session (ofConfig config)
  | resolve {c} (p : Program) : Session c → Session (c.resolve p).checker
  | stmt {c} (s : Stmt) (scope : ScopeId) : Session c → Session ((s.check scope).exec c)
  | expr {c} (e : Expr) (scope : ScopeId) : Session c → Session ((e.check scope).exec c)
  | pass {c d} : PassStep c d → Session c → Session d

/-- The state in which the statements of a block begin. -/
def inBlock (c : Checker) (parent : ScopeId) (name : String) : Checker :=
  (addBlock parent name).exec c

/-- The state in which the body of a loop is come to. -/
def inLoop (c : Checker) (scope : ScopeId) (init : Option Stmt) (cond step : Option Expr) :
    Checker :=
  let inner := c.scopes.size
  let ready := (do
    let _ ← checkOptionalStmt inner init
    let _ ← optionalCondition cond inner
    optionalEffect step inner : CheckM Bool).exec (c.inBlock scope "loop")
  { ready with walk := ready.walk.enterLoop }

/-- The state in which the statements of a function's body begin. -/
def inBody (c : Checker) (parent : ScopeId) (name : String) (f : FnDecl) (sig : Signature) :
    Checker :=
  (declareParams f.takesOwnership c.scopes.size f.params sig.params).exec
    (c.enteredBody parent name (f.frame sig name))

end Checker

/-- While a statement is checked in a scope, starting from the state `c`, a block is come to in some
state, to be checked in a new scope inside `parent`. -/
inductive Stmt.ComesToBlock (scope : ScopeId) (c : Checker) :
    Stmt → Checker → ScopeId → String → Block → Prop where
  | block {span body} : ComesToBlock scope c ⟨span, .block body⟩ c scope "block" body
  | branch {span before cond body after otherwise} :
      ComesToBlock scope c ⟨span, .conditional (before ++ (cond, body) :: after) otherwise⟩
        ((condition cond scope).exec ((checkBranches scope "if" before).exec c))
        scope (if before.isEmpty then "if" else "elif") body
  | otherwise {span branches body} :
      ComesToBlock scope c ⟨span, .conditional branches (some body)⟩
        ((checkBranches scope "if" branches).exec c) scope "else" body
  | loop {span init cond step body} :
      ComesToBlock scope c ⟨span, .loop init cond step body⟩
        (c.inLoop scope init cond step) c.scopes.size "loop body" body
  | case {span scrutinee before span' values body after otherwise ty} :
      (scrutinee.check scope).eval c = ty →
      ComesToBlock scope c
        ⟨span, .switch scrutinee (before ++ ⟨span', values, body⟩ :: after) otherwise⟩
        ((caseValues ty scope values).exec
          ((checkCases scope ty before).exec ((scrutinee.check scope).exec c)))
        scope "case" body
  | default {span scrutinee cases body ty} :
      (scrutinee.check scope).eval c = ty →
      ComesToBlock scope c ⟨span, .switch scrutinee cases (some body)⟩
        ((checkCases scope ty cases).exec ((scrutinee.check scope).exec c)) scope "default" body

/-- While a statement is checked in a scope, starting from the state `c`, the body of a function or
method is come to in some state, with its types worked out. -/
inductive Stmt.ComesToBody (scope : ScopeId) (c : Checker) :
    Stmt → Checker → String → FnDecl → Signature → Prop where
  | fn {span decl sig} :
      (fnDecl decl span scope).eval c = some sig →
      ComesToBody scope c ⟨span, .fn decl⟩ ((fnDecl decl span scope).exec c) decl.name decl sig
  | method {span decl head before span' f after signatures sig signatures'} :
      (structDecl decl span scope).eval c = some head →
      decl.methods = before ++ ⟨span', f⟩ :: after →
      head.signatures = signatures ++ some sig :: signatures' →
      before.length = signatures.length →
      ComesToBody scope c ⟨span, .struct decl⟩
        ((checkMethods scope decl.name before signatures).exec
          ((structDecl decl span scope).exec c))
        s!"{decl.name}.{f.name}" f sig

/-- In the state, a check has come to statements of a scope and is to go through them. -/
inductive Checker.Awaits : ScopeId → List Stmt → Checker → Prop where
  /-- Between calls, anything may be asked for next, also nothing. -/
  | call {c} (scope : ScopeId) (ss : List Stmt) : c.Session → Awaits scope ss c
  | next {scope s ss c} : Awaits scope (s :: ss) c → Awaits scope ss ((s.check scope).exec c)
  | block {scope s ss c d parent name body} : Awaits scope (s :: ss) c →
      s.ComesToBlock scope c d parent name body →
      Awaits d.scopes.size body.stmts (d.inBlock parent name)
  | body {scope s ss c d name f sig} : Awaits scope (s :: ss) c →
      s.ComesToBody scope c d name f sig →
      Awaits d.scopes.size f.body.stmts (d.inBody scope name f sig)
  | init {scope span s cond step body ss c} :
      Awaits scope (⟨span, .loop (some s) cond step body⟩ :: ss) c →
      Awaits c.scopes.size [s] (c.inBlock scope "loop")
  | deferred {scope span s ss c} : Awaits scope (⟨span, .defer s⟩ :: ss) c →
      Awaits scope [s] { c with walk := c.walk.enterDefer scope }

/-! ### In all these states types are in order -/

namespace Checker

variable {c : Checker}

/-- All types that the state holds are known, and the names of structs stand for finalized
definitions. -/
structure Sound (c : Checker) : Prop where
  wellTyped : c.WellTyped
  settled : c.Settled

theorem PassStep.keeps {P : Checker → Prop} (hP : Resolver.ModuleInvariant P) {d : Checker}
    (hstep : PassStep c d) (h : P c) : P d := by
  cases hstep with
  | enter m => exact hP.enter m h
  | report cause span => exact hP.report cause span h
  | addModule hscopes => exact hP.addModule h hscopes
  | addImport hscopes => exact hP.addImport h hscopes
  | check m scope => exact hP.check m scope trivial h

namespace Sound

variable {c : Checker}

variable (h : c.Sound)

include h

theorem setWalk {walk : Walk} (hwalk : ∀ f ∈ walk.frames, f.returnType.KnownIn c.structs) :
    { c with walk }.Sound :=
  ⟨h.wellTyped.setWalk hwalk, h.settled.congr rfl rfl⟩

/-- A part of the check that is in step with itself. -/
theorem exec {α : Type} {A : α → α → Prop} {m : CheckM α} {failed : α → Prop}
    {good : StructTable → α → Prop} (hm : Judged c c m failed good) (scope : ScopeId)
    (hstep : ∀ {R}, Lockstep (.same (fun _ => True) fun _ => True) R →
      InStep (R [⟨scope, false⟩] [⟨scope, false⟩]) A m m) : (m.exec c).Sound :=
  ⟨hm.account.wellTyped, Settled.stmtInvariant.keeps scope hstep h.settled⟩

theorem stmt (s : Stmt) (scope : ScopeId) : ((s.check scope).exec c).Sound :=
  h.exec (passes_stmt scope s h.wellTyped) scope fun hR => hR.inStep_stmt s fun _ _ => trivial

theorem expr (e : Expr) (scope : ScopeId) : ((e.check scope).exec c).Sound :=
  h.exec (typed_expr scope e h.wellTyped) scope fun hR => hR.expr.inStep_expr e fun _ _ => trivial

theorem branches (scope : ScopeId) (name : String) (branches : List (Expr × Block)) :
    ((checkBranches scope name branches).exec c).Sound :=
  h.exec (passes_branches scope name branches h.wellTyped) scope fun hR =>
    hR.inStep_branches name branches fun _ _ => trivial

theorem cases (scope : ScopeId) (expected : Option Ty) (cases : List SwitchCase) :
    ((checkCases scope expected cases).exec c).Sound :=
  h.exec (judged_cases scope expected cases h.wellTyped) scope fun hR =>
    hR.inStep_cases (sameOption expected) cases fun _ _ => trivial

theorem inBlock (parent : ScopeId) (name : String) : (c.inBlock parent name).Sound :=
  ⟨(judged_addBlock (.refl h.wellTyped) parent name).account.wellTyped,
    Settled.stmtInvariant.addBlock parent name h.settled⟩

theorem inLoop (scope : ScopeId) (init : Option Stmt) (cond step : Option Expr) :
    (c.inLoop scope init cond step).Sound := by
  have hinner := h.inBlock scope "loop"
  have hinit := hinner.exec (passes_optionalStmt c.scopes.size init hinner.wellTyped) _
    fun hR => hR.inStep_optionalStmt init fun _ _ => trivial
  have hcond := hinit.exec (passes_optionalCondition c.scopes.size hinit.wellTyped cond) _
    fun hR => hR.expr.inStep_optionalCondition cond fun _ _ => trivial
  have hstep := hcond.exec (passes_optionalEffect c.scopes.size hcond.wellTyped step) _
    fun hR => hR.expr.inStep_optionalEffect step fun _ _ => trivial
  exact hstep.setWalk hstep.wellTyped.frames

/-- The frame of a function with known types may be entered, and its parameters declared. -/
theorem inBody (hsig : sig.ty.KnownIn c.structs) (parent : ScopeId) (name : String) (f : FnDecl) :
    (c.inBody parent name f sig).Sound := by
  have hscope : ((addFunction parent name).exec c).Sound :=
    ⟨(judged_addFunction (.refl h.wellTyped) parent name).account.wellTyped,
      Settled.stmtInvariant.addFunction parent name h.settled⟩
  have hentered : (c.enteredBody parent name (f.frame sig name)).Sound :=
    hscope.setWalk (List.forall_mem_cons.mpr ⟨hsig.ret, h.wellTyped.frames⟩)
  exact hentered.exec
    (passes_declareParams c.scopes.size f.takesOwnership f.params sig.params hentered.wellTyped
      hsig.params) _
    fun hR => hR.inStep_declareParams f.takesOwnership f.params (Pairing.same_tys _ _ sig.params)

end Sound

theorem Session.sound (h : c.Session) : c.Sound := by
  induction h with
  | start config => exact ⟨.ofConfig config, .ofConfig config⟩
  | resolve p _ ih =>
    exact ⟨resolve_invariant WellTyped.moduleInvariant ih.wellTyped p,
      resolve_invariant Settled.moduleInvariant ih.settled p⟩
  | stmt s scope _ ih => exact ih.stmt s scope
  | expr e scope _ ih => exact ih.expr e scope
  | pass hstep _ ih =>
    exact ⟨hstep.keeps WellTyped.moduleInvariant ih.wellTyped,
      hstep.keeps Settled.moduleInvariant ih.settled⟩

end Checker

theorem Stmt.ComesToBlock.sound {parent : ScopeId} {c d : Checker} {s : Stmt} {body : Block}
    (hcomes : s.ComesToBlock scope c d parent name body) (h : c.Sound) : d.Sound := by
  cases hcomes with
  | block => exact h
  | @branch _ before cond _ _ _ =>
    have hbefore := h.branches scope "if" before
    exact hbefore.exec (passes_condition scope hbefore.wellTyped cond) scope fun hR =>
      hR.expr.inStep_condition cond fun _ _ => trivial
  | otherwise => exact h.branches scope "if" _
  | loop => exact h.inLoop scope _ _ _
  | @case _ scrutinee before _ values _ _ _ ty _ =>
    have hbefore := (h.expr scrutinee scope).cases scope ty before
    exact hbefore.exec (judged_caseValues scope ty values hbefore.wellTyped) scope fun hR =>
      hR.expr.inStep_caseValues (sameOption ty) values fun _ _ => trivial
  | default => exact (h.expr _ scope).cases scope _ _

theorem Stmt.ComesToBody.sound {c d : Checker} {s : Stmt} {f : FnDecl}
    (hcomes : s.ComesToBody scope c d name f sig) (h : c.Sound) :
    d.Sound ∧ sig.ty.KnownIn d.structs := by
  cases hcomes with
  | @fn span _ _ hsig =>
    have hdecl := yields_fnDecl span scope h.wellTyped f
    have hsound := h.exec hdecl scope fun hR =>
      hR.inStep_fnDecl f (fun _ _ => trivial) (fun _ _ => trivial) span
    exact ⟨hsound, hdecl.good sig hsig⟩
  | @method span decl head before _ _ _ signatures _ _ hhead _ hsignatures _ =>
    have hdecl := judged_structDecl span scope h.wellTyped decl
    have hstruct : ((structDecl decl span scope).exec c).Sound :=
      ⟨hdecl.account.wellTyped, h.settled.structDecl decl span scope⟩
    have hknown := hdecl.good head hhead
    rw [hsignatures] at hknown
    have hmethods := passes_methods scope decl.name before signatures hstruct.wellTyped
      fun sig hsig => hknown sig (List.mem_append_left _ hsig)
    refine ⟨hstruct.exec hmethods scope fun hR => hR.inStep_methods decl.name before
      (fun _ _ => trivial) (List.forall₂_same.mpr fun sig _ => ?_), ?_⟩
    · exact .refl (fun sig => ⟨Pairing.same_tys _ _ sig.params, Pairing.same_ty _ _ sig.ret⟩) sig
    · exact (hknown sig (List.mem_append_right _ List.mem_cons_self)).mono hmethods.extend

theorem Checker.Awaits.sound {ss : List Stmt} {c : Checker} (h : c.Awaits scope ss) : c.Sound := by
  induction h with
  | call scope ss h => exact h.sound
  | next _ ih => exact ih.stmt _ _
  | block _ hcomes ih => exact (hcomes.sound ih).inBlock _ _
  | body _ hcomes ih =>
    obtain ⟨hsound, hsig⟩ := hcomes.sound ih
    exact hsound.inBody hsig _ _ _
  | init _ ih => exact ih.inBlock _ _
  | deferred _ ih => exact ih.setWalk ih.wellTyped.frames

/-- **Types stay well formed.** Wherever a check stands between two statements, at any depth, every
struct that is mentioned in a type it holds is in the table under its name, and every symbol that
names a struct leads to a finalized definition. -/
theorem types_stay_well_formed {c : Checker} {scope : ScopeId} {ss : List Stmt}
    (h : c.Awaits scope ss) : c.TypesWellFormed ∧ c.Settled :=
  ⟨h.sound.wellTyped.typesWellFormed, h.sound.settled⟩

/-- A list that points to its own type, with a method that returns the rest of the list. -/
def listNode : StructDecl :=
  let pointer : TypeExpr := .pointer {} (.named {} none "Node")
  let cursor : Stmt := ⟨{}, .struct ⟨"Cursor", false, [{ name := "at", ty := pointer }], []⟩⟩
  let rest : Stmt := ⟨{}, .ret (some ⟨1, {}, .member ⟨0, {}, .ident "self"⟩ "next"⟩)⟩
  ⟨"Node", false, [{ name := "next", ty := pointer }],
    [⟨{}, "tail", [{ name := "self", ty := pointer }], pointer, ⟨{}, [cursor, rest]⟩, false, false,
      false⟩]⟩

/-- In the method, when its own struct has been declared and its result is next: two structs are in
the table, and the function around returns a pointer to the first one. -/
theorem types_stay_well_formed_in_method :
    ∃ (c : Checker) (s : Stmt), c.Awaits 1 [s] ∧
      c.structs.defs.toList.map (·.name) = ["Node", "Cursor"] ∧
      c.walk.frames.map (·.returnType) = [.pointer (.struct 0 "Node")] ∧
      c.TypesWellFormed ∧ c.Settled := by
  have hcalled : (Checker.ofConfig {}).Awaits 0 [⟨{}, .struct listNode⟩] := .call _ _ (.start {})
  have hcomes : Stmt.ComesToBody 0 (.ofConfig {}) ⟨{}, .struct listNode⟩
      ((checkMethods 0 "Node" [] []).exec ((structDecl listNode {} 0).exec (.ofConfig {})))
      _ _ ⟨[.pointer (.struct 0 "Node")], .pointer (.struct 0 "Node")⟩ := .method rfl rfl rfl rfl
  have hnext := (hcalled.body hcomes).next
  exact ⟨_, _, hnext, rfl, rfl, types_stay_well_formed hnext⟩

end Warden
