import Mathlib.Data.List.Forall2
import Warden.Syntax.Builder
import Warden.Syntax.Numbering

/-!
# The lines of numbered syntax

`Module.numbered` walks over a module with the next free line in hand. What becomes of a node is
seen from the list of all nodes in the order in which they are written (`stmtMarks`), where each
node stands with its span and with what its line goes by: it has a line of its own, it shares the
line of the statement that it belongs to, or it takes the line of what it stands in.

`Laid` says what numbering does to a piece of syntax, and one induction over the syntax proves it:

* Each node becomes what `Mark.Numbered` says, and none is left without a line. A node that has a
  line keeps its span, unless it shares its parent's line: then the parent has the say.
* If no node had a line, the nodes with lines of their own are counted through. The numbering of a
  statement that shares a line starts over from that line, but nothing has been numbered in between.
* If all nodes had lines and the shared ones stood where their parents are, nothing changes.
-/

namespace Warden

/-! ### The nodes of syntax -/

/-- A node with its span, by what its line goes by. -/
inductive Mark where
  /-- A statement, field, method or case with a line of its own. -/
  | own (span : Span)
  /-- The first statement in the head of a loop, or the statement under a `defer`. The statement
  that it belongs to is on line `parent`. -/
  | shared (parent : Nat) (span : Span)
  /-- An expression, type or parameter. The nearest node around that has a line of its own is on
  line `host`. -/
  | inside (host : Nat) (span : Span)
  | block (span : Span)

def Mark.span : Mark → Span
  | .own span | .shared _ span | .inside _ span | .block span => span

section

variable (host : Nat)

mutual

def TypeExpr.marks : TypeExpr → List Mark
  | .named span _ _ => [.inside host span]
  | .pointer span pointee => .inside host span :: pointee.marks
  | .array span element none => .inside host span :: element.marks
  | .array span element (some size) => .inside host span :: (element.marks ++ size.marks)
  | .function span params ret => .inside host span :: (typeMarks params ++ ret.marks)

def typeMarks : List TypeExpr → List Mark
  | [] => []
  | t :: ts => t.marks ++ typeMarks ts

def Expr.marks : Expr → List Mark
  | ⟨_, span, kind⟩ => .inside host span :: kind.marks

def ExprKind.marks : ExprKind → List Mark
  | .int _ | .float _ | .bool _ | .char _ | .str _ | .ident _ | .qualified .. => []
  | .binary _ lhs rhs => lhs.marks ++ rhs.marks
  | .unary _ operand => operand.marks
  | .call callee args => callee.marks ++ exprMarks args
  | .member object _ => object.marks
  | .index object index => object.marks ++ index.marks
  | .assign target value => target.marks ++ value.marks
  | .range start stop => start.marks ++ stop.marks
  | .structLit _ _ fields => fieldMarks fields
  | .arrayLit elements => exprMarks elements
  | .cast ty value => ty.marks ++ value.marks
  | .sizeOfType ty => ty.marks

def exprMarks : List Expr → List Mark
  | [] => []
  | e :: es => e.marks ++ exprMarks es

def fieldMarks : List (String × Expr) → List Mark
  | [] => []
  | (_, e) :: fields => e.marks ++ fieldMarks fields

end

def optionalTypeMarks : Option TypeExpr → List Mark
  | none => []
  | some ty => ty.marks host

def optionalExprMarks : Option Expr → List Mark
  | none => []
  | some e => e.marks host

def paramMarks : List Param → List Mark
  | [] => []
  | p :: ps => .inside host p.span :: (p.ty.marks host ++ paramMarks ps)

end

def fieldDeclMarks : List FieldDecl → List Mark
  | [] => []
  | f :: fs => .own f.span :: (f.ty.marks f.span.line ++ fieldDeclMarks fs)

mutual

def Stmt.marks : Stmt → List Mark
  | ⟨span, kind⟩ => .own span :: kind.marks span.line span.line

def Stmt.sharedMarks (host parent : Nat) : Stmt → List Mark
  | ⟨span, kind⟩ => .shared parent span :: kind.marks host span.line

/-- What stands in a statement on line `line`. -/
def StmtKind.marks (host line : Nat) : StmtKind → List Mark
  | .var decl => optionalTypeMarks host decl.ty ++ optionalExprMarks host decl.value
  | .fn decl => decl.marks host
  | .struct decl => decl.marks
  | .enum _ | .importModule .. | .breakLoop | .continueLoop => []
  | .ret value => optionalExprMarks host value
  | .conditional branches none => branchMarks host branches
  | .conditional branches (some block) => branchMarks host branches ++ block.marks
  | .loop none cond step body =>
    optionalExprMarks host cond ++ (optionalExprMarks host step ++ body.marks)
  | .loop (some init) cond step body =>
    init.sharedMarks host line ++
      (optionalExprMarks host cond ++ (optionalExprMarks host step ++ body.marks))
  | .switch scrutinee cases none => scrutinee.marks host ++ caseMarks cases
  | .switch scrutinee cases (some block) => scrutinee.marks host ++ (caseMarks cases ++ block.marks)
  | .defer stmt => stmt.sharedMarks host line
  | .block block => block.marks
  | .expr e => e.marks host

def Block.marks : Block → List Mark
  | ⟨span, stmts⟩ => .block span :: stmtMarks stmts

def stmtMarks : List Stmt → List Mark
  | [] => []
  | s :: ss => s.marks ++ stmtMarks ss

def branchMarks (host : Nat) : List (Expr × Block) → List Mark
  | [] => []
  | (cond, block) :: branches => cond.marks host ++ (block.marks ++ branchMarks host branches)

def caseMarks : List SwitchCase → List Mark
  | [] => []
  | ⟨span, values, body⟩ :: cases =>
    .own span :: (exprMarks span.line values ++ (body.marks ++ caseMarks cases))

def FnDecl.marks (host : Nat) : FnDecl → List Mark
  | ⟨_, params, returnType, body, _, _, _⟩ =>
    paramMarks host params ++ (returnType.marks host ++ body.marks)

def StructDecl.marks : StructDecl → List Mark
  | ⟨_, _, fields, methods⟩ => fieldDeclMarks fields ++ methodMarks methods

def methodMarks : List MethodDecl → List Mark
  | [] => []
  | ⟨span, decl⟩ :: methods => .own span :: (decl.marks span.line ++ methodMarks methods)

end

/-! ### What numbering does -/

namespace Span

theorem orAt_of_isPlaced {s : Span} (h : s.isPlaced = true) (place : Span) : s.orAt place = s :=
  if_pos h

theorem orAt_of_line_eq_zero {s : Span} (h : s.line = 0) (place : Span) : s.orAt place = place :=
  if_neg (by simp [isPlaced, h])

theorem line_orAt_pos (s : Span) {place : Span} (h : 0 < place.line) : 0 < (s.orAt place).line := by
  by_cases hs : s.line = 0
  · rwa [orAt_of_line_eq_zero hs]
  · rw [orAt_of_isPlaced (by simpa [isPlaced] using hs)]
    exact Nat.pos_of_ne_zero hs

end Span

namespace Mark

/-- What numbering makes of a node. -/
inductive Numbered : Mark → Mark → Prop where
  | own {span place} : place.line ≠ 0 → Numbered (.own span) (.own (span.orAt place))
  | shared {parent' span parent} : parent ≠ 0 →
      Numbered (.shared parent' span) (.shared parent (.point parent 1))
  | inside {host span} {place : Span} : place.line ≠ 0 →
      Numbered (.inside host span) (.inside place.line (span.orAt place))
  | block {span place} : place.line ≠ 0 → Numbered (.block span) (.block (span.orAt place))

/-- The node has a place that numbering does not change. -/
def Settled : Mark → Prop
  | .shared parent span => span = .point parent 1
  | .own span | .inside _ span | .block span => span.isPlaced = true

def ownLine? : Mark → Option Nat
  | .own span => some span.line
  | .shared .. | .inside .. | .block _ => none

end Mark

/-- The lines of the nodes that have lines of their own. -/
def ownLines (marks : List Mark) : List Nat :=
  marks.filterMap Mark.ownLine?

/-- From the next free line `n` to the next free line `m`, numbering has gone from one list of nodes
to another. If the lines are `fresh` and no node had one, the nodes with lines of their own are
counted from `n` on. If all nodes were settled and what is around stays `still`, it is the same
syntax. -/
structure Laid (fresh still : Prop) (n m : Nat) (old new : List Mark) (same : Prop) : Prop where
  pos : 0 < n
  le : n ≤ m
  each : List.Forall₂ Mark.Numbered old new
  counted : fresh → (∀ a ∈ old, a.span.line = 0) → ownLines new = List.range' n (m - n)
  fixed : still → (∀ a ∈ old, a.Settled) → same

namespace Laid

variable {fresh still fresh' still' : Prop} {n m k line : Nat} {old new old' new' : List Mark}
  {same same' both : Prop}

theorem nil (hn : 0 < n) (h : same) : Laid fresh still n n [] [] same :=
  ⟨hn, Nat.le_refl n, .nil, fun _ _ => by simp [ownLines], fun _ _ => h⟩

section

variable (h : Laid fresh still n m old new same)

include h

/-- One piece after the other. The first may tell that the second is fresh and stays still. -/
theorem andThen (h' : 0 < m → Laid fresh' still' m k old' new' same')
    (hfresh : (∀ a ∈ old, a.span.line = 0) → fresh → fresh')
    (hstill : (∀ a ∈ old, a.Settled) → still → still') (hboth : same → same' → both) :
    Laid fresh still n k (old ++ old') (new ++ new') both := by
  have hrest := h' (Nat.lt_of_lt_of_le h.pos h.le)
  refine ⟨h.pos, Nat.le_trans h.le hrest.le, List.rel_append h.each hrest.each, fun hp hnew => ?_,
    fun hq hsettled => ?_⟩
  · rw [List.forall_mem_append] at hnew
    have hjoin : List.range' n (m - n) ++ List.range' m (k - m) = List.range' n (k - n) := by
      have hm : n + (m - n) = m := Nat.add_sub_cancel' h.le
      have hk : m - n + (k - m) = k - n := by have := h.le; have := hrest.le; omega
      rw [← hk, ← List.range'_append_1, hm]
    rw [ownLines, List.filterMap_append, ← hjoin]
    exact congrArg₂ _ (h.counted hp hnew.1) (hrest.counted (hfresh hnew.1 hp) hnew.2)
  · rw [List.forall_mem_append] at hsettled
    exact hboth (h.fixed hq hsettled.1) (hrest.fixed (hstill hsettled.1 hq) hsettled.2)

theorem append (h' : 0 < m → Laid fresh still m k old' new' same') (hboth : same → same' → both) :
    Laid fresh still n k (old ++ old') (new ++ new') both :=
  h.andThen h' (fun _ => id) (fun _ => id) hboth

theorem map (hsame : same → same') : Laid fresh still n m old new same' :=
  ⟨h.pos, h.le, h.each, h.counted, fun hq hsettled => hsame (h.fixed hq hsettled)⟩

end

/-- A node by itself. If it has a line of its own, it takes the next one. -/
theorem one {a b : Mark} {span place : Span} (hn : 0 < n) (hm : n ≤ m) (hnumbered : a.Numbered b)
    (hcounted : a.span.line = 0 → ownLines [b] = List.range' n (m - n))
    (hsettled : a.Settled → span.isPlaced = true) :
    Laid fresh still n m [a] [b] (span.orAt place = span) :=
  ⟨hn, hm, .cons hnumbered .nil, fun _ hnew => hcounted (hnew a (.head _)),
    fun _ h => Span.orAt_of_isPlaced (hsettled (h a (.head _))) place⟩

theorem inside {span place : Span} (hn : 0 < n) (hline : 0 < line) (hplace : place.line = line)
    (host : Nat) : Laid fresh still n n [.inside host span] [.inside line (span.orAt place)]
      (span.orAt place = span) := by
  subst hplace
  exact one hn (Nat.le_refl n) (.inside (Nat.ne_of_gt hline))
    (fun _ => by simp [ownLines, Mark.ownLine?]) id

/-- A block stands where its first statement will be. -/
theorem block (span : Span) (hn : 0 < n) :
    Laid fresh still n n [.block span] [.block (span.orAt (.point n 1))]
      (span.orAt (.point n 1) = span) :=
  one hn (Nat.le_refl n) (.block (Nat.ne_of_gt hn)) (fun _ => by simp [ownLines, Mark.ownLine?]) id

theorem own {span : Span} (hn : 0 < n) (hm : n ≤ m) (hfree : span.line = 0 → m = n + 1) :
    Laid fresh still n m [.own span] [.own (span.orAt (.point n 1))]
      (span.orAt (.point n 1) = span) := by
  refine one hn hm (.own (Nat.ne_of_gt hn)) (fun (hline : span.line = 0) => ?_) id
  rw [Span.orAt_of_line_eq_zero hline, hfree hline, Nat.add_sub_cancel_left]
  rfl

end Laid

/-- The action lays out a piece of syntax: what it returns is the same piece with lines. -/
def Numbering.Lays {α : Type} (action : Numbering α) (old : List Mark) (marks : α → List Mark)
    (x : α) : Prop :=
  ∀ {fresh still : Prop} {n : Nat}, 0 < n →
    Laid fresh still n (action.run n).2 old (marks (action.run n).1) ((action.run n).1 = x)

/-! ### Expressions, types and parameters -/

section

variable {line : Nat} (hline : 0 < line) (host : Nat)

/-- What takes the line of what it stands in is put there without asking for a line. -/
def LaysOn (line host : Nat) {α : Type} (marks : Nat → α → List Mark) (x x' : α) : Prop :=
  Numbering.Lays (pure x') (marks host x) (marks line) x

include hline

set_option linter.unusedSectionVars false

mutual

theorem laid_type : (t : TypeExpr) → LaysOn line host TypeExpr.marks t (t.placed line)
  | .named _ module name => fun hn =>
    (Laid.inside hn hline rfl host).map (congrArg (TypeExpr.named · module name))
  | .pointer _ pointee => fun hn =>
    (Laid.inside hn hline rfl host).append (laid_type pointee) (congrArg₂ TypeExpr.pointer)
  | .array _ element none => fun hn =>
    (Laid.inside hn hline rfl host).append (laid_type element)
      (congrArg₂ (TypeExpr.array · · none))
  | .array _ element (some size) => fun hn =>
    (Laid.inside hn hline rfl host).append
      (fun hn => (laid_type element hn).append (laid_expr size) (congrArg₂ Prod.mk))
      (congrArg₂ fun span (x : _ × _) => TypeExpr.array span x.1 (some x.2))
  | .function _ params ret => fun hn =>
    (Laid.inside hn hline rfl host).append
      (fun hn => (laid_types params hn).append (laid_type ret) (congrArg₂ Prod.mk))
      (congrArg₂ fun span (x : _ × _) => TypeExpr.function span x.1 x.2)

theorem laid_types : (ts : List TypeExpr) → LaysOn line host typeMarks ts (placedTypes line ts)
  | [] => fun hn => .nil hn rfl
  | t :: ts => fun hn => (laid_type t hn).append (laid_types ts) (congrArg₂ List.cons)

theorem laid_expr : (e : Expr) → LaysOn line host Expr.marks e (e.placed line)
  | ⟨id, span, kind⟩ => fun hn =>
    (Laid.inside hn hline (by cases kind <;> rfl) host).append (laid_kind kind)
      (congrArg₂ (Expr.mk id))

theorem laid_kind : (kind : ExprKind) → LaysOn line host ExprKind.marks kind (kind.placed line)
  | .int _ | .float _ | .bool _ | .char _ | .str _ | .ident _ | .qualified .. => fun hn =>
    .nil hn rfl
  | .binary op lhs rhs => fun hn =>
    (laid_expr lhs hn).append (laid_expr rhs) (congrArg₂ (ExprKind.binary op))
  | .unary op operand => fun hn => (laid_expr operand hn).map (congrArg (ExprKind.unary op))
  | .call callee args => fun hn =>
    (laid_expr callee hn).append (laid_exprs args) (congrArg₂ ExprKind.call)
  | .member object member => fun hn =>
    (laid_expr object hn).map (congrArg (ExprKind.member · member))
  | .index object index => fun hn =>
    (laid_expr object hn).append (laid_expr index) (congrArg₂ ExprKind.index)
  | .assign target value => fun hn =>
    (laid_expr target hn).append (laid_expr value) (congrArg₂ ExprKind.assign)
  | .range start stop => fun hn =>
    (laid_expr start hn).append (laid_expr stop) (congrArg₂ ExprKind.range)
  | .structLit module name fields => fun hn =>
    (laid_fields fields hn).map (congrArg (ExprKind.structLit module name))
  | .arrayLit elements => fun hn => (laid_exprs elements hn).map (congrArg ExprKind.arrayLit)
  | .cast ty value => fun hn =>
    (laid_type ty hn).append (laid_expr value) (congrArg₂ ExprKind.cast)
  | .sizeOfType ty => fun hn => (laid_type ty hn).map (congrArg ExprKind.sizeOfType)

theorem laid_exprs : (es : List Expr) → LaysOn line host exprMarks es (placedExprs line es)
  | [] => fun hn => .nil hn rfl
  | e :: es => fun hn => (laid_expr e hn).append (laid_exprs es) (congrArg₂ List.cons)

theorem laid_fields :
    (fields : List (String × Expr)) → LaysOn line host fieldMarks fields (placedFields line fields)
  | [] => fun hn => .nil hn rfl
  | (name, e) :: fields => fun hn =>
    (laid_expr e hn).append (laid_fields fields) (congrArg₂ fun e fields => (name, e) :: fields)

end

theorem laid_optionalType (ty : Option TypeExpr) :
    LaysOn line host optionalTypeMarks ty (ty.map (·.placed line)) := by
  cases ty with
  | none => exact fun hn => .nil hn rfl
  | some ty => exact fun hn => (laid_type hline host ty hn).map (congrArg some)

theorem laid_optionalExpr (e : Option Expr) :
    LaysOn line host optionalExprMarks e (e.map (·.placed line)) := by
  cases e with
  | none => exact fun hn => .nil hn rfl
  | some e => exact fun hn => (laid_expr hline host e hn).map (congrArg some)

theorem laid_params : (ps : List Param) → LaysOn line host paramMarks ps (ps.map (·.placed line))
  | [] => fun hn => .nil hn rfl
  | p :: ps => fun hn =>
    (Laid.inside hn hline rfl host).append
      (fun hn => (laid_type hline host p.ty hn).append (laid_params ps) (congrArg₂ Prod.mk))
      (congrArg₂ fun span (x : _ × _) => { p with span, ty := x.1 } :: x.2)

end

/-! ### Statements -/

/-- A field, method or case claims its line. -/
theorem lays_claimLine (span : Span) {n : Nat} (hn : 0 < n) :
    0 < ((Numbering.claimLine span).run n).1.line ∧
      (Numbering.claimLine span).Lays [.own span] (fun span => [.own span]) span := by
  have hrun (n : Nat) : (Numbering.claimLine span).run n =
      (span.orAt (.point n 1), if span.isPlaced then n else n + 1) := by
    unfold Numbering.claimLine Span.orAt
    split <;> rfl
  refine ⟨?_, fun {fresh still n} hn => ?_⟩
  · rw [hrun]
    exact span.line_orAt_pos hn
  · rw [hrun]
    refine .own hn ?_ fun hline => if_neg (by simp [Span.isPlaced, hline])
    dsimp only
    split <;> omega

theorem lays_fieldDecls :
    (fs : List FieldDecl) → (numberedFields fs).Lays (fieldDeclMarks fs) fieldDeclMarks fs
  | [] => fun hn => .nil hn rfl
  | f :: fs => fun hn =>
    have ⟨hline, hspan⟩ := lays_claimLine f.span hn
    (hspan hn).append
      (fun hn =>
        (laid_type hline f.span.line f.ty hn).append (lays_fieldDecls fs) (congrArg₂ Prod.mk))
      (congrArg₂ fun span (x : _ × _) => { f with span, ty := x.1 } :: x.2)

/-- What stands in a statement is laid out once the statement has got its line, or shares one. The
lines are fresh if nothing has been numbered since. -/
def KindLays (kind : StmtKind) : Prop :=
  ∀ {line n : Nat} (host line' : Nat), 0 < line → 0 < n →
    Laid (n = line + 1) (line' = line) n ((kind.numbered line).run n).2 (kind.marks host line')
      (((kind.numbered line).run n).1.marks line line) (((kind.numbered line).run n).1 = kind)

theorem lays_stmt {span : Span} {kind : StmtKind} (h : KindLays kind) :
    (Stmt.numbered ⟨span, kind⟩).Lays (Stmt.marks ⟨span, kind⟩) Stmt.marks ⟨span, kind⟩ := by
  intro fresh still n hn
  have hfree (hspan : span.line = 0) :
      max n ((span.orAt (.point n 1)).line + 1) = (span.orAt (.point n 1)).line + 1 := by
    rw [Span.orAt_of_line_eq_zero hspan]
    exact Nat.max_eq_right (Nat.le_succ n)
  refine (Laid.own hn (Nat.le_max_left ..) fun hspan => ?_).andThen
    (h _ span.line (span.line_orAt_pos hn)) (fun hnew _ => ?_) (fun hsettled _ => ?_)
    (congrArg₂ Stmt.mk)
  · rw [hfree hspan, Span.orAt_of_line_eq_zero hspan]
    rfl
  · exact hfree (hnew _ (.head _))
  · rw [Span.orAt_of_isPlaced (hsettled _ (.head _))]

/-- A statement that shares a line goes on from there, and what has been claimed before stays so. -/
theorem laid_shared {span : Span} {kind : StmtKind} (h : KindLays kind) {line n : Nat}
    (host parent : Nat) (hline : 0 < line) (hn : 0 < n) :
    Laid (n = line + 1) (parent = line) n ((Stmt.numberedOn line ⟨span, kind⟩).run n).2
      (Stmt.sharedMarks host parent ⟨span, kind⟩)
      (((Stmt.numberedOn line ⟨span, kind⟩).run n).1.sharedMarks line line)
      (((Stmt.numberedOn line ⟨span, kind⟩).run n).1 = ⟨span, kind⟩) := by
  have hkind := h host span.line hline (Nat.succ_pos line)
  refine ⟨hn, Nat.le_max_right .., .cons (.shared (Nat.ne_of_gt hline)) hkind.each,
    fun hfresh hnew => ?_, fun hstill hsettled => ?_⟩
  · subst hfresh
    exact (hkind.counted rfl (List.forall_mem_cons.mp hnew).2).trans
      (congrArg (fun m => List.range' _ (m - _)) (Nat.max_eq_left hkind.le).symm)
  · subst hstill
    obtain ⟨rfl, hrest⟩ := List.forall_mem_cons.mp hsettled
    exact congrArg (Stmt.mk _) (hkind.fixed rfl hrest)

mutual

theorem lays_kind : (kind : StmtKind) → KindLays kind
  | .var decl => fun host _ hline hn =>
    (laid_optionalType hline host decl.ty hn).append
      (laid_optionalExpr hline host decl.value)
      (congrArg₂ fun ty value => StmtKind.var { decl with ty, value })
  | .fn decl => fun host _ hline hn =>
    (lays_fn hline host decl hn).map (congrArg StmtKind.fn)
  | .struct decl => fun _ _ _ hn =>
    (lays_struct decl hn).map (congrArg StmtKind.struct)
  | .enum _ | .importModule .. | .breakLoop | .continueLoop => fun _ _ _ hn =>
    .nil hn rfl
  | .ret value => fun host _ hline hn =>
    (laid_optionalExpr hline host value hn).map (congrArg StmtKind.ret)
  | .conditional branches none => fun host _ hline hn =>
    (lays_branches hline host branches hn).map
      (congrArg (StmtKind.conditional · none))
  | .conditional branches (some block) => fun host _ hline hn =>
    (lays_branches hline host branches hn).append (lays_block block)
      (congrArg₂ fun branches block => StmtKind.conditional branches (some block))
  | .loop none cond step body => fun host _ hline hn =>
    (laid_optionalExpr hline host cond hn).append (fun hn =>
      (laid_optionalExpr hline host step hn).append (lays_block body) (congrArg₂ Prod.mk))
      (congrArg₂ fun cond (x : _ × _) => StmtKind.loop none cond x.1 x.2)
  | .loop (some ⟨_, init⟩) cond step body => fun host line' hline hn =>
    (laid_shared (lays_kind init) host line' hline hn).append (fun hn =>
      (laid_optionalExpr hline host cond hn).append (fun hn =>
        (laid_optionalExpr hline host step hn).append (lays_block body) (congrArg₂ Prod.mk))
        (congrArg₂ Prod.mk))
      (congrArg₂ fun init (x : _ × _ × _) => StmtKind.loop (some init) x.1 x.2.1 x.2.2)
  | .switch scrutinee cases none => fun host _ hline hn =>
    (laid_expr hline host scrutinee hn).append (lays_cases cases)
      (congrArg₂ (StmtKind.switch · · none))
  | .switch scrutinee cases (some block) => fun host _ hline hn =>
    (laid_expr hline host scrutinee hn).append (fun hn =>
      (lays_cases cases hn).append (lays_block block) (congrArg₂ Prod.mk))
      (congrArg₂ fun scrutinee (x : _ × _) => StmtKind.switch scrutinee x.1 (some x.2))
  | .defer ⟨_, kind⟩ => fun host line' hline hn =>
    (laid_shared (lays_kind kind) host line' hline hn).map (congrArg StmtKind.defer)
  | .block block => fun _ _ _ hn =>
    (lays_block block hn).map (congrArg StmtKind.block)
  | .expr e => fun host _ hline hn =>
    (laid_expr hline host e hn).map (congrArg StmtKind.expr)

theorem lays_block : (b : Block) → b.numbered.Lays b.marks Block.marks b
  | ⟨span, stmts⟩ => fun hn =>
    (Laid.block span hn).append (lays_stmts stmts) (congrArg₂ Block.mk)

theorem lays_stmts : (ss : List Stmt) → (numberedStmts ss).Lays (stmtMarks ss) stmtMarks ss
  | [] => fun hn => .nil hn rfl
  | ⟨_, kind⟩ :: ss => fun hn =>
    (lays_stmt (lays_kind kind) hn).append (lays_stmts ss) (congrArg₂ List.cons)

theorem lays_branches {line : Nat} (hline : 0 < line) (host : Nat) :
    (branches : List (Expr × Block)) →
      (numberedBranches line branches).Lays (branchMarks host branches) (branchMarks line) branches
  | [] => fun hn => .nil hn rfl
  | (cond, block) :: branches => fun hn =>
    (laid_expr hline host cond hn).append (fun hn =>
      (lays_block block hn).append (lays_branches hline host branches) (congrArg₂ Prod.mk))
      (congrArg₂ fun cond (x : _ × _) => (cond, x.1) :: x.2)

theorem lays_cases :
    (cases : List SwitchCase) → (numberedCases cases).Lays (caseMarks cases) caseMarks cases
  | [] => fun hn => .nil hn rfl
  | ⟨span, values, body⟩ :: cases => fun hn =>
    have ⟨hline, hspan⟩ := lays_claimLine span hn
    (hspan hn).append (fun hn =>
      (laid_exprs hline span.line values hn).append (fun hn =>
        (lays_block body hn).append (lays_cases cases) (congrArg₂ Prod.mk)) (congrArg₂ Prod.mk))
      (congrArg₂ fun span (x : _ × _ × _) => SwitchCase.mk span x.1 x.2.1 :: x.2.2)

theorem lays_fn {line : Nat} (hline : 0 < line) (host : Nat) :
    (d : FnDecl) → (d.numbered line).Lays (d.marks host) (FnDecl.marks line) d
  | ⟨name, params, returnType, body, isPublic, returns, takes⟩ => fun hn =>
    (laid_params hline host params hn).append (fun hn =>
      (laid_type hline host returnType hn).append (lays_block body) (congrArg₂ Prod.mk))
      (congrArg₂ fun params (x : _ × _) =>
        FnDecl.mk name params x.1 x.2 isPublic returns takes)

theorem lays_struct : (d : StructDecl) → d.numbered.Lays d.marks StructDecl.marks d
  | ⟨name, isPublic, fields, methods⟩ => fun hn =>
    (lays_fieldDecls fields hn).append (lays_methods methods)
      (congrArg₂ (StructDecl.mk name isPublic))

theorem lays_methods : (methods : List MethodDecl) →
      (numberedMethods methods).Lays (methodMarks methods) methodMarks methods
  | [] => fun hn => .nil hn rfl
  | ⟨span, decl⟩ :: methods => fun hn =>
    have ⟨hline, hspan⟩ := lays_claimLine span hn
    (hspan hn).append (fun hn =>
      (lays_fn hline span.line decl hn).append (lays_methods methods) (congrArg₂ Prod.mk))
      (congrArg₂ fun span (x : _ × _) => MethodDecl.mk span x.1 :: x.2)

end

/-! ### Modules -/

namespace Mark

/-- Where a node takes its line from another one, it is on that line. -/
def Follows : Mark → Prop
  | .shared parent span => span.line = parent
  | .inside host span => span.line = host
  | .own _ | .block _ => True

namespace Numbered

variable {a b : Mark}

theorem settled (h : a.Numbered b) : b.Settled := by
  cases h with
  | shared => rfl
  | own h | inside h | block h =>
    simpa [Settled, Span.isPlaced] using Nat.ne_of_gt (Span.line_orAt_pos _ (Nat.pos_of_ne_zero h))

theorem line_ne_zero (h : a.Numbered b) : b.span.line ≠ 0 := by
  have hsettled := h.settled
  cases h with
  | shared h => exact h
  | own | inside | block => simpa [Settled, Span.isPlaced, span] using hsettled

theorem follows (h : a.Numbered b) (ha : a.span.line = 0) : b.Follows := by
  cases h with
  | own | block => trivial
  | shared => rfl
  | inside => exact congrArg Span.line (Span.orAt_of_line_eq_zero ha _)

end Numbered

end Mark

theorem length_ownLines {old new : List Mark} (h : List.Forall₂ Mark.Numbered old new) :
    (ownLines new).length = (ownLines old).length := by
  induction h with
  | nil => rfl
  | cons h _ ih => cases h <;> simpa [ownLines, Mark.ownLine?, List.filterMap_cons] using ih

/-- **Lines are consecutive.** Take statements of which no node has a line. In the numbered module
the nodes with lines of their own are on the lines 1, 2, 3 and so on, in the order in which they are
written, as many as there were; every other node follows the node from which it takes its line; and
no node, whatever it is, is left without a line. -/
theorem lines_are_consecutive (name : String) {body : List Stmt}
    (h : ∀ a ∈ stmtMarks body, a.span.line = 0) :
    ownLines (stmtMarks (Module.numbered name body).body) =
        List.range' 1 (ownLines (stmtMarks body)).length ∧
      List.Forall₂ (fun old new => old.Numbered new ∧ new.Follows ∧ new.span.line ≠ 0)
        (stmtMarks body) (stmtMarks (Module.numbered name body).body) := by
  have hlaid : Laid True True 1 _ _ _ _ := lays_stmts body Nat.one_pos
  have hlines := hlaid.counted trivial h
  refine ⟨?_, ?_⟩
  · rw [← length_ownLines hlaid.each, hlines, List.length_range']
    exact hlines
  · exact ((List.forall₂_and_left _ _).mpr ⟨h, hlaid.each⟩).imp fun _ _ ⟨hold, hnew⟩ =>
      ⟨hnew, hnew.follows hold, hnew.line_ne_zero⟩

/-- A loop whose head starts with a block, and a deferred block, each with a statement in it. -/
def nestedHeads : List Stmt :=
  let block : Stmt := .ofKind (.block (.ofStmts [.ofKind (.ret (some (.ofInt 1)))]))
  [.ofKind (.loop (some block) (some (.ofIdent "go")) none (.ofStmts [.ofKind (.defer block)])),
    .ofKind .breakLoop]

/-- The statement in the head of the loop is on line 2, the `defer` on line 3, the statement under
it on line 4 and the `break` on line 5. -/
theorem lines_of_nestedHeads :
    (∀ a ∈ stmtMarks nestedHeads, a.span.line = 0) ∧
      ownLines (stmtMarks (Module.numbered "main" nestedHeads).body) = [1, 2, 3, 4, 5] ∧
      List.Forall₂ (fun old new => old.Numbered new ∧ new.Follows ∧ new.span.line ≠ 0)
        (stmtMarks nestedHeads) (stmtMarks (Module.numbered "main" nestedHeads).body) := by
  have hnew : ∀ a ∈ stmtMarks nestedHeads, a.span.line = 0 := by decide
  exact ⟨hnew, lines_are_consecutive "main" hnew⟩

/-- Which nodes keep their places. Every node that has a line keeps its span, except for a statement
that shares its parent's line: it is put on that line, and keeps its span only if it was there. -/
theorem numbering_keeps_places_iff (name : String) (body : List Stmt) :
    List.Forall₂
      (fun old new => old.Numbered new ∧ (old.span.isPlaced = true →
        (new.span = old.span ↔
          ∀ parent span, new = .shared parent span → old.span = .point parent 1)))
      (stmtMarks body) (stmtMarks (Module.numbered name body).body) := by
  have hlaid : Laid True True 1 _ _ _ _ := lays_stmts body Nat.one_pos
  refine hlaid.each.imp fun old new h => ⟨h, fun hplaced => ?_⟩
  cases h with
  | own | inside | block => simpa [Mark.span] using Span.orAt_of_isPlaced hplaced _
  | shared => simp [Mark.span, eq_comm]

/-- A `break` that is pinned to line 7 and deferred on line 1. -/
def pinnedBreak : List Stmt :=
  [.ofKind (.defer ((Stmt.ofKind .breakLoop).atLine 7))]

/-- The statement has a line, but numbering moves it to the line of the `defer`. -/
theorem pinned_deferred_statement_moves :
    stmtMarks pinnedBreak = [.own {}, .shared 0 (.point 7 1)] ∧
      stmtMarks (Module.numbered "main" pinnedBreak).body =
        [.own (.point 1 1), .shared 1 (.point 1 1)] :=
  ⟨rfl, rfl⟩

end Warden
