import Warden.Proofs.Memory.Sparing
import Warden.Proofs.Visits.Basic

/-!
# What releases a record

A record stays where it was opened, so it is known by the scope of its ledger and by its position
there (`RecordId`). A release frees the record behind a name and no other, and it does not change
which record is behind which name (`Checker.freed?_release`, `Checker.recordId?_release`).

Two things in a check release records. A call releases the names that it hands over, and a call of
`free` that waits for nothing releases its argument; `Check.callEffect` is what a call does to
memory. The end of a scope (`Ending`) releases the names whose calls of `free` were put off to it.

`Explains` compares two states of a check with the calls that were visited and the scopes that ended
in between. A record that was there in the first state is freed in the second if it was before, or
if one of them released it; and the queue of a scope has grown by the calls that were put off to it.
The scopes that ended are new, and `Visit.Placed` says what a call that was visited could wait for.
-/

namespace Warden

open CheckM Check ScopeTree

variable {as : List Allocation} {span : Span} {kind : FreeKind} {name : String}

/-! ### Which ledger answers for a name -/

namespace ScopeTree

variable {t u : ScopeTree}

theorem route_congr (hknows : ∀ i, u.ledgerKnows name i = t.ledgerKnows name i)
    (hrenamed : ∀ i, u.ledgerTracksRenamed name i = t.ledgerTracksRenamed name i)
    (home : Option ScopeId) (within : Bool) (way : List ScopeId) :
    u.route name home within way = t.route name home within way := by
  induction way generalizing within with
  | nil => rfl
  | cons i way ih => rw [route, route, hknows, hrenamed, ih]

theorem ledgerOwner?_congr (hmemory : u.withoutMemory = t.withoutMemory) (scope : ScopeId) :
    u.ledgerOwner? scope = t.ledgerOwner? scope := by
  have howns : ∀ t : ScopeTree, t.ledgerOwner? scope = (t.withoutMemory.ancestors scope).find?
      fun i => (t.withoutMemory.scope i).ledger.isSome := by
    intro t
    simp [ledgerOwner?, Scope.withoutMemory]
  rw [howns, howns, hmemory]

/-- Which ledger answers for a name depends on what is declared and on which names are known. -/
theorem ledgerFor?_congr (hmemory : u.withoutMemory = t.withoutMemory)
    (hknows : ∀ i, u.ledgerKnows name i = t.ledgerKnows name i)
    (hrenamed : ∀ i, u.ledgerTracksRenamed name i = t.ledgerTracksRenamed name i)
    (scope : ScopeId) : u.ledgerFor? scope name = t.ledgerFor? scope name := by
  have hway : u.ancestors scope = t.ancestors scope := by
    rw [← ancestors_withoutMemory, hmemory, ancestors_withoutMemory]
  have hlocate : ∀ t : ScopeTree, t.locate? scope name = t.withoutMemory.locate? scope name := by
    intro t
    simp [locate?]
  have hdeclared : u.locate? scope name = t.locate? scope name := by
    rw [hlocate, hmemory, ← hlocate]
  simp only [ledgerFor?, hdeclared, hway, funext hknows, ledgerOwner?_congr hmemory,
    route_congr hknows hrenamed]

end ScopeTree

namespace Checker

variable {c : Checker} {scope : ScopeId} {name : String}

/-- A release does not change which ledgers answer for a name. -/
theorem ledgerFor?_release (span : Span) (kind : FreeKind) (inner : ScopeId) (other : String) :
    (c.release scope name span kind).scopes.ledgerFor? inner other =
      c.scopes.ledgerFor? inner other := by
  refine ledgerFor?_congr ?_ (any_ledger_release fun l => by simp)
    (any_ledger_release fun l => by simp [Ledger.tracksRenamed, Ledger.renames_release]) inner
  exact (MemoryOp.release scope name span kind).step c |>.scopes

end Checker

/-! ### Records by position -/

namespace Ledger

variable {l : Ledger} {name : String}

/-- The position of the latest record of a list that is bound to a name. -/
def latestIndex? (name : String) : List Allocation → Option Nat
  | [] => none
  | a :: as => ((latestIndex? name as).map (· + 1)).or (if a.name == name then some 0 else none)

/-- The position of the latest record behind a name. -/
def position? (l : Ledger) (name : String) : Option Nat :=
  latestIndex? (l.canonical name) l.allocations

theorem latestIndex?_eq_none (h : ∀ a ∈ as, a.name ≠ name) : latestIndex? name as = none := by
  induction as with
  | nil => rfl
  | cons a as ih =>
    obtain ⟨ha, hrest⟩ := List.forall_mem_cons.mp h
    simp [latestIndex?, ih hrest, ha]

theorem latestIndex?_append {a : Allocation} {newer : List Allocation} (ha : a.name = name)
    (hnewer : ∀ b ∈ newer, b.name ≠ name) (older : List Allocation) :
    latestIndex? name (older ++ a :: newer) = some older.length := by
  induction older with
  | nil => simp [latestIndex?, latestIndex?_eq_none hnewer, ha]
  | cons b older ih => simp [latestIndex?, ih]

/-- Only the names of the records matter. -/
theorem latestIndex?_congr {bs : List Allocation} (h : as.map (·.name) = bs.map (·.name))
    (name : String) : latestIndex? name as = latestIndex? name bs := by
  induction as generalizing bs with
  | nil =>
    have hnil : bs = [] := by simpa using h
    rw [hnil]
  | cons a as ih =>
    obtain ⟨b, bs', rfl, hname, hrest⟩ := List.map_eq_cons_iff.mp h.symm
    simp [latestIndex?, hname, ih hrest.symm]

theorem position?_of_none (ha : l.allocation? name = none) : l.position? name = none := by
  refine latestIndex?_eq_none fun a hmem hname => ?_
  have hall := List.find?_eq_none.mp ha a (List.mem_reverse.mpr hmem)
  exact hall (by simp [hname])

theorem position?_of_split {a : Allocation} {older newer : List Allocation}
    (hsplit : l.allocations = older ++ a :: newer) (hname : a.name = l.canonical name)
    (hnewer : ∀ b ∈ newer, b.name ≠ l.canonical name) : l.position? name = some older.length := by
  rw [position?, hsplit]
  exact latestIndex?_append hname hnewer older

/-- A release frees the record behind the name and no other. -/
theorem isFreed_release (l : Ledger) (name : String) (span : Span) (kind : FreeKind) (k : Nat) :
    (l.release name span kind).1.allocations[k]?.map (·.isFreed) =
      (l.allocations[k]?.map (·.isFreed)).map (· || l.position? name == some k) := by
  cases ha : l.allocation? name with
  | none =>
    rw [release_of_none ha, position?_of_none ha]
    cases l.allocations[k]? <;> simp
  | some a =>
    obtain ⟨hname, older, newer, hsplit, hnewer⟩ := exists_split_of_allocation? ha
    rw [release_of_some hsplit hname hnewer, position?_of_split hsplit hname hnewer, hsplit]
    rcases Nat.lt_trichotomy k older.length with hlt | rfl | hgt
    · have hne : older.length ≠ k := Nat.ne_of_gt hlt
      rw [List.getElem?_append_left hlt, List.getElem?_append_left hlt]
      cases older[k]? <;> simp [hne]
    · simp [released_counts]
    · obtain ⟨j, rfl⟩ := Nat.exists_eq_add_of_lt hgt
      have hlater : ∀ a, (older ++ a :: newer)[older.length + j + 1]? = newer[j]? := by
        intro a
        rw [Nat.add_assoc, List.getElem?_append_right (Nat.le_add_right _ _),
          Nat.add_sub_cancel_left, List.getElem?_cons_succ]
      rw [hlater, hlater]
      cases newer[j]? <;> simp [Nat.add_assoc]

end Ledger

/-- A record, by the scope of its ledger and its position there. -/
structure RecordId where
  scope : ScopeId
  index : Nat
  deriving DecidableEq, Repr

namespace Checker

variable {c d : Checker} {scope : ScopeId} {name : String}

/-- Whether a record has been freed; `none` if there is no such record. -/
def freed? (c : Checker) (x : RecordId) : Option Bool :=
  (c.scopes.scope x.scope).records[x.index]?.map (·.isFreed)

theorem freed?_congr (h : ∀ i, (d.scopes.scope i).ledger = (c.scopes.scope i).ledger)
    (x : RecordId) : d.freed? x = c.freed? x := by
  rw [freed?, freed?, Scope.records, Scope.records, h]

/-- The record behind a name. -/
def recordId? (c : Checker) (scope : ScopeId) (name : String) : Option RecordId :=
  (c.scopes.ledgerFor? scope name).bind fun id =>
    ((c.scopes.scope id).ledger.bind (·.position? name)).map fun index => { scope := id, index }

/-- A release does not change which record is behind which name. -/
theorem recordId?_release (span : Span) (kind : FreeKind) (inner : ScopeId) (other : String) :
    (c.release scope name span kind).recordId? inner other = c.recordId? inner other := by
  have hposition : ∀ i, ((c.release scope name span kind).scopes.scope i).ledger.bind
      (·.position? other) = (c.scopes.scope i).ledger.bind (·.position? other) := by
    intro i
    have hmap : ((c.release scope name span kind).scopes.scope i).ledger.map (·.position? other) =
        (c.scopes.scope i).ledger.map (·.position? other) :=
      map_ledger_release (fun l => by
        rw [Ledger.position?, Ledger.position?,
          Ledger.canonical_congr (l.renames_release name span kind)]
        exact Ledger.latestIndex?_congr (l.names_release name span kind) _) i
    cases hnew : ((c.release scope name span kind).scopes.scope i).ledger <;>
      cases hold : (c.scopes.scope i).ledger <;> simp_all
  simp only [recordId?, ledgerFor?_release, hposition]

/-- A release frees the record behind the name and no other. -/
theorem freed?_release (span : Span) (kind : FreeKind) (x : RecordId) :
    (c.release scope name span kind).freed? x =
      (c.freed? x).map (· || c.recordId? scope name == some x) := by
  cases hid : c.scopes.ledgerFor? scope name with
  | none => simp [release, recordId?, hid]
  | some id =>
    cases hl : (c.scopes.scope id).ledger with
    | none => simp [release, recordId?, hid, hl]
    | some l =>
      obtain ⟨i, k⟩ := x
      rw [release_eq hid hl, freed?, freed?, Scope.records, Scope.records,
        ledger_updateLedger, recordId?, hid, Option.bind_some, hl, Option.bind_some]
      by_cases hi : i = id
      · subst hi
        have hposition : ((l.position? name).map (RecordId.mk i) == some ⟨i, k⟩) =
            (l.position? name == some k) := by
          cases l.position? name <;> simp
        rw [if_pos rfl, hl, Option.map_some, Option.elim_some, Option.elim_some, hposition]
        exact l.isFreed_release name span kind k
      · have hposition : ((l.position? name).map (RecordId.mk id) == some ⟨i, k⟩) = false := by
          cases l.position? name <;> simp [Ne.symm hi]
        rw [if_neg hi, hposition]
        cases ((c.scopes.scope i).ledger.elim [] (·.allocations))[k]? <;> simp

theorem size_release (span : Span) (kind : FreeKind) :
    (c.release scope name span kind).scopes.size = c.scopes.size := by
  have herased := (MemoryOp.release scope name span kind).step c |>.scopes
  simpa using congrArg ScopeTree.size herased

theorem deferred_release (span : Span) (kind : FreeKind) (i : ScopeId) :
    ((c.release scope name span kind).scopes.scope i).deferred = (c.scopes.scope i).deferred := by
  unfold release
  split
  · rfl
  · split
    · rfl
    · exact c.scopes.field_updateLedger _ _ Scope.deferred (fun _ _ => rfl) i

/-- Several releases, one after the other. -/
theorem release_foldl {α : Type} (scope : ScopeId) (name : α → String) (span : α → Span)
    (kind : FreeKind) (as : List α) (c : Checker) :
    let d := as.foldl (fun c a => c.release scope (name a) (span a) kind) c
    d.scopes.size = c.scopes.size ∧ d.walk = c.walk ∧
      (∀ i, (d.scopes.scope i).deferred = (c.scopes.scope i).deferred) ∧
      ∀ x, d.freed? x =
        (c.freed? x).map (· || as.any fun a => c.recordId? scope (name a) == some x) := by
  induction as generalizing c with
  | nil => simp
  | cons a as ih =>
    obtain ⟨hsize, hwalk, hdeferred, hfreed⟩ := ih (c.release scope (name a) (span a) kind)
    refine ⟨hsize.trans (size_release _ _),
      hwalk.trans ((MemoryOp.release scope (name a) (span a) kind).step c).walk,
      fun i => (hdeferred i).trans (deferred_release _ _ i), fun x => ?_⟩
    rw [List.foldl_cons, hfreed, freed?_release]
    cases c.freed? x <;> simp [recordId?_release, Bool.or_assoc]

end Checker

/-! ### What a call does to memory -/

namespace Check

/-- What a call does to memory once its parts are typed. -/
structure CallEffect where
  /-- The names that it releases at once. -/
  released : List String := []
  /-- The call of `free` that it puts off, with the scope whose end that waits for. -/
  putOff : Option (ScopeId × DeferredFree) := none
  deriving Repr

/-- What is put off to the end of a scope. -/
def CallEffect.putOffTo (effect : CallEffect) (scope : ScopeId) : Option DeferredFree :=
  (effect.putOff.filter (·.1 == scope)).map (·.2)

/-- The name that a call of `free` is for. -/
def freedName? (args : List Expr) (tys : List (Option Ty)) : Option String :=
  match args, tys with
  | [arg], [some ty] => if ty.isPointer then arg.ident? else none
  | _, _ => none

/-- A call of `free` waits if there is a scope to wait for. -/
def freeEffect (target : Option ScopeId) (span : Span) (name : Option String) : CallEffect :=
  match name, target with
  | none, _ => {}
  | some name, none => { released := [name] }
  | some name, some target => { putOff := some (target, { name, span }) }

/-- The arguments that the call of a value hands over. -/
def plainHandOvers (c : Checker) (callee : Expr) (calleeTy : Option Ty) (args : List Expr)
    (tys : List (Option Ty)) (scope : ScopeId) : List HandOver :=
  match calleeTy with
  | some (.function _ _) =>
    (namedSymbol? c callee scope).elim [] fun s => handOvers s.consumesArg 0 args tys
  | _ => []

/-- The type of a receiver that is a value. -/
def Receiver.self? : Receiver → Option Ty
  | .type _ => none
  | .value ty => ty

/-- The arguments that the call of a member hands over. -/
def memberHandOvers (found : StructMember) (self : Option Ty) (span : Span) (args : List Expr)
    (tys : List (Option Ty)) (c : Checker) : List HandOver :=
  match found.ty with
  | .function params _ =>
    ((explicitParams found params self span).eval c).elim [] fun explicit =>
      handOvers (fun i => found.consumesParam (i + explicit.2)) 0 args tys
  | _ => []

/-- The arguments that a method call hands over. -/
def methodHandOvers (c : Checker) (callee : Expr) (receiver : Receiver) (args : List Expr)
    (tys : List (Option Ty)) (scope : ScopeId) : List HandOver :=
  ((calledMember callee receiver scope).eval c).elim [] fun found =>
    memberHandOvers found receiver.self? callee.span args tys c

/-- Types the parts of a call, and says what the call then does to memory. Only a call of `free`
asks whether there is a scope to wait for. -/
def callEffect (callee : Expr) (args : List Expr) (span : Span) (scope : ScopeId) :
    CheckM CallEffect := do
  match callForm (← get) callee scope with
  | .alloc =>
    let _ ← callParts callee args scope
    return {}
  | .free =>
    let tys ← callParts callee args scope
    return freeEffect (← get).walk.deferTarget span (freedName? args tys)
  | .method =>
    let receiver ← callee.checkReceiver scope
    let tys ← checkExprs scope args
    return { released := (methodHandOvers (← get) callee receiver args tys scope).map (·.name) }
  | .plain =>
    let calleeTy ← callee.check scope
    let tys ← checkExprs scope args
    return { released := (plainHandOvers (← get) callee calleeTy args tys scope).map (·.name) }

end Check

namespace Visit

/-- What is done in a visit to a call. -/
def effect? (v : Visit) : Option (CheckM CallEffect) :=
  match v.part with
  | .value _ ⟨_, span, .call callee args⟩ => some (callEffect callee args span v.scope)
  | _ => none

/-- Whether the visit is to a call that releases a record at once. -/
def releases (v : Visit) (x : RecordId) : Bool :=
  v.effect?.any fun effect =>
    (effect.eval v.state).released.any fun name =>
      (effect.exec v.state).recordId? v.scope name == some x

/-- The call of `free` that a visit puts off to the end of a scope. -/
def putOffTo (v : Visit) (scope : ScopeId) : Option DeferredFree :=
  v.effect?.bind fun effect => (effect.eval v.state).putOffTo scope

/-- Where a visit is made, seen from a scope in a state. -/
inductive Placed (scope : ScopeId) (c : Checker) (v : Visit) : Prop where
  /-- In the body of a function that has been declared on the way. -/
  | inFunction (h : c.walk.frames.length < v.state.walk.frames.length)
  /-- Under the same `defer`, or under none as before. -/
  | here (hframes : v.state.walk.frames = c.walk.frames)
      (htarget : v.state.walk.deferTarget = c.walk.deferTarget)
  /-- Under a `defer` that stands in the scope or in a new one. -/
  | inDefer (hframes : v.state.walk.frames = c.walk.frames) (target : ScopeId)
      (htarget : v.state.walk.deferTarget = some target)
      (hscope : target = scope ∨ c.scopes.size ≤ target)

namespace Placed

variable {scope inner : ScopeId} {c d : Checker} {v : Visit}

/-- Seen from a scope further out, in an earlier state. -/
theorem outwards (h : v.Placed inner d) (hwalk : d.walk = c.walk)
    (hsize : c.scopes.size ≤ d.scopes.size) (hinner : inner = scope ∨ c.scopes.size ≤ inner) :
    v.Placed scope c := by
  cases h with
  | inFunction h => exact .inFunction (hwalk ▸ h)
  | here hframes htarget => exact .here (hwalk ▸ hframes) (hwalk ▸ htarget)
  | inDefer hframes target htarget hscope =>
    refine .inDefer (hwalk ▸ hframes) target htarget ?_
    rcases hscope with rfl | hnew
    · exact hinner
    · exact .inr (Nat.le_trans hsize hnew)

theorem ofLoop (h : v.Placed scope { c with walk := c.walk.enterLoop }) : v.Placed scope c := by
  cases h with
  | inFunction h => exact .inFunction h
  | here hframes htarget => exact .here hframes htarget
  | inDefer hframes target htarget hscope => exact .inDefer hframes target htarget hscope

theorem ofDefer (h : v.Placed scope { c with walk := c.walk.enterDefer scope }) :
    v.Placed scope c := by
  cases h with
  | inFunction h => exact .inFunction h
  | here hframes htarget => exact .inDefer hframes scope htarget (.inl rfl)
  | inDefer hframes target htarget hscope => exact .inDefer hframes target htarget hscope

theorem ofFunction {frame : Frame} (h : v.Placed inner d)
    (hwalk : d.walk = c.walk.enterFunction frame) : v.Placed scope c := by
  have hlength : d.walk.frames.length = c.walk.frames.length + 1 := by rw [hwalk]; rfl
  cases h with
  | inFunction h => exact .inFunction (by omega)
  | here hframes _ => exact .inFunction (by rw [hframes]; omega)
  | inDefer hframes => exact .inFunction (by rw [hframes]; omega)

end Placed

end Visit

/-! ### The ends of scopes -/

/-- A scope that ends, with the state in which all that it holds has been checked. -/
structure Ending where
  scope : ScopeId
  state : Checker

/-- Whether the end of the scope releases a record: a call of `free` has waited for it. -/
def Ending.releases (e : Ending) (x : RecordId) : Bool :=
  (e.state.scopes.scope e.scope).deferred.any fun f =>
    e.state.recordId? e.scope f.name == some x

namespace Checker

/-- The end of a scope releases what waited for it, and nothing waits for it any more. -/
theorem leaveScope_spec (c : Checker) (scope : ScopeId) :
    (c.leaveScope scope).scopes.size = c.scopes.size ∧
      (∀ i, i ≠ scope →
        ((c.leaveScope scope).scopes.scope i).deferred = (c.scopes.scope i).deferred) ∧
      ∀ x, (c.leaveScope scope).freed? x =
        (c.freed? x).map (· || Ending.releases ⟨scope, c⟩ x) := by
  have hledger : ∀ i, ((c.scopes.clearDeferred scope).scope i).ledger =
      (c.scopes.scope i).ledger :=
    c.scopes.field_modify scope Scope.ledger fun _ => rfl
  have hfor : ∀ name, (c.scopes.clearDeferred scope).ledgerFor? scope name =
      c.scopes.ledgerFor? scope name := by
    intro name
    refine ledgerFor?_congr (c.scopes.clearDeferred_withoutMemory scope) ?_ ?_ _
    all_goals
      intro i
      simp only [ScopeTree.ledgerKnows, ScopeTree.ledgerTracksRenamed, hledger]
  have hrecord : ∀ name, ({ c with scopes := c.scopes.clearDeferred scope } : Checker).recordId?
      scope name = c.recordId? scope name := by
    intro name
    simp only [recordId?, hfor, hledger]
  obtain ⟨hsize, -, hdeferred, hfreed⟩ := release_foldl scope DeferredFree.name DeferredFree.span
    .explicit (c.scopes.scope scope).deferred { c with scopes := c.scopes.clearDeferred scope }
  refine ⟨hsize.trans (size_modify _ _ _), fun i hi => (hdeferred i).trans ?_,
    fun x => (hfreed x).trans ?_⟩
  · rw [ScopeTree.clearDeferred, scope_modify, if_neg fun h => hi h.1]
  · rw [freed?_congr hledger]
    simp only [hrecord]
    rfl

end Checker

/-- The scopes that end in an action, by the state in which it starts. -/
abbrev Endings := Checker → List Ending

namespace Endings

variable {α : Type}

/-- No scope ends. -/
def nothing : Endings := fun _ => []

/-- One scope ends. -/
def one (scope : ScopeId) : Endings := fun c => [⟨scope, c⟩]

/-- The scopes that end in an action, and then those that end after it. -/
def andThen (m : CheckM α) (first : Endings) (rest : α → Endings) : Endings :=
  fun c => first c ++ rest (m.eval c) (m.exec c)

/-- The scopes that end after an action in which none ends. -/
def after (m : CheckM α) (rest : α → Endings) : Endings :=
  fun c => rest (m.eval c) (m.exec c)

/-- The scopes that end if there is a result. -/
def whenSome (rest : α → Endings) (result : Option α) : Endings :=
  result.elim nothing rest

/-- The scopes that end in a changed walk. -/
def within (change : Walk → Walk) (ends : Endings) : Endings :=
  fun c => ends { c with walk := change c.walk }

end Endings

section

open Endings

mutual

/-- The scopes that end in the check of a statement, in order. -/
def Stmt.ends (scope : ScopeId) : Stmt → Endings
  | ⟨span, .fn decl⟩ =>
    after (fnDecl decl span scope) (whenSome fun sig => decl.bodyEnds sig scope decl.name)
  | ⟨span, .struct decl⟩ =>
    after (structDecl decl span scope) (whenSome fun head => decl.methodEnds scope head.signatures)
  | ⟨_, .conditional branches otherwise⟩ =>
    andThen (checkBranches scope "if" branches) (branchEnds scope "if" branches) fun _ =>
      optionalBlockEnds scope "else" otherwise
  | ⟨_, .loop init cond step body⟩ =>
    after (addBlock scope "loop") fun inner =>
      andThen (checkOptionalStmt inner init) (optionalStmtEnds inner init) fun _ =>
        after (optionalCondition cond inner) fun _ =>
          after (optionalEffect step inner) fun _ =>
            andThen (CheckM.within Walk.enterLoop (body.checkIn inner "loop body"))
              (Endings.within Walk.enterLoop (body.endsIn inner "loop body")) fun _ => one inner
  | ⟨_, .switch scrutinee cases otherwise⟩ =>
    after (scrutinee.check scope) fun ty =>
      andThen (checkCases scope ty cases) (caseEnds scope ty cases) fun _ =>
        optionalBlockEnds scope "default" otherwise
  | ⟨_, .defer stmt⟩ => Endings.within (Walk.enterDefer scope) (stmt.ends scope)
  | ⟨_, .block block⟩ => block.endsIn scope "block"
  | ⟨_, .var _⟩ | ⟨_, .enum _⟩ | ⟨_, .importModule ..⟩ | ⟨_, .ret _⟩ | ⟨_, .breakLoop⟩
  | ⟨_, .continueLoop⟩ | ⟨_, .expr _⟩ => nothing

def stmtEnds (scope : ScopeId) : List Stmt → Endings
  | [] => nothing
  | s :: ss => andThen (s.check scope) (s.ends scope) fun _ => stmtEnds scope ss

def optionalStmtEnds (scope : ScopeId) : Option Stmt → Endings
  | none => nothing
  | some s => s.ends scope

def Block.endsIn (parent : ScopeId) (name : String) : Block → Endings
  | ⟨_, stmts⟩ =>
    after (addBlock parent name) fun scope =>
      andThen (checkStmts scope stmts) (stmtEnds scope stmts) fun _ => one scope

def optionalBlockEnds (parent : ScopeId) (name : String) : Option Block → Endings
  | none => nothing
  | some block => block.endsIn parent name

def branchEnds (scope : ScopeId) (name : String) : List (Expr × Block) → Endings
  | [] => nothing
  | (cond, block) :: branches =>
    after (condition cond scope) fun _ =>
      andThen (block.checkIn scope name) (block.endsIn scope name) fun _ =>
        branchEnds scope "elif" branches

def caseEnds (scope : ScopeId) (expected : Option Ty) : List SwitchCase → Endings
  | [] => nothing
  | ⟨_, values, body⟩ :: cases =>
    after (caseValues expected scope values) fun _ =>
      andThen (body.checkIn scope "case") (body.endsIn scope "case") fun _ =>
        caseEnds scope expected cases

def FnDecl.bodyEnds (sig : Signature) (parent : ScopeId) (name : String) : FnDecl → Endings
  | ⟨_, params, _, ⟨_, stmts⟩, _, returnsOwnership, takesOwnership⟩ =>
    after (addFunction parent name) fun scope =>
      Endings.within
        (Walk.enterFunction
          { returnType := sig.ret,
            ownership := { function := name, returnsOwnership, takesOwnership } })
        (after (declareParams takesOwnership scope params sig.params) fun _ =>
          andThen (checkStmts scope stmts) (stmtEnds scope stmts) fun _ => one scope)

def StructDecl.methodEnds (scope : ScopeId) (signatures : List (Option Signature)) :
    StructDecl → Endings
  | ⟨name, _, _, methods⟩ => methodEnds scope name methods signatures

def methodEnds (scope : ScopeId) (owner : String) :
    List MethodDecl → List (Option Signature) → Endings
  | ⟨span, decl⟩ :: methods, some sig :: signatures =>
    andThen (decl.checkBody sig span scope s!"{owner}.{decl.name}")
      (decl.bodyEnds sig scope s!"{owner}.{decl.name}") fun _ =>
        methodEnds scope owner methods signatures
  | _ :: methods, none :: signatures => methodEnds scope owner methods signatures
  | _, _ => nothing

end

end

/-! ### Explaining a state -/

/-- The calls that were visited from a scope and the scopes that ended explain what the second state
says about memory that was there in the first. -/
structure Explains (scope : ScopeId) (visits : List Visit) (ends : List Ending) (c d : Checker) :
    Prop where
  size : c.scopes.size ≤ d.scopes.size
  walk : d.walk = c.walk
  records : ∀ x b, c.freed? x = some b →
    d.freed? x = some (b || (visits.any (·.releases x) || ends.any (·.releases x)))
  queues : ∀ i, i < c.scopes.size → (d.scopes.scope i).deferred =
    (c.scopes.scope i).deferred ++ visits.filterMap (·.putOffTo i)
  places : ∀ v ∈ visits, v.effect?.isSome → v.Placed scope c
  inner : ∀ e ∈ ends, c.scopes.size ≤ e.scope

/-- From the first state to the second, memory has changed as a call in a scope changes it. -/
structure Check.CallEffect.Done (effect : CallEffect) (scope : ScopeId) (c d : Checker) : Prop where
  size : d.scopes.size = c.scopes.size
  walk : d.walk = c.walk
  records : ∀ x, d.freed? x =
    (c.freed? x).map (· || effect.released.any fun name => c.recordId? scope name == some x)
  queues : ∀ i, i < c.scopes.size → (d.scopes.scope i).deferred =
    (c.scopes.scope i).deferred ++ (effect.putOffTo i).toList

namespace Explains

variable {scope inner : ScopeId} {visits visits' : List Visit} {ends ends' : List Ending}
  {c d e : Checker}

/-- Records that are opened say nothing about those that were there. -/
theorem ofKept (h : Kept c d) : Explains scope [] [] c d := by
  refine ⟨h.size, h.walk, fun x b hb => ?_, fun i hi => by simp [h.deferred i hi],
    List.forall_mem_nil _, List.forall_mem_nil _⟩
  obtain ⟨a, ha, hfreed⟩ := Option.map_eq_some_iff.mp hb
  obtain ⟨opened, hopened⟩ := h.records x.scope
  have hkept : (d.scopes.scope x.scope).records[x.index]? = some a := by
    rw [← hopened, List.getElem?_append_left (List.getElem?_eq_some_iff.mp ha).1, ha]
  simp [Checker.freed?, hkept, hfreed]

section

variable (h : Explains scope visits ends c d)

include h

/-- One after the other, the second perhaps in a new scope. -/
theorem trans (h' : Explains inner visits' ends' d e)
    (hinner : inner = scope ∨ c.scopes.size ≤ inner) :
    Explains scope (visits ++ visits') (ends ++ ends') c e := by
  refine ⟨Nat.le_trans h.size h'.size, h'.walk.trans h.walk, fun x b hb => ?_, fun i hi => ?_,
    fun v hv hcall => ?_, fun s hs => ?_⟩
  · rw [h'.records x _ (h.records x b hb), List.any_append, List.any_append]
    simp only [Bool.or_assoc, Bool.or_left_comm]
  · rw [h'.queues i (Nat.lt_of_lt_of_le hi h.size), h.queues i hi, List.filterMap_append,
      List.append_assoc]
  · rcases List.mem_append.mp hv with hv | hv
    · exact h.places v hv hcall
    · exact (h'.places v hv hcall).outwards h.walk h.size hinner
  · rcases List.mem_append.mp hs with hs | hs
    · exact h.inner s hs
    · exact Nat.le_trans h.size (h'.inner s hs)

theorem last (hkept : Kept d e) : Explains scope visits ends c e := by
  have hall := h.trans (ofKept hkept) (.inl rfl)
  rwa [List.append_nil, List.append_nil] at hall

/-- At the end of a scope that is new, its queue is carried out. -/
theorem leaveScope (hscopes : e.scopes = d.scopes) (hwalk : e.walk = d.walk)
    (hnew : c.scopes.size ≤ inner) :
    Explains scope visits (ends ++ [⟨inner, d⟩]) c (e.leaveScope inner) := by
  have hsame : ∀ x, Ending.releases ⟨inner, e⟩ x = Ending.releases ⟨inner, d⟩ x := by
    simp only [Ending.releases, Checker.recordId?, hscopes, implies_true]
  have hall := h.last (.ofScopes hscopes hwalk)
  obtain ⟨hsize, hdeferred, hfreed⟩ := e.leaveScope_spec inner
  refine ⟨hsize ▸ hall.size, ?_, fun x b hb => ?_, fun i hi => ?_, h.places, fun s hs => ?_⟩
  · exact ((MemoryOp.leaveScope inner).step e).walk.trans hall.walk
  · rw [hfreed, hall.records x b hb, List.any_append]
    simp [Bool.or_assoc, hsame]
  · rw [hdeferred i (Nat.ne_of_lt (Nat.lt_of_lt_of_le hi hnew)), hall.queues i hi]
  · rcases List.mem_append.mp hs with hs | hs
    · exact h.inner s hs
    · rw [List.mem_singleton.mp hs]
      exact hnew

end

/-- A call is explained by its parts and by the visit to it. -/
theorem call {callee : Expr} {args : List Expr}
    (h : Explains scope visits [] c ((callEffect callee args span scope).exec c))
    (hdone : ((callEffect callee args span scope).eval c).Done scope
      ((callEffect callee args span scope).exec c) d)
    (role : Role) (id : NodeId) :
    Explains scope (visits ++ [⟨.value role ⟨id, span, .call callee args⟩, scope, c⟩]) [] c d := by
  refine ⟨hdone.size ▸ h.size, hdone.walk.trans h.walk, fun x b hb => ?_, fun i hi => ?_,
    fun v hv hcall => ?_, h.inner⟩
  · simp only [hdone.records, h.records x b hb, Option.map_some, List.any_append, List.any_cons,
      List.any_nil, Bool.or_false, Bool.or_assoc]
    rfl
  · rw [hdone.queues i (Nat.lt_of_lt_of_le hi h.size), h.queues i hi, List.filterMap_append,
      List.append_assoc]
    cases hput : ((callEffect callee args span scope).eval c).putOffTo i <;>
      simp [Visit.putOffTo, Visit.effect?, hput]
  · rcases List.mem_append.mp hv with hv | hv
    · exact h.places v hv hcall
    · rw [List.mem_singleton.mp hv]
      exact .here rfl rfl

/-- Nothing comes of a visit to anything but a call. -/
theorem visit {v : Visit} (h : Explains scope visits ends c d) (hv : v.effect? = none) :
    Explains scope (visits ++ [v]) ends c d := by
  refine ⟨h.size, h.walk, fun x b hb => ?_, fun i hi => ?_, fun w hw hcall => ?_, h.inner⟩
  · rw [h.records x b hb, List.any_append]
    simp [Visit.releases, hv]
  · rw [h.queues i hi, List.filterMap_append]
    simp [Visit.putOffTo, hv]
  · rcases List.mem_append.mp hw with hw | hw
    · exact h.places w hw hcall
    · rw [List.mem_singleton.mp hw, hv] at hcall
      cases hcall

end Explains

end Warden
