import Warden.Proofs.Bodies
import Warden.Proofs.Observing

/-!
# Handing pointers over

A pointer that is passed by name to a parameter that takes it over leaves the hands of the caller,
and the body of the callee is checked with a record for it. The two sides are decided apart from
each other. The caller asks for the marks of the symbol that it calls and for the type of the
argument; the body asks for the marks of the declaration and for the type of the parameter, and a
function that hands its own pointers to the caller keeps no records at all.

* **The caller** (`Check.exec_call_of_symbol`). What a call does once its arguments are typed is to
  release, as transfers, the arguments in `Check.handOvers`, in order.
* **The body** (`FnDecl.mem_allocations_atBody`). The records with which a body begins are those of
  the parameters that are bound, of pointer type and taken over.

`CallOf` is a declared function with a call of it that has a type. For such a pair there is a record
for a parameter exactly if the argument is handed over and the parameter can have one at all: the
function does not hand its pointers to the caller, the parameter is of pointer type, and no
parameter before it has its name. Three calls in a small module show that each condition counts.
-/

namespace Warden

open CheckM ScopeTree

variable {span : Span} {params : List Param} {s : Symbol} {scope home : ScopeId} {callee : Expr}
  {i : Nat} {c : Checker}

/-! ### The caller -/

namespace Check

variable {params : List Ty}

/-- An argument that is passed by name to a parameter that takes it over. -/
structure HandOver where
  index : Nat
  name : String
  span : Span
  deriving DecidableEq, Repr

/-- What becomes of an argument at a position. -/
def handOver? (consumes : Nat → Bool) (arg : Expr) (ty : Option Ty) (index : Nat) :
    Option HandOver :=
  if consumes index && ty.any (·.isPointer) then
    arg.ident?.map fun name => { index, name, span := arg.span }
  else none

/-- The arguments that a call hands over, in order; positions are counted from `index`. -/
def handOvers (consumes : Nat → Bool) (index : Nat) (args : List Expr) (tys : List (Option Ty)) :
    List HandOver :=
  ((args.zip tys).zipIdx index).filterMap fun x => handOver? consumes x.1.1 x.1.2 x.2

/-- The state once an argument has been handed over. -/
def handedOver (scope : ScopeId) (c : Checker) (h : HandOver) : Checker :=
  c.release scope h.name h.span .transfer

theorem exec_transfer (consumes : Nat → Bool) (scope : ScopeId) (index : Nat) (args : List Expr)
    (tys : List (Option Ty)) (c : Checker) : (transfer consumes scope index args tys).exec c =
      (handOvers consumes index args tys).foldl (handedOver scope) c := by
  induction args generalizing index tys c with
  | nil => rfl
  | cons arg args ih =>
    cases tys with
    | nil => rfl
    | cons ty tys =>
      have htail : ((args.zip tys).zipIdx (index + 1)).filterMap
          (fun x => handOver? consumes x.1.1 x.1.2 x.2) =
          handOvers consumes (index + 1) args tys := rfl
      rw [transfer, handOvers, List.zip_cons_cons, List.zipIdx_cons, List.filterMap_cons, htail,
        handOver?]
      by_cases htakes : (consumes index && ty.any (·.isPointer)) = true
      · cases hname : arg.ident? with
        | none => simpa [htakes, hname] using ih (index + 1) tys c
        | some name => simpa [htakes, hname, handedOver] using ih (index + 1) tys _
      · simpa [htakes] using ih (index + 1) tys c

variable {args : List Expr} {tys : List (Option Ty)} {c : Checker}

theorem mem_handOvers {consumes : Nat → Bool} {h : HandOver} :
    h ∈ handOvers consumes 0 args tys ↔ ∃ arg ty, args[h.index]? = some arg ∧
      tys[h.index]? = some ty ∧ handOver? consumes arg ty h.index = some h := by
  have hindex : ∀ {arg ty i}, handOver? consumes arg ty i = some h → h.index = i := by
    intro arg ty i hsome
    unfold handOver? at hsome
    split at hsome
    · obtain ⟨name, -, rfl⟩ := Option.map_eq_some_iff.mp hsome
      rfl
    · cases hsome
  constructor
  · intro hmem
    obtain ⟨⟨⟨arg, ty⟩, i⟩, hpair, hsome⟩ := List.mem_filterMap.mp hmem
    obtain ⟨harg, hty⟩ := List.getElem?_zip_eq_some.mp (List.mem_zipIdx_iff_getElem?.mp hpair)
    obtain rfl : h.index = i := hindex hsome
    exact ⟨arg, ty, harg, hty, hsome⟩
  · rintro ⟨arg, ty, harg, hty, hsome⟩
    refine List.mem_filterMap.mpr ⟨((arg, ty), h.index), ?_, hsome⟩
    exact List.mem_zipIdx_iff_getElem?.mpr (List.getElem?_zip_eq_some.mpr ⟨harg, hty⟩)

/-- Arguments that fit are compared without a word. -/
theorem exec_argumentTypes (h : (argumentTypes params args tys).eval c = true) :
    (argumentTypes params args tys).exec c = c := by
  induction params generalizing args tys c with
  | nil => rfl
  | cons param params ih =>
    match args, tys with
    | [], _ => rfl
    | _ :: _, [] => rfl
    | arg :: args, none :: tys => simp [argumentTypes] at h
    | arg :: args, some ty :: tys =>
      by_cases hfits : param.assignable ty = true
      · simp only [argumentTypes, hfits, if_true, pure_bind, eval_bind, eval_pure, Bool.true_and]
          at h
        simpa [argumentTypes, hfits] using ih h
      · simp [argumentTypes, hfits] at h

theorem exec_arguments {callee : String}
    (h : (arguments callee params args tys span).eval c = true) :
    params.length = args.length ∧ (arguments callee params args tys span).exec c = c := by
  unfold arguments at h ⊢
  by_cases hlen : params.length = args.length
  · simp only [hlen, bne_self_eq_false, Bool.false_eq_true, if_false] at h ⊢
    exact ⟨trivial, exec_argumentTypes h⟩
  · simp [hlen] at h

/-- A symbol that is no built-in function is called by its value. -/
theorem callForm_of_symbol (hs : namedSymbol? c callee scope = some s) (hkind : s.kind ≠ .builtin) :
    callForm c callee scope = .plain := by
  obtain ⟨id, span, kind⟩ := callee
  cases kind with
  | ident name =>
    have hlookup : c.scopes.lookup? scope name = some s := hs
    simp [callForm, hlookup, hkind]
  | qualified module name => rfl
  | _ => simp [namedSymbol?] at hs

/-- The types of the parts of a call: the callee and then the arguments. -/
def callParts (callee : Expr) (args : List Expr) (scope : ScopeId) : CheckM (List (Option Ty)) := do
  let _ ← callee.check scope
  checkExprs scope args

/-- Once callee and arguments are typed, all that a call of a declared name does before its type is
recorded is to hand arguments over. -/
theorem exec_call_of_symbol (hs : namedSymbol? c callee scope = some s) (hkind : s.kind ≠ .builtin)
    {id : NodeId} {ty : Ty}
    (htyped : ((⟨id, span, .call callee args⟩ : Expr).check scope).eval c = some ty) :
    ((⟨id, span, .call callee args⟩ : Expr).check scope).exec c =
      ((handOvers s.consumesArg 0 args ((callParts callee args scope).eval c)).foldl
        (handedOver scope) ((callParts callee args scope).exec c)).record id ty := by
  have hform := callForm_of_symbol hs hkind
  have hlater : namedSymbol? ((callParts callee args scope).exec c) callee scope = some s := by
    rw [callParts, exec_bind, (rule_exprs scope args).observes.quiet _ |>.namedSymbol?,
      (rule_expr scope callee).observes.quiet c |>.namedSymbol?, hs]
  simp only [Expr.check, ExprKind.check, eval_bind, exec_bind, eval_get, exec_get, hform,
    eval_recorded] at htyped ⊢
  rw [htyped, exec_recorded_some]
  congr 1
  rw [callParts, exec_bind] at hlater ⊢
  rw [eval_bind]
  -- the rest is about the call of a value, in the state in which the arguments are typed
  generalize (checkExprs scope args).eval ((callee.check scope).exec c) = tys at htyped ⊢
  generalize (checkExprs scope args).exec ((callee.check scope).exec c) = d at htyped hlater ⊢
  revert htyped
  unfold plainCall
  cases (callee.check scope).eval c with
  | none => simp
  | some calleeTy =>
    cases calleeTy with
    | function params ret =>
      intro htyped
      simp only [eval_bind, exec_bind, eval_get, exec_get] at htyped ⊢
      cases hok : (arguments (calleeName callee) params args tys span).eval d with
      | false =>
        cases hsym : namedSymbol? ((arguments (calleeName callee) params args tys span).exec d)
          callee scope <;> simp [hok, hsym] at htyped
      | true =>
        obtain ⟨-, hexec⟩ := exec_arguments hok
        rw [hexec, hlater]
        exact exec_transfer ..
    | _ => simp

end Check

/-! ### The body -/

namespace Param

/-- The symbol of a parameter. -/
def symbol (p : Param) (ty : Ty) : Symbol :=
  { Symbol.ofVariable p.name ty true with span := p.span }

/-- The record that is opened for a parameter which its function takes over. -/
def record (p : Param) (function : String) : Allocation :=
  { line := p.span.line, column := p.span.column, name := p.name, function := some function }

/-- Whether a parameter of a type is taken over in a function that keeps records. -/
def OpensRecord (p : Param) (owner : Ownership) (ty : Ty) : Prop :=
  (owner.takesOwnership || p.takesOwnership) = true ∧ ty.isPointer = true ∧
    owner.returnsOwnership = false

end Param

/-- Whether the parameter at a position is bound to its name: no parameter before has that name. -/
def Bound (params : List Param) (i : Nat) (p : Param) : Prop :=
  params[i]? = some p ∧ ∀ q ∈ params.take i, q.name ≠ p.name

/-- A name is bound to one position only. -/
theorem Bound.not_lt {j : Nat} {p q : Param} (hp : Bound params i p) (hq : Bound params j q)
    (hname : p.name = q.name) : ¬i < j := by
  intro hlt
  refine hq.2 p (List.mem_iff_getElem?.mpr ⟨i, ?_⟩) hname
  rw [List.getElem?_take_of_lt hlt]
  exact hp.1

theorem Bound.index_eq {j : Nat} {p q : Param} (hp : Bound params i p) (hq : Bound params j q)
    (hname : p.name = q.name) : i = j :=
  Nat.le_antisymm (Nat.le_of_not_lt (hq.not_lt hp hname.symm))
    (Nat.le_of_not_lt (hp.not_lt hq hname))

namespace Check

/-- The state once a parameter has been declared. -/
def declaredParam (takesAll : Bool) (scope : ScopeId) (p : Param) (ty : Ty) (c : Checker) :
    Checker :=
  let declaring := declare scope (p.symbol ty) p.span
  if declaring.eval c && (takesAll || p.takesOwnership) && ty.isPointer then
    (declaring.exec c).allocate scope p.name p.span
  else declaring.exec c

theorem exec_declareParams_cons (takesAll : Bool) (scope : ScopeId) (p : Param) (ps : List Param)
    (ty : Ty) (tys : List Ty) (c : Checker) :
    (declareParams takesAll scope (p :: ps) (ty :: tys)).exec c =
      (declareParams takesAll scope ps tys).exec (declaredParam takesAll scope p ty c) := by
  rw [declareParams, declaredParam, Param.symbol]
  simp only [exec_bind]
  split <;> rfl

end Check

/-- The state while parameters are declared in a scope: the names that are taken and the records
that have been opened there. -/
structure AtParams (scope : ScopeId) (owner : Ownership) (taken : List String)
    (records : List Allocation) (c : Checker) : Prop where
  size : scope < c.scopes.size
  ownership : c.ownership? = some owner
  names : ∀ name, ((c.scopes.scope scope).symbol? name).isSome = true ↔ name ∈ taken
  ledger : ∃ l, (c.scopes.scope scope).ledger = some l ∧ l.allocations = records

namespace AtParams

variable {scope : ScopeId} {owner : Ownership} {taken : List String}
  {records : List Allocation} {c : Checker}

variable (h : AtParams scope owner taken records c)

include h

/-- A name that is taken is refused, any other is bound. -/
theorem declare (symbol : Symbol) (span : Span) :
    ((declare scope symbol span).eval c = true ↔ symbol.name ∉ taken) ∧
      AtParams scope owner (symbol.name :: taken) records ((declare scope symbol span).exec c) := by
  cases hfound : (c.scopes.scope scope).symbol? symbol.name with
  | some found =>
    have htaken : symbol.name ∈ taken := (h.names _).mp (by rw [hfound]; rfl)
    have hinsert : c.scopes.insert? scope symbol = none := by simp [ScopeTree.insert?, hfound]
    simp only [CheckM.declare, eval_bind, eval_get, exec_bind, exec_get, hinsert, eval_reject,
      exec_reject]
    refine ⟨by simp [htaken], h.size, h.ownership, fun name => ?_, h.ledger⟩
    rw [List.mem_cons, or_iff_right_of_imp (fun heq => heq ▸ htaken)]
    exact h.names name
  | none =>
    have hfree : symbol.name ∉ taken := by
      intro hmem
      simpa [hfound] using (h.names _).mpr hmem
    have hinsert : c.scopes.insert? scope symbol = some (c.scopes.modify scope fun s =>
        { s with symbols := s.symbols ++ [{ symbol with depth := s.depth }] }) := by
      simp [ScopeTree.insert?, hfound]
    simp only [CheckM.declare, eval_bind, eval_get, exec_bind, exec_get, hinsert, exec_set,
      eval_pure, exec_pure]
    refine ⟨by simp [hfree], by simpa using h.size, h.ownership, fun name => ?_, ?_⟩
    · rw [scope_modify, if_pos ⟨rfl, h.size⟩, List.mem_cons, ← h.names name, or_comm]
      simp only [Scope.symbol?, List.find?_append, Option.isSome_or, Bool.or_eq_true]
      refine or_congr_right ?_
      by_cases hname : symbol.name = name
      · simp [hname]
      · simp [hname, Ne.symm hname]
    · rw [scope_modify, if_pos ⟨rfl, h.size⟩]
      exact h.ledger

/-- A record is opened in the scope's own ledger. -/
theorem allocate (p : Param) : AtParams scope owner taken
      (records ++ if owner.returnsOwnership then [] else [p.record owner.function])
      (c.allocate scope p.name p.span) := by
  obtain ⟨l, hl, hrecords⟩ := h.ledger
  have howner : c.scopes.ledgerOwner? scope = some scope := by
    simp [ScopeTree.ledgerOwner?, ScopeTree.ancestors, ScopeTree.climb, hl]
  simp only [Checker.allocate, howner]
  refine ⟨by simpa [ScopeTree.updateLedger] using h.size, h.ownership, fun name => ?_, ?_⟩
  · have hsame := field_updateLedger c.scopes scope
      (·.allocate p.span p.name c.ownership?) (·.symbol? name) (fun _ _ => rfl) scope
    exact hsame ▸ h.names name
  · refine ⟨_, by rw [ledger_updateLedger, if_pos rfl, hl, Option.map_some], ?_⟩
    rw [h.ownership, Ledger.allocate, Ledger.isRecorded]
    cases owner.returnsOwnership with
    | true => simp [hrecords]
    | false => simp [hrecords, Param.record]

/-- One parameter opens a record if it is bound, of pointer type and taken over, and the function
keeps records. -/
theorem declaredParam (p : Param) (ty : Ty) :
    ∃ opened, AtParams scope owner (p.name :: taken) (records ++ opened)
        (Check.declaredParam owner.takesOwnership scope p ty c) ∧
      ∀ a, a ∈ opened ↔
        p.name ∉ taken ∧ p.OpensRecord owner ty ∧ a = p.record owner.function := by
  obtain ⟨hfree, hdeclared⟩ := h.declare (p.symbol ty) p.span
  rw [Check.declaredParam]
  by_cases hopens : ((CheckM.declare scope (p.symbol ty) p.span).eval c &&
      (owner.takesOwnership || p.takesOwnership) && ty.isPointer) = true
  · rw [if_pos hopens]
    refine ⟨_, hdeclared.allocate p, fun a => ?_⟩
    simp only [Bool.and_eq_true, hfree] at hopens
    obtain ⟨⟨hname, htakes⟩, hpointer⟩ := hopens
    have hname : p.name ∉ taken := hname
    by_cases hreturns : owner.returnsOwnership = true
    · simp [Param.OpensRecord, hreturns]
    · simp [Param.OpensRecord, hreturns, hname, htakes, hpointer]
  · rw [if_neg hopens]
    refine ⟨[], by rwa [List.append_nil], fun a => ?_⟩
    refine iff_of_false List.not_mem_nil ?_
    rintro ⟨hname, ⟨htakes, hpointer, -⟩, -⟩
    rw [hfree.mpr hname, htakes, hpointer] at hopens
    exact hopens rfl

/-- The parameters of a function open one record each, where they are bound, of pointer type and
taken over, and the function keeps records. -/
theorem declareParams (params : List Param) (tys : List Ty) :
    ∃ taken' records', AtParams scope owner taken' records'
        ((Check.declareParams owner.takesOwnership scope params tys).exec c) ∧
      ∀ a, a ∈ records' ↔ a ∈ records ∨ ∃ i p ty, Bound params i p ∧ p.name ∉ taken ∧
        tys[i]? = some ty ∧ p.OpensRecord owner ty ∧ a = p.record owner.function := by
  induction params generalizing tys taken records c with
  | nil => exact ⟨taken, records, h, by simp [Bound]⟩
  | cons p ps ih =>
    cases tys with
    | nil => exact ⟨taken, records, h, by simp⟩
    | cons ty tys =>
      obtain ⟨opened, hp, hopened⟩ := h.declaredParam p ty
      obtain ⟨taken', records', hps, hrecords⟩ := ih hp tys
      rw [Check.exec_declareParams_cons]
      refine ⟨taken', records', hps, fun a => ?_⟩
      rw [hrecords, List.mem_append, or_assoc, hopened]
      refine or_congr_right ⟨?_, ?_⟩
      · rintro (⟨hname, hopens, ha⟩ | ⟨i, q, t, ⟨hq, hbefore⟩, hname, ht, hopens, ha⟩)
        · exact ⟨0, p, ty, ⟨rfl, by simp⟩, hname, rfl, hopens, ha⟩
        · have hother : p.name ≠ q.name := (List.ne_of_not_mem_cons hname).symm
          exact ⟨i + 1, q, t, ⟨hq, List.forall_mem_cons.mpr ⟨hother, hbefore⟩⟩,
            List.not_mem_of_not_mem_cons hname, ht, hopens, ha⟩
      · rintro ⟨i, q, t, ⟨hq, hbefore⟩, hname, ht, hopens, ha⟩
        cases i with
        | zero =>
          cases hq
          cases ht
          exact .inl ⟨hname, hopens, ha⟩
        | succ i =>
          obtain ⟨hother, hbefore⟩ := List.forall_mem_cons.mp hbefore
          exact .inr ⟨i, q, t, ⟨hq, hbefore⟩,
            List.not_mem_cons_of_ne_of_not_mem hother.symm hname, ht, hopens, ha⟩

end AtParams

namespace FnDecl

/-- The state in which the statements of a body are checked: the parameters are declared in the
scope of the body. -/
def atBody (f : FnDecl) (sig : Check.Signature) (parent : ScopeId) (name : String) (c : Checker) :
    Checker :=
  (Check.declareParams f.takesOwnership c.scopes.size f.params sig.params).exec
    (c.enteredBody parent name (f.frame sig name))

theorem atParams_enteredBody (f : FnDecl) (sig : Check.Signature) (parent : ScopeId)
    (name : String) (c : Checker) : AtParams c.scopes.size (f.frame sig name).ownership [] []
      (c.enteredBody parent name (f.frame sig name)) := by
  have hscope := scope_addScope_size
  refine ⟨?_, rfl, fun name => ?_, ?_⟩
  · exact Nat.lt_of_lt_of_eq (Nat.lt_succ_self _) (size_addScope ..).symm
  · simp [Checker.enteredBody, ScopeTree.addFunction, hscope, Scope.symbol?]
  · exact ⟨{}, by simp [Checker.enteredBody, ScopeTree.addFunction, hscope], rfl⟩

/-- The records with which a body begins. -/
theorem mem_allocations_atBody (f : FnDecl) (sig : Check.Signature) (parent : ScopeId)
    (name : String) (c : Checker) :
    ∃ l, ((f.atBody sig parent name c).scopes.scope c.scopes.size).ledger = some l ∧
      ∀ a, a ∈ l.allocations ↔ ∃ i p ty, Bound f.params i p ∧ sig.params[i]? = some ty ∧
        p.OpensRecord (f.frame sig name).ownership ty ∧ a = p.record name := by
  obtain ⟨taken, records, ⟨-, -, -, l, hl, rfl⟩, hrecords⟩ :=
    (f.atParams_enteredBody sig parent name c).declareParams f.params sig.params
  refine ⟨l, hl, fun a => ?_⟩
  rw [hrecords]
  simp [frame]

end FnDecl

/-! ### Both sides -/

/-- What a name is bound to by a declaration that goes through. -/
theorem symbol?_declare {symbol : Symbol} (hok : (declare home symbol span).eval c = true)
    (hs : (((declare home symbol span).exec c).scopes.scope home).symbol? symbol.name = some s) :
    s = { symbol with depth := (c.scopes.scope home).depth } := by
  cases hfound : (c.scopes.scope home).symbol? symbol.name with
  | some found => simp [declare, ScopeTree.insert?, hfound] at hok
  | none =>
    simp only [declare, ScopeTree.insert?, hfound, Option.isSome_none, Bool.false_eq_true, if_false,
      exec_bind, eval_get, exec_get, exec_set, exec_pure, scope_modify] at hs
    split at hs
    · have hnone : (c.scopes.scope home).symbols.find? (·.name == symbol.name) = none := hfound
      simpa [Scope.symbol?, List.find?_append, hnone, eq_comm] using hs
    · rw [hfound] at hs
      cases hs

/-- The marks of the symbol that a declaration binds to the name of its function. -/
theorem consumesArg_fnDecl {f : FnDecl} {sig : Check.Signature}
    (hsig : (Check.fnDecl f span home).eval c = some sig)
    (hs : (((Check.fnDecl f span home).exec c).scopes.scope home).symbol? f.name = some s) :
    s.kind = .function ∧ ∀ i, s.consumesArg i =
      (f.takesOwnership || (f.params.map (·.takesOwnership)).getD i false) := by
  unfold Check.fnDecl at hsig hs
  rw [eval_bind] at hsig
  rw [exec_bind] at hs
  cases hfound : (Check.signature f.params f.returnType home).eval c with
  | none => simp [hfound] at hsig
  | some sig' =>
    simp only [hfound, eval_bind, exec_bind] at hsig hs
    split at hsig
    next hok =>
      simp only [hok, if_true, exec_pure] at hs
      obtain rfl := symbol?_declare hok hs
      exact ⟨rfl, fun _ => rfl⟩
    · cases hsig

/-- A function that has been declared, and a call of it that has a type. -/
structure CallOf where
  decl : FnDecl
  span : Span
  /-- The scope of the declaration, and the state in which it was met. -/
  home : ScopeId
  before : Checker
  sig : Check.Signature
  declared : (Check.fnDecl decl span home).eval before = some sig
  /-- What the name of the function is bound to from then on. -/
  symbol : Symbol
  bound : (((Check.fnDecl decl span home).exec before).scopes.scope home).symbol? decl.name =
    some symbol
  /-- The call, its scope and the state in which it is met. -/
  id : NodeId
  place : Span
  callee : Expr
  args : List Expr
  scope : ScopeId
  state : Checker
  names : Check.namedSymbol? state callee scope = some symbol
  ty : Ty
  typed : ((⟨id, place, .call callee args⟩ : Expr).check scope).eval state = some ty

namespace CallOf

variable (x : CallOf)

def call : Expr := ⟨x.id, x.place, .call x.callee x.args⟩

/-- The types of the arguments. -/
def argTypes : List (Option Ty) := (Check.callParts x.callee x.args x.scope).eval x.state

/-- The state once callee and arguments are typed. -/
def argsTyped : Checker := (Check.callParts x.callee x.args x.scope).exec x.state

/-- The arguments that the call hands over. -/
def handedOver : List Check.HandOver := Check.handOvers x.symbol.consumesArg 0 x.args x.argTypes

/-- The state before the body of the function. -/
def declaredState : Checker := (Check.fnDecl x.decl x.span x.home).exec x.before

/-- The ledger of the body when its statements are checked. -/
def bodyLedger : Option Ledger :=
  ((x.decl.atBody x.sig x.home x.decl.name x.declaredState).scopes.scope
    x.declaredState.scopes.size).ledger

/-- The argument at a position is the name of a pointer. -/
def PassesPointer (i : Nat) : Prop :=
  ∃ arg ty, x.args[i]? = some arg ∧ arg.ident?.isSome = true ∧ x.argTypes[i]? = some (some ty) ∧
    ty.isPointer = true

/-- The call transfers the argument at a position. -/
def HandsOver (i : Nat) : Prop :=
  ∃ arg name, x.args[i]? = some arg ∧ arg.ident? = some name ∧
    { index := i, name, span := arg.span } ∈ x.handedOver

/-- The body is checked with a fresh record for the parameter at a position. -/
def HasRecord (i : Nat) : Prop :=
  ∃ p l, Bound x.decl.params i p ∧ x.bodyLedger = some l ∧
    p.record x.decl.name ∈ l.allocations

/-- The parameter at a position is one for which a body can have a record: the function does not
hand its pointers to the caller, the parameter is of pointer type, and none before it has its
name. -/
def CanRecord (i : Nat) : Prop :=
  x.decl.returnsOwnership = false ∧ (∃ ty, x.sig.params[i]? = some ty ∧ ty.isPointer = true) ∧
    ∃ p, Bound x.decl.params i p

theorem handsOver_iff (h : x.PassesPointer i) : x.HandsOver i ↔ x.symbol.consumesArg i = true := by
  obtain ⟨arg, ty, harg, hident, hty, hpointer⟩ := h
  obtain ⟨name, hname⟩ := Option.isSome_iff_exists.mp hident
  constructor
  · rintro ⟨arg', name', -, -, hmem⟩
    obtain ⟨a, t, -, -, hsome⟩ := Check.mem_handOvers.mp hmem
    unfold Check.handOver? at hsome
    split at hsome
    next hconsumes => exact (Bool.and_eq_true_iff.mp hconsumes).1
    · cases hsome
  · intro hconsumes
    refine ⟨arg, name, harg, hname, Check.mem_handOvers.mpr ⟨arg, some ty, harg, hty, ?_⟩⟩
    simp [Check.handOver?, hconsumes, hpointer, hname]

theorem hasRecord_iff :
    x.HasRecord i ↔ ∃ p ty, Bound x.decl.params i p ∧ x.sig.params[i]? = some ty ∧
      p.OpensRecord (x.decl.frame x.sig x.decl.name).ownership ty := by
  obtain ⟨l, hl, hmem⟩ :=
    x.decl.mem_allocations_atBody x.sig x.home x.decl.name x.declaredState
  constructor
  · rintro ⟨p, l', hp, hl', ha⟩
    obtain rfl : l' = l := Option.some.inj (hl'.symm.trans hl)
    obtain ⟨j, q, ty, hq, hty, hopens, hrecord⟩ := (hmem _).mp ha
    -- records tell parameters apart by their names
    obtain rfl : i = j := hp.index_eq hq (congrArg Allocation.name hrecord)
    exact ⟨q, ty, hq, hty, hopens⟩
  · rintro ⟨p, ty, hp, hty, hopens⟩
    exact ⟨p, l, hp, hl, (hmem _).mpr ⟨i, p, ty, hp, hty, hopens, rfl⟩⟩

/-- **Caller and callee agree on what is handed over.** Once its arguments are typed, a call of a
declared function does nothing but transfer the arguments in `handedOver`. For an argument that is
the name of a pointer, the body of the function is checked with a fresh record for the parameter
exactly if the call transfers the argument and the parameter is one that can have a record. -/
theorem hasRecord_iff_handsOver :
    (x.call.check x.scope).exec x.state =
        (x.handedOver.foldl (Check.handedOver x.scope) x.argsTyped).record x.id x.ty ∧
      ∀ i, x.PassesPointer i → (x.HasRecord i ↔ x.HandsOver i ∧ x.CanRecord i) := by
  obtain ⟨hkind, hconsumes⟩ := consumesArg_fnDecl x.declared x.bound
  constructor
  · exact Check.exec_call_of_symbol x.names (by rw [hkind]; decide) x.typed
  · intro i hi
    have hmark : ∀ {p}, Bound x.decl.params i p →
        x.symbol.consumesArg i = (x.decl.takesOwnership || p.takesOwnership) := by
      intro p hp
      rw [hconsumes, List.getD_eq_getElem?_getD, List.getElem?_map, hp.1]
      rfl
    rw [x.handsOver_iff hi, x.hasRecord_iff]
    constructor
    · rintro ⟨p, ty, hp, hty, htakes, hpointer, hreturns⟩
      exact ⟨(hmark hp).trans htakes, hreturns, ⟨ty, hty, hpointer⟩, p, hp⟩
    · rintro ⟨htakes, hreturns, ⟨ty, hty, hpointer⟩, p, hp⟩
      exact ⟨p, ty, hp, hty, (hmark hp).symm.trans htakes, hpointer, hreturns⟩

end CallOf

/-! ### Calls in a small module -/

namespace CallOf

/-- The state in which the statements of the only module are checked. -/
def start : Checker := { scopes := (ScopeTree.initial.addModule? "main").getD .initial }

/-- A function that takes over all pointers it is given. -/
def taking (params : List Param) (returns : Bool) : FnDecl :=
  { name := "f", params, returnType := .named {} none "void", body := ⟨{}, []⟩, isPublic := false,
    returnsOwnership := returns, takesOwnership := true }

/-- Statements that declare such a function, and a pointer `q` to pass to it. -/
def declaring (params : List Param) (returns : Bool) : List Stmt :=
  [⟨{}, .fn (taking params returns)⟩,
    ⟨{}, .var { name := "q", ty := some (.pointer {} (.named {} none "int")),
                value := some ⟨0, {}, .call ⟨1, {}, .ident "alloc"⟩ [⟨2, {}, .int 8⟩]⟩ }⟩]

/-- The symbol of such a function. -/
def symbolOf (params : List Param) (tys : List Ty) (returns : Bool) : Symbol :=
  { name := "f", ty := .function tys .void, kind := .function, depth := 1,
    returnsOwnership := returns, takesOwnership := true,
    ownedParams := params.map (·.takesOwnership) }

/-- The call of such a function after these statements. -/
def afterDeclaring (params : List Param) (tys : List Ty) (returns : Bool) (args : List Expr)
    (declared : (Check.fnDecl (taking params returns) {} 1).eval start = some ⟨tys, .void⟩)
    (bound : (((Check.fnDecl (taking params returns) {} 1).exec start).scopes.scope 1).symbol? "f" =
      some (symbolOf params tys returns))
    (names : Check.namedSymbol? ((checkStmts 1 (declaring params returns)).exec start)
      ⟨4, {}, .ident "f"⟩ 1 = some (symbolOf params tys returns))
    (typed : ((⟨3, {}, .call ⟨4, {}, .ident "f"⟩ args⟩ : Expr).check 1).eval
      ((checkStmts 1 (declaring params returns)).exec start) = some .void) : CallOf :=
  { decl := taking params returns, span := {}, home := 1, before := start, sig := ⟨tys, .void⟩,
    declared, symbol := symbolOf params tys returns, bound, id := 3, place := {},
    callee := ⟨4, {}, .ident "f"⟩, args, scope := 1,
    state := (checkStmts 1 (declaring params returns)).exec start, names, ty := .void, typed }

/-- The call `f(q)` of a function with a parameter `p : *int`, which keeps what it is given or hands
it back. -/
def ofPointer (returns : Bool) : CallOf :=
  afterDeclaring [{ name := "p", ty := .pointer {} (.named {} none "int") }] [.pointer .int] returns
    [⟨5, {}, .ident "q"⟩] (by cases returns <;> rfl) (by cases returns <;> rfl)
    (by cases returns <;> rfl) (by cases returns <;> rfl)

/-- The call `f(q)` of a function with a parameter `p : [int]`. -/
def ofArray : CallOf :=
  afterDeclaring [{ name := "p", ty := .array {} (.named {} none "int") none }] [.array .int none]
    false [⟨5, {}, .ident "q"⟩] rfl rfl rfl rfl

/-- The call `f(q, q)` of a function that declares its parameter `p : *int` twice. -/
def ofRepeated : CallOf :=
  afterDeclaring (List.replicate 2 { name := "p", ty := .pointer {} (.named {} none "int") })
    (List.replicate 2 (.pointer .int)) false [⟨5, {}, .ident "q"⟩, ⟨6, {}, .ident "q"⟩]
    rfl rfl rfl rfl

theorem hasRecord_ofPointer :
    (ofPointer false).PassesPointer 0 ∧ (ofPointer false).CanRecord 0 ∧
      ((ofPointer false).HasRecord 0 ↔
        (ofPointer false).HandsOver 0 ∧ (ofPointer false).CanRecord 0) ∧
      (ofPointer false).HasRecord 0 := by
  have hpasses : (ofPointer false).PassesPointer 0 := ⟨_, _, rfl, rfl, rfl, rfl⟩
  have hcan : (ofPointer false).CanRecord 0 := ⟨rfl, ⟨_, rfl, rfl⟩, _, rfl, nofun⟩
  have hhands : (ofPointer false).HandsOver 0 := ((ofPointer false).handsOver_iff hpasses).mpr rfl
  have hiff := (ofPointer false).hasRecord_iff_handsOver.2 0 hpasses
  exact ⟨hpasses, hcan, hiff, hiff.mpr ⟨hhands, hcan⟩⟩

/-- Without any of the three conditions a pointer can be handed over to a body that has no record
for it: in a function that hands its pointers to the caller, for a parameter of array type, and for
a parameter whose name is taken. -/
theorem handsOver_without_record :
    ((ofPointer true).PassesPointer 0 ∧ (ofPointer true).HandsOver 0 ∧
        ¬(ofPointer true).HasRecord 0) ∧
      (ofArray.PassesPointer 0 ∧ ofArray.HandsOver 0 ∧ ¬ofArray.HasRecord 0) ∧
      ofRepeated.PassesPointer 1 ∧ ofRepeated.HandsOver 1 ∧ ¬ofRepeated.HasRecord 1 := by
  have hreturns : (ofPointer true).PassesPointer 0 := ⟨_, _, rfl, rfl, rfl, rfl⟩
  have harray : ofArray.PassesPointer 0 := ⟨_, _, rfl, rfl, rfl, rfl⟩
  have hrepeated : ofRepeated.PassesPointer 1 := ⟨_, _, rfl, rfl, rfl, rfl⟩
  refine ⟨⟨hreturns, (handsOver_iff _ hreturns).mpr rfl, ?_⟩,
    ⟨harray, (handsOver_iff _ harray).mpr rfl, ?_⟩,
    hrepeated, (handsOver_iff _ hrepeated).mpr rfl, ?_⟩
  · rw [hasRecord_iff]
    rintro ⟨p, ty, -, -, -, -, hkeeps⟩
    cases hkeeps
  · rw [hasRecord_iff]
    rintro ⟨p, ty, -, hty, -, hpointer, -⟩
    cases hty
    cases hpointer
  · rw [hasRecord_iff]
    rintro ⟨p, ty, ⟨hp, hbefore⟩, -⟩
    cases hp
    exact hbefore _ (List.mem_singleton_self _) rfl

end CallOf

end Warden
