import Warden.Proofs.Dereference
import Warden.Proofs.Exhaustiveness

/-!
# The receiver of a method call

A method is called on a value, as in `p.m(…)`, or through its struct, as in `S.m(p, …)`. Both calls
look the member up in the same struct and compare the same arguments with the same parameters, so
they are typed alike. But only explicit arguments are ever handed over. In `S.m(p, …)` the receiver
is one of them, and it leaves the caller if the method takes `self` over; in `p.m(…)` it stays.

`dot_call_agrees_iff` says exactly when the two calls come to the same. If they do not, no later
hand-over can make up for it: every hand-over of a name with a record frees the record or is a
finding (`Checker.charge_release`), and one of the two calls hands over one name more.
`method_frees_receiver_unnoticed` is a program in which the method frees what it was given and the
caller is told that it leaks.
-/

namespace Warden

open CheckM Check ScopeTree Checker

variable {scope : ScopeId} {found : StructMember} {c d : Checker} {id : StructId} {ty : Ty}

/-! ### What a hand-over comes to -/

/-- A record that is handed over is freed by it, or was freed before, which is reported. -/
theorem Ledger.freed_release (l : Ledger) (name : String) (span : Span) :
    (l.release name span .transfer).1.allocations.countP (·.isFreed) +
        ((l.release name span .transfer).2.cause? name .transfer).toList.length =
      l.allocations.countP (·.isFreed) + if (l.allocation? name).isSome then 1 else 0 := by
  cases ha : l.allocation? name with
  | none =>
    rw [release_of_none ha]
    rfl
  | some a =>
    obtain ⟨hname, older, newer, hsplit, hnewer⟩ := exists_split_of_allocation? ha
    rw [release_of_some hsplit hname hnewer, hsplit]
    by_cases hfreed : a.isFreed = true
    · simp [released, outcomeOf, hfreed, FreeOutcome.cause?]
    · simp [released, outcomeOf, hfreed, FreeOutcome.cause?, markFreed, Nat.add_assoc]

namespace Checker

variable {c : Checker} {scope : ScopeId} {name : String}

/-- A release changes neither which ledgers answer for a name nor whether they have a record. -/
theorem isSome_recordBehind?_release (span : Span) (kind : FreeKind) (other : String) :
    ((c.release scope name span kind).recordBehind? scope other).isSome =
      (c.recordBehind? scope other).isSome := by
  have hsome : ∀ c : Checker, (c.recordBehind? scope other).isSome =
      (c.scopes.ledgerFor? scope other).any fun i =>
        (c.scopes.scope i).ledger.any (·.knows other) := by
    intro c
    rw [recordBehind?]
    cases c.scopes.ledgerFor? scope other with
    | none => rfl
    | some i => cases hl : (c.scopes.scope i).ledger <;> simp [hl, Ledger.knows]
  have hknows : ∀ i, ((c.release scope name span kind).scopes.scope i).ledger.any (·.knows other) =
      (c.scopes.scope i).ledger.any (·.knows other) :=
    any_ledger_release fun l => by simp
  rw [hsome, hsome, ledgerFor?_release]
  simp only [hknows]

/-- How many records are freed, and how much the memory analysis has found. -/
def charge (c : Checker) : Nat :=
  c.context.findings.countP (·.isMemory) + c.scopes.total fun _ s => s.records.countP (·.isFreed)

/-- Only records and findings of the memory analysis are counted. -/
theorem charge_congr (hsize : d.scopes.size = c.scopes.size)
    (hledger : ∀ i, (d.scopes.scope i).ledger = (c.scopes.scope i).ledger)
    (hfound : d.context.findings.countP (·.isMemory) = c.context.findings.countP (·.isMemory)) :
    d.charge = c.charge := by
  rw [charge, charge, hfound]
  congr 1
  exact total_congr hsize fun i _ => by simp only [Scope.records, hledger]

theorem countP_reportAny (context : Context) (span : Span) {cause? : Option Cause}
    (h : ∀ cause ∈ cause?, cause.tag.isMemory = true) :
    (context.reportAny span cause?).findings.countP (·.isMemory) =
      context.findings.countP (·.isMemory) + cause?.toList.length := by
  cases cause? with
  | none => rfl
  | some cause =>
    have hcause : cause.tag.isMemory = true := h cause rfl
    simp [Context.reportAny, Context.report, Finding.isMemory, Finding.tag, hcause]

/-- A name that is handed over frees its record or is a finding. -/
theorem charge_release (span : Span) : (c.release scope name span .transfer).charge =
      c.charge + if (c.recordBehind? scope name).isSome then 1 else 0 := by
  cases hid : c.scopes.ledgerFor? scope name with
  | none => simp [release, recordBehind?, hid]
  | some id =>
    cases hl : (c.scopes.scope id).ledger with
    | none => simp [release, recordBehind?, hid, hl]
    | some l =>
      have hlt : id < c.scopes.size := lt_size_of_scope_ne fun hout => by simp [hout] at hl
      have htotal := c.scopes.total_modify hlt
        (fun s => { s with ledger := s.ledger.map fun l => (l.release name span .transfer).1 })
        fun _ s => s.records.countP (·.isFreed)
      have hbehind : c.recordBehind? scope name = l.allocation? name := by
        simp [recordBehind?, hid, hl]
      have hledger := l.freed_release name span
      rw [release_eq hid hl, charge, charge, hbehind,
        countP_reportAny _ _ FreeOutcome.isMemory_of_mem_cause?]
      simp only [Scope.records, hl, Option.map_some, Option.elim_some] at htotal
      simp only [ScopeTree.updateLedger, Scope.records]
      omega

/-- A name without a record is handed over without a trace. -/
theorem release_of_recordBehind?_eq_none (h : c.recordBehind? scope name = none) (span : Span) :
    c.release scope name span .transfer = c := by
  cases hid : c.scopes.ledgerFor? scope name with
  | none => simp only [release, hid]
  | some id =>
    cases hl : (c.scopes.scope id).ledger with
    | none => simp only [release, hid, hl]
    | some l =>
      have ha : l.allocation? name = none := by simpa [recordBehind?, hid, hl] using h
      have hsame : c.scopes.updateLedger id (fun l => (l.release name span .transfer).1) =
          c.scopes := by
        refine modify_eq_self ?_
        rw [hl, Option.map_some, Ledger.release_of_none ha, ← hl]
      rw [release_eq hid hl, hsame, Ledger.release_of_none ha]
      rfl

theorem release_record (c : Checker) (node : NodeId) (ty : Ty) (scope : ScopeId) (name : String)
    (span : Span) (kind : FreeKind) : (c.record node ty).release scope name span kind =
      (c.release scope name span kind).record node ty := by
  simp only [release, record]
  cases c.scopes.ledgerFor? scope name with
  | none => rfl
  | some id => cases hl : (c.scopes.scope id).ledger <;> simp [hl]

end Checker

namespace Check

variable {scope : ScopeId}

/-- The charge of handing names over, one after the other. -/
theorem charge_handedOver (hs : List HandOver) (c : Checker) :
    (hs.foldl (handedOver scope) c).charge =
      c.charge + hs.countP fun h => (c.recordBehind? scope h.name).isSome := by
  induction hs generalizing c with
  | nil => rfl
  | cons h hs ih =>
    simp only [List.foldl_cons, ih, handedOver, isSome_recordBehind?_release,
      charge_release, List.countP_cons]
    omega

theorem handedOver_record (hs : List HandOver) (node : NodeId) (ty : Ty) (c : Checker) :
    hs.foldl (handedOver scope) (c.record node ty) =
      (hs.foldl (handedOver scope) c).record node ty := by
  induction hs generalizing c with
  | nil => rfl
  | cons h hs ih => simp only [List.foldl_cons, handedOver, release_record, ih]

/-! ### The call of a member -/

/-- Positions may be counted from a later one. -/
theorem transfer_succ (consumes : Nat → Bool) (scope : ScopeId) (index : Nat) (args : List Expr)
    (tys : List (Option Ty)) : transfer consumes scope (index + 1) args tys =
      transfer (fun i => consumes (i + 1)) scope index args tys := by
  induction args generalizing index tys with
  | nil => rfl
  | cons arg args ih =>
    cases tys with
    | nil => rfl
    | cons ty tys => simp only [transfer, ih]

/-- A member that a scope may use is found without a word. -/
theorem member_of_eval_structMember {member : String} {span : Span} {scope : ScopeId}
    (h : (structMember id member span scope).eval c = some found) :
    c.structs.member? id member = some found ∧ (structMember id member span scope).exec c = c := by
  rw [structMember, eval_get_bind] at h
  rw [structMember, exec_get_bind, StructTable.member?]
  cases hd : c.structs.get? id with
  | none => simp [hd] at h
  | some d =>
    cases hm : d.member? member with
    | none => simp [hd, hm] at h
    | some m =>
      by_cases hprivate : (!m.isPublic && d.module != c.moduleAt scope) = true
      · simp [hd, hm, hprivate] at h
      · rw [Bool.not_eq_true] at hprivate
        simp only [hd, hm, hprivate, Bool.false_eq_true, if_false, eval_pure, exec_pure] at h ⊢
        exact ⟨hm.trans h, trivial⟩

/-- Where a member is looked for does not matter to what is found. -/
theorem eval_structMember_congr (id : StructId) (member : String) (span span' : Span)
    (scope : ScopeId) (c : Checker) :
    (structMember id member span scope).eval c = (structMember id member span' scope).eval c := by
  rw [structMember, structMember, eval_get_bind, eval_get_bind]
  cases c.structs.get? id with
  | none => rfl
  | some d =>
    cases hm : d.member? member with
    | none => simp [hm]
    | some found =>
      simp only [hm]
      split <;> rfl

theorem eval_argumentTypes_congr (params : List Ty) (args : List Expr) (tys : List (Option Ty))
    (c d : Checker) :
    (argumentTypes params args tys).eval c = (argumentTypes params args tys).eval d := by
  induction params generalizing args tys c d with
  | nil => rfl
  | cons param params ih =>
    cases args with
    | nil => rfl
    | cons arg args =>
      cases tys with
      | nil => rfl
      | cons ty tys =>
        cases ty with
        | none => simp [argumentTypes]
        | some ty =>
          by_cases hfits : param.assignable ty = true
          · simpa [argumentTypes, hfits] using ih args tys c d
          · simp [argumentTypes, hfits]

/-- An argument that fits the first parameter can be left out together with it. -/
theorem eval_arguments_cons {callee : String} {param : Ty} (hfits : param.assignable ty = true)
    (params : List Ty) (arg : Expr) (args : List Expr) (tys : List (Option Ty)) (span span' : Span)
    (c d : Checker) :
    (arguments callee (param :: params) (arg :: args) (some ty :: tys) span).eval c =
      (arguments callee params args tys span').eval d := by
  by_cases hlength : params.length = args.length
  · simpa [arguments, hlength, argumentTypes, hfits] using
      eval_argumentTypes_congr params args tys c d
  · simp [arguments, hlength]

section

variable {callee : Expr} {id : StructId} {receiver : Option Ty} {args : List Expr}
  {tys : List (Option Ty)} {span : Span} {scope : ScopeId} {c : Checker} {found : StructMember}
  {params explicit : List Ty} {offset : Nat} {ret : Ty} {member : String}
  (hfound : (structMember id member callee.span scope).eval c = some found)
  (hfunction : found.ty = .function params ret)
  (hexplicit : explicitParams found params receiver callee.span = pure (some (explicit, offset)))

include hfound hfunction hexplicit

theorem eval_memberCall : (memberCall callee id receiver member args tys span scope).eval c =
      if (arguments member explicit args tys span).eval (c.record callee.id found.ty) then some ret
      else none := by
  obtain ⟨-, hexec⟩ := member_of_eval_structMember hfound
  simp only [memberCall, eval_bind, hfound, hexec, exec_modify, hfunction, hexplicit, eval_pure,
    exec_pure]

/-- All that the call of a member does with arguments that fit is to hand them over. -/
theorem exec_memberCall
    (hok : (arguments member explicit args tys span).eval (c.record callee.id found.ty) = true) :
    (memberCall callee id receiver member args tys span scope).exec c =
      (transfer (fun i => found.consumesParam (i + offset)) scope 0 args tys).exec
        (c.record callee.id found.ty) := by
  obtain ⟨-, hexec⟩ := member_of_eval_structMember hfound
  obtain ⟨-, hargs⟩ := exec_arguments hok
  rw [hfunction] at hok hargs ⊢
  simp only [memberCall, exec_bind, hfound, hexec, exec_modify, hfunction, hexplicit,
    eval_pure, exec_pure, hargs]

end

/-- A method call with a type, once receiver and arguments are typed. -/
theorem check_methodCall {callee : Expr} {scope : ScopeId}
    (hform : callForm c callee scope = .method) {receiver : Receiver}
    (hreceiver : (callee.checkReceiver scope).eval c = receiver)
    (hd : (callee.checkReceiver scope).exec c = d) (args : List Expr) (node : NodeId)
    (span : Span) :
    let call := methodCall callee receiver args ((checkExprs scope args).eval d) span scope
    (Expr.check scope ⟨node, span, .call callee args⟩).eval c =
        call.eval ((checkExprs scope args).exec d) ∧
      ∀ ty, call.eval ((checkExprs scope args).exec d) = some ty →
        (Expr.check scope ⟨node, span, .call callee args⟩).exec c =
          (call.exec ((checkExprs scope args).exec d)).record node ty := by
  subst hreceiver hd
  dsimp only
  constructor
  · simp only [Expr.check, ExprKind.check, eval_bind, eval_get, exec_get, hform, eval_recorded]
  · intro ty hty
    simp only [Expr.check, ExprKind.check, eval_bind, exec_bind, eval_get, exec_get, hform, hty,
      exec_recorded_some]

end Check

/-! ### The two calls -/

/-- An object that names a struct is neither an enum nor a module. -/
theorem callForm_of_namedStruct? {object : Expr} (h : namedStruct? c object scope = some id)
    (k : NodeId) (around : Span) (m : String) :
    callForm c ⟨k, around, .member object m⟩ scope = .method := by
  obtain ⟨node, span, kind⟩ := object
  unfold namedStruct? at h
  cases hsymbol : namedSymbol? c ⟨node, span, kind⟩ scope with
  | none => simp [hsymbol] at h
  | some symbol =>
    have henum : isEnumSymbol symbol = false := by
      cases hkind : symbol.kind <;> simp_all [isEnumSymbol, Symbol.enumMembers?]
    cases kind with
    | ident name =>
      have hlookup : c.scopes.lookup? scope name = some symbol := hsymbol
      simp [callForm, namesEnumOrModule, hlookup, henum]
    | qualified module name =>
      have hlookup : c.scopes.qualified? scope module name = some symbol := hsymbol
      simp [callForm, namesEnumOrModule, hlookup, henum]
    | _ => simp [namedSymbol?] at hsymbol

/-- A value names no struct, enum or module. -/
theorem callForm_of_eval_ident {p : String} {i : NodeId} {place : Span}
    (h : (Expr.check scope ⟨i, place, .ident p⟩).eval c = some ty) (k : NodeId) (around : Span)
    (m : String) : namedStruct? c ⟨i, place, .ident p⟩ scope = none ∧
      callForm c ⟨k, around, .member ⟨i, place, .ident p⟩ m⟩ scope = .method := by
  obtain ⟨symbol, hlookup, htype, -⟩ := lookup?_of_eval_ident h
  constructor
  · simp only [namedStruct?, namedSymbol?, hlookup]
    cases hkind : symbol.kind <;> simp_all [Symbol.isType]
  · have henum : isEnumSymbol symbol = false := by
      cases hkind : symbol.kind <;> simp_all [isEnumSymbol, Symbol.enumMembers?, Symbol.isType]
    simp [callForm, namesEnumOrModule, hlookup, henum]

/-- A name that points to a struct, a method of the struct that is called on such pointers, and
explicit arguments for a call. -/
structure PointerCall where
  state : Checker
  scope : ScopeId
  /-- The name, and where it stands. -/
  name : String
  node : NodeId
  place : Span
  /-- The struct that it points to, and an object that names the struct. -/
  struct : StructId
  structName : String
  object : Expr
  pointer : (Expr.check scope ⟨node, place, .ident name⟩).eval state =
    some (.pointer (.struct struct structName))
  names : namedStruct? state object scope = some struct
  /-- The method, with the parameters after `self`. -/
  method : String
  member : StructMember
  params : List Ty
  ret : Ty
  found : state.structs.member? struct method = some member
  hasSelf : ∃ traits, member.kind = .method traits ∧ traits.hasSelf = true
  takesPointer : member.ty = .function (.pointer (.struct struct structName) :: params) ret
  args : List Expr

namespace PointerCall

variable (x : PointerCall) (j k : NodeId) (span around : Span)

def receiver : Expr := ⟨x.node, x.place, .ident x.name⟩

/-- The call on the value: `p.m(…)`. -/
def onValue : Expr := ⟨j, span, .call ⟨k, around, .member x.receiver x.method⟩ x.args⟩

/-- The call through the struct: `S.m(p, …)`. -/
def throughStruct : Expr :=
  ⟨j, span, .call ⟨k, around, .member x.object x.method⟩ (x.receiver :: x.args)⟩

/-- The state in which the receiver is typed. -/
def receiverTyped : Checker := (x.receiver.check x.scope).exec x.state

/-- The types of the explicit arguments. -/
def argTypes : List (Option Ty) := (checkExprs x.scope x.args).eval x.receiverTyped

/-- The state in which receiver and arguments are typed. -/
def partsTyped : Checker := (checkExprs x.scope x.args).exec x.receiverTyped

/-- The explicit arguments that are handed over. -/
def handOvers : List HandOver :=
  Check.handOvers (fun i => x.member.consumesParam (i + 1)) 0 x.args x.argTypes

/-- The state once the receiver has been handed over, if the method takes it over. -/
def receiverPassed : Checker :=
  if x.member.consumesParam 0 then
    x.partsTyped.release x.scope x.name x.place .transfer
  else x.partsTyped

theorem explicitParams_onValue :
    explicitParams x.member (.pointer (.struct x.struct x.structName) :: x.params)
      (some (.pointer (.struct x.struct x.structName))) around = pure (some (x.params, 1)) := by
  obtain ⟨⟨hasSelf, _, _, _⟩, hkind, rfl⟩ := x.hasSelf
  simp [explicitParams, hkind, receiverFits, Ty.assignable_self]

/-- Nothing that is typed changes which members there are. -/
theorem member_partsTyped (h : x.partsTyped.structs.member? x.struct x.method = some found) :
    found = x.member := by
  have hstructs : x.partsTyped.structs = x.state.structs := by
    rw [partsTyped, receiverTyped, ((rule_exprs x.scope x.args).observes.quiet _).structs,
      ((rule_expr x.scope x.receiver).observes.quiet _).structs]
  rw [hstructs, x.found] at h
  exact (Option.some.inj h).symm

/-- The call on the value looks the member up in the struct that the receiver points to. -/
theorem check_onValue :
    let call := memberCall ⟨k, around, .member x.receiver x.method⟩ x.struct
      (some (.pointer (.struct x.struct x.structName))) x.method x.args x.argTypes span x.scope
    ((x.onValue j k span around).check x.scope).eval x.state = call.eval x.partsTyped ∧
      ∀ ty, call.eval x.partsTyped = some ty →
        ((x.onValue j k span around).check x.scope).exec x.state =
          (call.exec x.partsTyped).record j ty := by
  obtain ⟨hvalue, hform⟩ := callForm_of_eval_ident x.pointer k around x.method
  have hreceiver : (Expr.checkReceiver x.scope ⟨k, around, .member x.receiver x.method⟩).eval
      x.state = .value (some (.pointer (.struct x.struct x.structName))) := by
    rw [Expr.checkReceiver, eval_get_bind, receiver, hvalue, eval_bind, x.pointer]
    rfl
  have htyped : (Expr.checkReceiver x.scope ⟨k, around, .member x.receiver x.method⟩).exec
      x.state = x.receiverTyped := by
    rw [Expr.checkReceiver, exec_get_bind, receiver, hvalue]
    rfl
  exact check_methodCall hform hreceiver htyped x.args j span

/-- The call through the struct looks the member up in the same struct. -/
theorem check_throughStruct :
    let call := memberCall ⟨k, around, .member x.object x.method⟩ x.struct none x.method
      (x.receiver :: x.args) (some (.pointer (.struct x.struct x.structName)) :: x.argTypes) span
      x.scope
    ((x.throughStruct j k span around).check x.scope).eval x.state = call.eval x.partsTyped ∧
      ∀ ty, call.eval x.partsTyped = some ty →
        ((x.throughStruct j k span around).check x.scope).exec x.state =
          (call.exec x.partsTyped).record j ty := by
  have hform := callForm_of_namedStruct? x.names k around x.method
  have hreceiver : (Expr.checkReceiver x.scope ⟨k, around, .member x.object x.method⟩).eval
      x.state = .type x.struct := by
    rw [Expr.checkReceiver, eval_get_bind, x.names]
    rfl
  have htyped : (Expr.checkReceiver x.scope ⟨k, around, .member x.object x.method⟩).exec
      x.state = x.state := by
    rw [Expr.checkReceiver, exec_get_bind, x.names]
    rfl
  have hparts : (checkExprs x.scope (x.receiver :: x.args)).exec x.state = x.partsTyped := rfl
  have htys : (checkExprs x.scope (x.receiver :: x.args)).eval x.state =
      some (.pointer (.struct x.struct x.structName)) :: x.argTypes := by
    rw [checkExprs, eval_bind, receiver, x.pointer]
    rfl
  have hcall := check_methodCall hform hreceiver htyped (x.receiver :: x.args) j span
  rw [hparts, htys] at hcall
  exact hcall

section

variable (h : ((x.onValue j k span around).check x.scope).eval x.state = some ty)

include h

/-- A call on the value that has a type has the type of the method, and its arguments fit. -/
theorem typed_onValue : ty = x.ret ∧
      (structMember x.struct x.method around x.scope).eval x.partsTyped = some x.member ∧
      (arguments x.method x.params x.args x.argTypes span).eval
        (x.partsTyped.record k x.member.ty) = true := by
  have hcall := (x.check_onValue j k span around).1.symm.trans h
  cases hmember : (structMember x.struct x.method around x.scope).eval x.partsTyped with
  | none => simp [memberCall, hmember] at hcall
  | some found =>
    obtain rfl := x.member_partsTyped (member_of_eval_structMember hmember).1
    have hcall := hcall.symm.trans
      (eval_memberCall hmember x.takesPointer (x.explicitParams_onValue around))
    split at hcall
    next hok => exact ⟨Option.some.inj hcall, rfl, hok⟩
    · cases hcall

theorem exec_onValue : ((x.onValue j k span around).check x.scope).exec x.state =
      ((x.handOvers.foldl (handedOver x.scope) x.partsTyped).record k x.member.ty).record j ty := by
  obtain ⟨-, hmember, hok⟩ := x.typed_onValue j k span around h
  obtain ⟨heval, hexec⟩ := x.check_onValue j k span around
  refine (hexec ty (heval.symm.trans h)).trans (congrArg (Checker.record · j ty) ?_)
  refine Eq.trans (exec_memberCall hmember x.takesPointer (x.explicitParams_onValue around) hok) ?_
  rw [exec_transfer, handedOver_record]
  rfl

/-- If the call on the value has a type, so has the call through the struct, and there the receiver
is handed over first if the method takes it over. -/
theorem exec_throughStruct (j' k' : NodeId) (span' around' : Span) :
    ((x.throughStruct j' k' span' around').check x.scope).eval x.state = some ty ∧
      ((x.throughStruct j' k' span' around').check x.scope).exec x.state =
        ((x.handOvers.foldl (handedOver x.scope) x.receiverPassed).record k' x.member.ty).record
          j' ty := by
  obtain ⟨rfl, hmember, hok⟩ := x.typed_onValue j k span around h
  obtain ⟨heval, hexec⟩ := x.check_throughStruct j' k' span' around'
  rw [eval_structMember_congr _ _ _ around'] at hmember
  rw [← eval_arguments_cons (Ty.assignable_self _) _ x.receiver _ _ span' _
    (x.partsTyped.record k' x.member.ty)] at hok
  have htyped : (memberCall ⟨k', around', .member x.object x.method⟩ x.struct none x.method
      (x.receiver :: x.args) (some (.pointer (.struct x.struct x.structName)) :: x.argTypes) span'
      x.scope).eval x.partsTyped = some x.ret :=
    Eq.trans (eval_memberCall hmember x.takesPointer rfl) (if_pos hok)
  refine ⟨heval.trans htyped, ?_⟩
  refine (hexec _ htyped).trans (congrArg (Checker.record · j' x.ret) ?_)
  refine Eq.trans (exec_memberCall hmember x.takesPointer rfl hok) ?_
  have hpassed : (transfer (fun i => x.member.consumesParam (i + 0)) x.scope 0
      (x.receiver :: x.args) (some (.pointer (.struct x.struct x.structName)) :: x.argTypes)).exec
        (x.partsTyped.record k' x.member.ty) =
      (transfer x.member.consumesParam x.scope 1 x.args x.argTypes).exec
        (x.receiverPassed.record k' x.member.ty) := by
    cases hconsumes : x.member.consumesParam 0 <;>
      simp [transfer, hconsumes, Ty.isPointer, receiver, Expr.ident?, receiverPassed,
        release_record]
  rw [hpassed, transfer_succ, exec_transfer, handedOver_record]
  rfl

end

/-- The receiver makes a difference exactly if the method takes it over and it has a record. -/
theorem charge_receiverPassed : (x.handOvers.foldl (handedOver x.scope) x.receiverPassed).charge =
      (x.handOvers.foldl (handedOver x.scope) x.partsTyped).charge +
        if x.member.consumesParam 0 ∧ (x.partsTyped.recordBehind? x.scope x.name).isSome then 1
        else 0 := by
  rw [charge_handedOver, charge_handedOver, receiverPassed]
  cases x.member.consumesParam 0 with
  | false => simp
  | true =>
    simp only [if_true, isSome_recordBehind?_release, charge_release, true_and]
    omega

end PointerCall

/-- An expression is checked in the scopes that there are. -/
theorem size_check (e : Expr) (scope : ScopeId) (c : Checker) :
    ((e.check scope).exec c).scopes.size = c.scopes.size := by
  have hquiet := congrArg ScopeTree.size ((rule_expr scope e).observes.quiet c).scopes
  simpa using hquiet

/-- What the memory analysis finds in an expression adds to what it has found. -/
theorem countP_isMemory_check (e : Expr) (scope : ScopeId) (c : Checker) :
    ((e.check scope).exec c).context.findings.countP (·.isMemory) =
      c.context.findings.countP (·.isMemory) + ((e.check scope).emitted c).countP (·.isMemory) := by
  rw [(rule_expr scope e).steady.findings, List.countP_append]

/-- **A method called on a pointer and through its struct.** Let a name `p` point to a struct, and
let `m` be a method of the struct whose first parameter `self` is such a pointer. If `p.m(…)` has a
type, then `S.m(p, …)` has the same type. The two agree in what the memory analysis finds and in all
ledgers exactly if the method does not take `self` over, or `p` has no record when receiver and
arguments have been typed. -/
theorem dot_call_agrees_iff (x : PointerCall) {j k : NodeId} {span around : Span} {ty : Ty}
    (h : ((x.onValue j k span around).check x.scope).eval x.state = some ty) (j' k' : NodeId)
    (span' around' : Span) :
    let dot := (x.onValue j k span around).check x.scope
    let static := (x.throughStruct j' k' span' around').check x.scope
    static.eval x.state = dot.eval x.state ∧
      (((static.emitted x.state).filter (·.isMemory) = (dot.emitted x.state).filter (·.isMemory) ∧
          ∀ i, ((static.exec x.state).scopes.scope i).ledger =
            ((dot.exec x.state).scopes.scope i).ledger) ↔
        x.member.consumesParam 0 = false ∨
          x.partsTyped.recordBehind? x.scope x.name = none) := by
  have hdot := x.exec_onValue j k span around h
  obtain ⟨hstatic, hpassed⟩ := x.exec_throughStruct j k span around h j' k' span' around'
  dsimp only
  refine ⟨hstatic.trans h.symm, ?_, ?_⟩
  · rintro ⟨hfound, hledgers⟩
    have hsize : (((x.throughStruct j' k' span' around').check x.scope).exec x.state).scopes.size =
        (((x.onValue j k span around).check x.scope).exec x.state).scopes.size := by
      rw [size_check, size_check]
    have hcount : (((x.throughStruct j' k' span' around').check x.scope).emitted x.state).countP
        (·.isMemory) = (((x.onValue j k span around).check x.scope).emitted x.state).countP
          (·.isMemory) := by
      rw [List.countP_eq_length_filter, List.countP_eq_length_filter, hfound]
    have hcharge := Checker.charge_congr hsize hledgers
      (by rw [countP_isMemory_check, countP_isMemory_check, hcount])
    rw [hdot, hpassed] at hcharge
    have hsame : (x.handOvers.foldl (handedOver x.scope) x.receiverPassed).charge =
        (x.handOvers.foldl (handedOver x.scope) x.partsTyped).charge := hcharge
    rw [x.charge_receiverPassed] at hsame
    by_contra hdiffers
    rw [not_or, Bool.not_eq_false, ← ne_eq, Option.ne_none_iff_isSome] at hdiffers
    rw [if_pos hdiffers] at hsame
    omega
  · intro hnothing
    have hkept : x.receiverPassed = x.partsTyped := by
      unfold PointerCall.receiverPassed
      split
      next hconsumes =>
        refine Checker.release_of_recordBehind?_eq_none (hnothing.resolve_left ?_) _
        simp [hconsumes]
      · rfl
    rw [hkept] at hpassed
    have hcontext : ((x.throughStruct j' k' span' around').check x.scope).emitted x.state =
        ((x.onValue j k span around).check x.scope).emitted x.state := by
      rw [emitted, emitted, hpassed, hdot]
      rfl
    rw [hcontext, hpassed, hdot]
    exact ⟨rfl, fun _ => rfl⟩

/-- The statements that declare a struct `S` with a method `done`, which takes over the pointer that
it is called on and frees it, and that allocate a pointer `p` to a struct in line 6. -/
def ownedReceiver : List Stmt :=
  let self : Param := {
    name := "self", ty := .pointer {} (.named {} none "S"), takesOwnership := true }
  let release : Stmt := ⟨{}, .expr ⟨1, {}, .call ⟨2, {}, .ident "free"⟩ [⟨3, {}, .ident "self"⟩]⟩⟩
  [⟨{}, .struct ⟨"S", false, [{ name := "x", ty := .named {} none "int" }],
      [⟨{}, ⟨"done", [self], .named {} none "void", ⟨{}, [release]⟩, false, false, false⟩⟩]⟩⟩,
    ⟨{ line := 6 }, .var {
      name := "p", ty := some (.pointer {} (.named {} none "S"))
      value := some ⟨4, {}, .call ⟨5, {}, .ident "alloc"⟩ [⟨6, {}, .int 8⟩]⟩ }⟩]

/-- In a module with these statements, the call of `done` on `p` or with `p`. -/
def ownedReceiverCall : PointerCall where
  state := Program.check { modules := [{ name := "main", body := ownedReceiver }] } {}
  scope := 1
  name := "p"
  node := 7
  place := {}
  struct := 0
  structName := "S"
  object := ⟨8, {}, .ident "S"⟩
  pointer := by decide +kernel
  names := by decide +kernel
  method := "done"
  member := {
    name := "done", ty := .function [.pointer (.struct 0 "S")] .void, isPublic := false
    kind := .method { hasSelf := true, ownedParams := [true] } }
  params := []
  ret := .void
  found := by decide +kernel
  hasSelf := ⟨{ hasSelf := true, ownedParams := [true] }, rfl, rfl⟩
  takesPointer := rfl
  args := []

/-- The call on `p` and the call with `p` do not come to the same: the method takes `p` over, and
there is a record for it. -/
theorem dot_call_disagrees_when_taken_over :
    let x := ownedReceiverCall
    let dot := (x.onValue 10 9 {} {}).check x.scope
    let static := (x.throughStruct 10 9 {} {}).check x.scope
    x.member.consumesParam 0 = true ∧ dot.eval x.state = some .void ∧
      static.eval x.state = dot.eval x.state ∧
      ¬((static.emitted x.state).filter (·.isMemory) = (dot.emitted x.state).filter (·.isMemory) ∧
        ∀ i, ((static.exec x.state).scopes.scope i).ledger =
          ((dot.exec x.state).scopes.scope i).ledger) := by
  have hdot : ((ownedReceiverCall.onValue 10 9 {} {}).check ownedReceiverCall.scope).eval
      ownedReceiverCall.state = some .void := by decide +kernel
  have hrecord : ownedReceiverCall.partsTyped.recordBehind? 1 "p" ≠ none := by decide +kernel
  obtain ⟨heval, hagree⟩ := dot_call_agrees_iff ownedReceiverCall hdot 10 9 {} {}
  refine ⟨rfl, hdot, heval, fun hsame => ?_⟩
  exact (hagree.mp hsame).elim (by decide) hrecord

/-- A function that allocates such a pointer and calls `done` with it, in the given way. -/
def passesReceiver (call : Expr) : Program :=
  let body := ownedReceiver ++ [⟨{}, .expr call⟩]
  { modules := [{
      name := "main"
      body := [⟨{}, .fn ⟨"f", [], .named {} none "void", ⟨{}, body⟩, false, false, false⟩⟩] }] }

/-- Called on the value, the method frees what the caller is then told to leak. Called through the
struct, nothing is found. -/
theorem method_frees_receiver_unnoticed :
    ((passesReceiver (ownedReceiverCall.onValue 10 9 {} {})).check {}).context.findings.map
        (·.cause) = [.leak "p" 6 (.function "f")] ∧
      ((passesReceiver (ownedReceiverCall.throughStruct 10 9 {} {})).check {}).context.findings =
        [] := by
  decide +kernel

end Warden
