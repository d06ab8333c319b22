import Warden.Proofs.Memory.Releases

/-!
# What calls do to memory

A call hands arguments over, frees its argument or puts that off, as `Check.callEffect` says
(`Check.done_call`). All other rules are sparing, so all that an action does to records and queues
is `Explained` by the calls that it visits and by the scopes that end in it. This holds in every
state, whether it is one that a program leads to or not.
-/

namespace Warden

open CheckM Check Trace Checker

/-! ### Calls -/

namespace Check

namespace CallEffect.Done

variable {effect : CallEffect} {scope : ScopeId} {c d e : Checker}

/-- Nothing but scopes and the walk matters. -/
theorem since (h : effect.Done scope d e) (hscopes : d.scopes = c.scopes)
    (hwalk : d.walk = c.walk) : effect.Done scope c e := by
  refine ⟨h.size.trans (by rw [hscopes]), h.walk.trans hwalk, fun x => ?_, fun i hi => ?_⟩
  · simpa only [Checker.freed?, Checker.recordId?, hscopes] using h.records x
  · rw [← hscopes] at hi ⊢
    exact h.queues i hi

theorem ofSame (h : d.scopes = c.scopes ∧ d.walk = c.walk) : CallEffect.Done {} scope c d := by
  refine ⟨by rw [h.1], h.2, fun x => ?_, fun i _ => by simp [h.1, putOffTo]⟩
  have hsame : d.freed? x = c.freed? x := freed?_congr (fun i => by rw [h.1]) x
  simp [hsame]

/-- A name is released at once. -/
theorem release (name : String) (span : Span) (kind : FreeKind) :
    CallEffect.Done { released := [name] } scope c (c.release scope name span kind) :=
  ⟨size_release _ _, (MemoryOp.release scope name span kind).step c |>.walk,
    fun x => by simp [freed?_release],
    fun i _ => by simp [deferred_release, putOffTo]⟩

/-- A call of `free` is put off. -/
theorem deferFree (target : ScopeId) (name : String) (span : Span)
    (hd : d.scopes = c.scopes.deferFree target name span) (hwalk : d.walk = c.walk) :
    CallEffect.Done { putOff := some (target, { name, span }) } scope c d := by
  have hledger : ∀ i, (d.scopes.scope i).ledger = (c.scopes.scope i).ledger := by
    rw [hd]
    exact c.scopes.field_modify target Scope.ledger fun _ => rfl
  refine ⟨by rw [hd, ScopeTree.deferFree, ScopeTree.size_modify], hwalk, fun x => ?_,
    fun i hi => ?_⟩
  · rw [freed?_congr hledger]
    simp
  · rw [hd, ScopeTree.deferFree, ScopeTree.scope_modify]
    by_cases hi' : i = target
    · subst hi'
      simp [hi, putOffTo, Option.filter]
    · simp [hi', putOffTo, Option.filter, Ne.symm hi']

/-- Arguments are handed over. -/
theorem transfer (consumes : Nat → Bool) (args : List Expr) (tys : List (Option Ty)) :
    CallEffect.Done { released := (handOvers consumes 0 args tys).map (·.name) } scope c
      ((Check.transfer consumes scope 0 args tys).exec c) := by
  obtain ⟨hsize, hwalk, hdeferred, hfreed⟩ := release_foldl scope HandOver.name
    HandOver.span .transfer (handOvers consumes 0 args tys) c
  rw [exec_transfer]
  refine ⟨hsize, hwalk, fun x => (hfreed x).trans ?_, fun i _ => (hdeferred i).trans ?_⟩
  · rw [List.any_map]
    rfl
  · simp [putOffTo]

end CallEffect.Done

variable (args : List Expr) (tys : List (Option Ty)) (span : Span) (scope : ScopeId) (c : Checker)

/-- A call of `free` releases its argument, or waits if there is a scope to wait for. -/
theorem done_free : (freeEffect c.walk.deferTarget span (freedName? args tys)).Done scope c
      ((free args tys span scope).exec c) := by
  rcases args with _ | ⟨arg, _ | ⟨_, _⟩⟩
  · exact .ofSame ⟨rfl, rfl⟩
  · rcases tys with _ | ⟨_ | ty, _ | ⟨_, _⟩⟩
    · exact .ofSame ⟨rfl, rfl⟩
    · exact .ofSame ⟨rfl, rfl⟩
    · exact .ofSame ⟨rfl, rfl⟩
    · by_cases hpointer : ty.isPointer = true
      · cases hname : arg.ident? with
        | none =>
          simp only [free, freedName?, hpointer, hname, freeEffect, if_true, Bool.not_true,
            Bool.false_eq_true, if_false]
          exact .ofSame ⟨rfl, rfl⟩
        | some name =>
          cases htarget : c.walk.deferTarget with
          | none =>
            simp only [free, freedName?, hpointer, hname, freeEffect, if_true, Bool.not_true,
              Bool.false_eq_true, if_false, exec_get_bind, htarget]
            exact .release name span .explicit
          | some target =>
            simp only [free, freedName?, hpointer, hname, freeEffect, if_true, Bool.not_true,
              Bool.false_eq_true, if_false, exec_get_bind, htarget]
            exact .deferFree target name span rfl rfl
      · simp only [free, freedName?, hpointer, Bool.false_eq_true, Bool.not_false, if_false,
          if_true]
        exact .ofSame ⟨rfl, rfl⟩
    · exact .ofSame ⟨rfl, rfl⟩
  · exact .ofSame ⟨rfl, rfl⟩

theorem namedSymbol?_congr {c d : Checker} (h : d.scopes = c.scopes) (e : Expr) (scope : ScopeId) :
    namedSymbol? d e scope = namedSymbol? c e scope := by
  simp only [namedSymbol?, h]

/-- The call of a value hands arguments over. -/
theorem done_plainCall (callee : Expr) (calleeTy : Option Ty) : CallEffect.Done
      { released := (plainHandOvers c callee calleeTy args tys scope).map (·.name) } scope c
      ((plainCall callee calleeTy args tys span scope).exec c) := by
  cases calleeTy with
  | none => exact .ofSame ⟨rfl, rfl⟩
  | some ty =>
    cases ty with
    | function params ret =>
      have hsilent := (reports_arguments scope (calleeName callee) params args tys span).silent c
      simp only [plainCall, plainHandOvers, exec_bind, exec_get, eval_get,
        namedSymbol?_congr hsilent.1 callee scope]
      cases namedSymbol? c callee scope with
      | none => exact .ofSame hsilent
      | some symbol =>
        have hdone : CallEffect.Done _ scope
            ((arguments (calleeName callee) params args tys span).exec c) _ :=
          .transfer symbol.consumesArg args tys
        exact hdone.since hsilent.1 hsilent.2
    | _ => exact .ofSame ⟨rfl, rfl⟩

theorem eval_explicitParams_congr (found : StructMember) (params : List Ty)
    (receiver : Option Ty) (span : Span) (c d : Checker) :
    (explicitParams found params receiver span).eval d =
      (explicitParams found params receiver span).eval c := by
  unfold explicitParams
  split
  · split
    · rfl
    · split <;> rfl
  · rfl

/-- The call of a member hands arguments over. -/
theorem done_memberCall (callee : Expr) (id : StructId) (self : Option Ty) (member : String) :
    CallEffect.Done
      { released := (((structMember id member callee.span scope).eval c).elim [] fun found =>
          memberHandOvers found self callee.span args tys c).map (·.name) } scope c
      ((memberCall callee id self member args tys span scope).exec c) := by
  have hmember := (reports_structMember scope id member callee.span).silent c
  unfold memberCall
  rw [exec_bind]
  cases (structMember id member callee.span scope).eval c with
  | none => exact .ofSame hmember
  | some found =>
    simp only [Option.elim_some, exec_bind, exec_modify, memberHandOvers]
    generalize hd :
      ((structMember id member callee.span scope).exec c).record callee.id found.ty = d
    have hsame : d.scopes = c.scopes ∧ d.walk = c.walk := by rw [← hd]; exact hmember
    cases found.ty with
    | function params ret =>
      have hparams := (reports_explicitParams scope found params self callee.span).silent d
      simp only [exec_bind, eval_explicitParams_congr found params self callee.span c d]
      cases (explicitParams found params self callee.span).eval c with
      | none => exact .ofSame ⟨hparams.1.trans hsame.1, hparams.2.trans hsame.2⟩
      | some explicit =>
        have hargs := (reports_arguments scope member explicit.1 args tys span).silent
          ((explicitParams found params self callee.span).exec d)
        have hdone : CallEffect.Done _ scope ((arguments member explicit.1 args tys span).exec
            ((explicitParams found params self callee.span).exec d)) _ :=
          .transfer (fun i => found.consumesParam (i + explicit.2)) args tys
        exact hdone.since (hargs.1.trans (hparams.1.trans hsame.1))
          (hargs.2.trans (hparams.2.trans hsame.2))
    | _ => exact .ofSame hsame

/-- A method call hands arguments over. -/
theorem done_methodCall (callee : Expr) (receiver : Receiver) : CallEffect.Done
      { released := (methodHandOvers c callee receiver args tys scope).map (·.name) } scope c
      ((methodCall callee receiver args tys span scope).exec c) := by
  cases receiver with
  | type id => exact done_memberCall args tys span scope c callee id none (calleeName callee)
  | value ty =>
    cases ty with
    | none => exact .ofSame ⟨rfl, rfl⟩
    | some ty =>
      cases hid : ty.structId? with
      | none =>
        simp only [methodCall, methodHandOvers, calledMember, Receiver.structId?, Option.bind_some,
          hid]
        exact .ofSame ⟨rfl, rfl⟩
      | some id =>
        simp only [methodCall, methodHandOvers, calledMember, Receiver.structId?, Option.bind_some,
          hid]
        exact done_memberCall args tys span scope c callee id (some ty) (calleeName callee)

/-- Once its parts are typed, a call does to memory what `callEffect` says. -/
theorem done_call (callee : Expr) : ((callEffect callee args span scope).eval c).Done scope
      ((callEffect callee args span scope).exec c)
      ((ExprKind.check span scope (.call callee args)).exec c) := by
  rw [callEffect, ExprKind.check, eval_get_bind, exec_get_bind, exec_get_bind]
  cases callForm c callee scope with
  | alloc => exact .ofSame ((reports_alloc scope args _ span).silent _)
  | free => exact done_free args _ span scope _
  | method => exact done_methodCall args _ span scope _ callee _
  | plain => exact done_plainCall args _ span scope _ callee _

end Check

/-! ### Actions that are explained -/

/-- What the action does to memory is explained by visits from a scope and by scopes that end. -/
def Explained {α : Type} (scope : ScopeId) (c : Checker) (visits : List Visit)
    (ends : List Ending) (m : CheckM α) : Prop :=
  Explains scope visits ends c (m.exec c)

namespace Explained

variable {α β : Type} {scope inner : ScopeId} {c : Checker} {visits visits' : List Visit}
  {ends ends' : List Ending} {m : CheckM α} {k : α → CheckM β}

theorem ofSparing (hm : Sparing m) (c : Checker) : Explained scope c [] [] m :=
  .ofKept (hm c)

theorem bind (hm : Explained scope c visits ends m)
    (hk : Explained scope (m.exec c) visits' ends' (k (m.eval c))) :
    Explained scope c (visits ++ visits') (ends ++ ends') (m >>= k) :=
  Explains.trans hm hk (.inl rfl)

/-- What comes last need not be explained. -/
theorem last (hm : Explained scope c visits ends m)
    (hk : Kept (m.exec c) ((k (m.eval c)).exec (m.exec c))) :
    Explained scope c visits ends (m >>= k) :=
  Explains.last hm hk

/-- An action that goes on if there is a result, and then ends scopes. -/
theorem casesEnding {m : CheckM (Option α)} {k : Option α → CheckM β} {rest : α → Trace}
    {ends : α → Endings} (hm : Explained scope c visits [] m) (hnone : Sparing (k none))
    (hsome : ∀ a, Explained scope (m.exec c) (rest a (m.exec c)) (ends a (m.exec c)) (k (some a))) :
    Explained scope c (visits ++ Trace.whenSome rest (m.eval c) (m.exec c))
      (Endings.whenSome ends (m.eval c) (m.exec c)) (m >>= k) := by
  have hrest : Explained scope (m.exec c) (Trace.whenSome rest (m.eval c) (m.exec c))
      (Endings.whenSome ends (m.eval c) (m.exec c)) (k (m.eval c)) := by
    cases m.eval c with
    | none => exact ofSparing hnone _
    | some a => exact hsome a
  exact hm.bind hrest

/-- An action in a changed walk, which is put back in the end. -/
theorem within {change : Walk → Walk}
    (hm : Explained scope { c with walk := change c.walk } visits ends m)
    (hplaced : ∀ v : Visit, v.Placed scope { c with walk := change c.walk } → v.Placed scope c) :
    Explained scope c visits ends (CheckM.within change m) :=
  ⟨hm.size, rfl, hm.records, hm.queues, fun v hv hcall => hplaced v (hm.places v hv hcall),
    hm.inner⟩

/-- An action in a new block. -/
theorem inBlock {parent : ScopeId} {name : String} {k : ScopeId → CheckM β}
    (hk : Explained c.scopes.size ((addBlock parent name).exec c) visits ends (k c.scopes.size)) :
    Explained scope c visits ends (addBlock parent name >>= k) :=
  Explains.trans (ofSparing (Sparing.addBlock parent name) c) hk (.inr (Nat.le_refl _))

end Explained

end Warden
