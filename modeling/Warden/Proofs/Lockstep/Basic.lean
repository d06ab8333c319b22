import Warden.Proofs.Lockstep.Types
import Warden.Proofs.Memory.Erasure
import Warden.Proofs.Nodes

/-!
# Two checks in step

Two checks of the same syntax take the same way as long as they see alike things. What a check sees
of its state is a `View`: the names in reach of its scope, the structs and the types of expressions
that the two checks share, and where it is.

An expression is checked in one scope. `ExprLockstep` lists what is asked of a relation between the
states of two checks: related states have alike views, and each elementary change, made on both
sides, keeps it. Statements enter scopes and leave them, so a relation that they keep takes the
scopes that each check has entered and not yet left as arguments, innermost first (`Level`,
`StepLockstep`). `InStep` then says of two actions that from related states they give alike results
and leave related states. This module has the building blocks of a check; the next ones carry
`InStep` through the rules and over the syntax.

Properties of a single check are the case where both sides are the same.
-/

namespace Warden

open CheckM Check

variable {cause cause' : Cause} {f g : Checker → Checker} {α β : Type}

/-- A scope that a check has entered and not left. -/
structure Level where
  scope : ScopeId
  /-- Whether it is the scope of a function or module, which owns a ledger. -/
  isBody : Bool

/-- A relation between the states of two checks, by the scopes that each has entered. -/
abbrev StateRelation := List Level → List Level → Checker → Checker → Prop

/-- The checks see alike things from their scopes. -/
structure View (k : Pairing) (s s' : ScopeId) (c d : Checker) : Prop where
  lookup? (name : String) :
    Option.Rel (Symbol.Alike k) (c.scopes.lookup? s name) (d.scopes.lookup? s' name)
  imported (name : String) :
    (c.scopes.findImport? s name).map (·.module) = (d.scopes.findImport? s' name).map (·.module)
  qualifiedLookup (module name : String) :
    (c.scopes.qualifiedLookup s module name).Alike k (d.scopes.qualifiedLookup s' module name)
  enumMembers? (name : String) : c.scopes.enumMembers? s name = d.scopes.enumMembers? s' name
  symbol? (name : String) :
    Option.Rel (Symbol.Alike k) ((c.scopes.scope s).symbol? name) ((d.scopes.scope s').symbol? name)
  isModule : (c.scopes.scope s).isModule = (d.scopes.scope s').isModule
  moduleAt : c.moduleAt s = d.moduleAt s'
  struct {i j : StructId} : k.struct i j →
    Option.Rel (StructDef.Alike k) (c.structs.get? i) (d.structs.get? j)
  frame : Option.Rel (Frame.Alike k) c.walk.frames.head? d.walk.frames.head?
  loopDepth : c.walk.loopDepth = d.walk.loopDepth
  deferTarget : c.walk.deferTarget.isSome = d.walk.deferTarget.isSome

namespace View

variable {k : Pairing} {s s' : ScopeId} {c d : Checker} (h : View k s s' c d)

include h

theorem isSome_findImport? (name : String) :
    (c.scopes.findImport? s name).isSome = (d.scopes.findImport? s' name).isSome := by
  have himported := congrArg Option.isSome (h.imported name)
  rwa [Option.isSome_map, Option.isSome_map] at himported

theorem qualified? (module name : String) :
    Option.Rel (Symbol.Alike k) (c.scopes.qualified? s module name)
      (d.scopes.qualified? s' module name) := by
  have hlookup := h.qualifiedLookup module name
  rw [ScopeTree.qualified?, ScopeTree.qualified?]
  generalize c.scopes.qualifiedLookup s module name = found at hlookup ⊢
  generalize d.scopes.qualifiedLookup s' module name = found' at hlookup ⊢
  cases hlookup with
  | found hsymbol => exact .some hsymbol
  | _ => exact .none

end View

/-- A relation between the states of two checks, each in a scope, which every rule that only looks
things up and reports keeps. -/
structure ReportLockstep (k : Pairing) (s s' : ScopeId) (R : Checker → Checker → Prop) : Prop where
  view {c d} : R c d → View k s s' c d
  report {c d cause cause'} (span) : cause.Alike k cause' → cause.isRule = true →
    R c d → R (c.report cause span) (d.report cause' span)
  checkUse {c d} (name span) : R c d → R (c.checkUse s name span) (d.checkUse s' name span)

/-- A relation between the states of two checks, each in a scope, which every rule for expressions
keeps. -/
structure RuleLockstep (k : Pairing) (s s' : ScopeId) (R : Checker → Checker → Prop) : Prop
    extends ReportLockstep k s s' R where
  record {c d id ty ty'} : k.node id → ty.Alike k ty' →
    R c d → R (c.record id ty) (d.record id ty')
  allocate {c d} (name span) : R c d → R (c.allocate s name span) (d.allocate s' name span)
  rename {c d} (target source) : R c d → R (c.rename s target source) (d.rename s' target source)
  release {c d} (name span kind) : R c d →
    R (c.release s name span kind) (d.release s' name span kind)
  deferFree {c d t t'} (name span) : c.walk.deferTarget = some t →
    d.walk.deferTarget = some t' → R c d →
    R { c with scopes := c.scopes.deferFree t name span }
      { d with scopes := d.scopes.deferFree t' name span }

/-- From the two states, the actions give results that are related by `A` and leave states that are
related by `R`, each with the walk that it found. -/
structure Together (R : Checker → Checker → Prop) {α β : Type} (A : α → β → Prop) (m : CheckM α)
    (n : CheckM β) (c d : Checker) : Prop where
  result : A (m.eval c) (n.eval d)
  states : R (m.exec c) (n.exec d)
  walk_left : (m.exec c).walk = c.walk
  walk_right : (n.exec d).walk = d.walk

/-- From related states, the actions give related results and leave related states. -/
def InStep (R : Checker → Checker → Prop) {α β : Type} (A : α → β → Prop) (m : CheckM α)
    (n : CheckM β) : Prop :=
  ∀ c d, R c d → Together R A m n c d

/-- A relation between the states of two checks, each in a scope, which every check of the same
expression or written type on both sides keeps. -/
structure ExprLockstep (k : Pairing) (s s' : ScopeId) (R : Checker → Checker → Prop) : Prop
    extends RuleLockstep k s s' R where
  /-- A name is given a value. Whether it owns the value depends on types that were recorded. -/
  bindResult (name) {value} (sharesPointer span) : (∀ id ∈ value.nodes, k.node id) →
    InStep R (fun _ _ => True)
      (do bindValue name value (ownsResult (← get) s value) sharesPointer span s)
      (do bindValue name value (ownsResult (← get) s' value) sharesPointer span s')

/-- A relation between the states of two checks that have entered certain scopes, which is kept when
both go on to expressions and written types or enter and leave scopes. -/
structure WalkLockstep (k : Pairing) (R : StateRelation) : Prop where
  expr {l l' S S'} : ExprLockstep k l.scope l'.scope (R (l :: S) (l' :: S'))
  /-- A jump with nothing to leave is reported on both sides. -/
  jump {S S' c d cause} (span) : cause.isJump = true → R S S' c d →
    R S S' (c.report cause span) (d.report cause span)
  /-- A scope is left only after it has been entered from another one. -/
  leaveScope {l l' m m' S S' c d} : R (l :: m :: S) (l' :: m' :: S') c d →
    R (l :: m :: S) (l' :: m' :: S') (c.leaveScope l.scope) (d.leaveScope l'.scope)
  enterLoop {S S' c d} : R S S' c d →
    R S S' { c with walk := c.walk.enterLoop } { d with walk := d.walk.enterLoop }
  enterDefer {l l' S S' c d} : R (l :: S) (l' :: S') c d →
    R (l :: S) (l' :: S') { c with walk := c.walk.enterDefer l.scope }
      { d with walk := d.walk.enterDefer l'.scope }
  /-- The walk can be put back to what it was. -/
  restore {S S' c₀ d₀ c d} : R S S' c₀ d₀ → R S S' c d →
    R S S' { c with walk := c₀.walk } { d with walk := d₀.walk }
  pushBlock {l l' S S' c d} (name) : R (l :: S) (l' :: S') c d →
    R (⟨c.scopes.size, false⟩ :: l :: S) (⟨d.scopes.size, false⟩ :: l' :: S')
      { c with scopes := c.scopes.addBlock l.scope name }
      { d with scopes := d.scopes.addBlock l'.scope name }
  /-- A block is left with the walk with which it was entered. -/
  popBlock {i i' S S' c₀ d₀ c d} : R S S' c₀ d₀ → c.walk = c₀.walk → d.walk = d₀.walk →
    R (⟨i, false⟩ :: S) (⟨i', false⟩ :: S') c d → R S S' c d
  pushBody {l l' S S' c d frame frame'} (name) : frame.Alike k frame' →
    R (l :: S) (l' :: S') c d →
    R (⟨c.scopes.size, true⟩ :: l :: S) (⟨d.scopes.size, true⟩ :: l' :: S')
      { c with
        scopes := c.scopes.addFunction l.scope name, walk := c.walk.enterFunction frame }
      { d with
        scopes := d.scopes.addFunction l'.scope name, walk := d.walk.enterFunction frame' }
  /-- A function is left after its leaks have been reported. -/
  popBody {i i' S S' c₀ d₀ c d} : R S S' c₀ d₀ → R (⟨i, true⟩ :: S) (⟨i', true⟩ :: S') c d →
    R S S' { c.reportLeaks i with walk := c₀.walk } { d.reportLeaks i' with walk := d₀.walk }

/-- A relation between the states of two checks that have entered certain scopes, which each
elementary change on both sides keeps. -/
structure StepLockstep (k : Pairing) (R : StateRelation) : Prop extends WalkLockstep k R where
  insert {l l' S S' c d symbol symbol' t u} : symbol.Alike k symbol' →
    c.scopes.insert? l.scope symbol = some t → d.scopes.insert? l'.scope symbol' = some u →
    R (l :: S) (l' :: S') c d → R (l :: S) (l' :: S') { c with scopes := t } { d with scopes := u }
  reserve {l l' S S' c d} (name isPublic) : R (l :: S) (l' :: S') c d →
    k.declared c.structs.size d.structs.size ∧
      R (l :: S) (l' :: S')
        { c with structs := c.structs.reserve name (c.moduleAt l.scope) isPublic }
        { d with structs := d.structs.reserve name (d.moduleAt l'.scope) isPublic }
  finalize {S S' c d draft draft'} : draft.Alike k draft' → R S S' c d →
    R S S' { c with structs := (c.structs.finalize? draft).getD c.structs }
      { d with structs := (d.structs.finalize? draft').getD d.structs }

/-! ### Actions in step -/

namespace InStep

variable {R : Checker → Checker → Prop} {α β γ δ : Type} {A : α → β → Prop} {B : γ → δ → Prop}

theorem ofPure {a : α} {b : β} (h : A a b) :
    InStep R A (pure a : CheckM α) (pure b : CheckM β) := by
  intro c d hcd
  exact ⟨h, hcd, rfl, rfl⟩

theorem bind {m : CheckM α} {n : CheckM β} {f : α → CheckM γ} {g : β → CheckM δ}
    (hm : InStep R A m n) (hf : ∀ a b, A a b → InStep R B (f a) (g b)) :
    InStep R B (m >>= f) (n >>= g) := by
  intro c d hcd
  obtain ⟨hresult, hstates, hleft, hright⟩ := hm c d hcd
  have hnext := hf _ _ hresult _ _ hstates
  exact ⟨hnext.result, hnext.states, hnext.walk_left.trans hleft, hnext.walk_right.trans hright⟩

/-- Actions that work on from their states. -/
theorem ofState {f : Checker → CheckM γ} {g : Checker → CheckM δ}
    (h : ∀ c d, R c d → Together R B (f c) (g d) c d) : InStep R B (get >>= f) (get >>= g) := by
  intro c d hcd
  obtain ⟨hresult, hstates, hleft, hright⟩ := h c d hcd
  exact ⟨hresult, hstates, hleft, hright⟩

/-- Actions that go on by what they see in their states. -/
theorem ofGet {f : Checker → CheckM γ} {g : Checker → CheckM δ}
    (h : ∀ c d, R c d → InStep R B (f c) (g d)) : InStep R B (get >>= f) (get >>= g) :=
  ofState fun c d hcd => h c d hcd c d hcd

theorem ofModify (h : ∀ c d, R c d → R (f c) (g d)) (hf : ∀ c, (f c).walk = c.walk)
    (hg : ∀ c, (g c).walk = c.walk) :
    InStep R (fun _ _ => True) (modify f : CheckM Unit) (modify g : CheckM Unit) :=
  fun c d hcd => ⟨trivial, h c d hcd, hf c, hg d⟩

theorem map {m : CheckM α} {n : CheckM β} {f : α → γ} {g : β → δ} (hm : InStep R A m n)
    (hf : ∀ a b, A a b → B (f a) (g b)) : InStep R B (do return f (← m)) (do return g (← n)) :=
  hm.bind fun _ _ hab => ofPure (hf _ _ hab)

theorem weaken {A' : α → β → Prop} {m : CheckM α} {n : CheckM β} (hm : InStep R A m n)
    (h : ∀ a b, A a b → A' a b) : InStep R A' m n := by
  intro c d hcd
  obtain ⟨hresult, hstates, hleft, hright⟩ := hm c d hcd
  exact ⟨h _ _ hresult, hstates, hleft, hright⟩

/-- One of two actions, by alike tests. -/
theorem ite {p q : Prop} [Decidable p] [Decidable q] (hpq : p ↔ q) {m m' : CheckM α}
    {n n' : CheckM β} (hm : p → q → InStep R A m n) (hm' : ¬p → ¬q → InStep R A m' n') :
    InStep R A (if p then m else m') (if q then n else n') := by
  by_cases hp : p
  · rw [if_pos hp, if_pos (hpq.mp hp)]
    exact hm hp (hpq.mp hp)
  · rw [if_neg hp, if_neg (mt hpq.mpr hp)]
    exact hm' hp (mt hpq.mpr hp)

theorem ofMemory (hf : MemoryOp f) (hg : MemoryOp g) (h : ∀ c d, R c d → R (f c) (g d)) :
    InStep R (fun _ _ => True) (modify f : CheckM Unit) (modify g : CheckM Unit) :=
  ofModify h (fun c => (hf.step c).walk) fun d => (hg.step d).walk

end InStep

/-! ### Building blocks of the walk -/

namespace ReportLockstep

variable {k : Pairing} {s s' : ScopeId} {R : Checker → Checker → Prop}
  (hR : ReportLockstep k s s' R)

include hR

theorem inStep_report (h : cause.Alike k cause') (hrule : cause.isRule = true) (span : Span) :
    InStep R (fun _ _ => True) (CheckM.report cause span) (CheckM.report cause' span) :=
  .ofModify (fun _ _ => hR.report span h hrule) (fun _ => rfl) fun _ => rfl

theorem inStep_fail {A : α → β → Prop} (h : cause.Alike k cause') (hrule : cause.isRule = true)
    (span : Span) : InStep R (Option.Rel A) (fail cause span) (fail cause' span) :=
  (hR.inStep_report h hrule span).bind fun _ _ _ => .ofPure .none

theorem inStep_reject (h : cause.Alike k cause') (hrule : cause.isRule = true) (span : Span) :
    InStep R Eq (reject cause span) (reject cause' span) :=
  (hR.inStep_report h hrule span).bind fun _ _ _ => .ofPure rfl

theorem inStep_settle {result result' : Except Cause Ty} (h : SettledAlike k result result')
    (span : Span) :
    InStep R (Option.Rel (Ty.Alike k)) (settle result span) (settle result' span) := by
  cases h with
  | ok h => exact .ofPure (.some h)
  | error h hrule => exact hR.inStep_fail h hrule span

end ReportLockstep

namespace RuleLockstep

variable {k : Pairing} {s s' : ScopeId} {R : Checker → Checker → Prop}
  (hR : RuleLockstep k s s' R)

include hR

theorem inStep_recorded {id : NodeId} (hid : k.node id) {ty ty' : Option Ty}
    (h : Option.Rel (Ty.Alike k) ty ty') :
    InStep R (Option.Rel (Ty.Alike k)) (recorded id ty) (recorded id ty') := by
  cases h with
  | none => exact .ofPure .none
  | some h =>
    have hrecord := InStep.ofModify (R := R) (fun _ _ => hR.record hid h) (fun _ => rfl)
      fun _ => rfl
    exact hrecord.bind fun _ _ _ => .ofPure (.some h)

theorem inStep_allocate (name : String) (span : Span) :
    InStep R (fun _ _ => True) (modify (·.allocate s name span))
      (modify (·.allocate s' name span)) :=
  .ofMemory (.allocate ..) (.allocate ..) fun _ _ => hR.allocate name span

theorem inStep_release (name : String) (span : Span) (kind : FreeKind) :
    InStep R (fun _ _ => True) (modify (·.release s name span kind))
      (modify (·.release s' name span kind)) :=
  .ofMemory (.release ..) (.release ..) fun _ _ => hR.release name span kind

end RuleLockstep

/-- A relation that asks for something besides, which does not depend on the states. -/
theorem ExprLockstep.guarded {k : Pairing} {s s' : ScopeId} {R : Checker → Checker → Prop}
    {p : Prop} (h : p → ExprLockstep k s s' R) : ExprLockstep k s s' fun c d => p ∧ R c d where
  view hcd := (h hcd.1).view hcd.2
  report span hcause hrule hcd := ⟨hcd.1, (h hcd.1).report span hcause hrule hcd.2⟩
  checkUse name span hcd := ⟨hcd.1, (h hcd.1).checkUse name span hcd.2⟩
  record hid hty hcd := ⟨hcd.1, (h hcd.1).record hid hty hcd.2⟩
  allocate name span hcd := ⟨hcd.1, (h hcd.1).allocate name span hcd.2⟩
  rename target source hcd := ⟨hcd.1, (h hcd.1).rename target source hcd.2⟩
  release name span kind hcd := ⟨hcd.1, (h hcd.1).release name span kind hcd.2⟩
  deferFree name span ht ht' hcd := ⟨hcd.1, (h hcd.1).deferFree name span ht ht' hcd.2⟩
  bindResult name _ sharesPointer span hvalue c d hcd := by
    have hbound := (h hcd.1).bindResult name sharesPointer span hvalue c d hcd.2
    exact ⟨trivial, ⟨hcd.1, hbound.states⟩, hbound.walk_left, hbound.walk_right⟩

namespace ReportLockstep

variable {k : Pairing} {s s' : ScopeId} {R : Checker → Checker → Prop}
  (hR : ReportLockstep k s s' R) {symbol symbol' : Symbol}
  (hsymbol : symbol.Alike k symbol')

include hR hsymbol

/-! ### Declaring a symbol -/

theorem insert?_eq_none_iff {c d : Checker} (h : R c d) :
    c.scopes.insert? s symbol = none ↔ d.scopes.insert? s' symbol' = none := by
  have hsome := ((hR.view h).symbol? symbol'.name).isSome_eq
  rw [ScopeTree.insert?, ScopeTree.insert?, hsymbol.name, hsome]
  split <;> simp

variable (hinsert : ∀ {c d t u}, c.scopes.insert? s symbol = some t →
  d.scopes.insert? s' symbol' = some u → R c d →
  R { c with scopes := t } { d with scopes := u })

include hinsert

theorem inStep_inserting (span : Span) :
    InStep R Eq (declare s symbol span) (declare s' symbol' span) := by
  apply InStep.ofState
  intro c d hcd
  have hnone := hR.insert?_eq_none_iff hsymbol hcd
  cases hc : c.scopes.insert? s symbol with
  | none =>
    have hline := ((hR.view hcd).symbol? symbol'.name).map_eq fun _ _ h => Symbol.Alike.line h
    rw [hnone.mp hc, hsymbol.name, hline]
    exact hR.inStep_reject (.same _) rfl span c d hcd
  | some t =>
    cases hd : d.scopes.insert? s' symbol' with
    | none =>
      rw [hnone.mpr hd] at hc
      cases hc
    | some u => exact ⟨rfl, hinsert hc hd hcd, rfl, rfl⟩

/-- Declares a symbol where its name is free, and says nothing where it is taken. -/
theorem inStep_insertingQuietly : InStep R (fun _ _ => True)
      (modify fun c => { c with scopes := (c.scopes.insert? s symbol).getD c.scopes })
      (modify fun d => { d with scopes := (d.scopes.insert? s' symbol').getD d.scopes }) := by
  refine .ofModify (fun c d hcd => ?_) (fun _ => rfl) fun _ => rfl
  have hnone := hR.insert?_eq_none_iff hsymbol hcd
  cases hc : c.scopes.insert? s symbol with
  | none =>
    rw [hnone.mp hc]
    exact hcd
  | some t =>
    cases hd : d.scopes.insert? s' symbol' with
    | none =>
      rw [hnone.mpr hd] at hc
      cases hc
    | some u => exact hinsert hc hd hcd

end ReportLockstep

namespace WalkLockstep

variable {A : α → β → Prop} {m : ScopeId → CheckM α} {n : ScopeId → CheckM β}

variable {k : Pairing} {R : StateRelation} (hR : WalkLockstep k R)
  {l l' : Level} {S S' : List Level}

include hR

theorem inStep_jump (h : cause.isJump = true) (span : Span) :
    InStep (R S S') Eq (reject cause span) (reject cause span) := by
  have hreport : InStep (R S S') (fun _ _ => True) (CheckM.report cause span)
      (CheckM.report cause span) :=
    .ofModify (fun _ _ => hR.jump span h) (fun _ => rfl) fun _ => rfl
  exact hreport.bind fun _ _ _ => .ofPure rfl

/-! ### Scopes that are entered and left -/

theorem inStep_within {f g : Walk → Walk}
    (hwalk : ∀ {c d}, R S S' c d → R S S' { c with walk := f c.walk } { d with walk := g d.walk })
    {m : CheckM α} {n : CheckM β} (hm : InStep (R S S') A m n) :
    InStep (R S S') A (within f m) (within g n) := by
  intro c d hcd
  have hinner := hm _ _ (hwalk hcd)
  exact ⟨hinner.result, hR.restore hcd hinner.states, rfl, rfl⟩

/-- A block in a scope of its own. -/
theorem inStep_inBlock (name : String)
    (hm : ∀ i i', InStep (R (⟨i, false⟩ :: l :: S) (⟨i', false⟩ :: l' :: S')) A (m i) (n i')) :
    InStep (R (l :: S) (l' :: S')) A
      (do let i ← addBlock l.scope name; let a ← m i; modify (·.leaveScope i); return a)
      (do let i ← addBlock l'.scope name; let b ← n i; modify (·.leaveScope i); return b) := by
  intro c d hcd
  obtain ⟨hresult, hstates, hleft, hright⟩ := hm _ _ _ _ (hR.pushBlock name hcd)
  have hleft' := (MemoryOp.leaveScope c.scopes.size).step
    ((m c.scopes.size).exec { c with scopes := c.scopes.addBlock l.scope name })
  have hright' := (MemoryOp.leaveScope d.scopes.size).step
    ((n d.scopes.size).exec { d with scopes := d.scopes.addBlock l'.scope name })
  have hwalk := hleft'.walk.trans hleft
  have hwalk' := hright'.walk.trans hright
  exact ⟨hresult, hR.popBlock hcd hwalk hwalk' (hR.leaveScope hstates), hwalk, hwalk'⟩

end WalkLockstep

end Warden
