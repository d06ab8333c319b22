import Warden.Proofs.Simulation.Walk

/-!
# What a check keeps while it is in certain scopes

A property of a single check, of the scopes that it has entered and of its state, is kept by the
whole check as soon as each elementary change keeps it. `StackInvariant` lists these conditions; a
check together with itself is two checks in step, so nothing is proved about the syntax again.

One property may rest on another that is known to be kept. The conditions on `P` are therefore asked
in states with `I` only.
-/

namespace Warden

open CheckM

/-- The property `P` of the scopes entered and the state is kept by each elementary change of a
check, in states with `I`. The check declares structs in `declared` only, and records types of
expressions in `node` only. -/
structure StackInvariant (declared node : Nat → Prop) (I P : List Level → Checker → Prop) :
    Prop where
  report {S c cause} (span) : cause.isTyping = true → I S c → P S c → P S (c.report cause span)
  record {S c id} (ty) : node id → I S c → P S c → P S (c.record id ty)
  insert {l S c symbol t} : c.scopes.insert? l.scope symbol = some t → I (l :: S) c →
    P (l :: S) c → P (l :: S) { c with scopes := t }
  reserve {l S c} (name isPublic) : I (l :: S) c → P (l :: S) c → declared c.structs.size ∧
    P (l :: S) { c with structs := c.structs.reserve name (c.moduleAt l.scope) isPublic }
  finalize {S c draft} : declared draft.id → I S c → P S c →
    P S { c with structs := (c.structs.finalize? draft).getD c.structs }
  allocate {l S c} (name span) : I (l :: S) c → P (l :: S) c →
    P (l :: S) (c.allocate l.scope name span)
  rename {l S c} (target source) : I (l :: S) c → P (l :: S) c →
    P (l :: S) (c.rename l.scope target source)
  release {l S c} (name span kind) : I (l :: S) c → P (l :: S) c →
    P (l :: S) (c.release l.scope name span kind)
  checkUse {l S c} (name span) : I (l :: S) c → P (l :: S) c →
    P (l :: S) (c.checkUse l.scope name span)
  deferFree {S c t} (name span) : c.walk.deferTarget = some t → I S c → P S c →
    P S { c with scopes := c.scopes.deferFree t name span }
  clearDeferred {l m S c} : I (l :: m :: S) c → P (l :: m :: S) c →
    P (l :: m :: S) { c with scopes := c.scopes.clearDeferred l.scope }
  enterLoop {S c} : I S c → P S c → P S { c with walk := c.walk.enterLoop }
  enterDefer {l S c} : I (l :: S) c → P (l :: S) c →
    P (l :: S) { c with walk := c.walk.enterDefer l.scope }
  restore {S c₀ c} : I S c₀ → P S c₀ → I S c → P S c → P S { c with walk := c₀.walk }
  pushBlock {l S c} (name) : I (l :: S) c → P (l :: S) c →
    P (⟨c.scopes.size, false⟩ :: l :: S) { c with scopes := c.scopes.addBlock l.scope name }
  popBlock {i S c₀ c} : I S c₀ → P S c₀ → c.walk = c₀.walk → I (⟨i, false⟩ :: S) c →
    P (⟨i, false⟩ :: S) c → P S c
  pushBody {l S c} (frame name) : I (l :: S) c → P (l :: S) c →
    P (⟨c.scopes.size, true⟩ :: l :: S)
      { c with scopes := c.scopes.addFunction l.scope name, walk := c.walk.enterFunction frame }
  popBody {i S c₀ c} : I S c₀ → P S c₀ → I (⟨i, true⟩ :: S) c → P (⟨i, true⟩ :: S) c →
    P S { c.reportLeaks i with walk := c₀.walk }

/-- The property is kept whatever structs are declared and types recorded, and in all states. -/
abbrev Unconditional (I : List Level → Checker → Prop) : Prop :=
  StackInvariant (fun _ => True) (fun _ => True) (fun _ _ => True) I

namespace StackInvariant

variable {declared node : Nat → Prop} {I P : List Level → Checker → Prop}

variable {l : Level} {S : List Level} {c : Checker}

section

variable (hI : Unconditional I)

include hI

/-- Leaving a scope empties its queue and then releases one name after the other. -/
theorem leaveScope (hP : StackInvariant declared node I P) {m : Level} (hi : I (l :: m :: S) c)
    (hp : P (l :: m :: S) c) :
    I (l :: m :: S) (c.leaveScope l.scope) ∧ P (l :: m :: S) (c.leaveScope l.scope) := by
  have hall : ∀ (waiting : List DeferredFree) (c : Checker), I (l :: m :: S) c →
      P (l :: m :: S) c →
      I (l :: m :: S) (waiting.foldl (fun c d => c.release l.scope d.name d.span .explicit) c) ∧
        P (l :: m :: S)
          (waiting.foldl (fun c d => c.release l.scope d.name d.span .explicit) c) := by
    intro waiting
    induction waiting with
    | nil => exact fun c hi hp => ⟨hi, hp⟩
    | cons d waiting ih =>
      intro c hi hp
      exact ih _ (hI.release _ _ _ trivial hi) (hP.release _ _ _ hi hp)
  exact hall _ _ (hI.clearDeferred trivial hi) (hP.clearDeferred hi hp)

/-- A rule that keeps its properties, beside itself. -/
theorem ruleLockstep (hP : StackInvariant declared node I P) (l : Level) (S : List Level) :
    RuleLockstep (.same declared node) l.scope l.scope
      (fun c d => c = d ∧ I (l :: S) c ∧ P (l :: S) c) where
  view := by
    rintro c d ⟨rfl, -, -⟩
    exact SameView.view ⟨rfl, rfl, rfl, rfl, rfl⟩ _ _ l.scope
  report := by
    rintro c d cause cause' span hcause hrule ⟨rfl, hi, hp⟩
    have htyping := Cause.isTyping_of_isRule hrule
    rw [← hcause.eq_of_same]
    exact ⟨rfl, hI.report span htyping trivial hi, hP.report span htyping hi hp⟩
  record := by
    rintro c d id ty ty' hid hty ⟨rfl, hi, hp⟩
    rw [← hty.eq_of_same]
    exact ⟨rfl, hI.record ty trivial trivial hi, hP.record ty hid hi hp⟩
  allocate := by
    rintro c d name span ⟨rfl, hi, hp⟩
    exact ⟨rfl, hI.allocate name span trivial hi, hP.allocate name span hi hp⟩
  rename := by
    rintro c d target source ⟨rfl, hi, hp⟩
    exact ⟨rfl, hI.rename target source trivial hi, hP.rename target source hi hp⟩
  release := by
    rintro c d name span kind ⟨rfl, hi, hp⟩
    exact ⟨rfl, hI.release name span kind trivial hi, hP.release name span kind hi hp⟩
  checkUse := by
    rintro c d name span ⟨rfl, hi, hp⟩
    exact ⟨rfl, hI.checkUse name span trivial hi, hP.checkUse name span hi hp⟩
  deferFree := by
    rintro c d t t' name span ht ht' ⟨rfl, hi, hp⟩
    rw [ht] at ht'
    cases ht'
    exact ⟨rfl, hI.deferFree name span ht trivial hi, hP.deferFree name span ht hi hp⟩

/-- A check that keeps its properties, beside itself. -/
theorem stepLockstep (hP : StackInvariant declared node I P) :
    StepLockstep (.same declared node) (fun S S' c d => S = S' ∧ c = d ∧ I S c ∧ P S c) where
  expr := by
    intro l l' S S'
    refine .guarded fun hS => ?_
    cases hS
    refine (ruleLockstep hI hP l S).exprLockstep ?_
    rintro c d id ⟨rfl, -⟩ -
    exact .refl (Pairing.same_ty _ _) _
  jump := by
    rintro S S' c d cause span hjump ⟨rfl, rfl, hi, hp⟩
    have htyping := Cause.isTyping_of_isJump hjump
    exact ⟨rfl, rfl, hI.report span htyping trivial hi, hP.report span htyping hi hp⟩
  insert := by
    rintro l l' S S' c d symbol symbol' t u hsymbol ht hu ⟨⟨⟩, rfl, hi, hp⟩
    rw [← hsymbol.eq_of_same, ht] at hu
    cases hu
    exact ⟨rfl, rfl, hI.insert ht trivial hi, hP.insert ht hi hp⟩
  reserve := by
    rintro l l' S S' c d name isPublic ⟨⟨⟩, rfl, hi, hp⟩
    obtain ⟨hdeclared, hp'⟩ := hP.reserve name isPublic hi hp
    exact ⟨⟨rfl, hdeclared⟩, rfl, rfl, (hI.reserve name isPublic trivial hi).2, hp'⟩
  finalize := by
    rintro S S' c d draft draft' hdraft ⟨rfl, rfl, hi, hp⟩
    have hid : declared draft.id := hdraft.id.2
    rw [← hdraft.eq_of_same]
    exact ⟨rfl, rfl, hI.finalize trivial trivial hi, hP.finalize hid hi hp⟩
  leaveScope := by
    rintro l l' m m' S S' c d ⟨⟨⟩, rfl, hi, hp⟩
    exact ⟨rfl, rfl, leaveScope hI hP hi hp⟩
  enterLoop := by
    rintro S S' c d ⟨rfl, rfl, hi, hp⟩
    exact ⟨rfl, rfl, hI.enterLoop trivial hi, hP.enterLoop hi hp⟩
  enterDefer := by
    rintro l l' S S' c d ⟨⟨⟩, rfl, hi, hp⟩
    exact ⟨rfl, rfl, hI.enterDefer trivial hi, hP.enterDefer hi hp⟩
  restore := by
    rintro S S' c₀ d₀ c d ⟨rfl, rfl, hi₀, hp₀⟩ ⟨-, rfl, hi, hp⟩
    exact ⟨rfl, rfl, hI.restore trivial hi₀ trivial hi, hP.restore hi₀ hp₀ hi hp⟩
  pushBlock := by
    rintro l l' S S' c d name ⟨⟨⟩, rfl, hi, hp⟩
    exact ⟨rfl, rfl, hI.pushBlock name trivial hi, hP.pushBlock name hi hp⟩
  popBlock := by
    rintro i i' S S' c₀ d₀ c d ⟨rfl, rfl, hi₀, hp₀⟩ hwalk - ⟨hS, rfl, hi, hp⟩
    exact ⟨rfl, rfl, hI.popBlock trivial hi₀ hwalk trivial hi, hP.popBlock hi₀ hp₀ hwalk hi hp⟩
  pushBody := by
    rintro l l' S S' c d frame frame' name hframe ⟨⟨⟩, rfl, hi, hp⟩
    rw [← hframe.eq_of_same]
    exact ⟨rfl, rfl, hI.pushBody frame name trivial hi, hP.pushBody frame name hi hp⟩
  popBody := by
    rintro i i' S S' c₀ d₀ c d ⟨rfl, rfl, hi₀, hp₀⟩ ⟨⟨⟩, rfl, hi, hp⟩
    exact ⟨rfl, rfl, hI.popBody trivial hi₀ trivial hi, hP.popBody hi₀ hp₀ hi hp⟩

theorem lockstep (hP : StackInvariant declared node I P) :
    Lockstep (.same declared node) (fun S S' c d => S = S' ∧ c = d ∧ I S c ∧ P S c) :=
  (hI.stepLockstep hP).lockstep

end

/-- A check beside itself that is in step keeps the properties. -/
theorem of_inStep {α : Type} {A : α → α → Prop} {m : CheckM α}
    (hm : InStep (fun c d => l :: S = l :: S ∧ c = d ∧ I (l :: S) c ∧ P (l :: S) c) A m m)
    (hi : I (l :: S) c) (hp : P (l :: S) c) :
    I (l :: S) (m.exec c) ∧ P (l :: S) (m.exec c) ∧ (m.exec c).walk = c.walk := by
  obtain ⟨-, ⟨-, -, hi', hp'⟩, hwalk, -⟩ := hm c c ⟨rfl, rfl, hi, hp⟩
  exact ⟨hi', hp', hwalk⟩

theorem fnDecl (hI : Unconditional I) (hP : StackInvariant declared node I P)
    {f : FnDecl} (hparams : ∀ id ∈ paramNodes f.params, node id)
    (hreturn : ∀ id ∈ f.returnType.nodes, node id) (span : Span) (hi : I (l :: S) c)
    (hp : P (l :: S) c) : I (l :: S) ((Check.fnDecl f span l.scope).exec c) ∧
      P (l :: S) ((Check.fnDecl f span l.scope).exec c) ∧
      ((Check.fnDecl f span l.scope).exec c).walk = c.walk :=
  of_inStep ((hI.lockstep hP).inStep_fnDecl f hparams hreturn span) hi hp

theorem stmts (hI : Unconditional I) (hP : StackInvariant declared node I P)
    {ss : List Stmt} (hnodes : ∀ id ∈ stmtNodes ss, node id)
    (hi : I (l :: S) c) (hp : P (l :: S) c) :
    I (l :: S) ((checkStmts l.scope ss).exec c) ∧ P (l :: S) ((checkStmts l.scope ss).exec c) ∧
      ((checkStmts l.scope ss).exec c).walk = c.walk :=
  of_inStep ((hI.lockstep hP).inStep_stmts ss hnodes) hi hp

theorem stmt (hI : Unconditional I) (hP : StackInvariant declared node I P)
    {s : Stmt} (hnodes : ∀ id ∈ s.nodes, node id) (hi : I (l :: S) c) (hp : P (l :: S) c) :
    I (l :: S) ((s.check l.scope).exec c) ∧ P (l :: S) ((s.check l.scope).exec c) ∧
      ((s.check l.scope).exec c).walk = c.walk :=
  of_inStep ((hI.lockstep hP).inStep_stmt s hnodes) hi hp

end StackInvariant

/-- Where nothing is asked of the state, nothing has to be kept. -/
theorem unconditional_true : Unconditional fun _ _ => True := by
  constructor <;> intros <;> trivial

end Warden
