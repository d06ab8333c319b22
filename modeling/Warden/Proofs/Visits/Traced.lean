import Mathlib.Data.List.Perm.Basic
import Warden.Proofs.Faults.Expr
import Warden.Proofs.Owners
import Warden.Proofs.Visits.Basic

/-!
# Following the trace of an action

`Traced` says of an action that a trace lists what it does to the table of types. What it records is
what the visits of the trace come to (`Logs`), in that order and all in scopes of one module, and if
it finds no fault, the visits come to every expression it is given, and each of them comes to a
result (`Complete`). The laws of this module put traces together as the walk puts actions together.

An action that records nothing is `Idle`.
-/

namespace Warden

open CheckM Trace ScopeTree

variable {f : Checker → Checker} {v : Visit}

/-! ### Later states -/

/-- The findings of the first state are still there in the second one, and its scopes and structs
belong to the same modules. -/
structure Later (c d : Checker) : Prop where
  findings : c.context.findings <+: d.context.findings
  owner {scope name} : c.scopes.owningModule? scope = some name →
    d.scopes.owningModule? scope = some name
  struct {id name} : c.structs.module? id = some name → d.structs.module? id = some name

namespace Later

variable {c d e : Checker}

theorem refl (c : Checker) : Later c c :=
  ⟨List.prefix_refl _, id, id⟩

theorem trans (h : Later c d) (h' : Later d e) : Later c e :=
  ⟨h.findings.trans h'.findings, fun hname => h'.owner (h.owner hname),
    fun hname => h'.struct (h.struct hname)⟩

/-- The table of types and the walk do not matter. -/
theorem of_eq (hfindings : d.context.findings = c.context.findings) (hscopes : d.scopes = c.scopes)
    (hstructs : d.structs = c.structs) : Later c d := by
  refine ⟨hfindings ▸ List.prefix_refl _, fun hname => ?_, fun hname => ?_⟩
  · rw [hscopes]
    exact hname
  · rw [hstructs]
    exact hname

/-- A change of the scopes that leaves each of them at its place. -/
theorem setScopes (c : Checker) {t : ScopeTree} (h : c.scopes.Unmoved t) :
    Later c { c with scopes := t } :=
  ⟨List.prefix_refl _, owningModule?_of_unmoved h, id⟩

theorem memory (hf : MemoryOp f) (c : Checker) : Later c (f c) := by
  have hstep := hf.step c
  obtain ⟨new, hnew, -⟩ := hstep.findings
  refine ⟨⟨new, hnew.symm⟩, fun hname => ?_, fun hname => hstep.structs ▸ hname⟩
  rw [← owningModule?_withoutMemory, hstep.scopes,
    owningModule?_withoutMemory]
  exact hname

end Later

/-- Nothing that has been found since the first state is a fault. -/
def NoFault (c d : Checker) : Prop :=
  ∀ new, d.context.findings = c.context.findings ++ new → ∀ f ∈ new, f.isFault = false

namespace NoFault

variable {c d e : Checker}

theorem left (h : NoFault c e) (hde : Later d e) : NoFault c d := by
  obtain ⟨more, hmore⟩ := hde.findings
  intro new hnew f hf
  refine h (new ++ more) ?_ f (List.mem_append_left _ hf)
  rw [← hmore, hnew, List.append_assoc]

theorem right (h : NoFault c e) (hcd : Later c d) : NoFault d e := by
  obtain ⟨new, hnew⟩ := hcd.findings
  intro more hmore f hf
  refine h (new ++ more) ?_ f (List.mem_append_right _ hf)
  rw [hmore, ← hnew, List.append_assoc]

/-- Where there is no fault, nothing has failed. -/
theorem not_failed (h : NoFault c d) {p : Prop} (ha : Account c d p) : ¬p := by
  obtain ⟨new, hnew, hp⟩ := ha.findings
  intro hfailed
  obtain ⟨f, hf, hfault⟩ := hp.mp hfailed
  rw [h new hnew f hf] at hfault
  cases hfault

end NoFault

/-! ### Actions that record nothing -/

/-- The action adds findings and records no type. -/
structure Idle {α : Type} (m : CheckM α) : Prop where
  later : ∀ c, Later c (m.exec c)
  types : ∀ c, (m.exec c).types = c.types

namespace Idle

variable {α β : Type}

theorem ofPure (a : α) : Idle (pure a : CheckM α) :=
  ⟨Later.refl, fun _ => rfl⟩

theorem bind {m : CheckM α} {k : α → CheckM β} (hm : Idle m) (hk : ∀ a, Idle (k a)) :
    Idle (m >>= k) :=
  ⟨fun c => (hm.later c).trans ((hk _).later _), fun c => ((hk _).types _).trans (hm.types c)⟩

theorem ofModify (hlater : ∀ c, Later c (f c)) (htypes : ∀ c, (f c).types = c.types) :
    Idle (modify f) :=
  ⟨hlater, htypes⟩

theorem memory (hf : MemoryOp f) : Idle (modify f) :=
  ofModify (Later.memory hf) fun c => (hf.step c).types

theorem report (cause : Cause) (span : Span) : Idle (CheckM.report cause span) :=
  ofModify (fun _ => ⟨List.prefix_append _ _, id, id⟩) fun _ => rfl

theorem reject (cause : Cause) (span : Span) : Idle (CheckM.reject cause span) :=
  (report cause span).bind fun _ => ofPure _

theorem fail (cause : Cause) (span : Span) : Idle (CheckM.fail cause span : CheckM (Option α)) :=
  (report cause span).bind fun _ => ofPure _

/-- What observes and has no expression to record is idle. -/
theorem ofObserves {m : CheckM α} (hm : Observes (fun _ => False) m) : Idle m := by
  have hinvariant (c : Checker) :
      ExprInvariant (fun _ => False) fun d => Later c d ∧ d.types = c.types := by
    refine ⟨fun span _ h => ?_, fun _ hid => hid.elim, fun {d f} hf h => ?_⟩
    · exact ⟨h.1.trans ((report _ span).later _), h.2⟩
    · exact ⟨h.1.trans (.memory hf d), (hf.step d).types.trans h.2⟩
  have hkept (c : Checker) := hm _ (hinvariant c) c ⟨.refl c, rfl⟩
  exact ⟨fun c => (hkept c).1, fun c => (hkept c).2⟩

end Idle

/-! ### Traces -/

namespace Visit

/-- The visit comes to what it is for: an expression has a type, a called member is a function, a
name stands for a type, a length is a number, and a written type can be resolved. -/
def Settled (v : Visit) : Prop :=
  match v.part with
  | .value _ e => ((e.check v.scope).eval v.state).isSome = true
  | .callee e receiver => ∃ member params ret,
    (Check.calledMember e receiver v.scope).eval v.state = some member ∧
      member.ty = .function params ret
  | .name e => (Check.namedSymbol? v.state e v.scope).any (·.isType) = true
  | .length e => ∃ n, e.kind = .int n
  | .type t => ((t.resolve v.scope).eval v.state).isSome = true

/-- If the visit is to the length of an array, that is a name or an integer. -/
def Fits (v : Visit) : Prop :=
  ∀ e, v.part = .value .length e →
    e.ident?.isSome = true ∨ (e.check v.scope).eval v.state = some .int

/-- The visit is made between two states, in a scope of the module that `scope` belongs to. -/
structure During (c : Checker) (scope : ScopeId) (d : Checker) (v : Visit) : Prop where
  after : Later c v.state
  before : Later v.state d
  owner {name} : c.scopes.owningModule? scope = some name →
    v.state.scopes.owningModule? v.scope = some name

namespace During

variable {c c' d d' : Checker} {scope : ScopeId} {v : Visit}

theorem since (h : v.During c' scope d) (hc : Later c c') : v.During c scope d :=
  ⟨hc.trans h.after, h.before, fun hname => h.owner (hc.owner hname)⟩

theorem till (h : v.During c scope d) (hd : Later d d') : v.During c scope d' :=
  ⟨h.after, h.before.trans hd, h.owner⟩

end During

end Visit

/-- The visits come to each of the expressions, and each comes to what it is for. -/
structure Complete (visits : List Visit) (sites : List Site) : Prop where
  sites : (visits.map Visit.site).Perm sites
  settled : ∀ v ∈ visits, v.Settled
  fits : ∀ v ∈ visits, v.Fits

namespace Complete

variable {visits visits' : List Visit} {sites sites' : List Site}

theorem nil : Complete [] [] :=
  ⟨.nil, List.forall_mem_nil _, List.forall_mem_nil _⟩

theorem append (h : Complete visits sites) (h' : Complete visits' sites') :
    Complete (visits ++ visits') (sites ++ sites') := by
  refine ⟨?_, List.forall_mem_append.mpr ⟨h.settled, h'.settled⟩,
    List.forall_mem_append.mpr ⟨h.fits, h'.fits⟩⟩
  rw [List.map_append]
  exact h.sites.append h'.sites

theorem perm (h : Complete visits sites) (hsites : sites.Perm sites') : Complete visits sites' :=
  ⟨h.sites.trans hsites, h.settled, h.fits⟩

theorem one (h : v.Settled) (hfits : v.Fits) : Complete [v] [v.site] :=
  ⟨.refl _, List.forall_mem_singleton.mpr h, List.forall_mem_singleton.mpr hfits⟩

end Complete

/-- Started in `c`, the action records what the visits come to. -/
structure Logs {α : Type} (c : Checker) (visits : List Visit) (m : CheckM α) : Prop where
  later : Later c (m.exec c)
  types : (m.exec c).types.entries = (visits.filterMap Visit.entry?).reverse ++ c.types.entries

/-- Started in `c`, the action records what the visits come to. They are in scopes of the module
that `scope` belongs to. If the action finds no fault, they are complete for the expressions in
`sites`. -/
structure Traced {α : Type} (c : Checker) (scope : ScopeId) (sites : List Site)
    (visits : List Visit) (m : CheckM α) : Prop extends Logs c visits m where
  during : ∀ v ∈ visits, v.During c scope (m.exec c)
  complete : NoFault c (m.exec c) → Complete visits sites

section laws

variable {α β : Type} {c : Checker} {scope : ScopeId} {sites sites' : List Site}
  {visits visits' : List Visit} {m : CheckM α} {k : α → CheckM β}

namespace Idle

theorem logs (hm : Idle m) (c : Checker) : Logs c [] m :=
  ⟨hm.later c, congrArg TypeTable.entries (hm.types c)⟩

/-- A visit that comes to nothing leaves no entry. -/
theorem logs_visit (hm : Idle m) (c : Checker) (hv : v.entry? = none) : Logs c [v] m := by
  refine ⟨hm.later c, ?_⟩
  rw [List.filterMap_cons_none hv, hm.types]
  rfl

theorem traced (hm : Idle m) (c : Checker) : Traced c scope [] [] m :=
  ⟨hm.logs c, List.forall_mem_nil _, fun _ => .nil⟩

end Idle

namespace Logs

theorem bind (hm : Logs c visits m) (hk : Logs (m.exec c) visits' (k (m.eval c))) :
    Logs c (visits ++ visits') (m >>= k) := by
  refine ⟨hm.later.trans hk.later, ?_⟩
  rw [exec_bind, hk.types, hm.types, List.filterMap_append, List.reverse_append, List.append_assoc]

/-- What comes last records nothing. -/
theorem last (hm : Logs c visits m) (hk : ∀ a, Idle (k a)) : Logs c visits (m >>= k) := by
  rw [← List.append_nil visits]
  exact hm.bind ((hk _).logs _)

end Logs

namespace Traced

variable {good : StructTable → α → Prop} {failed : α → Prop}

/-- A single visit, before anything is done. -/
theorem visit {part : Part} (hm : Logs c [⟨part, scope, c⟩] m)
    (hcomplete : NoFault c (m.exec c) → Complete [⟨part, scope, c⟩] sites) :
    Traced c scope sites [⟨part, scope, c⟩] m :=
  ⟨hm, List.forall_mem_singleton.mpr ⟨.refl c, hm.later, id⟩, hcomplete⟩

section

variable (hm : Traced c scope sites visits m)

include hm

/-- One action after the other. -/
theorem bind (hj : Judged c c m failed good)
    (hk : (m.exec c).WellTyped → Traced (m.exec c) scope sites' visits' (k (m.eval c))) :
    Traced c scope (sites ++ sites') (visits ++ visits') (m >>= k) := by
  have hrest := hk hj.account.wellTyped
  refine ⟨hm.toLogs.bind hrest.toLogs, ?_, fun hclean => ?_⟩
  · exact List.forall_mem_append.mpr ⟨fun v hv => (hm.during v hv).till hrest.later,
      fun v hv => (hrest.during v hv).since hm.later⟩
  · exact (hm.complete (hclean.left hrest.later)).append
      (hrest.complete (hclean.right hm.later))

/-- What comes last makes one visit, perhaps in a state that was there before. -/
theorem endingIn (hk : Logs (m.exec c) [v] (k (m.eval c)))
    (hduring : v.During c scope ((m >>= k).exec c))
    (hsettled : NoFault c ((m >>= k).exec c) → v.Settled ∧ v.Fits) :
    Traced c scope (v.site :: sites) (visits ++ [v]) (m >>= k) := by
  refine ⟨hm.toLogs.bind hk, List.forall_mem_append.mpr
    ⟨fun w hw => (hm.during w hw).till hk.later, List.forall_mem_singleton.mpr hduring⟩,
    fun hclean => ?_⟩
  obtain ⟨hvisit, hfits⟩ := hsettled hclean
  exact ((hm.complete (hclean.left hk.later)).append (.one hvisit hfits)).perm
    (List.perm_append_singleton ..)

/-- What comes last records nothing. -/
theorem last (hk : Idle (k (m.eval c))) : Traced c scope sites visits (m >>= k) := by
  have hlogs : Logs c (visits ++ []) (m >>= k) := hm.toLogs.bind (hk.logs _)
  have hlast := hk.later (m.exec c)
  rw [List.append_nil] at hlogs
  exact ⟨hlogs, fun v hv => (hm.during v hv).till hlast,
    fun hclean => hm.complete (hclean.left hlast)⟩

end

/-- What comes first records nothing. -/
theorem first (hm : Idle m) (hj : Judged c c m failed good)
    (hk : (m.exec c).WellTyped → Traced (m.exec c) scope sites visits (k (m.eval c))) :
    Traced c scope sites visits (m >>= k) :=
  (hm.traced c).bind hj hk

/-- An action that looks at the state first. -/
theorem ofGet {k : Checker → CheckM β} (hk : Traced c scope sites visits (k c)) :
    Traced c scope sites visits (get >>= k) :=
  ⟨⟨hk.later, hk.types⟩, hk.during, hk.complete⟩

/-- An action that visits nothing and has failed, which is a fault. -/
theorem ofFailure (hm : Idle m) (hj : Judged c c m failed good) (hfailed : failed (m.eval c)) :
    Traced c scope sites [] m :=
  ⟨hm.logs c, List.forall_mem_nil _, fun hclean => absurd hfailed (hclean.not_failed hj.account)⟩

/-- The walk goes on only if there is a result. If there is none, a fault has been found. -/
theorem cases {m : CheckM (Option α)} {k : Option α → CheckM β} {rest : α → Trace}
    (hm : Traced c scope sites visits m) (hy : Yields good c c m) (hnone : Idle (k none))
    (hsome : ∀ a, (m.exec c).WellTyped → good (m.exec c).structs a →
      Traced (m.exec c) scope sites' (rest a (m.exec c)) (k (some a))) :
    Traced c scope (sites ++ sites') (visits ++ whenSome rest (m.eval c) (m.exec c)) (m >>= k) := by
  cases hresult : m.eval c with
  | some a =>
    refine hm.bind hy fun hwell => ?_
    rw [hresult]
    exact hsome a hwell (hy.good a hresult)
  | none =>
    have hstop : Logs (m.exec c) [] (k (m.eval c)) := by
      rw [hresult]
      exact hnone.logs _
    refine ⟨hm.toLogs.bind hstop, ?_, fun hclean => ?_⟩
    · exact List.forall_mem_append.mpr
        ⟨fun v hv => (hm.during v hv).till hstop.later, List.forall_mem_nil _⟩
    · exact absurd hresult ((hclean.left hstop.later).not_failed hy.account)

theorem perm (hm : Traced c scope sites visits m)
    (hsites : NoFault c (m.exec c) → sites.Perm sites') : Traced c scope sites' visits m :=
  ⟨hm.toLogs, hm.during, fun hclean => (hm.complete hclean).perm (hsites hclean)⟩

/-- The scope may be another one of the same module. -/
theorem rebase {inner : ScopeId} (hm : Traced c inner sites visits m)
    (hscope : ∀ name, c.scopes.owningModule? scope = some name →
      c.scopes.owningModule? inner = some name) : Traced c scope sites visits m :=
  ⟨hm.toLogs, fun v hv => ⟨(hm.during v hv).after, (hm.during v hv).before,
    fun hname => (hm.during v hv).owner (hscope _ hname)⟩, hm.complete⟩

/-- An action in a changed walk. -/
theorem within (hwell : c.WellTyped) (change : Walk → Walk)
    (hframes : ∀ f ∈ (change c.walk).frames, f.returnType.KnownIn c.structs)
    (hm : ({ c with walk := change c.walk } : Checker).WellTyped →
      Traced { c with walk := change c.walk } scope sites visits m) :
    Traced c scope sites visits (CheckM.within change m) := by
  have hin := hm (hwell.setWalk hframes)
  have hstart : Later c { c with walk := change c.walk } := .of_eq rfl rfl rfl
  have hstop : Later (m.exec { c with walk := change c.walk })
      ((CheckM.within change m).exec c) := .of_eq rfl rfl rfl
  exact ⟨⟨hstart.trans (hin.later.trans hstop), hin.types⟩,
    fun v hv => ((hin.during v hv).since hstart).till hstop, hin.complete⟩

end Traced

end laws

end Warden
