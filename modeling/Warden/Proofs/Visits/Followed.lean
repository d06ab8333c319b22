import Warden.Proofs.Memory.Calls
import Warden.Proofs.Memory.Holders
import Warden.Proofs.Typing
import Warden.Proofs.Visits.Traced

/-!
# Following a rule

A rule works in one scope, and all that it visits, it visits there. `Followed` collects what is
known about a rule with its visits: they explain what it does to memory, each is made in a state
near the one in which the rule starts, and if that state is well typed, they are its trace. The laws
put rules together as the walk does. What a rule does after its last visit is `Passive` as a rule.

How near the states are depends on the rule. As long as nothing is declared they `Agree`. If names
are declared, records are still opened only as the first state charges them (`Charged`).
-/

namespace Warden

open CheckM Check Trace

variable {cause : Cause} {part : Part}

/-! ### States that are near -/

/-- A relation between a state and a later one, which all rules in the scope keep. -/
class Nearness (near : ScopeId → Checker → Checker → Prop) : Prop where
  refl (scope : ScopeId) (c : Checker) : near scope c c
  trans {scope : ScopeId} {c d e : Checker} : near scope c d → near scope d e → near scope c e
  invariant (scope : ScopeId) (c : Checker) :
    ScopeInvariant scope (fun _ => True) (near scope c)

instance : Nearness fun _ => Agree :=
  ⟨fun _ => .refl, .trans, fun scope c => (Agree.invariant _ c).inScope scope⟩

instance : Nearness Charged :=
  ⟨fun _ => .refl, .trans, Charged.invariant⟩

variable {α β : Type} {near : ScopeId → Checker → Checker → Prop} {scope : ScopeId}

theorem Nearness.ofRule [Nearness near] {node : NodeId → Prop} {m : CheckM α}
    (hm : m.IsRule scope node) (c : Checker) : near scope c (m.exec c) :=
  (hm _ _ (fun _ _ => trivial) (invariant scope c).lockstep).keeps (refl scope c)

/-- The action records no type, releases nothing and leaves a state that is near. -/
structure Passive (near : ScopeId → Checker → Checker → Prop) (scope : ScopeId) (m : CheckM α) :
    Prop where
  idle : Idle m
  sparing : Sparing m
  stays : ∀ c, near scope c (m.exec c)

theorem CheckM.Binds.idle {m : CheckM α} (hm : m.Binds scope) : Idle m := by
  have hkept (c : Checker) := hm (fun d => Later c d ∧ d.types = c.types)
    ⟨fun span _ h => ⟨h.1.trans ((Idle.report _ span).later _), h.2⟩,
      fun hinsert h => ⟨h.1.trans (.setScopes _ (.insert? hinsert)), h.2⟩,
      fun name span h => ⟨h.1.trans (.memory (.allocate ..) _),
        (MemoryOp.allocate scope name span).step _ |>.types.trans h.2⟩,
      fun target source h => ⟨h.1.trans (.memory (.rename ..) _),
        (MemoryOp.rename scope target source).step _ |>.types.trans h.2⟩⟩ c ⟨.refl c, rfl⟩
  exact ⟨fun c => (hkept c).1, fun c => (hkept c).2⟩

/-- What binds names records and releases nothing. -/
theorem CheckM.Binds.passive {m : CheckM α} (hm : m.Binds scope) : Passive Charged scope m :=
  ⟨hm.idle, hm.sparing, fun c => hm (Charged scope c) ⟨(Charged.invariant scope c).report,
    fun hinsert h => h.trans (.ofInsert hinsert), (Charged.invariant scope c).allocate,
    (Charged.invariant scope c).rename⟩ c (.refl c)⟩

theorem CheckM.OnlyReports.idle {m : CheckM α} (h : m.OnlyReports scope) : Idle m :=
  .ofObserves h.observes

/-- An action that looks at the state first. -/
theorem Passive.ofGet {k : Checker → CheckM β} (hk : ∀ c, Passive near scope (k c)) :
    Passive near scope (get >>= k) :=
  ⟨⟨fun c => (hk c).idle.later c, fun c => (hk c).idle.types c⟩,
    .ofGet fun c => (hk c).sparing, fun c => (hk c).stays c⟩

section

variable {m : CheckM α}

variable [Nearness near]

theorem CheckM.OnlyReports.passive (h : m.OnlyReports scope) : Passive near scope m :=
  ⟨h.idle, h.sparing, Nearness.ofRule h.isRule⟩

namespace Passive

theorem ofInStep {A : (NodeId → Prop) → α → α → Prop} (h : ∀ {node : NodeId → Prop} {R},
      ReportLockstep (.same (fun _ => True) node) scope scope R → InStep R (A node) m m) :
    Passive near scope m :=
  (CheckM.OnlyReports.ofInStep h).passive

theorem ofPure (a : α) : Passive near scope (pure a : CheckM α) :=
  ⟨.ofPure a, .ofPure a, Nearness.refl scope⟩

theorem bind {k : α → CheckM β} (hm : Passive near scope m) (hk : ∀ a, Passive near scope (k a)) :
    Passive near scope (m >>= k) :=
  ⟨hm.idle.bind fun a => (hk a).idle, hm.sparing.bind fun a => (hk a).sparing,
    fun c => Nearness.trans (hm.stays c) ((hk _).stays _)⟩

variable (hcause : cause.isRule = true)

include hcause

theorem report (span : Span) : Passive near scope (CheckM.report cause span) :=
  ⟨.report cause span, (Silent.report cause span).sparing,
    fun c => (Nearness.invariant scope c).report span hcause (Nearness.refl scope c)⟩

theorem reject (span : Span) : Passive near scope (CheckM.reject cause span) :=
  (report hcause span).bind fun _ => ofPure _

theorem fail (span : Span) : Passive near scope (CheckM.fail cause span : CheckM (Option α)) :=
  (report hcause span).bind fun _ => ofPure _

end Passive

end

/-! ### Visits in one scope -/

/-- No scope ends in the action, and visits in its own scope and in near states explain what it does
to memory. -/
structure ExplainedHere (near : ScopeId → Checker → Checker → Prop) (scope : ScopeId)
    (c : Checker) (visits : List Visit) (m : CheckM α) : Prop where
  explained : Explained scope c visits [] m
  stays : near scope c (m.exec c)
  here : ∀ v ∈ visits, v.scope = scope ∧ near scope c v.state

/-- As `ExplainedHere`. If the action starts in a well-typed state, the visits are its trace, and
without a fault they are complete for the expressions in `sites`. -/
structure Followed (near : ScopeId → Checker → Checker → Prop) (scope : ScopeId) (c : Checker)
    (sites : List Site) (visits : List Visit) (m : CheckM α) : Prop
    extends ExplainedHere near scope c visits m where
  traced : c.WellTyped → Traced c scope sites visits m

variable {c : Checker} {sites sites' : List Site}
  {visits visits' : List Visit} {m : CheckM α} {k : α → CheckM β}

namespace ExplainedHere

theorem ofPassive (hm : Passive near scope m) (c : Checker) : ExplainedHere near scope c [] m :=
  ⟨.ofSparing hm.sparing c, hm.stays c, List.forall_mem_nil _⟩

/-- Nothing comes of a visit to anything but a call. -/
theorem visit {d : Checker} (hm : ExplainedHere near scope c visits m)
    (hpart : Visit.effect? ⟨part, scope, d⟩ = none) (hd : near scope c d) :
    ExplainedHere near scope c (visits ++ [⟨part, scope, d⟩]) m :=
  ⟨Explains.visit hm.explained hpart, hm.stays,
    List.forall_mem_append.mpr ⟨hm.here, List.forall_mem_singleton.mpr ⟨rfl, hd⟩⟩⟩

variable [Nearness near]

theorem bind (hm : ExplainedHere near scope c visits m)
    (hk : ExplainedHere near scope (m.exec c) visits' (k (m.eval c))) :
    ExplainedHere near scope c (visits ++ visits') (m >>= k) := by
  refine ⟨hm.explained.bind hk.explained, Nearness.trans hm.stays hk.stays,
    List.forall_mem_append.mpr ⟨hm.here, fun v hv => ?_⟩⟩
  exact ⟨(hk.here v hv).1, Nearness.trans hm.stays (hk.here v hv).2⟩

/-- What comes last need not be explained. -/
theorem last (hm : ExplainedHere near scope c visits m) (hk : Sparing (k (m.eval c)))
    (hstays : near scope (m.exec c) ((k (m.eval c)).exec (m.exec c))) :
    ExplainedHere near scope c visits (m >>= k) :=
  ⟨Explains.last hm.explained (hk _), Nearness.trans hm.stays hstays, hm.here⟩

/-- An action that goes on if there is a result. -/
theorem cases {m : CheckM (Option α)} {k : Option α → CheckM β} {rest : α → Trace}
    (hm : ExplainedHere near scope c visits m) (hnone : Passive near scope (k none))
    (hsome : ∀ a, ExplainedHere near scope (m.exec c) (rest a (m.exec c)) (k (some a))) :
    ExplainedHere near scope c (visits ++ whenSome rest (m.eval c) (m.exec c)) (m >>= k) := by
  have hrest : ExplainedHere near scope (m.exec c) (whenSome rest (m.eval c) (m.exec c))
      (k (m.eval c)) := by
    cases m.eval c with
    | none => exact ofPassive hnone _
    | some a => exact hsome a
  exact hm.bind hrest

end ExplainedHere

theorem Passive.followed (hm : Passive near scope m) (c : Checker) :
    Followed near scope c [] [] m :=
  ⟨.ofPassive hm c, fun _ => hm.idle.traced c⟩

namespace Followed

variable {good : StructTable → α → Prop} {failed : α → Prop}

/-- An action that looks at the state first. -/
theorem ofGet {k : Checker → CheckM β} (hk : Followed near scope c sites visits (k c)) :
    Followed near scope c sites visits (get >>= k) :=
  ⟨⟨hk.explained, hk.stays, hk.here⟩, fun h => .ofGet (hk.traced h)⟩

/-- An action that visits nothing and has failed, which is a fault. -/
theorem ofFailure (hm : Passive near scope m) (hj : c.WellTyped → Judged c c m failed good)
    (hfailed : failed (m.eval c)) : Followed near scope c sites [] m :=
  ⟨.ofPassive hm c, fun h => .ofFailure hm.idle (hj h) hfailed⟩

variable [Nearness near]

section

variable (hm : Followed near scope c sites visits m)

include hm

/-- One action after the other. -/
theorem bind (hj : c.WellTyped → Judged c c m failed good)
    (hk : Followed near scope (m.exec c) sites' visits' (k (m.eval c))) :
    Followed near scope c (sites ++ sites') (visits ++ visits') (m >>= k) :=
  ⟨hm.toExplainedHere.bind hk.toExplainedHere,
    fun h => (hm.traced h).bind (hj h) hk.traced⟩

/-- What comes last, given the result so far. -/
theorem lastOf {a : α} (ha : m.eval c = a) (hk : Passive near scope (k a)) :
    Followed near scope c sites visits (m >>= k) := by
  subst ha
  exact ⟨hm.toExplainedHere.last hk.sparing (hk.stays _), fun h => (hm.traced h).last hk.idle⟩

theorem last (hk : ∀ a, Passive near scope (k a)) : Followed near scope c sites visits (m >>= k) :=
  hm.lastOf rfl (hk _)

end

theorem first (hm : Passive near scope m) (hj : c.WellTyped → Judged c c m failed good)
    (hk : Followed near scope (m.exec c) sites visits (k (m.eval c))) :
    Followed near scope c sites visits (m >>= k) :=
  (hm.followed c).bind hj hk

/-- The walk goes on only if there is a result. If there is none, a fault has been found. -/
theorem cases {m : CheckM (Option α)} {k : Option α → CheckM β} {rest : α → Trace}
    (hm : Followed near scope c sites visits m) (hy : c.WellTyped → Yields good c c m)
    (hnone : Passive near scope (k none))
    (hsome : ∀ a, Followed near scope (m.exec c) sites' (rest a (m.exec c)) (k (some a))) :
    Followed near scope c (sites ++ sites') (visits ++ whenSome rest (m.eval c) (m.exec c))
      (m >>= k) :=
  ⟨hm.toExplainedHere.cases hnone fun a => (hsome a).toExplainedHere,
    fun h => (hm.traced h).cases (hy h) hnone.idle fun a h _ => (hsome a).traced h⟩

/-- A visit to a part that comes to no type, before anything is done. -/
theorem visit (hm : Passive near scope m) (hentry : Visit.entry? ⟨part, scope, c⟩ = none)
    (heffect : Visit.effect? ⟨part, scope, c⟩ = none)
    (hcomplete : c.WellTyped → NoFault c (m.exec c) → Complete [⟨part, scope, c⟩] sites) :
    Followed near scope c sites [⟨part, scope, c⟩] m :=
  ⟨(ExplainedHere.ofPassive hm c).visit heffect (Nearness.refl scope c),
    fun h => .visit (hm.idle.logs_visit c hentry) (hcomplete h)⟩

end Followed

end Warden
