import Warden.Proofs.Memory.Queues

/-!
# Allocations and their owners

In the scope tree of a checked program, every record stands in the ledger of the function or module
in which the allocation happened, and a function whose pointers go to its caller has no records
(`allocations_attributed`).

Inside of one module this is what the journal of its statements says. Between modules no function is
around the walk, so the top level of a module is charged to nobody (`Apportioned`).
-/

namespace Warden

open CheckM Check Scope Checker

variable {scope : ScopeId} {c : Checker}

/-- The records of a scope are charged to the function that the scope is for. Those of a module are
charged to no function, and other scopes have none. -/
def Scope.HoldsOwn (s : Scope) : Prop :=
  match s.owner with
  | .function name => s.name = name ∧ ∀ a ∈ s.records, a.function = some name
  | .module _ => ∀ a ∈ s.records, a.function = none
  | .global | .block => s.records = []

namespace Scope

variable {s : Scope}

theorem mem_holders {a : Allocation} (ha : a ∈ s.records) : a.function ∈ s.holders :=
  List.mem_map_of_mem ha

theorem records_of_holders (h : s.holders = []) : s.records = [] :=
  List.map_eq_nil_iff.mp h

theorem records_of_ledger (h : s.outline.ledger = none) : s.records = [] := by
  have hledger : s.ledger = none := Option.map_eq_none_iff.mp h
  rw [records, hledger]
  rfl

theorem IsBlock.holdsOwn (h : s.IsBlock) : s.HoldsOwn := by
  have howner : s.owner = .block := h.1
  rw [HoldsOwn, howner]
  exact records_of_ledger h.2

end Scope

theorem Body.Holds.holdsOwn {b : Body} (h : b.Holds c) : (c.scopes.scope b.scope).HoldsOwn := by
  have howner : (c.scopes.scope b.scope).owner = .function b.name := h.owner
  rw [Scope.HoldsOwn, howner]
  exact ⟨h.name, fun a ha => (h.holders _ (mem_holders ha)).1⟩

/-! ### Modules, one after the other -/

/-- Since the first state, in which there were only modules, these entries have been made. -/
structure Apportioned (c₀ c : Checker) (entries : List Entry) : Prop where
  scopes : KeepsScopes c₀ c
  old : ∀ i < c₀.scopes.size, ∀ x ∈ (c.scopes.scope i).holders, x = none
  bodies : ∀ b, Opened entries b →
    c₀.scopes.size ≤ b.scope ∧ b.scope < c.scopes.size ∧ b.Holds c
  blocks : ∀ i, c₀.scopes.size ≤ i → i < c.scopes.size →
    (∃ b, Opened entries b ∧ b.scope = i) ∨ (c.scopes.scope i).IsBlock
  ended : ∀ b, Opened entries b → b.Ended entries
  left : ∀ e, .left e ∈ entries → e.scope < c.scopes.size

namespace Apportioned

variable {c₀ c d : Checker} {entries more : List Entry}

theorem start (hc : c.scopes.Arena) (h : ∀ i, (c.scopes.scope i).holders = []) :
    Apportioned c c [] where
  scopes := .ofPlain hc (.refl c)
  old i _ x hx := by
    rw [h i] at hx
    cases hx
  bodies b hb := absurd hb (not_opened (by simp) b)
  blocks i hge hlt := absurd hlt (Nat.not_lt.mpr hge)
  ended b hb := absurd hb (not_opened (by simp) b)
  left := by simp

theorem congr (h : Apportioned c₀ c entries) (hscopes : d.scopes = c.scopes) :
    Apportioned c₀ d entries where
  scopes := h.scopes.congr hscopes
  old := hscopes ▸ h.old
  bodies b hb := by
    obtain ⟨hge, hlt, hholds⟩ := h.bodies b hb
    exact ⟨hge, hscopes ▸ hlt, hholds.congr hscopes⟩
  blocks := hscopes ▸ h.blocks
  ended := h.ended
  left := hscopes ▸ h.left

/-- Statements at the top of a module are charged to no function. -/
theorem statements (h : Apportioned c₀ c entries) (hc : InPlace scope c)
    (hscope : scope < c₀.scopes.size) (howner : c.scopes.ledgerOwner? scope = some scope)
    (hframes : c.walk.frames = []) (hm : Attributed (Opened more) scope c more d) :
    Apportioned c₀ d (entries ++ more) := by
  have hcharges : ∀ {i x}, c.Charges scope i x → x = none ∧ i = scope := by
    intro i x hx
    have hholder : x = (c.walk.frames.head?.map (·.ownership)).map (·.function) := hx.holder
    rw [hframes] at hholder
    exact ⟨hholder, Option.some.inj (hx.nearest.symm.trans howner)⟩
  refine ⟨h.scopes.trans hm.scopes, fun i hi x hx => ?_, fun b hb => ?_, fun i hge hlt => ?_,
    fun b hb => ?_, fun s hs => ?_⟩
  · rcases hm.old i (Nat.lt_of_lt_of_le hi h.scopes.size) x hx with hx | hcharged
    · exact h.old i hi x hx
    · exact (hcharges hcharged).1
  · rcases opened_append.mp hb with hb | hb
    · obtain ⟨hge, hlt, hholds⟩ := h.bodies b hb
      refine ⟨hge, Nat.lt_of_lt_of_le hlt hm.scopes.size,
        hholds.keep (hm.scopes.outline _ hlt) fun x hx => ?_⟩
      rcases hm.old b.scope hlt x hx with hx | hcharged
      · exact hx
      · exact absurd ((hcharges hcharged).2 ▸ hscope) (Nat.not_lt.mpr hge)
    · obtain ⟨hge, hlt, hholds⟩ := hm.bodies b hb
      exact ⟨Nat.le_trans h.scopes.size hge, hlt, hholds⟩
  · rcases Nat.lt_or_ge i c.scopes.size with hold | hnew
    · rw [Scope.IsBlock, hm.scopes.outline i hold]
      exact (h.blocks i hge hold).imp_left
        (Exists.imp fun b hb => ⟨opened_append.mpr (.inl hb.1), hb.2⟩)
    · exact (hm.blocks i hnew hlt).imp_left
        (Exists.imp fun b hb => ⟨opened_append.mpr (.inr hb.1), hb.2⟩)
  · rcases opened_append.mp hb with hb | hb
    · obtain ⟨-, hlt, -⟩ := h.bodies b hb
      refine (h.ended b hb).append fun s hs heq => ?_
      exact Nat.not_lt.mpr (hm.reach.left s hs) (heq ▸ hlt)
    · obtain ⟨hge, -, -⟩ := hm.bodies b hb
      refine (hm.ended b hb).append_left fun s hs heq => ?_
      exact Nat.not_lt.mpr hge (heq ▸ h.left s hs)
  · rcases List.mem_append.mp hs with hs | hs
    · exact Nat.lt_of_lt_of_le (h.left s hs) hm.scopes.size
    · exact hm.reach.lt_size hc hm.scopes.size hs rfl

/-- The scope of a module is left, which is not the scope of a body. -/
theorem leave (h : Apportioned c₀ c entries) (hscope : scope < c₀.scopes.size) :
    Apportioned c₀ ((c.leaveScope scope).reportLeaks scope)
      (entries ++ endOfScope scope (some {}) c) := by
  have hend := Plain.leaveBody scope c
  have hholders : ∀ i, (((c.leaveScope scope).reportLeaks scope).scopes.scope i).holders =
      (c.scopes.scope i).holders := by
    rw [scopes_reportLeaks]
    exact c.holders_leaveScope scope
  generalize (c.leaveScope scope).reportLeaks scope = e at hend hholders ⊢
  have hopened : ∀ {b}, Opened (entries ++ endOfScope scope (some {}) c) b ↔ Opened entries b :=
    opened_end scope (some {}) c
  refine ⟨h.scopes.trans (.ofPlain h.scopes.arena hend), fun i hi x hx => ?_, fun b hb => ?_,
    fun i hge hlt => ?_, fun b hb => ?_, fun s hs => ?_⟩
  · exact h.old i hi x (hholders i ▸ hx)
  · obtain ⟨hge, hlt, hholds⟩ := h.bodies b (hopened.mp hb)
    exact ⟨hge, hend.size ▸ hlt, hholds.keep (hend.outline _) fun x hx => hholders _ ▸ hx⟩
  · rw [Scope.IsBlock, hend.outline]
    exact (h.blocks i hge (hend.size ▸ hlt)).imp_left
      (Exists.imp fun b hb => ⟨hopened.mpr hb.1, hb.2⟩)
  · refine (h.ended b (hopened.mp hb)).append fun s hs heq => ?_
    cases left_mem_endOfScope.mp hs
    exact Nat.not_lt.mpr (h.bodies b (hopened.mp hb)).1 (heq ▸ hscope)
  · have hsize : e.scopes.size = c.scopes.size := hend.size
    rw [hsize]
    rcases List.mem_append.mp hs with hs | hs
    · exact h.left s hs
    · cases left_mem_endOfScope.mp hs
      exact Nat.lt_of_lt_of_le hscope h.scopes.size

/-- A module is checked in its own scope, with no function around. -/
theorem module (h : Apportioned c₀ c entries) (m : Module) (hc : InPlace scope c)
    (hscope : scope < c₀.scopes.size) (howner : c.scopes.ledgerOwner? scope = some scope)
    (hframes : c.walk.frames = []) :
    Apportioned c₀ ((m.check scope).exec c) (entries ++ m.journal scope c) := by
  have hin : InPlace scope (c.entered m) := ⟨hc.arena, hc.bound, hc.target, hc.owned⟩
  have hm := ((tells_stmts scope [] m.statements _).attributed hin).congr
    fun _ => (or_iff_left id).symm
  rw [m.exec_check, Checker.leftModule, m.journal_eq, ← List.append_assoc]
  have hentered : Apportioned c₀ (c.entered m) entries := h.congr rfl
  exact (hentered.statements hin hscope howner hframes hm).leave hscope

end Apportioned

namespace Resolver

variable {config : Config} {linkageOf : Nat → Linkage} {r : Resolver} {c : Checker}
  {entries : List Entry}

/-- Before the tour there are no records. -/
theorem holders_start (h : Layout config linkageOf r) (i : ScopeId) :
    (r.checker.scopes.scope i).holders = [] := by
  rcases h.cases_scope i with rfl | ⟨slot, s, hs, rfl⟩ | hge
  · have hglobal := congrArg Scope.holders h.global
    exact hglobal
  · rw [h.module slot s hs]
    rfl
  · rw [ScopeTree.scope_of_size_le hge]
    rfl

theorem apportionedInvariant (hlayout : Layout config linkageOf r) :
    CourseInvariant config r fun _ => Apportioned r.checker where
  start := .start hlayout.arena (holders_start hlayout)
  check {_ c _ i s} hbetween hs _ h := by
    have hnested := hbetween.nested i s hs
    have howner := hnested.ledgerOwner?_module
    have hplace : InPlace s.scope c :=
      ⟨hnested.arena, hnested.scope_lt, by simp [hbetween.walk], _, howner⟩
    exact h.module s.module hplace (hlayout.scope_lt hs) howner (by rw [hbetween.walk])
  cycle _ _ _ _ _ h := h.congr rfl

/-- A scope is that of a body, or it is the global one, that of a module or a block. -/
theorem cases_apportioned (hlayout : Layout config linkageOf r)
    (h : Apportioned r.checker c entries) (i : ScopeId) : (∃ b, Opened entries b ∧ b.scope = i) ∨
      (∀ name, (c.scopes.scope i).owner ≠ .function name) ∧ (c.scopes.scope i).HoldsOwn := by
  have hblock : (c.scopes.scope i).IsBlock →
      (∀ name, (c.scopes.scope i).owner ≠ .function name) ∧ (c.scopes.scope i).HoldsOwn := by
    intro hblock
    have howner : (c.scopes.scope i).owner = .block := hblock.1
    exact ⟨by simp [howner], hblock.holdsOwn⟩
  rcases hlayout.cases_scope i with rfl | ⟨slot, s, hs, rfl⟩ | hge
  · have houtline := h.scopes.outline 0 (hlayout.size ▸ Nat.succ_pos _)
    have hinitial := congrArg Scope.outline hlayout.global
    have hglobal : (c.scopes.scope 0).outline = (ScopeTree.initial.scope 0).outline :=
      houtline.trans hinitial
    have howner : (c.scopes.scope 0).owner = .global := congrArg Scope.owner hglobal
    refine .inr ⟨by simp [howner], ?_⟩
    rw [Scope.HoldsOwn, howner]
    exact records_of_ledger (congrArg Scope.ledger hglobal)
  · have hlt : slot + 1 < r.checker.scopes.size := (hlayout.slot slot s hs).1 ▸ hlayout.scope_lt hs
    have houtline := h.scopes.outline (slot + 1) hlt
    rw [hlayout.module slot s hs] at houtline
    have howner : (c.scopes.scope (slot + 1)).owner = .module s.module.name :=
      congrArg Scope.owner houtline
    refine .inr ⟨by simp [howner], ?_⟩
    rw [Scope.HoldsOwn, howner]
    exact fun a ha => h.old (slot + 1) hlt _ (mem_holders ha)
  · rcases Nat.lt_or_ge i c.scopes.size with hlt | hbeyond
    · exact (h.blocks i hge hlt).imp_right hblock
    · refine .inr (hblock ?_)
      rw [ScopeTree.scope_of_size_le hbeyond]
      exact ⟨rfl, rfl⟩

end Resolver

/-- The state after a course, with the journal of the course. -/
theorem Program.IsCourse.apportioned {p : Program} {config : Config}
    {events : List Resolver.Event} (h : p.IsCourse config events) :
    let r := (Checker.ofConfig config).linked p
    Apportioned r.checker (p.check config) (r.journal r.checker events) :=
  h.keeps (Resolver.apportionedInvariant (layout_linked config p).1)

/-- Without records there are no leaks. -/
theorem Checker.reportLeaks_eq_self (h : (c.scopes.scope scope).records = []) :
    c.reportLeaks scope = c := by
  rw [reportLeaks]
  split
  · split
    · rfl
    next l hl =>
      have hleaks : l.leaks = [] := by
        rw [Scope.records, hl] at h
        have hnone : l.allocations = [] := h
        rw [Ledger.leaks, hnone]
        rfl
      rw [Context.reportLeaks, hleaks]
      rfl
  · rfl

/-- **Allocations are charged to their owners.** In the scope tree of a checked program, every
record of a function's scope names that function, every record of a module's scope names no
function, and there are no records elsewhere. The check has a course, and in the journal of every
course the scopes of functions are those of the bodies that have been entered. If a function or
method returns ownership, then its scope has no records, and when that scope is left there is no
leak to report. -/
theorem allocations_attributed (p : Program) (config : Config) :
    (∀ i, ((p.check config).scopes.scope i).HoldsOwn) ∧
    (∃ events, p.IsCourse config events) ∧
    ∀ events, p.IsCourse config events →
      let r := (Checker.ofConfig config).linked p
      let entries := r.journal r.checker events
      (∀ i name, ((p.check config).scopes.scope i).owner = .function name ↔
        ∃ decl, Opened entries ⟨i, name, decl⟩) ∧
      ∀ b, Opened entries b → b.decl.returnsOwnership = true →
        ((p.check config).scopes.scope b.scope).records = [] ∧
        (∃ e, .left e ∈ entries ∧ e.scope = b.scope) ∧
        ∀ e, .left e ∈ entries → e.scope = b.scope →
          (e.state.leaveScope e.scope).reportLeaks e.scope = e.state.leaveScope e.scope := by
  obtain ⟨course, hcourse⟩ := p.exists_isCourse config
  obtain ⟨hlayout, -⟩ := Checker.layout_linked config p
  refine ⟨fun i => ?_, ⟨course, hcourse⟩, fun events h => ?_⟩
  · rcases Resolver.cases_apportioned hlayout hcourse.apportioned i with ⟨b, hb, rfl⟩ | ⟨-, hown⟩
    · exact (hcourse.apportioned.bodies b hb).2.2.holdsOwn
    · exact hown
  · intro r entries
    have hall := h.apportioned
    refine ⟨fun i name => ⟨fun howner => ?_, ?_⟩, fun b hb hreturns => ⟨?_, ?_, ?_⟩⟩
    · rcases Resolver.cases_apportioned hlayout hall i with ⟨b, hb, rfl⟩ | ⟨hother, -⟩
      · obtain ⟨-, -, hholds⟩ := hall.bodies b hb
        have hname : b.name = name := ScopeOwner.function.inj (hholds.owner.symm.trans howner)
        exact ⟨b.decl, hname ▸ hb⟩
      · exact absurd howner (hother name)
    · rintro ⟨decl, hb⟩
      exact (hall.bodies _ hb).2.2.owner
    · exact Scope.records_of_holders ((hall.bodies b hb).2.2.eq_nil hreturns)
    · exact (hall.ended b hb).left
    · intro e he hscope
      have hnone := (hall.ended b hb).holders hreturns e he hscope
      refine Checker.reportLeaks_eq_self (Scope.records_of_holders ?_)
      exact (e.state.holders_leaveScope e.scope e.scope).trans (hscope ▸ hnone)

/-- A module, a function in it, a function `make` inside of that one which returns ownership, and a
method of a struct there all allocate: `let a = alloc(8); fn outer() -> void { let b = alloc(8);
fn make() -> *int { let c = alloc(8); return c; }
struct Pool { fn fill() -> void { { let d = alloc(8); } } } }`. -/
def nestedAllocations : Program :=
  let void : TypeExpr := .named {} none "void"
  let make : FnDecl := ⟨"make", [], pointer,
    ⟨{}, [allocation "c" 9, ⟨{}, .ret (some ⟨12, {}, .ident "c"⟩)⟩]⟩, false, true, false⟩
  let fill : FnDecl := ⟨"fill", [], void, ⟨{}, [⟨{}, .block ⟨{}, [allocation "d" 13]⟩⟩]⟩,
    false, false, false⟩
  let outer : FnDecl := ⟨"outer", [], void,
    ⟨{}, [allocation "b" 5, ⟨{}, .fn make⟩, ⟨{}, .struct ⟨"Pool", false, [], [⟨{}, fill⟩]⟩⟩]⟩,
    false, false, false⟩
  { modules := [{ name := "main", body := [allocation "a" 1, ⟨{}, .fn outer⟩] }] }
where
  pointer : TypeExpr := .pointer {} (.named {} none "int")
  allocation (name : String) (id : NodeId) : Stmt :=
    ⟨{}, .var {
      name
      ty := some pointer
      value := some ⟨id, {}, .call ⟨id + 1, {}, .ident "alloc"⟩ [⟨id + 2, {}, .int 8⟩]⟩ }⟩

example : (List.range 6).map (fun i =>
    let s := (nestedAllocations.check {}).scopes.scope i
    (s.name, s.holders)) =
      [("global", []), ("main", [none]), ("outer", [some "outer"]), ("make", []),
        ("Pool.fill", [some "Pool.fill"]), ("block", [])] := by
  decide +kernel

end Warden
