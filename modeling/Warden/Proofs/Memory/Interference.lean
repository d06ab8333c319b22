import Warden.Proofs.Bodies
import Warden.Proofs.Imports
import Warden.Proofs.Memory.Advisory
import Warden.Proofs.Mirror.Transfer
import Warden.Proofs.Resolution.Between

/-!
# What one function does to the check of another

The body of a function is checked in a scope of its own, and nothing that is declared in it can be
seen from outside. So to what comes after a function, it does not matter what its body is, nor what
its parameters are called, as far as the rules are concerned. The one thing that gets out are
changes to the ledgers of the scopes around. If these come to the same, then all that is found later
is the same (`functions_interfere_through_ledgers_only`).

They need not come to the same when a local variable is renamed. A local variable that stands for a
pointer of the module is noted in the module's ledger under its bare name, and a parameter of that
name in another function is taken for it (`renamed_local_shows_in_other_function`).
-/

namespace Warden

open CheckM ScopeTree Matching Checker

variable {S : List Level} {scope : ScopeId} {l : Level} {id : NodeId} {span : Span}

/-! ### States that differ behind a certain scope -/

namespace Matching

/-- The first `n` positions are the same, and the tables have grown in different ways since. -/
def upTo (n left right : Nat) (hleft : n ≤ left) (hright : n ≤ right) : Matching where
  old i j := i = j ∧ i < n
  left := left
  right := right
  bound h := ⟨Nat.lt_of_lt_of_le h.2 hleft, Nat.lt_of_lt_of_le (h.1 ▸ h.2) hright⟩
  left_unique h h' := h.1.trans h'.1.symm
  right_unique h h' := h.1.symm.trans h'.1

variable {n left right : Nat} {hleft : n ≤ left} {hright : n ≤ right}

theorem upTo_refl {i : Nat} (hi : i < n) : (upTo n left right hleft hright).Rel i i :=
  .inl ⟨rfl, hi⟩

theorem upTo_size : (upTo n left right hleft hright).New left right :=
  ⟨0, rfl, rfl⟩

/-- Positions stand for each other if they are the same old one, or both are beyond the tables. -/
theorem upTo_cases {i j : Nat} (h : (upTo n left right hleft hright).Rel i j) :
    i = j ∧ i < n ∨ left ≤ i ∧ right ≤ j := by
  rcases h with h | ⟨m, rfl, rfl⟩
  · exact .inl h
  · exact .inr ⟨Nat.le_add_right _ _, Nat.le_add_right _ _⟩

end Matching

namespace ScopeTree

/-- The tree with the ledgers of its first `n` scopes taken from another one. -/
def withLedgers (t : ScopeTree) (n : Nat) (u : ScopeTree) : ScopeTree :=
  { t with
    scopes := t.scopes.mapIdx fun i s =>
      if i < n then { s with ledger := (u.scope i).ledger } else s }

variable {t u : ScopeTree} {n : Nat}

theorem size_withLedgers : (t.withLedgers n u).size = t.size := by
  simp [withLedgers, size]

theorem scope_withLedgers (hn : n ≤ t.size) (i : ScopeId) : (t.withLedgers n u).scope i =
      if i < n then { t.scope i with ledger := (u.scope i).ledger } else t.scope i := by
  simp only [withLedgers, scope, Array.getD_eq_getD_getElem?, Array.getElem?_mapIdx]
  rcases Nat.lt_or_ge i t.size with hi | hi
  · have hsome : t.scopes[i]? = some t.scopes[i] := Array.getElem?_eq_getElem hi
    rw [hsome]
    split <;> rfl
  · have hnone : t.scopes[i]? = none := Array.getElem?_eq_none hi
    rw [hnone, if_neg (Nat.not_lt.mpr (Nat.le_trans hn hi))]
    rfl

/-- A tree is given by its scopes and its registry. -/
theorem ext_scope (hsize : t.size = u.size) (hmodules : t.modules = u.modules)
    (h : ∀ i, t.scope i = u.scope i) : t = u := by
  obtain ⟨scopes, modules⟩ := t
  obtain ⟨scopes', modules'⟩ := u
  obtain rfl : modules = modules' := hmodules
  have hscopes : scopes = scopes' := by
    apply Array.ext hsize
    intro i hi hi'
    simpa [scope, Array.getD, hi, hi'] using h i
  rw [hscopes]

theorem withLedgers_eq_self (hn : n ≤ t.size)
    (h : ∀ i < n, (u.scope i).ledger = (t.scope i).ledger) : t.withLedgers n u = t := by
  refine ext_scope size_withLedgers rfl fun i => ?_
  rw [scope_withLedgers hn]
  split
  next hi => rw [h i hi]
  · rfl

/-- Without memory, only the places of the ledgers are left. -/
theorem withoutMemory_withLedgers (hn : n ≤ t.size)
    (h : ∀ i < n, (u.scope i).ledger.isSome = (t.scope i).ledger.isSome) :
    (t.withLedgers n u).withoutMemory = t.withoutMemory := by
  refine ext_scope ?_ rfl fun i => ?_
  · rw [size_withoutMemory, size_withoutMemory, size_withLedgers]
  · rw [scope_withoutMemory, scope_withoutMemory, scope_withLedgers hn]
    split
    next hi =>
      have hplace : (u.scope i).ledger.map (fun _ => ({} : Ledger)) =
          (t.scope i).ledger.map fun _ => {} := by
        have hsome := h i hi
        cases hu : (u.scope i).ledger <;> cases ht : (t.scope i).ledger <;> simp_all
      simp only [Scope.withoutMemory, hplace]
    · rfl

end ScopeTree

/-! ### After two functions of the same header -/

section

variable {l : Level} {S : List Level} {c d d' : Checker} {name : String} {frame : Frame}
  {node node' : NodeId → Prop}

/-- What a scope from before a body holds after it, apart from its ledger. -/
theorem BodyFrame.field
    (h : BodyFrame node c.scopes.size (l :: S) (c.enteredBody l.scope name frame) d) {α : Type}
    (field : Scope → α) (hfield : ∀ s children, field { s with children } = field s)
    (hcontents : ∀ s, field s.contents = field s) {i : ScopeId} (hi : i < c.scopes.size) :
    field (d.scopes.scope i) = field (c.scopes.scope i) := by
  rw [← hcontents, h.contents i hi, hcontents]
  exact c.scopes.field_addScope l.scope name _ _ field hfield (Nat.ne_of_lt hi)

variable (hc : c.WellTyped) (hmodules : c.scopes.ModulesKnown) (hS : Nested (l :: S) c)
  (h : BodyFrame node c.scopes.size (l :: S) (c.enteredBody l.scope name frame) d)
  (h' : BodyFrame node' c.scopes.size (l :: S) (c.enteredBody l.scope name frame) d')

/-- The scopes from before the function, and the new ones of each side in step. -/
abbrev scopesUpTo (c d d' : Checker) (h : c.scopes.size ≤ d.scopes.size)
    (h' : c.scopes.size ≤ d'.scopes.size) : Matching :=
  .upTo c.scopes.size d.scopes.size d'.scopes.size h h'

abbrev structsUpTo (c d d' : Checker) (h : c.structs.size ≤ d.structs.size)
    (h' : c.structs.size ≤ d'.structs.size) : Matching :=
  .upTo c.structs.size d.structs.size d'.structs.size h h'

include hc hmodules h h'

theorem alike_scopes_after_bodies :
    d.scopes.Alike (scopesUpTo c d d' (Nat.le_of_lt h.size) (Nat.le_of_lt h'.size))
      ((structsUpTo c d d' h.grown.structs_size h'.grown.structs_size).pairing
        fun id => ¬node id ∧ ¬node' id)
      (d'.scopes.withLedgers c.scopes.size d.scopes) := by
  have hscope : ∀ i, (d'.scopes.withLedgers c.scopes.size d.scopes).scope i =
      if i < c.scopes.size then d.scopes.scope i else d'.scopes.scope i := by
    intro i
    rw [scope_withLedgers (Nat.le_of_lt h'.size)]
    split
    next hi =>
      refine Scope.eq_of_contents ?_ rfl
      exact (h'.contents i hi).trans (h.contents i hi).symm
    · rfl
  refine ⟨h.nested.arena, h'.nested.arena.congr fun i => ?_, ?_, fun {i j} hij => ?_⟩
  · rw [scope_withLedgers (Nat.le_of_lt h'.size)]
    split <;> rfl
  · rw [size_withLedgers]
    exact upTo_size
  · rw [hscope]
    rcases upTo_cases hij with ⟨rfl, hi⟩ | ⟨hi, hj⟩
    · rw [if_pos hi]
      refine Scope.alike_self (fun _ hi => upTo_refl hi) _ ?_ ?_ ?_
      · rw [h.field Scope.symbols (fun _ _ => rfl) (fun _ => rfl) hi]
        exact fun x hx => hc.symbols x ⟨i, hx⟩
      · intro p hp
        exact upTo_refl (Nat.lt_trans (h.nested.arena i p hp) hi)
      · rw [h.field Scope.imports (fun _ _ => rfl) (fun _ => rfl) hi]
        exact fun m hm => upTo_refl (hmodules.imported hm)
    · rw [if_neg (Nat.not_lt.mpr (Nat.le_trans (Nat.le_of_lt h'.size) hj)),
        scope_of_size_le hi, scope_of_size_le hj]
      exact ⟨.none, rfl, rfl, .nil, .nil, rfl, rfl⟩

omit hmodules in
theorem alike_structs_after_bodies :
    d.structs.Alike (structsUpTo c d d' h.grown.structs_size h'.grown.structs_size)
      ((structsUpTo c d d' h.grown.structs_size h'.grown.structs_size).pairing
        fun id => ¬node id ∧ ¬node' id) d'.structs := by
  refine ⟨upTo_size, fun {i j} hij => ?_⟩
  rcases upTo_cases hij with ⟨rfl, hi⟩ | ⟨hi, hj⟩
  · rw [h.grown.structs i hi, h'.grown.structs i hi]
    cases hd : c.structs.get? i with
    | none =>
      have hnone : (c.enteredBody l.scope name frame).structs.get? i = none := hd
      rw [hnone]
      exact .none
    | some s =>
      have hsome : (c.enteredBody l.scope name frame).structs.get? i = some s := hd
      rw [hsome]
      refine .some ((Pairing.same_structDef _ _ s).transfer
        (carriesTo_pairing (fun _ hi => upTo_refl hi) _) ?_ (hc.members i s hd))
      rwa [hc.ids i s hd]
  · have hnone : d.structs.get? i = none := Array.getElem?_eq_none hi
    have hnone' : d'.structs.get? j = none := Array.getElem?_eq_none hj
    rw [hnone, hnone']
    exact .none

omit hmodules in
theorem alike_types_after_bodies (hid : ¬node id ∧ ¬node' id) : Option.Rel (Ty.Alike
      ((structsUpTo c d d' h.grown.structs_size h'.grown.structs_size).pairing
        fun id => ¬node id ∧ ¬node' id)) (d.types.get? id) (d'.types.get? id) := by
  rw [h.grown.types id hid.1, h'.grown.types id hid.2]
  cases hty : (c.enteredBody l.scope name frame).types.get? id with
  | none => exact .none
  | some ty =>
    refine .some (Ty.alike_self (c := c) (fun _ hi => upTo_refl hi) _ ?_)
    obtain ⟨before, later, hentries, -⟩ := List.lookup_eq_some_iff.mp hty
    exact hc.types (id, ty) (hentries ▸ List.mem_append_right _ (.head _))

include hS

/-- After two functions of the same header the states mirror each other, but for the ledgers. -/
theorem mirrored_after_bodies (hwalk : d.walk = c.walk) (hwalk' : d'.walk = c.walk) :
    Mirrored (scopesUpTo c d d' (Nat.le_of_lt h.size) (Nat.le_of_lt h'.size))
      (structsUpTo c d d' h.grown.structs_size h'.grown.structs_size)
      (fun id => ¬node id ∧ ¬node' id) d.context.findings d'.context.findings (l :: S) (l :: S) d
      { d' with scopes := d'.scopes.withLedgers c.scopes.size d.scopes } where
  levels := List.forall₂_same.mpr fun l' hl' => upTo_refl (hS.bound l' hl')
  nested := h.nested
  mirror :=
    { scopes := alike_scopes_after_bodies hc hmodules h h'
      structs := alike_structs_after_bodies hc h h'
      types := alike_types_after_bodies hc h h'
      walk := by
        rw [hwalk, hwalk']
        refine ⟨List.forall₂_same.mpr fun f hf => ⟨?_, rfl⟩, rfl, ?_⟩
        · exact Ty.alike_self (c := c) (fun _ hi => upTo_refl hi) _ (hc.frames f hf)
        · cases ht : c.walk.deferTarget with
          | none => exact .none
          | some t =>
            obtain ⟨l', hl', rfl⟩ := List.mem_map.mp (hS.target t ht).2
            exact .some (upTo_refl (hS.bound l' hl'))
      context := ⟨h.grown.context.trans h'.grown.context.symm, [], [], by simp⟩ }

/-- To checks in these scopes that are about expressions in `node`, the states differ in ledgers
only: one of them mirrors a third one, which agrees with the other up to memory, and is the other
one if the ledgers of these scopes are equal. -/
def Checker.DifferInLedgers (node : NodeId → Prop) (S : List Level) (d d' : Checker) : Prop :=
  ∃ ms mt e, Mirrored ms mt node d.context.findings d'.context.findings S S d e ∧
    e.AgreeUpToMemory d' ∧
    ((∀ l ∈ S, (d.scopes.scope l.scope).ledger = (d'.scopes.scope l.scope).ledger) → e = d')

theorem differInLedgers_after_bodies (hwalk : d.walk = c.walk) (hwalk' : d'.walk = c.walk) :
    Checker.DifferInLedgers (fun id => ¬node id ∧ ¬node' id) (l :: S) d d' := by
  have hsize := Nat.le_of_lt h'.size
  refine ⟨_, _, _, mirrored_after_bodies hc hmodules hS h h' hwalk hwalk', ?_, fun hledgers => ?_⟩
  · have hscopes := withoutMemory_withLedgers (u := d.scopes) hsize fun i hi =>
      Scope.isSome_ledger_of_outline ((h.outline i hi).trans (h'.outline i hi).symm)
    exact congrArg (fun scopes => { d'.withoutMemory with scopes }) hscopes
  · have hscopes : d'.scopes.withLedgers c.scopes.size d.scopes = d'.scopes := by
      refine withLedgers_eq_self hsize fun i hi => ?_
      by_cases hmem : i ∈ (l :: S).map (·.scope)
      · obtain ⟨l', hl', rfl⟩ := List.mem_map.mp hmem
        exact hledgers l' hl'
      · exact (h.ledger i hi hmem).trans (h'.ledger i hi hmem).symm
    rw [hscopes]

end

/-! ### Functions of the same header -/

/-- What others see of the functions is the same: all but the bodies and the names of parameters. -/
structure FnDecl.SameHeader (f f' : FnDecl) : Prop where
  name : f.name = f'.name
  types : f.params.map (·.ty) = f'.params.map (·.ty)
  owned : f.params.map (·.takesOwnership) = f'.params.map (·.takesOwnership)
  returnType : f.returnType = f'.returnType
  isPublic : f.isPublic = f'.isPublic
  returnsOwnership : f.returnsOwnership = f'.returnsOwnership
  takesOwnership : f.takesOwnership = f'.takesOwnership

theorem Check.paramTypes_congr (scope : ScopeId) {ps ps' : List Param}
    (h : ps.map (·.ty) = ps'.map (·.ty)) : paramTypes scope ps = paramTypes scope ps' := by
  induction ps generalizing ps' with
  | nil => rw [List.map_eq_nil_iff.mp h.symm]
  | cons p ps ih =>
    obtain ⟨p', ps', rfl, hp, hps⟩ := List.map_eq_cons_iff.mp h.symm
    rw [paramTypes, paramTypes, hp, ih hps.symm]

namespace FnDecl.SameHeader

variable {f f' : FnDecl} (h : f.SameHeader f')

include h

/-- The functions are declared in the same way. -/
theorem fnDecl_eq (span : Span) (scope : ScopeId) :
    Check.fnDecl f span scope = Check.fnDecl f' span scope := by
  rw [Check.fnDecl, Check.fnDecl, Check.signature, Check.signature,
    Check.paramTypes_congr scope h.types, h.returnType, h.name, h.isPublic, h.returnsOwnership,
    h.takesOwnership, h.owned]

theorem frame_eq (sig : Check.Signature) (name : String) :
    f.frame sig name = f'.frame sig name := by
  rw [FnDecl.frame, FnDecl.frame, h.returnsOwnership, h.takesOwnership]

end FnDecl.SameHeader

namespace Checker

variable {c : Checker}

/-- The state after some statements in a scope. -/
def past (c : Checker) (scope : ScopeId) (ss : List Stmt) : Checker :=
  (checkStmts scope ss).exec c

theorem exec_fn_of_none {f : FnDecl} (h : (Check.fnDecl f span scope).eval c = none) :
    ((⟨span, .fn f⟩ : Stmt).check scope).exec c = (Check.fnDecl f span scope).exec c := by
  rw [Stmt.check, exec_bind, h]
  rfl

theorem exec_fn_of_some {f : FnDecl} {sig : Check.Signature}
    (h : (Check.fnDecl f span scope).eval c = some sig) :
    ((⟨span, .fn f⟩ : Stmt).check scope).exec c =
      (f.checkBody sig span scope f.name).exec ((Check.fnDecl f span scope).exec c) := by
  rw [Stmt.check, exec_bind, h]

theorem Reachable.past (h : c.Reachable) (scope : ScopeId) (ss : List Stmt) :
    (c.past scope ss).Reachable := by
  induction ss generalizing c with
  | nil => exact h
  | cons s ss ih => exact ih (.stmt s scope h)

theorem nested_past (h : Nested (l :: S) c) (ss : List Stmt) :
    Nested (l :: S) (c.past l.scope ss) := by
  have hgrown := Grown.invariant (fun _ => True) c Nested
  exact (StackInvariant.stmts nested_unconditional hgrown (fun _ _ => trivial) h (.refl _ _)).1

end Checker

namespace Mirrored

variable {ms mt : Matching} {node : NodeId → Prop} {F F' : List Finding} {l l' : Level}
  {S S' : List Level} {c d : Checker}

theorem past (h : Mirrored ms mt node F F' (l :: S) (l' :: S') c d) {ss : List Stmt}
    (hss : ∀ id ∈ stmtNodes ss, node id) :
    Mirrored ms mt node F F' (l :: S) (l' :: S') (c.past l.scope ss) (d.past l'.scope ss) :=
  ((mirror_lockstep ms mt node F F').inStep_stmts ss hss c d h).states

end Mirrored

theorem SameUpToMemory.emitsApartFromMemory_eq {α : Type} {m : CheckM α} {c d : Checker}
    (h : SameUpToMemory m c d) : m.emitsApartFromMemory c = m.emitsApartFromMemory d := by
  obtain ⟨new, new', hnew, hnew', heq⟩ := h.findings
  rw [emitsApartFromMemory, emitsApartFromMemory, emitted_eq hnew, emitted_eq hnew', heq]

theorem FnDecl.mem_nodes_of_body {f : FnDecl} (h : id ∈ stmtNodes f.body.stmts) : id ∈ f.nodes := by
  obtain ⟨name, params, returnType, ⟨span, stmts⟩, isPublic, returns, takes⟩ := f
  exact List.mem_append_right _ (List.mem_append_right _ h)

/-- After two functions of the same header in the same place, the states are the same or differ in
ledgers only. -/
theorem differInLedgers_after_functions {c : Checker} (hc : c.WellTyped)
    (hmodules : c.scopes.ModulesKnown) (hS : Nested (l :: S) c) {f f' : FnDecl}
    (hheader : f.SameHeader f') (span : Span) :
    c.past l.scope [⟨span, .fn f⟩] = c.past l.scope [⟨span, .fn f'⟩] ∨
      Checker.DifferInLedgers
        (fun id => id ∉ stmtNodes f.body.stmts ∧ id ∉ stmtNodes f'.body.stmts) (l :: S)
        (c.past l.scope [⟨span, .fn f⟩]) (c.past l.scope [⟨span, .fn f'⟩]) := by
  have hone : ∀ f : FnDecl, c.past l.scope [⟨span, .fn f⟩] =
      ((⟨span, .fn f⟩ : Stmt).check l.scope).exec c := fun _ => rfl
  rw [hone, hone]
  have hdecl := hheader.fnDecl_eq span l.scope
  cases hsig : (Check.fnDecl f span l.scope).eval c with
  | none =>
    rw [exec_fn_of_none hsig, exec_fn_of_none (hdecl ▸ hsig), hdecl]
    exact .inl rfl
  | some sig =>
    -- the functions have been declared alike, and now their bodies are checked
    rw [exec_fn_of_some hsig, exec_fn_of_some (hdecl ▸ hsig), ← hdecl,
      ← hheader.name]
    have hwell := (yields_fnDecl span l.scope hc f).account.wellTyped
    have hknown : ((Check.fnDecl f span l.scope).exec c).scopes.ModulesKnown :=
      Respects.invariant modulesKnown_runInvariant.invariant
        (fun hR => hR.respects_fnDecl f span l.scope) hmodules
    have hnested := (StackInvariant.fnDecl (f := f) nested_unconditional
      (Grown.invariant (fun _ => True) c Nested) (fun _ _ => trivial) (fun _ _ => trivial) span hS
      (.refl _ _)).1
    generalize (Check.fnDecl f span l.scope).exec c = c' at hwell hknown hnested ⊢
    have hframe := f.frame_checkBody sig span f.name hnested
    have hframe' := f'.frame_checkBody sig span f.name hnested
    rw [← hheader.frame_eq] at hframe'
    refine .inr (differInLedgers_after_bodies hwell hknown hnested hframe hframe' ?_ ?_)
    · rw [FnDecl.exec_checkBody]
    · rw [FnDecl.exec_checkBody]

/-- What states that differ in ledgers only mean to a statement, after some other ones. -/
theorem Checker.DifferInLedgers.emits {node : NodeId → Prop} {d d' : Checker}
    (h : DifferInLedgers node (l :: S) d d') {between : List Stmt} {g : Stmt}
    (hbetween : ∀ id ∈ stmtNodes between, node id) (hg : ∀ id ∈ g.nodes, node id) :
    (g.check l.scope).emitsApartFromMemory (d.past l.scope between) =
        (g.check l.scope).emitsApartFromMemory (d'.past l.scope between) ∧
      ((∀ l' ∈ l :: S, (d.scopes.scope l'.scope).ledger = (d'.scopes.scope l'.scope).ledger) →
        (g.check l.scope).emits (d.past l.scope between) =
          (g.check l.scope).emits (d'.past l.scope between)) := by
  obtain ⟨ms, mt, e, hmirrored, hagree, heq⟩ := h
  have hpast := hmirrored.past hbetween
  have hstates := ((mirror_lockstep ms mt node _ _).inStep_stmt g hg _ _
    ⟨hpast.levels, hpast.nested, hpast.mirror.rebase⟩).states
  have hshown := hstates.mirror.shown_emitted
  refine ⟨?_, fun hledgers => ?_⟩
  · have hbetween' : (e.past l.scope between).AgreeUpToMemory (d'.past l.scope between) :=
      (AgreeUpToMemory.simulation.respects_stmts l.scope between e d' hagree).2
    have hsame := SameUpToMemory.of_respects (fun hR => hR.respects_stmt l.scope g) hbetween'
    exact (map_filter_eq_of_shown hshown).trans hsame.emitsApartFromMemory_eq
  · rw [heq hledgers] at hshown
    exact map_toDiagnostic_eq_of_shown hshown

/-- **Functions interfere through ledgers only.** Let a check stand in certain scopes and come to a
function, and then to further statements. Put another function of the same header in its place, as
when a local variable or a parameter is renamed. Then each further statement, such as another
function, comes to the same diagnostics apart from those of the memory analysis. If the two
functions leave the same ledgers in the scopes around, it comes to the same diagnostics
altogether. -/
theorem functions_interfere_through_ledgers_only {c : Checker} (hc : c.Reachable) {l : Level}
    {S : List Level} (hS : Nested (l :: S) c) {f f' : FnDecl} (hheader : f.SameHeader f')
    (span : Span) {between : List Stmt} {g : Stmt}
    (hnodes : ∀ id ∈ stmtNodes (between ++ [g]), id ∉ f.nodes ∧ id ∉ f'.nodes) :
    let past := fun h : FnDecl => c.past l.scope (⟨span, .fn h⟩ :: between)
    (g.check l.scope).emitsApartFromMemory (past f) =
        (g.check l.scope).emitsApartFromMemory (past f') ∧
      ((∀ l' ∈ l :: S, ((c.past l.scope [⟨span, .fn f⟩]).scopes.scope l'.scope).ledger =
          ((c.past l.scope [⟨span, .fn f'⟩]).scopes.scope l'.scope).ledger) →
        (g.check l.scope).emits (past f) = (g.check l.scope).emits (past f')) := by
  have hbody : ∀ s ∈ between ++ [g], ∀ id ∈ s.nodes,
      id ∉ stmtNodes f.body.stmts ∧ id ∉ stmtNodes f'.body.stmts := by
    intro s hs id hid
    obtain ⟨hf, hf'⟩ := hnodes id (mem_stmtNodes.mpr ⟨s, hs, hid⟩)
    exact ⟨fun hmem => hf (FnDecl.mem_nodes_of_body hmem),
      fun hmem => hf' (FnDecl.mem_nodes_of_body hmem)⟩
  have hpast : ∀ h : FnDecl, c.past l.scope (⟨span, .fn h⟩ :: between) =
      (c.past l.scope [⟨span, .fn h⟩]).past l.scope between := fun _ => rfl
  dsimp only
  rw [hpast, hpast]
  rcases differInLedgers_after_functions hc.wellTyped hc.modulesKnown hS hheader span with
    heq | hdiffer
  · rw [heq]
    exact ⟨rfl, fun _ => rfl⟩
  · refine hdiffer.emits (fun id hid => ?_) fun id hid => ?_
    · obtain ⟨s, hs, hid⟩ := mem_stmtNodes.mp hid
      exact hbody s (List.mem_append_left _ hs) id hid
    · exact hbody g (List.mem_append_right _ (.head _)) id hid

/-- The type `*int`. -/
def pointerToInt : TypeExpr :=
  .pointer {} (.named {} none "int")

/-- A call of a built-in function, with identities from `id` on. -/
def builtinCall (id : NodeId) (callee : String) (arg : ExprKind) : Expr :=
  ⟨id, {}, .call ⟨id + 1, {}, .ident callee⟩ [⟨id + 2, {}, arg⟩]⟩

/-- A module in scope 1, whose statements so far have allocated a pointer `p`. -/
def moduleWithPointer : Checker :=
  (((Checker.ofConfig {}).resolve { modules := [{ name := "main", body := [] }] }).checker).past 1
    [⟨{}, .var { name := "p", ty := some pointerToInt
                 value := some (builtinCall 1 "alloc" (.int 8)) }⟩]

theorem reachable_moduleWithPointer : moduleWithPointer.Reachable :=
  .past (.resolve _ (.start {})) 1 _

theorem nested_moduleWithPointer : Nested (moduleStack 1) moduleWithPointer := by
  have hnested := nested_resolve {} { modules := [{ name := "main", body := [] }] }
    (i := 0) (s := ⟨{ name := "main", body := [] }, 1, [], .unvisited⟩) rfl
  exact nested_past hnested _

/-- The function `f`, with a body. -/
def functionWith (body : List Stmt) : FnDecl :=
  ⟨"f", [], .named {} none "void", ⟨{}, body⟩, false, false, false⟩

/-- A function that frees its parameter `q`. -/
def freesParameter : Stmt :=
  ⟨{}, .fn ⟨"g", [{ name := "q", ty := pointerToInt }], .named {} none "void",
    ⟨{}, [⟨{}, .expr (builtinCall 20 "free" (.ident "q"))⟩]⟩, false, false, false⟩⟩

/-- A function that allocates a local variable and frees it. -/
def allocatesLocal (name : String) : FnDecl :=
  functionWith [
    ⟨{}, .var { name, ty := some pointerToInt, value := some (builtinCall 10 "alloc" (.int 8)) }⟩,
    ⟨{}, .expr (builtinCall 13 "free" (.ident name))⟩]

/-- The local variable of a function that manages its own memory can be renamed. -/
theorem renamed_local_hidden_from_other_function :
    let past := fun name : String => moduleWithPointer.past 1 [⟨{}, .fn (allocatesLocal name)⟩]
    moduleWithPointer.Reachable ∧ Nested (moduleStack 1) moduleWithPointer ∧
      (allocatesLocal "q").SameHeader (allocatesLocal "r") ∧
      ((past "q").scopes.scope 1).ledger = ((past "r").scopes.scope 1).ledger ∧
      ((freesParameter.check 1).emitted (past "q")).map (·.tag) = [.untrackedFree] ∧
      (freesParameter.check 1).emits (past "q") = (freesParameter.check 1).emits (past "r") := by
  have hheader : (allocatesLocal "q").SameHeader (allocatesLocal "r") :=
    ⟨rfl, rfl, rfl, rfl, rfl, rfl, rfl⟩
  have hledgers : ∀ i < 2,
      ((moduleWithPointer.past 1 [⟨{}, .fn (allocatesLocal "q")⟩]).scopes.scope i).ledger =
        ((moduleWithPointer.past 1 [⟨{}, .fn (allocatesLocal "r")⟩]).scopes.scope i).ledger := by
    decide +kernel
  have hnodes : ∀ id ∈ stmtNodes ([] ++ [freesParameter]),
      id ∉ (allocatesLocal "q").nodes ∧ id ∉ (allocatesLocal "r").nodes := by decide +kernel
  have hsame := functions_interfere_through_ledgers_only reachable_moduleWithPointer
    nested_moduleWithPointer hheader {} hnodes
  refine ⟨reachable_moduleWithPointer, nested_moduleWithPointer, hheader, hledgers 1 (by decide),
    by decide +kernel, hsame.2 fun l hl => hledgers l.scope ?_⟩
  rcases List.mem_cons.mp hl with rfl | hl
  · decide
  · rw [List.mem_singleton.mp hl]
    decide

/-- A function with a local variable that stands for the pointer `p` of the module. -/
def namesModulePointer (name : String) : FnDecl :=
  functionWith
    [⟨{}, .var { name, ty := some pointerToInt, value := some ⟨10, {}, .ident "p"⟩ }⟩]

/-- If the local variable of one function is called like the parameter of another one, the other
function frees the pointer of the module, and nothing is reported. With another name for the local
variable, the other function is found to free a pointer that was never allocated. -/
theorem renamed_local_shows_in_other_function :
    let past := fun name : String => moduleWithPointer.past 1 [⟨{}, .fn (namesModulePointer name)⟩]
    (namesModulePointer "q").SameHeader (namesModulePointer "r") ∧
      (freesParameter.check 1).emits (past "q") = [] ∧
      ((freesParameter.check 1).emits (past "r")).map (·.message) =
        ["free of `q` without a matching alloc"] := by
  refine ⟨⟨rfl, rfl, rfl, rfl, rfl, rfl, rfl⟩, ?_, ?_⟩
  · decide +kernel
  · decide +kernel

end Warden
