import Warden.Proofs.Journal.Queues
import Warden.Proofs.TypeIntegrity

/-!
# Bodies and their ledgers

The body of a function or method has a scope of its own with a ledger. It is entered while the
statement that declares it is checked, so a journal tells which bodies have been entered
(`Opened`). `Attributed` says of the part of a check between two states what has become of ledgers:
those that were there have got records only as the first state charges them, and every new scope is
that of a body, whose records are all charged to it, or a block without a ledger.

The stack of functions around the walk and the scopes that own a ledger are two different things. A
body changes both at once, a block neither, and this is why the record of an allocation names the
function whose ledger it stands in.
-/

namespace Warden

open CheckM Check Journal ScopeTree

variable {around : List Enclosure} {name : String} {walk : Walk} {span : Span}

/-- The body of a function or method, and the scope that is added for it. -/
structure Body where
  scope : ScopeId
  /-- The name of the scope. That of a method begins with the name of its struct. -/
  name : String
  decl : FnDecl

/-- While the statement is checked, the body is entered, in a new scope. -/
def StmtVisit.Opens (v : StmtVisit) (b : Body) : Prop :=
  ∃ d sig, v.stmt.ComesToBody v.scope v.state d b.name b.decl sig ∧ b.scope = d.scopes.size

/-- The body is that of a function or method declared by a statement that has been checked. -/
def Opened (entries : List Entry) (b : Body) : Prop :=
  ∃ v, .checked v ∈ entries ∧ v.Opens b

variable {entries : List Entry} {b : Body} {scope : ScopeId} {c : Checker}

theorem opened_append {more : List Entry} :
    Opened (entries ++ more) b ↔ Opened entries b ∨ Opened more b := by
  simp only [Opened, List.mem_append, or_and_right, exists_or]

theorem not_opened (h : ∀ v, .checked v ∉ entries) (b : Body) : ¬Opened entries b :=
  fun ⟨v, hv, _⟩ => h v hv

/-- The end of a scope is no statement. -/
theorem opened_end (scope : ScopeId) (ledger : Option Ledger)
    (d : Checker) : Opened (entries ++ endOfScope scope ledger d) b ↔ Opened entries b :=
  opened_append.trans (or_iff_left (not_opened (by simp [mem_endOfScope]) b))

/-! ### One body -/

/-- The scope is a block, which has no ledger. -/
def Scope.IsBlock (s : Scope) : Prop :=
  s.outline.owner = .block ∧ s.outline.ledger = none

namespace Body

variable {b : Body} {c d : Checker} {entries more : List Entry}

/-- In the state, the scope of the body bears its name, and all records in its ledger are charged to
it. If the pointers of the function go to its caller, there are no records. -/
structure Holds (b : Body) (c : Checker) : Prop where
  owner : (c.scopes.scope b.scope).outline.owner = .function b.name
  name : (c.scopes.scope b.scope).outline.name = b.name
  holders : ∀ x ∈ (c.scopes.scope b.scope).holders,
    x = some b.name ∧ b.decl.returnsOwnership = false

theorem Holds.eq_nil (h : b.Holds c) (hreturns : b.decl.returnsOwnership = true) :
    (c.scopes.scope b.scope).holders = [] := by
  refine List.eq_nil_iff_forall_not_mem.mpr fun x hx => ?_
  have hkeeps := (h.holders x hx).2
  rw [hreturns] at hkeeps
  cases hkeeps

theorem Holds.keep (h : b.Holds c)
    (houtline : (d.scopes.scope b.scope).outline = (c.scopes.scope b.scope).outline)
    (hholders : ∀ x ∈ (d.scopes.scope b.scope).holders, x ∈ (c.scopes.scope b.scope).holders) :
    b.Holds d :=
  ⟨houtline ▸ h.owner, houtline ▸ h.name, fun x hx => h.holders x (hholders x hx)⟩

theorem Holds.congr (h : b.Holds c) (hscopes : d.scopes = c.scopes) : b.Holds d :=
  h.keep (by rw [hscopes]) fun _ hx => hscopes ▸ hx

/-- The scope of the body has been left, and if the pointers of the function go to its caller, there
was no record then. -/
structure Ended (b : Body) (entries : List Entry) : Prop where
  left : ∃ e, .left e ∈ entries ∧ e.scope = b.scope
  holders : b.decl.returnsOwnership = true → ∀ e, .left e ∈ entries → e.scope = b.scope →
    (e.state.scopes.scope b.scope).holders = []

/-- Entries about other scopes make no difference. -/
theorem Ended.append (h : b.Ended entries) (hmore : ∀ e, .left e ∈ more → e.scope ≠ b.scope) :
    b.Ended (entries ++ more) := by
  obtain ⟨e, he, hscope⟩ := h.left
  refine ⟨⟨e, List.mem_append_left _ he, hscope⟩, fun hreturns e he hscope => ?_⟩
  rcases List.mem_append.mp he with he | he
  · exact h.holders hreturns e he hscope
  · exact absurd hscope (hmore e he)

theorem Ended.append_left (h : b.Ended entries)
    (hmore : ∀ e, .left e ∈ more → e.scope ≠ b.scope) : b.Ended (more ++ entries) := by
  obtain ⟨e, he, hscope⟩ := h.left
  refine ⟨⟨e, List.mem_append_right _ he, hscope⟩, fun hreturns e he hscope => ?_⟩
  rcases List.mem_append.mp he with he | he
  · exact absurd hscope (hmore e he)
  · exact h.holders hreturns e he hscope

end Body

/-! ### Between two states -/

/-- From the first state to the second, a check that stands in a scope has made these entries and
has entered these bodies. -/
structure Attributed (opened : Body → Prop) (scope : ScopeId) (c : Checker) (entries : List Entry)
    (d : Checker) : Prop extends Chronicled scope c entries d where
  old : ∀ i < c.scopes.size, ∀ x ∈ (d.scopes.scope i).holders,
    x ∈ (c.scopes.scope i).holders ∨ c.Charges scope i x
  bodies : ∀ b, opened b → c.scopes.size ≤ b.scope ∧ b.scope < d.scopes.size ∧ b.Holds d
  blocks : ∀ i, c.scopes.size ≤ i → i < d.scopes.size →
    (∃ b, opened b ∧ b.scope = i) ∨ (d.scopes.scope i).IsBlock
  ended : ∀ b, opened b → b.Ended entries

namespace Attributed

variable {opened opened' : Body → Prop} {scope : ScopeId} {c d e : Checker}
  {entries entries' : List Entry}

theorem congr (h : Attributed opened scope c entries d) (hopened : ∀ b, opened' b ↔ opened b) :
    Attributed opened' scope c entries d := by
  have hsame : opened' = opened := funext fun b => propext (hopened b)
  exact hsame ▸ h

/-- Only scopes and walk matter. -/
theorem update (h : Attributed opened scope c entries d) (hscopes : e.scopes = d.scopes)
    (hwalk : e.walk = c.walk) : Attributed opened scope c entries e where
  toChronicled := h.toChronicled.congr hscopes hwalk
  old := hscopes ▸ h.old
  bodies b hb := by
    obtain ⟨hge, hlt, hholds⟩ := h.bodies b hb
    exact ⟨hge, hscopes ▸ hlt, hholds.congr hscopes⟩
  blocks := hscopes ▸ h.blocks
  ended := h.ended

/-- What a rule does. -/
theorem ofCharged (h : Charged scope c d) (hc : Chronicled scope c entries d)
    (hchecked : ∀ v, .checked v ∉ entries) : Attributed (Opened entries) scope c entries d where
  toChronicled := hc
  old _ _ := h.holders _
  bodies b hb := absurd hb (not_opened hchecked b)
  blocks _ hge hlt := absurd (h.plain.size ▸ hlt) (Nat.not_lt.mpr hge)
  ended b hb := absurd hb (not_opened hchecked b)

/-- One after the other. -/
theorem trans (h : Attributed opened scope c entries d) (hc : InPlace scope c)
    (h' : Attributed opened' scope d entries' e) :
    Attributed (fun b => opened b ∨ opened' b) scope c (entries ++ entries') e := by
  have hsize := h.scopes.size
  have hcharges : ∀ {i x}, d.Charges scope i x → c.Charges scope i x := fun hd =>
    hd.congr (congrArg _ h.walk) (h.scopes.ledgerOwner? hc)
  refine ⟨h.toChronicled.trans hc h'.toChronicled, fun i hi x hx => ?_, fun b hb => ?_,
    fun i hge hlt => ?_, fun b hb => ?_⟩
  · rcases h'.old i (Nat.lt_of_lt_of_le hi hsize) x hx with hx | hcharged
    · exact h.old i hi x hx
    · exact .inr (hcharges hcharged)
  · rcases hb with hb | hb
    · obtain ⟨hge, hlt, hholds⟩ := h.bodies b hb
      refine ⟨hge, Nat.lt_of_lt_of_le hlt h'.scopes.size, hholds.keep (h'.scopes.outline _ hlt) ?_⟩
      -- the check stands outside of the body, so it no longer charges what is in there
      intro x hx
      rcases h'.old b.scope hlt x hx with hx | hcharged
      · exact hx
      · exact absurd (hc.owner_lt (hcharges hcharged).nearest) (Nat.not_lt.mpr hge)
    · obtain ⟨hge, hlt, hholds⟩ := h'.bodies b hb
      exact ⟨Nat.le_trans hsize hge, hlt, hholds⟩
  · rcases Nat.lt_or_ge i d.scopes.size with hold | hnew
    · rcases h.blocks i hge hold with ⟨b, hb, hscope⟩ | hblock
      · exact .inl ⟨b, .inl hb, hscope⟩
      · refine .inr ?_
        rwa [Scope.IsBlock, h'.scopes.outline i hold]
    · rcases h'.blocks i hnew hlt with ⟨b, hb, hscope⟩ | hblock
      · exact .inl ⟨b, .inr hb, hscope⟩
      · exact .inr hblock
  · rcases hb with hb | hb
    · obtain ⟨-, hlt, -⟩ := h.bodies b hb
      refine (h.ended b hb).append fun s hs heq => ?_
      exact Nat.not_lt.mpr (h'.reach.left s hs) (heq ▸ hlt)
    · obtain ⟨hge, -, -⟩ := h'.bodies b hb
      refine (h'.ended b hb).append_left fun s hs heq => ?_
      exact Nat.not_lt.mpr hge (heq ▸ h.reach.lt_size hc hsize hs rfl)

/-- A statement of the scope is done; bodies that it declares have been entered. -/
theorem stmt {v : StmtVisit} (hc : InPlace scope c) (hv : v.scope = scope)
    (h : Attributed (fun b => Opened entries b ∨ v.Opens b) scope c entries d) :
    Attributed (Opened (entries ++ [.checked v])) scope c (entries ++ [.checked v]) d := by
  have hopened : ∀ b, Opened (entries ++ [.checked v]) b ↔ Opened entries b ∨ v.Opens b :=
    fun b => opened_append.trans (or_congr_right (by simp [Opened]))
  have hall := h.congr hopened
  exact ⟨hall.toChronicled.stmt hc hv, hall.old, hall.bodies, hall.blocks,
    fun b hb => (hall.ended b hb).append (by simp)⟩

/-- The walk is changed inside, but not the functions around it. -/
theorem within (h : Attributed opened scope { c with walk } entries d)
    (hframes : walk.frames = c.walk.frames)
    (htarget : ∀ t ∈ walk.deferTarget, t = scope ∨ t ∈ c.walk.deferTarget) :
    Attributed opened scope c entries { d with walk := c.walk } where
  __ := h
  toChronicled := h.toChronicled.within htarget
  old i hi x hx := (h.old i hi x hx).imp_right fun hcharged => hcharged.congr hframes rfl
  bodies b hb := by
    obtain ⟨hge, hlt, hholds⟩ := h.bodies b hb
    exact ⟨hge, hlt, hholds.congr rfl⟩

/-- A new scope has been left. If it is the scope of a body, nothing is charged to the scopes around
it. -/
theorem leaving {owner : ScopeOwner} {ledger : Option Ledger} (h : Attributed opened c.scopes.size
      { c with scopes := c.scopes.addScope scope name owner ledger, walk } entries d)
    (own : Body → Prop) (hc : InPlace scope c)
    (htarget : ∀ t ∈ walk.deferTarget, t ∈ c.walk.deferTarget)
    (hscopes : e.scopes = (d.leaveScope c.scopes.size).scopes) (hwalk : e.walk = c.walk)
    (hcharges : ∀ i < c.scopes.size, ∀ x,
      Checker.Charges { c with scopes := c.scopes.addScope scope name owner ledger, walk }
      c.scopes.size i x → c.Charges scope i x)
    (hown : ∀ b, own b → b.scope = c.scopes.size ∧ b.Holds d)
    (hnew : (∃ b, own b ∧ b.scope = c.scopes.size) ∨ (d.scopes.scope c.scopes.size).IsBlock) :
    Attributed (fun b => opened b ∨ own b) scope c
      (entries ++ endOfScope c.scopes.size ledger d) e := by
  have hplain := Plain.memory (.leaveScope c.scopes.size) d
  have houtline : ∀ i, (e.scopes.scope i).outline = (d.scopes.scope i).outline :=
    hscopes ▸ hplain.outline
  have hholders : ∀ i, (e.scopes.scope i).holders = (d.scopes.scope i).holders :=
    hscopes ▸ d.holders_leaveScope c.scopes.size
  have hsame : e.scopes.size = d.scopes.size := hscopes ▸ hplain.size
  have hgrown : (c.scopes.addScope scope name owner ledger).size = c.scopes.size + 1 :=
    c.scopes.size_addScope ..
  have hbound : c.scopes.size < d.scopes.size :=
    Nat.lt_of_lt_of_le (hc.push name owner ledger htarget).bound h.scopes.size
  have hkeep : ∀ b : Body, b.Holds d → b.Holds e := fun b hb =>
    hb.keep (houtline _) fun x hx => hholders _ ▸ hx
  have hinside : ∀ b, opened b → c.scopes.size < b.scope := fun b hb =>
    Nat.lt_of_lt_of_le (hgrown ▸ Nat.lt_succ_self _) (h.bodies b hb).1
  refine ⟨h.toChronicled.leaving name owner ledger hc htarget hscopes hwalk, fun i hi x hx => ?_,
    fun b hb => ?_, fun i hge hlt => ?_, fun b hb => ?_⟩
  · rw [hholders] at hx
    rcases h.old i (hgrown ▸ Nat.lt_succ_of_lt hi) x hx with hx | hcharged
    · rw [c.scopes.field_addScope scope name owner ledger Scope.holders (fun _ _ => rfl)
        (Nat.ne_of_lt hi)] at hx
      exact .inl hx
    · exact .inr (hcharges i hi x hcharged)
  · rcases hb with hb | hb
    · obtain ⟨-, hlt, hholds⟩ := h.bodies b hb
      exact ⟨Nat.le_of_lt (hinside b hb), hsame ▸ hlt, hkeep b hholds⟩
    · obtain ⟨hscope, hholds⟩ := hown b hb
      exact ⟨Nat.le_of_eq hscope.symm, hscope ▸ hsame ▸ hbound, hkeep b hholds⟩
  · rw [Scope.IsBlock, houtline]
    rcases Nat.eq_or_lt_of_le hge with rfl | hgt
    · exact hnew.imp_left (Exists.imp fun b hb => ⟨.inr hb.1, hb.2⟩)
    · exact (h.blocks i (hgrown ▸ hgt) (hsame ▸ hlt)).imp_left
        (Exists.imp fun b hb => ⟨.inl hb.1, hb.2⟩)
  · rcases hb with hb | hb
    · refine (h.ended b hb).append fun s hs heq => ?_
      cases left_mem_endOfScope.mp hs
      exact Nat.ne_of_lt (hinside b hb) heq
    · obtain ⟨hscope, hholds⟩ := hown b hb
      have hend : b.Ended (endOfScope c.scopes.size ledger d) := by
        refine ⟨⟨_, left_mem_endOfScope.mpr rfl, hscope.symm⟩, fun hreturns s hs _ => ?_⟩
        cases left_mem_endOfScope.mp hs
        exact hholds.eq_nil hreturns
      refine hend.append_left fun s hs heq => ?_
      have hnext := h.reach.left s hs
      rw [hgrown, heq, hscope] at hnext
      exact Nat.not_succ_le_self _ hnext

theorem block (name : String) (hc : InPlace scope c) (h : Attributed (Opened entries) c.scopes.size
      { c with scopes := c.scopes.addBlock scope name } entries d) :
    Attributed (Opened (entries ++ [.left ⟨c.scopes.size, d⟩])) scope c
      (entries ++ [.left ⟨c.scopes.size, d⟩]) (d.leaveScope c.scopes.size) := by
  have hin := hc.push name .block none fun _ ht => ht
  have hblock : (d.scopes.scope c.scopes.size).IsBlock := by
    rw [Scope.IsBlock, h.scopes.outline _ hin.bound, ScopeTree.addBlock,
      scope_addScope_size]
    exact ⟨rfl, rfl⟩
  have hcharges : ∀ i < c.scopes.size, ∀ x, Checker.Charges
      { c with scopes := c.scopes.addBlock scope name } c.scopes.size i x → c.Charges scope i x :=
    fun i _ x hx => hx.congr rfl (hc.arena.ledgerOwner?_addScope name .block none hc.bound)
  have hwalk := (Plain.memory (.leaveScope c.scopes.size) d).walk.trans h.walk
  have hleft := h.leaving (fun _ => False) hc (fun _ ht => ht) rfl hwalk hcharges
    (fun _ hb => hb.elim) (.inr hblock)
  exact hleft.congr fun b => (opened_end c.scopes.size none d).trans (or_iff_left id).symm

/-- In the body of a function, all is charged to that function. -/
theorem function (name : String) (f : FnDecl) (sig : Signature) (hc : InPlace scope c)
    (h : Attributed (Opened entries) c.scopes.size (c.enteredBody scope name (f.frame sig name))
      entries d) : Attributed
      (fun b => Opened (entries ++ [.left ⟨c.scopes.size, d⟩, .leaks c.scopes.size]) b ∨
        b = ⟨c.scopes.size, name, f⟩) scope c
      (entries ++ [.left ⟨c.scopes.size, d⟩, .leaks c.scopes.size])
      { (d.leaveScope c.scopes.size).reportLeaks c.scopes.size with walk := c.walk } := by
  have htarget := c.walk.target_enterFunction (f.frame sig name)
  have hin := hc.push name (.function name) (some {}) htarget
  have houtline := h.scopes.outline c.scopes.size hin.bound
  rw [Checker.enteredBody, ScopeTree.addFunction, scope_addScope_size] at houtline
  have hholds : Body.Holds ⟨c.scopes.size, name, f⟩ d := by
    refine ⟨congrArg Scope.owner houtline, congrArg Scope.name houtline, fun x hx => ?_⟩
    rcases h.old c.scopes.size hin.bound x hx with hx | hcharged
    · rw [Checker.enteredBody, ScopeTree.addFunction, scope_addScope_size] at hx
      cases hx
    · have hrecorded : (!f.returnsOwnership) = true := hcharged.recorded
      exact ⟨hcharged.holder, by simpa using hrecorded⟩
  refine Attributed.congr (h.leaving (fun b => b = ⟨c.scopes.size, name, f⟩) hc htarget
    (Checker.scopes_reportLeaks _ _) rfl (fun i hi x hx => ?_) ?_ (.inl ⟨_, rfl, rfl⟩))
    fun b => or_congr_left (opened_end c.scopes.size (some {}) d)
  · have hnearest := hx.nearest
    rw [hc.arena.ledgerOwner?_addScope name (.function name) (some {}) hc.bound] at hnearest
    cases hnearest
    exact absurd hi (Nat.lt_irrefl _)
  · rintro b rfl
    exact ⟨rfl, hholds⟩

end Attributed

/-- Whether the statement declares something with a body. -/
def StmtKind.hasBodies : StmtKind → Bool
  | .fn _ | .struct _ => true
  | _ => false

theorem Stmt.ComesToBody.hasBodies {d : Checker} {s : Stmt} {f : FnDecl} {sig : Signature}
    (h : s.ComesToBody scope c d name f sig) : s.kind.hasBodies = true := by
  cases h <;> rfl

/-! ### Declarations with bodies -/

theorem opens_fn {decl : FnDecl} : StmtVisit.Opens ⟨⟨span, .fn decl⟩, around, scope, c⟩ b ↔
      ∃ sig, (fnDecl decl span scope).eval c = some sig ∧
        b = ⟨((fnDecl decl span scope).exec c).scopes.size, decl.name, decl⟩ := by
  obtain ⟨i, name, f⟩ := b
  constructor
  · rintro ⟨d, sig, hcomes, hscope⟩
    dsimp only at hcomes hscope
    cases hcomes with
    | fn hsig => exact ⟨sig, hsig, by rw [hscope]⟩
  · rintro ⟨sig, hsig, hbody⟩
    cases hbody
    exact ⟨_, sig, .fn hsig, rfl⟩

/-- The body is that of a method that is checked, starting from the state. -/
def OpensMethod (scope : ScopeId) (owner : String) (methods : List MethodDecl)
    (signatures : List (Option Signature)) (c : Checker) (b : Body) : Prop :=
  ∃ before span after known sig more,
    methods = before ++ ⟨span, b.decl⟩ :: after ∧ signatures = known ++ some sig :: more ∧
      before.length = known.length ∧ b.name = s!"{owner}.{b.decl.name}" ∧
        b.scope = ((checkMethods scope owner before known).exec c).scopes.size

theorem opens_struct {decl : StructDecl} :
    StmtVisit.Opens ⟨⟨span, .struct decl⟩, around, scope, c⟩ b ↔
      ∃ head, (structDecl decl span scope).eval c = some head ∧
        OpensMethod scope decl.name decl.methods head.signatures
          ((structDecl decl span scope).exec c) b := by
  obtain ⟨i, name, f⟩ := b
  constructor
  · rintro ⟨d, sig, hcomes, hscope⟩
    dsimp only at hcomes hscope
    cases hcomes with
    | method hhead hmethods hsignatures hlength =>
      exact ⟨_, hhead, _, _, _, _, _, _, hmethods, hsignatures, hlength, rfl, hscope⟩
  · rintro ⟨head, hhead, before, span', after, known, sig, more, hmethods, hsignatures, hlength,
      hname, hscope⟩
    dsimp only at hmethods hname hscope
    subst hname
    exact ⟨_, sig, .method hhead hmethods hsignatures hlength, hscope⟩

section

variable {scope : ScopeId} {owner : String} {methods : List MethodDecl}
  {signatures : List (Option Signature)} {c : Checker} {b : Body}

theorem not_opensMethod (h : methods = [] ∨ signatures = []) :
    ¬OpensMethod scope owner methods signatures c b := by
  rintro ⟨before, span, after, known, sig, more, hmethods, hsignatures, -⟩
  rcases h with rfl | rfl
  · simp at hmethods
  · simp at hsignatures

theorem exec_checkMethods_cons (m : MethodDecl) (s : Option Signature) :
    (checkMethods scope owner (m :: methods) (s :: signatures)).exec c =
      (checkMethods scope owner methods signatures).exec
        ((checkMethods scope owner [m] [s]).exec c) := by
  obtain ⟨span, decl⟩ := m
  cases s with
  | none => simp [checkMethods]
  | some sig => simp [checkMethods]

/-- It is the first method, if that has a signature, or one of the others. -/
theorem opensMethod_cons {m : MethodDecl} {s : Option Signature} :
    OpensMethod scope owner (m :: methods) (s :: signatures) c b ↔
      (s.isSome = true ∧ b = ⟨c.scopes.size, s!"{owner}.{m.decl.name}", m.decl⟩) ∨
        OpensMethod scope owner methods signatures
          ((checkMethods scope owner [m] [s]).exec c) b := by
  constructor
  · rintro ⟨before, span, after, known, sig, more, hmethods, hsignatures, hlength, hname, hscope⟩
    cases before with
    | nil =>
      cases List.length_eq_zero_iff.mp hlength.symm
      cases hmethods
      cases hsignatures
      refine .inl ⟨rfl, ?_⟩
      obtain ⟨i, name, f⟩ := b
      simp_all [checkMethods]
    | cons m' before =>
      cases known with
      | nil => cases hlength
      | cons s' known =>
        cases hmethods
        cases hsignatures
        rw [exec_checkMethods_cons] at hscope
        exact .inr ⟨before, span, after, known, sig, more, rfl, rfl, Nat.succ.inj hlength, hname,
          hscope⟩
  · rintro (⟨hsome, rfl⟩ |
      ⟨before, span, after, known, sig, more, rfl, rfl, hlength, hname, hscope⟩)
    · obtain ⟨sig, rfl⟩ := Option.isSome_iff_exists.mp hsome
      obtain ⟨span, decl⟩ := m
      exact ⟨[], span, methods, [], sig, signatures, rfl, rfl, rfl, rfl, by simp [checkMethods]⟩
    · rw [← exec_checkMethods_cons] at hscope
      exact ⟨m :: before, span, after, s :: known, sig, more, rfl, rfl, congrArg Nat.succ hlength,
        hname, hscope⟩

end

end Warden
