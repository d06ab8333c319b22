import Warden.Proofs.Resolution.Basic
import Warden.Proofs.Statements

/-!
# Between statements, the name of a struct stands for a finalized definition

A struct gets its identity and its name before its members are known, so that they can point to it.
The definition is complete when its members have been looked at, which is before the bodies of its
methods are checked. So a state is *settled* (`Checker.Settled`) if every symbol that names a struct
leads to a finalized definition, and all statements go from settled states to settled states
(`Checker.Settled.stmtInvariant`): what was finalized never changes, and the one definition that a
declaration leaves open for a while (`Checker.SettledBut`) is finalized by the same declaration.

A declaration whose name is taken leaves a definition without members behind, which no symbol names.
-/

namespace Warden

open CheckM Check ScopeTree StructTable

variable {draft draft' : StructDraft} {scopes : ScopeTree} {scope : ScopeId} {symbol : Symbol}
  {isPublic : Bool} {d : StructDef} {name : String}

/-! ### Finalized definitions -/

namespace StructTable

variable {t u : StructTable} {draft : StructDraft}

/-- The finalized definitions of the first table are in the second one, unchanged. -/
def Preserves (t u : StructTable) : Prop :=
  ∀ id d, t.get? id = some d → d.isFinalized = true → u.get? id = some d

/-- Only a definition that is not finalized yet can be finalized. -/
theorem isFinalized_of_finalize? (h : t.finalize? draft = some u) (hd : t.get? draft.id = some d) :
    d.isFinalized = false := by
  simp only [finalize?, hd] at h
  split at h
  · cases h
  next hopen => exact Bool.eq_false_iff.mpr hopen

theorem preserves_finalize? (h : t.finalize? draft = some u) : t.Preserves u := by
  intro id d hd hfinal
  obtain ⟨_, -, hu⟩ := get?_finalize? h
  have hne : id ≠ draft.id := by
    rintro rfl
    rw [isFinalized_of_finalize? h hd] at hfinal
    cases hfinal
  rw [hu, if_neg hne, hd]

end StructTable

/-- The type is that of a struct whose definition is finalized. -/
def Ty.Finalized (t : StructTable) (ty : Ty) : Prop :=
  ∃ id d, ty = .struct id d.name ∧ t.get? id = some d ∧ d.isFinalized = true

theorem Ty.Finalized.mono {t u : StructTable} {ty : Ty} (hu : t.Preserves u)
    (h : ty.Finalized t) : ty.Finalized u := by
  obtain ⟨id, d, hty, hd, hfinal⟩ := h
  exact ⟨id, d, hty, hu id d hd hfinal, hfinal⟩

namespace Checker

/-- Every symbol that names a struct leads to a finalized definition. -/
def Settled (c : Checker) : Prop :=
  ∀ s, c.scopes.Declares s → s.kind = .struct → s.ty.Finalized c.structs

/-- The same but for one struct, which has been reserved and is not finalized yet. -/
structure SettledBut (id : StructId) (name : String) (c : Checker) : Prop where
  reserved : ∃ d, c.structs.get? id = some d ∧ d.name = name ∧ d.isFinalized = false
  symbols : ∀ s, c.scopes.Declares s → s.kind = .struct →
    s.ty = .struct id name ∨ s.ty.Finalized c.structs

namespace Settled

variable {c d : Checker}

theorem ofConfig (config : Config) : (Checker.ofConfig config).Settled := by
  intro s hs hkind
  rcases declares_initial hs with rfl | rfl <;> cases hkind

variable (h : c.Settled)

include h

/-- Nothing new is declared and no definition that is finalized changes. -/
theorem mono (hscopes : ∀ s, d.scopes.Declares s → c.scopes.Declares s)
    (hstructs : c.structs.Preserves d.structs) : d.Settled :=
  fun s hs hkind => (h s (hscopes s hs) hkind).mono hstructs

theorem setScopes (hscopes : ∀ s, scopes.Declares s → c.scopes.Declares s) :
    { c with scopes }.Settled :=
  h.mono hscopes fun _ _ hd _ => hd

/-- Neither the findings nor the walk nor the types of expressions matter. -/
theorem congr (hscopes : d.scopes.withoutMemory = c.scopes.withoutMemory)
    (hstructs : d.structs = c.structs) : d.Settled := by
  apply h.mono
  · intro s hs
    rwa [← declares_withoutMemory, hscopes, declares_withoutMemory] at hs
  · intro id d hd _
    rw [hstructs, hd]

theorem insert (hkind : symbol.kind ≠ .struct)
    (hscopes : c.scopes.insert? scope symbol = some scopes) : { c with scopes }.Settled := by
  intro s hs hstruct
  rcases declares_insert? hscopes hs with hold | ⟨depth, rfl⟩
  · exact h s hold hstruct
  · exact absurd hstruct hkind

/-- A struct is reserved, and nothing names it. -/
theorem reserve (name : String) (isPublic : Bool) (scope : ScopeId) :
    ((reserveStruct name isPublic scope).exec c).Settled :=
  h.mono (fun _ hs => hs) fun _ _ hd _ => get?_reserve_of_eq_some hd name _ isPublic

end Settled

namespace SettledBut

variable {c : Checker} {id : StructId} {name : String}

theorem ofReserve (h : c.Settled) (name : String) (isPublic : Bool) (scope : ScopeId) :
    SettledBut c.structs.size name ((reserveStruct name isPublic scope).exec c) where
  reserved := ⟨_, (get?_reserve ..).trans (if_pos rfl), rfl, rfl⟩
  symbols s hs hkind := .inr (h.reserve name isPublic scope s hs hkind)

variable (h : SettledBut id name c)

include h

/-- What declares nothing and adds no struct leaves it at that. -/
theorem observe {α : Type} {node : NodeId → Prop} {m : CheckM α} (hm : Observes node m) :
    SettledBut id name (m.exec c) where
  reserved := (hm.quiet c).structs ▸ h.reserved
  symbols s hs hkind := by
    rw [← declares_withoutMemory, (hm.quiet c).scopes,
      declares_withoutMemory] at hs
    exact (hm.quiet c).structs ▸ h.symbols s hs hkind

/-- The struct may get its name. -/
theorem insert (hty : symbol.ty = .struct id name)
    (hscopes : c.scopes.insert? scope symbol = some scopes) :
    SettledBut id name { c with scopes } where
  reserved := h.reserved
  symbols s hs hkind := by
    rcases declares_insert? hscopes hs with hold | ⟨depth, rfl⟩
    · exact h.symbols s hold hkind
    · exact .inl hty

/-- The members of the struct are installed. -/
theorem finalize (hid : draft.id = id) : ((finalizeStruct draft).exec c).Settled := by
  subst hid
  obtain ⟨shell, hshell, hname, hopen⟩ := h.reserved
  obtain ⟨structs, hstructs⟩ : ∃ u, c.structs.finalize? draft = some u := by
    simp only [finalize?, hshell, hopen]
    exact ⟨_, rfl⟩
  have hexec : (finalizeStruct draft).exec c = { c with structs } := by
    simp [finalizeStruct, hstructs]
  obtain ⟨old, hold, hget⟩ := get?_finalize? hstructs
  rw [hshell, Option.some.injEq] at hold
  subst hold
  rw [hexec]
  intro s hs hkind
  rcases h.symbols s hs hkind with hself | hfinal
  · refine ⟨draft.id, { shell with members := draft.members, isFinalized := true }, ?_, ?_, rfl⟩
    · rw [hself, hname]
    · rw [hget, if_pos rfl]
  · exact hfinal.mono (preserves_finalize? hstructs)

end SettledBut

end Checker

/-! ### Structs -/

/-- The draft gets one more member, under a name that was not taken. -/
structure StructDraft.Adds (draft : StructDraft) (m : StructMember) (draft' : StructDraft) :
    Prop where
  id : draft'.id = draft.id
  fresh : draft.contains m.name = false
  members : draft'.members.Perm (m :: draft.members)

namespace StructDraft

theorem Adds.ofField {ty : Ty} (h : draft.addField? name ty isPublic = some draft') :
    draft.Adds { name, ty, isPublic, kind := .field } draft' := by
  unfold addField? at h
  split at h <;> cases h
  next hnew => exact ⟨rfl, Bool.eq_false_iff.mpr hnew, by simp [StructDraft.members]⟩

theorem Adds.ofMethod {ty : Ty} {traits : MethodTraits}
    (h : draft.addMethod? name ty isPublic traits = some draft') :
    draft.Adds { name, ty, isPublic, kind := .method traits } draft' := by
  unfold addMethod? at h
  split at h <;> cases h
  next hnew =>
    refine ⟨rfl, Bool.eq_false_iff.mpr hnew, ?_⟩
    rw [StructDraft.members, ← List.append_assoc]
    exact List.perm_append_singleton ..

theorem Adds.forall_mem {m : StructMember} {p : StructMember → Prop} (hadd : draft.Adds m draft')
    (h : ∀ x ∈ draft.members, p x) (hm : p m) : ∀ x ∈ draft'.members, p x :=
  fun x hx => List.forall_mem_cons.mpr ⟨hm, h⟩ x (hadd.members.mem_iff.mp hx)

end StructDraft

section

variable {P : StructDraft → Prop} (owner : String) (scope : ScopeId)

/-- What each new field keeps is kept by all fields. One of the type of the struct itself is not
collected. -/
theorem keeps_structFields {self : Ty}
    (hadd : ∀ {draft draft' : StructDraft} {name ty isPublic}, ty ≠ self →
      draft.addField? name ty isPublic = some draft' → P draft → P draft') :
    (fields : List FieldDecl) → ∀ {draft : StructDraft} (c : Checker), P draft →
      P ((structFields self owner scope draft fields).eval c).1
  | [], _, _, h => h
  | f :: fs, draft, c, h => by
    simp only [structFields, eval_bind]
    cases (f.ty.resolve scope).eval c with
    | none => exact keeps_structFields hadd fs _ h
    | some ty =>
      dsimp only
      split
      · exact keeps_structFields hadd fs _ h
      next hty =>
        cases hdraft : draft.addField? f.name ty f.isPublic with
        | none => exact keeps_structFields hadd fs _ h
        | some draft' => exact keeps_structFields hadd fs _ (hadd hty hdraft h)

/-- What each new method keeps is kept by all methods. -/
theorem keeps_structMethods
    (hadd : ∀ {draft draft' : StructDraft} {name ty isPublic traits},
      draft.addMethod? name ty isPublic traits = some draft' → P draft → P draft') :
    (methods : List MethodDecl) → ∀ {draft : StructDraft} (c : Checker), P draft →
      P ((structMethods owner scope draft methods).eval c).1
  | [], _, _, h => h
  | ⟨span, d⟩ :: ms, draft, c, h => by
    simp only [structMethods, eval_bind]
    cases (signature d.params d.returnType scope).eval c with
    | none => exact keeps_structMethods hadd ms _ h
    | some sig =>
      dsimp only
      cases hdraft : draft.addMethod? d.name sig.ty d.isPublic (methodTraits d) with
      | none => exact keeps_structMethods hadd ms _ h
      | some draft' => exact keeps_structMethods hadd ms _ (hadd hdraft h)

theorem id_structFields (self : Ty) (fields : List FieldDecl) (draft : StructDraft) (c : Checker) :
    ((structFields self owner scope draft fields).eval c).1.id = draft.id :=
  keeps_structFields (P := (·.id = draft.id)) owner scope
    (fun _ hadd h => (StructDraft.Adds.ofField hadd).id.trans h) fields c rfl

theorem id_structMethods (methods : List MethodDecl) (draft : StructDraft) (c : Checker) :
    ((structMethods owner scope draft methods).eval c).1.id = draft.id :=
  keeps_structMethods (P := (·.id = draft.id)) owner scope
    (fun hadd h => (StructDraft.Adds.ofMethod hadd).id.trans h) methods c rfl

end

/-- What is done with a struct that has got its name: its members are looked at and installed. -/
def StructDecl.installMembers (decl : StructDecl) (id : StructId) (scope : ScopeId) :
    CheckM (Option StructHead) := do
  let fields ← structFields (.struct id decl.name) decl.name scope { id } decl.fields
  let methods ← structMethods decl.name scope fields.1 decl.methods
  finalizeStruct methods.1
  return some { isOk := fields.2 && methods.2.all (·.isSome), signatures := methods.2 }

/-- After a definition has been reserved, the struct gets its name and its members, or else the name
is taken. -/
theorem structDecl_cases (decl : StructDecl) (span : Span) (scope : ScopeId) (c : Checker) :
    let reserved := (reserveStruct decl.name decl.isPublic scope).exec c
    (∃ symbol scopes, symbol.ty = .struct c.structs.size decl.name ∧
      reserved.scopes.insert? scope symbol = some scopes ∧
      (structDecl decl span scope).exec c =
        (decl.installMembers c.structs.size scope).exec { reserved with scopes }) ∨
    ∃ cause, (structDecl decl span scope).exec c = reserved.report cause span := by
  intro reserved
  let symbol : Symbol :=
    { name := decl.name, ty := .struct c.structs.size decl.name, kind := .struct
      isPublic := decl.isPublic, span }
  have hexec : (structDecl decl span scope).exec c =
      (if (declare scope symbol span).eval reserved then
        decl.installMembers c.structs.size scope
      else pure none).exec ((declare scope symbol span).exec reserved) := rfl
  obtain ⟨scopes, hinsert, heval, hdeclared⟩ | ⟨cause, heval, hdeclared⟩ :=
    declare_cases scope symbol span reserved
  · rw [hexec, heval, hdeclared, if_pos rfl]
    exact .inl ⟨symbol, scopes, rfl, hinsert, rfl⟩
  · rw [hexec, heval, hdeclared, if_neg Bool.false_ne_true]
    exact .inr ⟨cause, rfl⟩

/-- A declaration finalizes the definition that it has reserved, unless its name is taken: then
nothing names that definition. -/
theorem Checker.Settled.structDecl {c : Checker} (h : c.Settled) (decl : StructDecl) (span : Span)
    (scope : ScopeId) : ((Check.structDecl decl span scope).exec c).Settled := by
  have hopen := Checker.SettledBut.ofReserve h decl.name decl.isPublic scope
  obtain ⟨symbol, scopes, hty, hinsert, hexec⟩ | ⟨cause, hexec⟩ :=
    structDecl_cases decl span scope c
  · rw [hexec]
    -- members are looked at without declaring anything, and the draft keeps the reserved identity
    refine Checker.SettledBut.finalize (.observe (.observe (hopen.insert hty hinsert)
      (rule_structFields scope _ decl.name _ _).observes)
      (rule_structMethods scope _ _ _).observes) ?_
    exact (id_structMethods ..).trans (id_structFields ..)
  · rw [hexec]
    exact (h.reserve decl.name decl.isPublic scope).congr rfl rfl

/-- Of two structs of one name the second one is never finalized. -/
example :
    let twice : List Stmt := List.replicate 2 ⟨{}, .struct ⟨"Node", false, [], []⟩⟩
    ((checkStmts 0 twice).exec (.ofConfig {})).structs.defs.toList.map (·.isFinalized) =
      [true, false] := by
  decide

/-! ### Statements -/

theorem Checker.Settled.stmtInvariant : StmtInvariant Settled where
  report _ _ h := h.congr rfl rfl
  record _ _ h := h.congr rfl rfl
  memory hf h := h.congr (hf.step _).scopes (hf.step _).structs
  setWalk _ h := h.congr rfl rfl
  addBlock _ _ h := h.setScopes fun _ => declares_addScope
  addFunction _ _ h := h.setScopes fun _ => declares_addScope
  insert hkind hscopes h := h.insert hkind hscopes
  struct decl span scope h := h.structDecl decl span scope

/-- The passes over a program go from settled states to settled states. -/
theorem Checker.Settled.moduleInvariant : Resolver.ModuleInvariant Settled where
  enter _ h := h.congr rfl rfl
  report _ _ h := h.congr rfl rfl
  addModule h hscopes := h.setScopes fun _ => declares_addModule? hscopes
  addImport h hscopes := h.setScopes fun _ => declares_addImport? hscopes
  check m scope _ h := stmtInvariant.module m (fun h => h.congr rfl rfl) scope h

end Warden
