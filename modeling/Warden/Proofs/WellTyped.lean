import Warden.Proofs.Memory.Erasure

/-!
# Every struct that a type mentions is declared

A struct type carries a position in the struct table and a name. `Ty.KnownIn` says that at every
position mentioned, at any depth, the table has a struct of that name. A state is *well typed*
(`Checker.WellTyped`) if all the types it holds are known, if the name of a struct has a struct
type, and if every method with `self` has a parameter to take it.

* **Known types stay known** (`Ty.KnownIn.mono`): the table only grows, and a struct keeps its name.
* **Each change of the state keeps it well typed**, as soon as what is put in is known: the lemmas
  in the namespace `Checker.WellTyped`.
-/

namespace Warden

open ScopeTree StructTable

variable {draft : StructDraft} {localName : String} {scopes : ScopeTree}

/-! ### Known types -/

/-- Every struct that occurs in a type is in the table, under the name that the type gives it. -/
inductive Ty.KnownIn (t : StructTable) : Ty → Prop where
  | basic (name : String) : KnownIn t (.basic name)
  | pointer {pointee : Ty} : KnownIn t pointee → KnownIn t (.pointer pointee)
  | array {element : Ty} (size : Option ArraySize) : KnownIn t element →
      KnownIn t (.array element size)
  | struct {id : StructId} {d : StructDef} : t.get? id = some d → KnownIn t (.struct id d.name)
  | function {params : List Ty} {ret : Ty} :
      (∀ p ∈ params, KnownIn t p) → KnownIn t ret → KnownIn t (.function params ret)

/-- The second table has all structs of the first one, under the same names. -/
def StructTable.Extends (t u : StructTable) : Prop :=
  ∀ id d, t.get? id = some d → ∃ d', u.get? id = some d' ∧ d'.name = d.name

namespace StructTable

variable {t u : StructTable}

theorem Extends.refl (t : StructTable) : t.Extends t :=
  fun _ d h => ⟨d, h, rfl⟩

theorem Extends.trans {v : StructTable} (h : t.Extends u) (h' : u.Extends v) : t.Extends v := by
  intro id d hd
  obtain ⟨d', hd', hname⟩ := h id d hd
  obtain ⟨d'', hd'', hname'⟩ := h' id d' hd'
  exact ⟨d'', hd'', hname'.trans hname⟩

theorem get?_reserve (t : StructTable) (name module : String) (isPublic : Bool) (id : StructId) :
    (t.reserve name module isPublic).get? id =
      if id = t.size then some { id := t.size, name, module, isPublic } else t.get? id := by
  simp only [reserve, get?, size, Array.getElem?_push]
  rfl

theorem get?_reserve_of_eq_some {id : StructId} {d : StructDef} (hd : t.get? id = some d)
    (name module : String) (isPublic : Bool) :
    (t.reserve name module isPublic).get? id = some d := by
  have hne : id ≠ t.size := by
    rintro rfl
    simp [get?, size] at hd
  rw [get?_reserve, if_neg hne, hd]

theorem extends_reserve (t : StructTable) (name module : String) (isPublic : Bool) :
    t.Extends (t.reserve name module isPublic) :=
  fun _ d hd => ⟨d, get?_reserve_of_eq_some hd name module isPublic, rfl⟩

/-- A struct that is finalized keeps all but its members, and the others stay as they are. -/
theorem get?_finalize? (h : t.finalize? draft = some u) :
    ∃ d, t.get? draft.id = some d ∧ ∀ id, u.get? id =
      if id = draft.id then some { d with members := draft.members, isFinalized := true }
      else t.get? id := by
  unfold finalize? at h
  split at h
  · cases h
  next d hd =>
    split at h
    · cases h
    · cases h
      refine ⟨d, hd, fun id => ?_⟩
      have hlt : draft.id < t.defs.size := by
        obtain ⟨hlt, -⟩ := Array.getElem?_eq_some_iff.mp hd
        exact hlt
      simp only [get?, Array.set!_eq_setIfInBounds, Array.getElem?_setIfInBounds, eq_comm, hlt,
        if_true]

theorem extends_finalize? (h : t.finalize? draft = some u) : t.Extends u := by
  obtain ⟨d, hd, hu⟩ := get?_finalize? h
  intro id d' hd'
  by_cases hid : id = draft.id
  · subst hid
    rw [hd] at hd'
    cases hd'
    exact ⟨_, (hu _).trans (if_pos rfl), rfl⟩
  · exact ⟨d', by rw [hu, if_neg hid, hd'], rfl⟩

end StructTable

namespace Ty

variable {t u : StructTable} {ty : Ty}

theorem KnownIn.mono (hu : t.Extends u) (h : ty.KnownIn t) : ty.KnownIn u := by
  induction h with
  | basic name => exact .basic name
  | pointer _ ih => exact .pointer ih
  | array size _ ih => exact .array size ih
  | struct hd =>
    obtain ⟨d', hd', hname⟩ := hu _ _ hd
    exact hname ▸ .struct hd'
  | function _ _ ihs ih => exact .function ihs ih

/-- A type with a struct behind it leads to a definition. -/
theorem KnownIn.structId? (h : ty.KnownIn t) {id : StructId} (hid : ty.structId? = some id) :
    ∃ d, t.get? id = some d := by
  cases h with
  | struct hd =>
    cases hid
    exact ⟨_, hd⟩
  | pointer h =>
    cases h with
    | struct hd =>
      cases hid
      exact ⟨_, hd⟩
    | _ => cases hid
  | _ => cases hid

theorem KnownIn.params {params : List Ty} {ret : Ty} (h : (Ty.function params ret).KnownIn t) :
    ∀ p ∈ params, p.KnownIn t := by
  cases h with
  | function hparams _ => exact hparams

theorem KnownIn.ret {params : List Ty} {ret : Ty} (h : (Ty.function params ret).KnownIn t) :
    ret.KnownIn t := by
  cases h with
  | function _ hret => exact hret

theorem KnownIn.element? (h : ty.KnownIn t) {element : Ty} (he : ty.element? = some element) :
    element.KnownIn t := by
  cases h with
  | basic name =>
    simp only [Ty.element?] at he
    split at he
    · cases he
      exact .basic _
    · cases he
  | pointer h =>
    cases he
    exact h
  | array _ h =>
    cases he
    exact h
  | _ => cases he

end Ty

/-! ### Declared symbols -/

namespace ScopeTree

/-- Some scope of the tree holds the symbol. -/
def Declares (t : ScopeTree) (symbol : Symbol) : Prop :=
  ∃ id, symbol ∈ (t.scope id).symbols

variable {symbol : Symbol} {t u : ScopeTree} {name module : String} {id : ScopeId}

/-- The first tree declares the built-in functions. -/
theorem declares_initial (h : initial.Declares symbol) :
    symbol = allocSymbol ∨ symbol = freeSymbol := by
  obtain ⟨i, hi⟩ := h
  cases i with
  | zero =>
    have hmem : symbol ∈ [allocSymbol, freeSymbol] := hi
    simpa using hmem
  | succ i => cases hi

theorem scope_modify (t : ScopeTree) (id : ScopeId) (f : Scope → Scope) (i : ScopeId) :
    (t.modify id f).scope i = if i = id ∧ i < t.size then f (t.scope i) else t.scope i := by
  simp only [modify, scope, size, Array.getD_eq_getD_getElem?, Array.getElem?_modify]
  by_cases hid : id = i
  · subst hid
    by_cases hlt : id < t.scopes.size
    · simp [hlt]
    · simp [hlt]
  · simp [hid, Ne.symm hid]

/-! What is in a tree to which something could be added. -/

theorem eq_of_addModule? (h : t.addModule? name = some u) :
    t.moduleScope? name = none ∧ u = { t.addScope 0 name (.module name) (some {}) with
      modules := t.modules ++ [(name, t.size)] } := by
  unfold addModule? at h
  split at h
  · cases h
  next hfree =>
    cases h
    exact ⟨Option.not_isSome_iff_eq_none.mp hfree, rfl⟩

theorem eq_of_insert? (h : t.insert? id symbol = some u) :
    (t.scope id).symbol? symbol.name = none ∧ u = t.modify id fun s =>
      { s with symbols := s.symbols ++ [{ symbol with depth := s.depth }] } := by
  unfold insert? at h
  split at h
  · cases h
  next hfree =>
    cases h
    exact ⟨Option.not_isSome_iff_eq_none.mp hfree, rfl⟩

theorem eq_of_addImport? (h : t.addImport? id module localName = some u) :
    ∃ scope, t.moduleScope? module = some scope ∧ u = t.modify id fun s =>
      { s with imports := s.imports ++ [{ module, localName, scope }] } := by
  unfold addImport? at h
  split at h
  · cases h
  next scope hscope =>
    cases h
    exact ⟨scope, hscope, rfl⟩

/-- A change that keeps the symbols of each scope declares nothing. -/
theorem declares_modify (t : ScopeTree) (id : ScopeId) {f : Scope → Scope}
    (hf : ∀ s, (f s).symbols = s.symbols) :
    (t.modify id f).Declares symbol ↔ t.Declares symbol := by
  have hsymbols : ∀ i, ((t.modify id f).scope i).symbols = (t.scope i).symbols := by
    intro i
    rw [scope_modify]
    split
    · exact hf _
    · rfl
  simp only [Declares, hsymbols]

/-- A new scope holds no symbol. -/
theorem declares_addScope {parent : ScopeId} {owner : ScopeOwner} {ledger : Option Ledger}
    (h : (t.addScope parent name owner ledger).Declares symbol) : t.Declares symbol := by
  obtain ⟨i, hi⟩ := h
  simp only [addScope, scope, Array.getD_eq_getD_getElem?, Array.getElem?_push] at hi
  split at hi
  · cases hi
  · refine (declares_modify t parent (f := fun s => { s with children := s.children ++ [t.size] })
      fun _ => rfl).mp ⟨i, ?_⟩
    simpa only [scope, Array.getD_eq_getD_getElem?] using hi

theorem declares_addModule? (h : t.addModule? name = some u)
    (hs : u.Declares symbol) : t.Declares symbol := by
  obtain ⟨-, rfl⟩ := eq_of_addModule? h
  exact declares_addScope hs

theorem declares_addImport? (h : t.addImport? id module localName = some u)
    (hs : u.Declares symbol) : t.Declares symbol := by
  obtain ⟨scope, -, rfl⟩ := eq_of_addImport? h
  exact (declares_modify t id (f := fun s =>
    { s with imports := s.imports ++ [{ module, localName, scope }] }) fun _ => rfl).mp hs

/-- What `insert?` declares is the symbol it was given, at the depth of its scope. -/
theorem declares_insert? {s : Symbol} (h : t.insert? id symbol = some u) (hs : u.Declares s) :
    t.Declares s ∨ ∃ depth, s = { symbol with depth } := by
  obtain ⟨-, rfl⟩ := eq_of_insert? h
  obtain ⟨i, hi⟩ := hs
  rw [scope_modify] at hi
  split at hi
  · rcases List.mem_append.mp hi with hold | hnew
    · exact .inl ⟨i, hold⟩
    · exact .inr ⟨_, List.mem_singleton.mp hnew⟩
  · exact .inl ⟨i, hi⟩

theorem declares_withoutMemory (t : ScopeTree) (symbol : Symbol) :
    t.withoutMemory.Declares symbol ↔ t.Declares symbol := by
  simp only [Declares, scope_withoutMemory]
  rfl

/-! Whatever a search finds is declared somewhere. -/

theorem declares_of_symbol?
    (h : (t.scope id).symbol? name = some symbol) : t.Declares symbol :=
  ⟨id, List.mem_of_find?_eq_some h⟩

theorem declares_of_lookup?
    (h : t.lookup? id name = some symbol) : t.Declares symbol := by
  obtain ⟨⟨i, s⟩, hloc, rfl⟩ := Option.map_eq_some_iff.mp h
  obtain ⟨j, -, hj⟩ := List.exists_of_findSome?_eq_some hloc
  obtain ⟨s', hs', heq⟩ := Option.map_eq_some_iff.mp hj
  cases heq
  exact declares_of_symbol? hs'

theorem declares_of_qualifiedLookup
    (h : t.qualifiedLookup id module name = .found symbol) : t.Declares symbol := by
  unfold qualifiedLookup at h
  split at h
  · cases h
  · dsimp only at h
    split at h
    next s hvisible =>
      cases h
      unfold visible? at hvisible
      split at hvisible
      · cases hvisible
      next s' hs' =>
        split at hvisible
        · cases hvisible
          exact declares_of_symbol? hs'
        · cases hvisible
    · split at h <;> cases h

theorem declares_of_qualified?
    (h : t.qualified? id module name = some symbol) : t.Declares symbol := by
  unfold qualified? at h
  split at h
  next s hs =>
    cases h
    exact declares_of_qualifiedLookup hs
  · cases h

end ScopeTree

/-! ### Well-typed states -/

/-- The type of a symbol is known, and the name of a struct has a struct type. -/
structure Symbol.WellTyped (t : StructTable) (s : Symbol) : Prop where
  known : s.ty.KnownIn t
  struct : s.kind = .struct → ∃ id name, s.ty = .struct id name

/-- The type of a member is known, and a method with `self` has a parameter for it. -/
structure StructMember.WellTyped (t : StructTable) (m : StructMember) : Prop where
  known : m.ty.KnownIn t
  self : ∀ traits, m.kind = .method traits → traits.hasSelf = true →
    ∃ self rest ret, m.ty = .function (self :: rest) ret

/-- All types that the state holds are known: those of symbols, of members of structs, of
expressions, and the return types of the functions around. -/
structure Checker.WellTyped (c : Checker) : Prop where
  symbols : ∀ s, c.scopes.Declares s → s.WellTyped c.structs
  ids : ∀ id d, c.structs.get? id = some d → d.id = id
  members : ∀ id d, c.structs.get? id = some d → ∀ m ∈ d.members, m.WellTyped c.structs
  types : ∀ entry ∈ c.types.entries, entry.2.KnownIn c.structs
  frames : ∀ f ∈ c.walk.frames, f.returnType.KnownIn c.structs

theorem Symbol.WellTyped.mono {t u : StructTable} {s : Symbol} (hu : t.Extends u)
    (h : s.WellTyped t) : s.WellTyped u :=
  ⟨h.known.mono hu, h.struct⟩

theorem StructMember.WellTyped.mono {t u : StructTable} {m : StructMember} (hu : t.Extends u)
    (h : m.WellTyped t) : m.WellTyped u :=
  ⟨h.known.mono hu, h.self⟩

namespace Checker.WellTyped

variable {structs : StructTable}

variable {c d : Checker}

theorem ofConfig (config : Config) : (Checker.ofConfig config).WellTyped where
  symbols := by
    intro s hs
    have hvoid : Ty.void.KnownIn {} := .basic _
    rcases declares_initial hs with rfl | rfl
    · exact ⟨.function (by simpa using .basic _) (.pointer hvoid), nofun⟩
    · exact ⟨.function (by simpa using .pointer hvoid) hvoid, nofun⟩
  ids := by
    intro id d hd
    simp [StructTable.get?, Checker.ofConfig] at hd
  members := by
    intro id d hd
    simp [StructTable.get?, Checker.ofConfig] at hd
  types := nofun
  frames := nofun

/-- The memory analysis touches no type. -/
theorem memory (hstep : MemoryStep c d) (h : c.WellTyped) : d.WellTyped := by
  constructor
  · intro s hs
    rw [← declares_withoutMemory, hstep.scopes, declares_withoutMemory] at hs
    exact hstep.structs ▸ h.symbols s hs
  · exact hstep.structs ▸ h.ids
  · exact hstep.structs ▸ h.members
  · exact hstep.structs ▸ hstep.types ▸ h.types
  · exact hstep.structs ▸ hstep.walk ▸ h.frames

variable (h : c.WellTyped)

include h

/-- What is found and where the check stands does not matter. -/
theorem setContext (context : Context) : { c with context }.WellTyped :=
  ⟨h.symbols, h.ids, h.members, h.types, h.frames⟩

theorem record (id : NodeId) {ty : Ty} (hty : ty.KnownIn c.structs) : (c.record id ty).WellTyped :=
  ⟨h.symbols, h.ids, h.members, List.forall_mem_cons.mpr ⟨hty, h.types⟩, h.frames⟩

theorem setWalk {walk : Walk} (hwalk : ∀ f ∈ walk.frames, f.returnType.KnownIn c.structs) :
    { c with walk }.WellTyped :=
  ⟨h.symbols, h.ids, h.members, h.types, hwalk⟩

/-- A tree that declares nothing new. -/
theorem setScopes (hscopes : ∀ s, scopes.Declares s → c.scopes.Declares s) :
    { c with scopes }.WellTyped :=
  ⟨fun s hs => h.symbols s (hscopes s hs), h.ids, h.members, h.types, h.frames⟩

theorem insert {scope : ScopeId} {symbol : Symbol} (hsymbol : symbol.WellTyped c.structs)
    (hscopes : c.scopes.insert? scope symbol = some scopes) : { c with scopes }.WellTyped := by
  refine ⟨?_, h.ids, h.members, h.types, h.frames⟩
  intro s hs
  rcases declares_insert? hscopes hs with hold | ⟨depth, rfl⟩
  · exact h.symbols s hold
  · exact ⟨hsymbol.known, hsymbol.struct⟩

/-- All types stay known in a table that extends the old one, if its definitions are in order. -/
theorem setStructs (hext : c.structs.Extends structs)
    (hids : ∀ id d, structs.get? id = some d → d.id = id)
    (hmembers : ∀ id d, structs.get? id = some d → ∀ m ∈ d.members, m.WellTyped structs) :
    { c with structs }.WellTyped where
  symbols s hs := (h.symbols s hs).mono hext
  ids := hids
  members := hmembers
  types entry hentry := (h.types entry hentry).mono hext
  frames f hf := (h.frames f hf).mono hext

theorem reserve (name module : String) (isPublic : Bool) :
    { c with structs := c.structs.reserve name module isPublic }.WellTyped := by
  have hext := c.structs.extends_reserve name module isPublic
  apply h.setStructs hext
  · intro id d hd
    rw [get?_reserve] at hd
    split at hd
    next hid =>
      cases hd
      exact hid.symm
    · exact h.ids id d hd
  · intro id d hd m hm
    rw [get?_reserve] at hd
    split at hd
    · cases hd
      cases hm
    · exact (h.members id d hd m hm).mono hext

theorem finalize (hdraft : ∀ m ∈ draft.members, m.WellTyped c.structs)
    (hstructs : c.structs.finalize? draft = some structs) : { c with structs }.WellTyped := by
  have hext := extends_finalize? hstructs
  obtain ⟨s, hs, hget⟩ := get?_finalize? hstructs
  apply h.setStructs hext
  · intro id d hd
    rw [hget] at hd
    split at hd
    next hid =>
      cases hd
      exact (h.ids draft.id s hs).trans hid.symm
    · exact h.ids id d hd
  · intro id d hd m hm
    rw [hget] at hd
    split at hd
    · cases hd
      exact (hdraft m hm).mono hext
    · exact (h.members id d hd m hm).mono hext

end Checker.WellTyped

end Warden
