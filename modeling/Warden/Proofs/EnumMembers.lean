import Warden.Proofs.Dereference
import Warden.Proofs.Exhaustiveness
import Warden.Proofs.Moves

/-!
# Members of enums

An enum is declared together with its members: the member `A` of `E` is a symbol of its own with
the name `E.A`, in the scope of `E`. In every state of a check, the enums of a scope and the members
that it declares belong together (`ScopeTree.EnumsWhole`): each member that an enum lists has its
symbol beside the enum, and each symbol of a member comes from an enum of its scope that lists it.

To check `E.A`, the enum and the member are looked for one after the other, by their names. Where
names have no dots in them, the member is found exactly if some scope on the way has an enum `E`
that lists `A` (`symbol?_dotted`). That need not be the enum to which `E` refers: an inner enum
hides an outer one, but not those members of it that the inner one lacks.
-/

namespace Warden

open CheckM Check ScopeTree

variable {name module : String} {c : Checker}

/-- A name is told apart from what follows after the dot, if it has none itself. -/
theorem dotted_inj {a b m n : String} (ha : '.' ∉ a.toList) (hb : '.' ∉ b.toList)
    (h : s!"{a}.{m}" = s!"{b}.{n}") : a = b ∧ m = n := by
  have hlists : a.toList ++ '.' :: m.toList = b.toList ++ '.' :: n.toList := by
    simpa [toString] using congrArg String.toList h
  have hfirst : ∀ (a : String) (rest : List Char), '.' ∉ a.toList →
      (a.toList ++ '.' :: rest).takeWhile (· != '.') = a.toList := by
    intro a rest ha
    rw [List.takeWhile_append_of_pos, List.takeWhile_cons_of_neg (by simp), List.append_nil]
    intro x hx
    simpa using fun heq : x = '.' => ha (heq ▸ hx)
  have hab : a.toList = b.toList := by
    rw [← hfirst a m.toList ha, hlists, hfirst b n.toList hb]
  rw [hab, List.append_cancel_left_eq, List.cons.injEq] at hlists
  exact ⟨String.toList_inj.mp hab, String.toList_inj.mp hlists.2⟩

/-- The symbol of an enum. -/
def EnumDecl.symbol (decl : EnumDecl) (members : List String) (span : Span) : Symbol :=
  { name := decl.name, ty := .basic decl.name, kind := .enum members, isPublic := decl.isPublic
    span }

/-- The symbol of one of its members. -/
def EnumDecl.memberSymbol (decl : EnumDecl) (span : Span) (member : String) : Symbol :=
  { name := s!"{decl.name}.{member}", ty := .basic decl.name, kind := .enumMember
    isPublic := decl.isPublic, span }

namespace Scope

theorem name_of_symbol? {s : Scope} {symbol : Symbol} (h : s.symbol? name = some symbol) :
    symbol.name = name := by
  simpa using List.find?_some h

theorem mem_of_symbol? {s : Scope} {symbol : Symbol} (h : s.symbol? name = some symbol) :
    symbol ∈ s.symbols :=
  List.mem_of_find?_eq_some h

end Scope

namespace ScopeTree

variable {t u v : ScopeTree}

variable {symbol : Symbol} {home : ScopeId}

theorem lt_size_of_symbol? {i : ScopeId} (h : (t.scope i).symbol? name = some symbol) :
    i < t.size := by
  by_contra hi
  have hscope : t.scope i = {} := by
    simp [scope, Array.getD_eq_getD_getElem?, Array.getElem?_eq_none (Nat.le_of_not_lt hi)]
  rw [hscope] at h
  cases h

/-! ### Declaring symbols in a scope -/

theorem size_insert? (h : t.insert? home symbol = some u) : u.size = t.size := by
  obtain ⟨-, rfl⟩ := eq_of_insert? h
  exact size_modify ..

/-- After the declaration the new symbol is found under its name, and all others are as before. -/
theorem symbol?_insert? (h : t.insert? home symbol = some u) (i : ScopeId) (name : String) :
    (u.scope i).symbol? name =
      if i = home ∧ i < t.size ∧ symbol.name = name then
        some { symbol with depth := (t.scope i).depth }
      else (t.scope i).symbol? name := by
  obtain ⟨hfree, rfl⟩ := eq_of_insert? h
  rw [scope_modify]
  by_cases hi : i = home ∧ i < t.size
  · rw [if_pos hi, Scope.symbol?, List.find?_append]
    by_cases hname : symbol.name = name
    · have hnone : (t.scope i).symbols.find? (·.name == name) = none := by
        rw [hi.1, ← hname]
        exact hfree
      rw [if_pos ⟨hi.1, hi.2, hname⟩, hnone]
      simp [hname]
    · rw [if_neg fun h => hname h.2.2]
      simp [Scope.symbol?, hname]
  · rw [if_neg hi, if_neg fun h => hi ⟨h.1, h.2.1⟩]

/-- The tree `u` comes from `t` by declaring the symbols in the scope, as far as their names are
free. -/
structure Joined (t u : ScopeTree) (home : ScopeId) (new : List Symbol) : Prop where
  size : u.size = t.size
  kept : ∀ {i name s}, (t.scope i).symbol? name = some s → (u.scope i).symbol? name = some s
  fresh : ∀ {i name s}, (u.scope i).symbol? name = some s →
    (t.scope i).symbol? name = some s ∨
      i = home ∧ ∃ symbol ∈ new, name = symbol.name ∧ s = { symbol with depth := s.depth }
  named : home < t.size → ∀ symbol ∈ new, ((u.scope home).symbol? symbol.name).isSome = true

namespace Joined

variable {home : ScopeId} {new new' : List Symbol}

theorem trans (h : t.Joined u home new) (h' : u.Joined v home new') :
    t.Joined v home (new ++ new') where
  size := h'.size.trans h.size
  kept hs := h'.kept (h.kept hs)
  fresh hs := by
    rcases h'.fresh hs with hold | ⟨hi, symbol, hsymbol, hnew⟩
    · rcases h.fresh hold with hold | ⟨hi, symbol, hsymbol, hnew⟩
      · exact .inl hold
      · exact .inr ⟨hi, symbol, List.mem_append_left _ hsymbol, hnew⟩
    · exact .inr ⟨hi, symbol, List.mem_append_right _ hsymbol, hnew⟩
  named hhome symbol hsymbol := by
    rcases List.mem_append.mp hsymbol with hsymbol | hsymbol
    · obtain ⟨s, hs⟩ := Option.isSome_iff_exists.mp (h.named hhome symbol hsymbol)
      rw [h'.kept hs]
      rfl
    · exact h'.named (h.size ▸ hhome) symbol hsymbol

theorem ofInsert {symbol : Symbol} (h : t.insert? home symbol = some u) :
    t.Joined u home [symbol] where
  size := size_insert? h
  kept {i name s} hs := by
    rw [symbol?_insert? h, if_neg, hs]
    rintro ⟨rfl, -, rfl⟩
    rw [(eq_of_insert? h).1] at hs
    cases hs
  fresh {i name s} hs := by
    rw [symbol?_insert? h] at hs
    split at hs
    next hnew =>
      cases hs
      exact .inr ⟨hnew.1, symbol, List.mem_singleton_self _, hnew.2.2.symm, rfl⟩
    · exact .inl hs
  named hhome s hs := by
    rw [List.mem_singleton.mp hs, symbol?_insert? h, if_pos ⟨rfl, hhome, rfl⟩]
    rfl

/-- A symbol whose name is taken is passed over. -/
theorem ofInsertIfFree (t : ScopeTree) (home : ScopeId) (symbol : Symbol) :
    t.Joined ((t.insert? home symbol).getD t) home [symbol] := by
  cases hinsert : t.insert? home symbol with
  | some u => exact ofInsert hinsert
  | none =>
    refine ⟨rfl, id, .inl, fun _ s hs => ?_⟩
    unfold insert? at hinsert
    split at hinsert
    next htaken => exact List.mem_singleton.mp hs ▸ htaken
    · cases hinsert

end Joined

/-! ### Enums and their members -/

/-- The scope has an enum of that name which lists the member. -/
def HasMember (t : ScopeTree) (i : ScopeId) (enum member : String) : Prop :=
  ∃ e members, (t.scope i).symbol? enum = some e ∧ e.kind = .enum members ∧ member ∈ members

/-- Enums and their members are declared together. -/
structure EnumsWhole (t : ScopeTree) : Prop where
  members : ∀ {i enum member}, t.HasMember i enum member →
    ((t.scope i).symbol? s!"{enum}.{member}").isSome = true
  origin : ∀ {i name s}, (t.scope i).symbol? name = some s → s.kind = .enumMember →
    ∃ enum e members member, (t.scope i).symbol? enum = some e ∧ e.kind = .enum members ∧
      member ∈ members ∧ name = s!"{enum}.{member}" ∧ s.ty = .basic enum ∧ s.isPublic = e.isPublic

namespace EnumsWhole

variable {home : ScopeId} {new : List Symbol}

section

variable (h : t.EnumsWhole)

include h

/-- Other declarations leave enums alone. -/
theorem join (hu : t.Joined u home new) (hnew : ∀ symbol ∈ new, symbol.isOfEnum = false) :
    u.EnumsWhole where
  members := by
    rintro i enum member ⟨e, members, he, hkind, hmember⟩
    rcases hu.fresh he with hold | ⟨-, symbol, hsymbol, -, hsame⟩
    · have hsome := h.members ⟨e, members, hold, hkind, hmember⟩
      obtain ⟨s, hs⟩ := Option.isSome_iff_exists.mp hsome
      rw [hu.kept hs]
      rfl
    · rw [hsame] at hkind
      have hother := hnew symbol hsymbol
      simp [Symbol.isOfEnum, show symbol.kind = .enum members from hkind] at hother
  origin := by
    intro i name s hs hkind
    rcases hu.fresh hs with hold | ⟨-, symbol, hsymbol, -, hsame⟩
    · obtain ⟨enum, e, members, member, he, hrest⟩ := h.origin hold hkind
      exact ⟨enum, e, members, member, hu.kept he, hrest⟩
    · rw [hsame] at hkind
      have hother := hnew symbol hsymbol
      simp [Symbol.isOfEnum, show symbol.kind = .enumMember from hkind] at hother

theorem congr (hsymbols : ∀ i, (u.scope i).symbols = (t.scope i).symbols) : u.EnumsWhole := by
  have hsymbol : ∀ i name, (u.scope i).symbol? name = (t.scope i).symbol? name := by
    intro i name
    rw [Scope.symbol?, hsymbols, Scope.symbol?]
  constructor
  · intro i enum member hmember
    rw [HasMember, hsymbol] at hmember
    rw [hsymbol]
    exact h.members hmember
  · intro i name s hs hkind
    rw [hsymbol] at hs
    simp only [hsymbol]
    exact h.origin hs hkind

theorem addScope (parent : ScopeId) (name : String) (owner : ScopeOwner) (ledger : Option Ledger) :
    (t.addScope parent name owner ledger).EnumsWhole := by
  refine h.congr fun i => ?_
  by_cases hi : i = t.size
  · have hscope : t.scope i = {} := by
      simp [hi, scope, ScopeTree.size, Array.getD_eq_getD_getElem?]
    rw [hscope, hi, scope_addScope_size]
  · exact field_addScope t parent name owner ledger Scope.symbols (fun _ _ => rfl) hi

theorem addModule? (hu : t.addModule? name = some u) : u.EnumsWhole := by
  obtain ⟨-, rfl⟩ := ScopeTree.eq_of_addModule? hu
  exact (h.addScope 0 name (.module name) (some {})).congr fun _ => rfl

theorem addImport? {id : ScopeId} {localName : String}
    (hu : t.addImport? id module localName = some u) : u.EnumsWhole := by
  obtain ⟨scope, -, rfl⟩ := ScopeTree.eq_of_addImport? hu
  refine h.congr fun i => field_modify t id (f := fun s =>
    { s with imports := s.imports ++ [{ module, localName, scope }] }) Scope.symbols ?_ i
  exact fun _ => rfl

end

/-- At first there are the built-in functions only. -/
theorem initial : ScopeTree.initial.EnumsWhole := by
  have hbuiltin : ∀ {i name s}, (ScopeTree.initial.scope i).symbol? name = some s →
      s.kind = .builtin := by
    intro i name s hs
    have hi : i = 0 := Nat.lt_one_iff.mp (lt_size_of_symbol? hs)
    subst hi
    have hmem : s ∈ [allocSymbol, freeSymbol] := Scope.mem_of_symbol? hs
    rcases List.mem_cons.mp hmem with rfl | hmem
    · rfl
    · rw [List.mem_singleton.mp hmem]
      rfl
  constructor
  · rintro i enum member ⟨e, members, he, hkind, -⟩
    rw [hbuiltin he] at hkind
    cases hkind
  · intro i name s hs hkind
    rw [hbuiltin hs] at hkind
    cases hkind

/-- Memory has no part in declarations. -/
theorem ofMemory (h : t.EnumsWhole) (hu : u.withoutMemory = t.withoutMemory) : u.EnumsWhole := by
  refine h.congr fun i => ?_
  have hscope : (u.scope i).withoutMemory = (t.scope i).withoutMemory := by
    rw [← scope_withoutMemory, hu, scope_withoutMemory]
  exact (congrArg Scope.symbols hscope :)

variable {decl : EnumDecl} {members : List String} {span : Span}

/-- An enum whose name was free, and after it all members that it lists. -/
theorem joinEnum (h : t.EnumsWhole) (hu : t.insert? home (decl.symbol members span) = some u)
    (hv : u.Joined v home (members.map (decl.memberSymbol span))) : v.EnumsWhole := by
  have hjoined := Joined.ofInsert hu
  constructor
  · rintro i enum member ⟨e, listed, he, hkind, hmember⟩
    rcases hv.fresh he with he | ⟨-, symbol, hsymbol, -, hsame⟩
    · rcases hjoined.fresh he with he | ⟨rfl, symbol, hsymbol, rfl, hsame⟩
      · -- an enum that was there before
        have hsome := h.members ⟨e, listed, he, hkind, hmember⟩
        obtain ⟨s, hs⟩ := Option.isSome_iff_exists.mp hsome
        rw [hv.kept (hjoined.kept hs)]
        rfl
      · -- the new enum
        cases List.mem_singleton.mp hsymbol
        rw [hsame] at hkind
        cases hkind
        have hmem : decl.memberSymbol span member ∈ members.map (decl.memberSymbol span) :=
          List.mem_map_of_mem hmember
        exact hv.named (lt_size_of_symbol? he) _ hmem
    · obtain ⟨other, -, rfl⟩ := List.mem_map.mp hsymbol
      rw [hsame] at hkind
      cases hkind
  · intro i name s hs hkind
    rcases hv.fresh hs with hs | ⟨rfl, symbol, hsymbol, rfl, hsame⟩
    · rcases hjoined.fresh hs with hs | ⟨-, symbol, hsymbol, -, hsame⟩
      · obtain ⟨enum, e, listed, member, he, hrest⟩ := h.origin hs hkind
        exact ⟨enum, e, listed, member, hv.kept (hjoined.kept he), hrest⟩
      · cases List.mem_singleton.mp hsymbol
        rw [hsame] at hkind
        cases hkind
    · obtain ⟨member, hmember, rfl⟩ := List.mem_map.mp hsymbol
      have hhome : i < t.size := by
        rw [← size_insert? hu, ← hv.size]
        exact lt_size_of_symbol? hs
      have henum : (u.scope i).symbol? decl.name =
          some { decl.symbol members span with depth := (t.scope i).depth } := by
        rw [symbol?_insert? hu, if_pos ⟨rfl, hhome, rfl⟩]
      rw [hsame]
      exact ⟨decl.name, _, members, member, hv.kept henum, rfl, hmember, rfl, rfl, rfl⟩

end EnumsWhole

end ScopeTree

/-- The symbols of the members are declared one after the other. -/
theorem joined_declareEnumMembers (decl : EnumDecl) (span : Span) (scope : ScopeId)
    (members : List String) (c : Checker) :
    c.scopes.Joined ((declareEnumMembers decl span scope members).exec c).scopes scope
      (members.map (decl.memberSymbol span)) := by
  induction members generalizing c with
  | nil => exact ⟨rfl, id, .inl, fun _ => List.forall_mem_nil _⟩
  | cons member members ih =>
    exact (ScopeTree.Joined.ofInsertIfFree c.scopes scope (decl.memberSymbol span member)).trans
      (ih { c with
        scopes := (c.scopes.insert? scope (decl.memberSymbol span member)).getD c.scopes })

theorem enumsWhole_enumDecl (h : c.scopes.EnumsWhole) (decl : EnumDecl) (span : Span)
    (scope : ScopeId) : ((enumDecl decl span scope).exec c).scopes.EnumsWhole := by
  have hquiet := (reports_enumMembers scope decl.name span [] decl.members).observes.quiet c
  rw [enumDecl, exec_bind, exec_bind]
  replace h := h.ofMemory hquiet.scopes
  generalize (enumMembers decl.name span [] decl.members).exec c = d at h ⊢
  obtain ⟨scopes, hinsert, heval, hexec⟩ | ⟨cause, heval, hexec⟩ := declare_cases scope _ span d
  · rw [heval, hexec, if_pos rfl]
    have hjoined := joined_declareEnumMembers decl span scope
      ((enumMembers decl.name span [] decl.members).eval c) { d with scopes }
    exact h.joinEnum hinsert hjoined
  · rw [heval, hexec]
    exact h

namespace Checker

theorem Stands.enumsWhole (h : c.Stands) : c.scopes.EnumsWhole := by
  refine h.keeps (P := fun c => c.scopes.EnumsWhole) (fun _ => .initial) fun {c d} _ h hmove => ?_
  cases hmove with
  | observe hm _ => exact h.ofMemory (hm.quiet c).scopes
  | memory hf => exact h.ofMemory (congrArg Checker.scopes (hf.step c).withoutMemory :)
  | addModule hscopes => exact h.addModule? hscopes
  | addImport hscopes => exact h.addImport? hscopes
  | addBlock parent name => exact h.addScope parent name _ _
  | addFunction parent name => exact h.addScope parent name _ _
  | declare _ henum hscopes =>
    exact h.join (.ofInsert hscopes) (List.forall_mem_singleton.mpr henum)
  | enum decl span scope => exact enumsWhole_enumDecl h decl span scope
  | _ => exact h

end Checker

/-! ### Looking for a member -/

/-- The last name of a reference. -/
def ExprKind.lastName : ExprKind → String
  | .ident name | .qualified _ name => name
  | _ => ""

namespace ScopeTree

/-- Nothing but the members of enums has a dot in its name. -/
def PlainNames (t : ScopeTree) : Prop :=
  ∀ i < t.size, ∀ s ∈ (t.scope i).symbols, s.kind ≠ .enumMember → '.' ∉ s.name.toList

instance (t : ScopeTree) : Decidable t.PlainNames :=
  inferInstanceAs (Decidable (∀ i < t.size, ∀ s ∈ (t.scope i).symbols, _ → _))

/-- The scopes in which the last name of a reference is looked for, in order. -/
def searched (t : ScopeTree) (id : ScopeId) : ExprKind → List ScopeId
  | .ident _ => t.ancestors id
  | .qualified module _ => (t.findImport? id module).toList.map (·.scope)
  | _ => []

variable {t : ScopeTree} {i scope home : ScopeId} {name enum member : String} {symbol : Symbol}

theorem PlainNames.not_mem (h : t.PlainNames) (hs : (t.scope i).symbol? name = some symbol)
    (hkind : symbol.kind ≠ .enumMember) : '.' ∉ name.toList := by
  rw [← Scope.name_of_symbol? hs]
  exact h i (lt_size_of_symbol? hs) symbol (Scope.mem_of_symbol? hs) hkind

/-- What is declared under the name of a member is the member of an enum of that scope. -/
theorem symbol?_dotted (h : t.EnumsWhole) (hplain : t.PlainNames) (henum : '.' ∉ enum.toList)
    (hs : (t.scope i).symbol? s!"{enum}.{member}" = some symbol) :
    ∃ e members, (t.scope i).symbol? enum = some e ∧ e.kind = .enum members ∧ member ∈ members ∧
      symbol.ty = .basic enum ∧ symbol.isPublic = e.isPublic := by
  have hkind : symbol.kind = .enumMember := by
    by_contra hother
    exact hplain.not_mem hs hother (by simp [toString])
  obtain ⟨enum', e, members, member', he, hmembers, hmember, hname, hty, hpublic⟩ :=
    h.origin hs hkind
  obtain ⟨rfl, rfl⟩ := dotted_inj henum (hplain.not_mem he (by simp [hmembers])) hname
  exact ⟨e, members, he, hmembers, hmember, hty, hpublic⟩

theorem symbol?_of_visible? {requester : String} (h : t.visible? i name requester = some symbol) :
    (t.scope i).symbol? name = some symbol ∧
      (symbol.isPublic || t.owningModule? i == some requester) = true := by
  unfold visible? at h
  split at h
  · cases h
  next s hs =>
    split at h
    next hvisible =>
      cases h
      exact ⟨hs, hvisible⟩
    · cases h

/-- A declaration is found under the name in a scope on the way. -/
theorem symbol?_of_declaration? {kind : ExprKind}
    (h : t.declaration? scope kind = some (home, symbol)) :
    home ∈ t.searched scope kind ∧ (t.scope home).symbol? kind.lastName = some symbol := by
  cases kind with
  | ident name =>
    obtain ⟨i, hi, hfound⟩ := List.exists_of_findSome?_eq_some h
    obtain ⟨s, hs, heq⟩ := Option.map_eq_some_iff.mp hfound
    cases heq
    exact ⟨hi, hs⟩
  | qualified module name =>
    obtain ⟨m, hm, hfound⟩ := Option.bind_eq_some_iff.mp h
    obtain ⟨s, hs, heq⟩ := Option.map_eq_some_iff.mp hfound
    cases heq
    exact ⟨by simp [searched, hm], (symbol?_of_visible? hs).1⟩
  | _ => cases h

section

variable (h : t.EnumsWhole) (hplain : t.PlainNames) {kind : ExprKind} {members : List String}
  (henum : symbol.kind = .enum members)
  (hobject : t.declaration? scope kind = some (home, symbol))

include h hplain henum hobject

/-- What is found for a member is a member of an enum on the way, and has its type. -/
theorem hasMember_of_declaration?_dot {found : ScopeId × Symbol}
    (hfound : t.declaration? scope (kind.dot member) = some found) :
    found.2.ty = .basic kind.lastName ∧
      ∃ i ∈ t.searched scope kind, t.HasMember i kind.lastName member := by
  have hname : '.' ∉ kind.lastName.toList :=
    hplain.not_mem (symbol?_of_declaration? hobject).2 (by simp [henum])
  obtain ⟨hmem, hsymbol⟩ := symbol?_of_declaration? hfound
  have hdot : t.searched scope (kind.dot member) = t.searched scope kind ∧
      (kind.dot member).lastName = s!"{kind.lastName}.{member}" := by
    cases kind with
    | ident name => exact ⟨rfl, rfl⟩
    | qualified module name => exact ⟨rfl, rfl⟩
    | _ => cases hobject
  rw [hdot.1] at hmem
  rw [hdot.2] at hsymbol
  obtain ⟨e, listed, he, hkind, hmember, hty, -⟩ := symbol?_dotted h hplain hname hsymbol
  exact ⟨hty, found.1, hmem, e, listed, he, hkind, hmember⟩

/-- A member of an enum on the way is found. -/
theorem isSome_declaration?_dot (hi : i ∈ t.searched scope kind)
    (hmember : t.HasMember i kind.lastName member) :
    (t.declaration? scope (kind.dot member)).isSome = true := by
  obtain ⟨s, hs⟩ := Option.isSome_iff_exists.mp (h.members hmember)
  cases kind with
  | ident name =>
    refine List.findSome?_isSome_iff.mpr ⟨i, hi, ?_⟩
    rw [show (t.scope i).symbol? s!"{name}.{member}" = some s from hs]
    rfl
  | qualified module name =>
    obtain ⟨m, hm, hfound⟩ := Option.bind_eq_some_iff.mp hobject
    obtain ⟨found, hvisible, heq⟩ := Option.map_eq_some_iff.mp hfound
    cases heq
    obtain ⟨hsymbol, hallowed⟩ := symbol?_of_visible? hvisible
    obtain rfl : i = m.scope := by simpa [searched, hm] using hi
    -- the member is as public as the enum
    have hname : '.' ∉ name.toList := hplain.not_mem hsymbol (by simp [henum])
    obtain ⟨e, -, he, -, -, -, hpublic⟩ := symbol?_dotted h hplain hname hs
    rw [hsymbol, Option.some.injEq] at he
    subst he
    have hseen : t.visible? m.scope s!"{name}.{member}" ((t.owningModule? scope).getD "") =
        some s := by
      unfold visible?
      rw [show (t.scope m.scope).symbol? s!"{name}.{member}" = some s from hs]
      exact if_pos (hpublic ▸ hallowed)
    simp only [declaration?, ExprKind.dot, locateQualified?, hm, Option.bind_some, hseen]
    rfl
  | _ => cases hobject

end

/-- An enum has the members that it lists. -/
theorem hasMember_iff {members : List String} (hsymbol : (t.scope i).symbol? enum = some symbol)
    (henum : symbol.kind = .enum members) : t.HasMember i enum member ↔ member ∈ members := by
  constructor
  · rintro ⟨e, listed, he, hkind, hmember⟩
    rw [hsymbol, Option.some.injEq] at he
    rw [← he, henum] at hkind
    cases hkind
    exact hmember
  · exact fun hmember => ⟨symbol, members, hsymbol, henum, hmember⟩

/-- Behind the name of a module there is but one scope on the way. -/
theorem eq_of_mem_searched_qualified (hi : i ∈ t.searched scope (.qualified module name))
    (hhome : home ∈ t.searched scope (.qualified module name)) : i = home := by
  simp only [searched, List.mem_map, Option.mem_toList] at hi hhome
  obtain ⟨m, hm, rfl⟩ := hi
  obtain ⟨m', hm', rfl⟩ := hhome
  rw [Option.mem_def.mp hm] at hm'
  cases hm'
  rfl

end ScopeTree

theorem exec_enumMember (enum member : String) (found : Option (ScopeId × Symbol)) (span : Span)
    (c : Checker) : (enumMember enum member (found.map (·.2)) span).exec c =
      { c with
        context := c.context.reportAny span
          (if found.isSome then none else some (.noEnumMember enum member)) } := by
  cases found <;> rfl

section

variable {c : Checker} {scope home : ScopeId} {object : Expr} {enum : Symbol}
  {members : List String} (henum : enum.kind = .enum members)
  (hobject : c.scopes.declaration? scope object.kind = some (home, enum)) (member : String)
  (span : Span)

include henum hobject

/-- After the name of an enum, all that is filed is that the member is not found. -/
theorem exec_staticMember : (staticMember object member span scope).exec c =
      { c with
        context := c.context.reportAny span
          (if (c.scopes.declaration? scope (object.kind.dot member)).isSome then none
          else some (.noEnumMember object.kind.lastName member)) } := by
  cases hkind : object.kind with
  | ident name =>
    have hlookup : c.scopes.lookup? scope name = some enum := by
      rw [hkind] at hobject
      exact congrArg (Option.map (·.2)) hobject
    rw [staticMember, exec_get_bind]
    simp only [hkind, hlookup, henum, exec_bind, exec_pure]
    exact exec_enumMember name member (c.scopes.locate? scope s!"{name}.{member}") span c
  | qualified module name =>
    have hqualified : c.scopes.qualified? scope module name = some enum := by
      rw [hkind] at hobject
      rw [qualified?_eq]
      exact congrArg (Option.map (·.2)) hobject
    have hisEnum : (c.scopes.qualified? scope module name).any isEnumSymbol = true := by
      simp [hqualified, isEnumSymbol, Symbol.enumMembers?, henum]
    rw [staticMember, exec_get_bind]
    simp only [hkind]
    rw [if_pos hisEnum, exec_bind, exec_pure, qualified?_eq]
    exact exec_enumMember name member
      (c.scopes.locateQualified? scope module s!"{name}.{member}") span c
  | _ => simp [hkind, ScopeTree.declaration?] at hobject

theorem check_enumMember (id : NodeId) :
    let check := Expr.check scope ⟨id, span, .member object member⟩
    let found := c.scopes.declaration? scope (object.kind.dot member)
    check.eval c = found.map (·.2.ty) ∧
      check.emitted c = c.context.filed span
        (if found.isSome then none else some (.noEnumMember object.kind.lastName member)) := by
  intro check found
  have hstatic := eval_staticMember henum hobject member span
  obtain ⟨heval, hemitted⟩ := check_eq_kind scope id span (.member object member) c
  constructor
  · rw [eval_check_member, hstatic]
    rfl
  · rw [hemitted]
    apply emitted_eq
    rw [ExprKind.check, exec_bind, hstatic, exec_staticMember henum hobject]
    exact c.context.findings_reportAny span _

variable (hc : c.Stands) (hplain : c.scopes.PlainNames) (id : NodeId)

include hc hplain

/-- A member that an enum on the way lists has the type of the enum. -/
theorem check_of_listed
    (h : ∃ i ∈ c.scopes.searched scope object.kind,
      c.scopes.HasMember i object.kind.lastName member) :
    let check := Expr.check scope ⟨id, span, .member object member⟩
    check.eval c = some (.basic object.kind.lastName) ∧ check.emitted c = [] := by
  obtain ⟨i, hi, hmember⟩ := h
  obtain ⟨heval, hemitted⟩ := check_enumMember henum hobject member span id
  have hsome := isSome_declaration?_dot hc.enumsWhole hplain henum hobject hi hmember
  obtain ⟨found, hfound⟩ := Option.isSome_iff_exists.mp hsome
  have hty :=
    (hasMember_of_declaration?_dot hc.enumsWhole hplain henum hobject hfound).1
  intro check
  rw [heval, hemitted, hfound, Option.map_some, hty]
  exact ⟨rfl, rfl⟩

/-- A member that no enum on the way lists is unknown. -/
theorem check_of_not_listed
    (h : ¬∃ i ∈ c.scopes.searched scope object.kind,
      c.scopes.HasMember i object.kind.lastName member) :
    let check := Expr.check scope ⟨id, span, .member object member⟩
    check.eval c = none ∧ check.emitted c =
      c.context.filed span (some (.noEnumMember object.kind.lastName member)) := by
  obtain ⟨heval, hemitted⟩ := check_enumMember henum hobject member span id
  have hnone : c.scopes.declaration? scope (object.kind.dot member) = none := by
    rw [Option.eq_none_iff_forall_ne_some]
    intro found hfound
    exact h (hasMember_of_declaration?_dot hc.enumsWhole hplain henum hobject hfound).2
  intro check
  rw [heval, hemitted, hnone]
  exact ⟨rfl, rfl⟩

end

/-- **What decides whether an enum has a member.** In every state of a check in which names have no
dots in them, let an object refer to an enum, by its name or through an imported module. Then
`object.member` has the type of the enum, and nothing is filed, if some scope on the way has an enum
of that name which lists the member. Otherwise it has no type, and an unknown member is filed.

So the list of the enum itself decides exactly if the member is in it or no other enum of the name
on the way lists it. Behind the name of a module there is no other. -/
theorem enum_member_follows_iff {c : Checker} (hc : c.Stands) (hplain : c.scopes.PlainNames)
    {scope home : ScopeId} {object : Expr} {enum : Symbol} {members : List String}
    (henum : enum.kind = .enum members)
    (hobject : c.scopes.declaration? scope object.kind = some (home, enum)) (id : NodeId)
    (span : Span) (member : String) :
    let check := Expr.check scope ⟨id, span, .member object member⟩
    let listed := ∃ i ∈ c.scopes.searched scope object.kind, c.scopes.HasMember i enum.name member
    (listed → check.eval c = some (.basic enum.name) ∧ check.emitted c = []) ∧
      (¬listed → check.eval c = none ∧
        check.emitted c = c.context.filed span (some (.noEnumMember enum.name member))) ∧
      ((check.eval c = some (.basic enum.name) ↔ member ∈ members) ↔
        member ∈ members ∨ ∀ i ∈ c.scopes.searched scope object.kind, i ≠ home →
          ¬c.scopes.HasMember i enum.name member) ∧
      ∀ module, object.kind = .qualified module enum.name →
        (check.eval c = some (.basic enum.name) ↔ member ∈ members) := by
  intro check listed
  obtain ⟨hhome, hsymbol⟩ := ScopeTree.symbol?_of_declaration? hobject
  have hname : object.kind.lastName = enum.name := (Scope.name_of_symbol? hsymbol).symm
  have hlisted := check_of_listed henum hobject member span hc hplain id
  have hunlisted := check_of_not_listed henum hobject member span hc hplain id
  rw [hname] at hsymbol hlisted hunlisted
  have hiff : check.eval c = some (.basic enum.name) ↔ listed := by
    refine ⟨fun hsome => ?_, fun h => (hlisted h).1⟩
    by_contra hnot
    rw [(hunlisted hnot).1] at hsome
    cases hsome
  have hown : c.scopes.HasMember home enum.name member ↔ member ∈ members :=
    ScopeTree.hasMember_iff hsymbol henum
  refine ⟨hlisted, hunlisted, ?_, fun module hkind => ?_⟩
  · rw [hiff]
    constructor
    · intro hdecides
      by_cases hmember : member ∈ members
      · exact .inl hmember
      · exact .inr fun i hi _ hother => hmember (hdecides.mp ⟨i, hi, hother⟩)
    · intro hall
      refine ⟨?_, fun hmember => ⟨home, hhome, hown.mpr hmember⟩⟩
      rintro ⟨i, hi, hother⟩
      rcases hall with hmember | hnone
      · exact hmember
      · by_cases hi' : i = home
        · exact hown.mp (hi' ▸ hother)
        · exact absurd hother (hnone i hi hi')
  · rw [hiff, ← hown]
    constructor
    · rintro ⟨i, hi, hmember⟩
      rw [hkind] at hi hhome
      exact ScopeTree.eq_of_mem_searched_qualified hi hhome ▸ hmember
    · exact fun hmember => ⟨home, hhome, hmember⟩

/-- The expression `E.B`. -/
def memberB : Expr :=
  ⟨1, {}, .member ⟨2, {}, .ident "E"⟩ "B"⟩

/-- A module that declares an enum `E` with `A` and `B`, and a function that declares one with `A`
only and uses `E.B`. -/
def hiddenEnum : Program :=
  let f : FnDecl :=
    { name := "f", params := [], returnType := .named {} none "void"
      body := ⟨{}, [⟨{}, .enum ⟨"E", false, ["A"]⟩⟩, ⟨{}, .expr memberB⟩]⟩
      isPublic := false, returnsOwnership := false, takesOwnership := false }
  { modules := [{ name := "main", body := [⟨{}, .enum ⟨"E", false, ["A", "B"]⟩⟩, ⟨{}, .fn f⟩] }] }

/-- The enum of the function. -/
def innerEnum : Symbol :=
  { EnumDecl.symbol ⟨"E", false, ["A"]⟩ ["A"] {} with depth := 2 }

/-- The enum of the module. -/
def outerEnum : Symbol :=
  { EnumDecl.symbol ⟨"E", false, ["A", "B"]⟩ ["A", "B"] {} with depth := 1 }

/-- In the function the list of its enum does not decide about `E.B`. -/
theorem member_follows_hidden_enum :
    let c := hiddenEnum.check {}
    c.scopes.PlainNames ∧ c.scopes.declaration? 2 (.ident "E") = some (2, innerEnum) ∧
      ¬((memberB.check 2).eval c = some (.basic "E") ↔ "B" ∈ ["A"]) := by
  have hplain : (hiddenEnum.check {}).scopes.PlainNames := by decide +kernel
  have hobject :
      (hiddenEnum.check {}).scopes.declaration? 2 (.ident "E") = some (2, innerEnum) := by
    decide +kernel
  have houter : ((hiddenEnum.check {}).scopes.scope 1).symbol? "E" = some outerEnum := by
    decide +kernel
  have hsearched : 1 ∈ (hiddenEnum.check {}).scopes.searched 2 (.ident "E") := by decide +kernel
  have hstands := Checker.Stands.program hiddenEnum {}
  generalize hiddenEnum.check {} = c at *
  refine ⟨hplain, hobject, fun hdecides => ?_⟩
  obtain ⟨-, -, hiff, -⟩ := @enum_member_follows_iff c hstands hplain 2 2 ⟨2, {}, .ident "E"⟩
    innerEnum ["A"] rfl hobject 1 {} "B"
  rcases hiff.mp hdecides with hmember | hnone
  · exact absurd hmember (by decide)
  · exact hnone 1 hsearched (by decide) ⟨outerEnum, ["A", "B"], houter, rfl, by decide⟩

/-- The member that the inner enum lacks is let through. -/
theorem hidden_enum_member_unnoticed :
    let c := hiddenEnum.check {}
    c.scopes.locate? 2 "E" = some (2, innerEnum) ∧ innerEnum.kind = .enum ["A"] ∧
      c.context.findings = [] :=
  ⟨by decide +kernel, rfl, by decide +kernel⟩

end Warden
