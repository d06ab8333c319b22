import Warden.Proofs.Moves

/-!
# Structs that contain structs

A struct contains another one by value if it has a data field of that type, or an array of such
values that is sure to have an element (`StructTable.Contains`). When its members are installed a
struct is the latest one, and all types in them are known, so that it contains older structs or
itself (`Checker.Layered`). A field of its own type is refused. An array of its own type is not, and
this is the only way in which a struct can come to contain itself: `contains_cycle_iff` says of all
programs that a chain of containments leads from a struct back to it exactly if the struct has a
field that is an array of itself.
-/

namespace Warden

open CheckM Check

variable {id id' : StructId} {c : Checker} {t : StructTable}

/-- The struct that every value of a type holds: the type itself, or what is in the elements of an
array with a stated length of at least one. -/
def Ty.held? : Ty → Option StructId
  | .struct id _ => some id
  | .array element (some (.literal n)) => if 1 ≤ n then element.held? else none
  | _ => none

theorem Ty.exists_array_of_held? {element : Ty} {size : Option ArraySize}
    (h : (Ty.array element size).held? = some id) : ∃ element' n,
      Ty.array element size = .array element' (some (.literal n)) ∧ 1 ≤ n ∧
        element'.held? = some id := by
  cases size with
  | none => cases h
  | some size =>
    cases size with
    | symbolic name => cases h
    | literal n =>
      simp only [held?] at h
      split at h
      next hn => exact ⟨element, n, rfl, hn, h⟩
      · cases h

theorem Ty.KnownIn.held?_lt {ty : Ty} (h : ty.KnownIn t) (hid : ty.held? = some id) :
    id < t.size := by
  induction h with
  | struct hd =>
    cases hid
    exact (Array.getElem?_eq_some_iff.mp hd).1
  | array size _ ih =>
    obtain ⟨element, n, hty, -, helement⟩ := Ty.exists_array_of_held? hid
    cases hty
    exact ih helement
  | _ => cases hid

namespace StructTable

/-- A finalized struct contains a struct by value: it has a data field that holds one. -/
def Contains (t : StructTable) (id id' : StructId) : Prop :=
  ∃ d, t.get? id = some d ∧ d.isFinalized = true ∧ ∃ f ∈ d.fields, f.ty.held? = some id'

instance (t : StructTable) (id id' : StructId) : Decidable (t.Contains id id') :=
  decidable_of_iff ((t.get? id).any fun d => d.isFinalized && d.fields.any (·.ty.held? == some id'))
    (by simp [Contains, Option.any_eq_true])

/-- A finalized struct has a data field that is an array of the struct itself, at any depth. -/
def HoldsArrayOfItself (t : StructTable) (id : StructId) : Prop :=
  ∃ d, t.get? id = some d ∧ d.isFinalized = true ∧ ∃ f ∈ d.fields, ∃ element n,
    f.ty = .array element (some (.literal n)) ∧ 1 ≤ n ∧ element.held? = some id

theorem HoldsArrayOfItself.contains (h : t.HoldsArrayOfItself id) : t.Contains id id := by
  obtain ⟨d, hd, hfinal, f, hf, element, n, hty, hn, helement⟩ := h
  exact ⟨d, hd, hfinal, f, hf, by rw [hty, Ty.held?, if_pos hn, helement]⟩

end StructTable

namespace Checker

/-- What a member of a struct holds is no younger than the struct, and no data field has the type of
the struct. -/
def Layered (c : Checker) : Prop :=
  ∀ id d, c.structs.get? id = some d → ∀ m ∈ d.members,
    (∀ id', m.ty.held? = some id' → id' ≤ id) ∧ (m.isMethod = false → m.ty ≠ d.ty)

theorem Layered.ofConfig (config : Config) : (Checker.ofConfig config).Layered := by
  intro id d hd
  simp [StructTable.get?, Checker.ofConfig] at hd

/-- A struct that is reserved has no members. -/
theorem Layered.reserve (h : c.Layered) (name module : String) (isPublic : Bool) :
    Layered { c with structs := c.structs.reserve name module isPublic } := by
  intro id d hd
  rw [StructTable.get?_reserve] at hd
  split at hd
  · cases hd
    exact List.forall_mem_nil _
  · exact h id d hd

/-- The struct whose members are installed is the latest one. -/
theorem Layered.finalize (h : c.Layered) {draft : StructDraft} (hdraft : draft.Completes c.structs)
    {structs : StructTable} (hstructs : c.structs.finalize? draft = some structs) :
    Layered { c with structs } := by
  obtain ⟨shell, hshell, hget⟩ := StructTable.get?_finalize? hstructs
  intro id d hd m hm
  rw [hget] at hd
  split at hd
  next hid =>
    subst hid
    cases hd
    refine ⟨fun id' hid' => ?_, hdraft.fields shell hshell m hm⟩
    have hlt := (hdraft.wellTyped m hm).known.held?_lt hid'
    rw [hdraft.latest] at hlt
    exact Nat.le_of_lt_succ hlt
  · exact h id d hd m hm

/-- The declaration of an enum adds no struct. -/
theorem structs_enumDecl (decl : EnumDecl) (span : Span) (scope : ScopeId) (c : Checker) :
    ((enumDecl decl span scope).exec c).structs = c.structs := by
  have hmembers : ∀ (members : List String) (c : Checker),
      ((declareEnumMembers decl span scope members).exec c).structs = c.structs := by
    intro members
    induction members with
    | nil => exact fun _ => rfl
    | cons member members ih => exact fun c => ih _
  rw [enumDecl, exec_bind]
  have hquiet := (reports_enumMembers scope decl.name span [] decl.members).observes.quiet c
  rw [exec_bind, ← hquiet.structs]
  generalize (enumMembers decl.name span [] decl.members).exec c = d
  obtain ⟨scopes, -, heval, hexec⟩ | ⟨cause, heval, hexec⟩ := declare_cases scope _ span d
  · rw [heval, hexec]
    exact hmembers _ _
  · rw [heval, hexec]
    rfl

theorem Layered.move {d : Checker} (h : c.Layered) (hmove : Move c d) : d.Layered := by
  have hsame : ∀ {d : Checker}, d.structs = c.structs → d.Layered := by
    intro d hstructs
    unfold Layered
    rwa [hstructs]
  cases hmove with
  | observe hm _ => exact hsame (hm.quiet c).structs
  | memory hf => exact hsame (hf.step c).structs
  | enum decl span scope => exact hsame (structs_enumDecl decl span scope c)
  | reserve name module isPublic => exact h.reserve name module isPublic
  | finalize hdraft hstructs => exact h.finalize hdraft hstructs
  | _ => exact hsame rfl

theorem Stands.layered (h : c.Stands) : c.Layered :=
  h.keeps Layered.ofConfig fun _ hlayered hmove => hlayered.move hmove

end Checker

/-- A struct contains older structs, or itself by way of an array. -/
theorem Checker.Stands.contains (h : c.Stands) (hcontains : c.structs.Contains id id') :
    id' < id ∨ id' = id ∧ c.structs.HoldsArrayOfItself id := by
  obtain ⟨d, hd, hfinal, f, hf, hheld⟩ := hcontains
  obtain ⟨hmem, hfield⟩ := List.mem_filter.mp hf
  obtain ⟨hle, hne⟩ := h.layered id d hd f hmem
  rcases Nat.lt_or_eq_of_le (hle id' hheld) with hlt | rfl
  · exact .inl hlt
  · -- the field is not of the struct's own type, so it is an array
    refine .inr ⟨rfl, d, hd, hfinal, f, hf, ?_⟩
    have hknown := (h.wellTyped.members id' d hd f hmem).known
    cases hty : f.ty with
    | array element size => exact Ty.exists_array_of_held? (hty ▸ hheld)
    | struct own name =>
      rw [hty] at hheld hknown
      cases hheld
      cases hknown with
      | struct hd' =>
        rw [hd, Option.some.injEq] at hd'
        subst hd'
        refine absurd ?_ (hne (by simpa using hfield))
        rw [hty, StructDef.ty, h.wellTyped.ids id' d hd]
    | _ =>
      rw [hty] at hheld
      cases hheld

/-- A chain of containments leads to older structs, or has not left the struct. -/
theorem Checker.Stands.contains_chain (h : c.Stands)
    (hchain : Relation.TransGen c.structs.Contains id id') :
    id' < id ∨ id' = id ∧ c.structs.HoldsArrayOfItself id := by
  induction hchain with
  | single hcontains => exact h.contains hcontains
  | tail _ hcontains ih =>
    rcases h.contains hcontains with hlt | ⟨rfl, hself⟩
    · rcases ih with hlt' | ⟨rfl, -⟩
      · exact .inl (Nat.lt_trans hlt hlt')
      · exact .inl hlt
    · exact ih

/-- **The only cycles of containment are arrays of the struct itself.** In the struct table that a
program leaves behind, a chain of containments by value leads from a struct back to it exactly if
the struct has a data field that is an array of itself. All other containments lead to structs that
were declared before. -/
theorem contains_cycle_iff (p : Program) (config : Config) (id : StructId) :
    let t := (p.check config).structs
    (Relation.TransGen t.Contains id id ↔ t.HoldsArrayOfItself id) ∧
      ∀ id', t.Contains id id' → ¬t.HoldsArrayOfItself id → id' < id := by
  have hstands := Checker.Stands.program p config
  refine ⟨⟨fun hcycle => ?_, fun hself => .single hself.contains⟩, fun id' hcontains hnone => ?_⟩
  · exact ((hstands.contains_chain hcycle).resolve_left (Nat.lt_irrefl id)).2
  · exact (hstands.contains hcontains).resolve_right fun hself => hnone hself.2

/-- A module with a struct `S` that has a field of the given type. -/
def oneField (ty : TypeExpr) : Program :=
  { modules := [{
      name := "main"
      body := [⟨{}, .struct ⟨"S", false, [{ name := "f", ty }], []⟩⟩] }] }

/-- A field of the struct's own type is refused. An array of one struct is not, and the struct
contains itself. -/
theorem array_of_itself_unnoticed :
    let self : TypeExpr := .named {} none "S"
    let array : TypeExpr := .array {} self (some ⟨1, {}, .int 1⟩)
    ((oneField self).check {}).context.findings.map (·.cause) = [.containsItself "S"] ∧
      ((oneField array).check {}).context.findings = [] ∧
      Relation.TransGen ((oneField array).check {}).structs.Contains 0 0 :=
  ⟨by decide +kernel, by decide +kernel, .single (by decide +kernel)⟩

end Warden
