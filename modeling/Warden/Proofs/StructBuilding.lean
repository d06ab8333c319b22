import Mathlib.Data.List.Nodup
import Warden.Proofs.Faults.Reported

/-!
# How the table of structs is built

The table of structs grows by declarations only. A declaration reserves a definition, fills a draft
field by field and method by method, and installs it. `StructDraft.Built` and
`StructTable.Developed` describe the drafts and tables that come about in this way. In such a table
a definition stands at the position that is its identity, and no two of its members have the same
name, so that a member is determined by its name (`StructTable.Developed.member?_eq_some_iff`).

`Checker.Occurs` are the states of a check, in which the table is one of these. Whatever is checked
leads from them to states of the same kind.
-/

namespace Warden

open CheckM Check

/-! ### Drafts -/

namespace StructDraft

/-- The names of the collected members. -/
def names (draft : StructDraft) : List String :=
  draft.members.map (·.name)

/-- The draft has been filled member by member. -/
inductive Built : StructDraft → Prop where
  | empty (id : StructId) : Built { id }
  | field {draft draft' name ty isPublic} : Built draft →
      draft.addField? name ty isPublic = some draft' → Built draft'
  | method {draft draft' name ty isPublic traits} : Built draft →
      draft.addMethod? name ty isPublic traits = some draft' → Built draft'

variable {draft draft' : StructDraft} {name : String} {ty : Ty} {isPublic : Bool}

theorem contains_iff : draft.contains name = true ↔ name ∈ draft.names := by
  simp [contains, names]

theorem Adds.nodup {m : StructMember} (hadd : draft.Adds m draft') (h : draft.names.Nodup) :
    draft'.names.Nodup := by
  refine (hadd.members.map StructMember.name).nodup_iff.mpr
    (List.nodup_cons.mpr ⟨fun hmem => ?_, h⟩)
  exact Bool.false_ne_true (hadd.fresh.symm.trans (contains_iff.mpr hmem))

/-- A member is collected only under a name that is not taken. -/
theorem Built.nodup (h : draft.Built) : draft.names.Nodup := by
  induction h with
  | empty id => exact List.nodup_nil
  | field _ hadd ih => exact (Adds.ofField hadd).nodup ih
  | method _ hadd ih => exact (Adds.ofMethod hadd).nodup ih

end StructDraft

/-! ### Tables -/

namespace StructTable

/-- The table has been filled by declarations. -/
inductive Developed : StructTable → Prop where
  | empty : Developed {}
  | reserve {t} (name module : String) (isPublic : Bool) : Developed t →
      Developed (t.reserve name module isPublic)
  | finalize {t u draft} : draft.Built → t.finalize? draft = some u → Developed t → Developed u

namespace Developed

variable {t : StructTable} {id : StructId} {d : StructDef}

/-- What holds of each definition that is reserved, and of each that is finalized with a draft,
holds of all. -/
theorem induct {Q : StructId → StructDef → Prop}
    (hreserve : ∀ id name module isPublic, Q id { id, name, module, isPublic })
    (hfinalize : ∀ {id d} {draft : StructDraft}, draft.Built → Q id d →
      Q id { d with members := draft.members, isFinalized := true })
    (h : t.Developed) (hd : t.get? id = some d) : Q id d := by
  induction h generalizing id d with
  | empty => simp [get?] at hd
  | @reserve t name module isPublic _ ih =>
    rw [get?_reserve] at hd
    split at hd
    next heq =>
      cases hd
      exact heq ▸ hreserve ..
    · exact ih hd
  | finalize hbuilt hfinal _ ih =>
    obtain ⟨old, hold, hget⟩ := get?_finalize? hfinal
    rw [hget] at hd
    split at hd
    next heq =>
      cases hd
      exact heq ▸ hfinalize hbuilt (ih hold)
    · exact ih hd

theorem id_eq (h : t.Developed) (hd : t.get? id = some d) : d.id = id :=
  h.induct (Q := fun id d => d.id = id) (fun _ _ _ _ => rfl) (fun _ hid => hid) hd

theorem nodup (h : t.Developed) (hd : t.get? id = some d) : (d.members.map (·.name)).Nodup :=
  h.induct (Q := fun _ d => (d.members.map StructMember.name).Nodup)
    (fun _ _ _ _ => List.nodup_nil) (fun hbuilt _ => hbuilt.nodup) hd

/-- A member is determined by its name. -/
theorem member?_eq_some_iff (h : t.Developed) (hd : t.get? id = some d) {name : String}
    {m : StructMember} : d.member? name = some m ↔ m ∈ d.members ∧ m.name = name := by
  unfold StructDef.member?
  constructor
  · intro hfind
    exact ⟨List.mem_of_find?_eq_some hfind, by simpa using List.find?_some hfind⟩
  · rintro ⟨hm, rfl⟩
    have hsome : (d.members.find? (·.name == m.name)).isSome = true :=
      List.find?_isSome.mpr ⟨m, hm, by simp⟩
    obtain ⟨found, hfound⟩ := Option.isSome_iff_exists.mp hsome
    have hname : found.name = m.name := by simpa using List.find?_some hfound
    have hmem := List.mem_of_find?_eq_some hfound
    rw [hfound, List.inj_on_of_nodup_map (h.nodup hd) hmem hm hname]

end Developed

end StructTable

/-! ### States -/

namespace Checker

/-- The table of the state has been filled by declarations. -/
def StructsDeveloped (c : Checker) : Prop :=
  c.structs.Developed

namespace StructsDeveloped

variable {c : Checker} (h : c.StructsDeveloped)

include h

theorem observe {α : Type} {node : NodeId → Prop} {m : CheckM α} (hm : Observes node m) :
    (m.exec c).StructsDeveloped := by
  unfold StructsDeveloped
  rw [(hm.quiet c).structs]
  exact h

theorem setScopes (scopes : ScopeTree) : { c with scopes }.StructsDeveloped :=
  h

theorem finalizeStruct {draft : StructDraft} (hbuilt : draft.Built) :
    ((Check.finalizeStruct draft).exec c).StructsDeveloped := by
  unfold StructsDeveloped
  rw [Check.finalizeStruct, exec_modify]
  cases hfinal : c.structs.finalize? draft with
  | none => exact h
  | some structs => exact .finalize hbuilt hfinal h

/-- A declaration reserves a definition and, unless its name is taken, finalizes it with a draft
that has been filled member by member. -/
theorem structDecl (decl : StructDecl) (span : Span) (scope : ScopeId) :
    ((Check.structDecl decl span scope).exec c).StructsDeveloped := by
  have hreserved : ((reserveStruct decl.name decl.isPublic scope).exec c).StructsDeveloped :=
    .reserve decl.name (c.moduleAt scope) decl.isPublic h
  obtain ⟨_, scopes, -, -, hexec⟩ | ⟨cause, hexec⟩ := structDecl_cases decl span scope c
  · rw [hexec]
    have hnamed := hreserved.setScopes scopes
    refine ((hnamed.observe (rule_structFields scope _ decl.name _ _).observes).observe
      (rule_structMethods scope decl.name _ _).observes).finalizeStruct ?_
    exact keeps_structMethods decl.name scope (fun hadd h => .method h hadd) _ _
      (keeps_structFields decl.name scope (fun _ hadd h => .field h hadd) _ _ (.empty _))
  · rw [hexec]
    exact hreserved

end StructsDeveloped

/-- Only the declarations of structs touch the table. -/
theorem StructsDeveloped.stmtInvariant : StmtInvariant StructsDeveloped where
  report _ _ h := h
  record _ _ h := h
  memory {c f} hf h := by
    unfold StructsDeveloped
    rw [(hf.step c).structs]
    exact h
  setWalk _ h := h
  addBlock _ _ h := h
  addFunction _ _ h := h
  insert _ _ h := h
  struct decl span scope h := h.structDecl decl span scope

theorem StructsDeveloped.moduleInvariant : Resolver.ModuleInvariant StructsDeveloped where
  enter _ h := h
  report _ _ h := h
  addModule h _ := h
  addImport h _ := h
  check m scope _ h := stmtInvariant.module m (fun h => h) scope h

/-- The states that a check can come to, with a table that has been filled by declarations. -/
structure Occurs (c : Checker) : Prop where
  reachable : c.Reachable
  developed : c.StructsDeveloped

namespace Occurs

variable {c : Checker}

theorem start (config : Config) : (ofConfig config).Occurs :=
  ⟨.start config, .empty⟩

theorem resolve (h : c.Occurs) (p : Program) : (c.resolve p).checker.Occurs :=
  ⟨.resolve p h.reachable, resolve_invariant StructsDeveloped.moduleInvariant h.developed p⟩

theorem stmt (h : c.Occurs) (s : Stmt) (scope : ScopeId) : ((s.check scope).exec c).Occurs :=
  ⟨.stmt s scope h.reachable, StructsDeveloped.stmtInvariant.stmt s scope h.developed⟩

theorem expr (h : c.Occurs) (e : Expr) (scope : ScopeId) : ((e.check scope).exec c).Occurs :=
  ⟨.expr e scope h.reachable, h.developed.observe (rule_expr scope e).observes⟩

/-- Between its parts a check takes steps, in which the table is filled as in declarations. -/
theorem step {d : Checker} (h : c.Occurs) (hstep : Step c d) (hdeveloped : d.StructsDeveloped) :
    d.Occurs :=
  ⟨.step hstep h.reachable, hdeveloped⟩

theorem program (p : Program) (config : Config) : (p.check config).Occurs :=
  (start config).resolve p

end Occurs

end Checker

end Warden
