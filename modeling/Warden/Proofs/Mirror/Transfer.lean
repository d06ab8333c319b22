import Warden.Proofs.Mirror.State

/-!
# From one pairing to another

Alike types are alike under every pairing that agrees on the structs that they mention, and so are
symbols, definitions of structs and scopes. All types in a state mention structs of its table only,
so it is enough that the pairings agree on these.
-/

namespace Warden

variable {mt ms : Matching}

theorem forall₂_of_mem {α β : Type} {r r' : α → β → Prop} {as : List α} {bs : List β}
    (h : List.Forall₂ r as bs) (himp : ∀ a ∈ as, ∀ b, r a b → r' a b) : List.Forall₂ r' as bs := by
  refine List.forall₂_iff_zip.mpr ⟨h.length_eq, fun {a b} hmem => ?_⟩
  exact himp a (List.of_mem_zip hmem).1 b ((List.forall₂_iff_zip.mp h).2 hmem)

theorem StructTable.lt_size {t : StructTable} {id : StructId} {d : StructDef}
    (h : t.get? id = some d) : id < t.size :=
  (Array.getElem?_eq_some_iff.mp h).1

/-- The structs of a table that stand for others in the one pairing do so in the other one. -/
def Pairing.CarriesTo (k k' : Pairing) (t : StructTable) : Prop :=
  ∀ i j, i < t.size → k.struct i j → k'.struct i j

section

variable {k k' : Pairing} {t : StructTable} (hk : k.CarriesTo k' t)

include hk

theorem Ty.Alike.transfer {a b : Ty} (h : a.Alike k b) (ha : a.KnownIn t) : a.Alike k' b := by
  induction h with
  | basic name => exact .basic name
  | pointer _ ih =>
    cases ha with
    | pointer ha => exact .pointer (ih ha)
  | array size _ ih =>
    cases ha with
    | array _ ha => exact .array size (ih ha)
  | struct name hij =>
    cases ha with
    | struct hd => exact .struct _ (hk _ _ (StructTable.lt_size hd) hij)
  | function hlength _ _ ihs ih =>
    cases ha with
    | function hparams hret =>
      refine .function hlength (fun pair hpair => ihs pair hpair ?_) (ih hret)
      exact hparams _ (List.of_mem_zip hpair).1

theorem Symbol.Alike.transfer {a b : Symbol} (h : a.Alike k b) (ha : a.WellTyped t) :
    a.Alike k' b :=
  ⟨h.ty.transfer hk ha.known, h.rest⟩

theorem StructMember.Alike.transfer {a b : StructMember} (h : a.Alike k b) (ha : a.WellTyped t) :
    a.Alike k' b :=
  ⟨h.ty.transfer hk ha.known, h.rest⟩

theorem StructDef.Alike.transfer {a b : StructDef} (h : a.Alike k b) (hid : a.id < t.size)
    (ha : ∀ m ∈ a.members, m.WellTyped t) : a.Alike k' b := by
  refine ⟨hk _ _ hid h.id, forall₂_of_mem h.members fun m hm m' hmm => ?_, h.rest⟩
  exact hmm.transfer hk (ha m hm)

/-- The scopes are alike under other matchings, if these agree on its parent and imports. -/
theorem Scope.Alike.transfer {ms' : Matching} {s s' : Scope} (h : s.Alike ms k s')
    (hsymbols : ∀ x ∈ s.symbols, x.WellTyped t)
    (hparent : ∀ p ∈ s.parent, ∀ q, ms.Rel p q → ms'.Rel p q)
    (himports : ∀ m ∈ s.imports, ∀ j, ms.Rel m.scope j → ms'.Rel m.scope j) :
    s.Alike ms' k' s' where
  __ := h
  parent := by
    rcases h.parent.inv with ⟨hp, hq⟩ | ⟨p, q, hp, hq, hpq⟩
    · rw [hp, hq]
      exact .none
    · rw [hp, hq]
      exact .some (hparent p hp q hpq)
  symbols := forall₂_of_mem h.symbols fun x hx _ hxx => hxx.transfer hk (hsymbols x hx)
  imports := forall₂_of_mem h.imports fun m hm _ hmm => ⟨himports m hm _ hmm.scope, hmm.rest⟩

end

/-! ### What stands for itself -/

section

variable {c : Checker}

/-- What is known in a state stands for itself, under a matching that keeps the state's structs. -/
theorem carriesTo_pairing (h : ∀ i < c.structs.size, mt.Rel i i) (node : NodeId → Prop) :
    (Pairing.same (fun _ => True) fun _ => True).CarriesTo (mt.pairing node) c.structs :=
  fun i _ hi hij => hij ▸ h i hi

theorem Ty.alike_self (h : ∀ i < c.structs.size, mt.Rel i i) (node : NodeId → Prop) {ty : Ty}
    (hty : ty.KnownIn c.structs) : ty.Alike (mt.pairing node) ty :=
  (Pairing.same_ty _ _ ty).transfer (carriesTo_pairing h node) hty

/-- A scope stands for itself, if its parent and the modules that it imports do. -/
theorem Scope.alike_self (hmt : ∀ i < c.structs.size, mt.Rel i i) (node : NodeId → Prop) {s : Scope}
    (hsymbols : ∀ x ∈ s.symbols, x.WellTyped c.structs) (hparent : ∀ p ∈ s.parent, ms.Rel p p)
    (himports : ∀ m ∈ s.imports, ms.Rel m.scope m.scope) : s.Alike ms (mt.pairing node) s where
  parent := by
    cases hp : s.parent with
    | none => exact .none
    | some p => exact .some (hparent p hp)
  depth := rfl
  owner := rfl
  symbols := List.forall₂_same.mpr fun x hx =>
    (Pairing.same_symbol _ _ x).transfer (carriesTo_pairing hmt node) (hsymbols x hx)
  imports := List.forall₂_same.mpr fun m hm => ⟨himports m hm, rfl⟩
  deferred := rfl
  ledger := rfl

end

end Warden
