import Warden.Proofs.Arena
import Warden.Proofs.Lockstep.Types

/-!
# Trees of scopes that mirror each other

Two runs of a check number their scopes in different ways, as they do with structs. A `Matching`
says which positions of the one table stand for which positions of the other: some that were there
from the start, and from certain bounds on all of them in step.

Trees are alike (`ScopeTree.Alike`) if scopes that stand for each other have alike contents and
parents that stand for each other. Then the ways outwards are in step, so that everything that is
looked for from a scope comes to alike things. The lists of children do not matter.
-/

namespace Warden

/-! ### Positions that stand for each other -/

/-- Positions of one table that stand for positions of another one. -/
structure Matching where
  /-- Positions that were there from the start. -/
  old : Nat → Nat → Prop
  /-- From here on, the positions of the first table go in step with the second one. -/
  left : Nat
  right : Nat
  bound : ∀ {i j}, old i j → i < left ∧ j < right
  left_unique : ∀ {i i' j}, old i j → old i' j → i = i'
  right_unique : ∀ {i j j'}, old i j → old i j' → j = j'

namespace Matching

variable {m : Matching} {i i' j j' : Nat}

/-- The positions go in step from the bounds on. -/
def New (m : Matching) (i j : Nat) : Prop :=
  ∃ n, i = m.left + n ∧ j = m.right + n

def Rel (m : Matching) (i j : Nat) : Prop :=
  m.old i j ∨ m.New i j

theorem Rel.left_unique (h : m.Rel i j) (h' : m.Rel i' j) : i = i' := by
  rcases h with h | ⟨n, hi, hj⟩ <;> rcases h' with h' | ⟨n', hi', hj'⟩
  · exact m.left_unique h h'
  · have := (m.bound h).2
    omega
  · have := (m.bound h').2
    omega
  · omega

theorem Rel.right_unique (h : m.Rel i j) (h' : m.Rel i j') : j = j' := by
  rcases h with h | ⟨n, hi, hj⟩ <;> rcases h' with h' | ⟨n', hi', hj'⟩
  · exact m.right_unique h h'
  · have := (m.bound h).1
    omega
  · have := (m.bound h').1
    omega
  · omega

theorem Rel.eq_iff (h : m.Rel i j) (h' : m.Rel i' j') : i = i' ↔ j = j' :=
  ⟨fun heq => h.right_unique (heq ▸ h'), fun heq => h.left_unique (heq ▸ h')⟩

theorem New.succ (h : m.New i j) : m.New (i + 1) (j + 1) := by
  obtain ⟨n, hi, hj⟩ := h
  exact ⟨n + 1, by omega, by omega⟩

/-- Positions that stand for each other are on the same side of sizes in step. -/
theorem Rel.lt_iff (h : m.Rel i j) {n n' : Nat} (hsize : m.New n n') : i < n ↔ j < n' := by
  obtain ⟨k, hn, hn'⟩ := hsize
  rcases h with h | ⟨l, hi, hj⟩
  · have := m.bound h
    omega
  · omega

theorem Rel.eq_size_iff (h : m.Rel i j) {n n' : Nat} (hsize : m.New n n') : i = n ↔ j = n' :=
  h.eq_iff (.inr hsize)

/-- The structs that stand for each other in two runs, which are about certain expressions. -/
def pairing (m : Matching) (node : NodeId → Prop) : Pairing where
  struct := m.Rel
  declared := m.New
  node := node
  left_unique := Rel.left_unique
  right_unique := Rel.right_unique
  struct_of_declared := .inr

end Matching

/-! ### Alike scopes -/

/-- The imports are of modules whose scopes stand for each other. -/
structure Import.Alike (ms : Matching) (a b : Import) : Prop where
  scope : ms.Rel a.scope b.scope
  rest : b = { a with scope := b.scope }

/-- The scopes have alike contents; their children do not matter. -/
structure Scope.Alike (ms : Matching) (k : Pairing) (s s' : Scope) : Prop where
  parent : Option.Rel ms.Rel s.parent s'.parent
  depth : s.depth = s'.depth
  owner : s.owner = s'.owner
  symbols : List.Forall₂ (Symbol.Alike k) s.symbols s'.symbols
  imports : List.Forall₂ (Import.Alike ms) s.imports s'.imports
  deferred : s.deferred = s'.deferred
  ledger : s.ledger = s'.ledger

namespace Scope.Alike

variable {ms : Matching} {k : Pairing} {s s' : Scope} (h : s.Alike ms k s')

include h

theorem symbol? (name : String) : Option.Rel (Symbol.Alike k) (s.symbol? name) (s'.symbol? name) :=
  rel_find? (fun _ _ hab => by rw [hab.name]) h.symbols

theorem isModule : s.isModule = s'.isModule := by
  rw [Scope.isModule, Scope.isModule, h.owner]

end Scope.Alike

theorem rel_findSome? {α β γ δ : Type} {r : α → β → Prop} {q : γ → δ → Prop} {as : List α}
    {bs : List β} (h : List.Forall₂ r as bs) {f : α → Option γ} {g : β → Option δ}
    (hfg : ∀ a b, r a b → Option.Rel q (f a) (g b)) :
    Option.Rel q (as.findSome? f) (bs.findSome? g) := by
  induction h with
  | nil => exact .none
  | cons hab _ ih =>
    rw [List.findSome?_cons, List.findSome?_cons]
    rcases (hfg _ _ hab).inv with ⟨ha, hb⟩ | ⟨c, d, ha, hb, hcd⟩
    · rw [ha, hb]
      exact ih
    · rw [ha, hb]
      exact .some hcd

/-- Scopes that stand for each other are alike. -/
structure ScopeTree.Alike (ms : Matching) (k : Pairing) (t u : ScopeTree) : Prop where
  arena : t.Arena
  arena' : u.Arena
  size : ms.New t.size u.size
  scope : ∀ {i j}, ms.Rel i j → (t.scope i).Alike ms k (u.scope j)

namespace ScopeTree.Alike

variable {ms : Matching} {k : Pairing} {t u : ScopeTree} {i j : ScopeId} (h : t.Alike ms k u)
  (hij : ms.Rel i j)

include h hij

/-! ### Looking for things -/

theorem ancestors : List.Forall₂ ms.Rel (t.ancestors i) (u.ancestors j) := by
  induction i using Nat.strongRecOn generalizing j with
  | ind i ih =>
    rw [h.arena.ancestors_eq, h.arena'.ancestors_eq]
    refine .cons hij ?_
    rcases (h.scope hij).parent.inv with ⟨hp, hq⟩ | ⟨p, q, hp, hq, hpq⟩
    · rw [hp, hq]
      exact .nil
    · rw [hp, hq]
      exact ih p (h.arena i p hp) hpq

theorem locate? (name : String) :
    Option.Rel (fun a b => ms.Rel a.1 b.1 ∧ a.2.Alike k b.2) (t.locate? i name)
      (u.locate? j name) :=
  rel_findSome? (h.ancestors hij) fun _ _ hab =>
    ((h.scope hab).symbol? name).map fun _ _ hs => ⟨hab, hs⟩

theorem lookup? (name : String) :
    Option.Rel (Symbol.Alike k) (t.lookup? i name) (u.lookup? j name) :=
  (h.locate? hij name).map fun _ _ hab => hab.2

theorem owningModule? : t.owningModule? i = u.owningModule? j := by
  refine (rel_findSome? (q := Eq) (h.ancestors hij) fun a b hab => ?_).eq fun _ _ hab => hab
  rw [(h.scope hab).owner]
  exact .refl (fun _ => rfl) _

theorem findImport? (name : String) :
    Option.Rel (Import.Alike ms) (t.findImport? i name) (u.findImport? j name) :=
  rel_findSome? (h.ancestors hij) fun _ _ hab =>
    rel_find? (fun _ _ hab => by rw [hab.rest]) (h.scope hab).imports

theorem visible? (name requester : String) :
    Option.Rel (Symbol.Alike k) (t.visible? i name requester) (u.visible? j name requester) := by
  rw [ScopeTree.visible?, ScopeTree.visible?, h.owningModule? hij]
  rcases ((h.scope hij).symbol? name).inv with ⟨hs, hs'⟩ | ⟨s, s', hs, hs', hss⟩
  · rw [hs, hs']
    exact .none
  · rw [hs, hs']
    dsimp only
    rw [hss.isPublic]
    split
    · exact .some hss
    · exact .none

theorem qualifiedLookup (module name : String) :
    (t.qualifiedLookup i module name).Alike k (u.qualifiedLookup j module name) := by
  rw [ScopeTree.qualifiedLookup, ScopeTree.qualifiedLookup, h.owningModule? hij]
  rcases (h.findImport? hij module).inv with ⟨hm, hm'⟩ | ⟨m, m', hm, hm', hmm⟩
  · rw [hm, hm']
    exact .unknownModule
  · rw [hm, hm']
    dsimp only
    rcases (h.visible? hmm.scope name ((u.owningModule? j).getD "")).inv with
      ⟨hs, hs'⟩ | ⟨s, s', hs, hs', hss⟩
    · rw [hs, hs']
      dsimp only
      rcases ((h.scope hmm.scope).symbol? name).inv with ⟨hs, hs'⟩ | ⟨s, s', hs, hs', hss⟩
      · rw [hs, hs']
        exact .notFound
      · rw [hs, hs']
        exact .hidden hss
    · rw [hs, hs']
      exact .found hss

theorem enumMembers? (name : String) : t.enumMembers? i name = u.enumMembers? j name := by
  have hmembers : ∀ a b : Symbol, a.Alike k b →
      Option.Rel Eq a.enumMembers? b.enumMembers? := by
    intro a b hab
    rw [hab.enumMembers?]
    exact .refl (fun _ => rfl) _
  have himports : Option.Rel Eq
      ((t.ancestors i).findSome? fun i => (t.scope i).imports.findSome? fun m =>
        ((t.scope m.scope).symbol? name).bind (·.enumMembers?))
      ((u.ancestors j).findSome? fun j => (u.scope j).imports.findSome? fun m =>
        ((u.scope m.scope).symbol? name).bind (·.enumMembers?)) := by
    refine rel_findSome? (h.ancestors hij) fun a b hab => ?_
    refine rel_findSome? (h.scope hab).imports fun m m' hmm => ?_
    exact ((h.scope hmm.scope).symbol? name).bind hmembers
  exact (((h.lookup? hij name).bind hmembers).or himports).eq fun _ _ hab => hab

/-! ### Ledgers -/

theorem ledgerKnows (name : String) : t.ledgerKnows name i = u.ledgerKnows name j := by
  rw [ScopeTree.ledgerKnows, ScopeTree.ledgerKnows, (h.scope hij).ledger]

theorem ledgerTracksRenamed (name : String) :
    t.ledgerTracksRenamed name i = u.ledgerTracksRenamed name j := by
  rw [ScopeTree.ledgerTracksRenamed, ScopeTree.ledgerTracksRenamed, (h.scope hij).ledger]

theorem ledgerOwner? : Option.Rel ms.Rel (t.ledgerOwner? i) (u.ledgerOwner? j) :=
  rel_find? (fun a b hab => by rw [(h.scope hab).ledger]) (h.ancestors hij)

omit hij in
theorem route (name : String) {home home' : Option ScopeId}
    (hhome : Option.Rel ms.Rel home home') {way way' : List ScopeId}
    (hway : List.Forall₂ ms.Rel way way') :
    ∀ within, Option.Rel ms.Rel (t.route name home within way)
      (u.route name home' within way') := by
  induction hway with
  | nil => exact fun _ => .none
  | @cons a b way way' hab _ ih =>
    intro within
    have hpassed : (some a != home) = (some b != home') := by
      cases hhome with
      | none => rfl
      | some hcd => simp [bne, hab.eq_iff hcd]
    rw [ScopeTree.route, ScopeTree.route, h.ledgerKnows hab, h.ledgerTracksRenamed hab, hpassed]
    by_cases hfound : (if within then u.ledgerKnows name b else u.ledgerTracksRenamed name b) = true
    · rw [if_pos hfound, if_pos hfound]
      exact .some hab
    · rw [if_neg hfound, if_neg hfound]
      exact ih _

/-- The ledgers that answer for a name are in scopes that stand for each other. -/
theorem ledgerFor? (name : String) :
    Option.Rel ms.Rel (t.ledgerFor? i name) (u.ledgerFor? j name) := by
  rw [ScopeTree.ledgerFor?, ScopeTree.ledgerFor?]
  rcases (h.locate? hij name).inv with ⟨hd, hd'⟩ | ⟨⟨d, s⟩, ⟨d', s'⟩, hd, hd', hdd, -⟩
  · rw [hd, hd']
    refine .or (rel_find? (fun a b hab => ?_) (h.ancestors hij)) (h.ledgerOwner? hij)
    exact h.ledgerKnows hab name
  · rw [hd, hd']
    have hhome := h.ledgerOwner? hdd
    exact ((h.route name hhome (h.ancestors hij) true).or hhome).or (h.ledgerOwner? hij)

/-! ### Changes on both sides -/

/-- Scopes that stand for each other are changed in alike ways. -/
theorem modify {f g : Scope → Scope} (hf : ∀ s, (f s).parent = s.parent)
    (hg : ∀ s, (g s).parent = s.parent) (hfg : (f (t.scope i)).Alike ms k (g (u.scope j))) :
    (t.modify i f).Alike ms k (u.modify j g) where
  arena := h.arena.modify i hf
  arena' := h.arena'.modify j hg
  size := by
    rw [size_modify, size_modify]
    exact h.size
  scope {a b} hab := by
    rw [scope_modify, scope_modify]
    have hiff : (a = i ∧ a < t.size) ↔ (b = j ∧ b < u.size) :=
      and_congr (hab.eq_iff hij) (hab.lt_iff h.size)
    by_cases ha : a = i ∧ a < t.size
    · rw [if_pos ha, if_pos (hiff.mp ha), ha.1, (hiff.mp ha).1]
      exact hfg
    · rw [if_neg ha, if_neg (mt hiff.mpr ha)]
      exact h.scope hab

theorem updateLedger (f : Ledger → Ledger) :
    (t.updateLedger i f).Alike ms k (u.updateLedger j f) := by
  have hscope := h.scope hij
  refine h.modify hij (fun _ => rfl) (fun _ => rfl) { hscope with ledger := ?_ }
  exact congrArg (Option.map f) hscope.ledger

theorem deferFree (name : String) (span : Span) :
    (t.deferFree i name span).Alike ms k (u.deferFree j name span) := by
  have hscope := h.scope hij
  refine h.modify hij (fun _ => rfl) (fun _ => rfl) { hscope with deferred := ?_ }
  exact congrArg (· ++ [{ name, span }]) hscope.deferred

theorem clearDeferred : (t.clearDeferred i).Alike ms k (u.clearDeferred j) :=
  h.modify hij (fun _ => rfl) (fun _ => rfl) { h.scope hij with deferred := rfl }

theorem insert? {symbol symbol' : Symbol} (hsymbol : symbol.Alike k symbol') {t' u' : ScopeTree}
    (ht : t.insert? i symbol = some t') (hu : u.insert? j symbol' = some u') :
    t'.Alike ms k u' := by
  have hscope := h.scope hij
  obtain ⟨-, rfl⟩ := ScopeTree.eq_of_insert? ht
  obtain ⟨-, rfl⟩ := ScopeTree.eq_of_insert? hu
  refine h.modify hij (fun _ => rfl) (fun _ => rfl) { hscope with symbols := ?_ }
  refine List.rel_append hscope.symbols (.cons ⟨hsymbol.ty, ?_⟩ .nil)
  rw [hsymbol.rest, hscope.depth]

/-- New scopes inside scopes that stand for each other stand for each other. -/
theorem addScope (hi : i < t.size) (name : String) (owner : ScopeOwner) (ledger : Option Ledger) :
    (t.addScope i name owner ledger).Alike ms k (u.addScope j name owner ledger) where
  arena := h.arena.addScope name owner ledger hi
  arena' := h.arena'.addScope name owner ledger ((hij.lt_iff h.size).mp hi)
  size := by
    rw [size_addScope, size_addScope]
    exact h.size.succ
  scope {a b} hab := by
    rw [scope_addScope, scope_addScope]
    have hiff := hab.eq_size_iff h.size
    by_cases ha : a = t.size
    · rw [if_pos ha, if_pos (hiff.mp ha)]
      exact ⟨.some hij, congrArg (· + 1) (h.scope hij).depth, rfl, .nil, .nil, rfl, rfl⟩
    · rw [if_neg ha, if_neg (mt hiff.mpr ha)]
      have hchildren := h.modify hij
        (f := fun s => { s with children := s.children ++ [t.size] })
        (g := fun s => { s with children := s.children ++ [u.size] })
        (fun _ => rfl) (fun _ => rfl) { h.scope hij with }
      exact hchildren.scope hab

end ScopeTree.Alike

end Warden
