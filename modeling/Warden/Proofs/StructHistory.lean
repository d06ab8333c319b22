import Warden.Proofs.StructBuilding

/-!
# Structs are built once

A table of structs is changed by two kinds of calls: a definition is reserved, or it is finalized
with a draft that member calls have filled. Of the member calls for one draft the first of each name
succeeds, and the draft lists the fields and then the methods among them
(`StructDraft.members_filled`). Of the calls that finalize one definition the first after its
reservation succeeds, and nothing else touches it (`StructTable.get?_after`).
-/

namespace Warden

/-! ### Filling a draft -/

namespace StructMember

/-- Of calls that add a member, those that succeed: the first of each name. -/
def accepted (calls : List StructMember) : List StructMember :=
  calls.eraseDupsBy (·.name == ·.name)

/-- The fields and then the methods that have been added. -/
def listed (calls : List StructMember) : List StructMember :=
  (accepted calls).filter (!·.isMethod) ++ (accepted calls).filter (·.isMethod)

end StructMember

namespace StructDraft

/-- The draft after a call that adds the member, which fails if the name is taken. -/
def add (d : StructDraft) (m : StructMember) : StructDraft :=
  match m.kind with
  | .field => (d.addField? m.name m.ty m.isPublic).getD d
  | .method traits => (d.addMethod? m.name m.ty m.isPublic traits).getD d

/-- A new draft after calls that add members. -/
def filled (id : StructId) (calls : List StructMember) : StructDraft :=
  calls.foldl add { id }

/-- A draft with more members. -/
def extend (d : StructDraft) (new : List StructMember) : StructDraft :=
  { d with
    fields := d.fields ++ new.filter (!·.isMethod)
    methods := d.methods ++ new.filter (·.isMethod) }

variable {d : StructDraft} {m : StructMember}

theorem add_eq (d : StructDraft) (m : StructMember) :
    d.add m = if m.name ∈ d.names then d else d.extend [m] := by
  obtain ⟨name, ty, isPublic, kind⟩ := m
  by_cases hname : name ∈ d.names
  · cases kind <;> simp [add, addField?, addMethod?, contains_iff.mpr hname, hname]
  · have hnew : d.contains name = false := by rwa [← Bool.not_eq_true, contains_iff]
    cases kind <;> simp [add, addField?, addMethod?, hnew, hname, extend, StructMember.isMethod]

theorem mem_names_extend_singleton {name : String} :
    name ∈ (d.extend [m]).names ↔ name = m.name ∨ name ∈ d.names := by
  cases hm : m.isMethod <;> simp [names, members, extend, hm] <;> grind

theorem extend_extend (d : StructDraft) (xs ys : List StructMember) :
    (d.extend xs).extend ys = d.extend (xs ++ ys) := by
  simp [extend]

/-- What calls add to a draft: the first call of each name that is not taken. -/
theorem foldl_add (calls : List StructMember) (d : StructDraft) : calls.foldl add d =
    d.extend (StructMember.accepted (calls.filter (·.name ∉ d.names))) := by
  induction calls generalizing d with
  | nil => simp [StructMember.accepted, extend]
  | cons m calls ih =>
    rw [List.foldl_cons, ih, add_eq, List.filter_cons]
    by_cases hname : m.name ∈ d.names
    · simp [hname]
    · simp [hname, StructMember.accepted, List.eraseDupsBy_cons, extend_extend,
        mem_names_extend_singleton]

theorem id_filled (id : StructId) (calls : List StructMember) : (filled id calls).id = id := by
  simp [filled, foldl_add, extend]

/-- A draft is filled by the calls that succeed. -/
theorem Built.add (h : d.Built) (m : StructMember) : (d.add m).Built := by
  unfold StructDraft.add
  split
  · cases hadd : d.addField? m.name m.ty m.isPublic with
    | none => exact h
    | some d' => exact h.field hadd
  next traits _ =>
    cases hadd : d.addMethod? m.name m.ty m.isPublic traits with
    | none => exact h
    | some d' => exact h.method hadd

theorem built_filled (id : StructId) (calls : List StructMember) : (filled id calls).Built :=
  List.foldlRecOn calls StructDraft.add (.empty id) fun _ h m _ => h.add m

end StructDraft

/-! ### Calls on a table -/

/-- The definition after a call to finalize it with a draft that the member calls fill. Nothing
changes if it is finalized already. -/
def StructDef.finalizedWith (d : StructDef) (calls : List StructMember) : StructDef :=
  if d.isFinalized then d
  else { d with
    members := StructMember.listed calls
    isFinalized := true }

theorem StructDef.finalizedWith_finalizedWith (d : StructDef) (calls calls' : List StructMember) :
    (d.finalizedWith calls).finalizedWith calls' = d.finalizedWith calls := by
  cases h : d.isFinalized <;> simp [finalizedWith, h]

namespace StructTable

/-- A call on a table of structs. -/
inductive Call where
  | reserve (name module : String) (isPublic : Bool)
  /-- Finalizes the struct with a draft that the member calls fill. -/
  | finalize (id : StructId) (calls : List StructMember)

/-- The member calls for the draft, if the call finalizes the struct. -/
def Call.draft? (id : StructId) : Call → Option (List StructMember)
  | .reserve .. => none
  | .finalize i calls => if i = id then some calls else none

/-- The table after a call, which changes nothing if it fails. -/
def apply (t : StructTable) : Call → StructTable
  | .reserve name module isPublic => t.reserve name module isPublic
  | .finalize id calls => (t.finalize? (.filled id calls)).getD t

/-- The table after calls. -/
def after (t : StructTable) (calls : List Call) : StructTable :=
  calls.foldl apply t

variable {t u : StructTable} {id : StructId} {d : StructDef} {draft : StructDraft}

theorem finalize?_eq_none_iff : t.finalize? draft = none ↔
    ∀ d, t.get? draft.id = some d → d.isFinalized = true := by
  unfold finalize?
  cases hget : t.get? draft.id with
  | none => simp
  | some d => cases hfinal : d.isFinalized <;> simp [hfinal]

theorem Developed.apply (h : t.Developed) (call : Call) : (t.apply call).Developed := by
  cases call with
  | reserve name module isPublic => exact h.reserve name module isPublic
  | finalize id calls =>
    rw [StructTable.apply]
    cases hfinal : t.finalize? (.filled id calls) with
    | none => exact h
    | some u => exact .finalize (StructDraft.built_filled id calls) hfinal h

/-- A struct that is not finalized has no members. -/
theorem Developed.members_eq_nil (h : t.Developed) (hd : t.get? id = some d) :
    d.isFinalized = false → d.members = [] :=
  h.induct (Q := fun _ d => d.isFinalized = false → d.members = []) (fun _ _ _ _ _ => rfl)
    (fun _ _ hopen => Bool.noConfusion hopen) hd

theorem developed_after (calls : List Call) : (after {} calls).Developed :=
  List.foldlRecOn calls apply .empty fun _ h call _ => h.apply call

/-- A call changes a definition only if it finalizes it. -/
theorem get?_apply (hd : t.get? id = some d) (call : Call) :
    (t.apply call).get? id = some ((call.draft? id).elim d d.finalizedWith) := by
  cases call with
  | reserve name module isPublic => exact get?_reserve_of_eq_some hd name module isPublic
  | finalize i calls =>
    have hi := StructDraft.id_filled i calls
    rw [apply, Call.draft?]
    cases hfinal : t.finalize? (.filled i calls) with
    | none =>
      rw [finalize?_eq_none_iff, hi] at hfinal
      split
      next heq =>
        have hfinalized := hfinal d (heq ▸ hd)
        simp [hd, StructDef.finalizedWith, hfinalized]
      · exact hd
    | some u =>
      obtain ⟨old, hold, hget⟩ := get?_finalize? hfinal
      rw [hi] at hold hget
      rw [Option.getD_some, hget]
      split
      next heq =>
        subst heq
        cases hd.symm.trans hold
        have hopen := isFinalized_of_finalize? hfinal (hi.symm ▸ hd)
        simp [StructDef.finalizedWith, hopen, StructDraft.filled, StructDraft.foldl_add,
          StructDraft.extend, StructDraft.members, StructMember.listed, StructDraft.names]
      next hne => rw [if_neg (Ne.symm hne), hd]; rfl

/-- Only the first call to finalize a definition changes it. -/
theorem get?_after (hd : t.get? id = some d) (calls : List Call) : (t.after calls).get? id =
    some ((calls.findSome? (·.draft? id)).elim d d.finalizedWith) := by
  induction calls generalizing t d with
  | nil => exact hd
  | cons call calls ih =>
    rw [after, List.foldl_cons, ← after, ih (get?_apply hd call), List.findSome?_cons]
    cases call.draft? id with
    | none => rfl
    | some first =>
      cases calls.findSome? (·.draft? id) <;> simp [StructDef.finalizedWith_finalizedWith]

/-- **Structs are built once.** After any calls, a reservation appends a definition. A definition
stands at its identity, its members have distinct names, and a member is looked up by its name.
Whatever calls follow, it keeps its identity, name, module and visibility. A definition that is
finalized keeps its members, and one that is not has none until the first call to finalize it, which
gives it the members that its draft collected: the fields, then the methods, each name as it was
added first. A call to finalize fails exactly if the struct is unknown or finalized, and then it
changes nothing. -/
theorem structs_are_built_once (past future : List Call) :
    let t := after {} past
    (∀ name module isPublic, (t.apply (.reserve name module isPublic)).get? t.size =
      some { id := t.size, name, module, isPublic }) ∧
    (∀ id d, t.get? id = some d → d.id = id ∧ (d.members.map (·.name)).Nodup ∧
      (∀ name m, d.member? name = some m ↔ m ∈ d.members ∧ m.name = name) ∧
      (t.after future).get? id = some { d with
        members := if d.isFinalized then d.members
          else ((future.findSome? (·.draft? id)).map StructMember.listed).getD []
        isFinalized := d.isFinalized || (future.findSome? (·.draft? id)).isSome }) ∧
    ∀ id calls,
      (t.finalize? (.filled id calls) = none ↔
        ∀ d, t.get? id = some d → d.isFinalized = true) ∧
      (t.finalize? (.filled id calls) = none → t.apply (.finalize id calls) = t) := by
  intro t
  have ht : t.Developed := developed_after past
  refine ⟨fun name module isPublic => (t.get?_reserve ..).trans (if_pos rfl),
    fun id d hd => ⟨ht.id_eq hd, ht.nodup hd, fun _ _ => ht.member?_eq_some_iff hd, ?_⟩,
    fun id calls => ⟨?_, fun hnone => ?_⟩⟩
  · have hempty := ht.members_eq_nil hd
    rw [get?_after hd]
    obtain ⟨id', name, module, isPublic, members, _ | _⟩ := d <;>
      cases future.findSome? (·.draft? id) <;> simp_all [StructDef.finalizedWith]
  · rw [finalize?_eq_none_iff, StructDraft.id_filled]
  · rw [apply, hnone, Option.getD_none]

end StructTable

end Warden
