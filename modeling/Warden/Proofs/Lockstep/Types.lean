import Mathlib.Data.List.Forall2
import Warden.Proofs.Causes

/-!
# Types of two runs

Two runs of a check number their structs in different ways. A `Pairing` says which struct of the one
run is which struct of the other, and types are *alike* if they are the same up to that
(`Ty.Alike`). The rules of the check cannot tell alike types apart: each question about types gets
the same answer (`Ty.Alike.assignable`, `Ty.Alike.verdict` and their neighbours), and alike types
are written alike in diagnostics (`Ty.Alike.render`), so that alike causes read the same
(`Cause.Alike.draft`).
-/

namespace Option.Rel

variable {α β γ δ : Type} {r : α → β → Prop} {x : Option α} {y : Option β}

theorem inv (h : Option.Rel r x y) : x = Option.none ∧ y = Option.none ∨
      ∃ a b, x = Option.some a ∧ y = Option.some b ∧ r a b := by
  cases h with
  | none => exact .inl ⟨rfl, rfl⟩
  | some h => exact .inr ⟨_, _, rfl, rfl, h⟩

theorem isSome_eq (h : Option.Rel r x y) : x.isSome = y.isSome := by
  cases h <;> rfl

theorem refl {r : α → α → Prop} (h : ∀ a, r a a) (x : Option α) : Option.Rel r x x := by
  cases x with
  | none => exact .none
  | some a => exact .some (h a)

theorem eq {r : α → α → Prop} {x y : Option α} (h : Option.Rel r x y)
    (heq : ∀ a b, r a b → a = b) : x = y := by
  cases h with
  | none => rfl
  | some h => exact congrArg Option.some (heq _ _ h)

theorem any_eq (h : Option.Rel r x y) {p : α → Bool} {q : β → Bool}
    (hpq : ∀ a b, r a b → p a = q b) : x.any p = y.any q := by
  cases h with
  | some h => exact hpq _ _ h
  | none => rfl

theorem map_eq (h : Option.Rel r x y) {f : α → γ} {g : β → γ}
    (hfg : ∀ a b, r a b → f a = g b) : x.map f = y.map g := by
  cases h with
  | some h => exact congrArg Option.some (hfg _ _ h)
  | none => rfl

theorem filter (h : Option.Rel r x y) {p : α → Bool} {q : β → Bool}
    (hpq : ∀ a b, r a b → p a = q b) : Option.Rel r (x.filter p) (y.filter q) := by
  cases h with
  | some h =>
    rw [Option.filter_some, Option.filter_some, hpq _ _ h]
    split
    · exact .some h
    · exact .none
  | none => exact .none

theorem or {x' : Option α} {y' : Option β} (h : Option.Rel r x y) (h' : Option.Rel r x' y') :
    Option.Rel r (x.or x') (y.or y') := by
  cases h with
  | some h => exact .some h
  | none => exact h'

theorem bind {r' : γ → δ → Prop} (h : Option.Rel r x y) {f : α → Option γ} {g : β → Option δ}
    (hfg : ∀ a b, r a b → Option.Rel r' (f a) (g b)) : Option.Rel r' (x.bind f) (y.bind g) := by
  cases h with
  | some h => exact hfg _ _ h
  | none => exact .none

theorem map {r' : γ → δ → Prop} (h : Option.Rel r x y) {f : α → γ} {g : β → δ}
    (hfg : ∀ a b, r a b → r' (f a) (g b)) : Option.Rel r' (x.map f) (y.map g) := by
  cases h with
  | some h => exact .some (hfg _ _ h)
  | none => exact .none

end Option.Rel

namespace Warden

/-- What two runs have in common. -/
structure Pairing where
  /-- A struct of the one run is a struct of the other. -/
  struct : StructId → StructId → Prop
  /-- The two have been declared since the runs are compared. -/
  declared : StructId → StructId → Prop
  /-- The expressions that the runs are about. -/
  node : NodeId → Prop
  left_unique : ∀ {i i' j}, struct i j → struct i' j → i = i'
  right_unique : ∀ {i j j'}, struct i j → struct i j' → j = j'
  struct_of_declared : ∀ {i j}, declared i j → struct i j

namespace Pairing

/-- A run and itself. -/
def same (declared node : Nat → Prop) : Pairing where
  struct i j := i = j
  declared i j := i = j ∧ declared i
  node := node
  left_unique h h' := h.trans h'.symm
  right_unique h h' := h.symm.trans h'
  struct_of_declared h := h.1

end Pairing

/-- The types are the same up to the numbers of structs. -/
inductive Ty.Alike (k : Pairing) : Ty → Ty → Prop where
  | basic (name : String) : Alike k (.basic name) (.basic name)
  | pointer {a b : Ty} : Alike k a b → Alike k (.pointer a) (.pointer b)
  | array {a b : Ty} (size : Option ArraySize) : Alike k a b →
      Alike k (.array a size) (.array b size)
  | struct {i j : StructId} (name : String) : k.struct i j →
      Alike k (.struct i name) (.struct j name)
  | function {ps qs : List Ty} {a b : Ty} : ps.length = qs.length →
      (∀ pair ∈ ps.zip qs, Alike k pair.1 pair.2) → Alike k a b →
      Alike k (.function ps a) (.function qs b)

namespace Ty.Alike

variable {ps qs : List Ty}

variable {k : Pairing} {a b a' b' : Ty}

theorem ofParams (hparams : List.Forall₂ (Alike k) ps qs) (hret : Alike k a b) :
    Alike k (.function ps a) (.function qs b) := by
  obtain ⟨hlength, hzip⟩ := List.forall₂_iff_zip.mp hparams
  exact .function hlength (fun pair hpair => hzip hpair) hret

theorem params (h : Alike k (.function ps a) (.function qs b)) : List.Forall₂ (Alike k) ps qs := by
  cases h with
  | function hlength hzip _ => exact List.forall₂_iff_zip.mpr ⟨hlength, fun hpair => hzip _ hpair⟩

/-! ### Equality -/

/-- Lists are equal together, if their members are. -/
theorem eq_iff_of_zip {α : Type} {as bs as' bs' : List α} (hlength : as.length = bs.length)
    (hlength' : as'.length = bs'.length)
    (h : ∀ pair ∈ as.zip bs, ∀ pair' ∈ as'.zip bs', (pair.1 = pair'.1 ↔ pair.2 = pair'.2)) :
    as = as' ↔ bs = bs' := by
  induction as generalizing bs as' bs' with
  | nil =>
    cases bs with
    | cons => cases hlength
    | nil =>
      cases as' with
      | nil =>
        cases bs' with
        | nil => simp
        | cons => cases hlength'
      | cons =>
        cases bs' with
        | nil => cases hlength'
        | cons => simp
  | cons a as ih =>
    cases bs with
    | nil => cases hlength
    | cons b bs =>
      cases as' with
      | nil =>
        cases bs' with
        | nil => simp
        | cons => cases hlength'
      | cons a' as' =>
        cases bs' with
        | nil => cases hlength'
        | cons b' bs' =>
          rw [List.cons_eq_cons, List.cons_eq_cons]
          refine and_congr (h (a, b) (.head _) (a', b') (.head _)) (ih ?_ ?_ ?_)
          · simpa using hlength
          · simpa using hlength'
          · exact fun pair hpair pair' hpair' => h pair (.tail _ hpair) pair' (.tail _ hpair')

section

variable (h : Alike k a b)

include h

/-- Types are equal in the one run exactly if they are in the other. -/
theorem eq_iff : ∀ {a' b'}, Alike k a' b' → (a = a' ↔ b = b') := by
  induction h with
  | basic name =>
    intro a' b' h'
    cases h' <;> simp
  | pointer _ ih =>
    intro a' b' h'
    cases h' with
    | pointer h' => simpa using ih h'
    | _ => simp
  | array size _ ih =>
    intro a' b' h'
    cases h' with
    | array size' h' => simp [ih h']
    | _ => simp
  | struct name hij =>
    intro a' b' h'
    cases h' with
    | struct name' hij' =>
      simp only [Ty.struct.injEq]
      refine and_congr_left fun _ => ⟨?_, ?_⟩
      · rintro rfl
        exact k.right_unique hij hij'
      · rintro rfl
        exact k.left_unique hij hij'
    | _ => simp
  | function hlength _ _ ihs ih =>
    intro a' b' h'
    cases h' with
    | function hlength' hzip' h' =>
      simp only [Ty.function.injEq]
      refine and_congr (eq_iff_of_zip hlength hlength' ?_) (ih h')
      exact fun pair hpair pair' hpair' => ihs pair hpair (hzip' pair' hpair')
    | _ => simp

theorem eq_basic_iff (name : String) : a = .basic name ↔ b = .basic name :=
  h.eq_iff (.basic name)

/-! ### Questions about a type -/

theorem isVoid : a.isVoid = b.isVoid := by
  cases h <;> rfl

theorem isNumeric : a.isNumeric = b.isNumeric := by
  cases h <;> rfl

theorem isPointer : a.isPointer = b.isPointer := by
  cases h <;> rfl

theorem isIntegerLike : a.isIntegerLike = b.isIntegerLike := by
  cases h <;> rfl

theorem structId? : Option.Rel k.struct a.structId? b.structId? := by
  cases h with
  | pointer h =>
    cases h with
    | struct name hij => exact .some hij
    | _ => exact .none
  | struct name hij => exact .some hij
  | _ => exact .none

theorem element? : Option.Rel (Alike k) a.element? b.element? := by
  cases h with
  | basic name =>
    have hchar : Alike k Ty.char Ty.char := .basic "char"
    by_cases hname : name = "string" <;> simp [Ty.element?, hname, hchar]
  | pointer h => exact .some h
  | array size h => exact .some h
  | _ => exact .none

theorem promote? (h' : Alike k a' b') : a.promote? a' = b.promote? b' := by
  have hrank : a.rank? = b.rank? := by cases h <;> rfl
  have hrank' : a'.rank? = b'.rank? := by cases h' <;> rfl
  simp only [Ty.promote?, hrank, hrank']

end

/-- A result of arithmetic is a basic type. -/
theorem of_promote? (h : a.promote? a' = some b) : Alike k b b := by
  unfold Ty.promote? at h
  simp only [Option.bind_eq_bind, Option.bind_eq_some_iff, Option.map_eq_some_iff] at h
  obtain ⟨_, _, _, _, name, _, rfl⟩ := h
  exact .basic name

variable (h : Alike k a b)

include h

theorem render : a.render = b.render := by
  induction h with
  | basic name => rfl
  | pointer _ ih => simp only [Ty.render, ih]
  | array size _ ih => simp only [Ty.render, ih]
  | struct name _ => rfl
  | function hlength _ _ _ ih => simp only [Ty.render, ih, hlength]

/-! ### When one type may stand for another -/

theorem verdict : ∀ {a' b'}, Alike k a' b' → a.verdict a' = b.verdict b' := by
  induction h with
  | basic name =>
    intro a' b' h'
    have heq := (Alike.basic (k := k) name).eq_iff h'
    cases h' with
    | basic name' => rfl
    | pointer h' =>
      have hchar : _ = Ty.char ↔ _ = Ty.char := h'.eq_basic_iff "char"
      simp [Ty.verdict, textVerdict, hchar]
    | _ => simp [Ty.verdict]
  | pointer h ih =>
    intro a' b' h'
    have heq := h.pointer.eq_iff h'
    cases h' with
    | basic name =>
      have hchar : _ = Ty.char ↔ _ = Ty.char := h.eq_basic_iff "char"
      simp [Ty.verdict, textVerdict, hchar]
    | pointer h' =>
      rw [Ty.verdict, Ty.verdict]
      simp only [heq, ih h']
    | array size h' =>
      rw [Ty.verdict, Ty.verdict]
      simp only [heq, ih h']
    | _ => simp [Ty.verdict]
  | array size h ih =>
    intro a' b' h'
    have heq := (h.array size).eq_iff h'
    cases h' with
    | pointer h' =>
      rw [Ty.verdict, Ty.verdict]
      simp only [heq, ih h']
    | array size' h' =>
      rw [Ty.verdict, Ty.verdict]
      simp only [heq, ih h']
    | _ => simp [Ty.verdict]
  | struct name hij =>
    intro a' b' h'
    have heq := (Alike.struct name hij).eq_iff h'
    cases h' with
    | struct name' hij' =>
      rw [Ty.verdict, Ty.verdict]
      simp only [heq]
    | _ => simp [Ty.verdict]
  | function hlength hzip h _ _ =>
    intro a' b' h'
    have heq := (Alike.function hlength hzip h).eq_iff h'
    cases h' <;> simp only [Ty.verdict, heq]

theorem assignable (h' : Alike k a' b') : a.assignable a' = b.assignable b' := by
  have hvoid : ∀ {a b : Ty}, Alike k a b → (a = Ty.voidPointer ↔ b = Ty.voidPointer) :=
    fun h => h.eq_iff (.pointer (.basic "void"))
  simp only [Ty.assignable, h.verdict h', h.isPointer, h'.isPointer, hvoid h, hvoid h']

theorem receiverFits (h' : Alike k a' b') : Check.receiverFits a a' = Check.receiverFits b b' := by
  have hfits := h.assignable h'
  cases h with
  | pointer h =>
    cases h' with
    | struct name hij => simp only [Check.receiverFits, h.eq_iff (.struct name hij), hfits]
    | _ => exact hfits
  | struct name hij =>
    cases h' with
    | pointer h' => simp only [Check.receiverFits, h'.eq_iff (.struct name hij), hfits]
    | _ => exact hfits
  | _ => cases h' <;> exact hfits

end Ty.Alike

/-! ### Causes -/

/-- The causes are the same up to the numbers of structs. -/
inductive Cause.Alike (k : Pairing) : Cause → Cause → Prop where
  | same (cause : Cause) : Alike k cause cause
  | notCallable {a b : Ty} : a.Alike k b → Alike k (.notCallable a) (.notCallable b)
  | fieldNotCallable (field : String) {a b : Ty} : a.Alike k b →
      Alike k (.fieldNotCallable field a) (.fieldNotCallable field b)
  | freeOfNonPointer {a b : Ty} : a.Alike k b →
      Alike k (.freeOfNonPointer a) (.freeOfNonPointer b)
  | missingReturn (function : String) {a b : Ty} : a.Alike k b →
      Alike k (.missingReturn function a) (.missingReturn function b)
  | missingReturnValue {a b : Ty} : a.Alike k b →
      Alike k (.missingReturnValue a) (.missingReturnValue b)
  | returnMismatch {a b a' b' : Ty} : a.Alike k b → a'.Alike k b' →
      Alike k (.returnMismatch a a') (.returnMismatch b b')
  | mismatch {a b a' b' : Ty} : a.Alike k b → a'.Alike k b' →
      Alike k (.mismatch a a') (.mismatch b b')
  | incomparable {a b a' b' : Ty} : a.Alike k b → a'.Alike k b' →
      Alike k (.incomparable a a') (.incomparable b b')
  | nonNumericOperands (op : BinaryOp) {a b a' b' : Ty} : a.Alike k b → a'.Alike k b' →
      Alike k (.nonNumericOperands op a a') (.nonNumericOperands op b b')
  | nonBoolOperands (op : BinaryOp) {a b a' b' : Ty} : a.Alike k b → a'.Alike k b' →
      Alike k (.nonBoolOperands op a a') (.nonBoolOperands op b b')
  | badOperand (op : UnaryOp) {a b : Ty} : a.Alike k b →
      Alike k (.badOperand op a) (.badOperand op b)
  | notIndexable {a b : Ty} : a.Alike k b → Alike k (.notIndexable a) (.notIndexable b)
  | noMember {a b : Ty} (member : String) : a.Alike k b →
      Alike k (.noMember a member) (.noMember b member)

namespace Cause.Alike

variable {k : Pairing} {cause cause' : Cause}

variable (h : Alike k cause cause')

include h

theorem message : cause.message = cause'.message := by
  cases h with
  | same => rfl
  | notCallable h | fieldNotCallable _ h | freeOfNonPointer h | missingReturn _ h
  | missingReturnValue h | badOperand _ h | notIndexable h | noMember _ h =>
    delta Cause.message
    dsimp only
    rw [h.render]
  | returnMismatch h h' | mismatch h h' | incomparable h h' | nonNumericOperands _ h h'
  | nonBoolOperands _ h h' =>
    delta Cause.message
    dsimp only
    rw [h.render, h'.render]

theorem tag : cause.tag = cause'.tag := by
  cases h <;> rfl

/-- Alike causes read the same. -/
theorem draft : cause.draft = cause'.draft := by
  have hseverity : cause.severity = cause'.severity := by cases h <;> rfl
  have hnote : cause.note? = cause'.note? := by cases h <;> rfl
  have hhelp : cause.help? = cause'.help? := by cases h <;> rfl
  rw [Cause.draft, Cause.draft, h.tag, hseverity, h.message, hnote, hhelp]

end Cause.Alike

/-! ### Operators -/

/-- What two runs have worked out is alike: a type, or a cause that a rule may report. -/
inductive SettledAlike (k : Pairing) : Except Cause Ty → Except Cause Ty → Prop where
  | ok {a b : Ty} : a.Alike k b → SettledAlike k (.ok a) (.ok b)
  | error {cause cause' : Cause} : cause.Alike k cause' → cause.isRule = true →
      SettledAlike k (.error cause) (.error cause')

section

variable {k : Pairing} {a b a' b' : Ty}

theorem BinaryOp.resultType_alike (op : BinaryOp) (h : a.Alike k b) (h' : a'.Alike k b') :
    SettledAlike k (op.resultType a a') (op.resultType b b') := by
  have hbool : Ty.Alike k .bool .bool := .basic "bool"
  unfold resultType
  split
  · rw [h.promote? h']
    split
    next ty hty => exact .ok (.of_promote? hty)
    · rw [h.isPointer, h'.isIntegerLike]
      split
      · exact .ok h
      · exact .error (.nonNumericOperands op h h') rfl
  · rw [h.assignable h']
    split
    · exact .ok hbool
    · exact .error (.incomparable h h') rfl
  · have hiff : (a = .bool ∧ a' = .bool) ↔ (b = .bool ∧ b' = .bool) :=
      and_congr (h.eq_iff hbool) (h'.eq_iff hbool)
    by_cases hboth : a = .bool ∧ a' = .bool
    · rw [if_pos hboth, if_pos (hiff.mp hboth)]
      exact .ok hbool
    · rw [if_neg hboth, if_neg (mt hiff.mpr hboth)]
      exact .error (.nonBoolOperands op h h') rfl

theorem UnaryOp.resultType_alike (op : UnaryOp) (h : a.Alike k b) :
    SettledAlike k (op.resultType a) (op.resultType b) := by
  have hbool : Ty.Alike k .bool .bool := .basic "bool"
  cases op with
  | neg =>
    simp only [resultType, h.isNumeric]
    split
    · exact .ok h
    · exact .error (.badOperand .neg h) rfl
  | not =>
    simp only [resultType, h.eq_iff hbool]
    split
    · exact .ok hbool
    · exact .error (.badOperand .not h) rfl
  | deref =>
    cases h with
    | pointer h => exact .ok h
    | basic name => exact .error (.badOperand .deref (.basic name)) rfl
    | array size h => exact .error (.badOperand .deref (.array size h)) rfl
    | struct name hij => exact .error (.badOperand .deref (.struct name hij)) rfl
    | function hlength hzip h => exact .error (.badOperand .deref (.function hlength hzip h)) rfl
  | addrOf => exact .ok (.pointer h)

end

/-! ### Symbols and structs -/

/-- The symbols are the same but for the numbers of structs in their types. -/
structure Symbol.Alike (k : Pairing) (a b : Symbol) : Prop where
  ty : a.ty.Alike k b.ty
  rest : b = { a with ty := b.ty }

namespace Symbol.Alike

variable {k : Pairing} {a b : Symbol} (h : a.Alike k b)

include h

theorem name : a.name = b.name := (congrArg Symbol.name h.rest).symm

theorem kind : a.kind = b.kind := (congrArg Symbol.kind h.rest).symm

theorem isPublic : a.isPublic = b.isPublic := (congrArg Symbol.isPublic h.rest).symm

theorem isMutable : a.isMutable = b.isMutable := (congrArg Symbol.isMutable h.rest).symm

theorem line : a.span.line = b.span.line := (congrArg (·.span.line) h.rest).symm

theorem returnsOwnership : a.returnsOwnership = b.returnsOwnership :=
  (congrArg Symbol.returnsOwnership h.rest).symm

theorem consumesArg : a.consumesArg = b.consumesArg := by
  rw [h.rest]
  rfl

theorem isType : a.isType = b.isType := by
  rw [h.rest]
  rfl

theorem enumMembers? : a.enumMembers? = b.enumMembers? := by
  rw [h.rest]
  rfl

end Symbol.Alike

/-- The first members of alike lists that pass alike tests are alike. -/
theorem rel_find? {α β : Type} {r : α → β → Prop} {p : α → Bool} {q : β → Bool}
    (hpq : ∀ a b, r a b → p a = q b) {as : List α} {bs : List β} (h : List.Forall₂ r as bs) :
    Option.Rel r (as.find? p) (bs.find? q) := by
  induction h with
  | nil => exact .none
  | cons hab _ ih =>
    rw [List.find?_cons, List.find?_cons, hpq _ _ hab]
    split
    · exact .some hab
    · exact ih

/-- What `module::name` comes to is alike. -/
inductive QualifiedLookup.Alike (k : Pairing) : QualifiedLookup → QualifiedLookup → Prop where
  | found {a b : Symbol} : a.Alike k b → Alike k (.found a) (.found b)
  | hidden {a b : Symbol} : a.Alike k b → Alike k (.hidden a) (.hidden b)
  | unknownModule : Alike k .unknownModule .unknownModule
  | notFound : Alike k .notFound .notFound

/-- The members are the same but for the numbers of structs in their types. -/
structure StructMember.Alike (k : Pairing) (a b : StructMember) : Prop where
  ty : a.ty.Alike k b.ty
  rest : b = { a with ty := b.ty }

namespace StructMember.Alike

variable {as bs : List StructMember}

variable {k : Pairing} {a b : StructMember} (h : a.Alike k b)

include h

theorem name : a.name = b.name := (congrArg StructMember.name h.rest).symm

theorem kind : a.kind = b.kind := (congrArg StructMember.kind h.rest).symm

theorem isPublic : a.isPublic = b.isPublic := (congrArg StructMember.isPublic h.rest).symm

theorem isMethod : a.isMethod = b.isMethod := by
  rw [h.rest]
  rfl

theorem consumesParam : a.consumesParam = b.consumesParam := by
  rw [h.rest]
  rfl

omit h in
theorem any_name (h : List.Forall₂ (Alike k) as bs) (name : String) :
    as.any (·.name == name) = bs.any (·.name == name) := by
  induction h with
  | nil => rfl
  | cons hab _ ih => rw [List.any_cons, List.any_cons, hab.name, ih]

omit h in
theorem names_filter (h : List.Forall₂ (Alike k) as bs) :
    (as.filter (!·.isMethod)).map (·.name) = (bs.filter (!·.isMethod)).map (·.name) := by
  induction h with
  | nil => rfl
  | cons hab _ ih =>
    rw [List.filter_cons, List.filter_cons, hab.isMethod]
    split
    · rw [List.map_cons, List.map_cons, hab.name, ih]
    · exact ih

end StructMember.Alike

/-- The definitions are the same but for the numbers of structs. -/
structure StructDef.Alike (k : Pairing) (a b : StructDef) : Prop where
  id : k.struct a.id b.id
  members : List.Forall₂ (StructMember.Alike k) a.members b.members
  rest : b = { a with id := b.id, members := b.members }

namespace StructDef.Alike

variable {k : Pairing} {a b : StructDef} (h : a.Alike k b)

include h

theorem name : a.name = b.name := (congrArg StructDef.name h.rest).symm

theorem module : a.module = b.module := (congrArg StructDef.module h.rest).symm

theorem isFinalized : a.isFinalized = b.isFinalized :=
  (congrArg StructDef.isFinalized h.rest).symm

theorem ty : a.ty.Alike k b.ty := by
  rw [StructDef.ty, StructDef.ty, h.name]
  exact .struct _ h.id

theorem member? (name : String) :
    Option.Rel (StructMember.Alike k) (a.member? name) (b.member? name) :=
  rel_find? (fun _ _ hab => by rw [hab.name]) h.members

theorem fieldNames : a.fields.map (·.name) = b.fields.map (·.name) :=
  StructMember.Alike.names_filter h.members

end StructDef.Alike

/-- The drafts are of structs declared in both runs, and have collected alike members. -/
structure StructDraft.Alike (k : Pairing) (a b : StructDraft) : Prop where
  id : k.declared a.id b.id
  fields : List.Forall₂ (StructMember.Alike k) a.fields b.fields
  methods : List.Forall₂ (StructMember.Alike k) a.methods b.methods

namespace StructDraft.Alike

variable {k : Pairing} {a b : StructDraft} (h : a.Alike k b)

include h

theorem members : List.Forall₂ (StructMember.Alike k) a.members b.members :=
  List.rel_append h.fields h.methods

theorem contains (name : String) : a.contains name = b.contains name :=
  StructMember.Alike.any_name h.members name

theorem addField? {t u : Ty} (ht : t.Alike k u) (name : String) (isPublic : Bool) :
    Option.Rel (Alike k) (a.addField? name t isPublic) (b.addField? name u isPublic) := by
  rw [StructDraft.addField?, StructDraft.addField?, h.contains]
  split
  · exact .none
  · exact .some ⟨h.id, List.rel_append h.fields (.cons ⟨ht, rfl⟩ .nil), h.methods⟩

theorem addMethod? {t u : Ty} (ht : t.Alike k u) (name : String) (isPublic : Bool)
    (traits : MethodTraits) : Option.Rel (Alike k) (a.addMethod? name t isPublic traits)
      (b.addMethod? name u isPublic traits) := by
  rw [StructDraft.addMethod?, StructDraft.addMethod?, h.contains]
  split
  · exact .none
  · exact .some ⟨h.id, h.fields, List.rel_append h.methods (.cons ⟨ht, rfl⟩ .nil)⟩

end StructDraft.Alike

structure Check.Signature.Alike (k : Pairing) (a b : Check.Signature) : Prop where
  params : List.Forall₂ (Ty.Alike k) a.params b.params
  ret : a.ret.Alike k b.ret

theorem Check.Signature.Alike.ty {k : Pairing} {a b : Check.Signature} (h : a.Alike k b) :
    a.ty.Alike k b.ty :=
  .ofParams h.params h.ret

structure Frame.Alike (k : Pairing) (a b : Frame) : Prop where
  returnType : a.returnType.Alike k b.returnType
  ownership : a.ownership = b.ownership

/-! ### One run and itself -/

namespace Pairing

variable (declared node : Nat → Prop)

mutual

theorem same_ty : (a : Ty) → a.Alike (same declared node) a
  | .basic name => .basic name
  | .pointer pointee => .pointer (same_ty pointee)
  | .array element size => .array size (same_ty element)
  | .struct _ name => .struct name rfl
  | .function params ret => .ofParams (same_tys params) (same_ty ret)

theorem same_tys : (as : List Ty) → List.Forall₂ (Ty.Alike (same declared node)) as as
  | [] => .nil
  | a :: as => .cons (same_ty a) (same_tys as)

end

theorem same_symbol (a : Symbol) : a.Alike (same declared node) a :=
  ⟨same_ty declared node a.ty, rfl⟩

theorem same_qualifiedLookup (a : QualifiedLookup) : a.Alike (same declared node) a := by
  cases a with
  | found symbol => exact .found (same_symbol declared node symbol)
  | hidden symbol => exact .hidden (same_symbol declared node symbol)
  | unknownModule => exact .unknownModule
  | notFound => exact .notFound

theorem same_structDef (a : StructDef) : a.Alike (same declared node) a :=
  ⟨rfl, List.forall₂_same.mpr fun m _ => ⟨same_ty declared node m.ty, rfl⟩, rfl⟩

theorem same_draft {a : StructDraft} (h : declared a.id) : a.Alike (same declared node) a :=
  ⟨⟨rfl, h⟩, List.forall₂_same.mpr fun m _ => ⟨same_ty declared node m.ty, rfl⟩,
    List.forall₂_same.mpr fun m _ => ⟨same_ty declared node m.ty, rfl⟩⟩

theorem same_frame (a : Frame) : a.Alike (same declared node) a :=
  ⟨same_ty declared node a.returnType, rfl⟩

end Pairing

section

variable {declared node : Nat → Prop}

theorem Ty.Alike.eq_of_same {a b : Ty} (h : a.Alike (.same declared node) b) : a = b :=
  ((Pairing.same_ty declared node a).eq_iff h).mp rfl

theorem Ty.Alike.eq_of_same_option {x y : Option Ty}
    (h : Option.Rel (Ty.Alike (.same declared node)) x y) : x = y :=
  h.eq fun _ _ hab => hab.eq_of_same

theorem Cause.Alike.eq_of_same {a b : Cause} (h : a.Alike (.same declared node) b) : a = b := by
  cases h with
  | same => rfl
  | notCallable h | fieldNotCallable _ h | freeOfNonPointer h | missingReturn _ h
  | missingReturnValue h | badOperand _ h | notIndexable h | noMember _ h =>
    rw [h.eq_of_same]
  | returnMismatch h h' | mismatch h h' | incomparable h h' | nonNumericOperands _ h h'
  | nonBoolOperands _ h h' =>
    rw [h.eq_of_same, h'.eq_of_same]

theorem Symbol.Alike.eq_of_same {a b : Symbol} (h : a.Alike (.same declared node) b) : a = b := by
  rw [h.rest, ← h.ty.eq_of_same]

theorem StructMember.Alike.eq_of_same {as bs : List StructMember}
    (h : List.Forall₂ (StructMember.Alike (.same declared node)) as bs) : as = bs := by
  induction h with
  | nil => rfl
  | cons hab _ ih => rw [hab.rest, ← hab.ty.eq_of_same, ih]

theorem StructDraft.Alike.eq_of_same {a b : StructDraft} (h : a.Alike (.same declared node) b) :
    a = b := by
  obtain ⟨id, fields, methods⟩ := a
  obtain ⟨id', fields', methods'⟩ := b
  obtain ⟨⟨hid, -⟩, hfields, hmethods⟩ := h
  have hfields := StructMember.Alike.eq_of_same hfields
  have hmethods := StructMember.Alike.eq_of_same hmethods
  exact congr (congr (congrArg StructDraft.mk hid) hfields) hmethods

theorem Check.Signature.Alike.eq_of_same {a b : Check.Signature}
    (h : a.Alike (.same declared node) b) : a = b := by
  obtain ⟨hparams, hret⟩ := Ty.function.inj h.ty.eq_of_same
  obtain ⟨params, ret⟩ := a
  subst hparams
  subst hret
  rfl

theorem Frame.Alike.eq_of_same {a b : Frame} (h : a.Alike (.same declared node) b) : a = b := by
  obtain ⟨returnType, ownership⟩ := a
  obtain ⟨returnType', ownership'⟩ := b
  exact congr (congrArg Frame.mk h.returnType.eq_of_same) h.ownership

end

end Warden
