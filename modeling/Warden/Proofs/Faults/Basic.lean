import Warden.Proofs.Moves.Basic

/-!
# Keeping account of faults

A *fault* is a finding that makes a check fail: an error, unless the memory analysis has made it. An
action of the check must not keep a failure to itself, and must not fail for nothing. `Account`
holds the books between two states: what has been found in between is put behind the earlier
findings, and there is a fault among it exactly if something is said to have failed. `Judged` says
that an action closes its books, with what it returns telling whether something has failed, and that
it goes by moves (`Checker.Moves`).

The rules of the check are judged from the middle of a walk, where the parts they get may have
failed already, so the state in which the account was opened and the state in which the action
starts are two.
-/

namespace Warden

open CheckM Checker

variable {cause : Cause} {n : CheckM Bool}

/-! ### Faults -/

/-- Whether the finding is an error other than freeing twice or using what has been freed. -/
def Finding.isFault (f : Finding) : Bool :=
  f.cause.isFault

theorem Finding.isFault_of_isMemory {f : Finding} (h : f.isMemory = true) : f.isFault = false := by
  obtain ⟨cause, span, filePath, lineText⟩ := f
  cases cause <;> simp_all [isMemory, tag, Cause.tag, Tag.isMemory, isFault, Cause.isFault,
    Cause.severity]

/-! ### Accounts -/

/-- The second state is well typed, and what has been found since the first one contains a fault
exactly if something has failed. -/
structure Account (start now : Checker) (failed : Prop) : Prop where
  wellTyped : now.WellTyped
  findings : ∃ new, now.context.findings = start.context.findings ++ new ∧
    (failed ↔ ∃ f ∈ new, f.isFault = true)

namespace Account

variable {a b c : Checker} {p q : Prop}

/-- An account is opened. -/
theorem refl (h : c.WellTyped) : Account c c False :=
  ⟨h, [], by simp⟩

variable (h : Account a b p)

include h

theorem congr (hpq : p ↔ q) : Account a b q :=
  propext hpq ▸ h

theorem trans (h' : Account b c q) : Account a c (p ∨ q) := by
  obtain ⟨new, hnew, hp⟩ := h.findings
  obtain ⟨new', hnew', hq⟩ := h'.findings
  refine ⟨h'.wellTyped, new ++ new', by rw [hnew', hnew, List.append_assoc], ?_⟩
  simp only [hp, hq, List.mem_append, or_and_right, exists_or]

/-- More findings without a fault change nothing. -/
theorem append {more : List Finding} (hwell : c.WellTyped)
    (hmore : c.context.findings = b.context.findings ++ more)
    (hharmless : ∀ f ∈ more, f.isFault = false) : Account a c p := by
  have hlater : Account b c False := by
    refine ⟨hwell, more, hmore, false_iff _ |>.mpr ?_⟩
    rintro ⟨f, hf, hfault⟩
    rw [hharmless f hf] at hfault
    cases hfault
  exact (h.trans hlater).congr (iff_of_eq (or_false p))

/-- A change of the state that finds nothing. -/
theorem quiet (hwell : c.WellTyped) (hsame : c.context.findings = b.context.findings) :
    Account a c p :=
  h.append hwell (by rw [hsame, List.append_nil]) (List.forall_mem_nil _)

theorem memory (hstep : MemoryStep b c) : Account a c p := by
  obtain ⟨more, hmore, hmem⟩ := hstep.findings
  exact h.append (h.wellTyped.memory hstep) hmore fun f hf => f.isFault_of_isMemory (hmem f hf)

/-- After a fault has been reported, something has failed. -/
theorem fault (hcause : cause.isFault = true) (span : Span) :
    Account a (b.report cause span) True := by
  have hone : Account b (b.report cause span) True :=
    ⟨h.wellTyped.setContext _, _, rfl, by simpa [Finding.isFault] using hcause⟩
  exact (h.trans hone).congr (iff_of_eq (or_true p))

/-- A remark that is no fault. -/
theorem remark (hcause : cause.isFault = false) (span : Span) : Account a (b.report cause span) p :=
  h.append (h.wellTyped.setContext _) rfl (by simpa [Finding.isFault] using hcause)

theorem record (id : NodeId) {ty : Ty} (hty : ty.KnownIn b.structs) :
    Account a (b.record id ty) p :=
  h.quiet (h.wellTyped.record id hty) rfl

end Account

/-! ### Judged actions -/

/-- Started in `c`, the action brings an account that was opened in `start` to a close at which it
has failed exactly if the result says so. It goes by moves, and the result is good. -/
structure Judged {α : Type} (start c : Checker) (m : CheckM α) (failed : α → Prop)
    (good : StructTable → α → Prop) : Prop where
  account : Account start (m.exec c) (failed (m.eval c))
  moves : Moves c (m.exec c)
  good : good (m.exec c).structs (m.eval c)

/-- The action returns something good, or `none` if and only if something has failed. -/
abbrev Yields {α : Type} (good : StructTable → α → Prop) (start c : Checker)
    (m : CheckM (Option α)) : Prop :=
  Judged start c m (· = none) fun t result => ∀ a ∈ result, good t a

/-- The action returns a known type, or `none` if and only if something has failed. -/
abbrev Typed (start c : Checker) (m : CheckM (Option Ty)) : Prop :=
  Yields (fun t ty => ty.KnownIn t) start c m

/-- The action returns `false` if and only if something has failed. -/
abbrev Passes (start c : Checker) (m : CheckM Bool) : Prop :=
  Judged start c m (· = false) fun _ _ => True

namespace Judged

variable {α β : Type} {start c : Checker} {m : CheckM α} {k : α → CheckM β} {p : Prop}
  {failed : α → Prop} {failed' : β → Prop} {good : StructTable → α → Prop}
  {good' : StructTable → β → Prop}

section

variable (hm : Judged start c m failed good)

include hm

theorem extend : c.structs.Extends (m.exec c).structs :=
  hm.moves.extend

theorem bind (hk : Judged start (m.exec c) (k (m.eval c)) failed' good') :
    Judged start c (m >>= k) failed' good' :=
  ⟨hk.account, hm.moves.trans hk.moves, hk.good⟩

/-- The same, where the account of the first action is taken from the goal. -/
theorem andThen
    (hk : Account start (m.exec c) (failed (m.eval c)) → c.structs.Extends (m.exec c).structs →
      Judged start (m.exec c) (k (m.eval c)) failed' good') :
    Judged start c (m >>= k) failed' good' :=
  hm.bind (hk hm.account hm.extend)

end

section

variable (h : Account start c p)

include h

theorem ofPure {a : α} (hfailed : p ↔ failed a) (hgood : good c.structs a) :
    Judged start c (pure a) failed good :=
  ⟨h.congr hfailed, .refl _, hgood⟩

/-- A fault is reported, and `false` says so. -/
theorem ofReject (hcause : cause.isFault = true) (span : Span) {failed : Bool → Prop}
    (hfalse : failed false) : Judged start c (reject cause span) failed fun _ _ => True :=
  ⟨(h.fault hcause span).congr (iff_of_true trivial hfalse), .one (.report ..), trivial⟩

/-- A fault is reported, and the action goes on. -/
theorem ofReport (cause : Cause) (hcause : cause.isFault = true) (span : Span) :
    Judged start c (report cause span) (fun _ => True) fun _ _ => True :=
  ⟨h.fault hcause span, .one (.report ..), trivial⟩

/-- Work of the memory analysis fails nothing. -/
theorem ofMemoryOp {f : Checker → Checker} (hf : MemoryOp f) :
    Judged start c (modify f) (fun _ => p) fun _ _ => True :=
  ⟨h.memory (hf.step c), .one (.memory hf), trivial⟩

theorem ofRecord (id : NodeId) {ty : Ty} (hty : ty.KnownIn c.structs) :
    Judged start c (modify (·.record id ty)) (fun _ => p) fun _ _ => True := by
  have hobserves : Observes (fun _ => True) (modify (·.record id ty) : CheckM Unit) :=
    fun _ hP _ h => hP.record ty trivial h
  exact ⟨h.record id hty, .one (.observe hobserves (h.record id hty).wellTyped), trivial⟩

end

/-- An action that looks at the state first. -/
theorem ofGet {k : Checker → CheckM β} (hk : Judged start c (k c) failed' good') :
    Judged start c (get >>= k) failed' good' :=
  ⟨hk.account, hk.moves, hk.good⟩

/-- A part that is judged by itself, in the middle of a walk. -/
theorem after (h : Account start c p) (hm : Judged c c m failed good) :
    Judged start c m (fun a => p ∨ failed a) good :=
  ⟨h.trans hm.account, hm.moves, hm.good⟩

/-- A verdict that joins the one already there. -/
theorem conj {q : Prop} {ok : Bool} {good : StructTable → Bool → Prop}
    (hn : Judged start c n (fun rest => (q ∨ ok = false) ∨ rest = false) good) :
    Judged start c (do let rest ← n; return ok && rest) (fun ok => q ∨ ok = false)
      fun _ _ => True := by
  refine hn.bind (.ofPure hn.account ?_ trivial)
  rw [Bool.and_eq_false_iff, or_assoc]

theorem weaken (hm : Judged start c m failed good) {failed' : α → Prop}
    {good' : StructTable → α → Prop} (hfailed : failed (m.eval c) ↔ failed' (m.eval c))
    (hgood : good' (m.exec c).structs (m.eval c)) : Judged start c m failed' good' :=
  ⟨hm.account.congr hfailed, hm.moves, hgood⟩

end Judged

section

variable {α : Type} {good : StructTable → α → Prop} {start c : Checker} {p : Prop}

section

variable (h : Account start c p)

include h

theorem yields_some (hp : ¬p) {a : α} (ha : good c.structs a) :
    Yields good start c (pure (some a)) :=
  .ofPure h (by simp [hp]) (by simpa using ha)

theorem yields_none (hp : p) : Yields good start c (pure none) :=
  .ofPure h (by simp [hp]) nofun

theorem yields_fail (hcause : cause.isFault = true) (span : Span) :
    Yields good start c (fail cause span) :=
  ⟨(h.fault hcause span).congr (by simp), .one (.report ..), nofun⟩

theorem yields_settle (hp : ¬p) {result : Except Cause α} (span : Span)
    (hfault : ∀ cause, result = .error cause → cause.isFault = true)
    (hgood : ∀ a, result = .ok a → good c.structs a) :
    Yields good start c (settle result span) := by
  cases result with
  | ok a => exact yields_some h hp (hgood a rfl)
  | error cause => exact yields_fail h (hfault cause rfl) span

end

/-- The action passes its result on. Something has failed if there is none, and only then. -/
theorem Yields.cases {β : Type} {m : CheckM (Option α)} {k : Option α → CheckM β}
    {failed : β → Prop} {good' : StructTable → β → Prop} (hm : Yields good start c m)
    (hnone : Account start (m.exec c) True → Judged start (m.exec c) (k none) failed good')
    (hsome : ∀ a, Account start (m.exec c) False → good (m.exec c).structs a →
      Judged start (m.exec c) (k (some a)) failed good') :
    Judged start c (m >>= k) failed good' := by
  refine hm.bind ?_
  cases hresult : m.eval c with
  | none => exact hnone (hm.account.congr (by simp [hresult]))
  | some a => exact hsome a (hm.account.congr (by simp [hresult])) (hm.good a hresult)

/-- What is made of a result is good if it is made of something good. -/
theorem Yields.map {β : Type} {good' : StructTable → β → Prop} {m : CheckM (Option α)} {f : α → β}
    (hm : Yields good start c m) (hf : ∀ {t a}, good t a → good' t (f a)) :
    Yields good' start c (do return (← m).map f) :=
  hm.cases (yields_none · trivial) fun _ h ha => yields_some h not_false (hf ha)

/-- The type that has been found is recorded. -/
theorem Typed.recorded {m : CheckM (Option Ty)} (hm : Typed start c m) (id : NodeId) :
    Typed start c (m >>= CheckM.recorded id) := by
  refine hm.cases (yields_none · trivial) fun ty h hty => ?_
  have hrecord := Judged.ofRecord h id hty
  exact hrecord.bind (yields_some hrecord.account not_false hty)

/-- A verdict that joins the one already there, where nothing else can have failed. -/
theorem Passes.conj {ok : Bool}
    (hn : Judged start c n (fun rest => ok = false ∨ rest = false) fun _ _ => True) :
    Passes start c (do let rest ← n; return ok && rest) :=
  hn.bind (.ofPure hn.account Bool.and_eq_false_iff.symm trivial)

theorem passes_true (h : Account start c p) (hp : ¬p) : Passes start c (pure true) :=
  .ofPure h (by simp [hp]) trivial

theorem passes_false (h : Account start c p) (hp : p) : Passes start c (pure false) :=
  .ofPure h (by simp [hp]) trivial

theorem passes_reject (h : Account start c p) (hcause : cause.isFault = true) (span : Span) :
    Passes start c (reject cause span) :=
  .ofReject h hcause span rfl

/-- Nothing but the place of a statement is looked at. -/
theorem passes_placed [Decidable q] (h : c.WellTyped) (hcause : cause.isFault = true)
    (span : Span) : Passes c c (if q then pure true else reject cause span) := by
  split
  · exact passes_true (.refl h) not_false
  · exact passes_reject (.refl h) hcause span

end

end Warden
