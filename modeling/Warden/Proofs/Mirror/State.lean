import Warden.Proofs.Findings
import Warden.Proofs.Frame
import Warden.Proofs.Mirror.Scopes

/-!
# Checks that mirror each other

Two states mirror each other (`Mirror`) if their scopes are alike, structs that stand for each other
have alike definitions, the expressions that the checks are about have alike types, and both are at
the same place. Findings made before are left out of the comparison, and those made since give the
same diagnostics, so that actions in step emit the same (`Mirror.shown_emitted`). What the states
hold beyond that does not matter: scopes, structs and expressions that stand for nothing on the
other side are out of sight.

Every check of the same syntax keeps such states in step (`mirror_lockstep`).
-/

namespace Warden

/-! ### Findings in step -/

/-- What is seen of a finding: whether it comes from the memory analysis, and the diagnostic. -/
def Finding.shown (f : Finding) : Bool × Diagnostic :=
  (f.isMemory, f.toDiagnostic)

/-- Of findings of which the same is seen, the same diagnostics come from the rules. -/
theorem map_filter_eq_of_shown {fs fs' : List Finding}
    (h : fs.map Finding.shown = fs'.map Finding.shown) :
    (fs.filter (!·.isMemory)).map Finding.toDiagnostic =
      (fs'.filter (!·.isMemory)).map Finding.toDiagnostic := by
  have hshown : ∀ fs : List Finding, (fs.filter (!·.isMemory)).map Finding.toDiagnostic =
      ((fs.map Finding.shown).filter (!·.1)).map (·.2) := by
    intro fs
    rw [List.filter_map, List.map_map]
    rfl
  rw [hshown, hshown, h]

theorem map_toDiagnostic_eq_of_shown {fs fs' : List Finding}
    (h : fs.map Finding.shown = fs'.map Finding.shown) :
    fs.map Finding.toDiagnostic = fs'.map Finding.toDiagnostic := by
  have hsnd := congrArg (List.map (·.2)) h
  rwa [List.map_map, List.map_map] at hsnd

open CheckM

namespace CheckM

variable {α : Type}

/-- The diagnostics that an action emits, apart from those of the memory analysis. -/
def emitsApartFromMemory (m : CheckM α) (c : Checker) : List Diagnostic :=
  ((m.emitted c).filter (!·.isMemory)).map Finding.toDiagnostic

end CheckM

/-- The contexts are at the same place, and beyond earlier findings they have made findings of
which the same is seen. -/
structure Context.Alike (F F' : List Finding) (c d : Context) : Prop where
  place : { c with findings := [] } = { d with findings := [] }
  findings : ∃ new new', c.findings = F ++ new ∧ d.findings = F' ++ new' ∧
    new.map Finding.shown = new'.map Finding.shown

namespace Context.Alike

variable {F F' : List Finding} {c d : Context}

variable (h : c.Alike F F' d)

include h

theorem config : c.config = d.config :=
  (congrArg Context.config h.place :)

theorem moduleName : c.moduleName = d.moduleName :=
  (congrArg Context.moduleName h.place :)

theorem report {cause cause' : Cause} (hdraft : cause.draft = cause'.draft)
    (htag : cause.tag = cause'.tag) (span : Span) :
    (c.report cause span).Alike F F' (d.report cause' span) := by
  obtain ⟨new, new', hnew, hnew', heq⟩ := h.findings
  have hfile : c.filePath = d.filePath := (congrArg Context.filePath h.place :)
  have hline : c.lineText? span.line = d.lineText? span.line :=
    (congrArg (fun c : Context => c.lineText? span.line) h.place :)
  have hshown : Finding.shown ⟨cause, span, c.filePath, c.lineText? span.line⟩ =
      Finding.shown ⟨cause', span, d.filePath, d.lineText? span.line⟩ := by
    simp only [Finding.shown, Finding.isMemory, Finding.tag, Finding.toDiagnostic, hdraft, htag,
      hfile, hline]
  refine ⟨h.place, new ++ [⟨cause, span, c.filePath, c.lineText? span.line⟩],
    new' ++ [⟨cause', span, d.filePath, d.lineText? span.line⟩], ?_, ?_, ?_⟩
  · rw [Context.report, hnew, List.append_assoc]
  · rw [Context.report, hnew', List.append_assoc]
  · rw [List.map_append, List.map_append, heq, List.map_singleton, List.map_singleton, hshown]

theorem reportAny (cause? : Option Cause) (span : Span) :
    (c.reportAny span cause?).Alike F F' (d.reportAny span cause?) := by
  cases cause? with
  | none => exact h
  | some cause => exact h.report rfl rfl span

theorem reportLeaks (l : Ledger) : (c.reportLeaks l).Alike F F' (d.reportLeaks l) := by
  rw [Context.reportLeaks, Context.reportLeaks]
  generalize l.leaks = leaks
  induction leaks generalizing c d with
  | nil => exact h
  | cons a leaks ih =>
    rw [List.foldl_cons, List.foldl_cons, h.moduleName]
    exact ih (h.report rfl rfl _)

end Context.Alike

/-! ### States in step -/

/-- The walks are at the same place. -/
structure Walk.Alike (ms : Matching) (k : Pairing) (w w' : Walk) : Prop where
  frames : List.Forall₂ (Frame.Alike k) w.frames w'.frames
  loopDepth : w.loopDepth = w'.loopDepth
  deferTarget : Option.Rel ms.Rel w.deferTarget w'.deferTarget

/-- The structs that stand for each other have alike definitions. -/
structure StructTable.Alike (mt : Matching) (k : Pairing) (t u : StructTable) : Prop where
  size : mt.New t.size u.size
  get? : ∀ {i j}, mt.Rel i j → Option.Rel (StructDef.Alike k) (t.get? i) (u.get? j)

/-- The states mirror each other, where `ms` matches scopes and `mt` structs, the checks are about
expressions in `node`, and `F` and `F'` were found before. -/
structure Mirror (ms mt : Matching) (node : NodeId → Prop) (F F' : List Finding) (c d : Checker) :
    Prop where
  scopes : c.scopes.Alike ms (mt.pairing node) d.scopes
  structs : c.structs.Alike mt (mt.pairing node) d.structs
  types : ∀ {id}, node id →
    Option.Rel (Ty.Alike (mt.pairing node)) (c.types.get? id) (d.types.get? id)
  walk : c.walk.Alike ms (mt.pairing node) d.walk
  context : c.context.Alike F F' d.context

/-- The states mirror each other, and so do the scopes that the checks have entered. -/
structure Mirrored (ms mt : Matching) (node : NodeId → Prop) (F F' : List Finding)
    (S S' : List Level) (c d : Checker) : Prop where
  levels : List.Forall₂ (fun l l' => ms.Rel l.scope l'.scope) S S'
  nested : Nested S c
  mirror : Mirror ms mt node F F' c d

namespace StructTable.Alike

variable {mt : Matching} {node : NodeId → Prop} {t u : StructTable}
  (h : t.Alike mt (mt.pairing node) u)

include h

theorem reserve (name module : String) (isPublic : Bool) :
    (t.reserve name module isPublic).Alike mt (mt.pairing node)
      (u.reserve name module isPublic) where
  size := by
    rw [StructTable.size_reserve, StructTable.size_reserve]
    exact h.size.succ
  get? {i j} hij := by
    rw [get?_reserve, get?_reserve]
    have hiff := hij.eq_size_iff h.size
    by_cases hi : i = t.size
    · rw [if_pos hi, if_pos (hiff.mp hi)]
      exact .some ⟨.inr h.size, .nil, rfl⟩
    · rw [if_neg hi, if_neg (fun hj => hi (hiff.mpr hj))]
      exact h.get? hij

/-- A draft is accepted on both sides or on none. -/
theorem finalize? {draft draft' : StructDraft} (hdraft : draft.Alike (mt.pairing node) draft') :
    Option.Rel (Alike mt (mt.pairing node)) (t.finalize? draft) (u.finalize? draft') := by
  have hid : mt.Rel draft.id draft'.id := .inr hdraft.id
  rcases (h.get? hid).inv with ⟨hd, hd'⟩ | ⟨d, d', hd, hd', hdd⟩
  · rw [StructTable.finalize?, StructTable.finalize?, hd, hd']
    exact .none
  by_cases hfinal : d'.isFinalized = true
  · simp only [StructTable.finalize?, hd, hd', hdd.isFinalized, hfinal, if_true]
    exact .none
  obtain ⟨v, hv⟩ : ∃ v, t.finalize? draft = some v := by
    simp [StructTable.finalize?, hd, hdd.isFinalized, hfinal]
  obtain ⟨w, hw⟩ : ∃ w, u.finalize? draft' = some w := by
    simp [StructTable.finalize?, hd', hfinal]
  obtain ⟨e, he, hget⟩ := StructTable.get?_finalize? hv
  obtain ⟨e', he', hget'⟩ := StructTable.get?_finalize? hw
  rw [hd] at he
  rw [hd'] at he'
  cases he
  cases he'
  rw [hv, hw]
  refine .some ⟨?_, fun {i j} hij => ?_⟩
  · rw [StructTable.size_finalize? hv, StructTable.size_finalize? hw]
    exact h.size
  · rw [hget, hget']
    have hiff := hij.eq_iff hid
    by_cases hi : i = draft.id
    · rw [if_pos hi, if_pos (hiff.mp hi)]
      refine .some ⟨hdd.id, hdraft.members, ?_⟩
      rw [hdd.rest]
    · rw [if_neg hi, if_neg (fun hj => hi (hiff.mpr hj))]
      exact h.get? hij

end StructTable.Alike

namespace Walk.Alike

variable {ms : Matching} {k : Pairing} {w w' : Walk} (h : w.Alike ms k w')

include h

theorem frame : Option.Rel (Frame.Alike k) w.frames.head? w'.frames.head? := by
  have hframes := h.frames
  generalize w.frames = frames at hframes ⊢
  generalize w'.frames = frames' at hframes ⊢
  cases hframes with
  | nil => exact .none
  | cons hframe _ => exact .some hframe

end Walk.Alike

namespace Mirror

variable {ms mt : Matching} {node : NodeId → Prop} {F F' : List Finding} {c d : Checker}
  {i j : ScopeId} (h : Mirror ms mt node F F' c d)

include h

theorem setScopes {t u : ScopeTree} (htu : t.Alike ms (mt.pairing node) u) :
    Mirror ms mt node F F' { c with scopes := t } { d with scopes := u } :=
  { h with scopes := htu }

theorem ownership? : c.ownership? = d.ownership? :=
  h.walk.frame.map_eq fun _ _ hframe => hframe.ownership

theorem reportAny (cause? : Option Cause) (span : Span) :
    Mirror ms mt node F F' { c with context := c.context.reportAny span cause? }
      { d with context := d.context.reportAny span cause? } :=
  { h with context := h.context.reportAny cause? span }

theorem record {id : NodeId} {ty ty' : Ty} (hty : ty.Alike (mt.pairing node) ty') :
    Mirror ms mt node F F' (c.record id ty) (d.record id ty') := by
  refine { h with types := fun {i} hi => ?_ }
  rw [Checker.record, Checker.record, TypeTable.get?_insert, TypeTable.get?_insert]
  split
  · exact .some hty
  · exact h.types hi

/-- What has been found up to now is left out of the comparison. -/
theorem rebase : Mirror ms mt node c.context.findings d.context.findings c d :=
  { h with context := ⟨h.context.place, [], [], by simp⟩ }

omit h in
/-- Actions that lead to states that mirror each other have found the same. -/
theorem shown_emitted {α β : Type} {m : CheckM α} {n : CheckM β}
    (h : Mirror ms mt node c.context.findings d.context.findings (m.exec c) (n.exec d)) :
    (m.emitted c).map Finding.shown = (n.emitted d).map Finding.shown := by
  obtain ⟨new, new', hnew, hnew', heq⟩ := h.context.findings
  rw [CheckM.emitted_eq hnew, CheckM.emitted_eq hnew', heq]

variable (hij : ms.Rel i j)

include hij

theorem view : View (mt.pairing node) i j c d where
  lookup? := h.scopes.lookup? hij
  imported name := (h.scopes.findImport? hij name).map_eq fun a b hab => by rw [hab.rest]
  qualifiedLookup := h.scopes.qualifiedLookup hij
  enumMembers? := h.scopes.enumMembers? hij
  symbol? := (h.scopes.scope hij).symbol?
  isModule := (h.scopes.scope hij).isModule
  moduleAt := by
    rw [Checker.moduleAt, Checker.moduleAt, h.scopes.owningModule? hij, h.context.moduleName]
  struct := h.structs.get?
  frame := h.walk.frame
  loopDepth := h.walk.loopDepth
  deferTarget := h.walk.deferTarget.isSome_eq

theorem allocate (name : String) (span : Span) :
    Mirror ms mt node F F' (c.allocate i name span) (d.allocate j name span) := by
  rw [Checker.allocate, Checker.allocate, h.ownership?]
  rcases (h.scopes.ledgerOwner? hij).inv with ⟨ho, ho'⟩ | ⟨o, o', ho, ho', hoo⟩
  · rw [ho, ho']
    exact h
  · rw [ho, ho']
    exact h.setScopes (h.scopes.updateLedger hoo _)

theorem rename (target source : String) :
    Mirror ms mt node F F' (c.rename i target source) (d.rename j target source) := by
  rw [Checker.rename, Checker.rename]
  rcases (h.scopes.ledgerFor? hij source).inv with ⟨ho, ho'⟩ | ⟨o, o', ho, ho', hoo⟩
  · rw [ho, ho']
    exact h
  · rw [ho, ho']
    exact h.setScopes (h.scopes.updateLedger hoo _)

theorem release (name : String) (span : Span) (kind : FreeKind) :
    Mirror ms mt node F F' (c.release i name span kind) (d.release j name span kind) := by
  rw [Checker.release, Checker.release]
  rcases (h.scopes.ledgerFor? hij name).inv with ⟨ho, ho'⟩ | ⟨o, o', ho, ho', hoo⟩
  · rw [ho, ho']
    exact h
  · rw [ho, ho']
    dsimp only
    rw [(h.scopes.scope hoo).ledger]
    cases (d.scopes.scope o').ledger with
    | none => exact h
    | some ledger =>
      have hscopes := h.setScopes (h.scopes.updateLedger hoo fun l => (l.release name span kind).1)
      exact hscopes.reportAny _ span

theorem checkUse (name : String) (span : Span) :
    Mirror ms mt node F F' (c.checkUse i name span) (d.checkUse j name span) := by
  have hcause : ((c.scopes.ledgerFor? i name).bind fun o =>
        (c.scopes.scope o).ledger.bind (·.useCause? name)) =
      (d.scopes.ledgerFor? j name).bind fun o =>
        (d.scopes.scope o).ledger.bind (·.useCause? name) := by
    rcases (h.scopes.ledgerFor? hij name).inv with ⟨ho, ho'⟩ | ⟨o, o', ho, ho', hoo⟩
    · rw [ho, ho', Option.bind_none, Option.bind_none]
    · rw [ho, ho', Option.bind_some, Option.bind_some, (h.scopes.scope hoo).ledger]
  rw [Checker.checkUse, Checker.checkUse, hcause]
  exact h.reportAny _ span

theorem leaveScope : Mirror ms mt node F F' (c.leaveScope i) (d.leaveScope j) := by
  have hcleared := h.setScopes (h.scopes.clearDeferred hij)
  rw [Checker.leaveScope, Checker.leaveScope, (h.scopes.scope hij).deferred]
  generalize (d.scopes.scope j).deferred = waiting
  generalize ({ c with scopes := c.scopes.clearDeferred i } : Checker) = c at hcleared ⊢
  generalize ({ d with scopes := d.scopes.clearDeferred j } : Checker) = d at hcleared ⊢
  clear h
  induction waiting generalizing c d with
  | nil => exact hcleared
  | cons w waiting ih => exact ih _ _ (hcleared.release hij w.name w.span .explicit)

theorem reportLeaks : Mirror ms mt node F F' (c.reportLeaks i) (d.reportLeaks j) := by
  rw [Checker.reportLeaks, Checker.reportLeaks, h.context.config, (h.scopes.scope hij).ledger]
  split
  · cases (d.scopes.scope j).ledger with
    | none => exact h
    | some ledger => exact { h with context := h.context.reportLeaks ledger }
  · exact h

end Mirror

namespace Mirrored

variable {ms mt : Matching} {node : NodeId → Prop} {F F' : List Finding} {l l' : Level}
  {S S' : List Level} {c d : Checker}

theorem head (h : Mirrored ms mt node F F' (l :: S) (l' :: S') c d) : ms.Rel l.scope l'.scope := by
  cases h.levels with
  | cons hl _ => exact hl

/-- New scopes inside the innermost ones are entered. -/
theorem push (h : Mirrored ms mt node F F' (l :: S) (l' :: S') c d) (name : String)
    (owner : ScopeOwner) (ledger : Option Ledger) :
    Mirrored ms mt node F F' (⟨c.scopes.size, ledger.isSome⟩ :: l :: S)
      (⟨d.scopes.size, ledger.isSome⟩ :: l' :: S')
      { c with scopes := c.scopes.addScope l.scope name owner ledger }
      { d with scopes := d.scopes.addScope l'.scope name owner ledger } where
  levels := .cons (.inr h.mirror.scopes.size) h.levels
  nested := h.nested.push name owner ledger
  mirror := h.mirror.setScopes (h.mirror.scopes.addScope h.head h.nested.scope_lt name owner ledger)

/-- The innermost scopes are left, with the walks with which they were entered. -/
theorem pop {c₀ d₀ : Checker} (h₀ : Mirrored ms mt node F F' S S' c₀ d₀)
    (h : Mirrored ms mt node F F' (l :: S) (l' :: S') c d) :
    Mirrored ms mt node F F' S S' { c with walk := c₀.walk } { d with walk := d₀.walk } where
  levels := h₀.levels
  nested := h₀.nested.pop h.nested
  mirror := { h.mirror with walk := h₀.mirror.walk }

end Mirrored

theorem mirror_ruleLockstep (ms mt : Matching) (node : NodeId → Prop) (F F' : List Finding)
    {l l' : Level} {S S' : List Level} : RuleLockstep (mt.pairing node) l.scope l'.scope
      (Mirrored ms mt node F F' (l :: S) (l' :: S')) where
  view h := h.mirror.view h.head
  report span hcause hrule h :=
    ⟨h.levels, nested_unconditional.report span (Cause.isTyping_of_isRule hrule) trivial h.nested,
      { h.mirror with context := h.mirror.context.report hcause.draft hcause.tag span }⟩
  record hid hty h :=
    ⟨h.levels, nested_unconditional.record _ trivial trivial h.nested, h.mirror.record hty⟩
  allocate name span h :=
    ⟨h.levels, h.nested.memory (.allocate ..), h.mirror.allocate h.head name span⟩
  rename target source h :=
    ⟨h.levels, h.nested.memory (.rename ..), h.mirror.rename h.head target source⟩
  release name span kind h :=
    ⟨h.levels, h.nested.memory (.release ..), h.mirror.release h.head name span kind⟩
  checkUse name span h :=
    ⟨h.levels, h.nested.memory (.checkUse ..), h.mirror.checkUse h.head name span⟩
  deferFree {c d t t'} name span ht ht' h := by
    have htarget := h.mirror.walk.deferTarget
    rw [ht, ht'] at htarget
    cases htarget with
    | some htt =>
      exact ⟨h.levels, h.nested.memory (.deferFree ..),
        h.mirror.setScopes (h.mirror.scopes.deferFree htt name span)⟩

theorem mirror_stepLockstep (ms mt : Matching) (node : NodeId → Prop) (F F' : List Finding) :
    StepLockstep (mt.pairing node) (Mirrored ms mt node F F') where
  expr := (mirror_ruleLockstep ms mt node F F').exprLockstep fun h => h.mirror.types
  jump span hjump h :=
    ⟨h.levels, nested_unconditional.report span (Cause.isTyping_of_isJump hjump) trivial h.nested,
      { h.mirror with context := h.mirror.context.report rfl rfl span }⟩
  insert hsymbol ht hu h :=
    ⟨h.levels, nested_unconditional.insert ht trivial h.nested,
      h.mirror.setScopes (h.mirror.scopes.insert? h.head hsymbol ht hu)⟩
  reserve {l l' S S' c d} name isPublic h := by
    refine ⟨h.mirror.structs.size, h.levels,
      (nested_unconditional.reserve name isPublic trivial h.nested).2, ?_⟩
    rw [(h.mirror.view h.head).moduleAt]
    exact { h.mirror with structs := h.mirror.structs.reserve name _ isPublic }
  finalize {S S' c d draft draft'} hdraft h := by
    refine ⟨h.levels, nested_unconditional.finalize trivial trivial h.nested, ?_⟩
    rcases (h.mirror.structs.finalize? hdraft).inv with ⟨ht, hu⟩ | ⟨t, u, ht, hu, htu⟩
    · rw [ht, hu]
      exact h.mirror
    · rw [ht, hu]
      exact { h.mirror with structs := htu }
  leaveScope h := ⟨h.levels, h.nested.memory (.leaveScope _), h.mirror.leaveScope h.head⟩
  enterLoop h :=
    ⟨h.levels, nested_unconditional.enterLoop trivial h.nested,
      { h.mirror with
        walk := { h.mirror.walk with loopDepth := congrArg (· + 1) h.mirror.walk.loopDepth } }⟩
  enterDefer h :=
    ⟨h.levels, nested_unconditional.enterDefer trivial h.nested,
      { h.mirror with walk := { h.mirror.walk with deferTarget := .some h.head } }⟩
  restore h₀ h :=
    ⟨h.levels, nested_unconditional.restore trivial h₀.nested trivial h.nested,
      { h.mirror with walk := h₀.mirror.walk }⟩
  pushBlock name h := h.push name .block none
  popBlock h₀ hwalk hwalk' h := by
    have hleft := h₀.pop h
    rw [← hwalk, ← hwalk'] at hleft
    exact hleft
  pushBody name hframe h := by
    have hpushed := h.push name (.function name) (some {})
    exact ⟨hpushed.levels, nested_unconditional.pushBody _ name trivial h.nested,
      { hpushed.mirror with walk := ⟨.cons hframe h.mirror.walk.frames, rfl, .none⟩ }⟩
  popBody {i i' _ _ _ _ c d} h₀ h := by
    have hnested := h.nested.memory (.reportLeaks i)
    exact h₀.pop ⟨h.levels, hnested, h.mirror.reportLeaks h.head⟩

/-- States that mirror each other are kept in step by every check of the same syntax. -/
theorem mirror_lockstep (ms mt : Matching) (node : NodeId → Prop) (F F' : List Finding) :
    Lockstep (mt.pairing node) (Mirrored ms mt node F F') :=
  (mirror_stepLockstep ms mt node F F').lockstep

end Warden
