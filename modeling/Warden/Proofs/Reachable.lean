import Warden.Proofs.Faults.Reported

/-!
# What holds in every state of a check

A property holds in all states that a check can come to as soon as it holds at the start and each
elementary change keeps it (`Checker.Reachable.keeps`). To the changes that a check of statements
makes, a program that is resolved adds two: a module is registered, and an import is bound. Nothing
is asked of the scopes in which a check works.
-/

namespace Warden.Checker

open CheckM

/-- A property of states that holds at the start, and that each elementary change of a run keeps. -/
structure RunInvariant (P : Checker → Prop) : Prop where
  start (config) : P (ofConfig config)
  report {c} (cause span) : P c → P (c.report cause span)
  enter {c} (m : Module) : P c → P { c with context := c.context.enter m }
  record {c} (id ty) : P c → P (c.record id ty)
  memory {c f} : MemoryOp f → P c → P (f c)
  setWalk {c} (walk) : P c → P { c with walk }
  setStructs {c} (structs) : P c → P { c with structs }
  addBlock {c} (parent name) : P c → P { c with scopes := c.scopes.addBlock parent name }
  addFunction {c} (parent name) : P c → P { c with scopes := c.scopes.addFunction parent name }
  insert {c scope symbol t} : P c → c.scopes.insert? scope symbol = some t →
    P { c with scopes := t }
  addModule {c name scopes} : P c → c.scopes.addModule? name = some scopes → P { c with scopes }
  addImport {c id module localName scopes} : P c →
    c.scopes.addImport? id module localName = some scopes → P { c with scopes }

namespace RunInvariant

variable {P : Checker → Prop} (hP : RunInvariant P)

include hP

theorem invariant : Invariant P :=
  { hP with report := fun span _ => hP.report _ span }

theorem moduleInvariant : Resolver.ModuleInvariant P :=
  { hP with
    check := fun m scope _ => Respects.invariant hP.invariant fun hR => hR.respects_module m scope }

theorem step {c d : Checker} (hstep : Step c d) (h : P c) : P d := by
  cases hstep with
  | enter m => exact hP.enter m h
  | report cause span => exact hP.report cause span h
  | resolve ty scope =>
    exact Respects.invariant hP.invariant (fun hR => hR.respects_resolve scope ty) h
  | record id _ => exact hP.record id _ h
  | memory hf => exact hP.memory hf h
  | addModule ht => exact hP.addModule h ht
  | addImport ht => exact hP.addImport h ht
  | addBlock parent name => exact hP.addBlock parent name h
  | addFunction parent name => exact hP.addFunction parent name h
  | declare scope span _ =>
    exact Respects.invariant hP.invariant (fun hR => hR.respects_declare scope _ span) h
  | setWalk _ => exact hP.setWalk _ h
  | reserve name module isPublic => exact hP.setStructs _ h
  | finalize _ =>
    exact Respects.invariant hP.invariant (fun hR => hR.respects_finalizeStruct _) h

end RunInvariant

/-- What holds at the start and is kept by every elementary change holds in all states that a check
can come to. -/
theorem Reachable.keeps {P : Checker → Prop} (hP : RunInvariant P) {c : Checker}
    (h : c.Reachable) : P c := by
  induction h with
  | start config => exact hP.start config
  | resolve p _ ih => exact resolve_invariant hP.moduleInvariant ih p
  | stmt s scope _ ih =>
    exact Respects.invariant hP.invariant (fun hR => hR.respects_stmt scope s) ih
  | expr e scope _ ih =>
    exact Respects.invariant hP.invariant (fun hR => hR.respects_expr scope e) ih
  | step hstep _ ih => exact hP.step hstep ih

end Warden.Checker
