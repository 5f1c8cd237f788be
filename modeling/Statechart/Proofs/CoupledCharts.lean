import Statechart.Proofs.Coupling
import Statechart.Proofs.Invariant

/-!
# Charts in lockstep

* `Chart.Coupling` : charts whose regions are coupled one by one, with a relation between the configurations
  of the whole;
* `Chart.Coupling.operation` : every operation on one of them runs in lockstep with that on the other.
-/

set_option autoImplicit false

namespace Statechart

open Turn

variable {σ γ δ α : Type}

section Charts

variable [DecidableEq σ] [Named σ]

/-- The charts have one setup and coupled regions in the same order, and `T` relates the configurations of the
whole step by step. -/
structure Chart.Coupling (c c' : Chart σ γ δ) (L : BuiltRegion σ γ δ → BuiltRegion σ γ δ → Prop)
    (R : BuiltRegion σ γ δ → Configuration σ γ δ → Configuration σ γ δ → Prop)
    (T : Configuration σ γ δ → Configuration σ γ δ → Prop) : Prop where
  regions : Region.Coupling c.setup (fun _ => True) L R
  consult : ∀ {r r' i} {n : BuiltNode σ γ δ}, L r r' → r.nodes[i]? = some n → ∀ path e,
    Lockstep (fun _ => True) (R r) (n.consult path i e) (n.consult path i e)
  accepts : ∀ {r r'}, L r r' → ∀ s e,
    Lockstep (fun _ => True) (R r) (r.data.accepts s e) (r.data.accepts s e)
  foretell : ∀ {r r' i} {n : BuiltNode σ γ δ}, L r r' → r.nodes[i]? = some n → ∀ e,
    Lockstep (fun _ => True) (R r) (n.foretell i e) (n.foretell i e)
  setup : c'.setup = c.setup
  length : c'.regions.length = c.regions.length
  child : ∀ {j r r'}, c.regions[j]? = some r → c'.regions[j]? = some r' → L r r' ∧ Spans (0, j) T (R r)
  carries : Turn.Carries T
  offer : ∀ e, Lockstep (fun _ => True) T (Turn.offer e) (Turn.offer e)
  take : Lockstep (fun _ => True) T Chart.take Chart.take
  setContext : ∀ {s t} (context : γ), T s t →
    T { s with world.context := context } { t with world.context := context }
  setClock : ∀ {s t} (now : Instant), T s t → T { s with world.clock := now } { t with world.clock := now }
  pending : ∀ {s t}, T s t → t.world.exchange.mailbox.pending = s.world.exchange.mailbox.pending

variable {c c' : Chart σ γ δ} {L : BuiltRegion σ γ δ → BuiltRegion σ γ δ → Prop}
  {R : BuiltRegion σ γ δ → Configuration σ γ δ → Configuration σ γ δ → Prop}
  {T : Configuration σ γ δ → Configuration σ γ δ → Prop}

omit [DecidableEq σ] [Named σ] in
/-- The errors of two turns in lockstep are the same values. -/
theorem Turn.Lockstep.attempt {x y : Turn σ γ δ α} (h : Lockstep (fun _ => True) T x y) :
    Lockstep (fun _ => True) T x.attempt y.attempt := by
  intro s t hT
  refine EndsAlike.attempt ((h s t hT).mono (fun _ _ _ h => h) fun halt _ _ h => ?_)
  cases halt with
  | error e => exact h.2
  | panic message => exact h
  | unfinished => exact h

namespace Chart.Coupling

variable (C : Chart.Coupling c c' L R T)

include C in
/-- The loops over the regions of the charts. -/
theorem onEach {x : BuiltRegion σ γ δ → Turn σ γ δ α}
    (hx : ∀ {r r'}, L r r' → Lockstep (fun _ => True) (R r) (x r) (x r')) :
    Lockstep (fun _ => True) T (Turn.onEach x 0 0 c.regions) (Turn.onEach x 0 0 c'.regions) := by
  refine Lockstep.onEach C.length fun j r r' hr hr' => ?_
  rw [Nat.zero_add]
  exact (hx (C.child hr hr').1).inChild (C.child hr hr').2

include C in
theorem startRegions : Lockstep (fun _ => True) T c.startRegions c'.startRegions := by
  unfold Chart.startRegions
  rw [C.setup]
  exact Region.startAll_lockstep (C.onEach fun hL => C.regions.start .start hL)

include C in
theorem stopRegions : Lockstep (fun _ => True) T c.stopRegions c'.stopRegions := by
  unfold Chart.stopRegions
  rw [C.setup]
  exact Region.stopAll_lockstep (C.onEach fun hL => C.regions.stop .stop hL)

include C in
theorem dispatch (e : Event) : Lockstep (fun _ => True) T (c.dispatch e) (c'.dispatch e) := by
  unfold Chart.dispatch
  rw [C.setup]
  refine (C.carries.callHook _ _).bind fun _ => Lockstep.bind ?_ fun processed => ?_
  · exact Region.processAll_lockstep (C.onEach fun hL => C.regions.process C.consult e hL)
  · refine (C.carries.callHook _ _).bind fun _ => ?_
    split
    · exact C.carries.callHook _ _
    · exact .pure ()

include C in
theorem check (e : Event) : Lockstep (fun _ => True) T (c.check e) (c'.check e) := by
  unfold Chart.check
  refine Region.checkAny_lockstep C.length fun j r r' hr hr' => ?_
  rw [Nat.zero_add]
  exact (C.regions.check C.accepts C.foretell e (C.child hr hr').1).inChild (C.child hr hr').2

include C in
theorem recover (outcome : Except DispatchError Unit) :
    Lockstep (fun _ => True) T (c.recover outcome) (c'.recover outcome) := by
  unfold Chart.recover
  split
  · exact .pure ()
  · rw [C.setup]
    cases c.setup.hooks.failure with
    | none => exact Turn.Carries.fails _
    | some hook =>
      refine (C.carries.note _).bind fun _ => (C.carries.perform _).bind fun verdict => ?_
      cases verdict with
      | handled => exact .pure ()
      | raise e => exact C.offer e
      | stop => exact C.stopRegions
      | propagate => exact Turn.Carries.fails _
  · exact Turn.Carries.fails _

include C in
theorem recovering {pass pass' : Turn σ γ δ Unit} (h : Lockstep (fun _ => True) T pass pass') :
    Lockstep (fun _ => True) T (c.recovering pass) (c'.recovering pass') :=
  h.attempt.bind fun outcome => C.recover outcome

include C in
theorem handle (e : Event) : Lockstep (fun _ => True) T (c.handle e) (c'.handle e) :=
  (C.carries.note _).bind fun _ => (C.recovering (C.dispatch e)).bind fun _ => C.carries.note _

include C in
/-- What is pending is dispatched in lockstep. -/
theorem drain (bound : Nat) : Lockstep (fun _ => True) T (c.drain bound) (c'.drain bound) := by
  induction bound with
  | zero =>
    intro s t hT
    rw [Chart.drain, Chart.drain]
    refine EndsAlike.get ?_
    rw [C.pending hT]
    split
    · exact ⟨rfl, trivial, hT⟩
    · exact EndsAlike.pure hT
  | succ bound ih =>
    rw [Chart.drain, Chart.drain]
    refine C.take.bind fun event => ?_
    split
    · exact (C.handle _).bind fun _ => ih
    · exact .pure ()

include C in
/-- Every operation runs in lockstep on both charts. -/
theorem operation (bound : Nat) (op : Operation γ) :
    Lockstep (fun _ => True) T (op.turn c bound) (op.turn c' bound) := by
  cases op with
  | start => exact (C.recovering C.startRegions).bind fun _ => C.drain bound
  | stop => exact (C.recovering C.stopRegions).bind fun _ => C.drain bound
  | process e => exact (C.offer e).bind fun _ => C.drain bound
  | processNow e => exact (C.handle e).bind fun _ => C.drain bound
  | processPending => exact C.drain bound
  | post e => exact C.offer e
  | check e => exact (C.check e).bind fun _ => .pure ()
  | setContext context => exact fun _ _ hT => ⟨rfl, C.setContext context hT⟩
  | setClock now => exact fun _ _ hT => ⟨rfl, C.setClock now hT⟩

end Chart.Coupling

omit [DecidableEq σ] [Named σ] in
/-- What turns come to that end alike, read off the machines they were run on. -/
theorem Machine.run_of_endsAlike {x y : Turn σ γ δ α} {m m' : Machine σ γ δ}
    (h : EndsAlike x y m.configuration m'.configuration (fun _ => T) fun _ => T) :
    (m'.run y).1 = (m.run x).1 ∧ T (m.run x).2.configuration (m'.run y).2.configuration := by
  refine m.run_of_ends (P := fun result after => (m'.run y).1 = result ∧
    T after.configuration (m'.run y).2.configuration) (Ends.mono h (fun a s hs => ?_) fun halt s hs => ?_)
  · exact m'.run_of_ends (P := fun result after => result = .ok a ∧ T s after.configuration)
      (hs.mono (fun _ _ h => ⟨by rw [h.1], h.2⟩) fun _ _ h => h.elim)
  · exact m'.run_of_ends (P := fun result after => result = .error halt ∧ T s after.configuration)
      (hs.mono (fun _ _ h => h.elim) fun _ _ h => ⟨by rw [h.1], h.2⟩)

omit [DecidableEq σ] [Named σ] in
/-- What an operation on one machine comes to, so it does on the other. -/
theorem Machine.run_of_lockstep {x y : Turn σ γ δ α} (h : Lockstep (fun _ => True) T x y) (m m' : Machine σ γ δ)
    (hT : T m.configuration m'.configuration) :
    (m'.run y).1 = (m.run x).1 ∧ T (m.run x).2.configuration (m'.run y).2.configuration :=
  Machine.run_of_endsAlike ((h _ _ hT).mono (fun _ _ _ h => h) fun _ _ _ h => h.2)

end Charts

end Statechart
