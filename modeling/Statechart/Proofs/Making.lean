import Mathlib.Data.List.Perm.Basic
import Statechart.Proofs.Construction

/-!
# How the states of a machine are constructed

The states are constructed one at a time, and what is below a state before the state itself. The construction is a
recursion over the tree of plans; here it is shown to come to one pass over a list of states.

* `Region.bottomUp` : the states of a tree in that order; `Region.bottomUp_perm` : each state is there once;
* `Turn.make` : constructs one state; `CallsFactories` : a construction that constructs the listed states and does nothing
  else; `Plan.construct_callsFactories`;
* `Makes` : the notes of constructing states, one after the other; `Turn.mapM_make_ends`.
-/

set_option autoImplicit false

namespace Statechart

open Turn

/-! ## The order of the states -/

section Order

variable {ρ ν : Type}

mutual

/-- The states of a region and of all regions below it: in their order, each behind all that is below it. -/
def Region.bottomUp : Region ρ ν → List ν
  | ⟨_, nodes⟩ => Node.bottomUpOfNodes nodes

/-- The given states and all below them. -/
def Node.bottomUpOfNodes : List (Node ρ ν) → List ν
  | [] => []
  | node :: nodes => node.bottomUp ++ Node.bottomUpOfNodes nodes

/-- The states of the regions of a state, and then the state. -/
def Node.bottomUp : Node ρ ν → List ν
  | ⟨data, regions⟩ => Region.bottomUpOfRegions regions ++ [data]

/-- The states of the given regions and of all regions below them. -/
def Region.bottomUpOfRegions : List (Region ρ ν) → List ν
  | [] => []
  | r :: rs => r.bottomUp ++ Region.bottomUpOfRegions rs

end

mutual

/-- Every state is there as often as it is in the tree. -/
theorem Region.bottomUp_perm : ∀ r : Region ρ ν, r.bottomUp.Perm (r.preorder.flatMap fun q => q.nodes.map Node.data)
  | ⟨data, nodes⟩ => by
    rw [Region.bottomUp, Region.preorder, List.flatMap_cons]
    exact Node.bottomUpOfNodes_perm nodes

theorem Node.bottomUpOfNodes_perm : ∀ nodes : List (Node ρ ν),
    (Node.bottomUpOfNodes nodes).Perm
      (nodes.map Node.data ++ (Node.preorderOfNodes nodes).flatMap fun q => q.nodes.map Node.data)
  | [] => .refl _
  | node :: nodes => by
    rw [Node.bottomUpOfNodes, Node.preorderOfNodes, List.map_cons, List.flatMap_append]
    refine ((Node.bottomUp_perm node).append (Node.bottomUpOfNodes_perm nodes)).trans ?_
    rw [List.cons_append, List.cons_append]
    refine .cons _ ?_
    rw [← List.append_assoc, ← List.append_assoc]
    exact (List.perm_append_comm).append_right _

theorem Node.bottomUp_perm : ∀ node : Node ρ ν,
    node.bottomUp.Perm (node.data :: node.preorder.flatMap fun q => q.nodes.map Node.data)
  | ⟨data, regions⟩ => by
    rw [Node.bottomUp, Node.preorder]
    exact ((Region.bottomUpOfRegions_perm regions).append_right _).trans (List.perm_append_singleton _ _)

theorem Region.bottomUpOfRegions_perm : ∀ rs : List (Region ρ ν),
    (Region.bottomUpOfRegions rs).Perm ((Region.preorderOfRegions rs).flatMap fun q => q.nodes.map Node.data)
  | [] => .refl _
  | r :: rs => by
    rw [Region.bottomUpOfRegions, Region.preorderOfRegions, List.flatMap_append]
    exact (Region.bottomUp_perm r).append (Region.bottomUpOfRegions_perm rs)

end

/-- The light of the lamp comes first, since the lamp is on while there is light. -/
example : (Lamp.plan.bottomUp).map StateDeclaration.id = [.dim, .bright, .on, .off] := rfl

end Order

variable {σ γ δ α β : Type}

/-! ## Constructing states -/

/-- Constructs a state: its factory is called, and that is noted. -/
def Turn.make (s : StateDeclaration σ γ δ) : Turn σ γ δ (Behavior γ δ) := do
  note (.stateMade s.id)
  perform s.factory

/-- The construction constructs the listed states one after the other and does nothing else: it is halted where that is,
and otherwise makes something of the behaviours that is in `P`. -/
def CallsFactories (states : List (StateDeclaration σ γ δ)) (x : Construction σ γ δ α)
    (P : List (Behavior γ δ) → α → Prop) : Prop :=
  ∀ c, Ends (states.mapM make) c (fun behaviors c' => ∃ a, x.run c = .ok (.ok a) c' ∧ P behaviors a)
    fun h c' => x.run c = .error h c'

namespace CallsFactories

variable {states states' : List (StateDeclaration σ γ δ)} {P : List (Behavior γ δ) → α → Prop}
  {Q : List (Behavior γ δ) → β → Prop}

theorem pure {a : α} (h : P [] a) : CallsFactories [] (Pure.pure a : Construction σ γ δ α) P :=
  fun _ => ⟨a, rfl, h⟩

theorem bind {x : Construction σ γ δ α} {f : α → Construction σ γ δ β} (hx : CallsFactories states x P)
    (hf : ∀ behaviors a, P behaviors a →
      CallsFactories states' (f a) fun behaviors' => Q (behaviors ++ behaviors')) :
    CallsFactories (states ++ states') (x >>= f) Q := by
  intro c
  rw [List.mapM_append, ends_bind]
  refine (hx c).mono (fun behaviors c₁ h₁ => ?_) fun h c₁ h₁ => ?_
  · obtain ⟨a, hrun, hP⟩ := h₁
    rw [ends_bind]
    refine (hf behaviors a hP c₁).mono (fun behaviors' c₂ h₂ => ?_) fun h c₂ h₂ => ?_
    · obtain ⟨b, hrun', hQ⟩ := h₂
      refine (ends_pure _).2 ⟨b, ?_, hQ⟩
      rw [ExceptT.run_bind, bind_of_ok hrun]
      exact hrun'
    · rw [ExceptT.run_bind, bind_of_ok hrun]
      exact h₂
  · rw [ExceptT.run_bind]
    exact bind_eq_error.2 (.inl h₁)

/-- Something else is made of what was made. -/
theorem map {x : Construction σ γ δ α} {f : α → β} (hx : CallsFactories states x P)
    (hf : ∀ behaviors a, P behaviors a → Q behaviors (f a)) : CallsFactories states (do return f (← x)) Q := by
  rw [← List.append_nil states]
  refine hx.bind fun behaviors a ha => CallsFactories.pure ?_
  rw [List.append_nil]
  exact hf behaviors a ha

/-- One state. -/
theorem make (s : StateDeclaration σ γ δ) :
    CallsFactories [s] (do ExceptT.lift (note (.stateMade s.id)); ExceptT.lift (perform s.factory))
      fun behaviors behavior => behaviors = [behavior] := by
  intro c
  have hrun : ExceptT.run (do ExceptT.lift (note (.stateMade s.id)); ExceptT.lift (perform s.factory)) =
      (do return .ok (← Turn.make s) : Turn σ γ δ (Except BuildError (Behavior γ δ))) := by
    rw [ExceptT.run_bind_lift, ExceptT.run_lift, Turn.make, bind_assoc, map_eq_pure_bind]
  rw [List.mapM_cons, List.mapM_nil, ends_bind, hrun]
  unfold Ends
  cases hmade : Turn.make s c with
  | ok behavior c' => exact ⟨behavior, by rw [bind_of_ok hmade]; rfl, rfl⟩
  | error h c' => exact bind_eq_error.2 (.inl hmade)

end CallsFactories

/-! ## The states of plans -/

/-- The states were constructed from their declarations, with these behaviours. -/
structure MadeOf (states : List (StateDeclaration σ γ δ)) (behaviors : List (Behavior γ δ))
    (units : List (StateUnit σ γ δ)) : Prop where
  ids : units.map StateUnit.id = states.map StateDeclaration.id
  behaviors : units.map StateUnit.behavior = behaviors

theorem MadeOf.nil : MadeOf (σ := σ) (γ := γ) (δ := δ) [] [] [] := ⟨rfl, rfl⟩

theorem MadeOf.append {states states' : List (StateDeclaration σ γ δ)} {behaviors behaviors' : List (Behavior γ δ)}
    {units units' : List (StateUnit σ γ δ)} (h : MadeOf states behaviors units)
    (h' : MadeOf states' behaviors' units') :
    MadeOf (states ++ states') (behaviors ++ behaviors') (units ++ units') :=
  ⟨by rw [List.map_append, List.map_append, h.ids, h'.ids], by rw [List.map_append, h.behaviors, h'.behaviors]⟩

section Construct

variable [DecidableEq σ] [Named σ]

mutual

/-- If every region has a table, a region is constructed by constructing its states from the bottom up. -/
theorem Plan.construct_callsFactories : ∀ p : Plan σ γ δ, (∀ q ∈ p.preorder, ∃ table, Plan.table q = .ok table) →
    CallsFactories p.bottomUp p.construct fun behaviors r => MadeOf p.bottomUp behaviors r.bottomUp
  | ⟨p, nodes⟩, h => by
    rw [Region.preorder] at h
    obtain ⟨table, htable⟩ := h _ List.mem_cons_self
    have hnodes := Plan.constructNodes_callsFactories nodes fun q hq => h q (List.mem_cons_of_mem _ hq)
    rw [Plan.construct, htable, Region.bottomUp,
      show (ExceptT.mk (pure (.ok table)) : Construction σ γ δ (RegionTable σ γ)) = pure table from rfl, pure_bind]
    exact hnodes.map fun _ _ hmade => hmade

theorem Plan.constructNodes_callsFactories : ∀ nodes : List (PlanNode σ γ δ),
    (∀ q ∈ Node.preorderOfNodes nodes, ∃ table, Plan.table q = .ok table) →
      CallsFactories (Node.bottomUpOfNodes nodes) (Plan.constructNodes nodes) fun behaviors made =>
        MadeOf (Node.bottomUpOfNodes nodes) behaviors (Node.bottomUpOfNodes made)
  | [], _ => CallsFactories.pure .nil
  | node :: nodes, h => by
    rw [Node.preorderOfNodes] at h
    have hfirst := Plan.constructNode_callsFactories node fun q hq => h q (List.mem_append_left _ hq)
    have hrest := Plan.constructNodes_callsFactories nodes fun q hq => h q (List.mem_append_right _ hq)
    exact hfirst.bind fun _ _ hmade => hrest.map fun _ _ hmade' => hmade.append hmade'

theorem Plan.constructNode_callsFactories : ∀ node : PlanNode σ γ δ,
    (∀ q ∈ node.preorder, ∃ table, Plan.table q = .ok table) →
      CallsFactories node.bottomUp (Plan.constructNode node) fun behaviors made =>
        MadeOf node.bottomUp behaviors made.bottomUp
  | ⟨s, regions⟩, h => by
    have hbelow := Plan.constructAll_callsFactories regions h
    refine hbelow.bind fun behaviors made hmade => ?_
    have hown := (CallsFactories.make s).map (f := fun behavior => (⟨⟨s.id, behavior⟩, made⟩ : BuiltNode σ γ δ))
      (Q := fun behaviors' n => MadeOf (Node.bottomUp ⟨s, regions⟩) (behaviors ++ behaviors') n.bottomUp) ?_
    · rwa [bind_assoc] at hown
    · rintro _ behavior rfl
      exact hmade.append ⟨rfl, rfl⟩

theorem Plan.constructAll_callsFactories : ∀ plans : List (Plan σ γ δ),
    (∀ q ∈ Region.preorderOfRegions plans, ∃ table, Plan.table q = .ok table) →
      CallsFactories (Region.bottomUpOfRegions plans) (Plan.constructAll plans) fun behaviors made =>
        MadeOf (Region.bottomUpOfRegions plans) behaviors (Region.bottomUpOfRegions made)
  | [], _ => CallsFactories.pure .nil
  | p :: plans, h => by
    rw [Region.preorderOfRegions] at h
    have hfirst := Plan.construct_callsFactories p fun q hq => h q (List.mem_append_left _ hq)
    have hrest := Plan.constructAll_callsFactories plans fun q hq => h q (List.mem_append_right _ hq)
    exact hfirst.bind fun _ _ hmade => hrest.map fun _ _ hmade' => hmade.append hmade'

end

end Construct

/-! ## What is noted -/

/-- The notes of constructing states, one after the other, and how that ended: the construction of each is noted, and then
what became of the events that its factory raised. A factory that panics is the last one to be called. -/
inductive Makes : List σ → List (Note σ) → Except String Unit → Prop where
  | done : Makes [] [] (.ok ())
  | next {s : σ} {states : List σ} {raised l : List (Note σ)} {result : Except String Unit} :
    (∀ n ∈ raised, n.isSilent = true) → Makes states l result →
      Makes (s :: states) (.stateMade s :: raised ++ l) result
  | panicked {s : σ} {states : List σ} {raised : List (Note σ)} {message : String} :
    (∀ n ∈ raised, n.isSilent = true) →
      Makes (s :: states) (.stateMade s :: raised ++ [.panicked message]) (.error message)

theorem Turn.make_ends (s : StateDeclaration σ γ δ) (c : Configuration σ γ δ) :
    Ends (make s) c
      (fun _ c' => ∃ raised, (∀ n ∈ raised, n.isSilent = true) ∧
        c.world.exchange.Wrote [] (.stateMade s.id :: raised) c'.world.exchange)
      fun h c' => ∃ raised message, (∀ n ∈ raised, n.isSilent = true) ∧ h = .panic message ∧
        c.world.exchange.Wrote [] (.stateMade s.id :: raised ++ [.panicked message]) c'.world.exchange := by
  have hnoted := Exchange.wrote_note (n := .stateMade s.id) rfl c.world.exchange
  have hplay := Course.play_follows (N := fun n : Note σ => n.isSilent = true) (fun _ hn => hn)
    (s.factory c.world.context) (c.world.exchange.note (.stateMade s.id))
  unfold make
  rw [ends_bind, ends_note]
  unfold Ends perform performOn
  dsimp only
  generalize (s.factory c.world.context).play (c.world.exchange.note (.stateMade s.id)) = played at hplay
  obtain ⟨⟨result, state⟩, x⟩ := played
  obtain ⟨raised, hw, hraised⟩ := hplay
  cases result with
  | ok behavior => exact ⟨raised, hraised, hnoted.trans hw⟩
  | error message => exact ⟨raised, message, hraised, rfl, (hnoted.trans hw).trans (Exchange.wrote_note rfl x)⟩

/-- By induction on the states: each is constructed where the one before it left off. -/
theorem Turn.mapM_make_ends (states : List (StateDeclaration σ γ δ)) (c : Configuration σ γ δ) :
    Ends (states.mapM make) c
      (fun _ c' => ∃ made, Makes (states.map StateDeclaration.id) made (.ok ()) ∧
        c.world.exchange.Wrote [] made c'.world.exchange)
      fun h c' => ∃ made message, h = .panic message ∧ Makes (states.map StateDeclaration.id) made (.error message) ∧
        c.world.exchange.Wrote [] made c'.world.exchange := by
  induction states generalizing c with
  | nil => exact ⟨[], .done, .refl _⟩
  | cons s states ih =>
    rw [List.mapM_cons, ends_bind]
    refine (make_ends s c).mono (fun behavior c₁ h₁ => ?_) fun h c₁ h₁ => ?_
    · obtain ⟨raised, hraised, hw⟩ := h₁
      rw [ends_bind]
      refine (ih c₁).mono (fun behaviors c₂ h₂ => ?_) fun h c₂ h₂ => ?_
      · obtain ⟨made, hmade, hw'⟩ := h₂
        exact ⟨_, .next hraised hmade, hw.trans hw'⟩
      · obtain ⟨made, message, rfl, hmade, hw'⟩ := h₂
        exact ⟨_, message, rfl, .next hraised hmade, hw.trans hw'⟩
    · obtain ⟨raised, message, hraised, rfl, hw⟩ := h₁
      exact ⟨_, message, rfl, .panicked hraised, hw⟩

end Statechart
