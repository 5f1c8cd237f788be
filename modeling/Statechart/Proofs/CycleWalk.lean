import Mathlib.Data.Finset.Card
import Statechart.Proofs.CompletionLoops

/-!
# The search for loops ends

The walk along the completion rows is a loop without a bound of its own. It goes on from a state to the first declaration
of the state that the row leads to, which need not be the declaration of that state that the walk began with. Still it
ends on every plan, since no state is walked twice.

* `Plan.round` : the loop once round; `Plan.Heads`, `Plan.WalkEnds` : where the loop stands after some rounds, and what
  it ends with;
* `Plan.Tours` : the states walked are different ones, declared and simple; `Plan.Heads.tours` : after every round they stay so;
* `Plan.Heads.cycleFrom` : a walk with a bound on its steps is at the same place;
* `cycle_walk_ends`.
-/

set_option autoImplicit false

namespace Statechart

variable {σ γ δ : Type} [DecidableEq σ]

/-! ## The loop -/

/-- The loop once round: it ends with a loop of completion rows or without, or it goes on at a declared state. -/
inductive Round (σ γ δ : Type) where
  | ends (walked : List σ) (found : Option (List σ))
  | goes (walked : List σ) (next : PlanNode σ γ δ)

namespace Plan

/-- Once round at a simple state. -/
def round (p : Plan σ γ δ) (walked : List σ) (current : PlanNode σ γ δ) : Round σ γ δ :=
  match walked.findIdx? (· = current.data.id) with
  | some position => .ends walked (some (walked.drop position ++ [current.data.id]))
  | none =>
    match p.stride current.data.id with
    | .ends => .ends (walked ++ [current.data.id]) none
    | .stays => .ends (walked ++ [current.data.id]) (some [current.data.id, current.data.id])
    | .moves next => .goes (walked ++ [current.data.id]) next

/-- The states walked and the current one, after some rounds from a state on. Only at simple states the loop goes
round. -/
inductive Heads (p : Plan σ γ δ) (start : PlanNode σ γ δ) : Nat → List σ → PlanNode σ γ δ → Prop where
  | start : Heads p start 0 [] start
  | goes {rounds : Nat} {walked walked' : List σ} {current next : PlanNode σ γ δ} :
    Heads p start rounds walked current → current.isComposite = false →
      p.round walked current = .goes walked' next → Heads p start (rounds + 1) walked' next

/-- The rounds of the loop from a state on, the states walked when it ends, and the loop of completion rows that it has
found. -/
inductive WalkEnds (p : Plan σ γ δ) (start : PlanNode σ γ δ) : Nat → List σ → Option (List σ) → Prop where
  | composite {rounds : Nat} {walked : List σ} {current : PlanNode σ γ δ} :
    p.Heads start rounds walked current → current.isComposite = true → WalkEnds p start rounds walked none
  | ends {rounds : Nat} {walked walked' : List σ} {current : PlanNode σ γ δ} {found : Option (List σ)} :
    p.Heads start rounds walked current → current.isComposite = false →
      p.round walked current = .ends walked' found → WalkEnds p start (rounds + 1) walked' found

/-- The states that are declared. -/
def declared (p : Plan σ γ δ) : Finset σ := (p.states StateDeclaration.id).toFinset

/-- No state is walked twice, and all that are walked are declared and simple. -/
structure Tours (p : Plan σ γ δ) (walked : List σ) : Prop where
  once : walked.Nodup
  simple : ∀ s ∈ walked, ∃ n ∈ p.nodes, n.data.id = s ∧ n.isComposite = false

variable {p : Plan σ γ δ} {start current next : PlanNode σ γ δ} {walked walked' : List σ} {found : Option (List σ)}
  {rounds : Nat}

/-! ## One round -/

/-- As many states are walked as are declared, at most. -/
theorem Tours.length_le (h : p.Tours walked) : walked.length ≤ p.declared.card := by
  rw [← List.toFinset_card_of_nodup h.once]
  refine Finset.card_le_card fun s hs => ?_
  obtain ⟨n, hn, rfl, -⟩ := h.simple s (List.mem_toFinset.1 hs)
  exact List.mem_toFinset.2 (List.mem_map_of_mem hn)

omit [DecidableEq σ] in
theorem Tours.concat (h : p.Tours walked) (hcurrent : current ∈ p.nodes) (hsimple : current.isComposite = false)
    (hfresh : current.data.id ∉ walked) : p.Tours (walked ++ [current.data.id]) where
  once := List.nodup_append.2 ⟨h.once, List.nodup_singleton _, fun s hs t ht heq =>
    hfresh (by rw [← List.mem_singleton.1 ht, ← heq]; exact hs)⟩
  simple s hs := by
    rcases List.mem_append.1 hs with hs | hs
    · exact h.simple s hs
    · exact ⟨current, hcurrent, (List.mem_singleton.1 hs).symm, hsimple⟩

/-- A round that goes on walks the current state, which was not walked before, and goes on at a declared state. -/
theorem round_goes (hround : p.round walked current = .goes walked' next) :
    current.data.id ∉ walked ∧ walked' = walked ++ [current.data.id] ∧ p.stride current.data.id = .moves next := by
  unfold round at hround
  split at hround
  · cases hround
  · rename_i hfresh
    split at hround
    · cases hround
    · cases hround
    · rename_i hstride
      cases hround
      refine ⟨fun hmem => ?_, rfl, hstride⟩
      simpa using List.findIdx?_eq_none_iff.1 hfresh _ hmem

/-- The last round walks the current state unless it was walked before. -/
theorem round_ends (hround : p.round walked current = .ends walked' found) :
    walked' = walked ∨ (current.data.id ∉ walked ∧ walked' = walked ++ [current.data.id]) := by
  unfold round at hround
  split at hround
  · cases hround
    exact .inl rfl
  · rename_i hfresh
    have hfresh' : current.data.id ∉ walked := fun hmem => by
      simpa using List.findIdx?_eq_none_iff.1 hfresh _ hmem
    split at hround <;> cases hround <;> exact .inr ⟨hfresh', rfl⟩

theorem cycleFrom_of_goes (hsimple : current.isComposite = false)
    (hround : p.round walked current = .goes walked' next) (steps : Nat) :
    p.cycleFrom (steps + 1) walked current = p.cycleFrom steps walked' next := by
  obtain ⟨hfresh, rfl, hstride⟩ := round_goes hround
  have hposition : walked.findIdx? (· = current.data.id) = none := by
    refine List.findIdx?_eq_none_iff.2 fun s hs => decide_eq_false fun heq => hfresh ?_
    rwa [← heq]
  rw [cycleFrom, hsimple, hposition, hstride]
  rfl

theorem cycleFrom_of_ends (hsimple : current.isComposite = false)
    (hround : p.round walked current = .ends walked' found) (steps : Nat) :
    p.cycleFrom steps walked current = found := by
  rw [round] at hround
  cases hposition : walked.findIdx? (· = current.data.id) with
  | some position =>
    rw [hposition] at hround
    cases hround
    rw [cycleFrom.eq_def, hsimple, hposition]
    rfl
  | none =>
    rw [hposition] at hround
    cases hstride : p.stride current.data.id with
    | ends =>
      rw [hstride] at hround
      cases hround
      rw [cycleFrom.eq_def, hsimple, hposition, hstride]
      rfl
    | stays =>
      rw [hstride] at hround
      cases hround
      rw [cycleFrom.eq_def, hsimple, hposition, hstride]
      rfl
    | moves next =>
      rw [hstride] at hround
      cases hround

/-! ## All rounds -/

/-- After every round the states walked are as many different ones as there were rounds. -/
theorem Heads.tours (hstart : start ∈ p.nodes) (h : p.Heads start rounds walked current) :
    p.Tours walked ∧ walked.length = rounds ∧ current ∈ p.nodes := by
  induction h with
  | start => exact ⟨⟨List.nodup_nil, nofun⟩, rfl, hstart⟩
  | goes _ hsimple hround ih =>
    obtain ⟨htours, hlength, hcurrent⟩ := ih
    obtain ⟨hfresh, rfl, hstride⟩ := round_goes hround
    refine ⟨htours.concat hcurrent hsimple hfresh, ?_, (leads_of_stride hstride).1⟩
    rw [List.length_append, List.length_singleton, hlength]

/-- A walk that may take more steps comes by. -/
theorem Heads.cycleFrom (h : p.Heads start rounds walked current) (steps : Nat) :
    p.cycleFrom (rounds + steps) [] start = p.cycleFrom steps walked current := by
  induction h generalizing steps with
  | start => rw [Nat.zero_add]
  | goes _ hsimple hround ih =>
    rw [Nat.add_assoc, Nat.add_comm 1, ih, cycleFrom_of_goes hsimple hround]

/-- From wherever the loop stands it comes to an end. -/
theorem Heads.exists_end (hstart : start ∈ p.nodes) (h : p.Heads start rounds walked current) :
    ∃ rounds walked found, p.WalkEnds start rounds walked found := by
  -- on the declared states that are not walked yet
  induction hleft : p.declared.card - rounds using Nat.strongRecOn generalizing rounds walked current with
  | ind left ih =>
    cases hsimple : current.isComposite with
    | true => exact ⟨_, _, _, .composite h hsimple⟩
    | false =>
      cases hround : p.round walked current with
      | ends walked' found => exact ⟨_, _, _, .ends h hsimple hround⟩
      | goes walked' next =>
        have hnext := h.goes hsimple hround
        obtain ⟨htours, hlength, -⟩ := hnext.tours hstart
        have hlt := htours.length_le
        exact ih _ (by omega) hnext rfl

/-- How the loop ends, the walk with as many steps as there are declarations ends as well. -/
theorem WalkEnds.spec (hstart : start ∈ p.nodes) (h : p.WalkEnds start rounds walked found) :
    rounds ≤ p.declared.card + 1 ∧ p.Tours walked ∧ p.cycleFrom p.nodes.length [] start = found := by
  have hcard : p.declared.card ≤ p.nodes.length := by
    simpa [declared, Region.states] using List.toFinset_card_le (p.states StateDeclaration.id)
  cases h with
  | composite hheads hcomposite =>
    obtain ⟨htours, hlength, -⟩ := hheads.tours hstart
    have hlt := htours.length_le
    obtain ⟨steps, hsteps⟩ := Nat.exists_eq_add_of_le (by omega : rounds ≤ p.nodes.length)
    refine ⟨by omega, htours, ?_⟩
    rw [hsteps, hheads.cycleFrom, Plan.cycleFrom.eq_def, hcomposite]
    rfl
  | @ends rounds walked _ current _ hheads hsimple hround =>
    obtain ⟨htours, hlength, hcurrent⟩ := hheads.tours hstart
    have hlt := htours.length_le
    obtain ⟨steps, hsteps⟩ := Nat.exists_eq_add_of_le (by omega : rounds ≤ p.nodes.length)
    refine ⟨by omega, ?_, ?_⟩
    · obtain rfl | ⟨hfresh, rfl⟩ := round_ends hround
      · exact htours
      · exact htours.concat hcurrent hsimple hfresh
    · rw [hsteps, hheads.cycleFrom, cycleFrom_of_ends hsimple hround]

end Plan

/-- **The walk along completion rows ends.** Whatever a plan declares, the loop that walks on from one of its states ends,
after going round at most once more than there are different declared states. At no time has it walked a state twice, and
all states that it walks are declared and simple. What it finds is what the search reports for that state: a bound on its
steps by the number of declarations cuts nothing off. -/
theorem cycle_walk_ends (p : Plan σ γ δ) {start : PlanNode σ γ δ} (hstart : start ∈ p.nodes) :
    (∃ rounds walked found, p.WalkEnds start rounds walked found) ∧
    (∀ rounds walked found, p.WalkEnds start rounds walked found →
      rounds ≤ p.declared.card + 1 ∧ p.Tours walked ∧ p.cycleFrom p.nodes.length [] start = found) ∧
    ∀ rounds walked current, p.Heads start rounds walked current → rounds ≤ p.declared.card ∧ p.Tours walked := by
  refine ⟨Plan.Heads.start.exists_end hstart, fun _ _ _ h => h.spec hstart, fun rounds walked current h => ?_⟩
  obtain ⟨htours, rfl, -⟩ := h.tours hstart
  exact ⟨htours.length_le, htours⟩

/-- The light that flickers takes as many rounds as it may. -/
theorem cycle_walk_ends_flicker : ∃ start ∈ Lamp.flickerPlan.nodes,
    Lamp.flickerPlan.WalkEnds start 3 [.dim, .bright] (some [.dim, .bright, .dim]) ∧
      3 ≤ Lamp.flickerPlan.declared.card + 1 ∧ Lamp.flickerPlan.Tours [.dim, .bright] ∧
        Lamp.flickerPlan.cycleFrom 2 [] start = some [.dim, .bright, .dim] ∧
          Lamp.flickerPlan.declared.card + 1 = 3 := by
  have hstart : Lamp.flickerPlan.nodes[0] ∈ Lamp.flickerPlan.nodes := List.getElem_mem _
  have hdim : Lamp.flickerPlan.Heads Lamp.flickerPlan.nodes[0] 0 [] Lamp.flickerPlan.nodes[0] := .start
  have hbright : Lamp.flickerPlan.Heads _ 1 [.dim] Lamp.flickerPlan.nodes[1] := hdim.goes rfl rfl
  have hagain : Lamp.flickerPlan.Heads _ 2 [.dim, .bright] Lamp.flickerPlan.nodes[0] := hbright.goes rfl rfl
  have hends := Plan.WalkEnds.ends hagain rfl rfl
  obtain ⟨-, hspec, -⟩ := cycle_walk_ends Lamp.flickerPlan hstart
  obtain ⟨hrounds, htours, hfound⟩ := hspec 3 _ _ hends
  exact ⟨_, hstart, hends, hrounds, htours, hfound, rfl⟩

end Statechart
