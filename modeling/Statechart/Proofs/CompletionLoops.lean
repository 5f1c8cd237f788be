import Mathlib.Data.List.Chain
import Mathlib.Data.List.Nodup
import Statechart.Proofs.Compilation
import Statechart.Proofs.Reliable
import Statechart.Proofs.SimpleStates

/-!
# Loops of completion rows

The search for loops in a plan tells how its region settles. A loop that it reports is one that the region
never leaves; and where all states are simple and no guard can stop a completion row, a region without such a
loop comes to rest after as many rows as it has states.

* `Plan.Takes`, `Plan.Leads`, `Plan.IsLoop` : the completion row that a state takes, where it leads to, and a
  closed sequence of such states;
* `Plan.cycleFrom_eq_none`, `Plan.isLoop_of_cycleFrom` : what the search finds;
* `Plan.Compiles.due_of_none`, `Plan.Compiles.due_of_row`, `Plan.Compiles.fire` : one step of the region;
* `Plan.Compiles.follow_bounded`, `flat_completion_settles`;
* `Plan.IsLoop.follow_overflows`, `completion_loop_never_settles`;
* `reliable_region_settles`, `reliable_loop_overflows` : the same where no callback can fail.
-/

set_option autoImplicit false

namespace Statechart

open Turn

variable {σ γ δ : Type} [DecidableEq σ] {p : Plan σ γ δ} {s t : σ}

/-! ## Loops -/

/-- Of the completion rows that accept the state, this is the first. -/
def Plan.Takes (p : Plan σ γ δ) (s : σ) (row : Transition σ γ σ) : Prop :=
  ∃ before after, p.data.rows = before ++ row :: after ∧ row.trigger = .completion ∧
    row.source.accepts s = true ∧ ∀ other ∈ before, other.trigger = .completion → other.source.accepts s = false

/-- The state takes an unguarded row to `t`. -/
def Plan.Leads (p : Plan σ γ δ) (s t : σ) : Prop :=
  ∃ row, p.Takes s row ∧ row.guard = none ∧ row.target = .state t

/-- The state takes an unguarded internal row. -/
def Plan.Stays (p : Plan σ γ δ) (s : σ) : Prop :=
  ∃ row, p.Takes s row ∧ row.guard = none ∧ row.target = .internal

/-- A closed sequence of simple states of the region, each of which leads to the next; or a state that stays,
written twice. -/
structure Plan.IsLoop (p : Plan σ γ δ) (loop : List σ) : Prop where
  long : 2 ≤ loop.length
  closed : loop.head? = loop.getLast?
  simple : ∀ s ∈ loop, ∃ n ∈ p.nodes, n.data.id = s ∧ n.regions = []
  leads : loop.IsChain p.Leads ∨ ∃ s, loop = [s, s] ∧ p.Stays s

theorem Plan.takes_iff {row : Transition σ γ σ} : p.Takes s row ↔ p.completionRow? s = some row := by
  unfold Plan.Takes Plan.completionRow?
  rw [List.find?_eq_some_iff_append]
  simp only [Trigger.isCompletion, Bool.and_eq_true, decide_eq_true_eq, Bool.not_eq_true', Bool.and_eq_false_iff,
    decide_eq_false_iff_not, ← imp_iff_not_or]
  constructor
  · rintro ⟨before, after, hrows, htrigger, hsource, hfirst⟩
    exact ⟨⟨htrigger, hsource⟩, before, after, hrows, hfirst⟩
  · rintro ⟨⟨htrigger, hsource⟩, before, after, hrows, hfirst⟩
    exact ⟨before, after, hrows, htrigger, hsource, hfirst⟩

/-- Every state of a loop takes an unguarded row that is internal or leads to a state of the loop. -/
theorem Plan.IsLoop.next {loop : List σ} (h : p.IsLoop loop) (hs : s ∈ loop) :
    ∃ row, p.completionRow? s = some row ∧ row.guard = none ∧
      (row.target = .internal ∨ ∃ t ∈ loop, row.target = .state t) := by
  rcases h.leads with hchain | ⟨s', rfl, row, htakes, hguard, htarget⟩
  · obtain ⟨t, ht, row, htakes, hguard, htarget⟩ : ∃ t ∈ loop, p.Leads s t := by
      rw [List.isChain_iff_getElem] at hchain
      have hlong := h.long
      obtain ⟨k, hk, rfl⟩ := List.getElem_of_mem hs
      by_cases hlast : k + 1 < loop.length
      · exact ⟨loop[k + 1], List.getElem_mem _, hchain k hlast⟩
      · -- the last state is the first
        have hclosed := h.closed
        rw [List.head?_eq_getElem?, List.getLast?_eq_getElem?, List.getElem?_eq_getElem (by omega),
          List.getElem?_eq_getElem (by omega), Option.some.injEq] at hclosed
        have hsame : loop[k] = loop[0] := by
          rw [hclosed]
          congr 1
          omega
        rw [hsame]
        exact ⟨loop[1], List.getElem_mem _, hchain 0 (by omega)⟩
    exact ⟨row, Plan.takes_iff.1 htakes, hguard, .inr ⟨t, ht, htarget⟩⟩
  · obtain rfl : s = s' := by simpa using hs
    exact ⟨row, Plan.takes_iff.1 htakes, hguard, .inl htarget⟩

/-! ## One step of the search -/

theorem Plan.of_node? {n : PlanNode σ γ δ} (h : p.node? s = some n) : n ∈ p.nodes ∧ n.data.id = s :=
  ⟨List.mem_of_find?_eq_some h, by simpa using List.find?_some h⟩

theorem Plan.stride_of_internal {row : Transition σ γ σ} (h : p.completionRow? s = some row)
    (hguard : row.guard = none) (htarget : row.target = .internal) : p.stride s = .stays := by
  unfold Plan.stride
  rw [h]
  dsimp only
  rw [hguard, htarget]
  rfl

theorem Plan.stride_of_state {row : Transition σ γ σ} {next : PlanNode σ γ δ}
    (h : p.completionRow? s = some row) (hguard : row.guard = none) (htarget : row.target = .state t)
    (hnext : p.node? t = some next) : p.stride s = .moves next := by
  unfold Plan.stride
  rw [h]
  dsimp only
  rw [hguard, htarget]
  dsimp only
  rw [hnext]
  rfl

theorem Plan.stays_of_stride (h : p.stride s = .stays) : p.Stays s := by
  unfold Plan.stride at h
  split at h
  · cases h
  · rename_i row hrow
    split at h
    · cases h
    · rename_i hguard
      split at h
      · exact ⟨row, Plan.takes_iff.2 hrow, by simpa using hguard, ‹_›⟩
      · cases h
      · rename_i t _
        cases hnode : p.node? t with
        | none => rw [hnode] at h; cases h
        | some n => rw [hnode] at h; cases h

theorem Plan.leads_of_stride {next : PlanNode σ γ δ} (h : p.stride s = .moves next) :
    next ∈ p.nodes ∧ p.Leads s next.data.id := by
  unfold Plan.stride at h
  split at h
  · cases h
  · rename_i row hrow
    split at h
    · cases h
    · rename_i hguard
      split at h
      · cases h
      · cases h
      · rename_i t htarget
        cases hnode : p.node? t with
        | none => rw [hnode] at h; cases h
        | some n =>
          rw [hnode] at h
          cases h
          obtain ⟨hmem, hid⟩ := Plan.of_node? hnode
          exact ⟨hmem, row, Plan.takes_iff.2 hrow, by simpa using hguard, by rw [htarget, hid]⟩

/-- A search that finds nothing from a simple state has not been there before, and finds nothing from the next
one. -/
theorem Plan.cycleFrom_eq_none {steps : Nat} {walked : List σ} {current : PlanNode σ γ δ}
    (h : p.cycleFrom steps walked current = none) (hsimple : current.regions = []) :
    current.data.id ∉ walked ∧ p.stride current.data.id ≠ .stays ∧
      ∀ next k, p.stride current.data.id = .moves next → steps = k + 1 →
        p.cycleFrom k (walked ++ [current.data.id]) next = none := by
  have hcomposite : current.isComposite = false := by
    unfold Node.isComposite
    rw [hsimple]
    rfl
  rw [Plan.cycleFrom, hcomposite, if_neg Bool.false_ne_true] at h
  cases hfound : walked.findIdx? (· = current.data.id) with
  | some k => rw [hfound] at h; cases h
  | none =>
    rw [hfound] at h
    dsimp only at h
    refine ⟨fun hmem => ?_, fun hstride => ?_, fun next k hstride hsteps => ?_⟩
    · simpa using List.findIdx?_eq_none_iff.1 hfound _ hmem
    · rw [hstride] at h
      cases h
    · rw [hstride, hsteps] at h
      exact h

/-- A search that finds something ends at this state or goes on from the next one. -/
theorem Plan.cycleFrom_eq_some {steps : Nat} {walked loop : List σ} {current : PlanNode σ γ δ}
    (h : p.cycleFrom steps walked current = some loop) :
    current.regions = [] ∧
      ((∃ k, walked.findIdx? (· = current.data.id) = some k ∧ loop = walked.drop k ++ [current.data.id]) ∨
        (p.stride current.data.id = .stays ∧ loop = [current.data.id, current.data.id]) ∨
        ∃ next k, p.stride current.data.id = .moves next ∧ steps = k + 1 ∧
          p.cycleFrom k (walked ++ [current.data.id]) next = some loop) := by
  rw [Plan.cycleFrom] at h
  split at h
  · cases h
  · rename_i hcomposite
    have hsimple : current.regions = [] := by simpa [Node.isComposite] using hcomposite
    refine ⟨hsimple, ?_⟩
    split at h
    · rename_i k hfound
      cases h
      exact .inl ⟨k, hfound, rfl⟩
    · split at h
      · cases h
      · rename_i hstride
        cases h
        exact .inr (.inl ⟨hstride, rfl⟩)
      · rename_i next hstride
        split at h
        · cases h
        · rename_i k
          exact .inr (.inr ⟨next, k, hstride, rfl, h⟩)

/-- What closes a walk is a loop. -/
theorem Plan.isLoop_of_walked {walked : List σ} {k : Nat} (hk : walked.findIdx? (· = s) = some k)
    (hsimple : ∀ t ∈ walked, ∃ n ∈ p.nodes, n.data.id = t ∧ n.regions = [])
    (hchain : (walked ++ [s]).IsChain p.Leads) : p.IsLoop (walked.drop k ++ [s]) := by
  obtain ⟨hlt, hthis, -⟩ := List.findIdx?_eq_some_iff_getElem.1 hk
  have hs : walked[k] = s := by simpa using hthis
  have hdrop : walked.drop k = s :: walked.drop (k + 1) := by rw [List.drop_eq_getElem_cons hlt, hs]
  refine ⟨?_, ?_, fun t ht => ?_, .inl ?_⟩
  · rw [hdrop]
    simp
  · rw [List.getLast?_append, hdrop]
    rfl
  · have hmem : t ∈ walked := by
      rcases List.mem_append.1 ht with ht | ht
      · exact List.mem_of_mem_drop ht
      · rw [List.mem_singleton.1 ht, ← hs]
        exact List.getElem_mem hlt
    exact hsimple t hmem
  · have hsuffix : walked.drop k ++ [s] <:+ walked ++ [s] :=
      ⟨walked.take k, by rw [← List.append_assoc, List.take_append_drop]⟩
    exact hchain.infix hsuffix.isInfix

/-- What the search reports is a loop. -/
theorem Plan.isLoop_of_cycleFrom {steps : Nat} {walked loop : List σ} {current : PlanNode σ γ δ}
    (h : p.cycleFrom steps walked current = some loop) (hcurrent : current ∈ p.nodes)
    (hsimple : ∀ s ∈ walked, ∃ n ∈ p.nodes, n.data.id = s ∧ n.regions = [])
    (hchain : (walked ++ [current.data.id]).IsChain p.Leads) : p.IsLoop loop := by
  induction steps using Nat.strongRecOn generalizing walked current with
  | ind steps ih =>
    obtain ⟨hthis, ⟨k, hfound, rfl⟩ | ⟨hstride, rfl⟩ | ⟨next, k, hstride, rfl, hrest⟩⟩ :=
      Plan.cycleFrom_eq_some h
    · exact Plan.isLoop_of_walked hfound hsimple hchain
    · refine ⟨by simp, rfl, fun s hs => ?_, .inr ⟨_, rfl, Plan.stays_of_stride hstride⟩⟩
      obtain rfl : s = current.data.id := by simpa using hs
      exact ⟨current, hcurrent, rfl, hthis⟩
    · obtain ⟨hnext, hleads⟩ := Plan.leads_of_stride hstride
      refine ih k (Nat.lt_succ_self k) hrest hnext (fun s hs => ?_) ?_
      · rcases List.mem_append.1 hs with hs | hs
        · exact hsimple s hs
        · exact ⟨current, hcurrent, (List.mem_singleton.1 hs).symm, hthis⟩
      · refine hchain.append (List.isChain_singleton _) fun s hs t ht => ?_
        rw [List.getLast?_append, List.getLast?_singleton] at hs
        obtain rfl : current.data.id = s := by simpa using hs
        obtain rfl : next.data.id = t := by simpa using ht
        exact hleads

/-! ## One step of the region -/

/-- What is active after a row with the given target has fired at position `i`. -/
inductive Plan.Arrives (p : Plan σ γ δ) (i : Nat) : Target σ → Active → Prop where
  | state {t : σ} {j : Nat} {next : PlanNode σ γ δ} : p.nodes[j]? = some next → p.node? t = some next →
      p.Arrives i (.state t) (.at j)
  | internal : p.Arrives i .internal (.at i)
  | final : p.Arrives i .final .final

section Region

variable [Named σ] {r : BuiltRegion σ γ δ} {setup : Setup σ γ} {i : Nat} {n : PlanNode σ γ δ}
  {c : Configuration σ γ δ} {Q : Unit → Configuration σ γ δ → Prop}
  {E : Halt → Configuration σ γ δ → Prop}

/-- Takes completion rows of the region, at most as many as given. -/
abbrev Region.follow (setup : Setup σ γ) (r : BuiltRegion σ γ δ) (steps : Nat) : Turn σ γ δ Unit :=
  Region.chain setup r.data r.nodes (fun choice => Region.fire setup r.data r.nodes choice .completion) steps

namespace Plan.Compiles

variable (h : p.Compiles r) (hn : p.nodes[i]? = some n) (hsimple : n.regions = [])
  (hactive : c.marking.active = .at i)

include h hn hsimple hactive

/-- Nothing is due for a simple state without a completion row. -/
theorem due_of_none (hrow : p.completionRow? n.data.id = none) :
    Region.due r.data r.nodes c = .ok none c := by
  obtain ⟨n', hn', hid, hsimple'⟩ := h.builtSimple hn hsimple
  have hnone : r.data.rows.find? (·.concerns n'.data.id .completion) = none := by
    have hrel := h.completionRow n.data.id
    rw [hrow] at hrel
    rw [hid]
    cases hfound : r.data.rows.find? (·.concerns n.data.id .completion) with
    | none => rfl
    | some row => rw [hfound] at hrel; cases hrel
  exact Region.due_of_none hactive hn' hsimple' hnone

/-- The completion row of a simple state is due if it has no guard. -/
theorem due_of_row {row : Transition σ γ σ} (hrow : p.completionRow? n.data.id = some row)
    (hguard : row.guard = none) :
    ∃ choice, Region.due r.data r.nodes c = .ok (some choice) c ∧ choice.position = i ∧
      Target.Located p.nodes row.target choice.transition.target := by
  obtain ⟨n', hn', hid, hsimple'⟩ := h.builtSimple hn hsimple
  have hrel := h.completionRow n.data.id
  rw [hrow] at hrel
  cases hfound : r.data.rows.find? (·.concerns n.data.id .completion) with
  | none => rw [hfound] at hrel; cases hrel
  | some row' =>
    rw [hfound] at hrel
    rw [← hid] at hfound
    cases hrel with
    | some hlocated =>
      obtain ⟨k, hdue⟩ := Region.due_of_row hactive hn' hsimple' hfound (by rw [hlocated.guard, hguard])
      exact ⟨_, hdue, rfl, hlocated.target⟩

/-- A simple state takes its completion row, if it leads to a simple state, and the region goes on from
there. -/
theorem follow_succ {row : Transition σ γ σ} (hrow : p.completionRow? n.data.id = some row)
    (hguard : row.guard = none)
    (hnext : ∀ t next, row.target = .state t → p.node? t = some next → next.regions = [])
    (hE : ∀ h c', Configuration.Faulted h c' → E h c') {steps : Nat}
    (hgo : ∀ c' : Configuration σ γ δ, c'.firings = c.firings + 1 →
      p.Arrives i row.target c'.marking.active → Ends (r.follow setup steps) c' Q E) :
    Ends (r.follow setup (steps + 1)) c Q E := by
  obtain ⟨choice, hdue, hposition, hlocated⟩ := h.due_of_row hn hsimple hactive hrow hguard
  rw [Region.ends_chain_of_due hdue]
  have hsource (n' : BuiltNode σ γ δ) (hn' : r.nodes[choice.position]? = some n') : n'.regions = [] := by
    obtain ⟨n'', hn'', -, hsimple'⟩ := h.builtSimple hn hsimple
    rw [hposition, hn''] at hn'
    obtain rfl : n'' = n' := Option.some.inj hn'
    exact hsimple'
  -- where the row leads, as a position and as a state
  have htarget (j : Nat) (hj : choice.transition.target = .state j) :
      ∃ t next, row.target = .state t ∧ p.nodes[j]? = some next ∧ p.node? t = some next := by
    rw [hj] at hlocated
    cases htarget : row.target with
    | state t =>
      rw [htarget] at hlocated
      cases hlocated with
      | state hposition =>
        obtain ⟨next, hnext, hnode, -⟩ := Plan.node?_of_position hposition
        exact ⟨t, next, rfl, hnext, hnode⟩
    | internal => rw [htarget] at hlocated; cases hlocated
    | final => rw [htarget] at hlocated; cases hlocated
  refine (Region.fire_ends hsource fun j hj => ?_).mono (fun _ c' hc' => ?_) hE
  · obtain ⟨t, next, ht, hnode, hfirst⟩ := htarget j hj
    obtain ⟨n', hn', -, hsimple'⟩ := h.builtSimple hnode (hnext t next ht hfirst)
    exact ⟨n', hn', hsimple'⟩
  · refine hgo c' hc'.1 ?_
    rw [hc'.2]
    cases hj : choice.transition.target with
    | state j =>
      obtain ⟨t, next, ht, hnode, hfirst⟩ := htarget j hj
      rw [ht]
      exact .state hnode hfirst
    | internal =>
      rw [hj] at hlocated
      cases htarget : row.target <;> rw [htarget] at hlocated <;> cases hlocated
      rw [Target.reached, hactive]
      exact .internal
    | final =>
      rw [hj] at hlocated
      cases htarget : row.target <;> rw [htarget] at hlocated <;> cases hlocated
      exact .final

end Plan.Compiles

/-! ## Regions without a loop -/

/-- Every walk on from a state that the search left without finding a loop is as long as there are states
left. The states walked so far are different ones, so that some are left. -/
theorem Plan.Compiles.follow_bounded (h : p.Compiles r) (hflat : ∀ n ∈ p.nodes, n.regions = [])
    (hunguarded : ∀ row ∈ p.data.rows, row.trigger = .completion → row.guard = none) {steps fuel : Nat}
    {walked : List σ} (hcycle : p.cycleFrom steps walked n = none) (hnodup : walked.Nodup)
    (hwalked : walked ⊆ p.states StateDeclaration.id)
    (hsteps : walked.length + steps = p.nodes.length) (hfuel : steps ≤ fuel) (hn : p.nodes[i]? = some n)
    (hactive : c.marking.active = .at i) :
    Ends (r.follow setup fuel) c (fun _ c' => c'.firings ≤ c.firings + steps) Configuration.Faulted := by
  induction steps using Nat.strongRecOn generalizing walked n i c fuel with
  | ind steps ih =>
    have hsimple := hflat n (List.mem_of_getElem? hn)
    obtain ⟨hfresh, hstays, hmoves⟩ := Plan.cycleFrom_eq_none hcycle hsimple
    have hnodup' : (walked ++ [n.data.id]).Nodup :=
      List.nodup_append.2 ⟨hnodup, List.nodup_singleton _, fun s hs t ht heq =>
        hfresh (by rw [← List.mem_singleton.1 ht, ← heq]; exact hs)⟩
    have hwalked' : walked ++ [n.data.id] ⊆ p.states StateDeclaration.id := by
      refine List.append_subset.2 ⟨hwalked, List.cons_subset.2 ⟨?_, List.nil_subset _⟩⟩
      exact List.mem_map_of_mem (List.mem_of_getElem? hn)
    have hlength : walked.length + 1 ≤ p.nodes.length := by
      simpa [Region.states] using hnodup'.length_le_of_subset hwalked'
    obtain ⟨k, rfl⟩ : ∃ k, steps = k + 1 := ⟨steps - 1, by omega⟩
    obtain ⟨fuel, rfl⟩ : ∃ f, fuel = f + 1 := ⟨fuel - 1, by omega⟩
    cases hrow : p.completionRow? n.data.id with
    | none =>
      have hnone := h.due_of_none hn hsimple hactive hrow
      exact (Region.ends_chain_of_rest hnone _).2 (Nat.le_add_right _ _)
    | some row =>
      obtain ⟨before, after, hrows, htrigger, -⟩ := Plan.takes_iff.2 hrow
      have hguard : row.guard = none := hunguarded row (by rw [hrows]; simp) htrigger
      refine h.follow_succ hn hsimple hactive hrow hguard
        (fun _ next _ hfirst => hflat next (Plan.of_node? hfirst).1) (fun _ _ h => h) ?_
      intro c' hfirings harrives
      generalize hactive' : c'.marking.active = a at harrives
      cases htarget : row.target with
      | state t =>
        rw [htarget] at harrives
        cases harrives with
        | state hnext hfirst =>
          have hcycle' := hmoves _ k (Plan.stride_of_state hrow hguard htarget hfirst) rfl
          refine (ih k (Nat.lt_succ_self k) hcycle' hnodup' hwalked' ?_ (by omega) hnext hactive').mono
            (fun _ c'' hc'' => ?_) fun _ _ h => h
          · rw [List.length_append, List.length_singleton]
            omega
          · omega
      | internal => exact absurd (Plan.stride_of_internal hrow hguard htarget) hstays
      | final =>
        rw [htarget] at harrives
        cases harrives
        have hrest : Region.due r.data r.nodes c' = .ok none c' :=
          Region.due_of_resting fun j _ hj => by rw [hactive'] at hj; cases hj
        exact (Region.ends_chain_of_rest hrest _).2 (by omega)

/-- Firing a row of a region of simple states is halted by a fault only. -/
theorem Plan.Compiles.fire_faulted (h : p.Compiles r) (hflat : ∀ n ∈ p.nodes, n.regions = []) {e : Event}
    {choice : Choice σ γ} (hfits : choice.Fits r.data r.nodes c) :
    Ends (Region.fire setup r.data r.nodes choice e) c (fun _ _ => True) Configuration.Faulted := by
  refine (Region.fire_ends (fun n hn => h.flat hflat hn) fun t ht => ?_).mono (fun _ _ _ => trivial)
    fun _ _ h => h
  obtain ⟨n, hn⟩ := h.target hfits.row ht
  exact ⟨n, hn, h.flat hflat hn⟩

variable (hflat : ∀ n ∈ p.nodes, n.regions = [])
  (hunguarded : ∀ row ∈ p.data.rows, row.trigger = .completion → row.guard = none)
  (hcycle : p.completionCycle = none)

include hflat hunguarded hcycle in
/-- The same from the beginning, whatever is active. -/
theorem Plan.Compiles.settle_bounded (h : p.Compiles r)
    (hlimit : p.nodes.length ≤ setup.settings.maxCompletionChain) (c : Configuration σ γ δ) :
    Ends (Region.settle setup r.data r.nodes) c (fun _ c' => c'.firings ≤ c.firings + p.nodes.length)
      Configuration.Faulted := by
  by_cases hstate : ∃ i n, c.marking.active = .at i ∧ p.nodes[i]? = some n
  · obtain ⟨i, n, hactive, hn⟩ := hstate
    have hnone : p.cycleFrom p.nodes.length [] n = none :=
      List.findSome?_eq_none_iff.1 hcycle n (List.mem_of_getElem? hn)
    exact h.follow_bounded hflat hunguarded hnone List.nodup_nil (List.nil_subset _) (Nat.zero_add _) hlimit
      hn hactive
  · have hrest : Region.due r.data r.nodes c = .ok none c := by
      refine Region.due_of_resting fun i n hactive hn => hstate ?_
      obtain ⟨n', hn', -⟩ := h.planned hn
      exact ⟨i, n', hactive, hn'⟩
    exact (Region.ends_chain_of_rest hrest _).2 (Nat.le_add_right _ _)

include hflat hunguarded hcycle in
theorem Plan.Compiles.start_faulted (h : p.Compiles r)
    (hlimit : p.nodes.length ≤ setup.settings.maxCompletionChain) (e : Event) (c : Configuration σ γ δ) :
    Ends (r.start setup e) c (fun _ _ => True) Configuration.Faulted := by
  have hN := (Note.admits_still (σ := σ) e).admits
  have hsettle (c : Configuration σ γ δ) := h.settle_bounded hflat hunguarded hcycle hlimit c
  have hflat' (i : Nat) (n : BuiltNode σ γ δ) (hn : r.nodes[i]? = some n) : n.regions = [] :=
    h.flat hflat hn
  obtain ⟨table, nodes⟩ := r
  rw [Region.start_eq, ends_bind, ends_active]
  split
  · trivial
  · refine (setup.hooks.beforeTransition_inert hN rfl).goes_on (fun _ _ h => h) fun _ c₁ _ => ?_
    rw [ends_bind, ends_setActive]
    refine (Node.enterAt_inert table.path (hflat' _)).goes_on (fun _ _ h => h) fun _ c₂ _ => ?_
    refine (setup.hooks.afterTransition_inert hN rfl).goes_on (fun _ _ h => h) fun _ c₃ _ => ?_
    exact (hsettle c₃).mono (fun _ _ _ => trivial) fun _ _ h => h

include hflat hunguarded hcycle in
theorem Plan.Compiles.process_faulted (h : p.Compiles r)
    (hlimit : p.nodes.length ≤ setup.settings.maxCompletionChain) (e : Event) (c : Configuration σ γ δ) :
    Ends (r.process setup e) c (fun _ _ => True) Configuration.Faulted := by
  have hN := (Note.admits_still (σ := σ) e).admits
  have hflat' (i : Nat) (n : BuiltNode σ γ δ) (hn : r.nodes[i]? = some n) : n.regions = [] :=
    h.flat hflat hn
  have hfire (choice : Choice σ γ) (c : Configuration σ γ δ) (hfits : choice.Fits r.data r.nodes c) :
      Ends (Region.fire setup r.data r.nodes choice e) c (fun _ _ => True) Configuration.Faulted :=
    h.fire_faulted hflat hfits
  have hsettle (processed : Bool) (c : Configuration σ γ δ) :
      Ends (do Region.settle setup r.data r.nodes; return processed) c (fun _ _ => True)
        Configuration.Faulted := by
    rw [ends_bind]
    exact (h.settle_bounded hflat hunguarded hcycle hlimit c).mono (fun _ _ _ => trivial) fun _ _ h => h
  obtain ⟨table, nodes⟩ := r
  refine Region.ends_process trivial fun i n hactive hn => ?_
  unfold Region.respond
  rw [ends_bind]
  refine ((RegionTable.resolve_inert hN table i n.data.id c).and
    (RegionTable.resolve_fits hactive hn)).mono (fun found c₁ h₁ => ?_) fun _ _ h => h.1.2
  cases found with
  | some choice =>
    dsimp only
    rw [ends_bind]
    refine (hfire choice c₁ (h₁.2 choice rfl)).mono (fun _ c₂ _ => ?_) fun _ _ h => h
    split
    · exact hsettle true c₂
    · trivial
  | none =>
    dsimp only
    refine (Node.react_inert table.path (hflat' i n hn)).goes_on (fun _ _ h => h) fun processed c₂ _ => ?_
    split
    · exact hsettle processed c₂
    · trivial

include hflat hunguarded hcycle in
/-- **A flat region without a loop settles.** Where all states of a plan are simple, its completion rows have
no guards and the search finds no loop, the region that is constructed from it settles, whatever is active in
it, after firing at most as many rows as it has states, if the chain may be that long: only a callback that
fails or panics halts it. So neither starting the region nor an event lets its completion rows overflow. -/
theorem flat_completion_settles {c₀ c₁ : Configuration σ γ δ} (hr : p.construct.run c₀ = .ok (.ok r) c₁)
    (setup : Setup σ γ) (hlimit : p.nodes.length ≤ setup.settings.maxCompletionChain)
    (c : Configuration σ γ δ) :
    Ends (Region.settle setup r.data r.nodes) c (fun _ c' => c'.firings ≤ c.firings + p.nodes.length)
        Configuration.Faulted ∧
      (∀ e, Ends (r.start setup e) c (fun _ _ => True) Configuration.Faulted) ∧
        ∀ e, Ends (r.process setup e) c (fun _ _ => True) Configuration.Faulted := by
  have hcompiles := Plan.compiles_of_construct hr
  refine ⟨hcompiles.settle_bounded hflat hunguarded hcycle hlimit c, fun e => ?_, fun e => ?_⟩
  · exact hcompiles.start_faulted hflat hunguarded hcycle hlimit e c
  · exact hcompiles.process_faulted hflat hunguarded hcycle hlimit e c

/-- The light is constructed from its plan. -/
theorem Lamp.dawn_constructed : ∃ c₁, dawnPlan.construct.run (untold .stopped) = .ok (.ok dawn) c₁ := ⟨_, rfl⟩

/-- The light that comes up by itself settles. -/
theorem flat_completion_settles_dawn : Lamp.dawnPlan.completionCycle = none ∧
    Ends (Region.settle {} Lamp.dawn.data Lamp.dawn.nodes) (Lamp.untold (.at 0))
      (fun _ c' => c'.firings ≤ 2) Configuration.Faulted := by
  have hcycle : Lamp.dawnPlan.completionCycle = none := by decide
  obtain ⟨c₁, hconstruct⟩ := Lamp.dawn_constructed
  exact ⟨hcycle, (flat_completion_settles (by decide) (by decide) hcycle hconstruct {} (by decide) _).1⟩

omit [DecidableEq σ] [Named σ] in
/-- Where only a fault may halt the turn, and only an overflow does, it ends well. -/
theorem Turn.Lasts.exists_ok {α : Type} {N : Note σ → Prop} {x : Turn σ γ δ α} (hx : Lasts N x)
    {Q : α → Configuration σ γ δ → Prop} (h : Ends x c Q Configuration.Faulted) : ∃ a c', x c = .ok a c' ∧ Q a c' :=
  Ends.exists_ok (Ends.mono (Ends.and h (hx c)) (fun _ _ h => h.1) fun _ _ h => h.1.not_overflow h.2.2)

include hflat hunguarded hcycle in
/-- Where no callback of such a region fails or panics, and no hook around a transition panics, the region settles,
starts and takes every event without a failure. -/
theorem reliable_region_settles {c₀ c₁ : Configuration σ γ δ} (hr : p.construct.run c₀ = .ok (.ok r) c₁)
    (hreliable : r.Reliable) (hhooks : setup.hooks.Reliable)
    (hlimit : p.nodes.length ≤ setup.settings.maxCompletionChain) (c : Configuration σ γ δ) :
    (∃ c', Region.settle setup r.data r.nodes c = .ok () c' ∧ c'.firings ≤ c.firings + p.nodes.length) ∧
      (∀ e, ∃ c', r.start setup e c = .ok () c') ∧ ∀ e, ∃ processed c', r.process setup e c = .ok processed c' := by
  have hcompiles := Plan.compiles_of_construct hr
  have hsettling : r.Settling setup (Configuration.Follows fun _ => True) fun h _ => h.isOverflow = true :=
    hreliable.settling hhooks fun _ _ => trivial
  have hsettle : Lasts (fun _ => True) (Region.settle setup r.data r.nodes) :=
    Region.settle_keeps Lasts.inChild r hsettling
  refine ⟨?_, fun e => ?_, fun e => ?_⟩
  · obtain ⟨_, c', hok, hfirings⟩ :=
      hsettle.exists_ok (hcompiles.settle_bounded hflat hunguarded hcycle hlimit c)
    exact ⟨c', hok, hfirings⟩
  · have hstart : Lasts (fun _ => True) (r.start setup e) := Region.start_keeps Lasts.inChild r
      (fun q hq x hx => hreliable.crosses hhooks (fun _ _ _ => trivial) hq hx) hsettling
    obtain ⟨_, c', hok, _⟩ := hstart.exists_ok (hcompiles.start_faulted hflat hunguarded hcycle hlimit e c)
    exact ⟨c', hok⟩
  · have hprocess : Lasts (fun _ => True) (r.process setup e) := Region.processing_keeps Lasts.inChild r
      (hreliable.offering hhooks fun _ _ => trivial) hsettling
    obtain ⟨processed, c', hok, _⟩ :=
      hprocess.exists_ok (hcompiles.process_faulted hflat hunguarded hcycle hlimit e c)
    exact ⟨processed, c', hok⟩

/-- Nothing fails in the light that comes up by itself: it settles after at most two rows. -/
example : ∃ c', Region.settle {} Lamp.dawn.data Lamp.dawn.nodes (Lamp.untold (.at 0)) = .ok () c' ∧ c'.firings ≤ 2 := by
  obtain ⟨c₁, hconstruct⟩ := Lamp.dawn_constructed
  have hreliable : Lamp.dawn.Reliable :=
    Lamp.lightRegion_reliable (List.forall_mem_singleton.2 (Lamp.completing_reliable _ _))
  exact (reliable_region_settles (by decide) (by decide) (by decide) hconstruct hreliable (.of_none rfl rfl)
    (by decide) _).1

/-! ## Regions with a loop -/

/-- The state of a loop that is active takes a row into the loop again and again. -/
theorem Plan.IsLoop.follow_overflows {loop : List σ} (hloop : p.IsLoop loop) (h : p.Compiles r)
    (hnodup : (p.states StateDeclaration.id).Nodup) (hn : p.nodes[i]? = some n) (hmem : n.data.id ∈ loop)
    (hactive : c.marking.active = .at i) (fuel : Nat) :
    Ends (r.follow setup fuel) c (fun _ _ => False) fun halt c' =>
      halt = .error (.completionOverflow p.data.path setup.settings.maxCompletionChain) ∨
        Configuration.Faulted halt c' := by
  -- a state of the loop is declared once, and is simple
  have hsimple (n : PlanNode σ γ δ) (hn : n ∈ p.nodes) (hmem : n.data.id ∈ loop) : n.regions = [] := by
    obtain ⟨n', hn', hid, hsimple⟩ := hloop.simple _ hmem
    rwa [List.inj_on_of_nodup_map hnodup hn hn' hid.symm]
  induction fuel generalizing n i c with
  | zero =>
    have hthis := hsimple n (List.mem_of_getElem? hn) hmem
    obtain ⟨row, hrow, hguard, -⟩ := hloop.next hmem
    obtain ⟨choice, hdue, -⟩ := h.due_of_row hn hthis hactive hrow hguard
    refine Region.ends_chain_zero hdue fun _ => .inl ?_
    rw [h.path]
  | succ fuel ih =>
    have hthis := hsimple n (List.mem_of_getElem? hn) hmem
    obtain ⟨row, hrow, hguard, htarget⟩ := hloop.next hmem
    refine h.follow_succ hn hthis hactive hrow hguard (fun t next ht hfirst => ?_) (fun _ _ h => .inr h)
      fun c' _ harrives => ?_
    · obtain ⟨hmem', hid⟩ := Plan.of_node? hfirst
      refine hsimple next hmem' ?_
      rcases htarget with htarget | ⟨t', ht', htarget⟩
      · rw [ht] at htarget
        cases htarget
      · rw [ht] at htarget
        cases htarget
        rwa [hid]
    · generalize hactive' : c'.marking.active = a at harrives
      rcases htarget with htarget | ⟨t, ht, htarget⟩
      · rw [htarget] at harrives
        cases harrives
        exact ih hn hmem hactive'
      · rw [htarget] at harrives
        cases harrives with
        | state hnext hfirst =>
          refine ih hnext ?_ hactive'
          rwa [(Plan.of_node? hfirst).2]

/-- The names that the search reports are those of a loop. -/
theorem Plan.isLoop_of_cycleViolation {path : String} {names : List String}
    (hcycle : p.cycleViolation = some (.completionCycle path names)) :
    path = p.data.path ∧ ∃ loop : List σ, loop.map Named.name = names ∧ p.IsLoop loop := by
  obtain ⟨loop, hfound, hviolation⟩ := Option.map_eq_some_iff.1 hcycle
  obtain ⟨rfl, rfl⟩ : p.data.path = path ∧ loop.map Named.name = names := by simpa using hviolation
  obtain ⟨n, hn, hsearch⟩ := List.exists_of_findSome?_eq_some hfound
  exact ⟨rfl, loop, rfl, Plan.isLoop_of_cycleFrom hsearch hn (fun _ hs => by cases hs) (List.isChain_singleton _)⟩

/-- The same from the beginning, in the region that is constructed from the plan. -/
theorem Plan.IsLoop.settle_overflows {loop : List σ} (hloop : p.IsLoop loop) {c₀ c₁ : Configuration σ γ δ}
    (hr : p.construct.run c₀ = .ok (.ok r) c₁) (hnodup : (p.states StateDeclaration.id).Nodup) {n : BuiltNode σ γ δ}
    (hn : r.nodes[i]? = some n) (hmem : n.data.id ∈ loop) (hactive : c.marking.active = .at i) :
    Ends (Region.settle setup r.data r.nodes) c (fun _ _ => False) fun halt c' =>
      halt = .error (.completionOverflow p.data.path setup.settings.maxCompletionChain) ∨
        Configuration.Faulted halt c' := by
  have hcompiles := Plan.compiles_of_construct hr
  obtain ⟨n', hn', hid, -⟩ := hcompiles.planned hn
  exact hloop.follow_overflows hcompiles hnodup hn' (by rwa [← hid]) hactive _

/-- **A loop that is reported never settles.** If the search finds a loop in a plan that declares no state
twice, then the reported names are those of a closed sequence of simple states each of which takes an
unguarded completion row to the next, or of one state that takes an internal row. When a state of the sequence
is active in the region that is constructed from the plan, its completion rows overflow, however long the chain
may be, unless a callback fails or panics; the region does not settle. -/
theorem completion_loop_never_settles (hnodup : (p.states StateDeclaration.id).Nodup) {path : String}
    {names : List String} (hcycle : p.cycleViolation = some (.completionCycle path names)) :
    path = p.data.path ∧ ∃ loop : List σ, loop.map Named.name = names ∧ p.IsLoop loop ∧
      ∀ (r : BuiltRegion σ γ δ) (c₀ c₁ : Configuration σ γ δ), p.construct.run c₀ = .ok (.ok r) c₁ →
        ∀ (setup : Setup σ γ) (c : Configuration σ γ δ) (i : Nat) (n : BuiltNode σ γ δ),
          r.nodes[i]? = some n → n.data.id ∈ loop → c.marking.active = .at i →
            Ends (Region.settle setup r.data r.nodes) c (fun _ _ => False) fun halt c' =>
              halt = .error (.completionOverflow path setup.settings.maxCompletionChain) ∨
                Configuration.Faulted halt c' := by
  obtain ⟨hpath, loop, hnames, hloop⟩ := Plan.isLoop_of_cycleViolation hcycle
  refine ⟨hpath, loop, hnames, hloop, fun r c₀ c₁ hr setup c i n hn hmem hactive => ?_⟩
  rw [hpath]
  exact hloop.settle_overflows hr hnodup hn hmem hactive

/-- The light that flickers by itself does not settle. -/
theorem completion_loop_never_settles_flicker :
    Lamp.flickerPlan.cycleViolation = some (.completionCycle "light" ["dim", "bright", "dim"]) ∧
      Ends (Region.settle {} Lamp.flicker.data Lamp.flicker.nodes) (Lamp.untold (.at 0))
        (fun _ _ => False) fun halt c' =>
          halt = .error (.completionOverflow "light" 64) ∨ Configuration.Faulted halt c' := by
  have hcycle : Lamp.flickerPlan.cycleViolation =
      some (.completionCycle "light" ["dim", "bright", "dim"]) := by decide +kernel
  have hconstruct : ∃ c₁, Lamp.flickerPlan.construct.run (Lamp.untold .stopped) = .ok (.ok Lamp.flicker) c₁ :=
    ⟨_, rfl⟩
  obtain ⟨c₁, hconstruct⟩ := hconstruct
  obtain ⟨-, loop, hnames, -, hsettle⟩ := completion_loop_never_settles (by decide) hcycle
  have hdim : Lamp.dim ∈ loop := by
    obtain ⟨s, hs, hname⟩ : ∃ s ∈ loop, Named.name s = "dim" := List.mem_map.1 (by rw [hnames]; decide)
    cases s <;> simp [Named.name] at hname
    exact hs
  refine ⟨hcycle, ?_⟩
  have hactive : (Lamp.untold (.at 0)).marking.active = .at 0 := rfl
  generalize Lamp.untold (.at 0) = c at hactive ⊢
  exact hsettle _ _ c₁ hconstruct {} c 0 (Lamp.node .dim []) rfl hdim hactive

/-- Where no callback of such a region fails or panics, and no hook around a transition panics, the completion rows
overflow from every state of the reported sequence. -/
theorem reliable_loop_overflows (hnodup : (p.states StateDeclaration.id).Nodup) {path : String} {names : List String}
    (hcycle : p.cycleViolation = some (.completionCycle path names)) :
    ∃ loop : List σ, loop.map Named.name = names ∧
      ∀ (r : BuiltRegion σ γ δ) (c₀ c₁ : Configuration σ γ δ), p.construct.run c₀ = .ok (.ok r) c₁ → r.Reliable →
        ∀ (setup : Setup σ γ), setup.hooks.Reliable → ∀ (c : Configuration σ γ δ) (i : Nat) (n : BuiltNode σ γ δ),
          r.nodes[i]? = some n → n.data.id ∈ loop → c.marking.active = .at i →
            ∃ c', Region.settle setup r.data r.nodes c =
              .error (.error (.completionOverflow path setup.settings.maxCompletionChain)) c' := by
  obtain ⟨rfl, loop, hnames, hloop⟩ := Plan.isLoop_of_cycleViolation hcycle
  refine ⟨loop, hnames, fun r c₀ c₁ hr hreliable setup hhooks c i n hn hmem hactive => ?_⟩
  have hsettle : Lasts (fun _ => True) (Region.settle setup r.data r.nodes) :=
    Region.settle_keeps Lasts.inChild r (hreliable.settling hhooks fun _ _ => trivial)
  have hends := Ends.and (hloop.settle_overflows hr hnodup hn hmem hactive) (hsettle c)
  cases hresult : Region.settle setup r.data r.nodes c with
  | ok a c' => exact (hends.of_ok hresult).1.elim
  | error halt c' =>
    obtain ⟨rfl | hfault, -, hoverflow⟩ := hends.of_error hresult
    · exact ⟨c', rfl⟩
    · exact absurd hoverflow hfault.not_overflow

end Region

end Statechart
