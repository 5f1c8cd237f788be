import Statechart.Proofs.Agreement
import Statechart.Proofs.Feed

/-!
# Dry runs foretell dispatches

If guards only read the context and reactions keep what they foretell, a dry run and a dispatch come to the
same: an event that the dry run accepts is processed unless something fails, and one that it refuses
touches nothing.

* `RegionTable.accepts_agrees`, `Node.accepts_agrees`, `Region.check_agrees` : rows, states and regions;
* `Chart.BearsOut` : what a dispatch comes to that a dry run has foretold; `dry_run_agrees`.
-/

set_option autoImplicit false

namespace Statechart

open Turn

variable {σ γ δ α : Type}

/-! ## Guards -/

section Guards

variable {U : Marking δ → Marking δ → Prop} {g : γ} {e : Event}

/-- What a turn comes to depends on the context alone: it gives the value and touches nothing, or there is
none and it panics. -/
def Turn.Answers (U : Marking δ → Marking δ → Prop) (g : γ) (x : Turn σ γ δ α) : Option α → Prop
  | some a => ∀ c : Configuration σ γ δ, c.world.context = g →
      Ends x c (fun a' c' => a' = a ∧ c.Untouched U c') fun _ _ => False
  | none => ∀ c : Configuration σ γ δ, c.world.context = g → Ends x c (fun _ _ => False) fun h _ => h.IsPanic

theorem Turn.perform_answers (hU : Equivalence U) {f : Callback γ α} (hf : f.ReadsOnly) :
    ∃ o, Answers U g (perform f : Turn σ γ δ α) o := by
  rcases hf g with ⟨a, ha⟩ | ⟨message, hpanic⟩
  · refine ⟨some a, fun c hc => ?_⟩
    subst hc
    unfold Ends perform performOn
    rw [ha]
    exact ⟨rfl, .refl _, hU.refl _⟩
  · refine ⟨none, fun c hc => ?_⟩
    subst hc
    unfold Ends perform performOn
    rw [hpanic]
    trivial

theorem Turn.Answers.after_note (hU : Equivalence U) {n : Note σ} (hn : n.isProbe = true) {x : Turn σ γ δ α}
    {o : Option α} (h : Answers U g x o) : Answers U g (do note n; x) o := by
  cases o with
  | some a =>
    intro c hc
    rw [ends_bind, ends_note]
    have hnoted : c.Untouched U { c with world.exchange := c.world.exchange.note n } :=
      ⟨World.untouched_note hn _, hU.refl _⟩
    exact Ends.mono (h { c with world.exchange := c.world.exchange.note n } hc)
      (fun a' c' h' => ⟨h'.1, hnoted.trans hU h'.2⟩) fun _ _ h => h
  | none =>
    intro c hc
    rw [ends_bind, ends_note]
    exact h { c with world.exchange := c.world.exchange.note n } hc

namespace RegionTable

variable [DecidableEq σ] {rows : List (Transition σ γ Nat)} {path : String} {active : σ}

theorem ask_answers (hU : Equivalence U) {row : Transition σ γ Nat}
    (hrow : ∀ g, row.guard = some g → g.ReadsOnly) (index : Nat) :
    ∃ o, Answers U g (ask path active e index row : Turn σ γ δ (Except Cause Bool)) o := by
  have hcheck : Callback.ReadsOnly (row.canFire active e).run := by
    unfold Transition.canFire
    split
    · split
      · exact hrow _ (by assumption) e
      · exact fun s => .inl ⟨_, rfl⟩
    · exact fun s => .inl ⟨_, rfl⟩
  obtain ⟨o, ho⟩ := Turn.perform_answers (σ := σ) (g := g) hU hcheck
  refine ⟨o, ?_⟩
  unfold ask
  split
  · exact ho.after_note hU rfl
  · exact ho

/-- Unless a guard fails, the search finds a row if and only if `b` says so. -/
def Finds (U : Marking δ → Marking δ → Prop) (b : Bool)
    (x : Turn σ γ δ (Except Cause (Option (Nat × Transition σ γ Nat)))) (c : Configuration σ γ δ) : Prop :=
  Ends x c (fun found c' => (∀ o, found = .ok o → o.isSome = b) ∧ c.Untouched U c') fun _ _ => False

/-- The search goes on as the answer of the first row says. -/
theorem firstEnabled_finds (hU : Equivalence U) {row : Transition σ γ Nat} {index : Nat}
    {verdict : Except Cause Bool} {b : Bool} {t : Configuration σ γ δ}
    (hask : Answers U t.world.context (ask path active e index row) (some verdict))
    (h : ∀ t₁, t.Untouched U t₁ → Finds U b (match verdict with
      | .error cause => return .error cause
      | .ok true => return .ok (some (index, row))
      | .ok false => firstEnabled path active e (index + 1) rows) t₁) :
    Finds U b (firstEnabled path active e index (row :: rows)) t := by
  unfold Finds
  rw [firstEnabled, ends_bind]
  refine (hask t rfl).mono (fun _ t₁ ht₁ => ?_) fun _ _ h => h
  obtain ⟨rfl, ht₁⟩ := ht₁
  exact (h t₁ ht₁).mono (fun _ _ h => ⟨h.1, ht₁.trans hU h.2⟩) fun _ _ h => h

/-- The dry run of the rows looks for the row that the search finds, but does not end at a guard that fails. -/
theorem anyEnabled_foretells (hU : Equivalence U)
    (hrows : ∀ row ∈ rows, ∀ g, row.guard = some g → g.ReadsOnly) (index : Nat) (s : Configuration σ γ δ) :
    Ends (anyEnabled path active e index rows) s (fun b s' => s.Untouched U s' ∧
      ∀ t : Configuration σ γ δ, t.world.context = s.world.context →
        Finds U b (firstEnabled path active e index rows) t) fun h _ => h.IsPanic := by
  induction rows generalizing index s with
  | nil =>
    refine ⟨.refl hU s, fun t _ => ⟨fun o ho => ?_, .refl hU t⟩⟩
    cases ho
    rfl
  | cons row rows ih =>
    have hrest := ih fun row' hrow' => hrows row' (List.mem_cons_of_mem row hrow')
    obtain ⟨o, hask⟩ : ∃ o, Answers U s.world.context
        (ask path active e index row : Turn σ γ δ (Except Cause Bool)) o :=
      ask_answers hU (hrows row List.mem_cons_self) index
    rw [anyEnabled, ends_bind]
    cases o with
    | none => exact (hask s rfl).mono (fun _ _ h => h.elim) fun _ _ h => h
    | some verdict =>
      refine (hask s rfl).mono (fun verdict' s₁ h₁ => ?_) fun _ _ h => h.elim
      obtain ⟨rfl, hs₁⟩ := h₁
      cases verdict' with
      | error cause =>
        refine (hrest (index + 1) s₁).mono (fun b s₂ h₂ => ⟨hs₁.trans hU h₂.1, fun t ht => ?_⟩) fun _ _ h => h
        rw [← ht] at hask
        exact firstEnabled_finds hU hask fun t₁ _ => ⟨nofun, .refl hU t₁⟩
      | ok fires =>
        cases fires with
        | true =>
          refine ⟨hs₁, fun t ht => ?_⟩
          rw [← ht] at hask
          exact firstEnabled_finds hU hask fun t₁ _ => ⟨fun o ho => by cases ho; rfl, .refl hU t₁⟩
        | false =>
          refine (hrest (index + 1) s₁).mono (fun b s₂ h₂ => ⟨hs₁.trans hU h₂.1, fun t ht => ?_⟩) fun _ _ h => h
          rw [← ht] at hask
          refine firstEnabled_finds hU hask fun t₁ ht₁ => h₂.2 t₁ ?_
          rw [ht₁.world.context, ht, hs₁.world.context]

theorem accepts_agrees [Named σ] (hU : Equivalence U) (t : RegionTable σ γ)
    (hrows : ∀ row ∈ t.rows, ∀ g, row.guard = some g → g.ReadsOnly) (position : Nat) (active : σ) (e : Event) :
    Agrees (δ := δ) U Option.isSome (t.accepts active e) (t.resolve position active e) := by
  intro s
  refine (anyEnabled_foretells hU hrows 0 s).mono (fun b s' h => ⟨h.1, fun c hc _ => ?_⟩) fun _ _ h => h
  have hfound : Ends (t.resolve position active e) c (fun choice c' => choice.isSome = b ∧ c.Untouched U c')
      fun h c' => h.IsGuardFailure ∧ c.Untouched U c' := by
    unfold resolve orFail
    rw [ends_bind, ends_bind]
    refine (h.2 c hc).mono (fun found c' hc' => ?_) fun _ _ h => h.elim
    cases found with
    | ok o => exact ⟨by simpa using hc'.1 o rfl, hc'.2⟩
    | error cause => exact ⟨rfl, .trans hU hc'.2 ⟨World.untouched_note rfl _, hU.refl _⟩⟩
  cases b with
  | true => exact hfound.mono (fun _ _ h => h.1) fun _ _ _ => trivial
  | false => exact hfound

end RegionTable

end Guards

/-! ## Reactions -/

section Reactions

variable {position : Nat} {initial : δ} {f : Callback (γ × δ) α} {a : α} {c : Configuration σ γ δ}

/-- A call that leaves its state as it is. -/
theorem Turn.performAt_of_done (h : f (c.world.context, c.marking.data position initial) =
    .done (c.world.context, c.marking.data position initial) a) :
    Ends (performAt position initial f) c (fun a' c' => a' = a ∧
      c' = ⟨c.world, c.marking.setData position (c.marking.data position initial)⟩) fun _ _ => False := by
  rw [performAt, ends_of_ok (performOn_of_done h)]
  exact ⟨rfl, rfl⟩

theorem Turn.performAt_of_avoids
    (h : (f (c.world.context, c.marking.data position initial)).Avoids a) :
    Ends (performAt position initial f) c (fun a' _ => a' ≠ a) fun _ _ => True := by
  have hplay := h.play _ c.world.exchange
  unfold Ends performAt performOn
  dsimp only
  generalize (f (c.world.context, c.marking.data position initial)).play c.world.exchange = played at hplay
  obtain ⟨⟨result, state⟩, exchange⟩ := played
  cases result with
  | ok a' => exact fun heq => hplay (congrArg Except.ok heq)
  | error message => trivial

variable [Named σ] {setup : Setup σ γ} {U : Marking δ → Marking δ → Prop} {e : Event}

/-- What is foretold of the own reaction of a state. Local data may be written back as they were. -/
theorem Node.consult_foretold (path : String) {n : BuiltNode σ γ δ} (hn : n.data.behavior.Foretells)
    (t : Configuration σ γ δ)
    (hback : U t.marking
      (t.marking.setData position (t.marking.data position n.data.behavior.initial))) :
    Foretold U id (n.consult path position e) t
      (n.data.behavior.accepts t.world.context (t.marking.data position n.data.behavior.initial) e) := by
  -- the configuration in which the reaction is called
  let asked : Configuration σ γ δ :=
    { t with world.exchange := t.world.exchange.note (.consulted path n.data.id e) }
  have hasked : t.world.Untouched asked.world := World.untouched_note rfl _
  unfold Node.consult orFail
  cases hb : n.data.behavior.accepts t.world.context (t.marking.data position n.data.behavior.initial) e with
  | false =>
    change Ends _ t _ _
    rw [ends_bind, ends_note, ends_bind, ends_bind]
    have hcall := Turn.performAt_of_done (c := asked) (hn.refused _ _ _ hb)
    refine hcall.mono (fun outcome c' h => ?_) fun _ _ h => h.elim
    obtain ⟨rfl, rfl⟩ := h
    exact ⟨rfl, hasked, hback⟩
  | true =>
    change Ends _ t _ _
    rw [ends_bind, ends_note, ends_bind, ends_bind]
    have hcall := Turn.performAt_of_avoids (c := asked) (hn.accepted _ _ _ hb)
    refine hcall.mono (fun outcome c' h => ?_) fun _ _ h => h
    cases outcome with
    | error cause => trivial
    | ok processed =>
      cases processed with
      | false => exact absurd rfl h
      | true => exact rfl

variable [DecidableEq σ]

/-- The dry run of a state, given that of its regions. -/
theorem Node.accepts_agrees (hU : Equivalence U) (path : String) {n : BuiltNode σ γ δ}
    (hn : n.data.behavior.Foretells)
    (hdata : ∀ m m', U m m' →
      m'.data position n.data.behavior.initial = m.data position n.data.behavior.initial)
    (hback : ∀ m, U m (m.setData position (m.data position n.data.behavior.initial)))
    (hregions : Agrees U id (Region.checkAny position 0 n.regions e)
      (Region.processAll setup position 0 n.regions e)) :
    Agrees U id (n.accepts position e) (n.react setup path position e) := by
  rw [Node.react_eq]
  obtain ⟨unit, regions⟩ := n
  rw [Node.accepts]
  refine hregions.orElse hU (fun processed h c => ?_) (fun processed h => h) fun s => ?_
  · obtain rfl : processed = true := h
    exact rfl
  · refine ⟨.refl hU s, fun t ht hm => ?_⟩
    have hsame : t.marking.data position unit.behavior.initial =
        s.marking.data position unit.behavior.initial := hdata _ _ hm
    rw [← ht, ← hsame, if_neg Bool.false_ne_true]
    exact Node.consult_foretold path hn t (hback _)

end Reactions

/-! ## Regions -/

section Regions

variable [DecidableEq σ] [Named σ] {setup : Setup σ γ} {U : Marking δ → Marking δ → Prop} {e : Event}

/-- The dry run ends at the first region that accepts, while every region gets the event. -/
theorem Region.checkAny_agrees (hU : Equivalence U) (position index : Nat) {rs : List (BuiltRegion σ γ δ)}
    (h : ∀ j r, rs[j]? = some r → Agrees U id (inChild (position, index + j) (r.check e))
      (inChild (position, index + j) (r.process setup e))) :
    Agrees U id (Region.checkAny position index rs e) (Region.processAll setup position index rs e) := by
  induction rs generalizing index with
  | nil => exact .refuse hU rfl
  | cons r rs ih =>
    rw [Region.checkAny, Region.processAll]
    refine (h 0 r rfl).orElse hU (fun first hfirst c => ?_) (fun first hfirst => hfirst) ?_
    · obtain rfl : first = true := hfirst
      exact ends_bind_of_forall fun _ _ => rfl
    · simp only [Bool.false_or, bind_pure]
      refine ih _ fun j r' hr' => ?_
      rw [show index + 1 + j = index + (j + 1) by omega]
      exact h (j + 1) r' hr'

theorem Region.check_agrees (he : e.isCompletion = false) (r : BuiltRegion σ γ δ) (hr : r.Honest) :
    Agrees r.Alike id (r.check e) (r.process setup e) := by
  induction r using Region.induct with
  | step table nodes ih =>
    have hU := (⟨table, nodes⟩ : BuiltRegion σ γ δ).alike_equivalence
    obtain ⟨hrows, hnodes⟩ := hr _ (Region.mem_preorder_self _)
    rw [Region.check, Region.process]
    refine Agrees.onActive (fun _ _ h => h.active_eq) fun a => ?_
    cases a with
    | stopped => exact .refuse hU rfl
    | final => exact .refuse hU rfl
    | «at» i =>
      dsimp only
      cases hi : nodes[i]? with
      | none => exact .refuse hU rfl
      | some node =>
        have hnode := List.mem_of_getElem? hi
        dsimp only
        rw [if_neg (by simp [he])]
        refine (RegionTable.accepts_agrees hU table hrows i node.data.id e).orElse hU
          (fun choice hchoice c => ?_) (fun choice hchoice => by simpa using hchoice) ?_
        · obtain ⟨choice, rfl⟩ := Option.isSome_iff_exists.1 hchoice
          refine ends_bind_of_forall fun _ c' => ?_
          split
          · exact ends_bind_of_forall fun _ _ => rfl
          · exact rfl
        · rw [Node.acceptsAt_eq, Node.reactAt_eq, hi]
          have hreact : Agrees (Region.Alike ⟨table, nodes⟩) id (node.accepts i e)
              (node.react setup table.path i e) := by
            refine Node.accepts_agrees hU table.path (hnodes node hnode) (fun _ _ h => h.data_eq hi)
              (fun m => .setData m hi) (Region.checkAny_agrees hU i 0 fun j r' hr' => ?_)
            rw [Nat.zero_add]
            have hchild := (Region.child?_of_nodes (r := ⟨table, nodes⟩) hi j).trans hr'
            have hmem := List.mem_of_getElem? hr'
            exact (ih node hnode r' hmem (hr.below hnode hmem)).inChild (fun _ _ h => h.child_alike hchild)
              fun _ _ h => .setChild hchild h
          refine hreact.followed hU (fun c => ?_) rfl
          split
          · exact ends_bind_of_forall fun _ _ => rfl
          · exact rfl

/-- Dispatching the event from a configuration bears out what a dry run says of it. An event that it accepts
is reported as processed, unless its dispatch halts; an event that it refuses is reported as not
processed, or a guard fails, and either way the regions have touched nothing. -/
def Chart.BearsOut (c : Chart σ γ δ) (e : Event) (t : Configuration σ γ δ) : Bool → Prop
  | true =>
    (∃ h t', c.dispatch e t = .error h t' ∧ h.IsNoted t'.world.exchange.journal) ∨
      ∃ t', c.dispatch e t = c.setup.hooks.afterProcessing e true t'
  | false =>
    (∃ f t', c.dispatch e t = .error (.error (.failure f)) t' ∧ f.stage = .guard ∧
        t.Untouched (Region.AllAlike 0 c.regions) t') ∨
      ∃ t', t.Untouched (Region.AllAlike 0 c.regions) t' ∧
        c.dispatch e t = c.setup.hooks.afterProcessing e false t'

theorem Chart.check_agrees {c : Chart σ γ δ} (he : e.isCompletion = false)
    (hhonest : ∀ r ∈ c.regions, r.Honest) :
    Agrees (Region.AllAlike 0 c.regions) id (c.check e) (Region.processAll c.setup 0 0 c.regions e) := by
  refine Region.checkAny_agrees (Region.allAlike_equivalence 0 c.regions) 0 0 fun j r hr => ?_
  have hagrees : Agrees r.Alike id (r.check e) (r.process c.setup e) :=
    Region.check_agrees he r (hhonest r (List.mem_of_getElem? hr))
  rw [Nat.zero_add]
  exact hagrees.inChild (fun _ _ h => h j r hr) fun _ _ h => .setChild hr h

/-- Without a hook before, a dispatch is what the regions do and then the hooks behind. -/
theorem Chart.bearsOut_of_foretold {c : Chart σ γ δ} (hhook : c.setup.hooks.preProcessing = none)
    {t : Configuration σ γ δ} {b : Bool}
    (h : Foretold (Region.AllAlike 0 c.regions) id (Region.processAll c.setup 0 0 c.regions e) t b) :
    c.BearsOut e t b := by
  have hfeeds := c.processRegions_feeds (N := fun _ => True) (e := e) (fun _ _ => trivial) fun _ _ => trivial
  have hdispatch : c.dispatch e t = match Region.processAll c.setup 0 0 c.regions e t with
      | .ok processed t' => c.setup.hooks.afterProcessing e processed t'
      | .error h t' => .error h t' := by
    unfold Chart.dispatch Hooks.beforeProcessing
    rw [hhook]
    change EStateM.bind (Region.processAll c.setup 0 0 c.regions e) _ t = _
    unfold EStateM.bind
    split <;> simp_all
  cases hx : Region.processAll c.setup 0 0 c.regions e t with
  | ok processed t' =>
    rw [hx] at hdispatch
    cases b with
    | true =>
      obtain rfl : processed = true := Ends.of_ok h hx
      exact .inr ⟨t', hdispatch⟩
    | false =>
      obtain ⟨hprocessed, htouched⟩ := Ends.of_ok h hx
      obtain rfl : processed = false := hprocessed
      exact .inr ⟨t', htouched, hdispatch⟩
  | error halt t' =>
    rw [hx] at hdispatch
    cases b with
    | true => exact .inl ⟨halt, t', hdispatch, ((hfeeds t).of_error hx).2⟩
    | false =>
      obtain ⟨hguard, htouched⟩ := Ends.of_error h hx
      obtain ⟨f, rfl, hf⟩ := hguard.exists_failure
      exact .inl ⟨f, t', hdispatch, hf, htouched⟩

/-- **A dry run agrees with a dispatch.** Unless a guard panics, a dry run gives an answer and leaves the
machine as it is. A dispatch bears the answer out, from the same machine or from any other configuration
with the same context in which the same is active with the same local data. Reactions that are listed by
kind keep the contract that this rests on. -/
theorem dry_run_agrees (m : Machine σ γ δ) (he : e ≠ .completion)
    (hhook : m.chart.setup.hooks.preProcessing = none) (hhonest : ∀ r ∈ m.chart.regions, r.Honest) :
    Ends (m.chart.check e) m.configuration
      (fun b s => m.configuration.Untouched (Region.AllAlike 0 m.chart.regions) s ∧
        m.chart.BearsOut e m.configuration b ∧
        ∀ t : Configuration σ γ δ, t.world.context = m.context →
          Region.AllAlike 0 m.chart.regions m.configuration.marking t.marking → m.chart.BearsOut e t b)
      (fun h _ => h.IsPanic) ∧
    ∀ [Inhabited δ] (reactions : Reactions γ), (reactions.behavior : Behavior γ δ).Foretells := by
  have hne : e.isCompletion = false := by
    rw [Bool.eq_false_iff]
    exact fun h => he ((Event.isCompletion_iff e).1 h)
  have hagrees := Chart.check_agrees hne hhonest m.configuration
  refine ⟨hagrees.mono (fun b s h => ⟨h.1, ?_, fun t ht hm => ?_⟩) fun _ _ h => h,
    fun reactions => reactions.behavior_foretells⟩
  · have hsame := (Region.allAlike_equivalence 0 m.chart.regions).refl m.configuration.marking
    exact Chart.bearsOut_of_foretold hhook (h.2 m.configuration rfl hsame)
  · exact Chart.bearsOut_of_foretold hhook (h.2 t ht hm)

end Regions

/-- In the regions of the lamp no guard is called, and the states have no reactions. -/
theorem Lamp.honest_tree : Lamp.tree.Honest := by
  have hguards : ∀ q ∈ Lamp.tree.preorder, ∀ row ∈ q.data.rows, row.guard.isNone = true := by decide
  have hnodes : ∀ q ∈ Lamp.tree.preorder, ∀ n ∈ q.nodes, n.data.behavior = Reactions.behavior {} := by
    simp [Lamp.tree, Lamp.node, Region.preorder_eq, Region.nodes, Node.regions, Node.data]
  intro q hq
  refine ⟨fun row hrow g hg => ?_, fun n hn => ?_⟩
  · have hnone := hguards q hq row hrow
    rw [hg] at hnone
    cases hnone
  · rw [hnodes q hq n hn]
    exact Reactions.behavior_foretells {}

/-- The lamp can be pressed as long as it is off, and there is no light to turn. -/
theorem dry_run_agrees_started : Lamp.started.chart.BearsOut Lamp.press Lamp.started.configuration true ∧
    Lamp.started.chart.BearsOut Lamp.turn Lamp.started.configuration false := by
  have hhonest : ∀ r ∈ Lamp.started.chart.regions, r.Honest := by
    intro r hr
    obtain rfl := List.mem_singleton.1 hr
    exact Lamp.honest_tree
  have hpress : Lamp.started.chart.check Lamp.press Lamp.started.configuration =
      .ok true Lamp.started.configuration := rfl
  have hturn : Lamp.started.chart.check Lamp.turn Lamp.started.configuration =
      .ok false Lamp.started.configuration := rfl
  refine ⟨?_, ?_⟩
  · exact ((dry_run_agrees Lamp.started (by decide) rfl hhonest).1.of_ok hpress).2.1
  · exact ((dry_run_agrees Lamp.started (by decide) rfl hhonest).1.of_ok hturn).2.1

end Statechart
