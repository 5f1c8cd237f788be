import Statechart.Proofs.Bounds
import Statechart.Proofs.Calls
import Statechart.Proofs.Queries
import Statechart.Proofs.Remarks
import Statechart.Proofs.Validity

/-!
# States that nothing leads to

Validation reports a state that is neither at the initial position nor the target of a row. A region makes its initial
state active when it starts and the target of a row when the row fires, and no other state ever. So a state that is
reported is never active nor entered, whether or not anyone heeds the report.

* `Plan.Reached`, `Plan.unreached` : the states that a plan leads to, and those that are reported;
  `Plan.Compiled.not_reached` : these are apart;
* `Plan.Compiled.reached` : the table that is compiled leads to states that the plan leads to;
* `Region.Led` : the table of a region leads to its active state; `Region.led_coupling`, `Region.Pass.upholds_led` :
  every pass upholds that, here and below;
* `Region.Leads r path s` : a table of the region, or of one below it, leads to the state;
  `Region.leads_of_mem_activeStates`, `Region.Pass.entersOnly` : so it does to states that are active or entered;
* `Region.Runs` : what a region comes to in passes that may fail, while the world changes; `Region.Runs.led`;
* `unreached_never_active`.
-/

set_option autoImplicit false

namespace Statechart

open Turn

variable {σ γ δ α : Type}

/-! ## States that a plan leads to -/

/-- The state is the initial one of the region, or the target of one of its rows. -/
def Plan.Reached (p : Plan σ γ δ) (s : σ) : Prop :=
  p.initialState? = some s ∨ ∃ row ∈ p.data.rows, row.target = .state s

section Plans

variable [DecidableEq σ] {p : Plan σ γ δ} {r : BuiltRegion σ γ δ} {s : σ} {i : Nat}

/-- The states that are reported as unreachable. -/
def Plan.unreached (p : Plan σ γ δ) : List σ :=
  (p.nodes.zipIdx.filter fun (node, position) =>
      some position ≠ p.initialPosition && !p.isTargeted node.data.id)
    |>.map fun (node, _) => node.data.id

theorem Plan.reachabilityViolations_eq [Named σ] (p : Plan σ γ δ) :
    p.reachabilityViolations = p.unreached.map fun s => .unreachableState p.data.path (Named.name s) := by
  unfold reachabilityViolations unreached
  rw [List.map_map]
  rfl

theorem Plan.mem_unreached : s ∈ p.unreached ↔ ∃ i, (p.states StateDeclaration.id)[i]? = some s ∧
    p.initialPosition ≠ some i ∧ ∀ row ∈ p.data.rows, row.target ≠ .state s := by
  have hstates (i : Nat) : (p.states StateDeclaration.id)[i]? = p.nodes[i]?.map (·.data.id) := List.getElem?_map
  simp only [unreached, List.mem_map, List.mem_filter, Prod.exists, List.mk_mem_zipIdx_iff_getElem?, Bool.and_eq_true,
    decide_eq_true_eq, Bool.not_eq_true', Plan.isTargeted_eq_false]
  constructor
  · rintro ⟨n, i, ⟨hn, hinitial, hrows⟩, rfl⟩
    exact ⟨i, by rw [hstates, hn]; rfl, hinitial.symm, hrows⟩
  · rintro ⟨i, hs, hinitial, hrows⟩
    rw [hstates, Option.map_eq_some_iff] at hs
    obtain ⟨n, hn, rfl⟩ := hs
    exact ⟨n, i, ⟨hn, hinitial.symm, hrows⟩, rfl⟩

variable [Named σ]

namespace Plan.Compiled

variable (h : p.Compiled r)

include h

/-- The position of the initial state of a compiled region. -/
theorem initialState? : (p.states StateDeclaration.id)[r.data.initial]? = p.initialState? :=
  Plan.initialState?_of_position (Plan.table_ok h.table)

/-- Where states are declared once, the plan leads to none that is reported. -/
theorem not_reached (hnodup : (p.states StateDeclaration.id).Nodup) (hs : s ∈ p.unreached) : ¬p.Reached s := by
  obtain ⟨i, hi, hinitial, hrows⟩ := Plan.mem_unreached.1 hs
  rintro (hstate | ⟨row, hrow, htarget⟩)
  · -- the initial state has one position only
    have hposition := h.initialState?
    rw [hstate, ← hi] at hposition
    have hlt : r.data.initial < (p.states StateDeclaration.id).length :=
      (List.getElem?_eq_some_iff.1 (hposition.trans hi)).1
    exact hinitial (by rw [Plan.table_ok h.table, (List.getElem?_inj hlt hnodup).1 hposition])
  · exact hrows row hrow htarget

/-- What a compiled plan leads to is one of its states. -/
theorem declared (hs : p.Reached s) : s ∈ p.states StateDeclaration.id := by
  rcases hs with hstate | ⟨row, hrow, htarget⟩
  · exact List.mem_of_getElem? (h.initialState?.trans hstate)
  · obtain ⟨row', -, hlocated⟩ := exists_mem_of_forall₂ h.compiles.rows.flip hrow
    have hposition := hlocated.target
    rw [htarget] at hposition
    generalize row'.target = target at hposition
    cases hposition with
    | state hposition =>
      obtain ⟨n, hn, -, rfl⟩ := Plan.node?_of_position hposition
      exact List.mem_map_of_mem (List.mem_of_getElem? hn)

/-- What the table of the region leads to is what the plan leads to. -/
theorem reached {n : BuiltNode σ γ δ} (hi : r.data.LeadsTo i) (hn : r.nodes[i]? = some n) : p.Reached n.data.id := by
  obtain ⟨s, hs, hid, -⟩ := h.compiles.planned hn
  have hstate : (p.states StateDeclaration.id)[i]? = some n.data.id := by
    rw [hid, Region.states, List.getElem?_map, hs]
    rfl
  rcases hi with rfl | ⟨row', hrow', htarget'⟩
  · exact .inl (h.initialState?.symm.trans hstate)
  · obtain ⟨row, hrow, hlocated⟩ := exists_mem_of_forall₂ h.compiles.rows hrow'
    have hposition := hlocated.target
    rw [htarget'] at hposition
    generalize htarget : row.target = target at hposition
    cases hposition with
    | state hposition =>
      obtain ⟨s', hs', -, rfl⟩ := Plan.node?_of_position hposition
      obtain rfl : s = s' := Option.some.inj (hs.symm.trans hs')
      exact .inr ⟨row, hrow, by rw [htarget, hid]⟩

/-- The table leads to states, unless there are none. -/
theorem exists_node (hnodes : p.nodes ≠ []) (hi : r.data.LeadsTo i) : ∃ n, r.nodes[i]? = some n := by
  rcases hi with rfl | ⟨row, hrow, htarget⟩
  · have hlt := Plan.initialPosition_lt hnodes (Plan.table_ok h.table)
    obtain ⟨n, hn, -⟩ := h.compiles.built (List.getElem?_eq_getElem hlt)
    exact ⟨n, hn⟩
  · obtain ⟨k, hk⟩ := List.getElem?_of_mem hrow
    exact h.compiles.target hk htarget

end Plan.Compiled

/-- Where states are declared once in the whole tree, no plan leads to a state that one of them reports. -/
theorem Plan.not_reached_of_distinct (hcompiled : List.Forall₂ Plan.Compiled p.preorder r.preorder)
    (hdistinct : (p.preorder.flatMap (Region.states StateDeclaration.id)).Nodup) {q q' : Plan σ γ δ}
    (hq : q ∈ p.preorder) (hq' : q' ∈ p.preorder) (hs : s ∈ q.unreached) : ¬q'.Reached s := by
  intro hreached
  have hmade {q : Plan σ γ δ} (hq : q ∈ p.preorder) : ∃ r', q.Compiled r' := by
    obtain ⟨r', -, h⟩ := exists_mem_of_forall₂ hcompiled.flip hq
    exact ⟨r', h⟩
  obtain ⟨_, hhere⟩ := hmade hq
  obtain ⟨_, hthere⟩ := hmade hq'
  obtain ⟨_, hdeclared, -⟩ := Plan.mem_unreached.1 hs
  obtain ⟨i, hi⟩ := List.getElem?_of_mem hq
  obtain ⟨j, hj⟩ := List.getElem?_of_mem hq'
  obtain rfl : i = j := eq_of_mem_flatMap hdistinct hi hj (List.mem_of_getElem? hdeclared) (hthere.declared hreached)
  obtain rfl : q = q' := Option.some.inj (hi.symm.trans hj)
  exact hhere.not_reached ((List.nodup_flatMap.1 hdistinct).1 q hq) hs hreached

end Plans

/-! ## States that a region leads to -/

/-- The table of the region leads to what is active in it. -/
def Region.Led (r : BuiltRegion σ γ δ) (m : Marking δ) : Prop := ∀ i, m.active = .at i → r.data.LeadsTo i

theorem Region.led_congr (r : BuiltRegion σ γ δ) (m m' : Marking δ) (hactive : m'.active = m.active) (h : r.Led m) :
    r.Led m' :=
  fun i hi => h i (hactive ▸ hi)

/-- The table of the region, or that of a region below it, is at the path and leads to the state. -/
def Region.Leads (r : BuiltRegion σ γ δ) (path : String) (s : σ) : Prop :=
  ∃ q ∈ r.preorder, q.data.path = path ∧ ∃ i n, q.data.LeadsTo i ∧ q.nodes[i]? = some n ∧ n.data.id = s

theorem Region.Leads.below {r r' : BuiltRegion σ γ δ} {n : BuiltNode σ γ δ} {path : String} {s : σ}
    (h : r'.Leads path s) (hn : n ∈ r.nodes) (hr' : r' ∈ n.regions) : r.Leads path s := by
  obtain ⟨q, hq, hstate⟩ := h
  exact ⟨q, Region.mem_preorder_of_mem hn hr' hq, hstate⟩

/-- If tables lead to what is active in their regions, they lead to every active state. -/
theorem Region.leads_of_mem_activeStates {r : BuiltRegion σ γ δ} {m : Marking δ} {s : σ}
    (h : r.Throughout Region.Led m) (hs : s ∈ r.activeStates m) : ∃ path, r.Leads path s := by
  induction h with
  | @intro r m hhere hbelow ih =>
    obtain ⟨i, n, hactive, hn⟩ := Region.exists_of_mem_activeStates hs
    rcases (Region.mem_activeStates_of_at hn hactive).1 hs with rfl | hs
    · exact ⟨r.data.path, r, r.mem_preorder_self, rfl, i, n, hhere i hactive, hn, rfl⟩
    · obtain ⟨j, r', hr', hs⟩ := Region.mem_allActiveStates.1 hs
      rw [Nat.zero_add] at hs
      obtain ⟨path, hleads⟩ := ih (i, j) r' (by rw [Region.child?_of_nodes hn, hr']) hs
      exact ⟨path, hleads.below (List.mem_of_getElem? hn) (List.mem_of_getElem? hr')⟩

/-! ## Passes -/

/-- If the note tells that a state was entered, then `T` holds of the state and of the path of its region. -/
def Note.Enters (T : String → σ → Prop) (n : Note σ) : Prop := ∀ path s e, n = .entry path s e → T path s

/-- However the turn ends, it only enters states of which `T` holds. -/
def Turn.EntersOnly (T : String → σ → Prop) (x : Turn σ γ δ α) (c : Configuration σ γ δ) : Prop :=
  Ends x c (fun _ c' => ∃ l, c.Writes l c' ∧ ∀ n ∈ l, n.Enters T) fun _ c' => ∃ l, c.Writes l c' ∧ ∀ n ∈ l, n.Enters T

theorem Turn.EntersOnly.mono {T T' : String → σ → Prop} {x : Turn σ γ δ α} {c : Configuration σ γ δ}
    (h : x.EntersOnly T c) (hT : ∀ path s, T path s → T' path s) : x.EntersOnly T' c := by
  have hnotes {c' : Configuration σ γ δ} (h : ∃ l, c.Writes l c' ∧ ∀ n ∈ l, n.Enters T) :
      ∃ l, c.Writes l c' ∧ ∀ n ∈ l, n.Enters T' := by
    obtain ⟨l, hwrites, hl⟩ := h
    exact ⟨l, hwrites, fun n hn path s e he => hT path s (hl n hn path s e he)⟩
  exact Ends.mono h (fun _ _ => hnotes) fun _ _ => hnotes

section Passes

variable [DecidableEq σ] [Named σ] (setup : Setup σ γ) (r : BuiltRegion σ γ δ)

/-- The passes over a region. -/
inductive Region.Pass : {α : Type} → Turn σ γ δ α → Prop where
  | start (e : Event) : Pass (r.start setup e)
  | stop (e : Event) : Pass (r.stop setup e)
  | process (e : Event) : Pass (r.process setup e)
  | check (e : Event) : Pass (r.check e)

/-- What a region comes to after it was built, in passes that end well or are halted. In between, the world may
change in any way. -/
inductive Region.Runs : Configuration σ γ δ → Prop where
  | built (w : World σ γ) : Runs ⟨w, .fresh⟩
  | meanwhile {c : Configuration σ γ δ} (h : Runs c) (w : World σ γ) : Runs { c with world := w }
  | ended {α : Type} {x : Turn σ γ δ α} {a : α} {c c' : Configuration σ γ δ} (h : Runs c) (hx : r.Pass setup x)
      (hend : x c = .ok a c') : Runs c'
  | halted {α : Type} {x : Turn σ γ δ α} {halt : Halt} {c c' : Configuration σ γ δ} (h : Runs c)
      (hx : r.Pass setup x) (hhalt : x c = .error halt c') : Runs c'

/-- Whatever the region comes to, the state is not active in it or below it, and no pass enters it. -/
structure Region.Avoids (s : σ) : Prop where
  active : ∀ c : Configuration σ γ δ, r.Runs setup c →
    s ∉ r.activeStates c.marking ∧ r.isActive s c.marking = false
  entered : ∀ c : Configuration σ γ δ, r.Runs setup c →
    ∀ {α : Type} {x : Turn σ γ δ α}, r.Pass setup x → x.EntersOnly (fun _ t => t ≠ s) c

variable {setup r} {x : Turn σ γ δ α} {c : Configuration σ γ δ}

omit [DecidableEq σ] [Named σ] in
theorem Node.matches_refl : ∀ o : Option (BuiltNode σ γ δ), Option.Rel Node.Matches o o
  | none => .none
  | some _ => .some ⟨rfl, rfl⟩

/-- A region runs in lockstep with itself, its table leading to what is active. -/
theorem Region.led_coupling :
    Region.Coupling setup (fun _ => True) (fun r r' : BuiltRegion σ γ δ => r' = r) (Region.Alone Region.Led) where
  overflow _ _ := trivial
  table h := by rw [h]
  child h hs hs' := by
    subst h
    exact ⟨Option.some.inj (hs'.symm.trans hs), Region.spans_throughout Region.led_congr hs⟩
  active h := by rw [h.1]
  state h _ _ := by
    subst h
    exact Node.matches_refl _
  move h hR ha := by
    obtain ⟨rfl, hc⟩ := hR
    exact ⟨rfl, .intro (fun i hi => ha i hi) fun k s hs => hc.child hs⟩
  own _ hx := (Region.carries_throughout Region.led_congr _).own hx

/-- Every pass over a region upholds that tables lead to what is active, here and below. -/
theorem Region.Pass.upholds_led (hx : r.Pass setup x) : Upholds (fun c => r.Throughout Region.Led c.marking) x := by
  have C : Region.Coupling setup _ _ _ := Region.led_coupling (δ := δ)
  have hcarries (r : BuiltRegion σ γ δ) : Turn.Carries (r.Alone Region.Led) :=
    Region.carries_throughout Region.led_congr r
  cases hx with
  | start e => exact (C.start e rfl).upholds
  | stop e => exact (C.stop e rfl).upholds
  | process e => exact (C.process (fun _ _ path e => (hcarries _).consult _ path _ e) e rfl).upholds
  | check e =>
    refine (C.check (fun _ s e => (hcarries _).accepts _ s e) (fun _ _ _ => ?_) e rfl).upholds
    exact Lockstep.of_upholds fun c hc => hc

/-- A pass over a region enters only states that tables lead to. -/
theorem Region.Pass.entersOnly (hx : r.Pass setup x) (c : Configuration σ γ δ) : x.EntersOnly r.Leads c := by
  have hremarks : Note.AdmitsRemarks (Note.Enters r.Leads) := by
    rintro n - hn path s e rfl
    cases hn
  have hentries : r.AdmitsEntries (Note.Enters r.Leads) := by
    rintro q hq i n e hn hi path s e' he
    cases he
    exact ⟨q, hq, rfl, i, n, hi, hn, rfl⟩
  have hwrites : WritesOnly (Note.Enters r.Leads) x := by
    cases hx with
    | start e => exact Region.start_writesOnly hremarks hentries
    | stop e => exact Region.stop_writesOnly hremarks hentries
    | process e => exact Region.process_writesOnly hremarks hentries
    | check e => exact Region.check_writesOnly hremarks r
  exact (hwrites c).mono (fun _ _ h => h.writes) fun _ _ h => h.1.writes

/-- Tables lead to what is active, whatever a region comes to. -/
theorem Region.Runs.led (h : r.Runs setup c) : r.Throughout Region.Led c.marking := by
  induction h with
  | built w => exact Region.throughout_fresh (fun _ => nofun) r
  | meanwhile _ w ih => exact ih
  | ended _ hx hend ih => exact Ends.of_ok (hx.upholds_led _ ih) hend
  | halted _ hx hhalt ih => exact Ends.of_error (hx.upholds_led _ ih) hhalt

/-- A region avoids the states to which neither its table leads nor that of a region below it. -/
theorem Region.avoids_of_not_leads {s : σ} (hs : ∀ path, ¬r.Leads path s) : r.Avoids setup s := by
  have hinactive (c : Configuration σ γ δ) (hc : r.Runs setup c) : s ∉ r.activeStates c.marking := by
    intro hactive
    obtain ⟨path, hleads⟩ := Region.leads_of_mem_activeStates hc.led hactive
    exact hs path hleads
  refine ⟨fun c hc => ⟨hinactive c hc, ?_⟩, fun c _ _ _ hx => ?_⟩
  · rw [Bool.eq_false_iff, Ne, Region.isActive_iff]
    exact hinactive c hc
  · exact (hx.entersOnly c).mono fun path t ht hts => hs path (hts ▸ ht)

/-! ## Regions of plans -/

/-- **A state that is reported as unreachable is never active.** Whether or not its plan passes validation, whatever
events a region takes and whatever its callbacks do, its active state is always the initial one or the target of one
of its rows; and so is every state that is active below it, and every state that a pass enters, in its own region. Of
these none is reported, so that a state which is reported is neither active nor entered in any run. -/
theorem unreached_never_active {p : Plan σ γ δ} {c₀ c₁ : Configuration σ γ δ}
    (hconstruct : p.construct.run c₀ = .ok (.ok r) c₁) :
    (∀ (setup : Setup σ γ) (c : Configuration σ γ δ), r.Runs setup c →
      (∀ i, c.marking.active = .at i → p.nodes ≠ [] → ∃ n, r.nodes[i]? = some n ∧ Plan.Reached p n.data.id) ∧
      (∀ s ∈ r.activeStates c.marking, ∃ q ∈ p.preorder, Plan.Reached q s) ∧
      ∀ {α : Type} {x : Turn σ γ δ α}, r.Pass setup x →
        x.EntersOnly (fun path s => ∃ q ∈ p.preorder, q.data.path = path ∧ Plan.Reached q s) c) ∧
    (∀ q ∈ p.preorder, Plan.reachabilityViolations q =
      (Plan.unreached q).map fun s => .unreachableState q.data.path (Named.name s)) ∧
    ((p.states StateDeclaration.id).Nodup → ∀ s ∈ Plan.unreached p, ∀ (setup : Setup σ γ) (c : Configuration σ γ δ),
      r.Runs setup c → ∀ i n, c.marking.active = .at i → r.nodes[i]? = some n → n.data.id ≠ s) ∧
    ((p.preorder.flatMap (Region.states StateDeclaration.id)).Nodup → ∀ q ∈ p.preorder, ∀ s ∈ Plan.unreached q,
      ∀ setup : Setup σ γ, r.Avoids setup s) := by
  have hcompiled : List.Forall₂ Plan.Compiled p.preorder r.preorder :=
    ((Plan.construct_compiled (F := fun _ => True) p (fun _ _ _ _ => trivial) c₀).of_ok hconstruct).2.1 r rfl
  have hhere : p.Compiled r := by
    rw [Region.preorder_eq, Region.preorder_eq] at hcompiled
    cases hcompiled with
    | cons hhere _ => exact hhere
  have hleads {path : String} {s : σ} (h : r.Leads path s) :
      ∃ q ∈ p.preorder, q.data.path = path ∧ Plan.Reached q s := by
    obtain ⟨r', hr', rfl, i, n, hi, hn, rfl⟩ := h
    obtain ⟨q, hq, hmade⟩ := exists_mem_of_forall₂ hcompiled hr'
    exact ⟨q, hq, hmade.compiles.path.symm, hmade.reached hi hn⟩
  refine ⟨fun setup c hc => ⟨fun i hi hnodes => ?_, fun s hs => ?_, fun hx => ?_⟩,
    fun q _ => Plan.reachabilityViolations_eq q, fun hnodup s hs setup c hc i n hi hn hid => ?_,
    fun hdistinct q hq s hs setup => ?_⟩
  · obtain ⟨n, hn⟩ := hhere.exists_node hnodes (hc.led.here i hi)
    exact ⟨n, hn, hhere.reached (hc.led.here i hi) hn⟩
  · obtain ⟨path, hpath⟩ := Region.leads_of_mem_activeStates hc.led hs
    obtain ⟨q, hq, -, hreached⟩ := hleads hpath
    exact ⟨q, hq, hreached⟩
  · exact (hx.entersOnly c).mono fun _ _ => hleads
  · exact hhere.not_reached hnodup hs (hid ▸ hhere.reached (hc.led.here i hi) hn)
  · refine Region.avoids_of_not_leads fun path hpath => ?_
    obtain ⟨q', hq', -, hreached⟩ := hleads hpath
    exact Plan.not_reached_of_distinct hcompiled hdistinct hq hq' hs hreached

end Passes

namespace Lamp

/-- The plan of a lamp whose light is never turned up. -/
def dullPlan : Plan Lamp Unit Unit :=
  let factory : Factory Unit Unit := (pure (Reactions.behavior {}) : Callback Unit (Behavior Unit Unit))
  ⟨plan.data, [⟨⟨on, factory⟩, [lightPlan []]⟩, ⟨⟨off, factory⟩, []⟩]⟩

def dull : BuiltRegion Lamp Unit Unit := ⟨tree.data, [node on [lightRegion []], node off []]⟩

end Lamp

/-- The dull lamp does not pass validation, for its light is never bright; and indeed, it never is. -/
theorem unreached_never_active_dull :
    validate [Lamp.dullPlan] = .error (.invalidTable [.unreachableState "light" "bright"]) ∧
      Lamp.dull.Avoids {} .bright := by
  obtain ⟨c₁, hconstruct⟩ : ∃ c₁, Lamp.dullPlan.construct.run (Lamp.untold .stopped) = .ok (.ok Lamp.dull) c₁ :=
    ⟨_, rfl⟩
  have hpreorder : Lamp.dullPlan.preorder = [Lamp.dullPlan, Lamp.lightPlan []] := rfl
  have hlight : Lamp.lightPlan [] ∈ Lamp.dullPlan.preorder := by simp [hpreorder]
  have hdistinct : (Lamp.dullPlan.preorder.flatMap (Region.states StateDeclaration.id)).Nodup := by decide
  have hreported : Lamp.bright ∈ Plan.unreached (Lamp.lightPlan []) := by decide
  exact ⟨rfl, (unreached_never_active hconstruct).2.2.2 hdistinct _ hlight _ hreported {}⟩

end Statechart
