import Statechart.Proofs.Autonomy
import Statechart.Proofs.Compilation

/-!
# Orthogonal regions are independent

A calm machine of which all operations end well does in each of its regions what a machine of some of these regions
does, in whatever order they are.

* `Machine.profile m j` : what is active in region `j` of the machine, at every depth;
* `Chart.Picks c js rs` : `rs` are the regions `js` of the chart;
* `Chart.Shows c js s t` : `t` shows of the regions `js` what is active in them in `s`;
* `Chart.Echoes c js H x y` : where `y` starts from what shows the start of `x`, it ends well if `x` does, and shows
  the end of `x`;
* `Chart.Echoes.onEach` : every pass over the regions is echoed; `Chart.operation_echoes` : every operation;
* `orthogonal_regions_are_independent`.
-/

set_option autoImplicit false

namespace Statechart

open Turn

variable {σ γ δ α β α' β' : Type}

/-- What is active in region `j` of the machine, at every depth. -/
def Machine.profile (m : Machine σ γ δ) (j : Nat) : List (Nat × Nat) → Active :=
  (m.configuration.marking.child (0, j)).profile

/-- The regions `js` of the chart, in this order. -/
def Chart.Picks (c : Chart σ γ δ) (js : List Nat) (rs : List (BuiltRegion σ γ δ)) : Prop :=
  List.Forall₂ (fun j r => c.regions[j]? = some r) js rs

section Picks

variable {c : Chart σ γ δ} {js : List Nat} {rs : List (BuiltRegion σ γ δ)} {i j : Nat} {r : BuiltRegion σ γ δ}

theorem Chart.Picks.source (h : c.Picks js rs) (hr : rs[i]? = some r) :
    ∃ j, js[i]? = some j ∧ c.regions[j]? = some r := by
  have hrel := getElem?_of_forall₂ h i
  rw [hr] at hrel
  cases hj : js[i]? with
  | none =>
    rw [hj] at hrel
    cases hrel
  | some j =>
    rw [hj] at hrel
    cases hrel with
    | some hsource => exact ⟨j, rfl, hsource⟩

theorem Chart.Picks.mem (h : c.Picks js rs) (hr : r ∈ rs) : r ∈ c.regions := by
  obtain ⟨i, hi⟩ := List.getElem?_of_mem hr
  obtain ⟨j, -, hj⟩ := h.source hi
  exact List.mem_of_getElem? hj

end Picks

section Echoes

variable [DecidableEq σ] [Named σ]

/-- The regions of the chart have settled in `s`, and `t` has the mailbox of `s` and shows what is active in the
regions `js`. -/
structure Chart.Shows (c : Chart σ γ δ) (js : List Nat) (s t : Configuration σ γ δ) : Prop where
  mailbox : t.world.exchange.mailbox = s.world.exchange.mailbox
  settled : ∀ (j : Nat) r, c.regions[j]? = some r → r.Throughout Region.Settled (s.marking.child (0, j))
  profile : ∀ i j : Nat, js[i]? = some j → (t.marking.child (0, i)).profile = (s.marking.child (0, j)).profile

/-- What of `x` can be seen in the regions `js` of the chart, `y` does, too. -/
def Chart.Echoes (c : Chart σ γ δ) (js : List Nat) (H : Halt → Prop) (x : Turn σ γ δ α) (y : Turn σ γ δ β) : Prop :=
  ∀ s t, c.Shows js s t → EndsTogether x y s t (fun _ _ => c.Shows js) H

variable {c : Chart σ γ δ} {js : List Nat} {rs : List (BuiltRegion σ γ δ)} {H : Halt → Prop} {x : Turn σ γ δ α}
  {y : Turn σ γ δ β} {s s' t t' : Configuration σ γ δ} {e : Event}

theorem Chart.Shows.alike (h : c.Shows js s t) (hs : s.Alike s') (ht : t.Alike t') : c.Shows js s' t' where
  mailbox := ht.mailbox.trans (h.mailbox.trans hs.mailbox.symm)
  settled j r hr := Region.Settled.of_profile (h.settled j r hr) (Marking.child_of_profile hs.profile (0, j))
  profile i j hij := (Marking.child_of_profile ht.profile (0, i)).trans
    ((h.profile i j hij).trans (Marking.child_of_profile hs.profile (0, j)).symm)

theorem Chart.Echoes.mono {H' : Halt → Prop} (h : c.Echoes js H x y) (hH : ∀ h, H h → H' h) : c.Echoes js H' x y :=
  fun s t hst => (h s t hst).mono (fun _ _ _ _ h => h) hH

theorem Chart.Echoes.bind {f : α → Turn σ γ δ α'} {g : β → Turn σ γ δ β'} (h : c.Echoes js H x y)
    (hfg : ∀ a b, c.Echoes js H (f a) (g b)) : c.Echoes js H (x >>= f) (y >>= g) :=
  fun s t hst => (h s t hst).bind fun a b s' t' => hfg a b s' t'

theorem Chart.Echoes.pure (a : α) (b : β) :
    c.Echoes js H (Pure.pure a : Turn σ γ δ α) (Pure.pure b : Turn σ γ δ β) := fun _ _ hst => hst

theorem Chart.Echoes.of_hidden (hx : Hidden x) (hy : Hidden y) : c.Echoes js H x y := by
  intro s t hst
  refine (EndsTogether.of_ends ((hx s).mono (fun _ _ h => h) fun _ _ h => h.2.elim)
    ((hy t).mono (fun _ _ h => h) fun _ _ h => h.2)).mono (fun _ _ _ _ h => ?_) fun _ h => h
  exact hst.alike h.1 h.2

/-- Every pass over the regions of the chart is echoed by the pass over some of them. -/
theorem Chart.Echoes.onEach {x : BuiltRegion σ γ δ → Turn σ γ δ α} (hx : ∀ r ∈ c.regions, Autonomous r (x r))
    (hpick : c.Picks js rs) :
    c.Echoes js Halt.Overflows (Turn.onEach x 0 0 c.regions) (Turn.onEach x 0 0 rs) := by
  intro s t hst
  refine Ends.mono (onEach_makes hx rfl hst.settled) (fun _ s' hs' => ?_) fun _ _ h => h
  obtain ⟨hs', hmade⟩ := hs'
  have hpart : Ends (Turn.onEach x 0 0 rs) t _ _ :=
    onEach_repeats (m := fun i => s'.marking.child (0, js.getD i 0)) hst.mailbox fun i r hr => by
      obtain ⟨j, hij, hj⟩ := hpick.source hr
      refine ⟨s.marking.child (0, j), hst.profile i j hij, ?_⟩
      simpa [List.getD_eq_getElem?_getD, hij] using hmade j r hj
  refine hpart.mono (fun _ t' ht' => ⟨ht'.1.trans hs'.symm, fun j r hr => (hmade j r hr).settled, fun i j hij => ?_⟩)
    fun _ _ h => h
  have hi : i < rs.length := hpick.length_eq ▸ (List.getElem?_eq_some_iff.1 hij).1
  simpa [List.getD_eq_getElem?_getD, hij] using ht'.2 i hi

/-! ## Dispatches -/

section Operations

variable (hc : c.Calm) (hinitials : ∀ r ∈ c.regions, r.HasInitials) (hpick : c.Picks js rs)

include hc hpick in
theorem Chart.Echoes.stopRegions :
    c.Echoes js Halt.Overflows c.stopRegions (Chart.stopRegions { c with regions := rs }) := by
  intro s t hst
  have hloop := Chart.Echoes.onEach (fun r hr => r.stop_autonomous hc.hooks (hc.regions r hr) .stop) hpick s t hst
  unfold EndsTogether Chart.stopRegions
  simp only [Region.ends_stopAll]
  exact hloop

include hc hinitials hpick in
theorem Chart.Echoes.startRegions :
    c.Echoes js Halt.Overflows c.startRegions (Chart.startRegions { c with regions := rs }) := by
  intro s t hst
  have hloop := Chart.Echoes.onEach
    (fun r hr => r.start_autonomous hc.hooks (hinitials r hr) (hc.regions r hr) .start) hpick s t hst
  unfold EndsTogether Chart.startRegions
  simp only [Region.ends_startAll]
  exact hloop

include hc hinitials hpick in
/-- The hooks may be told something else after an event, but they are calm. -/
theorem Chart.Echoes.dispatch (e : Event) :
    c.Echoes js Halt.Overflows (c.dispatch e) (Chart.dispatch { c with regions := rs } e) := by
  refine .bind (.of_hidden (hc.hooks.beforeProcessing e).calm.hidden (hc.hooks.beforeProcessing e).calm.hidden)
    fun _ _ => .bind (fun s t hst => ?_) fun p p' =>
      .of_hidden (hc.hooks.afterProcessing e p).calm.hidden (hc.hooks.afterProcessing e p').calm.hidden
  have hloop := Chart.Echoes.onEach
    (fun r hr => r.process_autonomous hc.hooks (hinitials r hr) (hc.regions r hr) e) hpick s t hst
  unfold EndsTogether
  simp only [Region.ends_processAll]
  exact hloop

omit [DecidableEq σ] in
/-- No hook hears of an overflow. -/
theorem Chart.ends_recovering (c : Chart σ γ δ) {x : Turn σ γ δ Unit} {s : Configuration σ γ δ}
    {Q : Unit → Configuration σ γ δ → Prop} {E : Halt → Prop}
    (h : Ends x s Q fun h _ => h.Overflows ∧ E h) : Ends (c.recovering x) s Q fun h _ => E h := by
  unfold Chart.recovering
  rw [ends_bind, ends_attempt]
  refine h.mono (fun _ _ h => h) fun halt s' h => ?_
  obtain ⟨hoverflows, hE⟩ := h
  unfold Halt.Overflows Halt.isOverflow at hoverflows
  split at hoverflows
  · exact hE
  · cases hoverflows

theorem Chart.Echoes.recovering {x y : Turn σ γ δ Unit} (h : c.Echoes js Halt.Overflows x y) (c' : Chart σ γ δ) :
    c.Echoes js Halt.Overflows (c.recovering x) (c'.recovering y) := by
  intro s t hst
  refine c.ends_recovering (Ends.mono (h s t hst) (fun _ s' hs' => ?_) fun _ _ h => ⟨h, h⟩)
  exact c'.ends_recovering (hs'.mono (fun _ _ h => h) fun _ _ h => h.elim)

theorem Chart.Echoes.note (n : Note σ) : c.Echoes js H (Turn.note n) (Turn.note n) :=
  .of_hidden (note_steady n).calm.hidden (note_steady n).calm.hidden

include hc hinitials hpick in
theorem Chart.Echoes.handle (e : Event) :
    c.Echoes js Halt.Overflows (c.handle e) (Chart.handle { c with regions := rs } e) :=
  .bind (.note _) fun _ _ => .bind (.recovering (.dispatch hc hinitials hpick e) _) fun _ _ => .note _

omit [DecidableEq σ] [Named σ] in
theorem Exchange.offer_mailbox (x : Exchange σ) (e : Event) :
    (x.offer e).1 = (x.mailbox.offer e).1 ∧ (x.offer e).2.mailbox = (x.mailbox.offer e).2 := by
  unfold Exchange.offer
  generalize x.mailbox.offer e = offered
  obtain ⟨receipt, b⟩ := offered
  cases receipt <;> exact ⟨rfl, rfl⟩

theorem Chart.Echoes.offer (e : Event) : c.Echoes js (fun _ => True) (Turn.offer e) (Turn.offer e) := by
  intro s t hst
  unfold Turn.offer
  refine EndsTogether.get ?_
  have hs := s.world.exchange.offer_mailbox e
  have ht := t.world.exchange.offer_mailbox e
  rw [hst.mailbox] at ht
  generalize s.world.exchange.offer e = offered at hs
  generalize t.world.exchange.offer e = offered' at ht
  obtain ⟨receipt, x⟩ := offered
  obtain ⟨receipt', x'⟩ := offered'
  obtain rfl : receipt' = receipt := ht.1.trans hs.1.symm
  cases receipt' with
  | queued => exact ⟨ht.2.trans hs.2.symm, hst.settled, hst.profile⟩
  | refused => trivial

/-- The same event is taken. -/
theorem Chart.Shows.take (hst : c.Shows js s t) :
    EndsTogether Chart.take Chart.take s t (fun e e' s' t' => e' = e ∧ c.Shows js s' t') H := by
  unfold Chart.take
  refine EndsTogether.get ?_
  rw [hst.mailbox]
  cases s.world.exchange.mailbox.take? with
  | none => exact ⟨rfl, hst⟩
  | some taken => exact ⟨rfl, rfl, hst.settled, hst.profile⟩

include hc hinitials hpick in
/-- What is pending is dispatched here and there. -/
theorem Chart.Echoes.drain (bound : Nat) :
    c.Echoes js (fun _ => True) (c.drain bound) (Chart.drain { c with regions := rs } bound) := by
  induction bound with
  | zero =>
    intro s t hst
    rw [Chart.drain, Chart.drain]
    refine EndsTogether.get ?_
    rw [hst.mailbox]
    split
    · trivial
    · exact hst
  | succ bound ih =>
    intro s t hst
    rw [Chart.drain, Chart.drain]
    refine hst.take.bind fun e e' s' t' h => ?_
    obtain ⟨rfl, hst'⟩ := h
    cases e' with
    | none => exact hst'
    | some e =>
      have hhandle : c.Echoes js (fun _ => True) (c.handle e) (Chart.handle { c with regions := rs } e) :=
        (Chart.Echoes.handle hc hinitials hpick e).mono fun _ _ => trivial
      exact hhandle.bind (fun _ _ => ih) s' t' hst'

include hc hinitials hpick in
/-- Every operation is echoed. -/
theorem Chart.operation_echoes (bound : Nat) (op : Operation γ) :
    c.Echoes js (fun _ => True) (op.turn c bound) (op.turn { c with regions := rs } bound) := by
  have hdrain := Chart.Echoes.drain hc hinitials hpick bound
  have hlast {x y : Turn σ γ δ Unit} (h : c.Echoes js Halt.Overflows x y) :
      c.Echoes js (fun _ => True) (do x; c.drain bound) (do y; Chart.drain { c with regions := rs } bound) :=
    (h.mono fun _ _ => trivial).bind fun _ _ => hdrain
  cases op with
  | start => exact hlast (.recovering (.startRegions hc hinitials hpick) _)
  | stop => exact hlast (.recovering (.stopRegions hc hpick) _)
  | process e => exact (Chart.Echoes.offer e).bind fun _ _ => hdrain
  | processNow e => exact hlast (.handle hc hinitials hpick e)
  | processPending => exact hdrain
  | post e => exact .offer e
  | check e =>
    refine Chart.Echoes.bind (.of_hidden ?_ ?_) fun _ _ => .pure () ()
    · exact Region.checkAny_hidden hc.regions 0 0
    · exact Region.checkAny_hidden (fun r hr => hc.regions r (hpick.mem hr)) 0 0
  | setContext context => exact fun _ _ hst => ⟨hst.mailbox, hst.settled, hst.profile⟩
  | setClock now => exact fun _ _ hst => ⟨hst.mailbox, hst.settled, hst.profile⟩

/-! ## Runs -/

omit [DecidableEq σ] [Named σ] in
theorem Machine.run_together {m m' : Machine σ γ δ}
    {Q : α → β → Configuration σ γ δ → Configuration σ γ δ → Prop}
    (h : EndsTogether x y m.configuration m'.configuration Q H) {a : α} (ha : (m.run x).1 = .ok a) :
    ∃ b, (m'.run y).1 = .ok b ∧ Q a b (m.run x).2.configuration (m'.run y).2.configuration := by
  unfold Machine.run at ha ⊢
  cases hx : x m.configuration with
  | error =>
    rw [hx] at ha
    cases ha
  | ok a' s' =>
    rw [hx] at ha
    obtain rfl := Except.ok.inj ha
    obtain ⟨b, t', hy, hQ⟩ := h.of_ok hx
    rw [hy]
    exact ⟨b, rfl, hQ⟩

include hc hinitials hpick in
/-- However many operations end well, each region goes the way that it goes among the regions `js`. -/
theorem Machine.answers_echo {m m' : Machine σ γ δ} (hm : m.chart = c) (hm' : m'.chart = { c with regions := rs })
    (hshows : c.Shows js m.configuration m'.configuration) (bound : Nat) (ops : List (Operation γ))
    (hok : ∀ answer ∈ m.answers bound ops, answer.1 = .ok ()) :
    List.Forall₂ (fun answer answer' => answer'.1 = .ok () ∧
        ∀ i j : Nat, js[i]? = some j → answer'.2.profile i = answer.2.profile j)
      (m.answers bound ops) (m'.answers bound ops) := by
  unfold Machine.answers at hok ⊢
  induction ops generalizing m m' with
  | nil => exact .nil
  | cons op ops ih =>
    rw [transcript, List.forall_mem_cons] at hok
    have hone : EndsTogether (op.turn m.chart bound) (op.turn m'.chart bound) m.configuration m'.configuration
        (fun _ _ => c.Shows js) fun _ => True := by
      rw [hm, hm']
      exact Chart.operation_echoes hc hinitials hpick bound op _ _ hshows
    obtain ⟨⟨⟩, hok', hshows'⟩ := Machine.run_together hone hok.1
    refine .cons ⟨hok', hshows'.profile⟩ (ih ?_ ?_ hshows' hok.2)
    · exact (m.chart_operate bound op).trans hm
    · exact (m'.chart_operate bound op).trans hm'

end Operations

end Echoes

/-- **Orthogonal regions are independent.** Let a machine be assembled from a blueprint, with guards that decide by the
event alone, and with callbacks and hooks that neither fail nor panic nor raise events. As long as every operation on it
ends well, each of its regions has the same active at every depth, after each operation, as in the machine of that
region alone, on which the same operations end well, too. So it is in the machine of any of its regions, in whatever
order: when all regions are put in another order, what is active in them changes places with them, and that is all. The
contexts of these machines may differ. -/
theorem orthogonal_regions_are_independent [DecidableEq σ] [Named σ] [Inhabited δ] {b : Blueprint σ γ δ}
    {c : Chart σ γ δ} {s : Configuration σ γ δ} (hassembled : b.Assembled c s) (hcalm : c.Calm) (bound : Nat)
    (ops : List (Operation γ)) (hok : ∀ answer ∈ Machine.answers ⟨c, s⟩ bound ops, answer.1 = .ok ())
    {w : World σ γ} (hw : w.exchange.mailbox = s.world.exchange.mailbox) :
    (∀ (j : Nat) (r : BuiltRegion σ γ δ), c.regions[j]? = some r →
      List.Forall₂ (fun answer answer' => answer'.1 = .ok () ∧ answer'.2.profile 0 = answer.2.profile j)
        (Machine.answers ⟨c, s⟩ bound ops) (Machine.answers ⟨{ c with regions := [r] }, ⟨w, .fresh⟩⟩ bound ops)) ∧
    ∀ (js : List Nat) (rs : List (BuiltRegion σ γ δ)), c.Picks js rs →
      List.Forall₂ (fun answer answer' => answer'.1 = .ok () ∧
          ∀ i j : Nat, js[i]? = some j → answer'.2.profile i = answer.2.profile j)
        (Machine.answers ⟨c, s⟩ bound ops) (Machine.answers ⟨{ c with regions := rs }, ⟨w, .fresh⟩⟩ bound ops) := by
  have hshows (js : List Nat) : c.Shows js s ⟨w, .fresh⟩ := by
    refine ⟨hw, fun j r _ => ?_, fun i j _ => ?_⟩
    · rw [hassembled.marking]
      exact Region.settled_fresh r
    · rw [hassembled.marking]
      rfl
  have hpart {js : List Nat} {rs : List (BuiltRegion σ γ δ)} (hpick : c.Picks js rs) :
      List.Forall₂ (fun answer answer' => answer'.1 = .ok () ∧
          ∀ i j : Nat, js[i]? = some j → answer'.2.profile i = answer.2.profile j)
        (Machine.answers ⟨c, s⟩ bound ops) (Machine.answers ⟨{ c with regions := rs }, ⟨w, .fresh⟩⟩ bound ops) :=
    Machine.answers_echo hcalm hassembled.hasInitials hpick rfl rfl (hshows js) bound ops hok
  refine ⟨fun j r hr => ?_, fun _ _ hpick => hpart hpick⟩
  exact (hpart (.cons hr .nil)).imp fun _ _ h => ⟨h.1, h.2 0 j rfl⟩

namespace Lamp

/-- A lamp beside a light that is turned independently of it. -/
def besideLight : Blueprint Lamp Unit Unit where
  regions := [Declaration.new "lamp" |>.initial off |>.transition (row off (.state on) press)
    |>.transition (row on (.state off) press), light]
  setup := blueprint.setup

/-- The light of that machine. -/
def lone : BuiltRegion Lamp Unit Unit := lightRegion [row dim (.state 1) turn]

/-- That machine before it is started. -/
def beside : Machine Lamp Unit Unit where
  chart := ⟨[⟨⟨"lamp", [row off (.state 1) press, row on (.state 0) press], 0⟩, [node off [], node on []]⟩, lone],
    blueprint.setup⟩
  configuration.world.context := ()
  configuration.world.exchange.journal.notes :=
    [.stateMade bright, .stateMade dim, .stateMade on, .stateMade off, .contextMade]
  configuration.marking := .fresh

theorem row_calm {τ : Type} (source : Lamp) (target : Target τ) (e : Event) : (row source target e).Calm :=
  ⟨nofun, nofun⟩

/-- A region without composite states is calm if its rows are, and if its states have no reactions. -/
theorem flat_calm (table : RegionTable Lamp Unit) (states : List Lamp) (h : ∀ row ∈ table.rows, row.Calm) :
    Region.Calm (⟨table, states.map (node · [])⟩ : BuiltRegion Lamp Unit Unit) := by
  have hpreorder : Region.preorder (⟨table, states.map (node · [])⟩ : BuiltRegion Lamp Unit Unit) =
      [⟨table, states.map (node · [])⟩] := by
    rw [Region.preorder_eq]
    simp [Region.nodes, node, Node.regions]
  refine ⟨fun q hq => ?_, fun q hq n hn => ?_⟩
  · rw [hpreorder, List.mem_singleton] at hq
    exact hq ▸ h
  · rw [hpreorder, List.mem_singleton] at hq
    subst hq
    obtain ⟨s, -, rfl⟩ := List.mem_map.1 hn
    exact ⟨fun _ s => ⟨s, rfl⟩, fun _ s => ⟨s, rfl⟩, fun _ s => ⟨s, false, rfl⟩⟩

end Lamp

/-- The light is turned in that machine as it is when it is alone. -/
theorem orthogonal_regions_are_independent_beside :
    Lamp.besideLight.build 0 (pure () : Callback Unit Unit) = .ready Lamp.beside ∧
      List.Forall₂ (fun answer answer' => answer'.1 = .ok () ∧ answer'.2.profile 0 = answer.2.profile 1)
        (Lamp.beside.answers 1 [.start, .process Lamp.press, .process Lamp.turn])
        (Machine.answers ⟨⟨[Lamp.lone], Lamp.blueprint.setup⟩, ⟨{ context := () }, .fresh⟩⟩ 1
          [.start, .process Lamp.press, .process Lamp.turn]) := by
  have hbuild : Lamp.besideLight.build 0 (pure () : Callback Unit Unit) = .ready Lamp.beside := rfl
  refine ⟨hbuild, ?_⟩
  have hassembled : Lamp.besideLight.Assembled Lamp.beside.chart Lamp.beside.configuration := by
    cases hplans : Lamp.besideLight.plans with
    | error e => cases hplans
    | ok plans =>
      refine ⟨rfl, ⟨plans, hplans, ?_⟩, rfl, rfl, by decide +kernel⟩
      cases hplans
      rfl
  have hcalm : Lamp.beside.chart.Calm := by
    refine ⟨⟨nofun, nofun, nofun, nofun, nofun⟩, ?_⟩
    simp only [Lamp.beside, List.forall_mem_cons]
    refine ⟨Lamp.flat_calm _ [.off, .on] ?_, Lamp.flat_calm _ [.dim, .bright] ?_, nofun⟩
    · simp only [List.forall_mem_cons]
      exact ⟨Lamp.row_calm _ _ _, Lamp.row_calm _ _ _, nofun⟩
    · simp only [List.forall_mem_cons]
      exact ⟨Lamp.row_calm _ _ _, nofun⟩
  have hok : ∀ answer ∈ Lamp.beside.answers 1 [.start, .process Lamp.press, .process Lamp.turn],
      answer.1 = .ok () := by decide +kernel
  exact (orthogonal_regions_are_independent hassembled hcalm 1 _ hok (w := { context := () }) rfl).1 1 Lamp.lone rfl

end Statechart
