import Statechart.Proofs.Legality
import Statechart.Proofs.Paths
import Statechart.Proofs.Queue
import Statechart.Proofs.Records
import Statechart.Proofs.Walks

/-!
# The recorded path of a region

The path that a history has of an outer region is the walk that the region has made, unless another region has the
same path, the machine was stopped, or something went wrong.

* `Chart.Names j r` : region `j` is the only one with its path; `Chart.names_of_nodup`;
* `Chart.WalkedAt j r` : what region `j` has walked is recorded; `Chart.lasting_walkedAt` : that lasts while the
  journal is calm;
* `Blueprint.Runs` : the machines that a blueprint leads to without a stop; `Blueprint.Reaches.leads` : their rows lead
  to states;
* `history_path_is_walk`.
-/

set_option autoImplicit false

namespace Statechart

open Turn

variable {σ γ δ α : Type}

/-- Region `j` is the only one with its path. -/
structure Chart.Names (c : Chart σ γ δ) (j : Nat) (r : BuiltRegion σ γ δ) : Prop where
  here : c.regions[j]? = some r
  apart : r.Apart
  others : ∀ i r', c.regions[i]? = some r' → i ≠ j → ∀ q ∈ r'.preorder, q.data.path ≠ r.data.path

theorem Chart.names_of_nodup {c : Chart σ γ δ}
    (h : ((Region.preorderOfRegions c.regions).map (·.data.path)).Nodup) {j : Nat} {r : BuiltRegion σ γ δ}
    (hr : c.regions[j]? = some r) : c.Names j r := by
  rw [Region.preorderOfRegions_eq, List.map_flatMap, List.nodup_flatMap] at h
  obtain ⟨hwithin, hacross⟩ := h
  refine ⟨hr, fun n hn r' hr' q hq hpath => ?_, fun i r' hr' hi q hq hpath => ?_⟩
  · have hnodup := hwithin r (List.mem_of_getElem? hr)
    rw [Region.preorder_eq, List.map_cons, List.nodup_cons] at hnodup
    refine hnodup.1 (List.mem_map.2 ⟨q, ?_, hpath⟩)
    exact List.mem_flatMap.2 ⟨n, hn, List.mem_flatMap.2 ⟨r', hr', hq⟩⟩
  · have hown : r.data.path ∈ r.preorder.map (·.data.path) := List.mem_map_of_mem (Region.mem_preorder_self r)
    have hother : r.data.path ∈ r'.preorder.map (·.data.path) := List.mem_map.2 ⟨q, hq, hpath⟩
    obtain ⟨hj, rfl⟩ := List.getElem?_eq_some_iff.1 hr
    obtain ⟨hi', rfl⟩ := List.getElem?_eq_some_iff.1 hr'
    rw [List.pairwise_iff_getElem] at hacross
    rcases Nat.lt_or_gt_of_ne hi with hlt | hlt
    · exact hacross i j hi' hj hlt hother hown
    · exact hacross j i hj hi' hlt hown hother

/-! ## Passes -/

section Passes

variable {c : Chart σ γ δ} {j : Nat} {r : BuiltRegion σ γ δ}

/-- What region `j` has walked is recorded. -/
def Chart.WalkedAt (j : Nat) (r : BuiltRegion σ γ δ) (s : Configuration σ γ δ) : Prop :=
  r.Walked ⟨s.world, s.marking.child (0, j)⟩

/-- What is quiet tells nothing of regions. -/
theorem Chart.WalkedAt.of_quiet {s s' : Configuration σ γ δ} (hs : WalkedAt j r s) (h : s.Quiet s') :
    WalkedAt j r s' := by
  obtain ⟨l, hjournal, hl⟩ := h.notes
  refine Region.Walked.of_idles hs ⟨Region.reports_of_unmarked h.history hjournal fun n hn => ?_, ?_⟩
  · rw [Note.mark?_of_isOuter (hl n hn)]
    exact nofun
  · exact congrArg (fun m => (m.child (0, j)).active) h.marking

/-- In the loop over the regions, each of the others leaves region `j` alone. -/
theorem Chart.onEach_walks (h : c.Names j r) {x : BuiltRegion σ γ δ → Turn σ γ δ α} (hown : r.Walks (x r))
    (hothers : ∀ i r', c.regions[i]? = some r' → i ≠ j → Respects (r.Reports [] [] []) (x r')) :
    Upholds (WalkedAt j r) (onEach x 0 0 c.regions) fun _ _ => True := by
  intro s hs
  refine onEach_ends (I := fun _ => WalkedAt j r) hs fun i r' hr' s hs => ?_
  rw [Nat.zero_add, ends_inChild]
  by_cases hi : i = j
  · subst hi
    obtain rfl : r = r' := Option.some.inj (h.here.symm.trans hr')
    refine (hown _ hs).mono (fun _ s' hs' => ?_) fun _ _ h => h
    unfold Chart.WalkedAt
    rwa [Marking.child_setChild_self]
  · refine (hothers i r' hr' hi ⟨s.world, s.marking.child (0, i)⟩).mono (fun _ s' hs' => ?_) fun _ _ _ => trivial
    refine Region.Walked.of_idles hs ⟨hs', ?_⟩
    rw [Marking.child_setChild_of_ne (by simpa using Ne.symm hi)]

variable [DecidableEq σ] [Named σ]

theorem Chart.startRegions_walks (h : c.Names j r) (htrack : c.setup.settings.trackHistory = true)
    (hinitial : r.data.initial < r.nodes.length) : Upholds (WalkedAt j r) c.startRegions fun _ _ => True := by
  intro s hs
  unfold Chart.startRegions
  rw [Region.ends_startAll]
  refine Chart.onEach_walks h (Region.start_walks h.apart htrack hinitial) (fun i r' hr' hi => ?_) s hs
  exact r'.start_respects fun q hq => Region.tolerates_others _ (h.others i r' hr' hi q hq)

theorem Chart.processRegions_walks (h : c.Names j r) (htrack : c.setup.settings.trackHistory = true) (e : Event) :
    Upholds (WalkedAt j r) (Region.processAll c.setup 0 0 c.regions e) fun _ _ => True := by
  intro s hs
  rw [Region.ends_processAll]
  refine Chart.onEach_walks h (Region.process_walks h.apart htrack) (fun i r' hr' hi => ?_) s hs
  exact r'.process_respects fun q hq => Region.tolerates_others _ (h.others i r' hr' hi q hq)

theorem Chart.dispatch_walks (h : c.Names j r) (htrack : c.setup.settings.trackHistory = true) (e : Event) :
    Upholds (WalkedAt j r) (c.dispatch e) fun _ _ => True := by
  have hquiet {x : Turn σ γ δ Unit} (hx : IsQuiet x) : Upholds (WalkedAt j r) x fun _ _ => True :=
    hx.upholds_of (fun _ _ hquiet hs => hs.of_quiet hquiet) fun _ _ _ => trivial
  refine (hquiet (callHook_isQuiet rfl _)).bind fun _ => (processRegions_walks h htrack e).bind fun processed => ?_
  refine (hquiet (callHook_isQuiet rfl _)).bind fun _ => ?_
  split
  · exact hquiet (callHook_isQuiet rfl _)
  · exact Upholds.pure ()

omit [DecidableEq σ] in
/-- What a pass upholds that is not halted holds after it and its recovery as long as nothing went wrong: whatever halts
the pass stands in the journal. -/
theorem Chart.recovering_calm {N : Note σ → Prop} {I : Configuration σ γ δ → Prop} {pass : Turn σ γ δ Unit}
    (hpass : Upholds I pass fun _ _ => True) (hfeeds : Feeds N pass) :
    Upholds (fun s => s.world.exchange.journal.Calm → I s) (c.recovering pass) := by
  intro s hs
  -- a fault that is noted stays noted, so `I` matters only where nothing went wrong before
  have hhalted : Ends pass s (fun _ s' => s'.world.exchange.journal.Calm → I s')
      fun _ s' => ¬ s'.world.exchange.journal.Calm := by
    by_cases hcalm : s.world.exchange.journal.Calm
    · exact ((hfeeds s).and (hpass s (hs hcalm))).mono (fun _ _ h _ => h.2) fun _ _ h => h.1.2.not_calm
    · exact (hfeeds s).mono (fun _ _ h hcalm' => absurd (h.calm hcalm') hcalm) fun _ _ h => h.2.not_calm
  unfold Chart.recovering
  rw [ends_bind, ends_attempt]
  refine hhalted.mono (fun _ s' hs' => hs') fun halt s' hs' => ?_
  cases halt with
  | error err =>
    -- the recovery may stop the regions, but not in a calm machine
    refine (c.recover_withinDispatch (e := .stop) (.error err) s').mono (fun _ s₁ h hcalm => ?_) fun _ s₁ h hcalm => ?_
    · exact absurd (Configuration.Follows.calm h hcalm) hs'
    · exact absurd (Configuration.Follows.calm h.1 hcalm) hs'
  | panic message => exact fun hcalm => absurd hcalm hs'
  | unfinished => exact fun hcalm => absurd hcalm hs'

theorem Chart.lasting_walkedAt (h : c.Names j r) (htrack : c.setup.settings.trackHistory = true)
    (hinitial : r.data.initial < r.nodes.length) :
    c.Lasting fun s => s.world.exchange.journal.Calm → WalkedAt j r s where
  quiet s s' hquiet hs hcalm := (hs (hquiet.calm hcalm)).of_quiet hquiet
  start := Chart.recovering_calm (startRegions_walks h htrack hinitial)
    (c.startRegions_feeds (N := fun _ => True) (fun _ _ => trivial) fun _ _ => trivial)
  dispatch e := Chart.recovering_calm (dispatch_walks h htrack e) c.dispatch_feeds
  check e s hs := by
    have hlooks := Region.checkAny_looks (N := fun _ => True) (fun (_ : Note σ) (_ : _) _ => trivial)
      0 0 c.regions (e := e)
    have hkeeps {s' : Configuration σ γ δ} (hreports : r.Reports [] [] [] s.world s'.world)
        (hunmoved : s.Unmoved (fun _ => True) s') (hcalm : s'.world.exchange.journal.Calm) : WalkedAt j r s' :=
      Region.Walked.of_idles (hs (hunmoved.follows.calm hcalm)) ⟨hreports, (hunmoved.marking.child (0, j)).active⟩
    exact ((Region.checkAny_respects r.tolerates_calls 0 0 c.regions s).and (hlooks s)).mono
      (fun _ _ h => hkeeps h.1 h.2) fun _ _ h => hkeeps h.1.1 h.2.1

end Passes

/-! ## Runs without a stop -/

section Runs

variable [DecidableEq σ] [Named σ] [Inhabited δ]

/-- The machines that are built from a blueprint and operated on without being stopped. -/
inductive Blueprint.Runs (b : Blueprint σ γ δ) : Machine σ γ δ → Prop where
  | built {m : Machine σ γ δ} (bound : Nat) (context : Callback Unit γ) :
    b.build bound context = .ready m → b.Runs m
  | next {m : Machine σ γ δ} (bound : Nat) (op : Operation γ) :
    b.Runs m → op ≠ .stop → b.Runs (m.operate bound op).2

variable {b : Blueprint σ γ δ} {m : Machine σ γ δ}

theorem Blueprint.Runs.reaches (h : b.Runs m) : b.Reaches m := by
  induction h with
  | built bound context hbuild => exact .built bound context hbuild
  | next bound op _ _ ih => exact ih.next bound op

/-- What holds of the assembled chart, and lasts, holds of the machine. -/
theorem Blueprint.Runs.upholds {I : Configuration σ γ δ → Prop} (h : b.Runs m)
    (hassembled : ∀ s, b.Assembled m.chart s → I s) (hlasting : m.chart.Lasting I) : I m.configuration := by
  induction h with
  | @built m bound context hbuild =>
    obtain ⟨s, hs, hm⟩ := Blueprint.build_ready hbuild
    rcases hm with hm | hm
    · rw [hm]
      exact hassembled s hs
    · have hop : Operation.start ≠ (.stop : Operation γ) := nofun
      have hstarted := Chart.Lasting.operate (m := ⟨m.chart, s⟩) hlasting (hassembled s hs) bound hop
      rwa [hm] at hstarted
  | next bound op _ hop ih =>
    rw [Machine.chart_operate] at hassembled hlasting
    exact Chart.Lasting.operate hlasting (ih hassembled hlasting) bound hop

/-- Every row of a machine that leads to a state leads to one of its region. -/
theorem Blueprint.Reaches.leads (h : b.Reaches m) {q : BuiltRegion σ γ δ}
    (hq : q ∈ Region.preorderOfRegions m.chart.regions) {k t : Nat} {row : Transition σ γ Nat}
    (hrow : q.data.rows[k]? = some row) (ht : row.target = .state t) : ∃ n, q.nodes[t]? = some n := by
  induction h with
  | built bound context hbuild =>
    obtain ⟨plans, w, s, -, -, -, hmade, -⟩ := Blueprint.constructed_of_build hbuild
    have hcompiled := ((Plan.constructAll_compiled plans fun _ _ _ _ => trivial) ⟨w, .fresh⟩).of_ok hmade
    obtain ⟨p, -, hp⟩ := exists_mem_of_forall₂ (hcompiled.2.1 _ rfl).2 hq
    exact hp.compiles.target hrow ht
  | next bound op _ ih =>
    rw [Machine.chart_operate] at hq
    exact ih hq

omit [DecidableEq σ] [Named σ] [Inhabited δ] in
/-- What was never started has walked nowhere. -/
theorem Chart.walkedAt_of_outer {s : Configuration σ γ δ} {j : Nat} {r : BuiltRegion σ γ δ}
    (hmarking : s.marking = .fresh) (hhistory : s.world.history = {})
    (hnotes : ∀ n ∈ s.world.exchange.journal.toList, n.isOuter = true) : WalkedAt j r s := by
  have hsteps : r.steps s.world.exchange.journal = [] := List.filterMap_eq_nil_iff.2 fun n hn =>
    Region.step?_of_mark (by rw [Note.mark?_of_isOuter (hnotes n hn)]; exact nofun)
  refine ⟨?_, fun _ => hsteps, fun hstarted => absurd ?_ hstarted⟩
  · rw [hsteps, hhistory]
    rfl
  · rw [hmarking]
    rfl

theorem Blueprint.Runs.walkedAt (h : b.Runs m) (htrack : m.settings.trackHistory = true) (hpaths : m.paths.Nodup)
    (hcalm : m.journal.Calm) {j : Nat} {r : BuiltRegion σ γ δ} (hr : m.chart.regions[j]? = some r) :
    Chart.WalkedAt j r m.configuration := by
  obtain ⟨s, hs⟩ := h.reaches.assembled
  have hinitial := hs.hasInitials r (List.mem_of_getElem? hr) r (Region.mem_preorder_self r)
  refine h.upholds (I := fun s => s.world.exchange.journal.Calm → Chart.WalkedAt j r s) (fun s hs _ => ?_)
    (Chart.lasting_walkedAt (Chart.names_of_nodup hpaths hr) htrack hinitial) hcalm
  exact Chart.walkedAt_of_outer hs.marking hs.history hs.notes

/-- The note says that the region fires a row that leads to a state. -/
def Region.FiresToState (r : BuiltRegion σ γ δ) (n : Note σ) : Prop :=
  ∃ (s : σ) (k : Nat) (e : Event) (row : Transition σ γ Nat) (t : Nat),
    n = .fired r.data.path s k e ∧ r.data.rows[k]? = some row ∧ row.target = .state t

omit [DecidableEq σ] [Named σ] [Inhabited δ] in
theorem Region.firesToState_of_step? {r : BuiltRegion σ γ δ} {n : Note σ} {step : σ × σ} (h : r.step? n = some step) :
    r.FiresToState n := by
  cases n with
  | fired path s k e =>
    unfold Region.step? at h
    dsimp only at h
    split at h
    · rename_i hpath
      obtain ⟨n, htarget, -⟩ := Option.map_eq_some_iff.1 h
      obtain ⟨row, hrow, htarget⟩ := Option.bind_eq_some_iff.1 htarget
      obtain ⟨t, ht, -⟩ := Option.bind_eq_some_iff.1 htarget
      refine ⟨s, k, e, row, t, by rw [hpath], hrow, ?_⟩
      cases hrow' : row.target <;> simp_all [Target.state?]
    · cases h
  | _ => cases h

omit [DecidableEq σ] [Named σ] [Inhabited δ] in
/-- A region whose rows lead to its states takes a step with each of them that leads to a state. -/
theorem Region.steps_eq_nil_iff {r : BuiltRegion σ γ δ} {j : Journal σ}
    (hleads : ∀ (k t : Nat) (row : Transition σ γ Nat), r.data.rows[k]? = some row → row.target = .state t →
      ∃ n, r.nodes[t]? = some n) : r.steps j = [] ↔ ∀ n ∈ j.toList, ¬ r.FiresToState n := by
  unfold Region.steps
  rw [List.filterMap_eq_nil_iff]
  refine forall_congr' fun n => imp_congr_right fun _ => ⟨?_, fun hnot => ?_⟩
  · rintro hstep ⟨s, k, e, row, t, rfl, hrow, ht⟩
    obtain ⟨n, hn⟩ := hleads k t row hrow ht
    simp [Region.step?, Region.target?, hrow, ht, Target.state?, hn] at hstep
  · cases hstep : r.step? n with
    | none => rfl
    | some step => exact absurd (Region.firesToState_of_step? hstep) hnot

/-- **The recorded path is the walk.** In a machine that tracks its history, whose regions have different paths and
which was not stopped, as long as nothing went wrong: the path of an outer region is empty if and only if it has fired
no row that leads to a state. Otherwise the path begins with its initial state, leads through the sources and targets
of these rows in the order in which they were fired, and ends with the state that is active in the region, or with the
one that it left last if it is final. -/
theorem history_path_is_walk (h : b.Runs m) (htrack : m.settings.trackHistory = true) (hpaths : m.paths.Nodup)
    (hcalm : m.journal.Calm) {j : Nat} {r : BuiltRegion σ γ δ} (hr : m.chart.regions[j]? = some r) :
    (m.history.path r.data.path = [] ↔ ∀ n ∈ m.journal.toList, ¬ r.FiresToState n) ∧
    (m.history.path r.data.path ≠ [] → ∃ initial last, r.nodes[r.data.initial]? = some initial ∧
      (m.history.path r.data.path).head? = some initial.data.id ∧
      (m.history.path r.data.path).zip (m.history.path r.data.path).tail = r.steps m.journal ∧
      (m.history.path r.data.path).getLast? = some last ∧
      r.Stands ⟨m.configuration.world, m.configuration.marking.child (0, j)⟩ last) := by
  have hwalked := h.walkedAt htrack hpaths hcalm hr
  have hrecorded : r.recorded m.history = r.steps m.journal := hwalked.recorded
  have hmem : r ∈ Region.preorderOfRegions m.chart.regions :=
    Region.mem_preorderOfRegions (List.mem_of_getElem? hr) (Region.mem_preorder_self r)
  have hempty : m.history.path r.data.path = [] ↔ m.history.inRegion r.data.path = [] := by
    unfold History.path
    cases m.history.inRegion r.data.path <;> simp [History.statesOf]
  refine ⟨?_, fun hne => ?_⟩
  · rw [hempty, ← Region.steps_eq_nil_iff fun k t row => h.reaches.leads hmem, ← hrecorded]
    exact List.map_eq_nil_iff.symm
  · have hinRegion : m.history.inRegion r.data.path ≠ [] := fun hnil => hne (hempty.2 hnil)
    -- before the start there is no step to record
    have hstarted : (m.configuration.marking.child (0, j)).active ≠ .stopped := fun hstopped => by
      have hnil : r.steps m.journal = [] := hwalked.unstarted hstopped
      rw [← hrecorded] at hnil
      exact hinRegion (List.map_eq_nil_iff.1 hnil)
    obtain ⟨initial, last, hinitial, hstands, hwalk⟩ := hwalked.walk hstarted
    have hpath : m.history.path r.data.path = initial.data.id :: (r.steps m.journal).map Prod.snd :=
      History.statesOf_of_walk hrecorded hwalk hinRegion
    refine ⟨initial, last, hinitial, ?_⟩
    rw [hpath]
    exact ⟨rfl, hwalk.zip_states, hwalk.getLast?, hstands⟩

end Runs

/-- The lamp went on, and off again once its light was done. -/
theorem history_path_is_walk_written :
    Lamp.written.history.path "lamp" = [.off, .on, .off] ∧
    ∃ initial last, Lamp.risingTree.nodes[Lamp.risingTree.data.initial]? = some initial ∧
      (Lamp.written.history.path "lamp").head? = some initial.data.id ∧
      (Lamp.written.history.path "lamp").zip (Lamp.written.history.path "lamp").tail =
        Lamp.risingTree.steps Lamp.written.journal ∧
      (Lamp.written.history.path "lamp").getLast? = some last ∧
      Lamp.risingTree.Stands
        ⟨Lamp.written.configuration.world, Lamp.written.configuration.marking.child (0, 0)⟩ last := by
  have hruns : Lamp.chronicled.Runs Lamp.written := by
    have hbuilt : Lamp.chronicled.build 0 (pure () : Callback Unit Unit) = .ready Lamp.unwritten := rfl
    exact (((Blueprint.Runs.built 0 _ hbuilt).next 1 .start nofun).next 1 (.process Lamp.press) nofun).next 1
      (.process Lamp.turn) nofun
  have htrack : Lamp.written.settings.trackHistory = true := by
    unfold Machine.settings
    rw [Lamp.chart_written]
    rfl
  have hpaths : Lamp.written.paths.Nodup := by
    unfold Machine.paths
    rw [Lamp.chart_written]
    decide
  have hcalm : Lamp.written.journal.Calm := by decide +kernel
  have hr : Lamp.written.chart.regions[0]? = some Lamp.risingTree := by
    rw [Lamp.chart_written]
    rfl
  have hpath : Lamp.written.history.path "lamp" = [.off, .on, .off] := by decide +kernel
  refine ⟨hpath, (history_path_is_walk hruns htrack hpaths hcalm hr).2 ?_⟩
  change Lamp.written.history.path "lamp" ≠ []
  rw [hpath]
  exact List.cons_ne_nil _ _

end Statechart
