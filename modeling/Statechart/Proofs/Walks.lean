import Statechart.Proofs.FailurePosition
import Statechart.Proofs.Worlds

/-!
# The walk of a region

As long as nothing goes wrong, a region whose path no other region has records a transition between two states
whenever it fires a row that leads to a state, and the transitions follow on each other.

* `Walk a l b` : the steps `l` lead from `a` to `b`;
* `Region.steps`, `Region.departures` : the rows leading to a state that a region has fired, as source and target, and
  the states that it has left; `Region.recorded` : what is recorded of it;
* `Region.Reports` : how these have grown; `Region.tolerates_others` : other regions do not make them grow;
* `Region.Walked` : the region has recorded its steps, and they lead from its initial state to where it stands;
  `Region.start_walks`, `Region.process_walks`.
-/

set_option autoImplicit false

namespace Statechart

open Turn

variable {σ γ δ α : Type}

/-! ## Walks -/

/-- The steps lead from `a` to `b`, each on from where the one before has led. -/
def Walk : σ → List (σ × σ) → σ → Prop
  | a, [], b => a = b
  | a, (s, t) :: l, b => s = a ∧ Walk t l b

namespace Walk

variable {a b : σ} {l : List (σ × σ)}

/-- One step more. -/
theorem snoc (h : Walk a l b) (c : σ) : Walk a (l ++ [(b, c)]) c := by
  induction l generalizing a with
  | nil => exact ⟨h.symm, rfl⟩
  | cons _ l ih => exact ⟨h.1, ih h.2⟩

theorem getLast? (h : Walk a l b) : (a :: l.map Prod.snd).getLast? = some b := by
  induction l generalizing a with
  | nil =>
    obtain rfl : a = b := h
    rfl
  | cons _ l ih =>
    rw [List.map_cons, List.getLast?_cons_cons]
    exact ih h.2

/-- The states of a walk, each with the next, are its steps. -/
theorem zip_states (h : Walk a l b) : (a :: l.map Prod.snd).zip (l.map Prod.snd) = l := by
  induction l generalizing a with
  | nil => rfl
  | cons step l ih =>
    obtain ⟨s, t⟩ := step
    obtain ⟨rfl, h⟩ := h
    rw [List.map_cons, List.zip_cons_cons, ih h]

end Walk

/-- Records that are a walk lead through its states. -/
theorem History.statesOf_of_walk {rs : List (History.Record σ)} {l : List (σ × σ)} {a b : σ}
    (hl : rs.map (fun k => (k.source, k.target)) = l) (h : Walk a l b) (hne : rs ≠ []) :
    statesOf rs = a :: l.map Prod.snd := by
  subst hl
  cases rs with
  | nil => exact absurd rfl hne
  | cons k rs =>
    obtain ⟨rfl, -⟩ := h
    simp [statesOf]

/-! ## What is told of a region -/

namespace Region

variable (r : BuiltRegion σ γ δ)

/-- The state of the region that a row leads to. -/
def target? (row : Transition σ γ Nat) : Option (BuiltNode σ γ δ) := row.target.state?.bind (r.nodes[·]?)

/-- The step that is taken when the note is written: a row of the region is fired that leads to a state. -/
def step? : Note σ → Option (σ × σ)
  | .fired path s k _ =>
    if path = r.data.path then ((r.data.rows[k]?).bind r.target?).map fun n => (s, n.data.id) else none
  | _ => none

/-- The state of the region that is left when the note is written. -/
def departure? : Note σ → Option σ
  | .exit path s _ => if path = r.data.path then some s else none
  | _ => none

/-- The steps that the region has taken, oldest first. -/
def steps (j : Journal σ) : List (σ × σ) := j.toList.filterMap r.step?

/-- The states of the region that it has left, oldest first. -/
def departures (j : Journal σ) : List σ := j.toList.filterMap r.departure?

/-- The steps of the region that are recorded, oldest first. -/
def recorded (h : History σ) : List (σ × σ) := (h.inRegion r.data.path).map fun k => (k.source, k.target)

/-- How much more of the region is recorded and noted in the second world. -/
structure Reports (recorded steps : List (σ × σ)) (departures : List σ) (w w' : World σ γ) : Prop where
  recorded : r.recorded w'.history = r.recorded w.history ++ recorded
  steps : r.steps w'.exchange.journal = r.steps w.exchange.journal ++ steps
  departures : r.departures w'.exchange.journal = r.departures w.exchange.journal ++ departures

variable {r}

theorem Reports.trans {a a' b b' : List (σ × σ)} {c c' : List σ} {w w' w'' : World σ γ} (h : r.Reports a b c w w')
    (h' : r.Reports a' b' c' w' w'') : r.Reports (a ++ a') (b ++ b') (c ++ c') w w'' where
  recorded := by rw [h'.recorded, h.recorded, List.append_assoc]
  steps := by rw [h'.steps, h.steps, List.append_assoc]
  departures := by rw [h'.departures, h.departures, List.append_assoc]

instance (r : BuiltRegion σ γ δ) : IsPreorder (World σ γ) (r.Reports [] [] []) where
  refl _ := ⟨(List.append_nil _).symm, (List.append_nil _).symm, (List.append_nil _).symm⟩
  trans _ _ _ := Reports.trans

/-- What is noted. -/
theorem reports_of_notes {w w' : World σ γ} {l : List (Note σ)} (hhistory : w'.history = w.history)
    (hjournal : w'.exchange.journal.toList = w.exchange.journal.toList ++ l) :
    r.Reports [] (l.filterMap r.step?) (l.filterMap r.departure?) w w' where
  recorded := by rw [hhistory, List.append_nil]
  steps := by rw [Region.steps, hjournal, List.filterMap_append]; rfl
  departures := by rw [Region.departures, hjournal, List.filterMap_append]; rfl

theorem step?_of_mark {n : Note σ} (h : n.mark? ≠ some r.data.path) : r.step? n = none := by
  cases n <;> simp_all [Note.mark?, step?]

theorem departure?_of_mark {n : Note σ} (h : n.mark? ≠ some r.data.path) : r.departure? n = none := by
  cases n <;> simp_all [Note.mark?, departure?]

/-- Notes that do not mark the region. -/
theorem reports_of_unmarked {w w' : World σ γ} {l : List (Note σ)} (hhistory : w'.history = w.history)
    (hjournal : w'.exchange.journal.toList = w.exchange.journal.toList ++ l)
    (hl : ∀ n ∈ l, n.mark? ≠ some r.data.path) : r.Reports [] [] [] w w' := by
  have h := reports_of_notes (r := r) hhistory hjournal
  rwa [List.filterMap_eq_nil_iff.2 fun n hn => step?_of_mark (hl n hn),
    List.filterMap_eq_nil_iff.2 fun n hn => departure?_of_mark (hl n hn)] at h

theorem reports_note (r : BuiltRegion σ γ δ) (w : World σ γ) (n : Note σ) :
    r.Reports [] ([n].filterMap r.step?) ([n].filterMap r.departure?) w { w with exchange := w.exchange.note n } :=
  reports_of_notes rfl (Journal.toList_write _ _)

theorem reports_unmarked {w : World σ γ} {n : Note σ} (h : n.mark? ≠ some r.data.path) :
    r.Reports [] [] [] w { w with exchange := w.exchange.note n } :=
  reports_of_unmarked (l := [n]) rfl (Journal.toList_write _ _) (by simpa using h)

theorem tolerates_calls (r : BuiltRegion σ γ δ) : World.Tolerates (r.Reports [] [] []) where
  callback w context x hx := by
    obtain ⟨l, hwrote, hl⟩ := hx
    refine reports_of_unmarked rfl hwrote.journal fun n hn => ?_
    rw [Note.mark?_of_isOuter (Note.isOuter_of_isSilent (hl n hn))]
    exact nofun
  remark w n hn _ := reports_unmarked (by simp [hn])

/-- Records and notes of the regions with other paths. -/
theorem tolerates_others (setup : Setup σ γ) {path : String} (hpath : path ≠ r.data.path) :
    setup.Tolerates δ (r.Reports [] [] []) path where
  toTolerates := r.tolerates_calls
  mark w n hn := reports_unmarked (by simpa [hn] using hpath)
  conclude s t e := by
    have hremember : Respects (r.Reports [] [] []) (remember setup path s t e : Turn σ γ δ Unit) := by
      unfold remember
      split
      · refine fun c => ⟨?_, (List.append_nil _).symm, (List.append_nil _).symm⟩
        simp [Region.recorded, History.inRegion, hpath]
      · exact Keeps.pure ()
    exact hremember.bind fun _ => callHook_respects r.tolerates_calls (fun _ => reports_unmarked nofun) _

/-! ## Idle turns -/

/-- Nothing is told of the region, and what is active in it is as it was. -/
structure Idles (r : BuiltRegion σ γ δ) (c c' : Configuration σ γ δ) : Prop where
  reports : r.Reports [] [] [] c.world c'.world
  active : c'.marking.active = c.marking.active

instance (r : BuiltRegion σ γ δ) : IsPreorder (Configuration σ γ δ) r.Idles where
  refl _ := ⟨refl_of _ _, rfl⟩
  trans _ _ _ h h' := ⟨h.reports.trans h'.reports, h'.active.trans h.active⟩

/-- However the turn ends, the region was idle. -/
abbrev IsIdle (r : BuiltRegion σ γ δ) (x : Turn σ γ δ α) : Prop := Keeps r.Idles (fun _ _ => True) x

theorem isIdle_of_confined {x : Turn σ γ δ α} {i : Nat} (hx : Respects (r.Reports [] [] []) x) (h : Confined i x) :
    r.IsIdle x := fun c =>
  ((hx c).and (h c)).mono (fun _ _ h => ⟨h.1, h.2.active⟩) fun _ _ h => ⟨⟨h.1.1, h.2.1.active⟩, trivial⟩

theorem isIdle_of_inert {x : Turn σ γ δ α} (hx : Respects (r.Reports [] [] []) x)
    (h : Inert (fun _ => True) x) : r.IsIdle x :=
  isIdle_of_confined hx (h.confined 0)

/-- No region below has the path of the region. -/
def Apart (r : BuiltRegion σ γ δ) : Prop :=
  ∀ n ∈ r.nodes, ∀ r' ∈ n.regions, ∀ q ∈ r'.preorder, q.data.path ≠ r.data.path

section Own

variable [Named σ] (setup : Setup σ γ) (r) (e : Event)

omit [Named σ] in
theorem beforeTransition_idle (m : Move σ) : r.IsIdle (setup.hooks.beforeTransition m) :=
  isIdle_of_inert (Hooks.beforeTransition_respects r.tolerates_calls _ _)
    (setup.hooks.beforeTransition_inert (fun _ _ _ => trivial) rfl)

omit [Named σ] in
theorem afterTransition_idle (m : Move σ) : r.IsIdle (setup.hooks.afterTransition m) :=
  isIdle_of_inert (callHook_respects r.tolerates_calls (fun _ => reports_unmarked nofun) _)
    (setup.hooks.afterTransition_inert (fun _ _ _ => trivial) rfl)

theorem act_idle (active : σ) (choice : Choice σ γ) : r.IsIdle (act r.data.path active choice e) :=
  isIdle_of_inert (act_respects r.tolerates_calls _ _ _) (act_inert (fun _ _ _ => trivial) _ _ _)

variable {setup r e}

/-- A state that is left is a departure. -/
theorem exitAt_departs (hapart : r.Apart) {i : Nat} {n : BuiltNode σ γ δ} (hn : r.nodes[i]? = some n)
    (c : Configuration σ γ δ) :
    Ends (Node.exitAt setup r.data.path i r.nodes i e) c
      (fun _ c' => r.Reports [] [] [n.data.id] c.world c'.world ∧ c'.marking.active = c.marking.active)
      fun _ _ => True := by
  have hN : Note.Admits (fun _ : Note σ => True) e := fun _ _ _ => trivial
  have hbelow := hapart n (List.mem_of_getElem? hn)
  obtain ⟨unit, regions⟩ := n
  -- the regions below have other paths, so only the exit itself is told
  have hstop : Respects (r.Reports [] [] []) (stopAll setup i 0 regions e) :=
    stopAll_respects (fun r' hr' => r'.stop_respects fun q hq =>
      (tolerates_others setup (hbelow r' hr' q hq)).toToleratesAt) _ _
  have hreaction : r.IsIdle (orFail .exit r.data.path unit.id e
      (performAt i unit.behavior.initial (unit.behavior.onExit e).run)) :=
    isIdle_of_inert (orFail_respects r.tolerates_calls _ _ _ (performAt_respects r.tolerates_calls _ _ _))
      (orFail_inert hN _ _ _ (performAt_inert (fun _ => hN.silent) _ _ _))
  have hexit : Ends (Node.exit setup r.data.path i ⟨unit, regions⟩ e) c
      (fun _ c' => r.Reports [] [] [unit.id] c.world c'.world) fun _ _ => True := by
    rw [Node.exit, ends_bind]
    refine (hstop c).mono (fun _ c₁ h₁ => ?_) fun _ _ _ => trivial
    rw [ends_bind, ends_note]
    refine (hreaction _).mono (fun _ c₂ h₂ => ?_) fun _ _ _ => trivial
    have hleft := r.reports_note c₁.world (.exit r.data.path unit.id e)
    simp only [List.filterMap_cons, step?, departure?, if_true, List.filterMap_nil] at hleft
    exact (Reports.trans h₁ hleft).trans h₂.reports
  rw [Node.exitAt_eq, hn]
  exact (hexit.and (Node.exit_confined r.data.path i ⟨unit, regions⟩ e c)).mono
    (fun _ _ h => ⟨h.1, h.2.active⟩) fun _ _ _ => trivial

variable [DecidableEq σ]

/-- Entering a state is not told. -/
theorem enterAt_idle (hapart : r.Apart) (i : Nat) : r.IsIdle (Node.enterAt setup r.data.path i r.nodes i e) := by
  refine isIdle_of_confined (Node.enterAt_respects r.tolerates_calls (fun w s => ?_)
    (fun n hn r' hr' q hq => tolerates_others setup (hapart n hn r' hr' q hq)) _ _)
    (Node.enterAt_confined r.data.path i r.nodes e)
  exact r.reports_note w (.entry r.data.path s e)

/-! ## Rows -/

variable {choice : Choice σ γ} {t : Nat} {target : BuiltNode σ γ δ} {c : Configuration σ γ δ}

omit [DecidableEq σ] [Named σ] in
/-- A row that is fired is a step if it leads to a state. -/
theorem fired_reports (hfits : choice.Fits r.data r.nodes c) :
    r.Reports [] ((r.target? choice.transition).map fun n => (choice.state, n.data.id)).toList [] c.world
      { c.world with exchange := c.world.exchange.note (.fired r.data.path choice.state choice.row e) } := by
  have h := r.reports_note c.world (.fired r.data.path choice.state choice.row e)
  have hstep : r.step? (.fired r.data.path choice.state choice.row e) =
      (r.target? choice.transition).map fun n => (choice.state, n.data.id) := by
    simp [step?, hfits.row]
  rw [← hstep]
  cases hs : r.step? (.fired r.data.path choice.state choice.row e) with
  | none => simpa [List.filterMap_cons, hs, departure?] using h
  | some step => simpa [List.filterMap_cons, hs, departure?] using h

omit [DecidableEq σ] [Named σ] in
theorem announce_reports (hfits : choice.Fits r.data r.nodes c) (htarget : r.target? choice.transition = some target) :
    Ends (announce setup r choice target e) c
      (fun _ c' => r.Reports [] [(choice.state, target.data.id)] [] c.world c'.world ∧
        c'.marking.active = c.marking.active) fun _ _ => True := by
  have hfired := fired_reports (e := e) hfits
  rw [htarget] at hfired
  unfold announce
  rw [ends_bind, ends_note]
  exact (beforeTransition_idle r setup _ _).mono (fun _ _ h => ⟨hfired.trans h.reports, h.active⟩) fun _ _ _ => trivial

/-- The target is entered. -/
theorem arrive_reports (hapart : r.Apart) (c : Configuration σ γ δ) :
    Ends (arrive setup r choice t target e) c
      (fun _ c' => r.Reports [] [] [] c.world c'.world ∧ c'.marking.active = .at t) fun _ _ => True := by
  unfold arrive
  rw [ends_bind, ends_setActive, ends_bind]
  refine (act_idle r e _ _ _).mono (fun _ c₁ h₁ => ?_) fun _ _ _ => trivial
  refine (enterAt_idle hapart t c₁).mono (fun _ c₂ h₂ => ?_) fun _ _ _ => trivial
  exact ⟨h₁.reports.trans h₂.reports, h₂.active.trans h₁.active⟩

omit [DecidableEq σ] [Named σ] in
theorem conclude_reports (htrack : setup.settings.trackHistory = true) (c : Configuration σ γ δ) :
    Ends (conclude setup r choice target e) c
      (fun _ c' => r.Reports [(choice.state, target.data.id)] [] [] c.world c'.world ∧
        c'.marking.active = c.marking.active) fun _ _ => True := by
  unfold conclude remember
  rw [if_pos htrack, ends_bind]
  let w : World σ γ := { c.world with
    history := c.world.history.record ⟨r.data.path, choice.state, target.data.id, e.typeName, c.world.clock⟩ }
  have hrecorded : r.Reports [(choice.state, target.data.id)] [] [] c.world w :=
    ⟨by simp [w, Region.recorded, History.inRegion], (List.append_nil _).symm, (List.append_nil _).symm⟩
  exact (afterTransition_idle r setup _ ⟨w, c.marking⟩).mono
    (fun _ _ h => ⟨hrecorded.trans h.reports, h.active⟩) fun _ _ _ => trivial

/-- A row that leads to a state is noted, its source is left, and when its target is entered it is recorded. -/
theorem fire_state_reports (hapart : r.Apart) (htrack : setup.settings.trackHistory = true)
    (hfits : choice.Fits r.data r.nodes c) (ht : choice.transition.target = .state t)
    (hn : r.nodes[t]? = some target) :
    Ends (Region.fire setup r.data r.nodes choice e) c
      (fun _ c' => r.Reports [(choice.state, target.data.id)] [(choice.state, target.data.id)] [choice.state]
        c.world c'.world ∧ c'.marking.active = .at t) fun _ _ => True := by
  have htarget : r.target? choice.transition = some target := by simp [target?, ht, Target.state?, hn]
  obtain ⟨source, hsource, hid⟩ := hfits.node
  -- the step comes first and its record last, so between the two the region has not `Walked`
  rw [fire_state ht hn, ends_bind]
  refine (announce_reports hfits htarget).mono (fun _ c₁ h₁ => ?_) fun _ _ _ => trivial
  rw [ends_bind]
  refine (exitAt_departs hapart hsource c₁).mono (fun _ c₂ h₂ => ?_) fun _ _ _ => trivial
  rw [ends_bind]
  refine (arrive_reports hapart c₂).mono (fun _ c₃ h₃ => ?_) fun _ _ _ => trivial
  refine (conclude_reports htrack c₃).mono (fun _ c₄ h₄ => ?_) fun _ _ _ => trivial
  rw [← hid]
  rw [← hid] at h₁ h₄
  exact ⟨((h₁.1.trans h₂.1).trans h₃.1).trans h₄.1, h₄.2.trans h₃.2⟩

/-- A row that ends the region is no step, but its source is left. -/
theorem fire_final_reports (hapart : r.Apart) (hfits : choice.Fits r.data r.nodes c)
    (ht : choice.transition.target = .final) :
    Ends (Region.fire setup r.data r.nodes choice e) c
      (fun _ c' => r.Reports [] [] [choice.state] c.world c'.world ∧ c'.marking.active = .final)
      fun _ _ => True := by
  have htarget : r.target? choice.transition = none := by simp [target?, ht, Target.state?]
  obtain ⟨source, hsource, hid⟩ := hfits.node
  have hfired := fired_reports (e := e) hfits
  rw [htarget] at hfired
  unfold Region.fire Region.fireWith
  rw [ends_bind, ends_note, ht, ends_bind]
  refine (beforeTransition_idle r setup _ _).mono (fun _ c₁ h₁ => ?_) fun _ _ _ => trivial
  rw [ends_bind]
  refine (exitAt_departs hapart hsource c₁).mono (fun _ c₂ h₂ => ?_) fun _ _ _ => trivial
  rw [ends_bind, ends_setActive, ends_bind]
  refine (act_idle r e _ _ _).mono (fun _ c₃ h₃ => ?_) fun _ _ _ => trivial
  refine (afterTransition_idle r setup _ c₃).mono (fun _ c₄ h₄ => ?_) fun _ _ _ => trivial
  rw [← hid]
  exact ⟨(((hfired.trans h₁.reports).trans h₂.1).trans h₃.reports).trans h₄.reports, h₄.active.trans h₃.active⟩

/-- A row that leads nowhere tells nothing. -/
theorem fire_idle (hfits : choice.Fits r.data r.nodes c) (htarget : r.target? choice.transition = none)
    (ht : choice.transition.target ≠ .final) :
    Ends (Region.fire setup r.data r.nodes choice e) c (fun _ => r.Idles c) fun _ _ => True := by
  have hfired := fired_reports (e := e) hfits
  rw [htarget] at hfired
  unfold Region.fire Region.fireWith
  rw [ends_bind, ends_note]
  split
  · exact (act_idle r e _ _ _).mono (fun _ _ h => ⟨hfired.trans h.reports, h.active⟩) fun _ _ _ => trivial
  · rename_i t hstate
    have hnone : r.nodes[t]? = none := by simpa [target?, hstate, Target.state?] using htarget
    rw [hnone]
    exact ⟨hfired, rfl⟩
  · rename_i hfinal
    exact absurd hfinal ht

end Own

/-! ## Walking -/

/-- The state that is active in the region, or the one that it left last if it is final. -/
def Stands (r : BuiltRegion σ γ δ) (c : Configuration σ γ δ) (s : σ) : Prop :=
  (∃ i n, c.marking.active = .at i ∧ r.nodes[i]? = some n ∧ n.data.id = s) ∨
    c.marking.active = .final ∧ (r.departures c.world.exchange.journal).getLast? = some s

/-- The steps of the region are recorded; there is none before it is started, and after that they lead from its initial
state to where it stands. -/
structure Walked (r : BuiltRegion σ γ δ) (c : Configuration σ γ δ) : Prop where
  recorded : r.recorded c.world.history = r.steps c.world.exchange.journal
  unstarted : c.marking.active = .stopped → r.steps c.world.exchange.journal = []
  walk : c.marking.active ≠ .stopped → ∃ n s, r.nodes[r.data.initial]? = some n ∧ r.Stands c s ∧
    Walk n.data.id (r.steps c.world.exchange.journal) s

section Walking

variable {c c' : Configuration σ γ δ} {choice : Choice σ γ}

theorem Walked.of_idles (hc : r.Walked c) (h : r.Idles c c') : r.Walked c' := by
  have hrecorded := h.reports.recorded
  have hsteps := h.reports.steps
  have hdepartures := h.reports.departures
  rw [List.append_nil] at hrecorded hsteps hdepartures
  refine ⟨by rw [hrecorded, hsteps, hc.recorded], fun hstopped => ?_, fun hstarted => ?_⟩
  · rw [hsteps]
    exact hc.unstarted (h.active.symm.trans hstopped)
  · obtain ⟨n, s, hn, hstands, hwalk⟩ := hc.walk (h.active ▸ hstarted)
    refine ⟨n, s, hn, ?_, by rwa [hsteps]⟩
    unfold Stands at hstands ⊢
    rwa [h.active, hdepartures]

/-- The walk ends in the source of a row that is fired. -/
theorem Walked.to_source (hc : r.Walked c) (hfits : choice.Fits r.data r.nodes c) :
    ∃ n, r.nodes[r.data.initial]? = some n ∧ Walk n.data.id (r.steps c.world.exchange.journal) choice.state := by
  obtain ⟨source, hsource, hid⟩ := hfits.node
  obtain ⟨n, s, hn, hstands, hwalk⟩ := hc.walk (by rw [hfits.active]; exact nofun)
  obtain ⟨i, n', hi, hn', rfl⟩ | ⟨hfinal, -⟩ := hstands
  · rw [hfits.active] at hi
    cases hi
    obtain rfl : source = n' := Option.some.inj (hsource.symm.trans hn')
    exact ⟨n, hn, hid ▸ hwalk⟩
  · rw [hfits.active] at hfinal
    cases hfinal

/-- If the turn ends well, the region has still walked. -/
abbrev Walks (r : BuiltRegion σ γ δ) (x : Turn σ γ δ α) : Prop := Upholds r.Walked x fun _ _ => True

theorem IsIdle.walks {x : Turn σ γ δ α} (hx : r.IsIdle x) : r.Walks x := fun c hc =>
  (hx c).mono (fun _ _ h => hc.of_idles h) fun _ _ _ => trivial

variable [DecidableEq σ] [Named σ] {setup : Setup σ γ} {e : Event}

theorem fire_walks (hapart : r.Apart) (htrack : setup.settings.trackHistory = true) (hc : r.Walked c)
    (hfits : choice.Fits r.data r.nodes c) :
    Ends (Region.fire setup r.data r.nodes choice e) c (fun _ => r.Walked) fun _ _ => True := by
  obtain ⟨n, hn, hwalk⟩ := hc.to_source hfits
  have hidle (htarget : r.target? choice.transition = none) (ht : choice.transition.target ≠ .final) :
      Ends (Region.fire setup r.data r.nodes choice e) c (fun _ => r.Walked) fun _ _ => True :=
    (fire_idle hfits htarget ht).mono (fun _ _ h => hc.of_idles h) fun _ _ h => h
  -- the walk stays, grows by one step, or stays while its last state is left
  cases ht : choice.transition.target with
  | internal => exact hidle (by simp [target?, ht, Target.state?]) (by simp [ht])
  | state t =>
    cases htarget : r.nodes[t]? with
    | none => exact hidle (by simp [target?, ht, Target.state?, htarget]) (by simp [ht])
    | some target =>
      refine (fire_state_reports hapart htrack hfits ht htarget).mono (fun _ c' h => ?_) fun _ _ h => h
      obtain ⟨h, hactive⟩ := h
      refine ⟨by rw [h.recorded, h.steps, hc.recorded], fun hstopped => ?_, fun _ => ?_⟩
      · rw [hactive] at hstopped
        cases hstopped
      · rw [h.steps]
        exact ⟨n, target.data.id, hn, .inl ⟨t, target, hactive, htarget, rfl⟩, hwalk.snoc _⟩
  | final =>
    refine (fire_final_reports hapart hfits ht).mono (fun _ c' h => ?_) fun _ _ h => h
    obtain ⟨h, hactive⟩ := h
    have hsteps := h.steps
    rw [List.append_nil] at hsteps
    refine ⟨by rw [h.recorded, hsteps, List.append_nil, hc.recorded], fun hstopped => ?_, fun _ => ?_⟩
    · rw [hactive] at hstopped
      cases hstopped
    · rw [hsteps]
      exact ⟨n, choice.state, hn, .inr ⟨hactive, by rw [h.departures, List.getLast?_concat]⟩, hwalk⟩

theorem due_idle (r : BuiltRegion σ γ δ) : r.IsIdle (Region.due r.data r.nodes) :=
  isIdle_of_inert (Region.due_respects r.tolerates_calls _ _) (due_inert (fun _ _ _ => trivial) _ _)

theorem settle_walks (hapart : r.Apart) (htrack : setup.settings.trackHistory = true) :
    r.Walks (Region.settle setup r.data r.nodes) := by
  unfold Region.settle
  generalize setup.settings.maxCompletionChain = k
  induction k with
  | zero =>
    rw [Region.chain]
    refine Upholds.bind (due_idle r).walks fun found => ?_
    split
    · exact fun _ _ => trivial
    · exact Upholds.pure ()
  | succ k ih =>
    intro c hc
    rw [Region.chain, ends_bind]
    refine ((due_idle r c).and due_fits).mono (fun found c₁ h₁ => ?_) fun _ _ _ => trivial
    have hc₁ := hc.of_idles h₁.1
    cases found with
    | none => exact hc₁
    | some choice =>
      dsimp only
      rw [ends_bind]
      exact (fire_walks hapart htrack hc₁ (h₁.2 choice rfl)).mono (fun _ c₂ hc₂ => ih c₂ hc₂) fun _ _ h => h

/-- A region that starts stands in its initial state before it walks. -/
theorem start_walks (hapart : r.Apart) (htrack : setup.settings.trackHistory = true)
    (hinitial : r.data.initial < r.nodes.length) : r.Walks (r.start setup e) := by
  obtain ⟨table, nodes⟩ := r
  intro c hc
  rw [Region.start_eq, ends_bind, ends_active]
  split
  · exact hc
  · rename_i hnot
    have hstopped : c.marking.active = .stopped := Decidable.of_not_not hnot
    rw [ends_bind]
    refine (beforeTransition_idle ⟨table, nodes⟩ setup _ c).mono (fun _ c₁ h₁ => ?_) fun _ _ h => h.2
    have hc₁ := hc.of_idles h₁
    have hsteps := hc₁.unstarted (h₁.active.trans hstopped)
    rw [ends_bind, ends_setActive]
    refine Upholds.bind (enterAt_idle hapart table.initial).walks (fun _ => ?_) _ ?_
    · exact Upholds.bind (afterTransition_idle ⟨table, nodes⟩ setup _).walks fun _ => settle_walks hapart htrack
    · have hn := List.getElem?_eq_getElem hinitial
      refine ⟨hc₁.recorded, nofun, fun _ => ⟨_, _, hn, .inl ⟨_, _, rfl, hn, rfl⟩, ?_⟩⟩
      exact hsteps ▸ rfl

theorem react_idle (hapart : r.Apart) {i : Nat} {n : BuiltNode σ γ δ} (hn : r.nodes[i]? = some n) :
    r.IsIdle (n.react setup r.data.path i e) :=
  isIdle_of_confined (Node.react_respects r.tolerates_calls i n fun r' hr' => r'.process_respects fun q hq =>
    tolerates_others setup (hapart n (List.mem_of_getElem? hn) r' hr' q hq)) (Node.react_confined r.data.path i n e)

theorem respond_walks (hapart : r.Apart) (htrack : setup.settings.trackHistory = true) {i : Nat} {n : BuiltNode σ γ δ}
    (hc : r.Walked c) (hactive : c.marking.active = .at i) (hn : r.nodes[i]? = some n) :
    Ends (Region.respond setup r.data r.nodes i n e) c (fun _ => r.Walked) fun _ _ => True := by
  have hsettle (b : Bool) : r.Walks (do Region.settle setup r.data r.nodes; return b) :=
    (settle_walks hapart htrack).bind fun _ => Upholds.pure b
  have hresolve : r.IsIdle (r.data.resolve i n.data.id e) :=
    isIdle_of_inert (RegionTable.resolve_respects r.tolerates_calls _ _ _)
      (RegionTable.resolve_inert (fun _ _ _ => trivial) _ _ _)
  unfold Region.respond
  rw [ends_bind]
  refine ((hresolve c).and (RegionTable.resolve_fits hactive hn)).mono (fun found c₁ h₁ => ?_) fun _ _ _ => trivial
  have hc₁ := hc.of_idles h₁.1
  cases found with
  | some choice =>
    dsimp only
    rw [ends_bind]
    refine (fire_walks hapart htrack hc₁ (h₁.2 choice rfl)).mono (fun _ c₂ hc₂ => ?_) fun _ _ h => h
    split
    · exact hsettle true c₂ hc₂
    · exact hc₂
  | none =>
    refine Upholds.bind (react_idle hapart hn).walks (fun processed => ?_) c₁ hc₁
    split
    · exact hsettle processed
    · exact Upholds.pure processed

theorem process_walks (hapart : r.Apart) (htrack : setup.settings.trackHistory = true) :
    r.Walks (r.process setup e) := by
  obtain ⟨table, nodes⟩ := r
  exact fun c hc => Region.ends_process hc fun i n hactive hn => respond_walks hapart htrack hc hactive hn

end Walking

end Region

end Statechart
