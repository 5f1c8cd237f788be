import Statechart.Proofs.Construction
import Statechart.Proofs.FailurePosition
import Statechart.Proofs.Worlds

/-!
# Records of transitions

A machine that tracks its history records a transition between two states when it has completed it, and then tells
the hook. So the history is the sequence of these calls.

* `History.completed`, `Journal.completed` : the transitions between states that a history has, and those that a
  journal has calls about;
* `World.Agrees` : both are the same; `Setup.tolerates_agrees` : the regions preserve that;
* `World.Adds P` : the history has grown by transitions in `P`; `Region.fire_adds` : what a row adds that leads to a
  state;
* `history_is_completed_transitions`.
-/

set_option autoImplicit false

namespace Statechart

open Turn

variable {σ γ δ : Type}

/-- Region, source, target and name of the event of a record. -/
def History.Record.key (r : History.Record σ) : String × σ × σ × String := (r.region, r.source, r.target, r.event)

/-- The transitions that are recorded, oldest first. -/
def History.completed (h : History σ) : List (String × σ × σ × String) := h.toList.map History.Record.key

/-- The transitions between states after which the hook was called, oldest first. -/
def Journal.completed (j : Journal σ) : List (String × σ × σ × String) := j.toList.filterMap Note.completed?

theorem Note.completed?_of_isOuter {n : Note σ} (h : n.isOuter = true) : n.completed? = none := by
  cases n with
  | hook call => cases call <;> simp_all [isOuter, completed?]
  | _ => rfl

theorem Note.completed?_of_mark {n : Note σ} {path : String} (h : n.mark? = some path) : n.completed? = none := by
  cases n <;> simp_all [mark?, completed?]

/-- Other notes do not matter. -/
theorem Journal.completed_of_append {j j' : Journal σ} {l : List (Note σ)} (h : j'.toList = j.toList ++ l)
    (hl : ∀ n ∈ l, n.completed? = none) : j'.completed = j.completed := by
  unfold completed
  rw [h, List.filterMap_append, List.filterMap_eq_nil_iff.2 hl, List.append_nil]

theorem Journal.completed_note {x : Exchange σ} {n : Note σ} (hn : n.completed? = none) :
    (x.note n).journal.completed = x.journal.completed :=
  completed_of_append (Journal.toList_write _ _) (by simpa using hn)

/-! ## Records and calls -/

/-- The history has the transitions that the hook was called after. -/
def World.Agrees (w : World σ γ) : Prop := w.history.completed = w.exchange.journal.completed

theorem World.tolerates_agrees : World.Tolerates (World.Preserves (World.Agrees (σ := σ) (γ := γ))) where
  callback w context x hx hw := by
    obtain ⟨l, hwrote, hl⟩ := hx
    have hsame : x.journal.completed = w.exchange.journal.completed :=
      Journal.completed_of_append hwrote.journal fun n hn =>
        Note.completed?_of_isOuter (Note.isOuter_of_isSilent (hl n hn))
    exact hw.trans hsame.symm
  remark w n _ hn hw := hw.trans (Journal.completed_note hn).symm

/-- The record of a transition and the call after it. -/
theorem World.Agrees.complete {w : World σ γ} (h : w.Agrees) (path : String) (s t : σ) (e : Event) :
    World.Agrees { w with
      history := w.history.record ⟨path, s, t, e.typeName, w.clock⟩
      exchange := w.exchange.note (.hook (.postTransition ⟨path, .state s, .state t, e⟩)) } := by
  unfold World.Agrees at h ⊢
  unfold History.completed Journal.completed at h ⊢
  rw [History.toList_record, List.map_append, h, Exchange.note, Journal.toList_write, List.filterMap_append]
  rfl

theorem Setup.tolerates_agrees {setup : Setup σ γ} (htrack : setup.settings.trackHistory = true)
    (hhook : setup.hooks.postTransition.isSome = true) (path : String) :
    setup.Tolerates δ (World.Preserves World.Agrees) path where
  toTolerates := World.tolerates_agrees
  mark w n hn hw := hw.trans (Journal.completed_note (Note.completed?_of_mark hn)).symm
  conclude s t e c := by
    obtain ⟨f, hf⟩ := Option.isSome_iff_exists.1 hhook
    unfold Region.remember Hooks.afterTransition callHook
    rw [if_pos htrack, hf, ends_bind]
    refine (perform_respects World.tolerates_agrees _ _).mono (fun _ _ h hc => ?_) fun _ _ h => ⟨fun hc => ?_, trivial⟩
    · exact h (World.Agrees.complete hc path s t e)
    · exact h.1 (World.Agrees.complete hc path s t e)

theorem World.tolerates_untracked : World.Tolerates (World.Preserves fun w : World σ γ => w.history = {}) :=
  ⟨fun _ _ _ _ => id, fun _ _ _ _ => id⟩

/-- Without tracking, nothing is recorded. -/
theorem Setup.tolerates_untracked {setup : Setup σ γ} (htrack : setup.settings.trackHistory = false) (path : String) :
    setup.Tolerates δ (World.Preserves fun w => w.history = {}) path where
  toTolerates := World.tolerates_untracked
  mark _ _ _ := id
  conclude s t e := by
    unfold Region.remember
    rw [if_neg (by simp [htrack])]
    exact callHook_respects World.tolerates_untracked (fun _ => id) _

/-- What is quiet neither records a transition nor calls a hook after one. -/
theorem Configuration.Quiet.agrees {s s' : Configuration σ γ δ} (h : s.Quiet s') (hs : s.world.Agrees) :
    s'.world.Agrees := by
  obtain ⟨l, hjournal, hl⟩ := h.notes
  unfold World.Agrees
  rw [h.history, Journal.completed_of_append hjournal fun n hn => Note.completed?_of_isOuter (hl n hn)]
  exact hs

/-! ## What a row adds -/

/-- The history has grown by transitions in `P`. -/
def World.Adds (P : String × σ × σ × String → Prop) (w w' : World σ γ) : Prop :=
  ∃ l, w'.history.completed = w.history.completed ++ l ∧ ∀ k ∈ l, P k

section Adds

variable {P : String × σ × σ × String → Prop}

theorem World.Adds.of_eq {w w' : World σ γ} (h : w'.history = w.history) : World.Adds P w w' :=
  ⟨[], by rw [h, List.append_nil], by simp⟩

instance : IsPreorder (World σ γ) (World.Adds P) where
  refl _ := .of_eq rfl
  trans _ _ _ h h' := by
    obtain ⟨l, hl, hP⟩ := h
    obtain ⟨l', hl', hP'⟩ := h'
    refine ⟨l ++ l', by rw [hl', hl, List.append_assoc], fun k hk => ?_⟩
    exact (List.mem_append.1 hk).elim (hP k) (hP' k)

theorem World.toleratesAt_adds (path : String) : World.ToleratesAt (World.Adds (γ := γ) P) path where
  callback _ _ _ _ := .of_eq rfl
  remark _ _ _ _ := .of_eq rfl
  mark _ _ _ := .of_eq rfl

theorem Setup.tolerates_adds (setup : Setup σ γ) {path : String} (hP : ∀ s t name, P (path, s, t, name)) :
    setup.Tolerates δ (World.Adds P) path where
  toToleratesAt := World.toleratesAt_adds path
  conclude s t e := by
    have hremember : Respects (World.Adds P) (Region.remember setup path s t e : Turn σ γ δ Unit) := by
      unfold Region.remember
      split
      · exact fun c => ⟨[(path, s, t, e.typeName)], by simp [History.completed, History.Record.key],
          by simpa using hP s t e.typeName⟩
      · exact Keeps.pure ()
    exact hremember.bind fun _ =>
      callHook_respects (World.toleratesAt_adds path).toTolerates (fun _ => .of_eq rfl) _

end Adds

section Rows

variable [DecidableEq σ] [Named σ] {setup : Setup σ γ} {r : BuiltRegion σ γ δ} {choice : Choice σ γ} {t : Nat}
  {target : BuiltNode σ γ δ} {e : Event}

omit [DecidableEq σ] [Named σ] in
/-- Once it is recorded, only the hook can break the row off. -/
theorem Region.conclude_adds (htrack : setup.settings.trackHistory = true) (c : Configuration σ γ δ) :
    Ends (conclude setup r choice target e) c
      (fun _ c' => c'.world.history.completed =
        c.world.history.completed ++ [(r.data.path, choice.state, target.data.id, e.typeName)])
      fun h _ => h.IsPanic := by
  unfold conclude remember
  rw [if_pos htrack, ends_bind]
  have hrecorded (w : World σ γ) (time : Instant) :
      (w.history.record ⟨r.data.path, choice.state, target.data.id, e.typeName, time⟩).completed =
        w.history.completed ++ [(r.data.path, choice.state, target.data.id, e.typeName)] := by
    simp [History.completed, History.Record.key]
  unfold Hooks.afterTransition
  cases setup.hooks.postTransition with
  | none => exact hrecorded _ _
  | some f =>
    have hsame : World.Tolerates fun w w' : World σ γ => w'.history = w.history :=
      ⟨fun _ _ _ _ => rfl, fun _ _ _ _ => rfl⟩
    refine ((perform_respects hsame _ _).and (perform_panics _ _)).mono (fun _ c' h => ?_) fun _ _ h => h.2
    exact (congrArg History.completed h.1).trans (hrecorded _ _)

/-- The paths of the regions of a state and below. -/
def Node.paths (n : BuiltNode σ γ δ) : List String := (Region.preorderOfRegions n.regions).map (·.data.path)

/-- Until a row is completed, the history only grows by what is completed below its target. -/
theorem Region.fire_adds (htrack : setup.settings.trackHistory = true) (ht : choice.transition.target = .state t)
    (hn : r.nodes[t]? = some target) (c : Configuration σ γ δ) :
    Ends (Region.fire setup r.data r.nodes choice e) c
      (fun _ c' => ∃ w, World.Adds (fun k => k.1 ∈ target.paths) c.world w ∧ c'.world.history.completed =
        w.history.completed ++ [(r.data.path, choice.state, target.data.id, e.typeName)])
      fun h c' => h.IsPanic ∨ World.Adds (fun k => k.1 ∈ target.paths) c.world c'.world := by
  have hS : World.ToleratesAt (World.Adds (γ := γ) fun k : String × σ × σ × String => k.1 ∈ target.paths)
    r.data.path := World.toleratesAt_adds _
  have hannounce : Respects (World.Adds fun k => k.1 ∈ target.paths) (announce setup r choice target e) :=
    (note_respects fun w => hS.mark w _ rfl).bind fun _ => Hooks.beforeTransition_respects hS.toTolerates _ _
  have hdepart : Respects (World.Adds fun k => k.1 ∈ target.paths) (depart setup r choice e) :=
    Node.exitAt_respects hS (fun _ _ _ _ _ _ => World.toleratesAt_adds _) _ _
  have harrive : Respects (World.Adds fun k => k.1 ∈ target.paths) (arrive setup r choice t target e) := by
    refine (setActive_respects _).bind fun _ => (act_respects hS.toTolerates _ _ _).bind fun _ => ?_
    rw [Node.enterAt_eq, hn]
    refine Node.enter_respects hS.toTolerates t target (fun w => hS.mark w _ rfl) fun r' hr' =>
      r'.start_respects fun q hq => ?_
    exact Setup.tolerates_adds setup fun _ _ _ => List.mem_map_of_mem (Region.mem_preorderOfRegions hr' hq)
  rw [fire_state ht hn, ends_bind]
  refine (hannounce c).mono (fun _ c₁ h₁ => ?_) fun _ _ h => .inr h.1
  rw [ends_bind]
  refine (hdepart c₁).mono (fun _ c₂ h₂ => ?_) fun _ _ h => .inr (trans_of _ h₁ h.1)
  rw [ends_bind]
  have hleft := trans_of (Configuration.Via (δ := δ) _) h₁ h₂
  refine (harrive c₂).mono (fun _ c₃ h₃ => ?_) fun _ _ h => .inr (trans_of _ hleft h.1)
  exact (conclude_adds htrack c₃).mono (fun _ _ h => ⟨c₃.world, trans_of _ hleft h₃, h⟩) fun _ _ h => .inl h

/-- What the row leaves in the history: what is completed below its target while this is entered and then, unless an
error breaks the row off, the row itself. -/
structure Region.RecordsRow (setup : Setup σ γ) (r : BuiltRegion σ γ δ) (choice : Choice σ γ)
    (target : BuiltNode σ γ δ) (e : Event) : Prop where
  completed : ∀ c c', Region.fire setup r.data r.nodes choice e c = .ok () c' →
    ∃ inner, (∀ k ∈ inner, k.1 ∈ target.paths) ∧ c'.world.history.completed =
      c.world.history.completed ++ inner ++ [(r.data.path, choice.state, target.data.id, e.typeName)]
  aborted : ∀ c err c', Region.fire setup r.data r.nodes choice e c = .error (.error err) c' →
    ∃ inner, (∀ k ∈ inner, k.1 ∈ target.paths) ∧ c'.world.history.completed = c.world.history.completed ++ inner

theorem Region.fire_records (htrack : setup.settings.trackHistory = true) (ht : choice.transition.target = .state t)
    (hn : r.nodes[t]? = some target) : r.RecordsRow setup choice target e where
  completed c c' h := by
    obtain ⟨w, ⟨inner, hinner, hpaths⟩, hown⟩ := (fire_adds htrack ht hn c).of_ok h
    exact ⟨inner, hpaths, by rw [hown, hinner]⟩
  aborted c err c' h := by
    obtain ⟨⟨⟩⟩ | ⟨inner, hinner, hpaths⟩ := (fire_adds htrack ht hn c).of_error h
    exact ⟨inner, hpaths, hinner⟩

end Rows

/-! ## Machines -/

section Machines

variable [DecidableEq σ] [Named σ] [Inhabited δ]

variable {b : Blueprint σ γ δ} {m : Machine σ γ δ}

theorem Blueprint.Reaches.agrees (h : b.Reaches m) (htrack : b.setup.settings.trackHistory = true)
    (hhook : b.setup.hooks.postTransition.isSome = true) : m.configuration.world.Agrees := by
  refine Blueprint.Reaches.upholds (I := fun _ s => s.world.Agrees) (fun chart s hs => ?_) (fun chart s hs => ?_) h
  · unfold World.Agrees Journal.completed
    rw [hs.history, List.filterMap_eq_nil_iff.2 fun n hn => Note.completed?_of_isOuter (hs.notes n hn)]
    rfl
  · refine Chart.stable_of_respects World.tolerates_agrees (fun _ _ => Configuration.Quiet.agrees) fun q _ => ?_
    rw [hs.setup]
    exact Setup.tolerates_agrees htrack hhook _

theorem Blueprint.Reaches.untracked (h : b.Reaches m) (htrack : b.setup.settings.trackHistory = false) :
    m.history = {} := by
  refine Blueprint.Reaches.upholds (I := fun _ s => s.world.history = {}) (fun _ _ hs => hs.history)
    (fun chart s hs => ?_) h
  refine Chart.stable_of_respects World.tolerates_untracked (fun _ _ hquiet => hquiet.history.trans) fun q _ => ?_
  rw [hs.setup]
  exact Setup.tolerates_untracked htrack _

/-- **History is what was completed.** In every machine that is reached and tracks its history, the transitions that
are recorded are those between two states that the hook was called after, in that order; a machine that does not track
has an empty history. A row that leads to a state is recorded after what is completed below its target while this is
entered, and not at all if an error breaks it off. -/
theorem history_is_completed_transitions (h : b.Reaches m) :
    (m.settings.trackHistory = true → m.chart.setup.hooks.postTransition.isSome = true →
      m.history.completed = m.journal.completed) ∧
    (m.settings.trackHistory = false → m.history = {}) ∧
    (m.settings.trackHistory = true → ∀ (r : BuiltRegion σ γ δ) (choice : Choice σ γ) (t : Nat)
      (target : BuiltNode σ γ δ) (e : Event), choice.transition.target = .state t → r.nodes[t]? = some target →
        r.RecordsRow m.chart.setup choice target e) := by
  obtain ⟨s, hs⟩ := h.assembled
  unfold Machine.settings
  rw [hs.setup]
  exact ⟨h.agrees, h.untracked, fun htrack _ _ _ _ _ ht hn => Region.fire_records htrack ht hn⟩

end Machines

namespace Lamp

/-- The lamp that acts by itself, with its history and with a hook that only watches. -/
def chronicled : Blueprint Lamp Unit Unit where
  regions := risingBlueprint.regions
  setup :=
    { hooks := { postTransition := some fun _ => pure () }, settings := { autoStart := false, trackHistory := true } }

/-- That lamp before it is started. -/
def unwritten : Machine Lamp Unit Unit := { resting with chart.setup := chronicled.setup }

/-- That lamp after it was started, pressed and turned. -/
def written : Machine Lamp Unit Unit :=
  (((unwritten.operate 1 .start).2.operate 1 (.process press)).2.operate 1 (.process turn)).2

theorem reaches_written : chronicled.Reaches written := by
  have hbuilt : chronicled.build 0 (pure () : Callback Unit Unit) = .ready unwritten := rfl
  exact (((Blueprint.Reaches.built 0 _ hbuilt).next 1 .start).next 1 (.process press)).next 1 (.process turn)

theorem chart_written : written.chart = ⟨[risingTree], chronicled.setup⟩ := by
  unfold written
  rw [Machine.chart_operate, Machine.chart_operate, Machine.chart_operate]
  rfl

end Lamp

/-- The light comes up while the lamp goes on, and is recorded first. -/
theorem history_is_completed_transitions_written :
    Lamp.written.history.completed = Lamp.written.journal.completed ∧
      Lamp.written.journal.completed = [("lamp/on/light", .dim, .bright, Event.completion.typeName),
        ("lamp", .off, .on, "press"), ("lamp", .on, .off, Event.completion.typeName)] := by
  have hchronicle := history_is_completed_transitions Lamp.reaches_written
  rw [show Lamp.written.settings = Lamp.chronicled.setup.settings from
    congrArg (fun c : Chart Lamp Unit Unit => c.setup.settings) Lamp.chart_written, Lamp.chart_written] at hchronicle
  exact ⟨hchronicle.1 rfl rfl, by decide +kernel⟩

end Statechart
