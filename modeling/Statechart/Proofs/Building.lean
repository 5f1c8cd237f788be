import Statechart.Proofs.ImplicitStates
import Statechart.Proofs.Making
import Statechart.Proofs.Remarks

/-!
# Building a machine

All declarations are looked through before anything of the user's is called. Then the context is constructed, then every
state, and at last the machine starts, if it is to; what was raised meanwhile waits until then.

* `Blueprint.Refuses`, `Blueprint.Passes` : whether the declarations of a blueprint are refused, and for what;
  `Blueprint.plans_eq_error_iff`, `Blueprint.plans_eq_ok_iff`;
* `Exchange.Opens` : the journal and the mailbox of a machine that is being built;
* `Note.isMaking`, `Machine.start_unmaking` : nothing is constructed when a machine starts;
* `Blueprint.MakesStates`, `Blueprint.Builds` : what building comes to;
* `building_is_all_or_nothing`.
-/

set_option autoImplicit false

namespace Statechart

open Turn

variable {σ γ δ : Type}

/-! ## Whether the declarations pass -/

section Plans

variable [DecidableEq σ] [Named σ] [Inhabited δ]

/-- The declarations of the blueprint are refused. -/
inductive Blueprint.Refuses (b : Blueprint σ γ δ) : BuildError → Prop where
  | noRegions : b.regions = [] → b.Refuses .noRegions
  /-- The first region that cannot be planned is reported. -/
  | unplanned {before after : List (Declaration σ γ δ)} {r : Declaration σ γ δ} {e : BuildError} :
    b.regions = before ++ r :: after → (∀ q ∈ before, ∃ p, q.plan q.data.name = .ok p) →
      r.plan r.data.name = .error e → b.Refuses e
  /-- All regions are planned, but the plans have faults. -/
  | invalid {plans : List (Plan σ γ δ)} : b.regions ≠ [] →
      List.Forall₂ (fun r p => r.plan r.data.name = .ok p) b.regions plans → violations plans ≠ [] →
      b.Refuses (.invalidTable (violations plans))

/-- The regions of the blueprint are planned and validated. -/
structure Blueprint.Passes (b : Blueprint σ γ δ) (plans : List (Plan σ γ δ)) : Prop where
  regions : b.regions ≠ []
  planned : List.Forall₂ (fun r p => r.plan r.data.name = .ok p) b.regions plans
  valid : violations plans = []

variable {b : Blueprint σ γ δ} {plans : List (Plan σ γ δ)}

theorem Blueprint.plans_of_ne_nil (h : b.regions ≠ []) :
    b.plans = Declaration.planAll b.regions >>= fun plans => validate plans >>= fun _ => .ok plans := by
  unfold Blueprint.plans
  rw [if_neg (by simpa using h)]
  rfl

omit [Inhabited δ] in
theorem validate_eq_error_iff {e : BuildError} :
    validate plans = .error e ↔ violations plans ≠ [] ∧ e = .invalidTable (violations plans) := by
  unfold validate
  split
  · rename_i hvalid
    simp [hvalid]
  · rename_i hne
    constructor
    · rintro ⟨⟩
      exact ⟨hne, rfl⟩
    · rintro ⟨-, rfl⟩
      rfl

omit [Inhabited δ] in
theorem validate_eq_ok_iff : validate plans = .ok () ↔ violations plans = [] := by
  refine ⟨violations_of_validate, fun h => ?_⟩
  unfold validate
  rw [h]

theorem Blueprint.plans_eq_error_iff {e : BuildError} : b.plans = .error e ↔ b.Refuses e := by
  by_cases hregions : b.regions = []
  · have hplans : b.plans = .error .noRegions := by
      unfold Blueprint.plans
      rw [hregions]
      rfl
    rw [hplans]
    constructor
    · rintro ⟨⟩
      exact .noRegions hregions
    · rintro (_ | ⟨hsplit, -, -⟩ | ⟨hne, -, -⟩)
      · rfl
      · rw [hregions] at hsplit
        exact absurd hsplit (by simp)
      · exact absurd hregions hne
  · rw [Blueprint.plans_of_ne_nil hregions, Declaration.planAll, bind_eq_error_iff, mapM_eq_error_iff]
    constructor
    · rintro (⟨before, r, after, hsplit, hbefore, hr⟩ | ⟨plans, hplans, h⟩)
      · exact .unplanned hsplit hbefore hr
      · have hfaults := (bind_eq_error_iff.1 h).resolve_right fun ⟨_, _, h⟩ => nomatch h
        obtain ⟨hne, rfl⟩ := validate_eq_error_iff.1 hfaults
        exact .invalid hregions (mapM_eq_ok_iff.1 hplans) hne
    · intro h
      cases h with
      | noRegions h => exact absurd h hregions
      | @unplanned before after r _ hsplit hbefore hr => exact .inl ⟨before, r, after, hsplit, hbefore, hr⟩
      | invalid _ hplans hne =>
        refine .inr ⟨_, mapM_eq_ok_iff.2 hplans, bind_eq_error_iff.2 (.inl ?_)⟩
        exact validate_eq_error_iff.2 ⟨hne, rfl⟩

theorem Blueprint.plans_eq_ok_iff : b.plans = .ok plans ↔ b.Passes plans := by
  by_cases hregions : b.regions = []
  · constructor
    · intro h
      unfold Blueprint.plans at h
      rw [hregions] at h
      cases h
    · exact fun h => absurd hregions h.regions
  · rw [Blueprint.plans_of_ne_nil hregions, Declaration.planAll, bind_eq_ok]
    constructor
    · rintro ⟨planned, hplanned, h⟩
      obtain ⟨⟨⟩, hvalid, h⟩ := bind_eq_ok.1 h
      cases h
      exact ⟨hregions, mapM_eq_ok_iff.1 hplanned, validate_eq_ok_iff.1 hvalid⟩
    · rintro ⟨-, hplanned, hvalid⟩
      exact ⟨plans, mapM_eq_ok_iff.2 hplanned, bind_eq_ok.2 ⟨(), validate_eq_ok_iff.2 hvalid, rfl⟩⟩

/-- Plans that have passed can be compiled, at every depth. -/
theorem Blueprint.Passes.tables (h : b.Passes plans) :
    ∀ q ∈ Region.preorderOfRegions plans, ∃ table, Plan.table q = .ok table := fun q hq =>
  Plan.table_of_complete (Declaration.planAll_complete _ _ (mapM_eq_ok_iff.2 h.planned) q hq)
    (ownViolations_of_violations h.valid q hq)

end Plans

/-! ## What is noted -/

/-- The journal begins with the construction of the context and goes on with `l`, and what was raised meanwhile is
pending. -/
structure Exchange.Opens (x : Exchange σ) (l : List (Note σ)) : Prop where
  journal : x.journal.toList = .contextMade :: l
  pending : x.mailbox.pending = accepted l

theorem Blueprint.outset_opens (b : Blueprint σ γ δ) : b.outset.Opens [] := ⟨rfl, rfl⟩

theorem Exchange.Opens.wrote {x x' : Exchange σ} {l l' : List (Note σ)} (h : x.Opens l) (hw : x.Wrote [] l' x') :
    x'.Opens (l ++ l') where
  journal := by rw [hw.journal, h.journal, List.cons_append]
  pending := by rw [accepted_append, ← h.pending, ← hw.pending, List.nil_append]

/-- Whether the context or a state is constructed. -/
def Note.isMaking : Note σ → Bool
  | .contextMade | .stateMade _ => true
  | _ => false

theorem Note.admitsPasses_unmaking : Note.AdmitsPasses fun n : Note σ => n.isMaking = false := by
  intro n hn
  cases n <;> first | rfl | cases hn

section Start

variable [DecidableEq σ] [Named σ]

/-- Nothing is constructed when a machine starts. -/
theorem Machine.start_unmaking (m : Machine σ γ δ) (bound : Nat) :
    m.configuration.Adds (fun n => n.isMaking = false) (m.operate bound .start).2.configuration :=
  m.run_of_ends (P := fun _ m' => m.configuration.Adds (fun n => n.isMaking = false) m'.configuration)
    ((m.chart.start_addsOnly Note.admitsPasses_unmaking (fun _ => rfl) (fun _ => rfl) (fun _ => rfl) bound
      m.configuration).mono (fun _ _ h => h) fun _ _ h => h.1)

/-- A machine that starts writes notes of the pass first, and then dispatches what is pending, unless the pass failed. -/
theorem Machine.start_dispatched (m : Machine σ γ δ) (bound : Nat) : ∃ pass, (∀ n ∈ pass, n.During .start) ∧
    (m.FailedAtOnce pass (m.operate bound .start).1 (m.operate bound .start).2 ∨
      ∃ D l, m.Dispatched bound pass [] D l (m.operate bound .start).1 (m.operate bound .start).2) :=
  m.pass_dispatched .start (m.chart.startRegions_feeds Note.during_of_concerns Note.during_of_completion) bound

end Start

/-! ## What building comes to -/

section Building

variable [DecidableEq σ] [Named σ]

/-- The context was constructed and then the states, one after the other and from the bottom up; `l` was noted
meanwhile, and the construction ended in `c`, with a panic if `result` is the message of one. -/
structure Blueprint.MakesStates (b : Blueprint σ γ δ) (context : Callback Unit γ) (plans : List (Plan σ γ δ))
    (l : List (Note σ)) (result : Except String (List (Behavior γ δ))) (c : Configuration σ γ δ) : Prop where
  calls : ∃ a x, (context ()).play b.outset = (⟨.ok a, ()⟩, x) ∧
    (Region.bottomUpOfRegions plans).mapM make ⟨{ context := a, exchange := x }, .fresh⟩ =
      match result with
      | .ok behaviors => .ok behaviors c
      | .error message => .error (.panic message) c
  notes : ∃ raised made, l = raised ++ made ∧ (∀ n ∈ raised, n.isSilent = true) ∧
    Makes ((Region.bottomUpOfRegions plans).map StateDeclaration.id) made (result.map fun _ => ())
  opens : c.world.exchange.Opens l

/-- What building a machine comes to once the plans have passed. -/
inductive Blueprint.Builds (b : Blueprint σ γ δ) (bound : Nat) (context : Callback Unit γ) (plans : List (Plan σ γ δ)) :
    Built σ γ δ → Prop where
  /-- No state is constructed after a context that panics, -/
  | contextPanicked {raised : List (Note σ)} {message : String} {x : Exchange σ} :
    (context ()).play b.outset = (⟨.error message, ()⟩, x) → (∀ n ∈ raised, n.isSilent = true) → x.Opens raised →
      b.Builds bound context plans (.contextPanicked message x)
  /-- and no other state after one that does. -/
  | statePanicked {l : List (Note σ)} {message : String} {c : Configuration σ γ δ} :
    b.MakesStates context plans l (.error message) c →
      b.Builds bound context plans (.abandoned (.panic message) c.world)
  /-- The machine does not start by itself: what was raised stays pending. -/
  | idle {l : List (Note σ)} {behaviors : List (Behavior γ δ)} {c : Configuration σ γ δ}
    {regions : List (BuiltRegion σ γ δ)} :
    b.MakesStates context plans l (.ok behaviors) c →
      MadeOf (Region.bottomUpOfRegions plans) behaviors (Region.bottomUpOfRegions regions) →
      b.setup.settings.autoStart = false → b.Builds bound context plans (.ready ⟨⟨regions, b.setup⟩, c⟩)
  /-- The pass that starts the regions fails: nothing is dispatched. -/
  | unstarted {l pass : List (Note σ)} {behaviors : List (Behavior γ δ)} {c : Configuration σ γ δ}
    {regions : List (BuiltRegion σ γ δ)} {halt : Halt} {m : Machine σ γ δ} :
    b.MakesStates context plans l (.ok behaviors) c →
      MadeOf (Region.bottomUpOfRegions plans) behaviors (Region.bottomUpOfRegions regions) →
      b.setup.settings.autoStart = true → Machine.operate ⟨⟨regions, b.setup⟩, c⟩ bound .start = (.error halt, m) →
      (∀ n ∈ pass, n.During .start) → (∀ n ∈ pass, n.isMaking = false) →
      Machine.FailedAtOnce ⟨⟨regions, b.setup⟩, c⟩ pass (.error halt) m →
      b.Builds bound context plans (.abandoned halt.whileBuilding m.configuration.world)
  /-- The regions start, and then all that was raised is dispatched: first what the constructions raised, and then what
  the pass did. -/
  | started {l pass l' : List (Note σ)} {behaviors : List (Behavior γ δ)} {c : Configuration σ γ δ}
    {regions : List (BuiltRegion σ γ δ)} {D : List Event} {result : Except Halt Unit} {m : Machine σ γ δ} :
    b.MakesStates context plans l (.ok behaviors) c →
      MadeOf (Region.bottomUpOfRegions plans) behaviors (Region.bottomUpOfRegions regions) →
      b.setup.settings.autoStart = true → Machine.operate ⟨⟨regions, b.setup⟩, c⟩ bound .start = (result, m) →
      (∀ n ∈ pass, n.During .start) → (∀ n ∈ pass ++ l', n.isMaking = false) →
      Machine.Dispatched ⟨⟨regions, b.setup⟩, c⟩ bound pass [] D l' result m →
      D ++ m.mailbox.pending = accepted l ++ accepted pass ++ accepted l' →
      b.Builds bound context plans (match result with
        | .ok _ => .ready m
        | .error halt => .abandoned halt.whileBuilding m.configuration.world)

/-- Once the plans have passed, nothing is refused any more. -/
theorem Blueprint.Builds.ne_refused {b : Blueprint σ γ δ} {bound : Nat} {context : Callback Unit γ}
    {plans : List (Plan σ γ δ)} {built : Built σ γ δ} (h : b.Builds bound context plans built) {e : BuildError} :
    built ≠ .refused e := by
  cases h with
  | @started _ _ _ _ _ _ _ result => cases result <;> nofun
  | _ => nofun

/-- What comes of the machine whose states were constructed. -/
theorem Blueprint.builds_of_started {b : Blueprint σ γ δ} {context : Callback Unit γ} {plans : List (Plan σ γ δ)}
    {l : List (Note σ)} {behaviors : List (Behavior γ δ)} {c : Configuration σ γ δ} {regions : List (BuiltRegion σ γ δ)}
    (hstates : b.MakesStates context plans l (.ok behaviors) c)
    (hmade : MadeOf (Region.bottomUpOfRegions plans) behaviors (Region.bottomUpOfRegions regions))
    (hauto : b.setup.settings.autoStart = true) (bound : Nat) :
    let after := Machine.operate ⟨⟨regions, b.setup⟩, c⟩ bound .start
    b.Builds bound context plans (match after.1 with
      | .ok _ => .ready after.2
      | .error halt => .abandoned halt.whileBuilding after.2.configuration.world) := by
  intro after
  obtain ⟨added, hadded, hunmaking⟩ := Machine.start_unmaking ⟨⟨regions, b.setup⟩, c⟩ bound
  obtain ⟨pass, hpass, hfailed | ⟨D, l', hdispatched⟩⟩ := Machine.start_dispatched ⟨⟨regions, b.setup⟩, c⟩ bound
  · obtain ⟨halt, hhalt, -⟩ := hfailed.failed
    have hnotes : pass = added := List.append_cancel_left (hfailed.journal.symm.trans hadded)
    have hafter : after = (.error halt, after.2) := Prod.ext hhalt rfl
    rw [hafter]
    exact .unstarted hstates hmade hauto hafter hpass (hnotes ▸ hunmaking) (hhalt ▸ hfailed)
  · have hnotes : pass ++ l' = added := by
      have hjournal := hdispatched.journal
      rw [List.append_assoc] at hjournal
      exact List.append_cancel_left (hjournal.symm.trans hadded)
    have hbalance := hdispatched.balance
    rw [show (⟨⟨regions, b.setup⟩, c⟩ : Machine σ γ δ).mailbox.pending = accepted l from hstates.opens.pending,
      accepted_append, ← List.append_assoc] at hbalance
    exact .started hstates hmade hauto rfl hpass (hnotes ▸ hunmaking) hdispatched hbalance

omit [DecidableEq σ] [Named σ] in
/-- What comes of constructing the states, once the context is there. -/
theorem Blueprint.ends_makesStates {b : Blueprint σ γ δ} {context : Callback Unit γ} {a : γ} {x : Exchange σ}
    {raised : List (Note σ)} (hplayed : (context ()).play b.outset = (⟨.ok a, ()⟩, x))
    (hraised : ∀ n ∈ raised, n.isSilent = true) (hopens : x.Opens raised) (plans : List (Plan σ γ δ)) :
    Ends ((Region.bottomUpOfRegions plans).mapM make) ⟨{ context := a, exchange := x }, .fresh⟩
      (fun behaviors c => ∃ l, b.MakesStates context plans l (.ok behaviors) c)
      fun h c => ∃ l message, h = .panic message ∧ b.MakesStates context plans l (.error message) c := by
  have hnotes := mapM_make_ends (Region.bottomUpOfRegions plans)
    (⟨{ context := a, exchange := x }, .fresh⟩ : Configuration σ γ δ)
  unfold Ends
  cases hmake : (Region.bottomUpOfRegions plans).mapM make
      (⟨{ context := a, exchange := x }, .fresh⟩ : Configuration σ γ δ) with
  | error halt c =>
    obtain ⟨made, message, rfl, hmade, hw⟩ := hnotes.of_error hmake
    exact ⟨raised ++ made, message, rfl, ⟨a, x, hplayed, hmake⟩, ⟨raised, made, rfl, hraised, hmade⟩, hopens.wrote hw⟩
  | ok behaviors c =>
    obtain ⟨made, hmade, hw⟩ := hnotes.of_ok hmake
    exact ⟨raised ++ made, ⟨a, x, hplayed, hmake⟩, ⟨raised, made, rfl, hraised, hmade⟩, hopens.wrote hw⟩

variable [Inhabited δ]

theorem Blueprint.Passes.builds {b : Blueprint σ γ δ} {plans : List (Plan σ γ δ)} (h : b.Passes plans) (bound : Nat)
    (context : Callback Unit γ) : b.Builds bound context plans (b.build bound context) := by
  obtain ⟨raised, hw, hraised⟩ := Course.play_follows (N := fun n : Note σ => n.isSilent = true) (fun _ hn => hn)
    (context ()) b.outset
  have hopens : ((context ()).play b.outset).2.Opens raised := b.outset_opens.wrote hw
  unfold Blueprint.build
  rw [Blueprint.plans_eq_ok_iff.2 h]
  dsimp only
  rw [show (({ mailbox := { capacity := b.setup.settings.queueCapacity } } : Exchange σ).note .contextMade) =
    b.outset from rfl]
  cases hplayed : (context ()).play b.outset with
  | mk outcome x =>
    obtain ⟨result, ⟨⟩⟩ := outcome
    rw [hplayed] at hopens
    cases result with
    | error message => exact .contextPanicked hplayed hraised hopens
    | ok a =>
      have hcalls := Plan.constructAll_callsFactories plans h.tables ⟨{ context := a, exchange := x }, .fresh⟩
      have hstates := Blueprint.ends_makesStates hplayed hraised hopens plans
      dsimp only
      unfold Blueprint.assemble
      cases hmake : (Region.bottomUpOfRegions plans).mapM make
          (⟨{ context := a, exchange := x }, .fresh⟩ : Configuration σ γ δ) with
      | error halt c =>
        obtain ⟨l, message, rfl, hstates⟩ := hstates.of_error hmake
        rw [hcalls.of_error hmake]
        exact .statePanicked hstates
      | ok behaviors c =>
        obtain ⟨l, hstates⟩ := hstates.of_ok hmake
        obtain ⟨regions, hrun, hunits⟩ := hcalls.of_ok hmake
        rw [hrun]
        dsimp only
        split
        · rename_i hauto
          have hbuilds := Blueprint.builds_of_started hstates hunits hauto bound
          dsimp only [Machine.operate, Operation.turn] at hbuilds
          generalize Machine.run _ _ = after at hbuilds
          obtain ⟨result, m⟩ := after
          cases result <;> exact hbuilds
        · rename_i hauto
          exact .idle hstates hunits (Bool.eq_false_of_not_eq_true hauto)

/-- **Building is all or nothing, and ordered.** A blueprint without regions is refused, or else for the first region that
cannot be planned, or else for the faults of its plans, and nothing of the user's is called. In every other case the
context is constructed once, and then every state of every region once, in the order of the regions and their states but
each behind all that is below it; a panic breaks off. Only then does the machine start, if it is to start by itself, and
nothing is constructed any more. What the constructions have raised stays pending in its order; the machine that starts
dispatches it after the pass over its regions, ahead of all that this pass and the dispatches raise. -/
theorem building_is_all_or_nothing (b : Blueprint σ γ δ) :
    (∀ bound context e, b.build bound context = .refused e ↔ b.Refuses e) ∧
    (∀ plans, b.Passes plans →
      (Region.bottomUpOfRegions plans).Perm
        ((Region.preorderOfRegions plans).flatMap fun p => p.nodes.map Node.data) ∧
      ((Region.bottomUpOfRegions plans).map StateDeclaration.id).Nodup ∧
      ∀ bound context, b.Builds bound context plans (b.build bound context)) ∧
    ((∃ e, b.Refuses e) ∨ ∃ plans, b.Passes plans) := by
  refine ⟨fun bound context e => ?_, fun plans hplans => ?_, ?_⟩
  · rw [← Blueprint.plans_eq_error_iff]
    cases hplans : b.plans with
    | error e' => simp [Blueprint.build, hplans]
    | ok plans =>
      have hbuilds := (Blueprint.plans_eq_ok_iff.1 hplans).builds bound context
      exact ⟨fun hrefused => absurd hrefused hbuilds.ne_refused, nofun⟩
  · have hperm := Region.bottomUpOfRegions_perm plans
    have hids : ((Region.preorderOfRegions plans).flatMap fun p => p.nodes.map Node.data).map StateDeclaration.id =
        (Region.preorderOfRegions plans).flatMap (Region.states StateDeclaration.id) := by
      rw [List.map_flatMap]
      simp only [List.map_map]
      rfl
    refine ⟨hperm, (hperm.map StateDeclaration.id).nodup_iff.2 ?_, hplans.builds⟩
    rw [hids]
    exact nodup_of_violations hplans.valid
  · cases hplans : b.plans with
    | error e => exact .inl ⟨e, Blueprint.plans_eq_error_iff.1 hplans⟩
    | ok plans => exact .inr ⟨plans, Blueprint.plans_eq_ok_iff.1 hplans⟩

end Building

end Statechart
