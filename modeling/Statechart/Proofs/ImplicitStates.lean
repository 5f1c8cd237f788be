import Mathlib.Data.List.Induction
import Mathlib.Data.List.Sort
import Statechart.Proofs.Compilation

/-!
# States that are declared by being named

Whoever declares a region need not declare the states that its rows name as their single source or their target. What
a declaration is planned to, and which of its faults is reported if it has any, is said here without the scan that finds
it out.

* `mapM_eq_error_iff`, `mapM_id_eq_ok_iff` : a list that is gone through up to the first error;
* `Transition.Names` : a row names a state; `FirstNamed` : the states that are named and not declared, as they appear;
* `Declaration.Plans` : what a declaration is planned to;
* `foldl_declareImplicitly_eq` : what the scan adds to the declared states;
* `implicit_declaration`.
-/

set_option autoImplicit false

namespace Statechart

variable {σ γ δ : Type}

/-! ## Lists up to the first error -/

section Lists

variable {ε α β : Type} {f : α → Except ε β} {l : List α}

theorem bind_eq_error_iff {x : Except ε α} {g : α → Except ε β} {e : ε} :
    x >>= g = .error e ↔ x = .error e ∨ ∃ a, x = .ok a ∧ g a = .error e := by
  cases x <;> simp [Bind.bind, Except.bind]

/-- An error is that of the first member that has one. -/
theorem mapM_eq_error_iff {e : ε} : l.mapM f = .error e ↔
    ∃ before a after, l = before ++ a :: after ∧ (∀ b ∈ before, ∃ c, f b = .ok c) ∧ f a = .error e := by
  induction l with
  | nil => simp [Pure.pure, Except.pure]
  | cons a l ih =>
    rw [List.mapM_cons, bind_eq_error_iff]
    constructor
    · rintro (ha | ⟨b, hb, h⟩)
      · exact ⟨[], a, l, rfl, nofun, ha⟩
      · have hl : l.mapM f = .error e := (bind_eq_error_iff.1 h).resolve_right fun ⟨_, _, h⟩ => nomatch h
        obtain ⟨before, a', after, rfl, hbefore, ha'⟩ := ih.1 hl
        exact ⟨a :: before, a', after, rfl, List.forall_mem_cons.2 ⟨⟨b, hb⟩, hbefore⟩, ha'⟩
    · rintro ⟨before, a', after, hl, hbefore, ha'⟩
      cases before with
      | nil =>
        obtain ⟨rfl, rfl⟩ := List.cons.inj hl
        exact .inl ha'
      | cons first before =>
        obtain ⟨rfl, rfl⟩ := List.cons.inj hl
        obtain ⟨⟨b, hb⟩, hbefore⟩ := List.forall_mem_cons.1 hbefore
        refine .inr ⟨b, hb, bind_eq_error_iff.2 (.inl ?_)⟩
        exact ih.2 ⟨before, a', after, rfl, hbefore, ha'⟩

theorem mapM_eq_ok_iff {l' : List β} : l.mapM f = .ok l' ↔ List.Forall₂ (fun a b => f a = .ok b) l l' := by
  refine ⟨forall₂_of_mapM, fun h => ?_⟩
  induction h with
  | nil => rfl
  | cons ha _ ih =>
    rw [List.mapM_cons, ha, ih]
    rfl

theorem mapM_id_eq_ok_iff {l : List (Except ε α)} {l' : List α} : l.mapM id = .ok l' ↔ l = l'.map .ok := by
  rw [mapM_eq_ok_iff, ← List.forall₂_eq_eq_eq, List.forall₂_map_right_iff]
  rfl

/-- Lists in step are the same in what their members have in common. -/
theorem map_eq_of_forall₂ {κ : Type} {R : α → β → Prop} {l' : List β} (h : List.Forall₂ R l l') {g : β → κ} {k : α → κ}
    (hsame : ∀ a b, R a b → g b = k a) : l'.map g = l.map k := by
  induction h with
  | nil => rfl
  | cons hab _ ih => rw [List.map_cons, List.map_cons, hsame _ _ hab, ih]

end Lists

/-! ## What a declaration is planned to -/

/-- The row has the state as its single source or as its target. -/
def Transition.Names (row : Transition σ γ σ) (s : σ) : Prop := row.source = .state s ∨ row.target = .state s

theorem Transition.mem_named_iff {row : Transition σ γ σ} {s : σ} : s ∈ row.named ↔ row.Names s := by
  unfold Transition.named Transition.Names
  rw [List.mem_append, Option.mem_toList, Option.mem_toList]
  refine or_congr ?_ ?_
  · cases row.source <;> simp [Source.single?]
  · cases row.target <;> simp [Target.state?]

/-- A state that is declared without a factory: it reacts to nothing. -/
def StateDeclaration.bare [Inhabited δ] (s : σ) : StateDeclaration σ γ δ :=
  ⟨s, (pure (Reactions.behavior {}) : Callback γ (Behavior γ δ))⟩

section Plans

variable [DecidableEq σ]

/-- The states that occur among `occurring` and are not declared, each once, as they first appear. -/
structure FirstNamed (declared occurring states : List σ) : Prop where
  mem (s : σ) : s ∈ states ↔ s ∈ occurring ∧ s ∉ declared
  order : states.Pairwise fun s t => occurring.idxOf s < occurring.idxOf t

variable [Named σ] [Inhabited δ]

/-- What a region of a state is planned to, at the path that it has there. -/
def Declaration.planIn (path : String) (n : Node (RegionDeclaration σ γ) (StateDeclaration σ γ δ))
    (r : Declaration σ γ δ) : Except BuildError (Plan σ γ δ) :=
  r.plan (childPath path (Named.name n.data.id) r.data.name)

/-- What a declaration is planned to. -/
inductive Declaration.Plans (path : String) (d : Declaration σ γ δ) : Except BuildError (Plan σ γ δ) → Prop where
  /-- The first row that lacks a part is reported, whatever else is wrong. -/
  | unfinished {rows : List (Transition σ γ σ)} {part : MissingPart}
    {rest : List (Except MissingPart (Transition σ γ σ))} :
    d.data.rows = rows.map .ok ++ .error part :: rest → d.Plans path (.error (.missing part))
  /-- If all rows are finished, the first region below with a fault is: the states are gone through in order, and of each
  its regions. -/
  | below {rows : List (Transition σ γ σ)} {before after : List (Node (RegionDeclaration σ γ) (StateDeclaration σ γ δ))}
    {n : Node (RegionDeclaration σ γ) (StateDeclaration σ γ δ)} {earlier later : List (Declaration σ γ δ)}
    {r : Declaration σ γ δ} {e : BuildError} :
    d.data.rows = rows.map .ok → d.nodes = before ++ n :: after → n.regions = earlier ++ r :: later →
      (∀ m ∈ before, ∀ q ∈ m.regions, ∃ p, Declaration.planIn path m q = .ok p) →
      (∀ q ∈ earlier, ∃ p, Declaration.planIn path n q = .ok p) →
      Declaration.planIn path n r = .error e → d.Plans path (.error e)
  /-- At last, there must be a state. -/
  | empty {rows : List (Transition σ γ σ)} :
    d.data.rows = rows.map .ok → d.nodes = [] → (∀ row ∈ rows, ∀ s, ¬row.Names s) →
      d.Plans path (.error (.emptyRegion path))
  /-- The declared states stand first, as they were declared, and then those that are only named. -/
  | planned {rows : List (Transition σ γ σ)} {declared : List (PlanNode σ γ δ)} {states : List σ} :
    d.data.rows = rows.map .ok →
      List.Forall₂ (fun n m => m.data = n.data ∧
        List.Forall₂ (fun r p => Declaration.planIn path n r = .ok p) n.regions m.regions) d.nodes declared →
      FirstNamed (d.states StateDeclaration.id) (rows.flatMap Transition.named) states →
      (d.nodes ≠ [] ∨ ∃ row ∈ rows, ∃ s, row.Names s) →
      d.Plans path (.ok ⟨{ path, initial := d.data.initial, rows },
        declared ++ states.map fun s => ⟨StateDeclaration.bare s, []⟩⟩)

end Plans

/-! ## The scan -/

section Scan

variable [DecidableEq σ]

/-- Two lists of the same members in the order of their first appearances are the same. -/
theorem FirstNamed.unique {declared occurring states states' : List σ} (h : FirstNamed declared occurring states)
    (h' : FirstNamed declared occurring states') : states = states' := by
  have : Std.Antisymm fun s t => occurring.idxOf s < occurring.idxOf t :=
    ⟨fun _ _ hlt hgt => absurd hgt hlt.asymm⟩
  have : Std.Irrefl fun s t => occurring.idxOf s < occurring.idxOf t := ⟨fun _ => lt_irrefl _⟩
  exact h.order.eq_of_mem_iff h'.order fun s => (h.mem s).trans (h'.mem s).symm

theorem firstNamed_nil (declared : List σ) : FirstNamed declared [] [] := ⟨by simp, .nil⟩

variable {declared occurring states : List σ} {s : σ}

/-- What appeared keeps its order, whatever appears behind it. -/
theorem FirstNamed.order_append (h : FirstNamed declared occurring states) (later : List σ) :
    states.Pairwise fun s t => (occurring ++ later).idxOf s < (occurring ++ later).idxOf t := by
  refine h.order.imp_of_mem fun ha hb hab => ?_
  rwa [List.idxOf_append_of_mem ((h.mem _).1 ha).1, List.idxOf_append_of_mem ((h.mem _).1 hb).1]

/-- A state that is there already adds nothing. -/
theorem FirstNamed.concat_old (h : FirstNamed declared occurring states) (hs : s ∈ declared ∨ s ∈ states) :
    FirstNamed declared (occurring ++ [s]) states where
  mem t := by
    rw [h.mem, List.mem_append, List.mem_singleton]
    refine ⟨fun ht => ⟨.inl ht.1, ht.2⟩, fun ⟨ht, hnew⟩ => ⟨ht.elim id ?_, hnew⟩⟩
    rintro rfl
    exact ((h.mem t).1 (hs.resolve_left hnew)).1
  order := h.order_append [s]

/-- A state that appears for the first time stands behind all that appeared before. -/
theorem FirstNamed.concat_new (h : FirstNamed declared occurring states) (hdeclared : s ∉ declared)
    (hstates : s ∉ states) : FirstNamed declared (occurring ++ [s]) (states ++ [s]) where
  mem t := by
    rw [List.mem_append, h.mem, List.mem_append, List.mem_singleton]
    refine ⟨?_, fun ⟨ht, hnew⟩ => ht.imp_left fun ht => ⟨ht, hnew⟩⟩
    rintro (ht | rfl)
    · exact ⟨.inl ht.1, ht.2⟩
    · exact ⟨.inr rfl, hdeclared⟩
  order := by
    have hs : s ∉ occurring := fun hs => hstates ((h.mem s).2 ⟨hs, hdeclared⟩)
    refine List.pairwise_append.2 ⟨h.order_append [s], List.pairwise_singleton _ s, fun a ha b hb => ?_⟩
    obtain rfl := List.mem_singleton.1 hb
    have hmem := ((h.mem a).1 ha).1
    rw [List.idxOf_append_of_mem hmem, List.idxOf_append_of_notMem hs]
    exact (List.idxOf_lt_length_of_mem hmem).trans_le (Nat.le_add_right _ _)

theorem FirstNamed.eq_nil_iff (h : FirstNamed [] occurring states) : states = [] ↔ occurring = [] := by
  rw [List.eq_nil_iff_forall_not_mem, List.eq_nil_iff_forall_not_mem]
  exact forall_congr' fun s => not_congr ((h.mem s).trans (and_iff_left List.not_mem_nil))

variable [Inhabited δ]

/-- What the scan adds to the declared states. -/
theorem foldl_declareImplicitly_eq (declared : List (PlanNode σ γ δ)) (occurring : List σ) :
    ∃ states, FirstNamed (declared.map (·.data.id)) occurring states ∧
      occurring.foldl declareImplicitly declared =
        declared ++ states.map fun s => ⟨StateDeclaration.bare s, []⟩ := by
  -- from the last occurrence backwards: the scan looks at one more state, and at all that it added before
  induction occurring using List.reverseRecOn with
  | nil => exact ⟨[], firstNamed_nil _, by simp⟩
  | append_singleton occurring s ih =>
    obtain ⟨states, hstates, hscan⟩ := ih
    have hthere : declares (declared ++ states.map fun s => (⟨StateDeclaration.bare s, []⟩ : PlanNode σ γ δ)) s = true ↔
        s ∈ declared.map (·.data.id) ∨ s ∈ states := by
      rw [declares_iff_mem, List.map_append, List.mem_append, List.map_map]
      refine or_congr_right ?_
      rw [show ((fun n : PlanNode σ γ δ => n.data.id) ∘ fun s => ⟨StateDeclaration.bare s, []⟩) = id from rfl, List.map_id]
    rw [List.foldl_append, hscan, List.foldl_cons, List.foldl_nil, declareImplicitly]
    split
    · rename_i hs
      exact ⟨states, hstates.concat_old (hthere.1 hs), rfl⟩
    · rename_i hs
      obtain ⟨hdeclared, hnew⟩ := not_or.1 (mt hthere.2 hs)
      refine ⟨states ++ [s], hstates.concat_new hdeclared hnew, ?_⟩
      rw [List.map_append, ← List.append_assoc]
      rfl

end Scan

/-! ## Planning -/

section Planning

variable [DecidableEq σ] [Named σ] [Inhabited δ]

theorem Declaration.planRegions_eq (path : String) (n : Node (RegionDeclaration σ γ) (StateDeclaration σ γ δ)) :
    ∀ rs : List (Declaration σ γ δ),
      Declaration.planRegions path (Named.name n.data.id) rs = rs.mapM (Declaration.planIn path n)
  | [] => rfl
  | r :: rs => by
    rw [Declaration.planRegions, List.mapM_cons, Declaration.planRegions_eq path n rs]
    rfl

theorem Declaration.planNodes_eq (path : String) :
    ∀ nodes : List (Node (RegionDeclaration σ γ) (StateDeclaration σ γ δ)),
      Declaration.planNodes path nodes = nodes.mapM (Declaration.planNode path)
  | [] => rfl
  | n :: nodes => by
    rw [Declaration.planNodes, List.mapM_cons, Declaration.planNodes_eq path nodes]

variable {path : String} {n : Node (RegionDeclaration σ γ) (StateDeclaration σ γ δ)}

theorem Declaration.planNode_eq (path : String) (n : Node (RegionDeclaration σ γ) (StateDeclaration σ γ δ)) :
    Declaration.planNode path n =
      n.regions.mapM (Declaration.planIn path n) >>= fun plans => .ok ⟨n.data, plans⟩ := by
  obtain ⟨state, regions⟩ := n
  rw [← Declaration.planRegions_eq, Declaration.planNode]
  rfl

theorem Declaration.planNode_eq_ok_iff {m : PlanNode σ γ δ} : Declaration.planNode path n = .ok m ↔
    m.data = n.data ∧ List.Forall₂ (fun r p => Declaration.planIn path n r = .ok p) n.regions m.regions := by
  obtain ⟨state, plans⟩ := m
  rw [Declaration.planNode_eq, bind_eq_ok, ← mapM_eq_ok_iff]
  constructor
  · rintro ⟨plans, hplans, ⟨⟩⟩
    exact ⟨rfl, hplans⟩
  · rintro ⟨rfl, hplans⟩
    exact ⟨plans, hplans, rfl⟩

theorem Declaration.planNode_eq_error_iff {e : BuildError} : Declaration.planNode path n = .error e ↔
    ∃ earlier r later, n.regions = earlier ++ r :: later ∧
      (∀ q ∈ earlier, ∃ p, Declaration.planIn path n q = .ok p) ∧ Declaration.planIn path n r = .error e := by
  rw [Declaration.planNode_eq, bind_eq_error_iff, ← mapM_eq_error_iff]
  exact or_iff_left fun ⟨_, _, h⟩ => nomatch h

/-- The regions of a state can be planned if each of them can. -/
theorem Declaration.exists_planNode_iff : (∃ m, Declaration.planNode path n = .ok m) ↔
    ∀ r ∈ n.regions, ∃ p, Declaration.planIn path n r = .ok p := by
  constructor
  · rintro ⟨m, hm⟩ r hr
    obtain ⟨p, -, hp⟩ := exists_mem_of_forall₂ (Declaration.planNode_eq_ok_iff.1 hm).2.flip hr
    exact ⟨p, hp⟩
  · intro h
    obtain ⟨plans, hplans⟩ := mapM_ok h
    exact ⟨⟨n.data, plans⟩, Declaration.planNode_eq_ok_iff.2 ⟨rfl, mapM_eq_ok_iff.1 hplans⟩⟩

/-- The first unfinished row is reported. -/
theorem Declaration.plan_of_unfinished {d : Declaration σ γ δ} {rows : List (Transition σ γ σ)} {part : MissingPart}
    {rest : List (Except MissingPart (Transition σ γ σ))} (h : d.data.rows = rows.map .ok ++ .error part :: rest) :
    d.plan path = .error (.missing part) := by
  obtain ⟨data, nodes⟩ := d
  have hrows : data.rows.mapM id = .error part :=
    mapM_eq_error_iff.2 ⟨_, _, _, h, by simp, rfl⟩
  rw [Declaration.plan, hrows]
  rfl

/-- Once the rows are finished, what is below comes next, and then the scan. -/
theorem Declaration.plan_of_rows {d : Declaration σ γ δ} {rows : List (Transition σ γ σ)}
    (h : d.data.rows = rows.map .ok) : d.plan path =
      Declaration.planNodes path d.nodes >>= fun declared =>
        if (rows.flatMap Transition.named).foldl declareImplicitly declared = [] then .error (.emptyRegion path)
        else .ok ⟨{ path, initial := d.data.initial, rows },
          (rows.flatMap Transition.named).foldl declareImplicitly declared⟩ := by
  obtain ⟨data, nodes⟩ := d
  have hrows : data.rows.mapM id = .ok rows := mapM_id_eq_ok_iff.2 h
  rw [Declaration.plan, hrows]
  simp only [← List.isEmpty_iff]
  rfl

theorem Declaration.planNodes_eq_ok_iff {nodes : List (Node (RegionDeclaration σ γ) (StateDeclaration σ γ δ))}
    {declared : List (PlanNode σ γ δ)} : Declaration.planNodes path nodes = .ok declared ↔
      List.Forall₂ (fun n m => m.data = n.data ∧
        List.Forall₂ (fun r p => Declaration.planIn path n r = .ok p) n.regions m.regions) nodes declared := by
  rw [Declaration.planNodes_eq, mapM_eq_ok_iff]
  simp only [Declaration.planNode_eq_ok_iff]

/-- The scan begins with the states of the declaration. -/
theorem Declaration.exists_firstNamed {d : Declaration σ γ δ} {declared : List (PlanNode σ γ δ)}
    (h : Declaration.planNodes path d.nodes = .ok declared) (occurring : List σ) :
    ∃ states, FirstNamed (d.states StateDeclaration.id) occurring states ∧
      occurring.foldl declareImplicitly declared =
        declared ++ states.map fun s => ⟨StateDeclaration.bare s, []⟩ := by
  have hids : declared.map (·.data.id) = d.states StateDeclaration.id :=
    map_eq_of_forall₂ (Declaration.planNodes_eq_ok_iff.1 h) fun n m hm => by rw [hm.1]
  rw [← hids]
  exact foldl_declareImplicitly_eq declared occurring

omit [DecidableEq σ] [Named σ] [Inhabited δ] in
theorem flatMap_named_eq_nil_iff {rows : List (Transition σ γ σ)} :
    rows.flatMap Transition.named = [] ↔ ∀ row ∈ rows, ∀ s, ¬row.Names s := by
  rw [List.flatMap_eq_nil_iff]
  refine forall₂_congr fun row _ => ?_
  rw [List.eq_nil_iff_forall_not_mem]
  exact forall_congr' fun s => not_congr Transition.mem_named_iff

/-- Once what is below is planned too, the states decide. -/
theorem Declaration.plan_of_planNodes {d : Declaration σ γ δ} {rows : List (Transition σ γ σ)}
    {declared : List (PlanNode σ γ δ)} {states : List σ} (hrows : d.data.rows = rows.map .ok)
    (hdeclared : Declaration.planNodes path d.nodes = .ok declared)
    (hstates : FirstNamed (d.states StateDeclaration.id) (rows.flatMap Transition.named) states) :
    (d.nodes = [] ∧ (∀ row ∈ rows, ∀ s, ¬row.Names s) → d.plan path = .error (.emptyRegion path)) ∧
    (d.nodes ≠ [] ∨ (∃ row ∈ rows, ∃ s, row.Names s) → d.plan path =
      .ok ⟨{ path, initial := d.data.initial, rows },
        declared ++ states.map fun s => ⟨StateDeclaration.bare s, []⟩⟩) := by
  obtain ⟨states', hstates', hscan⟩ := Declaration.exists_firstNamed hdeclared (rows.flatMap Transition.named)
  obtain rfl : states' = states := hstates'.unique hstates
  have hlength := (Declaration.planNodes_eq_ok_iff.1 hdeclared).length_eq
  have hnodes : declared = [] ↔ d.nodes = [] := by
    rw [← List.length_eq_zero_iff, ← List.length_eq_zero_iff, hlength]
  have hempty : declared ++ states'.map (fun s => (⟨StateDeclaration.bare s, []⟩ : PlanNode σ γ δ)) = [] ↔
      d.nodes = [] ∧ ∀ row ∈ rows, ∀ s, ¬row.Names s := by
    rw [List.append_eq_nil_iff, List.map_eq_nil_iff, hnodes, ← flatMap_named_eq_nil_iff]
    refine and_congr_right fun hnodes => ?_
    rw [Region.states, hnodes] at hstates
    exact hstates.eq_nil_iff
  rw [Declaration.plan_of_rows hrows, hdeclared]
  change (_ → (if _ = [] then _ else _) = _) ∧ (_ → (if _ = [] then _ else _) = _)
  rw [hscan]
  refine ⟨fun h => if_pos (hempty.2 h), fun h => if_neg fun hnil => ?_⟩
  obtain ⟨hnone, hunnamed⟩ := hempty.1 hnil
  rcases h with hsome | ⟨row, hrow, s, hs⟩
  · exact hsome hnone
  · exact hunnamed row hrow s hs

theorem Declaration.plans_plan (path : String) (d : Declaration σ γ δ) : d.Plans path (d.plan path) := by
  cases hrows : d.data.rows.mapM id with
  | error part =>
    obtain ⟨before, row, rest, hsplit, hbefore, rfl⟩ := mapM_eq_error_iff.1 hrows
    obtain ⟨rows, hok⟩ := mapM_ok hbefore
    have hunfinished : d.data.rows = rows.map .ok ++ .error part :: rest :=
      hsplit.trans (by rw [mapM_id_eq_ok_iff.1 hok])
    rw [Declaration.plan_of_unfinished hunfinished]
    exact .unfinished hunfinished
  | ok rows =>
    have hrows := mapM_id_eq_ok_iff.1 hrows
    cases hdeclared : Declaration.planNodes path d.nodes with
    | error e =>
      have hplan : d.plan path = .error e := by
        rw [Declaration.plan_of_rows hrows, hdeclared]
        rfl
      rw [Declaration.planNodes_eq] at hdeclared
      obtain ⟨before, n, after, hnodes, hbefore, hn⟩ := mapM_eq_error_iff.1 hdeclared
      obtain ⟨earlier, r, later, hregions, hearlier, hr⟩ := Declaration.planNode_eq_error_iff.1 hn
      rw [hplan]
      exact .below hrows hnodes hregions (fun m hm => Declaration.exists_planNode_iff.1 (hbefore m hm)) hearlier hr
    | ok declared =>
      obtain ⟨states, hstates, -⟩ := Declaration.exists_firstNamed hdeclared (rows.flatMap Transition.named)
      obtain ⟨hempty, hplanned⟩ := Declaration.plan_of_planNodes hrows hdeclared hstates
      by_cases hnone : d.nodes = [] ∧ ∀ row ∈ rows, ∀ s, ¬row.Names s
      · rw [hempty hnone]
        exact .empty hrows hnone.1 hnone.2
      · have hsome : d.nodes ≠ [] ∨ ∃ row ∈ rows, ∃ s, row.Names s := by
          simpa only [not_and_or, not_forall, not_not, exists_prop] using hnone
        rw [hplanned hsome]
        exact .planned hrows (Declaration.planNodes_eq_ok_iff.1 hdeclared) hstates hsome

theorem Declaration.Plans.eq {d : Declaration σ γ δ} {result : Except BuildError (Plan σ γ δ)}
    (h : d.Plans path result) : d.plan path = result := by
  cases h with
  | unfinished hrows => exact Declaration.plan_of_unfinished hrows
  | @below rows before after n earlier later r e hrows hnodes hregions hbefore hearlier hr =>
    have hn : Declaration.planNode path n = .error e :=
      Declaration.planNode_eq_error_iff.2 ⟨earlier, r, later, hregions, hearlier, hr⟩
    have hdeclared : Declaration.planNodes path d.nodes = .error e := by
      rw [Declaration.planNodes_eq, mapM_eq_error_iff]
      exact ⟨before, n, after, hnodes, fun m hm => Declaration.exists_planNode_iff.2 (hbefore m hm), hn⟩
    rw [Declaration.plan_of_rows hrows, hdeclared]
    rfl
  | empty hrows hnodes hnames =>
    have hdeclared : Declaration.planNodes path d.nodes = .ok [] := by
      rw [hnodes]
      rfl
    obtain ⟨states, hstates, -⟩ := Declaration.exists_firstNamed hdeclared _
    exact (Declaration.plan_of_planNodes hrows hdeclared hstates).1 ⟨hnodes, hnames⟩
  | planned hrows hforall hstates hsome =>
    exact (Declaration.plan_of_planNodes hrows (Declaration.planNodes_eq_ok_iff.2 hforall) hstates).2 hsome

/-- **Implicit declaration.** A declaration is planned to its states, as and in the order in which they were declared,
and behind them those that rows have as their single source or target and nobody declared, each once and in the order in
which they first appear; rows and designated initial states stay as they are. Sets of sources and initial states declare
nothing. If something is malformed, the first unfinished row is reported, or else the first faulty region below, or else
that there is no state. So the declaration is planned if and only if its rows are finished, what is below is planned and
a state is declared or named; and then every state that a row has as its single source or target is declared. -/
theorem implicit_declaration (path : String) (d : Declaration σ γ δ) :
    (∀ result, d.plan path = result ↔ d.Plans path result) ∧
    ((∃ p, d.plan path = .ok p) ↔ ∃ rows : List (Transition σ γ σ), d.data.rows = rows.map .ok ∧
      (∀ n ∈ d.nodes, ∀ r ∈ n.regions, ∃ p, Declaration.planIn path n r = .ok p) ∧
      (d.nodes ≠ [] ∨ ∃ row ∈ rows, ∃ s, row.Names s)) ∧
    ∀ p, d.plan path = .ok p → ∀ row ∈ p.data.rows, ∀ s, row.Names s → s ∈ p.states StateDeclaration.id := by
  have hplans : ∀ result, d.plan path = result ↔ d.Plans path result := fun result =>
    ⟨fun h => h ▸ d.plans_plan path, Declaration.Plans.eq⟩
  refine ⟨hplans, ⟨?_, ?_⟩, fun p hp row hrow s hs => ?_⟩
  · rintro ⟨p, hp⟩
    cases (hplans _).1 hp with
    | planned hrows hforall _ hsome =>
      refine ⟨_, hrows, fun n hn => ?_, hsome⟩
      obtain ⟨m, -, hm⟩ := exists_mem_of_forall₂ hforall.flip hn
      exact Declaration.exists_planNode_iff.1 ⟨m, Declaration.planNode_eq_ok_iff.2 hm⟩
  · rintro ⟨rows, hrows, hbelow, hsome⟩
    obtain ⟨declared, hdeclared⟩ := mapM_ok fun n hn => Declaration.exists_planNode_iff.2 (hbelow n hn)
    rw [← Declaration.planNodes_eq] at hdeclared
    obtain ⟨states, hstates, -⟩ := Declaration.exists_firstNamed hdeclared (rows.flatMap Transition.named)
    exact ⟨_, (Declaration.plan_of_planNodes hrows hdeclared hstates).2 hsome⟩
  · have hcomplete := d.plan_complete path p hp p p.mem_preorder_self
    exact declares_iff_mem.1 (hcomplete.named row hrow s (Transition.mem_named_iff.2 hs))

end Planning

/-- A declared state stands ahead of those that are named before it. -/
example :
    ((Declaration.new "lamp" |>.state .dim (Reactions.behavior {})
        |>.transition (Lamp.row .off (.state .dim) Lamp.press)
        |>.transition (Lamp.completing .dim (.state .bright)) : Declaration Lamp Unit Unit).plan "lamp").map
      (Region.states StateDeclaration.id) = .ok [.dim, .off, .bright] := rfl

end Statechart
