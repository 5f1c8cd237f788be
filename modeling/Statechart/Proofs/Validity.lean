import Statechart.Proofs.Planning

/-!
# What validation reports

Validation passes exactly the sound trees of plans, and of all others it reports every fault once, in the order
of the regions and, within a region, of the checks.

* `Flaw`, `Fault` : what can be wrong with a region, and with the regions of a tree;
* `Plan.Reads` : the flaws of a region, each with the violation that tells of it;
* `Reports` : a list of violations tells of the given faults, of each once and in order;
* `registerStates_reports`, `Plan.reads_reports`, `violationsFrom_reports` : the reports of the checks;
* `Plan.Sound`, `Sound` : regions and trees without faults; `violations_eq_nil_iff`;
* `validate_exact`.
-/

set_option autoImplicit false

namespace Statechart

/-! ## Reports -/

section Reports

variable {φ α : Type} {rank : φ → List Nat} {R S : φ → Violation → Prop} {vs ws : List Violation}

/-- The violations are those that tell of some fault, one for each fault and in the order of the faults. -/
def Reports (rank : φ → List Nat) (R : φ → Violation → Prop) (vs : List Violation) : Prop :=
  ∃ report : List (φ × Violation), report.map Prod.snd = vs ∧
    report.Pairwise (fun f g => rank f.1 < rank g.1) ∧ ∀ f v, (f, v) ∈ report ↔ R f v

namespace Reports

theorem congr (h : Reports rank R vs) (hRS : ∀ f v, R f v ↔ S f v) : Reports rank S vs := by
  obtain ⟨report, hvs, horder, hmem⟩ := h
  exact ⟨report, hvs, horder, fun f v => (hmem f v).trans (hRS f v)⟩

theorem nil (h : ∀ f v, ¬R f v) : Reports rank R [] :=
  ⟨[], rfl, .nil, fun f v => by simp [h f v]⟩

/-- A check that finds one fault at most. -/
theorem single (f : φ) (found : Option Violation) (h : ∀ g v, R g v ↔ g = f ∧ found = some v) :
    Reports rank R found.toList := by
  cases found with
  | none => exact nil fun g v hR => by simpa using (h g v).1 hR
  | some v => exact ⟨[(f, v)], rfl, List.pairwise_singleton _ _, fun g w => by simp [h g w, eq_comm]⟩

theorem append (hR : Reports rank R vs) (hS : Reports rank S ws)
    (hlt : ∀ f v g w, R f v → S g w → rank f < rank g) :
    Reports rank (fun f v => R f v ∨ S f v) (vs ++ ws) := by
  obtain ⟨report, hvs, horder, hmem⟩ := hR
  obtain ⟨report', hws, horder', hmem'⟩ := hS
  refine ⟨report ++ report', ?_, ?_, fun f v => ?_⟩
  · rw [List.map_append, hvs, hws]
  · refine List.pairwise_append.2 ⟨horder, horder', ?_⟩
    rintro ⟨f, v⟩ hf ⟨g, w⟩ hg
    exact hlt f v g w ((hmem f v).1 hf) ((hmem' g w).1 hg)
  · rw [List.mem_append, hmem, hmem']

theorem eq_nil_iff (h : Reports rank R vs) : vs = [] ↔ ∀ f v, ¬R f v := by
  obtain ⟨report, hvs, -, hmem⟩ := h
  subst hvs
  rw [List.map_eq_nil_iff, List.eq_nil_iff_forall_not_mem]
  exact ⟨fun hnone f v hf => hnone (f, v) ((hmem f v).2 hf), fun hnone x hx => hnone x.1 x.2 ((hmem _ _).1 hx)⟩

end Reports

/-- To stand somewhere in a list is to stand first or somewhere in the rest. -/
theorem exists_getElem?_cons {a : α} {l : List α} {P : Nat → α → Prop} :
    (∃ i b, (a :: l)[i]? = some b ∧ P i b) ↔ P 0 a ∨ ∃ i b, l[i]? = some b ∧ P (i + 1) b := by
  constructor
  · rintro ⟨i, b, hb, hP⟩
    cases i with
    | zero =>
      cases hb
      exact .inl hP
    | succ i => exact .inr ⟨i, b, hb, hP⟩
  · rintro (hP | ⟨i, b, hb, hP⟩)
    · exact ⟨0, a, rfl, hP⟩
    · exact ⟨i + 1, b, hb, hP⟩

/-- The reports on the members of a list are the report on all of them. -/
theorem Reports.flatMap {F : α × Nat → List Violation} {R : Nat → α → φ → Violation → Prop}
    (hF : ∀ i a, Reports rank (R i a) (F (a, i)))
    (hlt : ∀ i a f v j b g w, i < j → R i a f v → R j b g w → rank f < rank g) (l : List α) :
    Reports rank (fun f v => ∃ i a, l[i]? = some a ∧ R i a f v) (l.zipIdx.flatMap F) := by
  suffices h : ∀ k, Reports rank (fun f v => ∃ i a, l[i]? = some a ∧ R (k + i) a f v) ((l.zipIdx k).flatMap F) by
    simpa only [Nat.zero_add] using h 0
  intro k
  induction l generalizing k with
  | nil => exact Reports.nil (by simp)
  | cons a l ih =>
    rw [List.zipIdx_cons, List.flatMap_cons]
    refine ((hF k a).append (ih (k + 1)) ?_).congr fun f v => ?_
    · rintro f v g w hf ⟨i, b, -, hg⟩
      exact hlt k a f v (k + 1 + i) b g w (by omega) hf hg
    · rw [exists_getElem?_cons (P := fun i a => R (k + i) a f v)]
      simp only [Nat.add_zero, Nat.add_assoc, Nat.add_comm 1]

/-- A check of each member of a list. -/
theorem Reports.filter {q : α × Nat → Bool} {g : α × Nat → Violation} (flaw : Nat → φ)
    (hlt : ∀ i j, i < j → rank (flaw i) < rank (flaw j)) (l : List α) :
    Reports rank (fun f v => ∃ i a, l[i]? = some a ∧ f = flaw i ∧ q (a, i) = true ∧ v = g (a, i))
      ((l.zipIdx.filter q).map g) := by
  have hfilter : (l.zipIdx.filter q).map g =
      l.zipIdx.flatMap fun x => (if q x = true then some (g x) else none).toList := by
    rw [← List.filterMap_eq_map, List.filterMap_filter, List.filterMap_eq_flatMap_toList]
    rfl
  rw [hfilter]
  refine Reports.flatMap (fun i a => Reports.single (flaw i) _ fun f v => ?_) ?_ l
  · simp [eq_comm (a := v)]
  · rintro i a f v j b g w hij ⟨rfl, -⟩ ⟨rfl, -⟩
    exact hlt i j hij

end Reports

/-! ## Flaws -/

/-- What can be wrong with a region, in the order of the checks. -/
inductive Flaw where
  /-- The state declared at the position has been declared before. -/
  | redeclared (position : Nat)
  /-- No single declared state is designated as the initial one. -/
  | initial
  /-- The set that the row starts from has a member that the region does not declare. -/
  | undeclared (row member : Nat)
  /-- No row leads to the state declared at the position, which is not the initial one. -/
  | unreached (position : Nat)
  /-- Completion rows lead in a circle. -/
  | loop
deriving DecidableEq, Repr

/-- The check that finds a flaw. -/
def Flaw.check : Flaw → Nat
  | redeclared _ => 0
  | initial => 1
  | undeclared _ _ => 2
  | unreached _ => 3
  | loop => 4

/-- The place of a flaw among those that its check finds. -/
def Flaw.place : Flaw → List Nat
  | redeclared position => [position]
  | undeclared row member => [row, member]
  | unreached position => [position]
  | _ => []

/-- The place of a flaw among those of its region. -/
def Flaw.rank (f : Flaw) : List Nat := f.check :: f.place

/-- A flaw of one of several regions. -/
structure Fault where
  region : Nat
  flaw : Flaw
deriving DecidableEq, Repr

/-- Faults come in the order of the regions. -/
def Fault.rank (f : Fault) : List Nat := f.region :: f.flaw.rank

theorem Flaw.rank_lt_of_check {f g : Flaw} (h : f.check < g.check) : f.rank < g.rank :=
  List.cons_lt_cons_iff.2 (.inl h)

theorem Fault.rank_lt_of_region {f g : Fault} (h : f.region < g.region) : f.rank < g.rank :=
  List.cons_lt_cons_iff.2 (.inl h)

/-- Of two flaws that one check finds. -/
theorem Flaw.rank_lt_of_place {f g : Flaw} (h : f.check = g.check) (hplace : f.place < g.place) :
    f.rank < g.rank :=
  List.cons_lt_cons_iff.2 (.inr ⟨h, hplace⟩)

variable {σ γ δ : Type}

/-- What regions declare, in order: their states, each with the path of the region. -/
def declarations (regions : List (Plan σ γ δ)) : List (σ × String) :=
  regions.flatMap fun p => (p.states StateDeclaration.id).map (·, p.data.path)

variable [DecidableEq σ] [Named σ]

/-- The state at the position of `states` is declared in the region at `path` although the one at `owner` was
the first to declare it. -/
inductive Redeclares (declared : List (σ × String)) (path : String) (states : List σ) (position : Nat) :
    Violation → Prop
  | within {s : σ} (hs : states[position]? = some s)
      (hfirst : (declared ++ (states.take position).map (·, path)).lookup s = some path) :
      Redeclares declared path states position (.duplicateState path (Named.name s))
  | across {s : σ} {owner : String} (hs : states[position]? = some s)
      (hfirst : (declared ++ (states.take position).map (·, path)).lookup s = some owner)
      (hother : owner ≠ path) :
      Redeclares declared path states position (.stateInMultipleRegions (Named.name s) owner path)

/-- The flaws of a region, before which `declared` was declared, and the violations that tell of them. -/
inductive Plan.Reads (declared : List (σ × String)) (p : Plan σ γ δ) : Flaw → Violation → Prop
  | redeclared {position : Nat} {v : Violation}
      (h : Redeclares declared p.data.path (p.states StateDeclaration.id) position v) :
      Reads declared p (.redeclared position) v
  | ambiguous (h : 1 < p.data.initial.length) :
      Reads declared p .initial (.ambiguousInitial p.data.path p.data.initial.length)
  | unknown {s : σ} (h : p.data.initial = [s]) (hs : s ∉ p.states StateDeclaration.id) :
      Reads declared p .initial (.unknownInitial p.data.path (Named.name s))
  | undeclared {i j : Nat} {row : Transition σ γ σ} {s : σ} (hrow : p.data.rows[i]? = some row)
      (hs : row.source.listed[j]? = some s) (hnot : s ∉ p.states StateDeclaration.id) :
      Reads declared p (.undeclared i j) (.unknownSource p.data.path (Named.name s))
  | unreached {position : Nat} {s : σ} (hs : (p.states StateDeclaration.id)[position]? = some s)
      (hinitial : p.initialPosition ≠ some position) (hrows : ∀ row ∈ p.data.rows, row.target ≠ .state s) :
      Reads declared p (.unreached position) (.unreachableState p.data.path (Named.name s))
  | loop {circle : List σ} (h : p.completionCycle = some circle) :
      Reads declared p .loop (.completionCycle p.data.path (circle.map Named.name))

/-- The faults of regions, each with the violation that tells of it. A region comes after those before it in the
list, and so do its declarations. -/
def Faulty (regions : List (Plan σ γ δ)) (f : Fault) (v : Violation) : Prop :=
  ∃ p, regions[f.region]? = some p ∧ p.Reads (declarations (regions.take f.region)) f.flaw v

/-! ## The reports of the checks -/

omit [Named σ] in
theorem declares_iff {p : Plan σ γ δ} {s : σ} : declares p.nodes s = true ↔ s ∈ p.states StateDeclaration.id :=
  declares_iff_mem

omit [Named σ] in
theorem declares_eq_false {p : Plan σ γ δ} {s : σ} :
    declares p.nodes s = false ↔ s ∉ p.states StateDeclaration.id := by
  rw [Bool.eq_false_iff, Ne, declares_iff]

/-- What tells of a state whose first declaration is in the region at `owner`. -/
theorem redeclares_cons_zero {declared : List (σ × String)} {path : String} {s : σ} {states : List σ} {v : Violation} :
    Redeclares declared path (s :: states) 0 v ↔ ∃ owner, declared.lookup s = some owner ∧
      v = if owner = path then .duplicateState path (Named.name s)
        else .stateInMultipleRegions (Named.name s) owner path := by
  constructor
  · rintro (⟨hs, hfirst⟩ | ⟨hs, hfirst, hother⟩)
    · cases hs
      exact ⟨path, by simpa using hfirst, by rw [if_pos rfl]⟩
    · cases hs
      exact ⟨_, by simpa using hfirst, by rw [if_neg hother]⟩
  · rintro ⟨owner, hfirst, rfl⟩
    split
    · rename_i hsame
      subst hsame
      exact .within rfl (by simpa using hfirst)
    · rename_i hother
      exact .across rfl (by simpa using hfirst) hother

theorem Redeclares.owned {declared : List (σ × String)} {path : String} {states : List σ} {i : Nat} {v : Violation}
    (h : Redeclares declared path states i v) :
    ∃ s, states[i]? = some s ∧ ∃ owner, (declared ++ (states.take i).map (·, path)).lookup s = some owner := by
  cases h with
  | within hs hfirst => exact ⟨_, hs, _, hfirst⟩
  | across hs hfirst _ => exact ⟨_, hs, _, hfirst⟩

/-- For the states after it, a state is among those declared before. -/
theorem redeclares_cons_succ {declared : List (σ × String)} {path : String} {s : σ} {states : List σ} {i : Nat}
    {v : Violation} :
    Redeclares declared path (s :: states) (i + 1) v ↔ Redeclares (declared ++ [(s, path)]) path states i v := by
  have hdeclared : declared ++ ((s :: states).take (i + 1)).map (·, path) =
      (declared ++ [(s, path)]) ++ (states.take i).map (·, path) := by simp
  constructor
  · rintro (⟨hs, hfirst⟩ | ⟨hs, hfirst, hother⟩)
    · exact .within hs (hdeclared ▸ hfirst)
    · exact .across hs (hdeclared ▸ hfirst) hother
  · rintro (⟨hs, hfirst⟩ | ⟨hs, hfirst, hother⟩)
    · exact .within hs (hdeclared ▸ hfirst)
    · exact .across hs (hdeclared ▸ hfirst) hother

omit [Named σ] in
/-- Only the first entry of a state counts. -/
theorem lookup_append_singleton {declared : List (σ × String)} {s : σ} {path : String} (t : σ) :
    (declared ++ [(s, path)]).lookup t =
      if t = s then some ((declared.lookup s).getD path) else declared.lookup t := by
  rw [List.lookup_append]
  split
  · rename_i hts
    subst hts
    cases declared.lookup t <;> simp
  · rename_i hts
    have hne : (t == s) = false := by simpa using hts
    cases declared.lookup t <;> simp [List.lookup_cons, hne]

/-- The states that have been declared before, with the flaws counted from `k` on. -/
def Redeclared (declared : List (σ × String)) (path : String) (states : List σ) (k : Nat) (f : Flaw)
    (v : Violation) : Prop :=
  ∃ i, f = .redeclared (k + i) ∧ Redeclares declared path states i v

theorem redeclared_cons {declared : List (σ × String)} {path : String} {s : σ} {states : List σ} {k : Nat}
    {f : Flaw} {v : Violation} :
    Redeclared declared path (s :: states) k f v ↔
      (f = .redeclared k ∧ Redeclares declared path (s :: states) 0 v) ∨
        Redeclared (declared ++ [(s, path)]) path states (k + 1) f v := by
  constructor
  · rintro ⟨i, rfl, h⟩
    cases i with
    | zero => exact .inl ⟨rfl, h⟩
    | succ i => exact .inr ⟨i, by rw [Nat.add_right_comm, Nat.add_assoc], redeclares_cons_succ.1 h⟩
  · rintro (⟨rfl, h⟩ | ⟨i, rfl, h⟩)
    · exact ⟨0, rfl, h⟩
    · exact ⟨i + 1, by rw [Nat.add_right_comm, Nat.add_assoc], redeclares_cons_succ.2 h⟩

/-- Entering states reports those that are declared already, and keeps who declared each state first. -/
theorem registerStates_reports (path : String) (states : List σ) (declared : List (σ × String))
    (owners : Owners σ) (k : Nat) (howners : ∀ s, owners.lookup s = declared.lookup s) :
    Reports Flaw.rank (Redeclared declared path states k) (registerStates path owners states).1 ∧
      ∀ s, (registerStates path owners states).2.lookup s = (declared ++ states.map (·, path)).lookup s := by
  induction states generalizing declared owners k with
  | nil =>
    refine ⟨Reports.nil ?_, by simpa [registerStates] using howners⟩
    rintro f v ⟨i, -, ⟨hs, -⟩ | ⟨hs, -, -⟩⟩ <;> cases hs
  | cons s states ih =>
    have hdeclared : declared ++ (s :: states).map (·, path) =
        (declared ++ [(s, path)]) ++ states.map (·, path) := by simp
    rw [registerStates, hdeclared]
    split
    · rename_i hnew
      have hentered (t : σ) : ((s, path) :: owners).lookup t = (declared ++ [(s, path)]).lookup t := by
        rw [lookup_append_singleton, ← howners, ← howners, hnew, List.lookup_cons]
        by_cases hts : t = s
        · simp [hts]
        · simp [hts, beq_false_of_ne hts]
      obtain ⟨hreports, hlookup⟩ := ih _ _ (k + 1) hentered
      refine ⟨hreports.congr fun f v => ?_, hlookup⟩
      rw [redeclared_cons, redeclares_cons_zero, ← howners, hnew]
      simp
    · rename_i owner howner
      have hkept (t : σ) : owners.lookup t = (declared ++ [(s, path)]).lookup t := by
        rw [lookup_append_singleton, ← howners, ← howners, howner]
        by_cases hts : t = s <;> simp [hts, howner]
      obtain ⟨hreports, hlookup⟩ := ih _ _ (k + 1) hkept
      have hfirst : Reports Flaw.rank (fun f v => f = .redeclared k ∧ Redeclares declared path (s :: states) 0 v)
          (some (if owner = path then Violation.duplicateState path (Named.name s)
            else .stateInMultipleRegions (Named.name s) owner path)).toList :=
        Reports.single (.redeclared k) _ fun f v => by
          rw [redeclares_cons_zero, ← howners, howner]
          simp [eq_comm]
      refine ⟨(hfirst.append hreports ?_).congr fun f v => redeclared_cons.symm, hlookup⟩
      rintro f v g w ⟨rfl, -⟩ ⟨i, rfl, -⟩
      exact Flaw.rank_lt_of_place rfl (List.cons_lt_cons_iff.2 (.inl (by omega)))

namespace Plan

variable {p : Plan σ γ δ} {declared : List (σ × String)}

theorem initialViolation_eq_some {v : Violation} :
    p.initialViolation = some v ↔ p.Reads declared .initial v := by
  unfold initialViolation
  constructor
  · intro h
    split at h
    · cases h
    · rename_i s hone
      split at h
      · cases h
      · rename_i hs
        cases h
        exact .unknown hone fun hmem => hs (declares_iff.2 hmem)
    · rename_i hnone hone
      cases h
      refine .ambiguous ?_
      rcases hinitial : p.data.initial with _ | ⟨s, _ | ⟨t, states⟩⟩
      · exact absurd hinitial hnone
      · exact absurd hinitial (hone s)
      · simp
  · intro h
    cases h with
    | ambiguous hmany =>
      split
      · rename_i hnone
        simp [hnone] at hmany
      · rename_i s hone
        simp [hone] at hmany
      · rfl
    | unknown hone hs => simp [hone, declares_iff, hs]

theorem initialViolation_reports (p : Plan σ γ δ) :
    Reports Flaw.rank (fun f v => f.check = 1 ∧ p.Reads declared f v) p.initialViolation.toList := by
  refine Reports.single .initial _ fun f v => ⟨?_, ?_⟩
  · rintro ⟨hcheck, h⟩
    cases h with
    | ambiguous hmany => exact ⟨rfl, initialViolation_eq_some.2 (Reads.ambiguous hmany : p.Reads declared _ _)⟩
    | unknown hone hs => exact ⟨rfl, initialViolation_eq_some.2 (Reads.unknown hone hs : p.Reads declared _ _)⟩
    | _ => simp [Flaw.check] at hcheck
  · rintro ⟨rfl, h⟩
    exact ⟨rfl, initialViolation_eq_some.1 h⟩

theorem cycleViolation_reports (p : Plan σ γ δ) :
    Reports Flaw.rank (fun f v => f.check = 4 ∧ p.Reads declared f v) p.cycleViolation.toList := by
  refine Reports.single .loop _ fun f v => ?_
  unfold cycleViolation
  rw [Option.map_eq_some_iff]
  constructor
  · rintro ⟨hcheck, h⟩
    cases h with
    | loop h => exact ⟨rfl, _, h, rfl⟩
    | _ => simp [Flaw.check] at hcheck
  · rintro ⟨rfl, circle, h, rfl⟩
    exact ⟨rfl, .loop h⟩

theorem sourceViolations_eq (p : Plan σ γ δ) :
    p.sourceViolations = p.data.rows.zipIdx.flatMap fun (row, _) =>
      (row.source.listed.zipIdx.filter fun (s, _) => !declares p.nodes s).map fun (s, _) =>
        .unknownSource p.data.path (Named.name s) := by
  have hmembers (states : List σ) :
      (states.filter (!declares p.nodes ·)).map (fun s => Violation.unknownSource p.data.path (Named.name s)) =
        (states.zipIdx.filter fun (s, _) => !declares p.nodes s).map fun (s, _) =>
          .unknownSource p.data.path (Named.name s) := by
    conv_lhs => rw [← List.zipIdx_map_fst 0 states, List.filter_map, List.map_map]
    rfl
  unfold sourceViolations
  rw [List.filter_flatMap, List.map_flatMap]
  conv_lhs => rw [← List.zipIdx_map_fst 0 p.data.rows, List.flatMap_map]
  exact List.flatMap_congr fun x _ => hmembers _

theorem sourceViolations_reports (p : Plan σ γ δ) :
    Reports Flaw.rank (fun f v => f.check = 2 ∧ p.Reads declared f v) p.sourceViolations := by
  rw [sourceViolations_eq]
  refine (Reports.flatMap (fun i row => Reports.filter (.undeclared i) ?_ row.source.listed) ?_
    p.data.rows).congr fun f v => ?_
  · intro j k hjk
    exact Flaw.rank_lt_of_place rfl (List.cons_lt_cons_iff.2 (.inr ⟨rfl, List.cons_lt_cons_iff.2 (.inl hjk)⟩))
  · rintro i row f v j row' g w hij ⟨k, s, -, rfl, -⟩ ⟨k', s', -, rfl, -⟩
    exact Flaw.rank_lt_of_place rfl (List.cons_lt_cons_iff.2 (.inl hij))
  · simp only [Bool.not_eq_true', declares_eq_false]
    constructor
    · rintro ⟨i, row, hrow, j, s, hs, rfl, hnot, rfl⟩
      exact ⟨rfl, .undeclared hrow hs hnot⟩
    · rintro ⟨hcheck, h⟩
      cases h with
      | undeclared hrow hs hnot => exact ⟨_, _, hrow, _, _, hs, rfl, hnot, rfl⟩
      | _ => simp [Flaw.check] at hcheck

omit [Named σ] in
theorem isTargeted_eq_false {s : σ} : p.isTargeted s = false ↔ ∀ row ∈ p.data.rows, row.target ≠ .state s := by
  simp [isTargeted]

theorem reachabilityViolations_reports (p : Plan σ γ δ) :
    Reports Flaw.rank (fun f v => f.check = 3 ∧ p.Reads declared f v) p.reachabilityViolations := by
  have hstates (i : Nat) : (p.states StateDeclaration.id)[i]? = p.nodes[i]?.map (·.data.id) := List.getElem?_map
  unfold reachabilityViolations
  refine (Reports.filter .unreached ?_ p.nodes).congr fun f v => ?_
  · intro i j hij
    exact Flaw.rank_lt_of_place rfl (List.cons_lt_cons_iff.2 (.inl hij))
  · simp only [Bool.and_eq_true, decide_eq_true_eq, Bool.not_eq_true', isTargeted_eq_false]
    constructor
    · rintro ⟨i, n, hn, rfl, ⟨hinitial, hrows⟩, rfl⟩
      exact ⟨rfl, .unreached (by rw [hstates, hn]; rfl) hinitial.symm hrows⟩
    · rintro ⟨hcheck, h⟩
      cases h with
      | unreached hs hinitial hrows =>
        rw [hstates, Option.map_eq_some_iff] at hs
        obtain ⟨n, hn, rfl⟩ := hs
        exact ⟨_, n, hn, rfl, ⟨hinitial.symm, hrows⟩, rfl⟩
      | _ => simp [Flaw.check] at hcheck

end Plan

/-! ## The report on a tree -/

/-- What the next check finds comes after what the checks before it found. -/
theorem Reports.next {R : Flaw → Violation → Prop} {vs ws : List Violation} {check : Nat}
    (hvs : Reports Flaw.rank (fun f v => f.check < check ∧ R f v) vs)
    (hws : Reports Flaw.rank (fun f v => f.check = check ∧ R f v) ws) :
    Reports Flaw.rank (fun f v => f.check < check + 1 ∧ R f v) (vs ++ ws) := by
  refine (hvs.append hws ?_).congr fun f v => ?_
  · rintro f v g w ⟨hf, -⟩ ⟨hg, -⟩
    exact Flaw.rank_lt_of_check (hg ▸ hf)
  · rw [← or_and_right, Nat.lt_succ_iff_lt_or_eq]

/-- The checks of a region report its flaws. -/
theorem Plan.reads_reports (p : Plan σ γ δ) {declared : List (σ × String)} {owners : Owners σ}
    (howners : ∀ s, owners.lookup s = declared.lookup s) :
    Reports Flaw.rank (p.Reads declared)
      ((registerStates p.data.path owners (p.states StateDeclaration.id)).1 ++ p.ownViolations) := by
  have hownership : Reports Flaw.rank (fun f v => f.check < 1 ∧ p.Reads declared f v)
      (registerStates p.data.path owners (p.states StateDeclaration.id)).1 := by
    refine (registerStates_reports p.data.path _ declared owners 0 howners).1.congr fun f v => ⟨?_, ?_⟩
    · rintro ⟨i, rfl, h⟩
      rw [Nat.zero_add]
      exact ⟨Nat.one_pos, .redeclared h⟩
    · rintro ⟨hcheck, h⟩
      cases h with
      | redeclared h => exact ⟨_, by rw [Nat.zero_add], h⟩
      | _ => simp [Flaw.check] at hcheck
  have hall := (((hownership.next p.initialViolation_reports).next p.sourceViolations_reports).next
    p.reachabilityViolations_reports).next p.cycleViolation_reports
  rw [Plan.ownViolations, ← List.append_assoc, ← List.append_assoc, ← List.append_assoc]
  refine hall.congr fun f v => and_iff_right ?_
  cases f <;> simp [Flaw.check]

/-- The faults of regions before which `declared` was declared, with the regions counted from `k` on. -/
def FaultyFrom (declared : List (σ × String)) (regions : List (Plan σ γ δ)) (k : Nat) (f : Fault) (v : Violation) :
    Prop :=
  ∃ i p, regions[i]? = some p ∧ f.region = k + i ∧
    p.Reads (declared ++ declarations (regions.take i)) f.flaw v

/-- The report on a region is one on the faults there. -/
theorem Reports.inRegion {R : Flaw → Violation → Prop} {vs : List Violation} (h : Reports Flaw.rank R vs) (k : Nat) :
    Reports Fault.rank (fun f v => f.region = k ∧ R f.flaw v) vs := by
  obtain ⟨report, rfl, horder, hmem⟩ := h
  refine ⟨report.map fun x => (⟨k, x.1⟩, x.2), ?_, ?_, fun f v => ?_⟩
  · rw [List.map_map]
    rfl
  · exact List.pairwise_map.2 (horder.imp fun hlt => List.cons_lt_cons_iff.2 (.inr ⟨rfl, hlt⟩))
  · show _ ↔ f.region = k ∧ R f.flaw v
    rw [← hmem, List.mem_map]
    constructor
    · rintro ⟨x, hx, hfv⟩
      cases hfv
      exact ⟨rfl, hx⟩
    · rintro ⟨rfl, hf⟩
      exact ⟨(f.flaw, v), hf, rfl⟩

theorem faultyFrom_cons {declared : List (σ × String)} {p : Plan σ γ δ} {regions : List (Plan σ γ δ)} {k : Nat}
    {f : Fault} {v : Violation} :
    FaultyFrom declared (p :: regions) k f v ↔
      (f.region = k ∧ p.Reads declared f.flaw v) ∨
        FaultyFrom (declared ++ (p.states StateDeclaration.id).map (·, p.data.path)) regions (k + 1) f v := by
  unfold FaultyFrom
  rw [exists_getElem?_cons (P := fun i (q : Plan σ γ δ) => f.region = k + i ∧
    q.Reads (declared ++ declarations ((p :: regions).take i)) f.flaw v)]
  simp [declarations, Nat.add_right_comm k, Nat.add_assoc]

theorem violationsFrom_reports (regions : List (Plan σ γ δ)) (declared : List (σ × String)) (owners : Owners σ)
    (k : Nat) (howners : ∀ s, owners.lookup s = declared.lookup s) :
    Reports Fault.rank (FaultyFrom declared regions k) (violationsFrom owners regions) := by
  induction regions generalizing declared owners k with
  | nil => exact Reports.nil (by simp [FaultyFrom])
  | cons p regions ih =>
    have hlookup := (registerStates_reports p.data.path (p.states StateDeclaration.id) declared owners 0 howners).2
    refine (((p.reads_reports howners).inRegion k).append (ih _ _ (k + 1) hlookup) ?_).congr fun f v =>
      faultyFrom_cons.symm
    rintro f v g w ⟨hf, -⟩ ⟨i, q, -, hg, -⟩
    exact Fault.rank_lt_of_region (by omega)

/-- The faults of a tree are reported region by region, outer ones first. -/
theorem violations_reports (plans : List (Plan σ γ δ)) :
    Reports Fault.rank (Faulty (Region.preorderOfRegions plans)) (violations plans) := by
  refine (violationsFrom_reports _ [] [] 0 fun _ => rfl).congr fun f v => ⟨?_, ?_⟩
  · rintro ⟨i, p, hp, hregion, h⟩
    rw [Nat.zero_add] at hregion
    subst hregion
    exact ⟨p, hp, h⟩
  · rintro ⟨p, hp, h⟩
    exact ⟨_, p, hp, (Nat.zero_add _).symm, h⟩

/-! ## Soundness -/

omit [DecidableEq σ] [Named σ] in
/-- The initial state of a region: the first one designated, or else the first one declared. -/
def Plan.initialState? (p : Plan σ γ δ) : Option σ :=
  p.data.initial.head? <|> (p.states StateDeclaration.id).head?

/-- A region whose states are fit to start from and to be reached. -/
structure Plan.Sound (p : Plan σ γ δ) : Prop where
  single : p.data.initial.length ≤ 1
  initial : ∀ s ∈ p.data.initial, s ∈ p.states StateDeclaration.id
  sources : ∀ row ∈ p.data.rows, ∀ s ∈ row.source.listed, s ∈ p.states StateDeclaration.id
  reached : ∀ s ∈ p.states StateDeclaration.id, p.initialState? ≠ some s →
    ∃ row ∈ p.data.rows, row.target = .state s
  settles : p.completionCycle = none

/-- Sound regions of which no two declare one state, and none declares a state twice. -/
structure Sound (regions : List (Plan σ γ δ)) : Prop where
  distinct : (regions.flatMap (Region.states StateDeclaration.id)).Nodup
  region : ∀ p ∈ regions, Plan.Sound p

omit [Named σ] in
theorem Plan.initialState?_of_position {p : Plan σ γ δ} {i : Nat} (h : p.initialPosition = some i) :
    (p.states StateDeclaration.id)[i]? = p.initialState? := by
  unfold Plan.initialPosition at h
  unfold Plan.initialState?
  split at h
  · rename_i hnone
    cases h
    rw [hnone, List.head?_nil, List.head?_eq_getElem?]
    rfl
  · rename_i s _ hinitial
    obtain ⟨hi, hs, -⟩ := List.findIdx?_eq_some_iff_getElem.1 h
    rw [hinitial]
    simpa [Region.states, List.getElem?_eq_getElem hi] using hs

omit [DecidableEq σ] [Named σ] in
theorem map_fst_entries (states : List σ) (path : String) : (states.map (·, path)).map Prod.fst = states := by
  rw [List.map_map]
  exact List.map_id states

omit [DecidableEq σ] [Named σ] in
theorem map_fst_declarations (regions : List (Plan σ γ δ)) :
    (declarations regions).map Prod.fst = regions.flatMap (Region.states StateDeclaration.id) := by
  simp only [declarations, List.map_flatMap, map_fst_entries]

/-- In a sound tree no state has been declared before. -/
theorem Sound.not_redeclares {regions : List (Plan σ γ δ)} (h : Sound regions) {k : Nat} {p : Plan σ γ δ}
    (hp : regions[k]? = some p) {i : Nat} {v : Violation} :
    ¬Redeclares (declarations (regions.take k)) p.data.path (p.states StateDeclaration.id) i v := by
  intro hv
  obtain ⟨s, hs, owner, hfirst⟩ := hv.owned
  have hearlier : s ∈ (regions.take k).flatMap (Region.states StateDeclaration.id) ++
      (p.states StateDeclaration.id).take i := by
    obtain ⟨before, after, hentries, -⟩ := List.lookup_eq_some_iff.1 hfirst
    have hmem : s ∈ (before ++ (s, owner) :: after).map Prod.fst := by simp
    rw [← hentries, List.map_append, map_fst_declarations, map_fst_entries] at hmem
    exact hmem
  -- all declarations in order, with this one picked out
  have hdistinct := h.distinct
  rw [← List.take_append_drop k regions, List.drop_eq_getElem_cons (List.getElem?_eq_some_iff.1 hp).1,
    (List.getElem?_eq_some_iff.1 hp).2, List.flatMap_append, List.flatMap_cons,
    ← List.take_append_drop i (p.states StateDeclaration.id),
    List.drop_eq_getElem_cons (List.getElem?_eq_some_iff.1 hs).1, (List.getElem?_eq_some_iff.1 hs).2,
    List.append_assoc, List.cons_append, ← List.append_assoc, List.nodup_middle] at hdistinct
  exact (List.nodup_cons.1 hdistinct).1 (List.mem_append_left _ hearlier)

variable {p : Plan σ γ δ} {declared : List (σ × String)}

/-- A region of which nothing is reported is sound. -/
theorem Plan.sound_of_reads (declared : List (σ × String)) (h : ∀ f v, ¬p.Reads declared f v) : p.Sound where
  single := by
    by_contra hmany
    exact h _ _ (.ambiguous (Nat.lt_of_not_le hmany))
  initial s hs := by
    by_contra hnot
    rcases hinitial : p.data.initial with _ | ⟨t, _ | ⟨u, others⟩⟩
    · simp [hinitial] at hs
    · rw [hinitial, List.mem_singleton] at hs
      subst hs
      exact h _ _ (.unknown hinitial hnot)
    · exact h _ _ (.ambiguous (by simp [hinitial]))
  sources row hrow s hs := by
    by_contra hnot
    obtain ⟨i, hi⟩ := List.mem_iff_getElem?.1 hrow
    obtain ⟨j, hj⟩ := List.mem_iff_getElem?.1 hs
    exact h _ _ (.undeclared hi hj hnot)
  reached s hs hother := by
    by_contra hrows
    push Not at hrows
    obtain ⟨i, hi⟩ := List.mem_iff_getElem?.1 hs
    refine h _ _ (.unreached hi (fun hinitial => hother ?_) hrows)
    rw [← Plan.initialState?_of_position hinitial, hi]
  settles := by
    refine Option.eq_none_iff_forall_ne_some.2 fun circle hcircle => ?_
    exact h _ _ (.loop hcircle)

omit [Named σ] in
/-- Where states are declared once, the initial state stands at the initial position only. -/
theorem Plan.Sound.initialPosition (h : p.Sound) (hnodup : (p.states StateDeclaration.id).Nodup) {i : Nat} {s : σ}
    (hs : (p.states StateDeclaration.id)[i]? = some s) (hinitial : p.initialState? = some s) :
    p.initialPosition = some i := by
  obtain ⟨j, hj⟩ : ∃ j, p.initialPosition = some j := by
    unfold Plan.initialPosition
    split
    · exact ⟨0, rfl⟩
    · rename_i t _ hinitial'
      exact position?_of_declares (declares_iff.2 (h.initial t (by simp [hinitial'])))
  have hstate := Plan.initialState?_of_position hj
  rw [hinitial, ← hs] at hstate
  have hlt : j < (p.states StateDeclaration.id).length :=
    (List.getElem?_eq_some_iff.1 (hstate.trans hs)).1
  rw [hj, (List.getElem?_inj hlt hnodup).1 hstate]

/-- Of a sound region nothing is reported but that its states were declared before. -/
theorem Plan.Sound.reads (h : p.Sound) (hnodup : (p.states StateDeclaration.id).Nodup) {f : Flaw} {v : Violation}
    (hf : p.Reads declared f v) : ∃ i, Redeclares declared p.data.path (p.states StateDeclaration.id) i v := by
  cases hf with
  | redeclared hf => exact ⟨_, hf⟩
  | ambiguous hmany => exact absurd h.single (Nat.not_le_of_lt hmany)
  | unknown hone hs => exact absurd (h.initial _ (by simp [hone])) hs
  | undeclared hrow hs hnot =>
    exact absurd (h.sources _ (List.mem_of_getElem? hrow) _ (List.mem_of_getElem? hs)) hnot
  | @unreached _ s hs hother hrows =>
    by_cases hinitial : p.initialState? = some s
    · exact absurd (h.initialPosition hnodup hs hinitial) hother
    · obtain ⟨row, hrow, htarget⟩ := h.reached _ (List.mem_of_getElem? hs) hinitial
      exact absurd htarget (hrows row hrow)
  | loop hcircle => simp [h.settles] at hcircle

theorem violations_eq_nil_iff (plans : List (Plan σ γ δ)) :
    violations plans = [] ↔ Sound (Region.preorderOfRegions plans) := by
  have hreports := violations_reports plans
  constructor
  · intro hnone
    refine ⟨nodup_of_violations hnone, fun p hp => ?_⟩
    obtain ⟨k, hk⟩ := List.mem_iff_getElem?.1 hp
    refine Plan.sound_of_reads (declarations ((Region.preorderOfRegions plans).take k)) fun f v hf => ?_
    exact hreports.eq_nil_iff.1 hnone ⟨k, f⟩ v ⟨p, hk, hf⟩
  · intro hsound
    refine hreports.eq_nil_iff.2 ?_
    rintro f v ⟨p, hp, hf⟩
    have hmem := List.mem_of_getElem? hp
    have hnodup := (List.nodup_flatMap.1 hsound.distinct).1 p hmem
    obtain ⟨i, hbefore⟩ := (hsound.region p hmem).reads hnodup hf
    exact hsound.not_redeclares hp hbefore

/-- Validation passes exactly the sound trees. Of all others it reports every fault, each once and none besides,
in the order of the regions and of their checks. -/
theorem validate_exact (plans : List (Plan σ γ δ)) :
    (validate plans = .ok () ↔ Sound (Region.preorderOfRegions plans)) ∧
      (validate plans = .ok () ∨ ∃ vs, validate plans = .error (.invalidTable vs) ∧
        Reports Fault.rank (Faulty (Region.preorderOfRegions plans)) vs) := by
  rw [← violations_eq_nil_iff]
  have hreports := violations_reports plans
  unfold validate
  split
  · rename_i hnone
    exact ⟨iff_of_true rfl hnone, .inl rfl⟩
  · rename_i hsome
    exact ⟨iff_of_false (by simp) hsome, .inr ⟨_, rfl, hreports⟩⟩

end Statechart
