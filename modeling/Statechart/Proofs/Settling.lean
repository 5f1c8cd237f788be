import Statechart.Proofs.DryRun
import Statechart.Proofs.Effort
import Statechart.Proofs.Firings

/-!
# Settling is exact about its bound

A region that settles fires the completion rows that are due, one after the other, and no more of them than the limit
allows. It overflows if as many have fired and one more is due, and leaves everything as the last of them left it; it
ends well only where no row is due any more.

* `Region.Due`, `Region.Fires k` : a completion row is due; `k` rows that were due have fired;
* `Region.chain_ok_iff`, `Region.chain_error_iff` : how a chain ends; `Region.Halts` : what halts it;
* `Region.Fires.firedIn`, `Region.Halts.firedIn` : how many rows of the region itself have fired by then;
* `Region.due_keeps_region`, `Region.due_keeps_context` : looking for a row that is due leaves the region as it is, and
  the context if the guards do;
* `Region.Exhausted` : no completion row is due; `Region.exhausted_of_due`, where guards only read;
* `settling_is_exact`.
-/

set_option autoImplicit false

namespace Statechart

open Turn

variable {σ γ δ α : Type}

section Chains

variable [DecidableEq σ] [Named σ] {setup : Setup σ γ} {r : BuiltRegion σ γ δ} {n k : Nat}
  {c c' : Configuration σ γ δ}

/-! ## Chains -/

/-- The active state is complete, and the row is chosen for it on completion; `c'` is what the guards lead to. -/
def Region.Due (r : BuiltRegion σ γ δ) (choice : Choice σ γ) (c c' : Configuration σ γ δ) : Prop :=
  ∃ i n, c.marking.active = .at i ∧ r.nodes[i]? = some n ∧ n.isComplete i c.marking = true ∧
    r.data.resolve i n.data.id .completion c = .ok (some choice) c'

theorem Region.due_finds : Ends (Region.due r.data r.nodes) c
    (fun found c' => ∀ choice, found = some choice → r.Due choice c c') fun _ _ => True := by
  have hnone (c' : Configuration σ γ δ) (choice : Choice σ γ) (h : none = some choice) : r.Due choice c c' :=
    absurd h.symm (Option.some_ne_none choice)
  unfold Region.due
  simp only [ends_bind, ends_active]
  split
  · rename_i i hactive
    split
    · rename_i n hn
      rw [ends_bind, ends_get]
      split
      · rename_i hcomplete
        unfold Ends
        cases hfound : r.data.resolve i n.data.id .completion c with
        | error => trivial
        | ok found c' =>
          rintro choice rfl
          exact ⟨i, n, hactive, hn, hcomplete, hfound⟩
      · exact hnone c
    · exact hnone c
  · exact hnone c

theorem Region.due_eq_some {choice : Choice σ γ} :
    Region.due r.data r.nodes c = .ok (some choice) c' ↔ r.Due choice c c' := by
  refine ⟨fun h => Region.due_finds.of_ok h choice rfl, ?_⟩
  rintro ⟨i, n, hactive, hn, hcomplete, h⟩
  rw [Region.due_of_complete hactive hn hcomplete, h]

/-- One after the other, `k` completion rows that were due have fired, each to its end. -/
inductive Region.Fires (setup : Setup σ γ) (r : BuiltRegion σ γ δ) :
    Nat → Configuration σ γ δ → Configuration σ γ δ → Prop where
  | none (c : Configuration σ γ δ) : Fires setup r 0 c c
  | next {k : Nat} {choice : Choice σ γ} {c c₁ c₂ c' : Configuration σ γ δ} (hdue : r.Due choice c c₁)
    (hfire : Region.fire setup r.data r.nodes choice .completion c₁ = .ok () c₂) (rest : Fires setup r k c₂ c') :
    Fires setup r (k + 1) c c'

/-- What halts a chain of at most `limit` rows: as many have fired and another is due, or a guard is at fault, or the
firing of a row is halted. -/
inductive Region.Halts (setup : Setup σ γ) (r : BuiltRegion σ γ δ) (limit : Nat) (c : Configuration σ γ δ) :
    Halt → Configuration σ γ δ → Prop where
  | overflow {choice : Choice σ γ} {c₁ c₂ : Configuration σ γ δ} (hfires : r.Fires setup limit c c₁)
    (hdue : r.Due choice c₁ c₂) :
    Halts setup r limit c (.error (.completionOverflow r.data.path setup.settings.maxCompletionChain))
      (c₂.noting (.overflowed r.data.path setup.settings.maxCompletionChain))
  | guard {k : Nat} {h : Halt} {c₁ c' : Configuration σ γ δ} (hk : k ≤ limit) (hfires : r.Fires setup k c c₁)
    (hdue : Region.due r.data r.nodes c₁ = .error h c') : Halts setup r limit c h c'
  | firing {k : Nat} {h : Halt} {choice : Choice σ γ} {c₁ c₂ c' : Configuration σ γ δ} (hk : k < limit)
    (hfires : r.Fires setup k c c₁) (hdue : r.Due choice c₁ c₂)
    (hfire : Region.fire setup r.data r.nodes choice .completion c₂ = .error h c') : Halts setup r limit c h c'

/-- A chain with a step left is halted while it looks for a row, while it fires one, or later. -/
theorem Region.chain_succ_error {h : Halt} {fire : Choice σ γ → Turn σ γ δ Unit} :
    Region.chain setup r.data r.nodes fire (n + 1) c = .error h c' ↔
      Region.due r.data r.nodes c = .error h c' ∨ ∃ choice c₁, r.Due choice c c₁ ∧ (fire choice c₁ = .error h c' ∨
        ∃ c₂, fire choice c₁ = .ok () c₂ ∧ Region.chain setup r.data r.nodes fire n c₂ = .error h c') := by
  rw [Region.chain, bind_eq_error]
  refine or_congr_right ⟨?_, ?_⟩
  · rintro ⟨found, c₁, hdue, h⟩
    cases found with
    | none => cases h
    | some choice =>
      refine ⟨choice, c₁, Region.due_eq_some.1 hdue, ?_⟩
      rcases bind_eq_error.1 h with h | ⟨⟨⟩, c₂, hfire, h⟩
      · exact .inl h
      · exact .inr ⟨c₂, hfire, h⟩
  · rintro ⟨choice, c₁, hdue, h⟩
    refine ⟨some choice, c₁, Region.due_eq_some.2 hdue, bind_eq_error.2 ?_⟩
    rcases h with h | ⟨c₂, hfire, h⟩
    · exact .inl h
    · exact .inr ⟨(), c₂, hfire, h⟩

/-- A chain with a step left ends well where nothing is due, or after it has fired a row. -/
theorem Region.chain_succ_ok {fire : Choice σ γ → Turn σ γ δ Unit} :
    Region.chain setup r.data r.nodes fire (n + 1) c = .ok () c' ↔
      Region.due r.data r.nodes c = .ok none c' ∨ ∃ choice c₁ c₂, r.Due choice c c₁ ∧ fire choice c₁ = .ok () c₂ ∧
        Region.chain setup r.data r.nodes fire n c₂ = .ok () c' := by
  rw [Region.chain, bind_ok_iff]
  constructor
  · rintro ⟨found, c₁, hdue, h⟩
    cases found with
    | none =>
      cases h
      exact .inl hdue
    | some choice =>
      obtain ⟨⟨⟩, c₂, hfire, h⟩ := bind_ok_iff.1 h
      exact .inr ⟨choice, c₁, c₂, Region.due_eq_some.1 hdue, hfire, h⟩
  · rintro (hdue | ⟨choice, c₁, c₂, hdue, hfire, h⟩)
    · exact ⟨none, c', hdue, rfl⟩
    · exact ⟨some choice, c₁, Region.due_eq_some.2 hdue, bind_ok_iff.2 ⟨(), c₂, hfire, h⟩⟩

/-- A chain ends well where nothing is due. -/
theorem Region.chain_ok_iff : Region.chain setup r.data r.nodes
      (fun choice => Region.fire setup r.data r.nodes choice .completion) n c = .ok () c' ↔
    ∃ k ≤ n, ∃ c₁, r.Fires setup k c c₁ ∧ Region.due r.data r.nodes c₁ = .ok none c' := by
  induction n generalizing c with
  | zero =>
    rw [Region.chain, bind_ok_iff]
    constructor
    · rintro ⟨found, c₁, hdue, h⟩
      cases found with
      | none =>
        cases h
        exact ⟨0, Nat.le_refl 0, c, .none c, hdue⟩
      | some choice => cases h
    · rintro ⟨k, hk, c₁, hfires, hdue⟩
      obtain rfl := Nat.le_zero.1 hk
      cases hfires
      exact ⟨none, c', hdue, rfl⟩
  | succ n ih =>
    rw [Region.chain_succ_ok]
    constructor
    · rintro (hdue | ⟨choice, c₁, c₂, hdue, hfire, h⟩)
      · exact ⟨0, Nat.zero_le _, c, .none c, hdue⟩
      · obtain ⟨k, hk, c₃, hfires, hlast⟩ := ih.1 h
        exact ⟨k + 1, Nat.succ_le_succ hk, c₃, .next hdue hfire hfires, hlast⟩
    · rintro ⟨k, hk, c₁, hfires, hlast⟩
      cases hfires with
      | none => exact .inl hlast
      | next hdue hfire hrest =>
        exact .inr ⟨_, _, _, hdue, hfire, ih.2 ⟨_, Nat.le_of_succ_le_succ hk, c₁, hrest, hlast⟩⟩

/-- What halts a chain. -/
theorem Region.chain_error_iff {h : Halt} : Region.chain setup r.data r.nodes
      (fun choice => Region.fire setup r.data r.nodes choice .completion) n c = .error h c' ↔
    r.Halts setup n c h c' := by
  induction n generalizing c with
  | zero =>
    rw [Region.chain, bind_eq_error]
    constructor
    · rintro (hdue | ⟨found, c₁, hdue, h⟩)
      · exact .guard (Nat.le_refl 0) (.none c) hdue
      · cases found with
        | none => cases h
        | some choice =>
          cases h
          exact .overflow (.none c) (Region.due_eq_some.1 hdue)
    · intro hhalts
      cases hhalts with
      | overflow hfires hdue =>
        cases hfires
        exact .inr ⟨_, _, Region.due_eq_some.2 hdue, rfl⟩
      | guard hk hfires hdue =>
        obtain rfl := Nat.le_zero.1 hk
        cases hfires
        exact .inl hdue
      | firing hk => exact absurd hk (Nat.not_lt_zero _)
  | succ n ih =>
    rw [Region.chain_succ_error]
    constructor
    · rintro (hdue | ⟨choice, c₁, hdue, hfire | ⟨c₂, hfire, h⟩⟩)
      · exact .guard (Nat.zero_le _) (.none c) hdue
      · exact .firing (Nat.succ_pos n) (.none c) hdue hfire
      · cases ih.1 h with
        | overflow hfires hlast => exact .overflow (.next hdue hfire hfires) hlast
        | guard hk hfires hlast => exact .guard (Nat.succ_le_succ hk) (.next hdue hfire hfires) hlast
        | firing hk hfires hlast hhalt =>
          exact .firing (Nat.succ_lt_succ hk) (.next hdue hfire hfires) hlast hhalt
    · intro hhalts
      cases hhalts with
      | overflow hfires hlast =>
        cases hfires with
        | next hdue hfire hrest => exact .inr ⟨_, _, hdue, .inr ⟨_, hfire, ih.2 (.overflow hrest hlast)⟩⟩
      | guard hk hfires hlast =>
        cases hfires with
        | none => exact .inl hlast
        | next hdue hfire hrest =>
          exact .inr ⟨_, _, hdue, .inr ⟨_, hfire, ih.2 (.guard (Nat.le_of_succ_le_succ hk) hrest hlast)⟩⟩
      | firing hk hfires hlast hhalt =>
        cases hfires with
        | none => exact .inr ⟨_, _, hlast, .inl hhalt⟩
        | next hdue hfire hrest =>
          exact .inr ⟨_, _, hdue, .inr ⟨_, hfire, ih.2 (.firing (Nat.lt_of_succ_lt_succ hk) hrest hlast hhalt)⟩⟩

/-! ## Own firings -/

theorem Region.Due.firedIn {choice : Choice σ γ} (h : r.Due choice c c') (path : String) :
    c'.firedIn path = c.firedIn path :=
  ((Region.due_spares c).of_ok (Region.due_eq_some.2 h)).firedIn

/-- Each of the rows is one of the region itself. -/
theorem Region.Fires.firedIn (hapart : r.Apart) (h : r.Fires setup k c c') :
    c'.firedIn r.data.path = c.firedIn r.data.path + k := by
  induction h with
  | none => rfl
  | next hdue hfire _ ih =>
    rw [ih, (Region.fire_counts hapart _ _).of_ok hfire, hdue.firedIn]
    omega

omit [DecidableEq σ] [Named σ] in
theorem Configuration.firedIn_noting_overflowed (c : Configuration σ γ δ) (path other : String) (limit : Nat) :
    (c.noting (.overflowed other limit)).firedIn path = c.firedIn path := by
  rw [Configuration.firedIn, Configuration.noting, Configuration.notes_note, List.countP_append]
  rfl

/-- However a chain is halted, no more rows of the region have fired than the limit allows. -/
theorem Region.Halts.firedIn {h : Halt} (hapart : r.Apart) (hhalts : r.Halts setup n c h c') :
    c'.firedIn r.data.path ≤ c.firedIn r.data.path + n := by
  cases hhalts with
  | overflow hfires hdue =>
    rw [Configuration.firedIn_noting_overflowed, hdue.firedIn, hfires.firedIn hapart]
  | guard hk hfires hdue =>
    rw [((Region.due_spares _).of_error hdue).1.firedIn, hfires.firedIn hapart]
    exact Nat.add_le_add_left hk _
  | firing hk hfires hdue hfire =>
    rw [((Region.fire_counts hapart _ _).of_error hfire).1, hdue.firedIn, hfires.firedIn hapart, Nat.add_assoc]
    exact Nat.add_le_add_left hk _

/-- An overflow of the region itself is one where as many rows have fired as the limit allows. -/
theorem Region.Halts.of_own_overflow {limit : Nat} (hapart : r.Apart)
    (h : r.Halts setup n c (.error (.completionOverflow r.data.path limit)) c') :
    ∃ choice c₁ c₂, r.Fires setup n c c₁ ∧ r.Due choice c₁ c₂ ∧
      c' = c₂.noting (.overflowed r.data.path setup.settings.maxCompletionChain) := by
  cases h with
  | overflow hfires hdue => exact ⟨_, _, _, hfires, hdue, rfl⟩
  | guard _ _ hdue => exact absurd rfl ((Region.due_spares _).of_error hdue).2
  | firing _ _ _ hfire => exact absurd rfl ((Region.fire_counts hapart _ _).of_error hfire).2

end Chains

/-! ## Looking for a row -/

/-- The region and the history are as they were. -/
structure Configuration.SameRegion (c c' : Configuration σ γ δ) : Prop where
  marking : c'.marking = c.marking
  history : c'.world.history = c.world.history

instance : IsPreorder (Configuration σ γ δ) Configuration.SameRegion where
  refl _ := ⟨rfl, rfl⟩
  trans _ _ _ h h' := ⟨h'.marking.trans h.marking, h'.history.trans h.history⟩

/-- The context is as it was. -/
def Configuration.SameContext (c c' : Configuration σ γ δ) : Prop := c'.world.context = c.world.context

instance : IsPreorder (Configuration σ γ δ) Configuration.SameContext where
  refl _ := rfl
  trans _ _ _ h h' := Eq.trans h' h

/-- However it goes on, the course ends in the state `s`. -/
def Course.EndsIn {κ : Type} (s : κ) : Course κ α → Prop
  | .done s' _ => s' = s
  | .panic s' _ => s' = s
  | .raise _ next => ∀ receipt, (next receipt).EndsIn s

/-- The guard leaves the context as it is; it may raise events. -/
def Guard.Borrows (g : Guard γ) : Prop := ∀ e s, ((g.check e).run s).EndsIn s

/-- All guards of the table are in `P`. -/
def RegionTable.GuardsIn (P : Guard γ → Prop) (t : RegionTable σ γ) : Prop :=
  ∀ row ∈ t.rows, ∀ g, row.guard = some g → P g

theorem Course.EndsIn.play {κ : Type} {s : κ} (x : Course κ α) (h : x.EndsIn s) (exchange : Exchange σ) :
    (x.play exchange).1.state = s := by
  induction x generalizing exchange with
  | done => exact h
  | panic => exact h
  | raise e next ih => exact ih _ (h _) _

theorem Turn.perform_keeps_region (f : Callback γ α) :
    Keeps Configuration.SameRegion (fun _ _ => True) (perform f : Turn σ γ δ α) :=
  Keeps.mono (perform_isQuiet f) (fun _ _ h => ⟨h.marking, h.history⟩) fun _ _ h => h

theorem Turn.perform_keeps_context {f : Callback γ α} (hf : ∀ s, (f s).EndsIn s) :
    Keeps Configuration.SameContext (fun _ _ => True) (perform f : Turn σ γ δ α) := by
  intro c
  have hplay := (hf c.world.context).play _ c.world.exchange
  unfold Ends perform performOn
  dsimp only
  generalize (f c.world.context).play c.world.exchange = played at hplay
  obtain ⟨⟨result, state⟩, x⟩ := played
  cases result with
  | ok a => exact hplay
  | error message => exact ⟨hplay, trivial⟩

section Rows

variable [DecidableEq σ] {e : Event} {path : String} {active : σ}
  {R : Configuration σ γ δ → Configuration σ γ δ → Prop} [IsPreorder _ R]

/-- What notes and calls of the guards keep, the search among the rows keeps. -/
theorem RegionTable.firstEnabled_keeps (hnote : ∀ n, Keeps R (fun _ _ => True) (note n : Turn σ γ δ Unit))
    {rows : List (Transition σ γ Nat)} (hrows : ∀ row ∈ rows,
      Keeps R (fun _ _ => True) (perform (row.canFire active e).run : Turn σ γ δ (Except Cause Bool)))
    (index : Nat) : Keeps R (fun _ _ => True) (firstEnabled path active e index rows : Turn σ γ δ _) := by
  induction rows generalizing index with
  | nil => exact Keeps.pure _
  | cons row rows ih =>
    rw [List.forall_mem_cons] at hrows
    have hask : Keeps R (fun _ _ => True) (ask path active e index row : Turn σ γ δ (Except Cause Bool)) := by
      unfold ask
      split
      · exact (hnote _).bind fun _ => hrows.1
      · exact hrows.1
    rw [firstEnabled]
    refine hask.bind fun verdict => ?_
    split
    · exact Keeps.pure _
    · exact Keeps.pure _
    · exact ih hrows.2 _

variable [Named σ] {table : RegionTable σ γ} {nodes : List (BuiltNode σ γ δ)}

/-- What notes and calls of the guards keep, the search for a row that is due keeps. -/
theorem Region.due_keeps (hnote : ∀ n, Keeps R (fun _ _ => True) (note n : Turn σ γ δ Unit))
    (hrows : ∀ row ∈ table.rows, ∀ s,
      Keeps R (fun _ _ => True) (perform (row.canFire s .completion).run : Turn σ γ δ (Except Cause Bool))) :
    Keeps R (fun _ _ => True) (Region.due table nodes) := by
  have hresolve (position : Nat) (s : σ) :
      Keeps R (fun _ _ => True) (table.resolve position s .completion : Turn σ γ δ (Option (Choice σ γ))) := by
    refine Keeps.bind (Keeps.bind (RegionTable.firstEnabled_keeps hnote (fun row hrow => hrows row hrow s) 0)
      fun outcome => ?_) fun _ => Keeps.pure _
    cases outcome with
    | ok found => exact Keeps.pure _
    | error cause => exact (hnote _).bind fun _ c => ⟨refl_of R c, trivial⟩
  intro c
  unfold Region.due
  simp only [ends_bind, ends_active]
  split
  · split
    · rw [ends_bind, ends_get]
      split
      · exact hresolve _ _ c
      · exact Keeps.pure _ c
    · exact Keeps.pure _ c
  · exact Keeps.pure _ c

/-- Looking for a row that is due leaves the region as it is. -/
theorem Region.due_keeps_region : Keeps Configuration.SameRegion (fun _ _ => True) (Region.due table nodes) :=
  Region.due_keeps (fun _ _ => ⟨rfl, rfl⟩) fun _ _ _ => perform_keeps_region _

/-- If no guard changes the context, looking for a row that is due does not. -/
theorem Region.due_keeps_context (hrows : table.GuardsIn Guard.Borrows) :
    Keeps Configuration.SameContext (fun _ _ => True) (Region.due table nodes) := by
  refine Region.due_keeps (fun _ _ => rfl) fun row hrow s => perform_keeps_context ?_
  unfold Transition.canFire
  split
  · split
    · exact hrows row hrow _ (by assumption) .completion
    · exact fun _ => rfl
  · exact fun _ => rfl

end Rows

/-! ## Looking again -/

theorem Turn.Answers.bind {U : Marking δ → Marking δ → Prop} (hU : Equivalence U) {β : Type} {g : γ}
    {x : Turn σ γ δ α} {f : α → Turn σ γ δ β} {a : α} {o : Option β} (hx : Answers U g x (some a))
    (hf : Answers U g (f a) o) : Answers U g (x >>= f) o := by
  cases o with
  | some b =>
    intro c hc
    rw [ends_bind]
    refine (hx c hc).mono (fun a' c₁ h₁ => ?_) fun _ _ h => h
    obtain ⟨rfl, huntouched⟩ := h₁
    have hcontext : c₁.world.context = g := huntouched.world.context.trans hc
    exact (hf c₁ hcontext).mono (fun _ _ h => ⟨h.1, huntouched.trans hU h.2⟩) fun _ _ h => h
  | none =>
    intro c hc
    rw [ends_bind]
    refine (hx c hc).mono (fun a' c₁ h₁ => ?_) fun _ _ h => h.elim
    obtain ⟨rfl, huntouched⟩ := h₁
    exact hf c₁ (huntouched.world.context.trans hc)

section Again

variable [DecidableEq σ] {e : Event} {path : String} {active : σ}

/-- What the search among the rows comes to depends on the context alone. -/
theorem RegionTable.firstEnabled_answers {U : Marking δ → Marking δ → Prop} (hU : Equivalence U) {g : γ}
    {rows : List (Transition σ γ Nat)} (hrows : ∀ row ∈ rows, ∀ g, row.guard = some g → g.ReadsOnly) (index : Nat) :
    ∃ o, Answers U g (firstEnabled path active e index rows) o := by
  induction rows generalizing index with
  | nil => exact ⟨some (.ok none), fun c _ => ⟨rfl, .refl hU c⟩⟩
  | cons row rows ih =>
    rw [List.forall_mem_cons] at hrows
    obtain ⟨verdict, hask⟩ : ∃ o, Answers U g (ask path active e index row : Turn σ γ δ (Except Cause Bool)) o :=
      ask_answers hU hrows.1 index
    rw [firstEnabled]
    cases verdict with
    | none =>
      refine ⟨none, fun c hc => ?_⟩
      rw [ends_bind]
      exact (hask c hc).mono (fun _ _ h => h.elim) fun _ _ h => h
    | some verdict =>
      have hpure (found : Except Cause (Option (Nat × Transition σ γ Nat))) :
          Answers U g (Pure.pure found : Turn σ γ δ _) (some found) := fun c _ => ⟨rfl, .refl hU c⟩
      cases verdict with
      | error cause => exact ⟨_, hask.bind hU (hpure (.error cause))⟩
      | ok fires =>
        cases fires with
        | true => exact ⟨_, hask.bind hU (hpure (.ok (some (index, row))))⟩
        | false =>
          obtain ⟨o, hrest⟩ := ih hrows.2 (index + 1)
          exact ⟨o, hask.bind hU hrest⟩

theorem RegionTable.resolve_eq_none [Named σ] {t : RegionTable σ γ} {position : Nat} {c c' : Configuration σ γ δ} :
    t.resolve position active e c = .ok none c' ↔ firstEnabled t.path active e 0 t.rows c = .ok (.ok none) c' := by
  constructor
  · intro h
    obtain ⟨found, c₁, hfound, h⟩ := bind_ok_iff.1 h
    obtain ⟨outcome, c₂, hsearch, hfound⟩ := bind_ok_iff.1 hfound
    cases found with
    | some found => cases h
    | none =>
      cases h
      cases outcome with
      | ok found =>
        cases hfound
        exact hsearch
      | error cause => cases hfound
  · intro h
    have hfound : orFail .guard t.path active e (firstEnabled t.path active e 0 t.rows) c = .ok none c' :=
      bind_ok_iff.2 ⟨.ok none, c', h, rfl⟩
    exact bind_ok_iff.2 ⟨none, c', hfound, rfl⟩

/-- Where no row was found, none is found again. -/
theorem RegionTable.resolve_again [Named σ] {t : RegionTable σ γ} {position : Nat} {c c' : Configuration σ γ δ}
    (hrows : t.GuardsIn Guard.ReadsOnly)
    (h : t.resolve position active e c = .ok none c') : ∃ c'', t.resolve position active e c' = .ok none c'' := by
  rw [resolve_eq_none] at h
  obtain ⟨o, hanswers⟩ : ∃ o, Answers Eq c.world.context (firstEnabled t.path active e 0 t.rows : Turn σ γ δ _) o :=
    firstEnabled_answers ⟨fun _ => rfl, Eq.symm, Eq.trans⟩ hrows 0
  cases o with
  | none => exact ((hanswers c rfl).of_ok h).elim
  | some found =>
    obtain ⟨rfl, huntouched⟩ := (hanswers c rfl).of_ok h
    have hagain := hanswers c' huntouched.world.context
    cases hsearch : firstEnabled t.path active e 0 t.rows c' with
    | ok found c'' =>
      obtain ⟨rfl, -⟩ := hagain.of_ok hsearch
      exact ⟨c'', resolve_eq_none.2 hsearch⟩
    | error halt c'' => exact (hagain.of_error hsearch).elim

/-! ## Regions at rest -/

variable [Named σ] {r : BuiltRegion σ γ δ} {c c' : Configuration σ γ δ}

/-- The region is stopped or final, or its active state is not complete, or no row of the table is chosen for that state
on completion. -/
def Region.Exhausted (r : BuiltRegion σ γ δ) (c : Configuration σ γ δ) : Prop :=
  ∀ i n, c.marking.active = .at i → r.nodes[i]? = some n → n.isComplete i c.marking = true →
    ∃ c', r.data.resolve i n.data.id .completion c = .ok none c'

/-- Where no row was due and the guards only read, none is due again. -/
theorem Region.exhausted_of_due (hrows : r.data.GuardsIn Guard.ReadsOnly)
    (h : Region.due r.data r.nodes c = .ok none c') : r.Exhausted c' := by
  intro i n hactive hn hcomplete
  have hmarking : c'.marking = c.marking := (Region.due_keeps_region c).of_ok h |>.marking
  rw [hmarking] at hactive hcomplete
  rw [Region.due_of_complete hactive hn hcomplete] at h
  exact RegionTable.resolve_again hrows h

end Again

/-! ## Settling -/

section Settling

variable [DecidableEq σ] [Named σ] [Inhabited δ] {b : Blueprint σ γ δ} {m : Machine σ γ δ}

/-- **Settling is exact about its bound.** Let a region of a machine settle, whatever its marking and the context are and
whatever the callbacks do. It fires at most as many completion rows of its own as the limit allows, however it ends.

If it ends well, it last found no row that is due, in the marking and, as far as the guards leave it alone, the context
that it ends with; and if the guards only read, no row is due there.

It reports an overflow of its own if and only if as many rows as the limit allows have fired and one more is due, and
then its marking and the history are as the last of these rows has left them.

So a dispatch of one event does no more than the effort of the machine, which depends on its regions and its limit. -/
theorem settling_is_exact (hm : b.Reaches m) :
    (∀ r ∈ Region.preorderOfRegions m.chart.regions, ∀ c : Configuration σ γ δ,
      Ends (Region.settle m.chart.setup r.data r.nodes) c
        (fun _ c' => ∃ k ≤ m.settings.maxCompletionChain, ∃ c₁, r.Fires m.chart.setup k c c₁ ∧
          c'.firedIn r.data.path = c.firedIn r.data.path + k ∧
          Region.due r.data r.nodes c₁ = .ok none c' ∧ c₁.SameRegion c' ∧
          (r.data.GuardsIn Guard.Borrows → c₁.SameContext c') ∧ (r.data.GuardsIn Guard.ReadsOnly → r.Exhausted c'))
        (fun h c' => r.Halts m.chart.setup m.settings.maxCompletionChain c h c' ∧
          c'.firedIn r.data.path ≤ c.firedIn r.data.path + m.settings.maxCompletionChain) ∧
      ∀ c', Region.settle m.chart.setup r.data r.nodes c =
          .error (.error (.completionOverflow r.data.path m.settings.maxCompletionChain)) c' ↔
        ∃ choice c₁ c₂, r.Fires m.chart.setup m.settings.maxCompletionChain c c₁ ∧ r.Due choice c₁ c₂ ∧
          c' = c₂.noting (.overflowed r.data.path m.settings.maxCompletionChain) ∧ c₁.SameRegion c' ∧
          c'.firedIn r.data.path = c.firedIn r.data.path + m.settings.maxCompletionChain) ∧
    ∀ e, Costs m.chart.effort (m.chart.handle e) := by
  refine ⟨fun r hr c => ⟨?_, fun c' => ⟨fun h => ?_, ?_⟩⟩, m.chart.handle_costs⟩
  · have hapart := hm.apart hr
    unfold Ends
    cases hsettle : Region.settle m.chart.setup r.data r.nodes c with
    | ok a c' =>
      obtain ⟨k, hk, c₁, hfires, hlast⟩ := Region.chain_ok_iff.1 hsettle
      have hsame := (Region.due_keeps_region c₁).of_ok hlast
      have hcount : c'.firedIn r.data.path = c.firedIn r.data.path + k := by
        rw [((Region.due_spares c₁).of_ok hlast).firedIn, hfires.firedIn hapart]
      exact ⟨k, hk, c₁, hfires, hcount, hlast, hsame, fun hrows => (Region.due_keeps_context hrows c₁).of_ok hlast,
        fun hrows => Region.exhausted_of_due hrows hlast⟩
    | error h c' =>
      have hhalts := Region.chain_error_iff.1 hsettle
      exact ⟨hhalts, hhalts.firedIn hapart⟩
  · obtain ⟨choice, c₁, c₂, hfires, hdue, rfl⟩ := (Region.chain_error_iff.1 h).of_own_overflow (hm.apart hr)
    have hsame := (Region.due_keeps_region c₁).of_ok (Region.due_eq_some.2 hdue)
    refine ⟨choice, c₁, c₂, hfires, hdue, rfl, ⟨hsame.marking, hsame.history⟩, ?_⟩
    rw [Configuration.firedIn_noting_overflowed, hdue.firedIn, hfires.firedIn (hm.apart hr)]
    rfl
  · rintro ⟨choice, c₁, c₂, hfires, hdue, rfl, -⟩
    exact Region.chain_error_iff.2 (.overflow hfires hdue)

end Settling

namespace Lamp

/-- A completion row with a guard that lets it fire. -/
def pulse {τ : Type} (source : Lamp) (target : Target τ) : Transition Lamp Unit τ :=
  { completing source target with guard := some (.when fun _ => pure true) }

/-- A light that goes dim and bright by itself, at most twice in a row. -/
def pulsingBlueprint : Blueprint Lamp Unit Unit where
  regions := [Declaration.new "light" |>.initial dim |>.transition (pulse dim (.state bright))
    |>.transition (pulse bright (.state dim))]
  setup := { settings := { autoStart := false, maxCompletionChain := 2 } }

/-- That light before it is started. -/
def pulsing : Machine Lamp Unit Unit where
  chart := ⟨[lightRegion [pulse dim (.state 1), pulse bright (.state 0)]], pulsingBlueprint.setup⟩
  configuration := (withNotes [.stateMade bright, .stateMade dim, .contextMade] []).configuration

theorem reaches_pulsing : pulsingBlueprint.Reaches pulsing := .built 0 (pure () : Callback Unit Unit) rfl

end Lamp

/-- The light that goes dim and bright by itself overflows when it has done so twice. -/
theorem settling_is_exact_light :
    let light := Lamp.lightRegion [Lamp.pulse .dim (.state 1), Lamp.pulse .bright (.state 0)]
    Lamp.pulsingBlueprint.Reaches Lamp.pulsing ∧ light ∈ Region.preorderOfRegions Lamp.pulsing.chart.regions ∧
      ∃ choice c₁ c₂ c', Region.settle Lamp.pulsing.chart.setup light.data light.nodes (Lamp.untold (.at 0)) =
          .error (.error (.completionOverflow "light" 2)) c' ∧
        light.Fires Lamp.pulsing.chart.setup 2 (Lamp.untold (.at 0)) c₁ ∧ light.Due choice c₁ c₂ ∧
        c₁.SameRegion c' ∧ c'.firedIn "light" = 2 := by
  intro light
  have hlight : light ∈ Region.preorderOfRegions Lamp.pulsing.chart.regions := .head _
  have hsettle := Machine.eq_of_run_error (m := { Lamp.pulsing with configuration := Lamp.untold (.at 0) })
    (x := Region.settle Lamp.pulsing.chart.setup light.data light.nodes)
    (h := .error (.completionOverflow "light" 2)) (by decide +kernel)
  obtain ⟨choice, c₁, c₂, hfires, hdue, -, hsame, hfired⟩ :=
    (((settling_is_exact Lamp.reaches_pulsing).1 light hlight (Lamp.untold (.at 0))).2 _).1 hsettle
  exact ⟨Lamp.reaches_pulsing, hlight, choice, c₁, c₂, _, hsettle, hfires, hdue, hsame, hfired⟩

end Statechart
