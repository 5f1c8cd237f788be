import Statechart.Proofs.Acceptance
import Statechart.Proofs.Calls

/-!
# The first row that fires

Choosing a row goes through the table from the top. A row that does not match is passed, and so is one whose guard is
false; the first other row decides. So the guards that are evaluated are those of the matching rows up to the one that
decides.

* `Source.Matches`, `Trigger.Matches`, `Transition.Matches` : which active states and events a row is for;
* `RegionTable.guarded`, `RegionTable.Refuses` : the matching rows with a guard up to a row, and their guards being
  false one after the other;
* `RegionTable.Rejects`, `RegionTable.Reaches` : all rows up to a row are passed, and the next one matches;
* `RegionTable.firstEnabled_ends`, `RegionTable.firstEnabled_of_rejects` : the search, forwards and backwards;
* `first_match_wins`.
-/

set_option autoImplicit false

namespace Statechart

open Turn

variable {σ γ δ : Type}

/-! ## Matching -/

/-- The active states that a source stands for. -/
def Source.Matches : Source σ → σ → Prop
  | state s, active => active = s
  | any, _ => True
  | anyOf states, active => active ∈ states
  | anyBut states, active => active ∉ states

/-- The formula of a trigger is true of a kind of event. The completion trigger counts as false. -/
def Trigger.Holds : Trigger → EventKind → Prop
  | is expected, k => k = expected
  | any, _ => True
  | completion, _ => False
  | not t, k => ¬t.Holds k
  | and t u, k => t.Holds k ∧ u.Holds k
  | or t u, k => t.Holds k ∨ u.Holds k

/-- Completion is matched by the completion trigger itself, and every other event by what the formula says. -/
def Trigger.Matches (t : Trigger) (e : Event) : Prop :=
  (e = .completion ∧ t = .completion) ∨ (e ≠ .completion ∧ t.Holds e.kind)

/-- Source and trigger of a row match. -/
structure Transition.Matches {τ : Type} (row : Transition σ γ τ) (active : σ) (e : Event) : Prop where
  source : row.source.Matches active
  trigger : row.trigger.Matches e

theorem Trigger.acceptsKind_iff (t : Trigger) (k : EventKind) : t.acceptsKind k = true ↔ t.Holds k := by
  induction t with
  | is expected => simp [acceptsKind, Holds, eq_comm]
  | any => simp [acceptsKind, Holds]
  | completion => simp [acceptsKind, Holds]
  | not t ih => rw [acceptsKind, Holds, ← ih, Bool.not_eq_true', Bool.not_eq_true]
  | and t u iht ihu => rw [acceptsKind, Holds, ← iht, ← ihu, Bool.and_eq_true]
  | or t u iht ihu => rw [acceptsKind, Holds, ← iht, ← ihu, Bool.or_eq_true]

theorem Trigger.accepts_iff (t : Trigger) (e : Event) : t.accepts e = true ↔ t.Matches e := by
  unfold accepts Matches
  by_cases he : e = .completion
  · simp [he, isCompletion, Event.isCompletion, Event.kind]
  · have hexternal : e.isCompletion = false := by
      rw [← Bool.not_eq_true, Event.isCompletion_iff]
      exact he
    simp [he, hexternal, acceptsKind_iff]

section Matches

variable [DecidableEq σ]

theorem Source.accepts_iff (source : Source σ) (active : σ) : source.accepts active = true ↔ source.Matches active := by
  cases source with
  | state s => exact decide_eq_true_iff.trans eq_comm
  | any => exact iff_of_true rfl trivial
  | anyOf states => exact List.contains_iff_mem
  | anyBut states => rw [accepts, Bool.not_eq_true', ← Bool.not_eq_true, List.contains_iff_mem, Matches]

theorem Transition.concerns_iff {τ : Type} (row : Transition σ γ τ) (active : σ) (e : Event) :
    row.concerns active e = true ↔ row.Matches active e := by
  rw [concerns, Bool.and_eq_true, Source.accepts_iff, Trigger.accepts_iff]
  exact ⟨fun h => ⟨h.1, h.2⟩, fun h => ⟨h.source, h.trigger⟩⟩

instance {τ : Type} (row : Transition σ γ τ) (active : σ) (e : Event) : Decidable (row.Matches active e) :=
  decidable_of_iff _ (row.concerns_iff active e)

end Matches

/-- The note of an evaluation of a guard. -/
def Note.isGuard : Note σ → Bool
  | .guard .. => true
  | _ => false

theorem Note.not_isGuard_of_isSilent {n : Note σ} (h : n.isSilent = true) : ¬n.isGuard = true := by
  cases n <;> simp_all [isSilent, isGuard]

/-- The guard reads the context and the event and comes to a verdict, and does nothing else. -/
def Guard.Yields (g : Guard γ) (e : Event) (s : γ) (verdict : Except Cause Bool) : Prop :=
  (g.check e).run s = .done s verdict

namespace RegionTable

variable [DecidableEq σ] (t : RegionTable σ γ) (active : σ) (e : Event)

/-! ## Rows that are passed -/

/-- Evaluates the guard of row `j`. -/
def evaluate (j : Nat) (g : Guard γ) : Turn σ γ δ (Except Cause Bool) := do
  Turn.note (.guard t.path active j e)
  Turn.perform (g.check e).run

/-- The rows before row `k` that match and have a guard. -/
def guarded (k : Nat) : List Nat :=
  (List.range k).filter fun j => t.rows[j]?.any fun row => decide (row.Matches active e) && row.guard.isSome

/-- The guards of some rows are evaluated one after the other, each where the one before it left off, and are false. -/
inductive Refuses : List Nat → Configuration σ γ δ → Configuration σ γ δ → Prop where
  | nil (c : Configuration σ γ δ) : Refuses [] c c
  | cons {j : Nat} {js : List Nat} {row : Transition σ γ Nat} {g : Guard γ} {c c₁ c' : Configuration σ γ δ} :
    t.rows[j]? = some row → row.guard = some g → t.evaluate active e j g c = .ok (.ok false) c₁ →
      Refuses js c₁ c' → Refuses (j :: js) c c'

/-- All rows before row `k` are passed: the guards of those that match are evaluated, all of them false. -/
structure Rejects (k : Nat) (c c' : Configuration σ γ δ) : Prop where
  /-- Those that match have guards. -/
  guarded (j : Nat) (row : Transition σ γ Nat) : j < k → t.rows[j]? = some row → row.Matches active e →
    row.guard.isSome = true
  refuses : t.Refuses active e (t.guarded active e k) c c'

/-- All rows before row `i` are passed, and that row matches. -/
structure Reaches (i : Nat) (row : Transition σ γ Nat) (c c' : Configuration σ γ δ) : Prop where
  stands : t.rows[i]? = some row
  passed : t.Rejects active e i c c'
  hit : row.Matches active e

variable {t active e} {row : Transition σ γ Nat} {g : Guard γ} {js js' : List Nat} {j k : Nat}
  {c c₁ c' : Configuration σ γ δ}

omit [DecidableEq σ] in
theorem refuses_append_iff : t.Refuses active e (js ++ js') c c' ↔
    ∃ c₁, t.Refuses active e js c c₁ ∧ t.Refuses active e js' c₁ c' := by
  constructor
  · intro h
    induction js generalizing c with
    | nil => exact ⟨c, .nil c, h⟩
    | cons j js ih =>
      cases h with
      | cons hrow hguard hfalse hrest =>
        obtain ⟨c₂, hjs, hjs'⟩ := ih hrest
        exact ⟨c₂, .cons hrow hguard hfalse hjs, hjs'⟩
  · rintro ⟨c₁, h, h'⟩
    induction h with
    | nil => exact h'
    | cons hrow hguard hfalse _ ih => exact .cons hrow hguard hfalse (ih h')

omit [DecidableEq σ] in
theorem refuses_singleton_iff (hrow : t.rows[j]? = some row) (hguard : row.guard = some g) :
    t.Refuses active e [j] c c' ↔ t.evaluate active e j g c = .ok (.ok false) c' := by
  constructor
  · intro h
    cases h with
    | cons hrow' hguard' hfalse hrest =>
      obtain rfl := Option.some.inj (hrow.symm.trans hrow')
      obtain rfl := Option.some.inj (hguard.symm.trans hguard')
      cases hrest
      exact hfalse
  · exact fun hfalse => .cons hrow hguard hfalse (.nil c')

theorem guarded_succ (hrow : t.rows[k]? = some row) : t.guarded active e (k + 1) =
    t.guarded active e k ++ if row.Matches active e ∧ row.guard.isSome = true then [k] else [] := by
  unfold guarded
  rw [List.range_succ, List.filter_append, List.filter_cons, hrow]
  simp

theorem rejects_zero (c : Configuration σ γ δ) : t.Rejects active e 0 c c :=
  ⟨fun _ _ hj => absurd hj (Nat.not_lt_zero _), .nil c⟩

/-! ## Asking a row -/

theorem ask_of_no_match (h : ¬row.Matches active e) : ask t.path active e k row c = .ok (.ok false) c :=
  ask_of_not_concerns (by rwa [← Bool.not_eq_true, Transition.concerns_iff]) k

theorem ask_of_no_guard (h : row.Matches active e) (hguard : row.guard = none) :
    ask t.path active e k row c = .ok (.ok true) c :=
  ask_of_unguarded ((row.concerns_iff active e).2 h) hguard k

/-- Asking a row that matches is evaluating its guard. -/
theorem ask_of_guard (h : row.Matches active e) (hguard : row.guard = some g) :
    ask t.path active e k row c = t.evaluate active e k g c := by
  have hconcerns := (row.concerns_iff active e).2 h
  unfold ask evaluate Transition.canFire
  rw [hconcerns, hguard]
  rfl

omit [DecidableEq σ] in
/-- That rows which match have guards is asked of one more row. -/
theorem guarded_before_succ_iff (hrow : t.rows[k]? = some row) :
    (∀ (j : Nat) (row : Transition σ γ Nat), j < k + 1 → t.rows[j]? = some row → row.Matches active e →
        row.guard.isSome = true) ↔
      (∀ (j : Nat) (row : Transition σ γ Nat), j < k → t.rows[j]? = some row → row.Matches active e →
        row.guard.isSome = true) ∧ (row.Matches active e → row.guard.isSome = true) := by
  constructor
  · exact fun h => ⟨fun j row hj => h j row (Nat.lt_succ_of_lt hj), h k row (Nat.lt_succ_self k) hrow⟩
  · rintro ⟨hbefore, hlast⟩ j row' hj hrow' hmatches
    obtain hj | rfl := Nat.lt_succ_iff_lt_or_eq.1 hj
    · exact hbefore j row' hj hrow' hmatches
    · obtain rfl := Option.some.inj (hrow.symm.trans hrow')
      exact hlast hmatches

/-- One more row is passed if it says so when it is asked. -/
theorem rejects_succ_iff (hrow : t.rows[k]? = some row) : t.Rejects active e (k + 1) c c' ↔
    ∃ c₁, t.Rejects active e k c c₁ ∧ ask t.path active e k row c₁ = .ok (.ok false) c' := by
  by_cases hmatches : row.Matches active e
  · cases hguard : row.guard with
    | none =>
      -- a row that matches without a guard is not passed
      refine iff_of_false (fun h => ?_) ?_
      · have hsome := ((guarded_before_succ_iff hrow).1 h.guarded).2 hmatches
        rw [hguard] at hsome
        cases hsome
      · rintro ⟨c₁, -, hask⟩
        rw [ask_of_no_guard hmatches hguard] at hask
        cases hask
    | some g =>
      have hguarded : t.guarded active e (k + 1) = t.guarded active e k ++ [k] := by
        rw [guarded_succ hrow, if_pos ⟨hmatches, by rw [hguard]; rfl⟩]
      have hasks (c₁ : Configuration σ γ δ) : ask t.path active e k row c₁ = .ok (.ok false) c' ↔
          t.Refuses active e [k] c₁ c' := by
        rw [ask_of_guard hmatches hguard, refuses_singleton_iff hrow hguard]
      simp only [hasks]
      constructor
      · intro h
        obtain ⟨c₁, hbefore, hlast⟩ := refuses_append_iff.1 (hguarded ▸ h.refuses)
        exact ⟨c₁, ⟨((guarded_before_succ_iff hrow).1 h.guarded).1, hbefore⟩, hlast⟩
      · rintro ⟨c₁, h, hlast⟩
        refine ⟨(guarded_before_succ_iff hrow).2 ⟨h.guarded, fun _ => by rw [hguard]; rfl⟩, ?_⟩
        exact hguarded ▸ refuses_append_iff.2 ⟨c₁, h.refuses, hlast⟩
  · have hguarded : t.guarded active e (k + 1) = t.guarded active e k := by
      rw [guarded_succ hrow, if_neg fun h => hmatches h.1, List.append_nil]
    constructor
    · intro h
      exact ⟨c', ⟨((guarded_before_succ_iff hrow).1 h.guarded).1, hguarded ▸ h.refuses⟩, ask_of_no_match hmatches⟩
    · rintro ⟨c₁, h, hask⟩
      rw [ask_of_no_match hmatches] at hask
      cases hask
      exact ⟨(guarded_before_succ_iff hrow).2 ⟨h.guarded, fun h => absurd h hmatches⟩, hguarded ▸ h.refuses⟩

/-! ## The search -/

/-- The search goes on behind the rows that are passed. -/
theorem firstEnabled_of_rejects (hk : k ≤ t.rows.length) (h : t.Rejects active e k c c₁) :
    firstEnabled t.path active e 0 t.rows c = firstEnabled t.path active e k (t.rows.drop k) c₁ := by
  induction k generalizing c₁ with
  | zero =>
    obtain ⟨-, hrefuses⟩ := h
    cases hrefuses
    rfl
  | succ k ih =>
    obtain ⟨c₂, hbefore, hask⟩ := (rejects_succ_iff (List.getElem?_eq_getElem hk)).1 h
    rw [ih (Nat.le_of_succ_le hk) hbefore, List.drop_eq_getElem_cons hk, firstEnabled, bind_of_ok hask]

/-- All rows before row `i` are passed, and that row is asked and responds. -/
def Responds (t : RegionTable σ γ) (active : σ) (e : Event) (i : Nat) (row : Transition σ γ Nat)
    (c : Configuration σ γ δ) (answer : EStateM.Result Halt (Configuration σ γ δ) (Except Cause Bool)) : Prop :=
  ∃ c₁, t.rows[i]? = some row ∧ t.Rejects active e i c c₁ ∧ ask t.path active e i row c₁ = answer

/-- What the search comes to once the rows before row `k` are passed. -/
theorem firstEnabled_ends {c₀ : Configuration σ γ δ} (hk : k ≤ t.rows.length) (h : t.Rejects active e k c₀ c) :
    Ends (firstEnabled t.path active e k (t.rows.drop k)) c
      (fun outcome c' => match outcome with
        | .ok none => t.Rejects active e t.rows.length c₀ c'
        | .ok (some (i, row)) => t.Responds active e i row c₀ (.ok (.ok true) c')
        | .error cause => ∃ i row, t.Responds active e i row c₀ (.ok (.error cause) c'))
      fun halt c' => ∃ i row, t.Responds active e i row c₀ (.error halt c') := by
  -- on the rows that are left
  generalize hrest : t.rows.drop k = rest
  induction rest generalizing k c with
  | nil =>
    obtain rfl : k = t.rows.length := Nat.le_antisymm hk (List.drop_eq_nil_iff.1 hrest)
    exact h
  | cons row rest ih =>
    have hlt : k < t.rows.length := by
      by_contra hge
      rw [List.drop_eq_nil_of_le (Nat.le_of_not_lt hge)] at hrest
      cases hrest
    obtain ⟨hrow', hrest'⟩ := List.cons.inj ((List.drop_eq_getElem_cons hlt).symm.trans hrest)
    have hrow : t.rows[k]? = some row := by rw [List.getElem?_eq_getElem hlt, hrow']
    rw [firstEnabled, ends_bind]
    cases hask : ask t.path active e k row c with
    | error halt c₁ =>
      unfold Ends
      rw [hask]
      exact ⟨k, row, c, hrow, h, hask⟩
    | ok verdict c₁ =>
      rw [ends_of_ok hask]
      rcases verdict with cause | _ | _
      · exact ⟨k, row, c, hrow, h, hask⟩
      · exact ih hlt ((rejects_succ_iff hrow).2 ⟨c, h, hask⟩) hrest'
      · exact ⟨c, hrow, h, hask⟩

theorem firstEnabled_of_responds {i : Nat} {answer : EStateM.Result Halt (Configuration σ γ δ) (Except Cause Bool)}
    (h : t.Responds active e i row c answer) : firstEnabled t.path active e 0 t.rows c = match answer with
      | .ok (.ok true) c' => .ok (.ok (some (i, row))) c'
      | .ok (.ok false) c' => firstEnabled t.path active e (i + 1) (t.rows.drop (i + 1)) c'
      | .ok (.error cause) c' => .ok (.error cause) c'
      | .error halt c' => .error halt c' := by
  obtain ⟨c₁, hrow, hpassed, hask⟩ := h
  obtain ⟨hi, rfl⟩ := List.getElem?_eq_some_iff.1 hrow
  rw [firstEnabled_of_rejects (Nat.le_of_lt hi) hpassed, List.drop_eq_getElem_cons hi, firstEnabled]
  rcases answer with ⟨cause | _ | _, c'⟩ | ⟨halt, c'⟩
  · rw [bind_of_ok hask]
    rfl
  · rw [bind_of_ok hask]
  · rw [bind_of_ok hask]
    rfl
  · exact bind_eq_error.2 (.inl hask)

theorem firstEnabled_eq_some_iff {i : Nat} : firstEnabled t.path active e 0 t.rows c = .ok (.ok (some (i, row))) c' ↔
    t.Responds active e i row c (.ok (.ok true) c') :=
  ⟨fun h => (firstEnabled_ends (Nat.zero_le _) (rejects_zero c)).of_ok h, fun h => firstEnabled_of_responds h⟩

theorem firstEnabled_eq_none_iff : firstEnabled t.path active e 0 t.rows c = .ok (.ok none) c' ↔
    t.Rejects active e t.rows.length c c' := by
  refine ⟨fun h => (firstEnabled_ends (Nat.zero_le _) (rejects_zero c)).of_ok h, fun h => ?_⟩
  rw [firstEnabled_of_rejects (Nat.le_refl _) h, List.drop_length]
  rfl

theorem firstEnabled_eq_cause_iff {cause : Cause} : firstEnabled t.path active e 0 t.rows c = .ok (.error cause) c' ↔
    ∃ i row, t.Responds active e i row c (.ok (.error cause) c') := by
  refine ⟨fun h => (firstEnabled_ends (Nat.zero_le _) (rejects_zero c)).of_ok h, ?_⟩
  rintro ⟨i, row, h⟩
  exact firstEnabled_of_responds h

theorem firstEnabled_eq_halt_iff {halt : Halt} : firstEnabled t.path active e 0 t.rows c = .error halt c' ↔
    ∃ i row, t.Responds active e i row c (.error halt c') := by
  refine ⟨fun h => (firstEnabled_ends (Nat.zero_le _) (rejects_zero c)).of_error h, ?_⟩
  rintro ⟨i, row, h⟩
  exact firstEnabled_of_responds h

/-- A row that responds with anything but false matches, and does so with what its guard says if it has one. -/
theorem responds_iff {i : Nat} {answer : EStateM.Result Halt (Configuration σ γ δ) (Except Cause Bool)}
    (hanswer : ∀ c', answer ≠ .ok (.ok false) c') : t.Responds active e i row c answer ↔
      ∃ c₁, t.Reaches active e i row c c₁ ∧ ((row.guard = none ∧ answer = .ok (.ok true) c₁) ∨
        ∃ g, row.guard = some g ∧ t.evaluate active e i g c₁ = answer) := by
  constructor
  · rintro ⟨c₁, hrow, hpassed, rfl⟩
    have hhit : row.Matches active e := by
      by_contra hmiss
      exact hanswer c₁ (ask_of_no_match hmiss)
    refine ⟨c₁, ⟨hrow, hpassed, hhit⟩, ?_⟩
    cases hguard : row.guard with
    | none => exact .inl ⟨rfl, ask_of_no_guard hhit hguard⟩
    | some g => exact .inr ⟨g, rfl, (ask_of_guard hhit hguard).symm⟩
  · rintro ⟨c₁, ⟨hrow, hpassed, hhit⟩, ⟨hguard, rfl⟩ | ⟨g, hguard, rfl⟩⟩
    · exact ⟨c₁, hrow, hpassed, ask_of_no_guard hhit hguard⟩
    · exact ⟨c₁, hrow, hpassed, ask_of_guard hhit hguard⟩

theorem responds_true_iff {i : Nat} : t.Responds active e i row c (.ok (.ok true) c') ↔
    ∃ c₁, t.Reaches active e i row c c₁ ∧ ((row.guard = none ∧ c' = c₁) ∨
      ∃ g, row.guard = some g ∧ t.evaluate active e i g c₁ = .ok (.ok true) c') := by
  rw [responds_iff (by simp)]
  simp

/-- Only a guard fails or panics. -/
theorem responds_fault_iff {i : Nat} {answer : EStateM.Result Halt (Configuration σ γ δ) (Except Cause Bool)}
    (hanswer : ∀ v c', answer ≠ .ok (.ok v) c') : t.Responds active e i row c answer ↔
      ∃ g c₁, t.Reaches active e i row c c₁ ∧ row.guard = some g ∧ t.evaluate active e i g c₁ = answer := by
  rw [responds_iff (hanswer false)]
  constructor
  · rintro ⟨c₁, hreaches, ⟨-, htrue⟩ | ⟨g, hguard, hg⟩⟩
    · exact absurd htrue (hanswer true c₁)
    · exact ⟨g, c₁, hreaches, hguard, hg⟩
  · rintro ⟨g, c₁, hreaches, hguard, hg⟩
    exact ⟨c₁, hreaches, .inr ⟨g, hguard, hg⟩⟩

/-! ## Which guards are evaluated -/

omit [DecidableEq σ] in
/-- The note of the guard, and what becomes of the events that it raises. -/
theorem evaluate_writes (t : RegionTable σ γ) (active : σ) (e : Event) (j : Nat) (g : Guard γ)
    (c : Configuration σ γ δ) :
    Ends (t.evaluate active e j g) c
      (fun _ c' => ∃ l, c.Writes l c' ∧ l.filter Note.isGuard = [.guard t.path active j e])
      fun _ c' => ∃ l, c.Writes l c' ∧ l.filter Note.isGuard = [.guard t.path active j e] := by
  have hwrites {c₁ c' : Configuration σ γ δ} {n : Note σ} (hn : n.isGuard = true) (h : c.Writes [n] c₁)
      (hfollows : c₁.Follows (fun n => n.isSilent = true) c') :
      ∃ l, c.Writes l c' ∧ l.filter Note.isGuard = [n] := by
    obtain ⟨l, hl, hsilent⟩ := hfollows.writes
    refine ⟨[n] ++ l, h.trans hl, ?_⟩
    rw [List.filter_append, List.filter_eq_nil_iff.2 fun n hn => Note.not_isGuard_of_isSilent (hsilent n hn)]
    simp [hn]
  unfold evaluate
  rw [ends_bind, ends_note]
  have hnoted := c.writes_note (.guard t.path active j e)
  refine (perform_inert (fun _ => id) (g.check e).run _).mono (fun _ c' h => ?_) fun _ c' h => ?_
  · exact hwrites rfl hnoted h.follows
  · exact hwrites rfl hnoted h.1.follows

/-- Going by the notes, the guards that were evaluated are those of the matching rows before row `k`, each once, in the
order of the table. -/
def Evaluated (t : RegionTable σ γ) (active : σ) (e : Event) (k : Nat) (c c' : Configuration σ γ δ) : Prop :=
  ∃ l, c.Writes l c' ∧ l.filter Note.isGuard = (t.guarded active e k).map fun j => .guard t.path active j e

/-- Asking one row more evaluates its guard, if it matches and has one. -/
theorem Evaluated.ask (h : t.Evaluated active e k c c₁) (hrow : t.rows[k]? = some row) :
    Ends (ask t.path active e k row) c₁ (fun _ c' => t.Evaluated active e (k + 1) c c')
      fun _ c' => t.Evaluated active e (k + 1) c c' := by
  obtain ⟨l, hl, hguards⟩ := h
  unfold Evaluated
  rw [guarded_succ hrow]
  by_cases hhit : row.Matches active e
  · cases hguard : row.guard with
    | none =>
      rw [if_neg (by simp), List.append_nil, ends_of_ok (ask_of_no_guard hhit hguard)]
      exact ⟨l, hl, hguards⟩
    | some g =>
      rw [if_pos ⟨hhit, rfl⟩]
      have hjoined {c' : Configuration σ γ δ}
          (h : ∃ l, c₁.Writes l c' ∧ l.filter Note.isGuard = [.guard t.path active k e]) :
          ∃ l, c.Writes l c' ∧ l.filter Note.isGuard =
            (t.guarded active e k ++ [k]).map fun j => .guard t.path active j e := by
        obtain ⟨l', hl', hguard'⟩ := h
        exact ⟨l ++ l', hl.trans hl', by rw [List.filter_append, hguards, hguard', List.map_append]; rfl⟩
      unfold Ends
      rw [ask_of_guard hhit hguard]
      exact (evaluate_writes t active e k g c₁).mono (fun _ _ => hjoined) fun _ _ => hjoined
  · rw [if_neg fun h => hhit h.1, List.append_nil, ends_of_ok (ask_of_no_match hhit)]
    exact ⟨l, hl, hguards⟩

theorem Rejects.evaluated (hk : k ≤ t.rows.length) (h : t.Rejects active e k c c') : t.Evaluated active e k c c' := by
  induction k generalizing c' with
  | zero =>
    obtain ⟨-, hrefuses⟩ := h
    cases hrefuses
    exact ⟨[], .refl c, rfl⟩
  | succ k ih =>
    have hrow := List.getElem?_eq_getElem hk
    obtain ⟨c₁, hbefore, hask⟩ := (rejects_succ_iff hrow).1 h
    exact ((ih (Nat.le_of_succ_le hk) hbefore).ask hrow).of_ok hask

theorem Responds.evaluated_of_ok {i : Nat} {verdict : Except Cause Bool}
    (h : t.Responds active e i row c (.ok verdict c')) : t.Evaluated active e (i + 1) c c' := by
  obtain ⟨c₁, hrow, hpassed, hask⟩ := h
  obtain ⟨hi, -⟩ := List.getElem?_eq_some_iff.1 hrow
  exact ((hpassed.evaluated (Nat.le_of_lt hi)).ask hrow).of_ok hask

theorem Responds.evaluated_of_error {i : Nat} {halt : Halt} (h : t.Responds active e i row c (.error halt c')) :
    t.Evaluated active e (i + 1) c c' := by
  obtain ⟨c₁, hrow, hpassed, hask⟩ := h
  obtain ⟨hi, -⟩ := List.getElem?_eq_some_iff.1 hrow
  exact ((hpassed.evaluated (Nat.le_of_lt hi)).ask hrow).of_error hask

/-- A note that is none of a guard. -/
theorem Evaluated.noting {n : Note σ} (hn : n.isGuard = false) (h : t.Evaluated active e k c c') :
    t.Evaluated active e k c (c'.noting n) := by
  obtain ⟨l, hl, hguards⟩ := h
  exact ⟨l ++ [n], hl.trans (c'.writes_note n), by rw [List.filter_append, hguards]; simp [hn]⟩

/-! ## Guards that only read -/

/-- The guards of the matching rows come to the given verdicts. -/
def Reads (t : RegionTable σ γ) (active : σ) (e : Event) (s : γ) (verdict : Nat → Except Cause Bool) : Prop :=
  ∀ j (row : Transition σ γ Nat) (g : Guard γ), t.rows[j]? = some row → row.Matches active e → row.guard = some g →
    g.Yields e s (verdict j)

/-- Row `j` does not match, or its guard is false. -/
def Passes (t : RegionTable σ γ) (active : σ) (e : Event) (verdict : Nat → Except Cause Bool) (j : Nat) : Prop :=
  ∀ row, t.rows[j]? = some row → ¬row.Matches active e ∨ (row.guard.isSome = true ∧ verdict j = .ok false)

section Reads

variable {s : γ} {verdict : Nat → Except Cause Bool}

omit [DecidableEq σ] in
theorem evaluate_of_yields {v : Except Cause Bool} (hg : g.Yields e c.world.context v) :
    t.evaluate active e j g c = .ok v (c.noting (.guard t.path active j e)) := by
  have hnoted : (note (.guard t.path active j e) : Turn σ γ δ Unit) c = .ok () (c.noting (.guard t.path active j e)) :=
    rfl
  rw [evaluate, bind_of_ok hnoted, perform]
  exact performOn_of_done hg

/-- Where guards only read, passing rows leaves the context as it is. -/
theorem Rejects.passes (hreads : t.Reads active e c.world.context verdict) (hk : k ≤ t.rows.length)
    (h : t.Rejects active e k c c') :
    c'.world.context = c.world.context ∧ ∀ j < k, t.Passes active e verdict j := by
  induction k generalizing c' with
  | zero =>
    obtain ⟨-, hrefuses⟩ := h
    cases hrefuses
    exact ⟨rfl, fun _ hj => absurd hj (Nat.not_lt_zero _)⟩
  | succ k ih =>
    have hrow := List.getElem?_eq_getElem hk
    obtain ⟨c₁, hbefore, hask⟩ := (rejects_succ_iff hrow).1 h
    obtain ⟨hcontext, hpasses⟩ := ih (Nat.le_of_succ_le hk) hbefore
    have hlast : c'.world.context = c.world.context ∧ t.Passes active e verdict k := by
      unfold Passes
      simp only [hrow, Option.some.injEq, forall_eq']
      by_cases hhit : t.rows[k].Matches active e
      · cases hguard : t.rows[k].guard with
        | none =>
          rw [ask_of_no_guard hhit hguard] at hask
          cases hask
        | some g =>
          have hg := hreads k _ g hrow hhit hguard
          rw [← hcontext] at hg
          obtain ⟨hfalse, rfl⟩ := EStateM.Result.ok.inj
            ((evaluate_of_yields hg).symm.trans ((ask_of_guard hhit hguard).symm.trans hask))
          exact ⟨hcontext, .inr ⟨rfl, hfalse⟩⟩
      · rw [ask_of_no_match hhit] at hask
        cases hask
        exact ⟨hcontext, .inl hhit⟩
    refine ⟨hlast.1, fun j hj => ?_⟩
    obtain hj | rfl := Nat.lt_succ_iff_lt_or_eq.1 hj
    · exact hpasses j hj
    · exact hlast.2

/-- Where guards only read, rows can be passed if each of them by itself can. -/
theorem exists_rejects_of_passes (hreads : t.Reads active e c.world.context verdict) (hk : k ≤ t.rows.length)
    (h : ∀ j < k, t.Passes active e verdict j) :
    ∃ c', t.Rejects active e k c c' ∧ c'.world.context = c.world.context := by
  induction k with
  | zero => exact ⟨c, rejects_zero c, rfl⟩
  | succ k ih =>
    have hrow := List.getElem?_eq_getElem hk
    obtain ⟨c₁, hbefore, hcontext⟩ := ih (Nat.le_of_succ_le hk) fun j hj => h j (Nat.lt_succ_of_lt hj)
    by_cases hhit : t.rows[k].Matches active e
    · obtain hmiss | ⟨hsome, hfalse⟩ := h k (Nat.lt_succ_self k) _ hrow
      · exact absurd hhit hmiss
      · obtain ⟨g, hguard⟩ := Option.isSome_iff_exists.1 hsome
        have hg := hreads k _ g hrow hhit hguard
        rw [hfalse, ← hcontext] at hg
        refine ⟨c₁.noting (.guard t.path active k e), (rejects_succ_iff hrow).2 ⟨c₁, hbefore, ?_⟩, hcontext⟩
        rw [ask_of_guard hhit hguard]
        exact evaluate_of_yields hg
    · exact ⟨c₁, (rejects_succ_iff hrow).2 ⟨c₁, hbefore, ask_of_no_match hhit⟩, hcontext⟩

/-- Where guards only read, what a row responds does not depend on the rows before it. -/
theorem exists_responds_iff {i : Nat} {v : Except Cause Bool} (hv : v ≠ .ok false)
    (hreads : t.Reads active e c.world.context verdict) :
    (∃ c', t.Responds active e i row c (.ok v c')) ↔ t.rows[i]? = some row ∧ row.Matches active e ∧
      ((row.guard = none ∧ v = .ok true) ∨ (row.guard.isSome = true ∧ verdict i = v)) ∧
        ∀ j < i, t.Passes active e verdict j := by
  have hanswer (c' c'' : Configuration σ γ δ) :
      (.ok v c' : EStateM.Result Halt (Configuration σ γ δ) (Except Cause Bool)) ≠ .ok (.ok false) c'' :=
    fun h => hv (EStateM.Result.ok.inj h).1
  constructor
  · rintro ⟨c', h⟩
    obtain ⟨c₁, ⟨hrow, hpassed, hhit⟩, hlast⟩ := (responds_iff (hanswer c')).1 h
    obtain ⟨hi, -⟩ := List.getElem?_eq_some_iff.1 hrow
    obtain ⟨hcontext, hpasses⟩ := hpassed.passes hreads (Nat.le_of_lt hi)
    refine ⟨hrow, hhit, ?_, hpasses⟩
    obtain ⟨hguard, htrue⟩ | ⟨g, hguard, hg⟩ := hlast
    · exact .inl ⟨hguard, (EStateM.Result.ok.inj htrue).1⟩
    · have hyields := hreads i row g hrow hhit hguard
      rw [← hcontext] at hyields
      exact .inr ⟨by rw [hguard]; rfl, (EStateM.Result.ok.inj ((evaluate_of_yields hyields).symm.trans hg)).1⟩
  · rintro ⟨hrow, hhit, hlast, hpasses⟩
    obtain ⟨hi, -⟩ := List.getElem?_eq_some_iff.1 hrow
    obtain ⟨c₁, hpassed, hcontext⟩ := exists_rejects_of_passes hreads (Nat.le_of_lt hi) hpasses
    obtain ⟨hguard, rfl⟩ | ⟨hsome, rfl⟩ := hlast
    · exact ⟨c₁, c₁, hrow, hpassed, ask_of_no_guard hhit hguard⟩
    · obtain ⟨g, hguard⟩ := Option.isSome_iff_exists.1 hsome
      have hyields := hreads i row g hrow hhit hguard
      rw [← hcontext] at hyields
      exact ⟨_, c₁, hrow, hpassed, (ask_of_guard hhit hguard).trans (evaluate_of_yields hyields)⟩

end Reads

/-! ## The choice -/

section Choices

variable [Named σ] {position : Nat}

theorem resolve_error_iff {halt : Halt} : t.resolve position active e c = .error halt c' ↔
    firstEnabled t.path active e 0 t.rows c = .error halt c' ∨
      ∃ cause c₁, firstEnabled t.path active e 0 t.rows c = .ok (.error cause) c₁ ∧
        halt = .error (.failure (t.guardFailure active e cause)) ∧
        c' = c₁.noting (.failed (t.guardFailure active e cause)) := by
  unfold resolve orFail
  simp only [bind_eq_error]
  constructor
  · rintro ((h | ⟨outcome, c₁, hfound, houtcome⟩) | ⟨_, _, _, ⟨⟩⟩)
    · exact .inl h
    · cases outcome with
      | ok first => cases houtcome
      | error cause =>
        cases houtcome
        exact .inr ⟨cause, c₁, hfound, rfl, rfl⟩
  · rintro (h | ⟨cause, c₁, hfound, rfl, rfl⟩)
    · exact .inl (.inl h)
    · exact .inl (.inr ⟨_, c₁, hfound, rfl⟩)

theorem resolve_eq_some_iff {choice : Choice σ γ} : t.resolve position active e c = .ok (some choice) c' ↔
    ∃ i row, choice = ⟨position, active, i, row⟩ ∧ t.Responds active e i row c (.ok (.ok true) c') := by
  rw [resolve_ok_iff]
  constructor
  · rintro ⟨first, hfound, hfirst⟩
    obtain ⟨⟨i, row⟩, rfl, rfl⟩ := Option.map_eq_some_iff.1 hfirst.symm
    exact ⟨i, row, rfl, firstEnabled_eq_some_iff.1 hfound⟩
  · rintro ⟨i, row, rfl, h⟩
    exact ⟨some (i, row), firstEnabled_eq_some_iff.2 h, rfl⟩

theorem resolve_eq_none_iff : t.resolve position active e c = .ok none c' ↔
    t.Rejects active e t.rows.length c c' := by
  rw [resolve_ok_iff, ← firstEnabled_eq_none_iff]
  constructor
  · rintro ⟨first, hfound, hfirst⟩
    rwa [Option.map_eq_none_iff.1 hfirst.symm] at hfound
  · exact fun h => ⟨none, h, rfl⟩

theorem resolve_eq_error_iff {halt : Halt} : t.resolve position active e c = .error halt c' ↔
    ∃ i row, t.Responds active e i row c (.error halt c') ∨
      ∃ cause c₁, t.Responds active e i row c (.ok (.error cause) c₁) ∧
        halt = .error (.failure (t.guardFailure active e cause)) ∧
        c' = c₁.noting (.failed (t.guardFailure active e cause)) := by
  rw [resolve_error_iff, firstEnabled_eq_halt_iff]
  simp only [firstEnabled_eq_cause_iff]
  constructor
  · rintro (⟨i, row, h⟩ | ⟨cause, c₁, ⟨i, row, h⟩, hhalt, hc'⟩)
    · exact ⟨i, row, .inl h⟩
    · exact ⟨i, row, .inr ⟨cause, c₁, h, hhalt, hc'⟩⟩
  · rintro ⟨i, row, h | ⟨cause, c₁, h, hhalt, hc'⟩⟩
    · exact .inl ⟨i, row, h⟩
    · exact .inr ⟨cause, c₁, ⟨i, row, h⟩, hhalt, hc'⟩

theorem resolve_evaluated (t : RegionTable σ γ) (position : Nat) (active : σ) (e : Event) (c : Configuration σ γ δ) :
    Ends (t.resolve position active e) c
      (fun found c' => t.Evaluated active e (found.elim t.rows.length (·.row + 1)) c c')
      fun _ c' => ∃ i row, t.rows[i]? = some row ∧ row.Matches active e ∧ row.guard.isSome = true ∧
        t.Evaluated active e (i + 1) c c' := by
  unfold Ends
  cases hfound : t.resolve position active e c with
  | ok found c' =>
    cases found with
    | none => exact (resolve_eq_none_iff.1 hfound).evaluated (Nat.le_refl _)
    | some choice =>
      obtain ⟨i, row, rfl, h⟩ := resolve_eq_some_iff.1 hfound
      exact h.evaluated_of_ok
  | error halt c' =>
    -- a row without a guard would have been chosen
    obtain ⟨i, row, h | ⟨cause, c₁, h, rfl, rfl⟩⟩ := resolve_eq_error_iff.1 hfound
    · obtain ⟨g, c₁, hreaches, hguard, -⟩ := (responds_fault_iff (by simp)).1 h
      exact ⟨i, row, hreaches.stands, hreaches.hit, by rw [hguard]; rfl, h.evaluated_of_error⟩
    · obtain ⟨g, c₂, hreaches, hguard, -⟩ := (responds_fault_iff (by simp)).1 h
      exact ⟨i, row, hreaches.stands, hreaches.hit, by rw [hguard]; rfl, h.evaluated_of_ok.noting rfl⟩

omit [Named σ] in
/-- The guard of a row does not fail by itself, it comes to a cause. -/
theorem Responds.not_failure {i : Nat} {f : Failure} :
    ¬t.Responds active e i row c (.error (.error (.failure f)) c') := by
  rintro ⟨c₁, -, -, hask⟩
  exact (ask_faultless t.path active i row).ne c₁ c' f hask

end Choices

end RegionTable

/-- **The first match wins, and only the guards that it takes are evaluated.** A row is chosen exactly if it matches the
active state and the event, its guard is absent or true, and all rows before it are passed: none of them matches without
a guard, and the guards of those that match are evaluated one after the other, each once, and are false. No row is chosen
exactly if all rows are passed so, and the choice fails exactly if all rows before one are passed, this row matches, and
its guard fails (or panics). So, going by the notes, the guards that are evaluated are those of the matching rows up to
the one that decides, or all of them if none does, each once and in the order of the table. Where guards only read, it
takes no more than their verdicts to say which row is chosen and which guard fails. Only the completion trigger itself
accepts completion; for every other event a trigger is the formula that it looks like, in which the completion trigger is
false. -/
theorem first_match_wins [DecidableEq σ] [Named σ] (t : RegionTable σ γ) (position : Nat) (active : σ) (e : Event)
    (c : Configuration σ γ δ) :
    (∀ choice c', t.resolve position active e c = .ok (some choice) c' ↔
      ∃ i row c₁, choice = ⟨position, active, i, row⟩ ∧ t.Reaches active e i row c c₁ ∧
        ((row.guard = none ∧ c' = c₁) ∨ ∃ g, row.guard = some g ∧ t.evaluate active e i g c₁ = .ok (.ok true) c')) ∧
    (∀ c', t.resolve position active e c = .ok none c' ↔ t.Rejects active e t.rows.length c c') ∧
    (∀ halt c', t.resolve position active e c = .error halt c' ↔
      ∃ i row g c₁, t.Reaches active e i row c c₁ ∧ row.guard = some g ∧
        (t.evaluate active e i g c₁ = .error halt c' ∨ ∃ cause c₂, t.evaluate active e i g c₁ = .ok (.error cause) c₂ ∧
          halt = .error (.failure (t.guardFailure active e cause)) ∧
          c' = c₂.noting (.failed (t.guardFailure active e cause)))) ∧
    Ends (t.resolve position active e) c
      (fun found c' => t.Evaluated active e (found.elim t.rows.length (·.row + 1)) c c')
      (fun _ c' => ∃ i row, t.rows[i]? = some row ∧ row.Matches active e ∧ row.guard.isSome = true ∧
        t.Evaluated active e (i + 1) c c') ∧
    (∀ verdict, t.Reads active e c.world.context verdict →
      (∀ i, (∃ choice c', t.resolve position active e c = .ok (some choice) c' ∧ choice.row = i) ↔
        ∃ row, t.rows[i]? = some row ∧ row.Matches active e ∧ (row.guard = none ∨ verdict i = .ok true) ∧
          ∀ j < i, t.Passes active e verdict j) ∧
      ∀ f, (∃ c', t.resolve position active e c = .error (.error (.failure f)) c') ↔
        ∃ i row cause, f = t.guardFailure active e cause ∧ t.rows[i]? = some row ∧ row.Matches active e ∧
          row.guard.isSome = true ∧ verdict i = .error cause ∧ ∀ j < i, t.Passes active e verdict j) ∧
    (∀ u : Trigger, u.accepts .completion = true ↔ u = .completion) ∧
    ∀ (u : Trigger) (external : Event), external ≠ .completion →
      (u.accepts external = true ↔ u.Holds external.kind) := by
  refine ⟨fun choice c' => ?_, fun c' => RegionTable.resolve_eq_none_iff, fun halt c' => ?_,
    t.resolve_evaluated position active e c, fun verdict hreads => ⟨fun i => ?_, fun f => ?_⟩, fun u => ?_,
    fun u external hexternal => ?_⟩
  · simp only [RegionTable.resolve_eq_some_iff, RegionTable.responds_true_iff, exists_and_left]
  · rw [RegionTable.resolve_eq_error_iff]
    constructor
    · rintro ⟨i, row, h | ⟨cause, c₂, h, hhalt, hc'⟩⟩
      · obtain ⟨g, c₁, hreaches, hguard, hg⟩ := (RegionTable.responds_fault_iff (by simp)).1 h
        exact ⟨i, row, g, c₁, hreaches, hguard, .inl hg⟩
      · obtain ⟨g, c₁, hreaches, hguard, hg⟩ := (RegionTable.responds_fault_iff (by simp)).1 h
        exact ⟨i, row, g, c₁, hreaches, hguard, .inr ⟨cause, c₂, hg, hhalt, hc'⟩⟩
    · rintro ⟨i, row, g, c₁, hreaches, hguard, hg | ⟨cause, c₂, hg, hhalt, hc'⟩⟩
      · exact ⟨i, row, .inl ((RegionTable.responds_fault_iff (by simp)).2 ⟨g, c₁, hreaches, hguard, hg⟩)⟩
      · have h := (RegionTable.responds_fault_iff (by simp)).2 ⟨g, c₁, hreaches, hguard, hg⟩
        exact ⟨i, row, .inr ⟨cause, c₂, h, hhalt, hc'⟩⟩
  · constructor
    · rintro ⟨choice, c', hchosen, rfl⟩
      obtain ⟨i, row, rfl, h⟩ := RegionTable.resolve_eq_some_iff.1 hchosen
      obtain ⟨hrow, hhit, hguard, hpasses⟩ := (RegionTable.exists_responds_iff (by simp) hreads).1 ⟨c', h⟩
      exact ⟨row, hrow, hhit, hguard.imp And.left And.right, hpasses⟩
    · rintro ⟨row, hrow, hhit, hguard, hpasses⟩
      have hguard' : (row.guard = none ∧ (.ok true : Except Cause Bool) = .ok true) ∨
          (row.guard.isSome = true ∧ verdict i = .ok true) := by
        cases hrowguard : row.guard with
        | none => exact .inl ⟨rfl, rfl⟩
        | some g => exact .inr ⟨rfl, hguard.resolve_left (by rw [hrowguard]; nofun)⟩
      obtain ⟨c', h⟩ := (RegionTable.exists_responds_iff (by simp) hreads).2 ⟨hrow, hhit, hguard', hpasses⟩
      exact ⟨_, c', RegionTable.resolve_eq_some_iff.2 ⟨i, row, rfl, h⟩, rfl⟩
  · constructor
    · rintro ⟨c', hfails⟩
      obtain ⟨i, row, h | ⟨cause, c₁, h, hf, -⟩⟩ := RegionTable.resolve_eq_error_iff.1 hfails
      · exact absurd h RegionTable.Responds.not_failure
      · obtain ⟨hrow, hhit, ⟨-, ⟨⟩⟩ | ⟨hsome, hcause⟩, hpasses⟩ :=
          (RegionTable.exists_responds_iff (by simp) hreads).1 ⟨c₁, h⟩
        cases hf
        exact ⟨i, row, cause, rfl, hrow, hhit, hsome, hcause, hpasses⟩
    · rintro ⟨i, row, cause, rfl, hrow, hhit, hsome, hcause, hpasses⟩
      obtain ⟨c₁, h⟩ := (RegionTable.exists_responds_iff (by simp) hreads).2 ⟨hrow, hhit, .inr ⟨hsome, hcause⟩, hpasses⟩
      exact ⟨_, RegionTable.resolve_eq_error_iff.2 ⟨i, row, .inr ⟨cause, c₁, h, rfl, rfl⟩⟩⟩
  · simp [Trigger.accepts_iff, Trigger.Matches]
  · simp [Trigger.accepts_iff, Trigger.Matches, hexternal]

end Statechart
