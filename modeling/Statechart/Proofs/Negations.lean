import Mathlib.Data.List.Pairwise
import Mathlib.Logic.Relation
import Statechart.Proofs.Drafts

/-!
# Guards whose negations are pushed to the tests

A test answers with a truth value, fails with a cause or panics. What a formula comes to, and which of its tests are
asked for that, is decided from the left to the right by what the tests asked so far answered. Pushing a negation towards
the tests leaves both alone.

* `Guard.part?` : the formula that stands at the end of a way into a guard; negations are passed;
* `Guard.value`, `Guard.asked` : what a guard comes to for given answers of its tests, and the ways to the tests that it
  asks;
* `Guard.Evaluates` : an evaluation that asks these tests, and comes to this value;
* `Guard.Reached` : nothing to the left of a test keeps it from being asked;
* `Guard.Pushes`, `Guard.pushed` : the laws that push negations, and where they lead to;
* `negations_pushed`.
-/

set_option autoImplicit false

namespace Statechart

variable {σ γ : Type}

/-! ## Ways into a guard -/

/-- An operand of a conjunction, a disjunction or an exclusive disjunction. -/
inductive Side where
  | left
  | right
deriving DecidableEq, Repr

/-- A way goes off to the left where the other one goes off to the right. -/
def Side.Before (way way' : List Side) : Prop :=
  ∃ shared rest rest', way = shared ++ .left :: rest ∧ way' = shared ++ .right :: rest'

section Before

variable {way way' : List Side}

theorem Side.Before.cons {s : Side} (h : Before way way') : Before (s :: way) (s :: way') := by
  obtain ⟨shared, rest, rest', rfl, rfl⟩ := h
  exact ⟨s :: shared, rest, rest', rfl, rfl⟩

/-- What is before a way to the left goes to the left itself. -/
theorem Side.before_left_iff : Before way (.left :: way') ↔ ∃ w, way = .left :: w ∧ Before w way' := by
  constructor
  · rintro ⟨_ | ⟨s, shared⟩, rest, rest', rfl, hway'⟩
    · cases hway'
    · obtain ⟨rfl, rfl⟩ := List.cons.inj hway'
      exact ⟨_, rfl, shared, rest, rest', rfl, rfl⟩
  · rintro ⟨w, rfl, h⟩
    exact h.cons

theorem Side.before_right_iff :
    Before way (.right :: way') ↔ (∃ w, way = .left :: w) ∨ ∃ w, way = .right :: w ∧ Before w way' := by
  constructor
  · rintro ⟨_ | ⟨s, shared⟩, rest, rest', rfl, hway'⟩
    · exact .inl ⟨rest, rfl⟩
    · obtain ⟨rfl, rfl⟩ := List.cons.inj hway'
      exact .inr ⟨_, rfl, shared, rest, rest', rfl, rfl⟩
  · rintro (⟨w, rfl⟩ | ⟨w, rfl, h⟩)
    · exact ⟨[], w, way', rfl, rfl⟩
    · exact h.cons

end Before

namespace Guard

/-- What a test or a guard comes to: a truth value, a cause or a panic. -/
abbrev Verdict := Except String (Except Cause Bool)

/-- What the tests of a guard come to, by the ways to them. -/
abbrev Answers := List Side → Verdict

/-- What the tests of a part come to. -/
def Answers.below (answers : Answers) (way : List Side) : Answers := fun rest => answers (way ++ rest)

/-- What the tests of an operand come to. -/
def Answers.on (answers : Answers) (s : Side) : Answers := answers.below [s]

namespace Verdict

/-- Goes on with a truth value. -/
def andThen (v : Verdict) (next : Bool → Verdict) : Verdict :=
  match v with
  | .ok (.ok x) => next x
  | v => v

/-- A cause or a panic. -/
def Fails (v : Verdict) : Prop := ∀ x, v ≠ .ok (.ok x)

/-- A truth value that leaves an operand to be asked. -/
def Needs (needs : Bool → Bool) : Verdict → Bool
  | .ok (.ok x) => needs x
  | _ => false

theorem fails_or (v : Verdict) : v.Fails ∨ ∃ x, v = .ok (.ok x) := by
  by_cases h : ∃ x, v = .ok (.ok x)
  · exact .inr h
  · exact .inl fun x hx => h ⟨x, hx⟩

theorem needs_not (needs : Bool → Bool) (v : Verdict) :
    (v.andThen fun x => .ok (.ok !x)).Needs needs = v.Needs fun x => needs !x := by
  rcases v with message | cause | x <;> rfl

theorem needs_iff {needs : Bool → Bool} {v : Verdict} :
    v.Needs needs = true ↔ ∃ x, v = .ok (.ok x) ∧ needs x = true := by
  rcases v with message | cause | x <;> simp [Needs]

end Verdict

/-- The formula at the end of a way from a formula with two operands. -/
def along (whole : Guard γ) (left right : List Side → Option (Guard γ)) : List Side → Option (Guard γ)
  | [] => some whole
  | .left :: way => left way
  | .right :: way => right way

/-- The formula at the end of a way. Negations are no step of a way. -/
def part? : Guard γ → List Side → Option (Guard γ)
  | test p, [] => some (test p)
  | test _, _ :: _ => none
  | and a b, way => along (and a b) a.part? b.part? way
  | or a b, way => along (or a b) a.part? b.part? way
  | xor a b, way => along (xor a b) a.part? b.part? way
  | not a, way => a.part? way

/-- What a guard comes to. -/
def value : Guard γ → Answers → Verdict
  | test _, answers => answers []
  | and a b, answers =>
    (a.value (answers.on .left)).andThen fun x => if x then b.value (answers.on .right) else .ok (.ok false)
  | or a b, answers =>
    (a.value (answers.on .left)).andThen fun x => if x then .ok (.ok true) else b.value (answers.on .right)
  | xor a b, answers =>
    (a.value (answers.on .left)).andThen fun x =>
      (b.value (answers.on .right)).andThen fun y => .ok (.ok (x != y))
  | not a, answers => (a.value answers).andThen fun x => .ok (.ok !x)

/-- The ways to the tests that a guard asks, in order. -/
def asked : Guard γ → Answers → List (List Side)
  | test _, _ => [[]]
  | and a b, answers =>
    (a.asked (answers.on .left)).map (.left :: ·) ++
      if (a.value (answers.on .left)).Needs fun x => x then (b.asked (answers.on .right)).map (.right :: ·) else []
  | or a b, answers =>
    (a.asked (answers.on .left)).map (.left :: ·) ++
      if (a.value (answers.on .left)).Needs fun x => !x then (b.asked (answers.on .right)).map (.right :: ·) else []
  | xor a b, answers =>
    (a.asked (answers.on .left)).map (.left :: ·) ++
      if (a.value (answers.on .left)).Needs fun _ => true then (b.asked (answers.on .right)).map (.right :: ·) else []
  | not a, answers => a.asked answers

/-- The tests at the ends of some ways are called one after the other, each where the one before it left off, and they
answer as expected. -/
inductive Asks (g : Guard γ) (e : Event) (answers : Answers) :
    List (List Side) → γ → Exchange σ → γ → Exchange σ → Prop where
  | nil {s : γ} {x : Exchange σ} : Asks g e answers [] s x s x
  | cons {way : List Side} {ways : List (List Side)} {p : Event → Fallible γ Bool} {s s' s'' : γ}
    {x x' x'' : Exchange σ} :
    g.part? way = some (test p) → (p e).play s x = (⟨answers way, s'⟩, x') →
      Asks g e answers ways s' x' s'' x'' → Asks g e answers (way :: ways) s x s'' x''

/-- The evaluation of a guard asks the tests that the answers let it ask, and no others, and comes to what follows from
the answers. -/
structure Evaluates (g : Guard γ) (e : Event) (answers : Answers) (s : γ) (x : Exchange σ) (s' : γ)
    (x' : Exchange σ) : Prop where
  result : (g.check e).play s x = (⟨g.value answers, s'⟩, x')
  asks : g.Asks e answers (g.asked answers) s x s' x'

/-- By its left operand alone a conjunction is false, or a disjunction is true. -/
def Decided : Guard γ → Answers → Prop
  | and a _, answers => a.value (answers.on .left) = .ok (.ok false)
  | or a _, answers => a.value (answers.on .left) = .ok (.ok true)
  | _, _ => False

/-- Nothing to the left of a test keeps it from being asked. -/
structure Reached (g : Guard γ) (answers : Answers) (way : List Side) : Prop where
  /-- Where the way goes to the right, the left conjunct is not false and the left disjunct is not true. -/
  undecided (before after : List Side) (part : Guard γ) : way = before ++ .right :: after →
    g.part? before = some part → ¬ part.Decided (answers.below before)
  /-- No test further left that is asked fails. -/
  failure (earlier : List Side) : earlier ∈ g.asked answers → Side.Before earlier way → ¬ (answers earlier).Fails

/-! ## Formulas with two operands -/

/-- A guard asks its left operand, and then its right operand if it needs to. -/
structure Splits (g a b : Guard γ) (needs : Bool → Bool) : Prop where
  part (way : List Side) : g.part? way = along g a.part? b.part? way
  asked (answers : Answers) : g.asked answers = (a.asked (answers.on .left)).map (.left :: ·) ++
    if (a.value (answers.on .left)).Needs needs then (b.asked (answers.on .right)).map (.right :: ·) else []
  /-- It fails where an operand fails that is asked. -/
  fails (answers : Answers) (v : Verdict) : v.Fails → (g.value answers = v ↔ a.value (answers.on .left) = v ∨
    (a.value (answers.on .left)).Needs needs = true ∧ b.value (answers.on .right) = v)
  /-- It does not need its right operand if the left one decides. -/
  decided (answers : Answers) :
    g.Decided answers ↔ ∃ x, a.value (answers.on .left) = .ok (.ok x) ∧ needs x = false
  stop (e : Event) (answers : Answers) (σ : Type) (s s' : γ) (x x' : Exchange σ) :
    (a.check e).play s x = (⟨a.value (answers.on .left), s'⟩, x') →
      (a.value (answers.on .left)).Needs needs = false → (g.check e).play s x = (⟨g.value answers, s'⟩, x')
  next (e : Event) (answers : Answers) (σ : Type) (s s' s'' : γ) (x x' x'' : Exchange σ) :
    (a.check e).play s x = (⟨a.value (answers.on .left), s'⟩, x') →
      (a.value (answers.on .left)).Needs needs = true →
        (b.check e).play s' x' = (⟨b.value (answers.on .right), s''⟩, x'') →
          (g.check e).play s x = (⟨g.value answers, s''⟩, x'')

theorem splits_and (a b : Guard γ) : Splits (.and a b) a b (fun x => x) where
  part _ := rfl
  asked _ := rfl
  fails answers v hv := by
    rw [value]
    rcases a.value (answers.on .left) with message | cause | _ | _ <;>
      simp [Verdict.andThen, Verdict.Needs, (hv _).symm]
  decided answers := by simp [Decided]
  stop e answers σ s s' x x' ha hneeds := by
    rw [check, Fallible.play_bind, ha, value]
    generalize a.value (answers.on .left) = v at hneeds
    rcases v with message | cause | _ | _
    · rfl
    · rfl
    · rfl
    · cases hneeds
  next e answers σ s s' s'' x x' x'' ha hneeds hb := by
    obtain ⟨t, ht, rfl⟩ := Verdict.needs_iff.1 hneeds
    rw [check, Fallible.play_bind, ha, value, ht]
    exact hb

theorem splits_or (a b : Guard γ) : Splits (.or a b) a b (fun x => !x) where
  part _ := rfl
  asked _ := rfl
  fails answers v hv := by
    rw [value]
    rcases a.value (answers.on .left) with message | cause | _ | _ <;>
      simp [Verdict.andThen, Verdict.Needs, (hv _).symm]
  decided answers := by simp [Decided]
  stop e answers σ s s' x x' ha hneeds := by
    rw [check, Fallible.play_bind, ha, value]
    generalize a.value (answers.on .left) = v at hneeds
    rcases v with message | cause | _ | _
    · rfl
    · rfl
    · cases hneeds
    · rfl
  next e answers σ s s' s'' x x' x'' ha hneeds hb := by
    obtain ⟨_ | _, ht, ht'⟩ := Verdict.needs_iff.1 hneeds
    · rw [check, Fallible.play_bind, ha, value, ht]
      exact hb
    · cases ht'

theorem splits_xor (a b : Guard γ) : Splits (.xor a b) a b fun _ => true where
  part _ := rfl
  asked _ := rfl
  fails answers v hv := by
    rw [value]
    rcases a.value (answers.on .left) with message | cause | t
    · simp [Verdict.andThen, Verdict.Needs]
    · simp [Verdict.andThen, Verdict.Needs]
    · rcases b.value (answers.on .right) with message | cause | u <;>
        simp [Verdict.andThen, Verdict.Needs, (hv _).symm]
  decided answers := by simp [Decided]
  stop e answers σ s s' x x' ha hneeds := by
    rw [check, Fallible.play_bind, ha, value]
    generalize a.value (answers.on .left) = v at hneeds
    rcases v with message | cause | _
    · rfl
    · rfl
    · cases hneeds
  next e answers σ s s' s'' x x' x'' ha hneeds hb := by
    obtain ⟨t, ht, -⟩ := Verdict.needs_iff.1 hneeds
    rw [check, Fallible.play_bind, ha, value, ht]
    change Fallible.play (b.check e >>= _) s' x' = _
    rw [Fallible.play_bind, hb]
    rcases b.value (answers.on .right) with message | cause | u <;> rfl

section Splits

variable {g a b : Guard γ} {needs : Bool → Bool} {answers : Answers} {way : List Side} {p : Event → Fallible γ Bool}
  {v : Verdict} {e : Event} {ways : List (List Side)} {s s' s'' : γ} {x x' x'' : Exchange σ}

theorem Splits.mem_asked_iff (hg : g.Splits a b needs) :
    way ∈ g.asked answers ↔ (∃ w ∈ a.asked (answers.on .left), .left :: w = way) ∨
      (a.value (answers.on .left)).Needs needs = true ∧ ∃ w ∈ b.asked (answers.on .right), .right :: w = way := by
  rw [hg.asked]
  split <;> simp [*]

/-- A guard fails as a test does that it asks, if it does so operand by operand. -/
theorem Splits.value_eq_iff (hg : g.Splits a b needs) (hv : v.Fails)
    (ha : ∀ answers, a.value answers = v ↔ ∃ way ∈ a.asked answers, answers way = v)
    (hb : ∀ answers, b.value answers = v ↔ ∃ way ∈ b.asked answers, answers way = v) (answers : Answers) :
    g.value answers = v ↔ ∃ way ∈ g.asked answers, answers way = v := by
  rw [hg.fails answers v hv, ha, hb]
  simp only [hg.mem_asked_iff]
  constructor
  · rintro (⟨w, hw, hwv⟩ | ⟨hneeds, w, hw, hwv⟩)
    · exact ⟨_, .inl ⟨w, hw, rfl⟩, hwv⟩
    · exact ⟨_, .inr ⟨hneeds, w, hw, rfl⟩, hwv⟩
  · rintro ⟨_, ⟨w, hw, rfl⟩ | ⟨hneeds, w, hw, rfl⟩, hwv⟩
    · exact .inl ⟨w, hw, hwv⟩
    · exact .inr ⟨hneeds, w, hw, hwv⟩

theorem Splits.pairwise_asked (hg : g.Splits a b needs) (ha : ∀ answers, (a.asked answers).Pairwise Side.Before)
    (hb : ∀ answers, (b.asked answers).Pairwise Side.Before) (answers : Answers) :
    (g.asked answers).Pairwise Side.Before := by
  have hcons (t : Side) {l : List (List Side)} (hl : l.Pairwise Side.Before) :
      (l.map (t :: ·)).Pairwise Side.Before :=
    List.pairwise_map.2 (hl.imp Side.Before.cons)
  rw [hg.asked]
  refine List.pairwise_append.2 ⟨hcons _ (ha _), ?_, ?_⟩
  · split
    · exact hcons _ (hb _)
    · exact .nil
  · intro left hleft right hright
    obtain ⟨w, -, rfl⟩ := List.mem_map.1 hleft
    split at hright
    · obtain ⟨w', -, rfl⟩ := List.mem_map.1 hright
      exact Side.before_right_iff.2 (.inl ⟨w, rfl⟩)
    · cases hright

/-! ## Which tests are reached -/

theorem Splits.reached_left_iff (hg : g.Splits a b needs) :
    g.Reached answers (.left :: way) ↔ a.Reached (answers.on .left) way := by
  constructor
  · intro h
    refine ⟨fun before after part hway hpart => ?_, fun earlier hmem hbefore => ?_⟩
    · exact h.undecided (.left :: before) after part (by rw [hway]; rfl) ((hg.part _).trans hpart)
    · exact h.failure (.left :: earlier) (hg.mem_asked_iff.2 (.inl ⟨_, hmem, rfl⟩)) hbefore.cons
  · intro h
    refine ⟨fun before after part hway hpart => ?_, fun earlier hmem hbefore => ?_⟩
    · obtain _ | ⟨t, before⟩ := before
      · cases hway
      · obtain ⟨rfl, hrest⟩ := List.cons.inj hway
        exact h.undecided before after part hrest ((hg.part _).symm.trans hpart)
    · obtain ⟨w, rfl, hw⟩ := Side.before_left_iff.1 hbefore
      obtain ⟨w', hmem', hw'⟩ | ⟨-, w', -, hw'⟩ := hg.mem_asked_iff.1 hmem
      · obtain rfl := (List.cons.inj hw').2
        exact h.failure w' hmem' hw
      · cases hw'

/-- A test of the right operand is reached if the operand is needed. -/
theorem Splits.reached_right_iff (hg : g.Splits a b needs)
    (ha : ∀ v : Verdict, v.Fails → (a.value (answers.on .left) = v ↔
      ∃ way ∈ a.asked (answers.on .left), answers.on .left way = v)) :
    g.Reached answers (.right :: way) ↔
      (a.value (answers.on .left)).Needs needs = true ∧ b.Reached (answers.on .right) way := by
  constructor
  · intro h
    have hneeds : (a.value (answers.on .left)).Needs needs = true := by
      obtain hfails | ⟨t, ht⟩ := Verdict.fails_or (a.value (answers.on .left))
      · obtain ⟨w, hmem, hw⟩ := (ha _ hfails).1 rfl
        rw [← hw] at hfails
        refine absurd hfails (h.failure (.left :: w) (hg.mem_asked_iff.2 (.inl ⟨w, hmem, rfl⟩)) ?_)
        exact Side.before_right_iff.2 (.inl ⟨w, rfl⟩)
      · refine Verdict.needs_iff.2 ⟨t, ht, ?_⟩
        by_contra hneeds
        exact h.undecided [] way g rfl (hg.part []) ((hg.decided _).2 ⟨t, ht, by simpa using hneeds⟩)
    refine ⟨hneeds, fun before after part hway hpart => ?_, fun earlier hmem hbefore => ?_⟩
    · exact h.undecided (.right :: before) after part (by rw [hway]; rfl) ((hg.part _).trans hpart)
    · exact h.failure (.right :: earlier) (hg.mem_asked_iff.2 (.inr ⟨hneeds, _, hmem, rfl⟩)) hbefore.cons
  · rintro ⟨hneeds, h⟩
    obtain ⟨t, ht, htneeds⟩ := Verdict.needs_iff.1 hneeds
    refine ⟨fun before after part hway hpart => ?_, fun earlier hmem hbefore => ?_⟩
    · obtain _ | ⟨u, before⟩ := before
      · obtain rfl := Option.some.inj ((hg.part []).symm.trans hpart)
        rintro hdecided
        obtain ⟨u, hu, huneeds⟩ := (hg.decided _).1 hdecided
        obtain rfl : t = u := by simpa using ht.symm.trans hu
        exact absurd (htneeds.symm.trans huneeds) (by decide)
      · obtain ⟨rfl, hrest⟩ := List.cons.inj hway
        exact h.undecided before after part hrest ((hg.part _).symm.trans hpart)
    · obtain ⟨w, rfl⟩ | ⟨w, rfl, hw⟩ := Side.before_right_iff.1 hbefore
      · obtain ⟨w', hmem', hw'⟩ | ⟨-, w', -, hw'⟩ := hg.mem_asked_iff.1 hmem
        · obtain rfl := (List.cons.inj hw').2
          intro hfails
          have hsame := (ha _ hfails).2 ⟨w', hmem', rfl⟩
          exact hfails t (hsame.symm.trans ht)
        · cases hw'
      · obtain ⟨w', -, hw'⟩ | ⟨-, w', hmem', hw'⟩ := hg.mem_asked_iff.1 hmem
        · cases hw'
        · obtain rfl := (List.cons.inj hw').2
          exact h.failure w' hmem' hw

/-- A formula with two operands is no test. -/
theorem Splits.part?_nil (hg : g.Splits a b needs) : g.part? [] ≠ some (test p) := by
  intro h
  obtain rfl := Option.some.inj ((hg.part []).symm.trans h)
  have hmem : [] ∈ (test p).asked fun _ => .ok (.ok true) := List.mem_singleton_self _
  simpa using hg.mem_asked_iff.1 hmem

theorem Splits.mem_asked_iff_reached (hg : g.Splits a b needs)
    (hfails : ∀ v : Verdict, v.Fails → (a.value (answers.on .left) = v ↔
      ∃ way ∈ a.asked (answers.on .left), answers.on .left way = v))
    (ha : ∀ answers way, a.part? way = some (test p) → (way ∈ a.asked answers ↔ a.Reached answers way))
    (hb : ∀ answers way, b.part? way = some (test p) → (way ∈ b.asked answers ↔ b.Reached answers way))
    (hleaf : g.part? way = some (test p)) : way ∈ g.asked answers ↔ g.Reached answers way := by
  match way with
  | [] => exact absurd hleaf hg.part?_nil
  | .left :: way =>
    rw [hg.reached_left_iff, ← ha _ _ ((hg.part _).symm.trans hleaf), hg.mem_asked_iff]
    simp
  | .right :: way =>
    rw [hg.reached_right_iff hfails, ← hb _ _ ((hg.part _).symm.trans hleaf), hg.mem_asked_iff]
    simp

end Splits

/-- A guard fails exactly if it asks a test that fails, and as that test does. -/
theorem value_eq_iff {v : Verdict} (hv : v.Fails) (g : Guard γ) (answers : Answers) :
    g.value answers = v ↔ ∃ way ∈ g.asked answers, answers way = v := by
  induction g generalizing answers with
  | test p => simp [value, asked]
  | and a b iha ihb => exact (splits_and a b).value_eq_iff hv iha ihb answers
  | or a b iha ihb => exact (splits_or a b).value_eq_iff hv iha ihb answers
  | xor a b iha ihb => exact (splits_xor a b).value_eq_iff hv iha ihb answers
  | not a ih =>
    rw [asked, ← ih, value]
    rcases a.value answers with message | cause | x <;> simp [Verdict.andThen, (hv _).symm]

theorem pairwise_asked (g : Guard γ) (answers : Answers) : (g.asked answers).Pairwise Side.Before := by
  induction g generalizing answers with
  | test p => exact List.pairwise_singleton _ _
  | and a b iha ihb => exact (splits_and a b).pairwise_asked iha ihb answers
  | or a b iha ihb => exact (splits_or a b).pairwise_asked iha ihb answers
  | xor a b iha ihb => exact (splits_xor a b).pairwise_asked iha ihb answers
  | not a ih => exact ih answers

theorem mem_asked_iff_reached {p : Event → Fallible γ Bool} {way : List Side} (g : Guard γ) (answers : Answers)
    (hleaf : g.part? way = some (test p)) : way ∈ g.asked answers ↔ g.Reached answers way := by
  have hfails (a : Guard γ) (answers : Answers) (v : Verdict) (hv : v.Fails) := value_eq_iff hv a answers
  induction g generalizing answers way with
  | test q =>
    cases way with
    | cons => cases hleaf
    | nil =>
      refine iff_of_true (List.mem_singleton_self _) ⟨fun before after part hway => ?_, fun earlier _ hbefore => ?_⟩
      · cases before <;> cases hway
      · obtain ⟨shared, _, _, _, hnil⟩ := hbefore
        cases shared <;> cases hnil
  | and a b iha ihb =>
    exact (splits_and a b).mem_asked_iff_reached (hfails a _) (fun as _ h => iha as h) (fun as _ h => ihb as h) hleaf
  | or a b iha ihb =>
    exact (splits_or a b).mem_asked_iff_reached (hfails a _) (fun as _ h => iha as h) (fun as _ h => ihb as h) hleaf
  | xor a b iha ihb =>
    exact (splits_xor a b).mem_asked_iff_reached (hfails a _) (fun as _ h => iha as h) (fun as _ h => ihb as h) hleaf
  | not a ih =>
    refine (ih answers hleaf).trans ⟨fun h => ⟨h.undecided, h.failure⟩, fun h => ⟨h.undecided, h.failure⟩⟩

/-! ## Evaluations -/

section Asks

variable {g a b : Guard γ} {needs : Bool → Bool} {e : Event} {answers answers' : Answers} {ways ways' : List (List Side)}
  {s s' s'' : γ} {x x' x'' : Exchange σ}

theorem Asks.append (h : g.Asks e answers ways s x s' x') (h' : g.Asks e answers ways' s' x' s'' x'') :
    g.Asks e answers (ways ++ ways') s x s'' x'' := by
  induction h with
  | nil => exact h'
  | cons hpart hplay _ ih => exact .cons hpart hplay (ih h')

/-- The tests of a guard are asked as tests of another guard that has them in other places. -/
theorem Asks.replace {place : List Side → List Side}
    (hpart : ∀ way p, a.part? way = some (test p) → g.part? (place way) = some (test p))
    (h : a.Asks e (fun way => answers (place way)) ways s x s' x') : g.Asks e answers (ways.map place) s x s' x' := by
  induction h with
  | nil => exact .nil
  | cons hleaf hplay _ ih => exact .cons (hpart _ _ hleaf) hplay ih

theorem Asks.congr (hpart : ∀ way p, a.part? way = some (test p) → g.part? way = some (test p))
    (h : a.Asks e answers ways s x s' x') : g.Asks e answers ways s x s' x' := by
  have hsame : g.Asks e answers (ways.map id) s x s' x' := Asks.replace hpart h
  rwa [List.map_id] at hsame

/-- The answers of the tests of two operands. -/
def Answers.join (left right : Answers) : Answers
  | [] => .ok (.ok false)
  | .left :: way => left way
  | .right :: way => right way

theorem Splits.evaluates (hg : g.Splits a b needs)
    (ha : ∀ (s : γ) (x : Exchange σ), ∃ answers s' x', a.Evaluates e answers s x s' x')
    (hb : ∀ (s : γ) (x : Exchange σ), ∃ answers s' x', b.Evaluates e answers s x s' x') (s : γ) (x : Exchange σ) :
    ∃ answers s' x', g.Evaluates e answers s x s' x' := by
  obtain ⟨left, s₁, x₁, hleft⟩ := ha s x
  obtain ⟨right, s₂, x₂, hright⟩ := hb s₁ x₁
  have hasks : g.Asks e (left.join right) _ s x s₁ x₁ :=
    hleft.asks.replace fun way _ hleaf => (hg.part (.left :: way)).trans hleaf
  have hasks' : g.Asks e (left.join right) _ s₁ x₁ s₂ x₂ :=
    hright.asks.replace fun way _ hleaf => (hg.part (.right :: way)).trans hleaf
  cases hneeds : (a.value left).Needs needs with
  | false =>
    refine ⟨left.join right, s₁, x₁, hg.stop e (left.join right) σ s s₁ x x₁ hleft.result hneeds, ?_⟩
    have hasked := (hg.asked (left.join right)).trans (congrArg _ (if_neg (ne_true_of_eq_false hneeds)))
    rw [hasked, List.append_nil]
    exact hasks
  | true =>
    refine ⟨left.join right, s₂, x₂,
      hg.next e (left.join right) σ s s₁ s₂ x x₁ x₂ hleft.result hneeds hright.result, ?_⟩
    have hasked := (hg.asked (left.join right)).trans (congrArg _ (if_pos hneeds))
    rw [hasked]
    exact hasks.append hasks'

end Asks

/-- Every evaluation is one that some answers account for. -/
theorem evaluates (g : Guard γ) (e : Event) (s : γ) (x : Exchange σ) :
    ∃ answers s' x', g.Evaluates e answers s x s' x' := by
  induction g generalizing s x with
  | test p =>
    rcases hplay : (p e).play s x with ⟨⟨v, s'⟩, x'⟩
    exact ⟨fun _ => v, s', x', hplay, .cons rfl hplay .nil⟩
  | and a b iha ihb => exact (splits_and a b).evaluates iha ihb s x
  | or a b iha ihb => exact (splits_or a b).evaluates iha ihb s x
  | xor a b iha ihb => exact (splits_xor a b).evaluates iha ihb s x
  | not a ih =>
    obtain ⟨answers, s', x', h⟩ := ih s x
    refine ⟨answers, s', x', ?_, ?_⟩
    · rw [check, Fallible.play_bind, h.result, value]
      rcases a.value answers with message | cause | t <;> rfl
    · exact Asks.congr (a := a) (fun _ _ hleaf => hleaf) h.asks

/-! ## Laws -/

/-- Guards that nothing can tell apart: they have the same tests in the same places, and for the same answers they ask
the same tests in the same order and come to the same. -/
structure Same (g h : Guard γ) : Prop where
  check (e : Event) : g.check e = h.check e
  tests (way : List Side) (p : Event → Fallible γ Bool) : g.part? way = some (test p) ↔ h.part? way = some (test p)
  value (answers : Answers) : g.value answers = h.value answers
  asked (answers : Answers) : g.asked answers = h.asked answers

section Same

variable {a a' b b' c : Guard γ}

theorem Same.refl (a : Guard γ) : a.Same a := ⟨fun _ => rfl, fun _ _ => .rfl, fun _ => rfl, fun _ => rfl⟩

theorem Same.trans (h : a.Same b) (h' : b.Same c) : a.Same c where
  check e := (h.check e).trans (h'.check e)
  tests way p := (h.tests way p).trans (h'.tests way p)
  value answers := (h.value answers).trans (h'.value answers)
  asked answers := (h.asked answers).trans (h'.asked answers)

/-- The tests of a formula with two operands are those of the operands. -/
theorem along_eq_test_iff {g g' : Guard γ} (hg : ∀ p, g ≠ test p) (hg' : ∀ p, g' ≠ test p)
    (ha : ∀ way p, a.part? way = some (test p) ↔ a'.part? way = some (test p))
    (hb : ∀ way p, b.part? way = some (test p) ↔ b'.part? way = some (test p)) (way : List Side)
    (p : Event → Fallible γ Bool) :
    along g a.part? b.part? way = some (test p) ↔ along g' a'.part? b'.part? way = some (test p) := by
  match way with
  | [] => exact iff_of_false (fun h => hg p (Option.some.inj h)) fun h => hg' p (Option.some.inj h)
  | .left :: way => exact ha way p
  | .right :: way => exact hb way p

theorem Same.and (ha : a.Same a') (hb : b.Same b') : (a.and b).Same (a'.and b') where
  check e := by simp only [Guard.check, ha.check, hb.check]
  tests := along_eq_test_iff nofun nofun ha.tests hb.tests
  value answers := by simp only [Guard.value, ha.value, hb.value]
  asked answers := by simp only [Guard.asked, ha.value, ha.asked, hb.asked]

theorem Same.or (ha : a.Same a') (hb : b.Same b') : (a.or b).Same (a'.or b') where
  check e := by simp only [Guard.check, ha.check, hb.check]
  tests := along_eq_test_iff nofun nofun ha.tests hb.tests
  value answers := by simp only [Guard.value, ha.value, hb.value]
  asked answers := by simp only [Guard.asked, ha.value, ha.asked, hb.asked]

theorem Same.xor (ha : a.Same a') (hb : b.Same b') : (a.xor b).Same (a'.xor b') where
  check e := by simp only [Guard.check, ha.check, hb.check]
  tests := along_eq_test_iff nofun nofun ha.tests hb.tests
  value answers := by simp only [Guard.value, ha.value, hb.value]
  asked answers := by simp only [Guard.asked, ha.value, ha.asked, hb.asked]

theorem Same.not (ha : a.Same a') : a.not.Same a'.not where
  check e := by simp only [Guard.check, ha.check]
  tests := ha.tests
  value answers := by simp only [Guard.value, ha.value]
  asked := ha.asked

end Same

theorem not_and_same (a b : Guard γ) : (a.and b).not.Same (a.not.or b.not) where
  check e := by
    simp only [check, bind_assoc, pure_bind]
    refine bind_congr fun t => ?_
    cases t <;> simp
  tests := along_eq_test_iff nofun nofun (fun _ _ => .rfl) fun _ _ => .rfl
  value answers := by
    simp only [value]
    rcases a.value (answers.on .left) with message | cause | _ | _ <;> simp [Verdict.andThen]
  asked answers := by simp only [asked, value, Verdict.needs_not, Bool.not_not]

theorem not_or_same (a b : Guard γ) : (a.or b).not.Same (a.not.and b.not) where
  check e := by
    simp only [check, bind_assoc, pure_bind]
    refine bind_congr fun t => ?_
    cases t <;> simp
  tests := along_eq_test_iff nofun nofun (fun _ _ => .rfl) fun _ _ => .rfl
  value answers := by
    simp only [value]
    rcases a.value (answers.on .left) with message | cause | _ | _ <;> simp [Verdict.andThen]
  asked answers := by simp only [asked, value, Verdict.needs_not]

theorem not_xor_same (a b : Guard γ) : (a.xor b).not.Same (a.not.xor b) where
  check e := by
    simp only [check, bind_assoc, pure_bind]
    refine bind_congr fun t => bind_congr fun u => ?_
    cases t <;> cases u <;> rfl
  tests := along_eq_test_iff nofun nofun (fun _ _ => .rfl) fun _ _ => .rfl
  value answers := by
    simp only [value]
    rcases a.value (answers.on .left) with message | cause | t
    · rfl
    · rfl
    · rcases b.value (answers.on .right) with message | cause | u
      · rfl
      · rfl
      · cases t <;> cases u <;> rfl
  asked answers := by simp only [asked, value, Verdict.needs_not]

theorem not_not_same (a : Guard γ) : a.not.not.Same a where
  check e := by simp [check]
  tests _ _ := .rfl
  value answers := by
    simp only [value]
    rcases a.value answers with message | cause | t
    · rfl
    · rfl
    · cases t <;> rfl
  asked _ := rfl

/-! ## Pushing negations -/

/-- One negation of a guard is pushed by one law. -/
inductive Pushes : Guard γ → Guard γ → Prop where
  | not_and (a b : Guard γ) : Pushes (a.and b).not (a.not.or b.not)
  | not_or (a b : Guard γ) : Pushes (a.or b).not (a.not.and b.not)
  | not_xor (a b : Guard γ) : Pushes (a.xor b).not (a.not.xor b)
  | not_not (a : Guard γ) : Pushes a.not.not a
  | and_left {a a' : Guard γ} (b : Guard γ) : Pushes a a' → Pushes (a.and b) (a'.and b)
  | and_right (a : Guard γ) {b b' : Guard γ} : Pushes b b' → Pushes (a.and b) (a.and b')
  | or_left {a a' : Guard γ} (b : Guard γ) : Pushes a a' → Pushes (a.or b) (a'.or b)
  | or_right (a : Guard γ) {b b' : Guard γ} : Pushes b b' → Pushes (a.or b) (a.or b')
  | xor_left {a a' : Guard γ} (b : Guard γ) : Pushes a a' → Pushes (a.xor b) (a'.xor b)
  | xor_right (a : Guard γ) {b b' : Guard γ} : Pushes b b' → Pushes (a.xor b) (a.xor b')
  | not {a a' : Guard γ} : Pushes a a' → Pushes a.not a'.not

/-- No law tells guards apart. -/
theorem Pushes.same {g h : Guard γ} (hpushes : g.Pushes h) : g.Same h := by
  induction hpushes with
  | not_and a b => exact not_and_same a b
  | not_or a b => exact not_or_same a b
  | not_xor a b => exact not_xor_same a b
  | not_not a => exact not_not_same a
  | and_left b _ ih => exact ih.and (.refl b)
  | and_right a _ ih => exact .and (.refl a) ih
  | or_left b _ ih => exact ih.or (.refl b)
  | or_right a _ ih => exact .or (.refl a) ih
  | xor_left b _ ih => exact ih.xor (.refl b)
  | xor_right a _ ih => exact .xor (.refl a) ih
  | not _ ih => exact ih.not

mutual

/-- The guard with all negations pushed to its tests. -/
def pushed : Guard γ → Guard γ
  | test p => test p
  | and a b => and a.pushed b.pushed
  | or a b => or a.pushed b.pushed
  | xor a b => xor a.pushed b.pushed
  | not a => a.negated

/-- The negation of the guard, with all negations pushed to its tests. -/
def negated : Guard γ → Guard γ
  | test p => not (test p)
  | and a b => or a.negated b.negated
  | or a b => and a.negated b.negated
  | xor a b => xor a.negated b.pushed
  | not a => a.pushed

end

/-- Only tests are negated. -/
def NegatesTests : Guard γ → Prop
  | test _ => True
  | and a b => a.NegatesTests ∧ b.NegatesTests
  | or a b => a.NegatesTests ∧ b.NegatesTests
  | xor a b => a.NegatesTests ∧ b.NegatesTests
  | not (test _) => True
  | not _ => False

theorem negatesTests_pushed (g : Guard γ) : g.pushed.NegatesTests ∧ g.negated.NegatesTests := by
  induction g with
  | test p => exact ⟨trivial, trivial⟩
  | and a b iha ihb => exact ⟨⟨iha.1, ihb.1⟩, iha.2, ihb.2⟩
  | or a b iha ihb => exact ⟨⟨iha.1, ihb.1⟩, iha.2, ihb.2⟩
  | xor a b iha ihb => exact ⟨⟨iha.1, ihb.1⟩, iha.2, ihb.1⟩
  | not a ih => exact ⟨ih.2, ih.1⟩

section Pushes

variable {a a' b b' : Guard γ}

theorem pushes_and (ha : Relation.ReflTransGen Pushes a a') (hb : Relation.ReflTransGen Pushes b b') :
    Relation.ReflTransGen Pushes (a.and b) (a'.and b') :=
  (ha.lift (and · b) fun _ _ => .and_left b).trans (hb.lift (and a' ·) fun _ _ => .and_right a')

theorem pushes_or (ha : Relation.ReflTransGen Pushes a a') (hb : Relation.ReflTransGen Pushes b b') :
    Relation.ReflTransGen Pushes (a.or b) (a'.or b') :=
  (ha.lift (or · b) fun _ _ => .or_left b).trans (hb.lift (or a' ·) fun _ _ => .or_right a')

theorem pushes_xor (ha : Relation.ReflTransGen Pushes a a') (hb : Relation.ReflTransGen Pushes b b') :
    Relation.ReflTransGen Pushes (a.xor b) (a'.xor b') :=
  (ha.lift (xor · b) fun _ _ => .xor_left b).trans (hb.lift (xor a' ·) fun _ _ => .xor_right a')

/-- The laws lead to where the negations are pushed to. -/
theorem pushes_pushed (g : Guard γ) :
    Relation.ReflTransGen Pushes g g.pushed ∧ Relation.ReflTransGen Pushes g.not g.negated := by
  induction g with
  | test p => exact ⟨.refl, .refl⟩
  | and a b iha ihb => exact ⟨pushes_and iha.1 ihb.1, .head (.not_and a b) (pushes_or iha.2 ihb.2)⟩
  | or a b iha ihb => exact ⟨pushes_or iha.1 ihb.1, .head (.not_or a b) (pushes_and iha.2 ihb.2)⟩
  | xor a b iha ihb => exact ⟨pushes_xor iha.1 ihb.1, .head (.not_xor a b) (pushes_xor iha.2 ihb.1)⟩
  | not a ih => exact ⟨ih.2, .head (.not_not a) ih.1⟩

theorem same_of_pushes (h : Relation.ReflTransGen Pushes a b) : a.Same b := by
  induction h with
  | refl => exact .refl a
  | tail _ hpushes ih => exact ih.trans hpushes.same

end Pushes

/-- Guards that nothing can tell apart evaluate alike. -/
theorem Same.evaluates {g h : Guard γ} (hsame : g.Same h) {e : Event} {answers : Answers} {s s' : γ}
    {x x' : Exchange σ} (hg : g.Evaluates e answers s x s' x') : h.Evaluates e answers s x s' x' where
  result := by rw [← hsame.check, ← hsame.value]; exact hg.result
  asks := by rw [← hsame.asked]; exact hg.asks.congr fun way p => (hsame.tests way p).1

end Guard

/-- **Negations can be pushed to the tests.** The laws for the negation of a conjunction, a disjunction, an exclusive
disjunction and a negation lead from every guard to one in which only tests are negated. Wherever they lead to, nothing
tells the guard from the one that it came from: in every context and for every event the evaluation of both asks the same
tests in the same order, which answer the same, and comes to the same truth value, the same cause or the same panic. The
tests are asked from the left to the right. One of them is asked exactly if, wherever the way to it goes to the right, the
left conjunct is not false and the left disjunct is not true, and no test that is asked earlier fails; the guard fails
exactly if it asks a test that fails, and as that test does. -/
theorem negations_pushed (g : Guard γ) :
    g.pushed.NegatesTests ∧ Relation.ReflTransGen Guard.Pushes g g.pushed ∧
      (∀ h, Relation.ReflTransGen Guard.Pushes g h → g.Same h ∧
        ∀ (σ : Type) (e : Event) (s : γ) (x : Exchange σ), ∃ answers s' x',
          g.Evaluates e answers s x s' x' ∧ h.Evaluates e answers s x s' x') ∧
      ∀ answers : Guard.Answers, (g.asked answers).Pairwise Side.Before ∧
        (∀ way p, g.part? way = some (.test p) → (way ∈ g.asked answers ↔ g.Reached answers way)) ∧
          ∀ v : Guard.Verdict, v.Fails → (g.value answers = v ↔ ∃ way ∈ g.asked answers, answers way = v) := by
  refine ⟨g.negatesTests_pushed.1, g.pushes_pushed.1, fun h hpushes => ?_, fun answers => ?_⟩
  · have hsame := Guard.same_of_pushes hpushes
    refine ⟨hsame, fun σ e s x => ?_⟩
    obtain ⟨answers, s', x', hg⟩ := g.evaluates e s x
    exact ⟨answers, s', x', hg, hsame.evaluates hg⟩
  · exact ⟨g.pairwise_asked answers, fun way p hleaf => g.mem_asked_iff_reached answers hleaf,
      fun v hv => Guard.value_eq_iff hv g answers⟩

example (a b c : Guard γ) :
    (Guard.and (.test fun _ => pure true) (a.or (b.xor c))).not.pushed =
      (Guard.test fun _ => pure true).not.or (a.negated.and (b.negated.xor c.pushed)) := rfl

end Statechart
