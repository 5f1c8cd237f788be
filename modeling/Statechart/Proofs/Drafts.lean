import Mathlib.Data.List.Induction
import Statechart.Transition.Draft
import Statechart.World

/-!
# What the calls on a draft come to

A draft is written by any number of calls in any order. Of sources, triggers and targets the last one counts; guards and
actions pile up, and are folded into one guard and one action as they come.

* `Fallible.play`, `InTurn` : what a fallible callback comes to, and what several come to, one after the other;
* `Joins`, `inTurn_foldl` : callbacks that are joined one at a time come to what they come to in turn;
* `Draft.Call`, `Draft.ofCalls`, `Draft.ofCalls_eq` : the calls, and the draft that they write;
* `Transition.Carries` : a row that does what some guards and some actions do;
* `Draft.build_ofCalls`.
-/

set_option autoImplicit false

namespace Statechart

variable {σ γ α β τ : Type}

/-! ## Callbacks one after the other -/

theorem Course.play_bind {κ : Type} (y : Course κ α) (f : α → κ → Course κ β) (x : Exchange σ) :
    (y.bind f).play x =
      match y.play x with
      | (⟨.ok a, s⟩, x) => (f a s).play x
      | (⟨.error message, s⟩, x) => (⟨.error message, s⟩, x) := by
  induction y generalizing x with
  | done => rfl
  | panic => rfl
  | raise e next ih => exact ih _ _

/-- What a fallible callback comes to: a value, a cause or a panic, with what it made of the context and of the mailbox
and the journal. -/
def Fallible.play (f : Fallible γ α) (s : γ) (x : Exchange σ) :
    Course.Outcome γ (Except Cause α) × Exchange σ :=
  (f.run s).play x

theorem Fallible.play_pure (a : α) (s : γ) (x : Exchange σ) :
    Fallible.play (pure a : Fallible γ α) s x = (⟨.ok (.ok a), s⟩, x) := rfl

theorem Fallible.play_bind (f : Fallible γ α) (g : α → Fallible γ β) (s : γ) (x : Exchange σ) :
    Fallible.play (f >>= g) s x =
      match f.play s x with
      | (⟨.ok (.ok a), s⟩, x) => (g a).play s x
      | (⟨.ok (.error cause), s⟩, x) => (⟨.ok (.error cause), s⟩, x)
      | (⟨.error message, s⟩, x) => (⟨.error message, s⟩, x) := by
  have hbind := (f.run s).play_bind (fun a => (ExceptT.bindCont g a : Callback γ (Except Cause β))) x
  unfold Fallible.play
  refine Eq.trans hbind ?_
  generalize (f.run s).play x = played
  obtain ⟨⟨result, s⟩, x⟩ := played
  cases result with
  | error message => rfl
  | ok answer => cases answer <;> rfl

/-- What callbacks come to that are called one after the other, each where the one before it left off. Only `goOn` lets
the next one be called. -/
inductive InTurn (goOn : α) : List (Fallible γ α) → γ → Exchange σ →
    Course.Outcome γ (Except Cause α) × Exchange σ → Prop where
  | through {s : γ} {x : Exchange σ} : InTurn goOn [] s x (⟨.ok (.ok goOn), s⟩, x)
  | next {f : Fallible γ α} {fs : List (Fallible γ α)} {s s' : γ} {x x' : Exchange σ}
    {r : Course.Outcome γ (Except Cause α) × Exchange σ} :
    f.play s x = (⟨.ok (.ok goOn), s'⟩, x') → InTurn goOn fs s' x' r → InTurn goOn (f :: fs) s x r
  /-- The first other value is the value of all. -/
  | settled {f : Fallible γ α} {fs : List (Fallible γ α)} {a : α} {s s' : γ} {x x' : Exchange σ} :
    f.play s x = (⟨.ok (.ok a), s'⟩, x') → a ≠ goOn → InTurn goOn (f :: fs) s x (⟨.ok (.ok a), s'⟩, x')
  | failed {f : Fallible γ α} {fs : List (Fallible γ α)} {cause : Cause} {s s' : γ} {x x' : Exchange σ} :
    f.play s x = (⟨.ok (.error cause), s'⟩, x') → InTurn goOn (f :: fs) s x (⟨.ok (.error cause), s'⟩, x')
  | panicked {f : Fallible γ α} {fs : List (Fallible γ α)} {message : String} {s s' : γ} {x x' : Exchange σ} :
    f.play s x = (⟨.error message, s'⟩, x') → InTurn goOn (f :: fs) s x (⟨.error message, s'⟩, x')

section InTurn

variable {goOn : α} {f g h : Fallible γ α} {fs : List (Fallible γ α)} {s s' : γ} {x x' : Exchange σ}
  {r : Course.Outcome γ (Except Cause α) × Exchange σ}

theorem inTurn_nil_iff : InTurn goOn [] s x r ↔ r = (⟨.ok (.ok goOn), s⟩, x) := by
  constructor
  · rintro ⟨⟩
    rfl
  · rintro rfl
    exact .through

/-- A callback that returns `goOn` leaves the rest to the others. -/
theorem inTurn_cons_iff_of_next (hf : f.play s x = (⟨.ok (.ok goOn), s'⟩, x')) :
    InTurn goOn (f :: fs) s x r ↔ InTurn goOn fs s' x' r := by
  refine ⟨fun hr => ?_, .next hf⟩
  cases hr with
  | next hf' hr =>
    obtain ⟨⟨⟩, rfl⟩ := Prod.mk.inj (hf.symm.trans hf')
    exact hr
  | settled hf' hne =>
    obtain ⟨⟨⟩, rfl⟩ := Prod.mk.inj (hf.symm.trans hf')
    exact absurd rfl hne
  | failed hf' => cases hf.symm.trans hf'
  | panicked hf' => cases hf.symm.trans hf'

/-- Whatever else a callback comes to, all come to. -/
theorem inTurn_cons_iff_of_break (hf : (f.play s x).1.result ≠ .ok (.ok goOn)) :
    InTurn goOn (f :: fs) s x r ↔ f.play s x = r := by
  constructor
  · intro hr
    cases hr with
    | next hf' _ => exact absurd (congrArg (·.1.result) hf') hf
    | settled hf' _ => exact hf'
    | failed hf' => exact hf'
    | panicked hf' => exact hf'
  · rintro rfl
    rcases hplay : f.play s x with ⟨⟨result, s'⟩, x'⟩
    rw [hplay] at hf
    rcases result with message | cause | a
    · exact .panicked hplay
    · exact .failed hplay
    · exact .settled hplay fun h => hf (by rw [h])

/-- One callback comes to the same alone. -/
theorem inTurn_singleton_iff : InTurn goOn [f] s x r ↔ f.play s x = r := by
  by_cases hf : (f.play s x).1.result = .ok (.ok goOn)
  · rcases hplay : f.play s x with ⟨⟨result, s'⟩, x'⟩
    rw [hplay] at hf
    obtain rfl : result = .ok (.ok goOn) := hf
    rw [inTurn_cons_iff_of_next hplay, inTurn_nil_iff, eq_comm]
  · exact inTurn_cons_iff_of_break hf

/-- To call `h` is to call `f`, and then `g` if `f` returned `goOn`. -/
structure Joins (goOn : α) (f g h : Fallible γ α) : Prop where
  next (σ : Type) (s s' : γ) (x x' : Exchange σ) :
    f.play s x = (⟨.ok (.ok goOn), s'⟩, x') → h.play s x = g.play s' x'
  stop (σ : Type) (s : γ) (x : Exchange σ) :
    (f.play s x).1.result ≠ .ok (.ok goOn) → h.play s x = f.play s x

/-- Joined or not, two callbacks come to the same ahead of others. -/
theorem Joins.inTurn_cons_iff (hjoins : Joins goOn f g h) :
    InTurn goOn (h :: fs) s x r ↔ InTurn goOn (f :: g :: fs) s x r := by
  by_cases hf : (f.play s x).1.result = .ok (.ok goOn)
  · rcases hplay : f.play s x with ⟨⟨result, s'⟩, x'⟩
    rw [hplay] at hf
    obtain rfl : result = .ok (.ok goOn) := hf
    have hsame := hjoins.next σ s s' x x' hplay
    rw [inTurn_cons_iff_of_next hplay]
    by_cases hg : (g.play s' x').1.result = .ok (.ok goOn)
    · rcases hplay' : g.play s' x' with ⟨⟨result, s''⟩, x''⟩
      rw [hplay'] at hg hsame
      obtain rfl : result = .ok (.ok goOn) := hg
      rw [inTurn_cons_iff_of_next hsame, inTurn_cons_iff_of_next hplay']
    · rw [inTurn_cons_iff_of_break (by rwa [hsame]), inTurn_cons_iff_of_break hg, hsame]
  · have hsame := hjoins.stop σ s x hf
    rw [inTurn_cons_iff_of_break (by rwa [hsame]), inTurn_cons_iff_of_break hf, hsame]

/-- Joining one callback after the other to the first comes to what all come to in turn. -/
theorem inTurn_foldl {join : τ → τ → τ} {call : τ → Fallible γ α}
    (hjoin : ∀ a b, Joins goOn (call a) (call b) (call (join a b))) (a : τ) (rest : List τ) :
    (call (rest.foldl join a)).play s x = r ↔ InTurn goOn ((a :: rest).map call) s x r := by
  induction rest generalizing a with
  | nil => exact inTurn_singleton_iff.symm
  | cons b rest ih => exact (ih (join a b)).trans (hjoin a b).inTurn_cons_iff

end InTurn

/-- A conjunction asks its second operand if the first one is true. -/
theorem Guard.joins_and (e : Event) (a b : Guard γ) :
    Joins true (a.check e) (b.check e) ((a.and b).check e) where
  next σ s s' x x' ha := by
    rw [Guard.check, Fallible.play_bind, ha]
    rfl
  stop σ s x ha := by
    rw [Guard.check, Fallible.play_bind]
    generalize (a.check e).play s x = played at ha
    obtain ⟨⟨result, s'⟩, x'⟩ := played
    rcases result with message | cause | _ | _
    · rfl
    · rfl
    · rfl
    · exact absurd rfl ha

theorem Action.run_followedBy (a b : Action γ) (e : Event) :
    (a.followedBy b).run e = a.run e >>= fun _ => b.run e := rfl

/-- The second of two actions runs unless the first one failed. -/
theorem Action.joins_followedBy (e : Event) (a b : Action γ) :
    Joins () (a.run e) (b.run e) ((a.followedBy b).run e) where
  next σ s s' x x' ha := by
    rw [Action.run_followedBy, Fallible.play_bind, ha]
  stop σ s x ha := by
    rw [Action.run_followedBy, Fallible.play_bind]
    generalize (a.run e).play s x = played at ha
    obtain ⟨⟨result, s'⟩, x'⟩ := played
    rcases result with message | cause | _
    · rfl
    · rfl
    · exact absurd rfl ha

/-! ## Calls on a draft -/

/-- All joined into one, from the left, if there are any. -/
def joined (join : τ → τ → τ) : List τ → Option τ
  | [] => none
  | a :: rest => some (rest.foldl join a)

theorem joined_eq_none_iff {join : τ → τ → τ} {l : List τ} : joined join l = none ↔ l = [] := by
  cases l <;> simp [joined]

/-- One more is joined to those that are there. -/
theorem joined_concat (join : τ → τ → τ) (l : List τ) (a : τ) :
    joined join (l ++ [a]) = some ((joined join l).elim a (join · a)) := by
  cases l with
  | nil => rfl
  | cons first rest => simp [joined]

namespace Draft

/-- A call on a draft. The calls that name a source differ only in the source that they name, and so do those that name
a trigger or a target. -/
inductive Call (σ γ : Type) where
  | source (s : Source σ)
  | trigger (t : Trigger)
  | target (t : Target σ)
  | guard (g : Guard γ)
  /-- A guard that cannot fail. -/
  | when (p : Event → Callback γ Bool)
  | action (a : Action γ)
  /-- An action that cannot fail, and attends to one kind of event. -/
  | actionOn (k : EventKind) (f : Event → Callback γ Unit)

namespace Call

def source? : Call σ γ → Option (Source σ)
  | source s => some s
  | _ => none

def trigger? : Call σ γ → Option Trigger
  | trigger t => some t
  | _ => none

def target? : Call σ γ → Option (Target σ)
  | target t => some t
  | _ => none

/-- The guard that the call adds. -/
def guard? : Call σ γ → Option (Guard γ)
  | guard g => some g
  | when p => some (.when p)
  | _ => none

/-- The action that the call adds. -/
def action? : Call σ γ → Option (Action γ)
  | action a => some a
  | actionOn k f => some (.on k f)
  | _ => none

end Call

/-- The draft after a call. -/
def call (d : Draft σ γ) : Call σ γ → Draft σ γ
  | .source s => d.starting s
  | .trigger t => d.triggered t
  | .target t => d.leading t
  | .guard g => d.guarded g
  | .when p => d.guarded (.when p)
  | .action a => d.doing a
  | .actionOn k f => d.doing (.on k f)

theorem guarded_eq (d : Draft σ γ) (g : Guard γ) :
    d.guarded g = { d with guard := some (d.guard.elim g (·.and g)) } := by
  cases hguard : d.guard <;> simp [guarded, hguard]

theorem doing_eq (d : Draft σ γ) (a : Action γ) :
    d.doing a = { d with action := some (d.action.elim a (·.followedBy a)) } := by
  cases haction : d.action <;> simp [doing, haction]

/-- The draft that the calls write, the first one on an empty draft. -/
def ofCalls (calls : List (Call σ γ)) : Draft σ γ := calls.foldl call empty

/-- The draft consists of the last of what replaces, and of all of what is joined. -/
theorem ofCalls_eq (calls : List (Call σ γ)) :
    ofCalls calls = {
      source := (calls.filterMap Call.source?).getLast?
      trigger := (calls.filterMap Call.trigger?).getLast?
      target := (calls.filterMap Call.target?).getLast?
      action := joined Action.followedBy (calls.filterMap Call.action?)
      guard := joined Guard.and (calls.filterMap Call.guard?) } := by
  -- from the last call backwards, since every call works on what the calls before it wrote
  induction calls using List.reverseRecOn with
  | nil => rfl
  | append_singleton calls c ih =>
    rw [ofCalls, List.foldl_append, ← ofCalls, ih, List.foldl_cons, List.foldl_nil]
    cases c <;> simp [call, starting, triggered, leading, guarded_eq, doing_eq, Call.source?, Call.trigger?,
      Call.target?, Call.guard?, Call.action?, joined_concat, List.filterMap_cons]

end Draft

/-! ## Rows -/

/-- What a row has that was built of some guards and some actions. -/
structure Transition.Carries [DecidableEq σ] (row : Transition σ γ σ) (guards : List (Guard γ))
    (actions : List (Action γ)) : Prop where
  unguarded : row.guard = none ↔ guards = []
  idle : row.action = none ↔ actions = []
  /-- The guard of the row asks the guards in order; it is false at the first one that is false. -/
  guard (g : Guard γ) : row.guard = some g → ∀ (e : Event) (s : γ) (x : Exchange σ) r,
    (g.check e).play s x = r ↔ InTurn true (guards.map (·.check e)) s x r
  /-- The action of the row runs the actions in order. -/
  action (a : Action γ) : row.action = some a → ∀ (e : Event) (s : γ) (x : Exchange σ) r,
    (a.run e).play s x = r ↔ InTurn () (actions.map (·.run e)) s x r
  /-- Whether the row fires is up to the guards if source and trigger accept, and nothing is called otherwise. -/
  canFire (active : σ) (e : Event) (s : γ) (x : Exchange σ) (r : Course.Outcome γ (Except Cause Bool) × Exchange σ) :
    (row.canFire active e).play s x = r ↔
      if row.source.accepts active && row.trigger.accepts e then InTurn true (guards.map (·.check e)) s x r
      else r = (⟨.ok (.ok false), s⟩, x)

theorem Transition.carries_of_joined [DecidableEq σ] {row : Transition σ γ σ} {guards : List (Guard γ)}
    {actions : List (Action γ)} (hguard : row.guard = joined Guard.and guards)
    (haction : row.action = joined Action.followedBy actions) : row.Carries guards actions := by
  have hjoined : ∀ g, row.guard = some g → ∀ (e : Event) (s : γ) (x : Exchange σ) r,
      (g.check e).play s x = r ↔ InTurn true (guards.map (·.check e)) s x r := by
    intro g hg e s x r
    rw [hguard] at hg
    cases guards with
    | nil => cases hg
    | cons a rest =>
      obtain rfl := Option.some.inj hg
      exact inTurn_foldl (fun a b => Guard.joins_and e a b) a rest
  refine ⟨by rw [hguard, joined_eq_none_iff], by rw [haction, joined_eq_none_iff], hjoined, ?_, ?_⟩
  · intro a ha e s x r
    rw [haction] at ha
    cases actions with
    | nil => cases ha
    | cons first rest =>
      obtain rfl := Option.some.inj ha
      exact inTurn_foldl (fun a b => Action.joins_followedBy e a b) first rest
  · intro active e s x r
    unfold Transition.canFire Transition.concerns
    split
    · cases hrow : row.guard with
      | none =>
        rw [hguard, joined_eq_none_iff] at hrow
        rw [hrow, List.map_nil, inTurn_nil_iff, eq_comm]
        rfl
      | some g => exact hjoined g hrow e s x r
    · exact eq_comm

/-- **What a draft is built to.** Whatever the calls and their order, the draft is refused for the first of source,
event and target that no call names. Otherwise the row has the last source, trigger and target; its guard is the
conjunction of all guards in the order of the calls, evaluated from the left up to the first one that is not true; and its
action runs all actions in the order of the calls up to the first one that fails. How the calls of different kinds are
mixed makes no difference. -/
theorem Draft.build_ofCalls [DecidableEq σ] (calls : List (Draft.Call σ γ)) :
    (match (calls.filterMap Call.source?).getLast?, (calls.filterMap Call.trigger?).getLast?,
        (calls.filterMap Call.target?).getLast? with
      | none, _, _ => (ofCalls calls).build = .error .source
      | some _, none, _ => (ofCalls calls).build = .error .event
      | some _, some _, none => (ofCalls calls).build = .error .target
      | some source, some trigger, some target => ∃ row, (ofCalls calls).build = .ok row ∧
        row.source = source ∧ row.trigger = trigger ∧ row.target = target ∧
        row.Carries (calls.filterMap Call.guard?) (calls.filterMap Call.action?)) ∧
    ∀ calls' : List (Draft.Call σ γ),
      (calls'.filterMap Call.source?).getLast? = (calls.filterMap Call.source?).getLast? →
      (calls'.filterMap Call.trigger?).getLast? = (calls.filterMap Call.trigger?).getLast? →
      (calls'.filterMap Call.target?).getLast? = (calls.filterMap Call.target?).getLast? →
      calls'.filterMap Call.guard? = calls.filterMap Call.guard? →
      calls'.filterMap Call.action? = calls.filterMap Call.action? →
      (ofCalls calls').build = (ofCalls calls).build := by
  refine ⟨?_, fun calls' hsource htrigger htarget hguards hactions => ?_⟩
  · rw [ofCalls_eq calls]
    generalize (calls.filterMap Call.source?).getLast? = source
    generalize (calls.filterMap Call.trigger?).getLast? = trigger
    generalize (calls.filterMap Call.target?).getLast? = target
    rcases source with _ | source
    · rfl
    rcases trigger with _ | trigger
    · rfl
    rcases target with _ | target
    · rfl
    exact ⟨_, rfl, rfl, rfl, rfl, Transition.carries_of_joined rfl rfl⟩
  · rw [ofCalls_eq calls', ofCalls_eq calls, hsource, htrigger, htarget, hguards, hactions]

end Statechart
