import Statechart.Proofs.Agreement
import Statechart.Proofs.Collecting
import Statechart.Proofs.Coupling
import Statechart.Proofs.FirstMatch

/-!
# The questions of a dry run

A dry run goes along the active states. Of each it asks whether a row fires, row after row, then what there is inside
the state, and then whether the reaction of the state would take the event. The first yes ends it. So its answer can be
read off a list of questions, each of them asked in the context that the guards before it have left.

* `Question`, `Question.reply` : what is asked, and the reply; a guard that fails counts as a no, and there is no reply
  where a guard panics;
* `Question.replies` : the first yes to a list of questions; `Question.replies_append`;
* `Region.questions`, `Chart.questions` : what a dry run asks;
* `Turn.Poses` : a turn asks a list of questions; `RegionTable.anyEnabled_poses`, `Region.check_poses`,
  `Chart.check_poses`;
* `Question.ReadsOnly`, `Question.Accepts` : where guards only read, the answer is yes if and only if a question is
  answered yes in the context at the beginning (`Chart.check_of_readsOnly`).
-/

set_option autoImplicit false

namespace Statechart

open Turn

variable {σ γ δ : Type}

/-! ## Questions and replies -/

/-- What a dry run asks: whether a row fires while a state is active, or whether the behaviour of a state, with its
local data, accepts the event. -/
inductive Question (σ γ δ : Type) where
  | row (path : String) (active : σ) (index : Nat) (transition : Transition σ γ Nat)
  | reaction (behavior : Behavior γ δ) (data : δ)

/-- The verdict of a guard in a world and the world that the guard leaves; nothing if it panics. -/
def Guard.call? (g : Guard γ) (e : Event) (w : World σ γ) : Option (Except Cause Bool × World σ γ) :=
  match ((g.check e).run w.context).play w.exchange with
  | (⟨.ok verdict, context⟩, exchange) => some (verdict, { w with context, exchange })
  | (⟨.error _, _⟩, _) => none

namespace Question

variable [DecidableEq σ] (e : Event)

/-- The reply to a question in a world, and the world after it. A row that does not match does not fire, and one that
matches without a guard does; otherwise the guard is called, and if it fails, the row does not fire. -/
def reply : Question σ γ δ → World σ γ → Option (Bool × World σ γ)
  | .row path active index transition, w =>
    if transition.Matches active e then
      match transition.guard with
      | none => some (true, w)
      | some g =>
        (g.call? e { w with exchange := w.exchange.note (.guard path active index e) }).map fun (verdict, w') =>
          (verdict.toOption.getD false, w')
    else some (false, w)
  | .reaction behavior data, w => some (behavior.accepts w.context data e, w)

/-- The questions are asked one after the other, each in the world that the one before it left, up to the first yes. -/
def replies : List (Question σ γ δ) → World σ γ → Option (Bool × World σ γ)
  | [], w => some (false, w)
  | q :: qs, w => do
    let (yes, w') ← q.reply e w
    if yes then some (true, w') else replies qs w'

variable {e} {w : World σ γ} {path : String} {active : σ} {index : Nat}
  {transition : Transition σ γ Nat}

theorem reply_of_no_match (h : ¬transition.Matches active e) :
    (row path active index transition : Question σ γ δ).reply e w = some (false, w) := if_neg h

theorem reply_of_no_guard (h : transition.Matches active e) (hguard : transition.guard = none) :
    (row path active index transition : Question σ γ δ).reply e w = some (true, w) := by
  rw [reply, if_pos h, hguard]

/-- The reply of a row that matches and has a guard is that of the guard. -/
theorem reply_of_guard {g : Guard γ} (h : transition.Matches active e) (hguard : transition.guard = some g) :
    (row path active index transition : Question σ γ δ).reply e w =
      (g.call? e { w with exchange := w.exchange.note (.guard path active index e) }).map fun (verdict, w') =>
        (verdict.toOption.getD false, w') := by
  rw [reply, if_pos h, hguard]

theorem replies_reaction (behavior : Behavior γ δ) (data : δ) (w : World σ γ) :
    replies e [.reaction behavior data] w = some (behavior.accepts w.context data e, w) := by
  cases haccepts : behavior.accepts w.context data e <;> simp [replies, reply, haccepts]

/-- Further questions are asked only if the first ones are answered no. -/
theorem replies_append (l l' : List (Question σ γ δ)) (w : World σ γ) : replies e (l ++ l') w =
    (replies e l w).bind fun (yes, w') => if yes then some (true, w') else replies e l' w' := by
  induction l generalizing w with
  | nil => rfl
  | cons q l ih =>
    rw [List.cons_append, replies, replies]
    cases q.reply e w with
    | none => rfl
    | some reply =>
      obtain ⟨yes, w'⟩ := reply
      cases yes with
      | true => rfl
      | false => exact ih w'

end Question

/-! ## What a dry run asks -/

/-- The questions whether one of some rows fires, the first of them being row `index`. -/
def Question.ofRows (path : String) (active : σ) (index : Nat) (rows : List (Transition σ γ Nat)) :
    List (Question σ γ δ) :=
  (rows.zipIdx index).map fun p => .row path active p.2 p.1

/-- The questions about a region: for the active state its rows, what there is inside the state, and the reaction of the
state. Whether the state is complete does not matter. -/
def Region.questions (r : BuiltRegion σ γ δ) (m : Marking δ) : List (Question σ γ δ) :=
  r.collect (fun table position unit m inside => Question.ofRows table.path unit.id 0 table.rows ++
    (inside ++ [.reaction unit.behavior (m.data position unit.behavior.initial)])) m

/-- The questions about the regions of a machine. -/
def Chart.questions (c : Chart σ γ δ) (m : Marking δ) : List (Question σ γ δ) :=
  (Region.members 0 0 c.regions m).flatMap fun p => p.1.questions p.2

/-! ## Turns that ask -/

section Posing

variable [DecidableEq σ] {e : Event} {c : Configuration σ γ δ} {qs qs' : List (Question σ γ δ)} {x y : Turn σ γ δ Bool}

/-- From `c` the turn asks the questions in their order up to the first yes, and answers accordingly. The marking stays
the same. The turn halts if there is no reply. -/
def Turn.Poses (e : Event) (qs : List (Question σ γ δ)) (x : Turn σ γ δ Bool) (c : Configuration σ γ δ) : Prop :=
  Ends x c (fun b c' => c.marking.Same c'.marking ∧ Question.replies e qs c.world = some (b, c'.world))
    fun _ _ => Question.replies e qs c.world = none

namespace Turn

theorem Poses.refuse : Poses e [] (pure false) c := ⟨.refl _, rfl⟩

/-- A second turn asks further questions if the first one answers no. -/
theorem Poses.orElse (hx : Poses e qs x c) (hy : ∀ c₁, c.marking.Same c₁.marking → Poses e qs' y c₁) :
    Poses e (qs ++ qs') (x >>= fun b => if b then pure true else y) c := by
  unfold Poses
  rw [ends_bind, Question.replies_append]
  refine Ends.mono hx (fun b c₁ h₁ => ?_) fun _ _ h => by rw [h]; rfl
  obtain ⟨hsame, hreplies⟩ := h₁
  rw [hreplies]
  cases b with
  | true => exact ⟨hsame, rfl⟩
  | false => exact Ends.mono (hy c₁ hsame) (fun _ _ h => ⟨hsame.trans h.1, h.2⟩) fun _ _ h => h

theorem Poses.inChild {k : Nat × Nat} (h : Poses e qs x ⟨c.world, c.marking.child k⟩) :
    Poses e qs (inChild k x) c := by
  unfold Poses
  rw [ends_inChild]
  exact Ends.mono h (fun _ _ h => ⟨h.1.setChild, h.2⟩) fun _ _ h => h

end Turn

/-! ## Rows -/

omit [DecidableEq σ] in
/-- Calling a guard. -/
theorem Turn.perform_calls (g : Guard γ) (e : Event) (c : Configuration σ γ δ) :
    Ends (perform (g.check e).run) c
      (fun verdict c' => c'.marking = c.marking ∧ g.call? e c.world = some (verdict, c'.world))
      fun _ _ => g.call? e c.world = none := by
  unfold Guard.call? Ends perform performOn
  dsimp only
  generalize ((g.check e).run c.world.context).play c.world.exchange = played
  obtain ⟨⟨result, context⟩, exchange⟩ := played
  cases result with
  | ok verdict => exact ⟨rfl, rfl⟩
  | error message => rfl

variable {table : RegionTable σ γ} {active : σ}

/-- Asking one row, where a failure counts as a no. -/
theorem RegionTable.ask_replies (table : RegionTable σ γ) (active : σ) (index : Nat) (row : Transition σ γ Nat)
    (c : Configuration σ γ δ) :
    Ends (ask table.path active e index row) c
      (fun verdict c' => c'.marking = c.marking ∧
        (Question.row table.path active index row : Question σ γ δ).reply e c.world =
          some (verdict.toOption.getD false, c'.world))
      fun _ _ => (Question.row table.path active index row : Question σ γ δ).reply e c.world = none := by
  by_cases hhit : row.Matches active e
  · cases hguard : row.guard with
    | none =>
      rw [ends_of_ok (ask_of_no_guard hhit hguard)]
      exact ⟨rfl, Question.reply_of_no_guard hhit hguard⟩
    | some g =>
      rw [Question.reply_of_guard hhit hguard]
      unfold Ends
      rw [ask_of_guard hhit hguard]
      change Ends (table.evaluate active e index g) c _ _
      unfold evaluate
      rw [ends_bind, ends_note]
      refine (perform_calls g e _).mono (fun verdict c' h => ⟨h.1, ?_⟩) fun _ _ h => ?_
      · rw [h.2]
        rfl
      · rw [h]
        rfl
  · rw [ends_of_ok (ask_of_no_match hhit)]
    exact ⟨rfl, Question.reply_of_no_match hhit⟩

theorem RegionTable.anyEnabled_poses (table : RegionTable σ γ) (active : σ) (index : Nat)
    (rows : List (Transition σ γ Nat)) (c : Configuration σ γ δ) :
    Poses e (Question.ofRows table.path active index rows) (anyEnabled table.path active e index rows) c := by
  induction rows generalizing index c with
  | nil => exact .refuse
  | cons row rows ih =>
    have hquestions : (Question.ofRows table.path active index (row :: rows) : List (Question σ γ δ)) =
        .row table.path active index row :: Question.ofRows table.path active (index + 1) rows := rfl
    unfold Poses
    rw [anyEnabled, ends_bind, hquestions, Question.replies]
    refine (table.ask_replies active index row c).mono (fun verdict c₁ h₁ => ?_) fun _ _ h => by rw [h]; rfl
    obtain ⟨hmarking, hreply⟩ := h₁
    have hrest := Ends.mono (ih (index + 1) c₁) (fun _ _ h => And.imp_left (hmarking ▸ ·) h) fun _ _ h => h
    rw [hreply]
    rcases verdict with cause | _ | _
    · exact hrest
    · exact hrest
    · exact ⟨by rw [hmarking]; exact .refl _, rfl⟩

/-! ## Regions -/

theorem Region.check_of_at {nodes : List (BuiltNode σ γ δ)} {i : Nat} {n : BuiltNode σ γ δ} (hn : nodes[i]? = some n)
    (hactive : c.marking.active = .at i) : Region.check ⟨table, nodes⟩ e c =
      (table.accepts n.data.id e >>= fun b => if b then pure true else n.accepts i e) c := by
  have hthis : (Turn.active : Turn σ γ δ Active) c = .ok (.at i) c := by
    rw [← hactive]
    rfl
  rw [Region.check, bind_of_ok hthis]
  dsimp only
  rw [hn, Node.acceptsAt_eq, hn]
  rfl

/-- Without an active state, there is nothing to ask. -/
theorem Region.check_of_resting {nodes : List (BuiltNode σ γ δ)}
    (h : ∀ i n, c.marking.active = .at i → nodes[i]? ≠ some n) : Region.check ⟨table, nodes⟩ e c = .ok false c := by
  have hthis : (Turn.active : Turn σ γ δ Active) c = .ok c.marking.active c := rfl
  rw [Region.check, bind_of_ok hthis]
  cases hactive : c.marking.active with
  | stopped => rfl
  | final => rfl
  | «at» i =>
    dsimp only
    rw [Option.eq_none_iff_forall_ne_some.2 fun n => h i n hactive]
    rfl

theorem Region.checkAny_poses {rs : List (BuiltRegion σ γ δ)} {m : Marking δ}
    (h : ∀ r ∈ rs, ∀ (m : Marking δ) (c : Configuration σ γ δ), m.Same c.marking →
      Poses e (r.questions m) (r.check e) c)
    (position index : Nat) (c : Configuration σ γ δ) (hm : m.Same c.marking) :
    Poses e ((Region.members position index rs m).flatMap fun p => p.1.questions p.2)
      (Region.checkAny position index rs e) c := by
  induction rs generalizing index c with
  | nil => exact .refuse
  | cons r rs ih =>
    rw [List.forall_mem_cons] at h
    rw [Region.members, List.flatMap_cons, Region.checkAny]
    refine Poses.orElse (Poses.inChild (h.1 _ _ (hm.child _))) fun c₁ hsame => ?_
    exact ih h.2 (index + 1) c₁ (hm.trans hsame)

/-- A dry run of a region asks what there is to ask. -/
theorem Region.check_poses (r : BuiltRegion σ γ δ) (m : Marking δ) (c : Configuration σ γ δ) (hm : m.Same c.marking) :
    Poses e (r.questions m) (r.check e) c := by
  induction r using Region.induct generalizing m c with
  | step table nodes ih =>
    by_cases hat : ∃ i n, m.active = .at i ∧ nodes[i]? = some n
    · obtain ⟨i, n, hactive, hn⟩ := hat
      have hquestions : Region.questions ⟨table, nodes⟩ m = _ := Region.collect_of_at hn hactive
      have hregions := Region.checkAny_poses (e := e) (m := m) fun r hr => ih n (List.mem_of_getElem? hn) r hr
      unfold Poses Ends
      rw [Region.check_of_at hn (hm.active.trans hactive), hquestions]
      refine Poses.orElse (table.anyEnabled_poses n.data.id 0 table.rows c) fun c₁ h₁ => ?_
      rw [Node.accepts_eq]
      refine Poses.orElse (hregions i 0 c₁ (hm.trans h₁)) fun c₂ h₂ => ⟨.refl _, ?_⟩
      have hdata := (hm.trans (h₁.trans h₂)).data i n.data.behavior.initial
      rw [Question.replies_reaction, ← hdata]
    · have hresting (i : Nat) (n : BuiltNode σ γ δ) (hi : m.active = .at i) : nodes[i]? ≠ some n :=
        fun hn => hat ⟨i, n, hi, hn⟩
      have hquestions : Region.questions ⟨table, nodes⟩ m = [] := Region.collect_of_resting hresting
      unfold Poses Ends
      rw [Region.check_of_resting fun i n hi => hresting i n (hm.active.symm.trans hi), hquestions]
      exact ⟨.refl _, rfl⟩

end Posing

/-- What a dry run answers. -/
theorem Chart.check_poses [DecidableEq σ] [Named σ] (c : Chart σ γ δ) (e : Event) (s : Configuration σ γ δ) :
    Poses e (c.questions s.marking) (c.check e) s :=
  Region.checkAny_poses (fun r _ => r.check_poses) 0 0 s (.refl _)

/-! ## Guards that only read -/

section Readers

variable [DecidableEq σ] {e : Event} {q : Question σ γ δ} {qs : List (Question σ γ δ)} {w w' : World σ γ} {b : Bool}

/-- The guard that the question is about only reads. -/
def Question.ReadsOnly : Question σ γ δ → Prop
  | .row _ _ _ transition => ∀ g, transition.guard = some g → g.ReadsOnly
  | .reaction _ _ => True

/-- In the context `x` the question about the event is answered yes: the row matches and its guard, if it has one, is
true; or the behaviour accepts the event. -/
def Question.Accepts (e : Event) (x : γ) : Question σ γ δ → Prop
  | .row _ active _ transition => transition.Matches active e ∧ ∀ g, transition.guard = some g → g.Yields e x (.ok true)
  | .reaction behavior data => behavior.accepts x data e = true

/-- The reply of a question whose guard only reads. -/
theorem Question.accepts_iff_of_readsOnly (hq : q.ReadsOnly) (h : q.reply e w = some (b, w')) :
    w'.context = w.context ∧ (b = true ↔ q.Accepts e w.context) := by
  cases q with
  | reaction behavior data =>
    cases h
    exact ⟨rfl, Iff.rfl⟩
  | row path active index transition =>
    by_cases hhit : transition.Matches active e
    · cases hguard : transition.guard with
      | none =>
        rw [reply_of_no_guard hhit hguard] at h
        cases h
        exact ⟨rfl, iff_of_true rfl ⟨hhit, fun g hg => by rw [hguard] at hg; cases hg⟩⟩
      | some g =>
        rw [reply_of_guard hhit hguard] at h
        obtain ⟨⟨verdict, w₁⟩, hcall, ⟨⟩⟩ := Option.map_eq_some_iff.1 h
        unfold Guard.call? at hcall
        obtain ⟨verdict', hdone⟩ | ⟨message, hpanic⟩ := hq g hguard e w.context
        · have haccepts : (row path active index transition : Question σ γ δ).Accepts e w.context ↔
              verdict' = .ok true := by
            simp [Accepts, hhit, hguard, Guard.Yields, hdone]
          rw [hdone] at hcall
          cases hcall
          rw [haccepts]
          refine ⟨rfl, ?_⟩
          rcases verdict with cause | _ | _ <;> simp [Except.toOption]
        · rw [hpanic] at hcall
          cases hcall
    · rw [reply_of_no_match hhit] at h
      cases h
      exact ⟨rfl, iff_of_false Bool.false_ne_true fun h => hhit h.1⟩

/-- Where guards only read, the questions do not depend on one another. -/
theorem Question.replies_of_readsOnly (hqs : ∀ q ∈ qs, q.ReadsOnly) (h : replies e qs w = some (b, w')) :
    b = true ↔ ∃ q ∈ qs, q.Accepts e w.context := by
  induction qs generalizing w with
  | nil =>
    cases h
    simp
  | cons q qs ih =>
    rw [List.forall_mem_cons] at hqs
    obtain ⟨⟨yes, w₁⟩, hq, hrest⟩ := Option.bind_eq_some_iff.1 h
    obtain ⟨hcontext, haccepts⟩ := accepts_iff_of_readsOnly hqs.1 hq
    rw [List.exists_mem_cons_iff, ← haccepts]
    cases yes with
    | true =>
      cases hrest
      simp
    | false =>
      rw [ih hqs.2 hrest, hcontext]
      simp

end Readers

/-- Where guards only read, a dry run says yes if and only if one of the questions is answered yes in the context as it
is; only a panic keeps it from answering. -/
theorem Chart.check_of_readsOnly [DecidableEq σ] [Named σ] (c : Chart σ γ δ) {e : Event} {s : Configuration σ γ δ}
    (h : ∀ q ∈ c.questions s.marking, q.ReadsOnly) :
    Ends (c.check e) s (fun answer _ => answer = true ↔ ∃ q ∈ c.questions s.marking, q.Accepts e s.world.context)
      fun _ _ => Question.replies e (c.questions s.marking) s.world = none :=
  Ends.mono (c.check_poses e s) (fun _ _ hs => Question.replies_of_readsOnly h hs.2) fun _ _ h => h

end Statechart
