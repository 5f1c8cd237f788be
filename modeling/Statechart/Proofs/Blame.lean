import Statechart.Proofs.Inert

/-!
# What a failure says

A failure is reported in one place only, where the cause that a callback gave is turned into one. So what it
says can be read off the call: the stage, the path of the region, the state that answers for the callback, and
the kind of the event.

* `Failure.Names` : a failure says this; `Turn.Blames B` : a failure that halts the turn is in `B`;
* `Turn.Faultless` : no failure halts the turn; callbacks, hooks and records are of this kind;
* `RegionTable.resolve_blames`, `Node.consult_blames`, `Region.act_blames`, `Region.due_blames` : the other turns
  in which nothing is entered or left.
-/

set_option autoImplicit false

namespace Statechart

open Turn

variable {σ γ δ α β κ : Type}

/-- The failure was reported at the stage, for the state of the region with the path, and for an event of the
kind of `e`. -/
structure Failure.Names [Named σ] (f : Failure) (stage : Stage) (path : String) (s : σ) (e : Event) : Prop where
  stage : f.stage = stage
  region : f.region = path
  state : f.state = Named.name s
  event : f.event = e.kind

namespace Turn

/-- If a failure halts the turn, it is in `B`. -/
def Blames (B : Failure → Prop) (x : Turn σ γ δ α) : Prop :=
  ∀ c, Ends x c (fun _ _ => True) fun h _ => ∀ f, h = .error (.failure f) → B f

/-- No failure halts the turn. -/
abbrev Faultless (x : Turn σ γ δ α) : Prop := Blames (fun _ => False) x

variable {B : Failure → Prop}

theorem Blames.pure (a : α) : Blames B (Pure.pure a : Turn σ γ δ α) := fun _ => trivial

theorem Blames.bind {x : Turn σ γ δ α} {f : α → Turn σ γ δ β} (hx : Blames B x) (hf : ∀ a, Blames B (f a)) :
    Blames B (x >>= f) := by
  intro c
  rw [ends_bind]
  exact (hx c).mono (fun a c' _ => hf a c') fun _ _ h => h

theorem Faultless.blames {x : Turn σ γ δ α} (h : Faultless x) : Blames B x := fun c =>
  (h c).mono (fun _ _ h => h) fun _ _ h f hf => (h f hf).elim

theorem Faultless.ne {x : Turn σ γ δ α} (h : Faultless x) (c c' : Configuration σ γ δ) (f : Failure) :
    x c ≠ .error (.error (.failure f)) c' := fun hx => (h c).of_error hx f rfl

theorem note_faultless (n : Note σ) : Faultless (note n : Turn σ γ δ Unit) := fun _ => trivial

theorem performOn_faultless (part : Configuration σ γ δ → κ)
    (put : κ → Configuration σ γ δ → Configuration σ γ δ) (f : Callback κ α) :
    Faultless (performOn part put f) := by
  intro c
  unfold Ends performOn
  generalize (f (part c)).play c.world.exchange = played
  obtain ⟨⟨result, state⟩, x⟩ := played
  cases result with
  | ok a => trivial
  | error message => exact nofun

theorem callHook_faultless (call : HookCall σ) (hook : Option (Callback γ Unit)) :
    Faultless (callHook call hook : Turn σ γ δ Unit) := by
  cases hook with
  | none => exact Blames.pure ()
  | some f => exact (note_faultless _).bind fun _ => performOn_faultless _ _ f

/-- The only place where a failure is reported. -/
theorem orFail_blames [Named σ] (stage : Stage) (path : String) (s : σ) (e : Event)
    {x : Turn σ γ δ (Except Cause α)} (hx : Faultless x) :
    Blames (fun f => f.Names stage path s e) (orFail stage path s e x) := by
  refine hx.blames.bind fun outcome => ?_
  cases outcome with
  | ok a => exact Blames.pure a
  | error cause =>
    refine (note_faultless _).blames.bind fun _ c => ?_
    rw [ends_fail]
    rintro f ⟨⟩
    exact ⟨rfl, rfl, rfl, rfl⟩

end Turn

variable {e : Event}

section Rows

variable [DecidableEq σ]

theorem RegionTable.ask_faultless (path : String) (active : σ) (index : Nat) (row : Transition σ γ Nat) :
    Faultless (ask path active e index row : Turn σ γ δ (Except Cause Bool)) := by
  have hcheck : Faultless (perform (row.canFire active e).run : Turn σ γ δ (Except Cause Bool)) :=
    performOn_faultless _ _ _
  unfold ask
  split
  · exact (note_faultless _).bind fun _ => hcheck
  · exact hcheck

theorem RegionTable.firstEnabled_faultless (path : String) (active : σ) :
    ∀ (index : Nat) (rows : List (Transition σ γ Nat)),
      Faultless (firstEnabled path active e index rows : Turn σ γ δ _)
  | _, [] => Blames.pure _
  | index, row :: rows => by
    refine (ask_faultless path active index row).bind fun verdict => ?_
    split
    · exact Blames.pure _
    · exact Blames.pure _
    · exact firstEnabled_faultless path active (index + 1) rows

variable [Named σ]

theorem RegionTable.resolve_blames (t : RegionTable σ γ) (position : Nat) (active : σ) :
    Blames (fun f => f.Names .guard t.path active e)
      (t.resolve position active e : Turn σ γ δ (Option (Choice σ γ))) :=
  (orFail_blames _ _ _ _ (firstEnabled_faultless _ _ _ _)).bind fun _ => Blames.pure _

/-- What is due is chosen for the active state. -/
theorem Region.due_blames (table : RegionTable σ γ) (nodes : List (BuiltNode σ γ δ)) (c : Configuration σ γ δ) :
    Ends (due table nodes) c (fun _ _ => True) fun h _ => ∀ f, h = .error (.failure f) →
      ∃ i n, c.marking.active = .at i ∧ nodes[i]? = some n ∧
        f.Names .guard table.path n.data.id .completion := by
  unfold due
  simp only [ends_bind, ends_active]
  split
  · rename_i i hactive
    split
    · rename_i n hn
      rw [ends_bind, ends_get]
      split
      · refine (RegionTable.resolve_blames table i n.data.id c).mono (fun _ _ h => h) fun _ _ h f hf => ?_
        exact ⟨i, n, hactive, hn, h f hf⟩
      · trivial
    · trivial
  · trivial

end Rows

theorem Node.consult_blames [Named σ] (path : String) (position : Nat) (n : BuiltNode σ γ δ) :
    Blames (fun f => f.Names .reaction path n.data.id e) (n.consult path position e) := by
  unfold Node.consult
  refine (note_faultless _).blames.bind fun _ => ?_
  refine (orFail_blames _ _ _ _ (performOn_faultless _ _ _)).bind fun processed => ?_
  split
  · exact (note_faultless _).blames.bind fun _ => Blames.pure _
  · exact Blames.pure _

theorem Region.act_blames [Named σ] (path : String) (active : σ) (choice : Choice σ γ) :
    Blames (fun f => f.Names .action path active e) (act path active choice e : Turn σ γ δ Unit) := by
  unfold act
  split
  · exact Blames.pure ()
  · exact (note_faultless _).blames.bind fun _ => orFail_blames _ _ _ _ (performOn_faultless _ _ _)

theorem Region.remember_faultless (setup : Setup σ γ) (path : String) (source target : σ) (e : Event) :
    Faultless (remember setup path source target e : Turn σ γ δ Unit) := by
  unfold remember
  split
  · exact fun _ => trivial
  · exact Blames.pure ()

end Statechart
