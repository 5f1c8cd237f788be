import Statechart.Proofs.Exchange

/-!
# Inert turns

Callbacks, hooks, the search for a row and the action of a row change nothing that is active. Each of
them is inert for every set of notes that admits the event it is about.

* `Turn.perform_inert`, `Turn.performAt_inert`, `Turn.orFail_inert`, `Turn.callHook_inert`;
* `Node.consult` : the own reaction of a state (`Node.react_eq`, `Node.consult_inert`);
* `RegionTable.resolve_inert`, `Region.act_inert`, `Region.remember_inert`, `Region.due_inert`.
-/

set_option autoImplicit false

namespace Statechart

variable {σ γ δ α κ : Type} {N : Note σ → Prop} {e : Event}

namespace Turn

theorem performOn_inert (hN : ∀ n : Note σ, n.isSilent = true → N n) {part : Configuration σ γ δ → κ}
    {put : κ → Configuration σ γ δ → Configuration σ γ δ}
    (hexchange : ∀ s c, (put s c).world.exchange = c.world.exchange)
    (hactive : ∀ s c, (put s c).marking.active = c.marking.active)
    (hchild : ∀ s c k, (put s c).marking.child k = c.marking.child k) (f : Callback κ α) :
    Inert N (performOn part put f) := by
  intro c
  have hplay := Course.play_follows hN (f (part c)) c.world.exchange
  unfold Ends performOn
  generalize (f (part c)).play c.world.exchange = played at hplay
  obtain ⟨⟨result, state⟩, x⟩ := played
  cases result with
  | ok a =>
    refine ⟨?_, hactive _ _, hchild _ _⟩
    unfold Configuration.Follows
    rwa [hexchange]
  | error message =>
    refine ⟨⟨?_, hactive _ _, hchild _ _⟩, ?_, rfl⟩
    · unfold Configuration.Follows
      rw [hexchange]
      exact hplay.trans (Exchange.follows_note (hN _ rfl) rfl x)
    · simp [Halt.IsNoted, hexchange, Exchange.note]

theorem perform_inert (hN : ∀ n : Note σ, n.isSilent = true → N n) (f : Callback γ α) :
    Inert N (perform f : Turn σ γ δ α) := by
  unfold perform
  apply performOn_inert hN <;> intros <;> rfl

theorem performAt_inert (hN : ∀ n : Note σ, n.isSilent = true → N n) (position : Nat) (initial : δ)
    (f : Callback (γ × δ) α) : Inert N (performAt position initial f : Turn σ γ δ α) := by
  unfold performAt
  apply performOn_inert hN <;> intros <;> rfl

theorem orFail_inert [Named σ] (hN : Note.Admits N e) (stage : Stage) (path : String) (s : σ)
    {x : Turn σ γ δ (Except Cause α)} (hx : Inert N x) : Inert N (orFail stage path s e x) := by
  refine hx.bind fun outcome => ?_
  cases outcome with
  | ok a => exact Inert.pure a
  | error cause =>
    intro c
    rw [ends_bind, ends_note, ends_fail]
    refine ⟨⟨Exchange.follows_note (hN _ ⟨rfl, by simp [Note.event?]⟩ rfl) rfl _, rfl, fun _ => rfl⟩, ?_, rfl⟩
    simp [Halt.IsNoted, Exchange.note]

theorem callHook_inert (hN : Note.Admits N e) {call : HookCall σ} (hcall : (Note.hook call).Concerns e)
    (hook : Option (Callback γ Unit)) : Inert N (callHook call hook : Turn σ γ δ Unit) := by
  cases hook with
  | none => exact Inert.pure ()
  | some f => exact (note_inert (hN _ hcall rfl) rfl).bind fun _ => perform_inert (fun _ => hN.silent) f

end Turn

open Turn

theorem Hooks.beforeTransition_inert (hN : Note.Admits N e) (h : Hooks σ γ) {m : Move σ}
    (hm : m.event = e) : Inert N (h.beforeTransition m : Turn σ γ δ Unit) :=
  callHook_inert hN ⟨rfl, by simp [Note.event?, hm]⟩ _

theorem Hooks.afterTransition_inert (hN : Note.Admits N e) (h : Hooks σ γ) {m : Move σ}
    (hm : m.event = e) : Inert N (h.afterTransition m : Turn σ γ δ Unit) :=
  callHook_inert hN ⟨rfl, by simp [Note.event?, hm]⟩ _

theorem Hooks.beforeProcessing_inert (hN : Note.Admits N e) (h : Hooks σ γ) :
    Inert N (h.beforeProcessing e : Turn σ γ δ Unit) :=
  callHook_inert hN ⟨rfl, by simp [Note.event?]⟩ _

theorem Hooks.afterProcessing_inert (hN : Note.Admits N e) (h : Hooks σ γ) (processed : Bool) :
    Inert N (h.afterProcessing e processed : Turn σ γ δ Unit) := by
  refine (callHook_inert hN ⟨rfl, by simp [Note.event?]⟩ _).bind fun _ => ?_
  split
  · exact callHook_inert hN ⟨rfl, by simp [Note.event?]⟩ _
  · exact Inert.pure ()

namespace RegionTable

variable [DecidableEq σ]

theorem ask_inert (hN : Note.Admits N e) (path : String) (active : σ) (index : Nat)
    (row : Transition σ γ Nat) :
    Inert N (ask path active e index row : Turn σ γ δ (Except Cause Bool)) := by
  have hcheck : Inert N (perform (row.canFire active e).run : Turn σ γ δ (Except Cause Bool)) :=
    perform_inert (fun _ => hN.silent) _
  unfold ask
  split
  · exact (note_inert (hN _ ⟨rfl, by simp [Note.event?]⟩ rfl) rfl).bind fun _ => hcheck
  · exact hcheck

theorem firstEnabled_inert (hN : Note.Admits N e) (path : String) (active : σ) :
    ∀ (index : Nat) (rows : List (Transition σ γ Nat)),
      Inert N (firstEnabled path active e index rows : Turn σ γ δ _)
  | _, [] => Inert.pure _
  | index, row :: rows => by
    refine (ask_inert hN path active index row).bind fun verdict => ?_
    split
    · exact Inert.pure _
    · exact Inert.pure _
    · exact firstEnabled_inert hN path active (index + 1) rows

theorem resolve_inert [Named σ] (hN : Note.Admits N e) (t : RegionTable σ γ) (position : Nat)
    (active : σ) : Inert N (t.resolve position active e : Turn σ γ δ (Option (Choice σ γ))) :=
  (orFail_inert hN _ _ _ (firstEnabled_inert hN _ _ _ _)).bind fun _ => Inert.pure _

end RegionTable

/-- The own reaction of a state to an event that none of its regions processed. -/
def Node.consult [Named σ] (path : String) (position : Nat) (n : BuiltNode σ γ δ) (e : Event) : Turn σ γ δ Bool := do
  note (.consulted path n.data.id e)
  let processed ← orFail .reaction path n.data.id e
    (performAt position n.data.behavior.initial (n.data.behavior.onEvent e).run)
  if processed then note (.reaction path n.data.id e)
  return processed

/-- A state reacts to an event in its regions, or else itself. -/
theorem Node.react_eq [DecidableEq σ] [Named σ] (setup : Setup σ γ) (path : String) (position : Nat)
    (n : BuiltNode σ γ δ) (e : Event) : n.react setup path position e = (do
      if ← Region.processAll setup position 0 n.regions e then return true
      n.consult path position e) := by
  obtain ⟨unit, regions⟩ := n
  rfl

theorem Node.consult_inert [Named σ] (hN : Note.Admits N e) (path : String) (position : Nat)
    (n : BuiltNode σ γ δ) : Inert N (n.consult path position e) := by
  unfold Node.consult
  refine (note_inert (hN _ ⟨rfl, by simp [Note.event?]⟩ rfl) rfl).bind fun _ => ?_
  refine (orFail_inert hN _ _ _ (performAt_inert (fun _ => hN.silent) _ _ _)).bind fun processed => ?_
  split
  · exact (note_inert (hN _ ⟨rfl, by simp [Note.event?]⟩ rfl) rfl).bind fun _ => Inert.pure _
  · exact Inert.pure _

namespace Region

variable [Named σ]

theorem act_inert (hN : Note.Admits N e) (path : String) (active : σ) (choice : Choice σ γ) :
    Inert N (act path active choice e : Turn σ γ δ Unit) := by
  unfold act
  split
  · exact Inert.pure ()
  · exact (note_inert (hN _ ⟨rfl, by simp [Note.event?]⟩ rfl) rfl).bind fun _ =>
      orFail_inert hN _ _ _ (perform_inert (fun _ => hN.silent) _)

omit [Named σ] in
theorem remember_inert (setup : Setup σ γ) (path : String) (source target : σ) (e : Event) :
    Inert N (remember setup path source target e : Turn σ γ δ Unit) := by
  unfold remember
  split
  · exact fun _ => ⟨.refl N _, rfl, fun _ => rfl⟩
  · exact Inert.pure ()

theorem due_inert [DecidableEq σ] (hN : Note.Admits N .completion) (table : RegionTable σ γ)
    (nodes : List (BuiltNode σ γ δ)) : Inert N (due table nodes) := by
  intro c
  unfold due
  simp only [ends_bind, ends_active]
  split
  · split
    · rw [ends_bind, ends_get]
      split
      · exact RegionTable.resolve_inert hN table _ _ c
      · exact Inert.pure _ c
    · exact Inert.pure _ c
  · exact Inert.pure _ c

end Region

end Statechart
