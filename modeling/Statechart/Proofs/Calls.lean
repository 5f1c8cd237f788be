import Statechart.Proofs.Blame
import Statechart.Proofs.Completions
import Statechart.Proofs.Tracking

/-!
# Calls of the hooks around transitions

* `moveCalls` : the calls of the two hooks among some notes; `Balanced`, `LeftOpen ms` : every call before a transition
  is matched by one after it, or all but those for `ms` are;
* `Configuration.Writes l` : the notes that were written on the way from one configuration to another;
* `Halt.Reported l` : the notes `l` end with the call that failed and with its failure, or with an overflow;
* `Turn.Plain` : turns that call neither hook and report what halts them; `Turn.Accounts` : turns that account for the
  cause they come to; `RegionTable.resolve_plain`, `Region.act_plain`, `Node.consult_plain` and others.
-/

set_option autoImplicit false

namespace Statechart

open Turn

variable {σ γ δ α β : Type}

/-! ## Calls around transitions -/

/-- The call of a hook before or after a transition. -/
def Note.moveCall? : Note σ → Option (HookCall σ)
  | .hook (.preTransition m) => some (.preTransition m)
  | .hook (.postTransition m) => some (.postTransition m)
  | _ => none

/-- The calls of the hooks around transitions. -/
def moveCalls (l : List (Note σ)) : List (HookCall σ) := l.filterMap Note.moveCall?

@[simp] theorem moveCalls_nil : moveCalls ([] : List (Note σ)) = [] := rfl

@[simp] theorem moveCalls_append (l l' : List (Note σ)) : moveCalls (l ++ l') = moveCalls l ++ moveCalls l' :=
  List.filterMap_append

theorem moveCalls_eq_nil {l : List (Note σ)} (h : ∀ n ∈ l, n.moveCall? = none) : moveCalls l = [] :=
  List.filterMap_eq_nil_iff.2 h

theorem Note.moveCall?_of_isSilent {n : Note σ} (h : n.isSilent = true) : n.moveCall? = none := by
  cases n <;> simp_all [isSilent, moveCall?]

/-- Every call before a transition is matched by one after the same transition. -/
inductive Balanced : List (HookCall σ) → Prop where
  | nil : Balanced []
  | around (m : Move σ) {l l' : List (HookCall σ)} (inner : Balanced l) (rest : Balanced l') :
    Balanced (.preTransition m :: (l ++ .postTransition m :: l'))

/-- All calls are matched but those before the transitions `ms`, the first of which is the outermost. -/
inductive LeftOpen : List (Move σ) → List (HookCall σ) → Prop where
  | none {l : List (HookCall σ)} (h : Balanced l) : LeftOpen [] l
  | some {m : Move σ} {ms : List (Move σ)} {l l' : List (HookCall σ)} (before : Balanced l)
    (inner : LeftOpen ms l') : LeftOpen (m :: ms) (l ++ .preTransition m :: l')

theorem Balanced.append {l l' : List (HookCall σ)} (h : Balanced l) (h' : Balanced l') : Balanced (l ++ l') := by
  induction h with
  | nil => exact h'
  | around m inner _ _ ih =>
    rw [List.cons_append, List.append_assoc, List.cons_append]
    exact .around m inner ih

theorem LeftOpen.prepend {ms : List (Move σ)} {l l' : List (HookCall σ)} (hl : Balanced l) (h : LeftOpen ms l') :
    LeftOpen ms (l ++ l') := by
  cases h with
  | none h => exact .none (hl.append h)
  | some before inner =>
    rw [← List.append_assoc]
    exact .some (hl.append before) inner

/-- What is left open can be closed, the innermost transition first. -/
theorem LeftOpen.closed {ms : List (Move σ)} {l : List (HookCall σ)} (h : LeftOpen ms l) :
    Balanced (l ++ ms.reverse.map .postTransition) := by
  induction h with
  | none h => simpa using h
  | @some m ms l l' before _ ih =>
    rw [List.append_assoc, List.reverse_cons, List.map_append, List.cons_append, ← List.append_assoc l']
    exact before.append (.around m ih .nil)

/-! ## What halts a pass -/

variable [Named σ]

/-- The failure came from the callback of which the note tells that it was called. -/
def Failure.CameFrom (f : Failure) : Note σ → Prop
  | .guard path s _ e => f.Names .guard path s e
  | .action path s _ e => f.Names .action path s e
  | .entry path s e => f.Names .entry path s e
  | .exit path s e => f.Names .exit path s e
  | .consulted path s e => f.Names .reaction path s e
  | _ => False

/-- The notes end with the call that the failure came from, what was raised in it, and the failure; or with an
overflow. -/
def Halt.Reported : Halt → List (Note σ) → Prop
  | .error (.failure f), l => ∃ before call raised, l = before ++ call :: (raised ++ [.failed f]) ∧
      f.CameFrom call ∧ ∀ n ∈ raised, n.isSilent = true
  | .error (.completionOverflow region limit), l => ∃ before, l = before ++ [.overflowed region limit]
  | _, _ => True

theorem Halt.Reported.prepend {h : Halt} {l : List (Note σ)} (hl : h.Reported l) (l' : List (Note σ)) :
    h.Reported (l' ++ l) := by
  unfold Reported at hl ⊢
  split at hl
  · obtain ⟨before, call, raised, rfl, hcall⟩ := hl
    exact ⟨l' ++ before, call, raised, by rw [List.append_assoc], hcall⟩
  · obtain ⟨before, rfl⟩ := hl
    exact ⟨l' ++ before, by rw [List.append_assoc]⟩
  · trivial

/-! ## Turns that call neither hook -/

omit [Named σ] in
/-- On the way from one configuration to the other the notes `l` were written. -/
def Configuration.Writes (c : Configuration σ γ δ) (l : List (Note σ)) (c' : Configuration σ γ δ) : Prop :=
  c'.notes = c.notes ++ l

section Writes

omit [Named σ]

variable {c c₁ c' : Configuration σ γ δ} {l l' : List (Note σ)}

theorem Configuration.Writes.refl (c : Configuration σ γ δ) : c.Writes [] c := (List.append_nil _).symm

theorem Configuration.Writes.trans (h : c.Writes l c₁) (h' : c₁.Writes l' c') : c.Writes (l ++ l') c' := by
  unfold Configuration.Writes at h h' ⊢
  rw [h', h, List.append_assoc]

theorem Configuration.writes_note (c : Configuration σ γ δ) (n : Note σ) :
    c.Writes [n] { c with world.exchange := c.world.exchange.note n } :=
  c.notes_note n

theorem Configuration.Follows.writes {N : Note σ → Prop} (h : c.Follows N c') :
    ∃ l, c.Writes l c' ∧ ∀ n ∈ l, N n := by
  obtain ⟨l, hwrote, hl⟩ := h
  exact ⟨l, hwrote.journal, hl⟩

end Writes

namespace Turn

/-- The turn calls no hook around a transition, and what halts it is reported. -/
def Plain (x : Turn σ γ δ α) : Prop :=
  ∀ c, Ends x c (fun _ c' => ∃ l, c.Writes l c' ∧ moveCalls l = [])
    fun h c' => ∃ l, c.Writes l c' ∧ moveCalls l = [] ∧ h.Reported l

theorem Plain.pure (a : α) : Plain (Pure.pure a : Turn σ γ δ α) := fun c => ⟨[], .refl c, rfl⟩

theorem Plain.bind {x : Turn σ γ δ α} {y : α → Turn σ γ δ β} (hx : Plain x) (hy : ∀ a, Plain (y a)) :
    Plain (x >>= y) := by
  intro c
  rw [ends_bind]
  refine (hx c).mono (fun a c₁ h₁ => ?_) fun _ _ h => h
  obtain ⟨l, hl, hnone⟩ := h₁
  refine (hy a c₁).mono (fun b c₂ h₂ => ?_) fun halt c₂ h₂ => ?_
  · obtain ⟨l', hl', hnone'⟩ := h₂
    exact ⟨l ++ l', hl.trans hl', by rw [moveCalls_append, hnone, hnone', List.append_nil]⟩
  · obtain ⟨l', hl', hnone', hreported⟩ := h₂
    exact ⟨l ++ l', hl.trans hl', by rw [moveCalls_append, hnone, hnone', List.append_nil], hreported.prepend l⟩

theorem note_plain {n : Note σ} (hn : n.moveCall? = none) : Plain (note n : Turn σ γ δ Unit) :=
  fun c => ⟨[n], c.writes_note n, moveCalls_eq_nil (by simpa using hn)⟩

/-- A callback writes what becomes of the events it raises, and only a panic halts it. -/
theorem Inert.raises {x : Turn σ γ δ α} (hx : Inert (fun n => n.isSilent = true) x) (hfaultless : Faultless x)
    (c : Configuration σ γ δ) : Ends x c (fun _ c' => ∃ l, c.Writes l c' ∧ ∀ n ∈ l, n.isSilent = true)
      fun h c' => ∃ l, c.Writes l c' ∧ moveCalls l = [] ∧ h.Reported l := by
  refine ((hx c).and (hfaultless c)).mono (fun _ c' h => h.1.follows.writes) fun halt c' h => ?_
  obtain ⟨⟨hsteps, -, hoverflow⟩, hfault⟩ := h
  obtain ⟨l, hl, hsilent⟩ := hsteps.follows.writes
  refine ⟨l, hl, moveCalls_eq_nil fun n hn => Note.moveCall?_of_isSilent (hsilent n hn), ?_⟩
  unfold Halt.Reported
  split
  · exact (hfault _ rfl).elim
  · cases hoverflow
  · trivial

theorem Inert.plain {x : Turn σ γ δ α} (hx : Inert (fun n => n.isSilent = true) x) (hfaultless : Faultless x) :
    Plain x := fun c =>
  (hx.raises hfaultless c).mono (fun _ _ h => by
    obtain ⟨l, hl, hsilent⟩ := h
    exact ⟨l, hl, moveCalls_eq_nil fun n hn => Note.moveCall?_of_isSilent (hsilent n hn)⟩) fun _ _ h => h

theorem perform_plain (f : Callback γ α) : Plain (perform f : Turn σ γ δ α) :=
  Inert.plain (perform_inert (fun _ => id) f) (performOn_faultless _ _ f)

/-- The turn calls no hook around a transition. If it comes to a cause, this came from the last callback that was
called, whose call is in `C`. -/
def Accounts (C : Note σ → Prop) (x : Turn σ γ δ (Except Cause α)) : Prop :=
  ∀ c, Ends x c
    (fun outcome c' => ∃ l, c.Writes l c' ∧ moveCalls l = [] ∧ ∀ cause, outcome = .error cause →
      ∃ before call raised, l = before ++ call :: raised ∧ C call ∧ ∀ n ∈ raised, n.isSilent = true)
    fun h c' => ∃ l, c.Writes l c' ∧ moveCalls l = [] ∧ h.Reported l

/-- A call of a callback with its note. -/
theorem accounts_call {C : Note σ → Prop} {call : Note σ} (hcall : call.moveCall? = none) (hC : C call)
    {x : Turn σ γ δ (Except Cause α)} (hx : Inert (fun n => n.isSilent = true) x) (hfaultless : Faultless x) :
    Accounts C (do note call; x) := by
  intro c
  rw [ends_bind, ends_note]
  have hnoted := c.writes_note call
  have hnone {l : List (Note σ)} (hl : moveCalls l = []) : moveCalls ([call] ++ l) = [] := by
    rw [moveCalls_append, hl, moveCalls_eq_nil (by simpa using hcall)]
    rfl
  refine (hx.raises hfaultless _).mono (fun outcome c' h => ?_) fun halt c' h => ?_
  · obtain ⟨l, hl, hsilent⟩ := h
    have hl' := moveCalls_eq_nil fun n hn => Note.moveCall?_of_isSilent (hsilent n hn)
    exact ⟨[call] ++ l, hnoted.trans hl, hnone hl', fun _ _ => ⟨[], call, l, rfl, hC, hsilent⟩⟩
  · obtain ⟨l, hl, hl', hreported⟩ := h
    exact ⟨[call] ++ l, hnoted.trans hl, hnone hl', hreported.prepend _⟩

/-- The cause is reported as the failure of the call. -/
theorem Accounts.orFail {C : Note σ → Prop} {x : Turn σ γ δ (Except Cause α)} (hx : Accounts C x) {stage : Stage}
    {path : String} {s : σ} {e : Event}
    (hC : ∀ call, C call → ∀ f : Failure, f.Names stage path s e → f.CameFrom call) :
    Plain (orFail stage path s e x) := by
  intro c
  unfold Turn.orFail
  rw [ends_bind]
  refine (hx c).mono (fun outcome c₁ h₁ => ?_) fun _ _ h => h
  obtain ⟨l, hl, hnone, hcause⟩ := h₁
  cases outcome with
  | ok a => exact ⟨l, hl, hnone⟩
  | error cause =>
    obtain ⟨before, call, raised, rfl, hcall, hsilent⟩ := hcause cause rfl
    rw [ends_bind, ends_note, ends_fail]
    refine ⟨_, hl.trans (c₁.writes_note _), by rw [moveCalls_append, hnone]; rfl, ?_⟩
    exact ⟨before, call, raised, by simp, hC call hcall _ ⟨rfl, rfl, rfl, rfl⟩, hsilent⟩

/-- A callback whose cause is reported as a failure. -/
theorem reported_call_plain {call : Note σ} (hcall : call.moveCall? = none) {stage : Stage} {path : String} {s : σ}
    {e : Event} (hfrom : ∀ f : Failure, f.Names stage path s e → f.CameFrom call)
    {x : Turn σ γ δ (Except Cause α)} (hx : Inert (fun n => n.isSilent = true) x) (hfaultless : Faultless x) :
    Plain (do note call; orFail stage path s e x) := by
  have hassoc : (do note call; orFail stage path s e x) = orFail stage path s e (do note call; x) := by
    unfold Turn.orFail
    rw [bind_assoc]
  rw [hassoc]
  exact (accounts_call (C := (· = call)) hcall rfl hx hfaultless).orFail fun _ h => h ▸ hfrom

theorem performAt_reported {call : Note σ} (hcall : call.moveCall? = none) {stage : Stage} {path : String} {s : σ}
    {e : Event} (hfrom : ∀ f : Failure, f.Names stage path s e → f.CameFrom call) (position : Nat) (initial : δ)
    (f : Callback (γ × δ) (Except Cause α)) :
    Plain (do note call; orFail stage path s e (performAt position initial f)) :=
  reported_call_plain hcall hfrom (performAt_inert (fun _ => id) _ _ f) (performOn_faultless _ _ f)

/-- A hook that is not called around a transition. -/
theorem callHook_plain {call : HookCall σ} (hcall : (Note.hook call).moveCall? = none)
    (hook : Option (Callback γ Unit)) : Plain (callHook call hook : Turn σ γ δ Unit) := by
  cases hook with
  | none => exact Plain.pure ()
  | some f => exact (note_plain hcall).bind fun _ => perform_plain f

end Turn

variable {e : Event}

section Rows

variable [DecidableEq σ]

/-- The call of a guard of the region for its active state. -/
def Note.IsAsking (path : String) (active : σ) (e : Event) (n : Note σ) : Prop :=
  ∃ k, n = .guard path active k e

theorem RegionTable.ask_accounts (path : String) (active : σ) (index : Nat) (row : Transition σ γ Nat) :
    Accounts (Note.IsAsking path active e) (ask path active e index row : Turn σ γ δ (Except Cause Bool)) := by
  intro c
  cases hconcerns : row.concerns active e with
  | false =>
    rw [ends_of_ok (ask_of_not_concerns hconcerns index)]
    exact ⟨[], .refl c, rfl, nofun⟩
  | true =>
    cases hguard : row.guard with
    | none =>
      rw [ends_of_ok (ask_of_unguarded hconcerns hguard index)]
      exact ⟨[], .refl c, rfl, nofun⟩
    | some guard =>
      have hask : ask path active e index row = (do
          note (.guard path active index e)
          perform (row.canFire active e).run : Turn σ γ δ (Except Cause Bool)) := by
        unfold ask
        rw [hconcerns, hguard]
        rfl
      rw [hask]
      exact accounts_call rfl ⟨index, rfl⟩ (perform_inert (fun _ => id) _) (performOn_faultless _ _ _) c

theorem RegionTable.firstEnabled_accounts (path : String) (active : σ) :
    ∀ (index : Nat) (rows : List (Transition σ γ Nat)), Accounts (Note.IsAsking path active e)
      (firstEnabled path active e index rows : Turn σ γ δ _)
  | _, [] => fun c => ⟨[], .refl c, rfl, nofun⟩
  | index, row :: rows => by
    intro c
    rw [firstEnabled, ends_bind]
    refine (ask_accounts path active index row c).mono (fun verdict c₁ h₁ => ?_) fun _ _ h => h
    obtain ⟨l, hl, hnone, hcause⟩ := h₁
    split
    · exact ⟨l, hl, hnone, fun _ _ => hcause _ rfl⟩
    · refine ⟨l, hl, hnone, fun _ hfound => ?_⟩
      cases hfound
    · refine (firstEnabled_accounts path active (index + 1) rows c₁).mono (fun found c₂ h₂ => ?_)
        fun halt c₂ h₂ => ?_
      · obtain ⟨l', hl', hnone', hcause'⟩ := h₂
        refine ⟨l ++ l', hl.trans hl', by rw [moveCalls_append, hnone, hnone', List.append_nil], fun cause h => ?_⟩
        obtain ⟨before, call, raised, rfl, hcall⟩ := hcause' cause h
        exact ⟨l ++ before, call, raised, by rw [List.append_assoc], hcall⟩
      · obtain ⟨l', hl', hnone', hreported⟩ := h₂
        exact ⟨l ++ l', hl.trans hl', by rw [moveCalls_append, hnone, hnone', List.append_nil], hreported.prepend l⟩

theorem RegionTable.resolve_plain (t : RegionTable σ γ) (position : Nat) (active : σ) :
    Plain (t.resolve position active e : Turn σ γ δ (Option (Choice σ γ))) := by
  refine Plain.bind ((firstEnabled_accounts _ _ _ _).orFail ?_) fun _ => Plain.pure _
  rintro _ ⟨k, rfl⟩ f hf
  exact hf

theorem Region.due_plain (table : RegionTable σ γ) (nodes : List (BuiltNode σ γ δ)) :
    Plain (Region.due table nodes) := by
  have hnone : Plain (Pure.pure none : Turn σ γ δ (Option (Choice σ γ))) := Plain.pure none
  intro c
  unfold Region.due
  simp only [ends_bind, ends_active]
  split
  · split
    · rw [ends_bind, ends_get]
      split
      · exact RegionTable.resolve_plain _ _ _ c
      · exact hnone c
    · exact hnone c
  · exact hnone c

end Rows

theorem Region.act_plain (path : String) (active : σ) (choice : Choice σ γ) :
    Plain (Region.act path active choice e : Turn σ γ δ Unit) := by
  unfold Region.act
  split
  · exact Plain.pure ()
  · exact reported_call_plain rfl (fun _ => id) (perform_inert (fun _ => id) _) (performOn_faultless _ _ _)

theorem Region.remember_plain (setup : Setup σ γ) (path : String) (source target : σ) :
    Plain (Region.remember setup path source target e : Turn σ γ δ Unit) := by
  unfold Region.remember
  split
  · exact fun c => ⟨[], .refl c, rfl⟩
  · exact Plain.pure ()

theorem Node.consult_plain (path : String) (position : Nat) (n : BuiltNode σ γ δ) :
    Plain (n.consult path position e) := by
  unfold Node.consult
  have hcall : Plain (do
      note (.consulted path n.data.id e)
      orFail .reaction path n.data.id e
        (performAt position n.data.behavior.initial (n.data.behavior.onEvent e).run) : Turn σ γ δ Bool) :=
    performAt_reported rfl (fun _ => id) _ _ _
  rw [← bind_assoc]
  refine hcall.bind fun processed => ?_
  split
  · exact (note_plain rfl).bind fun _ => Plain.pure _
  · exact Plain.pure _

end Statechart
