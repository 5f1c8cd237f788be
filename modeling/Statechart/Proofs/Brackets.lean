import Statechart.Proofs.Calls
import Statechart.Run

/-!
# Transitions are bracketed

The hooks around transitions are called like brackets: what a transition does, with the transitions inside it, lies
between the two calls for it. When a pass over the regions is broken off, the calls that are left open lead from a
region to regions of the states that it was leaving or entering.

* `Region.Opens` : transitions that may be open at the same time, outer ones first;
* `Turn.Brackets O` : turns that call the hooks like brackets, where what is left open is in `O`; `Brackets.around` :
  what comes between two calls;
* `Region.stop_brackets`, `Region.start_brackets`, `Region.process_brackets` : the turns of a region;
* `Chart.IsPass` : the passes over the regions of a machine; `transitions_are_bracketed`.
-/

set_option autoImplicit false

namespace Statechart

open Turn

variable {σ γ δ α β : Type}

/-! ## Transitions that are open at the same time -/

/-- Transitions inside each other: one of the region, then one of a region of the state that it leaves or enters,
and so on. -/
inductive Region.Opens : BuiltRegion σ γ δ → List (Move σ) → Prop where
  | here {r : BuiltRegion σ γ δ} {m : Move σ} (hm : m.region = r.data.path) : Opens r [m]
  | inner {r r' : BuiltRegion σ γ δ} {n : BuiltNode σ γ δ} {m : Move σ} {ms : List (Move σ)}
    (hm : m.region = r.data.path) (hn : n ∈ r.nodes)
    (hslot : m.source = .state n.data.id ∨ m.target = .state n.data.id) (hr' : r' ∈ n.regions) (h : Opens r' ms) :
    Opens r (m :: ms)

/-- Transitions inside each other, the first of them in a region of the state. -/
def Node.Opens (n : BuiltNode σ γ δ) (ms : List (Move σ)) : Prop := ∃ r ∈ n.regions, r.Opens ms

variable [Named σ] {e : Event}

/-! ## Turns that call the hooks like brackets -/

/-- The two hooks around transitions are there. -/
structure Hooks.Watch (h : Hooks σ γ) : Prop where
  pre : h.preTransition.isSome
  post : h.postTransition.isSome

namespace Turn

/-- The calls around transitions are matched. If the turn is halted, all but those before some transitions are, which
are none or in `O`. -/
def Brackets (O : List (Move σ) → Prop) (x : Turn σ γ δ α) : Prop :=
  ∀ c, Ends x c (fun _ c' => ∃ l, c.Writes l c' ∧ Balanced (moveCalls l))
    fun h c' => ∃ l ms, c.Writes l c' ∧ LeftOpen ms (moveCalls l) ∧ (ms = [] ∨ O ms) ∧ h.Reported l

variable {O O' : List (Move σ) → Prop} {x : Turn σ γ δ α}

theorem Plain.brackets (hx : Plain x) : Brackets O x := by
  intro c
  refine (hx c).mono (fun _ c' h => ?_) fun halt c' h => ?_
  · obtain ⟨l, hl, hnone⟩ := h
    exact ⟨l, hl, hnone ▸ .nil⟩
  · obtain ⟨l, hl, hnone, hreported⟩ := h
    exact ⟨l, [], hl, .none (hnone ▸ .nil), .inl rfl, hreported⟩

theorem Brackets.mono (hx : Brackets O x) (h : ∀ ms, O ms → O' ms) : Brackets O' x := fun c =>
  (hx c).mono (fun _ _ h => h) fun _ _ ⟨l, ms, hl, hopen, hms, hreported⟩ =>
    ⟨l, ms, hl, hopen, hms.imp_right (h ms), hreported⟩

theorem Brackets.pure (a : α) : Brackets O (Pure.pure a : Turn σ γ δ α) := (Plain.pure a).brackets

/-- Two turns after each other, where `P` is known of the value of the first. -/
theorem Brackets.bind_of_ends {P : α → Prop} {y : α → Turn σ γ δ β} (hx : Brackets O x)
    (hP : ∀ c, Ends x c (fun a _ => P a) fun _ _ => True) (hy : ∀ a, P a → Brackets O (y a)) :
    Brackets O (x >>= y) := by
  intro c
  rw [ends_bind]
  refine ((hx c).and (hP c)).mono (fun a c₁ h₁ => ?_) fun _ _ h => h.1
  obtain ⟨⟨l, hl, hbalanced⟩, ha⟩ := h₁
  refine (hy a ha c₁).mono (fun b c₂ h₂ => ?_) fun halt c₂ h₂ => ?_
  · obtain ⟨l', hl', hbalanced'⟩ := h₂
    exact ⟨l ++ l', hl.trans hl', by rw [moveCalls_append]; exact hbalanced.append hbalanced'⟩
  · obtain ⟨l', ms, hl', hopen, hms, hreported⟩ := h₂
    exact ⟨l ++ l', ms, hl.trans hl', by rw [moveCalls_append]; exact hopen.prepend hbalanced, hms,
      hreported.prepend l⟩

theorem Brackets.bind {y : α → Turn σ γ δ β} (hx : Brackets O x) (hy : ∀ a, Brackets O (y a)) :
    Brackets O (x >>= y) :=
  hx.bind_of_ends (P := fun _ => True) (fun c => by unfold Ends; split <;> trivial) fun a _ => hy a

theorem Brackets.inChild (k : Nat × Nat) (hx : Brackets O x) : Brackets O (inChild k x) := by
  intro c
  rw [ends_inChild]
  exact hx ⟨c.world, c.marking.child k⟩

theorem setActive_brackets (a : Active) : Brackets O (setActive a : Turn σ γ δ Unit) :=
  fun c => ⟨[], .refl c, .nil⟩

theorem brackets_elim {nodes : List (BuiltNode σ γ δ)} {i : Nat} (a : α)
    {y : BuiltNode σ γ δ → Turn σ γ δ α} (h : ∀ n, nodes[i]? = some n → Brackets O (y n)) :
    Brackets O ((nodes[i]?).elim (Pure.pure a) y) := by
  cases hn : nodes[i]? with
  | none => exact Brackets.pure a
  | some n => exact h n hn

theorem brackets_onEach {y : BuiltRegion σ γ δ → Turn σ γ δ α} {rs : List (BuiltRegion σ γ δ)}
    (h : ∀ r ∈ rs, Brackets O (y r)) (position index : Nat) : Brackets O (onEach y position index rs) := by
  induction rs generalizing index with
  | nil => exact Brackets.pure []
  | cons r rs ih =>
    rw [List.forall_mem_cons] at h
    exact (h.1.inChild _).bind fun _ => (ih h.2 _).bind fun _ => Brackets.pure _

/-- A hook is called, and what it raises follows. -/
theorem callHook_ends {call : HookCall σ} {hook : Option (Callback γ Unit)} (hhook : hook.isSome)
    (c : Configuration σ γ δ) : Ends (callHook call hook) c
      (fun _ c' => ∃ l, c.Writes (.hook call :: l) c' ∧ moveCalls l = [])
      fun h c' => ∃ l, c.Writes (.hook call :: l) c' ∧ moveCalls l = [] ∧ h.Reported (.hook call :: l) := by
  obtain ⟨f, rfl⟩ := Option.isSome_iff_exists.1 hhook
  unfold callHook
  rw [ends_bind, ends_note]
  have hnoted := c.writes_note (.hook call)
  refine (perform_plain f _).mono (fun _ c' h => ?_) fun halt c' h => ?_
  · obtain ⟨l, hl, hnone⟩ := h
    exact ⟨l, hnoted.trans hl, hnone⟩
  · obtain ⟨l, hl, hnone, hreported⟩ := h
    exact ⟨l, hnoted.trans hl, hnone, hreported.prepend [_]⟩

/-- What comes between the calls before and after a transition. -/
theorem Brackets.around {h : Hooks σ γ} (hh : h.Watch) {m : Move σ} {x : Turn σ γ δ Unit} (hx : Brackets O x)
    (hm : O' [m]) (hopens : ∀ ms, O ms → O' (m :: ms)) :
    Brackets O' (do h.beforeTransition m; x; h.afterTransition m) := by
  intro c
  rw [ends_bind]
  refine (callHook_ends (by simpa using hh.pre) c).mono (fun _ c₁ h₁ => ?_) fun halt c₁ h₁ => ?_
  · obtain ⟨l₁, hl₁, hnone₁⟩ := h₁
    rw [ends_bind]
    refine (hx c₁).mono (fun _ c₂ h₂ => ?_) fun halt c₂ h₂ => ?_
    · obtain ⟨l₂, hl₂, hbalanced⟩ := h₂
      -- the transition is completed
      have hclosed {l₃ : List (Note σ)} (hnone₃ : moveCalls l₃ = []) :
          Balanced (moveCalls (.hook (.preTransition m) :: l₁ ++ l₂ ++ .hook (.postTransition m) :: l₃)) := by
        have hcalls : moveCalls (.hook (.preTransition m) :: l₁ ++ l₂ ++ .hook (.postTransition m) :: l₃) =
            .preTransition m :: (moveCalls l₁ ++ moveCalls l₂ ++ .postTransition m :: moveCalls l₃) := by
          simp [moveCalls, Note.moveCall?]
        rw [hcalls, hnone₁, hnone₃]
        exact .around m hbalanced .nil
      refine (callHook_ends (by simpa using hh.post) c₂).mono (fun _ c₃ h₃ => ?_) fun halt c₃ h₃ => ?_
      · obtain ⟨l₃, hl₃, hnone₃⟩ := h₃
        exact ⟨_, (hl₁.trans hl₂).trans hl₃, hclosed hnone₃⟩
      · obtain ⟨l₃, hl₃, hnone₃, hreported⟩ := h₃
        exact ⟨_, [], (hl₁.trans hl₂).trans hl₃, .none (hclosed hnone₃), .inl rfl, hreported.prepend _⟩
    · -- it is broken off inside
      obtain ⟨l₂, ms, hl₂, hopen, hms, hreported⟩ := h₂
      have hcalls : moveCalls (.hook (.preTransition m) :: l₁ ++ l₂) =
          [] ++ .preTransition m :: (moveCalls l₁ ++ moveCalls l₂) := by
        simp [moveCalls, Note.moveCall?]
      refine ⟨_, m :: ms, hl₁.trans hl₂, ?_, .inr ?_, hreported.prepend _⟩
      · rw [hcalls, hnone₁]
        exact .some .nil hopen
      · exact hms.elim (fun h => h ▸ hm) (hopens ms)
  · obtain ⟨l₁, hl₁, hnone₁, hreported⟩ := h₁
    have hcalls : moveCalls (.hook (.preTransition m) :: l₁) = [] ++ .preTransition m :: moveCalls l₁ := by
      simp [moveCalls, Note.moveCall?]
    refine ⟨_, [m], hl₁, ?_, .inr hm, hreported⟩
    rw [hcalls, hnone₁]
    exact .some .nil (.none .nil)

end Turn

/-! ## Turns of a region -/

section Turns

variable {setup : Setup σ γ} {table : RegionTable σ γ} {nodes : List (BuiltNode σ γ δ)}

theorem Node.exit_brackets (path : String) (position : Nat) (n : BuiltNode σ γ δ)
    (h : ∀ r ∈ n.regions, Brackets r.Opens (r.stop setup e)) : Brackets n.Opens (n.exit setup path position e) := by
  have hstop : Brackets n.Opens (Region.stopAll setup position 0 n.regions e) := by
    intro c
    rw [Region.ends_stopAll]
    exact brackets_onEach (fun r hr => (h r hr).mono fun ms hms => ⟨r, hr, hms⟩) position 0 c
  obtain ⟨unit, regions⟩ := n
  rw [Node.exit]
  exact hstop.bind fun _ => (performAt_reported rfl (fun _ => id) _ _ _).brackets

/-- Transitions inside each other, the first of them in a region of the state at a position. -/
def Node.OpensAt (nodes : List (BuiltNode σ γ δ)) (i : Nat) (ms : List (Move σ)) : Prop :=
  ∃ n, nodes[i]? = some n ∧ n.Opens ms

omit [Named σ] in
theorem Node.OpensAt.source {m : Move σ} {i : Nat} (hm : m.region = table.path)
    (hslot : ∀ n, nodes[i]? = some n → m.source = .state n.data.id) (ms : List (Move σ))
    (h : Node.OpensAt nodes i ms) : Region.Opens ⟨table, nodes⟩ (m :: ms) := by
  obtain ⟨n, hn, r', hr', h⟩ := h
  exact .inner hm (List.mem_of_getElem? hn) (.inl (hslot n hn)) hr' h

omit [Named σ] in
theorem Node.OpensAt.target {m : Move σ} {i : Nat} (hm : m.region = table.path)
    (hslot : ∀ n, nodes[i]? = some n → m.target = .state n.data.id) (ms : List (Move σ))
    (h : Node.OpensAt nodes i ms) : Region.Opens ⟨table, nodes⟩ (m :: ms) := by
  obtain ⟨n, hn, r', hr', h⟩ := h
  exact .inner hm (List.mem_of_getElem? hn) (.inr (hslot n hn)) hr' h

omit [Named σ] in
theorem endpoint_of_nodes {i : Nat} (n : BuiltNode σ γ δ) (hn : nodes[i]? = some n) :
    endpoint nodes (.at i) = .state n.data.id := by
  simp [endpoint, hn]

theorem Region.stop_brackets (hhooks : setup.hooks.Watch) (r : BuiltRegion σ γ δ) (e : Event) :
    Brackets r.Opens (r.stop setup e) := by
  induction r using Region.induct with
  | step table nodes ih =>
    -- what is done between the two calls
    have hhalt {O : List (Move σ) → Prop} {m : Move σ} {x : Turn σ γ δ Unit} (hm : m.region = table.path)
        (hx : Brackets O x) (hopens : ∀ ms, O ms → Region.Opens ⟨table, nodes⟩ (m :: ms)) :
        Brackets (Region.Opens ⟨table, nodes⟩) (do
          setup.hooks.beforeTransition m; x; setActive .stopped; setup.hooks.afterTransition m) := by
      have haround := Brackets.around hhooks (hx.bind fun _ => setActive_brackets .stopped) (Opens.here hm) hopens
      simpa only [bind_assoc] using haround
    intro c
    rw [Region.stop, ends_bind, ends_active]
    split
    · exact Brackets.pure () c
    · cases c.marking.active with
      | «at» i =>
        have hleave : Brackets (Node.OpensAt nodes i) (Node.exitAt setup table.path i nodes i e) := by
          rw [Node.exitAt_eq]
          exact brackets_elim () fun n hn => (Node.exit_brackets _ _ n (ih n (List.mem_of_getElem? hn))).mono
            fun ms hms => ⟨n, hn, hms⟩
        exact hhalt rfl hleave (Node.OpensAt.source rfl endpoint_of_nodes) c
      | stopped => exact hhalt (O := fun _ => False) rfl (Brackets.pure ()) nofun c
      | final => exact hhalt (O := fun _ => False) rfl (Brackets.pure ()) nofun c

theorem Node.exitAt_brackets (hhooks : setup.hooks.Watch) (path : String) (i : Nat) :
    Brackets (Node.OpensAt nodes i) (Node.exitAt setup path i nodes i e) := by
  rw [Node.exitAt_eq]
  exact brackets_elim () fun n hn => (Node.exit_brackets _ _ n fun r _ => Region.stop_brackets hhooks r e).mono
    fun ms hms => ⟨n, hn, hms⟩

variable [DecidableEq σ]

theorem Node.enter_brackets (path : String) (position : Nat) (n : BuiltNode σ γ δ)
    (h : ∀ r ∈ n.regions, Brackets r.Opens (r.start setup e)) :
    Brackets n.Opens (n.enter setup path position e) := by
  have hstart : Brackets n.Opens (Region.startAll setup position 0 n.regions e) := by
    intro c
    rw [Region.ends_startAll]
    exact brackets_onEach (fun r hr => (h r hr).mono fun ms hms => ⟨r, hr, hms⟩) position 0 c
  obtain ⟨unit, regions⟩ := n
  rw [Node.enter, ← bind_assoc]
  exact (performAt_reported rfl (fun _ => id) _ _ _).brackets.bind fun _ => hstart

/-- Firing a row that was chosen for the active state, given what entering a state does. -/
theorem Region.fire_brackets_of (hhooks : setup.hooks.Watch)
    (henter : ∀ t, Brackets (Node.OpensAt nodes t) (Node.enterAt setup table.path t nodes t e))
    {choice : Choice σ γ} (hchoice : ∃ n, nodes[choice.position]? = some n ∧ n.data.id = choice.state) :
    Brackets (Region.Opens ⟨table, nodes⟩) (Region.fire setup table nodes choice e) := by
  have hleave : Brackets (Node.OpensAt nodes choice.position)
      (Node.exitAt setup table.path choice.position nodes choice.position e) :=
    Node.exitAt_brackets hhooks table.path choice.position
  have hsource (n : BuiltNode σ γ δ) (hn : nodes[choice.position]? = some n) :
      Endpoint.state choice.state = .state n.data.id := by
    obtain ⟨n', hn', hstate⟩ := hchoice
    obtain rfl : n = n' := Option.some.inj (hn.symm.trans hn')
    rw [hstate]
  unfold Region.fire Region.fireWith
  refine (note_plain rfl).brackets.bind fun _ => ?_
  split
  · exact (act_plain _ _ _).brackets
  · rename_i t _
    split
    · rename_i target htarget
      let m : Move σ := ⟨table.path, .state choice.state, .state target.data.id, e⟩
      have hinside : Brackets (fun ms => Node.OpensAt nodes choice.position ms ∨ Node.OpensAt nodes t ms) (do
          Node.exitAt setup table.path choice.position nodes choice.position e
          setActive (.at t)
          act table.path target.data.id choice e
          Node.enterAt setup table.path t nodes t e
          remember setup table.path choice.state target.data.id e) :=
        (hleave.mono fun _ => .inl).bind fun _ => (setActive_brackets _).bind fun _ =>
          (act_plain _ _ _).brackets.bind fun _ => ((henter t).mono fun _ => .inr).bind fun _ =>
            (remember_plain _ _ _ _).brackets
      have haround : Brackets (Region.Opens ⟨table, nodes⟩) _ :=
        Brackets.around hhooks (m := m) hinside (.here rfl) fun ms hms => hms.elim
          (Node.OpensAt.source rfl hsource ms) (Node.OpensAt.target rfl (fun n hn => by
            obtain rfl : target = n := Option.some.inj (htarget.symm.trans hn)
            rfl) ms)
      simpa only [bind_assoc] using haround
    · exact Brackets.pure ()
  · let m : Move σ := ⟨table.path, .state choice.state, .final, e⟩
    have hinside : Brackets (Node.OpensAt nodes choice.position) (do
        Node.exitAt setup table.path choice.position nodes choice.position e
        setActive .final
        act table.path choice.state choice e) :=
      hleave.bind fun _ => (setActive_brackets _).bind fun _ => (act_plain _ _ _).brackets
    have haround : Brackets (Region.Opens ⟨table, nodes⟩) _ :=
      Brackets.around hhooks (m := m) hinside (.here rfl) (Node.OpensAt.source rfl hsource)
    simpa only [bind_assoc] using haround

theorem Region.settle_brackets_of (hhooks : setup.hooks.Watch)
    (henter : ∀ t, Brackets (Node.OpensAt nodes t) (Node.enterAt setup table.path t nodes t .completion)) :
    Brackets (Region.Opens ⟨table, nodes⟩) (Region.settle setup table nodes) := by
  have hdue := (due_plain table nodes).brackets (O := Region.Opens ⟨table, nodes⟩)
  unfold Region.settle
  generalize setup.settings.maxCompletionChain = k
  induction k with
  | zero =>
    rw [Region.chain]
    refine hdue.bind fun found => ?_
    split
    · intro c
      rw [ends_bind, ends_note, ends_fail]
      exact ⟨_, [], c.writes_note _, .none .nil, .inl rfl, [], rfl⟩
    · exact Brackets.pure ()
  | succ k ih =>
    rw [Region.chain]
    have hfits (c : Configuration σ γ δ) : Ends (due table nodes) c (fun found _ => ∀ choice,
        found = some choice → ∃ n, nodes[choice.position]? = some n ∧ n.data.id = choice.state) fun _ _ => True :=
      due_fits.mono (fun _ _ h choice hchoice => (h choice hchoice).node) fun _ _ h => h
    refine hdue.bind_of_ends hfits fun found hfound => ?_
    cases found with
    | none => exact Brackets.pure ()
    | some choice => exact (fire_brackets_of hhooks henter (hfound choice rfl)).bind fun _ => ih

theorem Region.start_brackets (hhooks : setup.hooks.Watch) (r : BuiltRegion σ γ δ) (e : Event) :
    Brackets r.Opens (r.start setup e) := by
  induction r using Region.induct generalizing e with
  | step table nodes ih =>
    have henter (e : Event) (t : Nat) :
        Brackets (Node.OpensAt nodes t) (Node.enterAt setup table.path t nodes t e) := by
      rw [Node.enterAt_eq]
      exact brackets_elim () fun n hn => (Node.enter_brackets _ _ n fun r hr =>
        ih n (List.mem_of_getElem? hn) r hr e).mono fun ms hms => ⟨n, hn, hms⟩
    let m : Move σ := ⟨table.path, .stopped, endpoint nodes (.at table.initial), e⟩
    have hbegin : Brackets (Region.Opens ⟨table, nodes⟩) _ :=
      Brackets.around hhooks (m := m) ((setActive_brackets (.at table.initial)).bind fun _ => henter e table.initial)
        (.here rfl) (Node.OpensAt.target rfl endpoint_of_nodes)
    have hsettled := hbegin.bind fun _ => settle_brackets_of hhooks (henter .completion)
    intro c
    rw [Region.start_eq, ends_bind, ends_active]
    split
    · exact Brackets.pure () c
    · simp only [bind_assoc] at hsettled
      exact hsettled c

theorem Node.enterAt_brackets (hhooks : setup.hooks.Watch) (path : String) (i : Nat) :
    Brackets (Node.OpensAt nodes i) (Node.enterAt setup path i nodes i e) := by
  rw [Node.enterAt_eq]
  exact brackets_elim () fun n hn => (Node.enter_brackets _ _ n fun r _ => Region.start_brackets hhooks r e).mono
    fun ms hms => ⟨n, hn, hms⟩

/-- Transitions inside each other, the first of them at the region or below. -/
def Region.OpensBelow (r : BuiltRegion σ γ δ) (ms : List (Move σ)) : Prop := ∃ q ∈ r.preorder, q.Opens ms

theorem Region.process_brackets (hhooks : setup.hooks.Watch) (r : BuiltRegion σ γ δ) (e : Event) :
    Brackets r.OpensBelow (r.process setup e) := by
  induction r using Region.induct with
  | step table nodes ih =>
    have hself (ms : List (Move σ)) (h : Region.Opens ⟨table, nodes⟩ ms) : OpensBelow ⟨table, nodes⟩ ms :=
      ⟨_, Region.mem_preorder_self _, h⟩
    have hsettle : Brackets (OpensBelow ⟨table, nodes⟩) (Region.settle setup table nodes) :=
      (settle_brackets_of hhooks fun t => Node.enterAt_brackets hhooks table.path t).mono hself
    have hreact (i : Nat) (n : BuiltNode σ γ δ) (hn : n ∈ nodes) :
        Brackets (OpensBelow ⟨table, nodes⟩) (n.react setup table.path i e) := by
      have hprocess : Brackets (OpensBelow ⟨table, nodes⟩) (Region.processAll setup i 0 n.regions e) := by
        intro c
        rw [Region.ends_processAll]
        exact brackets_onEach (fun r hr => (ih n hn r hr).mono fun ms ⟨q, hq, hms⟩ =>
          ⟨q, Region.mem_preorder_of_mem hn hr hq, hms⟩) i 0 c
      rw [Node.react_eq]
      refine hprocess.bind fun processed => ?_
      split
      · exact Brackets.pure true
      · exact (Node.consult_plain _ _ n).brackets
    have hrespond (i : Nat) (n : BuiltNode σ γ δ) (hn : nodes[i]? = some n) :
        Brackets (OpensBelow ⟨table, nodes⟩) (Region.respond setup table nodes i n e) := by
      unfold Region.respond
      refine (RegionTable.resolve_plain table i n.data.id).brackets.bind_of_ends
        (RegionTable.resolve_ends table i n.data.id e) fun found hfound => ?_
      cases found with
      | some choice =>
        have hchoice : ∃ n, nodes[choice.position]? = some n ∧ n.data.id = choice.state := by
          obtain ⟨hposition, hstate⟩ := hfound choice rfl
          exact ⟨n, by rw [hposition, hn], hstate.symm⟩
        have hfire := fire_brackets_of (e := e) hhooks (fun t => Node.enterAt_brackets hhooks table.path t) hchoice
        refine (hfire.mono hself).bind fun _ => ?_
        split
        · exact hsettle.bind fun _ => Brackets.pure _
        · exact Brackets.pure _
      | none =>
        refine (hreact i n (List.mem_of_getElem? hn)).bind fun processed => ?_
        split
        · exact hsettle.bind fun _ => Brackets.pure _
        · exact Brackets.pure _
    intro c
    exact Region.ends_process ⟨[], .refl c, .nil⟩ fun i n _ hn => hrespond i n hn c

end Turns

/-! ## Passes over the regions of a machine -/

section Passes

variable [DecidableEq σ]

/-- The passes over the regions of a machine. -/
inductive Chart.IsPass (chart : Chart σ γ δ) : Turn σ γ δ Unit → Prop where
  | start : IsPass chart chart.startRegions
  | stop : IsPass chart chart.stopRegions
  | dispatch (e : Event) : IsPass chart (chart.dispatch e)

/-- A pass over the regions of a machine calls the hooks like brackets. -/
theorem Chart.IsPass.brackets {chart : Chart σ γ δ} {pass : Turn σ γ δ Unit} (hpass : chart.IsPass pass)
    (hhooks : chart.setup.hooks.Watch) :
    Brackets (fun ms => ∃ r ∈ Region.preorderOfRegions chart.regions, r.Opens ms) pass := by
  have hmem {r q : BuiltRegion σ γ δ} (hr : r ∈ chart.regions) (hq : q ∈ r.preorder) :
      q ∈ Region.preorderOfRegions chart.regions := Region.mem_preorderOfRegions hr hq
  cases hpass with
  | start =>
    intro c
    unfold Chart.startRegions
    rw [Region.ends_startAll]
    exact brackets_onEach (fun r hr => (Region.start_brackets hhooks r .start).mono fun ms hms =>
      ⟨r, hmem hr (Region.mem_preorder_self r), hms⟩) 0 0 c
  | stop =>
    intro c
    unfold Chart.stopRegions
    rw [Region.ends_stopAll]
    exact brackets_onEach (fun r hr => (Region.stop_brackets hhooks r .stop).mono fun ms hms =>
      ⟨r, hmem hr (Region.mem_preorder_self r), hms⟩) 0 0 c
  | dispatch e =>
    have hprocess : Brackets (fun ms => ∃ r ∈ Region.preorderOfRegions chart.regions, r.Opens ms)
        (Region.processAll chart.setup 0 0 chart.regions e) := by
      intro c
      rw [Region.ends_processAll]
      exact brackets_onEach (fun r hr => (Region.process_brackets hhooks r e).mono fun ms ⟨q, hq, hms⟩ =>
        ⟨q, hmem hr hq, hms⟩) 0 0 c
    refine (callHook_plain rfl _).brackets.bind fun _ => hprocess.bind fun processed => ?_
    refine (callHook_plain rfl _).brackets.bind fun _ => ?_
    split
    · exact (callHook_plain rfl _).brackets
    · exact Brackets.pure ()

/-- **Transitions are bracketed.** With both hooks, a pass that ends well has matched every call before a transition by
a call after the same transition. In a pass that is broken off, all are matched but those before transitions inside
each other, each in a region of the state that the one before leaves or enters, so what is missing are the calls after
these. If a callback failed, nothing was called after it. -/
theorem transitions_are_bracketed {chart : Chart σ γ δ} (hhooks : chart.setup.hooks.Watch)
    {pass : Turn σ γ δ Unit} (hpass : chart.IsPass pass) (c : Configuration σ γ δ) :
    (∀ c', pass c = .ok () c' → ∃ l, c.Writes l c' ∧ Balanced (moveCalls l)) ∧
    ∀ h c', pass c = .error h c' → ∃ l ms, c.Writes l c' ∧ LeftOpen ms (moveCalls l) ∧
      Balanced (moveCalls l ++ ms.reverse.map .postTransition) ∧
      (ms = [] ∨ ∃ r ∈ Region.preorderOfRegions chart.regions, r.Opens ms) ∧ h.Reported l := by
  refine ⟨fun c' hok => (hpass.brackets hhooks c).of_ok hok, fun h c' herror => ?_⟩
  obtain ⟨l, ms, hl, hopen, hms, hreported⟩ := (hpass.brackets hhooks c).of_error herror
  exact ⟨l, ms, hl, hopen, hopen.closed, hms, hreported⟩

end Passes

/-- The lamp that breaks, while it is on and dim, with hooks that only watch. -/
def Lamp.watched : Machine Lamp Unit Unit where
  chart :=
    { regions := [brittle]
      setup := { hooks := { preTransition := some fun _ => pure (), postTransition := some fun _ => pure () } } }
  configuration := ⟨{ context := () }, ⟨.stopped, [], [((0, 0), glowing.marking)]⟩⟩

/-- The lamp is stopped, with its light inside. Turned, the light breaks on the way to its target. -/
theorem transitions_are_bracketed_watched :
    (∃ c', Lamp.watched.chart.stopRegions Lamp.watched.configuration = .ok () c' ∧
      ∃ l, Lamp.watched.configuration.Writes l c' ∧ Balanced (moveCalls l)) ∧
    ∃ c', Lamp.watched.chart.dispatch Lamp.turn Lamp.watched.configuration =
        .error (.error (.failure (Lamp.burnout "bright" Lamp.turn))) c' ∧
      ∃ l ms, Lamp.watched.configuration.Writes l c' ∧ LeftOpen ms (moveCalls l) ∧
        Balanced (moveCalls l ++ ms.reverse.map .postTransition) ∧
        (ms = [] ∨ ∃ r ∈ Region.preorderOfRegions Lamp.watched.chart.regions, r.Opens ms) ∧
        Halt.Reported (.error (.failure (Lamp.burnout "bright" Lamp.turn))) l := by
  have hhooks : Lamp.watched.chart.setup.hooks.Watch := ⟨rfl, rfl⟩
  have hstopped := Lamp.watched.eq_of_run_ok (x := Lamp.watched.chart.stopRegions) (a := ()) (by decide +kernel)
  have hbroken := Lamp.watched.eq_of_run_error (x := Lamp.watched.chart.dispatch Lamp.turn)
    (h := .error (.failure (Lamp.burnout "bright" Lamp.turn))) (by decide +kernel)
  exact ⟨⟨_, hstopped, (transitions_are_bracketed hhooks .stop _).1 _ hstopped⟩, _, hbroken,
    (transitions_are_bracketed hhooks (.dispatch Lamp.turn) _).2 _ _ hbroken⟩

end Statechart
