import Statechart.Proofs.Siblings
import Statechart.Proofs.Inert
import Statechart.Run

/-!
# Invariants of machines

What holds of a machine all through its life is shown of the passes over its regions. The rest, queue,
hooks and recovery, is quiet: it touches no region.

* `Configuration.Quiet c c'` : markings and history are the same, and only outer notes were written;
* `Turn.Upholds I` : however the turn ends, `I` still holds; `Upholds I x E` : if it is halted, `E` holds;
* `Chart.Stable I` : what is quiet and every pass over the regions upholds `I`; `Stable.operation` : then
  every operation does;
* `Chart.Lasting I` : what is quiet, starting and dispatching uphold `I`, each with its recovery;
  `Lasting.operation` : then every operation does but to stop the machine.
-/

set_option autoImplicit false

namespace Statechart

variable {σ γ δ α β : Type}

/-- Whether the note is written outside of regions. -/
def Note.isOuter : Note σ → Bool
  | .contextMade | .stateMade _ => true
  | .queued _ | .refused _ | .panicked _ => true
  | .began _ | .ended _ => true
  | .hook (.preProcessing _) | .hook (.postProcessing _ _) | .hook (.unprocessed _) => true
  | .hook (.failure _) => true
  | _ => false

theorem Note.isOuter_of_isSilent {n : Note σ} (h : n.isSilent = true) : n.isOuter = true := by
  cases n <;> simp_all [isSilent, isOuter]

theorem Note.not_isCrossing_of_isOuter {n : Note σ} (h : n.isOuter = true) : n.isCrossing = false := by
  cases n <;> simp_all [isCrossing, isOuter]

/-- Regions and history are as they were, and only outer notes were written. -/
structure Configuration.Quiet (c c' : Configuration σ γ δ) : Prop where
  marking : c'.marking = c.marking
  history : c'.world.history = c.world.history
  notes : ∃ l, c'.world.exchange.journal.toList = c.world.exchange.journal.toList ++ l ∧
    ∀ n ∈ l, n.isOuter = true

instance : IsPreorder (Configuration σ γ δ) Configuration.Quiet where
  refl _ := ⟨rfl, rfl, [], by simp, by simp⟩
  trans _ _ _ h h' := by
    obtain ⟨l, hj, hl⟩ := h.notes
    obtain ⟨l', hj', hl'⟩ := h'.notes
    refine ⟨h'.marking.trans h.marking, h'.history.trans h.history, l ++ l', ?_, fun n hn => ?_⟩
    · rw [hj', hj, List.append_assoc]
    · exact (List.mem_append.1 hn).elim (hl n) (hl' n)

/-- What only changes the exchange by outer notes is quiet. -/
theorem Configuration.Quiet.of_follows {c : Configuration σ γ δ} {w : World σ γ}
    (h : Exchange.Follows (fun n => n.isOuter = true) c.world.exchange w.exchange)
    (hhistory : w.history = c.world.history) : c.Quiet ⟨w, c.marking⟩ := by
  obtain ⟨l, hw, hl⟩ := h
  exact ⟨rfl, hhistory, l, hw.journal, hl⟩

namespace Turn

/-- The turn is quiet, however it ends. -/
abbrev IsQuiet (x : Turn σ γ δ α) : Prop := Keeps Configuration.Quiet (fun _ _ => True) x

theorem note_isQuiet {n : Note σ} (hn : n.isOuter = true) : IsQuiet (note n : Turn σ γ δ Unit) :=
  fun c => ⟨rfl, rfl, [n], by simp [Exchange.note], by simpa using hn⟩

theorem fail_isQuiet (e : DispatchError) : IsQuiet (fail e : Turn σ γ δ α) :=
  fun c => ⟨refl c, trivial⟩

theorem perform_isQuiet (f : Callback γ α) : IsQuiet (perform f : Turn σ γ δ α) := by
  intro c
  have hplay := Course.play_follows (N := fun n => n.isOuter = true)
    (fun n hn => Note.isOuter_of_isSilent hn) (f c.world.context) c.world.exchange
  unfold Ends perform performOn
  dsimp only
  generalize (f c.world.context).play c.world.exchange = played at hplay
  obtain ⟨⟨result, state⟩, x⟩ := played
  cases result with
  | ok a => exact .of_follows hplay rfl
  | error message => exact ⟨.of_follows (hplay.trans (Exchange.follows_note (by rfl) rfl x)) rfl, trivial⟩

theorem callHook_isQuiet {call : HookCall σ} (hcall : (Note.hook call).isOuter = true)
    (hook : Option (Callback γ Unit)) : IsQuiet (callHook call hook : Turn σ γ δ Unit) := by
  cases hook with
  | none => exact Keeps.pure ()
  | some f => exact (note_isQuiet hcall).bind fun _ => perform_isQuiet f

theorem offer_isQuiet (e : Event) : IsQuiet (offer e : Turn σ γ δ Unit) := by
  intro c
  have hoffer := Exchange.follows_offer (N := fun n => n.isOuter = true)
    (fun n hn => Note.isOuter_of_isSilent hn) c.world.exchange e
  unfold offer
  rw [ends_bind, ends_get]
  generalize c.world.exchange.offer e = receipt at hoffer
  obtain ⟨receipt, x⟩ := receipt
  cases receipt with
  | queued => exact .of_follows hoffer rfl
  | refused capacity => exact ⟨.of_follows hoffer rfl, trivial⟩

theorem take_isQuiet : IsQuiet (Chart.take : Turn σ γ δ (Option Event)) := by
  intro c
  unfold Chart.take
  rw [ends_bind, ends_get]
  split
  · exact ⟨rfl, rfl, [], (List.append_nil _).symm, by simp⟩
  · exact refl c

/-! ## Upholding an invariant -/

/-- If the turn ends well then `I` still holds, and if it is halted then `E` does, by default `I` too. -/
def Upholds (I : Configuration σ γ δ → Prop) (x : Turn σ γ δ α)
    (E : Halt → Configuration σ γ δ → Prop := fun _ => I) : Prop :=
  ∀ c, I c → Ends x c (fun _ => I) E

variable {I : Configuration σ γ δ → Prop} {E : Halt → Configuration σ γ δ → Prop}

theorem Upholds.pure (a : α) : Upholds I (Pure.pure a : Turn σ γ δ α) E := fun _ hc => hc

theorem Upholds.bind {x : Turn σ γ δ α} {f : α → Turn σ γ δ β} (hx : Upholds I x E)
    (hf : ∀ a, Upholds I (f a) E) : Upholds I (x >>= f) E := by
  intro c hc
  rw [ends_bind]
  exact (hx c hc).mono (fun a c' hc' => hf a c' hc') fun _ _ h => h

end Turn

open Turn

/-! ## Operations of a machine -/

section Stable

variable [DecidableEq σ] [Named σ]

/-- What is quiet and what the regions do upholds `I`. A halt leaves `E`, by default `I`; the machine goes on
after a failure, so `I` has to follow there. -/
structure Chart.Stable (c : Chart σ γ δ) (I : Configuration σ γ δ → Prop)
    (E : Halt → Configuration σ γ δ → Prop := fun _ => I) : Prop where
  quiet : ∀ s s' : Configuration σ γ δ, s.Quiet s' → I s → I s'
  halted : ∀ h s, I s → E h s := by exact fun _ _ h => h
  recovers : ∀ f s, E (.error (.failure f)) s → I s := by exact fun _ _ h => h
  start : Upholds I c.startRegions E
  stop : Upholds I c.stopRegions E
  process : ∀ e, Upholds I (Region.processAll c.setup 0 0 c.regions e) E
  check : ∀ e, Upholds I (c.check e) E

variable {c : Chart σ γ δ} {I : Configuration σ γ δ → Prop} {E : Halt → Configuration σ γ δ → Prop}

omit [DecidableEq σ] [Named σ] in
theorem Turn.IsQuiet.upholds_of {x : Turn σ γ δ α} (hx : IsQuiet x)
    (hquiet : ∀ s s' : Configuration σ γ δ, s.Quiet s' → I s → I s') (hhalted : ∀ h s, I s → E h s) :
    Upholds I x E :=
  fun s hs => (hx s).mono (fun _ s' hq => hquiet s s' hq hs) fun halt s' hq =>
    hhalted halt s' (hquiet s s' hq.1 hs)

theorem Turn.IsQuiet.upholds {x : Turn σ γ δ α} (hx : IsQuiet x) (h : c.Stable I E) : Upholds I x E :=
  hx.upholds_of h.quiet h.halted

/-- What is raised by a failure is offered, and a failure may stop the regions; other errors pass. -/
theorem Chart.Stable.recover (h : c.Stable I E) (err : DispatchError) {s : Configuration σ γ δ}
    (hs : E (.error err) s) : Ends (c.recover (.error err)) s (fun _ => I) E := by
  cases err with
  | failure f =>
    have hI : I s := h.recovers f s hs
    unfold Chart.recover
    dsimp only
    split
    · exact hs
    · refine Upholds.bind ((note_isQuiet rfl).upholds h) (fun _ => ?_) s hI
      refine ((perform_isQuiet _).upholds h).bind fun recovery => ?_
      split
      · exact Upholds.pure ()
      · exact (offer_isQuiet _).upholds h
      · exact h.stop
      · exact (fail_isQuiet _).upholds h
  | completionOverflow region limit => exact hs
  | queueFull capacity => exact hs
  | poisoned => exact hs

theorem Chart.Stable.recovering (h : c.Stable I E) {pass : Turn σ γ δ Unit} (hpass : Upholds I pass E) :
    Upholds I (c.recovering pass) E := by
  intro s hs
  unfold Chart.recovering
  rw [ends_bind, ends_attempt]
  refine (hpass s hs).mono (fun _ s' hs' => hs') fun halt s' hs' => ?_
  cases halt with
  | error err => exact h.recover err hs'
  | panic message => exact hs'
  | unfinished => exact hs'

/-- What is quiet and every pass with its recovery upholds `I`, except for stopping the regions. -/
structure Chart.Lasting (c : Chart σ γ δ) (I : Configuration σ γ δ → Prop)
    (E : Halt → Configuration σ γ δ → Prop := fun _ => I) : Prop where
  quiet : ∀ s s' : Configuration σ γ δ, s.Quiet s' → I s → I s'
  halted : ∀ h s, I s → E h s := by exact fun _ _ h => h
  start : Upholds I (c.recovering c.startRegions) E
  dispatch : ∀ e, Upholds I (c.recovering (c.dispatch e)) E
  check : ∀ e, Upholds I (c.check e) E

theorem Chart.Stable.dispatch (h : c.Stable I E) (e : Event) : Upholds I (c.dispatch e) E := by
  refine ((callHook_isQuiet rfl _).upholds h).bind fun _ => (h.process e).bind fun processed => ?_
  refine ((callHook_isQuiet rfl _).upholds h).bind fun _ => ?_
  split
  · exact (callHook_isQuiet rfl _).upholds h
  · exact Upholds.pure ()

theorem Chart.Stable.lasting (h : c.Stable I E) : c.Lasting I E where
  quiet := h.quiet
  halted := h.halted
  start := h.recovering h.start
  dispatch e := h.recovering (h.dispatch e)
  check := h.check

theorem Turn.IsQuiet.lasts {x : Turn σ γ δ α} (hx : IsQuiet x) (h : c.Lasting I E) : Upholds I x E :=
  hx.upholds_of h.quiet h.halted

theorem Chart.Lasting.handle (h : c.Lasting I E) (e : Event) : Upholds I (c.handle e) E :=
  ((note_isQuiet rfl).lasts h).bind fun _ => (h.dispatch e).bind fun _ => (note_isQuiet rfl).lasts h

theorem Chart.Lasting.drain (h : c.Lasting I E) (bound : Nat) : Upholds I (c.drain bound) E := by
  induction bound with
  | zero =>
    intro s hs
    rw [Chart.drain, ends_bind, ends_get]
    split
    · exact h.halted _ s hs
    · exact hs
  | succ bound ih =>
    rw [Chart.drain]
    refine (take_isQuiet.lasts h).bind fun event => ?_
    split
    · exact (h.handle _).bind fun _ => ih
    · exact Upholds.pure ()

/-- What lasts, every operation upholds that does not stop the machine. -/
theorem Chart.Lasting.operation (h : c.Lasting I E) (bound : Nat) {op : Operation γ} (hop : op ≠ .stop) :
    Upholds I (op.turn c bound) E := by
  cases op with
  | start => exact h.start.bind fun _ => h.drain bound
  | stop => exact absurd rfl hop
  | process e => exact ((offer_isQuiet e).lasts h).bind fun _ => h.drain bound
  | processNow e => exact (h.handle e).bind fun _ => h.drain bound
  | processPending => exact h.drain bound
  | post e => exact (offer_isQuiet e).lasts h
  | check e => exact (h.check e).bind fun _ => Upholds.pure ()
  | setContext context =>
    exact fun s hs => h.quiet s _ ⟨rfl, rfl, [], (List.append_nil _).symm, by simp⟩ hs
  | setClock now => exact fun s hs => h.quiet s _ ⟨rfl, rfl, [], (List.append_nil _).symm, by simp⟩ hs

/-- What the passes over the regions uphold, every operation upholds. -/
theorem Chart.Stable.operation (h : c.Stable I E) (bound : Nat) (op : Operation γ) :
    Upholds I (op.turn c bound) E := by
  by_cases hop : op = .stop
  · subst hop
    exact (h.recovering h.stop).bind fun _ => h.lasting.drain bound
  · exact h.lasting.operation bound hop

theorem Chart.Lasting.operate {m : Machine σ γ δ} (h : m.chart.Lasting I) (hm : I m.configuration) (bound : Nat)
    {op : Operation γ} (hop : op ≠ .stop) : I (m.operate bound op).2.configuration :=
  m.run_of_ends (P := fun _ m' => I m'.configuration) (h.operation bound hop m.configuration hm)

theorem Chart.Stable.operate {m : Machine σ γ δ} (h : m.chart.Stable I) (hm : I m.configuration)
    (bound : Nat) (op : Operation γ) : I (m.operate bound op).2.configuration :=
  m.run_of_ends (P := fun _ m' => I m'.configuration) (h.operation bound op m.configuration hm)

/-- What an operation that ends well upholds. -/
theorem Chart.Stable.operate_ok {m : Machine σ γ δ} (h : m.chart.Stable I E) (hm : I m.configuration)
    {bound : Nat} {op : Operation γ} (hok : (m.operate bound op).1 = .ok ()) :
    I (m.operate bound op).2.configuration := by
  refine m.run_of_ends (P := fun result m' => result = .ok () → I m'.configuration) ?_ hok
  exact (h.operation bound op m.configuration hm).mono (fun _ _ hs _ => hs) fun _ _ _ => nofun

end Stable

end Statechart
