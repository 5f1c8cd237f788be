import Statechart.Proofs.Calm
import Statechart.Proofs.Coupling

/-!
# Calm regions go their own way

What is active in a calm region and below it after an event depends on what was active there before, and on nothing
else: not on the context, nor on how its states answered.

* `Marking.profile` : what is active at every depth;
* `Configuration.Alike` : mailbox and profile are the same; `Turn.Hidden` : a turn that leaves them alone;
  `Region.checkAny_hidden` : dry runs are of that kind;
* `Region.Settled.of_profile` : what has settled shows in the profile;
* `Region.calm_coupling` : calm regions stop, start and settle in lockstep wherever their profiles are the same;
* `Configuration.Answers`, `Region.process_together` : so do they process events, though they may answer differently
  when nothing moved;
* `Turn.Makes`, `Turn.Autonomous` : a turn whose outcome for a region depends on nothing but its profile;
  `Region.stop_autonomous`, `Region.start_autonomous`, `Region.process_autonomous`;
* `onEach_makes`, `onEach_repeats` : passes over regions, and over copies of them.
-/

set_option autoImplicit false

namespace Statechart

open Turn

variable {σ γ δ α : Type}

/-! ## Profiles -/

namespace Marking

variable {m m' : Marking δ}

/-- What is active in the region at the end of the given way down. -/
def profile (m : Marking δ) (way : List (Nat × Nat)) : Active := (way.foldl child m).active

theorem profile_ext (hactive : m'.active = m.active) (hchild : ∀ k, (m'.child k).profile = (m.child k).profile) :
    m'.profile = m.profile := by
  funext way
  cases way with
  | nil => exact hactive
  | cons k way => exact congrFun (hchild k) way

theorem active_of_profile (h : m'.profile = m.profile) : m'.active = m.active := congrFun h []

theorem child_of_profile (h : m'.profile = m.profile) (k : Nat × Nat) :
    (m'.child k).profile = (m.child k).profile :=
  funext fun way => congrFun h (k :: way)

theorem setActive_profile (a : Active) (h : m'.profile = m.profile) :
    (m'.setActive a).profile = (m.setActive a).profile := by
  have hchild := child_of_profile h
  exact profile_ext rfl hchild

theorem setChild_profile {k : Nat × Nat} {n n' : Marking δ} (h : m'.profile = m.profile)
    (hn : n'.profile = n.profile) : (m'.setChild k n').profile = (m.setChild k n).profile := by
  have hactive := active_of_profile h
  refine profile_ext hactive fun k' => ?_
  by_cases hk : k' = k
  · subst hk
    rw [child_setChild_self, child_setChild_self]
    exact hn
  · rw [child_setChild_of_ne hk, child_setChild_of_ne hk]
    exact child_of_profile h k'

/-- What becomes of the whole when the part keeps its profile. -/
theorem setChild_profile_self {k : Nat × Nat} {n : Marking δ} (h : n.profile = (m.child k).profile) :
    (m.setChild k n).profile = m.profile := by
  refine profile_ext rfl fun k' => ?_
  by_cases hk : k' = k
  · subst hk
    rwa [child_setChild_self]
  · rw [child_setChild_of_ne hk]

end Marking

/-- Mailbox and profile are the same. -/
structure Configuration.Alike (c d : Configuration σ γ δ) : Prop where
  mailbox : d.world.exchange.mailbox = c.world.exchange.mailbox
  profile : d.marking.profile = c.marking.profile

instance : IsPreorder (Configuration σ γ δ) Configuration.Alike where
  refl _ := ⟨rfl, rfl⟩
  trans _ _ _ h h' := ⟨h'.mailbox.trans h.mailbox, h'.profile.trans h.profile⟩

theorem Configuration.Still.alike {c c' : Configuration σ γ δ} (h : c.Still c') : c.Alike c' :=
  ⟨h.mailbox, Marking.profile_ext h.active fun k => by rw [h.child]⟩

/-- Two configurations that are alike and have the mailbox `b`. -/
structure Configuration.Akin (b : Mailbox) (c d : Configuration σ γ δ) : Prop where
  mailbox : c.world.exchange.mailbox = b
  alike : c.Alike d

theorem Configuration.Akin.trans {b : Mailbox} {c c' d d' : Configuration σ γ δ} (h : Akin b c d) (hc : c.Alike c')
    (hd : d.Alike d') : Akin b c' d' :=
  ⟨hc.mailbox.trans h.mailbox,
    ⟨hd.mailbox.trans (h.alike.mailbox.trans hc.mailbox.symm),
      hd.profile.trans (h.alike.profile.trans hc.profile.symm)⟩⟩

/-! ## Dry runs -/

section Checks

variable [DecidableEq σ] {e : Event}

/-- The turn ends well, and nobody can tell from what is active that it was taken. -/
abbrev Turn.Hidden (x : Turn σ γ δ α) : Prop := Keeps Configuration.Alike (fun _ _ => False) x

omit [DecidableEq σ] in
theorem Turn.Calm.hidden {x : Turn σ γ δ α} (h : Calm x) : Hidden x := h.mono (fun _ _ h => h.alike) fun _ _ h => h

omit [DecidableEq σ] in
theorem Turn.Hidden.inChild {x : Turn σ γ δ α} (h : Hidden x) (k : Nat × Nat) : Hidden (inChild k x) := by
  intro c
  rw [ends_inChild]
  exact (h ⟨c.world, c.marking.child k⟩).mono (fun _ _ h => ⟨h.mailbox, Marking.setChild_profile_self h.profile⟩)
    fun _ _ h => h.2.elim

/-- Dry runs over calm regions. -/
theorem Region.checkAny_hidden {rs : List (BuiltRegion σ γ δ)} (h : ∀ r ∈ rs, r.Calm) (position index : Nat) :
    Hidden (Region.checkAny position index rs e) := by
  have hchild (k : Nat × Nat) (x : Turn σ γ δ Bool) (hx : Hidden x) : Hidden (inChild k x) := hx.inChild k
  refine Region.checkAny_keeps hchild (fun r hr => r.check_keeps hchild fun q hq row hrow path s index => ?_)
    position index
  obtain ⟨verdict, hverdict⟩ := RegionTable.ask_steady (δ := δ) ((h r hr).rows q hq row hrow) path s e index
  exact hverdict.calm.hidden

end Checks

section Regions

variable [DecidableEq σ] [Named σ]

theorem Region.NoneDue.of_profile {r : BuiltRegion σ γ δ} {m m' : Marking δ} (h : r.NoneDue m)
    (hm : m'.profile = m.profile) : r.NoneDue m' :=
  h.congr (Marking.active_of_profile hm) fun i _ _ _ j _ => congrFun hm [(i, j)]

/-- What has settled shows in the profile. -/
theorem Region.Settled.of_profile {r : BuiltRegion σ γ δ} {m m' : Marking δ} (h : r.Throughout Region.Settled m)
    (hm : m'.profile = m.profile) : r.Throughout Region.Settled m' := by
  induction h generalizing m' with
  | intro hhere _ ih =>
    refine .intro (Region.settled_isShallow _ _ _ (Marking.active_of_profile hm) (fun k => congrFun hm [k]) hhere) ?_
    exact fun k s hs => ih k s hs (Marking.child_of_profile hm k)

/-! ## Lockstep -/

variable {setup : Setup σ γ} {b : Mailbox} {r : BuiltRegion σ γ δ} {c d : Configuration σ γ δ} {e : Event}

/-- A halt because of completion transitions that did not come to rest. -/
abbrev Halt.Overflows (h : Halt) : Prop := h.isOverflow = true

omit [DecidableEq σ] [Named σ] in
theorem Turn.Lockstep.of_steady {H : Halt → Prop} {x : Turn σ γ δ α} {a : α} (h : Steady x a) :
    Lockstep H (Configuration.Akin b) x x := by
  intro c d hcd
  refine (h c).mono (fun a' c' hc => ?_) fun _ _ h => h.elim
  obtain ⟨rfl, hc⟩ := hc
  exact (h d).mono (fun _ d' hd => ⟨hd.1, hcd.trans hc.alike hd.2.alike⟩) fun _ _ h => h

omit [DecidableEq σ] [Named σ] in
theorem Configuration.akin_spans (k : Nat × Nat) :
    Spans k (Configuration.Akin (σ := σ) (γ := γ) (δ := δ) b) (Configuration.Akin b) := by
  intro c d h
  refine ⟨⟨h.mailbox, h.alike.mailbox, Marking.child_of_profile h.alike.profile k⟩, fun c' d' h' => ?_⟩
  exact ⟨h'.mailbox, h'.alike.mailbox, Marking.setChild_profile h.alike.profile h'.alike.profile⟩

/-- Calm regions move in lockstep wherever their profiles are the same. -/
theorem Region.calm_coupling (hsetup : setup.hooks.Calm) (b : Mailbox) :
    Region.Coupling setup Halt.Overflows (fun r r' : BuiltRegion σ γ δ => r' = r ∧ r.Calm)
      fun _ => Configuration.Akin b where
  overflow _ _ := rfl
  table h := by rw [h.1]
  child h hs hs' := by
    obtain ⟨rfl, hcalm⟩ := h
    exact ⟨⟨Option.some.inj (hs'.symm.trans hs), hcalm.child hs⟩, Configuration.akin_spans _⟩
  active h := Marking.active_of_profile h.alike.profile
  state {r r' c d i} h _ _ := by
    obtain ⟨rfl, -⟩ := h
    cases r'.nodes[i]? with
    | none => exact .none
    | some n => exact .some ⟨rfl, rfl⟩
  move _ hR _ := ⟨hR.mailbox, hR.alike.mailbox, Marking.setActive_profile _ hR.alike.profile⟩
  own {r _ _ _} h hx := by
    have hnode {i : Nat} {n : BuiltNode σ γ δ} (hn : r.nodes[i]? = some n) : n.data.behavior.Calm :=
      h.2.states r (Region.mem_preorder_self r) n (List.mem_of_getElem? hn)
    have hrows := h.2.rows r (Region.mem_preorder_self r)
    cases hx with
    | note n => exact .of_steady (note_steady n)
    | before m => exact .of_steady (hsetup.before m)
    | after m => exact .of_steady (hsetup.after m)
    | remember path source target e => exact .of_steady (Region.remember_steady setup path source target e)
    | resolve i s e =>
      obtain ⟨found, hfound⟩ := RegionTable.resolve_steady (δ := δ) hrows i s e
      exact .of_steady hfound
    | act path s e hrow => exact .of_steady (Region.act_steady (hrows _ hrow) path s e)
    | entry path e hn => exact .of_steady (orFail_steady _ _ _ _ (performAt_steady _ _ ((hnode hn).entry e)))
    | exit path e hn => exact .of_steady (orFail_steady _ _ _ _ (performAt_steady _ _ ((hnode hn).exit e)))

omit [DecidableEq σ] [Named σ] in
theorem Turn.Lockstep.together {x y : Turn σ γ δ α} (h : Lockstep Halt.Overflows (Configuration.Akin b) x y)
    (hcd : Configuration.Akin b c d) :
    EndsTogether x y c d (fun a a' c' d' => a' = a ∧ Configuration.Akin b c' d') Halt.Overflows :=
  (h c d hcd).together fun _ _ _ h => h.1

/-! ## Answers -/

/-- Both answers say that the event was processed, or else nothing moved. -/
structure Configuration.Answers (b : Mailbox) (c : Configuration σ γ δ) (p p' : Bool)
    (c' d' : Configuration σ γ δ) : Prop where
  akin : Akin b c' d'
  unmoved : (p = true ∧ p' = true) ∨ c'.marking.profile = c.marking.profile

omit [DecidableEq σ] [Named σ] in
/-- Turns that move nothing may answer as they like. -/
theorem Configuration.Answers.of_still {b : Mailbox} {c c₁ d₁ : Configuration σ γ δ} (h : Akin b c₁ d₁)
    (hsame : c₁.marking.profile = c.marking.profile) {x y : Turn σ γ δ Bool}
    (hx : Ends x c₁ (fun _ c' => c₁.Still c') fun _ _ => False)
    (hy : Ends y d₁ (fun _ d' => d₁.Still d') fun _ _ => False) :
    EndsTogether x y c₁ d₁ (Answers b c) Halt.Overflows := by
  refine (EndsTogether.of_ends (hx.mono (fun _ _ h => h) fun _ _ h => h.elim) hy).mono (fun p p' c' d' h' => ?_)
    fun _ h => h
  exact ⟨h.trans h'.1.alike h'.2.alike, .inr (h'.1.alike.profile.trans hsame)⟩

/-- The regions of a state process an event, one after the other. -/
theorem Region.processAll_together {i index : Nat} {rs : List (BuiltRegion σ γ δ)}
    (ih : ∀ s ∈ rs, ∀ c d : Configuration σ γ δ, Configuration.Akin b c d → s.Throughout Region.Settled c.marking →
      EndsTogether (s.process setup e) (s.process setup e) c d (Configuration.Answers b c) Halt.Overflows)
    (hcd : Configuration.Akin b c d)
    (hc : ∀ (j : Nat) s, rs[j]? = some s → Region.Throughout Region.Settled s (c.marking.child (i, index + j))) :
    EndsTogether (Region.processAll setup i index rs e) (Region.processAll setup i index rs e) c d
      (Configuration.Answers b c) Halt.Overflows := by
  induction rs generalizing index c d with
  | nil => exact ⟨hcd, .inr rfl⟩
  | cons s rs ihs =>
    rw [Region.processAll]
    have hspans := Configuration.akin_spans (i, index) c d hcd
    have hfirst := ih s List.mem_cons_self _ _ hspans.1 (hc 0 s rfl)
    refine EndsTogether.bind (Q := fun p p' c₁ d₁ => Configuration.Answers b c p p' c₁ d₁ ∧
      ∀ (j : Nat) s, rs[j]? = some s → Region.Throughout Region.Settled s (c₁.marking.child (i, index + 1 + j)))
      (EndsTogether.inChild (hfirst.mono (fun p p' c₁ d₁ h => ?_) fun _ h => h)) fun p p' c₁ d₁ h => ?_
    · refine ⟨⟨hspans.2 _ _ h.akin, h.unmoved.imp_right Marking.setChild_profile_self⟩, fun j s' hs' => ?_⟩
      dsimp only
      rw [Marking.child_setChild_of_ne (by simp; omega), show index + 1 + j = index + (j + 1) by omega]
      exact hc (j + 1) s' hs'
    · refine (ihs (fun s hs => ih s (List.mem_cons_of_mem _ hs)) h.1.akin h.2).bind fun q q' c₂ d₂ h₂ => ?_
      refine ⟨h₂.akin, ?_⟩
      rcases h₂.unmoved with hboth | hsame
      · exact .inl (by simp [hboth])
      · rw [hsame]
        exact h.1.unmoved.imp_left fun hboth => by simp [hboth]

/-- A state answers an event. -/
theorem Node.react_together {path : String} {i : Nat} {n : BuiltNode σ γ δ} (hn : n.data.behavior.Calm)
    (hregions : EndsTogether (Region.processAll setup i 0 n.regions e) (Region.processAll setup i 0 n.regions e) c d
      (Configuration.Answers b c) Halt.Overflows) :
    EndsTogether (n.react setup path i e) (n.react setup path i e) c d (Configuration.Answers b c) Halt.Overflows := by
  rw [Node.react_eq]
  refine hregions.bind fun p p' c₁ d₁ h => ?_
  -- whatever the regions answered, what follows moves nothing
  have hrest (p : Bool) (c : Configuration σ γ δ) :
      Ends (if p then pure true else n.consult path i e) c (fun _ c' => c.Still c') fun _ _ => False := by
    split
    · exact refl c
    · exact (Node.consult_calm hn path i e c).mono (fun _ _ h => h) fun _ _ h => h.2
  rcases h.unmoved with ⟨rfl, rfl⟩ | hsame
  · exact ⟨h.akin, .inl ⟨rfl, rfl⟩⟩
  · exact Configuration.Answers.of_still h.akin hsame (hrest p c₁) (hrest p' d₁)

/-- A region that has settled responds to an event. -/
theorem Region.respond_together {table : RegionTable σ γ} {nodes : List (BuiltNode σ γ δ)} {i : Nat}
    {n : BuiltNode σ γ δ} (hsetup : setup.hooks.Calm) (hr : Region.Calm (⟨table, nodes⟩ : BuiltRegion σ γ δ))
    (hcd : Configuration.Akin b c d) (hc : Region.Throughout Region.Settled ⟨table, nodes⟩ c.marking)
    (hactive : c.marking.active = .at i) (hn : nodes[i]? = some n)
    (ih : ∀ s ∈ n.regions, ∀ c d : Configuration σ γ δ, Configuration.Akin b c d →
      s.Throughout Region.Settled c.marking →
      EndsTogether (s.process setup e) (s.process setup e) c d (Configuration.Answers b c) Halt.Overflows) :
    EndsTogether (Region.respond setup table nodes i n e) (Region.respond setup table nodes i n e) c d
      (Configuration.Answers b c) Halt.Overflows := by
  have C := Region.calm_coupling (δ := δ) hsetup b
  have hL : (⟨table, nodes⟩ : BuiltRegion σ γ δ) = ⟨table, nodes⟩ ∧ Region.Calm ⟨table, nodes⟩ := ⟨rfl, hr⟩
  have hsettle : Lockstep Halt.Overflows (Configuration.Akin b) (Region.settle setup table nodes)
      (Region.settle setup table nodes) :=
    C.settle hL fun k s s' hs hs' => C.start _ (C.child hL hs hs').1
  obtain ⟨found, hfound⟩ := RegionTable.resolve_steady (δ := δ) hr.here i n.data.id e
  have hchoose : EndsTogether (table.resolve i n.data.id e) (table.resolve i n.data.id e) c d
      (fun a a' c₁ d₁ => (a = found ∧ c.Still c₁) ∧ a' = found ∧ d.Still d₁) Halt.Overflows :=
    .of_ends ((hfound c).mono (fun _ _ h => h) fun _ _ h => h.elim) (hfound d)
  unfold Region.respond
  refine (hchoose.knowing (RegionTable.resolve_fits hactive hn)).bind fun a a' c₁ d₁ h => ?_
  obtain ⟨hfits, ⟨rfl, hc₁⟩, rfl, hd₁⟩ := h
  have hcd₁ : Configuration.Akin b c₁ d₁ := hcd.trans hc₁.alike hd₁.alike
  cases a' with
  | some choice =>
    have hchoice := hfits choice rfl
    have hfire := C.fire (e := e) hL (List.mem_of_getElem? hchoice.row) (C.state hL hcd₁ hchoice.active)
      fun k s s' hs hs' => C.start _ (C.child hL hs hs').1
    have hdone {c' d' : Configuration σ γ δ} (h : Configuration.Akin b c' d') :
        EndsTogether (pure true) (pure true) c' d' (Configuration.Answers b c) Halt.Overflows := ⟨h, .inl ⟨rfl, rfl⟩⟩
    refine (hfire.together hcd₁).bind fun _ _ c₂ d₂ h₂ => ?_
    dsimp only
    split
    · exact (hsettle.together h₂.2).bind fun _ _ _ _ h₃ => hdone h₃.2
    · exact hdone h₂.2
  | none =>
    have hbelow (j : Nat) (s : BuiltRegion σ γ δ) (hs : n.regions[j]? = some s) :
        s.Throughout Region.Settled (c₁.marking.child (i, 0 + j)) := by
      rw [hc₁.child, Nat.zero_add]
      exact hc.child ((Region.child?_of_nodes hn j).trans hs)
    have hcalm := hr.states _ (Region.mem_preorder_self _) n (List.mem_of_getElem? hn)
    refine (Node.react_together hcalm (Region.processAll_together ih hcd₁ hbelow)).bind fun p p' c₂ d₂ h₂ => ?_
    dsimp only
    rcases h₂.unmoved with ⟨rfl, rfl⟩ | hsame
    · split
      · exact (hsettle.together h₂.akin).bind fun _ _ _ _ h₃ => ⟨h₃.2, .inl ⟨rfl, rfl⟩⟩
      · exact ⟨h₂.akin, .inl ⟨rfl, rfl⟩⟩
    · -- where nothing moved, settling changes nothing, whoever does it
      have hsame := hsame.trans hc₁.alike.profile
      have hdue := hc.here.noneDue.of_profile hsame
      have hlast (p : Bool) {c : Configuration σ γ δ} (h : Region.NoneDue ⟨table, nodes⟩ c.marking) :
          Ends (do
            if p && n.isComposite then Region.settle setup table nodes
            return p : Turn σ γ δ Bool) c (fun _ c' => c.Still c') fun _ _ => False := by
        dsimp only
        split
        · rw [ends_bind]
          exact Region.settle_still h
        · exact refl c
      exact Configuration.Answers.of_still h₂.akin hsame (hlast p hdue)
        (hlast p' (hdue.of_profile h₂.akin.alike.profile))

/-- Wherever its profile is the same, a calm region that has settled does the same about an event; it may answer
differently when nothing moved. -/
theorem Region.process_together (hsetup : setup.hooks.Calm) (hr : r.Calm) (hcd : Configuration.Akin b c d)
    (hc : r.Throughout Region.Settled c.marking) :
    EndsTogether (r.process setup e) (r.process setup e) c d (Configuration.Answers b c) Halt.Overflows := by
  induction r using Region.induct generalizing c d with
  | step table nodes ih =>
    have hactive := Marking.active_of_profile hcd.alike.profile
    rw [Region.process]
    refine EndsTogether.active ?_
    rw [hactive]
    cases hi : c.marking.active with
    | stopped => exact ⟨hcd, .inr rfl⟩
    | final => exact ⟨hcd, .inr rfl⟩
    | «at» i =>
      dsimp only
      cases hn : nodes[i]? with
      | none => exact ⟨hcd, .inr rfl⟩
      | some n =>
        have hmem := List.mem_of_getElem? hn
        have hrespond := Region.respond_together (e := e) hsetup hr hcd hc hi hn fun s hs c d hcd hc =>
          ih n hmem s hs (hr.below hmem hs) hcd hc
        unfold Region.respond at hrespond
        dsimp only
        rw [Node.reactAt_eq, hn]
        cases e.isCompletion with
        | true => exact ⟨hcd, .inr rfl⟩
        | false => exact hrespond

/-! ## Autonomous turns -/

/-- The turn makes `m'` of the marking `m` of the region: there the region has settled, and from every marking with the
profile of `m` the turn comes to the profile of `m'`. The mailbox stays `b`. -/
structure Turn.Makes (x : Turn σ γ δ α) (b : Mailbox) (r : BuiltRegion σ γ δ) (m m' : Marking δ) : Prop where
  settled : r.Throughout Region.Settled m'
  again : ∀ d : Configuration σ γ δ, d.world.exchange.mailbox = b → d.marking.profile = m.profile →
    Ends x d (fun _ d' => d'.world.exchange.mailbox = b ∧ d'.marking.profile = m'.profile) fun _ _ => False

/-- Where the region has settled, the turn leaves the mailbox alone, and what it makes of the region depends on nothing
but the mailbox and what was active. -/
def Turn.Autonomous (r : BuiltRegion σ γ δ) (x : Turn σ γ δ α) : Prop :=
  ∀ b c, c.world.exchange.mailbox = b → r.Throughout Region.Settled c.marking →
    Ends x c (fun _ c' => c'.world.exchange.mailbox = b ∧ Makes x b r c.marking c'.marking) fun h _ => h.Overflows

theorem Turn.Autonomous.of_together {x : Turn σ γ δ α}
    (hsettles : ∀ c : Configuration σ γ δ, r.Throughout Region.Settled c.marking →
      Ends x c (fun _ c' => r.Throughout Region.Settled c'.marking) fun _ _ => True)
    (h : ∀ b c d, Configuration.Akin b c d → r.Throughout Region.Settled c.marking →
      EndsTogether x x c d (fun _ _ c' d' => Configuration.Akin b c' d') Halt.Overflows) :
    Autonomous r x := by
  intro b c hb hc
  have hself := h b c c ⟨hb, refl c⟩ hc
  unfold Ends
  cases hx : x c with
  | ok a c' =>
    have hagain : Ends x c (fun _ d' => Configuration.Akin b c' d') fun _ _ => False := Ends.of_ok hself hx
    refine ⟨(hagain.of_ok hx).mailbox, (hsettles c hc).of_ok hx, fun d hd hprofile => ?_⟩
    have hother : Ends x d (fun _ d' => Configuration.Akin b c' d') fun _ _ => False :=
      Ends.of_ok (h b c d ⟨hb, hd.trans hb.symm, hprofile⟩ hc) hx
    exact hother.mono (fun _ _ h => ⟨h.alike.mailbox.trans h.mailbox, h.alike.profile⟩) fun _ _ h => h
  | error halt c' => exact Ends.of_error hself hx

theorem Region.stop_autonomous (hsetup : setup.hooks.Calm) (hr : r.Calm) (e : Event) :
    Autonomous r (r.stop setup e) :=
  .of_together (fun c hc => r.stop_settles e c hc) fun b _ _ hcd _ =>
    ((((Region.calm_coupling hsetup b).stop e ⟨rfl, hr⟩).together hcd)).mono (fun _ _ _ _ h => h.2) fun _ h => h

theorem Region.start_autonomous (hsetup : setup.hooks.Calm) (hinitials : r.HasInitials) (hr : r.Calm) (e : Event) :
    Autonomous r (r.start setup e) :=
  .of_together (fun c hc => r.start_settles hinitials hr e c hc) fun b _ _ hcd _ =>
    ((((Region.calm_coupling hsetup b).start e ⟨rfl, hr⟩).together hcd)).mono (fun _ _ _ _ h => h.2) fun _ h => h

theorem Region.process_autonomous (hsetup : setup.hooks.Calm) (hinitials : r.HasInitials) (hr : r.Calm) (e : Event) :
    Autonomous r (r.process setup e) :=
  .of_together (fun c hc => r.process_settles hinitials hr c hc) fun _ _ _ hcd hc =>
    (Region.process_together hsetup hr hcd hc).mono (fun _ _ _ _ h => h.akin) fun _ h => h

/-! ## Passes over autonomous regions -/

section Passes

variable {x : BuiltRegion σ γ δ → Turn σ γ δ α} {position : Nat} {rs : List (BuiltRegion σ γ δ)}

/-- A pass makes of each region what the turn of the region makes of it. -/
theorem Turn.onEach_makes (hx : ∀ r ∈ rs, Autonomous r (x r)) (hc : c.world.exchange.mailbox = b)
    (hsettled : ∀ (j : Nat) r, rs[j]? = some r → r.Throughout Region.Settled (c.marking.child (position, j))) :
    Ends (onEach x position 0 rs) c
      (fun _ c' => c'.world.exchange.mailbox = b ∧ ∀ (j : Nat) r, rs[j]? = some r →
        Makes (x r) b r (c.marking.child (position, j)) (c'.marking.child (position, j)))
      fun h _ => h.Overflows := by
  refine (onEach_places (W := fun w => w.exchange.mailbox = b) (V := fun h _ => h.Overflows)
    (P := fun j m => m = c.marking.child (position, j))
    (Q := fun j m => ∀ r, rs[j]? = some r → Makes (x r) b r (c.marking.child (position, j)) m) (R := fun _ _ => True)
    (fun _ _ _ => trivial) (fun _ _ _ => trivial) (fun j r hr c₁ hw hm => ?_) hc fun _ _ => rfl).mono
    (fun _ _ h => ⟨h.1, fun j r hr => h.2 j (List.getElem?_eq_some_iff.1 hr).1 r hr⟩) fun _ _ h => h.1
  have hone := hx r (List.mem_of_getElem? hr) b c₁ hw (hm ▸ hsettled j r hr)
  refine hone.mono (fun _ c₂ h => ⟨h.1, fun r' hr' => ?_⟩) fun _ _ h => ⟨h, trivial⟩
  obtain rfl : r = r' := Option.some.inj (hr.symm.trans hr')
  exact hm ▸ h.2

/-- A pass over copies of regions that something was made of makes the same of them. -/
theorem Turn.onEach_repeats {m : Nat → Marking δ} (hd : d.world.exchange.mailbox = b)
    (hmade : ∀ (i : Nat) r, rs[i]? = some r → ∃ m', (d.marking.child (position, i)).profile = m'.profile ∧
      Makes (x r) b r m' (m i)) :
    Ends (onEach x position 0 rs) d
      (fun _ d' => d'.world.exchange.mailbox = b ∧
        ∀ i < rs.length, (d'.marking.child (position, i)).profile = (m i).profile)
      fun _ _ => False := by
  refine (onEach_places (W := fun w => w.exchange.mailbox = b) (V := fun _ _ => False)
    (P := fun i m' => m' = d.marking.child (position, i)) (Q := fun i m' => m'.profile = (m i).profile)
    (R := fun _ _ => True) (fun _ _ _ => trivial) (fun _ _ _ => trivial) (fun i r hr d₁ hw hm => ?_) hd
    fun _ _ => rfl).mono (fun _ _ h => h) fun _ _ h => h.1
  obtain ⟨m', hprofile, hmakes⟩ := hmade i r hr
  exact (hmakes.again d₁ hw (hm ▸ hprofile)).mono (fun _ _ h => h) fun _ _ h => h.elim

end Passes

end Regions

end Statechart
