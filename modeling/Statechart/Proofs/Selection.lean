import Statechart.Proofs.Agreement
import Statechart.Proofs.Collecting
import Statechart.Proofs.Queries
import Statechart.Proofs.Reliable
import Statechart.Proofs.Traversal

/-!
# Which handlers an event selects

What a region does about an event can be read off the configuration before: the first row that suits, or else what the
regions of the active state do about it, or else the reaction of that state.

* `Note.isHandling e`, `Note.isOffering e` : a row is fired or a reaction processes `e`; a guard is asked or a reaction
  is consulted about `e`;
* `Region.selection` : the rows and reactions that an event selects; `Region.chances` : the guards and reactions that
  may be asked, each once (`Region.chances_nodup`);
* `Guard.Decides`, `Region.Decided` : what guards and reactions say is settled by the event;
* `Configuration.Handles` : what was handled and what was asked on the way;
* `RegionTable.resolve_selects`, `Node.consult_selects`, `Node.react_selects`, `Region.process_selects`;
* `handler_selection`.
-/

set_option autoImplicit false

namespace Statechart

open Turn

variable {σ γ δ α : Type}

/-! ## What is handled and what is asked -/

/-- Whether a row is fired for the event, or the reaction of a state has processed it. -/
def Note.isHandling (e : Event) : Note σ → Bool
  | .fired _ _ _ e' | .reaction _ _ e' => e' = e
  | _ => false

/-- Whether a guard is asked about the event, or the reaction of a state is consulted. -/
def Note.isOffering (e : Event) : Note σ → Bool
  | .guard _ _ _ e' | .consulted _ _ e' => e' = e
  | _ => false

/-- The event is neither handled nor offered. -/
structure Note.Apart (e : Event) (n : Note σ) : Prop where
  handling : n.isHandling e = false
  offering : n.isOffering e = false

theorem Note.apart_of_isSilent {e : Event} {n : Note σ} (h : n.isSilent = true) : n.Apart e := by
  constructor <;> cases n <;> simp_all [isSilent, isHandling, isOffering]

theorem Note.apart_of_isOfCrossing {e : Event} {n : Note σ} (h : n.isOfCrossing = true) : n.Apart e := by
  constructor <;> cases n <;> simp_all [isOfCrossing, isSilent, isHandling, isOffering]

/-- What is about another event. -/
theorem Note.apart_of_concerns {e e' : Event} (he : e ≠ e') {n : Note σ} (h : n.Concerns e') : n.Apart e := by
  obtain ⟨-, hevent⟩ := h
  constructor <;> cases n <;> simp_all [event?, isHandling, isOffering, eq_comm]

/-- On the way, the event was handled as in `handlers`, and offered as in a part of `chances`. -/
def Configuration.Handles (e : Event) (c : Configuration σ γ δ) (handlers chances : List (Note σ))
    (c' : Configuration σ γ δ) : Prop :=
  ∃ w, c.Writes w c' ∧ w.filter (Note.isHandling e) = handlers ∧ (w.filter (Note.isOffering e)).Sublist chances

section Handles

variable {e : Event} {c c₁ c' : Configuration σ γ δ} {l l' h h' : List (Note σ)}

theorem Configuration.Handles.refl (e : Event) (c : Configuration σ γ δ) : c.Handles e [] [] c :=
  ⟨[], .refl c, rfl, .slnil⟩

theorem Configuration.Handles.trans (hc : c.Handles e h l c₁) (hc' : c₁.Handles e h' l' c') :
    c.Handles e (h ++ h') (l ++ l') c' := by
  obtain ⟨w, hw, rfl, hl⟩ := hc
  obtain ⟨w', hw', rfl, hl'⟩ := hc'
  refine ⟨w ++ w', hw.trans hw', List.filter_append _ _, ?_⟩
  rw [List.filter_append]
  exact hl.append hl'

theorem Configuration.Handles.mono (hc : c.Handles e h l c') (hl : l.Sublist l') : c.Handles e h l' c' := by
  obtain ⟨w, hw, hh, hsub⟩ := hc
  exact ⟨w, hw, hh, hsub.trans hl⟩

theorem Configuration.Follows.handles (hc : c.Follows (Note.Apart e) c') : c.Handles e [] [] c' := by
  obtain ⟨w, hw, hapart⟩ := hc.writes
  refine ⟨w, hw, List.filter_eq_nil_iff.2 fun n hn => by simp [(hapart n hn).handling], ?_⟩
  rw [List.filter_eq_nil_iff.2 fun n hn => by simp [(hapart n hn).offering]]

theorem Configuration.Handles.before (hc : c.Handles e h l c₁) (hc' : c₁.Follows (Note.Apart e) c') :
    c.Handles e h l c' := by
  have hboth := hc.trans hc'.handles
  rwa [List.append_nil, List.append_nil] at hboth

theorem Configuration.handles_note {n : Note σ} (hn : n.isHandling e = true) (hother : n.isOffering e = false)
    (c : Configuration σ γ δ) : c.Handles e [n] [] { c with world.exchange := c.world.exchange.note n } :=
  ⟨[n], c.writes_note n, by simp [hn], by simp [hother]⟩

theorem Configuration.offers_note {n : Note σ} (hn : n.isHandling e = false) (c : Configuration σ γ δ) :
    c.Handles e [] [n] { c with world.exchange := c.world.exchange.note n } :=
  ⟨[n], c.writes_note n, by simp [hn], List.filter_sublist⟩

end Handles

/-! ## The selection -/

/-- Whether source, trigger and guard of the row accept, where `holds` says what a guard says about an event. -/
def Transition.suits {τ : Type} [DecidableEq σ] (holds : Guard γ → Event → Bool) (s : σ) (e : Event)
    (row : Transition σ γ τ) : Bool :=
  row.concerns s e && row.guard.all (holds · e)

section Selection

variable [DecidableEq σ] (holds : Guard γ → Event → Bool) (x : γ) (e : Event)

/-- What an event selects in an active state when no row suits: what it selects inside the state, or else the reaction
of the state if that accepts the event. -/
def StateUnit.response (path : String) (position : Nat) (unit : StateUnit σ γ δ) (m : Marking δ)
    (inside : List (Note σ)) : List (Note σ) :=
  if !inside.isEmpty then inside
  else if unit.behavior.accepts x (m.data position unit.behavior.initial) e then [.reaction path unit.id e]
  else []

/-- What an event selects in an active state, given what it selects inside the state: the first row that suits has
precedence. -/
def RegionTable.selects (table : RegionTable σ γ) (position : Nat) (unit : StateUnit σ γ δ) (m : Marking δ)
    (inside : List (Note σ)) : List (Note σ) :=
  match table.rows.findIdx? (·.suits holds unit.id e) with
  | some k => [.fired table.path unit.id k e]
  | none => unit.response x e table.path position m inside

/-- The rows and reactions that an event selects in a region: none where no state is active. -/
def Region.selection (r : BuiltRegion σ γ δ) (m : Marking δ) : List (Note σ) := r.collect (·.selects holds x e) m

end Selection

/-! ## The chances -/

section Chances

variable (e : Event)

/-- The guards of rows that may be asked about an event, the first of them being row `index`. -/
def RegionTable.inquiries (path : String) (s : σ) (index : Nat) (rows : List (Transition σ γ Nat)) : List (Note σ) :=
  (List.range' index rows.length).map fun k => .guard path s k e

/-- The guards and reactions that may be asked about an event in a region: for the active state the guards in the order
of their rows, then what there is inside the state, and then the reaction of the state. -/
def Region.chances (r : BuiltRegion σ γ δ) (m : Marking δ) : List (Note σ) :=
  r.collect (fun table _ unit _ inside =>
    RegionTable.inquiries e table.path unit.id 0 table.rows ++ (inside ++ [.consulted table.path unit.id e])) m

end Chances

/-- The state that is active while a guard is asked, or whose reaction is consulted. -/
def Note.asked? : Note σ → Option σ
  | .guard _ s _ _ | .consulted _ s _ => some s
  | _ => none

theorem Region.exists_of_mem_chances {e : Event} {r : BuiltRegion σ γ δ} {m : Marking δ} {n : Note σ}
    (hn : n ∈ r.chances e m) : ∃ s ∈ r.ids, n.asked? = some s := by
  induction r using Region.induct generalizing m with
  | step table nodes ih =>
    by_cases hat : ∃ i k, m.active = .at i ∧ nodes[i]? = some k
    · obtain ⟨i, k, hactive, hk⟩ := hat
      have hmem := List.mem_of_getElem? hk
      have hchances : Region.chances e ⟨table, nodes⟩ m = _ := Region.collect_of_at hk hactive
      rw [hchances] at hn
      rcases List.mem_append.1 hn with hn | hn
      · obtain ⟨row, -, rfl⟩ := List.mem_map.1 hn
        exact ⟨k.data.id, Region.id_mem_ids hmem, rfl⟩
      · rcases List.mem_append.1 hn with hn | hn
        · obtain ⟨p, hp, hn⟩ := List.mem_flatMap.1 hn
          obtain ⟨s, hs, hasked⟩ := ih k hmem p.1 (Region.mem_members hp) hn
          exact ⟨s, Region.mem_ids_of_below hmem (Region.mem_members hp) hs, hasked⟩
        · rw [List.mem_singleton] at hn
          subst hn
          exact ⟨k.data.id, Region.id_mem_ids hmem, rfl⟩
    · have hchances : Region.chances e ⟨table, nodes⟩ m = [] :=
        Region.collect_of_resting fun i k hi hk => hat ⟨i, k, hi, hk⟩
      rw [hchances] at hn
      cases hn

theorem Region.members_chances_nodup {e : Event} {position index : Nat} {rs : List (BuiltRegion σ γ δ)} {m : Marking δ}
    (h : Region.AllDistinct rs) (hrs : ∀ r ∈ rs, ∀ m : Marking δ, (r.chances e m).Nodup) :
    ((Region.members position index rs m).flatMap fun p => p.1.chances e p.2).Nodup := by
  induction rs generalizing index with
  | nil => exact List.nodup_nil
  | cons r rs ih =>
    rw [List.forall_mem_cons] at hrs
    have happend : (r.ids ++ Region.allIds rs).Nodup := h
    rw [Region.members, List.flatMap_cons, List.nodup_append]
    refine ⟨hrs.1 _, ih (List.nodup_append.1 happend).2.1 hrs.2, fun n hn n' hn' heq => ?_⟩
    obtain ⟨s, hs, hasked⟩ := Region.exists_of_mem_chances hn
    obtain ⟨p, hp, hn'⟩ := List.mem_flatMap.1 hn'
    obtain ⟨s', hs', hasked'⟩ := Region.exists_of_mem_chances hn'
    have hall : s' ∈ Region.allIds rs := Region.mem_allIds.2 ⟨p.1, Region.mem_members hp, hs'⟩
    refine (List.nodup_append.1 happend).2.2 s hs s' hall (Option.some.inj ?_)
    rw [← hasked, heq, hasked']

/-- Nothing that may be asked is listed twice. -/
theorem Region.chances_nodup {e : Event} {r : BuiltRegion σ γ δ} (h : r.Distinct) (m : Marking δ) :
    (r.chances e m).Nodup := by
  induction r using Region.induct generalizing m with
  | step table nodes ih =>
    by_cases hat : ∃ i k, m.active = .at i ∧ nodes[i]? = some k
    · obtain ⟨i, k, hactive, hk⟩ := hat
      have hmem := List.mem_of_getElem? hk
      have hregions := h.regions hmem
      have hinside : ((Region.members i 0 k.regions m).flatMap fun p => p.1.chances e p.2).Nodup :=
        Region.members_chances_nodup hregions fun r hr m => ih k hmem r hr (hregions.of_mem hr) m
      -- what is asked inside the state is not about the state itself
      have hother {n : Note σ} (hn : n ∈ (Region.members i 0 k.regions m).flatMap fun p => p.1.chances e p.2) :
          n.asked? ≠ some k.data.id := by
        obtain ⟨p, hp, hn⟩ := List.mem_flatMap.1 hn
        obtain ⟨s, hs, hasked⟩ := Region.exists_of_mem_chances hn
        rw [hasked]
        rintro ⟨⟩
        exact h.id_not_mem hmem hmem (Region.mem_allIds.2 ⟨p.1, Region.mem_members hp, hs⟩)
      have hchances : Region.chances e ⟨table, nodes⟩ m = _ := Region.collect_of_at hk hactive
      rw [hchances, List.nodup_append]
      refine ⟨?_, List.nodup_append.2 ⟨hinside, List.nodup_singleton _, fun n hn n' hn' heq => ?_⟩,
        fun n hn n' hn' heq => ?_⟩
      · exact (List.nodup_range' 1 Nat.one_pos).map fun k k' hkk' => by cases hkk'; rfl
      · rw [List.mem_singleton] at hn'
        subst heq hn'
        exact hother hn rfl
      · obtain ⟨row, -, rfl⟩ := List.mem_map.1 hn
        subst heq
        rcases List.mem_append.1 hn' with hn' | hn'
        · exact hother hn' rfl
        · cases List.mem_singleton.1 hn'
    · have hchances : Region.chances e ⟨table, nodes⟩ m = [] :=
        Region.collect_of_resting fun i k hi hk => hat ⟨i, k, hi, hk⟩
      rw [hchances]
      exact List.nodup_nil

/-! ## What guards and reactions say -/

/-- Whatever becomes of the events that it raises, the guard says `b` about the event. -/
def Guard.Decides (g : Guard γ) (e : Event) (b : Bool) : Prop :=
  Callback.Completes (fun verdict => verdict = .ok b) (g.check e).run

/-- In the region and below it, what guards say is settled by the event, as `holds` has it, and reactions keep what they
foretell, which does not depend on the context. -/
structure Region.Decided (holds : Guard γ → Event → Bool) (e : Event) (r : BuiltRegion σ γ δ) : Prop where
  guards : ∀ q ∈ r.preorder, ∀ row ∈ q.data.rows, ∀ g, row.guard = some g → g.Decides e (holds g e)
  foretells : ∀ q ∈ r.preorder, ∀ n ∈ q.nodes, n.data.behavior.Foretells
  context : ∀ q ∈ r.preorder, ∀ n ∈ q.nodes, ∀ x x' d,
    n.data.behavior.accepts x d e = n.data.behavior.accepts x' d e

theorem Region.Decided.below {holds : Guard γ → Event → Bool} {e : Event} {r r' : BuiltRegion σ γ δ}
    {n : BuiltNode σ γ δ} (h : r.Decided holds e) (hn : n ∈ r.nodes) (hr' : r' ∈ n.regions) : r'.Decided holds e where
  guards q hq := h.guards q (Region.mem_preorder_of_mem hn hr' hq)
  foretells q hq := h.foretells q (Region.mem_preorder_of_mem hn hr' hq)
  context q hq := h.context q (Region.mem_preorder_of_mem hn hr' hq)

theorem Course.Completes.avoid {κ : Type} {P : α → Prop} {a : α} {x : Course κ α} (h : x.Completes P)
    (ha : x.Avoids a) : x.Completes fun b => P b ∧ b ≠ a := by
  induction x with
  | done s b => exact ⟨h, ha⟩
  | panic s message => exact h
  | raise e next ih => exact fun receipt => ih receipt (h receipt) (ha receipt)

/-- A reaction that does not fail says what was foretold. -/
theorem Behavior.Foretells.completes {b : Behavior γ δ} (h : b.Foretells) {e : Event}
    (hreliable : Fallible.Succeeds (b.onEvent e)) (x : γ) (d : δ) :
    ((b.onEvent e).run (x, d)).Completes fun outcome => outcome = .ok (b.accepts x d e) := by
  cases haccepts : b.accepts x d e with
  | false =>
    rw [h.refused x d e haccepts]
    rfl
  | true =>
    refine Course.Completes.mono ((hreliable (x, d)).avoid (h.accepted x d e haccepts)) fun outcome houtcome => ?_
    obtain ⟨⟨processed, rfl⟩, hne⟩ := houtcome
    cases processed with
    | true => rfl
    | false => exact absurd rfl hne

section Turns

variable [DecidableEq σ] {holds : Guard γ → Event → Bool} {e : Event}

theorem Transition.canFire_completes {row : Transition σ γ Nat}
    (hguards : ∀ g, row.guard = some g → g.Decides e (holds g e)) (s : σ) :
    Callback.Completes (fun verdict => verdict = .ok (row.suits holds s e)) (row.canFire s e).run := by
  unfold Transition.canFire Transition.suits
  split
  · rename_i hconcerns
    rw [hconcerns, Bool.true_and]
    split
    · rename_i g hg
      rw [hg]
      exact hguards g hg
    · rename_i hnone
      rw [hnone]
      exact fun _ => rfl
  · rename_i hnot
    rw [Bool.not_eq_true] at hnot
    rw [hnot, Bool.false_and]
    exact fun _ => rfl

/-! ## Asking guards and reactions -/

theorem RegionTable.ask_selects {row : Transition σ γ Nat}
    (hguards : ∀ g, row.guard = some g → g.Decides e (holds g e)) (path : String) (s : σ) (index : Nat)
    (c : Configuration σ γ δ) :
    Ends (ask path s e index row) c
      (fun verdict c' => verdict = .ok (row.suits holds s e) ∧ c.Handles e [] [.guard path s index e] c' ∧
        c'.marking = c.marking) fun _ _ => False := by
  have hcheck (c : Configuration σ γ δ) : Ends (perform (row.canFire s e).run) c
      (fun verdict c' => verdict = .ok (row.suits holds s e) ∧ c.Follows (Note.Apart e) c' ∧ c'.marking = c.marking)
      fun _ _ => False := by
    have hgives := perform_gives (N := Note.Apart e) (fun _ => Note.apart_of_isSilent)
      (Transition.canFire_completes hguards s) c
    exact (hgives.and (perform_isQuiet _ c)).mono (fun _ _ h => ⟨h.1.1, h.1.2.follows, h.2.marking⟩) fun _ _ h => h.1
  unfold ask
  split
  · rw [ends_bind, ends_note]
    refine (hcheck _).mono (fun verdict c' h => ⟨h.1, ?_, h.2.2⟩) fun _ _ h => h
    exact (Configuration.offers_note rfl c).before h.2.1
  · refine (hcheck c).mono (fun verdict c' h => ⟨h.1, ?_, h.2.2⟩) fun _ _ h => h
    exact h.2.1.handles.mono (List.nil_sublist _)

theorem RegionTable.firstEnabled_selects {rows : List (Transition σ γ Nat)}
    (hguards : ∀ row ∈ rows, ∀ g, row.guard = some g → g.Decides e (holds g e)) (path : String) (s : σ) (index : Nat)
    (c : Configuration σ γ δ) :
    Ends (firstEnabled path s e index rows) c
      (fun outcome c' => ∃ found, outcome = .ok found ∧
        found.map Prod.fst = (rows.findIdx? (·.suits holds s e)).map (index + ·) ∧
        c.Handles e [] (inquiries e path s index rows) c' ∧ c'.marking = c.marking) fun _ _ => False := by
  induction rows generalizing index c with
  | nil => exact ⟨none, rfl, rfl, .refl e c, rfl⟩
  | cons row rows ih =>
    rw [List.forall_mem_cons] at hguards
    rw [firstEnabled, ends_bind, List.findIdx?_cons]
    refine (ask_selects hguards.1 path s index c).mono (fun verdict c₁ h₁ => ?_) fun _ _ h => h
    obtain ⟨rfl, hasked, hmarking⟩ := h₁
    have hinquiries : inquiries e path s index (row :: rows) =
        .guard path s index e :: inquiries e path s (index + 1) rows := by
      rw [inquiries, List.length_cons, List.range'_succ, List.map_cons]
      rfl
    rw [hinquiries]
    cases hsuits : row.suits holds s e with
    | true =>
      refine ⟨some (index, row), rfl, rfl, ?_, hmarking⟩
      exact hasked.mono (List.singleton_sublist.2 List.mem_cons_self)
    | false =>
      refine (ih hguards.2 (index + 1) c₁).mono (fun outcome c' h => ?_) fun _ _ h => h
      obtain ⟨found, rfl, hfound, hrest, hmarking'⟩ := h
      refine ⟨found, rfl, ?_, hasked.trans hrest, hmarking'.trans hmarking⟩
      rw [hfound, if_neg (by simp), Option.map_map]
      congr 1
      funext k
      simp only [Function.comp_apply]
      omega

variable [Named σ]

theorem RegionTable.resolve_selects (table : RegionTable σ γ)
    (hguards : ∀ row ∈ table.rows, ∀ g, row.guard = some g → g.Decides e (holds g e)) (position : Nat) (s : σ)
    (c : Configuration σ γ δ) :
    Ends (table.resolve position s e) c
      (fun found c' => found.map Choice.row = table.rows.findIdx? (·.suits holds s e) ∧
        c.Handles e [] (inquiries e table.path s 0 table.rows) c' ∧ c'.marking = c.marking) fun _ _ => False := by
  unfold resolve
  rw [ends_bind]
  refine orFail_ends ((firstEnabled_selects hguards table.path s 0 c).mono (fun outcome c₁ h => ?_) fun _ _ h => h)
    .guard table.path s e
  obtain ⟨found, rfl, hfound, hasked, hmarking⟩ := h
  refine ⟨found, rfl, ?_, hasked, hmarking⟩
  rw [Option.map_map]
  refine Eq.trans (b := found.map Prod.fst) rfl ?_
  rw [hfound]
  simp

omit [DecidableEq σ] in
theorem Node.consult_selects {n : BuiltNode σ γ δ} (hreliable : n.data.behavior.Reliable)
    (hforetells : n.data.behavior.Foretells) {x : γ}
    (hcontext : ∀ x' d, n.data.behavior.accepts x' d e = n.data.behavior.accepts x d e) (path : String) (position : Nat)
    (c : Configuration σ γ δ) :
    Ends (n.consult path position e) c
      (fun processed c' =>
        c.Handles e (n.data.response x e path position c.marking []) [.consulted path n.data.id e] c' ∧
        processed = !(n.data.response x e path position c.marking []).isEmpty) fun _ _ => False := by
  let d := c.marking.data position n.data.behavior.initial
  have hresponse : n.data.response x e path position c.marking [] =
      if n.data.behavior.accepts x d e then [.reaction path n.data.id e] else [] := rfl
  unfold Node.consult
  rw [hresponse, ends_bind, ends_note, ends_bind]
  have hcall := performAt_ends (N := Note.Apart e) (fun _ => Note.apart_of_isSilent) position
    n.data.behavior.initial (c := { c with world.exchange := c.world.exchange.note (.consulted path n.data.id e) })
    (hforetells.completes (hreliable.onEvent e) _ _)
  refine orFail_ends (hcall.mono (fun outcome c₁ h₁ => ⟨_, h₁.1, ?_⟩) fun _ _ h => h) .reaction path n.data.id e
  have hasked := (Configuration.offers_note rfl c).before h₁.2.follows
  rw [hcontext]
  cases n.data.behavior.accepts x d e with
  | false => exact ⟨hasked, rfl⟩
  | true => exact ⟨hasked.trans (Configuration.handles_note (by simp [Note.isHandling]) rfl c₁), rfl⟩

/-! ## Turns that keep apart -/

variable {setup : Setup σ γ}

/-- The turn neither handles the event nor offers it, and only an overflow halts it. -/
abbrev Turn.KeepsApart (e : Event) (x : Turn σ γ δ α) : Prop := Lasts (Note.Apart e) x

/-- Settling is about completion alone. -/
theorem Region.settling_apart (he : e ≠ .completion) {r : BuiltRegion σ γ δ} (hr : r.Reliable)
    (hhooks : setup.hooks.Reliable) :
    r.Settling setup (Configuration.Follows (Note.Apart e)) fun h _ => h.isOverflow = true :=
  hr.settling hhooks fun _ => Note.apart_of_concerns he

/-! ## Taking an event -/

/-- Whatever the configuration, the region handles the event as selected in it, asks a part of what there is to ask, and
says whether anything was selected; only an overflow halts it. -/
def Region.Selects (setup : Setup σ γ) (holds : Guard γ → Event → Bool) (x : γ) (e : Event) (r : BuiltRegion σ γ δ) :
    Prop :=
  ∀ c : Configuration σ γ δ, Ends (r.process setup e) c
    (fun processed c' => c.Handles e (r.selection holds x e c.marking) (r.chances e c.marking) c' ∧
      processed = !(r.selection holds x e c.marking).isEmpty) fun h _ => h.isOverflow = true

omit [DecidableEq σ] [Named σ] in
/-- What follows on handling the event keeps apart. -/
theorem Turn.KeepsApart.after {x : Turn σ γ δ Unit} (hx : KeepsApart e x) {c c₁ : Configuration σ γ δ}
    {handlers chances : List (Note σ)} (h₁ : c.Handles e handlers chances c₁) {processed : Bool}
    (hprocessed : processed = !handlers.isEmpty) :
    Ends (do
      x
      return processed) c₁
      (fun processed c' => c.Handles e handlers chances c' ∧ processed = !handlers.isEmpty)
      fun h _ => h.isOverflow = true := by
  rw [ends_bind]
  exact (hx c₁).mono (fun _ c' h => ⟨h₁.before h, hprocessed⟩) fun _ _ h => h.2

variable {x : γ}

/-- What the regions of a state do about an event. -/
theorem Region.onEach_selects {rs : List (BuiltRegion σ γ δ)} (hregions : ∀ r ∈ rs, r.Selects setup holds x e)
    (position : Nat) (c : Configuration σ γ δ) :
    Ends (onEach (fun r => r.process setup e) position 0 rs) c
      (fun processed c' =>
        c.Handles e ((Region.members position 0 rs c.marking).flatMap fun p => p.1.selection holds x e p.2)
          ((Region.members position 0 rs c.marking).flatMap fun p => p.1.chances e p.2) c' ∧
        processed.any id =
          !((Region.members position 0 rs c.marking).flatMap fun p => p.1.selection holds x e p.2).isEmpty)
      fun h _ => h.isOverflow = true := by
  -- what is handled and offered depends on the world alone
  let H (w : World σ γ) (handlers chances : List (Note σ)) (w' : World σ γ) : Prop :=
    Configuration.Handles e (⟨w, c.marking⟩ : Configuration σ γ δ) handlers chances ⟨w', c.marking⟩
  refine (onEach_members (P := fun _ _ => True) (Q := fun _ _ => True) (V := fun h => h.isOverflow = true)
    (K := fun r m processed w w' =>
      H w (r.selection holds x e m) (r.chances e m) w' ∧ processed = !(r.selection holds x e m).isEmpty)
    (T := fun l processed w w' =>
      H w (l.flatMap fun p => p.1.selection holds x e p.2) (l.flatMap fun p => p.1.chances e p.2) w' ∧
        processed.any id = !(l.flatMap fun p => p.1.selection holds x e p.2).isEmpty)
    (fun w => ⟨Configuration.Handles.refl e _, rfl⟩) (fun r m a w w₁ l as w' h h' => ⟨?_, ?_⟩)
    (fun r hr c _ => ?_) 0 c fun _ _ _ => trivial).mono (fun _ _ h => h.1) fun _ _ h => h
  · exact Configuration.Handles.trans h.1 h'.1
  · rw [List.any_cons, h'.2, List.flatMap_cons, h.2]
    cases r.selection holds x e m <;> rfl
  · exact (hregions r hr c).mono (fun _ _ h => ⟨h, trivial⟩) fun _ _ h => h

/-- The local data of the states of the region are the same. -/
def Configuration.SameData (c c' : Configuration σ γ δ) : Prop :=
  ∀ i d, c'.marking.data i d = c.marking.data i d

instance : IsPreorder (Configuration σ γ δ) Configuration.SameData where
  refl _ _ _ := rfl
  trans _ _ _ h h' i d := (h' i d).trans (h i d)

omit [DecidableEq σ] [Named σ] in
/-- The regions of a state do not touch the local data of the states beside it. -/
theorem Turn.onEach_data (x : BuiltRegion σ γ δ → Turn σ γ δ α) (position : Nat) (rs : List (BuiltRegion σ γ δ)) :
    Keeps Configuration.SameData (fun _ _ => True) (onEach x position 0 rs) := by
  refine keeps_onEach (fun r _ j c => ?_) 0
  rw [ends_inChild]
  unfold Ends
  split
  · exact fun _ _ => rfl
  · exact ⟨fun _ _ => rfl, trivial⟩

theorem Node.react_selects {n : BuiltNode σ γ δ} (hreliable : n.data.behavior.Reliable)
    (hforetells : n.data.behavior.Foretells)
    (hcontext : ∀ x' d, n.data.behavior.accepts x' d e = n.data.behavior.accepts x d e)
    (hregions : ∀ r ∈ n.regions, r.Selects setup holds x e) (path : String) (position : Nat) (c : Configuration σ γ δ) :
    let inside := (Region.members position 0 n.regions c.marking).flatMap fun p => p.1.selection holds x e p.2
    let chances := (Region.members position 0 n.regions c.marking).flatMap fun p => p.1.chances e p.2
    Ends (n.react setup path position e) c
      (fun processed c' =>
        c.Handles e (n.data.response x e path position c.marking inside) (chances ++ [.consulted path n.data.id e]) c' ∧
        processed = !(n.data.response x e path position c.marking inside).isEmpty)
      fun h _ => h.isOverflow = true := by
  intro inside chances
  rw [Node.ends_react]
  refine Ends.mono ((Region.onEach_selects hregions position c).and (onEach_data _ position n.regions c))
    (fun processed c₁ h₁ => ?_) fun _ _ h => h.1
  obtain ⟨⟨hhandled, hprocessed⟩, hdata⟩ := h₁
  change processed.any id = !inside.isEmpty at hprocessed
  rw [hprocessed]
  cases hinside : inside.isEmpty with
  | false =>
    have hresponse : n.data.response x e path position c.marking inside = inside := by
      unfold StateUnit.response
      rw [hinside]
      rfl
    rw [hresponse, hinside]
    exact ⟨hhandled.mono (List.sublist_append_left _ _), rfl⟩
  | true =>
    have hnil : inside = [] := List.isEmpty_iff.1 hinside
    have hsame : n.data.response x e path position c₁.marking [] = n.data.response x e path position c.marking [] := by
      unfold StateUnit.response
      rw [hdata]
    rw [hnil]
    refine (Node.consult_selects hreliable hforetells hcontext path position c₁).mono (fun processed c' h => ?_)
      fun _ _ h => h.elim
    rw [hsame] at h
    refine ⟨?_, h.2⟩
    have hboth := Configuration.Handles.trans hhandled h.1
    change c.Handles e (inside ++ _) _ c' at hboth
    rwa [hnil, List.nil_append] at hboth

/-- Without an active state, the event is not processed. -/
theorem Region.process_of_resting {table : RegionTable σ γ} {nodes : List (BuiltNode σ γ δ)}
    {c : Configuration σ γ δ} (h : ∀ i n, c.marking.active = .at i → nodes[i]? ≠ some n) :
    Region.process setup ⟨table, nodes⟩ e c = .ok false c := by
  rw [Region.process, bind_of_ok (show (Turn.active : Turn σ γ δ Active) c = .ok c.marking.active c from rfl)]
  cases hactive : c.marking.active with
  | stopped => rfl
  | final => rfl
  | «at» i =>
    dsimp only
    rw [Option.eq_none_iff_forall_ne_some.2 fun n => h i n hactive]
    rfl

/-- The region responds to the event in its active state. -/
theorem Region.ends_process_of_at (he : e ≠ .completion) {table : RegionTable σ γ} {nodes : List (BuiltNode σ γ δ)}
    {c : Configuration σ γ δ} {i : Nat} {n : BuiltNode σ γ δ} (hn : nodes[i]? = some n)
    (hactive : c.marking.active = .at i) {Q : Bool → Configuration σ γ δ → Prop}
    {E : Halt → Configuration σ γ δ → Prop} :
    Ends (Region.process setup ⟨table, nodes⟩ e) c Q E ↔ Ends (Region.respond setup table nodes i n e) c Q E := by
  have hthis : (Turn.active : Turn σ γ δ Active) c = .ok (.at i) c := by
    rw [← hactive]
    rfl
  have hkind : e.isCompletion = false := by
    rw [← Bool.not_eq_true, Event.isCompletion_iff]
    exact he
  unfold Region.respond Ends
  rw [Region.process, bind_of_ok hthis]
  dsimp only
  rw [hn]
  dsimp only
  rw [hkind, Node.reactAt_eq, hn]
  rfl

/-- What firing a row for the event, and settling after it, do about the event. -/
theorem Region.fire_selects (he : e ≠ .completion) {r : BuiltRegion σ γ δ} (hr : r.Reliable)
    (hhooks : setup.hooks.Reliable) {choice : Choice σ γ} (hrow : choice.transition ∈ r.data.rows)
    (c : Configuration σ γ δ) :
    Ends (Region.fire setup r.data r.nodes choice e) c
      (fun _ c' => c.Handles e [.fired r.data.path choice.state choice.row e] [] c')
      fun h _ => h.isOverflow = true := by
  unfold Region.fire
  rw [Region.fireWith_eq, ends_bind, ends_note]
  have hconduct := Region.conduct_keeps Lasts.inChild r (fun q hq x hx =>
    hr.crosses hhooks (fun _ _ => Note.apart_of_isOfCrossing) hq hx)
    (Region.settling_apart he hr hhooks) (e := e) hrow
  refine (hconduct _).mono (fun _ c' h => ?_) fun _ _ h => h.2
  exact (Configuration.handles_note (by simp [Note.isHandling]) rfl c).before h

theorem Region.respond_selects (he : e ≠ .completion) {r : BuiltRegion σ γ δ} (hr : r.Reliable)
    (hhooks : setup.hooks.Reliable) (hdecided : r.Decided holds e) {i : Nat} {n : BuiltNode σ γ δ}
    (hn : r.nodes[i]? = some n) (hregions : ∀ r' ∈ n.regions, r'.Selects setup holds x e) {c : Configuration σ γ δ}
    (hactive : c.marking.active = .at i) :
    Ends (Region.respond setup r.data r.nodes i n e) c
      (fun processed c' => c.Handles e (r.selection holds x e c.marking) (r.chances e c.marking) c' ∧
        processed = !(r.selection holds x e c.marking).isEmpty) fun h _ => h.isOverflow = true := by
  have hself := r.mem_preorder_self
  have hmem := List.mem_of_getElem? hn
  have hsettle : KeepsApart e (Region.settle setup r.data r.nodes) :=
    Region.settle_keeps Lasts.inChild r (Region.settling_apart he hr hhooks)
  have hselection : r.selection holds x e c.marking = _ := Region.collect_of_at hn hactive
  have hchances : r.chances e c.marking = _ := Region.collect_of_at hn hactive
  rw [hselection, hchances]
  unfold RegionTable.selects Region.respond
  rw [ends_bind]
  refine Ends.mono (Ends.and (RegionTable.resolve_selects r.data (hdecided.guards r hself) i n.data.id c)
    (RegionTable.resolve_fits hactive hn)) (fun found c₁ h₁ => ?_) fun _ _ h => h.1.elim
  obtain ⟨⟨hfound, hasked, hmarking⟩, hfits⟩ := h₁
  cases found with
  | some choice =>
    obtain ⟨hposition, ⟨n', hn', hstate⟩, hrow⟩ := hfits choice rfl
    rw [hmarking, hactive] at hposition
    obtain rfl : i = choice.position := Active.at.inj hposition
    obtain rfl : n = n' := Option.some.inj (hn.symm.trans hn')
    rw [← hfound]
    dsimp only [Option.map_some]
    rw [ends_bind]
    refine (Region.fire_selects he hr hhooks (List.mem_of_getElem? hrow) c₁).mono (fun _ c₂ h₂ => ?_) fun _ _ h => h
    have hhandled := hasked.trans h₂
    rw [List.nil_append, List.append_nil, ← hstate] at hhandled
    have hall (rest : List (Note σ)) := hhandled.mono (List.sublist_append_left _ rest)
    split
    · exact hsettle.after (hall _) rfl
    · exact ⟨hall _, rfl⟩
  | none =>
    rw [← hfound]
    dsimp only [Option.map_none]
    rw [ends_bind]
    have hreact := Node.react_selects (x := x) (hr.behaviors r hself n hmem) (hdecided.foretells r hself n hmem)
      (fun x' d => hdecided.context r hself n hmem x' x d) hregions r.data.path i c₁
    rw [hmarking] at hreact
    refine Ends.mono hreact (fun processed c₂ h₂ => ?_) fun _ _ h => h
    have hall := hasked.trans h₂.1
    rw [List.nil_append] at hall
    split
    · exact hsettle.after hall h₂.2
    · exact ⟨hall, h₂.2⟩

theorem Region.process_selects (he : e ≠ .completion) (hhooks : setup.hooks.Reliable) (x : γ) (r : BuiltRegion σ γ δ)
    (hr : r.Reliable) (hdecided : r.Decided holds e) : r.Selects setup holds x e := by
  induction r using Region.induct with
  | step table nodes ih =>
    intro c
    by_cases hat : ∃ i n, c.marking.active = .at i ∧ nodes[i]? = some n
    · obtain ⟨i, n, hactive, hn⟩ := hat
      have hmem := List.mem_of_getElem? hn
      rw [Region.ends_process_of_at he hn hactive]
      refine Region.respond_selects (r := ⟨table, nodes⟩) he hr hhooks hdecided hn (fun r hr' => ?_) hactive
      exact ih n hmem r hr' (hr.below hmem hr') (hdecided.below hmem hr')
    · have hresting (i : Nat) (n : BuiltNode σ γ δ) (hi : c.marking.active = .at i) : nodes[i]? ≠ some n :=
        fun hn => hat ⟨i, n, hi, hn⟩
      have hselection : Region.selection holds x e ⟨table, nodes⟩ c.marking = [] := Region.collect_of_resting hresting
      have hchances : Region.chances e ⟨table, nodes⟩ c.marking = [] := Region.collect_of_resting hresting
      rw [ends_of_ok (Region.process_of_resting hresting), hselection, hchances]
      exact ⟨.refl e c, rfl⟩

/-- **An event selects its handlers.** Where what guards and reactions say is settled by the event, and no callback
fails, the rows and reactions that a region runs for an event, other than completion, are those that the event selects
in the configuration before: the first row that suits; or else what it selects in the regions of the active state; or
else the reaction of that state. The answer says whether there is one. On the way, the guards of a region are asked, and
the reaction of a state, at most once, and for what was active before. Only an overflow may halt the region. -/
theorem handler_selection {r : BuiltRegion σ γ δ} (hreliable : r.Reliable) (hhooks : setup.hooks.Reliable)
    (hdecided : r.Decided holds e) (he : e ≠ .completion) (c : Configuration σ γ δ) :
    Ends (r.process setup e) c
      (fun processed c' => ∃ w, c.Writes w c' ∧
        w.filter (Note.isHandling e) = r.selection holds c.world.context e c.marking ∧
        (processed = true ↔ r.selection holds c.world.context e c.marking ≠ []) ∧
        (w.filter (Note.isOffering e)).Sublist (r.chances e c.marking) ∧
        (r.Distinct → (w.filter (Note.isOffering e)).Nodup))
      fun h _ => h.isOverflow = true := by
  have hselects := Region.process_selects he hhooks c.world.context r hreliable hdecided
  refine (hselects c).mono (fun processed c' h => ?_) fun _ _ h => h
  obtain ⟨⟨w, hw, hhandled, hoffered⟩, hprocessed⟩ := h
  refine ⟨w, hw, hhandled, ?_, hoffered, fun hdistinct => hoffered.nodup (Region.chances_nodup hdistinct c.marking)⟩
  rw [hprocessed, Bool.not_eq_true', ← Bool.not_eq_true, List.isEmpty_iff]

end Turns

/-- The lamp that is on and dim hands a turn on to its light. -/
theorem handler_selection_glowing :
    Ends (Lamp.tree.process {} Lamp.turn) Lamp.glowing
      (fun processed c' => processed = true ∧ ∃ w, Lamp.glowing.Writes w c' ∧
        w.filter (Note.isHandling Lamp.turn) = [.fired "lamp/on/light" .dim 0 Lamp.turn])
      fun h _ => h.isOverflow = true := by
  have hpreorder : Lamp.tree.preorder = [Lamp.tree,
      ⟨⟨"lamp/on/light", [Lamp.row .dim (.state 1) Lamp.turn], 0⟩, [Lamp.node .dim [], Lamp.node .bright []]⟩] := rfl
  have hdecided : Lamp.tree.Decided (fun _ _ => true) Lamp.turn := by
    refine ⟨?_, ?_, ?_⟩
    · rw [hpreorder, List.forall_mem_cons, List.forall_mem_singleton]
      exact ⟨by simp [Lamp.tree, Region.data, Lamp.row], by simp [Region.data, Lamp.row]⟩
    · rw [hpreorder, List.forall_mem_cons, List.forall_mem_singleton]
      exact ⟨by simp [Lamp.tree, Region.nodes, Lamp.node, Node.data, Reactions.behavior_foretells],
        by simp [Region.nodes, Lamp.node, Node.data, Reactions.behavior_foretells]⟩
    · rw [hpreorder, List.forall_mem_cons, List.forall_mem_singleton]
      exact ⟨by simp [Lamp.tree, Region.nodes, Lamp.node, Node.data, Reactions.behavior],
        by simp [Region.nodes, Lamp.node, Node.data, Reactions.behavior]⟩
  have hselection : Lamp.tree.selection (fun _ _ => true) () Lamp.turn Lamp.glowing.marking =
      [.fired "lamp/on/light" .dim 0 Lamp.turn] := by decide +kernel
  have hhooks : ({} : Setup Lamp Unit).hooks.Reliable := .of_none rfl rfl
  refine (handler_selection Lamp.tree_reliable hhooks hdecided (by decide) Lamp.glowing).mono
    (fun processed c' h => ?_) fun _ _ h => h
  obtain ⟨w, hw, hhandled, hprocessed, -⟩ := h
  rw [show Lamp.glowing.world.context = () from rfl, hselection] at hhandled hprocessed
  exact ⟨hprocessed.2 (List.cons_ne_nil _ _), w, hw, hhandled⟩

end Statechart
