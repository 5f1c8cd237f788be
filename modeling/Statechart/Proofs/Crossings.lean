import Mathlib.Data.List.Chain
import Mathlib.Data.List.Induction
import Statechart.Proofs.Exchange

/-!
# Entries and exits in a journal

A state is inside from its entry to its exit. In a nested journal entries and exits of a state alternate, and
a state is inside only while the states that enclose it are.

* `Note.crossing?`, `crossings s l` : the entries and exits of one state;
* `isInside s l` : whether the state was entered last;
* `Nested owns l` : every entry and every exit was in order, where `owns o s` says that `o` encloses `s`;
  `Nested.alternates`, `Nested.count_crossings`, `Nested.inside_of_owns` : what follows.
-/

set_option autoImplicit false

namespace Statechart

variable {σ γ δ : Type}

/-- The two ways of crossing the border of a state. -/
inductive Crossing where
  | entry
  | exit
deriving DecidableEq, Repr

section Crossings

variable [DecidableEq σ]

/-- What the note says of the border of a state. -/
def Note.crossing? (s : σ) : Note σ → Option Crossing
  | .entry _ s' _ => if s' = s then some .entry else none
  | .exit _ s' _ => if s' = s then some .exit else none
  | _ => none

/-- The entries and exits of a state, in order. -/
def crossings (s : σ) (l : List (Note σ)) : List Crossing := l.filterMap (Note.crossing? s)

/-- Whether the state was entered last. -/
def isInside (s : σ) (l : List (Note σ)) : Bool := (crossings s l).getLast? = some .entry

/-- The entries and exits alternate, beginning with an entry. -/
def Alternates (l : List Crossing) : Prop := (Crossing.exit :: l).IsChain (· ≠ ·)

variable {s t : σ} {l l' : List (Note σ)} {n : Note σ}

theorem crossings_append : crossings s (l ++ l') = crossings s l ++ crossings s l' := List.filterMap_append

theorem crossings_eq_nil (h : ∀ n ∈ l, n.crossing? s = none) : crossings s l = [] :=
  List.filterMap_eq_nil_iff.2 h

theorem Note.crossing?_eq_none (h : n.isCrossing = false) : n.crossing? s = none := by
  cases n <;> first | rfl | cases h

theorem isInside_append (h : crossings s l' = []) : isInside s (l ++ l') = isInside s l := by
  unfold isInside
  rw [crossings_append, h, List.append_nil]

/-- What is not crossed does not change. -/
theorem isInside_note (h : n.crossing? s = none) : isInside s (l ++ [n]) = isInside s l :=
  isInside_append (crossings_eq_nil (by simpa using h))

theorem isInside_entry (path : String) (e : Event) : isInside s (l ++ [.entry path s e]) = true := by
  unfold isInside
  rw [crossings_append]
  simp [crossings, Note.crossing?]

theorem isInside_exit (path : String) (e : Event) : isInside s (l ++ [.exit path s e]) = false := by
  unfold isInside
  rw [crossings_append]
  simp [crossings, Note.crossing?]

theorem isInside_entry_of_ne (h : t ≠ s) (path : String) (e : Event) :
    isInside s (l ++ [.entry path t e]) = isInside s l :=
  isInside_note (by simp [Note.crossing?, h])

theorem isInside_exit_of_ne (h : t ≠ s) (path : String) (e : Event) :
    isInside s (l ++ [.exit path t e]) = isInside s l :=
  isInside_note (by simp [Note.crossing?, h])

/-! ## Nested journals -/

variable {owns : σ → σ → Prop}

/-- A state is entered only from outside and while all that own it are inside, and left only from inside
and when nothing that it owns is inside any more. -/
inductive Nested (owns : σ → σ → Prop) : List (Note σ) → Prop where
  | nil : Nested owns []
  | still {l : List (Note σ)} {n : Note σ} (h : Nested owns l) (hn : n.isCrossing = false) :
      Nested owns (l ++ [n])
  | entry {l : List (Note σ)} {s : σ} (path : String) (e : Event) (h : Nested owns l)
      (outside : isInside s l = false) (above : ∀ o, owns o s → isInside o l = true) :
      Nested owns (l ++ [.entry path s e])
  | exit {l : List (Note σ)} {s : σ} (path : String) (e : Event) (h : Nested owns l)
      (inside : isInside s l = true) (below : ∀ t, owns s t → isInside t l = false) :
      Nested owns (l ++ [.exit path s e])

theorem Nested.append_still (h : Nested owns l) (hl' : ∀ n ∈ l', n.isCrossing = false) :
    Nested owns (l ++ l') := by
  induction l' using List.reverseRecOn with
  | nil => rwa [List.append_nil]
  | append_singleton l' n ih =>
    rw [← List.append_assoc]
    have hl := ih fun n hn => hl' n (List.mem_append_left _ hn)
    exact hl.still (hl' n (List.mem_append_right _ List.mem_cons_self))

theorem Nested.of_concat (h : Nested owns (l ++ [n])) : Nested owns l := by
  generalize hk : l ++ [n] = k at h
  cases h with
  | nil => simp at hk
  | still h _ | entry _ _ h _ _ | exit _ _ h _ _ =>
    obtain ⟨rfl, -⟩ := List.append_inj' hk rfl
    exact h

theorem Nested.of_entry {path : String} {e : Event} (h : Nested owns (l ++ [.entry path s e])) :
    isInside s l = false := by
  generalize hk : l ++ [.entry path s e] = k at h
  cases h with
  | nil => simp at hk
  | still h hn =>
    obtain ⟨-, hn'⟩ := List.append_inj' hk rfl
    cases hn'
    cases hn
  | entry _ _ _ outside _ =>
    obtain ⟨rfl, hn'⟩ := List.append_inj' hk rfl
    cases hn'
    exact outside
  | exit _ _ _ _ _ =>
    obtain ⟨-, hn'⟩ := List.append_inj' hk rfl
    cases hn'

theorem Nested.of_exit {path : String} {e : Event} (h : Nested owns (l ++ [.exit path s e])) :
    ∀ t, owns s t → isInside t l = false := by
  generalize hk : l ++ [.exit path s e] = k at h
  cases h with
  | nil => simp at hk
  | still h hn =>
    obtain ⟨-, hn'⟩ := List.append_inj' hk rfl
    cases hn'
    cases hn
  | entry _ _ _ _ _ =>
    obtain ⟨-, hn'⟩ := List.append_inj' hk rfl
    cases hn'
  | exit _ _ _ _ below =>
    obtain ⟨rfl, hn'⟩ := List.append_inj' hk rfl
    cases hn'
    exact below

/-- What is nested was so at every moment. -/
theorem Nested.of_append (h : Nested owns (l ++ l')) : Nested owns l := by
  induction l' using List.reverseRecOn with
  | nil => rwa [List.append_nil] at h
  | append_singleton l' n ih =>
    rw [← List.append_assoc] at h
    exact ih h.of_concat

/-! ## What follows of nesting -/

theorem alternates_concat {l : List Crossing} {c : Crossing} (h : Alternates l)
    (hc : l.getLast? = some .entry ↔ c = .exit) : Alternates (l ++ [c]) := by
  unfold Alternates at h ⊢
  rw [← List.cons_append]
  refine List.isChain_append.2 ⟨h, List.isChain_singleton c, fun x hx y hy => ?_⟩
  obtain rfl : c = y := by simpa using hy
  rintro rfl
  rw [List.getLast?_cons] at hx
  cases hlast : l.getLast? with
  | none => simp_all
  | some d => cases d <;> simp_all

theorem crossings_concat (s : σ) (l : List (Note σ)) (n : Note σ) :
    crossings s (l ++ [n]) = crossings s l ++ (n.crossing? s).toList := by
  rw [crossings_append]
  unfold crossings
  cases h : n.crossing? s <;> simp [h]

/-- The entries and exits of every state alternate. -/
theorem Nested.alternates (h : Nested owns l) (s : σ) : Alternates (crossings s l) := by
  induction h with
  | nil => exact List.isChain_singleton _
  | still _ hn ih =>
    rw [crossings_concat, Note.crossing?_eq_none hn]
    simpa using ih
  | @entry l t path e _ outside _ ih =>
    rw [crossings_concat]
    by_cases hts : t = s
    · subst hts
      simpa [Note.crossing?] using alternates_concat ih (c := .entry) (by simpa [isInside] using outside)
    · simpa [Note.crossing?, hts] using ih
  | @exit l t path e _ inside _ ih =>
    rw [crossings_concat]
    by_cases hts : t = s
    · subst hts
      simpa [Note.crossing?] using alternates_concat ih (c := .exit) (by simpa [isInside] using inside)
    · simpa [Note.crossing?, hts] using ih

/-- A state was entered once more than left if it is inside, and as often otherwise. -/
theorem Nested.count_crossings (h : Nested owns l) (s : σ) :
    (crossings s l).count .entry = (crossings s l).count .exit + (isInside s l).toNat := by
  induction h with
  | nil => rfl
  | still _ hn ih =>
    rw [crossings_concat, isInside_note (Note.crossing?_eq_none hn), Note.crossing?_eq_none hn]
    simpa using ih
  | @entry l t path e _ outside _ ih =>
    rw [crossings_concat]
    by_cases hts : t = s
    · subst hts
      rw [isInside_entry]
      simpa [Note.crossing?, outside] using ih
    · rw [isInside_entry_of_ne hts]
      simpa [Note.crossing?, hts] using ih
  | @exit l t path e _ inside _ ih =>
    rw [crossings_concat]
    by_cases hts : t = s
    · subst hts
      rw [isInside_exit]
      simpa [Note.crossing?, inside] using ih
    · rw [isInside_exit_of_ne hts]
      simpa [Note.crossing?, hts] using ih

/-- While a state is inside, so is every state that owns it. -/
theorem Nested.inside_of_owns (h : Nested owns l) {o : σ} (ho : owns o s) (hs : isInside s l = true) :
    isInside o l = true := by
  induction h with
  | nil => cases hs
  | still _ hn ih =>
    rw [isInside_note (Note.crossing?_eq_none hn)] at hs ⊢
    exact ih hs
  | @entry l t path e _ outside above ih =>
    have hinside : isInside o l = true := by
      by_cases hts : t = s
      · subst hts
        exact above o ho
      · rw [isInside_entry_of_ne hts] at hs
        exact ih hs
    have hto : t ≠ o := by
      rintro rfl
      rw [outside] at hinside
      cases hinside
    rw [isInside_entry_of_ne hto, hinside]
  | @exit l t path e _ inside below ih =>
    have hts : t ≠ s := by
      rintro rfl
      rw [isInside_exit] at hs
      cases hs
    rw [isInside_exit_of_ne hts] at hs
    have hto : t ≠ o := by
      rintro rfl
      rw [below s ho] at hs
      cases hs
    rw [isInside_exit_of_ne hto, ih hs]

/-- As long as a state stays inside, the states that own it are inside and are not crossed. -/
theorem Nested.not_crossed_of_owns (h : Nested owns (l ++ l')) {o : σ} (ho : owns o s)
    (hs : isInside s l = true) (hl' : crossings s l' = []) : isInside o l = true ∧ crossings o l' = [] := by
  induction l' using List.reverseRecOn with
  | nil => exact ⟨h.of_append.inside_of_owns ho hs, rfl⟩
  | append_singleton l' n ih =>
    rw [crossings_append, List.append_eq_nil_iff] at hl'
    rw [← List.append_assoc] at h
    obtain ⟨hinside, hcrossings⟩ := ih h.of_concat hl'.1
    have hnow : isInside o (l ++ l') = true := by rwa [isInside_append hcrossings]
    have hn : n.crossing? o = none := by
      unfold Note.crossing?
      split
      · split
        · rename_i hto
          subst hto
          rw [h.of_entry] at hnow
          cases hnow
        · rfl
      · split
        · rename_i hto
          subst hto
          have hout := h.of_exit s ho
          rw [isInside_append hl'.1, hs] at hout
          cases hout
        · rfl
      · rfl
    rw [crossings_concat, hn, hcrossings]
    exact ⟨hinside, rfl⟩

end Crossings

end Statechart
