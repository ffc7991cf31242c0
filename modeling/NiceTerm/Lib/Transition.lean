/-
Executable transition systems.  A step is a partial function, so a concrete
run is checked by evaluation and an invariant is proved from one step lemma.
-/
import Mathlib.Data.List.Basic

namespace Transition

universe u v

/-- A system given by its initial states and a guarded step function: `none`
means that the event is not enabled. -/
structure System (σ : Type u) (ε : Type v) where
  init : σ → Prop
  step : σ → ε → Option σ

namespace System

variable {σ : Type u} {ε : Type v} (M : System σ ε)

/-- Replay a list of events from a state. -/
def runFrom (s : σ) : List ε → Option σ
  | [] => some s
  | e :: es =>
    match M.step s e with
    | none => none
    | some t => runFrom t es

/-- Every event of the run satisfies `P` in the state it is taken from. -/
def Along (P : σ → ε → Prop) (s : σ) : List ε → Prop
  | [] => True
  | e :: es => P s e ∧ ∀ t, M.step s e = some t → Along P t es

/-- States reached by some run from an initial state. -/
def Reachable (t : σ) : Prop :=
  ∃ s es, M.init s ∧ M.runFrom s es = some t

@[simp] theorem runFrom_nil (s : σ) : M.runFrom s [] = some s := rfl

theorem runFrom_cons_eq_some {s t : σ} {e : ε} {es : List ε} :
    M.runFrom s (e :: es) = some t ↔
      ∃ r, M.step s e = some r ∧ M.runFrom r es = some t := by
  simp only [runFrom]
  cases M.step s e <;> simp

theorem runFrom_append_eq_some {s t : σ} {es fs : List ε} :
    M.runFrom s (es ++ fs) = some t ↔
      ∃ r, M.runFrom s es = some r ∧ M.runFrom r fs = some t := by
  induction es generalizing s with
  | nil => simp
  | cons e es ih =>
    simp only [List.cons_append, runFrom_cons_eq_some, ih]
    constructor
    · rintro ⟨r, hr, q, hq, ht⟩
      exact ⟨q, ⟨r, hr, hq⟩, ht⟩
    · rintro ⟨q, ⟨r, hr, hq⟩, ht⟩
      exact ⟨r, hr, q, hq, ht⟩

/-- A condition on the steps of a concrete run is checked by evaluation. -/
instance decidableAlong (P : σ → ε → Prop) [∀ s e, Decidable (P s e)] :
    ∀ (s : σ) (es : List ε), Decidable (M.Along P s es)
  | _, [] => isTrue trivial
  | s, e :: es =>
    match hstep : M.step s e with
    | none => decidable_of_iff (P s e) (by simp [Along, hstep])
    | some t =>
      have : Decidable (M.Along P t es) := decidableAlong P t es
      decidable_of_iff (P s e ∧ M.Along P t es) (by simp [Along, hstep])

theorem along_congr {P Q : σ → ε → Prop} (h : ∀ s e, P s e ↔ Q s e)
    {s : σ} {es : List ε} : M.Along P s es ↔ M.Along Q s es := by
  induction es generalizing s with
  | nil => rfl
  | cons e es ih => simp only [Along, h, ih]

theorem along_of_forall {P : σ → ε → Prop} {es : List ε}
    (h : ∀ e ∈ es, ∀ s, P s e) (s : σ) : M.Along P s es := by
  induction es generalizing s with
  | nil => trivial
  | cons e es ih =>
    have hrest := ih fun f hf => h f (List.mem_cons_of_mem e hf)
    exact ⟨h e List.mem_cons_self s, fun t _ => hrest t⟩

theorem along_and {P Q : σ → ε → Prop} {s : σ} {es : List ε} :
    M.Along (fun s e => P s e ∧ Q s e) s es ↔
      M.Along P s es ∧ M.Along Q s es := by
  induction es generalizing s with
  | nil => exact ⟨fun _ => ⟨trivial, trivial⟩, fun _ => trivial⟩
  | cons e es ih =>
    simp only [Along, ih]
    constructor
    · rintro ⟨⟨hp, hq⟩, hrest⟩
      exact ⟨⟨hp, fun t ht => (hrest t ht).1⟩, hq, fun t ht => (hrest t ht).2⟩
    · rintro ⟨⟨hp, hps⟩, hq, hqs⟩
      exact ⟨⟨hp, hq⟩, fun t ht => ⟨hps t ht, hqs t ht⟩⟩

theorem along_cons {P : σ → ε → Prop} {s t : σ} {e : ε} {es : List ε}
    (he : P s e) (hstep : M.step s e = some t) (hrest : M.Along P t es) :
    M.Along P s (e :: es) := by
  refine ⟨he, fun u hu => ?_⟩
  obtain rfl := Option.some.inj (hstep.symm.trans hu)
  exact hrest

theorem along_append {P : σ → ε → Prop} {s : σ} {es fs : List ε} :
    M.Along P s (es ++ fs) ↔
      M.Along P s es ∧ ∀ t, M.runFrom s es = some t → M.Along P t fs := by
  induction es generalizing s with
  | nil => simp [Along]
  | cons e es ih =>
    simp only [List.cons_append, Along, ih, and_assoc, runFrom_cons_eq_some]
    constructor
    · rintro ⟨he, hrest⟩
      refine ⟨he, fun t ht => (hrest t ht).1, ?_⟩
      rintro t ⟨r, hr, ht⟩
      exact (hrest r hr).2 t ht
    · rintro ⟨he, hes, hfs⟩
      exact ⟨he, fun t ht => ⟨hes t ht, fun r hr => hfs r ⟨t, ht, hr⟩⟩⟩

theorem reachable_of_init {s : σ} (hs : M.init s) : M.Reachable s :=
  ⟨s, [], hs, rfl⟩

theorem Reachable.run {M : System σ ε} {s t : σ} {es : List ε}
    (hs : M.Reachable s) (hrun : M.runFrom s es = some t) : M.Reachable t := by
  obtain ⟨s₀, fs, h₀, hfs⟩ := hs
  exact ⟨s₀, fs ++ es, h₀, (M.runFrom_append_eq_some).mpr ⟨s, hfs, hrun⟩⟩

/-- A run whose steps all meet `P` keeps every predicate that a step meeting
`P` keeps. -/
theorem run_invariant_along {P : σ → ε → Prop} {Inv : σ → Prop}
    (hstep : ∀ s e t, Inv s → P s e → M.step s e = some t → Inv t)
    {s t : σ} {es : List ε} (hs : Inv s) (halong : M.Along P s es)
    (hrun : M.runFrom s es = some t) : Inv t := by
  induction es generalizing s with
  | nil =>
    simp only [runFrom_nil, Option.some.injEq] at hrun
    exact hrun ▸ hs
  | cons e es ih =>
    obtain ⟨r, hr, hrest⟩ := (M.runFrom_cons_eq_some).mp hrun
    exact ih (hstep s e r hs halong.1 hr) (halong.2 r hr) hrest

/-- A predicate kept by every step is kept by every run. -/
theorem run_invariant {Inv : σ → Prop}
    (hstep : ∀ s e t, Inv s → M.step s e = some t → Inv t) {s t : σ}
    {es : List ε} (hs : Inv s) (hrun : M.runFrom s es = some t) : Inv t := by
  induction es generalizing s with
  | nil =>
    simp only [runFrom_nil, Option.some.injEq] at hrun
    exact hrun ▸ hs
  | cons e es ih =>
    obtain ⟨r, hr, hrest⟩ := (M.runFrom_cons_eq_some).mp hrun
    exact ih (hstep s e r hs hr) hrest

/-- With an invariant, what one step guarantees holds along a whole run. -/
theorem along_of_invariant {P Q : σ → ε → Prop} {Inv : σ → Prop}
    (hstep : ∀ s e t, Inv s → M.step s e = some t → Inv t)
    (h : ∀ s e, Inv s → P s e → Q s e) {s : σ} {es : List ε} (hs : Inv s)
    (halong : M.Along P s es) : M.Along Q s es := by
  induction es generalizing s with
  | nil => trivial
  | cons e es ih =>
    refine ⟨h s e hs halong.1, fun t ht => ?_⟩
    exact ih (hstep s e t hs ht) (halong.2 t ht)

/-- Two conditions that agree on the states of an invariant, which steps meeting
the second keep, hold along the same runs. -/
theorem along_iff_along {P Q : σ → ε → Prop} {Inv : σ → Prop}
    (hstep : ∀ s e t, Inv s → Q s e → M.step s e = some t → Inv t)
    (h : ∀ s e, Inv s → (P s e ↔ Q s e)) {s : σ} {es : List ε} (hs : Inv s) :
    M.Along P s es ↔ M.Along Q s es := by
  induction es generalizing s with
  | nil => exact Iff.rfl
  | cons e es ih =>
    simp only [Along, h s e hs]
    constructor
    · rintro ⟨hq, hrest⟩
      exact ⟨hq, fun t ht => (ih (hstep s e t hs hq ht)).mp (hrest t ht)⟩
    · rintro ⟨hq, hrest⟩
      exact ⟨hq, fun t ht => (ih (hstep s e t hs hq ht)).mpr (hrest t ht)⟩

/-- Every state of the run, the first and the last included, satisfies `P`. -/
def Throughout (P : σ → Prop) (s : σ) : List ε → Prop
  | [] => P s
  | e :: es => P s ∧ ∀ t, M.step s e = some t → Throughout P t es

theorem Throughout.first {P : σ → Prop} {s : σ} {es : List ε}
    (h : M.Throughout P s es) : P s := by
  cases es with
  | nil => exact h
  | cons e es => exact h.1

/-- When each step keeps `Good` exactly if it meets `P`, a run stays in `Good`
exactly if all its steps meet `P`. -/
theorem throughout_iff_along (Inv : σ → Prop) {Good : σ → Prop}
    {P : σ → ε → Prop} {es : List ε}
    (hstep : ∀ s, ∀ e ∈ es, ∀ t, Inv s → Good s → M.step s e = some t →
      Inv t ∧ (Good t ↔ P s e))
    {s t : σ} (hs : Inv s) (hgood : Good s)
    (hrun : M.runFrom s es = some t) :
    M.Throughout Good s es ↔ M.Along P s es := by
  induction es generalizing s with
  | nil => exact iff_of_true hgood trivial
  | cons e es ih =>
    obtain ⟨r, hr, hrest⟩ := M.runFrom_cons_eq_some.mp hrun
    obtain ⟨hinv, hiff⟩ := hstep s e List.mem_cons_self r hs hgood hr
    have htail := ih (fun s f hf => hstep s f (List.mem_cons_of_mem e hf)) hinv
    constructor
    · rintro ⟨-, hthrough⟩
      have hnext := hthrough r hr
      refine ⟨hiff.mp (hnext.first M), fun u hu => ?_⟩
      rw [← Option.some.inj (hr.symm.trans hu)]
      exact (htail (hnext.first M) hrest).mp hnext
    · rintro ⟨hmeets, halong⟩
      refine ⟨hgood, fun u hu => ?_⟩
      rw [← Option.some.inj (hr.symm.trans hu)]
      exact (htail (hiff.mpr hmeets) hrest).mpr (halong r hr)

/-- The induction rule for reachable states. -/
theorem Reachable.invariant {M : System σ ε} {Inv : σ → Prop}
    (hinit : ∀ s, M.init s → Inv s)
    (hstep : ∀ s e t, Inv s → M.step s e = some t → Inv t)
    {t : σ} (ht : M.Reachable t) : Inv t := by
  obtain ⟨s, es, hs, hrun⟩ := ht
  exact M.run_invariant hstep (hinit s hs) hrun

end System

end Transition
