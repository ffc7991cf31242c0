/-
Chains of a partial function: whether the chain that begins somewhere ends,
what it meets on the way, and chains that follow one another.
-/
import Mathlib.Logic.Relation

namespace Chain

open Option Relation

universe u v

variable {α : Type u} {β : Type v}

/-- The chain from `a` has an end. -/
inductive Ends (next : α → Option α) : α → Prop
  | stop {a : α} (h : next a = none) : Ends next a
  | step {a b : α} (h : next a = some b) (rest : Ends next b) : Ends next a

/-- What the chain from `a` meets first. -/
def Visits (next : α → Option α) : α → List α → Prop
  | _, [] => True
  | a, b :: rest => next a = some b ∧ Visits next b rest

/-- The chain from `a` comes to `b`. -/
def Reaches (next : α → Option α) (a b : α) : Prop :=
  ReflTransGen (fun a b => next a = some b) a b

/-- It comes there after a step or more. -/
def Leads (next : α → Option α) (a b : α) : Prop :=
  TransGen (fun a b => next a = some b) a b

variable {next : α → Option α} {small : β → Option β}

variable {a : α}

theorem ends_iff {b : α} (h : next a = some b) : Ends next a ↔ Ends next b := by
  constructor
  · intro hends
    cases hends with
    | stop hnone => rw [hnone] at h; contradiction
    | step hsome hrest =>
      rw [hsome, some.injEq] at h
      exact h ▸ hrest
  · exact Ends.step h

theorem ends_of_reaches {b : α} (h : Reaches next a b) :
    Ends next a ↔ Ends next b := by
  induction h using ReflTransGen.head_induction_on with
  | refl => exact Iff.rfl
  | head hstep _ ih => exact (ends_iff hstep).trans ih

theorem leads_step {b c : α} (hstep : next a = some b)
    (h : Leads next a c) : Reaches next b c := by
  obtain ⟨d, hfirst, hrest⟩ := TransGen.head'_iff.mp h
  rw [hstep, some.injEq] at hfirst
  exact hfirst ▸ hrest

/-- A chain that comes back to where it began has no end. -/
theorem not_ends_of_leads (h : Leads next a a) : ¬ Ends next a := by
  intro hends
  induction hends with
  | stop hnone =>
    obtain ⟨b, hfirst, -⟩ := TransGen.head'_iff.mp h
    rw [hnone] at hfirst
    contradiction
  | step hstep _ ih => exact ih (TransGen.tail' (leads_step hstep h) hstep)

/-- A chain that never comes back to where it was, within finitely many places,
has an end. -/
theorem ends_of_finite [DecidableEq α] (hacyclic : ∀ a, ¬ Leads next a a)
    (places : List α)
    (hfinite : ∀ b, Reaches next a b → next b ≠ none → b ∈ places) :
    Ends next a := by
  induction hn : places.length using Nat.strongRecOn generalizing places a with
  | ind n ih =>
    cases hnext : next a with
    | none => exact Ends.stop hnext
    | some b =>
      have hmem : a ∈ places :=
        hfinite a ReflTransGen.refl (by rw [hnext]; exact some_ne_none b)
      have hshorter : (places.filter (· ≠ a)).length < n := by
        rw [← hn]
        refine List.length_filter_lt_length_iff_exists.mpr ⟨a, hmem, ?_⟩
        simp
      refine Ends.step hnext (ih _ hshorter _ (fun c hreaches hc => ?_) rfl)
      rw [List.mem_filter]
      refine ⟨hfinite c (ReflTransGen.head hnext hreaches) hc, ?_⟩
      rw [decide_eq_true_eq]
      rintro rfl
      exact hacyclic c (TransGen.head' hnext hreaches)

theorem leads_of_visits {b : α} {list : List α} (h : Visits next a list)
    (hmem : b ∈ list) : Leads next a b := by
  induction list generalizing a with
  | nil => exact absurd hmem List.not_mem_nil
  | cons c rest ih =>
    obtain ⟨hstep, hrest⟩ := h
    rcases List.mem_cons.mp hmem with rfl | hlater
    · exact TransGen.single hstep
    · exact TransGen.head hstep (ih hrest hlater)

theorem visits_unique {list list' : List α} (h : Visits next a list)
    (h' : Visits next a list') (hlength : list.length = list'.length) :
    list = list' := by
  induction list generalizing a list' with
  | nil => exact (List.eq_nil_of_length_eq_zero hlength.symm).symm
  | cons b rest ih =>
    cases list' with
    | nil => exact absurd hlength (Nat.succ_ne_zero _)
    | cons c rest' =>
      obtain ⟨hstep, hrest⟩ := h
      obtain ⟨hstep', hrest'⟩ := h'
      rw [hstep, some.injEq] at hstep'
      subst hstep'
      rw [ih hrest hrest' (Nat.succ.inj hlength)]

section Following

variable {f : β → α} {Inv : β → Prop}

/-- One chain follows another step by step. -/
def Follows (next : α → Option α) (small : β → Option β) (f : β → α)
    (Inv : β → Prop) : Prop :=
  ∀ b, Inv b → next (f b) = (small b).map f ∧ ∀ c, small b = some c → Inv c

section

variable (h : Follows next small f Inv) {b : β} (hb : Inv b)
include h hb

theorem Follows.ends :
    Ends next (f b) ↔ Ends small b := by
  constructor
  · generalize hstart : f b = a
    intro hends
    induction hends generalizing b with
    | stop hnone =>
      rw [← hstart, (h b hb).1, map_eq_none_iff] at hnone
      exact Ends.stop hnone
    | step hsome _ ih =>
      rw [← hstart, (h b hb).1, map_eq_some_iff] at hsome
      obtain ⟨c, hc, hnext⟩ := hsome
      exact Ends.step hc (ih ((h b hb).2 c hc) hnext)
  · intro hends
    induction hends with
    | stop hnone => exact Ends.stop (by rw [(h _ hb).1, hnone]; rfl)
    | @step b c hsome _ ih =>
      have hstep : next (f b) = some (f c) := by
        rw [(h b hb).1, hsome, map_some]
      exact Ends.step hstep (ih ((h b hb).2 c hsome))

theorem Follows.visits {list : List β} (hvisits : Visits small b list) :
    Visits next (f b) (list.map f) := by
  induction list generalizing b with
  | nil => trivial
  | cons c rest ih =>
    obtain ⟨hstep, hrest⟩ := hvisits
    have hnext : next (f b) = some (f c) := by
      rw [(h b hb).1, hstep, map_some]
    exact ⟨hnext, ih ((h b hb).2 c hstep) hrest⟩

theorem Follows.reaches
    {a : α} (hreaches : Reaches next (f b) a) : ∃ c, Inv c ∧ f c = a := by
  generalize hstart : f b = start at hreaches
  induction hreaches using ReflTransGen.head_induction_on generalizing b with
  | refl => exact ⟨b, hb, hstart⟩
  | head hstep _ ih =>
    rw [← hstart, (h b hb).1, map_eq_some_iff] at hstep
    obtain ⟨c, hc, hnext⟩ := hstep
    exact ih ((h b hb).2 c hc) hnext

end

end Following

/-- The steps of one chain are runs of another, and where it stops the other
comes to an end. -/
theorem ends_of_runs {f : β → α}
    (hsome : ∀ b c, small b = some c → Leads next (f b) (f c))
    (hnone : ∀ b, small b = none → Ends next (f b)) {b : β} :
    Ends small b ↔ Ends next (f b) := by
  constructor
  · intro h
    induction h with
    | stop hstop => exact hnone _ hstop
    | step hstep _ ih =>
      exact (ends_of_reaches (hsome _ _ hstep).to_reflTransGen).mpr ih
  · intro h
    -- Every later start on the way down is covered by the same induction.
    have hall : ∀ a, Ends next a → ∀ c, Reaches next a (f c) →
        Ends small c := by
      intro a hends
      induction hends with
      | @stop a hstop =>
        intro c hreaches
        rcases ReflTransGen.cases_head hreaches with heq | ⟨d, hfirst, -⟩
        · cases hc : small c with
          | none => exact Ends.stop hc
          | some d =>
            obtain ⟨e, hfirst, -⟩ := TransGen.head'_iff.mp (hsome c d hc)
            rw [← heq, hstop] at hfirst
            contradiction
        · rw [hstop] at hfirst
          contradiction
      | @step a d hstep _ ih =>
        intro c hreaches
        rcases ReflTransGen.cases_head hreaches with heq | ⟨e, hfirst, hrest⟩
        · cases hc : small c with
          | none => exact Ends.stop hc
          | some e =>
            have hrun := hsome c e hc
            rw [← heq] at hrun
            exact Ends.step hc (ih e (leads_step hstep hrun))
        · rw [hstep, some.injEq] at hfirst
          exact ih c (hfirst ▸ hrest)
    exact hall _ h b ReflTransGen.refl

end Chain

/-! Forests given by parent pointers.  No chain of parents comes back to where it
began, and moving a node keeps it so unless the node is above its new parent. -/

namespace Forest

open Relation

universe u

variable {α : Type u}

/-- The parent of `a` is `b`. -/
def Up (parent : α → Option α) (a b : α) : Prop := parent a = some b

/-- `b` is `a` or above it. -/
def Above (parent : α → Option α) (a b : α) : Prop :=
  ReflTransGen (Up parent) a b

def Acyclic (parent : α → Option α) : Prop :=
  ∀ a, ¬ TransGen (Up parent) a a

variable {parent moved : α → Option α}

theorem acyclic_iff :
    Acyclic parent ↔ ∀ a b, parent a = some b → ¬ Above parent b a := by
  constructor
  · intro h a b hup habove
    exact h a (TransGen.head' hup habove)
  · intro h a hcycle
    obtain ⟨b, hup, habove⟩ := TransGen.head'_iff.mp hcycle
    exact h a b hup habove

theorem above_head {a b : α} (h : Above parent a b) (hne : a ≠ b) :
    ∃ c, parent a = some c ∧ Above parent c b := by
  rcases ReflTransGen.cases_head h with heq | ⟨c, hup, habove⟩
  · exact absurd heq hne
  · exact ⟨c, hup, habove⟩

/-- Fewer pointers make no cycle. -/
theorem Acyclic.mono (h : Acyclic parent)
    (hsub : ∀ a b, moved a = some b → parent a = some b) : Acyclic moved := by
  intro a hcycle
  exact h a (TransGen.mono hsub a a hcycle)

section

variable {node : α}
    (hother : ∀ a, a ≠ node → ∀ b, moved a = some b → parent a = some b)
include hother

/-- Up to the moved node, a chain is an old one. -/
theorem above_node {a : α} (h : Above moved a node) : Above parent a node := by
  induction h using ReflTransGen.head_induction_on with
  | refl => exact ReflTransGen.refl
  | @head a b hup _ ih =>
    by_cases heq : a = node
    · rw [heq]
      exact ReflTransGen.refl
    · exact ReflTransGen.head (hother a heq b hup) ih

/-- A chain is an old one or comes to the moved node. -/
theorem above_or_node {a b : α} (h : Above moved a b) :
    Above parent a b ∨ Above moved a node ∧ Above moved node b := by
  induction h using ReflTransGen.head_induction_on with
  | refl => exact .inl ReflTransGen.refl
  | @head a c hup hrest ih =>
    by_cases heq : a = node
    · subst heq
      exact .inr ⟨ReflTransGen.refl, ReflTransGen.head hup hrest⟩
    · rcases ih with hold | ⟨hto, hfrom⟩
      · exact .inl (ReflTransGen.head (hother a heq c hup) hold)
      · exact .inr ⟨ReflTransGen.head hup hto, hfrom⟩

end

/-- The rule for moving one node. -/
theorem Acyclic.move (h : Acyclic parent) {node : α}
    (hother : ∀ a, a ≠ node → ∀ b, moved a = some b → parent a = some b)
    (hnode : ∀ b, moved node = some b → ¬ Above parent b node) :
    Acyclic moved := by
  have hloop : ∀ b, moved node = some b → ¬ Above moved b node :=
    fun b hup habove => hnode b hup (above_node hother habove)
  rw [acyclic_iff] at h ⊢
  intro a b hup habove
  by_cases heq : a = node
  · subst heq
    exact hloop b hup habove
  · rcases above_or_node hother habove with hold | ⟨hto, hfrom⟩
    · exact h a b (hother a heq b hup) hold
    · obtain ⟨c, hfirst, hrest⟩ := above_head hfrom (Ne.symm heq)
      exact hloop c hfirst (hrest.trans (ReflTransGen.head hup hto))

end Forest
