/-
Computations that may fail: a chain of them succeeds exactly if each of its
steps does, and a loop of checks exactly if every check does.
-/
import Mathlib.Data.List.Basic

universe u v w

namespace Fallible

theorem bind_eq_ok {ε : Type u} {α β : Type v} {x : Except ε α}
    {f : α → Except ε β} {b : β} :
    (x >>= f) = .ok b ↔ ∃ a, x = .ok a ∧ f a = .ok b := by
  cases x with
  | error e => simp [bind, Except.bind]
  | ok a => simp [bind, Except.bind]

theorem both_eq_ok {ε : Type u} {α β γ : Type v} {x : Except ε α}
    {f : α → Except ε β} {g : α → Except ε γ} {b : β} {c : γ}
    (hf : (x >>= f) = .ok b) (hg : (x >>= g) = .ok c) :
    ∃ a, x = .ok a ∧ f a = .ok b ∧ g a = .ok c := by
  obtain ⟨a, rfl, hf⟩ := bind_eq_ok.mp hf
  exact ⟨a, rfl, hf, hg⟩

@[simp] theorem ok_bind {ε : Type u} {α β : Type v} (a : α)
    (f : α → Except ε β) : (Except.ok a >>= f) = f a := rfl

/-- What every step of a loop keeps. -/
theorem foldlM_invariant {ε : Type u} {α : Type w} {σ : Type v}
    {f : σ → α → Except ε σ} {P : σ → Prop} {xs : List α} {s t : σ}
    (hstep : ∀ s t x, P s → f s x = .ok t → P t) (hs : P s)
    (h : xs.foldlM f s = .ok t) : P t := by
  induction xs generalizing s with
  | nil =>
    cases h
    exact hs
  | cons x rest ih =>
    rw [List.foldlM_cons, bind_eq_ok] at h
    obtain ⟨middle, hfirst, hrest⟩ := h
    exact ih (hstep s middle x hs hfirst) hrest

theorem mapM_eq_ok {ε : Type u} {α : Type v} {β : Type v} {f : α → Except ε β}
    {xs : List α} {ys : List β} (h : xs.mapM f = .ok ys) :
    List.Forall₂ (fun x y => f x = .ok y) xs ys := by
  induction xs generalizing ys with
  | nil =>
    cases h
    exact List.Forall₂.nil
  | cons x rest ih =>
    rw [List.mapM_cons, bind_eq_ok] at h
    obtain ⟨y, hy, h⟩ := h
    rw [bind_eq_ok] at h
    obtain ⟨ys, hys, h⟩ := h
    cases h
    exact List.Forall₂.cons hy (ih hys)

def checkAll {ε : Type u} {α : Type v} (check : α → Except ε PUnit) :
    List α → Except ε PUnit
  | [] => .ok ⟨⟩
  | a :: rest =>
    match check a with
    | .error e => .error e
    | .ok _ => checkAll check rest

theorem checkAll_ok {ε : Type u} {α : Type v} {check : α → Except ε PUnit}
    {list : List α} :
    checkAll check list = .ok ⟨⟩ ↔ ∀ a ∈ list, check a = .ok ⟨⟩ := by
  induction list with
  | nil => simp [checkAll]
  | cons a rest ih =>
    rw [checkAll, List.forall_mem_cons]
    cases hcheck : check a with
    | error e => simp
    | ok _ => simp [ih]

def stopIf {ε : Type u} (bad : Prop) [Decidable bad] (error : ε) :
    Except ε PUnit :=
  if bad then .error error else .ok ⟨⟩

def orError {ε : Type u} {α : Type v} (value : Option α) (error : ε) :
    Except ε α :=
  match value with
  | some a => .ok a
  | none => .error error

@[simp] theorem stopIf_eq_ok {ε : Type u} {bad : Prop} [Decidable bad]
    {error : ε} {result : PUnit} : stopIf bad error = .ok result ↔ ¬ bad := by
  rw [stopIf]
  split <;> simp [*]

theorem stopIf_of_not {ε : Type u} {bad : Prop} [Decidable bad] (h : ¬ bad)
    (error : ε) : stopIf bad error = .ok ⟨⟩ :=
  if_neg h

theorem orError_some {ε : Type u} {α : Type v} (a : α) (error : ε) :
    orError (some a) error = .ok a := rfl

@[simp] theorem orError_eq_ok {ε : Type u} {α : Type v} {value : Option α}
    {error : ε} {a : α} : orError value error = .ok a ↔ value = some a := by
  cases value <;> simp [orError]

end Fallible

/-! Monadic folds over lists: steps that agree on the items, and lists of
lists. -/

namespace Folding

variable {m : Type u → Type v} [Monad m] {σ : Type u}
  {α β : Type w}

theorem foldlM_congr {f g : σ → α → m σ} {items : List α}
    (h : ∀ item ∈ items, ∀ s, f s item = g s item) (s : σ) :
    items.foldlM f s = items.foldlM g s := by
  induction items generalizing s with
  | nil => rfl
  | cons item rest ih =>
    rw [List.forall_mem_cons] at h
    rw [List.foldlM_cons, List.foldlM_cons, h.1]
    exact bind_congr fun s => ih h.2 s

theorem foldlM_flatMap [LawfulMonad m] (f : σ → β → m σ)
    (items : α → List β) (list : List α) (s : σ) :
    (list.flatMap items).foldlM f s =
      list.foldlM (fun s a => (items a).foldlM f s) s := by
  induction list generalizing s with
  | nil => rfl
  | cons a rest ih =>
    rw [List.flatMap_cons, List.foldlM_append, List.foldlM_cons]
    exact bind_congr fun s => ih s

end Folding
