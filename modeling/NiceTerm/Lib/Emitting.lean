/-
A computation that emits items while it works on a state and may end early.
Some items announce the end; such a computation announces it exactly once if
each of its parts does.
-/
import Mathlib.Data.List.Count
import Mathlib.Data.List.Infix

universe u v w

/-- The emitted items, and the state to go on with unless it has ended. -/
structure Emitting (α : Type u) (σ : Type v) where
  next : Option σ
  output : List α
deriving Repr, DecidableEq

namespace Emitting

variable {α : Type u} {σ : Type v} {τ : Type w}

def live (s : σ) (output : List α) : Emitting α σ := ⟨some s, output⟩

def ended (output : List α) : Emitting α σ := ⟨none, output⟩

/-- Go on with the state that is left. -/
def andThen (first : Emitting α σ) (second : σ → Emitting α τ) : Emitting α τ :=
  match first.next with
  | none => ended first.output
  | some s => ⟨(second s).next, first.output ++ (second s).output⟩

/-- The same computation after what has been emitted before. -/
def after (output : List α) (rest : Emitting α σ) : Emitting α σ :=
  ⟨rest.next, output ++ rest.output⟩

variable (terminal : α → Bool)

/-- The end is announced once if the computation ends, and else not at all. -/
def EndsOnce (run : Emitting α σ) : Prop :=
  run.output.countP terminal = if run.next.isSome then 0 else 1

variable {terminal}

theorem endsOnce_live {s : σ} {output : List α}
    (h : output.countP terminal = 0) : EndsOnce terminal (live s output) := h

theorem endsOnce_ended {output : List α} (h : output.countP terminal = 1) :
    EndsOnce terminal (ended output : Emitting α σ) := h

theorem EndsOnce.after {output : List α} {rest : Emitting α σ}
    (hrest : EndsOnce terminal rest) (h : output.countP terminal = 0) :
    EndsOnce terminal (rest.after output) := by
  rw [EndsOnce, Emitting.after, List.countP_append, h, Nat.zero_add]
  exact hrest

theorem EndsOnce.andThen {first : Emitting α σ} {second : σ → Emitting α τ}
    (hfirst : EndsOnce terminal first)
    (hsecond : ∀ s, EndsOnce terminal (second s)) :
    EndsOnce terminal (first.andThen second) := by
  rw [EndsOnce] at hfirst
  rw [Emitting.andThen]
  cases hnext : first.next with
  | none =>
    rw [hnext] at hfirst
    exact hfirst
  | some s =>
    rw [hnext] at hfirst
    have hrest := (hsecond s).after hfirst
    exact hrest

end Emitting

/-! What has left a component and what is due to leave it.  A step moves items
from the second list to the first; the order of the input is kept exactly if
every step takes the items that come next. -/

/-- What has been sent and what remains to be sent, in the input's order. -/
structure Pipe (α : Type u) where
  sent : List α
  due : List α

namespace Pipe

variable {α : Type u} {P Q : Prop} {a b c : Pipe α}

/-- The input as the pipe accounts for it. -/
def total (pipe : Pipe α) : List α :=
  pipe.sent ++ pipe.due

/-- A step that keeps the order if `P` holds; otherwise what it has sent is no
beginning of the input any more. -/
structure Moves (P : Prop) (a b : Pipe α) : Prop where
  grows : a.sent <+: b.sent
  order : P → b.total = a.total
  broken : ¬ P → ¬ b.sent <+: a.total

theorem Moves.of_eq (hsent : b.sent = a.sent) (hdue : b.due = a.due) :
    Moves True a b where
  grows := by rw [hsent]
  order _ := by rw [total, total, hsent, hdue]
  broken h := absurd trivial h

theorem Moves.congr (h : Moves P a b) (hiff : P ↔ Q) : Moves Q a b where
  grows := h.grows
  order hQ := h.order (hiff.mpr hQ)
  broken hQ := h.broken fun hP => hQ (hiff.mp hP)

/-- Order broken by the first step is not mended by the second. -/
theorem Moves.trans (hab : Moves P a b) (hbc : Moves Q b c) :
    Moves (P ∧ Q) a c where
  grows := hab.grows.trans hbc.grows
  order h := (hbc.order h.2).trans (hab.order h.1)
  broken h := by
    intro hprefix
    by_cases hP : P
    · rw [← hab.order hP] at hprefix
      exact hbc.broken (fun hQ => h ⟨hP, hQ⟩) hprefix
    · exact hab.broken hP (hbc.grows.trans hprefix)

/-- Sending as many items as come next keeps the order exactly if they are
these. -/
theorem Moves.send {out next : List α} (hsent : b.sent = a.sent ++ out)
    (hdue : a.due = next ++ b.due) (hlength : out.length = next.length) :
    Moves (out = next) a b where
  grows := ⟨out, hsent.symm⟩
  order h := by
    rw [total, total, hsent, hdue, h, List.append_assoc]
  broken h := by
    intro hprefix
    rw [total, hsent, hdue] at hprefix
    have hout : out <+: next ++ b.due :=
      (List.prefix_append_right_inj a.sent).mp hprefix
    exact h ((List.prefix_of_prefix_length_le hout
      (List.prefix_append next b.due) hlength.le).eq_of_length hlength)

/-- The order is kept exactly under the condition of the step. -/
theorem Moves.total_eq_iff (h : Moves P a b) : b.total = a.total ↔ P := by
  constructor
  · intro htotal
    by_contra hP
    exact h.broken hP ⟨b.due, htotal⟩
  · exact h.order

end Pipe
