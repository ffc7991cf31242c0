/-
Work computed in one order and delivered later.  A ledger records what was
issued, what was delivered and what is outstanding; delivering always the
oldest outstanding item is exactly what keeps the deliveries in issue order.
-/
import Mathlib.Data.List.Infix
import Mathlib.Data.List.Perm.Basic
import NiceTerm.Lib.Transition

open Transition

universe u v w

/-- The books of a transition system: every step issues some items, and
delivers at most one outstanding item. -/
structure Ledger {σ : Type u} {ε : Type v} (M : System σ ε) (β : Type w) where
  issued : σ → List β
  delivered : σ → List β
  outstanding : σ → List β
  next : σ → ε → Option β
  next_mem : ∀ s e b, next s e = some b → b ∈ outstanding s
  step : ∀ s e t, M.step s e = some t → ∃ fresh, issued t = issued s ++ fresh ∧
    delivered t = delivered s ++ (next s e).toList ∧
    ((next s e).toList ++ outstanding t).Perm (outstanding s ++ fresh)

namespace Ledger

open List

variable {σ : Type u} {ε : Type v} {M : System σ ε} {β : Type w}
variable (L : Ledger M β)

/-- Every issued item is delivered or outstanding, once. -/
def Balanced (s : σ) : Prop :=
  (L.delivered s ++ L.outstanding s).Perm (L.issued s)

/-- The event delivers nothing, or the oldest item not delivered yet. -/
def DeliversOldest (s : σ) (e : ε) : Prop :=
  ∀ b, L.next s e = some b → (L.issued s)[(L.delivered s).length]? = some b

theorem Balanced.step {L : Ledger M β} {s t : σ} {e : ε} (hs : L.Balanced s)
    (h : M.step s e = some t) : L.Balanced t := by
  obtain ⟨fresh, hissued, hdelivered, hperm⟩ := L.step s e t h
  rw [Balanced, hissued, hdelivered, append_assoc]
  calc
    (L.delivered s ++ ((L.next s e).toList ++ L.outstanding t)).Perm
        (L.delivered s ++ (L.outstanding s ++ fresh)) :=
      hperm.append_left _
    _ = (L.delivered s ++ L.outstanding s) ++ fresh := by simp
    Perm _ (L.issued s ++ fresh) := hs.append_right _

variable {s t : σ} {es : List ε}

theorem Balanced.run {L : Ledger M β}
    (hs : L.Balanced s) (hrun : M.runFrom s es = some t) : L.Balanced t :=
  M.run_invariant (fun _ _ _ hr h => hr.step h) hs hrun

/-- Books are only ever extended. -/
theorem run_extends (hrun : M.runFrom s es = some t) :
    L.delivered s <+: L.delivered t ∧ L.issued s <+: L.issued t := by
  let Extends (r : σ) : Prop :=
    L.delivered s <+: L.delivered r ∧ L.issued s <+: L.issued r
  have hs : Extends s := ⟨prefix_rfl, prefix_rfl⟩
  refine M.run_invariant ?_ hs hrun
  intro r e q hr h
  obtain ⟨fresh, hissued, hdelivered, -⟩ := L.step r e q h
  change L.delivered s <+: L.delivered q ∧ L.issued s <+: L.issued q
  rw [hissued, hdelivered]
  exact ⟨hr.1.trans (prefix_append _ _), hr.2.trans (prefix_append _ _)⟩

theorem Balanced.delivered_lt_issued {L : Ledger M β} {e : ε} {b : β}
    (hs : L.Balanced s) (h : L.next s e = some b) :
    (L.delivered s).length < (L.issued s).length := by
  have hpos := length_pos_of_mem (L.next_mem s e b h)
  have hlength := hs.length_eq
  simp only [length_append] at hlength
  omega

/-- Delivering the oldest item keeps the deliveries a prefix of the issues. -/
theorem isPrefix_of_deliversOldest (hs : L.delivered s <+: L.issued s)
    (halong : M.Along L.DeliversOldest s es) (hrun : M.runFrom s es = some t) :
    L.delivered t <+: L.issued t := by
  let InOrder (r : σ) : Prop := L.delivered r <+: L.issued r
  have hs : InOrder s := hs
  refine M.run_invariant_along ?_ hs halong hrun
  intro r e q hr holdest h
  obtain ⟨fresh, hissued, hdelivered, -⟩ := L.step r e q h
  change L.delivered q <+: L.issued q
  rw [hissued, hdelivered]
  cases hnext : L.next r e with
  | none => simpa using hr.trans (prefix_append _ fresh)
  | some b =>
    have hget := holdest b hnext
    obtain ⟨later, hlater⟩ := hr
    rw [← hlater] at hget ⊢
    cases later with
    | nil => simp at hget
    | cons c later =>
      simp only [getElem?_append_right (Nat.le_refl _),
        Nat.sub_self, getElem?_cons_zero, Option.some.injEq] at hget
      exact ⟨later ++ fresh, by simp [hget]⟩

/-- If the deliveries end up a prefix of the issues, no delivery on the way
overtook another. -/
theorem deliversOldest_of_isPrefix (hs : L.Balanced s)
    (hrun : M.runFrom s es = some t) (hfront : L.delivered t <+: L.issued t) :
    M.Along L.DeliversOldest s es := by
  induction es generalizing s with
  | nil => trivial
  | cons e es ih =>
    obtain ⟨r, h, hrest⟩ := (M.runFrom_cons_eq_some).mp hrun
    refine ⟨?_, fun r' hr' => ?_⟩
    · intro b hnext
      obtain ⟨fresh, -, hdelivered, -⟩ := L.step s e r h
      have hlt := hs.delivered_lt_issued hnext
      have hfirst : L.delivered s ++ [b] <+: L.issued t := by
        have hr := (L.run_extends hrest).1.trans hfront
        rwa [hdelivered, hnext] at hr
      have hissued : L.issued s <+: L.issued t := (L.run_extends hrun).2
      have hlast : (L.delivered s).length < (L.delivered s ++ [b]).length := by
        simp
      have hfinal := (hissued.getElem hlt).trans (hfirst.getElem hlast).symm
      rw [getElem?_eq_getElem hlt, hfinal]
      simp
    · have heq : r' = r := Option.some.inj (hr'.symm.trans h)
      exact heq ▸ ih (hs.step h) hrest

/-- From books in which nothing is delivered, the deliveries are in issue
order exactly when every step delivers the oldest item. -/
theorem isPrefix_iff_deliversOldest (hs : L.Balanced s)
    (hnone : L.delivered s = []) (hrun : M.runFrom s es = some t) :
    L.delivered t <+: L.issued t ↔ M.Along L.DeliversOldest s es :=
  ⟨L.deliversOldest_of_isPrefix hs hrun, fun halong =>
    L.isPrefix_of_deliversOldest (hnone ▸ nil_prefix) halong hrun⟩

/-- With nothing outstanding, a prefix is everything. -/
theorem Balanced.eq_iff_isPrefix {L : Ledger M β} (hs : L.Balanced s)
    (hnone : L.outstanding s = []) :
    L.delivered s = L.issued s ↔ L.delivered s <+: L.issued s := by
  constructor
  · intro heq
    exact heq ▸ prefix_rfl
  · intro hfront
    rw [Balanced, hnone, append_nil] at hs
    exact hfront.eq_of_length hs.length_eq

end Ledger

/-! Programs of several threads as a list of lists. When one thread moves on,
the multiset of what all threads still have to do changes by that thread's
part. -/

namespace Programs

variable {α : Type u}

variable {programs : List (List α)}

/-- What one thread has to do, beside what the others have to do. -/
theorem flatten_perm_of_getElem? {index : Nat}
    {program : List α} (h : programs[index]? = some program) :
    programs.flatten.Perm (program ++ (programs.eraseIdx index).flatten) := by
  induction programs generalizing index with
  | nil => simp at h
  | cons head tail ih =>
    cases index with
    | zero =>
      simp only [List.getElem?_cons_zero, Option.some.injEq] at h
      simp [h]
    | succ index =>
      simp only [List.getElem?_cons_succ] at h
      simp only [List.eraseIdx_cons_succ, List.flatten_cons]
      calc
        (head ++ tail.flatten).Perm
            (head ++ (program ++ (tail.eraseIdx index).flatten)) :=
          (ih h).append_left head
        _ = (head ++ program) ++ (tail.eraseIdx index).flatten := by simp
        List.Perm _ ((program ++ head) ++ (tail.eraseIdx index).flatten) :=
          List.perm_append_comm.append_right _
        _ = program ++ (head ++ (tail.eraseIdx index).flatten) := by simp

theorem flatten_set_perm {index : Nat}
    {old : List α} (h : programs[index]? = some old) (program : List α) :
    (programs.set index program).flatten.Perm
      (program ++ (programs.eraseIdx index).flatten) := by
  have hlt : index < programs.length :=
    (getElem?_eq_some_iff.mp h).1
  have hset : (programs.set index program)[index]? = some program := by
    simp [hlt]
  have herase : (programs.set index program).eraseIdx index =
      programs.eraseIdx index := by
    simp [List.eraseIdx_set_eq]
  exact herase ▸ flatten_perm_of_getElem? hset

/-- One thread does its first action, and then has `more` to do before the
rest of its program. -/
theorem cons_flatten_set_perm {index : Nat} {action : α} {rest : List α}
    (h : programs[index]? = some (action :: rest)) (more : List α) :
    (action :: (programs.set index (more ++ rest)).flatten).Perm
      (programs.flatten ++ more) := by
  calc
    (action :: (programs.set index (more ++ rest)).flatten).Perm
        (action :: ((more ++ rest) ++ (programs.eraseIdx index).flatten)) :=
      (flatten_set_perm h (more ++ rest)).cons action
    _ = [action] ++ (more ++ (rest ++ (programs.eraseIdx index).flatten)) := by
      simp
    List.Perm _ ([action] ++
        ((rest ++ (programs.eraseIdx index).flatten) ++ more)) :=
      List.perm_append_comm.append_left _
    _ = ((action :: rest) ++ (programs.eraseIdx index).flatten) ++ more := by
      simp
    List.Perm _ (programs.flatten ++ more) :=
      (flatten_perm_of_getElem? h).symm.append_right _

end Programs
