/-
Documents that are revised by reading them whole and writing the changed copy
back, by any number of tasks at once.  A document is observed entry by entry;
nothing is lost as long as every write replaces what its task has read, up to
what the revision overwrites anyway.
-/
import NiceTerm.Lib.Transition

open Transition

namespace Revising

open Option

universe u v w x

/-- Pending revisions carry the document that they were given. -/
structure State (δ : Type u) (ο : Type v) where
  stored : δ
  pending : List (ο × δ)
  completed : List ο
deriving DecidableEq, Repr

inductive Event (ο : Type v) where
  | load (op : ο)
  | save (i : Nat)
  | abandon (i : Nat)
deriving DecidableEq, Repr

variable {δ : Type u} {ο : Type v}

/-- A revision that has nothing to write is over with its load. -/
def begun (revise : ο → δ → Option δ) (op : ο) (s : State δ ο) : State δ ο :=
  if (revise op s.stored).isSome then
    { s with pending := s.pending ++ [(op, s.stored)] }
  else s

def saved (s : State δ ο) (i : Nat) (op : ο) (d : δ) : State δ ο :=
  { stored := d
    pending := s.pending.eraseIdx i
    completed := s.completed ++ [op] }

def step (revise : ο → δ → Option δ) (s : State δ ο) :
    Event ο → Option (State δ ο)
  | .load op => some (begun revise op s)
  | .save i =>
    (s.pending[i]?).bind fun task =>
      (revise task.1 task.2).map (saved s i task.1)
  | .abandon i =>
    if i < s.pending.length then
      some { s with pending := s.pending.eraseIdx i }
    else none

def system (start : δ) (revise : ο → δ → Option δ) :
    System (State δ ο) (Event ο) where
  init := fun s => s = ⟨start, [], []⟩
  step := step revise

variable {κ : Type w} {α : Type x}

/-- A revision is known by what it makes of each entry. -/
structure Entrywise (revise : ο → δ → Option δ) (Valid : δ → Prop)
    (get : δ → κ → α) (touch : ο → κ → α → α) : Prop where
  valid : ∀ op d e, Valid d → revise op d = some e → Valid e
  get : ∀ op d e k, Valid d → revise op d = some e →
    get e k = touch op k (get d k)

section Kept

variable (get : δ → κ → α) (touch : ο → κ → α → α)

/-- What some revisions, one after the other, make of an entry. -/
def history (ops : List ο) (k : κ) (a : α) : α :=
  ops.foldl (fun a op => touch op k a) a

/-- Every entry is what the completed revisions have made of it. -/
def Kept (start : δ) (s : State δ ο) : Prop :=
  ∀ k, get s.stored k = history touch s.completed k (get start k)

/-- What a write replaces differs from what was read only where the revision
makes the same of both. -/
def Undisturbed (s : State δ ο) : Event ο → Prop
  | .save i => ∀ op loaded, s.pending[i]? = some (op, loaded) →
      ∀ k, touch op k (get loaded k) = touch op k (get s.stored k)
  | _ => True

end Kept

/-- The document and all copies of it are valid. -/
def AllValid (Valid : δ → Prop) (s : State δ ο) : Prop :=
  Valid s.stored ∧ ∀ task ∈ s.pending, Valid task.2

variable {revise : ο → δ → Option δ} {Valid : δ → Prop}
variable {get : δ → κ → α} {touch : ο → κ → α → α}

theorem history_concat (ops : List ο) (op : ο) (k : κ) (a : α) :
    history touch (ops ++ [op]) k a = touch op k (history touch ops k a) := by
  simp [history]

variable {t : State δ ο}

/-- What one step can do. -/
theorem step_cases {s : State δ ο} {e : Event ο}
    (h : step revise s e = some t) :
    (t.stored = s.stored ∧ t.completed = s.completed ∧
      (∀ task ∈ t.pending, task ∈ s.pending ∨ task.2 = s.stored) ∧
      ∀ i, e ≠ .save i) ∨
    ∃ i op loaded d, e = .save i ∧ s.pending[i]? = some (op, loaded) ∧
      revise op loaded = some d ∧ t = saved s i op d := by
  cases e with
  | load op =>
    left
    have ht : begun revise op s = t := some.inj h
    subst ht
    rw [begun]
    by_cases hwrites : (revise op s.stored).isSome
    · rw [if_pos hwrites]
      refine ⟨rfl, rfl, ?_, fun i => by simp⟩
      intro task hmem
      rcases List.mem_append.mp hmem with hmem | hmem
      · exact .inl hmem
      · rw [List.mem_singleton] at hmem
        exact .inr (by rw [hmem])
    · rw [if_neg hwrites]
      exact ⟨rfl, rfl, fun task hmem => .inl hmem,
        fun i => by simp⟩
  | save i =>
    right
    obtain ⟨⟨op, loaded⟩, htask, h⟩ := bind_eq_some_iff.mp h
    obtain ⟨d, hrevise, rfl⟩ := map_eq_some_iff.mp h
    exact ⟨i, op, loaded, d, rfl, htask, hrevise, rfl⟩
  | abandon i =>
    left
    simp only [step] at h
    split at h
    · obtain rfl := some.inj h
      exact ⟨rfl, rfl, fun task hmem => .inl (List.mem_of_mem_eraseIdx hmem),
        fun j => by simp⟩
    · exact absurd h.symm (some_ne_none t)

theorem AllValid.step (hrevise : Entrywise revise Valid get touch)
    {s t : State δ ο} {e : Event ο} (hs : AllValid Valid s)
    (h : step revise s e = some t) : AllValid Valid t := by
  rcases step_cases h with ⟨hstored, -, hpending, -⟩ |
    ⟨i, op, loaded, d, -, htask, hd, rfl⟩
  · refine ⟨hstored ▸ hs.1, fun task hmem => ?_⟩
    rcases hpending task hmem with hmem | heq
    · exact hs.2 task hmem
    · exact heq ▸ hs.1
  · have hloaded := hs.2 _ (List.mem_of_getElem? htask)
    exact ⟨hrevise.valid op loaded d hloaded hd, fun task hmem =>
      hs.2 task (List.mem_of_mem_eraseIdx hmem)⟩

/-- One step keeps every completed revision exactly if it is undisturbed. -/
theorem kept_step_iff (hrevise : Entrywise revise Valid get touch)
    {start : δ} {s : State δ ο} {e : Event ο} (hs : AllValid Valid s)
    (hkept : Kept get touch start s) (h : step revise s e = some t) :
    Kept get touch start t ↔ Undisturbed get touch s e := by
  rcases step_cases h with ⟨hstored, hcompleted, -, hsave⟩ |
    ⟨i, op, loaded, d, rfl, htask, hd, rfl⟩
  · rw [Kept, hstored, hcompleted]
    refine iff_of_true hkept ?_
    cases e with
    | save i => exact absurd rfl (hsave i)
    | load op => trivial
    | abandon i => trivial
  · have hloaded := hs.2 _ (List.mem_of_getElem? htask)
    have hentry : ∀ k, get d k = touch op k (get loaded k) :=
      fun k => hrevise.get op loaded d k hloaded hd
    have hserial : ∀ k, history touch (s.completed ++ [op]) k (get start k) =
        touch op k (get s.stored k) := by
      intro k
      rw [history_concat, hkept k]
    constructor
    · intro hnext op' loaded' htask' k
      obtain ⟨rfl, rfl⟩ := Prod.mk.inj (some.inj (htask'.symm.trans htask))
      calc
        touch op' k (get loaded' k) = get d k := (hentry k).symm
        _ = history touch (s.completed ++ [op']) k (get start k) := hnext k
        _ = touch op' k (get s.stored k) := hserial k
    · intro hundisturbed k
      calc
        get d k = touch op k (get loaded k) := hentry k
        _ = touch op k (get s.stored k) := hundisturbed op loaded htask k
        _ = history touch (s.completed ++ [op]) k (get start k) :=
          (hserial k).symm

/-- The completed revisions are kept in every state of a run exactly if all
its steps are undisturbed. -/
theorem throughout_kept_iff (hrevise : Entrywise revise Valid get touch)
    {start : δ} (hstart : Valid start) {es : List (Event ο)}
    (hrun : (system start revise).runFrom ⟨start, [], []⟩ es = some t) :
    (system start revise).Throughout (Kept get touch start)
        ⟨start, [], []⟩ es ↔
      (system start revise).Along (Undisturbed get touch)
        ⟨start, [], []⟩ es := by
  refine (system start revise).throughout_iff_along (AllValid Valid) ?_ ?_
    (fun k => rfl) hrun
  · intro s e _ r hs hkept h
    exact ⟨hs.step hrevise h, kept_step_iff hrevise hs hkept h⟩
  · exact ⟨hstart, fun task hmem => absurd hmem List.not_mem_nil⟩

end Revising

/-! Records with a version number. Where every step leaves a record as it is
or raises its number, a record that has its old number was never touched, and
a writer that names an old number is told so. -/

namespace Versioned

universe u v w

variable {σ : Type u} {ε : Type v} {α : Type w}

/-- What a step may do to a record.  From the limit on the number need not
rise, but it stays there. -/
def Raises (version : α → Nat) (limit : Nat) (before after : α) : Prop :=
  after = before ∨ version before < version after ∨
    limit ≤ version before ∧ limit ≤ version after

/-- A number below the limit that was passed stays passed. -/
theorem Raises.above {version : α → Nat} {limit number : Nat}
    {before after : α} (h : Raises version limit before after)
    (hnumber : number < limit) (hbefore : number < version before) :
    number < version after := by
  rcases h with rfl | hlt | ⟨-, hlimit⟩
  · exact hbefore
  · exact Nat.lt_trans hbefore hlt
  · exact Nat.lt_of_lt_of_le hnumber hlimit

/-- Steps that meet `P` keep `Inv` and raise the record. -/
structure Raising (M : System σ ε) (read : σ → Option α)
    (version : α → Nat) (limit : Nat) (Inv : σ → Prop)
    (P : σ → ε → Prop) : Prop where
  inv : ∀ s e t, Inv s → P s e → M.step s e = some t → Inv t
  raises : ∀ s e t a, Inv s → P s e → M.step s e = some t →
    read s = some a → ∃ b, read t = some b ∧ Raises version limit a b

variable {M : System σ ε} {read : σ → Option α} {version : α → Nat}
  {limit : Nat} {Inv : σ → Prop} {P : σ → ε → Prop} {s t : σ} {es : List ε}
  {a : α}

section

variable (h : Raising M read version limit Inv P) (hs : Inv s)
    (halong : M.Along P s es) (hrun : M.runFrom s es = some t)
    (hread : read s = some a)
include h hs halong hrun hread

theorem Raising.run_above {number : Nat} (hnumber : number < limit)
    (habove : number < version a) :
    ∃ b, read t = some b ∧ number < version b := by
  induction es generalizing s a with
  | nil => exact ⟨a, Option.some.inj hrun ▸ hread, habove⟩
  | cons e es ih =>
    obtain ⟨r, hr, hrest⟩ := M.runFrom_cons_eq_some.mp hrun
    obtain ⟨b, hb, hraises⟩ := h.raises s e r a hs halong.1 hr hread
    exact ih (h.inv s e r hs halong.1 hr) (halong.2 r hr) hrest hb
      (hraises.above hnumber habove)

/-- A record below the limit is untouched in the whole run, or its number is
higher in the end. -/
theorem Raising.run (hbelow : version a < limit) :
    M.Throughout (fun u => read u = some a) s es ∨
      ∃ b, read t = some b ∧ version a < version b := by
  induction es generalizing s with
  | nil => exact .inl hread
  | cons e es ih =>
    obtain ⟨r, hr, hrest⟩ := M.runFrom_cons_eq_some.mp hrun
    have hinv := h.inv s e r hs halong.1 hr
    obtain ⟨b, hb, hraises⟩ := h.raises s e r a hs halong.1 hr hread
    rcases hraises with rfl | hlt | ⟨hlimit, -⟩
    · refine (ih hinv (halong.2 r hr) hrest hb).imp_left fun hrest => ?_
      refine ⟨hread, fun u hu => ?_⟩
      rw [← Option.some.inj (hr.symm.trans hu)]
      exact hrest
    · exact .inr (h.run_above hinv (halong.2 r hr) hrest hb hbelow hlt)
    · exact absurd hbelow (Nat.not_lt_of_le hlimit)

end

end Versioned
