/-
Regular expressions whose repetitions are of single characters, with at most
one group that is captured.  The matches at a position come in the order of
preference: alternatives from the left, repetitions as long as possible, or as
short as possible where they are lazy.
-/
import Mathlib.Data.List.Infix

inductive Regex
  | empty
  | one (p : Char → Bool)
  | seq (first second : Regex)
  | alt (first second : Regex)
  | star (isLazy : Bool) (p : Char → Bool)
  | group (inner : Regex)

namespace Regex

open List

abbrev Text := List Char

/-- What has been matched, and the part of it that is in the group. -/
structure Match where
  text : Text
  group : Option Text
deriving DecidableEq, Repr

def Match.append (m n : Match) : Match :=
  ⟨m.text ++ n.text, n.group.or m.group⟩

/-- The texts that an expression describes. -/
inductive Matches : Regex → Match → Prop
  | empty : Matches .empty ⟨[], none⟩
  | one {p : Char → Bool} {c : Char} (h : p c = true) :
      Matches (.one p) ⟨[c], none⟩
  | seq {first second : Regex} {m n : Match} (hm : Matches first m)
      (hn : Matches second n) : Matches (.seq first second) (m.append n)
  | left {first second : Regex} {m : Match} (h : Matches first m) :
      Matches (.alt first second) m
  | right {first second : Regex} {m : Match} (h : Matches second m) :
      Matches (.alt first second) m
  | star {isLazy : Bool} {p : Char → Bool} {text : Text}
      (h : ∀ c ∈ text, p c = true) : Matches (.star isLazy p) ⟨text, none⟩
  | group {inner : Regex} {m : Match} (h : Matches inner m) :
      Matches (.group inner) ⟨m.text, some m.text⟩

/-- The ways to take some characters, the shortest first. -/
def repeats (p : Char → Bool) : Text → List (Text × Text)
  | [] => [([], [])]
  | c :: rest =>
    ([], c :: rest) ::
      if p c then (repeats p rest).map fun s => (c :: s.1, s.2) else []

/-- The matches at the front of a text with what is left behind them, in the
order of preference. -/
def run : Regex → Text → List (Match × Text)
  | .empty, text => [(⟨[], none⟩, text)]
  | .one p, text =>
    match text with
    | [] => []
    | c :: rest => if p c then [(⟨[c], none⟩, rest)] else []
  | .seq first second, text => (run first text).flatMap fun s =>
    (run second s.2).map fun t => (s.1.append t.1, t.2)
  | .alt first second, text => run first text ++ run second text
  | .star isLazy p, text =>
    let ways := (repeats p text).map fun s => (⟨s.1, none⟩, s.2)
    if isLazy then ways else ways.reverse
  | .group inner, text =>
    (run inner text).map fun s => (⟨s.1.text, some s.1.text⟩, s.2)

theorem mem_repeats {p : Char → Bool} {text front back : Text} :
    (front, back) ∈ repeats p text ↔
      front ++ back = text ∧ ∀ c ∈ front, p c = true := by
  induction text generalizing front with
  | nil =>
    rw [repeats, mem_singleton, Prod.mk.injEq, append_eq_nil_iff]
    constructor
    · rintro ⟨rfl, rfl⟩
      exact ⟨⟨rfl, rfl⟩, fun c hc => absurd hc not_mem_nil⟩
    · exact fun h => h.1
  | cons d rest ih =>
    rw [repeats, mem_cons, Prod.mk.injEq]
    cases front with
    | nil =>
      by_cases hd : p d = true
      · simp [hd]
      · simp [hd]
    | cons c front =>
      have hmap : (c :: front, back) ∈
          (repeats p rest).map (fun s => (d :: s.1, s.2)) ↔
          c = d ∧ (front, back) ∈ repeats p rest := by
        simp only [mem_map, Prod.mk.injEq, cons.injEq]
        constructor
        · rintro ⟨⟨a, b⟩, hmem, ⟨rfl, rfl⟩, rfl⟩
          exact ⟨rfl, hmem⟩
        · rintro ⟨rfl, hmem⟩
          exact ⟨(front, back), hmem, ⟨rfl, rfl⟩, rfl⟩
      by_cases hd : p d = true
      · rw [if_pos hd, hmap, ih]
        simp only [reduceCtorEq, false_and, false_or, cons_append,
          cons.injEq, forall_mem_cons]
        constructor
        · rintro ⟨rfl, htext, hfront⟩
          exact ⟨⟨rfl, htext⟩, hd, hfront⟩
        · rintro ⟨⟨rfl, htext⟩, -, hfront⟩
          exact ⟨rfl, htext, hfront⟩
      · rw [if_neg hd]
        simp only [reduceCtorEq, false_and, false_or, not_mem_nil, cons_append,
          cons.injEq, forall_mem_cons, false_iff]
        rintro ⟨⟨rfl, -⟩, hc, -⟩
        exact hd hc

/-- Every match at the front of a text is found, and nothing else. -/
theorem mem_run {r : Regex} {text rest : Text} {m : Match} :
    (m, rest) ∈ run r text ↔ Matches r m ∧ m.text ++ rest = text := by
  induction r generalizing text rest m with
  | empty =>
    rw [run, mem_singleton, Prod.mk.injEq]
    constructor
    · rintro ⟨rfl, rfl⟩
      exact ⟨.empty, rfl⟩
    · rintro ⟨⟨⟩, rfl⟩
      exact ⟨rfl, rfl⟩
  | one p =>
    cases text with
    | nil =>
      refine iff_of_false not_mem_nil ?_
      rintro ⟨⟨h⟩, htext⟩
      exact absurd htext (cons_ne_nil _ _)
    | cons d text =>
      rw [run]
      by_cases hd : p d = true
      · rw [if_pos hd, mem_singleton, Prod.mk.injEq]
        constructor
        · rintro ⟨rfl, rfl⟩
          exact ⟨.one hd, rfl⟩
        · rintro ⟨h, htext⟩
          cases h with
          | one hc =>
            obtain ⟨rfl, rfl⟩ := cons.inj htext
            exact ⟨rfl, rfl⟩
      · rw [if_neg hd]
        refine iff_of_false not_mem_nil ?_
        rintro ⟨h, htext⟩
        cases h with
        | one hc =>
          obtain ⟨rfl, rfl⟩ := cons.inj htext
          exact hd hc
  | seq first second ihfirst ihsecond =>
    rw [run, mem_flatMap]
    constructor
    · rintro ⟨⟨a, back⟩, ha, hmap⟩
      obtain ⟨⟨b, after⟩, hb, heq⟩ := mem_map.mp hmap
      obtain ⟨rfl, rfl⟩ := Prod.mk.inj heq
      obtain ⟨hfirst, htext⟩ := ihfirst.mp ha
      obtain ⟨hsecond, hback⟩ := ihsecond.mp hb
      refine ⟨.seq hfirst hsecond, ?_⟩
      calc
        (a.text ++ b.text) ++ after = a.text ++ (b.text ++ after) :=
          append_assoc _ _ _
        _ = a.text ++ back := by rw [hback]
        _ = text := htext
    · rintro ⟨h, htext⟩
      cases h with
      | @seq _ _ a b hfirst hsecond =>
        rw [Match.append, append_assoc] at htext
        exact ⟨(a, b.text ++ rest), ihfirst.mpr ⟨hfirst, htext⟩,
          mem_map.mpr ⟨(b, rest), ihsecond.mpr ⟨hsecond, rfl⟩, rfl⟩⟩
  | alt first second ihfirst ihsecond =>
    rw [run, mem_append, ihfirst, ihsecond, ← or_and_right]
    apply and_congr_left
    intro _
    constructor
    · rintro (hm | hm)
      · exact .left hm
      · exact .right hm
    · intro hm
      cases hm with
      | left hleft => exact .inl hleft
      | right hright => exact .inr hright
  | star isLazy p =>
    have hways : (m, rest) ∈ run (.star isLazy p) text ↔
        (m, rest) ∈ (repeats p text).map
          (fun s => ((⟨s.1, none⟩, s.2) : Match × Text)) := by
      rw [run]
      cases isLazy with
      | true => rfl
      | false => exact mem_reverse
    rw [hways, mem_map]
    constructor
    · rintro ⟨⟨front, back⟩, hmem, heq⟩
      obtain ⟨rfl, rfl⟩ := Prod.mk.inj heq
      obtain ⟨htext, hfront⟩ := mem_repeats.mp hmem
      exact ⟨.star hfront, htext⟩
    · rintro ⟨h, htext⟩
      cases h with
      | star hall =>
        exact ⟨(_, rest), mem_repeats.mpr ⟨htext, hall⟩, rfl⟩
  | group inner ih =>
    rw [run, mem_map]
    constructor
    · rintro ⟨⟨a, back⟩, hmem, heq⟩
      obtain ⟨rfl, rfl⟩ := Prod.mk.inj heq
      obtain ⟨hinner, htext⟩ := ih.mp hmem
      exact ⟨.group hinner, htext⟩
    · rintro ⟨h, htext⟩
      cases h with
      | @group _ m hinner =>
        exact ⟨(m, rest), ih.mpr ⟨hinner, htext⟩, rfl⟩

/-- Replace the leftmost matches, one behind the other; `skip` characters
belong to the match before.  The expression matches no empty text. -/
def replaceLoop (r : Regex) (f : Match → Text) : Nat → Text → Text
  | _, [] => []
  | skip + 1, _ :: rest => replaceLoop r f skip rest
  | 0, c :: rest =>
    match (run r (c :: rest)).head? with
    | none => c :: replaceLoop r f 0 rest
    | some (m, _) =>
      if m.text = [] then c :: replaceLoop r f 0 rest
      else f m ++ replaceLoop r f (m.text.length - 1) rest

def replaceAll (r : Regex) (f : Match → Text) (text : Text) : Text :=
  replaceLoop r f 0 text

/-- Some matches are replaced, and all else is kept. -/
inductive Replaced (r : Regex) (f : Match → Text) : Text → Text → Prop
  | nil : Replaced r f [] []
  | keep {text shown : Text} (c : Char) (h : Replaced r f text shown) :
      Replaced r f (c :: text) (c :: shown)
  | hide {text shown : Text} {m : Match} (hm : Matches r m)
      (hne : m.text ≠ []) (h : Replaced r f text shown) :
      Replaced r f (m.text ++ text) (f m ++ shown)

theorem replaced_replaceLoop (r : Regex) (f : Match → Text) (text : Text) :
    ∀ skip, Replaced r f (text.drop skip) (replaceLoop r f skip text) := by
  induction text with
  | nil =>
    intro skip
    rw [drop_nil, replaceLoop]
    exact .nil
  | cons c rest ih =>
    intro skip
    cases skip with
    | succ skip => exact ih skip
    | zero =>
      rw [drop_zero, replaceLoop]
      split
      · exact .keep c (ih 0)
      next m back hfound =>
        split
        · exact .keep c (ih 0)
        next hne =>
          have hmem := mem_of_mem_head? hfound
          obtain ⟨hm, htext⟩ := mem_run.mp hmem
          obtain ⟨front, hfront⟩ : ∃ front, m.text = c :: front := by
            cases hm' : m.text with
            | nil => exact absurd hm' hne
            | cons d front =>
              rw [hm', cons_append] at htext
              exact ⟨front, by rw [(cons.inj htext).1]⟩
          have hback : rest.drop (m.text.length - 1) = back := by
            rw [hfront, cons_append] at htext
            rw [hfront, ← (cons.inj htext).2]
            simp
          have hrest := ih (m.text.length - 1)
          rw [hback] at hrest
          rw [← htext]
          exact .hide hm hne hrest

theorem replaced_replaceAll (r : Regex) (f : Match → Text) (text : Text) :
    Replaced r f text (replaceAll r f text) :=
  replaced_replaceLoop r f text 0

theorem Replaced.eq_of_no_match {r : Regex} {f : Match → Text}
    {text shown : Text} (h : Replaced r f text shown)
    (hnone : ∀ tail ∈ text.tails, run r tail = []) : shown = text := by
  induction h with
  | nil => rfl
  | keep c h ih =>
    rw [ih fun tail htail => hnone tail (by
      rw [mem_tails] at htail ⊢
      exact htail.trans (suffix_cons c _))]
  | @hide text shown m hm hne h ih =>
    have hmem : (m, text) ∈ run r (m.text ++ text) := mem_run.mpr ⟨hm, rfl⟩
    rw [hnone (m.text ++ text) (by simp)] at hmem
    exact absurd hmem not_mem_nil

end Regex
