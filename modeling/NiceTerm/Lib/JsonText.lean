/-
JSON texts as lists of characters.  The text of a value is self-delimiting: a
comma or a closing bracket behind it ends it.  So an object written member by
member can be read back in one way only.
-/
import Mathlib.Data.List.Basic

namespace JsonText

open List

abbrev Text := List Char

inductive Mode
  | outside
  | inString
  | escaped
deriving DecidableEq, Repr

/-- How many brackets are open, and whether a string is. -/
structure Scan where
  depth : Nat := 0
  mode : Mode := .outside
deriving DecidableEq, Repr

/-- One character of a value; none if the value has ended before it. -/
def Scan.step (scan : Scan) (c : Char) : Option Scan :=
  match scan.mode with
  | .escaped => some { scan with mode := .inString }
  | .inString =>
    if c = '"' then some { scan with mode := .outside }
    else if c = '\\' then some { scan with mode := .escaped }
    else some scan
  | .outside =>
    if c = '"' then some { scan with mode := .inString }
    else if c = '{' ∨ c = '[' then some { scan with depth := scan.depth + 1 }
    else if c = '}' ∨ c = ']' then
      if scan.depth = 0 then none
      else some { scan with depth := scan.depth - 1 }
    else if c = ',' ∧ scan.depth = 0 then none
    else some scan

def Scan.run (scan : Scan) : Text → Option Scan
  | [] => some scan
  | c :: rest => (scan.step c).bind fun next => next.run rest

/-- Brackets and strings are closed, and nothing behind the value belongs to
it. -/
def SelfDelimiting (text : Text) : Prop :=
  ({} : Scan).run text = some {}

instance (text : Text) : Decidable (SelfDelimiting text) :=
  inferInstanceAs (Decidable (_ = _))

def IsDelimiter (c : Char) : Prop :=
  c = ',' ∨ c = '}' ∨ c = ']'

theorem Scan.run_append (scan : Scan) (front back : Text) :
    scan.run (front ++ back) = (scan.run front).bind fun next => next.run back := by
  induction front generalizing scan with
  | nil => rfl
  | cons c rest ih =>
    simp only [cons_append, Scan.run, Option.bind_assoc, ih]

variable {c : Char}

theorem step_delimiter (h : IsDelimiter c) : ({} : Scan).step c = none := by
  rcases h with rfl | rfl | rfl <;> decide

/-- A value does not go on behind a delimiter. -/
theorem run_past_delimiter {text : Text}
    (htext : SelfDelimiting text) (hc : IsDelimiter c) (rest : Text) :
    ({} : Scan).run (text ++ c :: rest) = none := by
  rw [Scan.run_append, htext, Option.bind_some, Scan.run, step_delimiter hc,
    Option.bind_none]

/-- Two values that are each followed by a delimiter are cut apart from what
follows in the same way. -/
theorem append_delimiter_inj {text other rest more : Text} {d : Char}
    (htext : SelfDelimiting text) (hother : SelfDelimiting other)
    (hc : IsDelimiter c) (hd : IsDelimiter d)
    (h : text ++ c :: rest = other ++ d :: more) :
    text = other ∧ c = d ∧ rest = more := by
  rcases append_eq_append_iff.mp h with
    ⟨middle, hlonger, hmiddle⟩ | ⟨middle, hlonger, hmiddle⟩
  · cases middle with
    | nil =>
      rw [append_nil] at hlonger
      rw [nil_append] at hmiddle
      exact ⟨hlonger.symm, (cons.inj hmiddle).1, (cons.inj hmiddle).2⟩
    | cons first others =>
      obtain ⟨rfl, -⟩ := cons.inj hmiddle
      have hstop := run_past_delimiter htext hc others
      rw [← hlonger, hother] at hstop
      cases hstop
  · cases middle with
    | nil =>
      rw [append_nil] at hlonger
      rw [nil_append] at hmiddle
      exact ⟨hlonger, (cons.inj hmiddle).1.symm, (cons.inj hmiddle).2.symm⟩
    | cons first others =>
      obtain ⟨rfl, -⟩ := cons.inj hmiddle
      have hstop := run_past_delimiter hother hd others
      rw [← hlonger, htext] at hstop
      cases hstop

/-- A member of an object; the name needs no escapes. -/
def memberText (member : Text × Text) : Text :=
  '"' :: member.1 ++ '"' :: ':' :: member.2

/-- The members behind the first one, and the closing brace. -/
def restText : List (Text × Text) → Text
  | [] => ['}']
  | member :: rest => ',' :: (memberText member ++ restText rest)

def objectText : List (Text × Text) → Text
  | [] => ['{', '}']
  | member :: rest => '{' :: (memberText member ++ restText rest)

/-- The names need no escapes, and the texts are those of values. -/
def PlainMembers (members : List (Text × Text)) : Prop :=
  ∀ member ∈ members, '"' ∉ member.1 ∧ SelfDelimiting member.2

theorem restText_head (members : List (Text × Text)) :
    ∃ c rest, restText members = c :: rest ∧ IsDelimiter c := by
  cases members with
  | nil => exact ⟨_, _, rfl, .inr (.inl rfl)⟩
  | cons member rest => exact ⟨_, _, rfl, .inl rfl⟩

theorem name_inj {name other rest more : Text} (hname : '"' ∉ name)
    (hother : '"' ∉ other) (h : name ++ '"' :: rest = other ++ '"' :: more) :
    name = other ∧ rest = more := by
  induction name generalizing other with
  | nil =>
    cases other with
    | nil => exact ⟨rfl, (cons.inj h).2⟩
    | cons first others =>
      exact absurd ((cons.inj h).1 ▸ mem_cons_self) hother
  | cons c name ih =>
    cases other with
    | nil =>
      exact absurd ((cons.inj h).1 ▸ mem_cons_self) hname
    | cons first others =>
      obtain ⟨rfl, htail⟩ := cons.inj h
      obtain ⟨rfl, hrest⟩ := ih (fun hmem => hname (mem_cons_of_mem c hmem))
        (fun hmem => hother (mem_cons_of_mem c hmem)) htail
      exact ⟨rfl, hrest⟩

theorem memberText_inj {member other : Text × Text} {rest more : Text}
    {d : Char} (hmember : '"' ∉ member.1 ∧ SelfDelimiting member.2)
    (hother : '"' ∉ other.1 ∧ SelfDelimiting other.2)
    (hc : IsDelimiter c) (hd : IsDelimiter d)
    (h : memberText member ++ c :: rest = memberText other ++ d :: more) :
    member = other ∧ c = d ∧ rest = more := by
  simp only [memberText, cons_append, append_assoc, cons.injEq, true_and] at h
  obtain ⟨hname, htail⟩ := name_inj hmember.1 hother.1 h
  obtain ⟨htext, hrest⟩ := append_delimiter_inj hmember.2 hother.2 hc hd
    (cons.inj htail).2
  exact ⟨Prod.ext hname htext, hrest⟩

theorem restText_inj {members others : List (Text × Text)}
    (hmembers : PlainMembers members) (hothers : PlainMembers others)
    (h : restText members = restText others) : members = others := by
  induction members generalizing others with
  | nil =>
    cases others with
    | nil => rfl
    | cons other rest => exact absurd (cons.inj h).1 (by decide)
  | cons member members ih =>
    cases others with
    | nil => exact absurd (cons.inj h).1 (by decide)
    | cons other others =>
      obtain ⟨c, rest, hrest, hc⟩ := restText_head members
      obtain ⟨d, more, hmore, hd⟩ := restText_head others
      have htail := (cons.inj h).2
      rw [hrest, hmore] at htail
      obtain ⟨rfl, rfl, rfl⟩ := memberText_inj (hmembers _ mem_cons_self)
        (hothers _ mem_cons_self) hc hd htail
      have hsame := ih (fun m hm => hmembers m (mem_cons_of_mem member hm))
        (fun m hm => hothers m (mem_cons_of_mem member hm))
        (hrest.trans hmore.symm)
      rw [hsame]

/-- The text of an object determines its members. -/
theorem objectText_inj {members others : List (Text × Text)}
    (hmembers : PlainMembers members) (hothers : PlainMembers others)
    (h : objectText members = objectText others) : members = others := by
  cases members with
  | nil =>
    cases others with
    | nil => rfl
    | cons other rest =>
      exact absurd (cons.inj (cons.inj h).2).1 (by simp)
  | cons member members =>
    cases others with
    | nil => exact absurd (cons.inj (cons.inj h).2).1 (by simp)
    | cons other others =>
      apply restText_inj hmembers hothers
      rw [restText, restText, (cons.inj h).2]

end JsonText
