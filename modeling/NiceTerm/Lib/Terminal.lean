/-
A character terminal and what can be said about it without knowing where it
started.  `Knowledge` records which parts of the state an operation has fixed;
two terminals that agree on it still do after the same operations.
-/
import Mathlib.Data.Fintype.Pi

namespace Terminal

/-- What depends on the attributes and on the font: `blank` is the cell left by
an erase, which has the background of the attributes. -/
structure Emulator (Attr Cell : Type) where
  initial : Attr
  sgr : List UInt16 → Attr → Attr
  sgr_reset : ∀ attributes, sgr [0x30] attributes = initial
  blank : Attr → Cell
  width : Nat → Nat
  glyph : Nat → Attr → Cell
  spacer : Attr → Cell
  combine : Nat → Cell → Cell

structure Modes where
  autowrap : Bool := true
  origin : Bool := false
  scrollTop : Nat := 0
  scrollBottom : Nat := 23
  tabStops : List Nat := []
  synchronized : Bool := false
deriving DecidableEq, Repr

/-- The cursor stands behind the last column while a wrap is pending. -/
structure Screen (Attr Cell : Type) (rows cols : Nat) where
  grid : Fin rows → Fin cols → Cell
  row : Fin rows
  col : Fin (cols + 1)
  attributes : Attr
  modes : Modes
deriving DecidableEq

/-- How a coordinate of the cursor changes. -/
inductive Travel
  | stay
  | goto (position : Nat)
  | back (distance : Nat)
  | ahead (distance : Nat)
  | tab
deriving DecidableEq, Repr

/-- What an erase covers, as seen from the cursor. -/
inductive Region
  | toLineEnd
  | toLineStart
  | line
  | toScreenEnd
  | toScreenStart
  | screen
deriving DecidableEq, Repr

inductive Operation
  | sgr (params : List UInt16)
  | erase (region : Region)
  | travel (vertical horizontal : Travel)
  | synchronize (on : Bool)
  | print (code : Nat)
deriving DecidableEq, Repr

def Operation.isPrint : Operation → Bool
  | .print _ => true
  | _ => false

variable {Attr Cell : Type} {rows cols : Nat}

def clampRow (row : Fin rows) (position : Nat) : Fin rows :=
  ⟨min position (rows - 1), by have := row.isLt; omega⟩

def clampCol (position : Nat) : Fin (cols + 1) :=
  ⟨min position (cols - 1), by omega⟩

/-- Vertical moves stop at the margins they start inside of. -/
def Modes.moveRow (modes : Modes) (row : Fin rows) : Travel → Fin rows
  | .stay | .tab => row
  | .goto position =>
    clampRow row (if modes.origin then
        min (modes.scrollTop + position) modes.scrollBottom
      else position)
  | .back distance =>
    clampRow row
      (if modes.scrollTop ≤ row then max modes.scrollTop (row - distance)
      else row - distance)
  | .ahead distance =>
    clampRow row (if row ≤ modes.scrollBottom then
        min modes.scrollBottom (row + distance)
      else row + distance)

def Modes.moveCol (modes : Modes) (col : Fin (cols + 1)) :
    Travel → Fin (cols + 1)
  | .stay => clampCol col
  | .goto position => clampCol position
  | .back distance => clampCol (min col.val (cols - 1) - distance)
  | .ahead distance => clampCol (min col.val (cols - 1) + distance)
  | .tab =>
    if col.val = cols then col
    else clampCol ((modes.tabStops.find? (col.val < ·)).getD (cols - 1))

def Region.covers (region : Region) (row col r c : Nat) : Bool :=
  match region with
  | .toLineEnd => r == row && decide (col ≤ c)
  | .toLineStart => r == row && decide (c ≤ col)
  | .line => r == row
  | .toScreenEnd => decide (row < r) || (r == row && decide (col ≤ c))
  | .toScreenStart => decide (r < row) || (r == row && decide (c ≤ col))
  | .screen => true

namespace Screen

variable (emulator : Emulator Attr Cell)

def erase (region : Region)
    (s : Screen Attr Cell rows cols) : Screen Attr Cell rows cols :=
  { s with
    grid := fun r c =>
      if region.covers s.row s.col r c then emulator.blank s.attributes
      else s.grid r c }

variable (s : Screen Attr Cell rows cols)

/-- The lines between the margins move up. -/
def scrollUp : Screen Attr Cell rows cols :=
  { s with
    grid := fun r c =>
      if r < s.modes.scrollTop ∨ s.modes.scrollBottom < r then s.grid r c
      else if h : r + 1 < rows ∧ r < s.modes.scrollBottom then
        s.grid ⟨r + 1, h.1⟩ c
      else emulator.blank s.attributes }

/-- The cursor goes to the start of the next line, or back to where a character
of this width fits. -/
def wrap (width : Nat)
    (s : Screen Attr Cell rows cols) : Screen Attr Cell rows cols :=
  if s.modes.autowrap then
    if s.row = s.modes.scrollBottom then
      { s.scrollUp emulator with col := clampCol 0 }
    else { s with row := clampRow s.row (s.row + 1), col := clampCol 0 }
  else { s with col := clampCol (cols - width) }

def put (code width : Nat)
    (s : Screen Attr Cell rows cols) : Screen Attr Cell rows cols :=
  { s with
    grid := fun r c =>
      if r = s.row ∧ c.val = s.col then emulator.glyph code s.attributes
      else if r = s.row ∧ s.col.val < c ∧ c < s.col.val + width then
        emulator.spacer s.attributes
      else s.grid r c
    col := ⟨min (s.col + width) cols, by omega⟩ }

/-- A character without width joins the one before the cursor. -/
def join (code : Nat)
    (s : Screen Attr Cell rows cols) : Screen Attr Cell rows cols :=
  { s with
    grid := fun r c =>
      if r = s.row ∧ c.val + 1 = s.col then
        emulator.combine code (s.grid r c)
      else s.grid r c }

def print (code : Nat)
    (s : Screen Attr Cell rows cols) : Screen Attr Cell rows cols :=
  let width := emulator.width code
  if width = 0 then s.join emulator code
  else if cols < s.col + width then
    (s.wrap emulator width).put emulator code width
  else s.put emulator code width

theorem print_modes (code : Nat) :
    (s.print emulator code).modes = s.modes ∧
      (s.print emulator code).attributes = s.attributes := by
  unfold print
  dsimp only
  split
  · exact ⟨rfl, rfl⟩
  · split
    · unfold wrap
      split
      · split <;> exact ⟨rfl, rfl⟩
      · exact ⟨rfl, rfl⟩
    · exact ⟨rfl, rfl⟩

def execute : Operation → Screen Attr Cell rows cols
  | .sgr params => { s with attributes := emulator.sgr params s.attributes }
  | .erase region => s.erase emulator region
  | .travel vertical horizontal =>
    { s with
      row := s.modes.moveRow s.row vertical
      col := s.modes.moveCol s.col horizontal }
  | .synchronize on => { s with modes := { s.modes with synchronized := on } }
  | .print code => s.print emulator code

def run (operations : List Operation) : Screen Attr Cell rows cols :=
  operations.foldl (execute emulator) s

theorem run_append (front back : List Operation) :
    s.run emulator (front ++ back) = (s.run emulator front).run emulator back :=
  List.foldl_append

/-- No operation changes a mode other than the synchronized output. -/
theorem run_modes (operations : List Operation) (on : Bool) :
    { (s.run emulator operations).modes with synchronized := on } =
      { s.modes with synchronized := on } := by
  induction operations generalizing s with
  | nil => rfl
  | cons operation rest ih =>
    refine (ih (s.execute emulator operation)).trans ?_
    cases operation with
    | print code => rw [execute, (print_modes emulator s code).1]
    | _ => rfl

end Screen

/-- What is known of the grid: nothing, that it shows one cell everywhere, or
that it no longer depends on where the terminal started. -/
inductive Ground (Cell : Type)
  | unknown
  | uniform (cell : Cell)
  | determined
deriving DecidableEq, Repr

structure Knowledge (Attr Cell : Type) where
  attributes : Option Attr := none
  ground : Ground Cell := .unknown
  row : Bool := false
  col : Bool := false
deriving DecidableEq, Repr

/-- The coordinate does not depend on the one before. -/
def Travel.isAbsolute : Travel → Bool
  | .goto _ => true
  | _ => false

def Region.needsRow : Region → Bool
  | .screen => false
  | _ => true

def Region.needsCol : Region → Bool
  | .line | .screen => false
  | _ => true

namespace Knowledge

variable [DecidableEq Cell]

/-- The extent of the erase is known. -/
def bounds (k : Knowledge Attr Cell) (region : Region) : Bool :=
  (k.row || !region.needsRow) && (k.col || !region.needsCol)

/-- An erase of unknown extent does no harm where it would leave the screen as
it is. -/
def eraseGround (k : Knowledge Attr Cell) (emulator : Emulator Attr Cell)
    (region : Region) : Ground Cell :=
  match k.attributes with
  | none => .unknown
  | some attributes =>
    let blank := emulator.blank attributes
    if region = .screen ∨ k.ground = .uniform blank then .uniform blank
    else if k.bounds region = true ∧ k.ground ≠ .unknown then .determined
    else .unknown

variable (emulator : Emulator Attr Cell) (k : Knowledge Attr Cell)

def execute :
    Operation → Knowledge Attr Cell
  | .sgr params =>
    { k with
      attributes :=
        if params = [0x30] then some emulator.initial
        else k.attributes.map (emulator.sgr params) }
  | .erase region => { k with ground := k.eraseGround emulator region }
  | .travel vertical horizontal =>
    { k with
      row := k.row || vertical.isAbsolute
      col := k.col || horizontal.isAbsolute }
  | .synchronize _ => k
  | .print _ =>
    if k.attributes.isSome ∧ k.ground ≠ .unknown ∧ k.row ∧ k.col then
      { k with ground := .determined }
    else { k with ground := .unknown, row := false, col := false }

def run (operations : List Operation) : Knowledge Attr Cell :=
  operations.foldl (execute emulator) k

/-- What is known of attributes and cursor stays known until a character is
printed. -/
structure Extends (k l : Knowledge Attr Cell) : Prop where
  attributes : k.attributes.isSome → l.attributes.isSome
  row : k.row = true → l.row = true
  col : k.col = true → l.col = true

theorem execute_extends {operation : Operation}
    (h : operation.isPrint = false) :
    k.Extends (k.execute emulator operation) := by
  cases operation with
  | sgr params =>
    refine ⟨fun hsome => ?_, id, id⟩
    simp only [execute]
    split
    · rfl
    · rwa [Option.isSome_map]
  | erase region => exact ⟨id, id, id⟩
  | travel vertical horizontal =>
    exact ⟨id, fun hrow => by simp [execute, hrow],
      fun hcol => by simp [execute, hcol]⟩
  | synchronize on => exact ⟨id, id, id⟩
  | print code => cases h

theorem run_extends {operations : List Operation}
    (h : ∀ operation ∈ operations, operation.isPrint = false) :
    k.Extends (k.run emulator operations) := by
  induction operations generalizing k with
  | nil => exact ⟨id, id, id⟩
  | cons operation rest ih =>
    have hfirst := execute_extends emulator k (h operation List.mem_cons_self)
    have hrest := ih (k.execute emulator operation)
      fun other hmem => h other (List.mem_cons_of_mem operation hmem)
    exact ⟨hrest.attributes ∘ hfirst.attributes, hrest.row ∘ hfirst.row,
      hrest.col ∘ hfirst.col⟩

/-- Everything but the modes is known. -/
structure Settled (k : Knowledge Attr Cell) : Prop where
  attributes : k.attributes.isSome
  ground : k.ground ≠ .unknown
  row : k.row = true
  col : k.col = true

end Knowledge

/-- Two screens that what is known applies to. -/
structure Agree (k : Knowledge Attr Cell)
    (s t : Screen Attr Cell rows cols) : Prop where
  modes : s.modes = t.modes
  attributes : ∀ attributes ∈ k.attributes,
    s.attributes = attributes ∧ t.attributes = attributes
  uniform : ∀ cell, k.ground = .uniform cell →
    s.grid = (fun _ _ => cell) ∧ t.grid = fun _ _ => cell
  determined : k.ground = .determined → s.grid = t.grid
  row : k.row = true → s.row = t.row
  col : k.col = true → s.col = t.col

namespace Agree

variable {k : Knowledge Attr Cell} {s t : Screen Attr Cell rows cols}
variable {emulator : Emulator Attr Cell}

theorem of_modes (h : s.modes = t.modes) : Agree {} s t where
  modes := h
  attributes := by simp
  uniform := by simp
  determined := by simp
  row := by simp
  col := by simp

theorem grid (h : Agree k s t) (hground : k.ground ≠ .unknown) :
    s.grid = t.grid := by
  cases hcase : k.ground with
  | unknown => exact absurd hcase hground
  | uniform cell =>
    obtain ⟨hs, ht⟩ := h.uniform cell hcase
    rw [hs, ht]
  | determined => exact h.determined hcase

/-- Nothing is left that the two screens could differ in. -/
theorem eq (h : Agree k s t) (hsettled : k.Settled) : s = t := by
  obtain ⟨attributes, hattributes⟩ :=
    Option.isSome_iff_exists.mp hsettled.attributes
  obtain ⟨hs, ht⟩ := h.attributes attributes hattributes
  have hgrid := h.grid hsettled.ground
  have hrow := h.row hsettled.row
  have hcol := h.col hsettled.col
  have hmodes := h.modes
  cases s
  cases t
  simp_all

theorem covers_congr {region : Region} {row row' col col' : Nat}
    (hrow : region.needsRow = true → row = row')
    (hcol : region.needsCol = true → col = col') (r c : Nat) :
    region.covers row col r c = region.covers row' col' r c := by
  cases region with
  | screen => rfl
  | line => rw [hrow rfl]; rfl
  | toLineEnd => rw [hrow rfl, hcol rfl]
  | toLineStart => rw [hrow rfl, hcol rfl]
  | toScreenEnd => rw [hrow rfl, hcol rfl]
  | toScreenStart => rw [hrow rfl, hcol rfl]

theorem erase_uniform {region : Region} {cell : Cell}
    (hblank : emulator.blank s.attributes = cell)
    (h : region = .screen ∨ s.grid = fun _ _ => cell) :
    (s.erase emulator region).grid = fun _ _ => cell := by
  funext r c
  rcases h with rfl | hgrid
  · exact hblank
  · simp [Screen.erase, hgrid, hblank]

theorem erase_determined [DecidableEq Cell] {region : Region}
    (h : Agree k s t) (hattributes : s.attributes = t.attributes)
    (hbounds : k.bounds region = true) (hgrid : s.grid = t.grid) :
    (s.erase emulator region).grid = (t.erase emulator region).grid := by
  simp only [Knowledge.bounds, Bool.and_eq_true, Bool.or_eq_true,
    Bool.not_eq_true'] at hbounds
  have hcovers : ∀ r c, region.covers s.row s.col r c =
      region.covers t.row t.col r c := by
    apply covers_congr
    · intro hneeds
      rw [h.row (hbounds.1.resolve_right (by simp [hneeds]))]
    · intro hneeds
      rw [h.col (hbounds.2.resolve_right (by simp [hneeds]))]
  funext r c
  simp only [Screen.erase, hcovers, hattributes, hgrid]

variable [DecidableEq Cell]

theorem erase (h : Agree k s t) (region : Region) :
    Agree (k.execute emulator (.erase region))
      (s.erase emulator region) (t.erase emulator region) := by
  refine ⟨h.modes, h.attributes, ?_, ?_, h.row, h.col⟩
  · intro cell hcell
    change k.eraseGround emulator region = _ at hcell
    unfold Knowledge.eraseGround at hcell
    split at hcell
    · cases hcell
    · next attributes hattributes =>
      obtain ⟨hs, ht⟩ := h.attributes attributes hattributes
      dsimp only at hcell
      split at hcell
      · next hwhole =>
        have hblank := Ground.uniform.inj hcell
        constructor
        · apply erase_uniform (by rw [hs, hblank])
          exact hwhole.imp_right fun hground =>
            hblank ▸ (h.uniform _ hground).1
        · apply erase_uniform (by rw [ht, hblank])
          exact hwhole.imp_right fun hground =>
            hblank ▸ (h.uniform _ hground).2
      · split at hcell <;> cases hcell
  · intro hdetermined
    change k.eraseGround emulator region = _ at hdetermined
    unfold Knowledge.eraseGround at hdetermined
    split at hdetermined
    · cases hdetermined
    · next attributes hattributes =>
      obtain ⟨hs, ht⟩ := h.attributes attributes hattributes
      dsimp only at hdetermined
      split at hdetermined
      · cases hdetermined
      · split at hdetermined
        · next hknown =>
          exact h.erase_determined (hs.trans ht.symm) hknown.1
            (h.grid hknown.2)
        · cases hdetermined

theorem moveRow_absolute {modes : Modes} {travel : Travel}
    (h : travel.isAbsolute = true) (row row' : Fin rows) :
    modes.moveRow row travel = modes.moveRow row' travel := by
  cases travel with
  | goto position => rfl
  | _ => cases h

theorem moveCol_absolute {modes : Modes} {travel : Travel}
    (h : travel.isAbsolute = true) (col col' : Fin (cols + 1)) :
    modes.moveCol col travel = modes.moveCol col' travel := by
  cases travel with
  | goto position => rfl
  | _ => cases h

theorem travel (h : Agree k s t) (vertical horizontal : Travel) :
    Agree (k.execute emulator (.travel vertical horizontal))
      (s.execute emulator (.travel vertical horizontal))
      (t.execute emulator (.travel vertical horizontal)) := by
  refine ⟨h.modes, h.attributes, h.uniform, h.determined, ?_, ?_⟩
  · intro hknown
    simp only [Screen.execute, h.modes]
    rcases Bool.or_eq_true _ _ ▸ hknown with hrow | habsolute
    · rw [h.row hrow]
    · exact moveRow_absolute habsolute _ _
  · intro hknown
    simp only [Screen.execute, h.modes]
    rcases Bool.or_eq_true _ _ ▸ hknown with hcol | habsolute
    · rw [h.col hcol]
    · exact moveCol_absolute habsolute _ _

theorem print (h : Agree k s t) (code : Nat) :
    Agree (k.execute emulator (.print code))
      (s.print emulator code) (t.print emulator code) := by
  simp only [Knowledge.execute]
  split
  · next hknown =>
    obtain ⟨hattributes, hground, hrow, hcol⟩ := hknown
    have hsame : s = t := h.eq ⟨hattributes, hground, hrow, hcol⟩
    have hkept := h.attributes
    rw [hsame] at hkept ⊢
    refine ⟨rfl, fun attributes hmem => ?_, by simp, fun _ => rfl,
      fun _ => rfl, fun _ => rfl⟩
    rw [(Screen.print_modes emulator t code).2]
    exact hkept attributes hmem
  · refine ⟨?_, fun attributes hmem => ?_, by simp, by simp, by simp,
      by simp⟩
    · rw [(Screen.print_modes emulator s code).1,
        (Screen.print_modes emulator t code).1, h.modes]
    · rw [(Screen.print_modes emulator s code).2,
        (Screen.print_modes emulator t code).2]
      exact h.attributes attributes hmem

theorem sgr (h : Agree k s t) (params : List UInt16) :
    Agree (k.execute emulator (.sgr params)) (s.execute emulator (.sgr params))
      (t.execute emulator (.sgr params)) := by
  refine ⟨h.modes, fun attributes hmem => ?_, h.uniform, h.determined, h.row,
    h.col⟩
  simp only [Knowledge.execute, Screen.execute] at hmem ⊢
  split at hmem
  · next hreset =>
    rw [hreset, emulator.sgr_reset, emulator.sgr_reset]
    exact ⟨Option.some.inj hmem, Option.some.inj hmem⟩
  · obtain ⟨before, hbefore, rfl⟩ := Option.map_eq_some_iff.mp hmem
    obtain ⟨hs, ht⟩ := h.attributes before hbefore
    rw [hs, ht]
    exact ⟨rfl, rfl⟩

theorem execute (h : Agree k s t) (operation : Operation) :
    Agree (k.execute emulator operation) (s.execute emulator operation)
      (t.execute emulator operation) := by
  cases operation with
  | sgr params => exact h.sgr params
  | erase region => exact h.erase region
  | travel vertical horizontal => exact h.travel vertical horizontal
  | synchronize on =>
    refine ⟨?_, h.attributes, h.uniform, h.determined, h.row, h.col⟩
    simp only [Screen.execute, h.modes]
  | print code => exact h.print code

/-- What is known after some operations holds of both screens. -/
theorem run (h : Agree k s t) (operations : List Operation) :
    Agree (k.run emulator operations) (s.run emulator operations)
      (t.run emulator operations) := by
  induction operations generalizing k s t with
  | nil => exact h
  | cons operation rest ih => exact ih (h.execute operation)

end Agree

end Terminal
