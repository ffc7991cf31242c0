/-
The network virtual terminal: how a receiver reads a byte stream in which
commands are marked by IAC.  Every event has a price in bytes, and a stream
pays for all its events; this bounds what can be received.
-/
import Mathlib.Data.List.Basic

namespace Nvt

open List

abbrev Bytes := List UInt8

def iac : UInt8 := 255
def dont : UInt8 := 254
def doo : UInt8 := 253
def wont : UInt8 := 252
def will : UInt8 := 251
def sb : UInt8 := 250
def se : UInt8 := 240

inductive Event where
  | data (byte : UInt8)
  | negotiate (command option : UInt8)
  | subnegotiation (content : Bytes)
deriving Repr, DecidableEq

/-- What the receiver waits for. -/
inductive State where
  | data
  | command
  | option (command : UInt8)
  | sub (content : Bytes)
  | subCommand (content : Bytes)
deriving Repr, DecidableEq

def isNegotiation (byte : UInt8) : Bool :=
  byte == will || byte == wont || byte == doo || byte == dont

/-- One byte.  A doubled IAC stands for itself, also inside a subnegotiation. -/
def step : State → UInt8 → State × Option Event
  | .data, byte =>
    if byte = iac then (.command, none) else (.data, some (.data byte))
  | .command, byte =>
    if byte = iac then (.data, some (.data iac))
    else if isNegotiation byte then (.option byte, none)
    else if byte = sb then (.sub [], none)
    else (.data, none)
  | .option command, byte => (.data, some (.negotiate command byte))
  | .sub content, byte =>
    if byte = iac then (.subCommand content, none)
    else (.sub (content ++ [byte]), none)
  | .subCommand content, byte =>
    if byte = se then (.data, some (.subnegotiation content))
    else if byte = iac then (.sub (content ++ [iac]), none)
    else (.sub content, none)

def run (s : State) : Bytes → State × List Event
  | [] => (s, [])
  | byte :: rest =>
    ((run (step s byte).1 rest).1,
      (step s byte).2.toList ++ (run (step s byte).1 rest).2)

def Event.byte? : Event → Option UInt8
  | .data byte => some byte
  | _ => none

def Event.pair? : Event → Option (UInt8 × UInt8)
  | .negotiate command option => some (command, option)
  | _ => none

def Event.content? : Event → Option Bytes
  | .subnegotiation content => some content
  | _ => none

variable (events : List Event)

def visible : Bytes := events.filterMap Event.byte?

def negotiations : List (UInt8 × UInt8) :=
  events.filterMap Event.pair?

def contents : List Bytes :=
  events.filterMap Event.content?

theorem run_append (s : State) (front back : Bytes) :
    run s (front ++ back) = ((run (run s front).1 back).1,
        (run s front).2 ++ (run (run s front).1 back).2) := by
  induction front generalizing s with
  | nil => rfl
  | cons byte rest ih =>
    simp only [cons_append, run, ih, append_assoc]

@[simp] theorem visible_append (front back : List Event) :
    visible (front ++ back) = visible front ++ visible back :=
  filterMap_append

@[simp] theorem negotiations_append (front back : List Event) :
    negotiations (front ++ back) = negotiations front ++ negotiations back :=
  filterMap_append

@[simp] theorem contents_append (front back : List Event) :
    contents (front ++ back) = contents front ++ contents back :=
  filterMap_append

/-- Bytes without IAC are received as they are. -/
theorem run_plain {bytes : Bytes} (h : iac ∉ bytes) :
    run .data bytes = (.data, bytes.map Event.data) := by
  induction bytes with
  | nil => rfl
  | cons byte rest ih =>
    simp only [mem_cons, not_or] at h
    have hstep : step .data byte = (.data, some (.data byte)) :=
      if_neg (Ne.symm h.1)
    simp only [run, hstep, ih h.2, Option.toList_some, map_cons,
      singleton_append]

variable (bytes : Bytes)

@[simp] theorem visible_map_data :
    visible (bytes.map Event.data) = bytes := by
  induction bytes with
  | nil => rfl
  | cons byte rest ih => exact congrArg (byte :: ·) ih

@[simp] theorem negotiations_map_data :
    negotiations (bytes.map Event.data) = [] := by
  induction bytes with
  | nil => rfl
  | cons byte rest ih => exact ih

@[simp] theorem contents_map_data :
    contents (bytes.map Event.data) = [] := by
  induction bytes with
  | nil => rfl
  | cons byte rest ih => exact ih

/-- What a byte costs that has to be sent as data. -/
def width : Nat :=
  bytes.length + bytes.count iac

/-- The least number of bytes an event is received from. -/
def Event.price : Event → Nat
  | .data byte => width [byte]
  | .negotiate _ _ => 3
  | .subnegotiation content => 4 + width content

def price : List Event → Nat
  | [] => 0
  | event :: rest => event.price + price rest

/-- The bytes of an unfinished command. -/
def State.paid : State → Nat
  | .data => 0
  | .command => 1
  | .option _ => 2
  | .sub content => 2 + width content
  | .subCommand content => 3 + width content

theorem price_append (front back : List Event) :
    price (front ++ back) = price front + price back := by
  induction front with
  | nil => simp [price]
  | cons event rest ih => simp only [cons_append, price, ih, Nat.add_assoc]

theorem width_append (front back : Bytes) :
    width (front ++ back) = width front + width back := by
  simp only [width, length_append, count_append]
  omega

open State

theorem step_price (s : State) (byte : UInt8) :
    (step s byte).1.paid + price (step s byte).2.toList ≤ s.paid + 1 := by
  have hwidth : byte ≠ iac → width [byte] = 1 := by
    intro h
    simp [width, h]
  have hiac : width [iac] = 2 := by decide
  cases s with
  | data =>
    by_cases h : byte = iac
    · simp [step, h, paid, price]
    · simp [step, h, paid, price, Event.price, hwidth h]
  | command =>
    by_cases h : byte = iac
    · simp [step, h, paid, price, Event.price, hiac]
    · by_cases hneg : isNegotiation byte = true
      · simp [step, h, hneg, paid, price]
      · by_cases hsb : byte = sb
        · subst hsb
          decide
        · simp [step, h, hneg, hsb, paid, price]
  | option command => simp [step, paid, price, Event.price]
  | sub content =>
    by_cases h : byte = iac
    · simp [step, h, paid, price]
      omega
    · simp [step, h, paid, price, width_append, hwidth h]
      omega
  | subCommand content =>
    by_cases hse : byte = se
    · simp [step, hse, paid, price, Event.price]
      omega
    · by_cases h : byte = iac
      · subst h
        have hne : iac ≠ se := by decide
        simp only [step, hne, if_false, if_true, paid, price,
          Option.toList_none, width_append, hiac]
        omega
      · simp [step, h, hse, paid, price]
        omega

/-- A stream pays for all the events it is read as. -/
theorem run_price (s : State) (bytes : Bytes) :
    (run s bytes).1.paid + price (run s bytes).2 ≤ s.paid + bytes.length := by
  induction bytes generalizing s with
  | nil => simp [run, price]
  | cons byte rest ih =>
    have hstep := step_price s byte
    have hrest := ih (step s byte).1
    simp only [run, price_append, length_cons]
    omega

def contentPrice : List Bytes → Nat
  | [] => 0
  | content :: rest => 4 + width content + contentPrice rest

/-- The data and the subnegotiations among the events of a stream. -/
theorem width_visible_le :
    width (visible events) + contentPrice (contents events) ≤
      price events := by
  induction events with
  | nil => decide
  | cons event rest ih =>
    cases event with
    | data byte =>
      have hsplit : width (visible (.data byte :: rest)) =
          width [byte] + width (visible rest) :=
        width_append [byte] (visible rest)
      have hcontents : contents (.data byte :: rest) = contents rest := rfl
      rw [hsplit, hcontents, price, Event.price]
      omega
    | negotiate command option =>
      have hvisible : visible (.negotiate command option :: rest) =
          visible rest := rfl
      have hcontents : contents (.negotiate command option :: rest) =
          contents rest := rfl
      rw [hvisible, hcontents, price]
      omega
    | subnegotiation content =>
      have hvisible : visible (.subnegotiation content :: rest) =
          visible rest := rfl
      have hcontents : contents (.subnegotiation content :: rest) =
          content :: contents rest := rfl
      rw [hvisible, hcontents, price, contentPrice, Event.price]
      omega

end Nvt
