/-
What the transfers have in common: their errors, and how they are cancelled.
-/
import NiceTerm.Lib.Files
import NiceTerm.Lib.RustStr

namespace NiceTerm.Sftp

open RustStr (Str)

abbrev Bytes := List UInt8

inductive AppError where
  | channel (message : Str)
  | cancelled (message : Str)
  | other (message : Str)
deriving DecidableEq, Repr

def AppError.isCancelled : AppError → Bool
  | cancelled _ => true
  | _ => false

def transferCancelledMessage : Str := "Transfer cancelled".toList

inductive TransferControlState
  | running
  | paused
  | cancelled
deriving DecidableEq, Repr

/-- `wait_for_transfer_ready` with the first state in which it is not paused. -/
def waitForTransferReady (state : TransferControlState) : Except AppError Unit :=
  if state = .cancelled then .error (.cancelled transferCancelledMessage)
  else .ok ()

/-- A call that may fail, with the text of its error. -/
def mapError (wrap : Str → AppError) : Option Str → Except AppError Unit
  | some error => .error (wrap error)
  | none => .ok ()

def channelError (text : String) (error : Str) : AppError :=
  .channel (text.toList ++ error)

/-- The same wait in a transfer that works on a disk. -/
def waitReady : Effects (Disk Str Str) AppError Unit :=
  Disk.wait (.cancelled transferCancelledMessage)

/-- A directory `d` with a file `a` in it. -/
def mergedFolder : Files (List Str) := fun path =>
  if path = [] ∨ path = [['d']] then some .directory
  else if path = [['d'], ['a']] then some (.file [1])
  else none

theorem mergedFolder_rooted : mergedFolder.Rooted := by
  intro path name hnode
  match path with
  | [] => rfl
  | [folder] =>
    have hfolder : folder = ['d'] := by
      by_contra hne
      simp [mergedFolder, hne] at hnode
    rw [hfolder]
    rfl
  | _ :: _ :: _ => simp [mergedFolder] at hnode

/-- What the user answers when the target of a transfer exists. -/
inductive DuplicateChoice
  | skip
  | overwrite
deriving DecidableEq, Repr

end NiceTerm.Sftp
