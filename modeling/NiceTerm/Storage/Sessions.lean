/-
The stored connections with three index tables, which every operation keeps by
hand: new entries are inserted by a composed key, old ones are found by a scan
for the id.
-/
import Mathlib.Data.Char
import Mathlib.Data.List.Lex
import NiceTerm.Lib.RustStr
import NiceTerm.Lib.Table

namespace NiceTerm.Storage

open RustStr (Str)

inductive Protocol where
  | ssh
  | localTerminal
  | telnet
  | serial
  | rdp
  | vnc
deriving Repr, DecidableEq

def Protocol.name : Protocol → Str
  | .ssh => "ssh".toList
  | .localTerminal => "local_terminal".toList
  | .telnet => "telnet".toList
  | .serial => "serial".toList
  | .rdp => "rdp".toList
  | .vnc => "vnc".toList

/-- `details` are the fields that the storage keeps as they are. -/
structure ConnectionAuth (α : Type) where
  details : α
  password : Option Str := none
  hasPassword : Bool := false
deriving Repr, DecidableEq

structure SavedConnection (α δ : Type) where
  id : Str
  details : δ
  protocol : Protocol
  groupId : Option Str := none
  sortOrder : Int := 0
  auth : Option (ConnectionAuth α) := none
  createdAtMs : Option Nat := none
  updatedAtMs : Option Nat := none
  lastUsedAtMs : Option Nat := none
deriving Repr, DecidableEq

structure Group where
  id : Str
  name : Str
  parentId : Option Str := none
  sortOrder : Int := 0
  createdAtMs : Option Nat := none
  updatedAtMs : Option Nat := none
deriving Repr, DecidableEq

structure ConnectionPasswordRecord where
  id : Str
  connectionId : Str
  password : Str
  createdAtMs : Nat
  updatedAtMs : Nat
deriving Repr, DecidableEq

/-- The tables.  Records are kept under their ids; the constant prefix in front
of every key is left out. -/
structure Sessions (α δ : Type) where
  groups : Table Str Group := .empty
  connections : Table Str (SavedConnection α δ) := .empty
  passwords : Table Str ConnectionPasswordRecord := .empty
  byGroup : Table Str Str := .empty
  byLastUsed : Table Str Str := .empty
  byProtocol : Table Str Str := .empty

def u64Max : Nat := 18446744073709551615

def i64Min : Int := -9223372036854775808

def padded (value : Nat) : Str :=
  List.replicate (20 - (RustStr.decimal value).length) '0' ++
    RustStr.decimal value

def paddedI64 (value : Int) : Str := padded (value - i64Min).toNat

variable {α δ : Type}

variable (connection : SavedConnection α δ)

def groupKey : Str :=
  connection.groupId.getD [] ++ '|' :: paddedI64 connection.sortOrder ++
    '|' :: connection.id

def lastUsedKey : Str :=
  padded (u64Max - connection.lastUsedAtMs.getD 0) ++ '|' :: connection.id

def protocolKey : Str :=
  connection.protocol.name ++ '|' :: connection.id

def removeIndexEntries (id : Str) (table : Table Str Str) : Table Str Str :=
  table.removeIf fun key value => value == id || ('|' :: id).isSuffixOf key

namespace Sessions

variable (s : Sessions α δ)

def removeConnectionIndexEntries (id : Str) : Sessions α δ :=
  { s with
    byGroup := removeIndexEntries id s.byGroup
    byLastUsed := removeIndexEntries id s.byLastUsed
    byProtocol := removeIndexEntries id s.byProtocol }

def insertConnectionIndexes (connection : SavedConnection α δ) : Sessions α δ :=
  { s with
    byGroup := s.byGroup.insert (groupKey connection) connection.id
    byLastUsed := s.byLastUsed.insert (lastUsedKey connection) connection.id
    byProtocol := s.byProtocol.insert (protocolKey connection) connection.id }

variable (now : Nat)

def saveGroup (group : Group) : Sessions α δ :=
  let existing := (s.groups.get group.id).bind Group.createdAtMs
  let group :=
    { group with
      createdAtMs := group.createdAtMs.or (existing.or (some now))
      updatedAtMs := some now }
  { s with groups := s.groups.insert group.id group }

def deleteGroup (groupId : Str) : Sessions α δ :=
  { s with groups := s.groups.remove groupId }

/-- The password record of a connection to be saved. -/
def passwordRecord (connection : SavedConnection α δ) :
    Option ConnectionPasswordRecord :=
  ((connection.auth.bind ConnectionAuth.password).filter
    fun password => !password.isEmpty).map fun password =>
      ⟨connection.id, connection.id, password, now, now⟩

/-- The connection as it is stored: without its password. -/
def storedConnection (connection : SavedConnection α δ) : SavedConnection α δ :=
  let existing :=
    (s.connections.get connection.id).bind SavedConnection.createdAtMs
  { connection with
    createdAtMs := connection.createdAtMs.or (existing.or (some now))
    updatedAtMs := some now
    auth := connection.auth.map fun auth => { details := auth.details } }

def saveConnection (connection : SavedConnection α δ) : Sessions α δ :=
  let stored := s.storedConnection now connection
  let cleared := s.removeConnectionIndexEntries connection.id
  let passwords := cleared.passwords.remove connection.id
  { cleared with
    passwords :=
      match passwordRecord now connection with
      | some record => passwords.insert connection.id record
      | none => passwords
    connections := cleared.connections.insert connection.id stored
    : Sessions α δ }.insertConnectionIndexes stored

def deleteConnection (id : Str) : Sessions α δ :=
  { s with
    connections := s.connections.remove id
    passwords := s.passwords.remove id
    : Sessions α δ }.removeConnectionIndexEntries id

def hydrate (connection : SavedConnection α δ) : SavedConnection α δ :=
  { connection with
    auth := connection.auth.map fun auth =>
      if auth.password.isSome then auth
      else
        match s.passwords.get connection.id with
        | some record =>
          { auth with password := some record.password, hasPassword := true }
        | none => auth }

def markConnectionUsed (usedAt now : Nat) (id : Str) : Sessions α δ :=
  match s.connections.get id with
  | none => s
  | some connection =>
    s.saveConnection now
      (s.hydrate { connection with lastUsedAtMs := some usedAt })

/-- The saves of `replace_sessions`, one after the other. -/
def saveConnections (connections : List (SavedConnection α δ)) : Sessions α δ :=
  connections.foldl (fun s connection => s.saveConnection now connection) s

/-- The tables of `replace_sessions` before the connections are saved. -/
def replaced (groups : List Group) : Sessions α δ :=
  groups.foldl (fun s group => s.saveGroup now group) {}

def replaceSessions (groups : List Group)
    (connections : List (SavedConnection α δ)) : Sessions α δ :=
  (replaced now groups).saveConnections now connections

def listConnectionsByGroup (groupId : Option Str) :
    List (SavedConnection α δ) :=
  (s.byGroup.entries.filter fun entry =>
    (groupId.getD [] ++ ['|']).isPrefixOf entry.1).filterMap fun entry =>
      s.connections.get entry.2

end Sessions

end NiceTerm.Storage
