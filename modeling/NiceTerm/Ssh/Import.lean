/-
Importing the hosts of the configuration as saved connections.  Every hop of a
`ProxyJump` is a node of a graph; a link leads from a node to the hop in front
of it, and becomes the `proxyJumpId` of the node's connection.
-/
import Mathlib.Data.Char
import Mathlib.Data.List.Lex
import Mathlib.Data.List.Sort
import NiceTerm.Lib.Keyed
import NiceTerm.Lib.Table
import NiceTerm.Ssh.Parsing

namespace NiceTerm.Ssh

open RustStr
open Snapshot (AppError)

inductive ConnectionType where
  | ssh (host : Str) (port : Nat) (username : Str)
  | other
deriving Repr, DecidableEq

structure ConnectionNetwork where
  proxyId : Option Str := none
  proxyJumpId : Option Str := none
deriving Repr, DecidableEq

structure SavedConnection where
  id : Str
  name : Str
  config : ConnectionType
  description : Option Str := none
  network : Option ConnectionNetwork := none
deriving Repr, DecidableEq

def SavedConnection.proxyJumpId (connection : SavedConnection) : Option Str :=
  connection.network.bind ConnectionNetwork.proxyJumpId

/-- The saved connections.  The storage keeps them under their ids. -/
structure SavedConnections where
  connections : List SavedConnection
  nodup : (connections.map SavedConnection.id).Nodup

structure ImportNode where
  key : Str
  name : Str
  entry : SshConfigEntry
deriving Repr, DecidableEq

def conflictingHops (node existing previousHop : Str) : AppError :=
  .config ("ProxyJump host '".toList ++ node ++
    "' is used with conflicting preceding hops ('".toList ++ existing ++
    "' and '".toList ++ previousHop ++ "')".toList)

def setImportLink (links : Table Str Str) (node previousHop : Str) :
    Except AppError (Table Str Str) :=
  match links.get node with
  | none => .ok (links.insert node previousHop)
  | some existing =>
    if existing ≠ previousHop then
      .error (conflictingHops node existing previousHop)
    else .ok (links.insert node previousHop)

variable (entry : SshConfigEntry)

def regularImportNode : ImportNode where
  key := "alias:".toList ++ entry.hostAlias
  name := entry.hostAlias
  entry

/-- What a hop on the way to others is called. -/
def jumpName (hostAlias rawSpec routePrefix : Str) : Str :=
  if routePrefix.isEmpty then
    hostAlias ++ " (ProxyJump: ".toList ++ rawSpec ++ [')']
  else if rawSpec = hostAlias then
    hostAlias ++ " (ProxyJump via: ".toList ++ routePrefix ++ [')']
  else
    hostAlias ++ " (ProxyJump via: ".toList ++ routePrefix ++
      "; spec: ".toList ++ rawSpec ++ [')']

def jumpKey (rawSpec routePrefix : Str) : Str :=
  "jump:".toList ++ rawSpec ++ ":via:".toList ++ routePrefix

def JumpSpec.hasOverride (spec : JumpSpec) : Bool :=
  spec.user.isSome || spec.port.isSome

variable (config : SshConfig)

def jumpImportNode (username rawSpec : Str)
    (priorSpecs : List Str) : Except AppError ImportNode := do
  let spec ← parseJumpSpec rawSpec
  let entry ← config.resolve username spec.host
  let entry := { entry with
    user := spec.user.getD entry.user
    port := spec.port.getD entry.port }
  -- A later hop is reached through those before it, which the host itself is
  -- not.
  if spec.hasOverride || !priorSpecs.isEmpty then
    let rawSpec := trim rawSpec
    let routePrefix := [','].intercalate priorSpecs
    return { key := jumpKey rawSpec routePrefix
             name := jumpName spec.host rawSpec routePrefix
             entry }
  else return regularImportNode entry

/-- The nodes and the links between their keys. -/
structure ImportGraph where
  nodes : Table Str ImportNode := .empty
  links : Table Str Str := .empty

namespace ImportGraph

/-- A node that is there already stays. -/
def addNode (graph : ImportGraph) (node : ImportNode) : ImportGraph :=
  match graph.nodes.get node.key with
  | some _ => graph
  | none => { graph with nodes := graph.nodes.insert node.key node }

def link (graph : ImportGraph) (node previousHop : ImportNode) :
    Except AppError ImportGraph := do
  let links ← setImportLink graph.links node.key previousHop.key
  return { graph with links }

/-- The hops of a `ProxyJump`, with the last of them. -/
def addJumps (config : SshConfig) (username : Str) (graph : ImportGraph)
    (previous : Option ImportNode) (priorSpecs : List Str) :
    List Str → Except AppError (ImportGraph × Option ImportNode)
  | [] => .ok (graph, previous)
  | rawSpec :: rest => do
    let jump ← jumpImportNode config username rawSpec priorSpecs
    let graph := graph.addNode jump
    let graph ←
      match previous with
      | some previous => graph.link jump previous
      | none => .ok graph
    graph.addJumps config username (some jump) (priorSpecs ++ [trim rawSpec])
      rest

def addEntry (config : SshConfig) (username : Str) (graph : ImportGraph)
    (entry : SshConfigEntry) : Except AppError ImportGraph :=
  let target := regularImportNode entry
  let graph := graph.addNode target
  match entry.proxyJump with
  | none => .ok graph
  | some proxyJump => do
    let (graph, previous) ←
      graph.addJumps config username none [] (proxyJump.splitOn ',')
    match previous with
    | some lastJump => graph.link target lastJump
    | none => .ok graph

end ImportGraph

/-- The order in which the values of a hash map come. -/
structure MapOrder where
  run : List ImportNode → List ImportNode
  perm : ∀ nodes, (run nodes).Perm nodes

def entryDescription : Str :=
  match entry.proxyJump, entry.identityFile with
  | some proxyJump, identityFile =>
    "Imported from ~/.ssh/config (ProxyJump: ".toList ++ proxyJump ++
      (identityFile.elim [] fun file =>
        ", IdentityFile recognized (configure manually): ".toList ++ file) ++
      [')']
  | none, some file =>
    "Imported from ~/.ssh/config (IdentityFile recognized; ".toList ++
      "configure manually: ".toList ++ file ++ [')']
  | none, none => "Imported from ~/.ssh/config".toList

def entryToSavedConnection (id name : Str)
    (proxyJumpId : Option Str) : SavedConnection where
  id
  name
  config := .ssh entry.host entry.port entry.user
  description := some (entryDescription entry)
  network := proxyJumpId.map fun id => { proxyJumpId := some id }

namespace SavedConnections

variable (existing : SavedConnections)

/-- Of connections with one name the last. -/
def byName : Table Str SavedConnection :=
  Table.collect SavedConnection.name id existing.connections

/-- The ids of the nodes: that of the connection with the name, else a new
one.  `uuid` are the new ids as they are drawn. -/
def importIds (uuid : Nat → Str) (nodes : List ImportNode) : Table Str Str :=
  Table.collect (fun entry => entry.1.key)
    (fun entry => ((existing.byName.get entry.1.name).map
      SavedConnection.id).getD (uuid entry.2)) nodes.zipIdx

def differentJumpHost (name : Str) : AppError :=
  .config ("Cannot safely import ProxyJump route: existing connection '".toList
    ++ name ++ "' has a different jump host".toList)

/-- The connection of a node, if there is none with its name. -/
def importNode (ids links : Table Str Str) (node : ImportNode) :
    Except AppError (Option SavedConnection) :=
  let expectedJumpId := (links.get node.key).bind ids.get
  match existing.byName.get node.name with
  | some saved =>
    if expectedJumpId ≠ saved.proxyJumpId then
      .error (differentJumpHost node.name)
    else .ok none
  | none =>
    .ok (some (entryToSavedConnection node.entry
      ((ids.get node.key).getD []) node.name expectedJumpId))

end SavedConnections

def SshConfig.importGraph (username : Str) :
    Except AppError ImportGraph := do
  let entries ← config.toEntries username
  entries.foldlM (ImportGraph.addEntry config username) {}

def orderedNodes (order : MapOrder) (graph : ImportGraph) : List ImportNode :=
  (order.run graph.nodes.values).insertionSort fun a b => a.name ≤ b.name

/-- The new connections; those that have the name of a node are kept. -/
def buildImportedConnections (username : Str)
    (order : MapOrder) (uuid : Nat → Str) (existing : SavedConnections) :
    Except AppError (List SavedConnection) := do
  let graph ← config.importGraph username
  let nodes := orderedNodes order graph
  let ids := existing.importIds uuid nodes
  let imported ← nodes.mapM (existing.importNode ids graph.links)
  return imported.filterMap id

end NiceTerm.Ssh
