/-
The connections of the nodes.  A connection leads to that of the node in front
of its own, so its chain is the chain of links.
-/
import NiceTerm.Ssh.Routes

namespace NiceTerm.Ssh

open Chain
open Fallible
open RustStr
open Snapshot (AppError)

/-- New ids are drawn once and have not been in use. -/
structure Fresh (uuid : Nat → Str) (existing : SavedConnections) : Prop where
  injective : Function.Injective uuid
  id : ∀ i, ∀ saved ∈ existing.connections, saved.id ≠ uuid i
  jump : ∀ i, ∀ saved ∈ existing.connections, saved.proxyJumpId ≠ some (uuid i)

/-- The connection that `proxyJumpId` names. -/
def follow (connections : List SavedConnection)
    (connection : SavedConnection) : Option SavedConnection :=
  connection.proxyJumpId.bind fun id =>
    Keyed.find SavedConnection.id connections id

namespace SavedConnections

open List

variable (existing : SavedConnections)

/-- The connection that stands for a node after the import. -/
def connectionOf (ids links : Table Str Str) (node : ImportNode) :
    SavedConnection :=
  match existing.byName.get node.name with
  | some saved => saved
  | none =>
    entryToSavedConnection node.entry ((ids.get node.key).getD []) node.name
      ((links.get node.key).bind ids.get)

def isNew (node : ImportNode) : Bool :=
  (existing.byName.get node.name).isNone

variable {existing}

theorem mem_of_byName {name : Str} {saved : SavedConnection}
    (h : existing.byName.get name = some saved) :
    saved ∈ existing.connections := by
  have hentry := Table.get_eq_some_iff.mp h
  change _ ∈ (Table.writeAll SavedConnection.name id existing.connections
    Table.empty).entries at hentry
  rcases Table.mem_writeAll.mp hentry with
    ⟨record, hlatest, -, rfl⟩ | ⟨-, hmem⟩
  · exact hlatest.mem
  · exact absurd hmem Table.mem_empty

variable {ids links : Table Str Str} {node : ImportNode}

theorem importNode_ok {imported : Option SavedConnection}
    (h : existing.importNode ids links node = .ok imported) :
    (existing.connectionOf ids links node).proxyJumpId =
        (links.get node.key).bind ids.get ∧
      imported = if existing.isNew node then
        some (existing.connectionOf ids links node) else none := by
  rw [importNode] at h
  rw [connectionOf, isNew]
  cases hname : existing.byName.get node.name with
  | none =>
    simp only [hname] at h
    cases h
    refine ⟨?_, rfl⟩
    cases (links.get node.key).bind ids.get <;> rfl
  | some saved =>
    simp only [hname] at h
    split at h
    · contradiction
    · rename_i hsame
      cases h
      rw [ne_eq, not_not] at hsame
      exact ⟨hsame.symm, rfl⟩

/-- What is imported are the connections of the new nodes. -/
theorem imported_eq {nodes : List ImportNode}
    {imported : List (Option SavedConnection)}
    (h : nodes.mapM (existing.importNode ids links) = .ok imported) :
    imported.filterMap id =
        (nodes.filter existing.isNew).map (existing.connectionOf ids links) ∧
      ∀ node ∈ nodes, (existing.connectionOf ids links node).proxyJumpId =
        (links.get node.key).bind ids.get := by
  have hall := mapM_eq_ok h
  clear h
  induction hall with
  | nil => exact ⟨rfl, fun _ hmem => absurd hmem not_mem_nil⟩
  | @cons node connection rest others hnode _ ih =>
    obtain ⟨hjump, rfl⟩ := importNode_ok hnode
    refine ⟨?_, forall_mem_cons.mpr ⟨hjump, ih.2⟩⟩
    by_cases hnew : existing.isNew node = true
    · rw [if_pos hnew, filter_cons_of_pos hnew, map_cons, ← ih.1]
      rfl
    · rw [if_neg hnew, filter_cons_of_neg hnew, ← ih.1]
      rfl

variable {uuid : Nat → Str} {nodes : List ImportNode}

theorem importIds_get (hnodup : (nodes.map ImportNode.key).Nodup) {i : Nat}
    (hi : (node, i) ∈ nodes.zipIdx) :
    (existing.importIds uuid nodes).get node.key =
      some (((existing.byName.get node.name).map SavedConnection.id).getD
        (uuid i)) := by
  have hkeys : (nodes.zipIdx.map fun entry => entry.1.key) =
      nodes.map ImportNode.key := by
    rw [← zipIdx_map_fst 0 nodes, map_map]
    rw [zipIdx_map_fst]
    rfl
  exact Table.get_eq_some_iff.mpr
    ((Table.mem_collect (hkeys ▸ hnodup)).mpr ⟨(node, i), hi, rfl, rfl⟩)

theorem exists_index (hnode : node ∈ nodes) : ∃ i, (node, i) ∈ nodes.zipIdx := by
  rw [← zipIdx_map_fst 0 nodes, mem_map] at hnode
  obtain ⟨⟨_, i⟩, hi, rfl⟩ := hnode
  exact ⟨i, hi⟩

end SavedConnections

/-- What an import that succeeds has made of a graph. -/
structure Imports (existing : SavedConnections) (uuid : Nat → Str)
    (graph : ImportGraph) (nodes : List ImportNode)
    (imported : List SavedConnection) : Prop where
  fresh : Fresh uuid existing
  mem : ∀ node, node ∈ nodes ↔ graph.nodes.get node.key = some node
  nodup : (nodes.map ImportNode.key).Nodup
  linked : ∀ key previous, graph.links.get key = some previous →
    ∃ node, graph.nodes.get previous = some node ∧ node.key = previous
  imported : imported = (nodes.filter existing.isNew).map
    (existing.connectionOf (existing.importIds uuid nodes) graph.links)
  jump : ∀ node ∈ nodes,
    (existing.connectionOf (existing.importIds uuid nodes) graph.links
      node).proxyJumpId =
    (graph.links.get node.key).bind (existing.importIds uuid nodes).get

namespace Imports

open List Option

variable {existing : SavedConnections} {uuid : Nat → Str} {graph : ImportGraph}
  {nodes : List ImportNode} {imported : List SavedConnection}

/-- The connection of a node. -/
abbrev connection (_ : Imports existing uuid graph nodes imported) :
    ImportNode → SavedConnection :=
  existing.connectionOf (existing.importIds uuid nodes) graph.links

variable (h : Imports existing uuid graph nodes imported)
include h

theorem connection_of_saved {node : ImportNode} {saved : SavedConnection}
    (hname : existing.byName.get node.name = some saved) :
    h.connection node = saved := by
  rw [connection, SavedConnections.connectionOf, hname]

theorem new_id {node : ImportNode} (hnew : existing.isNew node = true) {i : Nat}
    (hi : (node, i) ∈ nodes.zipIdx) : (h.connection node).id = uuid i := by
  rw [SavedConnections.isNew, isNone_iff_eq_none] at hnew
  have hget : (existing.importIds uuid nodes).get node.key = _ :=
    SavedConnections.importIds_get h.nodup hi
  rw [hnew] at hget
  rw [connection, SavedConnections.connectionOf, hnew]
  simp only [hget]
  rfl

theorem get_id {node : ImportNode} (hnode : node ∈ nodes) :
    (existing.importIds uuid nodes).get node.key =
      some (h.connection node).id := by
  obtain ⟨i, hi⟩ := SavedConnections.exists_index hnode
  rw [SavedConnections.importIds_get h.nodup hi]
  cases hname : existing.byName.get node.name with
  | none =>
    have hnew : existing.isNew node = true := by
      rw [SavedConnections.isNew, hname]
      rfl
    rw [h.new_id hnew hi]
    rfl
  | some saved =>
    rw [h.connection_of_saved hname]
    rfl

theorem mem_imported {connection : SavedConnection} :
    connection ∈ imported ↔ ∃ node ∈ nodes, existing.isNew node = true ∧
      h.connection node = connection := by
  have hmem : connection ∈ (nodes.filter existing.isNew).map h.connection ↔
      ∃ node ∈ nodes, existing.isNew node = true ∧
        h.connection node = connection := by
    rw [List.mem_map]
    simp only [mem_filter, and_assoc]
  exact (iff_of_eq (congrArg (connection ∈ ·) h.imported)).trans hmem

theorem mem_all {node : ImportNode} (hnode : node ∈ nodes) :
    h.connection node ∈ imported ++ existing.connections := by
  rw [mem_append]
  cases hname : existing.byName.get node.name with
  | none =>
    have hnew : existing.isNew node = true := by
      rw [SavedConnections.isNew, hname]
      rfl
    exact .inl (h.mem_imported.mpr ⟨node, hnode, hnew, rfl⟩)
  | some saved =>
    rw [h.connection_of_saved hname]
    exact .inr (SavedConnections.mem_of_byName hname)

theorem ids_nodup :
    ((imported ++ existing.connections).map SavedConnection.id).Nodup := by
  rw [map_append, nodup_append]
  refine ⟨?_, existing.nodup, ?_⟩
  · rw [h.imported, List.map_map]
    refine Nodup.map_on ?_ (h.nodup.of_map.filter _)
    intro first hfirst second hsecond hsame
    obtain ⟨hfirst, hnew⟩ := mem_filter.mp hfirst
    obtain ⟨hsecond, hnew'⟩ := mem_filter.mp hsecond
    obtain ⟨i, hi⟩ := SavedConnections.exists_index hfirst
    obtain ⟨j, hj⟩ := SavedConnections.exists_index hsecond
    have hids : uuid i = uuid j := by
      rw [← h.new_id hnew hi, ← h.new_id hnew' hj]
      exact hsame
    rw [h.fresh.injective hids, mk_mem_zipIdx_iff_getElem?] at hi
    rw [mk_mem_zipIdx_iff_getElem?, hi, some.injEq] at hj
    exact hj
  · intro id hid other hother
    obtain ⟨connection, hmem, rfl⟩ := mem_map.mp hid
    obtain ⟨saved, hsaved, rfl⟩ := mem_map.mp hother
    obtain ⟨node, hnode, hnew, rfl⟩ := h.mem_imported.mp hmem
    obtain ⟨i, hi⟩ := SavedConnections.exists_index hnode
    rw [h.new_id hnew hi]
    exact (h.fresh.id i saved hsaved).symm

/-- The connection that stands for a node leads to that of the node in front of
it. -/
theorem follows : Follows (follow (imported ++ existing.connections))
    graph.previous h.connection (· ∈ nodes) := by
  intro node hnode
  cases hlink : graph.links.get node.key with
  | none =>
    rw [follow, h.jump node hnode, ImportGraph.previous, hlink]
    exact ⟨rfl, fun _ hnone => absurd hnone (some_ne_none _).symm⟩
  | some key =>
    obtain ⟨previous, hget, rfl⟩ := h.linked node.key key hlink
    have hmem := (h.mem previous).mpr hget
    have hfound := Keyed.find_of_mem h.ids_nodup (h.mem_all hmem)
    rw [follow, h.jump node hnode, ImportGraph.previous, hlink, bind_some,
      h.get_id hmem, bind_some, hfound, bind_some, hget]
    refine ⟨rfl, fun other hother => ?_⟩
    rw [some.injEq] at hother
    exact hother ▸ hmem

theorem follows_keys : Follows graph.links.get graph.previous ImportNode.key
    (· ∈ nodes) := by
  intro node hnode
  cases hlink : graph.links.get node.key with
  | none =>
    rw [ImportGraph.previous, hlink]
    exact ⟨rfl, fun _ hnone => absurd hnone (some_ne_none _).symm⟩
  | some key =>
    obtain ⟨previous, hget, rfl⟩ := h.linked node.key key hlink
    rw [ImportGraph.previous, hlink, bind_some, hget]
    refine ⟨rfl, fun other hother => ?_⟩
    rw [some.injEq] at hother
    exact hother ▸ (h.mem previous).mpr hget

/-- A chain of connections ends if the chain of links does. -/
theorem ends_iff_links {node : ImportNode} (hnode : node ∈ nodes) :
    Ends (follow (imported ++ existing.connections)) (h.connection node) ↔
      Ends graph.links.get node.key := by
  rw [h.follows.ends hnode, h.follows_keys.ends hnode]

/-- The connection in front of a new one is new or was there before. -/
theorem exists_target {node : ImportNode} (hnode : node ∈ nodes) {id : Str}
    (hid : (h.connection node).proxyJumpId = some id) :
    ∃ target ∈ imported ++ existing.connections, target.id = id := by
  rw [h.jump node hnode] at hid
  obtain ⟨key, hlink, hget⟩ := bind_eq_some_iff.mp hid
  obtain ⟨previous, hprevious, rfl⟩ := h.linked node.key key hlink
  have hmem := (h.mem previous).mpr hprevious
  rw [h.get_id hmem, some.injEq] at hget
  exact ⟨_, h.mem_all hmem, hget⟩

/-- A connection from before the import leads to no new one. -/
theorem saved_of_saved {node previous : ImportNode} (hnode : node ∈ nodes)
    (hsaved : existing.isNew node = false)
    (hprevious : graph.previous node = some previous) :
    existing.isNew previous = false := by
  by_contra hnew
  rw [Bool.not_eq_false] at hnew
  have hmem := (h.follows node hnode).2 previous hprevious
  obtain ⟨i, hi⟩ := SavedConnections.exists_index hmem
  obtain ⟨saved, hname⟩ : ∃ saved,
      existing.byName.get node.name = some saved := by
    rw [SavedConnections.isNew, isNone_eq_false_iff] at hsaved
    exact isSome_iff_exists.mp hsaved
  have hjump := h.jump node hnode
  obtain ⟨key, hlink, hget⟩ := bind_eq_some_iff.mp hprevious
  have hkey : previous.key = key := by
    obtain ⟨found, hfound, hkey⟩ := h.linked node.key key hlink
    rw [hget, some.injEq] at hfound
    exact hfound ▸ hkey
  rw [hlink, bind_some, ← hkey, h.get_id hmem, h.new_id hnew hi] at hjump
  change (h.connection node).proxyJumpId = _ at hjump
  rw [h.connection_of_saved hname] at hjump
  exact h.fresh.jump i saved (SavedConnections.mem_of_byName hname) hjump

end Imports

end NiceTerm.Ssh
