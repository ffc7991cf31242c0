/-
The routes after an import.  Every imported chain ends exactly if no host
without a connection before the import comes back to a host through its first
hops, and every chain visits the right hops exactly if the connections that
were there under the names of hops have the hops' values.
-/
import NiceTerm.Ssh.Imported
import NiceTerm.Ssh.Parsing

namespace NiceTerm.Ssh

open Chain List Option SavedConnections
open Fallible
open RustStr
open Snapshot (AppError)

variable {config : SshConfig} {username : Str}

namespace ImportGraph.Drawn

variable {graph : ImportGraph} {lines : List (Line config username)}

theorem key_of_mem (h : graph.Drawn lines) {entry : Str × ImportNode}
    (hmem : entry ∈ graph.nodes.entries) : entry.2.key = entry.1 :=
  (h.of_get (Table.get_eq_some_iff.mpr hmem)).1

theorem linked (h : graph.Drawn lines) {key previous : Str}
    (hlink : graph.links.get key = some previous) :
    ∃ node, graph.nodes.get previous = some node ∧ node.key = previous := by
  obtain ⟨line, hline, ⟨later, earlier⟩, hmem, -, rfl⟩ := h.get_link.mp hlink
  obtain ⟨front, back, hnodes⟩ := split_of_mem_linksFrom hmem
  rw [toList_none, nil_append] at hnodes
  exact ⟨earlier, h.get_node hline (by simp [hnodes]), rfl⟩

end ImportGraph.Drawn

variable {order : MapOrder} {uuid : Nat → Str} {existing : SavedConnections}
  {imported : List SavedConnection}

theorem imports_of_build
    (hbuild : buildImportedConnections config username order uuid existing =
      .ok imported) (hfresh : Fresh uuid existing) :
    ∃ (graph : ImportGraph) (lines : List (Line config username))
      (nodes : List ImportNode), graph.Drawn lines ∧
        Imports existing uuid graph nodes imported := by
  rw [buildImportedConnections, bind_eq_ok] at hbuild
  obtain ⟨graph, hgraph, hbuild⟩ := hbuild
  rw [bind_eq_ok] at hbuild
  obtain ⟨connections, hconnections, hbuild⟩ := hbuild
  obtain rfl := Except.ok.inj hbuild
  obtain ⟨lines, hdrawn⟩ := importGraph_drawn hgraph
  obtain ⟨himported, hjump⟩ := imported_eq hconnections
  have hkeyed : graph.nodes.KeyedBy ImportNode.key :=
    fun entry hmem => hdrawn.key_of_mem hmem
  have hperm : (orderedNodes order graph).Perm graph.nodes.values :=
    (perm_insertionSort _ _).trans (order.perm _)
  refine ⟨graph, lines, orderedNodes order graph, hdrawn, hfresh, ?_, ?_, ?_,
    himported, hjump⟩
  · intro node
    rw [hperm.mem_iff, hkeyed.mem_values]
  · refine (hperm.map _).nodup_iff.mpr ?_
    refine Nodup.map_on ?_ hkeyed.values_nodup
    exact fun first hfirst second hsecond => hkeyed.eq_of_key hfirst hsecond
  · exact fun key previous => hdrawn.linked

/-- The connection of an alias after the import. -/
def aliasConnection (existing : SavedConnections)
    (imported : List SavedConnection) (hostAlias : Str) :
    Option SavedConnection :=
  (existing.byName.get hostAlias).or
    (imported.find? fun connection => connection.name == hostAlias)

/-- Every chain from an imported connection ends, and every id on the way is
one of a connection. -/
def RoutesEnd (existing : SavedConnections) (imported : List SavedConnection) :
    Prop :=
  let connections := imported ++ existing.connections
  ∀ connection ∈ imported, Ends (follow connections) connection ∧
    ∀ hop, Reaches (follow connections) connection hop →
      ∀ id, hop.proxyJumpId = some id → ∃ target ∈ connections, target.id = id

/-- The chain of every alias visits the hops that are resolved for it, the last
hop first. -/
def RoutesRight (config : SshConfig) (username : Str)
    (existing : SavedConnections) (imported : List SavedConnection) : Prop :=
  ∀ hostAlias ∈ config.listHosts, ∀ entry,
    config.resolve username hostAlias = .ok entry → entry.proxyJump ≠ none →
    ∃ connection, aliasConnection existing imported hostAlias =
        some connection ∧
      ∃ visited, Visits (follow (imported ++ existing.connections)) connection
          visited ∧
        visited.map SavedConnection.config =
          entry.hops.dropLast.reverse.map SshConfigHop.connectionType

/-- A host that has no connection yet does not come back to a host through
first hops. -/
def NoLoop (config : SshConfig) (existing : SavedConnections) : Prop :=
  ∀ hostAlias ∈ config.listHosts, existing.byName.get hostAlias = none →
    Ends config.firstHop hostAlias

/-- A connection that has the name of a hop has the values of the hop. -/
def HopsAgree (config : SshConfig) (username : Str)
    (existing : SavedConnections) : Prop :=
  ∀ hostAlias ∈ config.listHosts, ∀ proxyJump, config.proxyJump hostAlias =
    some proxyJump → ∀ front rawSpec back,
      proxyJump.splitOn ',' = front ++ rawSpec :: back →
    ∀ spec, parseJumpSpec rawSpec = .ok spec →
    ∀ saved, existing.byName.get (hopName spec rawSpec (front.map trim)) =
        some saved →
      saved.config = (config.jumpHop username spec).connectionType

section Import

variable {graph : ImportGraph} {lines : List (Line config username)}
  {nodes : List ImportNode}

variable {node : ImportNode}

theorem isNew_iff :
    existing.isNew node = true ↔ existing.byName.get node.name = none := by
  rw [isNew, isNone_iff_eq_none]

variable {line : Line config username}

theorem Imports.mem_nodes (h : Imports existing uuid graph nodes imported)
    (hdrawn : graph.Drawn lines) (hline : line ∈ lines)
    (hnode : node ∈ line.nodes) : node ∈ nodes :=
  (h.mem node).mpr (hdrawn.get_node hline hnode)

theorem Line.target_mem (line : Line config username) :
    regularImportNode line.entry ∈ line.nodes :=
  mem_append_right _ mem_cons_self

section

variable (h : Imports existing uuid graph nodes imported)
include h

/-- All nodes in front of one with a connection have theirs. -/
theorem Imports.saved_of_visits {visited : List ImportNode}
    (hnode : node ∈ nodes) (hsaved : existing.isNew node = false)
    (hvisits : Visits graph.previous node visited) :
    ∀ hop ∈ visited, existing.isNew hop = false := by
  induction visited generalizing node with
  | nil => exact fun _ hmem => absurd hmem not_mem_nil
  | cons next rest ih =>
    obtain ⟨hstep, hrest⟩ := hvisits
    have hnext := h.saved_of_saved hnode hsaved hstep
    have hmem := (h.follows node hnode).2 next hstep
    exact forall_mem_cons.mpr ⟨hnext, ih hmem hnext hrest⟩

theorem Imports.ends_of_new (hdrawn : graph.Drawn lines)
    (hloop : NoLoop config existing) (hnode : node ∈ nodes)
    (hnew : existing.isNew node = true) : Ends graph.links.get node.key := by
  obtain ⟨-, line, hline, hmem⟩ := hdrawn.of_get ((h.mem node).mp hnode)
  have hlisted : line.entry.hostAlias ∈ config.listHosts := by
    rw [← hdrawn.listed]
    exact mem_map_of_mem hline
  have htarget : existing.isNew (regularImportNode line.entry) = true →
      Ends graph.links.get (regularImportNode line.entry).key := by
    intro htarget
    exact hdrawn.ends_firstHop.mp (hloop _ hlisted (isNew_iff.mp htarget))
  rcases mem_append.mp hmem with hhop | heq
  · have hvisits := hdrawn.visits hline
    have hleads := leads_of_visits (hdrawn.visits_keys hvisits)
      (mem_map_of_mem (mem_reverse.mpr hhop))
    rw [← ends_of_reaches hleads.to_reflTransGen]
    apply htarget
    by_contra hsaved
    have hall := h.saved_of_visits (h.mem_nodes hdrawn hline line.target_mem)
      (Bool.eq_false_iff.mpr hsaved) hvisits node (mem_reverse.mpr hhop)
    rw [hnew] at hall
    contradiction
  · rw [mem_singleton.mp heq] at hnew ⊢
    exact htarget hnew

theorem Imports.routesEnd_iff (hdrawn : graph.Drawn lines) :
    RoutesEnd existing imported ↔ NoLoop config existing := by
  constructor
  · intro hends hostAlias hlisted hname
    obtain ⟨line, hline, rfl⟩ := hdrawn.exists_line hlisted
    have hnode := h.mem_nodes hdrawn hline line.target_mem
    have himported := h.mem_imported.mpr
      ⟨_, hnode, isNew_iff.mpr hname, rfl⟩
    have hchain := (hends _ himported).1
    rw [h.ends_iff_links hnode] at hchain
    exact hdrawn.ends_firstHop.mpr hchain
  · intro hloop connection hmem
    obtain ⟨node, hnode, hnew, rfl⟩ := h.mem_imported.mp hmem
    refine ⟨?_, fun hop hreaches id hid => ?_⟩
    · rw [h.ends_iff_links hnode]
      exact h.ends_of_new hdrawn hloop hnode hnew
    · obtain ⟨last, hlast, rfl⟩ := h.follows.reaches hnode hreaches
      exact h.exists_target hlast hid

end

theorem jumpName_space (hostAlias rawSpec before : Str) :
    ' ' ∈ jumpName hostAlias rawSpec before := by
  rw [jumpName]
  split
  · simp only [mem_append]
    exact .inl (.inl (.inr (by decide)))
  · split
    · simp only [mem_append]
      exact .inl (.inl (.inr (by decide)))
    · simp only [mem_append]
      exact .inl (.inl (.inl (.inl (.inr (by decide)))))

/-- Only hosts have words for names. -/
theorem Line.key_of_word (line : Line config username)
    (hmem : node ∈ line.nodes) (hword : Word node.name) :
    node.key = aliasKey node.name := by
  rcases mem_append.mp hmem with hhop | htarget
  · obtain ⟨front, raw, back, -, hjump⟩ := line.route.exists_spec hhop
    obtain ⟨spec, entry, -, hentry, hnode⟩ := jumpImportNode_ok hjump
    rcases hnode with ⟨-, -, rfl⟩ | ⟨-, rfl⟩
    · rfl
    · have hspace := hword ' ' (jumpName_space _ _ _)
      exact absurd hspace (by decide)
  · rw [mem_singleton.mp htarget]
    rfl

section

variable (h : Imports existing uuid graph nodes imported)
include h

theorem Imports.aliasConnection_eq (hdrawn : graph.Drawn lines)
    (hwords : config.Words) (hline : line ∈ lines) :
    aliasConnection existing imported line.entry.hostAlias =
      some (h.connection (regularImportNode line.entry)) := by
  have htarget := h.mem_nodes hdrawn hline line.target_mem
  have hlisted : line.entry.hostAlias ∈ config.listHosts := by
    rw [← hdrawn.listed]
    exact mem_map_of_mem hline
  rw [aliasConnection]
  cases hname : existing.byName.get line.entry.hostAlias with
  | some saved =>
    rw [h.connection_of_saved hname]
    rfl
  | none =>
    have hnew := isNew_iff.mpr (show existing.byName.get
      (regularImportNode line.entry).name = none from hname)
    rw [none_or]
    have hnames : ∀ node, existing.isNew node = true →
        (h.connection node).name = node.name := by
      intro node hnew
      rw [Imports.connection, connectionOf, isNew_iff.mp hnew]
      rfl
    cases hfound : imported.find? fun connection =>
        connection.name == line.entry.hostAlias with
    | none =>
      have hnone := find?_eq_none.mp hfound _
        (h.mem_imported.mpr ⟨_, htarget, hnew, rfl⟩)
      rw [hnames _ hnew] at hnone
      exact absurd (beq_self_eq_true line.entry.hostAlias) hnone
    | some found =>
      obtain ⟨node, hnode, hnew', rfl⟩ :=
        h.mem_imported.mp (mem_of_find?_eq_some hfound)
      have hsame : node.name = line.entry.hostAlias := by
        have hequal := find?_some hfound
        rw [← hnames node hnew']
        exact eq_of_beq hequal
      obtain ⟨-, other, -, hmem⟩ := hdrawn.of_get ((h.mem node).mp hnode)
      have hkey := other.key_of_word hmem (hsame ▸ hwords.listHosts hlisted)
      have hget := (h.mem node).mp hnode
      have hget' := (h.mem _).mp htarget
      rw [hkey, hsame] at hget
      rw [show (regularImportNode line.entry).key = aliasKey
        line.entry.hostAlias from rfl, hget, some.injEq] at hget'
      rw [hget']

/-- The chain of a host, and what its hops are. -/
theorem Imports.visits (hdrawn : graph.Drawn lines) (hline : line ∈ lines) :
    Visits (follow (imported ++ existing.connections))
      (h.connection (regularImportNode line.entry))
      (line.hops.reverse.map h.connection) :=
  h.follows.visits (h.mem_nodes hdrawn hline line.target_mem)
    (hdrawn.visits hline)

theorem Imports.config_of_new (hnew : existing.isNew node = true) :
    (h.connection node).config = node.toHop.connectionType := by
  rw [Imports.connection, connectionOf, isNew_iff.mp hnew]
  rfl

end

theorem Line.hops_agree_iff (line : Line config username)
    (f : ImportNode → SavedConnection) :
    (line.hops.reverse.map f).map SavedConnection.config =
        line.entry.hops.dropLast.reverse.map SshConfigHop.connectionType ↔
      ∀ node ∈ line.hops, (f node).config = node.toHop.connectionType := by
  rw [line.hops_eq, ← map_reverse, List.map_map, List.map_map, map_inj_left]
  simp only [mem_reverse, Function.comp_apply]

theorem Imports.routesRight_iff (h : Imports existing uuid graph nodes imported)
    (hdrawn : graph.Drawn lines) (hwords : config.Words) :
    RoutesRight config username existing imported ↔
      HopsAgree config username existing := by
  constructor
  · intro hright hostAlias hlisted proxyJump hproxy front rawSpec back hsplit
      spec hspec saved hsaved
    obtain ⟨line, hline, rfl⟩ := hdrawn.exists_line hlisted
    have hentryProxy := proxyJump_of_resolve line.resolved
    obtain ⟨connection, hconnection, visited, hvisited, hconfig⟩ :=
      hright _ hlisted line.entry line.resolved (by
        rw [hentryProxy, hproxy]
        exact some_ne_none _)
    rw [h.aliasConnection_eq hdrawn hwords hline, some.injEq] at hconnection
    rw [← hconnection] at hvisited
    have hlength := congrArg List.length hconfig
    simp only [length_map, length_reverse, line.hops_eq] at hlength
    have hsame := visits_unique hvisited (h.visits hdrawn hline)
      (by simpa using hlength)
    rw [hsame, line.hops_agree_iff] at hconfig
    have hspecs : line.entry.proxySpecs.map trim =
        front.map trim ++ trim rawSpec :: back.map trim := by
      rw [SshConfigEntry.proxySpecs, hentryProxy, hproxy]
      rw [elim_some, hsplit, map_append, map_cons]
    obtain ⟨node, hnode, hjump⟩ := line.route.exists_node hspecs
    rw [jumpImportNode_trim] at hjump
    obtain ⟨hname, hhop⟩ := toHop_of_jumpImportNode hspec hjump
    rw [← hhop, ← hconfig node hnode]
    rw [← hname] at hsaved
    rw [h.connection_of_saved hsaved]
  · intro hagree hostAlias hlisted entry hentry hproxy
    obtain ⟨line, hline, rfl⟩ := hdrawn.exists_line hlisted
    rw [line.resolved] at hentry
    cases hentry
    refine ⟨_, h.aliasConnection_eq hdrawn hwords hline, _,
      h.visits hdrawn hline, ?_⟩
    rw [line.hops_agree_iff]
    intro node hnode
    obtain ⟨proxyJump, hvalue⟩ := ne_none_iff_exists'.mp hproxy
    have hentryProxy := proxyJump_of_resolve line.resolved
    rw [hvalue] at hentryProxy
    cases hsaved : existing.byName.get node.name with
    | none => exact h.config_of_new (isNew_iff.mpr hsaved)
    | some saved =>
      obtain ⟨front, raw, back, hspecs, hjump⟩ :=
        line.route.exists_spec hnode
      rw [SshConfigEntry.proxySpecs, hvalue, elim_some,
        map_eq_append_iff] at hspecs
      obtain ⟨first, rest, hsplit, rfl, hrest⟩ := hspecs
      obtain ⟨rawSpec, others, rfl, rfl, rfl⟩ := map_eq_cons_iff.mp hrest
      rw [jumpImportNode_trim] at hjump
      obtain ⟨spec, -, hspec, -⟩ := jumpImportNode_ok hjump
      obtain ⟨hname, hhop⟩ := toHop_of_jumpImportNode hspec hjump
      rw [hname] at hsaved
      have hvalues := hagree _ hlisted proxyJump hentryProxy.symm first rawSpec
        others hsplit spec hspec saved hsaved
      rw [← hname] at hsaved
      rw [h.connection_of_saved hsaved, hvalues, hhop]

end Import

/-- The routes of an import are finite and right exactly if no host without a
connection comes back to a host through first hops, and connections with the
names of hops have the values of the hops. -/
theorem routes_finite_and_right_iff {order : MapOrder} {uuid : Nat → Str}
    {existing : SavedConnections} {imported : List SavedConnection}
    (hwords : config.Words) (hfresh : Fresh uuid existing)
    (hbuild : buildImportedConnections config username order uuid existing =
      .ok imported) :
    RoutesEnd existing imported ∧
        RoutesRight config username existing imported ↔
      NoLoop config existing ∧ HopsAgree config username existing := by
  obtain ⟨graph, lines, nodes, hdrawn, himports⟩ :=
    imports_of_build hbuild hfresh
  rw [himports.routesEnd_iff hdrawn, himports.routesRight_iff hdrawn hwords]

section Samples

def sampleOrder : MapOrder where
  run := id
  perm := Perm.refl

def sampleIds (n : Nat) : Str := replicate n 'x'

def noConnections : SavedConnections where
  connections := []
  nodup := nodup_nil

theorem sampleIds_fresh : Fresh sampleIds noConnections where
  injective m n h := by simpa [sampleIds] using congrArg List.length h
  id _ _ hmem := absurd hmem not_mem_nil
  jump _ _ hmem := absurd hmem not_mem_nil

def sampleConfig : SshConfig where
  hosts :=
    [{ patterns := ["jump".toList], name := "jump".toList },
     { patterns := ["target".toList], name := "target".toList,
       proxyJump := some "jump, me@gate:2222".toList }]

def importedDescription : Str := "Imported from ~/.ssh/config".toList

def sampleConnections : List SavedConnection :=
  [{ id := ['x']
     name := "jump".toList
     config := .ssh "jump".toList 22 "me".toList
     description := some importedDescription },
   { id := ['x', 'x']
     name := "target".toList
     config := .ssh "target".toList 22 "me".toList
     description := some (importedDescription ++
       " (ProxyJump: jump, me@gate:2222)".toList)
     network := some { proxyJumpId := some [] } }]

def gateConnection : SavedConnection where
  id := []
  name := "gate (ProxyJump via: jump; spec: me@gate:2222)".toList
  config := .ssh "gate".toList 2222 "me".toList
  description := some importedDescription
  network := some { proxyJumpId := some ['x'] }

theorem sample_build :
    buildImportedConnections sampleConfig "me".toList sampleOrder sampleIds
      noConnections = .ok (gateConnection :: sampleConnections) := by
  decide +kernel

theorem sample_words : sampleConfig.Words :=
  SshConfig.words_of_all (by decide +kernel)

theorem sample_noLoop : NoLoop sampleConfig noConnections := by
  have hjump : Ends sampleConfig.firstHop "jump".toList :=
    Ends.stop (by decide +kernel)
  have hlisted : sampleConfig.listHosts =
      ["jump".toList, "target".toList] := by decide +kernel
  rw [NoLoop, hlisted, forall_mem_cons, forall_mem_singleton]
  exact ⟨fun _ => hjump, fun _ => Ends.step (by decide +kernel) hjump⟩

theorem sample_hopsAgree : HopsAgree sampleConfig "me".toList noConnections := by
  intro hostAlias _ proxyJump _ front rawSpec back _ spec _ saved hsaved
  exact absurd (mem_of_byName hsaved) not_mem_nil

theorem sample_routes :
    RoutesEnd noConnections (gateConnection :: sampleConnections) ∧
      RoutesRight sampleConfig "me".toList noConnections
        (gateConnection :: sampleConnections) :=
  (routes_finite_and_right_iff sample_words sampleIds_fresh sample_build).mpr
    ⟨sample_noLoop, sample_hopsAgree⟩

/-- `Host *` sends every host over `jump`, which is itself one of them. -/
def loopConfig : SshConfig where
  hosts :=
    [{ patterns := ["*".toList], name := "*".toList,
       proxyJump := some "jump".toList },
     { patterns := ["jump".toList], name := "jump".toList,
       hostName := some "10.0.0.1".toList }]

def loopConnection : SavedConnection where
  id := []
  name := "jump".toList
  config := .ssh "10.0.0.1".toList 22 "me".toList
  description := some (importedDescription ++ " (ProxyJump: jump)".toList)
  network := some { proxyJumpId := some [] }

theorem jump_through_itself :
    buildImportedConnections loopConfig "me".toList sampleOrder sampleIds
        noConnections = .ok [loopConnection] ∧
      ¬ (RoutesEnd noConnections [loopConnection] ∧
        RoutesRight loopConfig "me".toList noConnections [loopConnection]) := by
  refine ⟨by decide +kernel, fun h => ?_⟩
  have hends := (h.1 loopConnection mem_cons_self).1
  have hself : follow ([loopConnection] ++ noConnections.connections)
      loopConnection = some loopConnection := by decide +kernel
  exact not_ends_of_leads (Relation.TransGen.single hself) hends

end Samples

end NiceTerm.Ssh
