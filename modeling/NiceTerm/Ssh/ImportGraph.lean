/-
The graph that is built from the configuration.  It has the nodes of the lines
of hops and hosts, each under its own key, and their links and no others.
-/
import NiceTerm.Lib.Chain
import NiceTerm.Ssh.JumpRoutes

namespace NiceTerm.Ssh

open Fallible List
open RustStr
open Snapshot (AppError)

namespace ImportGraph

/-- Each node with the one in front of it. -/
def linksFrom : Option ImportNode → List ImportNode →
    List (ImportNode × ImportNode)
  | _, [] => []
  | none, node :: rest => linksFrom (some node) rest
  | some previous, node :: rest =>
    (node, previous) :: linksFrom (some node) rest

theorem linksFrom_concat (previous : Option ImportNode)
    (nodes : List ImportNode) (node : ImportNode) :
    linksFrom previous (nodes ++ [node]) = linksFrom previous nodes ++
        (((nodes.getLast?).or previous).map fun last => (node, last)).toList := by
  induction nodes generalizing previous with
  | nil => cases previous <;> rfl
  | cons first rest ih =>
    have hlast : ((first :: rest).getLast?).or previous =
        (rest.getLast?).or (some first) := by
      cases rest with
      | nil => rfl
      | cons second rest =>
        rw [getLast?_cons_cons, getLast?_eq_some_getLast
          (cons_ne_nil second rest), Option.some_or, Option.some_or]
    rw [hlast]
    cases previous with
    | none => exact ih (some first)
    | some previous => exact congrArg (cons _) (ih (some first))

theorem mem_linksFrom {front back : List ImportNode}
    {later earlier : ImportNode} (previous : Option ImportNode) :
    (later, earlier) ∈
      linksFrom previous (front ++ earlier :: later :: back) := by
  induction front generalizing previous with
  | nil => cases previous <;> simp [linksFrom]
  | cons first rest ih =>
    cases previous with
    | none => exact ih (some first)
    | some previous => exact mem_cons_of_mem _ (ih (some first))

theorem split_of_mem_linksFrom {previous : Option ImportNode}
    {nodes : List ImportNode} {later earlier : ImportNode}
    (h : (later, earlier) ∈ linksFrom previous nodes) :
    ∃ front back,
      previous.toList ++ nodes = front ++ earlier :: later :: back := by
  induction nodes generalizing previous with
  | nil => cases previous <;> exact absurd h not_mem_nil
  | cons node rest ih =>
    cases previous with
    | none => exact ih h
    | some previous =>
      rcases mem_cons.mp h with heq | hlater
      · cases heq
        exact ⟨[], rest, rfl⟩
      · obtain ⟨front, back, hnodes⟩ := ih hlater
        exact ⟨previous :: front, back, congrArg (cons previous) hnodes⟩

/-- Some nodes and links have come to a graph. -/
structure Adds (graph graph' : ImportGraph) (nodes : List ImportNode)
    (links : List (ImportNode × ImportNode)) : Prop where
  of_get : ∀ key node, graph'.nodes.get key = some node →
    graph.nodes.get key = some node ∨ node ∈ nodes ∧ node.key = key
  kept : ∀ key node, graph.nodes.get key = some node →
    graph'.nodes.get key = some node
  get : ∀ node ∈ nodes, ∃ node', graph'.nodes.get node.key = some node'
  link : ∀ key previous, graph'.links.get key = some previous ↔
    graph.links.get key = some previous ∨
      ∃ link ∈ links, link.1.key = key ∧ link.2.key = previous

variable {graph graph' graph'' : ImportGraph}

theorem Adds.refl (graph : ImportGraph) : Adds graph graph [] [] where
  of_get _ _ h := .inl h
  kept _ _ h := h
  get _ h := absurd h not_mem_nil
  link _ _ := by simp

theorem Adds.trans {nodes nodes' : List ImportNode}
    {links links' : List (ImportNode × ImportNode)}
    (h : Adds graph graph' nodes links)
    (h' : Adds graph' graph'' nodes' links') :
    Adds graph graph'' (nodes ++ nodes') (links ++ links') where
  of_get key node hget := by
    rcases h'.of_get key node hget with hold | ⟨hmem, hkey⟩
    · rcases h.of_get key node hold with holder | ⟨hmem, hkey⟩
      · exact .inl holder
      · exact .inr ⟨mem_append_left _ hmem, hkey⟩
    · exact .inr ⟨mem_append_right _ hmem, hkey⟩
  kept key node hget := h'.kept key node (h.kept key node hget)
  get node hmem := by
    rcases mem_append.mp hmem with hleft | hright
    · obtain ⟨node', hget⟩ := h.get node hleft
      exact ⟨node', h'.kept _ _ hget⟩
    · exact h'.get node hright
  link key previous := by
    rw [h'.link, h.link, or_assoc]
    simp only [mem_append, or_and_right, exists_or]

theorem adds_node (graph : ImportGraph) (node : ImportNode) :
    Adds graph (graph.addNode node) [node] [] := by
  rw [addNode]
  cases hget : graph.nodes.get node.key with
  | some old =>
    exact { Adds.refl graph with
      of_get := fun _ _ h => .inl h
      get := fun other hmem =>
        ⟨old, by rw [mem_singleton.mp hmem, hget]⟩ }
  | none =>
    refine ⟨fun key other h => ?_, fun key other h => ?_, fun other h => ?_,
      fun key previous => by simp⟩
    · rw [Table.get_insert] at h
      split at h
      · rename_i hkey
        rw [Option.some.injEq] at h
        exact .inr ⟨h ▸ mem_singleton_self _, h ▸ hkey.symm⟩
      · exact .inl h
    · have hne : key ≠ node.key := by
        rintro rfl
        rw [hget] at h
        contradiction
      rw [Table.get_insert, if_neg hne, h]
    · rw [mem_singleton.mp h]
      exact ⟨node, by rw [Table.get_insert, if_pos rfl]⟩

theorem setImportLink_ok {links links' : Table Str Str} {node previous : Str}
    (h : setImportLink links node previous = .ok links') (key value : Str) :
    links'.get key = some value ↔
      links.get key = some value ∨ node = key ∧ previous = value := by
  have hlinks : links' = links.insert node previous ∧
      (links.get node = none ∨ links.get node = some previous) := by
    rw [setImportLink] at h
    cases hget : links.get node with
    | none =>
      simp only [hget] at h
      cases h
      exact ⟨rfl, .inl rfl⟩
    | some existing =>
      simp only [hget] at h
      split at h
      · contradiction
      · rename_i hsame
        cases h
        rw [ne_eq, not_not] at hsame
        exact ⟨rfl, .inr (congrArg some hsame)⟩
  obtain ⟨rfl, hbefore⟩ := hlinks
  rw [Table.get_insert]
  by_cases hkey : key = node
  · subst hkey
    rw [if_pos rfl, Option.some.injEq]
    rcases hbefore with hnone | hsome
    · simp [hnone]
    · simp [hsome]
  · rw [if_neg hkey]
    have hne : ¬ (node = key ∧ previous = value) := fun hand =>
      hkey hand.1.symm
    rw [or_iff_left hne]

theorem adds_link {node previous : ImportNode}
    (h : graph.link node previous = .ok graph') :
    Adds graph graph' [] [(node, previous)] := by
  rw [ImportGraph.link, bind_eq_ok] at h
  obtain ⟨links, hlinks, h⟩ := h
  cases h
  exact ⟨fun _ _ hget => .inl hget, fun _ _ hget => hget,
    fun _ hmem => absurd hmem not_mem_nil,
    fun key value => by simpa using setImportLink_ok hlinks key value⟩

variable {config : SshConfig} {username : Str}

theorem adds_jumps {specs prior : List Str} {before : List ImportNode}
    {last : Option ImportNode} (hroute : Route config username prior before)
    (h : graph.addJumps config username before.getLast? prior specs =
      .ok (graph', last))
    (hcomma : ∀ raw ∈ specs, ',' ∉ raw) :
    ∃ nodes, Route config username (prior ++ specs.map trim) (before ++ nodes) ∧
      last = (before ++ nodes).getLast? ∧
      Adds graph graph' nodes (linksFrom before.getLast? nodes) := by
  induction specs generalizing graph prior before with
  | nil =>
    cases h
    refine ⟨[], ?_, ?_, Adds.refl _⟩
    · rwa [map_nil, append_nil, append_nil]
    · rw [append_nil]
  | cons raw rest ih =>
    rw [addJumps, bind_eq_ok] at h
    obtain ⟨jump, hjump, h⟩ := h
    obtain ⟨middle, hlink, h⟩ : ∃ middle, Adds graph middle [jump]
            ((before.getLast?.map fun last => (jump, last)).toList) ∧
          middle.addJumps config username (some jump) (prior ++ [trim raw])
            rest = .ok (graph', last) := by
      cases hbefore : before.getLast? with
      | none =>
        simp only [hbefore] at h
        exact ⟨_, adds_node graph jump, h⟩
      | some previous =>
        simp only [hbefore] at h
        rw [bind_eq_ok] at h
        obtain ⟨middle, hlink, h⟩ := h
        exact ⟨middle, (adds_node graph jump).trans (adds_link hlink), h⟩
    have hnext := hroute.hop hjump (hcomma raw mem_cons_self)
    rw [← getLast?_concat (l := before)] at h
    obtain ⟨nodes, hnodes, hlast, hadds⟩ :=
      ih hnext h fun other hmem => hcomma other (mem_cons_of_mem _ hmem)
    rw [append_assoc, append_assoc] at hnodes
    rw [append_assoc] at hlast
    refine ⟨jump :: nodes, hnodes, hlast, ?_⟩
    have hall := hlink.trans hadds
    rw [getLast?_concat] at hall
    cases hbefore : before.getLast? with
    | none => simpa [hbefore, linksFrom] using hall
    | some previous => simpa [hbefore, linksFrom] using hall

end ImportGraph

/-- What stands behind `ProxyJump`, piece by piece. -/
def SshConfigEntry.proxySpecs (entry : SshConfigEntry) : List Str :=
  entry.proxyJump.elim [] fun proxyJump => proxyJump.splitOn ','

/-- A listed host and the hops in front of it, the first hop first. -/
structure Line (config : SshConfig) (username : Str) where
  entry : SshConfigEntry
  hops : List ImportNode
  resolved : config.resolve username entry.hostAlias = .ok entry
  route : Route config username (entry.proxySpecs.map trim) hops

variable {config : SshConfig} {username : Str}

def Line.nodes (line : Line config username) : List ImportNode :=
  line.hops ++ [regularImportNode line.entry]

def Line.links (line : Line config username) : List (ImportNode × ImportNode) :=
  ImportGraph.linksFrom none line.nodes

namespace ImportGraph

variable {graph graph' : ImportGraph}

theorem Adds.congr {nodes nodes' : List ImportNode}
    {links links' : List (ImportNode × ImportNode)}
    (h : Adds graph graph' nodes links)
    (hnodes : ∀ node, node ∈ nodes ↔ node ∈ nodes')
    (hlinks : ∀ link, link ∈ links ↔ link ∈ links') :
    Adds graph graph' nodes' links' where
  of_get key node hget := by simpa only [hnodes] using h.of_get key node hget
  kept := h.kept
  get node hmem := h.get node ((hnodes node).mpr hmem)
  link key previous := by simpa only [hlinks] using h.link key previous

theorem adds_entry {entry : SshConfigEntry}
    (h : graph.addEntry config username entry = .ok graph')
    (hresolved : config.resolve username entry.hostAlias = .ok entry) :
    ∃ line : Line config username, line.entry = entry ∧
      Adds graph graph' line.nodes line.links := by
  have htarget := adds_node graph (regularImportNode entry)
  rw [addEntry] at h
  cases hproxy : entry.proxyJump with
  | none =>
    simp only [hproxy] at h
    cases h
    have hspecs : entry.proxySpecs = [] := by
      rw [SshConfigEntry.proxySpecs, hproxy]
      rfl
    exact ⟨⟨entry, [], hresolved, hspecs ▸ Route.start⟩, rfl, htarget⟩
  | some proxyJump =>
    simp only [hproxy] at h
    rw [bind_eq_ok] at h
    obtain ⟨⟨middle, last⟩, hjumps, h⟩ := h
    have hspecs : entry.proxySpecs = proxyJump.splitOn ',' := by
      rw [SshConfigEntry.proxySpecs, hproxy]
      rfl
    obtain ⟨hops, hroute, hlast, hadds⟩ := adds_jumps Route.start hjumps
      fun raw hmem => not_mem_of_mem_splitOn hmem
    rw [nil_append, nil_append] at hroute
    rw [nil_append] at hlast
    refine ⟨⟨entry, hops, hresolved, hspecs ▸ hroute⟩, rfl, ?_⟩
    have hlink : Adds middle graph' []
        (last.map fun last => (regularImportNode entry, last)).toList := by
      cases last with
      | none =>
        simp only at h
        cases h
        exact Adds.refl _
      | some last =>
        simp only at h
        exact adds_link h
    have hall := (htarget.trans hadds).trans hlink
    apply hall.congr
    · intro node
      simp [Line.nodes, or_comm]
    · intro link
      rw [Line.links, Line.nodes, linksFrom_concat, Option.or_none, ← hlast]
      rfl

theorem adds_entries {entries : List SshConfigEntry}
    (h : entries.foldlM (addEntry config username) graph = .ok graph')
    (hresolved : ∀ entry ∈ entries,
      config.resolve username entry.hostAlias = .ok entry) :
    ∃ lines : List (Line config username), lines.map Line.entry = entries ∧
      Adds graph graph' (lines.flatMap Line.nodes)
        (lines.flatMap Line.links) := by
  induction entries generalizing graph with
  | nil =>
    cases h
    exact ⟨[], rfl, Adds.refl _⟩
  | cons entry rest ih =>
    rw [foldlM_cons, bind_eq_ok] at h
    obtain ⟨middle, hfirst, hrest⟩ := h
    rw [forall_mem_cons] at hresolved
    obtain ⟨line, hline, hadds⟩ := adds_entry hfirst hresolved.1
    obtain ⟨lines, hlines, hadds'⟩ := ih hrest hresolved.2
    refine ⟨line :: lines, ?_, hadds.trans hadds'⟩
    rw [map_cons, hline, hlines]

end ImportGraph

/-- A node of a line, with its place in it. -/
inductive Placed (config : SshConfig) (username : Str)
    (links : Table Str Str) : ImportNode → Prop
  | hop {prior : List Str} {before : List ImportNode} {raw : Str}
      {node : ImportNode} (route : Route config username prior before)
      (hcomma : ',' ∉ raw)
      (hjump : jumpImportNode config username raw prior = .ok node)
      (hlast : ∀ last, before.getLast? = some last →
        links.get node.key = some last.key) :
      Placed config username links node
  | target {hostAlias : Str} {entry : SshConfigEntry}
      (hentry : config.resolve username hostAlias = .ok entry) :
      Placed config username links (regularImportNode entry)

/-- A hop that nothing leads to is the host itself. -/
theorem hop_eq_target {prior : List Str} {raw hostAlias : Str}
    {node : ImportNode} {entry : SshConfigEntry}
    (hjump : jumpImportNode config username raw prior = .ok node)
    (hentry : config.resolve username hostAlias = .ok entry)
    (hkey : node.key = (regularImportNode entry).key) :
    node = regularImportNode entry := by
  obtain ⟨spec, entry', -, hentry', hnode⟩ := jumpImportNode_ok hjump
  rcases hnode with ⟨-, -, rfl⟩ | ⟨-, rfl⟩
  · rw [entry_of_regular_key hentry' hentry hkey]
  · exact absurd hkey.symm (regular_key_ne_jumpKey _ _ _)

theorem Placed.eq_of_key {links : Table Str Str} {node node' : ImportNode}
    (h : Placed config username links node)
    (h' : Placed config username links node') (hkey : node.key = node'.key) :
    node = node' := by
  cases h with
  | hop route hcomma hjump hlast =>
    cases h' with
    | hop route' hcomma' hjump' hlast' =>
      refine node_of_key route hcomma hjump route' hcomma' hjump' hkey ?_
      intro last last' hend hend'
      have hlink := hlast last hend
      rw [hkey, hlast' last' hend', Option.some.injEq] at hlink
      exact hlink.symm
    | target hentry => exact hop_eq_target hjump hentry hkey
  | target hentry =>
    cases h' with
    | hop route' hcomma' hjump' hlast' =>
      exact (hop_eq_target hjump' hentry hkey.symm).symm
    | target hentry' => rw [entry_of_regular_key hentry hentry' hkey]

/-- The node in front of a node. -/
def ImportGraph.previous (graph : ImportGraph) (node : ImportNode) :
    Option ImportNode :=
  (graph.links.get node.key).bind graph.nodes.get

/-- A graph that is drawn from lines. -/
structure ImportGraph.Drawn (graph : ImportGraph)
    (lines : List (Line config username)) : Prop where
  listed : lines.map (fun line => line.entry.hostAlias) = config.listHosts
  adds : ImportGraph.Adds {} graph (lines.flatMap Line.nodes)
    (lines.flatMap Line.links)

theorem toEntries_ok {names : List Str} {entries : List SshConfigEntry}
    (h : Forall₂ (fun name entry =>
      config.resolve username name = .ok entry) names entries) :
    entries.map SshConfigEntry.hostAlias = names ∧ ∀ entry ∈ entries,
      config.resolve username entry.hostAlias = .ok entry := by
  induction h with
  | nil => exact ⟨rfl, fun _ hmem => absurd hmem not_mem_nil⟩
  | cons hfirst _ ih =>
    have hname := hostAlias_of_resolve hfirst
    refine ⟨by rw [map_cons, ih.1, hname], ?_⟩
    rw [forall_mem_cons, hname]
    exact ⟨hfirst, ih.2⟩

theorem importGraph_drawn {graph : ImportGraph}
    (h : config.importGraph username = .ok graph) :
    ∃ lines : List (Line config username), graph.Drawn lines := by
  rw [SshConfig.importGraph, bind_eq_ok] at h
  obtain ⟨entries, hentries, h⟩ := h
  obtain ⟨hnames, hresolved⟩ := toEntries_ok (mapM_eq_ok hentries)
  obtain ⟨lines, hlines, hadds⟩ := ImportGraph.adds_entries h hresolved
  refine ⟨lines, ?_, hadds⟩
  rw [← hnames, ← hlines, map_map]
  rfl

namespace ImportGraph.Drawn

variable {graph : ImportGraph} {lines : List (Line config username)}

theorem get_link (h : graph.Drawn lines) {key previous : Str} :
    graph.links.get key = some previous ↔ ∃ line ∈ lines,
      ∃ link ∈ line.links, link.1.key = key ∧ link.2.key = previous := by
  rw [h.adds.link, or_iff_right (by simp [Table.get, Table.empty])]
  simp only [mem_flatMap]
  constructor
  · rintro ⟨link, ⟨line, hline, hlink⟩, hkeys⟩
    exact ⟨line, hline, link, hlink, hkeys⟩
  · rintro ⟨line, hline, link, hlink, hkeys⟩
    exact ⟨link, ⟨line, hline, hlink⟩, hkeys⟩

variable {line : Line config username}

theorem neighbours (h : graph.Drawn lines) (hline : line ∈ lines)
    {front back : List ImportNode} {earlier later : ImportNode}
    (hnodes : line.nodes = front ++ earlier :: later :: back) :
    graph.links.get later.key = some earlier.key := by
  refine h.get_link.mpr ⟨line, hline, (later, earlier), ?_, rfl, rfl⟩
  rw [Line.links, hnodes]
  exact mem_linksFrom none

variable {node : ImportNode}

section

variable (h : graph.Drawn lines)
include h

theorem placed (hline : line ∈ lines)
    (hnode : node ∈ line.nodes) : Placed config username graph.links node := by
  rcases mem_append.mp hnode with hhop | htarget
  · obtain ⟨front, back, hhops⟩ := append_of_mem hhop
    obtain ⟨prior, raw, hroute, hcomma, hjump⟩ := line.route.upTo hhops
    refine Placed.hop hroute hcomma hjump fun last hlast => ?_
    obtain ⟨rest, rfl⟩ := getLast?_eq_some_iff.mp hlast
    have hnodes : line.nodes =
        rest ++ last :: node :: (back ++ [regularImportNode line.entry]) := by
      rw [Line.nodes, hhops, append_assoc, append_assoc]
      rfl
    exact h.neighbours hline hnodes
  · rw [mem_singleton.mp htarget]
    exact Placed.target line.resolved

theorem of_get {key : Str} (hget : graph.nodes.get key = some node) :
    node.key = key ∧ ∃ line ∈ lines, node ∈ line.nodes := by
  rcases h.adds.of_get key node hget with hempty | ⟨hmem, hkey⟩
  · simp [Table.get, Table.empty] at hempty
  · exact ⟨hkey, mem_flatMap.mp hmem⟩

theorem get_node (hline : line ∈ lines)
    (hnode : node ∈ line.nodes) : graph.nodes.get node.key = some node := by
  obtain ⟨node', hget⟩ :=
    h.adds.get node (mem_flatMap.mpr ⟨line, hline, hnode⟩)
  obtain ⟨hkey, line', hline', hnode'⟩ := h.of_get hget
  rw [hget, (h.placed hline' hnode').eq_of_key (h.placed hline hnode) hkey]

theorem link_of_previous {previous : ImportNode}
    (hprevious : graph.previous node = some previous) :
    graph.links.get node.key = some previous.key := by
  obtain ⟨key, hlink, hget⟩ := Option.bind_eq_some_iff.mp hprevious
  rw [hlink, (h.of_get hget).1]

/-- From a host the links lead through the hops, the last hop first. -/
theorem visits (hline : line ∈ lines) :
    Chain.Visits graph.previous (regularImportNode line.entry)
      line.hops.reverse := by
  have hall : ∀ hops rest node, line.nodes = hops ++ node :: rest →
      Chain.Visits graph.previous node hops.reverse := by
    intro hops
    induction hops using reverseRecOn with
    | nil => exact fun _ _ _ => trivial
    | append_singleton hops hop ih =>
      intro rest node hnodes
      rw [append_assoc] at hnodes
      rw [reverse_append]
      refine ⟨?_, ih _ _ hnodes⟩
      rw [ImportGraph.previous, h.neighbours hline hnodes, Option.bind_some]
      exact h.get_node hline (by simp [hnodes])
  exact hall line.hops [] _ rfl

theorem visits_keys {nodes : List ImportNode}
    (hvisits : Chain.Visits graph.previous node nodes) :
    Chain.Visits graph.links.get node.key (nodes.map ImportNode.key) := by
  induction nodes generalizing node with
  | nil => trivial
  | cons next rest ih =>
    exact ⟨h.link_of_previous hvisits.1, ih hvisits.2⟩

/-- A link begins at a host with hops or at a hop that others are in front
of. -/
theorem link_cases {key previous : Str}
    (hlink : graph.links.get key = some previous) :
    (∃ line ∈ lines, key = (regularImportNode line.entry).key ∧
        line.hops ≠ []) ∨
      ∃ prior before raw, Route config username prior before ∧ prior ≠ [] ∧
        key = jumpKey raw (routePrefix prior) := by
  obtain ⟨line, hline, ⟨later, earlier⟩, hmem, rfl, rfl⟩ := h.get_link.mp hlink
  obtain ⟨front, back, hnodes⟩ := split_of_mem_linksFrom hmem
  rw [Option.toList_none, nil_append, append_cons front] at hnodes
  rcases eq_nil_or_concat back with rfl | ⟨rest, last, rfl⟩
  · obtain ⟨hhops, htarget⟩ := append_inj' hnodes rfl
    refine .inl ⟨line, hline, ?_, by simp [hhops]⟩
    exact congrArg ImportNode.key (head_eq_of_cons_eq htarget).symm
  · rw [concat_eq_append, ← cons_append, ← append_assoc]
      at hnodes
    obtain ⟨hhops, -⟩ := append_inj' hnodes rfl
    obtain ⟨prior, raw, hroute, -, hjump⟩ := line.route.upTo hhops
    have hprior : prior ≠ [] := by
      rintro rfl
      have hlength := hroute.length_eq
      simp at hlength
    obtain ⟨spec, entry, -, -, hnode⟩ := jumpImportNode_ok hjump
    rcases hnode with ⟨-, hnil, -⟩ | ⟨-, rfl⟩
    · exact absurd hnil hprior
    · exact .inr ⟨prior, _, trim raw, hroute, hprior, rfl⟩

end

end ImportGraph.Drawn

end NiceTerm.Ssh
