/-
Where the connections lead that come from the configuration.  The chain of a
host visits the hops of its `ProxyJump` from the last to the first, and goes on
with what the first hop requires if that is a listed host itself; it ends
unless this comes back to a host.
-/
import NiceTerm.Ssh.ImportGraph

namespace NiceTerm.Ssh

open Chain List Option
open Fallible
open RustStr
open Snapshot (AppError)

/-- The host of a specification that says nothing else. -/
def plainHost (rawSpec : Str) : Option Str :=
  match parseJumpSpec rawSpec with
  | .ok spec => if spec.hasOverride then none else some spec.host
  | .error _ => none

def SshConfig.proxyJump (config : SshConfig) (hostAlias : Str) : Option Str :=
  (config.resolveOptions hostAlias).proxyJump.filter fun value => !isNone value

/-- What the first hop of a listed host names. -/
def SshConfig.firstHop (config : SshConfig) (hostAlias : Str) : Option Str :=
  if hostAlias ∈ config.listHosts then
    (config.proxyJump hostAlias).bind fun proxyJump =>
      (proxyJump.splitOn ',').head?.bind plainHost
  else none

variable {config : SshConfig} {username : Str}

theorem proxyJump_of_resolve {hostAlias : Str} {entry : SshConfigEntry}
    (h : config.resolve username hostAlias = .ok entry) :
    entry.proxyJump = config.proxyJump hostAlias := by
  rw [SshConfig.resolve, bind_eq_ok] at h
  obtain ⟨hops, -, h⟩ := h
  cases h
  rfl

theorem jumpImportNode_trim (raw : Str) (prior : List Str) :
    jumpImportNode config username (trim raw) prior =
      jumpImportNode config username raw prior := by
  rw [jumpImportNode, jumpImportNode, parseJumpSpec_trim, trim_trim]

variable {specs : List Str} {node : ImportNode}

theorem Route.first {rest : List ImportNode}
    (h : Route config username specs (node :: rest)) :
    ∃ raw, specs.head? = some (trim raw) ∧
      jumpImportNode config username raw [] = .ok node := by
  generalize hnodes : node :: rest = nodes at h
  induction h generalizing rest with
  | start => contradiction
  | @hop prior before raw last hbefore hjump _ ih =>
    cases before with
    | nil =>
      obtain rfl := eq_nil_of_length_eq_zero hbefore.length_eq
      rw [nil_append, cons.injEq] at hnodes
      exact ⟨raw, rfl, hnodes.1 ▸ hjump⟩
    | cons second others =>
      rw [cons_append, cons.injEq] at hnodes
      obtain ⟨raw', hhead, hfirst⟩ := ih (by rw [hnodes.1])
      refine ⟨raw', ?_, hfirst⟩
      rw [head?_append, hhead, some_or]

abbrev aliasKey (hostAlias : Str) : Str := "alias:".toList ++ hostAlias

theorem key_of_resolve {hostAlias : Str} {entry : SshConfigEntry}
    (h : config.resolve username hostAlias = .ok entry) :
    (regularImportNode entry).key = aliasKey hostAlias :=
  congrArg aliasKey (hostAlias_of_resolve h)

namespace ImportGraph.Drawn

variable {graph : ImportGraph} {lines : List (Line config username)}

variable {hostAlias : Str}

section

variable (h : graph.Drawn lines)
include h

theorem exists_line (hlisted : hostAlias ∈ config.listHosts) :
    ∃ line ∈ lines, line.entry.hostAlias = hostAlias := by
  rw [← h.listed] at hlisted
  exact mem_map.mp hlisted

theorem no_link_of_unlisted (hlisted : hostAlias ∉ config.listHosts) :
    graph.links.get (aliasKey hostAlias) = none := by
  by_contra hsome
  obtain ⟨previous, hlink⟩ := ne_none_iff_exists'.mp hsome
  rcases h.link_cases hlink with
    ⟨line, hline, hkey, -⟩ | ⟨prior, -, raw, -, -, hkey⟩
  · apply hlisted
    rw [append_cancel_left hkey, ← h.listed]
    exact mem_map_of_mem hline
  · have hhead : some 'a' = some 'j' := congrArg List.head? hkey
    exact absurd hhead (by decide)

theorem no_link_of_direct (hdirect : config.proxyJump hostAlias = none) :
    graph.links.get (aliasKey hostAlias) = none := by
  by_contra hsome
  obtain ⟨previous, hlink⟩ := ne_none_iff_exists'.mp hsome
  rcases h.link_cases hlink with
    ⟨line, hline, hkey, hhops⟩ | ⟨prior, -, raw, -, -, hkey⟩
  · have hproxy := proxyJump_of_resolve line.resolved
    rw [← append_cancel_left hkey, hdirect] at hproxy
    have hroute := line.route
    rw [SshConfigEntry.proxySpecs, hproxy] at hroute
    exact hhops (eq_nil_of_length_eq_zero hroute.length_eq.symm)
  · have hhead : some 'a' = some 'j' := congrArg List.head? hkey
    exact absurd hhead (by decide)

theorem no_link_of_override (raw : Str) :
    graph.links.get (jumpKey raw []) = none := by
  by_contra hsome
  obtain ⟨previous, hlink⟩ := ne_none_iff_exists'.mp hsome
  rcases h.link_cases hlink with
    ⟨line, -, hkey, -⟩ | ⟨prior, before, raw', hroute, hprior, hkey⟩
  · exact regular_key_ne_jumpKey _ _ _ hkey.symm
  · exact jumpKey_nil_ne hroute hprior _ _ hkey

/-- The first hop of a host with a `ProxyJump`, which the links of the host
lead to. -/
theorem leads_to_first {proxyJump : Str}
    (hlisted : hostAlias ∈ config.listHosts)
    (hproxy : config.proxyJump hostAlias = some proxyJump) :
    ∃ raw node, (proxyJump.splitOn ',').head? = some raw ∧
      jumpImportNode config username raw [] = .ok node ∧
      Leads graph.links.get (aliasKey hostAlias) node.key := by
  obtain ⟨line, hline, rfl⟩ := h.exists_line hlisted
  have hspecs : line.entry.proxySpecs = proxyJump.splitOn ',' := by
    rw [SshConfigEntry.proxySpecs, proxyJump_of_resolve line.resolved, hproxy]
    rfl
  have hroute := line.route
  have hvisits := h.visits_keys (h.visits hline)
  rw [hspecs] at hroute
  obtain ⟨raw, others, hsplit⟩ :=
    exists_cons_of_ne_nil (splitOn_ne_nil ',' proxyJump)
  cases hhops : line.hops with
  | nil =>
    have hlength := hroute.length_eq
    rw [hhops, hsplit] at hlength
    simp at hlength
  | cons node rest =>
    rw [hhops] at hroute hvisits
    obtain ⟨raw', hhead, hjump⟩ := hroute.first
    rw [hsplit, map_cons, head?_cons, some.injEq] at hhead
    rw [← jumpImportNode_trim, ← hhead, jumpImportNode_trim] at hjump
    refine ⟨raw, node, by rw [hsplit]; rfl, hjump, ?_⟩
    apply leads_of_visits hvisits
    simp

/-- The chain of a host ends if the chain of first hops does. -/
theorem ends_firstHop :
    Ends config.firstHop hostAlias ↔
      Ends graph.links.get (aliasKey hostAlias) := by
  refine ends_of_runs (f := aliasKey) ?_ ?_
  · intro hostAlias host hfirst
    rw [SshConfig.firstHop] at hfirst
    split at hfirst
    · rename_i hlisted
      obtain ⟨proxyJump, hproxy, hhost⟩ := bind_eq_some_iff.mp hfirst
      obtain ⟨raw, hraw, hplain⟩ := bind_eq_some_iff.mp hhost
      obtain ⟨raw', node, hraw', hjump, hleads⟩ :=
        h.leads_to_first hlisted hproxy
      rw [hraw, some.injEq] at hraw'
      subst hraw'
      obtain ⟨spec, entry, hspec, hentry, hnode⟩ := jumpImportNode_ok hjump
      rw [plainHost, hspec] at hplain
      by_cases hoverride : spec.hasOverride = true
      · simp [hoverride] at hplain
      · simp only [hoverride, Bool.false_eq_true, ↓reduceIte,
          some.injEq] at hplain
        rcases hnode with ⟨-, -, rfl⟩ | ⟨hrouted | hrouted, -⟩
        · rw [key_of_resolve hentry, hplain] at hleads
          exact hleads
        · exact absurd hrouted hoverride
        · exact absurd rfl hrouted
    · contradiction
  · intro hostAlias hfirst
    by_cases hlisted : hostAlias ∈ config.listHosts
    · rw [SshConfig.firstHop, if_pos hlisted] at hfirst
      cases hproxy : config.proxyJump hostAlias with
      | none => exact Ends.stop (h.no_link_of_direct hproxy)
      | some proxyJump =>
        obtain ⟨raw, node, hraw, hjump, hleads⟩ :=
          h.leads_to_first hlisted hproxy
        rw [ends_of_reaches hleads.to_reflTransGen]
        obtain ⟨spec, entry, hspec, -, hnode⟩ := jumpImportNode_ok hjump
        rw [hproxy, bind_some, hraw, bind_some, plainHost, hspec] at hfirst
        rcases hnode with ⟨hplain, -, -⟩ | ⟨-, rfl⟩
        · simp [hplain] at hfirst
        · exact Ends.stop (h.no_link_of_override _)
    · exact Ends.stop (h.no_link_of_unlisted hlisted)

end

end ImportGraph.Drawn

/-- What a hop is called. -/
def hopName (spec : JumpSpec) (rawSpec : Str) (priorSpecs : List Str) : Str :=
  if spec.hasOverride || !priorSpecs.isEmpty then
    jumpName spec.host (trim rawSpec) (routePrefix priorSpecs)
  else spec.host

def SshConfigHop.connectionType (hop : SshConfigHop) : ConnectionType :=
  .ssh hop.host hop.port hop.user

def ImportNode.toHop (node : ImportNode) : SshConfigHop where
  host := node.entry.host
  port := node.entry.port
  user := node.entry.user
  isTarget := false

/-- The hop of a specification, as `resolveHops` has it. -/
def SshConfig.jumpHop (config : SshConfig) (username : Str) (spec : JumpSpec) :
    SshConfigHop :=
  let resolved := config.resolveOptions spec.host
  { host := resolved.hostName.getD spec.host
    port := (spec.port.or resolved.port).getD 22
    user := (spec.user.or resolved.user).getD username
    isTarget := false }

theorem getD_getD {α : Type} (a b : Option α) (c : α) :
    a.getD (b.getD c) = (a.or b).getD c := by
  cases a <;> rfl

theorem toHop_of_jumpImportNode {raw : Str} {prior : List Str}
    {spec : JumpSpec} (hspec : parseJumpSpec raw = .ok spec)
    (h : jumpImportNode config username raw prior = .ok node) :
    node.name = hopName spec raw prior ∧
      node.toHop = config.jumpHop username spec := by
  obtain ⟨spec', entry, hspec', hentry, hnode⟩ := jumpImportNode_ok h
  rw [hspec] at hspec'
  cases hspec'
  have hname := hostAlias_of_resolve hentry
  have hhop : (spec.override entry).host = (config.jumpHop username spec).host ∧
      (spec.override entry).port = (config.jumpHop username spec).port ∧
      (spec.override entry).user = (config.jumpHop username spec).user := by
    rw [SshConfig.resolve, bind_eq_ok] at hentry
    obtain ⟨hops, -, hentry⟩ := hentry
    cases hentry
    exact ⟨rfl, getD_getD _ _ _, getD_getD _ _ _⟩
  rcases hnode with ⟨hplain, rfl, rfl⟩ | ⟨hrouted, rfl⟩
  · rw [override_of_plain hplain] at hhop
    refine ⟨?_, ?_⟩
    · rw [hopName, hplain, ← hname]
      rfl
    · change SshConfigHop.mk entry.host entry.port entry.user false = _
      rw [hhop.1, hhop.2.1, hhop.2.2]
      rfl
  · refine ⟨?_, ?_⟩
    · have hcondition : (spec.hasOverride || !prior.isEmpty) = true := by
        simpa using hrouted
      rw [hopName, if_pos hcondition, routedNode]
    · rw [ImportNode.toHop, routedNode, hhop.1, hhop.2.1, hhop.2.2]
      rfl

theorem resolveHops_append (front back : List Str) :
    config.resolveHops username (front ++ back) = (do
      let first ← config.resolveHops username front
      let second ← config.resolveHops username back
      return first ++ second) := by
  induction front with
  | nil =>
    rw [nil_append, SshConfig.resolveHops, ok_bind]
    cases config.resolveHops username back <;> rfl
  | cons raw rest ih =>
    rw [cons_append, SshConfig.resolveHops, SshConfig.resolveHops, ih]
    split
    · rfl
    · cases parseJumpSpec (trim raw) with
      | error e => rfl
      | ok spec =>
        simp only [ok_bind]
        cases config.resolveHops username rest with
        | error e => rfl
        | ok hops =>
          cases config.resolveHops username back <;> rfl

theorem resolveHops_trim (specs : List Str) :
    config.resolveHops username (specs.map trim) =
      config.resolveHops username specs := by
  induction specs with
  | nil => rfl
  | cons raw rest ih =>
    rw [map_cons, SshConfig.resolveHops, SshConfig.resolveHops, ih, trim_trim]

variable {nodes : List ImportNode}

/-- A route has the hops that are resolved. -/
theorem Route.resolveHops (h : Route config username specs nodes) :
    config.resolveHops username specs = .ok (nodes.map ImportNode.toHop) := by
  induction h with
  | start => rfl
  | @hop prior before raw node _ hjump _ ih =>
    obtain ⟨spec, entry, hspec, -⟩ := jumpImportNode_ok hjump
    have hhop := (toHop_of_jumpImportNode hspec hjump).2
    have hlast : config.resolveHops username [trim raw] =
        .ok [node.toHop] := by
      have hne : (trim (trim raw)).isEmpty = false := by
        rw [trim_trim, isEmpty_eq_false_iff]
        exact trim_ne_nil hspec
      rw [SshConfig.resolveHops, hne, parseJumpSpec_trim, parseJumpSpec_trim,
        hspec, hhop]
      rfl
    rw [resolveHops_append, ih, ok_bind, hlast, ok_bind, map_append]
    rfl

theorem Line.hops_eq (line : Line config username) :
    line.entry.hops.dropLast = line.hops.map ImportNode.toHop := by
  have hresolved := line.resolved
  rw [SshConfig.resolve, bind_eq_ok] at hresolved
  obtain ⟨hops, hhops, hentry⟩ := hresolved
  have hproxy := proxyJump_of_resolve line.resolved
  have hspecs : config.resolveHops username line.entry.proxySpecs =
      .ok hops := by
    rw [SshConfigEntry.proxySpecs, hproxy]
    exact hhops
  rw [← resolveHops_trim, line.route.resolveHops] at hspecs
  cases hspecs
  have hall := congrArg SshConfigEntry.hops (Except.ok.inj hentry)
  rw [← hall]
  exact dropLast_concat

/-- Every specification of a route has its node. -/
theorem Route.exists_node
    (h : Route config username specs nodes) {front back : List Str} {raw : Str}
    (hspecs : specs = front ++ raw :: back) :
    ∃ node ∈ nodes, jumpImportNode config username raw front = .ok node := by
  induction h generalizing back with
  | start => simp at hspecs
  | @hop prior before raw' node _ hjump _ ih =>
    rcases eq_nil_or_concat back with rfl | ⟨rest, spec, rfl⟩
    · obtain ⟨rfl, hraw⟩ := append_inj' hspecs rfl
      rw [← head_eq_of_cons_eq hraw, jumpImportNode_trim]
      exact ⟨node, mem_append_right _ mem_cons_self, hjump⟩
    · rw [concat_eq_append, ← cons_append, ← append_assoc] at hspecs
      obtain ⟨node', hmem, hnode⟩ := ih (append_inj' hspecs rfl).1
      exact ⟨node', mem_append_left _ hmem, hnode⟩

theorem Route.exists_spec (h : Route config username specs nodes)
    (hnode : node ∈ nodes) :
    ∃ front raw back, specs = front ++ raw :: back ∧
      jumpImportNode config username raw front = .ok node := by
  induction h with
  | start => exact absurd hnode not_mem_nil
  | @hop prior before raw last _ hjump _ ih =>
    rcases mem_append.mp hnode with hbefore | hlast
    · obtain ⟨front, raw', back, rfl, hjump'⟩ := ih hbefore
      exact ⟨front, raw', back ++ [trim raw], by simp, hjump'⟩
    · rw [mem_singleton.mp hlast]
      refine ⟨prior, trim raw, [], rfl, ?_⟩
      rw [jumpImportNode_trim, hjump]

end NiceTerm.Ssh
