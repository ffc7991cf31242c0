/-
The nodes on the way of one `ProxyJump`.  What a node is depends on its own
specification and on those in front of it, and two nodes with one key that
follow nodes with one key are the same.
-/
import NiceTerm.Ssh.Import

namespace NiceTerm.Ssh

open Fallible List Option
open RustStr
open Snapshot (AppError)

theorem split_at_first {c : Char} {text : Str} (h : c ∈ text) :
    (text.takeWhile fun d => d != c) ++
      c :: (text.dropWhile fun d => d != c).tail = text := by
  induction text with
  | nil => exact absurd h not_mem_nil
  | cons d rest ih =>
    by_cases hd : d = c
    · simp [hd]
    · have hrest : c ∈ rest := mem_of_ne_of_mem (Ne.symm hd) h
      simpa [hd] using ih hrest

/-- The parts of a specification, as they stand in it. -/
structure JumpSpec.Reads (spec : JumpSpec) (text : Str) (remaining : Str) :
    Prop where
  host : spec.host ≠ []
  user : spec.user = none ∧ text = remaining ∨
    ∃ user, spec.user = some user ∧ text = user ++ '@' :: remaining
  port : spec.port = none ∧ ':' ∉ remaining ∧ remaining = spec.host ∨
    ∃ portPart, portPart ≠ [] ∧ ':' ∉ portPart ∧ spec.port ≠ none ∧
      remaining = spec.host ++ ':' :: portPart

def parsePort (spec remaining : Str) : Except AppError (Option Nat × Str) :=
  match rsplitOnce ':' remaining with
  | none => .ok (none, remaining)
  | some (front, portPart) =>
    match parseU16 portPart with
    | none => .error (invalidJumpPort spec)
    | some port => .ok (some port, front)

/-- What `parseJumpSpec` does behind the user. -/
def parseHostPort (spec : Str) (user : Option Str) (remaining : Str) :
    Except AppError JumpSpec :=
  parsePort spec remaining >>= fun (port, host) =>
    if host.isEmpty then .error (invalidHop spec)
    else .ok { user, host, port }

theorem parseJumpSpec_eq (raw : Str) :
    parseJumpSpec raw =
      if (trim raw).isEmpty then
        .error (.config "ProxyJump contains an empty hop".toList)
      else if (trim raw).contains '@' then
        let front := (trim raw).takeWhile fun c => c != '@'
        let back := ((trim raw).dropWhile fun c => c != '@').tail
        if front.isEmpty || back.contains '@' then
          .error (invalidHop (trim raw))
        else parseHostPort (trim raw) (some front) back
      else parseHostPort (trim raw) none (trim raw) := by
  simp only [parseJumpSpec, parseHostPort, parsePort]
  by_cases hempty : (trim raw).isEmpty = true
  · rw [if_pos hempty, if_pos hempty]
    rfl
  · rw [if_neg hempty, if_neg hempty]
    by_cases huser : (trim raw).contains '@' = true
    · rw [if_pos huser, if_pos huser]
      split
      · rfl
      · simp only [pure_bind]
        cases rsplitOnce ':' ((trim raw).dropWhile fun c => c != '@').tail with
        | none => rfl
        | some parts =>
          cases hport : parseU16 parts.2 <;> simp only [hport] <;> rfl
    · rw [if_neg huser, if_neg huser]
      simp only [pure_bind]
      cases rsplitOnce ':' (trim raw) with
      | none => rfl
      | some parts =>
        cases hport : parseU16 parts.2 <;> simp only [hport] <;> rfl

variable {spec : JumpSpec}

theorem parseHostPort_ok {text remaining : Str} {user : Option Str}
    (h : parseHostPort text user remaining = .ok spec) :
    spec.user = user ∧ spec.host ≠ [] ∧
      (spec.port = none ∧ ':' ∉ remaining ∧ remaining = spec.host ∨
        ∃ portPart, portPart ≠ [] ∧ ':' ∉ portPart ∧ spec.port ≠ none ∧
          remaining = spec.host ++ ':' :: portPart) := by
  rw [parseHostPort, bind_eq_ok] at h
  obtain ⟨⟨port, host⟩, hsplit, hrest⟩ := h
  have hspec : host ≠ [] ∧ spec = { user, host, port } := by
    by_cases hempty : host.isEmpty = true
    · simp only [hempty, ↓reduceIte] at hrest
      contradiction
    · simp only [hempty, Bool.false_eq_true, ↓reduceIte] at hrest
      cases hrest
      exact ⟨fun hnil => hempty (hnil ▸ rfl), rfl⟩
  obtain ⟨hhost, rfl⟩ := hspec
  refine ⟨rfl, hhost, ?_⟩
  rw [parsePort] at hsplit
  cases hcolon : rsplitOnce ':' remaining with
  | none =>
    simp only [hcolon] at hsplit
    cases hsplit
    exact .inl ⟨rfl, not_mem_of_rsplitOnce hcolon, rfl⟩
  | some parts =>
    obtain ⟨front, portPart⟩ := parts
    obtain ⟨hremaining, hmem⟩ := rsplitOnce_eq_some hcolon
    cases hport : parseU16 portPart with
    | none =>
      simp only [hcolon, hport] at hsplit
      contradiction
    | some number =>
      simp only [hcolon, hport] at hsplit
      cases hsplit
      refine .inr ⟨portPart, ?_, hmem, some_ne_none _, hremaining⟩
      rintro rfl
      exact absurd hport (by simp [parseU16])

variable {raw : Str}

theorem parseJumpSpec_reads (h : parseJumpSpec raw = .ok spec) :
    ∃ remaining, spec.Reads (trim raw) remaining := by
  rw [parseJumpSpec_eq] at h
  split at h
  · contradiction
  · split at h
    · rename_i hat
      dsimp only at h
      split at h
      · contradiction
      · obtain ⟨huser, hhost, hport⟩ := parseHostPort_ok h
        refine ⟨_, hhost, .inr ⟨_, huser, ?_⟩, hport⟩
        exact (split_at_first (contains_iff_mem.mp hat)).symm
    · obtain ⟨huser, hhost, hport⟩ := parseHostPort_ok h
      exact ⟨_, hhost, .inl ⟨huser, rfl⟩, hport⟩

theorem parseJumpSpec_trim (raw : Str) :
    parseJumpSpec (trim raw) = parseJumpSpec raw := by
  rw [parseJumpSpec_eq, parseJumpSpec_eq, trim_trim]

theorem host_of_plain (h : parseJumpSpec raw = .ok spec)
    (hplain : spec.hasOverride = false) : spec.host = trim raw := by
  obtain ⟨remaining, hreads⟩ := parseJumpSpec_reads h
  rw [JumpSpec.hasOverride, Bool.or_eq_false_iff, isSome_eq_false_iff,
    isSome_eq_false_iff, isNone_iff_eq_none, isNone_iff_eq_none] at hplain
  obtain ⟨huser, hport⟩ := hplain
  rcases hreads.user with ⟨-, htext⟩ | ⟨user, hsome, -⟩
  · rcases hreads.port with ⟨-, -, hhost⟩ | ⟨-, -, -, hsome, -⟩
    · rw [htext, hhost]
    · exact absurd hport hsome
  · rw [huser] at hsome
    contradiction

theorem last_ne_colon (h : parseJumpSpec raw = .ok spec) :
    (trim raw).getLast? ≠ some ':' := by
  obtain ⟨remaining, hreads⟩ := parseJumpSpec_reads h
  have hlast : remaining ≠ [] ∧ remaining.getLast? ≠ some ':' := by
    rcases hreads.port with ⟨-, hcolon, hhost⟩ | ⟨part, hpart, hcolon, -, hhost⟩
    · refine ⟨hhost ▸ hreads.host, fun hlast => ?_⟩
      exact hcolon (mem_of_getLast? hlast)
    · rw [hhost]
      refine ⟨by simp, fun hlast => ?_⟩
      rw [getLast?_append, getLast?_cons,
        getLast?_eq_some_getLast hpart] at hlast
      apply hcolon
      rw [getD_some, some_or, some.injEq] at hlast
      exact hlast ▸ getLast_mem hpart
  rcases hreads.user with ⟨-, htext⟩ | ⟨user, -, htext⟩
  · exact htext ▸ hlast.2
  · rw [htext, getLast?_append, getLast?_cons,
      getLast?_eq_some_getLast hlast.1]
    rw [getLast?_eq_some_getLast hlast.1] at hlast
    simpa using hlast.2

theorem trim_ne_nil (h : parseJumpSpec raw = .ok spec) : trim raw ≠ [] := by
  intro hnil
  rw [parseJumpSpec_eq, hnil] at h
  contradiction

/-- The entry of the host with what the specification says instead. -/
def JumpSpec.override (spec : JumpSpec) (entry : SshConfigEntry) :
    SshConfigEntry :=
  { entry with user := spec.user.getD entry.user
               port := spec.port.getD entry.port }

theorem override_of_plain (h : spec.hasOverride = false)
    (entry : SshConfigEntry) : spec.override entry = entry := by
  rw [JumpSpec.hasOverride, Bool.or_eq_false_iff, isSome_eq_false_iff,
    isSome_eq_false_iff, isNone_iff_eq_none, isNone_iff_eq_none] at h
  rw [JumpSpec.override, h.1, h.2, getD_none, getD_none]

abbrev routePrefix (priorSpecs : List Str) : Str :=
  [','].intercalate priorSpecs

/-- The node of a hop that is reached through others or has values of its
own. -/
def routedNode (rawSpec : Str) (priorSpecs : List Str) (spec : JumpSpec)
    (entry : SshConfigEntry) : ImportNode where
  key := jumpKey (trim rawSpec) (routePrefix priorSpecs)
  name := jumpName spec.host (trim rawSpec) (routePrefix priorSpecs)
  entry := spec.override entry

variable {config : SshConfig} {username : Str}

variable {prior : List Str}

theorem jumpImportNode_ok {node : ImportNode}
    (h : jumpImportNode config username raw prior = .ok node) :
    ∃ spec entry, parseJumpSpec raw = .ok spec ∧ config.resolve username
      spec.host = .ok entry ∧ (spec.hasOverride = false ∧ prior = [] ∧
          node = regularImportNode entry ∨
        (spec.hasOverride = true ∨ prior ≠ []) ∧
          node = routedNode raw prior spec entry) := by
  rw [jumpImportNode, bind_eq_ok] at h
  obtain ⟨spec, hspec, h⟩ := h
  rw [bind_eq_ok] at h
  obtain ⟨entry, hentry, h⟩ := h
  refine ⟨spec, entry, hspec, hentry, ?_⟩
  by_cases hrouted : (spec.hasOverride || !prior.isEmpty) = true
  · simp only [hrouted, ↓reduceIte] at h
    cases h
    refine .inr ⟨?_, rfl⟩
    simpa using hrouted
  · simp only [hrouted, Bool.false_eq_true, ↓reduceIte] at h
    cases h
    rw [Bool.not_eq_true, Bool.or_eq_false_iff, Bool.not_eq_false',
      List.isEmpty_iff] at hrouted
    obtain ⟨hplain, hprior⟩ := hrouted
    exact .inl ⟨hplain, hprior,
      congrArg regularImportNode (override_of_plain hplain entry)⟩

theorem hostAlias_of_resolve {hostAlias : Str} {entry : SshConfigEntry}
    (h : config.resolve username hostAlias = .ok entry) :
    entry.hostAlias = hostAlias := by
  rw [SshConfig.resolve, bind_eq_ok] at h
  obtain ⟨hops, -, h⟩ := h
  cases h
  rfl

theorem jumpKey_eq (raw before : Str) :
    jumpKey raw before =
      "jump:".toList ++ raw ++ ":via:".toList ++ before := rfl

theorem regular_key_ne_jumpKey (entry : SshConfigEntry) (raw before : Str) :
    (regularImportNode entry).key ≠ jumpKey raw before := by
  intro h
  have hhead : some 'a' = some 'j' := congrArg List.head? h
  exact absurd hhead (by decide)

theorem entry_of_regular_key {host host' : Str} {entry entry' : SshConfigEntry}
    (hentry : config.resolve username host = .ok entry)
    (hentry' : config.resolve username host' = .ok entry')
    (hkey : (regularImportNode entry).key = (regularImportNode entry').key) :
    entry = entry' := by
  have hname : entry.hostAlias = entry'.hostAlias :=
    append_cancel_left hkey
  rw [hostAlias_of_resolve hentry, hostAlias_of_resolve hentry'] at hname
  rw [hname, hentry'] at hentry
  cases hentry
  rfl

/-- The nodes of the hops whose specifications are given. -/
inductive Route (config : SshConfig) (username : Str) :
    List Str → List ImportNode → Prop
  | start : Route config username [] []
  | hop {specs : List Str} {nodes : List ImportNode} {raw : Str}
      {node : ImportNode} (before : Route config username specs nodes)
      (hjump : jumpImportNode config username raw specs = .ok node)
      (hcomma : ',' ∉ raw) :
      Route config username (specs ++ [trim raw]) (nodes ++ [node])

namespace Route

variable {specs specs' : List Str} {nodes nodes' : List ImportNode}

section

variable (h : Route config username specs nodes)
include h

theorem length_eq :
    specs.length = nodes.length := by
  induction h with
  | start => rfl
  | hop _ _ _ ih => rw [length_append, length_append, ih]; rfl

theorem comma :
    ∀ spec ∈ specs, ',' ∉ spec := by
  induction h with
  | start => exact fun _ hmem => absurd hmem not_mem_nil
  | hop _ _ hcomma ih =>
    intro spec hmem
    rcases mem_append.mp hmem with hbefore | hlast
    · exact ih spec hbefore
    · rw [mem_singleton.mp hlast]
      exact fun htrim => hcomma (mem_of_mem_trim htrim)

theorem upTo {front back : List ImportNode} {node : ImportNode}
    (hnodes : nodes = front ++ node :: back) :
    ∃ prior raw, Route config username prior front ∧ ',' ∉ raw ∧
      jumpImportNode config username raw prior = .ok node := by
  induction h generalizing back with
  | start => simp at hnodes
  | @hop prior before raw last hbefore hjump hcomma ih =>
    rcases eq_nil_or_concat back with rfl | ⟨rest, last', rfl⟩
    · obtain ⟨rfl, hlast⟩ := append_inj' hnodes rfl
      cases hlast
      exact ⟨prior, raw, hbefore, hcomma, hjump⟩
    · rw [concat_eq_append, ← cons_append, ← append_assoc] at hnodes
      exact ih (append_inj' hnodes rfl).1

theorem getLast {last : ImportNode} (hlast : nodes.getLast? = some last) :
    ∃ prior spec, specs = prior ++ [spec] ∧ spec ≠ [] ∧ spec.getLast? ≠ some
      ':' ∧ (prior = [] ∧ last.key = "alias:".toList ++ spec ∨
        last.key = jumpKey spec (routePrefix prior)) := by
  cases h with
  | start => contradiction
  | @hop prior before raw node hbefore hjump hcomma =>
    rw [getLast?_concat, some.injEq] at hlast
    subst hlast
    obtain ⟨spec, entry, hspec, hentry, hnode⟩ := jumpImportNode_ok hjump
    refine ⟨prior, trim raw, rfl, trim_ne_nil hspec, last_ne_colon hspec, ?_⟩
    rcases hnode with ⟨hplain, hprior, rfl⟩ | ⟨-, rfl⟩
    · refine .inl ⟨hprior, ?_⟩
      rw [← host_of_plain hspec hplain, ← hostAlias_of_resolve hentry]
      rfl
    · exact .inr rfl

end

end Route

theorem routePrefix_concat (h : prior ≠ []) (spec : Str) :
    routePrefix (prior ++ [spec]) = routePrefix prior ++ ',' :: spec := by
  induction prior with
  | nil => exact absurd rfl h
  | cons first rest ih =>
    cases rest with
    | nil => simp
    | cons second rest =>
      have hrest := ih (cons_ne_nil second rest)
      simp only [routePrefix, cons_append, intercalate_cons_cons] at hrest ⊢
      rw [hrest, append_assoc, append_assoc, append_assoc]

theorem count_routePrefix (h : ∀ spec ∈ prior, ',' ∉ spec) :
    (routePrefix prior).count ',' = prior.length - 1 := by
  induction prior with
  | nil => rfl
  | cons first rest ih =>
    have hfirst := count_eq_zero.mpr (h first mem_cons_self)
    cases rest with
    | nil => simpa using hfirst
    | cons second rest =>
      have hrest := ih fun spec hmem => h spec (mem_cons_of_mem _ hmem)
      simp only [routePrefix, intercalate_cons_cons,
        count_append, length_cons] at hrest ⊢
      rw [hfirst, hrest, count_singleton_self]
      omega

/-- The last specification ends what is written of all of them. -/
theorem getLast_routePrefix {spec : Str} (h : spec ≠ []) :
    (routePrefix (prior ++ [spec])).getLast? = spec.getLast? := by
  by_cases hprior : prior = []
  · rw [hprior, nil_append, routePrefix, intercalate_singleton]
  · rw [routePrefix_concat hprior, getLast?_append, getLast?_cons,
      getLast?_eq_some_getLast h]
    rfl

theorem jumpKey_inj {raw' before before' : Str}
    (hlength : before.length = before'.length)
    (hkey : jumpKey raw before = jumpKey raw' before') :
    raw = raw' ∧ before = before' := by
  obtain ⟨hfront, hback⟩ := append_inj' hkey hlength
  rw [append_assoc, append_assoc] at hfront
  exact ⟨append_cancel_right (append_cancel_left hfront), hback⟩

/-- Where the hops in front have one key, as much is written of them. -/
theorem Route.length_joined {specs specs' : List Str}
    {nodes nodes' : List ImportNode} (h : Route config username specs nodes)
    (h' : Route config username specs' nodes')
    (hlength : specs.length = specs'.length)
    {last last' : ImportNode} (hlast : nodes.getLast? = some last)
    (hlast' : nodes'.getLast? = some last') (hkey : last.key = last'.key) :
    (routePrefix specs).length = (routePrefix specs').length := by
  obtain ⟨prior, spec, rfl, -, -, hlastKey⟩ := h.getLast hlast
  obtain ⟨prior', spec', rfl, -, -, hlastKey'⟩ := h'.getLast hlast'
  rw [length_append, length_append, length_singleton,
    length_singleton, Nat.add_right_cancel_iff] at hlength
  rcases hlastKey with ⟨rfl, hlastKey⟩ | hlastKey
  · have hprior' : prior' = [] := eq_nil_of_length_eq_zero hlength.symm
    rcases hlastKey' with ⟨-, hlastKey'⟩ | hlastKey'
    · rw [hlastKey, hlastKey'] at hkey
      rw [hprior', append_cancel_left hkey]
    · rw [hlastKey, hlastKey'] at hkey
      have hhead : some 'a' = some 'j' := congrArg List.head? hkey
      exact absurd hhead (by decide)
  · rcases hlastKey' with ⟨-, hlastKey'⟩ | hlastKey'
    · rw [hlastKey, hlastKey'] at hkey
      have hhead : some 'j' = some 'a' := congrArg List.head? hkey
      exact absurd hhead (by decide)
    · rw [hlastKey, hlastKey'] at hkey
      have hsum := congrArg List.length hkey
      simp only [jumpKey_eq, length_append] at hsum
      by_cases hnil : prior = []
      · have hnil' : prior' = [] := by
          rw [hnil] at hlength
          exact eq_nil_of_length_eq_zero hlength.symm
        simp only [hnil, hnil', nil_append, routePrefix, intercalate_singleton,
          intercalate_nil, length_nil] at hsum ⊢
        omega
      · have hnil' : prior' ≠ [] := by
          rintro rfl
          exact hnil (eq_nil_of_length_eq_zero hlength)
        rw [routePrefix_concat hnil, routePrefix_concat hnil', length_append,
          length_append, length_cons, length_cons]
        omega

theorem count_jumpKey (hcomma : ',' ∉ raw)
    (hprior : ∀ spec ∈ prior, ',' ∉ spec) :
    (jumpKey (trim raw) (routePrefix prior)).count ',' = prior.length - 1 := by
  have htrim : (trim raw).count ',' = 0 :=
    count_eq_zero.mpr fun hmem => hcomma (mem_of_mem_trim hmem)
  have hjump : ("jump:".toList).count ',' = 0 := by decide
  have hvia : (":via:".toList).count ',' = 0 := by decide
  rw [jumpKey_eq, count_append, count_append, count_append,
    htrim, hjump, hvia, count_routePrefix hprior, Nat.zero_add]

/-- The key of a hop that others are in front of does not end like that of one
without. -/
theorem jumpKey_nil_ne {specs : List Str} {nodes : List ImportNode}
    (h : Route config username specs nodes) (hne : specs ≠ [])
    (raw raw' : Str) : jumpKey raw [] ≠ jumpKey raw' (routePrefix specs) := by
  intro hkey
  cases h with
  | start => exact hne rfl
  | @hop prior before last node hbefore hjump hcomma =>
    obtain ⟨spec, entry, hspec, -⟩ := jumpImportNode_ok hjump
    have hends := congrArg List.getLast? hkey
    have hcolon : (jumpKey raw []).getLast? = some ':' := by
      rw [jumpKey_eq, append_nil, getLast?_append]
      rfl
    rw [hcolon, jumpKey_eq, getLast?_append, getLast_routePrefix
      (trim_ne_nil hspec), getLast?_eq_some_getLast (trim_ne_nil hspec),
      some_or, ← getLast?_eq_some_getLast (trim_ne_nil hspec)] at hends
    exact last_ne_colon hspec hends.symm

/-- Nodes with one key that follow nodes with one key are the same. -/
theorem node_of_key {prior' : List Str}
    {before before' : List ImportNode} {raw' : Str}
    {node node' : ImportNode} (h : Route config username prior before)
    (hcomma : ',' ∉ raw)
    (hjump : jumpImportNode config username raw prior = .ok node)
    (h' : Route config username prior' before') (hcomma' : ',' ∉ raw')
    (hjump' : jumpImportNode config username raw' prior' = .ok node')
    (hkey : node.key = node'.key)
    (hlast : ∀ last last', before.getLast? = some last →
      before'.getLast? = some last' → last.key = last'.key) :
    node = node' := by
  obtain ⟨spec, entry, hspec, hentry, hnode⟩ := jumpImportNode_ok hjump
  obtain ⟨spec', entry', hspec', hentry', hnode'⟩ := jumpImportNode_ok hjump'
  rcases hnode with ⟨-, -, rfl⟩ | ⟨-, rfl⟩
  · rcases hnode' with ⟨-, -, rfl⟩ | ⟨-, rfl⟩
    · rw [entry_of_regular_key hentry hentry' hkey]
    · exact absurd hkey (regular_key_ne_jumpKey _ _ _)
  · rcases hnode' with ⟨-, -, rfl⟩ | ⟨-, rfl⟩
    · exact absurd hkey.symm (regular_key_ne_jumpKey _ _ _)
    · have hlength : (routePrefix prior).length =
          (routePrefix prior').length := by
        by_cases hnil : prior = []
        · by_cases hnil' : prior' = []
          · rw [hnil, hnil']
          · rw [hnil] at hkey
            exact absurd hkey (jumpKey_nil_ne h' hnil' _ _)
        · by_cases hnil' : prior' = []
          · rw [hnil'] at hkey
            exact absurd hkey.symm (jumpKey_nil_ne h hnil _ _)
          · have hcount := congrArg (List.count ',') hkey
            rw [routedNode, routedNode, count_jumpKey hcomma h.comma,
              count_jumpKey hcomma' h'.comma] at hcount
            have hpos := length_pos_iff.mpr hnil
            have hpos' := length_pos_iff.mpr hnil'
            have hsame : prior.length = prior'.length := by omega
            have hnodes : before ≠ [] := by
              rw [← length_pos_iff, ← h.length_eq]
              exact hpos
            have hnodes' : before' ≠ [] := by
              rw [← length_pos_iff, ← h'.length_eq]
              exact hpos'
            have hend := getLast?_eq_some_getLast hnodes
            have hend' := getLast?_eq_some_getLast hnodes'
            exact h.length_joined h' hsame hend hend' (hlast _ _ hend hend')
      obtain ⟨hraw, hprior⟩ := jumpKey_inj hlength hkey
      rw [← parseJumpSpec_trim, hraw, parseJumpSpec_trim, hspec'] at hspec
      cases hspec
      rw [hentry] at hentry'
      cases hentry'
      rw [routedNode, routedNode, hraw, hprior]

end NiceTerm.Ssh
