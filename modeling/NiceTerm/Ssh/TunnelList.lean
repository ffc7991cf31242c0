/-
The stored list of tunnels.  A command loads all of it, changes its copy and
replaces the stored list by it; a connection that comes up does the same for
the tunnels that open with it, and holds its copy while they are opened.
-/
import Mathlib.Data.Char
import Mathlib.Data.List.Lex
import NiceTerm.Lib.Keyed
import NiceTerm.Lib.Revising
import NiceTerm.Lib.RustStr
import NiceTerm.Lib.Table

open Transition

namespace NiceTerm.Ssh.TunnelList

open Option
open RustStr (Str)

structure TunnelConfig where
  id : Str
  name : Str := []
  tunnelType : Str := "local".toList
  connectionId : Option Str := none
  listenPort : UInt16 := 0
  targetHost : Str := "127.0.0.1".toList
  targetPort : UInt16 := 0
  isOpen : Bool := false
  autoOpen : Bool := false
  bindLocalhost : Bool := true
  groupId : Option Str := none
deriving DecidableEq, Repr

inductive Operation
  | autoOpenForConnection (connectionId : Str)
  | closeAutoTunnelsForConnection (connectionId : Str)
  | saveTunnel (tunnel : TunnelConfig)
  | setTunnelGroup (tunnelId : Str) (groupId : Option Str)
  | deleteTunnel (tunnelId : Str)
  | deleteTunnelGroup (groupId : Str)
  | openTunnel (tunnelId : Str)
  | closeTunnel (tunnelId : Str)
deriving DecidableEq, Repr

abbrev Stored := Table Str TunnelConfig

def loadTunnels (stored : Stored) : List TunnelConfig := stored.values

/-- `replace_tunnels`: the whole table is cleared and written in one
transaction. -/
def saveTunnels (tunnels : List TunnelConfig) : Stored :=
  Table.collect TunnelConfig.id id tunnels

/-- The tunnel opens when the connection comes up. -/
def TunnelConfig.opensWith (connectionId : Str) (tunnel : TunnelConfig) :
    Bool :=
  (tunnel.autoOpen || tunnel.isOpen) &&
    tunnel.connectionId == some connectionId

def autoOpenForConnection (connectionId : Str) (tunnels : List TunnelConfig) :
    Option (List TunnelConfig) :=
  if tunnels.any (TunnelConfig.opensWith connectionId) then
    some (tunnels.map fun tunnel =>
      if tunnel.opensWith connectionId then { tunnel with isOpen := true }
      else tunnel)
  else none

def saveTunnel (tunnel : TunnelConfig) (tunnels : List TunnelConfig) :
    List TunnelConfig :=
  if tunnels.any (·.id == tunnel.id) then
    Keyed.modify TunnelConfig.id tunnel.id (fun _ => tunnel) tunnels
  else tunnels ++ [tunnel]

def setTunnelGroup (tunnelId : Str) (groupId : Option Str)
    (tunnels : List TunnelConfig) : List TunnelConfig :=
  Keyed.modify TunnelConfig.id tunnelId ({ · with groupId := groupId }) tunnels

def deleteTunnel (tunnelId : Str) (tunnels : List TunnelConfig) :
    List TunnelConfig :=
  tunnels.filter (·.id != tunnelId)

def deleteTunnelGroup (groupId : Str) (tunnels : List TunnelConfig) :
    List TunnelConfig :=
  tunnels.filter (·.groupId != some groupId)

/-- `none` is the error that there is no such tunnel. -/
def openTunnel (tunnelId : Str) (tunnels : List TunnelConfig) :
    Option (List TunnelConfig) :=
  if tunnels.any (·.id == tunnelId) then
    some (Keyed.modify TunnelConfig.id tunnelId ({ · with isOpen := true })
      tunnels)
  else none

def closeTunnel (tunnelId : Str) (tunnels : List TunnelConfig) :
    List TunnelConfig :=
  Keyed.modify TunnelConfig.id tunnelId ({ · with isOpen := false }) tunnels

/-- What an operation makes of the list, or `none` if it does not save. -/
def edit : Operation → List TunnelConfig → Option (List TunnelConfig)
  | .autoOpenForConnection connectionId => autoOpenForConnection connectionId
  | .closeAutoTunnelsForConnection _ => fun _ => none
  | .saveTunnel tunnel => fun tunnels => some (saveTunnel tunnel tunnels)
  | .setTunnelGroup tunnelId groupId =>
    fun tunnels => some (setTunnelGroup tunnelId groupId tunnels)
  | .deleteTunnel tunnelId =>
    fun tunnels => some (deleteTunnel tunnelId tunnels)
  | .deleteTunnelGroup groupId =>
    fun tunnels => some (deleteTunnelGroup groupId tunnels)
  | .openTunnel tunnelId => openTunnel tunnelId
  | .closeTunnel tunnelId =>
    fun tunnels => some (closeTunnel tunnelId tunnels)

def revise (op : Operation) (stored : Stored) : Option Stored :=
  (edit op (loadTunnels stored)).map saveTunnels

/-- The purpose of an operation: what it does to the tunnel with the id. -/
def Operation.entry (op : Operation) (tunnelId : Str)
    (tunnel : Option TunnelConfig) : Option TunnelConfig :=
  match op with
  | .autoOpenForConnection connectionId => tunnel.map fun tunnel =>
    if tunnel.opensWith connectionId then { tunnel with isOpen := true }
    else tunnel
  | .closeAutoTunnelsForConnection _ => tunnel
  | .saveTunnel saved => if tunnelId = saved.id then some saved else tunnel
  | .setTunnelGroup changed groupId =>
    if tunnelId = changed then tunnel.map ({ · with groupId := groupId })
    else tunnel
  | .deleteTunnel deleted => if tunnelId = deleted then none else tunnel
  | .deleteTunnelGroup groupId => tunnel.filter (·.groupId != some groupId)
  | .openTunnel opened =>
    if tunnelId = opened then tunnel.map ({ · with isOpen := true })
    else tunnel
  | .closeTunnel closed =>
    if tunnelId = closed then tunnel.map ({ · with isOpen := false })
    else tunnel

abbrev Valid (stored : Stored) : Prop := stored.KeyedBy TunnelConfig.id

section Edits

variable {tunnels edited : List TunnelConfig}

theorem ids_map {f : TunnelConfig → TunnelConfig} (hf : ∀ t, (f t).id = t.id) :
    (tunnels.map f).map TunnelConfig.id = tunnels.map TunnelConfig.id := by
  rw [List.map_map]
  exact List.map_congr_left fun t _ => hf t

theorem any_id_iff (tunnelId : Str) :
    tunnels.any (·.id == tunnelId) = true ↔
      tunnelId ∈ tunnels.map TunnelConfig.id := by
  simp [List.mem_map]

theorem opened_id (connectionId : Str) (t : TunnelConfig) :
    (if t.opensWith connectionId then { t with isOpen := true } else t).id =
      t.id := by
  split <;> rfl

theorem edit_nodup {op : Operation}
    (hnodup : (tunnels.map TunnelConfig.id).Nodup)
    (h : edit op tunnels = some edited) :
    (edited.map TunnelConfig.id).Nodup := by
  cases op with
  | autoOpenForConnection connectionId =>
    simp only [edit, autoOpenForConnection] at h
    split at h
    · obtain rfl := some.inj h
      rwa [ids_map (opened_id connectionId)]
    · exact absurd h.symm (some_ne_none edited)
  | closeAutoTunnelsForConnection connectionId =>
    exact absurd h.symm (some_ne_none edited)
  | saveTunnel tunnel =>
    obtain rfl := some.inj h
    rw [saveTunnel]
    split
    · exact Keyed.modify_nodup (fun _ _ => rfl) hnodup
    next hnew =>
      rw [any_id_iff] at hnew
      rw [List.map_append, List.map_singleton]
      simpa using hnodup.concat hnew
  | setTunnelGroup tunnelId groupId =>
    obtain rfl := some.inj h
    exact Keyed.modify_nodup (by exact fun _ hid => hid) hnodup
  | deleteTunnel tunnelId =>
    obtain rfl := some.inj h
    exact hnodup.sublist (List.filter_sublist.map _)
  | deleteTunnelGroup groupId =>
    obtain rfl := some.inj h
    exact hnodup.sublist (List.filter_sublist.map _)
  | openTunnel tunnelId =>
    simp only [edit, openTunnel] at h
    split at h
    · obtain rfl := some.inj h
      exact Keyed.modify_nodup (by exact fun _ hid => hid) hnodup
    · exact absurd h.symm (some_ne_none edited)
  | closeTunnel tunnelId =>
    obtain rfl := some.inj h
    exact Keyed.modify_nodup (by exact fun _ hid => hid) hnodup

theorem find_saveTunnel (tunnel : TunnelConfig) (tunnelId : Str) :
    Keyed.find TunnelConfig.id (saveTunnel tunnel tunnels) tunnelId =
      if tunnelId = tunnel.id then some tunnel
      else Keyed.find TunnelConfig.id tunnels tunnelId := by
  rw [saveTunnel]
  split
  next hany =>
    rw [Keyed.find_modify fun _ _ => rfl]
    by_cases hid : tunnelId = tunnel.id
    · obtain ⟨old, hold⟩ := Keyed.mem_keys_iff.mp ((any_id_iff _).mp hany)
      rw [if_pos hid, if_pos hid, hid, hold, map_some]
    · rw [if_neg hid, if_neg hid]
  next hany =>
    rw [any_id_iff] at hany
    rw [Keyed.find_concat]
    by_cases hid : tunnelId = tunnel.id
    · rw [hid, Keyed.find_eq_none hany, if_pos rfl]
      rfl
    · rw [if_neg (Ne.symm hid), if_neg hid, or_none]

theorem find_edit {op : Operation}
    (hnodup : (tunnels.map TunnelConfig.id).Nodup)
    (h : edit op tunnels = some edited) (tunnelId : Str) :
    Keyed.find TunnelConfig.id edited tunnelId =
      op.entry tunnelId (Keyed.find TunnelConfig.id tunnels tunnelId) := by
  cases op with
  | autoOpenForConnection connectionId =>
    simp only [edit, autoOpenForConnection] at h
    split at h
    · obtain rfl := some.inj h
      exact Keyed.find_map (opened_id connectionId) tunnels tunnelId
    · exact absurd h.symm (some_ne_none edited)
  | closeAutoTunnelsForConnection connectionId =>
    exact absurd h.symm (some_ne_none edited)
  | saveTunnel tunnel =>
    obtain rfl := some.inj h
    exact find_saveTunnel tunnel tunnelId
  | setTunnelGroup changed groupId =>
    obtain rfl := some.inj h
    exact Keyed.find_modify (by exact fun _ hid => hid) tunnels tunnelId
  | deleteTunnel deleted =>
    obtain rfl := some.inj h
    rw [deleteTunnel, Keyed.find_filter hnodup, Operation.entry]
    cases hfind : Keyed.find TunnelConfig.id tunnels tunnelId with
    | none => simp
    | some tunnel =>
      have hid : tunnel.id = tunnelId := Keyed.key_of_find hfind
      by_cases hdeleted : tunnelId = deleted
      · simp [filter_some, hid, hdeleted]
      · simp [filter_some, hid, hdeleted]
  | deleteTunnelGroup groupId =>
    obtain rfl := some.inj h
    exact Keyed.find_filter hnodup _ tunnelId
  | openTunnel opened =>
    simp only [edit, openTunnel] at h
    split at h
    · obtain rfl := some.inj h
      exact Keyed.find_modify (by exact fun _ hid => hid) tunnels tunnelId
    · exact absurd h.symm (some_ne_none edited)
  | closeTunnel closed =>
    obtain rfl := some.inj h
    exact Keyed.find_modify (by exact fun _ hid => hid) tunnels tunnelId

end Edits

theorem find_loadTunnels {stored : Stored} (h : Valid stored) (tunnelId : Str) :
    Keyed.find TunnelConfig.id (loadTunnels stored) tunnelId =
      stored.get tunnelId := by
  apply Option.ext
  intro tunnel
  have hkeys : ((loadTunnels stored).map TunnelConfig.id).Nodup := h.keys_nodup
  rw [Keyed.find_eq_some_iff hkeys, h.get_eq_some]
  rfl

theorem get_saveTunnels {tunnels : List TunnelConfig}
    (hnodup : (tunnels.map TunnelConfig.id).Nodup) (tunnelId : Str) :
    (saveTunnels tunnels).get tunnelId =
      Keyed.find TunnelConfig.id tunnels tunnelId := by
  apply Option.ext
  intro tunnel
  have hkeyed : Valid (saveTunnels tunnels) := Table.keyedBy_collect tunnels
  have hmem : tunnel ∈ (saveTunnels tunnels).values ↔ tunnel ∈ tunnels :=
    Table.mem_values_collect hnodup
  rw [Keyed.find_eq_some_iff hnodup, hkeyed.get_eq_some, hmem]

theorem revise_entrywise :
    Revising.Entrywise revise Valid Table.get Operation.entry where
  valid := by
    intro op d e _ h
    obtain ⟨edited, -, rfl⟩ := map_eq_some_iff.mp h
    exact Table.keyedBy_collect edited
  get := by
    intro op d e tunnelId hvalid h
    obtain ⟨edited, hedit, rfl⟩ := map_eq_some_iff.mp h
    have hkeys : ((loadTunnels d).map TunnelConfig.id).Nodup :=
      hvalid.keys_nodup
    rw [get_saveTunnels (edit_nodup hkeys hedit), find_edit hkeys hedit,
      find_loadTunnels hvalid]

abbrev State := Revising.State Stored Operation

abbrev Event := Revising.Event Operation

/-- Any number of operations under way, each with the list that it loaded. -/
abbrev tunnels (start : Stored) : System State Event :=
  Revising.system start revise

/-- Each tunnel is stored as the completed operations, one after the other,
have left it. -/
abbrev Kept (start : Stored) (s : State) : Prop :=
  Revising.Kept Table.get Operation.entry start s

/-- The operation overwrites all that distinguishes the two. -/
def Operation.Overwrites (op : Operation) (tunnelId : Str)
    (loaded stored : Option TunnelConfig) : Prop :=
  match op, loaded, stored with
  | .autoOpenForConnection connectionId, some a, some b =>
    a.opensWith connectionId ∧ b.opensWith connectionId ∧
      { a with isOpen := b.isOpen } = b
  | .saveTunnel tunnel, _, _ => tunnelId = tunnel.id
  | .setTunnelGroup changed _, some a, some b =>
    tunnelId = changed ∧ { a with groupId := b.groupId } = b
  | .deleteTunnel deleted, _, _ => tunnelId = deleted
  | .deleteTunnelGroup groupId, a, b =>
    (∀ t, a = some t → t.groupId = some groupId) ∧
      ∀ t, b = some t → t.groupId = some groupId
  | .openTunnel changed, some a, some b =>
    tunnelId = changed ∧ { a with isOpen := b.isOpen } = b
  | .closeTunnel changed, some a, some b =>
    tunnelId = changed ∧ { a with isOpen := b.isOpen } = b
  | _, _, _ => False

/-- When an operation saves, every tunnel is stored as it was loaded, up to
what the operation overwrites. -/
def Undisturbed (s : State) : Event → Prop
  | .save i => ∀ op loaded, s.pending[i]? = some (op, loaded) → ∀ tunnelId,
      loaded.get tunnelId = s.stored.get tunnelId ∨
        op.Overwrites tunnelId (loaded.get tunnelId) (s.stored.get tunnelId)
  | _ => True

variable {a b : TunnelConfig}

theorem setOpen_eq_iff {isOpen : Bool} :
    { a with isOpen := isOpen } = { b with isOpen := isOpen } ↔
      { a with isOpen := b.isOpen } = b := by
  cases a
  cases b
  simp

theorem setGroup_eq_iff {groupId : Option Str} :
    { a with groupId := groupId } = { b with groupId := groupId } ↔
      { a with groupId := b.groupId } = b := by
  cases a
  cases b
  simp

/-- An opened tunnel still opens with its connection. -/
theorem opensWith_opened {connectionId : Str}
    (h : a.opensWith connectionId = true) :
    ({ a with isOpen := true } : TunnelConfig).opensWith connectionId = true := by
  simp only [TunnelConfig.opensWith, Bool.and_eq_true] at h ⊢
  exact ⟨by simp, h.2⟩

theorem opened_eq_iff (connectionId : Str) (a b : TunnelConfig) :
    (if a.opensWith connectionId then { a with isOpen := true } else a) =
        (if b.opensWith connectionId then { b with isOpen := true } else b) ↔
      a = b ∨ a.opensWith connectionId ∧ b.opensWith connectionId ∧
        { a with isOpen := b.isOpen } = b := by
  by_cases ha : a.opensWith connectionId = true
  · by_cases hb : b.opensWith connectionId = true
    · rw [if_pos ha, if_pos hb, setOpen_eq_iff]
      simp only [ha, hb, true_and]
      refine ⟨.inr, ?_⟩
      rintro (rfl | h)
      · rfl
      · exact h
    · have hne : a ≠ b := fun h => hb (h ▸ ha)
      rw [if_pos ha, if_neg hb]
      refine iff_of_false (fun h => hb (h ▸ opensWith_opened ha)) ?_
      rintro (h | ⟨-, h, -⟩)
      · exact hne h
      · exact hb h
  · rw [if_neg ha]
    by_cases hb : b.opensWith connectionId = true
    · have hne : a ≠ b := fun h => ha (h ▸ hb)
      rw [if_pos hb]
      refine iff_of_false (fun h => ha (h ▸ opensWith_opened hb)) ?_
      rintro (h | ⟨h, -⟩)
      · exact hne h
      · exact ha h
    · rw [if_neg hb]
      simp [ha]

theorem filter_eq_iff (groupId : Str) (a b : Option TunnelConfig) :
    a.filter (·.groupId != some groupId) =
        b.filter (·.groupId != some groupId) ↔
      a = b ∨ (∀ t, a = some t → t.groupId = some groupId) ∧
        ∀ t, b = some t → t.groupId = some groupId := by
  cases a with
  | none =>
    cases b with
    | none => simp
    | some b =>
      by_cases hb : b.groupId = some groupId
      · simp [filter_some, hb]
      · simp [filter_some, hb]
  | some a =>
    cases b with
    | none => simp [filter_some]
    | some b =>
      by_cases ha : a.groupId = some groupId
      · by_cases hb : b.groupId = some groupId
        · simp [filter_some, ha, hb]
        · have hne : a ≠ b := fun h => hb (h ▸ ha)
          simp [filter_some, ha, hb, hne]
      · by_cases hb : b.groupId = some groupId
        · have hne : a ≠ b := fun h => ha (h ▸ hb)
          simp [filter_some, ha, hb, hne]
        · simp [filter_some, ha, hb]

theorem changed_eq_iff {f : TunnelConfig → TunnelConfig}
    {here same : Prop} [Decidable here] (hf : f a = f b ↔ same) :
    (if here then (some a).map f else some a) =
        (if here then (some b).map f else some b) ↔
      some a = some b ∨ here ∧ same := by
  by_cases hhere : here
  · simp only [hhere, if_true, map_some, some.injEq, true_and, hf]
    refine ⟨.inr, ?_⟩
    rintro (rfl | h)
    · exact hf.mp rfl
    · exact h
  · simp [hhere]

theorem changed_none_iff {f : TunnelConfig → TunnelConfig}
    {here : Prop} [Decidable here] :
    (if here then (none : Option TunnelConfig).map f else none) =
        (if here then (some b).map f else some b) ↔
      none = some b ∨ False := by
  by_cases hhere : here <;> simp [hhere]

/-- An operation makes the same of two entries exactly if it overwrites what
tells them apart. -/
theorem entry_eq_iff (op : Operation) (tunnelId : Str)
    (loaded stored : Option TunnelConfig) :
    op.entry tunnelId loaded = op.entry tunnelId stored ↔
      loaded = stored ∨ op.Overwrites tunnelId loaded stored := by
  cases op with
  | autoOpenForConnection connectionId =>
    cases loaded with
    | none => cases stored <;> simp [Operation.entry, Operation.Overwrites]
    | some a =>
      cases stored with
      | none => simp [Operation.entry, Operation.Overwrites]
      | some b =>
        simp only [Operation.entry, Operation.Overwrites, map_some, some.injEq]
        exact opened_eq_iff connectionId a b
  | closeAutoTunnelsForConnection connectionId =>
    simp [Operation.entry, Operation.Overwrites]
  | saveTunnel tunnel =>
    by_cases hid : tunnelId = tunnel.id
    · simp [Operation.entry, Operation.Overwrites, hid]
    · simp [Operation.entry, Operation.Overwrites, hid]
  | setTunnelGroup changed groupId =>
    cases loaded with
    | none =>
      cases stored with
      | none => simp [Operation.Overwrites]
      | some b => exact changed_none_iff
    | some a =>
      cases stored with
      | none =>
        exact eq_comm.trans (changed_none_iff.trans
          (by simp [Operation.Overwrites]))
      | some b => exact changed_eq_iff setGroup_eq_iff
  | deleteTunnel deleted =>
    by_cases hid : tunnelId = deleted
    · simp [Operation.entry, Operation.Overwrites, hid]
    · simp [Operation.entry, Operation.Overwrites, hid]
  | deleteTunnelGroup groupId =>
    exact filter_eq_iff groupId loaded stored
  | openTunnel opened =>
    cases loaded with
    | none =>
      cases stored with
      | none => simp [Operation.Overwrites]
      | some b => exact changed_none_iff
    | some a =>
      cases stored with
      | none =>
        exact eq_comm.trans (changed_none_iff.trans
          (by simp [Operation.Overwrites]))
      | some b => exact changed_eq_iff setOpen_eq_iff
  | closeTunnel closed =>
    cases loaded with
    | none =>
      cases stored with
      | none => simp [Operation.Overwrites]
      | some b => exact changed_none_iff
    | some a =>
      cases stored with
      | none =>
        exact eq_comm.trans (changed_none_iff.trans
          (by simp [Operation.Overwrites]))
      | some b => exact changed_eq_iff setOpen_eq_iff

/-- The stored list keeps what every completed operation did, the open flags
included, exactly as long as no list is saved over a change that was saved
since it was loaded. -/
theorem kept_iff_undisturbed (start : Stored) (hstart : Valid start)
    (es : List Event) (s : State)
    (hrun : (tunnels start).runFrom ⟨start, [], []⟩ es = some s) :
    (tunnels start).Throughout (Kept start) ⟨start, [], []⟩ es ↔
      (tunnels start).Along Undisturbed ⟨start, [], []⟩ es := by
  rw [Revising.throughout_kept_iff revise_entrywise hstart hrun]
  apply System.along_congr
  intro r e
  cases e with
  | save i =>
    simp only [Revising.Undisturbed, Undisturbed, entry_eq_iff]
  | load op => exact Iff.rfl
  | abandon i => exact Iff.rfl

/-- A tunnel of the connection `c`. -/
def forwarded : TunnelConfig where
  id := "t".toList
  connectionId := some "c".toList
  listenPort := 8080
  targetPort := 80
  autoOpen := true

def oneTunnel : Stored := saveTunnels [forwarded]

/-- The connection comes up, and once its tunnels are open the user closes
one of them. -/
def openThenClose : List Event :=
  [.load (.autoOpenForConnection "c".toList), .save 0,
    .load (.closeTunnel "t".toList), .save 0]

/-- The saved list is the one that was loaded. -/
def current (s : State) : Event → Bool
  | .save i => (s.pending[i]?).all fun task =>
    task.2.entries == s.stored.entries
  | _ => true

theorem undisturbed_of_current (s : State) (e : Event)
    (h : current s e = true) : Undisturbed s e := by
  cases e with
  | save i =>
    intro op loaded htask tunnelId
    rw [current, htask, all_some, beq_iff_eq] at h
    left
    rw [Table.get, h, Table.get]
  | load op => trivial
  | abandon i => trivial

theorem openThenClose_kept :
    (tunnels oneTunnel).Throughout (Kept oneTunnel) ⟨oneTunnel, [], []⟩
      openThenClose := by
  have hvalid : Valid oneTunnel := Table.keyedBy_collect _
  have hcurrent : (tunnels oneTunnel).Along (fun s e => current s e = true)
      ⟨oneTunnel, [], []⟩ openThenClose := by
    decide +kernel
  apply (kept_iff_undisturbed oneTunnel hvalid openThenClose
    ⟨saveTunnels [forwarded], [], [.autoOpenForConnection "c".toList,
      .closeTunnel "t".toList]⟩ rfl).mpr
  exact System.along_of_invariant _ (fun _ _ _ _ _ => trivial)
    (fun s e _ => undisturbed_of_current s e) trivial hcurrent

/-- The user deletes a tunnel while the tunnels of its connection are being
opened: it is back when they are. -/
def deleteWhileOpening : List Event :=
  [.load (.autoOpenForConnection "c".toList),
    .load (.deleteTunnel "t".toList), .save 1, .save 0]

theorem deleted_tunnel_restored :
    ¬ ∀ (start : Stored) (es : List Event) (s : State), Valid start →
      (tunnels start).runFrom ⟨start, [], []⟩ es = some s →
        Kept start s := by
  intro h
  have hvalid : Valid oneTunnel := Table.keyedBy_collect _
  have hkept := h oneTunnel deleteWhileOpening
    ⟨saveTunnels [{ forwarded with isOpen := true }], [],
      [.deleteTunnel "t".toList, .autoOpenForConnection "c".toList]⟩
    hvalid rfl "t".toList
  exact absurd hkept (by decide +kernel)

end NiceTerm.Ssh.TunnelList
