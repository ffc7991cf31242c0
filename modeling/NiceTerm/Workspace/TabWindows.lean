/-
The tree of terminal windows: leaves with tabs, and the operations that insert,
move, split, reorder, activate and remove tabs.  What an operation does is said
of the list of the leaves.
-/
import Mathlib.Data.List.Perm.Basic
import NiceTerm.Lib.Keyed

namespace NiceTerm.Workspace

open List

abbrev TabId := String

/-- The parts of `createTerminalWindowId`'s text; ids are only compared. -/
structure WindowId where
  split : Bool
  now : Nat
  counter : Nat
  deriving DecidableEq, Repr

structure TerminalWindowLeaf where
  id : WindowId
  tabIds : List TabId
  activeTabId : Option TabId
  deriving DecidableEq, Repr

inductive PaneSplitDirection where
  | horizontal
  | vertical
  deriving DecidableEq, Repr

/-- The ratio of a split is read by none of the operations below. -/
inductive TerminalWindowNode where
  | leaf (leaf : TerminalWindowLeaf)
  | split (id : WindowId) (direction : PaneSplitDirection)
      (first second : TerminalWindowNode)
  deriving DecidableEq, Repr

inductive SplitEdgeDirection where
  | left
  | right
  | top
  | bottom
  deriving DecidableEq, Repr

/-- A text that counts as true: the empty one does not. -/
def given (id : Option TabId) : Option TabId := id.filter (· ≠ "")

def distinct (ids : List TabId) : List TabId := Distinct.firsts id [] ids

def normalizeLeaf (leaf : TerminalWindowLeaf) : TerminalWindowLeaf :=
  let tabIds := distinct leaf.tabIds
  { leaf with
    tabIds := tabIds
    activeTabId :=
      ((given leaf.activeTabId).filter (· ∈ tabIds)).or tabIds.head? }

/-- `clock` gives `Date.now()` for each value of the counter. -/
def createTerminalWindowId (clock : Nat → Nat) (split : Bool) :
    StateM Nat WindowId := fun counter =>
  (⟨split, clock (counter + 1), counter + 1⟩, counter + 1)

def createTerminalWindowLeaf (clock : Nat → Nat) (tabIds : List TabId)
    (activeTabId : Option TabId) : StateM Nat TerminalWindowLeaf := do
  let id ← createTerminalWindowId clock false
  return normalizeLeaf ⟨id, tabIds, activeTabId⟩

def createTerminalWindowRoot (clock : Nat → Nat) (tabIds : List TabId)
    (activeTabId : Option TabId) : StateM Nat (Option TerminalWindowNode) :=
  if tabIds = [] then return none
  else do
    let leaf ← createTerminalWindowLeaf clock tabIds activeTabId
    return some (.leaf leaf)

def collectWindowTabIds : TerminalWindowNode → List TabId
  | .leaf leaf => leaf.tabIds
  | .split _ _ first second =>
    collectWindowTabIds first ++ collectWindowTabIds second

def getFirstTerminalWindowLeaf : TerminalWindowNode → TerminalWindowLeaf
  | .leaf leaf => normalizeLeaf leaf
  | .split _ _ first _ => getFirstTerminalWindowLeaf first

def findTerminalWindowLeafById (leafId : WindowId) :
    TerminalWindowNode → Option TerminalWindowLeaf
  | .leaf leaf => if leaf.id = leafId then some (normalizeLeaf leaf) else none
  | .split _ _ first second =>
    (findTerminalWindowLeafById leafId first).or
      (findTerminalWindowLeafById leafId second)

def findTerminalWindowLeafByTabId (tabId : TabId) :
    TerminalWindowNode → Option TerminalWindowLeaf
  | .leaf leaf =>
    if tabId ∈ leaf.tabIds then some (normalizeLeaf leaf) else none
  | .split _ _ first second =>
    (findTerminalWindowLeafByTabId tabId first).or
      (findTerminalWindowLeafByTabId tabId second)

/-- The updater may create ids, so it runs in any monad. -/
def updateLeafById {m : Type → Type} [Monad m] (leafId : WindowId)
    (updater : TerminalWindowLeaf → m TerminalWindowNode) :
    TerminalWindowNode → m TerminalWindowNode
  | .leaf leaf =>
    if leaf.id = leafId then updater (normalizeLeaf leaf)
    else pure (.leaf (normalizeLeaf leaf))
  | .split id direction first second => do
    let nextFirst ← updateLeafById leafId updater first
    let nextSecond ← updateLeafById leafId updater second
    return .split id direction nextFirst nextSecond

variable (node : TerminalWindowNode)

/-- `updateLeafById` with an updater that gives a leaf. -/
def updateLeaf (leafId : WindowId)
    (updater : TerminalWindowLeaf → TerminalWindowLeaf) : TerminalWindowNode :=
  Id.run (updateLeafById leafId (fun leaf => pure (.leaf (updater leaf))) node)

def collapseWindowChildren (id : WindowId) (direction : PaneSplitDirection) :
    Option TerminalWindowNode → Option TerminalWindowNode →
      Option TerminalWindowNode
  | none, none => none
  | none, some second => some second
  | some first, none => some first
  | some first, some second => some (.split id direction first second)

def removeTabFromLeaf (tabId : TabId) (leaf : TerminalWindowLeaf) :
    Option TerminalWindowLeaf :=
  if tabId ∉ leaf.tabIds then some (normalizeLeaf leaf)
  else
    let tabIds := leaf.tabIds.filter (· ≠ tabId)
    if tabIds = [] then none
    else some (normalizeLeaf { leaf with
      tabIds := tabIds
      activeTabId :=
        if leaf.activeTabId = some tabId then tabIds.head?
        else leaf.activeTabId })

def removeTabFromTerminalWindows (tabId : TabId) :
    TerminalWindowNode → Option TerminalWindowNode
  | .leaf leaf => (removeTabFromLeaf tabId leaf).map .leaf
  | .split id direction first second =>
    collapseWindowChildren id direction
      (removeTabFromTerminalWindows tabId first)
      (removeTabFromTerminalWindows tabId second)

def setLeafActiveTab (leafId : WindowId) (tabId : TabId) : TerminalWindowNode :=
  updateLeaf node leafId fun leaf =>
    if tabId ∈ leaf.tabIds then
      normalizeLeaf { leaf with activeTabId := some tabId }
    else leaf

def setLeafActiveTabByTabId (tabId : TabId) : TerminalWindowNode :=
  match findTerminalWindowLeafByTabId tabId node with
  | none => node
  | some leaf => setLeafActiveTab node leaf.id tabId

def spliceIn (ids : List TabId) (index : Nat) (tabId : TabId) : List TabId :=
  ids.take index ++ tabId :: ids.drop index

/-- `none` for `activeTabId` is the argument that is left out. -/
def insertTabAfterInLeaf (anchorTabId : TabId) (newTabId : TabId)
    (activeTabId : Option (Option TabId)) : TerminalWindowNode :=
  match findTerminalWindowLeafByTabId anchorTabId node with
  | none => node
  | some leaf =>
    updateLeaf node leaf.id fun currentLeaf =>
      normalizeLeaf { currentLeaf with
        tabIds :=
          if newTabId ∈ currentLeaf.tabIds then currentLeaf.tabIds
          else spliceIn currentLeaf.tabIds
            (currentLeaf.tabIds.idxOf anchorTabId + 1) newTabId
        activeTabId := activeTabId.getD currentLeaf.activeTabId }

/-- Where `insertTabIntoLeaf` puts the new tab. -/
def insertPosition (leaf : TerminalWindowLeaf) (afterTabId : Option TabId) :
    Nat :=
  let anchorTabId :=
    ((given afterTabId).filter (· ∈ leaf.tabIds)).or
      (((given leaf.activeTabId).filter (· ∈ leaf.tabIds)).or
        leaf.tabIds.getLast?)
  ((given anchorTabId).map fun anchor =>
    leaf.tabIds.idxOf anchor + 1).getD leaf.tabIds.length

def insertTabIntoLeaf (leafId : WindowId)
    (newTabId : TabId) (afterTabId : Option TabId)
    (activeTabId : Option (Option TabId)) : TerminalWindowNode :=
  updateLeaf node leafId fun currentLeaf =>
    normalizeLeaf { currentLeaf with
      tabIds :=
        if newTabId ∈ currentLeaf.tabIds then currentLeaf.tabIds
        else spliceIn currentLeaf.tabIds
          (insertPosition currentLeaf afterTabId) newTabId
      activeTabId := activeTabId.getD currentLeaf.activeTabId }

def boundedIndex (bound index : Int) : Nat := (max 0 (min bound index)).toNat

def reorderTabsInLeaf (fromTabId : TabId)
    (toIndex : Int) : TerminalWindowNode :=
  match findTerminalWindowLeafByTabId fromTabId node with
  | none => node
  | some leaf =>
    updateLeaf node leaf.id fun currentLeaf =>
      let fromIndex := currentLeaf.tabIds.idxOf fromTabId
      let bounded := boundedIndex (currentLeaf.tabIds.length - 1) toIndex
      if fromTabId ∉ currentLeaf.tabIds then currentLeaf
      else if fromIndex = bounded then currentLeaf
      else normalizeLeaf { currentLeaf with
        tabIds :=
          spliceIn (currentLeaf.tabIds.eraseIdx fromIndex) bounded fromTabId }

variable (clock : Nat → Nat) (tabId : TabId)

def splitUpdater (direction : PaneSplitDirection) (newTabId : Option TabId)
    (currentLeaf : TerminalWindowLeaf) : StateM Nat TerminalWindowNode :=
  match given newTabId with
  | some newTabId => do
    let id ← createTerminalWindowId clock true
    let second ← createTerminalWindowLeaf clock [newTabId] (some newTabId)
    return .split id direction (.leaf (normalizeLeaf currentLeaf))
      (.leaf second)
  | none =>
    if currentLeaf.tabIds.length ≤ 1 then return .leaf currentLeaf
    else do
      let remainingTabIds := currentLeaf.tabIds.filter (· ≠ tabId)
      let remainingLeaf := normalizeLeaf { currentLeaf with
        tabIds := remainingTabIds
        activeTabId :=
          if currentLeaf.activeTabId = some tabId then remainingTabIds.head?
          else currentLeaf.activeTabId }
      let id ← createTerminalWindowId clock true
      let second ← createTerminalWindowLeaf clock [tabId] (some tabId)
      return .split id direction (.leaf remainingLeaf) (.leaf second)

def splitTerminalWindowForTab (node : TerminalWindowNode)
    (tabId : TabId) (direction : PaneSplitDirection)
    (newTabId : Option TabId) : StateM Nat TerminalWindowNode :=
  match findTerminalWindowLeafByTabId tabId node with
  | none => return node
  | some leaf =>
    updateLeafById leaf.id (splitUpdater clock tabId direction newTabId) node

def insertMoved (insertIndex : Int)
    (leaf : TerminalWindowLeaf) : TerminalWindowLeaf :=
  normalizeLeaf { leaf with
    tabIds := spliceIn leaf.tabIds
      (boundedIndex leaf.tabIds.length insertIndex) tabId
    activeTabId := some tabId }

/-- A target that is not in the layout is not looked for before the tab is
taken out of its leaf. -/
def moveTabBetweenLeaves
    (targetLeafId : WindowId) (insertIndex : Int) : Option TerminalWindowNode :=
  match findTerminalWindowLeafByTabId tabId node with
  | none => some node
  | some sourceLeaf =>
    if sourceLeaf.id = targetLeafId then
      some (reorderTabsInLeaf node tabId insertIndex)
    else
      (removeTabFromTerminalWindows tabId node).map fun next =>
        updateLeaf next targetLeafId (insertMoved tabId insertIndex)

def edgeDirection : SplitEdgeDirection → PaneSplitDirection
  | .left | .right => .vertical
  | .top | .bottom => .horizontal

def edgeUpdater (edge : SplitEdgeDirection)
    (tabLeaf leaf : TerminalWindowLeaf) : StateM Nat TerminalWindowNode := do
  let id ← createTerminalWindowId clock true
  let target := normalizeLeaf leaf
  if edge = .left ∨ edge = .top then
    return .split id (edgeDirection edge) (.leaf tabLeaf) (.leaf target)
  else return .split id (edgeDirection edge) (.leaf target) (.leaf tabLeaf)

/-- The source leaf and the target leaf, if both are in the layout. -/
def sourceAndTarget (targetLeafId : WindowId) : Option TerminalWindowLeaf :=
  (findTerminalWindowLeafByTabId tabId node).filter fun _ =>
    (findTerminalWindowLeafById targetLeafId node).isSome

def splitLeafWithTab (node : TerminalWindowNode)
    (tabId : TabId) (targetLeafId : WindowId) (edge : SplitEdgeDirection) :
    StateM Nat (Option TerminalWindowNode) :=
  match sourceAndTarget node tabId targetLeafId with
  | none => return some node
  | some sourceLeaf =>
    if sourceLeaf.id = targetLeafId ∧ sourceLeaf.tabIds.length ≤ 1 then
      return some node
    else
      match removeTabFromTerminalWindows tabId node with
      | none => return none
      | some next => do
        let tabLeaf ← createTerminalWindowLeaf clock [tabId] (some tabId)
        let layout ←
          updateLeafById targetLeafId (edgeUpdater clock edge tabLeaf) next
        return some layout

def flattenTerminalWindows (node : TerminalWindowNode)
    (activeTabId : Option TabId) : StateM Nat TerminalWindowNode :=
  let tabIds := collectWindowTabIds node
  if tabIds = [] then return node
  else do
    let leaf ←
      createTerminalWindowLeaf clock tabIds (activeTabId.or tabIds.head?)
    return .leaf leaf

/-! ## Reconciliation -/

/-- The loop that inserts the missing tabs, each one behind the last. -/
def insertMissing (node : TerminalWindowNode) (currentAnchorTabId : TabId) :
    List TabId → TerminalWindowNode
  | [] => node
  | missingTabId :: rest =>
    insertMissing (insertTabAfterInLeaf node currentAnchorTabId missingTabId
        (some (some missingTabId)))
      missingTabId rest

def insertAnchor (next : TerminalWindowNode) (tabIds : List TabId)
    (activeTabId anchorTabId : Option TabId) : TabId :=
  let layoutTabIds := collectWindowTabIds next
  (((given anchorTabId).filter (· ∈ layoutTabIds)).or
    (((given activeTabId).filter (· ∈ layoutTabIds)).or
      (getFirstTerminalWindowLeaf next).tabIds.getLast?)).getD
        (tabIds.headD "")

def reconcileKept (next : TerminalWindowNode) (tabIds : List TabId)
    (activeTabId anchorTabId : Option TabId) : TerminalWindowNode :=
  let layoutTabIds := collectWindowTabIds next
  let missingTabIds := tabIds.filter (· ∉ layoutTabIds)
  let inserted :=
    insertMissing next (insertAnchor next tabIds activeTabId anchorTabId)
      missingTabIds
  (given activeTabId).elim inserted (setLeafActiveTabByTabId inserted)

/-- The tabs of a layout that are gone leave it one by one. -/
def removeGone (tabIds : List TabId) (current : TerminalWindowNode) :
    Option TerminalWindowNode :=
  (collectWindowTabIds current).foldl (fun next existingTabId =>
      if existingTabId ∈ tabIds then next
      else next.bind (removeTabFromTerminalWindows existingTabId))
    (some current)

/-- `tabIds` are the ids of the tabs. -/
def reconcileTerminalWindows (current : Option TerminalWindowNode)
    (tabIds : List TabId) (activeTabId anchorTabId : Option TabId) :
    StateM Nat (Option TerminalWindowNode) :=
  if tabIds = [] then return none
  else
    match current.bind (removeGone tabIds) with
    | none =>
      createTerminalWindowRoot clock tabIds (activeTabId.or tabIds.head?)
    | some next =>
      return some (reconcileKept next tabIds activeTabId anchorTabId)

/-! ## A saved layout -/

inductive RestorableNode where
  | leaf (tabIndexes : List Nat) (activeTabIndex : Option Nat)
  | split (direction : PaneSplitDirection) (first second : RestorableNode)
  deriving DecidableEq, Repr

/-- The tabs of a saved leaf that no leaf before it has taken. -/
def restoreTabs (tabIds : List TabId) (usedTabIds : List TabId) :
    List Nat → List TabId
  | [] => []
  | index :: rest =>
    match given tabIds[index]? with
    | none => restoreTabs tabIds usedTabIds rest
    | some tabId =>
      if tabId ∈ usedTabIds then restoreTabs tabIds usedTabIds rest
      else tabId :: restoreTabs tabIds (tabId :: usedTabIds) rest

/-- The end of `restore` for a split. -/
def restoredSplit (direction : PaneSplitDirection)
    (first second : Option TerminalWindowNode) (usedTabIds : List TabId) :
    StateM Nat (Option TerminalWindowNode × List TabId) :=
  match first, second with
  | some first, some second => do
    let id ← createTerminalWindowId clock true
    return (some (.split id direction first second), usedTabIds)
  | first, second => return (first.or second, usedTabIds)

/-- The layout, and the tabs that are used up after it. -/
def restore (clock : Nat → Nat) (tabIds usedTabIds : List TabId) :
    RestorableNode → StateM Nat (Option TerminalWindowNode × List TabId)
  | .leaf tabIndexes activeTabIndex =>
    let leafTabIds := restoreTabs tabIds usedTabIds tabIndexes
    if leafTabIds = [] then return (none, usedTabIds)
    else do
      let activeTabId := given (activeTabIndex.bind (tabIds[·]?))
      let leaf ← createTerminalWindowLeaf clock leafTabIds
        ((activeTabId.filter (· ∈ leafTabIds)).or leafTabIds.head?)
      return (some (.leaf leaf), leafTabIds ++ usedTabIds)
  | .split direction first second => do
    let restoredFirst ← restore clock tabIds usedTabIds first
    let restoredSecond ← restore clock tabIds restoredFirst.2 second
    restoredSplit clock direction restoredFirst.1 restoredSecond.1
      restoredSecond.2

def restoreTerminalWindowLayout (layout : Option RestorableNode)
    (tabIds : List TabId) : StateM Nat (Option TerminalWindowNode) :=
  match layout with
  | none => return none
  | some layout =>
    if tabIds = [] then return none
    else do
      let restored ← restore clock tabIds [] layout
      return restored.1.filter fun node =>
        tabIds.all (· ∈ collectWindowTabIds node)

/-! ## The leaves -/

def leaves : TerminalWindowNode → List TerminalWindowLeaf
  | .leaf leaf => [leaf]
  | .split _ _ first second => leaves first ++ leaves second

theorem collectWindowTabIds_eq :
    collectWindowTabIds node =
      (leaves node).flatMap TerminalWindowLeaf.tabIds := by
  induction node with
  | leaf leaf => exact (append_nil _).symm
  | split id direction first second ihfirst ihsecond =>
    rw [collectWindowTabIds, ihfirst, ihsecond, leaves, flatMap_append]

theorem getFirstTerminalWindowLeaf_eq :
    ∃ leaf ∈ leaves node,
      getFirstTerminalWindowLeaf node = normalizeLeaf leaf := by
  induction node with
  | leaf leaf => exact ⟨leaf, mem_singleton_self leaf, rfl⟩
  | split id direction first second ihfirst ihsecond =>
    obtain ⟨leaf, hleaf, heq⟩ := ihfirst
    exact ⟨leaf, mem_append_left _ hleaf, heq⟩

theorem findTerminalWindowLeafById_eq (leafId : WindowId)
    (node : TerminalWindowNode) :
    findTerminalWindowLeafById leafId node =
      ((leaves node).find? (·.id = leafId)).map normalizeLeaf := by
  induction node with
  | leaf leaf =>
    rw [findTerminalWindowLeafById, leaves, find?_singleton]
    by_cases h : leaf.id = leafId <;> simp [h]
  | split id direction first second ihfirst ihsecond =>
    rw [findTerminalWindowLeafById, ihfirst, ihsecond, leaves,
      find?_append, Option.map_or]

theorem findTerminalWindowLeafByTabId_eq (node : TerminalWindowNode) :
    findTerminalWindowLeafByTabId tabId node =
      ((leaves node).find? (tabId ∈ ·.tabIds)).map normalizeLeaf := by
  induction node with
  | leaf leaf =>
    rw [findTerminalWindowLeafByTabId, leaves, find?_singleton]
    by_cases h : tabId ∈ leaf.tabIds <;> simp [h]
  | split id direction first second ihfirst ihsecond =>
    rw [findTerminalWindowLeafByTabId, ihfirst, ihsecond, leaves,
      find?_append, Option.map_or]

/-- The leaves of a layout that may be gone. -/
def layoutLeaves (layout : Option TerminalWindowNode) :
    List TerminalWindowLeaf :=
  layout.elim [] leaves

theorem layoutLeaves_collapse (id : WindowId) (direction : PaneSplitDirection)
    (first second : Option TerminalWindowNode) :
    layoutLeaves (collapseWindowChildren id direction first second) =
      layoutLeaves first ++ layoutLeaves second := by
  cases first with
  | none => cases second <;> rfl
  | some first =>
    cases second with
    | none => exact (append_nil _).symm
    | some second => rfl

theorem removeTabFromTerminalWindows_leaves (node : TerminalWindowNode) :
    layoutLeaves (removeTabFromTerminalWindows tabId node) =
      (leaves node).filterMap (removeTabFromLeaf tabId) := by
  induction node with
  | leaf leaf =>
    rw [removeTabFromTerminalWindows, leaves, filterMap_cons, filterMap_nil]
    cases removeTabFromLeaf tabId leaf <;> rfl
  | split id direction first second ihfirst ihsecond =>
    rw [removeTabFromTerminalWindows, layoutLeaves_collapse, ihfirst,
      ihsecond, leaves, filterMap_append]

/-- Without the leaf, an update only normalizes. -/
theorem updateLeafById_absent {m : Type → Type} [Monad m] [LawfulMonad m]
    {node : TerminalWindowNode} {leafId : WindowId}
    (h : ∀ leaf ∈ leaves node, leaf.id ≠ leafId) :
    ∃ kept, leaves kept = (leaves node).map normalizeLeaf ∧
      ∀ updater : TerminalWindowLeaf → m TerminalWindowNode,
        updateLeafById leafId updater node = pure kept := by
  induction node with
  | leaf leaf =>
    refine ⟨.leaf (normalizeLeaf leaf), rfl, fun updater => ?_⟩
    exact if_neg (h leaf (mem_singleton_self leaf))
  | split id direction first second ihfirst ihsecond =>
    obtain ⟨keptFirst, hfirst, hpureFirst⟩ :=
      ihfirst fun leaf hleaf => h leaf (mem_append_left _ hleaf)
    obtain ⟨keptSecond, hsecond, hpureSecond⟩ :=
      ihsecond fun leaf hleaf => h leaf (mem_append_right _ hleaf)
    refine ⟨.split id direction keptFirst keptSecond, ?_, fun updater => ?_⟩
    · rw [leaves, leaves, hfirst, hsecond, map_append]
    · rw [updateLeafById, hpureFirst, pure_bind, hpureSecond, pure_bind]

/-- An update of the one leaf with the id puts what the updater gives into its
place. -/
theorem updateLeafById_found {m : Type → Type} [Monad m] [LawfulMonad m]
    {node : TerminalWindowNode} {leaf : TerminalWindowLeaf}
    (hids : ((leaves node).map TerminalWindowLeaf.id).Nodup)
    (hleaf : leaf ∈ leaves node) :
    ∃ rest, ∃ place : TerminalWindowNode → TerminalWindowNode,
      (leaves node).Perm (leaf :: rest) ∧ (∀ new, (leaves (place new)).Perm
        (leaves new ++ rest.map normalizeLeaf)) ∧
      ∀ updater : TerminalWindowLeaf → m TerminalWindowNode,
        updateLeafById leaf.id updater node =
          place <$> updater (normalizeLeaf leaf) := by
  induction node with
  | leaf only =>
    obtain rfl := mem_singleton.mp hleaf
    refine ⟨[], id, Perm.refl _, fun new => ?_, fun updater => ?_⟩
    · rw [map_nil, append_nil]
      exact Perm.refl _
    · rw [id_map]
      exact if_pos rfl
  | split id direction first second ihfirst ihsecond =>
    rw [leaves, map_append, nodup_append] at hids
    obtain ⟨hidsFirst, hidsSecond, hapart⟩ := hids
    rcases mem_append.mp hleaf with hin | hin
    · have hother : ∀ other ∈ leaves second, other.id ≠ leaf.id :=
        fun other hmem heq => hapart leaf.id (mem_map_of_mem hin)
          other.id (mem_map_of_mem hmem) heq.symm
      obtain ⟨rest, place, hperm, hplace, hupdate⟩ := ihfirst hidsFirst hin
      obtain ⟨kept, hkept, hpure⟩ :=
        updateLeafById_absent (m := m) hother
      refine ⟨rest ++ leaves second,
        fun new => .split id direction (place new) kept, ?_, fun new => ?_,
        fun updater => ?_⟩
      · exact hperm.append_right _
      · rw [leaves, hkept, map_append, ← append_assoc]
        exact (hplace new).append_right _
      · rw [updateLeafById, hupdate]
        simp only [hpure, pure_bind, map_eq_pure_bind, bind_assoc]
    · have hother : ∀ other ∈ leaves first, other.id ≠ leaf.id :=
        fun other hmem heq => hapart other.id (mem_map_of_mem hmem)
          leaf.id (mem_map_of_mem hin) heq
      obtain ⟨rest, place, hperm, hplace, hupdate⟩ := ihsecond hidsSecond hin
      obtain ⟨kept, hkept, hpure⟩ :=
        updateLeafById_absent (m := m) hother
      refine ⟨leaves first ++ rest,
        fun new => .split id direction kept (place new), ?_, fun new => ?_,
        fun updater => ?_⟩
      · exact (hperm.append_left _).trans perm_middle
      · rw [leaves, hkept, map_append]
        refine ((hplace new).append_left _).trans ?_
        rw [← append_assoc, ← append_assoc]
        exact perm_append_comm.append_right _
      · rw [updateLeafById, hpure, pure_bind, hupdate]
        simp only [map_eq_pure_bind, bind_assoc, pure_bind]

end NiceTerm.Workspace
