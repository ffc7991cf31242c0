/-
Runs of the operations on the terminal windows: every tab is in one leaf, once,
as long as a move names a leaf of the layout and a new tab is new.
-/
import NiceTerm.Lib.Transition
import NiceTerm.Workspace.WindowLeaves

namespace NiceTerm.Workspace

open List Transition

/-! ## Splits -/

section Layouts

variable (clock : Nat → Nat) {node : TerminalWindowNode}

theorem updateLeafById_leaves (counter : Nat) {leaf : TerminalWindowLeaf}
    (hids : ((leaves node).map TerminalWindowLeaf.id).Nodup)
    (hleaf : leaf ∈ leaves node)
    (updater : TerminalWindowLeaf → StateM Nat TerminalWindowNode) :
    ∃ rest, (leaves node).Perm (leaf :: rest) ∧
      (leaves (updateLeafById leaf.id updater node counter).1).Perm
        (leaves (updater (normalizeLeaf leaf) counter).1 ++
          rest.map normalizeLeaf) ∧
      (updateLeafById leaf.id updater node counter).2 =
        (updater (normalizeLeaf leaf) counter).2 := by
  obtain ⟨rest, place, hperm, hplace, hupdate⟩ :=
    updateLeafById_found (m := StateM Nat) hids hleaf
  refine ⟨rest, hperm, ?_, ?_⟩
  · rw [hupdate]
    exact hplace _
  · rw [hupdate]
    rfl

variable {counter : Nat}

/-- The leaf that a split adds for a tab. -/
def singleLeaf (clock : Nat → Nat) (counter : Nat) (tabId : TabId) :
    TerminalWindowLeaf :=
  normalizeLeaf ⟨⟨false, clock (counter + 1), counter + 1⟩, [tabId], some tabId⟩

theorem singleLeaf_tabIds (tabId : TabId) :
    (singleLeaf clock counter tabId).tabIds = [tabId] :=
  normalizeLeaf_tabIds (nodup_singleton tabId)

theorem singleLeaf_shown (tabId : TabId) :
    Shown (singleLeaf clock counter tabId) :=
  normalizeLeaf_shown (cons_ne_nil tabId [])

/-- A leaf that keeps the other tabs, beside the new leaf of one tab. -/
theorem Valid.split {leaf : TerminalWindowLeaf}
    {rest result : List TerminalWindowLeaf} (h : Valid (leaves node) counter)
    (kept single : TerminalWindowLeaf) (next : Nat) {tabId : TabId}
    (hperm : (leaves node).Perm (leaf :: rest))
    (hresult : result.Perm ([kept, single] ++ rest.map normalizeLeaf))
    (hkept : Shown kept) (hkeptId : kept.id = leaf.id)
    (hkeptTabs : kept.tabIds = leaf.tabIds.filter (· ≠ tabId))
    (hsingle : Shown single) (hsingleTabs : single.tabIds = [tabId])
    (hfresh : counter < single.id.counter) (hnext : single.id.counter ≤ next)
    (htab : tabId ∈ leaf.tabIds ∨ tabId ∉ tabsOf (leaves node)) :
    Valid result next ∧ ∀ other, other ∈ tabsOf result ↔
        other = tabId ∨ other ∈ tabsOf (leaves node) := by
  have hleaf : leaf ∈ leaves node := hperm.mem_iff.mpr mem_cons_self
  have hcreated := h.created leaf hleaf
  have htabs : ∀ other, other ∈ tabsOf [kept, single] ↔
      other = tabId ∨ other ∈ leaf.tabIds := by
    intro other
    rw [tabsOf, flatMap_cons, flatMap_singleton, hkeptTabs, hsingleTabs,
      mem_append, mem_filter, decide_eq_true_iff, mem_singleton]
    constructor
    · rintro (hin | heq)
      · exact .inr hin.1
      · exact .inl heq
    · rintro (heq | hin)
      · exact .inr heq
      · by_cases heq : other = tabId
        · exact .inr heq
        · exact .inl ⟨hin, heq⟩
  constructor
  · refine h.replace hperm hresult ?_ ?_ ?_ ?_ ?_ ?_ (by omega)
    · exact forall_mem_cons.mpr
        ⟨hkept, forall_mem_singleton.mpr hsingle⟩
    · rw [tabsOf, flatMap_cons, flatMap_singleton, hkeptTabs, hsingleTabs]
      refine nodup_append.mpr ⟨(h.nodup hleaf).filter _,
        nodup_singleton tabId, ?_⟩
      rintro other hin single hsingle rfl
      obtain ⟨-, hne⟩ := mem_filter.mp hin
      exact of_decide_eq_true hne (mem_singleton.mp hsingle)
    · intro other hin
      rcases (htabs other).mp hin with rfl | hold
      · exact htab
      · exact .inl hold
    · refine nodup_cons.mpr ⟨?_, nodup_singleton _⟩
      intro hmem
      have heq : kept.id = single.id := mem_singleton.mp hmem
      rw [← heq, hkeptId] at hfresh
      omega
    · exact forall_mem_cons.mpr
        ⟨.inl hkeptId, forall_mem_singleton.mpr (.inr hfresh)⟩
    · refine forall_mem_cons.mpr
        ⟨?_, forall_mem_singleton.mpr hnext⟩
      rw [hkeptId]
      omega
  · intro other
    rw [h.mem_replaced hperm hresult, htabs]
    constructor
    · rintro ((heq | hin) | hin)
      · exact .inl heq
      · exact .inr (mem_tabsOf.mpr ⟨leaf, hleaf, hin⟩)
      · exact .inr hin.1
    · rintro (heq | hin)
      · exact .inl (.inl heq)
      · by_cases hin' : other ∈ leaf.tabIds
        · exact .inl (.inr hin')
        · exact .inr ⟨hin, hin'⟩

theorem filter_ne_nil {ids : List TabId} (hnodup : ids.Nodup)
    (hlength : 1 < ids.length) (tabId : TabId) :
    ids.filter (· ≠ tabId) ≠ [] := by
  intro hempty
  have hall : ∀ other ∈ ids, other = tabId := by
    intro other hother
    by_contra hne
    have hmem : other ∈ ids.filter (· ≠ tabId) :=
      mem_filter.mpr ⟨hother, decide_eq_true hne⟩
    rw [hempty] at hmem
    cases hmem
  cases ids with
  | nil => cases hlength
  | cons first rest =>
    cases rest with
    | nil => exact absurd hlength (Nat.lt_irrefl 1)
    | cons second rest =>
      have hfirst := hall first mem_cons_self
      have hsecond :=
        hall second (mem_cons_of_mem _ mem_cons_self)
      refine (nodup_cons.mp hnodup).1 ?_
      rw [hfirst, ← hsecond]
      exact mem_cons_self

/-- The split of a leaf into two, for a tab that is new or is taken out. -/
theorem Valid.splitForTab (h : Valid (leaves node) counter) {tabId : TabId}
    (direction : PaneSplitDirection) {newTabId : Option TabId}
    (hnew : tabId ∈ tabsOf (leaves node) →
      ∀ new, given newTabId = some new → new ∉ tabsOf (leaves node)) :
    Valid
      (leaves (splitTerminalWindowForTab clock node tabId direction newTabId
        counter).1)
      (splitTerminalWindowForTab clock node tabId direction newTabId
        counter).2 ∧
      ∀ other ∈ tabsOf (leaves node), other ∈ tabsOf (leaves
        (splitTerminalWindowForTab clock node tabId direction newTabId
          counter).1) := by
  rw [splitTerminalWindowForTab]
  cases hfind : findTerminalWindowLeafByTabId tabId node with
  | none => exact ⟨h, fun _ hother => hother⟩
  | some found =>
    obtain ⟨leaf, hleaf, hin, rfl⟩ := of_find hfind
    have hnodup := h.nodup hleaf
    have hfilled := (h.shown leaf hleaf).filled
    have htabs := normalizeLeaf_tabIds hnodup
    have htab : tabId ∈ tabsOf (leaves node) :=
      mem_tabsOf.mpr ⟨leaf, hleaf, hin⟩
    obtain ⟨rest, hperm, hresult, hcounter⟩ := updateLeafById_leaves counter
      h.ids hleaf (splitUpdater clock tabId direction newTabId)
    have hid : (normalizeLeaf leaf).id = leaf.id := rfl
    simp only [hid]
    rw [hcounter]
    cases hgiven : given newTabId with
    | some new =>
      have hout := hnew htab new hgiven
      have hkeeps := filter_ne_of_not_mem fun hin =>
        hout (mem_tabsOf.mpr ⟨leaf, hleaf, hin⟩)
      rw [splitUpdater, hgiven] at hresult ⊢
      obtain ⟨hvalid, hmem⟩ := h.split (normalizeLeaf (normalizeLeaf leaf))
        (singleLeaf clock (counter + 1) new) (counter + 2) hperm hresult
        (normalizeLeaf_shown (htabs.symm ▸ hfilled)) rfl
        ((normalizeLeaf_tabIds (htabs.symm ▸ hnodup)).trans
          (htabs.trans hkeeps.symm))
        (singleLeaf_shown clock new) (singleLeaf_tabIds clock new)
        (Nat.lt_add_of_pos_right Nat.zero_lt_two) (Nat.le_refl _)
        (.inr hout)
      exact ⟨hvalid, fun other hother => (hmem other).mpr (.inr hother)⟩
    | none =>
      rw [splitUpdater, hgiven] at hresult ⊢
      by_cases hsmall : (normalizeLeaf leaf).tabIds.length ≤ 1
      · simp only [hsmall, if_true] at hresult ⊢
        have hsame := hresult.trans (hperm.map normalizeLeaf).symm
        refine ⟨h.normalize.perm hsame, fun other hother => ?_⟩
        rw [(tabsOf_perm hsame).mem_iff, tabsOf_normalize h.once]
        exact hother
      · simp only [hsmall, if_false] at hresult ⊢
        have hremaining : (normalizeLeaf leaf).tabIds.filter (· ≠ tabId) ≠
            [] := by
          rw [htabs] at hsmall ⊢
          exact filter_ne_nil hnodup (Nat.lt_of_not_le hsmall) tabId
        obtain ⟨hvalid, hmem⟩ := h.split _
          (singleLeaf clock (counter + 1) tabId) (counter + 2) hperm
          hresult (normalizeLeaf_shown hremaining) rfl
          ((distinct_of_nodup ((htabs.symm ▸ hnodup).filter _)).trans
            (congrArg _ htabs))
          (singleLeaf_shown clock tabId) (singleLeaf_tabIds clock tabId)
          (Nat.lt_add_of_pos_right Nat.zero_lt_two) (Nat.le_refl _)
          (.inl hin)
        exact ⟨hvalid, fun other hother => (hmem other).mpr (.inr hother)⟩

/-- The new tab of a split is in two leaves if it was in the layout. -/
theorem Valid.split_twice (h : Valid (leaves node) counter) {tabId : TabId}
    (direction : PaneSplitDirection) {newTabId : Option TabId} {new : TabId}
    (htab : tabId ∈ tabsOf (leaves node)) (hgiven : given newTabId = some new)
    (hold : new ∈ tabsOf (leaves node)) :
    ¬ Tidy (leaves (splitTerminalWindowForTab clock node tabId direction
      newTabId counter).1) := by
  intro htidy
  rw [splitTerminalWindowForTab] at htidy
  cases hfind : findTerminalWindowLeafByTabId tabId node with
  | none => exact find_eq_none_iff.mp hfind htab
  | some found =>
    obtain ⟨leaf, hleaf, hin, rfl⟩ := of_find hfind
    obtain ⟨rest, hperm, hresult, -⟩ := updateLeafById_leaves counter
      h.ids hleaf (splitUpdater clock tabId direction newTabId)
    rw [hfind] at htidy
    rw [splitUpdater, hgiven] at hresult
    have hswap := hresult.trans (Perm.swap _ _ _)
    have hout := htidy.apart hswap (mem_singleton.mpr rfl : new ∈ [new])
    apply hout
    rw [tabsOf, flatMap_cons]
    have hin := (tabsOf_perm hperm).mem_iff.mp hold
    rw [tabsOf, flatMap_cons] at hin
    rcases mem_append.mp hin with hleafTab | hrest
    · exact mem_append_left _ (mem_distinct.mpr (mem_distinct.mpr hleafTab))
    · obtain ⟨other, hother, hmem⟩ := mem_tabsOf.mp hrest
      exact mem_append_right _ (mem_tabsOf.mpr ⟨normalizeLeaf other,
        mem_map_of_mem hother, mem_distinct.mpr hmem⟩)

theorem edgeUpdater_leaves (edge : SplitEdgeDirection)
    (tabLeaf leaf : TerminalWindowLeaf) (counter : Nat) :
    (leaves (edgeUpdater clock edge tabLeaf leaf counter).1).Perm
      [normalizeLeaf leaf, tabLeaf] := by
  cases edge with
  | left => exact Perm.swap _ _ _
  | top => exact Perm.swap _ _ _
  | right => exact Perm.refl _
  | bottom => exact Perm.refl _

theorem edgeUpdater_counter (edge : SplitEdgeDirection)
    (tabLeaf leaf : TerminalWindowLeaf) (counter : Nat) :
    (edgeUpdater clock edge tabLeaf leaf counter).2 = counter + 1 := by
  cases edge <;> rfl

/-- A split of a leaf with a tab of the layout keeps every tab, wherever the
tab and the leaf are. -/
theorem Valid.splitLeaf (h : Valid (leaves node) counter) (tabId : TabId)
    (targetLeafId : WindowId) (edge : SplitEdgeDirection) :
    Valid (layoutLeaves
        (splitLeafWithTab clock node tabId targetLeafId edge counter).1)
      (splitLeafWithTab clock node tabId targetLeafId edge counter).2 ∧
      ∀ other ∈ tabsOf (leaves node), other ∈ layoutTabs
        (splitLeafWithTab clock node tabId targetLeafId edge counter).1 := by
  rw [splitLeafWithTab]
  cases hboth : sourceAndTarget node tabId targetLeafId with
  | none => exact ⟨h, fun _ hother => hother⟩
  | some found =>
    obtain ⟨hfind, hsome⟩ := Option.filter_eq_some_iff.mp hboth
    obtain ⟨source, hsource, hin, rfl⟩ := of_find hfind
    rw [findTerminalWindowLeafById_eq, Option.isSome_map,
      find?_isSome] at hsome
    obtain ⟨target, htarget, hid⟩ := hsome
    obtain rfl := of_decide_eq_true hid
    by_cases hsmall : (normalizeLeaf source).id = target.id ∧
        (normalizeLeaf source).tabIds.length ≤ 1
    · simp only [hsmall, and_self, if_true]
      exact ⟨h, fun _ hother => hother⟩
    · simp only [hsmall, if_false]
      have hkeeps : target.tabIds.filter (· ≠ tabId) ≠ [] := by
        by_cases htab : tabId ∈ target.tabIds
        · obtain rfl := h.eq_of_mem hsource htarget hin htab
          rw [normalizeLeaf_tabIds (h.nodup hsource)] at hsmall
          refine filter_ne_nil (h.nodup hsource) ?_ tabId
          exact Nat.lt_of_not_le fun hle => hsmall ⟨rfl, hle⟩
        · rw [filter_ne_of_not_mem htab]
          exact (h.shown target htarget).filled
      obtain ⟨next, hnext, hvalid, htabs, kept, hkept, hkeptId, hkeptTabs⟩ :=
        h.removed htarget hkeeps
      have hgone : tabId ∉ tabsOf (leaves next) :=
        fun hmem => ((htabs tabId).mp hmem).2 rfl
      have hnodup := hvalid.nodup hkept
      have hnormal := normalizeLeaf_tabIds hnodup
      have htwice := normalizeLeaf_tabIds (hnormal.symm ▸ hnodup)
      have hout : tabId ∉ kept.tabIds := fun hin =>
        hgone (mem_tabsOf.mpr ⟨kept, hkept, hin⟩)
      obtain ⟨rest, hperm, hresult, hcounter⟩ :=
        updateLeafById_leaves (counter + 1) hvalid.ids hkept
          (edgeUpdater clock edge (singleLeaf clock counter tabId))
      have hordered := hresult.trans ((edgeUpdater_leaves clock
        edge (singleLeaf clock counter tabId) (normalizeLeaf kept)
        (counter + 1)).append_right _)
      obtain ⟨hsplit, hmem⟩ := hvalid.split
        (normalizeLeaf (normalizeLeaf kept)) (singleLeaf clock counter tabId)
        (counter + 2) hperm hordered (normalizeLeaf_shown
          (hnormal.symm ▸ (hvalid.shown kept hkept).filled))
        rfl (htwice.trans (hnormal.trans (filter_ne_of_not_mem hout).symm))
        (singleLeaf_shown clock tabId) (singleLeaf_tabIds clock tabId)
        (Nat.lt_succ_self counter) (Nat.le_succ _) (.inr hgone)
      rw [hnext, ← hkeptId]
      refine ⟨?_, fun other hother => (hmem other).mpr ?_⟩
      · have hnextCounter : counter + 2 =
            (updateLeafById kept.id (edgeUpdater clock edge
              (singleLeaf clock counter tabId)) next (counter + 1)).2 := by
          rw [hcounter, edgeUpdater_counter]
        rw [hnextCounter] at hsplit
        exact hsplit
      · by_cases heq : other = tabId
        · exact .inl heq
        · exact .inr ((htabs other).mpr ⟨hother, heq⟩)

/-! ## New leaves -/

theorem Valid.later {ls : List TerminalWindowLeaf} {next : Nat}
    (h : Valid ls counter) (hle : counter ≤ next) : Valid ls next where
  shown := h.shown
  once := h.once
  ids := h.ids
  created := fun leaf hleaf => Nat.le_trans (h.created leaf hleaf) hle

theorem Valid.nil (counter : Nat) : Valid [] counter where
  shown := fun _ hmem => absurd hmem not_mem_nil
  once := nodup_nil
  ids := nodup_nil
  created := fun _ hmem => absurd hmem not_mem_nil

theorem created_valid (counter : Nat) {tabIds : List TabId} (h : tabIds ≠ [])
    (activeTabId : Option TabId) :
    Valid [(createTerminalWindowLeaf clock tabIds activeTabId counter).1]
      (counter + 1) ∧ ∀ tabId, tabId ∈ tabsOf
          [(createTerminalWindowLeaf clock tabIds activeTabId counter).1] ↔
        tabId ∈ tabIds := by
  constructor
  · exact {
      shown := forall_mem_singleton.mpr (normalizeLeaf_shown h)
      once := by
        rw [tabsOf, flatMap_singleton]
        exact distinct_nodup tabIds
      ids := nodup_singleton _
      created := forall_mem_singleton.mpr (Nat.le_refl _) }
  · intro tabId
    rw [tabsOf, flatMap_singleton]
    exact mem_distinct

theorem Valid.flatten (h : Valid (leaves node) counter)
    (activeTabId : Option TabId) :
    Valid (leaves (flattenTerminalWindows clock node activeTabId counter).1)
      (flattenTerminalWindows clock node activeTabId counter).2 ∧
      ∀ tabId, tabId ∈ tabsOf (leaves
          (flattenTerminalWindows clock node activeTabId counter).1) ↔
        tabId ∈ tabsOf (leaves node) := by
  rw [flattenTerminalWindows]
  by_cases hempty : collectWindowTabIds node = []
  · simp only [hempty, if_true]
    exact ⟨h, fun _ => Iff.rfl⟩
  · simp only [hempty, if_false]
    have hcreated := created_valid clock counter hempty
      (activeTabId.or (collectWindowTabIds node).head?)
    rw [collectWindowTabIds_eq] at hcreated hempty ⊢
    exact hcreated

/-! ## Reconciliation -/

theorem removeGone_fold (tabIds ids : List TabId)
    {layout : Option TerminalWindowNode}
    (h : Valid (layoutLeaves layout) counter) :
    Valid (layoutLeaves (ids.foldl (fun next existingTabId =>
          if existingTabId ∈ tabIds then next
          else next.bind (removeTabFromTerminalWindows existingTabId))
        layout)) counter ∧
      ∀ tabId, tabId ∈ layoutTabs (ids.foldl (fun next existingTabId =>
            if existingTabId ∈ tabIds then next
            else next.bind (removeTabFromTerminalWindows existingTabId))
          layout) ↔
        tabId ∈ layoutTabs layout ∧ (tabId ∈ ids → tabId ∈ tabIds) := by
  induction ids generalizing layout with
  | nil =>
    refine ⟨h, fun tabId => ?_⟩
    exact (and_iff_left fun hmem => absurd hmem not_mem_nil).symm
  | cons existingTabId rest ih =>
    rw [foldl_cons]
    by_cases hstays : existingTabId ∈ tabIds
    · rw [if_pos hstays]
      obtain ⟨hvalid, htabs⟩ := ih h
      refine ⟨hvalid, fun tabId => (htabs tabId).trans ?_⟩
      rw [mem_cons]
      constructor
      · rintro ⟨hin, hrest⟩
        exact ⟨hin, fun hor => hor.elim (fun heq => heq ▸ hstays) hrest⟩
      · rintro ⟨hin, hall⟩
        exact ⟨hin, fun hmem => hall (.inr hmem)⟩
    · rw [if_neg hstays]
      have hremoved : Valid (layoutLeaves
          (layout.bind (removeTabFromTerminalWindows existingTabId)))
            counter ∧
          ∀ tabId, tabId ∈ layoutTabs
              (layout.bind (removeTabFromTerminalWindows existingTabId)) ↔
            tabId ∈ layoutTabs layout ∧ tabId ≠ existingTabId := by
        cases layout with
        | none =>
          refine ⟨h, fun tabId => ?_⟩
          exact (and_iff_left_of_imp fun hmem =>
            absurd hmem not_mem_nil).symm
        | some node =>
          have hleaves :=
            removeTabFromTerminalWindows_leaves existingTabId node
          rw [Option.bind_some, layoutTabs, hleaves]
          exact h.remove existingTabId
      obtain ⟨hvalid, htabs⟩ := ih hremoved.1
      refine ⟨hvalid, fun tabId => (htabs tabId).trans ?_⟩
      rw [hremoved.2, mem_cons]
      constructor
      · rintro ⟨⟨hin, hne⟩, hrest⟩
        exact ⟨hin, fun hor => hrest (hor.resolve_left hne)⟩
      · rintro ⟨hin, hall⟩
        exact ⟨⟨hin, fun heq => hstays (heq ▸ hall (.inl heq))⟩,
          fun hmem => hall (.inr hmem)⟩

theorem insertTabAfterInLeaf_eq {anchorTabId : TabId}
    {found : TerminalWindowLeaf}
    (h : findTerminalWindowLeafByTabId anchorTabId node = some found)
    (newTabId : TabId) (activeTabId : Option (Option TabId)) :
    insertTabAfterInLeaf node anchorTabId newTabId activeTabId =
      updateLeaf node found.id (inserted
        (fun leaf => leaf.tabIds.idxOf anchorTabId + 1) newTabId
        (fun leaf => activeTabId.getD leaf.activeTabId)) := by
  rw [insertTabAfterInLeaf, h]
  rfl

/-- Each missing tab comes behind the one before it, so all of them come into
the leaf of the first anchor. -/
theorem Valid.insertMissing {anchorTabId : TabId} {missing : List TabId}
    (h : Valid (leaves node) counter)
    (hanchor : anchorTabId ∈ tabsOf (leaves node))
    (hmissing : ∀ tabId ∈ missing, tabId ∉ tabsOf (leaves node) ∨
      ∃ leaf ∈ leaves node, anchorTabId ∈ leaf.tabIds ∧ tabId ∈ leaf.tabIds) :
    Valid (leaves (insertMissing node anchorTabId missing)) counter ∧
      ∀ tabId, tabId ∈ tabsOf
          (leaves (insertMissing node anchorTabId missing)) ↔
        tabId ∈ tabsOf (leaves node) ∨ tabId ∈ missing := by
  induction missing generalizing node anchorTabId with
  | nil =>
    refine ⟨h, fun tabId => ?_⟩
    exact (or_iff_left not_mem_nil).symm
  | cons missingTabId rest ih =>
    rw [NiceTerm.Workspace.insertMissing]
    cases hfind : findTerminalWindowLeafByTabId anchorTabId node with
    | none => exact absurd hanchor (find_eq_none_iff.mp hfind)
    | some found =>
      obtain ⟨leaf, hleaf, hin, rfl⟩ := of_find hfind
      have hsame : ∀ tabId ∈ missingTabId :: rest,
          tabId ∈ leaf.tabIds ∨ tabId ∉ tabsOf (leaves node) := by
        intro tabId hmem
        rcases hmissing tabId hmem with hout | ⟨other, hother, ha, ht⟩
        · exact .inr hout
        · rw [h.eq_of_mem hleaf hother hin ha]
          exact .inl ht
      rw [insertTabAfterInLeaf_eq hfind]
      obtain ⟨hvalid, htabs, after, hafter, hafterTabs⟩ :=
        h.insert hleaf rfl (hsame missingTabId mem_cons_self)
      have hfirst : missingTabId ∈ after.tabIds :=
        (hafterTabs missingTabId).mpr (.inl rfl)
      obtain ⟨hrest, hrestTabs⟩ := ih hvalid
        (mem_tabsOf.mpr ⟨after, hafter, hfirst⟩) (by
          intro tabId hmem
          rcases hsame tabId (mem_cons_of_mem _ hmem) with
            hleafTab | hout
          · exact .inr ⟨after, hafter, hfirst,
              (hafterTabs tabId).mpr (.inr hleafTab)⟩
          · by_cases heq : tabId = missingTabId
            · exact .inr ⟨after, hafter, hfirst, heq ▸ hfirst⟩
            · refine .inl fun hmem => ?_
              exact ((htabs tabId).mp hmem).elim heq hout)
      refine ⟨hrest, fun tabId => (hrestTabs tabId).trans ?_⟩
      refine (or_congr_left (htabs tabId)).trans ?_
      rw [mem_cons, or_comm (a := tabId = missingTabId), or_assoc]

theorem insertAnchor_mem (tabIds : List TabId)
    (activeTabId anchorTabId : Option TabId)
    (h : ∀ leaf ∈ leaves node, leaf.tabIds ≠ []) :
    insertAnchor node tabIds activeTabId anchorTabId ∈
      tabsOf (leaves node) := by
  rw [insertAnchor, collectWindowTabIds_eq]
  have hlayout : ∀ {id : Option TabId} {tabId : TabId},
      (given id).filter (· ∈ (leaves node).flatMap
        TerminalWindowLeaf.tabIds) = some tabId →
      tabId ∈ tabsOf (leaves node) := by
    intro id tabId hfilter
    exact of_decide_eq_true (Option.filter_eq_some_iff.mp hfilter).2
  cases hanchor : (given anchorTabId).filter
      (· ∈ (leaves node).flatMap TerminalWindowLeaf.tabIds) with
  | some tabId => exact hlayout hanchor
  | none =>
    cases hactive : (given activeTabId).filter
        (· ∈ (leaves node).flatMap TerminalWindowLeaf.tabIds) with
    | some tabId => exact hlayout hactive
    | none =>
      obtain ⟨leaf, hleaf, heq⟩ := getFirstTerminalWindowLeaf_eq node
      rw [heq, Option.none_or, Option.none_or, getLast?_eq_some_getLast
          (normalizeLeaf_shown (h leaf hleaf)).filled, Option.getD_some]
      exact mem_tabsOf.mpr
        ⟨leaf, hleaf, mem_distinct.mp (getLast_mem _)⟩

theorem Valid.reconcileKept (h : Valid (leaves node) counter)
    (tabIds : List TabId) (activeTabId anchorTabId : Option TabId) :
    Valid (leaves (reconcileKept node tabIds activeTabId anchorTabId))
        counter ∧
      ∀ tabId, tabId ∈ tabsOf
          (leaves (reconcileKept node tabIds activeTabId anchorTabId)) ↔
        tabId ∈ tabsOf (leaves node) ∨ tabId ∈ tabIds := by
  have hlayout : ∀ tabId, tabId ∈ collectWindowTabIds node ↔
      tabId ∈ tabsOf (leaves node) := by
    intro tabId
    rw [collectWindowTabIds_eq]
    rfl
  have hmissing : ∀ tabId ∈ tabIds.filter (· ∉ collectWindowTabIds node),
      tabId ∉ tabsOf (leaves node) := by
    intro tabId hmem hin
    obtain ⟨-, hout⟩ := mem_filter.mp hmem
    exact of_decide_eq_true hout ((hlayout tabId).mpr hin)
  obtain ⟨hvalid, htabs⟩ := h.insertMissing
    (insertAnchor_mem tabIds activeTabId anchorTabId
      fun leaf hleaf => (h.shown leaf hleaf).filled)
    fun tabId hmem => .inl (hmissing tabId hmem)
  have hall : ∀ tabId, tabId ∈ tabsOf (leaves (NiceTerm.Workspace.insertMissing
      node (insertAnchor node tabIds activeTabId anchorTabId)
      (tabIds.filter (· ∉ collectWindowTabIds node)))) ↔
      tabId ∈ tabsOf (leaves node) ∨ tabId ∈ tabIds := by
    intro tabId
    rw [htabs, mem_filter, decide_eq_true_iff, hlayout]
    constructor
    · rintro (hin | hin)
      · exact .inl hin
      · exact .inr hin.1
    · rintro (hin | hin)
      · exact .inl hin
      · by_cases hold : tabId ∈ tabsOf (leaves node)
        · exact .inl hold
        · exact .inr ⟨hin, hold⟩
  rw [NiceTerm.Workspace.reconcileKept]
  cases given activeTabId with
  | none => exact ⟨hvalid, hall⟩
  | some active =>
    obtain ⟨hactive, hactiveTabs⟩ := hvalid.activateTab active
    exact ⟨hactive, fun tabId => (hactiveTabs tabId).trans (hall tabId)⟩

/-- After a reconciliation the layout has the tabs of the list. -/
theorem Valid.reconcile {layout : Option TerminalWindowNode}
    (h : Valid (layoutLeaves layout) counter) (tabIds : List TabId)
    (activeTabId anchorTabId : Option TabId) :
    Valid
      (layoutLeaves (reconcileTerminalWindows clock layout tabIds activeTabId
        anchorTabId counter).1)
      (reconcileTerminalWindows clock layout tabIds activeTabId anchorTabId
        counter).2 ∧
      ∀ tabId, tabId ∈ layoutTabs (reconcileTerminalWindows clock layout
          tabIds activeTabId anchorTabId counter).1 ↔ tabId ∈ tabIds := by
  rw [reconcileTerminalWindows]
  by_cases hempty : tabIds = []
  · subst hempty
    exact ⟨Valid.nil counter, fun _ => Iff.rfl⟩
  · simp only [hempty, if_false]
    cases hgone : layout.bind (removeGone tabIds) with
    | none =>
      rw [createTerminalWindowRoot, if_neg hempty]
      exact created_valid clock counter hempty _
    | some next =>
      obtain ⟨current, rfl, hcurrent⟩ := Option.bind_eq_some_iff.mp hgone
      rw [removeGone] at hcurrent
      obtain ⟨hvalid, htabs⟩ :=
        removeGone_fold tabIds (collectWindowTabIds current) h
      rw [hcurrent] at hvalid htabs
      have hnext : Valid (leaves next) counter := hvalid
      obtain ⟨hkept, hkeptTabs⟩ :=
        hnext.reconcileKept tabIds activeTabId anchorTabId
      refine ⟨hkept, fun tabId => (hkeptTabs tabId).trans ?_⟩
      refine or_iff_right_of_imp fun hin => ?_
      obtain ⟨hold, hstays⟩ := (htabs tabId).mp hin
      refine hstays ?_
      rw [collectWindowTabIds_eq]
      exact hold

/-! ## Saved layouts -/

theorem restoreTabs_spec (tabIds usedTabIds : List TabId) (indexes : List Nat) :
    (restoreTabs tabIds usedTabIds indexes).Nodup ∧
      ∀ tabId ∈ restoreTabs tabIds usedTabIds indexes,
        tabId ∉ usedTabIds := by
  induction indexes generalizing usedTabIds with
  | nil => exact ⟨nodup_nil, fun _ hmem => absurd hmem not_mem_nil⟩
  | cons index rest ih =>
    rw [restoreTabs]
    cases given tabIds[index]? with
    | none => exact ih usedTabIds
    | some tabId =>
      by_cases hused : tabId ∈ usedTabIds
      · simp only [hused, if_true]
        exact ih usedTabIds
      · simp only [hused, if_false]
        obtain ⟨hnodup, hout⟩ := ih (tabId :: usedTabIds)
        constructor
        · exact nodup_cons.mpr
            ⟨fun hmem => hout tabId hmem mem_cons_self, hnodup⟩
        · intro other hmem
          rcases mem_cons.mp hmem with rfl | hrest
          · exact hused
          · exact fun hin => hout other hrest (mem_cons_of_mem _ hin)

/-- What a part of a saved layout gives: leaves of its own, with tabs that no
part before it has taken. -/
structure Restored (usedTabIds : List TabId) (counter : Nat)
    (result : (Option TerminalWindowNode × List TabId) × Nat) : Prop where
  valid : Valid (layoutLeaves result.1.1) result.2
  later : counter ≤ result.2
  fresh : ∀ leaf ∈ layoutLeaves result.1.1, counter < leaf.id.counter
  apart : ∀ tabId ∈ layoutTabs result.1.1, tabId ∉ usedTabIds
  used : ∀ tabId, tabId ∈ result.1.2 ↔
    tabId ∈ usedTabIds ∨ tabId ∈ layoutTabs result.1.1

theorem Valid.append {first second : List TerminalWindowLeaf} {next : Nat}
    (hfirst : Valid first counter) (hsecond : Valid second next)
    (hle : counter ≤ next)
    (hfresh : ∀ leaf ∈ second, counter < leaf.id.counter)
    (hapart : ∀ tabId ∈ tabsOf second, tabId ∉ tabsOf first) :
    Valid (first ++ second) next where
  shown := forall_mem_append.mpr ⟨hfirst.shown, hsecond.shown⟩
  once := by
    rw [tabsOf, flatMap_append]
    refine nodup_append.mpr ⟨hfirst.once, hsecond.once, ?_⟩
    rintro tabId hin other hout rfl
    exact hapart tabId hout hin
  ids := by
    rw [map_append]
    refine nodup_append.mpr ⟨hfirst.ids, hsecond.ids, ?_⟩
    intro a ha b hb hab
    obtain ⟨l, hl, rfl⟩ := mem_map.mp ha
    obtain ⟨l', hl', rfl⟩ := mem_map.mp hb
    have hold := hfirst.created l hl
    have hnew := hfresh l' hl'
    have heq : l.id.counter = l'.id.counter := congrArg WindowId.counter hab
    omega
  created := forall_mem_append.mpr
    ⟨(hfirst.later hle).created, hsecond.created⟩

/-- The second part of a saved split, restored after the first. -/
theorem Restored.append {usedTabIds : List TabId}
    {first second result : (Option TerminalWindowNode × List TabId) × Nat}
    (hfirst : Restored usedTabIds counter first)
    (hsecond : Restored first.1.2 first.2 second)
    (hleaves : layoutLeaves result.1.1 =
      layoutLeaves first.1.1 ++ layoutLeaves second.1.1)
    (hused : result.1.2 = second.1.2) (hlater : second.2 ≤ result.2) :
    Restored usedTabIds counter result := by
  have htabs : layoutTabs result.1.1 =
      layoutTabs first.1.1 ++ layoutTabs second.1.1 := by
    rw [layoutTabs, hleaves, tabsOf, flatMap_append]
    rfl
  have hapart : ∀ tabId ∈ layoutTabs second.1.1,
      tabId ∉ usedTabIds ∧ tabId ∉ layoutTabs first.1.1 := fun tabId hmem =>
    ⟨fun hin => hsecond.apart tabId hmem ((hfirst.used tabId).mpr (.inl hin)),
      fun hin => hsecond.apart tabId hmem ((hfirst.used tabId).mpr (.inr hin))⟩
  exact {
    valid := by
      rw [hleaves]
      refine Valid.later ?_ hlater
      exact hfirst.valid.append hsecond.valid hsecond.later hsecond.fresh
        fun tabId hmem => (hapart tabId hmem).2
    later := Nat.le_trans hfirst.later (Nat.le_trans hsecond.later hlater)
    fresh := by
      rw [hleaves]
      exact forall_mem_append.mpr ⟨hfirst.fresh, fun leaf hleaf =>
        Nat.lt_of_le_of_lt hfirst.later (hsecond.fresh leaf hleaf)⟩
    apart := by
      rw [htabs]
      exact forall_mem_append.mpr
        ⟨hfirst.apart, fun tabId hmem => (hapart tabId hmem).1⟩
    used := by
      intro tabId
      rw [hused, hsecond.used, hfirst.used, htabs, mem_append, or_assoc] }

theorem Restored.split {usedTabIds : List TabId}
    {first second : (Option TerminalWindowNode × List TabId) × Nat}
    (hfirst : Restored usedTabIds counter first)
    (hsecond : Restored first.1.2 first.2 second)
    (direction : PaneSplitDirection) :
    Restored usedTabIds counter (restoredSplit clock direction first.1.1
      second.1.1 second.1.2 second.2) := by
  obtain ⟨⟨firstNode, firstUsed⟩, firstCounter⟩ := first
  obtain ⟨⟨secondNode, secondUsed⟩, secondCounter⟩ := second
  cases firstNode with
  | none => exact hfirst.append hsecond rfl rfl (Nat.le_refl _)
  | some firstNode =>
    cases secondNode with
    | none =>
      exact hfirst.append hsecond (append_nil _).symm rfl (Nat.le_refl _)
    | some secondNode =>
      exact hfirst.append hsecond rfl rfl (Nat.le_succ _)

theorem restore_restored (tabIds : List TabId) (saved : RestorableNode)
    (usedTabIds : List TabId) (counter : Nat) :
    Restored usedTabIds counter
      (restore clock tabIds usedTabIds saved counter) := by
  induction saved generalizing usedTabIds counter with
  | leaf tabIndexes activeTabIndex =>
    rw [restore]
    obtain ⟨hnodup, hout⟩ :=
      restoreTabs_spec tabIds usedTabIds tabIndexes
    by_cases hempty : restoreTabs tabIds usedTabIds tabIndexes = []
    · simp only [hempty, if_true]
      exact {
        valid := Valid.nil counter
        later := Nat.le_refl counter
        fresh := fun _ hmem => absurd hmem not_mem_nil
        apart := fun _ hmem => absurd hmem not_mem_nil
        used := fun _ => (or_iff_left not_mem_nil).symm }
    · simp only [hempty, if_false]
      have hcreated := created_valid clock counter hempty
        (((given (activeTabIndex.bind (tabIds[·]?))).filter
          (· ∈ restoreTabs tabIds usedTabIds tabIndexes)).or
            (restoreTabs tabIds usedTabIds tabIndexes).head?)
      exact {
        valid := hcreated.1
        later := Nat.le_succ counter
        fresh := forall_mem_singleton.mpr (Nat.lt_succ_self counter)
        apart := fun tabId hmem => hout tabId ((hcreated.2 tabId).mp hmem)
        used := by
          intro tabId
          refine mem_append.trans (or_comm.trans ?_)
          exact or_congr_right (hcreated.2 tabId).symm }
  | split direction first second ihfirst ihsecond =>
    exact (ihfirst usedTabIds counter).split clock (ihsecond _ _) direction

theorem restored_valid (layout : Option RestorableNode)
    (tabIds : List TabId) (counter : Nat) :
    Valid
      (layoutLeaves (restoreTerminalWindowLayout clock layout tabIds counter).1)
      (restoreTerminalWindowLayout clock layout tabIds counter).2 := by
  cases layout with
  | none => exact Valid.nil counter
  | some saved =>
    rw [restoreTerminalWindowLayout]
    by_cases hempty : tabIds = []
    · simp only [hempty, if_true]
      exact Valid.nil counter
    · simp only [hempty, if_false]
      have hrestored := restore_restored clock tabIds saved [] counter
      change Valid (layoutLeaves ((restore clock tabIds [] saved
        counter).1.1.filter _)) (restore clock tabIds [] saved counter).2
      cases hfilter : (restore clock tabIds [] saved counter).1.1.filter
          fun node => tabIds.all (· ∈ collectWindowTabIds node) with
      | none => exact Valid.nil _
      | some node =>
        obtain ⟨hnode, -⟩ := Option.filter_eq_some_iff.mp hfilter
        have hvalid := hrestored.valid
        rw [hnode] at hvalid
        exact hvalid

end Layouts

/-! ## Runs -/

/-- The operations on a layout that is there. -/
inductive NodeOperation where
  | insertAfter (anchorTabId newTabId : TabId)
      (activeTabId : Option (Option TabId))
  | insertInto (leafId : WindowId) (newTabId : TabId)
      (afterTabId : Option TabId) (activeTabId : Option (Option TabId))
  | move (tabId : TabId) (targetLeafId : WindowId) (insertIndex : Int)
  | splitForTab (tabId : TabId) (direction : PaneSplitDirection)
      (newTabId : Option TabId)
  | splitLeaf (tabId : TabId) (targetLeafId : WindowId)
      (edge : SplitEdgeDirection)
  | reorder (fromTabId : TabId) (toIndex : Int)
  | activate (leafId : WindowId) (tabId : TabId)
  | activateTab (tabId : TabId)
  | remove (tabId : TabId)
  | flatten (activeTabId : Option TabId)
  deriving DecidableEq, Repr

inductive Operation where
  | reconcile (tabIds : List TabId) (activeTabId anchorTabId : Option TabId)
  | restore (layout : Option RestorableNode) (tabIds : List TabId)
  | onLayout (operation : NodeOperation)
  deriving DecidableEq, Repr

def NodeOperation.apply (clock : Nat → Nat) (node : TerminalWindowNode) :
    NodeOperation → StateM Nat (Option TerminalWindowNode)
  | .insertAfter anchorTabId newTabId activeTabId =>
    return some (insertTabAfterInLeaf node anchorTabId newTabId activeTabId)
  | .insertInto leafId newTabId afterTabId activeTabId =>
    return some (insertTabIntoLeaf node leafId newTabId afterTabId activeTabId)
  | .move tabId targetLeafId insertIndex =>
    return moveTabBetweenLeaves node tabId targetLeafId insertIndex
  | .splitForTab tabId direction newTabId =>
    some <$> splitTerminalWindowForTab clock node tabId direction newTabId
  | .splitLeaf tabId targetLeafId edge =>
    splitLeafWithTab clock node tabId targetLeafId edge
  | .reorder fromTabId toIndex =>
    return some (reorderTabsInLeaf node fromTabId toIndex)
  | .activate leafId tabId => return some (setLeafActiveTab node leafId tabId)
  | .activateTab tabId => return some (setLeafActiveTabByTabId node tabId)
  | .remove tabId => return removeTabFromTerminalWindows tabId node
  | .flatten activeTabId =>
    some <$> flattenTerminalWindows clock node activeTabId

/-- The layout of the window and the counter of its ids. -/
structure WindowState where
  layout : Option TerminalWindowNode
  counter : Nat
  deriving DecidableEq, Repr

/-- An operation on a layout that is not there leaves it so. -/
def Operation.apply (clock : Nat → Nat) (layout : Option TerminalWindowNode) :
    Operation → StateM Nat (Option TerminalWindowNode)
  | .reconcile tabIds activeTabId anchorTabId =>
    reconcileTerminalWindows clock layout tabIds activeTabId anchorTabId
  | .restore saved tabIds => restoreTerminalWindowLayout clock saved tabIds
  | .onLayout operation =>
    layout.elim (return none) fun node => operation.apply clock node

namespace WindowState

def next (clock : Nat → Nat) (s : WindowState) (operation : Operation) :
    WindowState :=
  ⟨(operation.apply clock s.layout s.counter).1,
    (operation.apply clock s.layout s.counter).2⟩

/-- The window before any layout. -/
def start : WindowState := ⟨none, 0⟩

def leavesOf (s : WindowState) : List TerminalWindowLeaf :=
  layoutLeaves s.layout

def tabs (s : WindowState) : List TabId := layoutTabs s.layout

/-- The invariant of a run. -/
def IsValid (s : WindowState) : Prop := Valid s.leavesOf s.counter

def system (clock : Nat → Nat) : System WindowState Operation where
  init := (· = start)
  step := fun s operation => some (s.next clock operation)

end WindowState

/-- The tabs that an operation is meant to take out of the layout. -/
def Operation.Drops (tabId : TabId) : Operation → Prop
  | .reconcile tabIds _ _ => tabId ∉ tabIds
  | .restore _ _ => True
  | .onLayout (.remove removed) => tabId = removed
  | .onLayout _ => False

/-- What is said of each step: the layout after it is tidy, a reconciled layout
has the tabs of the list, and no tab is lost. -/
structure Keeps (clock : Nat → Nat) (s : WindowState)
    (operation : Operation) : Prop where
  tidy : Tidy (s.next clock operation).leavesOf
  exactly : ∀ tabIds activeTabId anchorTabId,
    operation = .reconcile tabIds activeTabId anchorTabId →
      ∀ tabId, tabId ∈ (s.next clock operation).tabs ↔ tabId ∈ tabIds
  kept : ∀ tabId ∈ s.tabs, ¬ operation.Drops tabId →
    tabId ∈ (s.next clock operation).tabs

/-- A tab that is moved goes to a leaf of the layout, and a new tab is in no
other leaf. -/
def Sound (s : WindowState) : Operation → Prop
  | .onLayout (.insertAfter anchorTabId newTabId _) =>
    ∀ leaf ∈ s.leavesOf, anchorTabId ∈ leaf.tabIds →
      newTabId ∈ leaf.tabIds ∨ newTabId ∉ s.tabs
  | .onLayout (.insertInto leafId newTabId _ _) =>
    ∀ leaf ∈ s.leavesOf, leaf.id = leafId →
      newTabId ∈ leaf.tabIds ∨ newTabId ∉ s.tabs
  | .onLayout (.move tabId targetLeafId _) =>
    tabId ∈ s.tabs → ∃ leaf ∈ s.leavesOf, leaf.id = targetLeafId
  | .onLayout (.splitForTab tabId _ newTabId) =>
    tabId ∈ s.tabs → ∀ new, given newTabId = some new → new ∉ s.tabs
  | _ => True

variable {clock : Nat → Nat}

/-- An insertion into the leaf with an id, if there is one. -/
theorem insert_step {node : TerminalWindowNode} {counter : Nat}
    {leafId : WindowId} {newTabId : TabId}
    (position : TerminalWindowLeaf → Nat)
    (activeTabId : TerminalWindowLeaf → Option TabId)
    (h : Valid (leaves node) counter)
    (hnew : ∀ leaf ∈ leaves node, leaf.id = leafId →
      newTabId ∈ leaf.tabIds ∨ newTabId ∉ tabsOf (leaves node)) :
    Valid (leaves (updateLeaf node leafId
        (inserted position newTabId activeTabId))) counter ∧
      ∀ tabId ∈ tabsOf (leaves node), tabId ∈ tabsOf (leaves
        (updateLeaf node leafId (inserted position newTabId activeTabId))) := by
  by_cases hexists : ∃ leaf ∈ leaves node, leaf.id = leafId
  · obtain ⟨leaf, hleaf, rfl⟩ := hexists
    obtain ⟨hvalid, htabs, -⟩ := h.insert hleaf rfl (hnew leaf hleaf rfl)
    exact ⟨hvalid, fun tabId hmem => (htabs tabId).mpr (.inr hmem)⟩
  · rw [updateLeaf_absent fun leaf hleaf heq => hexists ⟨leaf, hleaf, heq⟩,
      tabsOf_normalize h.once]
    exact ⟨h.normalize, fun _ hmem => hmem⟩

theorem NodeOperation.step_sound {node : TerminalWindowNode} {counter : Nat}
    (h : Valid (leaves node) counter) {operation : NodeOperation}
    (hsound : Sound ⟨some node, counter⟩ (.onLayout operation)) :
    Valid (layoutLeaves (operation.apply clock node counter).1)
        (operation.apply clock node counter).2 ∧
      ∀ tabId ∈ tabsOf (leaves node),
        ¬ (Operation.onLayout operation).Drops tabId →
          tabId ∈ layoutTabs (operation.apply clock node counter).1 := by
  cases operation with
  | insertAfter anchorTabId newTabId activeTabId =>
    cases hfind : findTerminalWindowLeafByTabId anchorTabId node with
    | none =>
      simp only [apply, insertTabAfterInLeaf, hfind]
      exact ⟨h, fun _ hmem _ => hmem⟩
    | some found =>
      obtain ⟨leaf, hleaf, hin, rfl⟩ := of_find hfind
      simp only [apply, insertTabAfterInLeaf_eq hfind]
      obtain ⟨hvalid, htabs, -⟩ :=
        h.insert hleaf rfl (hsound leaf hleaf hin)
      exact ⟨hvalid, fun tabId hmem _ => (htabs tabId).mpr (.inr hmem)⟩
  | insertInto leafId newTabId afterTabId activeTabId =>
    have hstep := insert_step (fun leaf => insertPosition leaf afterTabId)
      (fun leaf => activeTabId.getD leaf.activeTabId) h hsound
    exact ⟨hstep.1, fun tabId hmem _ => hstep.2 tabId hmem⟩
  | move tabId targetLeafId insertIndex =>
    obtain ⟨hvalid, htabs⟩ := h.move insertIndex hsound
    exact ⟨hvalid, fun tabId hmem _ => (htabs tabId).mpr hmem⟩
  | splitForTab tabId direction newTabId =>
    obtain ⟨hvalid, hkept⟩ :=
      h.splitForTab clock direction hsound
    exact ⟨hvalid, fun tabId hmem _ => hkept tabId hmem⟩
  | splitLeaf tabId targetLeafId edge =>
    obtain ⟨hvalid, hkept⟩ :=
      h.splitLeaf clock tabId targetLeafId edge
    exact ⟨hvalid, fun tabId hmem _ => hkept tabId hmem⟩
  | reorder fromTabId toIndex =>
    obtain ⟨hvalid, htabs⟩ := h.reorder fromTabId toIndex
    exact ⟨hvalid, fun tabId hmem _ => (htabs tabId).mpr hmem⟩
  | activate leafId tabId =>
    obtain ⟨hvalid, htabs⟩ := h.activate leafId tabId
    exact ⟨hvalid, fun tabId hmem _ => (htabs tabId).mpr hmem⟩
  | activateTab tabId =>
    obtain ⟨hvalid, htabs⟩ := h.activateTab tabId
    exact ⟨hvalid, fun tabId hmem _ => (htabs tabId).mpr hmem⟩
  | remove removed =>
    obtain ⟨hvalid, htabs⟩ := h.remove removed
    rw [← removeTabFromTerminalWindows_leaves] at hvalid htabs
    exact ⟨hvalid, fun tabId hmem hdrops =>
      (htabs tabId).mpr ⟨hmem, hdrops⟩⟩
  | flatten activeTabId =>
    obtain ⟨hvalid, htabs⟩ := h.flatten clock activeTabId
    exact ⟨hvalid, fun tabId hmem _ => (htabs tabId).mpr hmem⟩

variable {operation : Operation} {s : WindowState}

theorem step_sound (clock : Nat → Nat)
    (h : s.IsValid) (hsound : Sound s operation) :
    (s.next clock operation).IsValid ∧
      ∀ tabId ∈ s.tabs, ¬ operation.Drops tabId →
        tabId ∈ (s.next clock operation).tabs := by
  obtain ⟨layout, counter⟩ := s
  cases operation with
  | reconcile tabIds activeTabId anchorTabId =>
    obtain ⟨hvalid, htabs⟩ :=
      Valid.reconcile clock h tabIds activeTabId anchorTabId
    refine ⟨hvalid, fun tabId _ hdrops => (htabs tabId).mpr ?_⟩
    exact not_not.mp hdrops
  | restore saved tabIds =>
    exact ⟨restored_valid clock saved tabIds counter,
      fun _ _ hdrops => absurd trivial hdrops⟩
  | onLayout operation =>
    cases layout with
    | none => exact ⟨h, fun _ hmem _ => hmem⟩
    | some node => exact NodeOperation.step_sound h hsound

theorem keeps_of_sound (h : s.IsValid) (hsound : Sound s operation) :
    Keeps clock s operation := by
  obtain ⟨hvalid, hkept⟩ := step_sound clock h hsound
  refine ⟨hvalid.toTidy, ?_, hkept⟩
  rintro tabIds activeTabId anchorTabId rfl
  exact (Valid.reconcile clock h tabIds activeTabId anchorTabId).2

theorem sound_of_keeps (h : s.IsValid) (hkeeps : Keeps clock s operation) :
    Sound s operation := by
  obtain ⟨layout, counter⟩ := s
  cases operation with
  | reconcile tabIds activeTabId anchorTabId => trivial
  | restore saved tabIds => trivial
  | onLayout operation =>
    cases layout with
    | none =>
      cases operation with
      | insertAfter anchorTabId newTabId activeTabId =>
        exact fun _ hmem => absurd hmem not_mem_nil
      | insertInto leafId newTabId afterTabId activeTabId =>
        exact fun _ hmem => absurd hmem not_mem_nil
      | move tabId targetLeafId insertIndex =>
        exact fun hmem => absurd hmem not_mem_nil
      | splitForTab tabId direction newTabId =>
        exact fun hmem => absurd hmem not_mem_nil
      | _ => trivial
    | some node =>
      cases operation with
      | insertAfter anchorTabId newTabId activeTabId =>
        intro leaf hleaf hin
        by_contra hnot
        obtain ⟨hout, hold⟩ := not_or.mp hnot
        cases hfind : findTerminalWindowLeafByTabId anchorTabId node with
        | none =>
          exact find_eq_none_iff.mp hfind (mem_tabsOf.mpr ⟨leaf, hleaf, hin⟩)
        | some found =>
          obtain ⟨other, hother, hin', rfl⟩ := of_find hfind
          obtain rfl := h.eq_of_mem hleaf hother hin hin'
          have htidy : Tidy (leaves (insertTabAfterInLeaf node
              anchorTabId newTabId activeTabId)) := hkeeps.tidy
          rw [insertTabAfterInLeaf_eq hfind] at htidy
          exact h.insert_twice hleaf rfl (not_not.mp hold) hout htidy
      | insertInto leafId newTabId afterTabId activeTabId =>
        rintro leaf hleaf rfl
        by_contra hnot
        obtain ⟨hout, hold⟩ := not_or.mp hnot
        exact h.insert_twice hleaf rfl (not_not.mp hold) hout hkeeps.tidy
      | move tabId targetLeafId insertIndex =>
        intro htab
        by_contra hnot
        refine h.move_lost insertIndex htab ?_ (hkeeps.kept tabId htab id)
        exact fun leaf hleaf heq => hnot ⟨leaf, hleaf, heq⟩
      | splitForTab tabId direction newTabId =>
        intro htab new hgiven hold
        exact h.split_twice clock direction htab hgiven hold hkeeps.tidy
      | _ => trivial

/-- A run from the empty window keeps every tab once, with nothing lost, exactly
if its moves go to leaves of the layout and its new tabs are new. -/
theorem keeps_along_iff (clock : Nat → Nat) (operations : List Operation) :
    (WindowState.system clock).Along (Keeps clock) .start operations ↔
      (WindowState.system clock).Along Sound .start operations := by
  have hstart : WindowState.start.IsValid := Valid.nil 0
  refine System.along_iff_along (WindowState.system clock) ?_ ?_ hstart
  · intro s operation t h hsound hstep
    obtain rfl := Option.some.inj hstep
    exact (step_sound clock h hsound).1
  · exact fun s operation h => ⟨sound_of_keeps h, keeps_of_sound h⟩

/-- Tab `a` is moved to a leaf that is gone, and the layout shows `b` alone. -/
theorem move_loses_tab :
    ¬ (WindowState.system fun _ => 0).Along (Keeps fun _ => 0) .start
      [.reconcile ["a", "b"] (some "a") none,
        .onLayout (.move "a" ⟨false, 0, 9⟩ 0)] := by
  rintro ⟨-, hrest⟩
  have hkept := (hrest _ rfl).1.kept "a" (by decide) id
  exact absurd hkept (by decide)

end NiceTerm.Workspace
