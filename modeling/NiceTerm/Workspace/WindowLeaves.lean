/-
The invariant of the terminal windows, as one of their leaves: what an update, a
removal and a move within the layout keep of it.
-/
import NiceTerm.Workspace.TabWindows

namespace NiceTerm.Workspace

open List Option

/-- The leaf has tabs, and its active tab is one of them. -/
structure Shown (leaf : TerminalWindowLeaf) : Prop where
  filled : leaf.tabIds ≠ []
  active : ∃ tabId ∈ leaf.tabIds, leaf.activeTabId = some tabId

def tabsOf (ls : List TerminalWindowLeaf) : List TabId :=
  ls.flatMap TerminalWindowLeaf.tabIds

/-- No leaf is empty, each active tab is in its leaf, and no tab is there
twice. -/
structure Tidy (ls : List TerminalWindowLeaf) : Prop where
  shown : ∀ leaf ∈ ls, Shown leaf
  once : (tabsOf ls).Nodup

/-- The ids of the leaves are those of earlier calls, each used once. -/
structure Valid (ls : List TerminalWindowLeaf) (counter : Nat) : Prop
    extends Tidy ls where
  ids : (ls.map TerminalWindowLeaf.id).Nodup
  created : ∀ leaf ∈ ls, leaf.id.counter ≤ counter

/-! ## Lists of tabs -/

variable {ids : List TabId} {tabId : TabId}

theorem mem_distinct :
    tabId ∈ distinct ids ↔ tabId ∈ ids := by
  have h := @Distinct.mem_keys_firsts TabId TabId _ id [] ids tabId
  rw [List.map_id, List.map_id] at h
  exact h.trans (and_iff_left not_mem_nil)

theorem distinct_nodup (ids : List TabId) : (distinct ids).Nodup := by
  have h := @Distinct.keys_firsts_nodup TabId TabId _ id [] ids
  rw [List.map_id] at h
  exact h

theorem firsts_of_nodup {seen : List TabId} (h : ids.Nodup)
    (hseen : ∀ tabId ∈ ids, tabId ∉ seen) :
    Distinct.firsts id seen ids = ids := by
  induction ids generalizing seen with
  | nil => rfl
  | cons tabId rest ih =>
    obtain ⟨hfirst, hrest⟩ := nodup_cons.mp h
    have hnew : id tabId ∉ seen := hseen tabId mem_cons_self
    rw [Distinct.firsts, if_neg hnew, ih hrest]
    intro other hother hmem
    rcases mem_cons.mp hmem with rfl | hold
    · exact hfirst hother
    · exact hseen other (mem_cons_of_mem _ hother) hold

theorem distinct_of_nodup (h : ids.Nodup) : distinct ids = ids :=
  firsts_of_nodup h fun _ _ => not_mem_nil

theorem mem_spliceIn {index : Nat} {other : TabId} :
    other ∈ spliceIn ids index tabId ↔ other = tabId ∨ other ∈ ids := by
  have hids : other ∈ ids ↔
      other ∈ ids.take index ∨ other ∈ ids.drop index := by
    rw [← mem_append, take_append_drop]
  rw [spliceIn, mem_append, mem_cons, hids]
  exact or_left_comm

variable {ls rest : List TerminalWindowLeaf}

theorem tabsOf_perm {ls' : List TerminalWindowLeaf} (h : ls.Perm ls') :
    (tabsOf ls).Perm (tabsOf ls') :=
  h.flatMap_right _

theorem mem_tabsOf :
    tabId ∈ tabsOf ls ↔ ∃ leaf ∈ ls, tabId ∈ leaf.tabIds :=
  mem_flatMap

/-! ## Normalized leaves -/

variable {leaf : TerminalWindowLeaf}

theorem normalizeLeaf_shown
    (h : leaf.tabIds ≠ []) : Shown (normalizeLeaf leaf) := by
  obtain ⟨first, hfirst⟩ := exists_mem_of_ne_nil _ h
  have hne : distinct leaf.tabIds ≠ [] :=
    ne_nil_of_mem (mem_distinct.mpr hfirst)
  obtain ⟨head, rest, hcons⟩ := exists_cons_of_ne_nil hne
  refine ⟨hne, ?_⟩
  change ∃ tabId ∈ distinct leaf.tabIds,
    ((given leaf.activeTabId).filter (· ∈ distinct leaf.tabIds)).or
      (distinct leaf.tabIds).head? = some tabId
  cases hgiven : (given leaf.activeTabId).filter (· ∈ distinct leaf.tabIds) with
  | none =>
    refine ⟨head, hcons ▸ mem_cons_self, ?_⟩
    rw [hcons]
    rfl
  | some tabId =>
    obtain ⟨-, hmem⟩ := filter_eq_some_iff.mp hgiven
    exact ⟨tabId, of_decide_eq_true hmem, rfl⟩

theorem tabsOf_normalize
    (h : (tabsOf ls).Nodup) : tabsOf (ls.map normalizeLeaf) = tabsOf ls := by
  induction ls with
  | nil => rfl
  | cons leaf rest ih =>
    rw [tabsOf, flatMap_cons, nodup_append] at h
    obtain ⟨hleaf, hrest, -⟩ := h
    have htail := ih hrest
    rw [tabsOf] at htail
    rw [tabsOf, tabsOf, map_cons, flatMap_cons, htail, flatMap_cons]
    exact congrArg (· ++ tabsOf rest) (distinct_of_nodup hleaf)

theorem Tidy.nodup (h : Tidy ls) (hleaf : leaf ∈ ls) : leaf.tabIds.Nodup :=
  (nodup_flatMap.mp h.once).1 leaf hleaf

theorem Valid.normalize {counter : Nat}
    (h : Valid ls counter) : Valid (ls.map normalizeLeaf) counter where
  shown := by
    intro leaf hleaf
    obtain ⟨before, hbefore, rfl⟩ := mem_map.mp hleaf
    exact normalizeLeaf_shown (h.shown before hbefore).filled
  once := (tabsOf_normalize h.once).symm ▸ h.once
  ids := by
    rw [List.map_map]
    exact h.ids
  created := by
    intro leaf hleaf
    obtain ⟨before, hbefore, rfl⟩ := List.mem_map.mp hleaf
    exact h.created before hbefore

theorem Valid.perm {ls' : List TerminalWindowLeaf} {counter : Nat}
    (h : Valid ls counter) (hperm : ls'.Perm ls) : Valid ls' counter where
  shown := fun leaf hleaf => h.shown leaf (hperm.mem_iff.mp hleaf)
  once := (tabsOf_perm hperm).nodup_iff.mpr h.once
  ids := (hperm.map _).nodup_iff.mpr h.ids
  created := fun leaf hleaf => h.created leaf (hperm.mem_iff.mp hleaf)

/-- A tab of the first leaf is in no other leaf. -/
theorem Tidy.apart (h : Tidy ls) (hperm : ls.Perm (leaf :: rest))
    (hmem : tabId ∈ leaf.tabIds) : tabId ∉ tabsOf rest := by
  have hnodup := (tabsOf_perm hperm).nodup_iff.mp h.once
  rw [tabsOf, flatMap_cons, nodup_append] at hnodup
  exact fun hrest => hnodup.2.2 tabId hmem tabId hrest rfl

/-- Another list of leaves in the place of one leaf. -/
theorem Valid.replace {new result : List TerminalWindowLeaf}
    {counter next : Nat} (h : Valid ls counter)
    (hperm : ls.Perm (leaf :: rest))
    (hresult : result.Perm (new ++ rest.map normalizeLeaf))
    (hshown : ∀ l ∈ new, Shown l) (honce : (tabsOf new).Nodup)
    (htabs : ∀ tabId ∈ tabsOf new, tabId ∈ leaf.tabIds ∨ tabId ∉ tabsOf ls)
    (hids : (new.map TerminalWindowLeaf.id).Nodup)
    (hid : ∀ l ∈ new, l.id = leaf.id ∨ counter < l.id.counter)
    (hcreated : ∀ l ∈ new, l.id.counter ≤ next) (hnext : counter ≤ next) :
    Valid result next := by
  have hordered := h.perm hperm.symm
  have hrest : Valid rest counter := {
    shown := fun l hl => hordered.shown l (mem_cons_of_mem _ hl)
    once := by
      have honce := hordered.once
      rw [tabsOf, flatMap_cons, nodup_append] at honce
      exact honce.2.1
    ids := (nodup_cons.mp hordered.ids).2
    created := fun l hl => hordered.created l (mem_cons_of_mem _ hl) }
  have hkept := hrest.normalize
  refine Valid.perm ?_ hresult
  exact {
    shown := by
      intro l hl
      rcases mem_append.mp hl with hin | hin
      · exact hshown l hin
      · exact hkept.shown l hin
    once := by
      rw [tabsOf, flatMap_append]
      refine nodup_append.mpr ⟨honce, hkept.once, ?_⟩
      rintro tabId hin other hout rfl
      have hother : tabId ∈ tabsOf rest := by
        rw [← tabsOf_normalize hrest.once]
        exact hout
      rcases htabs tabId hin with hleaf | habsent
      · exact h.apart hperm hleaf hother
      · refine habsent ((tabsOf_perm hperm).mem_iff.mpr ?_)
        exact mem_append_right _ hother
    ids := by
      rw [map_append]
      refine nodup_append.mpr ⟨hids, hkept.ids, ?_⟩
      intro a ha b hb hab
      obtain ⟨l, hl, rfl⟩ := mem_map.mp ha
      obtain ⟨kept, hin, rfl⟩ := mem_map.mp hb
      obtain ⟨before, hbefore, rfl⟩ := mem_map.mp hin
      rcases hid l hl with hsame | hfresh
      · refine (nodup_cons.mp hordered.ids).1 ?_
        rw [← hsame, hab]
        exact mem_map.mpr ⟨before, hbefore, rfl⟩
      · have hle := hrest.created before hbefore
        have heq : l.id.counter = before.id.counter :=
          congrArg WindowId.counter hab
        omega
    created := by
      intro l hl
      rcases mem_append.mp hl with hin | hin
      · exact hcreated l hin
      · exact Nat.le_trans (hkept.created l hin) hnext }

/-- The tabs after another list of leaves stands in the place of one leaf. -/
theorem Valid.mem_replaced {new result : List TerminalWindowLeaf}
    {counter : Nat} (h : Valid ls counter) (hperm : ls.Perm (leaf :: rest))
    (hresult : result.Perm (new ++ rest.map normalizeLeaf)) (tabId : TabId) :
    tabId ∈ tabsOf result ↔
      tabId ∈ tabsOf new ∨ tabId ∈ tabsOf ls ∧ tabId ∉ leaf.tabIds := by
  have hrest : (tabsOf rest).Nodup := by
    have honce := (tabsOf_perm hperm).nodup_iff.mp h.once
    rw [tabsOf, flatMap_cons, nodup_append] at honce
    exact honce.2.1
  have hsplit : tabId ∈ tabsOf ls ↔
      tabId ∈ leaf.tabIds ∨ tabId ∈ tabsOf rest := by
    rw [(tabsOf_perm hperm).mem_iff, tabsOf, flatMap_cons, mem_append]
    rfl
  rw [(tabsOf_perm hresult).mem_iff, tabsOf, flatMap_append,
    mem_append, hsplit]
  have hnormal : tabId ∈ (rest.map normalizeLeaf).flatMap
      TerminalWindowLeaf.tabIds ↔ tabId ∈ tabsOf rest := by
    rw [← tabsOf_normalize hrest]
    rfl
  rw [hnormal]
  constructor
  · rintro (hnew | hold)
    · exact .inl hnew
    · exact .inr ⟨.inr hold, fun hleaf => h.apart hperm hleaf hold⟩
  · rintro (hnew | ⟨hleaf | hold, hout⟩)
    · exact .inl hnew
    · exact absurd hleaf hout
    · exact .inr hold

/-! ## Updates of a leaf -/

theorem normalizeLeaf_tabIds
    (h : leaf.tabIds.Nodup) : (normalizeLeaf leaf).tabIds = leaf.tabIds :=
  distinct_of_nodup h

theorem of_find {node : TerminalWindowNode} {found : TerminalWindowLeaf}
    (h : findTerminalWindowLeafByTabId tabId node = some found) :
    ∃ leaf ∈ leaves node,
      tabId ∈ leaf.tabIds ∧ found = normalizeLeaf leaf := by
  rw [findTerminalWindowLeafByTabId_eq] at h
  obtain ⟨leaf, hfind, rfl⟩ := map_eq_some_iff.mp h
  exact ⟨leaf, mem_of_find?_eq_some hfind,
    of_decide_eq_true (find?_some hfind :), rfl⟩

theorem find_eq_none_iff {node : TerminalWindowNode} :
    findTerminalWindowLeafByTabId tabId node = none ↔
      tabId ∉ tabsOf (leaves node) := by
  rw [findTerminalWindowLeafByTabId_eq, map_eq_none_iff,
    find?_eq_none, mem_tabsOf]
  simp

theorem updateLeaf_found {node : TerminalWindowNode}
    (hids : ((leaves node).map TerminalWindowLeaf.id).Nodup)
    (hleaf : leaf ∈ leaves node)
    (updater : TerminalWindowLeaf → TerminalWindowLeaf) :
    ∃ rest, (leaves node).Perm (leaf :: rest) ∧
      (leaves (updateLeaf node leaf.id updater)).Perm
        ([updater (normalizeLeaf leaf)] ++ rest.map normalizeLeaf) := by
  obtain ⟨rest, place, hperm, hplace, hupdate⟩ :=
    updateLeafById_found (m := Id) hids hleaf
  refine ⟨rest, hperm, ?_⟩
  rw [updateLeaf, hupdate]
  exact hplace (.leaf (updater (normalizeLeaf leaf)))

theorem updateLeaf_absent {node : TerminalWindowNode} {leafId : WindowId}
    (h : ∀ leaf ∈ leaves node, leaf.id ≠ leafId)
    (updater : TerminalWindowLeaf → TerminalWindowLeaf) :
    leaves (updateLeaf node leafId updater) =
      (leaves node).map normalizeLeaf := by
  obtain ⟨kept, hkept, hpure⟩ := updateLeafById_absent (m := Id) h
  rw [updateLeaf, hpure]
  exact hkept

/-- An update that keeps the tabs of the leaf, in whatever order. -/
theorem Valid.update_same {node : TerminalWindowNode} {counter : Nat}
    (h : Valid (leaves node) counter) (leafId : WindowId)
    {updater : TerminalWindowLeaf → TerminalWindowLeaf}
    (hupdater : ∀ leaf, leaf.tabIds.Nodup → Shown leaf →
      (updater leaf).id = leaf.id ∧ Shown (updater leaf) ∧
        (updater leaf).tabIds.Perm leaf.tabIds) :
    Valid (leaves (updateLeaf node leafId updater)) counter ∧
      ∀ tabId, tabId ∈ tabsOf (leaves (updateLeaf node leafId updater)) ↔
        tabId ∈ tabsOf (leaves node) := by
  by_cases hexists : ∃ leaf ∈ leaves node, leaf.id = leafId
  · obtain ⟨leaf, hleaf, rfl⟩ := hexists
    have hnodup := h.nodup hleaf
    have htabs := normalizeLeaf_tabIds hnodup
    obtain ⟨hid, hshown, htabIds⟩ := hupdater (normalizeLeaf leaf)
      (htabs.symm ▸ hnodup) (normalizeLeaf_shown (h.shown leaf hleaf).filled)
    rw [htabs] at htabIds
    have hnew : ∀ tabId, tabId ∈ tabsOf [updater (normalizeLeaf leaf)] ↔
        tabId ∈ leaf.tabIds := by
      intro tabId
      rw [tabsOf, flatMap_singleton, htabIds.mem_iff]
    obtain ⟨rest, hperm, hresult⟩ := updateLeaf_found h.ids hleaf updater
    constructor
    · refine h.replace hperm hresult ?_ ?_ ?_ (nodup_singleton _) ?_ ?_
        (Nat.le_refl counter)
      · exact forall_mem_singleton.mpr hshown
      · rw [tabsOf, flatMap_singleton]
        exact htabIds.nodup_iff.mpr hnodup
      · exact fun tabId hmem => .inl ((hnew tabId).mp hmem)
      · exact forall_mem_singleton.mpr (.inl hid)
      · refine forall_mem_singleton.mpr ?_
        rw [hid]
        exact h.created leaf hleaf
    · intro tabId
      rw [h.mem_replaced hperm hresult, hnew]
      constructor
      · rintro (hin | hin)
        · exact mem_tabsOf.mpr ⟨leaf, hleaf, hin⟩
        · exact hin.1
      · intro hin
        by_cases hleafTab : tabId ∈ leaf.tabIds
        · exact .inl hleafTab
        · exact .inr ⟨hin, hleafTab⟩
  · have habsent := updateLeaf_absent
      (fun leaf hleaf heq => hexists ⟨leaf, hleaf, heq⟩) updater
    rw [habsent, tabsOf_normalize h.once]
    exact ⟨h.normalize, fun tabId => Iff.rfl⟩

/-- What both ways to insert a tab do with the leaf. -/
def inserted (position : TerminalWindowLeaf → Nat) (newTabId : TabId)
    (activeTabId : TerminalWindowLeaf → Option TabId)
    (currentLeaf : TerminalWindowLeaf) : TerminalWindowLeaf :=
  normalizeLeaf { currentLeaf with
    tabIds :=
      if newTabId ∈ currentLeaf.tabIds then currentLeaf.tabIds
      else spliceIn currentLeaf.tabIds (position currentLeaf) newTabId
    activeTabId := activeTabId currentLeaf }

variable {position : TerminalWindowLeaf → Nat} {newTabId : TabId}
  {activeTabId : TerminalWindowLeaf → Option TabId}

theorem mem_inserted (h : leaf.tabIds.Nodup) :
    tabId ∈ (inserted position newTabId activeTabId
        (normalizeLeaf leaf)).tabIds ↔
      tabId = newTabId ∨ tabId ∈ leaf.tabIds := by
  refine mem_distinct.trans ?_
  change tabId ∈ (if newTabId ∈ (normalizeLeaf leaf).tabIds then
    (normalizeLeaf leaf).tabIds else spliceIn _ _ newTabId) ↔ _
  rw [normalizeLeaf_tabIds h]
  by_cases hnew : newTabId ∈ leaf.tabIds
  · rw [if_pos hnew]
    exact (or_iff_right_of_imp fun heq => heq ▸ hnew).symm
  · rw [if_neg hnew]
    exact mem_spliceIn

section Insert

variable {node : TerminalWindowNode} {counter : Nat}
  {leaf : TerminalWindowLeaf}
  {updater : TerminalWindowLeaf → TerminalWindowLeaf}

section

variable (h : Valid (leaves node) counter) (hleaf : leaf ∈ leaves node)
    (hupdater : updater (normalizeLeaf leaf) = inserted position newTabId activeTabId (normalizeLeaf leaf))
include h hleaf hupdater

/-- A tab that is new, or in the leaf already, is inserted. -/
theorem Valid.insert
    (hnew : newTabId ∈ leaf.tabIds ∨ newTabId ∉ tabsOf (leaves node)) :
    Valid (leaves (updateLeaf node leaf.id updater)) counter ∧
      (∀ tabId, tabId ∈ tabsOf (leaves (updateLeaf node leaf.id updater)) ↔
        tabId = newTabId ∨ tabId ∈ tabsOf (leaves node)) ∧
      ∃ after ∈ leaves (updateLeaf node leaf.id updater),
        ∀ tabId, tabId ∈ after.tabIds ↔
          tabId = newTabId ∨ tabId ∈ leaf.tabIds := by
  have hnodup := h.nodup hleaf
  have hmem : ∀ tabId, tabId ∈ tabsOf [updater (normalizeLeaf leaf)] ↔
      tabId = newTabId ∨ tabId ∈ leaf.tabIds := by
    intro tabId
    rw [hupdater, tabsOf, flatMap_singleton]
    exact mem_inserted hnodup
  obtain ⟨rest, hperm, hresult⟩ := updateLeaf_found h.ids hleaf updater
  refine ⟨?_, ?_, ?_⟩
  · refine h.replace hperm hresult ?_ ?_ ?_ (nodup_singleton _) ?_ ?_
      (Nat.le_refl counter)
    · refine forall_mem_singleton.mpr ?_
      have hin : newTabId ∈ (inserted position newTabId activeTabId
          (normalizeLeaf leaf)).tabIds := (mem_inserted hnodup).mpr (.inl rfl)
      rw [hupdater]
      exact normalizeLeaf_shown (ne_nil_of_mem (mem_distinct.mp hin))
    · rw [hupdater, tabsOf, flatMap_singleton]
      exact distinct_nodup _
    · intro tabId hin
      rcases (hmem tabId).mp hin with rfl | hold
      · exact hnew
      · exact .inl hold
    · exact forall_mem_singleton.mpr (.inl (hupdater ▸ rfl))
    · refine forall_mem_singleton.mpr ?_
      rw [hupdater]
      exact h.created leaf hleaf
  · intro tabId
    rw [h.mem_replaced hperm hresult, hmem]
    constructor
    · rintro ((heq | hin) | hin)
      · exact .inl heq
      · exact .inr (mem_tabsOf.mpr ⟨leaf, hleaf, hin⟩)
      · exact .inr hin.1
    · rintro (heq | hin)
      · exact .inl (.inl heq)
      · by_cases hleafTab : tabId ∈ leaf.tabIds
        · exact .inl (.inr hleafTab)
        · exact .inr ⟨hin, hleafTab⟩
  · refine ⟨updater (normalizeLeaf leaf),
      hresult.mem_iff.mpr mem_cons_self, fun tabId => ?_⟩
    rw [hupdater]
    exact mem_inserted hnodup

/-- A tab of another leaf is in two leaves after it is inserted. -/
theorem Valid.insert_twice
    (hold : newTabId ∈ tabsOf (leaves node)) (hout : newTabId ∉ leaf.tabIds) :
    ¬ Tidy (leaves (updateLeaf node leaf.id updater)) := by
  intro htidy
  obtain ⟨rest, hperm, hresult⟩ := updateLeaf_found h.ids hleaf updater
  have hrest : newTabId ∈ tabsOf rest := by
    have hin := (tabsOf_perm hperm).mem_iff.mp hold
    rw [tabsOf, flatMap_cons] at hin
    exact (mem_append.mp hin).resolve_left hout
  have hafter : newTabId ∈ (updater (normalizeLeaf leaf)).tabIds := by
    rw [hupdater]
    exact (mem_inserted (h.nodup hleaf)).mpr (.inl rfl)
  refine htidy.apart hresult hafter ?_
  obtain ⟨other, hother, hin⟩ := mem_tabsOf.mp hrest
  exact mem_tabsOf.mpr ⟨normalizeLeaf other, mem_map_of_mem hother,
    mem_distinct.mpr hin⟩

end

end Insert

/-! ## Removal -/

/-- A tab leaves the layout; the leaf of it goes with its last tab. -/
theorem removeTabFromLeaf_spec (tabId : TabId)
    (hnodup : leaf.tabIds.Nodup) (hshown : Shown leaf) :
    (removeTabFromLeaf tabId leaf = none ∧
        leaf.tabIds.filter (· ≠ tabId) = []) ∨
      ∃ after, removeTabFromLeaf tabId leaf = some after ∧ after.id = leaf.id ∧
        Shown after ∧ after.tabIds = leaf.tabIds.filter (· ≠ tabId) := by
  by_cases hmem : tabId ∈ leaf.tabIds
  · by_cases hempty : leaf.tabIds.filter (· ≠ tabId) = []
    · refine .inl ⟨?_, hempty⟩
      rw [removeTabFromLeaf, if_neg (not_not_intro hmem)]
      exact if_pos hempty
    · have hafter : removeTabFromLeaf tabId leaf =
          some (normalizeLeaf ⟨leaf.id, leaf.tabIds.filter (· ≠ tabId),
            if leaf.activeTabId = some tabId then
              (leaf.tabIds.filter (· ≠ tabId)).head?
            else leaf.activeTabId⟩) := by
        rw [removeTabFromLeaf, if_neg (not_not_intro hmem)]
        exact if_neg hempty
      exact .inr ⟨_, hafter, rfl, normalizeLeaf_shown hempty,
        distinct_of_nodup (hnodup.filter _)⟩
  · refine .inr ⟨normalizeLeaf leaf, if_pos hmem, rfl,
      normalizeLeaf_shown hshown.filled, ?_⟩
    rw [normalizeLeaf_tabIds hnodup, filter_eq_self.mpr]
    intro other hother
    exact decide_eq_true fun heq => hmem (heq ▸ hother)

theorem filterMap_remove (tabId : TabId)
    (h : ∀ leaf ∈ ls, leaf.tabIds.Nodup ∧ Shown leaf) :
    tabsOf (ls.filterMap (removeTabFromLeaf tabId)) =
        (tabsOf ls).filter (· ≠ tabId) ∧
      ((ls.filterMap (removeTabFromLeaf tabId)).map
        TerminalWindowLeaf.id).Sublist (ls.map TerminalWindowLeaf.id) := by
  induction ls with
  | nil => exact ⟨rfl, Sublist.refl []⟩
  | cons leaf rest ih =>
    obtain ⟨htabs, hids⟩ :=
      ih fun other hother => h other (mem_cons_of_mem _ hother)
    obtain ⟨hnodup, hshown⟩ := h leaf mem_cons_self
    rw [tabsOf] at htabs
    rcases removeTabFromLeaf_spec tabId hnodup hshown with
      ⟨hnone, hempty⟩ | ⟨after, hsome, hid, -, htabIds⟩
    · rw [filterMap_cons_none hnone, tabsOf, tabsOf, htabs,
        flatMap_cons, filter_append, hempty]
      exact ⟨rfl, hids.cons _⟩
    · rw [filterMap_cons_some hsome, tabsOf, tabsOf, flatMap_cons, htabs,
        htabIds, flatMap_cons, filter_append, map_cons, hid]
      exact ⟨rfl, hids.cons_cons _⟩

theorem Valid.remove {counter : Nat} (h : Valid ls counter) (tabId : TabId) :
    Valid (ls.filterMap (removeTabFromLeaf tabId)) counter ∧
      ∀ other, other ∈ tabsOf (ls.filterMap (removeTabFromLeaf tabId)) ↔
        other ∈ tabsOf ls ∧ other ≠ tabId := by
  obtain ⟨htabs, hids⟩ :=
    filterMap_remove tabId fun leaf hleaf => ⟨h.nodup hleaf, h.shown leaf hleaf⟩
  have hafter : ∀ after ∈ ls.filterMap (removeTabFromLeaf tabId),
      ∃ leaf ∈ ls, after.id = leaf.id ∧ Shown after := by
    intro after hmem
    obtain ⟨leaf, hleaf, hsome⟩ := mem_filterMap.mp hmem
    rcases removeTabFromLeaf_spec tabId (h.nodup hleaf)
        (h.shown leaf hleaf) with ⟨hnone, -⟩ | ⟨kept, hkept, hid, hshown, -⟩
    · rw [hnone] at hsome
      cases hsome
    · obtain rfl := some.inj (hkept.symm.trans hsome)
      exact ⟨leaf, hleaf, hid, hshown⟩
  constructor
  · exact {
      shown := by
        intro after hmem
        obtain ⟨-, -, -, hshown⟩ := hafter after hmem
        exact hshown
      once := htabs.symm ▸ h.once.filter _
      ids := hids.nodup h.ids
      created := by
        intro after hmem
        obtain ⟨leaf, hleaf, hid, -⟩ := hafter after hmem
        exact hid.symm ▸ h.created leaf hleaf }
  · intro other
    rw [htabs, mem_filter, decide_eq_true_iff]

/-! ## The operations -/

/-- The tabs of a layout that may be gone. -/
def layoutTabs (layout : Option TerminalWindowNode) : List TabId :=
  tabsOf (layoutLeaves layout)

theorem Tidy.eq_of_mem (h : Tidy ls) {first second : TerminalWindowLeaf}
    (hfirst : first ∈ ls) (hsecond : second ∈ ls) (hin : tabId ∈ first.tabIds)
    (hin' : tabId ∈ second.tabIds) : first = second := by
  by_contra hne
  have hperm := perm_cons_erase hfirst
  have hmem := (hperm.mem_iff.mp hsecond)
  rcases mem_cons.mp hmem with heq | hrest
  · exact hne heq.symm
  · exact h.apart hperm hin (mem_tabsOf.mpr ⟨second, hrest, hin'⟩)

theorem spliceIn_perm (ids : List TabId) (index : Nat) (tabId : TabId) :
    (spliceIn ids index tabId).Perm (tabId :: ids) := by
  have htogether : ids.take index ++ ids.drop index = ids :=
    take_append_drop index ids
  exact perm_middle.trans (Perm.of_eq (congrArg _ htogether))

section

variable {node : TerminalWindowNode} {counter : Nat}
    (h : Valid (leaves node) counter)
include h

theorem Valid.activate (leafId : WindowId) (tabId : TabId) :
    Valid (leaves (setLeafActiveTab node leafId tabId)) counter ∧
      ∀ other, other ∈ tabsOf (leaves (setLeafActiveTab node leafId tabId)) ↔
        other ∈ tabsOf (leaves node) := by
  refine h.update_same leafId fun leaf hnodup hshown => ?_
  by_cases hmem : tabId ∈ leaf.tabIds
  · rw [if_pos hmem]
    exact ⟨rfl, normalizeLeaf_shown hshown.filled,
      Perm.of_eq (distinct_of_nodup hnodup)⟩
  · rw [if_neg hmem]
    exact ⟨rfl, hshown, Perm.refl _⟩

theorem Valid.activateTab (tabId : TabId) :
    Valid (leaves (setLeafActiveTabByTabId node tabId)) counter ∧
      ∀ other, other ∈ tabsOf (leaves (setLeafActiveTabByTabId node tabId)) ↔
        other ∈ tabsOf (leaves node) := by
  rw [setLeafActiveTabByTabId]
  cases findTerminalWindowLeafByTabId tabId node with
  | none => exact ⟨h, fun _ => Iff.rfl⟩
  | some leaf => exact h.activate leaf.id tabId

theorem Valid.reorder (fromTabId : TabId) (toIndex : Int) :
    Valid (leaves (reorderTabsInLeaf node fromTabId toIndex)) counter ∧
      ∀ other, other ∈ tabsOf (leaves
          (reorderTabsInLeaf node fromTabId toIndex)) ↔
        other ∈ tabsOf (leaves node) := by
  rw [reorderTabsInLeaf]
  cases findTerminalWindowLeafByTabId fromTabId node with
  | none => exact ⟨h, fun _ => Iff.rfl⟩
  | some found =>
    refine h.update_same found.id fun leaf hnodup hshown => ?_
    by_cases hmem : fromTabId ∈ leaf.tabIds
    · by_cases hindex : leaf.tabIds.idxOf fromTabId =
          boundedIndex (leaf.tabIds.length - 1) toIndex
      · simp only [hmem, not_true_eq_false, if_false, hindex, if_true]
        exact ⟨trivial, hshown, Perm.refl _⟩
      · simp only [hmem, not_true_eq_false, if_false, hindex]
        have hperm : (spliceIn (leaf.tabIds.eraseIdx
            (leaf.tabIds.idxOf fromTabId))
            (boundedIndex (leaf.tabIds.length - 1) toIndex)
            fromTabId).Perm leaf.tabIds := by
          refine (spliceIn_perm _ _ _).trans ?_
          rw [eraseIdx_idxOf_eq_erase]
          exact (perm_cons_erase hmem).symm
        refine ⟨rfl, normalizeLeaf_shown ?_, ?_⟩
        · exact ne_nil_of_mem (hperm.mem_iff.mpr hmem)
        · rw [normalizeLeaf_tabIds (hperm.nodup_iff.mpr hnodup)]
          exact hperm
    · simp only [hmem, not_false_eq_true, if_true]
      exact ⟨trivial, hshown, Perm.refl _⟩

/-- The layout without a tab, when another leaf is left. -/
theorem Valid.removed (hleaf : leaf ∈ leaves node)
    (hout : leaf.tabIds.filter (· ≠ tabId) ≠ []) :
    ∃ next, removeTabFromTerminalWindows tabId node = some next ∧ Valid
      (leaves next) counter ∧ (∀ other, other ∈ tabsOf (leaves next) ↔
        other ∈ tabsOf (leaves node) ∧ other ≠ tabId) ∧
      ∃ kept ∈ leaves next, kept.id = leaf.id ∧
        kept.tabIds = leaf.tabIds.filter (· ≠ tabId) := by
  have hleaves := removeTabFromTerminalWindows_leaves tabId node
  obtain ⟨kept, hkept, hid, -, htabs⟩ :=
    (removeTabFromLeaf_spec tabId (h.nodup hleaf)
      (h.shown leaf hleaf)).resolve_left fun hnone => hout hnone.2
  have hmem : kept ∈ (leaves node).filterMap (removeTabFromLeaf tabId) :=
    mem_filterMap.mpr ⟨leaf, hleaf, hkept⟩
  cases hremoved : removeTabFromTerminalWindows tabId node with
  | none =>
    rw [hremoved] at hleaves
    rw [← hleaves] at hmem
    cases hmem
  | some next =>
    rw [hremoved] at hleaves
    obtain ⟨hvalid, htabsOf⟩ := h.remove tabId
    rw [← hleaves] at hvalid htabsOf hmem
    exact ⟨next, rfl, hvalid, htabsOf, kept, hmem, hid, htabs⟩

end

theorem filter_ne_of_not_mem (h : tabId ∉ ids) : ids.filter (· ≠ tabId) = ids :=
  filter_eq_self.mpr fun _ hother =>
    decide_eq_true fun heq => h (heq ▸ hother)

theorem Valid.move {node : TerminalWindowNode} {counter : Nat}
    (h : Valid (leaves node) counter) {tabId : TabId} {targetLeafId : WindowId}
    (insertIndex : Int)
    (htarget : tabId ∈ tabsOf (leaves node) →
      ∃ leaf ∈ leaves node, leaf.id = targetLeafId) :
    Valid (layoutLeaves
        (moveTabBetweenLeaves node tabId targetLeafId insertIndex)) counter ∧
      ∀ other, other ∈ layoutTabs
          (moveTabBetweenLeaves node tabId targetLeafId insertIndex) ↔
        other ∈ tabsOf (leaves node) := by
  rw [moveTabBetweenLeaves]
  cases hfind : findTerminalWindowLeafByTabId tabId node with
  | none => exact ⟨h, fun _ => Iff.rfl⟩
  | some found =>
    obtain ⟨source, hsource, hin, rfl⟩ := of_find hfind
    have htab : tabId ∈ tabsOf (leaves node) :=
      mem_tabsOf.mpr ⟨source, hsource, hin⟩
    by_cases hsame : (normalizeLeaf source).id = targetLeafId
    · simp only [hsame, if_true]
      exact h.reorder tabId insertIndex
    · simp only [hsame, if_false]
      obtain ⟨target, hmem, rfl⟩ := htarget htab
      have hout : tabId ∉ target.tabIds := by
        intro hin'
        obtain rfl := h.eq_of_mem hsource hmem hin hin'
        exact hsame rfl
      have hkeeps := filter_ne_of_not_mem hout
      obtain ⟨next, hnext, hvalid, htabs, kept, hkept, hid, hkeptTabs⟩ :=
        h.removed hmem (hkeeps.symm ▸ (h.shown target hmem).filled)
      rw [hnext, ← hid, map_some]
      have hgone : tabId ∉ tabsOf (leaves next) :=
        fun hmem => ((htabs tabId).mp hmem).2 rfl
      have hkeptOut : tabId ∉ (normalizeLeaf kept).tabIds := by
        rw [normalizeLeaf_tabIds (hvalid.nodup hkept)]
        exact fun hin => hgone (mem_tabsOf.mpr ⟨kept, hkept, hin⟩)
      have hupdater : insertMoved tabId insertIndex (normalizeLeaf kept) =
          inserted (fun leaf => boundedIndex leaf.tabIds.length insertIndex)
            tabId (fun _ => some tabId) (normalizeLeaf kept) := by
        rw [inserted, if_neg hkeptOut]
        rfl
      obtain ⟨hinserted, hmemInserted, -⟩ :=
        hvalid.insert hkept hupdater (.inr hgone)
      refine ⟨hinserted, fun other => (hmemInserted other).trans ?_⟩
      rw [htabs]
      by_cases heq : other = tabId
      · exact iff_of_true (.inl heq) (heq ▸ htab)
      · exact ⟨fun hor => (hor.resolve_left heq).1,
          fun hother => .inr ⟨hother, heq⟩⟩

/-- A move to a leaf that is gone takes the tab out of the layout. -/
theorem Valid.move_lost {node : TerminalWindowNode} {counter : Nat}
    (h : Valid (leaves node) counter) {targetLeafId : WindowId}
    (insertIndex : Int) (htab : tabId ∈ tabsOf (leaves node))
    (habsent : ∀ leaf ∈ leaves node, leaf.id ≠ targetLeafId) :
    tabId ∉ layoutTabs
      (moveTabBetweenLeaves node tabId targetLeafId insertIndex) := by
  rw [moveTabBetweenLeaves]
  cases hfind : findTerminalWindowLeafByTabId tabId node with
  | none => exact absurd htab (find_eq_none_iff.mp hfind)
  | some found =>
    obtain ⟨source, hsource, -, rfl⟩ := of_find hfind
    have hother : (normalizeLeaf source).id ≠ targetLeafId :=
      habsent source hsource
    simp only [hother, if_false]
    obtain ⟨hvalid, htabs⟩ := h.remove tabId
    have hleaves := removeTabFromTerminalWindows_leaves tabId node
    cases hremoved : removeTabFromTerminalWindows tabId node with
    | none => exact not_mem_nil
    | some next =>
      rw [hremoved] at hleaves
      have hleaves : leaves next = _ := hleaves
      have hgone : ∀ leaf ∈ leaves next, leaf.id ≠ targetLeafId := by
        intro leaf hleaf heq
        have hids := (filterMap_remove tabId fun leaf hleaf =>
          ⟨h.nodup hleaf, h.shown leaf hleaf⟩).2
        rw [← hleaves] at hids
        obtain ⟨before, hbefore, hid⟩ := mem_map.mp
          (hids.subset (mem_map_of_mem hleaf))
        exact habsent before hbefore (hid.trans heq)
      rw [map_some, layoutTabs, layoutLeaves, elim_some,
        updateLeaf_absent hgone, hleaves, tabsOf_normalize hvalid.once]
      exact fun hmem => ((htabs tabId).mp hmem).2 rfl

end NiceTerm.Workspace
