/-
The group paths of imported sessions.  A path is looked up in a map of the paths
of all groups, which is kept while groups are added for the paths it has not.
-/
import NiceTerm.Lib.Chain
import NiceTerm.Lib.Fallible
import NiceTerm.Storage.Sessions

namespace NiceTerm.Importer

open List Option
open RustStr (Str)
open Storage (Group)

def findGroup (groups : List Group) (id : Str) : Option Group :=
  groups.find? fun g => g.id == id

/-- The loop of `build_group_path`, with the turns it may take. -/
def groupPathLoop (groups : List Group) :
    Nat → List Str → Str → Option (List Str)
  | 0, _, _ => none
  | turns + 1, segments, current =>
    match findGroup groups current with
    | none => some segments
    | some g =>
      match g.parentId with
      | none => some (segments ++ [g.name])
      | some parent => groupPathLoop groups turns (segments ++ [g.name]) parent

def buildGroupPath (groups : List Group) (turns : Nat) (id : Str) :
    Option (List Str) :=
  (groupPathLoop groups turns [] id).map List.reverse

abbrev PathMap := List Str → Option Str

def PathMap.insert (map : PathMap) (path : List Str) (id : Str) : PathMap :=
  fun other => if other = path then some id else map other

def insertPath (groups : List Group) (turns : Nat) (map : PathMap)
    (group : Group) : Option PathMap :=
  (buildGroupPath groups turns group.id).map fun path => map.insert path group.id

def buildGroupPathMap (groups : List Group) (turns : Nat) : Option PathMap :=
  groups.foldlM (insertPath groups turns) fun _ => none

/-- `made` counts the ids that have been made. -/
structure GroupImport where
  groups : List Group
  pathMap : PathMap
  nextSort : Int
  made : Nat

section

-- `Uuid::new_v4`
variable (newV4 : Nat → Str) (s : GroupImport)

def newGroup (parentId : Option Str) (name : Str) : Group :=
  { id := newV4 s.made, name, parentId, sortOrder := s.nextSort }

def addGroup (parentId : Option Str) (front : List Str)
    (name : Str) : GroupImport where
  groups := s.groups ++ [newGroup newV4 s parentId name]
  pathMap := s.pathMap.insert (front ++ [name]) (newV4 s.made)
  nextSort :=
    if s.nextSort = RustStr.i32Max then RustStr.i32Min else s.nextSort + 1
  made := s.made + 1

/-- One turn of the loop of `ensure_group_path`, behind the segments in front. -/
def ensurePrefix (front : List Str) (name : Str) : Str × GroupImport :=
  match s.pathMap (front ++ [name]) with
  | some existing => (existing, s)
  | none =>
    let parentId := if 0 < front.length then s.pathMap front else none
    (newV4 s.made, addGroup newV4 s parentId front name)

def ensureLoop (s : GroupImport) (leafId : Str) (front : List Str) :
    List Str → Str × GroupImport
  | [] => (leafId, s)
  | name :: segments =>
    let (leafId, s) := ensurePrefix newV4 s front name
    ensureLoop s leafId (front ++ [name]) segments

def ensureGroupPath (segments : List Str) : Option Str × GroupImport :=
  if segments = [] then (none, s)
  else
    let (leafId, s) := ensureLoop newV4 s [] [] segments
    (some leafId, s)

/-- The paths of all imported sessions, one after the other. -/
def ensureGroupPaths (s : GroupImport) :
    List (List Str) → List (Option Str) × GroupImport
  | [] => ([], s)
  | segments :: paths =>
    let (id, s) := ensureGroupPath newV4 s segments
    let (ids, s) := ensureGroupPaths s paths
    (id :: ids, s)

end

def parentOf (groups : List Group) (id : Str) : Option Str :=
  (findGroup groups id).bind Group.parentId

/-- The names from a group up to the last one that there is. -/
inductive Climb (groups : List Group) : Str → List Str → Prop
  | missing {id : Str} (h : findGroup groups id = none) : Climb groups id []
  | root {id : Str} {g : Group} (h : findGroup groups id = some g)
      (hparent : g.parentId = none) : Climb groups id [g.name]
  | child {id parent : Str} {g : Group} {names : List Str}
      (h : findGroup groups id = some g) (hparent : g.parentId = some parent)
      (hrest : Climb groups parent names) : Climb groups id (g.name :: names)

variable {groups : List Group} {id : Str} {names : List Str}

theorem Climb.unique {other : List Str} (h : Climb groups id names)
    (h' : Climb groups id other) : names = other := by
  induction h generalizing other with
  | missing h =>
    cases h' with
    | missing => rfl
    | root h' => exact absurd (h.symm.trans h') (some_ne_none _).symm
    | child h' => exact absurd (h.symm.trans h') (some_ne_none _).symm
  | root h hparent =>
    cases h' with
    | missing h' => exact absurd (h.symm.trans h') (some_ne_none _)
    | root h' => rw [some.inj (h.symm.trans h')]
    | child h' hparent' =>
      obtain rfl := some.inj (h.symm.trans h')
      rw [hparent] at hparent'
      exact absurd hparent'.symm (some_ne_none _)
  | child h hparent hrest ih =>
    cases h' with
    | missing h' => exact absurd (h.symm.trans h') (some_ne_none _)
    | root h' hparent' =>
      obtain rfl := some.inj (h.symm.trans h')
      rw [hparent] at hparent'
      exact absurd hparent' (some_ne_none _)
    | child h' hparent' hrest' =>
      obtain rfl := some.inj (h.symm.trans h')
      obtain rfl := some.inj (hparent.symm.trans hparent')
      rw [ih hrest']

variable {turns : Nat}

theorem Climb.loop (h : Climb groups id names)
    (hturns : names.length < turns) (segments : List Str) :
    groupPathLoop groups turns segments id = some (segments ++ names) := by
  induction h generalizing turns segments with
  | missing h =>
    obtain ⟨turns, rfl⟩ := Nat.exists_eq_add_one.mpr hturns
    rw [groupPathLoop, h, append_nil]
  | root h hparent =>
    obtain ⟨turns, rfl⟩ := Nat.exists_eq_add_one.mpr (Nat.zero_lt_of_lt hturns)
    rw [groupPathLoop, h]
    simp only [hparent]
  | child h hparent hrest ih =>
    obtain ⟨turns, rfl⟩ := Nat.exists_eq_add_one.mpr (Nat.zero_lt_of_lt hturns)
    rw [groupPathLoop, h]
    simp only [hparent]
    rw [ih (Nat.lt_of_succ_lt_succ hturns), append_assoc, singleton_append]

theorem climb_of_loop {segments found : List Str}
    (h : groupPathLoop groups turns segments id = some found) :
    ∃ names, Climb groups id names ∧ found = segments ++ names := by
  induction turns generalizing segments id with
  | zero => cases h
  | succ turns ih =>
    rw [groupPathLoop] at h
    cases hfind : findGroup groups id with
    | none =>
      rw [hfind] at h
      exact ⟨[], .missing hfind, by rw [append_nil, ← some.inj h]⟩
    | some g =>
      rw [hfind] at h
      cases hparent : g.parentId with
      | none =>
        simp only [hparent] at h
        exact ⟨[g.name], .root hfind hparent, (some.inj h).symm⟩
      | some parent =>
        simp only [hparent] at h
        obtain ⟨names, hclimb, rfl⟩ := ih h
        refine ⟨g.name :: names, .child hfind hparent hclimb, ?_⟩
        rw [append_assoc, singleton_append]

/-- The path that the loop gives a group, if it ends. -/
def HasPath (groups : List Group) (id : Str) (path : List Str) : Prop :=
  ∃ turns, buildGroupPath groups turns id = some path

variable {path : List Str}

theorem hasPath_iff :
    HasPath groups id path ↔ Climb groups id path.reverse := by
  constructor
  · rintro ⟨turns, h⟩
    obtain ⟨found, hfound, rfl⟩ := map_eq_some_iff.mp h
    obtain ⟨names, hclimb, rfl⟩ := climb_of_loop hfound
    rw [reverse_reverse]
    exact hclimb
  · intro h
    refine ⟨path.length + 1, ?_⟩
    rw [buildGroupPath, h.loop (by simp), map_some, nil_append,
      reverse_reverse]

theorem HasPath.unique {other : List Str} (h : HasPath groups id path)
    (h' : HasPath groups id other) : path = other :=
  reverse_injective ((hasPath_iff.mp h).unique (hasPath_iff.mp h'))

/-- The walk ends exactly if the chain of parents does. -/
theorem ends_iff_climb : Chain.Ends (parentOf groups) id ↔
    ∃ names, Climb groups id names := by
  constructor
  · intro h
    induction h with
    | @stop id h =>
      cases hfind : findGroup groups id with
      | none => exact ⟨[], .missing hfind⟩
      | some g =>
        rw [parentOf, hfind, bind_some] at h
        exact ⟨[g.name], .root hfind h⟩
    | @step id parent h hrest ih =>
      obtain ⟨names, hclimb⟩ := ih
      obtain ⟨g, hfind, hparent⟩ := bind_eq_some_iff.mp h
      exact ⟨g.name :: names, .child hfind hparent hclimb⟩
  · rintro ⟨names, h⟩
    induction h with
    | missing h => exact .stop (by rw [parentOf, h, bind_none])
    | root h hparent => exact .stop (by rw [parentOf, h, bind_some, hparent])
    | child h hparent hrest ih =>
      exact .step (by rw [parentOf, h, bind_some, hparent]) ih

/-- The walk from each id ends exactly if no group is above itself. -/
theorem all_end_iff : (∀ id, ∃ path, HasPath groups id path) ↔
    ∀ id, ¬ Chain.Leads (parentOf groups) id id := by
  constructor
  · intro h id hcycle
    obtain ⟨path, hpath⟩ := h id
    exact Chain.not_ends_of_leads hcycle
      (ends_iff_climb.mpr ⟨_, hasPath_iff.mp hpath⟩)
  · intro h id
    have hends : Chain.Ends (parentOf groups) id := by
      refine Chain.ends_of_finite h (groups.map Group.id) fun other _ hne => ?_
      obtain ⟨parent, hparent⟩ := ne_none_iff_exists'.mp hne
      obtain ⟨g, hfind, -⟩ := bind_eq_some_iff.mp hparent
      have hid : g.id = other := by
        simpa using find?_some hfind
      exact mem_map.mpr ⟨g, mem_of_find?_eq_some hfind, hid⟩
    obtain ⟨names, hclimb⟩ := ends_iff_climb.mp hends
    refine ⟨names.reverse, hasPath_iff.mpr ?_⟩
    rw [reverse_reverse]
    exact hclimb

/-- No group has the id, nor one for its parent. -/
def Unused (groups : List Group) (id : Str) : Prop :=
  ∀ g ∈ groups, g.id ≠ id ∧ g.parentId ≠ some id

variable {new : Group}

theorem findGroup_append (groups : List Group)
    (hne : id ≠ new.id) : findGroup (groups ++ [new]) id = findGroup groups id := by
  have hnew : (new.id == id) = false := beq_false_of_ne hne.symm
  rw [findGroup, find?_append, find?_cons, hnew]
  exact or_none

/-- A new group changes no walk that does not begin there. -/
theorem groupPathLoop_append (hunused : Unused groups new.id)
    (turns : Nat) (segments : List Str) (hne : id ≠ new.id) :
    groupPathLoop (groups ++ [new]) turns segments id =
      groupPathLoop groups turns segments id := by
  induction turns generalizing segments id with
  | zero => rfl
  | succ turns ih =>
    rw [groupPathLoop, groupPathLoop, findGroup_append groups hne]
    cases hfind : findGroup groups id with
    | none => rfl
    | some g =>
      cases hparent : g.parentId with
      | none => simp only [hparent]
      | some parent =>
        simp only [hparent]
        refine ih _ fun heq => ?_
        have hused := (hunused g (mem_of_find?_eq_some hfind)).2
        exact hused (heq ▸ hparent)

theorem HasPath.append
    (h : HasPath groups id path) (hunused : Unused groups new.id)
    (hne : id ≠ new.id) : HasPath (groups ++ [new]) id path := by
  obtain ⟨turns, h⟩ := h
  refine ⟨turns, ?_⟩
  rw [buildGroupPath, groupPathLoop_append hunused turns [] hne]
  exact h

/-- The map has the path of every group. -/
def Built (groups : List Group) (map : PathMap) : Prop :=
  ∃ turns, buildGroupPathMap groups turns = some map

variable {map : PathMap}

theorem insertPath_eq_some {next : PathMap} {g : Group} :
    insertPath groups turns map g = some next ↔
      ∃ path, buildGroupPath groups turns g.id = some path ∧
        map.insert path g.id = next := by
  rw [insertPath, map_eq_some_iff]

variable {part : List Group}

/-- What comes of inserting the paths of some of the groups. -/
theorem inserted_spec {next : PathMap}
    (h : part.foldlM (insertPath groups turns) map = some next) :
    (∀ path id, next path = some id →
        map path = some id ∨ ∃ g ∈ part, g.id = id ∧ HasPath groups id path) ∧
      (∀ g ∈ part, ∃ path, HasPath groups g.id path ∧ next path ≠ none) ∧
      ∀ path, map path ≠ none → next path ≠ none := by
  induction part generalizing map with
  | nil =>
    obtain rfl := some.inj h
    exact ⟨fun _ _ => .inl, fun g hmem => absurd hmem not_mem_nil,
      fun _ => id⟩
  | cons g rest ih =>
    rw [foldlM_cons] at h
    obtain ⟨middle, hmiddle, hrest⟩ := bind_eq_some_iff.mp h
    obtain ⟨path, hpath, rfl⟩ := insertPath_eq_some.mp hmiddle
    obtain ⟨hsound, hfound, hkept⟩ := ih hrest
    have hinserted : map.insert path g.id path ≠ none := by
      rw [PathMap.insert, if_pos rfl]
      exact some_ne_none _
    refine ⟨fun other id hnext => ?_, ?_, fun other hold => hkept other ?_⟩
    · rcases hsound other id hnext with hold | ⟨g', hmem, hid⟩
      · rw [PathMap.insert] at hold
        split at hold
        · rename_i heq
          obtain rfl := some.inj hold
          exact .inr ⟨g, mem_cons_self, rfl, heq ▸ ⟨turns, hpath⟩⟩
        · exact .inl hold
      · exact .inr ⟨g', mem_cons_of_mem _ hmem, hid⟩
    · rw [forall_mem_cons]
      exact ⟨⟨path, ⟨turns, hpath⟩, hkept path hinserted⟩, hfound⟩
    · rw [PathMap.insert]
      split
      · exact some_ne_none _
      · exact hold

theorem Built.sound (h : Built groups map) (hid : map path = some id) :
    (∃ g ∈ groups, g.id = id) ∧ HasPath groups id path := by
  obtain ⟨turns, h⟩ := h
  rcases (inserted_spec h).1 path id hid with hnone | ⟨g, hmem, heq, hpath⟩
  · exact absurd hnone.symm (some_ne_none _)
  · exact ⟨⟨g, hmem, heq⟩, hpath⟩

theorem Built.found (h : Built groups map) {g : Group} (hmem : g ∈ groups)
    (hpath : HasPath groups g.id path) : map path ≠ none := by
  obtain ⟨turns, h⟩ := h
  obtain ⟨other, hother, hne⟩ := (inserted_spec h).2.1 g hmem
  exact hpath.unique hother ▸ hne

/-- The turns allowed make no difference once they are enough. -/
theorem inserted_unique {other : Nat} {next next' : PathMap}
    (h : part.foldlM (insertPath groups turns) map = some next)
    (h' : part.foldlM (insertPath groups other) map = some next') :
    next = next' := by
  induction part generalizing map with
  | nil => exact (some.inj h).symm.trans (some.inj h')
  | cons g rest ih =>
    rw [foldlM_cons] at h h'
    obtain ⟨middle, hmiddle, hrest⟩ := bind_eq_some_iff.mp h
    obtain ⟨middle', hmiddle', hrest'⟩ := bind_eq_some_iff.mp h'
    obtain ⟨path, hpath, rfl⟩ := insertPath_eq_some.mp hmiddle
    obtain ⟨path', hpath', rfl⟩ := insertPath_eq_some.mp hmiddle'
    have hsame : path = path' := HasPath.unique ⟨_, hpath⟩ ⟨_, hpath'⟩
    subst hsame
    exact ih hrest hrest'

theorem Built.unique {map' : PathMap} (h : Built groups map)
    (h' : Built groups map') : map = map' := by
  obtain ⟨turns, h⟩ := h
  obtain ⟨turns', h'⟩ := h'
  exact inserted_unique h h'

/-- With enough turns the paths of some groups are inserted, if they have
any. -/
theorem inserted_of_hasPath (h : ∀ g ∈ part, ∃ path, HasPath groups g.id path) :
    ∃ enough, ∀ turns, enough ≤ turns → ∀ map,
      ∃ next, part.foldlM (insertPath groups turns) map = some next := by
  induction part with
  | nil => exact ⟨0, fun _ _ map => ⟨map, rfl⟩⟩
  | cons g rest ih =>
    rw [forall_mem_cons] at h
    obtain ⟨⟨path, hpath⟩, hrest⟩ := h
    obtain ⟨enough, henough⟩ := ih hrest
    refine ⟨enough + path.length + 1, fun turns hturns map => ?_⟩
    have hlong : path.reverse.length < turns := by
      rw [length_reverse]
      omega
    have hclimb := (hasPath_iff.mp hpath).loop hlong []
    have hbuilt : buildGroupPath groups turns g.id = some path := by
      rw [buildGroupPath, hclimb, map_some, nil_append, reverse_reverse]
    obtain ⟨next, hnext⟩ :=
      henough turns (by omega) (map.insert path g.id)
    refine ⟨next, ?_⟩
    rw [foldlM_cons]
    exact bind_eq_some_iff.mpr
      ⟨_, insertPath_eq_some.mpr ⟨path, hbuilt, rfl⟩, hnext⟩

/-- The map stays in step with the groups when one is added. -/
theorem Built.append (h : Built groups map) (hunused : Unused groups new.id)
    (hpath : HasPath (groups ++ [new]) new.id path) :
    Built (groups ++ [new]) (map.insert path new.id) := by
  obtain ⟨turns, h⟩ := h
  have hall : ∀ g ∈ groups ++ [new], ∃ path, HasPath (groups ++ [new]) g.id path := by
    intro g hmem
    rcases mem_append.mp hmem with hmem | hmem
    · obtain ⟨path, hpath, -⟩ := (inserted_spec h).2.1 g hmem
      exact ⟨path, hpath.append hunused (hunused g hmem).1⟩
    · rw [mem_singleton.mp hmem]
      exact ⟨path, hpath⟩
  obtain ⟨enough, henough⟩ := inserted_of_hasPath hall
  obtain ⟨next, hnext⟩ := henough enough (Nat.le_refl _) fun _ => none
  refine ⟨enough, ?_⟩
  rw [buildGroupPathMap, hnext]
  rw [foldlM_append] at hnext
  obtain ⟨middle, hmiddle, hlast⟩ := bind_eq_some_iff.mp hnext
  have hold : groups.foldlM (insertPath groups enough) (fun _ => none) =
      some middle := by
    rw [← hmiddle]
    refine Folding.foldlM_congr (fun g hmem map => ?_) _
    rw [insertPath, insertPath, buildGroupPath, buildGroupPath,
      groupPathLoop_append hunused _ _ (hunused g hmem).1]
  rw [foldlM_cons] at hlast
  obtain ⟨last, hinsert, hlast⟩ := bind_eq_some_iff.mp hlast
  obtain ⟨path', hpath', rfl⟩ := insertPath_eq_some.mp hinsert
  obtain rfl := hpath.unique ⟨enough, hpath'⟩
  rw [inserted_unique hold h] at hlast
  exact hlast.symm

section

variable {newV4 : Nat → Str} {s t u : GroupImport}

/-- The map is in step with the groups, and the ids to come are unused. -/
structure InStep (newV4 : Nat → Str) (s : GroupImport) : Prop where
  built : Built s.groups s.pathMap
  unused : ∀ n, s.made ≤ n → Unused s.groups (newV4 n)

/-- Groups are added for some of the paths that had none. -/
structure Grows (paths : List Str → Prop) (s t : GroupImport)
    (added : List Group) : Prop where
  groups : t.groups = s.groups ++ added
  kept : ∀ path id, s.pathMap path = some id → t.pathMap path = some id
  missing : ∀ g ∈ added, ∃ path, paths path ∧ s.pathMap path = none ∧
    t.pathMap path = some g.id
  distinct : added.Pairwise (·.id ≠ ·.id)
  fresh : ∀ g ∈ added, ∀ old ∈ s.groups, old.id ≠ g.id

theorem Grows.refl (paths : List Str → Prop) (s : GroupImport) :
    Grows paths s s [] where
  groups := (append_nil _).symm
  kept := fun _ _ => id
  missing := fun _ hmem => absurd hmem not_mem_nil
  distinct := Pairwise.nil
  fresh := fun _ hmem => absurd hmem not_mem_nil

theorem Grows.mono {paths wider : List Str → Prop} {added : List Group}
    (h : Grows paths s t added) (hwider : ∀ path, paths path → wider path) :
    Grows wider s t added where
  groups := h.groups
  kept := h.kept
  missing := fun g hmem => by
    obtain ⟨path, hpath, hmissing⟩ := h.missing g hmem
    exact ⟨path, hwider path hpath, hmissing⟩
  distinct := h.distinct
  fresh := h.fresh

theorem Grows.trans {paths : List Str → Prop} {first second : List Group}
    (h : Grows paths s t first) (h' : Grows paths t u second) :
    Grows paths s u (first ++ second) where
  groups := by rw [h'.groups, h.groups, append_assoc]
  kept := fun path id hid => h'.kept path id (h.kept path id hid)
  missing := fun g hmem => by
    rcases mem_append.mp hmem with hmem | hmem
    · obtain ⟨path, hpath, hnone, hid⟩ := h.missing g hmem
      exact ⟨path, hpath, hnone, h'.kept path g.id hid⟩
    · obtain ⟨path, hpath, hnone, hid⟩ := h'.missing g hmem
      refine ⟨path, hpath, ?_, hid⟩
      by_contra hsome
      obtain ⟨old, hold⟩ := ne_none_iff_exists'.mp hsome
      rw [h.kept path old hold] at hnone
      exact absurd hnone (some_ne_none old)
  distinct := by
    refine pairwise_append.mpr ⟨h.distinct, h'.distinct, ?_⟩
    intro g hg new hnew
    refine h'.fresh new hnew g ?_
    rw [h.groups]
    exact mem_append_right _ hg
  fresh := fun g hmem old hold => by
    rcases mem_append.mp hmem with hmem | hmem
    · exact h.fresh g hmem old hold
    · refine h'.fresh g hmem old ?_
      rw [h.groups]
      exact mem_append_left _ hold

variable {front : List Str}

/-- A group that is added below the path in front has the longer path. -/
theorem addGroup_hasPath (hs : InStep newV4 s)
    {parentId : Option Str}
    (hparent : front = [] ∧ parentId = none ∨
      ∃ parent, s.pathMap front = some parent ∧ parentId = some parent)
    (name : Str) :
    HasPath (s.groups ++ [newGroup newV4 s parentId name]) (newV4 s.made)
      (front ++ [name]) := by
  have hunused := hs.unused s.made (Nat.le_refl _)
  have hfind : findGroup (s.groups ++ [newGroup newV4 s parentId name])
      (newV4 s.made) = some (newGroup newV4 s parentId name) := by
    have hnone : s.groups.find? (fun g => g.id == newV4 s.made) = none :=
      find?_eq_none.mpr fun g hmem => by
        simpa using (hunused g hmem).1
    rw [findGroup, find?_append, hnone, none_or, newGroup]
    simp
  rw [hasPath_iff, reverse_append, reverse_singleton, singleton_append]
  rcases hparent with ⟨rfl, hparent⟩ | ⟨parent, hmap, hparent⟩
  · exact .root hfind hparent
  · obtain ⟨⟨g, hmem, hid⟩, hpath⟩ := hs.built.sound hmap
    refine .child hfind hparent (hasPath_iff.mp (hpath.append hunused ?_))
    exact hid ▸ (hunused g hmem).1

section

variable (hinjective : Function.Injective newV4) (hs : InStep newV4 s)
include hinjective hs

theorem addGroup_spec {parentId : Option Str}
    (hparent : front = [] ∧ parentId = none ∨
      ∃ parent, s.pathMap front = some parent ∧ parentId = some parent)
    {name : Str} (hmissing : s.pathMap (front ++ [name]) = none) :
    InStep newV4 (addGroup newV4 s parentId front name) ∧
      Grows (· = front ++ [name]) s (addGroup newV4 s parentId front name)
        [newGroup newV4 s parentId name] := by
  have hunused := hs.unused s.made (Nat.le_refl _)
  refine ⟨⟨?_, fun n hn => ?_⟩, rfl, fun path id hid => ?_, ?_, ?_, ?_⟩
  · exact hs.built.append hunused (addGroup_hasPath hs hparent name)
  · intro g hmem
    have hlater : s.made ≤ n := Nat.le_of_succ_le hn
    rcases mem_append.mp hmem with hmem | hmem
    · exact hs.unused n hlater g hmem
    · rw [mem_singleton.mp hmem]
      refine ⟨fun heq => ?_, fun heq => ?_⟩
      · have hsame := hinjective heq
        change s.made + 1 ≤ n at hn
        omega
      · rcases hparent with ⟨-, hnone⟩ | ⟨parent, hmap, hsome⟩
        · exact absurd (heq.symm.trans hnone) (some_ne_none _)
        · obtain ⟨⟨h, hmem', hid⟩, -⟩ := hs.built.sound hmap
          have hn' : parent = newV4 n := some.inj (hsome.symm.trans heq)
          exact (hs.unused n hlater h hmem').1 (hid.trans hn')
  · have hne : path ≠ front ++ [name] := by
      rintro rfl
      exact absurd (hid.symm.trans hmissing) (some_ne_none _)
    exact (if_neg hne).trans hid
  · rw [forall_mem_singleton]
    exact ⟨front ++ [name], rfl, hmissing, if_pos rfl⟩
  · exact pairwise_singleton _ _
  · rw [forall_mem_singleton]
    exact fun old hmem => (hunused old hmem).1

/-- One turn: a path that is there is used, one that is not gets a group. -/
theorem ensurePrefix_spec
    (hfront : front = [] ∨ s.pathMap front ≠ none) (name : Str) :
    InStep newV4 (ensurePrefix newV4 s front name).2 ∧
      (∃ added, Grows (· = front ++ [name]) s
        (ensurePrefix newV4 s front name).2 added) ∧
      (ensurePrefix newV4 s front name).2.pathMap (front ++ [name]) =
        some (ensurePrefix newV4 s front name).1 := by
  rw [ensurePrefix]
  cases hmap : s.pathMap (front ++ [name]) with
  | some existing => exact ⟨hs, ⟨[], Grows.refl _ s⟩, hmap⟩
  | none =>
    have hparent : front = [] ∧
          (if 0 < front.length then s.pathMap front else none) = none ∨
        ∃ parent, s.pathMap front = some parent ∧
          (if 0 < front.length then s.pathMap front else none) =
            some parent := by
      by_cases hnil : front = []
      · subst hnil
        exact .inl ⟨rfl, if_neg (by simp)⟩
      · obtain ⟨parent, hsome⟩ :=
          ne_none_iff_exists'.mp (hfront.resolve_left hnil)
        rw [if_pos (length_pos_iff.mpr hnil)]
        exact .inr ⟨parent, hsome, hsome⟩
    obtain ⟨hnext, hgrows⟩ := addGroup_spec hinjective hs hparent hmap
    exact ⟨hnext, ⟨_, hgrows⟩, if_pos rfl⟩

/-- What a longer loop leaves behind: every path on the way, and the last of
them is returned. -/
theorem ensureLoop_spec (leafId : Str)
    (hfront : front = [] ∨ s.pathMap front ≠ none) (segments : List Str) :
    InStep newV4 (ensureLoop newV4 s leafId front segments).2 ∧
      (∃ added, Grows (fun path => path ≠ [] ∧ path <+: front ++ segments) s
        (ensureLoop newV4 s leafId front segments).2 added) ∧
      (∀ path, front.length < path.length → path <+: front ++ segments →
        (ensureLoop newV4 s leafId front segments).2.pathMap path ≠ none) ∧
      (segments ≠ [] → (ensureLoop newV4 s leafId front segments).2.pathMap
            (front ++ segments) =
          some (ensureLoop newV4 s leafId front segments).1) := by
  induction segments generalizing s leafId front with
  | nil =>
    refine ⟨hs, ⟨[], Grows.refl _ s⟩, fun path hlong hpath => ?_, ?_⟩
    · rw [append_nil] at hpath
      exact absurd hpath.length_le (Nat.not_le_of_lt hlong)
    · exact fun h => absurd rfl h
  | cons name segments ih =>
    rw [ensureLoop]
    obtain ⟨hnext, ⟨first, hfirst⟩, hentry⟩ :=
      ensurePrefix_spec hinjective hs hfront name
    have hsplit : front ++ name :: segments = front ++ [name] ++ segments := by
      rw [append_assoc, singleton_append]
    have hne : (ensurePrefix newV4 s front name).2.pathMap
        (front ++ [name]) ≠ none := by
      rw [hentry]
      exact some_ne_none _
    obtain ⟨hdone, ⟨rest, hrest⟩, hknown, hleaf⟩ :=
      ih hnext (ensurePrefix newV4 s front name).1 (.inr hne)
    rw [hsplit]
    refine ⟨hdone, ⟨first ++ rest, ?_⟩, fun path hlong hpath => ?_, fun _ => ?_⟩
    · refine (hfirst.mono ?_).trans hrest
      rintro path rfl
      exact ⟨by simp, prefix_append _ _⟩
    · by_cases hlonger : (front ++ [name]).length < path.length
      · exact hknown path hlonger hpath
      · have hpath' : path = front ++ [name] := by
          have hshort : path.length = (front ++ [name]).length := by
            rw [length_append, length_singleton] at hlonger ⊢
            omega
          exact (prefix_of_prefix_length_le hpath
            (prefix_append _ _) hshort.le).eq_of_length hshort
        rw [hpath', hrest.kept _ _ hentry]
        exact some_ne_none _
    · by_cases hnil : segments = []
      · subst hnil
        rw [append_nil]
        exact hentry
      · exact hleaf hnil

end

end

section

variable {newV4 : Nat → Str} {s t : GroupImport}

/-- All paths on the way to these are in the map. -/
def Known (map : PathMap) (paths : List (List Str)) : Prop :=
  ∀ segments ∈ paths, ∀ path, path ≠ [] → path <+: segments → map path ≠ none

/-- What the map says for a path that is not empty. -/
def groupOf (map : PathMap) (segments : List Str) : Option Str :=
  if segments = [] then none else map segments

theorem ensureLoop_known (newV4 : Nat → Str) (leafId : Str) (front segments : List Str)
    (hknown : ∀ path, front.length < path.length →
      path <+: front ++ segments → s.pathMap path ≠ none) :
    (ensureLoop newV4 s leafId front segments).2 = s ∧ (segments ≠ [] →
        some (ensureLoop newV4 s leafId front segments).1 =
          s.pathMap (front ++ segments)) := by
  induction segments generalizing leafId front with
  | nil => exact ⟨rfl, fun h => absurd rfl h⟩
  | cons name segments ih =>
    have hsplit : front ++ name :: segments = front ++ [name] ++ segments := by
      rw [append_assoc, singleton_append]
    rw [hsplit] at hknown ⊢
    obtain ⟨existing, hexisting⟩ := ne_none_iff_exists'.mp
      (hknown (front ++ [name]) (by simp) (prefix_append _ _))
    have hprefix : ensurePrefix newV4 s front name = (existing, s) := by
      rw [ensurePrefix, hexisting]
    rw [ensureLoop, hprefix]
    obtain ⟨hsame, hleaf⟩ := ih existing (front ++ [name])
      fun path hlong => hknown path (by
        rw [length_append] at hlong
        omega)
    refine ⟨hsame, fun _ => ?_⟩
    by_cases hnil : segments = []
    · subst hnil
      rw [append_nil]
      exact hexisting.symm
    · exact hleaf hnil

theorem ensureGroupPath_known {segments : List Str}
    (hknown : Known s.pathMap [segments]) :
    ensureGroupPath newV4 s segments = (groupOf s.pathMap segments, s) := by
  rw [ensureGroupPath, groupOf]
  by_cases hnil : segments = []
  · rw [if_pos hnil, if_pos hnil]
  · rw [if_neg hnil, if_neg hnil]
    obtain ⟨hsame, hleaf⟩ := ensureLoop_known newV4 [] [] segments
      fun path hlong hpath => hknown segments mem_cons_self path
        (length_pos_iff.mp hlong) hpath
    rw [← nil_append segments, ← hleaf hnil]
    exact Prod.ext rfl hsame

theorem ensureGroupPaths_known {paths : List (List Str)}
    (hknown : Known s.pathMap paths) :
    ensureGroupPaths newV4 s paths = (paths.map (groupOf s.pathMap), s) := by
  induction paths with
  | nil => rfl
  | cons segments paths ih =>
    rw [Known, forall_mem_cons] at hknown
    have hfirst : Known s.pathMap [segments] := by
      rw [Known, forall_mem_singleton]
      exact hknown.1
    rw [ensureGroupPaths, ensureGroupPath_known hfirst]
    simp only [ih hknown.2, map_cons]

theorem ensureGroupPath_spec (hinjective : Function.Injective newV4)
    (hs : InStep newV4 s) (segments : List Str) :
    InStep newV4 (ensureGroupPath newV4 s segments).2 ∧
      (∃ added, Grows (fun path => path ≠ [] ∧ path <+: segments) s
        (ensureGroupPath newV4 s segments).2 added) ∧
      Known (ensureGroupPath newV4 s segments).2.pathMap [segments] ∧
      (ensureGroupPath newV4 s segments).1 =
        groupOf (ensureGroupPath newV4 s segments).2.pathMap segments := by
  rw [ensureGroupPath]
  by_cases hnil : segments = []
  · rw [if_pos hnil]
    refine ⟨hs, ⟨[], Grows.refl _ s⟩, ?_, (if_pos hnil).symm⟩
    rw [Known, forall_mem_singleton, hnil]
    exact fun path hne hpath => absurd (prefix_nil.mp hpath) hne
  · rw [if_neg hnil]
    obtain ⟨hnext, hgrows, hknown, hleaf⟩ :=
      ensureLoop_spec hinjective hs [] (.inl rfl) segments
    refine ⟨hnext, hgrows, ?_, ?_⟩
    · rw [Known, forall_mem_singleton]
      exact fun path hne hpath =>
        hknown path (length_pos_iff.mpr hne) hpath
    · rw [groupOf, if_neg hnil]
      exact (hleaf hnil).symm

/-- What an import leaves behind: a group for each path, added where none was,
and the ids that the map has for the paths in the end. -/
theorem ensureGroupPaths_spec (hinjective : Function.Injective newV4)
    (hs : InStep newV4 s) (paths : List (List Str)) :
    InStep newV4 (ensureGroupPaths newV4 s paths).2 ∧ (∃ added, Grows
        (fun path => path ≠ [] ∧ ∃ segments ∈ paths, path <+: segments) s
        (ensureGroupPaths newV4 s paths).2 added) ∧
      Known (ensureGroupPaths newV4 s paths).2.pathMap paths ∧
      (ensureGroupPaths newV4 s paths).1 =
        paths.map (groupOf (ensureGroupPaths newV4 s paths).2.pathMap) := by
  induction paths generalizing s with
  | nil =>
    exact ⟨hs, ⟨[], Grows.refl _ s⟩,
      fun _ hmem => absurd hmem not_mem_nil, rfl⟩
  | cons segments paths ih =>
    obtain ⟨hnext, ⟨first, hfirst⟩, hknown, hid⟩ :=
      ensureGroupPath_spec hinjective hs segments
    obtain ⟨hdone, ⟨rest, hrest⟩, hothers, hids⟩ := ih hnext
    rw [ensureGroupPaths]
    refine ⟨hdone, ⟨first ++ rest, ?_⟩, ?_, ?_⟩
    · refine (hfirst.mono fun path hpath => ?_).trans
        (hrest.mono fun path hpath => ?_)
      · exact ⟨hpath.1, segments, mem_cons_self, hpath.2⟩
      · obtain ⟨hne, other, hmem, hpath⟩ := hpath
        exact ⟨hne, other, mem_cons_of_mem _ hmem, hpath⟩
    · rw [Known, forall_mem_cons]
      refine ⟨fun path hne hpath => ?_, hothers⟩
      obtain ⟨id, hid⟩ := ne_none_iff_exists'.mp
        (hknown segments mem_cons_self path hne hpath)
      change (ensureGroupPaths newV4
        (ensureGroupPath newV4 s segments).2 paths).2.pathMap path ≠ none
      rw [hrest.kept path id hid]
      exact some_ne_none id
    · change (ensureGroupPath newV4 s segments).1 ::
          (ensureGroupPaths newV4
            (ensureGroupPath newV4 s segments).2 paths).1 = _
      rw [map_cons, hid]
      refine cons_eq_cons.mpr ⟨?_, hids⟩
      rw [groupOf, groupOf]
      by_cases hnil : segments = []
      · rw [if_pos hnil, if_pos hnil]
      · rw [if_neg hnil, if_neg hnil]
        obtain ⟨id, hid⟩ := ne_none_iff_exists'.mp
          (hknown segments mem_cons_self segments hnil prefix_rfl)
        rw [hid]
        exact (hrest.kept segments id hid).symm

/-- What an import does: it returns for each path a group that has it, adds
groups only for paths that none had, one for each, and does nothing when it is
repeated on the groups that it has left. -/
structure Imports (newV4 : Nat → Str) (s : GroupImport)
    (paths : List (List Str)) (ids : List (Option Str)) (t : GroupImport) :
    Prop where
  exact : Forall₂ (fun segments id => segments = [] ∧ id = none ∨
      ∃ g ∈ t.groups, id = some g.id ∧ HasPath t.groups g.id segments) paths ids
  added : ∃ added, t.groups = s.groups ++ added ∧
    (∀ g ∈ added, ∃ path, HasPath t.groups g.id path ∧ path ≠ [] ∧
      (∃ segments ∈ paths, path <+: segments) ∧
      ∀ old ∈ s.groups, ¬ HasPath s.groups old.id path) ∧
    added.Pairwise fun g h => ∀ path, HasPath t.groups g.id path →
      ¬ HasPath t.groups h.id path
  again : ∀ u, u.groups = t.groups → Built u.groups u.pathMap →
    ensureGroupPaths newV4 u paths = (ids, u)

/-- The walk up ends from every id, so that the map can be built, and imports
from there are exact. -/
structure ImportsExactly (newV4 : Nat → Str) (groups : List Group)
    (paths : List (List Str)) : Prop where
  ends : ∀ id, ∃ path, HasPath groups id path
  built : ∃ map, Built groups map
  imports : ∀ s, s.groups = groups → Built groups s.pathMap →
    Imports newV4 s paths (ensureGroupPaths newV4 s paths).1
      (ensureGroupPaths newV4 s paths).2

theorem imports (hinjective : Function.Injective newV4) (hs : InStep newV4 s)
    (paths : List (List Str)) :
    Imports newV4 s paths (ensureGroupPaths newV4 s paths).1
      (ensureGroupPaths newV4 s paths).2 := by
  obtain ⟨hdone, ⟨added, hgrows⟩, hknown, hids⟩ :=
    ensureGroupPaths_spec hinjective hs paths
  generalize ensureGroupPaths newV4 s paths = result at *
  obtain ⟨ids, t⟩ := result
  have hentry : ∀ g ∈ added, ∃ path, (path ≠ [] ∧ ∃ segments ∈ paths,
      path <+: segments) ∧ s.pathMap path = none ∧
      t.pathMap path = some g.id ∧ HasPath t.groups g.id path := by
    intro g hmem
    obtain ⟨path, hpath, hnone, hsome⟩ := hgrows.missing g hmem
    exact ⟨path, hpath, hnone, hsome, (hdone.built.sound hsome).2⟩
  refine ⟨?_, ⟨added, hgrows.groups, fun g hmem => ?_, ?_⟩, ?_⟩
  · rw [hids, forall₂_map_right_iff, forall₂_same]
    intro segments hmem
    rw [groupOf]
    by_cases hnil : segments = []
    · exact .inl ⟨hnil, if_pos hnil⟩
    · obtain ⟨id, hid⟩ := ne_none_iff_exists'.mp
        (hknown segments hmem segments hnil prefix_rfl)
      obtain ⟨⟨g, hg, rfl⟩, hhas⟩ := hdone.built.sound hid
      exact .inr ⟨g, hg, (if_neg hnil).trans hid, hhas⟩
  · obtain ⟨path, ⟨hne, hpath⟩, hnone, -, hhas⟩ := hentry g hmem
    exact ⟨path, hhas, hne, hpath, fun old hold hhas' =>
      hs.built.found hold hhas' hnone⟩
  · refine hgrows.distinct.imp_of_mem fun hg hh hne path hhas hhas' => ?_
    obtain ⟨front, -, -, hsome, hfront⟩ := hentry _ hg
    obtain ⟨other, -, -, hsome', hother⟩ := hentry _ hh
    rw [hfront.unique hhas] at hsome
    rw [hother.unique hhas'] at hsome'
    exact hne (some.inj (hsome.symm.trans hsome'))
  · intro u hgroups hbuilt
    have hmap : u.pathMap = t.pathMap := by
      rw [hgroups] at hbuilt
      exact hbuilt.unique hdone.built
    rw [ensureGroupPaths_known (hmap ▸ hknown), hmap]
    exact Prod.ext hids.symm rfl

end

/-- Where the ids that are made are new, imports are exact, and do not hang,
exactly if no group is above itself. -/
theorem importsExactly_iff (newV4 : Nat → Str) (groups : List Group)
    (paths : List (List Str)) (hinjective : Function.Injective newV4)
    (hunused : ∀ n, Unused groups (newV4 n)) :
    ImportsExactly newV4 groups paths ↔
      ∀ id, ¬ Chain.Leads (parentOf groups) id id := by
  rw [← all_end_iff]
  refine ⟨ImportsExactly.ends, fun hends => ⟨hends, ?_, ?_⟩⟩
  · obtain ⟨enough, henough⟩ :=
      inserted_of_hasPath fun g (_ : g ∈ groups) => hends g.id
    obtain ⟨map, hmap⟩ := henough enough (Nat.le_refl _) fun _ => none
    exact ⟨map, enough, hmap⟩
  · rintro s rfl hbuilt
    exact imports hinjective ⟨hbuilt, fun n _ => hunused n⟩ paths

def countedIds (n : Nat) : Str := 'n' :: RustStr.decimal n

theorem countedIds_injective : Function.Injective countedIds := by
  intro m n h
  have hdigits := congrArg (RustStr.parseDigits 0) (cons.inj h).2
  rw [RustStr.parseDigits_decimal, RustStr.parseDigits_decimal] at hdigits
  exact some.inj hdigits

def nested : List Group :=
  [{ id := "1".toList, name := "work".toList },
    { id := "2".toList, name := "web".toList, parentId := some "1".toList }]

theorem nested_imports :
    ImportsExactly countedIds nested
      [["work".toList, "db".toList], ["work".toList, "web".toList]] := by
  refine (importsExactly_iff countedIds nested _ countedIds_injective ?_).mpr ?_
  · intro n g hmem
    have hstart : ∀ id : Str, id.head? ≠ some 'n' → id ≠ countedIds n := by
      rintro id hid rfl
      exact hid rfl
    rcases mem_pair.mp hmem with rfl | rfl
    · exact ⟨hstart _ (by decide), by simp⟩
    · refine ⟨hstart _ (by decide), fun heq => ?_⟩
      exact hstart _ (by decide) (some.inj heq)
  · have hparent : ∀ id parent, parentOf nested id = some parent →
        id = "2".toList ∧ parent = "1".toList := by
      intro id parent h
      obtain ⟨g, hfind, hg⟩ := bind_eq_some_iff.mp h
      have hid : g.id = id := by simpa using find?_some hfind
      rcases mem_pair.mp (mem_of_find?_eq_some hfind) with rfl | rfl
      · exact absurd hg.symm (some_ne_none _)
      · exact ⟨hid.symm, (some.inj hg).symm⟩
    intro id hcycle
    obtain ⟨parent, hstep, hrest⟩ := Relation.TransGen.head'_iff.mp hcycle
    obtain ⟨rfl, rfl⟩ := hparent id parent hstep
    rcases Relation.ReflTransGen.cases_head hrest with heq | ⟨next, hnext, -⟩
    · exact absurd heq (by decide)
    · exact absurd (hparent _ _ hnext).1 (by decide)

/-- Two groups that are each below the other, as the storage may hold them. -/
def ring : List Group :=
  [{ id := "1".toList, name := "work".toList, parentId := some "2".toList },
    { id := "2".toList, name := "web".toList, parentId := some "1".toList }]

/-- The walk up from the first of them never ends. -/
theorem ring_never_ends : ¬ ImportsExactly countedIds ring [] := by
  intro h
  refine all_end_iff.mp h.ends "1".toList ?_
  exact Relation.TransGen.tail (b := "2".toList)
    (Relation.TransGen.single (by decide)) (by decide)

end NiceTerm.Importer
