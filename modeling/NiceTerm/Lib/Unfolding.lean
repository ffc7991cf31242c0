/-
Listings of graphs.  The leaves below a node are listed with the labels that
lead to them, each way of reaching them once; the listing ends exactly when no
way from the start comes to a node twice.
-/
import Mathlib.Data.Fintype.Card

universe u v w

/-- What stands under a label. -/
inductive Unfolding.Item (Node : Type u) (Leaf : Type w)
  | leaf (a : Leaf)
  | child (node : Node)
  | skipped

/-- A graph by what stands in each node. -/
structure Unfolding (Node : Type u) (Label : Type v) (Leaf : Type w) where
  items : Node → List (Label × Unfolding.Item Node Leaf)

namespace Unfolding

open List Option

variable {Node : Type u} {Label : Type v} {Leaf : Type w}

/-- A leaf with the labels that lead to it. -/
abbrev Found (Label : Type v) (Leaf : Type w) := List Label × Leaf

def under (label : Label) (found : Found Label Leaf) : Found Label Leaf :=
  (label :: found.1, found.2)

/-- The leaves of some items; `inner` lists a node below. -/
def listItems (inner : Node → Option (List (Found Label Leaf))) :
    List (Label × Item Node Leaf) → Option (List (Found Label Leaf))
  | [] => some []
  | (label, .leaf a) :: rest =>
    (listItems inner rest).map (([label], a) :: ·)
  | (label, .child node) :: rest =>
    match inner node, listItems inner rest with
    | some below, some found => some (below.map (under label) ++ found)
    | _, _ => none
  | (_, .skipped) :: rest => listItems inner rest

variable (G : Unfolding Node Label Leaf)

/-- The leaves below a node, depth first; `none` when the fuel does not
last. -/
def list : Nat → Node → Option (List (Found Label Leaf))
  | 0, _ => none
  | fuel + 1, node => listItems (list fuel) (G.items node)

/-- The steps of a way down, each a label and the node under it. -/
inductive Walk : Node → List (Label × Node) → Node → Prop
  | stay (node : Node) : Walk node [] node
  | go {node next last : Node} {label : Label} {steps : List (Label × Node)}
      (hitem : (label, .child next) ∈ G.items node)
      (rest : Walk next steps last) : Walk node ((label, next) :: steps) last

/-- The nodes a way comes to. -/
def visited (node : Node) (steps : List (Label × Node)) : List Node :=
  node :: steps.map Prod.snd

/-- No way from the node comes to a node twice. -/
def Acyclic (node : Node) : Prop :=
  ∀ steps last, G.Walk node steps last → (visited node steps).Nodup

variable {G}

/-! Walks. -/

theorem Walk.append {node middle last : Node}
    {front back : List (Label × Node)} (hfront : G.Walk node front middle)
    (hback : G.Walk middle back last) : G.Walk node (front ++ back) last := by
  induction hfront with
  | stay => exact hback
  | go hitem rest ih => exact Walk.go hitem (ih hback)

theorem Walk.to_visited {node last x : Node} {steps : List (Label × Node)}
    (h : G.Walk node steps last) (hx : x ∈ visited node steps) :
    ∃ front, G.Walk node front x := by
  induction h with
  | stay node =>
    obtain rfl := mem_singleton.mp hx
    exact ⟨[], Walk.stay x⟩
  | go hitem rest ih =>
    rcases mem_cons.mp hx with rfl | hrest
    · exact ⟨[], Walk.stay x⟩
    · obtain ⟨front, hfront⟩ := ih hrest
      exact ⟨_ :: front, Walk.go hitem hfront⟩

/-- A way that comes to a node twice has a round in it. -/
theorem Walk.round {node last : Node} {steps : List (Label × Node)}
    (h : G.Walk node steps last) (hagain : ¬ (visited node steps).Nodup) :
    ∃ front x around, around ≠ [] ∧ G.Walk node front x ∧
      G.Walk x around x := by
  induction h with
  | stay node => exact absurd (nodup_singleton node) hagain
  | go hitem rest ih =>
    rename_i node next last label steps
    by_cases hhere : node ∈ visited next steps
    · obtain ⟨back, hback⟩ := rest.to_visited hhere
      exact ⟨[], node, (label, next) :: back, cons_ne_nil _ _,
        Walk.stay node, Walk.go hitem hback⟩
    · have hrest : ¬ (visited next steps).Nodup := by
        intro hnodup
        exact hagain (nodup_cons.mpr ⟨hhere, hnodup⟩)
      obtain ⟨front, x, around, hne, hfront, haround⟩ := ih hrest
      exact ⟨(label, next) :: front, x, around, hne,
        Walk.go hitem hfront, haround⟩

/-- A round can be gone as often as one likes. -/
theorem Walk.rounds {x : Node} {around : List (Label × Node)}
    (h : G.Walk x around x) (hne : around ≠ []) (n : Nat) :
    ∃ steps, n ≤ steps.length ∧ G.Walk x steps x := by
  induction n with
  | zero => exact ⟨[], Nat.le_refl 0, Walk.stay x⟩
  | succ n ih =>
    obtain ⟨steps, hlength, hsteps⟩ := ih
    refine ⟨around ++ steps, ?_, h.append hsteps⟩
    have hpos := length_pos_of_ne_nil hne
    rw [length_append]
    omega

/-! When the listing ends. -/

/-- Some items are listed when each node among them is. -/
theorem listItems_isSome {inner : Node → Option (List (Found Label Leaf))}
    {items : List (Label × Item Node Leaf)} :
    (listItems inner items).isSome = true ↔
      ∀ label node, (label, .child node) ∈ items →
        (inner node).isSome = true := by
  induction items with
  | nil => simp [listItems]
  | cons item rest ih =>
    obtain ⟨label, item⟩ := item
    cases item with
    | leaf a =>
      rw [listItems, isSome_map, ih]
      simp
    | skipped =>
      rw [listItems, ih]
      simp
    | child node =>
      have hchild :
          (listItems inner ((label, .child node) :: rest)).isSome =
          ((inner node).isSome && (listItems inner rest).isSome) := by
        rw [listItems]
        cases inner node with
        | none => rfl
        | some below => cases listItems inner rest <;> rfl
      rw [hchild, Bool.and_eq_true, ih]
      constructor
      · intro h label' node' hmem
        rcases mem_cons.mp hmem with heq | hmem
        · rw [Item.child.inj (Prod.mk.inj heq).2]
          exact h.1
        · exact h.2 label' node' hmem
      · intro h
        refine ⟨h label node mem_cons_self, ?_⟩
        exact fun label' node' hmem =>
          h label' node' (mem_cons_of_mem _ hmem)

/-- The fuel lasts exactly when it exceeds the length of every way. -/
theorem list_isSome {fuel : Nat} {node : Node} :
    (G.list fuel node).isSome = true ↔
      ∀ steps last, G.Walk node steps last → steps.length < fuel := by
  induction fuel generalizing node with
  | zero =>
    refine iff_of_false Bool.false_ne_true fun h => ?_
    exact Nat.not_lt_zero _ (h [] node (Walk.stay node))
  | succ fuel ih =>
    rw [list, listItems_isSome]
    constructor
    · intro h steps last hwalk
      cases hwalk with
      | stay => exact Nat.succ_pos fuel
      | go hitem rest =>
        have hnext := ih.mp (h _ _ hitem) _ _ rest
        exact Nat.succ_lt_succ hnext
    · intro h label next hitem
      rw [ih]
      intro steps last hwalk
      exact Nat.lt_of_succ_lt_succ (h _ last (Walk.go hitem hwalk))

/-- The listing ends exactly when no way comes to a node twice. -/
theorem list_ends_iff [Fintype Node] {node : Node} :
    (∃ fuel found, G.list fuel node = some found) ↔ G.Acyclic node := by
  constructor
  · rintro ⟨fuel, found, hfound⟩ steps last hwalk
    by_contra hagain
    obtain ⟨front, x, around, hne, hfront, haround⟩ := hwalk.round hagain
    obtain ⟨more, hlength, hmore⟩ := haround.rounds hne fuel
    have hsome : (G.list fuel node).isSome = true := by
      rw [hfound]
      rfl
    have hlt := list_isSome.mp hsome _ _ (hfront.append hmore)
    rw [length_append] at hlt
    omega
  · intro hacyclic
    have hsome : (G.list (Fintype.card Node) node).isSome = true := by
      rw [list_isSome]
      intro steps last hwalk
      have hcard := (hacyclic steps last hwalk).length_le_card
      rw [visited, length_cons, length_map] at hcard
      omega
    exact ⟨_, _, (some_get hsome).symm⟩

/-! What is listed. -/

theorem mem_listItems {inner : Node → Option (List (Found Label Leaf))}
    {items : List (Label × Item Node Leaf)} {all : List (Found Label Leaf)}
    (h : listItems inner items = some all) {found : Found Label Leaf} :
    found ∈ all ↔
      (∃ label a, (label, .leaf a) ∈ items ∧ found = ([label], a)) ∨
        ∃ label node below, (label, .child node) ∈ items ∧
          inner node = some below ∧ found ∈ below.map (under label) := by
  induction items generalizing all with
  | nil =>
    obtain rfl := some.inj h
    simp
  | cons item rest ih =>
    obtain ⟨label, item⟩ := item
    cases item with
    | leaf a =>
      rw [listItems] at h
      obtain ⟨others, hothers, rfl⟩ := map_eq_some_iff.mp h
      rw [mem_cons, ih hothers]
      simp only [mem_cons, Prod.mk.injEq, Item.leaf.injEq,
        reduceCtorEq, and_false, false_or]
      constructor
      · rintro (rfl | hleaf | hchild)
        · exact .inl ⟨label, a, .inl ⟨rfl, rfl⟩, rfl⟩
        · obtain ⟨label', a', hmem, heq⟩ := hleaf
          exact .inl ⟨label', a', .inr hmem, heq⟩
        · exact .inr hchild
      · rintro (⟨label', a', ⟨rfl, rfl⟩ | hmem, heq⟩ | hchild)
        · exact .inl heq
        · exact .inr (.inl ⟨label', a', hmem, heq⟩)
        · exact .inr (.inr hchild)
    | skipped =>
      rw [listItems] at h
      rw [ih h]
      simp
    | child node =>
      rw [listItems] at h
      split at h
      next below others hbelow hothers =>
        obtain rfl := some.inj h
        rw [mem_append, ih hothers]
        simp only [mem_cons, Prod.mk.injEq, Item.child.injEq,
          reduceCtorEq, and_false, false_or]
        constructor
        · rintro (hhere | hleaf | hchild)
          · exact .inr ⟨label, node, below, .inl ⟨rfl, rfl⟩, hbelow, hhere⟩
          · exact .inl hleaf
          · obtain ⟨label', node', below', hmem, hrest⟩ := hchild
            exact .inr ⟨label', node', below', .inr hmem, hrest⟩
        · rintro (hleaf | ⟨label', node', below', ⟨rfl, rfl⟩ | hmem,
            hsome, hin⟩)
          · exact .inr (.inl hleaf)
          · rw [hbelow] at hsome
            obtain rfl := some.inj hsome
            exact .inl hin
          · exact .inr (.inr ⟨label', node', below', hmem, hsome, hin⟩)
      next => exact absurd h.symm (some_ne_none all)

theorem mem_list {fuel : Nat} {node : Node} {all : List (Found Label Leaf)}
    (h : G.list fuel node = some all) {found : Found Label Leaf} :
    found ∈ all ↔ ∃ steps last label, G.Walk node steps last ∧
      (label, .leaf found.2) ∈ G.items last ∧
      found.1 = steps.map Prod.fst ++ [label] := by
  induction fuel generalizing node all found with
  | zero => exact absurd h.symm (some_ne_none all)
  | succ fuel ih =>
    rw [list] at h
    rw [mem_listItems h]
    constructor
    · rintro (⟨label, a, hmem, rfl⟩ | ⟨label, next, below, hmem, hbelow, hin⟩)
      · exact ⟨[], node, label, Walk.stay node, hmem, rfl⟩
      · obtain ⟨inside, hinside, rfl⟩ := mem_map.mp hin
        obtain ⟨steps, last, name, hwalk, hleaf, hpath⟩ :=
          (ih hbelow).mp hinside
        refine ⟨(label, next) :: steps, last, name, Walk.go hmem hwalk, hleaf,
          ?_⟩
        rw [under, hpath]
        rfl
    · rintro ⟨steps, last, label, hwalk, hleaf, hpath⟩
      cases hwalk with
      | stay =>
        left
        exact ⟨label, found.2, hleaf, Prod.ext hpath rfl⟩
      | go hitem rest =>
        rename_i next name steps
        right
        have hsome : (G.list fuel next).isSome = true := by
          apply listItems_isSome.mp _ name next hitem
          rw [h]
          rfl
        obtain ⟨below, hbelow⟩ := isSome_iff_exists.mp hsome
        refine ⟨name, next, below, hitem, hbelow, ?_⟩
        rw [List.mem_map]
        refine ⟨(steps.map Prod.fst ++ [label], found.2), ?_,
          Prod.ext hpath.symm rfl⟩
        rw [ih hbelow]
        exact ⟨steps, last, label, rest, hleaf, rfl⟩

theorem head_of_listItems {inner : Node → Option (List (Found Label Leaf))}
    {items : List (Label × Item Node Leaf)} {all : List (Found Label Leaf)}
    (h : listItems inner items = some all) {path : List Label}
    (hpath : path ∈ all.map Prod.fst) :
    ∃ label rest, path = label :: rest ∧ label ∈ items.map Prod.fst := by
  obtain ⟨found, hfound, rfl⟩ := mem_map.mp hpath
  rcases (mem_listItems h).mp hfound with
    ⟨label, a, hmem, rfl⟩ | ⟨label, node, below, hmem, -, hin⟩
  · exact ⟨label, [], rfl, mem_map_of_mem hmem⟩
  · obtain ⟨inside, -, rfl⟩ := mem_map.mp hin
    exact ⟨label, inside.1, rfl, mem_map_of_mem hmem⟩

theorem listItems_nodup {inner : Node → Option (List (Found Label Leaf))}
    (hinner : ∀ node below, inner node = some below →
      (below.map Prod.fst).Nodup)
    {items : List (Label × Item Node Leaf)}
    (hlabels : (items.map Prod.fst).Nodup) {all : List (Found Label Leaf)}
    (h : listItems inner items = some all) : (all.map Prod.fst).Nodup := by
  induction items generalizing all with
  | nil =>
    obtain rfl := some.inj h
    exact nodup_nil
  | cons item rest ih =>
    obtain ⟨label, item⟩ := item
    rw [map_cons, nodup_cons] at hlabels
    cases item with
    | leaf a =>
      rw [listItems] at h
      obtain ⟨others, hothers, rfl⟩ := map_eq_some_iff.mp h
      rw [map_cons, nodup_cons]
      refine ⟨?_, ih hlabels.2 hothers⟩
      intro hagain
      obtain ⟨label', _, hpath, hmem⟩ := head_of_listItems hothers hagain
      exact hlabels.1 ((cons.inj hpath).1 ▸ hmem)
    | skipped => exact ih hlabels.2 h
    | child node =>
      rw [listItems] at h
      split at h
      next below others hbelow hothers =>
        obtain rfl := some.inj h
        have hunder : (below.map (under label)).map Prod.fst =
            (below.map Prod.fst).map (cons label) := by
          rw [List.map_map, List.map_map]
          rfl
        rw [map_append, hunder, nodup_append]
        refine ⟨?_, ih hlabels.2 hothers, ?_⟩
        · exact (hinner node below hbelow).map (cons_injective)
        · intro path hhere path' hthere heq
          obtain ⟨inside, -, rfl⟩ := mem_map.mp hhere
          obtain ⟨label', _, hpath, hmem⟩ :=
            head_of_listItems hothers hthere
          rw [← heq] at hpath
          exact hlabels.1 ((cons.inj hpath).1 ▸ hmem)
      next => exact absurd h.symm (some_ne_none all)

/-- Where the labels of a node differ, each way is listed once. -/
theorem list_nodup (hlabels : ∀ node, ((G.items node).map Prod.fst).Nodup)
    {fuel : Nat} {node : Node} {all : List (Found Label Leaf)}
    (h : G.list fuel node = some all) : (all.map Prod.fst).Nodup := by
  induction fuel generalizing node all with
  | zero => exact absurd h.symm (some_ne_none all)
  | succ fuel ih => exact listItems_nodup (fun _ _ => ih) (hlabels node) h

/-! Counting with a stack of nodes. -/

/-- The children go on the stack and the leaves are counted. -/
def pushItems : List (Label × Item Node Leaf) → List Node → Nat →
    List Node × Nat
  | [], stack, count => (stack, count)
  | (_, .leaf _) :: rest, stack, count => pushItems rest stack (count + 1)
  | (_, .child node) :: rest, stack, count =>
    pushItems rest (node :: stack) count
  | (_, .skipped) :: rest, stack, count => pushItems rest stack count

/-- Until the stack is empty; `none` when the fuel does not last. -/
def drain (G : Unfolding Node Label Leaf) : Nat → List Node → Nat → Option Nat
  | 0, _, _ => none
  | _ + 1, [], count => some count
  | fuel + 1, node :: stack, count =>
    let pushed := pushItems (G.items node) stack count
    drain G fuel pushed.1 pushed.2

variable (items : List (Label × Item Node Leaf))

/-- The nodes of some items, last first. -/
def children : List Node :=
  (pushItems items [] 0).1

theorem pushItems_eq (stack : List Node) (count : Nat) :
    pushItems items stack count =
      (children items ++ stack, count + (pushItems items [] 0).2) := by
  induction items generalizing stack count with
  | nil => rfl
  | cons item rest ih =>
    obtain ⟨label, item⟩ := item
    cases item with
    | leaf a =>
      rw [children, pushItems, pushItems, ih, ih [] (0 + 1)]
      simp only [append_nil, Prod.mk.injEq, true_and]
      omega
    | skipped =>
      rw [children, pushItems, pushItems, ih]
      rfl
    | child node =>
      rw [children, pushItems, pushItems, ih, ih [node]]
      simp

/-- Draining a stack goes over what stands on top of it, and on with the
rest. -/
def Drains (G : Unfolding Node Label Leaf) (top : List Node) (n : Nat) : Prop :=
  ∃ turns, ∀ fuel stack count,
    G.drain (turns + fuel) (top ++ stack) count = G.drain fuel stack (count + n)

theorem Drains.nil : G.Drains [] 0 := by
  refine ⟨0, fun fuel stack count => ?_⟩
  rw [Nat.zero_add]
  rfl

theorem Drains.append {top more : List Node} {n m : Nat}
    (htop : G.Drains top n) (hmore : G.Drains more m) :
    G.Drains (top ++ more) (n + m) := by
  obtain ⟨turns, hturns⟩ := htop
  obtain ⟨turns', hturns'⟩ := hmore
  refine ⟨turns + turns', fun fuel stack count => ?_⟩
  rw [Nat.add_assoc, append_assoc, hturns, hturns', Nat.add_assoc]

theorem Drains.node {node : Node} {n : Nat}
    (h : G.Drains (children (G.items node)) n) :
    G.Drains [node] ((pushItems (G.items node) [] 0).2 + n) := by
  obtain ⟨turns, hturns⟩ := h
  refine ⟨turns + 1, fun fuel stack count => ?_⟩
  have hfuel : turns + 1 + fuel = turns + fuel + 1 := by omega
  rw [hfuel, singleton_append, drain, pushItems_eq, hturns, Nat.add_assoc]

/-- What is listed of some items is what is counted of them. -/
theorem drains_items {inner : Node → Option (List (Found Label Leaf))}
    (hinner : ∀ node below, inner node = some below →
      G.Drains [node] below.length)
    {items : List (Label × Item Node Leaf)} {all : List (Found Label Leaf)}
    (h : listItems inner items = some all) :
    ∃ n, G.Drains (children items) n ∧
      (pushItems items [] 0).2 + n = all.length := by
  induction items generalizing all with
  | nil =>
    obtain rfl := some.inj h
    exact ⟨0, Drains.nil, rfl⟩
  | cons item rest ih =>
    obtain ⟨label, item⟩ := item
    cases item with
    | leaf a =>
      rw [listItems] at h
      obtain ⟨others, hothers, rfl⟩ := map_eq_some_iff.mp h
      obtain ⟨n, hdrains, hn⟩ := ih hothers
      refine ⟨n, ?_, ?_⟩
      · rw [children, pushItems, pushItems_eq, append_nil]
        exact hdrains
      · rw [pushItems, pushItems_eq, length_cons, ← hn]
        simp only
        omega
    | skipped =>
      rw [listItems] at h
      exact ih h
    | child node =>
      rw [listItems] at h
      split at h
      next below others hbelow hothers =>
        obtain rfl := some.inj h
        obtain ⟨n, hdrains, hn⟩ := ih hothers
        refine ⟨n + below.length, ?_, ?_⟩
        · rw [children, pushItems, pushItems_eq]
          exact hdrains.append (hinner node below hbelow)
        · rw [pushItems, pushItems_eq, length_append, length_map, ← hn]
          simp only
          omega
      next => exact absurd h.symm (some_ne_none all)

theorem drains_list {fuel : Nat} {node : Node} {all : List (Found Label Leaf)}
    (h : G.list fuel node = some all) : G.Drains [node] all.length := by
  induction fuel generalizing node all with
  | zero => exact absurd h.symm (some_ne_none all)
  | succ fuel ih =>
    obtain ⟨n, hdrains, hn⟩ := drains_items (fun _ _ => ih) h
    rw [← hn]
    exact hdrains.node

theorem drain_of_list {fuel : Nat} {node : Node}
    {all : List (Found Label Leaf)} (h : G.list fuel node = some all) :
    ∃ turns, G.drain turns [node] 0 = some all.length := by
  obtain ⟨turns, hturns⟩ := drains_list h
  refine ⟨turns + 1, ?_⟩
  have hdrain := hturns 1 [] 0
  rw [append_nil, Nat.zero_add] at hdrain
  exact hdrain

end Unfolding
