/-
Programs that change a state and may fail, file systems, and the disk on which
a program works.
-/
import Mathlib.Data.List.Induction

universe u v w

/-! Programs that change a state and may fail.  A relation between states that
holds of doing nothing and of one thing after another is kept by a program if
each of its steps keeps it, whether the program succeeds or fails. -/

/-- A program that changes a state and ends with a result or an error. -/
def Effects (σ : Type u) (ε : Type v) (α : Type w) := σ → Except ε α × σ

namespace Effects

variable {σ : Type u} {ε : Type v} {α β : Type w}

def done (a : α) : Effects σ ε α := fun s => (.ok a, s)

def fail (error : ε) : Effects σ ε α := fun s => (.error error, s)

/-- One program after another, unless the first one fails. -/
def andThen (x : Effects σ ε α) (f : α → Effects σ ε β) : Effects σ ε β :=
  fun s =>
    match x s with
    | (.ok a, t) => f a t
    | (.error e, t) => (.error e, t)

instance : Monad (Effects σ ε) where
  pure := done
  bind := andThen

/-- Go on, however the program has ended. -/
def attempt (x : Effects σ ε α) : Effects σ ε (Except ε α) :=
  fun s => (.ok (x s).1, (x s).2)

/-- From every state with `P`, the program ends as `Q` says. -/
def Ensures (P : σ → Prop) (x : Effects σ ε α) (Q : Except ε α → σ → Prop) :
    Prop :=
  ∀ s, P s → Q (x s).1 (x s).2

/-- However it ends, the program leaves a state in relation to the first. -/
def Within (R : σ → σ → Prop) (x : Effects σ ε α) : Prop :=
  ∀ s, R s (x s).2

@[simp] theorem bind_apply (x : Effects σ ε α) (f : α → Effects σ ε β)
    (s : σ) : (x >>= f) s =
      match x s with
      | (.ok a, t) => f a t
      | (.error e, t) => (.error e, t) := rfl

variable {x : Effects σ ε α} {f : α → Effects σ ε β}

theorem bind_ok {s : σ} {a : α}
    (h : (x s).1 = .ok a) : (x >>= f) s = f a (x s).2 := by
  rw [bind_apply]
  rcases hrun : x s with ⟨result, t⟩
  rw [hrun] at h
  obtain rfl : result = .ok a := h
  rfl

@[simp] theorem pure_apply (a : α) (s : σ) :
    (pure a : Effects σ ε α) s = (.ok a, s) := rfl

variable {R : σ → σ → Prop}

theorem Within.pure [Std.Refl R] (a : α) :
    Within R (pure a : Effects σ ε α) := fun s => Std.Refl.refl s

theorem Within.fail [Std.Refl R] (error : ε) :
    Within R (fail error : Effects σ ε α) := fun s => Std.Refl.refl s

theorem Within.bind [IsTrans σ R] (hx : Within R x) (hf : ∀ a, Within R (f a)) :
    Within R (x >>= f) := by
  intro s
  have hfirst := hx s
  rw [bind_apply]
  rcases hrun : x s with ⟨result, t⟩
  rw [hrun] at hfirst
  cases result with
  | error e => exact hfirst
  | ok a => exact IsTrans.trans s t _ hfirst (hf a t)

/-- `M` after success, and `Q` after an error, which ends what would follow. -/
def Midway (M : α → σ → Prop) (Q : Except ε β → σ → Prop) :
    Except ε α → σ → Prop
  | .ok a, t => M a t
  | .error e, t => Q (.error e) t

theorem Ensures.bind {P : σ → Prop} {M : α → σ → Prop}
    {Q : Except ε β → σ → Prop}
    (hx : Ensures P x (Midway M Q)) (hf : ∀ a, Ensures (M a) (f a) Q) : Ensures P (x >>= f) Q := by
  intro s hs
  have hfirst := hx s hs
  rw [bind_apply]
  rcases hrun : x s with ⟨result, t⟩
  rw [hrun] at hfirst
  cases result with
  | error e => exact hfirst
  | ok a => exact hf a t hfirst

theorem Within.mono {R' : σ → σ → Prop}
    (hx : Within R x) (h : ∀ s t, R s t → R' s t) : Within R' x :=
  fun s => h s _ (hx s)

/-- After a first state, a program that keeps a relation to it. -/
theorem Within.midway [IsTrans σ R] (hx : Within R x) {s : σ}
    {Q : Except ε β → σ → Prop} (hQ : ∀ e t, R s t → Q (.error e) t) :
    Ensures (R s) x (Midway (fun _ => R s) Q) := by
  intro t ht
  have hafter : R s (x t).2 := IsTrans.trans s t _ ht (hx t)
  cases hresult : (x t).1 with
  | ok a => exact hafter
  | error e => exact hQ e _ hafter

theorem Within.attempt (hx : Within R x) :
    Within R x.attempt := hx

end Effects

/-! File systems as maps from paths to nodes, and operations that may refuse.
`Keeps` says what an operation leaves alone: whatever it has not itself
written is there afterwards as it was before. -/

inductive Node where
  | file (content : List UInt8)
  | directory
deriving DecidableEq, Repr

abbrev Files (P : Type u) := P → Option Node

namespace Files

open Option

variable {P : Type u} [DecidableEq P]

def put (files : Files P) (path : P) (node : Option Node) : Files P :=
  Function.update files path node

/-- Removing one file; `none` when there is no file. -/
def removeFile (files : Files P) (path : P) : Option (Files P) :=
  match files path with
  | some (.file _) => some (files.put path none)
  | _ => none

/-- Moving a node; `none` when it is not there or cannot be put there.  Not
every file system replaces a file that stands at the new place. -/
def rename (replaces : Bool) (files : Files P) (source target : P) :
    Option (Files P) :=
  match files source, files target with
  | none, _ => none
  | some node, none => some ((files.put source none).put target (some node))
  | some node, some (.file _) =>
    if replaces then some ((files.put source none).put target (some node))
    else none
  | some _, some .directory => none

@[simp] theorem put_same (files : Files P) (path : P) (node : Option Node) :
    files.put path node path = node := by
  rw [put, Function.update_self]

theorem put_ne (files : Files P) {path other : P} (node : Option Node)
    (h : other ≠ path) : files.put path node other = files other := by
  rw [put, Function.update_of_ne h]

variable {files after : Files P}

theorem removeFile_of_file {path : P}
    {content : List UInt8} (h : files path = some (.file content)) :
    files.removeFile path = some (files.put path none) := by
  rw [removeFile, h]

theorem removeFile_ne {path other : P}
    (h : files.removeFile path = some after) (hne : other ≠ path) :
    after other = files other := by
  rw [removeFile] at h
  split at h
  · rw [← some.inj h, put_ne _ _ hne]
  · exact absurd h.symm (some_ne_none after)

/-- A rename that succeeds has found a node and moved it. -/
theorem rename_some {source target : P}
    {replaces : Bool} (h : files.rename replaces source target = some after) :
    ∃ node, files source = some node ∧
      after = (files.put source none).put target (some node) := by
  rw [rename] at h
  split at h
  · exact absurd h.symm (some_ne_none after)
  · rename_i node hsource htarget
    exact ⟨node, hsource, (some.inj h).symm⟩
  · rename_i node content hsource htarget
    split at h
    · exact ⟨node, hsource, (some.inj h).symm⟩
    · exact absurd h.symm (some_ne_none after)
  · exact absurd h.symm (some_ne_none after)

theorem rename_of_none {source target : P} {node : Node} (replaces : Bool)
    (hsource : files source = some node) (htarget : files target = none) :
    files.rename replaces source target =
      some ((files.put source none).put target (some node)) := by
  rw [rename, hsource, htarget]

/-- What has been moved is at the new place. -/
theorem rename_eq_some {source target : P}
    {replaces : Bool} (h : files.rename replaces source target = some after) :
    after target = files source := by
  obtain ⟨node, hsource, rfl⟩ := rename_some h
  rw [put_same, hsource]

theorem rename_ne {source target other : P}
    {replaces : Bool} (h : files.rename replaces source target = some after)
    (hsource : other ≠ source) (htarget : other ≠ target) :
    after other = files other := by
  obtain ⟨node, -, rfl⟩ := rename_some h
  rw [put_ne _ _ htarget, put_ne _ _ hsource]

end Files

/-! A disk on which a program works: a tree of directories and files, the paths
that the program has itself written, and what happens at the points where it
waits or makes a call.  Paths are lists of names. -/

namespace Files

open Option

variable {N : Type u}

def isFile (files : Files (List N)) (path : List N) : Bool :=
  match files path with
  | some (.file _) => true
  | _ => false

variable {files after : Files (List N)} {path other : List N}

theorem isFile_iff :
    files.isFile path = true ↔ ∃ content, files path = some (.file content) := by
  rw [isFile]
  split
  · rename_i content hfile
    exact iff_of_true rfl ⟨content, hfile⟩
  · rename_i hother
    simpa using hother

/-- Each node stands in a directory. -/
def Rooted (files : Files (List N)) : Prop :=
  ∀ path name, files (path ++ [name]) ≠ none → files path = some .directory

theorem Rooted.above (h : files.Rooted)
    (hbelow : path <+: other) (hne : path ≠ other)
    (hnode : files other ≠ none) : files path = some .directory := by
  obtain ⟨back, rfl⟩ := hbelow
  induction back using List.reverseRecOn with
  | nil => exact absurd (List.append_nil path).symm hne
  | append_singleton back name ih =>
    rw [← List.append_assoc] at hnode
    have hparent := h _ name hnode
    by_cases hback : back = []
    · rwa [hback, List.append_nil] at hparent
    · refine ih ?_ ?_
      · simpa using hback
      · rw [hparent]
        exact some_ne_none _

variable [DecidableEq N]

/-- Create the directories on the way to a path; `none` if a file stands on
the way. -/
def createDirAll (files : Files (List N)) (path : List N) :
    Option (Files (List N)) :=
  if ∃ n < path.length + 1, files.isFile (path.take n) then none
  else some fun other =>
    if other <+: path ∧ files other = none then some .directory
    else files other

/-- An empty file in a directory, which replaces another file. -/
def createFile (files : Files (List N)) (path : List N) :
    Option (Files (List N)) :=
  if files path = some .directory then none
  else if files path.dropLast = some .directory then
    some (files.put path (some (.file [])))
  else none

/-- What is written to a file that is no longer there is lost. -/
def writeFile (files : Files (List N)) (path : List N)
    (content : List UInt8) : Files (List N) :=
  if files.isFile path then files.put path (some (.file content)) else files

/-- Remove everything at and under a path but what is above or at a path that
cannot be removed. -/
def removeAll (files : Files (List N)) (path : List N)
    (stubborn : List (List N)) : Files (List N) :=
  fun other =>
    if path <+: other ∧ ¬ ∃ left ∈ stubborn, other <+: left then none
    else files other

theorem createDirAll_of_some
    (h : files.createDirAll path = some after) {node : Node}
    (hnode : files other = some node) : after other = some node := by
  rw [createDirAll] at h
  split at h
  · exact absurd h.symm (some_ne_none _)
  · rw [← some.inj h]
    simp only [hnode, reduceCtorEq, and_false, ↓reduceIte]

theorem createFile_isFile
    (h : files.createFile path = some after) : after.isFile path = true := by
  rw [createFile] at h
  split at h
  · exact absurd h.symm (some_ne_none _)
  · split at h
    · rw [← some.inj h, isFile, put_same]
    · exact absurd h.symm (some_ne_none _)

theorem writeFile_isFile (content : List UInt8) (h : files.isFile path = true) :
    (files.writeFile path content).isFile path = true := by
  rw [writeFile, if_pos h, isFile, put_same]

theorem createFile_ne (h : files.createFile path = some after)
    (hne : other ≠ path) : after other = files other := by
  rw [createFile] at h
  split at h
  · exact absurd h.symm (some_ne_none _)
  · split at h
    · rw [← some.inj h, put_ne _ _ hne]
    · exact absurd h.symm (some_ne_none _)

theorem writeFile_ne (files : Files (List N))
    (content : List UInt8) (hne : other ≠ path) :
    files.writeFile path content other = files other := by
  rw [writeFile]
  split
  · exact put_ne _ _ hne
  · rfl

theorem removeAll_inside (files : Files (List N))
    (h : path <+: other) : files.removeAll path [] other = none :=
  if_pos ⟨h, fun ⟨_, hmem, _⟩ => List.not_mem_nil hmem⟩

end Files

/-- What happens at a point where a program waits or makes a call.  A call that
fails may have got part of the way. -/
inductive Signal (ε : Type v) where
  | pass
  | fault (error : ε) (reached : Nat)
  | cancel
deriving DecidableEq, Repr

structure Disk (N : Type u) (ε : Type v) where
  files : Files (List N)
  written : List (List N)
  signals : List (Signal ε)

namespace Disk

variable {N : Type u} {E : Type v} {ε : Type w}

/-- All that was there is there as before. -/
structure Adds (before after : Disk N E) : Prop where
  written : after.written = before.written
  kept : ∀ path node, before.files path = some node →
    after.files path = some node

/-- Whatever the program has not written is there as before. -/
structure Keeps (before after : Disk N E) : Prop where
  written : before.written ⊆ after.written
  kept : ∀ path node, before.files path = some node →
    path ∉ after.written → after.files path = some node

instance : Std.Refl (Keeps (N := N) (E := E)) where
  refl := fun _ => ⟨List.Subset.refl _, fun _ _ h _ => h⟩

instance : IsTrans (Disk N E) Keeps where
  trans := fun _ _ _ hfirst hsecond =>
    ⟨List.Subset.trans hfirst.written hsecond.written,
      fun path node hnode hlast =>
      hsecond.kept path node
        (hfirst.kept path node hnode fun hmem => hlast (hsecond.written hmem))
        hlast⟩

instance : Std.Refl (Adds (N := N) (E := E)) where
  refl := fun _ => ⟨rfl, fun _ _ h => h⟩

instance : IsTrans (Disk N E) Adds where
  trans := fun _ _ _ hfirst hsecond =>
    ⟨hsecond.written.trans hfirst.written, fun path node hnode =>
      hsecond.kept path node (hfirst.kept path node hnode)⟩

theorem Adds.keeps {before after : Disk N E} (h : Adds before after) :
    Keeps before after :=
  ⟨fun _ hmem => h.written ▸ hmem, fun path node hnode _ =>
    h.kept path node hnode⟩

/-- What happens next; nothing does after the last signal. -/
def signal : Effects (Disk N E) ε (Signal E) := fun disk =>
  (.ok (disk.signals.headD .pass), { disk with signals := disk.signals.tail })

/-- A point where the program stops if it has been cancelled. -/
def wait (cancelled : ε) : Effects (Disk N E) ε PUnit := do
  match ← signal with
  | .cancel => .fail cancelled
  | _ => pure ⟨⟩

/-- A call that leaves the disk alone. -/
def call (wrap : E → ε) : Effects (Disk N E) ε PUnit := do
  match ← signal with
  | .fault error _ => .fail (wrap error)
  | _ => pure ⟨⟩

/-- A call on the disk, which the system may refuse. -/
def change (refused : ε) (act : Files (List N) → Option (Files (List N))) :
    Effects (Disk N E) ε PUnit := fun disk =>
  match act disk.files with
  | none => (.error refused, disk)
  | some files => (.ok ⟨⟩, { disk with files := files })

/-- A call on the disk that puts something at a path. -/
def write (refused : ε) (act : Files (List N) → Option (Files (List N)))
    (path : List N) : Effects (Disk N E) ε PUnit := fun disk =>
  match act disk.files with
  | none => (.error refused, disk)
  | some files =>
    (.ok ⟨⟩, { disk with files := files, written := path :: disk.written })

/-- What a program finds on the disk, if the call does not fail. -/
def query {α : Type w} (ask : Files (List N) → α) :
    Effects (Disk N E) ε (Option α) := fun disk =>
  match disk.signals.headD .pass with
  | .fault _ _ => (.ok none, { disk with signals := disk.signals.tail })
  | _ => (.ok (some (ask disk.files)),
      { disk with signals := disk.signals.tail })

/-- A command that may change the disk and put something at the paths it
names, and the text of its failure.  A command that reports a failure may have
been carried out all the same. -/
def command (refused : E)
    (act : Files (List N) → Option (Files (List N) × List (List N))) :
    Effects (Disk N E) ε (Option E) := fun disk =>
  let rest := { disk with signals := disk.signals.tail }
  match disk.signals.headD .pass, act disk.files with
  | .fault error 0, _ => (.ok (some error), rest)
  | .fault error _, none => (.ok (some error), rest)
  | .fault error _, some (files, paths) =>
    (.ok (some error),
      { rest with files := files, written := paths ++ disk.written })
  | _, none => (.ok (some refused), rest)
  | _, some (files, paths) =>
    (.ok none, { rest with files := files, written := paths ++ disk.written })

theorem signal_adds :
    Effects.Within Adds (signal : Effects (Disk N E) ε (Signal E)) :=
  fun _ => ⟨rfl, fun _ _ h => h⟩

theorem query_adds {α : Type w} (ask : Files (List N) → α) :
    Effects.Within Adds (query ask : Effects (Disk N E) ε (Option α)) := by
  intro disk
  rw [query]
  split <;> exact ⟨rfl, fun _ _ h => h⟩

theorem command_ok (refused : E)
    (act : Files (List N) → Option (Files (List N) × List (List N)))
    (disk : Disk N E) :
    ∃ exit, (command refused act disk : Except ε (Option E) × _).1 =
      .ok exit := by
  rw [command]
  split <;> exact ⟨_, rfl⟩

theorem command_within (refused : E)
    {act : Files (List N) → Option (Files (List N) × List (List N))}
    (hact : ∀ files after paths, act files = some (after, paths) →
      ∀ other node, files other = some node → other ∉ paths →
        after other = some node) :
    Effects.Within Keeps
      (command refused act : Effects (Disk N E) ε (Option E)) := by
  intro disk
  have hnothing {disk : Disk N E} : Keeps disk
      { disk with signals := disk.signals.tail } :=
    ⟨List.Subset.refl _, fun _ _ h _ => h⟩
  have hdone {files : Files (List N)} {paths : List (List N)}
      (h : act disk.files = some (files, paths)) : Keeps disk
        { disk with
          signals := disk.signals.tail
          files := files
          written := paths ++ disk.written } :=
    ⟨List.subset_append_right _ _, fun other node hnode hother =>
      hact disk.files files paths h other node hnode fun hmem =>
        hother (List.mem_append_left _ hmem)⟩
  rw [command]
  split
  · exact hnothing
  · exact hnothing
  · exact hdone ‹_›
  · exact hnothing
  · exact hdone ‹_›

theorem wait_adds (cancelled : ε) :
    Effects.Within Adds (wait cancelled : Effects (Disk N E) ε PUnit) := by
  apply signal_adds.bind
  rintro (_ | _ | _)
  · exact Effects.Within.pure _
  · exact Effects.Within.pure _
  · exact Effects.Within.fail _

theorem call_adds (wrap : E → ε) :
    Effects.Within Adds (call wrap : Effects (Disk N E) ε PUnit) := by
  apply signal_adds.bind
  rintro (_ | ⟨error, reached⟩ | _)
  · exact Effects.Within.pure _
  · exact Effects.Within.fail _
  · exact Effects.Within.pure _

theorem change_adds (refused : ε)
    {act : Files (List N) → Option (Files (List N))}
    (hact : ∀ files after, act files = some after → ∀ path node,
      files path = some node → after path = some node) :
    Effects.Within Adds (change refused act : Effects (Disk N E) ε PUnit) := by
  intro disk
  rw [change]
  cases hafter : act disk.files with
  | none => exact Std.Refl.refl disk
  | some after =>
    exact ⟨rfl, fun path node hnode =>
      hact disk.files after hafter path node hnode⟩

theorem write_within (refused : ε)
    {act : Files (List N) → Option (Files (List N))} {path : List N}
    (hact : ∀ files after, act files = some after → ∀ other, other ≠ path →
      after other = files other) :
    Effects.Within Keeps
      (write refused act path : Effects (Disk N E) ε PUnit) := by
  intro disk
  rw [write]
  cases hafter : act disk.files with
  | none => exact Std.Refl.refl disk
  | some after =>
    refine ⟨List.subset_cons_self _ _, fun other node hnode hother => ?_⟩
    rw [List.mem_cons, not_or] at hother
    exact (hact disk.files after hafter other hother.1).trans hnode

/-- The errors of a call are those that the program makes of the system's. -/
def Wrapped (wrap : E → ε) (result : Except ε PUnit) : Prop :=
  ∀ error, result = .error error → ∃ text, error = wrap text

theorem wrapped_error (wrap : E → ε) (text : E) :
    Wrapped wrap (.error (wrap text)) :=
  fun _ h => ⟨text, (Except.error.inj h).symm⟩

theorem wrapped_ok (wrap : E → ε) : Wrapped wrap (.ok ⟨⟩) :=
  fun _ h => absurd h (by simp)

theorem change_wrapped (wrap : E → ε) (text : E)
    (act : Files (List N) → Option (Files (List N))) (disk : Disk N E) :
    Wrapped wrap (change (wrap text) act disk).1 := by
  rw [change]
  cases act disk.files with
  | none => exact wrapped_error wrap text
  | some after => exact wrapped_ok wrap

theorem call_wrapped (wrap : E → ε) (disk : Disk N E) :
    Wrapped wrap (call wrap disk).1 := by
  simp only [call, Effects.bind_apply, signal]
  cases disk.signals.headD .pass with
  | pass | cancel => exact wrapped_ok wrap
  | fault error reached => exact wrapped_error wrap error

variable [DecidableEq N]

def createDirAll (wrap : E → ε) (refused : E) (path : List N) :
    Effects (Disk N E) ε PUnit := do
  match ← signal with
  | .fault error reached => do
    change (wrap error) (Files.createDirAll · (path.take reached))
    .fail (wrap error)
  | _ => change (wrap refused) (Files.createDirAll · path)

def createFile (wrap : E → ε) (refused : E) (path : List N) :
    Effects (Disk N E) ε PUnit := do
  match ← signal with
  | .fault error _ => .fail (wrap error)
  | _ => write (wrap refused) (Files.createFile · path) path

/-- Content that the program writes to a file it has opened. -/
def writeFile (path : List N) (content : List UInt8) :
    Effects (Disk N E) ε PUnit := fun disk =>
  (.ok ⟨⟩, { disk with
      files := disk.files.writeFile path content
      written := path :: disk.written })

section

variable (wrap : E → ε) (refused : E) (path : List N)
include wrap refused path

theorem createDirAll_adds :
    Effects.Within Adds
      (createDirAll wrap refused path : Effects (Disk N E) ε PUnit) := by
  have hact (path : List N) : ∀ files after,
      Files.createDirAll files path = some after → ∀ other node,
        files other = some node → after other = some node :=
    fun files after h other node hnode => Files.createDirAll_of_some h hnode
  apply signal_adds.bind
  rintro (_ | ⟨error, reached⟩ | _)
  · exact change_adds _ (hact path)
  · exact (change_adds _ (hact _)).bind fun _ => Effects.Within.fail _
  · exact change_adds _ (hact path)

theorem createDirAll_wrapped (disk : Disk N E) :
    Wrapped wrap (createDirAll wrap refused path disk).1 := by
  simp only [createDirAll, Effects.bind_apply, signal]
  cases disk.signals.headD .pass with
  | pass | cancel => exact change_wrapped wrap refused _ _
  | fault error reached =>
    have hchange := change_wrapped wrap error
      (Files.createDirAll · (path.take reached))
      { disk with signals := disk.signals.tail }
    simp only [Effects.bind_apply]
    split
    · exact wrapped_error wrap error
    · rename_i error' after hfailed
      rw [hfailed] at hchange
      exact hchange

theorem createFile_spec (disk : Disk N E) :
    ((createFile wrap refused path disk).1 = .ok ⟨⟩ ∧
        path ∈ (createFile wrap refused path disk).2.written ∧
        (createFile wrap refused path disk).2.files.isFile path = true) ∨
      ((∃ text, (createFile wrap refused path disk).1 = .error (wrap text)) ∧
        (createFile wrap refused path disk).2.written = disk.written ∧
        (createFile wrap refused path disk).2.files = disk.files) := by
  simp only [createFile, Effects.bind_apply, signal]
  cases disk.signals.headD .pass with
  | fault error reached => exact .inr ⟨⟨error, rfl⟩, rfl, rfl⟩
  | pass | cancel =>
    simp only [write]
    cases hafter : disk.files.createFile path with
    | none => exact .inr ⟨⟨refused, rfl⟩, rfl, rfl⟩
    | some after =>
      exact .inl ⟨rfl, List.mem_cons_self, Files.createFile_isFile hafter⟩

theorem createFile_within :
    Effects.Within Keeps
      (createFile wrap refused path : Effects (Disk N E) ε PUnit) := by
  have hact : ∀ files after, Files.createFile files path = some after →
      ∀ other, other ≠ path → after other = files other :=
    fun files after h other hne => Files.createFile_ne h hne
  apply (signal_adds.mono fun _ _ h => h.keeps).bind
  rintro (_ | ⟨error, reached⟩ | _)
  · exact write_within _ hact
  · exact Effects.Within.fail _
  · exact write_within _ hact

end

theorem writeFile_within (path : List N) (content : List UInt8) :
    Effects.Within Keeps
      (writeFile path content : Effects (Disk N E) ε PUnit) := by
  refine fun disk => ⟨List.subset_cons_self _ _, fun other node h hother => ?_⟩
  have hne : other ≠ path :=
    fun heq => hother (heq ▸ List.mem_cons_self)
  exact (Files.writeFile_ne disk.files content hne).trans h

end Disk
