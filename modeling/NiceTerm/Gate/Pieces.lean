/-
The boundaries of frames in a text.  `findNextBoundary` finds the first mark,
and `pendingBoundarySuffix` the longest end that may begin one.
-/
import NiceTerm.Gate.Order
import NiceTerm.Lib.Marks

namespace NiceTerm.Gate

open JsString List
open FrameGate (isSuffix_pendingSuffixLoop take_append_pendingBoundarySuffix)

theorem headed_sequences : Marks.Headed dec2026Sequences where
  ne_nil := by decide
  head := by
    have hall : (dec2026Sequences.all fun mark =>
        dec2026Sequences.all fun other =>
          mark.tail.all fun unit => other.head? != some unit) = true := by
      decide
    simp only [all_eq_true, bne_iff_ne] at hall
    exact hall
  eq_of_prefix := by decide

variable {text : JsStr}

theorem indexOf_eq_some {sequence : JsStr} {index : Nat}
    (hne : sequence ≠ []) (h : indexOf text sequence = some index) :
    sequence <+: text.drop index ∧
      ∀ j, sequence <+: text.drop j → index ≤ j := by
  obtain ⟨⟨front, back⟩, hdrop, rfl⟩ := Option.map_eq_some_iff.mp h
  obtain ⟨rfl, hfirst⟩ := (Search.dropInfix?_eq_some hne).mp hdrop
  refine ⟨?_, fun j hstarts => ?_⟩
  · rw [append_assoc, drop_left]
    exact prefix_append _ _
  · by_contra hlt
    apply hfirst
    have hpos := length_pos_iff.mpr hne
    simp only [Nat.not_le] at hlt
    rw [append_assoc, drop_append_of_le_length hlt.le]
      at hstarts
    have hwhole : front.drop j ++ sequence.dropLast <+:
        front.drop j ++ (sequence ++ back) :=
      (prefix_append_right_inj _).mpr
        ((List.dropLast_prefix _).trans (prefix_append _ _))
    have hshort : sequence <+: front.drop j ++ sequence.dropLast := by
      refine prefix_of_prefix_length_le hstarts hwhole ?_
      rw [length_append, length_drop, length_dropLast]
      omega
    refine hshort.isInfix.trans ?_
    exact ⟨front.take j, [], by
      rw [append_nil, ← append_assoc, take_append_drop]⟩

theorem indexOf_eq_none {sequence : JsStr} (h : indexOf text sequence = none)
    (j : Nat) : ¬ sequence <+: text.drop j := by
  have hnone := Search.dropInfix?_eq_none.mp (Option.map_eq_none_iff.mp h)
  exact fun hstarts =>
    hnone (hstarts.isInfix.trans (drop_suffix j text).isInfix)

/-- The nearest of the marks looked for so far. -/
def Nearest (sequences : List JsStr) (text : JsStr) :
    Option Dec2026Boundary → Prop
  | none => Marks.Unmarked sequences text
  | some boundary =>
    boundary.kind = boundaryKind boundary.sequence ∧
      Marks.First sequences text boundary.index boundary.sequence

theorem nearest_nearerBoundary {sequences : List JsStr} {sequence : JsStr}
    {next : Option Dec2026Boundary} (hne : sequence ≠ [])
    (h : Nearest sequences text next) :
    Nearest (sequences ++ [sequence]) text
      (nearerBoundary text next sequence) := by
  have hmem : ∀ {i : Nat} {mark : JsStr},
      Marks.At (sequences ++ [sequence]) text i mark ↔
        Marks.At sequences text i mark ∨
          mark = sequence ∧ sequence <+: text.drop i := by
    intro i mark
    rw [Marks.At, mem_append, mem_singleton, or_and_right]
    refine or_congr_right (and_congr_right ?_)
    rintro rfl
    exact Iff.rfl
  rw [nearerBoundary]
  cases hindex : indexOf text sequence with
  | none =>
    have hnone := indexOf_eq_none hindex
    cases next with
    | none =>
      intro i mark hat
      exact (hmem.mp hat).elim (h i mark) fun hat => hnone i hat.2
    | some best =>
      refine ⟨h.1, hmem.mpr (.inl h.2.here), fun j other hat => ?_⟩
      exact (hmem.mp hat).elim (h.2.least j other) fun hat =>
        absurd hat.2 (hnone j)
  | some index =>
    obtain ⟨hstarts, hleast⟩ := indexOf_eq_some hne hindex
    have hhere : Marks.At (sequences ++ [sequence]) text index sequence :=
      hmem.mpr (.inr ⟨rfl, hstarts⟩)
    cases next with
    | none =>
      refine ⟨rfl, hhere, fun j other hat => ?_⟩
      exact (hmem.mp hat).elim (fun hat => absurd hat (h j other)) fun hat =>
        hleast j hat.2
    | some best =>
      simp only
      split
      · rename_i hnearer
        refine ⟨rfl, hhere, fun j other hat => ?_⟩
        refine (hmem.mp hat).elim (fun hat => ?_) fun hat => hleast j hat.2
        have hbest := h.2.least j other hat
        change index ≤ j
        omega
      · rename_i hnearer
        refine ⟨h.1, hmem.mpr (.inl h.2.here), fun j other hat => ?_⟩
        refine (hmem.mp hat).elim (h.2.least j other) fun hat => ?_
        have hle := hleast j hat.2
        omega

theorem nearest_findNextBoundary (text : JsStr) :
    Nearest dec2026Sequences text (findNextBoundary text) := by
  have hfold : ∀ (rest done : List JsStr) (next : Option Dec2026Boundary),
      (∀ sequence ∈ rest, sequence ≠ []) → Nearest done text next →
      Nearest (done ++ rest) text (rest.foldl (nearerBoundary text) next) := by
    intro rest
    induction rest with
    | nil => exact fun done next _ h => (append_nil done).symm ▸ h
    | cons sequence rest ih =>
      intro done next hne h
      rw [forall_mem_cons] at hne
      rw [append_cons]
      exact ih _ _ hne.2 (nearest_nearerBoundary hne.1 h)
  refine hfold dec2026Sequences [] none headed_sequences.ne_nil ?_
  exact fun i mark h => absurd h.1 not_mem_nil

theorem findNextBoundary_eq_none :
    findNextBoundary text = none ↔ Marks.Unmarked dec2026Sequences text := by
  have hnearest := nearest_findNextBoundary text
  cases hfind : findNextBoundary text with
  | none =>
    rw [hfind] at hnearest
    exact iff_of_true rfl hnearest
  | some boundary =>
    rw [hfind] at hnearest
    refine iff_of_false (Option.some_ne_none _) fun hunmarked => ?_
    exact hunmarked _ _ hnearest.2.here

theorem findNextBoundary_eq_some {mark : JsStr} {i : Nat} :
    findNextBoundary text = some ⟨i, mark, boundaryKind mark⟩ ↔
      Marks.First dec2026Sequences text i mark := by
  have hnearest := nearest_findNextBoundary text
  cases hfind : findNextBoundary text with
  | none =>
    rw [hfind] at hnearest
    refine iff_of_false (Option.some_ne_none _).symm fun hfirst => ?_
    exact hnearest _ _ hfirst.here
  | some boundary =>
    rw [hfind] at hnearest
    obtain ⟨index, sequence, kind⟩ := boundary
    obtain ⟨hkind, hfirst⟩ := hnearest
    simp only at hkind hfirst
    subst hkind
    constructor
    · intro h
      cases h
      exact hfirst
    · intro h
      obtain ⟨rfl, rfl⟩ := hfirst.unique headed_sequences h
      rfl

variable {boundary : Dec2026Boundary}

theorem first_of_findNextBoundary (h : findNextBoundary text = some boundary) :
    Marks.First dec2026Sequences text boundary.index boundary.sequence := by
  have hnearest := nearest_findNextBoundary text
  rw [h] at hnearest
  exact hnearest.2

theorem findNextBoundary_append (h : findNextBoundary text = some boundary)
    (rest : JsStr) : findNextBoundary (text ++ rest) = some boundary := by
  have hnearest := nearest_findNextBoundary text
  rw [h] at hnearest
  obtain ⟨index, sequence, kind⟩ := boundary
  obtain ⟨hkind, hfirst⟩ := hnearest
  simp only at hkind hfirst
  rw [hkind]
  exact findNextBoundary_eq_some.mpr (hfirst.append headed_sequences rest)

theorem findNextBoundary_behind {front : JsStr}
    (hbehind : ∀ j mark, Marks.At dec2026Sequences (front ++ text) j mark →
      front.length ≤ j)
    (h : findNextBoundary text = some boundary) :
    findNextBoundary (front ++ text) = some
      ⟨front.length + boundary.index, boundary.sequence, boundary.kind⟩ := by
  have hnearest := nearest_findNextBoundary text
  rw [h] at hnearest
  rw [hnearest.1]
  exact findNextBoundary_eq_some.mpr (hnearest.2.behind hbehind)

theorem begun_iff :
    dec2026Sequences.any (text.isPrefixOf ·) = true ↔
      Marks.Begun dec2026Sequences text := by
  simp only [any_eq_true, isPrefixOf_iff_prefix, Marks.Begun]

theorem begun_pendingSuffixLoop (text : JsStr) (length : Nat) :
    Marks.Begun dec2026Sequences (pendingSuffixLoop text length) := by
  induction length with
  | zero => exact ⟨dec2026BeginEsc, mem_cons_self, nil_prefix⟩
  | succ length ih =>
    rw [pendingSuffixLoop]
    split
    · rename_i hany
      exact begun_iff.mp hany
    · exact ih

theorem le_pendingSuffixLoop {longer : JsStr} (hsuffix : longer <:+ text)
    (hbegun : Marks.Begun dec2026Sequences longer) (length : Nat)
    (hle : longer.length ≤ length) (htext : length ≤ text.length) :
    longer.length ≤ (pendingSuffixLoop text length).length := by
  induction length with
  | zero => exact hle.trans (Nat.zero_le _)
  | succ length ih =>
    rw [pendingSuffixLoop]
    split
    · rw [length_drop]
      omega
    · rename_i hnot
      by_cases heq : longer.length = length + 1
      · have hlonger : text.drop (text.length - (length + 1)) = longer := by
          rw [← heq]
          exact (suffix_iff_eq_drop.mp hsuffix).symm
        rw [hlonger] at hnot
        exact absurd (begun_iff.mpr hbegun) hnot
      · exact ih (by omega) (by omega)

theorem longest_pendingBoundarySuffix (text : JsStr) :
    Marks.Longest dec2026Sequences text (pendingBoundarySuffix text) := by
  refine ⟨isSuffix_pendingSuffixLoop text _,
    begun_pendingSuffixLoop text _, fun longer hsuffix hbegun => ?_⟩
  refine le_pendingSuffixLoop hsuffix hbegun _ ?_ (Nat.min_le_right _ _)
  obtain ⟨sequence, hmem, hstarts⟩ := hbegun
  have hshort : ∀ sequence ∈ dec2026Sequences,
      sequence.length ≤ maxPendingCsiChars := by
    decide
  exact Nat.le_min.mpr ⟨hstarts.length_le.trans (hshort sequence hmem),
    hsuffix.length_le⟩

/-! The gate on a stream that comes in pieces. The view leaves out the caps,
the timer and the byte counts; cutting the stream outside the marks of an open
frame does not change it. -/

/-- What is held, what has been forwarded so far, and the frames dropped. -/
structure GateView where
  pending : JsStr := []
  data : JsStr := []
  content : JsStr := []
  held : Option JsStr := none
  forwarded : JsStr := []
  dropped : List JsStr := []
deriving DecidableEq, Repr

namespace GateView

open List

variable {v : GateView} {x y : JsStr}

def forward (v : GateView) (text : JsStr) : GateView :=
  { v with forwarded := v.forwarded ++ text }

def flush (v : GateView) : GateView where
  forwarded := v.forwarded ++ v.pending ++ v.data ++ v.held.getD []
  dropped := v.dropped

def barrier (v : GateView) (text : JsStr) : GateView :=
  if text = [] then v else v.flush.forward text

def append (v : GateView) (text : JsStr) : GateView :=
  { v with data := v.data ++ text, content := v.content ++ text }

def release (v : GateView) (proof : SuccessorProof) : GateView :=
  match v.held with
  | none => v
  | some frame =>
    if proof = .selfContainedReplacement then
      { v with held := none, dropped := v.dropped ++ [frame] }
    else { v with held := none, forwarded := v.forwarded ++ frame }

def complete (v : GateView) (data content : JsStr) : GateView :=
  match classifyDec2026Frame content (utf8Length data) with
  | .replaceableVisual _ proof => { v.release proof with held := some data }
  | _ => v.flush.forward data

def openWith (v : GateView) (sequence : JsStr) : GateView :=
  { v with data := sequence, content := [] }

def closeWith (v : GateView) (sequence : JsStr) : GateView :=
  { v with data := [], content := [] }.complete (v.data ++ sequence) v.content

def keep (v : GateView) (suffix : JsStr) : GateView :=
  { v with pending := suffix }

def round (v : GateView) (text : JsStr) : GateView × JsStr :=
  if v.data ≠ [] then
    match findNextBoundary text with
    | none => (v.append text, [])
    | some boundary =>
      let rest := text.drop (boundary.index + boundary.sequence.length)
      let v := v.append (text.take boundary.index)
      match boundary.kind with
      | .opens => (v.flush.forward boundary.sequence, rest)
      | .closes => (v.closeWith boundary.sequence, rest)
  else
    match findNextBoundary text with
    | none =>
      let suffix := pendingBoundarySuffix text
      let barrier := text.take (text.length - suffix.length)
      ((v.barrier barrier).keep suffix, [])
    | some boundary =>
      let rest := text.drop (boundary.index + boundary.sequence.length)
      let v := v.barrier (text.take boundary.index)
      match boundary.kind with
      | .closes => (v.barrier boundary.sequence, rest)
      | .opens => (v.openWith boundary.sequence, rest)

theorem length_round (v : GateView) {text : JsStr} (h : text ≠ []) :
    (v.round text).2.length < text.length := by
  have hpos := length_pos_of_ne_nil h
  unfold round
  split <;> split
  · exact hpos
  · next boundary hfind =>
    have hshort := length_drop_boundary hfind
    split <;> exact hshort
  · exact hpos
  · next boundary hfind =>
    have hshort := length_drop_boundary hfind
    split <;> exact hshort

def loop (v : GateView) (text : JsStr) : GateView :=
  if _h : text = [] then v
  else
    let round := v.round text
    loop round.1 round.2
termination_by text.length
decreasing_by exact length_round v _h

/-- One more piece of the stream. -/
def process (v : GateView) (data : JsStr) : GateView :=
  (v.keep []).loop (v.pending ++ data)

theorem loop_nil (v : GateView) : v.loop [] = v := by
  rw [loop, dif_pos rfl]

theorem keep_nil (h : v.pending = []) : v.keep [] = v := by
  rw [← h]
  rfl

theorem process_of_pending (h : v.pending = []) : v.process y = v.loop y := by
  rw [process, keep_nil h, h, nil_append]

theorem loop_of_ne_nil (h : x ≠ []) :
    v.loop x = (v.round x).1.loop (v.round x).2 := by
  rw [loop, dif_neg h]

theorem append_append : (v.append x).append y = v.append (x ++ y) := by
  simp only [append, append_assoc]

theorem append_nil : v.append [] = v := by
  simp only [append, List.append_nil]

theorem barrier_append : (v.barrier x).barrier y = v.barrier (x ++ y) := by
  unfold barrier
  by_cases hx : x = []
  · rw [if_pos hx, hx, nil_append]
  · rw [if_neg hx, if_neg (append_ne_nil_of_left_ne_nil hx y)]
    split
    · next hy => rw [hy, List.append_nil]
    · simp only [flush, forward, append_assoc, List.append_nil,
        Option.getD_none]

theorem barrier_pending (hpending : v.pending = []) (x : JsStr) :
    (v.barrier x).pending = [] := by
  unfold barrier
  split
  · exact hpending
  · rfl

theorem barrier_data (hdata : v.data = []) (x : JsStr) :
    (v.barrier x).data = [] := by
  unfold barrier
  split
  · exact hdata
  · rfl

theorem release_pending (proof : SuccessorProof) :
    (v.release proof).pending = v.pending := by
  unfold release
  split
  · rfl
  · split <;> rfl

theorem closeWith_pending (hpending : v.pending = []) (sequence : JsStr) :
    (v.closeWith sequence).pending = [] := by
  unfold closeWith complete
  split
  · exact (release_pending _).trans hpending
  · rfl

theorem round_pending (hpending : v.pending = []) {boundary : Dec2026Boundary}
    (hfind : findNextBoundary x = some boundary) :
    (v.round x).1.pending = [] := by
  unfold round
  simp only [hfind]
  split
  · split
    · rfl
    · apply closeWith_pending
      exact hpending
  · split
    · exact barrier_pending (barrier_pending hpending _) _
    · exact barrier_pending hpending _

/-- The first mark of the front is handled the same way whatever follows. -/
theorem round_append_of_some {boundary : Dec2026Boundary}
    (hfind : findNextBoundary x = some boundary) (y : JsStr) :
    v.round (x ++ y) = ((v.round x).1, (v.round x).2 ++ y) := by
  have hfirst := first_of_findNextBoundary hfind
  have hwhole := findNextBoundary_append hfind y
  have hlength := hfirst.here.lt_length headed_sequences
  have htake : (x ++ y).take boundary.index = x.take boundary.index :=
    take_append_of_le_length (by omega)
  have hdrop : (x ++ y).drop (boundary.index + boundary.sequence.length) =
      x.drop (boundary.index + boundary.sequence.length) ++ y :=
    drop_append_of_le_length hlength
  unfold round
  simp only [hfind, hwhole, htake, hdrop]
  split
  · split <;> rfl
  · split <;> rfl

/-- Inside a frame, a front that no mark begins in only grows the frame. -/
theorem round_append_of_data (hdata : v.data ≠ [])
    (hbehind : ∀ j mark, Marks.At dec2026Sequences (x ++ y) j mark →
      x.length ≤ j) :
    v.round (x ++ y) = (v.append x).round y := by
  have hgrown : (v.append x).data ≠ [] :=
    append_ne_nil_of_left_ne_nil hdata x
  unfold round
  rw [if_pos hdata, if_pos hgrown]
  cases hfind : findNextBoundary y with
  | none =>
    have hwhole := findNextBoundary_eq_none.mpr
      (Marks.unmarked_behind hbehind (findNextBoundary_eq_none.mp hfind))
    simp only [hwhole, append_append]
  | some boundary =>
    rw [findNextBoundary_behind hbehind hfind]
    simp only [Nat.add_assoc, take_length_add_append,
      drop_length_add_append, append_append]

/-- Outside frames, a front that no mark begins in is a barrier. -/
theorem round_append_of_barrier (hdata : v.data = [])
    (hbehind : ∀ j mark, Marks.At dec2026Sequences (x ++ y) j mark →
      x.length ≤ j)
    (hsuffix : findNextBoundary y = none →
      pendingBoundarySuffix (x ++ y) = pendingBoundarySuffix y) :
    v.round (x ++ y) = (v.barrier x).round y := by
  unfold round
  rw [if_neg (not_not.mpr hdata), if_neg (not_not.mpr (barrier_data hdata x))]
  cases hfind : findNextBoundary y with
  | none =>
    have hwhole := findNextBoundary_eq_none.mpr
      (Marks.unmarked_behind hbehind (findNextBoundary_eq_none.mp hfind))
    have hshort := (longest_pendingBoundarySuffix y).isSuffix.length_le
    have hcut : (x ++ y).length - (pendingBoundarySuffix y).length =
        x.length + (y.length - (pendingBoundarySuffix y).length) := by
      rw [length_append]
      omega
    simp only [hwhole, hsuffix hfind, hcut, take_length_add_append,
      barrier_append]
  | some boundary =>
    rw [findNextBoundary_behind hbehind hfind]
    simp only [Nat.add_assoc, take_length_add_append,
      drop_length_add_append, barrier_append]

/-- Two rounds that end the same way continue the same way. -/
theorem loop_append_of_round {w : GateView} (hy : y ≠ [])
    (hround : v.round (x ++ y) = w.round y) : v.loop (x ++ y) = w.loop y := by
  rw [loop_of_ne_nil (append_ne_nil_of_right_ne_nil x hy),
    loop_of_ne_nil hy, hround]

/-- Outside frames, what may begin a mark is kept for the next piece. -/
theorem loop_append_of_barrier (hpending : v.pending = [])
    (hdata : v.data = []) (hne : x ≠ [])
    (hunmarked : Marks.Unmarked dec2026Sequences x) (y : JsStr) :
    v.loop (x ++ y) = ((v.round x).1.loop (v.round x).2).process y := by
  have hlongest := longest_pendingBoundarySuffix x
  have hcut := FrameGate.take_append_pendingBoundarySuffix x
  have hround : v.round x =
      ((v.barrier (x.take (x.length - (pendingBoundarySuffix x).length))).keep
        (pendingBoundarySuffix x), []) := by
    unfold GateView.round
    rw [if_neg (not_not.mpr hdata), findNextBoundary_eq_none.mpr hunmarked]
  generalize hrest : pendingBoundarySuffix x = rest at *
  generalize x.take (x.length - rest.length) = front at *
  subst hcut
  have hkept : ((v.barrier front).keep rest).process y =
      (v.barrier front).loop (rest ++ y) := by
    change ((v.barrier front).keep []).loop (rest ++ y) = _
    rw [keep_nil (barrier_pending hpending front)]
  rw [hround, loop_nil, hkept, append_assoc]
  by_cases hlast : rest ++ y = []
  · obtain ⟨rfl, rfl⟩ := append_eq_nil_iff.mp hlast
    rw [List.append_nil] at hround hne
    rw [List.append_nil, List.append_nil, loop_of_ne_nil hne, hround, loop_nil,
      loop_nil]
    exact keep_nil (barrier_pending hpending front)
  · refine loop_append_of_round hlast
      (round_append_of_barrier hdata ?_ fun _ => ?_)
    · exact Marks.behind_of_longest hunmarked hlongest y
    · exact (longest_pendingBoundarySuffix _).unique
        (hlongest.append (longest_pendingBoundarySuffix _))

/-- Cutting the stream behind `x` changes nothing, where the cut does not go
through a mark of an open frame. -/
theorem loop_append (v : GateView) (x y : JsStr) (hpending : v.pending = [])
    (huncut : (v.loop x).data ≠ [] →
      ¬ Marks.Straddles dec2026Sequences (v.loop x).data y) :
    v.loop (x ++ y) = (v.loop x).process y := by
  induction v, x using loop.induct with
  | case1 v =>
    rw [loop_nil, nil_append, process_of_pending hpending]
  | case2 v x hne round ih =>
    rw [loop_of_ne_nil hne] at huncut ⊢
    cases hfind : findNextBoundary x with
    | some boundary =>
      rw [← ih (round_pending hpending hfind) huncut, loop_of_ne_nil
        (append_ne_nil_of_left_ne_nil hne y), round_append_of_some hfind]
    | none =>
      have hunmarked := findNextBoundary_eq_none.mp hfind
      by_cases hdata : v.data = []
      · exact loop_append_of_barrier hpending hdata hne hunmarked y
      · have hlast : v.round x = (v.append x, []) := by
          unfold GateView.round
          rw [if_pos hdata, hfind]
        rw [hlast, loop_nil] at huncut ⊢
        have hgrown : (v.append x).pending = [] := hpending
        rw [process_of_pending hgrown]
        by_cases hy : y = []
        · rw [hy, List.append_nil, loop_nil, loop_of_ne_nil hne, hlast,
            loop_nil]
        · refine loop_append_of_round hy (round_append_of_data hdata ?_)
          refine Marks.behind_of_not_straddles hunmarked fun hcut => ?_
          exact huncut (append_ne_nil_of_left_ne_nil hdata x)
            (hcut.append_left v.data)

/-- Nothing is left to do before the next piece. -/
def Resting (v : GateView) : Prop :=
  v.process [] = v

theorem resting_process (v : GateView) (data : JsStr) :
    (v.process data).Resting := by
  have hloop := (v.keep []).loop_append (v.pending ++ data) [] rfl
    fun _ => Marks.not_straddles_nil headed_sequences
  rw [List.append_nil] at hloop
  exact hloop.symm

/-- Two pieces are one, where the cut does not go through a mark of an open
frame. -/
theorem process_append (huncut : (v.process x).data ≠ [] →
      ¬ Marks.Straddles dec2026Sequences (v.process x).data y) :
    (v.process x).process y = v.process (x ++ y) := by
  have hloop := (v.keep []).loop_append (v.pending ++ x) y rfl huncut
  rw [append_assoc] at hloop
  exact hloop.symm

end GateView

end NiceTerm.Gate
