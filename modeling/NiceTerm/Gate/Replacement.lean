/-
Dropping a frame that the next one repaints.  A frame classified as a
self-contained replacement resets the attributes, clears the screen and homes
the cursor before it prints; the screen it ends in is its own, provided that
no erase in between depends on where the cursor was left.
-/
import NiceTerm.Gate.FrameGate
import NiceTerm.Gate.Screen

namespace NiceTerm.Gate

open JsString Terminal

def Token.Allowed : Token → Prop
  | .csi sequence => classifyCsi sequence = .allowed
  | _ => True

/-- The flags of the classifier after a token. -/
def Seen.token (seen : Seen) : Token → Seen
  | .csi sequence => seen.csi sequence
  | .control _ => seen
  | .print _ => { seen with printable := true }

def Seen.tokens (seen : Seen) (tokens : List Token) : Seen :=
  tokens.foldl Seen.token seen

def Seen.proof (seen : Seen) : SuccessorProof :=
  if seen.resetBeforeEd2 && seen.ed2AfterReset && seen.homeBeforePrintable
  then .selfContainedReplacement
  else .none

/-- A chain of cases is left at a case that gives another value. -/
theorem of_ite_eq {α : Type} {P : Prop} [Decidable P] {a b c : α}
    (hne : a ≠ c) (h : (if P then a else b) = c) : ¬ P ∧ b = c := by
  by_cases hP : P
  · rw [if_pos hP] at h
    exact absurd h hne
  · rw [if_neg hP] at h
    exact ⟨hP, h⟩

variable {bytes count : Nat} {proof : SuccessorProof}

theorem classifyEscape_ne {next : Option UInt16} :
    classifyEscape bytes next ≠ .replaceableVisual count proof := by
  intro h
  unfold classifyEscape at h
  iterate 6 replace h := (of_ite_eq (by simp) h).2
  cases h

theorem classifyControl_ne {code : UInt16} :
    classifyControl bytes code ≠ some (.replaceableVisual count proof) := by
  intro h
  unfold classifyControl at h
  iterate 9 replace h := (of_ite_eq (by simp) h).2
  cases h

theorem isCursorControl_iff (code : UInt16) :
    isCursorControl code = true ↔ code = 0x0d ∨ code = 0x09 ∨ code = 0x08 := by
  simp [isCursorControl, or_assoc]

/-- The classifier ends at every control that moves no cursor. -/
theorem not_isControl {code : UInt16}
    (hnone : classifyControl bytes code = none)
    (hcursor : ¬ (code = 0x0d ∨ code = 0x09 ∨ code = 0x08)) :
    ¬ isControl code = true := by
  unfold classifyControl at hnone
  iterate 5 replace hnone := (of_ite_eq (by simp) hnone).2
  rw [if_neg hcursor] at hnone
  iterate 2 replace hnone := (of_ite_eq (by simp) hnone).2
  have hrange := (of_ite_eq (by simp) hnone).1
  simpa only [isControl, Bool.or_eq_true, Bool.and_eq_true,
    decide_eq_true_eq, beq_iff_eq, or_assoc] using hrange

variable {content : JsStr}

/-- What the classifier lets through is text that the terminal model covers. -/
theorem classifyLoop_replaceable {seen : Seen}
    (h : classifyLoop bytes content seen = .replaceableVisual count proof) :
    ∃ tokens, tokenize content = some tokens ∧
      (∀ token ∈ tokens, token.Allowed) ∧
      proof = (seen.tokens tokens).proof := by
  induction content, seen using classifyLoop.induct bytes with
  | case1 seen =>
    rw [classifyLoop] at h
    refine ⟨[], by rw [tokenize], by simp, ?_⟩
    exact (Dec2026FrameClassification.replaceableVisual.inj h).2.symm
  | case2 seen code tail hstarts hnone =>
    rw [classifyLoop, if_pos hstarts] at h
    split at h
    · cases h
    · next hsome => rw [hnone] at hsome; cases hsome
  | case3 seen code tail csi hallowed hstarts hcsi ih =>
    rw [classifyLoop, if_pos hstarts] at h
    split at h
    · next hnone => rw [hcsi] at hnone; cases hnone
    · next other hother =>
      rw [← Option.some.inj (hcsi.symm.trans hother), hallowed] at h
      obtain ⟨tokens, htokens, hall, hproof⟩ := ih h
      refine ⟨.csi { csi with rest := [] } :: tokens, ?_, ?_, hproof⟩
      · rw [tokenize_csi hstarts hcsi, htokens]
        rfl
      · exact List.forall_mem_cons.mpr ⟨hallowed, hall⟩
  | case4 seen code tail csi reason hstateful hstarts hcsi =>
    rw [classifyLoop, if_pos hstarts] at h
    split at h
    · cases h
    · next other hother =>
      rw [← Option.some.inj (hcsi.symm.trans hother), hstateful] at h
      cases h
  | case5 seen code tail csi reason hunknown hstarts hcsi =>
    rw [classifyLoop, if_pos hstarts] at h
    split at h
    · cases h
    · next other hother =>
      rw [← Option.some.inj (hcsi.symm.trans hother), hunknown] at h
      cases h
  | case6 seen tail hstarts =>
    rw [classifyLoop, if_neg hstarts, if_pos rfl] at h
    exact absurd h classifyEscape_ne
  | case7 seen code tail hescape classification hsome hstarts =>
    rw [classifyLoop, if_neg hstarts, if_neg hescape, hsome] at h
    exact absurd (hsome.trans (congrArg some h)) classifyControl_ne
  | case8 seen code tail hescape hnone hcursor hstarts ih =>
    rw [classifyLoop, if_neg hstarts, if_neg hescape, hnone] at h
    simp only [if_pos hcursor] at h
    obtain ⟨tokens, htokens, hall, hproof⟩ := ih h
    have hcontrol := (isCursorControl_iff code).mpr hcursor
    refine ⟨.control code :: tokens, ?_, ?_, hproof⟩
    · rw [tokenize_control hstarts hcontrol, htokens]
      rfl
    · exact List.forall_mem_cons.mpr ⟨trivial, hall⟩
  | case9 seen code tail hescape hnone hcursor hstarts ih =>
    rw [classifyLoop, if_neg hstarts, if_neg hescape, hnone] at h
    simp only [if_neg hcursor] at h
    obtain ⟨tokens, htokens, hall, hproof⟩ := ih h
    have hnot : ¬ isCursorControl code = true := fun hcontrol =>
      hcursor ((isCursorControl_iff code).mp hcontrol)
    refine ⟨.print (codePoint (code :: tail)) :: tokens, ?_, ?_, hproof⟩
    · rw [tokenize_print hstarts hnot (not_isControl hnone hcursor), htokens]
      rfl
    · exact List.forall_mem_cons.mpr ⟨trivial, hall⟩

theorem classifyCsi_allowed {csi : Csi} (h : classifyCsi csi = .allowed) :
    csi.intermediates = [] ∧
      ((csi.final = 0x6d ∧ hasPrivateMarker csi.params = false) ∨
        (csi.final ≠ 0x6d ∧ (isAllowedCursorCsi csi.final csi.params = true ∨
            isAllowedEraseCsi csi.final csi.params = true))) := by
  unfold classifyCsi at h
  obtain ⟨hintermediates, h⟩ := of_ite_eq (by simp) h
  refine ⟨not_not.mp hintermediates, ?_⟩
  iterate 5 replace h := (of_ite_eq (by simp) h).2
  by_cases hsgr : csi.final = 0x6d
  · rw [if_pos hsgr] at h
    exact .inl ⟨hsgr, by simpa using (of_ite_eq (by simp) h).1⟩
  · rw [if_neg hsgr] at h
    refine .inr ⟨hsgr, ?_⟩
    by_cases hcursor : isAllowedCursorCsi csi.final csi.params = true
    · exact .inl hcursor
    · rw [if_neg hcursor] at h
      replace h := (of_ite_eq (by simp) h).2
      by_contra hneither
      rw [if_neg fun herase => hneither (.inr herase)] at h
      cases h

/-- An allowed control sequence stands for operations that print nothing. -/
theorem csiOperations_of_allowed {csi : Csi} (h : classifyCsi csi = .allowed) :
    ∃ operations, csiOperations csi = some operations ∧
      ∀ operation ∈ operations, operation.isPrint = false := by
  obtain ⟨hintermediates, hkind⟩ := classifyCsi_allowed h
  unfold csiOperations
  rw [if_neg (not_not.mpr hintermediates)]
  rcases hkind with ⟨hsgr, hprivate⟩ | ⟨hsgr, hcursor | herase⟩
  · rw [if_pos hsgr, if_neg (by simp [hprivate])]
    exact ⟨_, rfl, by simp [Operation.isPrint]⟩
  · rw [if_neg hsgr, if_pos hcursor]
    exact ⟨_, rfl, by simp [Operation.isPrint]⟩
  · rw [if_neg hsgr]
    split <;> exact ⟨_, rfl, by simp [Operation.isPrint]⟩

theorem tokenOperations_of_allowed {tokens : List Token}
    (h : ∀ token ∈ tokens, token.Allowed) :
    ∃ operations, tokenOperations tokens = some operations := by
  induction tokens with
  | nil => exact ⟨[], rfl⟩
  | cons token rest ih =>
    have htoken : ∃ front, token.operations = some front := by
      cases token with
      | csi sequence =>
        have hallowed := h _ List.mem_cons_self
        obtain ⟨front, hfront, -⟩ := csiOperations_of_allowed hallowed
        exact ⟨front, hfront⟩
      | control code => exact ⟨_, rfl⟩
      | print code => exact ⟨_, rfl⟩
    obtain ⟨front, hfront⟩ := htoken
    obtain ⟨back, hback⟩ := ih fun other hmem =>
      h other (List.mem_cons_of_mem token hmem)
    exact ⟨front ++ back, by rw [tokenOperations, hfront, hback]⟩

/-- A frame that the gate may hold can be run on every screen. -/
theorem textOperations_of_replaceable
    (h : classifyDec2026Frame content bytes = .replaceableVisual count proof) :
    ∃ operations, textOperations content = some operations := by
  obtain ⟨tokens, htokens, hall, -⟩ := classifyLoop_replaceable h
  obtain ⟨operations, hoperations⟩ := tokenOperations_of_allowed hall
  exact ⟨operations, by rw [textOperations, htokens]; exact hoperations⟩

variable {Attr Cell : Type}

/-- What the flags of the classifier say about the terminal. -/
structure Tracks (seen : Seen) (k : Knowledge Attr Cell) : Prop where
  attributes : seen.resetBeforeEd2 = true → k.attributes.isSome
  row : seen.homeBeforePrintable = true → k.row = true
  col : seen.homeBeforePrintable = true → k.col = true

theorem tracks_initial : Tracks {} ({} : Knowledge Attr Cell) where
  attributes h := absurd h (by decide)
  row h := absurd h (by decide)
  col h := absurd h (by decide)

theorem Tracks.extends {seen : Seen} {k l : Knowledge Attr Cell}
    (h : Tracks seen k) (hextends : k.Extends l) : Tracks seen l :=
  ⟨hextends.attributes ∘ h.attributes, hextends.row ∘ h.row,
    hextends.col ∘ h.col⟩

variable [DecidableEq Cell] {operations : List Operation}

theorem csiOperations_of_isSgrReset {csi : Csi}
    (hreset : isSgrReset csi = true) (h : csiOperations csi = some operations) :
    operations = [.sgr [0x30]] := by
  simp only [isSgrReset, Bool.and_eq_true, beq_iff_eq] at hreset
  obtain ⟨⟨hfinal, hparams⟩, -⟩ := hreset
  unfold csiOperations at h
  split at h
  · cases h
  · rw [hparams, if_neg (by decide)] at h
    exact (Option.some.inj h).symm

theorem csiOperations_of_isHome {csi : Csi}
    (hhome : isHome csi = true) (h : csiOperations csi = some operations) :
    ∃ row col, operations = [.travel (.goto row) (.goto col)] := by
  have hcases : (csi.final = 0x48 ∨ csi.final = 0x66) ∧
      (csi.params = [] ∨ csi.params = [0x31, 0x3b, 0x31]) := by
    unfold isHome at hhome
    split at hhome
    · next hfinal => exact ⟨.inl hfinal, by simpa using hhome⟩
    · simp only [Bool.and_eq_true, beq_iff_eq] at hhome
      exact ⟨.inr hhome.1, .inr hhome.2⟩
  unfold csiOperations at h
  split at h
  · cases h
  · obtain ⟨hfinal | hfinal, hparams | hparams⟩ := hcases <;>
      (rw [hfinal, hparams] at h; exact ⟨_, _, (Option.some.inj h).symm⟩)

theorem Tracks.csi {seen : Seen} {k : Knowledge Attr Cell}
    (emulator : Emulator Attr Cell) (h : Tracks seen k)
    (hprintable : seen.printable = false) {csi : Csi}
    {operations : List Operation}
    (hoperations : csiOperations csi = some operations)
    (hsilent : ∀ operation ∈ operations, operation.isPrint = false) :
    Tracks (seen.csi csi) (k.run emulator operations) := by
  have hextends := Knowledge.run_extends emulator k hsilent
  have hkept := h.extends hextends
  unfold Seen.csi
  rw [if_neg (by simp [hprintable])]
  refine ⟨?_, ?_, ?_⟩
  · intro hseen
    by_cases hreset : isSgrReset csi = true
    · rw [csiOperations_of_isSgrReset hreset hoperations]
      rfl
    · exact hkept.attributes (by simpa [hreset] using hseen)
  · intro hseen
    by_cases hhome : isHome csi = true
    · obtain ⟨row, col, rfl⟩ := csiOperations_of_isHome hhome hoperations
      exact Bool.or_true k.row
    · exact hkept.row (by simpa [hhome] using hseen)
  · intro hseen
    by_cases hhome : isHome csi = true
    · obtain ⟨row, col, rfl⟩ := csiOperations_of_isHome hhome hoperations
      exact Bool.or_true k.col
    · exact hkept.col (by simpa [hhome] using hseen)

theorem tokens_of_printable {seen : Seen} (h : seen.printable = true)
    (tokens : List Token) : seen.tokens tokens = seen := by
  induction tokens generalizing seen with
  | nil => rfl
  | cons token rest ih =>
    have hsame : seen.token token = seen := by
      cases token with
      | csi sequence => exact if_pos h
      | control code => rfl
      | print code =>
        change { seen with printable := true } = seen
        rw [← h]
    change (seen.token token).tokens rest = seen
    rw [hsame, ih h]

/-- What is done before anything is printed. -/
def header (operations : List Operation) : List Operation :=
  operations.takeWhile fun operation => !operation.isPrint

theorem header_append {front : List Operation}
    (h : ∀ operation ∈ front, operation.isPrint = false)
    (back : List Operation) : header (front ++ back) = front ++ header back := by
  apply List.takeWhile_append_of_pos
  intro operation hmem
  rw [h operation hmem]
  rfl

theorem Tracks.tokens (emulator : Emulator Attr Cell) {seen : Seen}
    {k : Knowledge Attr Cell} (h : Tracks seen k)
    (hprintable : seen.printable = false) {tokens : List Token}
    (hall : ∀ token ∈ tokens, token.Allowed) {operations : List Operation}
    (hoperations : tokenOperations tokens = some operations) :
    Tracks (seen.tokens tokens) (k.run emulator (header operations)) := by
  induction tokens generalizing seen k operations with
  | nil =>
    rw [← Option.some.inj hoperations]
    exact h
  | cons token rest ih =>
    simp only [tokenOperations] at hoperations
    split at hoperations
    · next front back hfront hback =>
      rw [← Option.some.inj hoperations]
      have hrest := fun other hmem =>
        hall other (List.mem_cons_of_mem token hmem)
      cases token with
      | csi sequence =>
        have hallowed := hall _ List.mem_cons_self
        obtain ⟨found, hfound, hsilent⟩ :=
          csiOperations_of_allowed hallowed
        have hsame := Option.some.inj (hfound.symm.trans hfront)
        rw [hsame] at hfound hsilent
        have hstep := h.csi emulator hprintable hfound hsilent
        have hstill : (seen.csi sequence).printable = false := by
          unfold Seen.csi
          rw [if_neg (by simp [hprintable])]
          exact hprintable
        rw [header_append hsilent, Knowledge.run, List.foldl_append]
        exact ih hstep hstill hrest hback
      | control code =>
        have hsilent : ∀ operation ∈ front, operation.isPrint = false := by
          rw [← Option.some.inj hfront]
          simp [Operation.isPrint]
        have hstep := h.extends (Knowledge.run_extends emulator k hsilent)
        rw [header_append hsilent, Knowledge.run, List.foldl_append]
        exact ih hstep hprintable hrest hback
      | print code =>
        let printed : Seen := { seen with printable := true }
        have hflags : printed.tokens rest = printed :=
          tokens_of_printable rfl rest
        rw [← Option.some.inj hfront]
        change Tracks (printed.tokens rest) k
        rw [hflags]
        exact ⟨h.attributes, h.row, h.col⟩
    · cases hoperations

variable (emulator : Emulator Attr Cell)

/-- Before anything is printed, every erase since the screen was last cleared
either has an extent that the frame itself has fixed, or leaves the screen as
the clearing did. -/
def PaintsScreen (content : JsStr) : Prop :=
  (({} : Knowledge Attr Cell).run emulator
    (header ((textOperations content).getD []))).ground ≠ .unknown

instance [DecidableEq Attr] (emulator : Emulator Attr Cell)
    (content : JsStr) : Decidable (PaintsScreen emulator content) :=
  inferInstanceAs (Decidable (_ ≠ _))

variable {rows cols : Nat}

/-- From any two screens of the same modes the frame ends in the same one. -/
theorem run_eq_of_selfContained
    (hclass : classifyDec2026Frame content bytes =
      .replaceableVisual count .selfContainedReplacement)
    (hpaints : PaintsScreen emulator content)
    (hoperations : textOperations content = some operations)
    {s t : Screen Attr Cell rows cols} (hmodes : s.modes = t.modes) :
    s.run emulator operations = t.run emulator operations := by
  obtain ⟨tokens, htokens, hall, hproof⟩ := classifyLoop_replaceable hclass
  rw [PaintsScreen, hoperations] at hpaints
  rw [textOperations, htokens] at hoperations
  have hheader := tracks_initial.tokens emulator rfl hall hoperations
  have hseen : (({} : Seen).tokens tokens).resetBeforeEd2 = true ∧
      (({} : Seen).tokens tokens).homeBeforePrintable = true := by
    unfold Seen.proof at hproof
    split at hproof
    · next hflags =>
      simp only [Bool.and_eq_true] at hflags
      exact ⟨hflags.1.1, hflags.2⟩
    · cases hproof
  have hagree : Agree (({} : Knowledge Attr Cell).run emulator
      (header operations)) (s.run emulator (header operations))
      (t.run emulator (header operations)) :=
    (Agree.of_modes hmodes).run (header operations)
  have hsame := hagree.eq ⟨hheader.attributes hseen.1, hpaints,
    hheader.row hseen.2, hheader.col hseen.2⟩
  have hsplit := List.takeWhile_append_dropWhile
    (p := fun operation : Operation => !operation.isPrint) (l := operations)
  rw [header] at hsame
  rw [← hsplit, Screen.run_append, Screen.run_append, hsame]

/-- A complete frame: its content between two boundaries. -/
structure Dec2026Frame where
  opens : JsStr
  content : JsStr
  closes : JsStr
  opens_mem : opens ∈ dec2026Sequences
  opens_kind : boundaryKind opens = .opens
  closes_mem : closes ∈ dec2026Sequences
  closes_kind : boundaryKind closes = .closes

def Dec2026Frame.data (frame : Dec2026Frame) : JsStr :=
  frame.opens ++ frame.content ++ frame.closes

section

variable {sequence : JsStr} (h : sequence ∈ dec2026Sequences)
include h

theorem boundary_csi :
    ∃ csi, startsCsi sequence = true ∧ parseCsi sequence = some csi ∧ csi.rest
      = [] ∧ csiOperations csi =
        some [.synchronize (decide (boundaryKind sequence = .opens))] := by
  simp only [dec2026Sequences, List.mem_cons, List.not_mem_nil, or_false] at h
  rcases h with rfl | rfl | rfl | rfl <;>
    exact ⟨_, by decide, rfl, rfl, by decide⟩

theorem boundary_head :
    ∀ unit ∈ sequence.head?, isLowSurrogate unit = false ∧ unit ≠ 0x5b := by
  simp only [dec2026Sequences, List.mem_cons, List.not_mem_nil, or_false] at h
  intro unit hunit
  rcases h with rfl | rfl | rfl | rfl <;>
    (rw [← Option.some.inj hunit]; decide)

theorem textOperations_boundary {text : JsStr}
    (htext : textOperations text = some operations) :
    textOperations (sequence ++ text) =
      some (.synchronize (decide (boundaryKind sequence = .opens)) ::
        operations) := by
  obtain ⟨csi, hstarts, hcsi, hrest, hoperations⟩ := boundary_csi h
  obtain ⟨tokens, htokens, htoken⟩ := Option.bind_eq_some_iff.mp htext
  have hlonger := parseCsi_append hstarts hcsi text
  have hne : sequence ≠ [] := by
    rintro rfl
    exact absurd hstarts (by decide)
  have hstarts' : startsCsi (sequence ++ text) = true := by
    cases sequence with
    | nil => exact absurd rfl hne
    | cons first rest =>
      cases rest with
      | nil => exact absurd h (by simp [dec2026Sequences, dec2026BeginEsc,
          dec2026EndEsc, dec2026BeginC1, dec2026EndC1])
      | cons second others => exact hstarts
  rw [textOperations, tokenize_csi hstarts' hlonger, hrest, List.nil_append,
    htokens]
  have hoperations' : csiOperations { csi with rest := [] } =
      some [.synchronize (decide (boundaryKind sequence = .opens))] :=
    hoperations
  simp only [Option.map_some, Option.bind_some, tokenOperations,
    Token.operations, hoperations', htoken, List.singleton_append]

end

theorem textOperations_frame (frame : Dec2026Frame)
    (h : textOperations frame.content = some operations) :
    textOperations frame.data =
      some (.synchronize true :: operations ++ [.synchronize false]) := by
  have hhead := boundary_head frame.closes_mem
  have hcloses := textOperations_boundary frame.closes_mem
    (show textOperations [] = some [] by rw [textOperations, tokenize]; rfl)
  rw [List.append_nil, frame.closes_kind] at hcloses
  obtain ⟨tokens, htokens, htoken⟩ := Option.bind_eq_some_iff.mp h
  obtain ⟨last, hlast, hlastOperations⟩ := Option.bind_eq_some_iff.mp hcloses
  have hinner : textOperations (frame.content ++ frame.closes) =
      some (operations ++ [.synchronize false]) := by
    rw [textOperations, tokenize_append htokens
      (fun unit hunit => (hhead unit hunit).1)
      (fun unit hunit => (hhead unit hunit).2), hlast]
    exact tokenOperations_append htoken hlastOperations
  have houter := textOperations_boundary frame.opens_mem hinner
  rw [frame.opens_kind, ← List.append_assoc] at houter
  exact houter

/-- The screen a frame ends in does not depend on the frame before it. -/
theorem run_frame_eq
    (hclass : classifyDec2026Frame content bytes =
      .replaceableVisual count .selfContainedReplacement)
    (hpaints : PaintsScreen emulator content)
    (hoperations : textOperations content = some operations)
    (earlier : List Operation) (s : Screen Attr Cell rows cols) :
    (s.run emulator (.synchronize true :: earlier ++ [.synchronize false])).run
        emulator (.synchronize true :: operations ++ [.synchronize false]) =
      s.run emulator
        (.synchronize true :: operations ++ [.synchronize false]) := by
  let before := s.run emulator
    (.synchronize true :: earlier ++ [.synchronize false])
  have hmodes : (before.execute emulator (.synchronize true)).modes =
      (s.execute emulator (.synchronize true)).modes :=
    s.run_modes emulator _ true
  have hinner := run_eq_of_selfContained emulator hclass hpaints hoperations
    hmodes
  change ((before.execute emulator (.synchronize true)).run emulator
      (operations ++ [.synchronize false])) =
    (s.execute emulator (.synchronize true)).run emulator
      (operations ++ [.synchronize false])
  rw [Screen.run_append, Screen.run_append, hinner]

/-- A self-contained replacement that paints the whole screen leaves no trace
of what was there, so that the frame before it can be dropped. -/
theorem dropped_frame_invisible (emulator : Emulator Attr Cell)
    (frame : Dec2026Frame) {bytes count : Nat}
    (hclass : classifyDec2026Frame frame.content bytes =
      .replaceableVisual count .selfContainedReplacement)
    (hpaints : PaintsScreen emulator frame.content) :
    (∀ {rows cols : Nat} (s t : Screen Attr Cell rows cols),
      s.modes = t.modes → ∃ final,
        writeText emulator frame.content s = some final ∧
          writeText emulator frame.content t = some final) ∧
    ∀ (predecessor : Dec2026Frame) (heldBytes heldCount : Nat)
      (proof : SuccessorProof),
      classifyDec2026Frame predecessor.content heldBytes =
        .replaceableVisual heldCount proof →
      ∀ {rows cols : Nat} (s : Screen Attr Cell rows cols), ∃ final,
        writeText emulator frame.data s = some final ∧
          (writeText emulator predecessor.data s).bind
            (writeText emulator frame.data) = some final := by
  obtain ⟨operations, hoperations⟩ := textOperations_of_replaceable hclass
  constructor
  · intro rows cols s t hmodes
    have hsame := run_eq_of_selfContained emulator hclass hpaints hoperations
      hmodes
    refine ⟨s.run emulator operations, ?_, ?_⟩
    · rw [writeText, hoperations]
      rfl
    · rw [writeText, hoperations, hsame]
      rfl
  · intro predecessor heldBytes heldCount proof hheld rows cols s
    obtain ⟨earlier, hearlier⟩ := textOperations_of_replaceable hheld
    have hframe := textOperations_frame frame hoperations
    have hpredecessor := textOperations_frame predecessor hearlier
    have hsame := run_frame_eq emulator hclass hpaints hoperations earlier s
    refine ⟨s.run emulator
      (.synchronize true :: operations ++ [.synchronize false]), ?_, ?_⟩
    · rw [writeText, hframe]
      rfl
    · rw [writeText, hpredecessor]
      simp only [writeText, hframe, Option.map_some, Option.bind_some, hsame]

/-- An emulator whose attributes are a background: 0 is the default one, and
the sequences with two digits from 40 on set another. -/
def paint : Emulator Nat (Nat × Nat) where
  initial := 0
  sgr params background :=
    match params with
    | [] | [0x30] => 0
    | [0x34, digit] => digit.toNat - 0x30 + 1
    | _ => background
  sgr_reset _ := rfl
  blank background := (0x20, background)
  width _ := 1
  glyph code background := (code, background)
  spacer background := (0x20, background)
  combine _ cell := cell

/-- `0m`, `2J`, `41m`, `K` and `H`: the red erase comes before the cursor has
been homed. -/
def strayErase : JsStr :=
  [0x1b, 0x5b, 0x30, 0x6d, 0x1b, 0x5b, 0x32, 0x4a, 0x1b, 0x5b, 0x34, 0x31,
    0x6d, 0x1b, 0x5b, 0x4b, 0x1b, 0x5b, 0x48]

def blankScreen (row : Fin 2) : Screen Nat (Nat × Nat) 2 2 :=
  ⟨fun _ _ => (0x20, 0), row, 0, 0, {}⟩

/-- Which line turns red depends on where the cursor was. -/
theorem strayErase_differs :
    classifyDec2026Frame strayErase 19 =
        .replaceableVisual 19 .selfContainedReplacement ∧
      (blankScreen 0).modes = (blankScreen 1).modes ∧
      writeText paint strayErase (blankScreen 0) ≠
        writeText paint strayErase (blankScreen 1) := by
  decide +kernel

/-- `0m`, `2J`, `K`, `1;1H` and a letter. -/
def repaint : Dec2026Frame where
  opens := dec2026BeginEsc
  content := [0x1b, 0x5b, 0x30, 0x6d, 0x1b, 0x5b, 0x32, 0x4a, 0x1b, 0x5b, 0x4b,
    0x1b, 0x5b, 0x31, 0x3b, 0x31, 0x48, 0x41]
  closes := dec2026EndEsc
  opens_mem := by decide
  opens_kind := by decide
  closes_mem := by decide
  closes_kind := by decide

theorem repaint_invisible : ∃ final,
    writeText paint repaint.content (blankScreen 0) = some final ∧
      writeText paint repaint.content (blankScreen 1) = some final := by
  have hclass : classifyDec2026Frame repaint.content 34 =
      .replaceableVisual 34 .selfContainedReplacement := by decide +kernel
  have hpaints : PaintsScreen paint repaint.content := by decide +kernel
  exact (dropped_frame_invisible paint repaint hclass hpaints).1 _ _ rfl

end NiceTerm.Gate
