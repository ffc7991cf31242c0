/-
The shape of markers.  Every marker begins with two underscores, and behind
its first character no two underscores stand together before its end; so two
markers in a text share at most one character.
-/
import Mathlib.Data.List.Chain
import NiceTerm.Capture.Processor

namespace NiceTerm.Capture

open List OutputCaptureProcessor RustStr Search

/-- No two underscores stand together. -/
def Spaced (text : Str) : Prop :=
  text.IsChain fun a b => a ≠ '_' ∨ b ≠ '_'

instance : DecidablePred Spaced := fun text =>
  inferInstanceAs (Decidable (text.IsChain fun a b => a ≠ '_' ∨ b ≠ '_'))

theorem Spaced.not_within {text : Str} (h : Spaced text) :
    ¬ endSuffix <:+: text := by
  intro hoccurs
  have hpair : Spaced endSuffix := IsChain.infix h hoccurs
  exact absurd hpair (by decide)

theorem Spaced.of_isInfix {part text : Str} (h : Spaced text)
    (hpart : part <:+: text) : Spaced part :=
  IsChain.infix h hpart

theorem spaced_of_not_mem {text : Str} (h : '_' ∉ text) : Spaced text := by
  induction text with
  | nil => exact IsChain.nil
  | cons c cs ih =>
    have hc := ne_of_not_mem_cons h
    have hcs := not_mem_of_not_mem_cons h
    exact isChain_cons.mpr ⟨fun _ _ => .inl (Ne.symm hc), ih hcs⟩

variable {front value : Str}

theorem Spaced.concat_underscore {code : Str}
    (h : Spaced (front ++ code)) (hcode : '_' ∉ code) (hne : code ≠ []) :
    Spaced (front ++ code ++ ['_']) := by
  refine isChain_append.mpr ⟨h, isChain_singleton _, ?_⟩
  intro last hlast _ _
  rw [getLast?_append_of_ne_nil _ hne] at hlast
  exact .inl fun heq => hcode (heq ▸ mem_of_getLast? hlast)

/-- The marker's two underscores at the front are its only ones. -/
def Headed (marker : Str) : Prop :=
  Spaced marker.tail

instance : DecidablePred Headed := fun marker =>
  inferInstanceAs (Decidable (Spaced marker.tail))

theorem Headed.of_isPrefix {marker : Str} (h : Headed marker)
    (hfront : front <+: marker) : Headed front := by
  obtain ⟨rest, rfl⟩ := hfront
  cases front with
  | nil => exact IsChain.nil
  | cons c cs =>
    exact Spaced.of_isInfix h (prefix_append cs rest).isInfix

/-- A headed marker in front of another one gives up at most its last
character to it. -/
theorem Headed.dropLast_isInfix {marker before after back : Str}
    (h : Headed marker) (hback : endSuffix <+: back)
    (htext : before ++ marker ++ after = front ++ back)
    (hlt : before.length < front.length) :
    ∃ between, front = before ++ marker.dropLast ++ between := by
  rw [append_assoc] at htext
  rcases append_eq_append_iff.mp htext with
    ⟨part, hfront, hrest⟩ | ⟨part, hbefore, -⟩
  · have hpart : part ≠ [] := by
      rintro rfl
      rw [hfront, append_nil] at hlt
      exact Nat.lt_irrefl _ hlt
    by_cases hlong : marker.length ≤ part.length + 1
    · have hdrop : marker.dropLast <+: part := by
        refine prefix_of_prefix_length_le
          ((List.dropLast_prefix marker).trans (prefix_append _ after))
          (hrest ▸ prefix_append part back) ?_
        rw [length_dropLast]
        omega
      obtain ⟨between, rfl⟩ := hdrop
      exact ⟨between, by rw [hfront, append_assoc]⟩
    · exfalso
      have hpair : part ++ endSuffix <+: marker := by
        refine prefix_of_prefix_length_le ?_ (prefix_append marker after) ?_
        · rw [hrest]
          exact (prefix_append_right_inj part).mpr hback
        · rw [length_append]
          have htwo : endSuffix.length = 2 := rfl
          omega
      obtain ⟨c, cs, rfl⟩ := exists_cons_of_ne_nil hpart
      obtain ⟨rest, rfl⟩ := hpair
      exact Spaced.not_within h ⟨cs, rest, rfl⟩
  · rw [hbefore, length_append] at hlt
    omega

/-- The ids the application makes: not empty and without underscores. -/
def PlainId (id : Str) : Prop :=
  id ≠ [] ∧ '_' ∉ id

theorem spaced_append_id {id back : Str} (hfront : Spaced front)
    (hid : PlainId id) (hback : '_' ∉ back) :
    Spaced (front ++ (id ++ '_' :: back)) := by
  refine isChain_append.mpr ⟨hfront, ?_, ?_⟩
  · refine isChain_append.mpr ⟨spaced_of_not_mem hid.2, ?_, ?_⟩
    · refine isChain_cons.mpr ⟨fun first hfirst => ?_, spaced_of_not_mem hback⟩
      exact .inr fun heq => hback (heq ▸ mem_of_head? hfirst)
    · intro last hlast _ _
      exact .inl fun heq => hid.2 (heq ▸ mem_of_getLast? hlast)
  · intro _ _ first hfirst
    obtain ⟨c, cs, rfl⟩ := exists_cons_of_ne_nil hid.1
    rw [cons_append, head?_cons, Option.mem_some_iff] at hfirst
    exact .inr fun heq => hid.2 (by simp [hfirst, heq])

theorem headed_startMarker {id : Str} (h : PlainId id) :
    Headed (startPrefix ++ id ++ ['_']) := by
  have htail : (startPrefix ++ id ++ ['_']).tail =
      startPrefix.tail ++ (id ++ '_' :: []) := by
    rw [append_assoc]
    rfl
  rw [Headed, htail]
  exact spaced_append_id (by decide) h not_mem_nil

theorem headed_endMarker {id code : Str} (h : PlainId id)
    (hcode : '_' ∉ code) : Headed (endMarkerPrefix id ++ code) := by
  have htail : (endMarkerPrefix id ++ code).tail =
      endPrefix.tail ++ (id ++ '_' :: code) := by
    rw [endMarkerPrefix, append_assoc, append_assoc]
    rfl
  rw [Headed, htail]
  exact spaced_append_id (by decide) h hcode

/-- The characters of an exit code in an end marker. -/
def IsCode (code : Str) : Prop :=
  ∀ ch ∈ code, (isAsciiDigit ch || ch == '-') = true

theorem IsCode.not_mem {code : Str} (h : IsCode code) : '_' ∉ code := by
  intro hmem
  exact absurd (h '_' hmem) (by decide)

/-- What may grow into a marker of a registered capture. -/
inductive Possible (ids : List Str) : Str → Prop
  | ofMarkerPrefix {value : Str} :
      value <+: markerPrefix → Possible ids value
  | ofStart {value id : Str} :
      id ∈ ids → value <+: startMarker id → Possible ids value
  | ofEndPrefix {value id : Str} :
      id ∈ ids → value <+: endMarkerPrefix id → Possible ids value
  | ofCode {id code : Str} : id ∈ ids → IsCode code →
      Possible ids (endMarkerPrefix id ++ code)

variable {ids : List Str}

theorem isPossibleMarkerPrefix_iff :
    isPossibleMarkerPrefix ids value = true ↔
      value ≠ [] ∧ Possible ids value := by
  by_cases hnil : value = []
  · simp [isPossibleMarkerPrefix, hnil]
  by_cases hfront : value <+: markerPrefix
  · have hbool := isPrefixOf_iff_prefix.mpr hfront
    simp only [isPossibleMarkerPrefix, hnil, hbool, ↓reduceIte, true_iff]
    exact ⟨hnil, .ofMarkerPrefix hfront⟩
  have hbool : ¬ value.isPrefixOf markerPrefix = true :=
    fun h => hfront (List.isPrefixOf_iff_prefix.mp h)
  rw [isPossibleMarkerPrefix, if_neg hnil, if_neg hbool, any_eq_true]
  simp only [Bool.or_eq_true, isPrefixOf_iff_prefix]
  constructor
  · rintro ⟨id, hid, (hstart | hend) | hcode⟩
    · exact ⟨hnil, .ofStart hid hstart⟩
    · exact ⟨hnil, .ofEndPrefix hid hend⟩
    · cases hdrop : value.dropPrefix? (endMarkerPrefix id) with
      | none => simp [hdrop] at hcode
      | some code =>
        rw [hdrop] at hcode
        rw [dropPrefix?_eq_some.mp hdrop]
        exact ⟨by simp [endMarkerPrefix], .ofCode hid (all_eq_true.mp hcode)⟩
  · rintro ⟨-, hpossible⟩
    cases hpossible with
    | ofMarkerPrefix h => exact absurd h hfront
    | ofStart hid h => exact ⟨_, hid, .inl (.inl h)⟩
    | ofEndPrefix hid h => exact ⟨_, hid, .inl (.inr h)⟩
    | ofCode hid hcode =>
      refine ⟨_, hid, .inr ?_⟩
      rw [dropPrefix?_append]
      exact all_eq_true.mpr hcode

theorem Possible.of_isPrefix (h : Possible ids value)
    (hfront : front <+: value) : Possible ids front := by
  cases h with
  | ofMarkerPrefix h => exact .ofMarkerPrefix (hfront.trans h)
  | ofStart hid h => exact .ofStart hid (hfront.trans h)
  | ofEndPrefix hid h => exact .ofEndPrefix hid (hfront.trans h)
  | @ofCode id code hid hcode =>
    rcases prefix_or_prefix_of_prefix hfront
      (prefix_append _ code) with hshort | ⟨rest, rfl⟩
    · exact .ofEndPrefix hid hshort
    · have hrest := (prefix_append_right_inj _).mp hfront
      exact .ofCode hid fun ch hch => hcode ch (hrest.subset hch)

/-- A marker's beginning holds no second marker: what follows two underscores
behind its front is at its end. -/
theorem Possible.headed (h : Possible ids value)
    (hids : ∀ id ∈ ids, PlainId id) : Headed value.dropLast := by
  have hdrop := dropLast_prefix value
  cases h with
  | ofMarkerPrefix h =>
    exact Headed.of_isPrefix (by decide) (hdrop.trans h)
  | @ofStart _ id hid h =>
    apply (headed_startMarker (hids id hid)).of_isPrefix
    have hmarker : startMarker id = startPrefix ++ id ++ ['_'] ++ ['_'] := by
      simp [startMarker, endSuffix]
    rw [hmarker, prefix_concat_iff] at h
    rcases h with rfl | hshort
    · rw [dropLast_concat]
    · exact hdrop.trans hshort
  | @ofEndPrefix _ id hid h =>
    have hheaded := headed_endMarker (hids id hid) (not_mem_nil)
    rw [append_nil] at hheaded
    exact hheaded.of_isPrefix (hdrop.trans h)
  | ofCode hid hcode =>
    exact (headed_endMarker (hids _ hid) hcode.not_mem).of_isPrefix hdrop

/-- A possible beginning has nothing in front of a marker's first three
characters. -/
theorem Possible.front_eq_nil {back : Str} (h : Possible ids value)
    (hids : ∀ id ∈ ids, PlainId id) (hvalue : value = front ++ back)
    (hback : endSuffix <+: back) (hlong : 2 < back.length) : front = [] := by
  by_contra hne
  obtain ⟨c, cs, rfl⟩ := exists_cons_of_ne_nil hne
  obtain ⟨rest, rfl⟩ := hback
  have hrest : rest ≠ [] := by
    rintro rfl
    exact absurd hlong (by decide)
  have hheaded := h.headed hids
  rw [hvalue, Headed, ← append_assoc,
    dropLast_append_of_ne_nil hrest] at hheaded
  exact Spaced.not_within hheaded ⟨cs, rest.dropLast, rfl⟩

/-- A possible beginning that holds the start marker's fixed part is the
beginning of a start marker. -/
theorem Possible.isPrefix_startMarker
    (h : Possible ids value) (hstart : startPrefix <+: value) :
    ∃ id ∈ ids, value <+: startMarker id := by
  have hclash : ∀ id code, ¬ startPrefix <+: endMarkerPrefix id ++ code := by
    intro id code hboth
    have hend : endPrefix <+: endMarkerPrefix id ++ code := by
      rw [endMarkerPrefix, append_assoc, append_assoc]
      exact prefix_append _ _
    have hinside := prefix_of_prefix_length_le hend hboth (by decide)
    exact absurd hinside (by decide)
  cases h with
  | ofMarkerPrefix h =>
    have hlength := (hstart.trans h).length_le
    exact absurd hlength (by decide)
  | ofStart hid h => exact ⟨_, hid, h⟩
  | @ofEndPrefix _ id hid h =>
    have hinside := hstart.trans h
    rw [← append_nil (endMarkerPrefix id)] at hinside
    exact absurd hinside (hclash id [])
  | ofCode hid hcode => exact absurd hstart (hclash _ _)

/-! When the processor's two searches find a marker, and when a text is free of
the markers they look for. -/

def endMarker (id code : Str) : Str :=
  endMarkerPrefix id ++ code ++ endSuffix

variable {p : OutputCaptureProcessor} {id code before after text : Str}

theorem tryMatchStart_eq_none (h : ∀ id ∈ p.ids, ¬ startMarker id <:+: text) :
    p.tryMatchStart text = none := by
  unfold tryMatchStart
  split
  · rfl
  · next before afterPrefix hprefix =>
      split
      · rfl
      · next markerId afterMarker hsuffix =>
          obtain ⟨rfl, -⟩ := (dropInfix?_eq_some (by decide)).mp hprefix
          obtain ⟨rfl, -⟩ := (dropInfix?_eq_some (by decide)).mp hsuffix
          refine if_neg fun hmem => h markerId hmem ?_
          exact ⟨before, afterMarker, by simp [startMarker]⟩

/-- The first start marker of the text is matched when its id is registered. -/
theorem tryMatchStart_eq_some (hmem : id ∈ p.ids) (hplain : PlainId id)
    (hfirst : ¬ startPrefix <:+: before ++ startPrefix.dropLast) :
    p.tryMatchStart (before ++ startMarker id ++ after) =
      some (stripLineBreak after, p.modify id fun capture =>
        { capture with phase := .capturing }) := by
  have hprefix : (before ++ startMarker id ++ after).dropInfix? startPrefix =
      some (before, id ++ endSuffix ++ after) := by
    refine (dropInfix?_eq_some (by decide)).mpr ⟨?_, hfirst⟩
    simp [startMarker]
  have hsuffix : (id ++ endSuffix ++ after).dropInfix? endSuffix =
      some (id, after) := by
    refine (dropInfix?_eq_some (by decide)).mpr ⟨rfl, ?_⟩
    have hspaced : Spaced ([] ++ (id ++ '_' :: [])) :=
      spaced_append_id IsChain.nil hplain not_mem_nil
    exact hspaced.not_within
  simp only [tryMatchStart, hprefix, hsuffix, hmem, ↓reduceIte]

theorem get_mem_ids {capture : ActiveCapture}
    (h : p.get id = some capture) : id ∈ p.ids := by
  obtain ⟨entry, hfind, -⟩ := Option.map_eq_some_iff.mp h
  have hid : entry.1 = id := by simpa using find?_some hfind
  exact hid ▸ mem_map_of_mem (mem_of_find?_eq_some hfind)

/-- Only a complete end marker of a registered capture is matched, and only
the first one that has the shape of an end marker. -/
theorem endMarker_of_tryMatchEnd {next : OutputCaptureProcessor}
    (h : p.tryMatchEnd text = some next) :
    ∃ before id code after, text = before ++ endMarker id code ++ after ∧ id ∈
      p.ids ∧ '_' ∉ code ∧ ¬ endPrefix <:+: before ++ endPrefix.dropLast := by
  unfold tryMatchEnd at h
  split at h
  · cases h
  · next before afterPrefix hprefix =>
      split at h
      · cases h
      · next inner afterMarker hsuffix =>
          split at h
          · cases h
          · next markerId code hsplit =>
              split at h
              · cases h
              · next capture hget =>
                  obtain ⟨rfl, hcode⟩ := rsplitOnce_eq_some hsplit
                  obtain ⟨rfl, hfirst⟩ :=
                    (dropInfix?_eq_some (by decide)).mp hprefix
                  obtain ⟨rfl, -⟩ :=
                    (dropInfix?_eq_some (by decide)).mp hsuffix
                  refine ⟨before, markerId, code, afterMarker, ?_,
                    get_mem_ids hget, hcode, hfirst⟩
                  simp [endMarker, endMarkerPrefix]

theorem tryMatchEnd_eq_none
    (h : ∀ id ∈ p.ids, ∀ code, '_' ∉ code → ¬ endMarker id code <:+: text) :
    p.tryMatchEnd text = none := by
  cases hmatch : p.tryMatchEnd text with
  | none => rfl
  | some next =>
    obtain ⟨before, id, code, after, htext, hid, hcode, -⟩ :=
      endMarker_of_tryMatchEnd hmatch
    exact absurd ⟨before, after, htext.symm⟩ (h id hid code hcode)

/-- The first end marker of the text is matched when its id is registered. -/
theorem tryMatchEnd_eq_some {capture : ActiveCapture}
    (hget : p.get id = some capture) (hplain : PlainId id)
    (hcode : '_' ∉ code) (hne : code ≠ [])
    (hfirst : ¬ endPrefix <:+: before ++ endPrefix.dropLast) :
    p.tryMatchEnd (before ++ endMarker id code ++ after) =
      some { p.modify id fun capture =>
          { capture with
            buffer := [], resultTx := false, phase := .postCapture } with
        sent :=
          if capture.resultTx then
            p.sent ++ [(id, {
              output := trim (capture.buffer ++ before)
              exitCode := parseI32 code
              sourceTruncated := capture.sourceTruncated })]
          else p.sent } := by
  have hprefix : (before ++ endMarker id code ++ after).dropInfix? endPrefix =
      some (before, id ++ '_' :: code ++ endSuffix ++ after) := by
    refine (dropInfix?_eq_some (by decide)).mpr ⟨?_, hfirst⟩
    simp [endMarker, endMarkerPrefix]
  have hsuffix : (id ++ '_' :: code ++ endSuffix ++ after).dropInfix?
      endSuffix = some (id ++ '_' :: code, after) := by
    refine (dropInfix?_eq_some (by decide)).mpr ⟨rfl, ?_⟩
    have hspaced : Spaced ([] ++ (id ++ '_' :: code)) :=
      spaced_append_id IsChain.nil hplain hcode
    rw [nil_append, append_cons] at hspaced
    rw [append_cons]
    exact (hspaced.concat_underscore hcode hne).not_within
  simp only [tryMatchEnd, hprefix, hsuffix, rsplitOnce_append _ hcode, hget]

/-- The text has no complete marker of a registered capture. -/
structure MarkerFree (ids : List Str) (text : Str) : Prop where
  start : ∀ id ∈ ids, ¬ startMarker id <:+: text
  stop : ∀ id ∈ ids, ∀ code, '_' ∉ code → ¬ endMarker id code <:+: text

theorem MarkerFree.of_isInfix {part : Str}
    (h : MarkerFree ids text) (hpart : part <:+: text) :
    MarkerFree ids part where
  start id hid hoccurs := h.start id hid (hoccurs.trans hpart)
  stop id hid code hcode hoccurs :=
    h.stop id hid code hcode (hoccurs.trans hpart)

theorem not_within_of_headed {marker : Str} (h : Headed marker) :
    ¬ endMarker id code <:+: marker := by
  rintro ⟨front, back, hoccurs⟩
  have hne : front ++ endPrefix ++ id ++ ['_'] ++ code ≠ [] := by simp
  obtain ⟨c, cs, hcons⟩ := exists_cons_of_ne_nil hne
  have hsplit : marker = c :: (cs ++ endSuffix ++ back) := by
    rw [← hoccurs, endMarker, endMarkerPrefix, ← cons_append,
      ← cons_append, ← hcons]
    simp only [append_assoc]
  rw [hsplit] at h
  exact Spaced.not_within h ⟨cs, back, rfl⟩

/-- Up to its last character an end marker has two underscores at its front
only. -/
theorem headed_endMarker_dropLast (hplain : PlainId id) (hcode : '_' ∉ code)
    (hne : code ≠ []) : Headed (endMarker id code).dropLast := by
  have hsplit : (endMarker id code).dropLast =
      endMarkerPrefix id ++ code ++ ['_'] := by
    have hsuffix : endSuffix = ['_'] ++ ['_'] := rfl
    rw [endMarker, hsuffix, ← append_assoc, dropLast_concat]
  have hheaded := headed_endMarker hplain hcode
  have htail : (endMarkerPrefix id ++ code ++ ['_']).tail =
      (endMarkerPrefix id).tail ++ code ++ ['_'] := rfl
  rw [hsplit, Headed, htail]
  exact Spaced.concat_underscore hheaded hcode hne

theorem endPrefix_isPrefix (id code rest : Str) :
    endPrefix <+: endMarker id code ++ rest := by
  rw [endMarker, endMarkerPrefix]
  simp only [append_assoc]
  exact prefix_append _ _

/-- Text that reaches into an end marker from in front of it begins no
marker. -/
theorem not_possible_before_endMarker {rest : Str}
    (hids : ∀ id ∈ ids, PlainId id) (hne : front ≠ []) :
    ¬ isPossibleMarkerPrefix ids (front ++ (endMarker id code ++ rest)) =
      true := by
  intro hkept
  have hend := endPrefix_isPrefix id code rest
  refine hne ((isPossibleMarkerPrefix_iff.mp hkept).2.front_eq_nil hids rfl
    (IsPrefix.trans (by decide) hend) ?_)
  exact Nat.lt_of_lt_of_le (by decide) hend.length_le

/-- An end marker does not begin in an output that holds no end marker's
beginning, even where another marker follows the output. -/
theorem not_endMarker_before {output next back : Str} (hplain : PlainId id)
    (hcode : '_' ∉ code) (houtput : ¬ endMarkerPrefix id <:+: output)
    (hnext : endSuffix <+: next) (hthree : ¬ "___".toList <+: next)
    (htext : front ++ endMarker id code ++ back = output ++ next) :
    output.length ≤ front.length := by
  by_contra hlt
  have hheaded : Headed (endMarkerPrefix id ++ []) :=
    headed_endMarker hplain not_mem_nil
  rw [append_nil] at hheaded
  have hmarker : front ++ endMarkerPrefix id ++ (code ++ endSuffix ++ back) =
      output ++ next := by
    rw [← htext, endMarker]
    simp only [append_assoc]
  obtain ⟨between, hbetween⟩ :=
    hheaded.dropLast_isInfix hnext hmarker (Nat.lt_of_not_le hlt)
  have hlast : endMarkerPrefix id = endPrefix ++ id ++ ['_'] := rfl
  rw [hlast, dropLast_concat] at hbetween
  have hrest : '_' :: (code ++ endSuffix ++ back) = between ++ next := by
    rw [hlast, hbetween] at hmarker
    simpa only [append_assoc, append_cancel_left_eq,
      singleton_append] using hmarker
  cases between with
  | cons c cs =>
    have hc : c = '_' := (cons.inj hrest).1.symm
    refine houtput ⟨front, cs, ?_⟩
    rw [hbetween, hc, hlast]
    simp
  | nil =>
    rw [nil_append] at hrest
    obtain ⟨rest, hpair⟩ := hnext
    rw [← hrest] at hpair hthree
    have hinner : '_' :: rest = code ++ endSuffix ++ back :=
      (cons.inj hpair).2
    cases code with
    | nil => exact hthree ⟨back, rfl⟩
    | cons d ds =>
      have hd : '_' = d := (cons.inj hinner).1
      exact hcode (hd ▸ mem_cons_self)

theorem not_endMarker_of_headed {output next : Str} (hplain : PlainId id)
    (hcode : '_' ∉ code) (houtput : ¬ endMarkerPrefix id <:+: output)
    (hheaded : Headed next) (hnext : next.length ≤ 1 ∨ endSuffix <+: next) :
    ¬ endMarker id code <:+: output ++ next := by
  rintro ⟨front, back, htext⟩
  have hinside : output.length ≤ front.length := by
    rcases hnext with hshort | hpair
    · by_contra hlt
      apply houtput
      have hleft : front ++ endMarkerPrefix id <+: output ++ next := by
        refine ⟨code ++ endSuffix ++ back, ?_⟩
        rw [← htext, endMarker]
        simp only [append_assoc]
      refine infix_append_right.trans (prefix_of_prefix_length_le
        hleft (prefix_append output next) ?_).isInfix
      have hlength := congrArg List.length htext
      have htwo : endSuffix.length = 2 := rfl
      simp only [endMarker, length_append] at hlength ⊢
      omega
    · refine not_endMarker_before hplain hcode houtput hpair ?_ htext
      rintro ⟨rest, rfl⟩
      exact Spaced.not_within hheaded ⟨[], rest, rfl⟩
  rw [append_assoc] at htext
  obtain ⟨between, rfl⟩ : output <+: front := by
    exact prefix_of_prefix_length_le (prefix_append output next)
      (htext ▸ prefix_append front _) hinside
  rw [append_assoc, append_cancel_left_eq] at htext
  exact not_within_of_headed hheaded
    ⟨between, back, by rw [← htext, append_assoc]⟩

end NiceTerm.Capture
