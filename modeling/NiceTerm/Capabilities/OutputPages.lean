/-
Reading a stored text back.  A page ends at the last boundary within its size,
so that a reader with pages narrower than a character of the text stops there.
-/
import NiceTerm.Capabilities.OutputStore

namespace NiceTerm.Capabilities

open Keyed List OutputStore RustStr Transition UsedStore

/-- Read from `offset` on, each time at the `nextOffset` of the last chunk,
until a chunk is the last one.  The `k`th read meets the store in the state
`state k` at the time `now k`. -/
def follow (state : Nat → UsedStore) (now : Nat → Nat) (id : Str)
    (maxBytes : Nat) : Nat → Nat → Nat → Option (List OutputChunk)
  | 0, _, _ => none
  | fuel + 1, k, offset =>
    match ((state k).store.read (now k) id offset maxBytes).1 with
    | .error _ => none
    | .ok chunk =>
      if chunk.eof then some [chunk]
      else (follow state now id maxBytes fuel (k + 1) chunk.nextOffset).map
        (chunk :: ·)

/-- The entry is in every one of the states and has not expired. -/
def Available (entry : Entry) (state : Nat → UsedStore) (now : Nat → Nat) :
    Prop :=
  ∀ k, storing.Reachable (state k) ∧ entry ∈ (state k).store.entries ∧
    isExpired (now k) entry = false

def keptText (entry : Entry) : Str := (fromUtf8 entry.bytes).getD []

/-- Whoever follows the offsets comes to the end, advances with each chunk and
has then the whole text. -/
def ReadsBack (entry : Entry) (text : Str) (maxBytes : Nat) : Prop :=
  ∀ state now, Available entry state now →
    ∃ fuel chunks, follow state now entry.id maxBytes fuel 0 0 = some chunks ∧
      (∀ chunk ∈ chunks, chunk.eof = false → chunk.offset < chunk.nextOffset) ∧
      chunks.flatMap OutputChunk.data = text

/-- The most bytes of one page. -/
def pageSize (maxBytes : Nat) : Nat := max 1 (min maxBytes (64 * 1024))

variable {entry : Entry} {state : Nat → UsedStore} {now : Nat → Nat}

theorem read_of_available (h : Available entry state now)
    (k offset maxBytes : Nat) :
    ((state k).store.read (now k) entry.id offset maxBytes).1 =
      chunkOf entry offset maxBytes := by
  obtain ⟨hreach, hentry, hlive⟩ := h k
  have hinv := reachable_invariant hreach
  have hclean := (hinv.cleanup (now k)).tidy
  have hfind : find Entry.id ((state k).store.cleanup (now k)).entries
      entry.id = some entry := by
    apply find_of_mem hclean.distinct
    change entry ∈ ((state k).store.cleanup (now k)).entries
    rw [cleanup_entries hinv.tidy]
    exact mem_survivors.mpr ⟨hentry, hlive⟩
  cases hchunk : chunkOf entry offset maxBytes with
  | error message => simp only [OutputStore.read, hfind, hchunk]
  | ok chunk => simp only [OutputStore.read, hfind, hchunk]

/-- The chunk at a boundary is the longest part of the rest that ends at a
boundary within the page. -/
theorem chunkOf_append {front back : Str}
    (htext : entry.bytes = utf8 (front ++ back)) (maxBytes : Nat) :
    ∃ page rest chunk, back = page ++ rest ∧ chunkOf entry (len front) maxBytes
      = .ok chunk ∧ chunk.data = page ∧ chunk.offset = len front ∧
      chunk.nextOffset = len (front ++ page) ∧ (chunk.eof = true ↔ rest = []) ∧
      len page ≤ pageSize maxBytes ∧ ∀ c more, rest = c :: more →
        pageSize maxBytes < len page + c.utf8Size := by
  have hlength : entry.bytes.length = len (front ++ back) := by
    rw [htext, length_utf8]
  have hlen : len (front ++ back) = len front + len back := len_append _ _
  have hboundary := isCharBoundary_len_append front back
  generalize hstop : boundaryAtOrBefore (front ++ back)
    (min (len front + pageSize maxBytes) (len (front ++ back))) = stop
  have hreach : ∀ n, isCharBoundary (front ++ back) n = true → n ≤ len front +
      pageSize maxBytes → n ≤ len (front ++ back) → n ≤ stop := by
    intro n hn hpage htotal
    rw [← hstop]
    exact le_floorCharBoundary (by omega) hn
  have hlow : len front ≤ stop := hreach _ hboundary (by omega) (by omega)
  have hhigh : stop ≤ len front + pageSize maxBytes := by
    have hle := boundaryAtOrBefore_le (front ++ back)
      (min (len front + pageSize maxBytes) (len (front ++ back)))
    omega
  have hcut : len (splitAt (front ++ back) stop).1 = stop := by
    rw [← hstop]
    exact len_before_boundary _ _
  -- the cut text starts with what has been read already
  obtain ⟨page, hpage⟩ : front <+: (splitAt (front ++ back) stop).1 :=
    isPrefix_of_len_le (prefix_append front back)
      ⟨_, splitAt_append _ _⟩ (hcut.symm ▸ hlow)
  obtain ⟨rest, hrest⟩ : ∃ rest, back = page ++ rest := by
    have hall := splitAt_append (front ++ back) stop
    rw [← hpage, append_assoc] at hall
    exact ⟨_, (append_cancel_left hall).symm⟩
  have hend : stop = len front + len page := by
    rw [← hcut, ← hpage, len_append]
  have hback : len back = len page + len rest := by rw [hrest, len_append]
  refine ⟨page, rest, ⟨page, len front, stop, entry.totalBytes,
    stop = entry.bytes.length⟩, hrest, ?_, rfl, rfl, ?_, ?_, by omega, ?_⟩
  · have hguard : (decide (entry.bytes.length < len front) ||
        !isCharBoundary (front ++ back) (len front)) = false := by
      rw [hboundary, hlength, hlen]
      simp
    have hdata : (splitAt (splitAt (front ++ back) stop).1 (len front)).2 =
        page := by
      rw [← hpage, splitAt_len_append]
    rw [chunkOf, htext, fromUtf8_utf8]
    rw [htext] at hguard
    simp only [hguard, Bool.false_eq_true, ↓reduceIte]
    rw [← pageSize, hstop, hdata]
  · rw [len_append]
    exact hend
  · rw [decide_eq_true_eq, hlength, hlen, hback, hend]
    constructor
    · intro heq
      by_contra hne
      have hpos := len_pos_of_ne_nil hne
      omega
    · rintro rfl
      rw [len_nil, Nat.add_zero]
  · rintro c more rfl
    by_contra hfits
    have hnext : isCharBoundary (front ++ back)
        (len (front ++ page ++ [c])) = true := by
      have htext : front ++ back = (front ++ page ++ [c]) ++ more := by
        rw [hrest]
        simp
      rw [htext]
      exact isCharBoundary_len_append _ _
    have hsize := c.utf8Size_pos
    have hover := hreach _ hnext
    simp only [len_append, len_cons, len_nil, Nat.add_zero] at hover hback hlen
    omega

/-! ## Following the offsets -/

theorem utf8Size_le_len {c : Char} {text : Str} (h : c ∈ text) :
    c.utf8Size ≤ len text := by
  induction text with
  | nil => exact absurd h not_mem_nil
  | cons first rest ih =>
    rw [len_cons]
    rcases mem_cons.mp h with rfl | hrest
    · exact Nat.le_add_right _ _
    · exact (ih hrest).trans (Nat.le_add_left _ _)

variable {maxBytes : Nat}

theorem follow_succ (h : Available entry state now) {k offset fuel : Nat}
    {chunk : OutputChunk} (hchunk : chunkOf entry offset maxBytes = .ok chunk) :
    follow state now entry.id maxBytes (fuel + 1) k offset =
      if chunk.eof then some [chunk]
      else (follow state now entry.id maxBytes fuel (k + 1)
        chunk.nextOffset).map (chunk :: ·) := by
  rw [follow, read_of_available h, hchunk]

/-- With room for every character on a page the rest is read to its end. -/
theorem follow_of_fit (h : Available entry state now) (fuel k : Nat)
    (front : Str) {back : Str} (htext : entry.bytes = utf8 (front ++ back))
    (hfit : ∀ c ∈ back, c.utf8Size ≤ pageSize maxBytes)
    (hfuel : back.length < fuel) :
    ∃ chunks, follow state now entry.id maxBytes fuel k (len front) =
        some chunks ∧
      (∀ chunk ∈ chunks, chunk.eof = false → chunk.offset < chunk.nextOffset) ∧
      chunks.flatMap OutputChunk.data = back := by
  induction fuel generalizing k front back with
  | zero => omega
  | succ fuel ih =>
    obtain ⟨page, rest, chunk, rfl, hchunk, hdata, hoffset, hnext, heof, -,
      hlongest⟩ := chunkOf_append htext maxBytes
    rw [follow_succ h hchunk]
    cases rest with
    | nil =>
      have hlast := heof.mpr rfl
      refine ⟨[chunk], if_pos hlast, ?_, ?_⟩
      · intro other hother hmore
        rw [mem_singleton.mp hother, hlast] at hmore
        cases hmore
      · rw [flatMap_cons, flatMap_nil, hdata]
    | cons c more =>
      have hmore : chunk.eof = false := by
        rw [Bool.eq_false_iff]
        exact fun hlast => cons_ne_nil c more (heof.mp hlast)
      have hne : page ≠ [] := by
        rintro rfl
        have hover := hlongest c more rfl
        have hc := hfit c (mem_append_right _ mem_cons_self)
        rw [len_nil] at hover
        omega
      have hpage := length_pos_iff.mpr hne
      rw [length_append] at hfuel
      have hjoined : entry.bytes = utf8 ((front ++ page) ++ c :: more) := by
        rw [append_assoc]
        exact htext
      obtain ⟨chunks, hfollow, hadvance, hall⟩ := ih (k + 1) (front ++ page)
        hjoined (fun d hd => hfit d (mem_append_right _ hd)) (by omega)
      refine ⟨chunk :: chunks, ?_, ?_, ?_⟩
      · rw [hmore, if_neg Bool.false_ne_true, hnext, hfollow, Option.map_some]
      · intro other hother
        rcases mem_cons.mp hother with rfl | hlater
        · intro _
          rw [hoffset, hnext, len_append]
          have hpos := len_pos_of_ne_nil hne
          omega
        · exact hadvance other hlater
      · rw [flatMap_cons, hdata, hall]

/-- Whoever comes to the end has met only characters that fit on a page. -/
theorem fit_of_follow
    (h : Available entry state now)
    (fuel k : Nat) (front : Str) {back : Str} {chunks : List OutputChunk}
    (htext : entry.bytes = utf8 (front ++ back))
    (hfollow : follow state now entry.id maxBytes fuel k (len front) =
      some chunks) : ∀ c ∈ back, c.utf8Size ≤ pageSize maxBytes := by
  induction fuel generalizing k front back chunks with
  | zero => cases hfollow
  | succ fuel ih =>
    obtain ⟨page, rest, chunk, rfl, hchunk, -, -, hnext, heof, hpage, -⟩ :=
      chunkOf_append htext maxBytes
    rw [follow_succ h hchunk] at hfollow
    intro c hc
    rcases mem_append.mp hc with hfirst | hlater
    · exact (utf8Size_le_len hfirst).trans hpage
    · by_cases hlast : chunk.eof = true
      · rw [heof.mp hlast] at hlater
        exact absurd hlater not_mem_nil
      · rw [if_neg hlast, Option.map_eq_some_iff] at hfollow
        obtain ⟨later, hrest, -⟩ := hfollow
        rw [hnext] at hrest
        rw [← append_assoc] at htext
        exact ih (k + 1) (front ++ page) htext hrest c hlater

theorem utf8Size_le_pageSize_iff (c : Char) (h : 1 ≤ maxBytes) :
    c.utf8Size ≤ pageSize maxBytes ↔ c.utf8Size ≤ maxBytes := by
  have hfour := c.utf8Size_le_four
  rw [pageSize]
  omega

theorem readsBack_of_fit {text : Str} (htext : entry.bytes = utf8 text)
    (hfit : ∀ c ∈ text, c.utf8Size ≤ pageSize maxBytes) :
    ReadsBack entry text maxBytes := by
  intro state now havailable
  obtain ⟨chunks, hchunks⟩ := follow_of_fit havailable (text.length + 1) 0
    [] htext hfit (Nat.lt_succ_self _)
  exact ⟨_, chunks, hchunks⟩

/-- The state in which the entry was found serves for all the reads. -/
theorem fit_of_readsBack {used : UsedStore} {text : Str}
    (hreach : storing.Reachable used) (hentry : entry ∈ used.store.entries)
    (htext : entry.bytes = utf8 text) (h : ReadsBack entry text maxBytes) :
    ∀ c ∈ text, c.utf8Size ≤ pageSize maxBytes := by
  have havailable : Available entry (fun _ => used)
      (fun _ => entry.created) := by
    intro k
    refine ⟨hreach, hentry, ?_⟩
    rw [isExpired, Nat.sub_self]
    rfl
  obtain ⟨fuel, chunks, hfollow, -⟩ := h _ _ havailable
  exact fit_of_follow havailable fuel 0 [] htext hfollow

theorem keptText_eq {text : Str}
    (h : entry.bytes = utf8 text) : keptText entry = text := by
  rw [keptText, h, fromUtf8_utf8, Option.getD_some]

/-- `protect` keeps the text up to the last boundary within the limit. -/
theorem keptText_entryOf (now : Nat) (text uuid : Str) :
    keptText (entryOf now text uuid) =
      (splitAt text (boundaryAtOrBefore text (min entryLimit (len text)))).1 :=
  keptText_eq (utf8_take (isCharBoundary_boundaryAtOrBefore text _))

/-- In every run the three fields stay in step and the least recently used
entries go first; what the store holds at its end can be read back in pages of
a size exactly if no character of it is wider than a page. -/
theorem storedOutput_iff {events : List OutputEvent} {used : UsedStore}
    (hrun : storing.runFrom fresh events = some used)
    {maxBytes : Nat} (hmax : 1 ≤ maxBytes) :
    (storing.Throughout Consistent fresh events ∧ storing.Along
        EvictsOldest fresh events ∧ ∀ entry ∈ used.store.entries,
          ReadsBack entry (keptText entry) maxBytes) ↔
      ∀ entry ∈ used.store.entries, ∀ c ∈ keptText entry,
        c.utf8Size ≤ maxBytes := by
  have hreach : storing.Reachable used :=
    (storing.reachable_of_init (s := fresh) rfl).run hrun
  have htexts := (reachable_invariant hreach).texts
  constructor
  · rintro ⟨-, -, hreads⟩ entry hentry c hc
    obtain ⟨text, htext, -⟩ := htexts entry hentry
    have hread := hreads entry hentry
    rw [keptText_eq htext] at hread hc
    exact (utf8Size_le_pageSize_iff c hmax).mp
      (fit_of_readsBack hreach hentry htext hread c hc)
  · intro hfit
    refine ⟨consistent_throughout events, evictsOldest_along events, ?_⟩
    intro entry hentry
    obtain ⟨text, htext, -⟩ := htexts entry hentry
    have hall := hfit entry hentry
    rw [keptText_eq htext] at hall ⊢
    exact readsBack_of_fit htext fun c hc =>
      (utf8Size_le_pageSize_iff c hmax).mpr (hall c hc)

/-- A text of two characters of three bytes each. -/
def catEvents : List OutputEvent :=
  [.protect 0 "猫猫".toList 1 "a".toList]

theorem catText_storedOutput :
    ∃ used, storing.runFrom fresh catEvents = some used ∧
      ((storing.Throughout Consistent fresh catEvents ∧
          storing.Along EvictsOldest fresh catEvents ∧
          ∀ entry ∈ used.store.entries, ReadsBack entry (keptText entry) 3) ↔
        ∀ entry ∈ used.store.entries, ∀ c ∈ keptText entry, c.utf8Size ≤ 3) :=
  ⟨_, rfl, storedOutput_iff rfl (by decide)⟩

/-- With one byte a page it is never read. -/
theorem catText_stuck :
    ∃ used, storing.runFrom fresh catEvents = some used ∧
      ∃ entry ∈ used.store.entries, ¬ ReadsBack entry (keptText entry) 1 := by
  have hkept : (splitAt "猫猫".toList (boundaryAtOrBefore "猫猫".toList
      (min entryLimit (len "猫猫".toList)))).1 = "猫猫".toList := by decide
  have hrun : storing.runFrom fresh catEvents =
      some ((storing.runFrom fresh catEvents).get rfl) := rfl
  refine ⟨_, hrun, entryOf 0 "猫猫".toList "a".toList, ?_, ?_⟩
  · exact mem_singleton_self _
  · intro h
    rw [keptText_entryOf, hkept] at h
    have hreach : storing.Reachable _ :=
      (storing.reachable_of_init (s := fresh) rfl).run hrun
    have hfit := fit_of_readsBack hreach
      (mem_singleton_self _) (by decide) h '猫' (by decide)
    exact absurd hfit (by decide)

end NiceTerm.Capabilities
