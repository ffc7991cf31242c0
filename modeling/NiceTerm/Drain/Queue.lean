/-
The output queue of a terminal: chunks of text with their UTF-8 byte counts,
taken from the front in pieces of a bounded number of bytes.  The consumed
slots in front of `headIndex` are not kept.
-/
import NiceTerm.Lib.JsString

namespace NiceTerm.Drain

open JsString List

structure QueuedOutputChunk where
  data : JsStr
  bytes : Nat
deriving DecidableEq, Repr

structure OutputQueue where
  chunks : List QueuedOutputChunk := []
  bytes : Nat := 0
deriving DecidableEq, Repr

def utf8BytesForCodePoint (codePoint : Nat) : Nat :=
  if codePoint ≤ 0x7F then 1
  else if codePoint ≤ 0x7FF then 2
  else if codePoint ≤ 0xFFFF then 3
  else 4

/-- The loop of `splitOutputChunk`; `rest` is the text from `offset` on. -/
def splitLoop (maxBytes : Nat) (rest : JsStr) (index bytes : Nat) : Nat × Nat :=
  if _h : rest = [] then (index, bytes)
  else
    let code := codePoint rest
    let length := if 0xFFFF < code then 2 else 1
    let charBytes := utf8BytesForCodePoint code
    if 0 < bytes ∧ maxBytes < bytes + charBytes then (index, bytes)
    else if maxBytes ≤ bytes + charBytes then
      (index + length, bytes + charBytes)
    else
      splitLoop maxBytes (rest.drop length) (index + length)
        (bytes + charBytes)
termination_by rest.length
decreasing_by
  have hrest := length_pos_of_ne_nil _h
  rw [length_drop]
  split <;> omega

def splitOutputChunk (chunk : QueuedOutputChunk) (maxBytes : Nat) :
    QueuedOutputChunk × QueuedOutputChunk :=
  if chunk.bytes ≤ maxBytes then (chunk, ⟨[], 0⟩)
  else if chunk.data.length = chunk.bytes then
    let index := max 1 (min maxBytes chunk.data.length)
    (⟨chunk.data.take index, index⟩,
      ⟨chunk.data.drop index, chunk.bytes - index⟩)
  else
    let position := splitLoop maxBytes chunk.data 0 0
    let index :=
      if position.1 = 0 then
        if 0xFFFF < codePoint chunk.data then 2 else 1
      else position.1
    let bytes :=
      if position.1 = 0 then utf8BytesForCodePoint (codePoint chunk.data)
      else position.2
    (⟨chunk.data.take index, bytes⟩,
      ⟨chunk.data.drop index, chunk.bytes - bytes⟩)

def pushOutputQueue (queue : OutputQueue) (chunk : QueuedOutputChunk) :
    OutputQueue where
  chunks := queue.chunks ++ [chunk]
  bytes := queue.bytes + chunk.bytes

def shiftOutputQueue (queue : OutputQueue) : OutputQueue :=
  match queue.chunks with
  | [] => queue
  | chunk :: rest => { chunks := rest, bytes := queue.bytes - chunk.bytes }

def peekOutputQueue (queue : OutputQueue) : Option QueuedOutputChunk :=
  queue.chunks.head?

def replaceOutputQueueHead (queue : OutputQueue)
    (chunk : QueuedOutputChunk) : OutputQueue :=
  match queue.chunks with
  | [] => queue
  | _ :: rest => { queue with chunks := chunk :: rest }

def hasOutputQueueItems (queue : OutputQueue) : Bool :=
  !queue.chunks.isEmpty

variable {queue : OutputQueue} {chunk : QueuedOutputChunk}

theorem length_shiftOutputQueue_lt (h : peekOutputQueue queue = some chunk) :
    (shiftOutputQueue queue).chunks.length < queue.chunks.length := by
  obtain ⟨rest, hchunks⟩ := head?_eq_some_iff.mp h
  simp [shiftOutputQueue, hchunks]

theorem length_replaceOutputQueueHead (queue : OutputQueue)
    (chunk : QueuedOutputChunk) :
    (replaceOutputQueueHead queue chunk).chunks.length =
      queue.chunks.length := by
  cases hchunks : queue.chunks with
  | nil => simp [replaceOutputQueueHead, hchunks]
  | cons head rest => simp [replaceOutputQueueHead, hchunks]

/-- `bytes` counts the UTF-8 bytes of the text. -/
def QueuedOutputChunk.Sized (chunk : QueuedOutputChunk) : Prop :=
  chunk.bytes = utf8Length chunk.data

/-- The loop stops at a code point boundary and has counted the bytes before
it. -/
theorem splitLoop_cut (maxBytes : Nat) (rest : JsStr) (index bytes : Nat) :
    ∃ taken, (splitLoop maxBytes rest index bytes).1 = index + taken ∧
      (splitLoop maxBytes rest index bytes).2 + utf8Length (rest.drop taken) =
        bytes + utf8Length rest := by
  fun_induction splitLoop maxBytes rest index bytes with
  | case1 index bytes => exact ⟨0, rfl, rfl⟩
  | case2 rest index bytes => exact ⟨0, rfl, rfl⟩
  | case3 rest index bytes hrest code length =>
    refine ⟨length, rfl, ?_⟩
    rw [utf8Length_eq hrest, Nat.add_assoc]
    rfl
  | case4 rest index bytes hrest code length charBytes hopen hmore ih =>
    obtain ⟨taken, hindex, hbytes⟩ := ih
    refine ⟨length + taken, ?_, ?_⟩
    · rw [hindex, Nat.add_assoc]
    · rw [← drop_drop, hbytes, utf8Length_eq hrest, Nat.add_assoc]
      rfl

theorem le_splitLoop (maxBytes : Nat) (rest : JsStr) (index bytes : Nat) :
    index ≤ (splitLoop maxBytes rest index bytes).1 ∧
      bytes ≤ (splitLoop maxBytes rest index bytes).2 := by
  fun_induction splitLoop maxBytes rest index bytes with
  | case1 index bytes => exact ⟨Nat.le_refl _, Nat.le_refl _⟩
  | case2 rest index bytes => exact ⟨Nat.le_refl _, Nat.le_refl _⟩
  | case3 rest index bytes =>
    exact ⟨Nat.le_add_right _ _, Nat.le_add_right _ _⟩
  | case4 rest index bytes hrest code length charBytes hopen hmore ih =>
    exact ⟨Nat.le_trans (Nat.le_add_right _ _) ih.1,
      Nat.le_trans (Nat.le_add_right _ _) ih.2⟩

/-- Started on nothing, the loop takes the first character whatever the
budget. -/
theorem splitLoop_pos (maxBytes : Nat) {rest : JsStr} (h : rest ≠ []) :
    0 < (splitLoop maxBytes rest 0 0).1 ∧
      0 < (splitLoop maxBytes rest 0 0).2 := by
  have hsize : 0 < utf8BytesForCodePoint (codePoint rest) := utf8Size_pos _
  have hlength := charLength_pos rest
  rw [splitLoop]
  simp only [h, ↓reduceDIte, Nat.lt_irrefl, false_and, ↓reduceIte,
    Nat.zero_add]
  by_cases hlast : maxBytes ≤ utf8BytesForCodePoint (codePoint rest)
  · rw [if_pos hlast]
    exact ⟨hlength, hsize⟩
  · rw [if_neg hlast]
    obtain ⟨hindex, hbytes⟩ := le_splitLoop maxBytes
      (rest.drop (charLength rest)) (charLength rest)
      (utf8BytesForCodePoint (codePoint rest))
    exact ⟨Nat.lt_of_lt_of_le hlength hindex, Nat.lt_of_lt_of_le hsize hbytes⟩

variable {maxBytes : Nat}

theorem splitOutputChunk_head_pos (h : maxBytes < chunk.bytes) :
    0 < (splitOutputChunk chunk maxBytes).1.bytes := by
  rw [splitOutputChunk, if_neg (Nat.not_le.mpr h)]
  by_cases hascii : chunk.data.length = chunk.bytes
  · rw [if_pos hascii]
    exact Nat.lt_of_lt_of_le Nat.one_pos (Nat.le_max_left _ _)
  · rw [if_neg hascii]
    by_cases hnone : (splitLoop maxBytes chunk.data 0 0).1 = 0
    · simp only [hnone, ↓reduceIte]
      exact utf8Size_pos _
    · simp only [hnone, ↓reduceIte]
      have hdata : chunk.data ≠ [] := by
        intro hempty
        rw [hempty, splitLoop] at hnone
        exact hnone rfl
      exact (splitLoop_pos maxBytes hdata).2

theorem splitOutputChunk_sized (h : chunk.Sized) (maxBytes : Nat) :
    (splitOutputChunk chunk maxBytes).1.bytes +
        (splitOutputChunk chunk maxBytes).2.bytes = chunk.bytes ∧
      (splitOutputChunk chunk maxBytes).2.Sized := by
  by_cases hfits : chunk.bytes ≤ maxBytes
  · rw [splitOutputChunk, if_pos hfits]
    exact ⟨rfl, rfl⟩
  · rw [splitOutputChunk, if_neg hfits]
    by_cases hascii : chunk.data.length = chunk.bytes
    · rw [if_pos hascii]
      have hlength : utf8Length chunk.data = chunk.data.length := by
        rw [hascii, ← h]
      constructor
      · change max 1 (min maxBytes chunk.data.length) +
          (chunk.bytes - max 1 (min maxBytes chunk.data.length)) = chunk.bytes
        omega
      · change chunk.bytes - _ = utf8Length (chunk.data.drop _)
        rw [utf8Length_drop_of_eq_length hlength, hascii]
    · rw [if_neg hascii]
      have hdata : chunk.data ≠ [] := by
        intro hempty
        rw [QueuedOutputChunk.Sized, hempty] at h
        rw [hempty] at hascii
        exact hascii h.symm
      have hpos := (splitLoop_pos maxBytes hdata).1
      obtain ⟨taken, hindex, hbytes⟩ := splitLoop_cut maxBytes chunk.data 0 0
      simp only [Nat.pos_iff_ne_zero.mp hpos, ↓reduceIte]
      rw [Nat.zero_add] at hindex hbytes
      rw [← h] at hbytes
      constructor
      · omega
      · change chunk.bytes - (splitLoop maxBytes chunk.data 0 0).2 =
          utf8Length (chunk.data.drop _)
        rw [hindex]
        omega

/-- The loop of `dequeueOutputChunk`. -/
def dequeueLoop (queue : OutputQueue) (remaining : Nat)
    (parts : List JsStr) (bytes : Nat) : (List JsStr × Nat) × OutputQueue :=
  if _hroom : remaining = 0 then ((parts, bytes), queue)
  else
    match _hpeek : peekOutputQueue queue with
    | none => ((parts, bytes), queue)
    | some chunk =>
      if _hfits : chunk.bytes ≤ remaining then
        dequeueLoop (shiftOutputQueue queue) (remaining - chunk.bytes)
          (parts ++ [chunk.data]) (bytes + chunk.bytes)
      else
        let head := (splitOutputChunk chunk remaining).1
        let tail := (splitOutputChunk chunk remaining).2
        dequeueLoop { replaceOutputQueueHead queue tail with
            bytes := queue.bytes - head.bytes }
          (remaining - head.bytes) (parts ++ [head.data])
          (bytes + head.bytes)
termination_by remaining + queue.chunks.length
decreasing_by
  · have hshorter := length_shiftOutputQueue_lt _hpeek
    omega
  · have hhead := splitOutputChunk_head_pos (Nat.not_le.mp _hfits)
    have hsame := length_replaceOutputQueueHead queue
      (splitOutputChunk chunk remaining).2
    simp only [hsame]
    omega

def dequeueOutputChunk (queue : OutputQueue) (maxBytes : Nat) :
    Option QueuedOutputChunk × OutputQueue :=
  if maxBytes = 0 ∨ hasOutputQueueItems queue = false then (none, queue)
  else
    let taken := dequeueLoop queue maxBytes [] 0
    if taken.1.1.isEmpty then (none, taken.2)
    else (some ⟨taken.1.1.flatten, taken.1.2⟩, taken.2)

/-- The sum of the weights of a list's members. -/
def total {α : Type} (weight : α → Nat) : List α → Nat
  | [] => 0
  | member :: rest => weight member + total weight rest

@[simp] theorem total_append {α : Type} (weight : α → Nat)
    (front back : List α) :
    total weight (front ++ back) = total weight front + total weight back := by
  induction front with
  | nil => exact (Nat.zero_add _).symm
  | cons member rest ih =>
    rw [cons_append, total, total, ih, Nat.add_assoc]

/-- Every chunk is sized and the queue's counter is their sum. -/
structure OutputQueue.Counted (queue : OutputQueue) : Prop where
  sized : ∀ chunk ∈ queue.chunks, chunk.Sized
  bytes : queue.bytes = total QueuedOutputChunk.bytes queue.chunks

theorem counted_empty : OutputQueue.Counted {} :=
  ⟨fun _ h => absurd h not_mem_nil, rfl⟩

theorem OutputQueue.Counted.push (h : queue.Counted) (hchunk : chunk.Sized) :
    (pushOutputQueue queue chunk).Counted := by
  constructor
  · intro other hother
    rcases mem_append.mp hother with hold | hnew
    · exact h.sized other hold
    · rw [mem_singleton.mp hnew]
      exact hchunk
  · change queue.bytes + chunk.bytes = total _ (queue.chunks ++ [chunk])
    rw [total_append, h.bytes]
    rfl

theorem OutputQueue.Counted.shift (h : queue.Counted)
    (hpeek : peekOutputQueue queue = some chunk) :
    (shiftOutputQueue queue).Counted ∧
      chunk.bytes + (shiftOutputQueue queue).bytes = queue.bytes := by
  obtain ⟨rest, hchunks⟩ := head?_eq_some_iff.mp hpeek
  have hbytes : queue.bytes =
      chunk.bytes + total QueuedOutputChunk.bytes rest := by
    rw [h.bytes, hchunks, total]
  have hshift : shiftOutputQueue queue =
      ⟨rest, total QueuedOutputChunk.bytes rest⟩ := by
    simp only [shiftOutputQueue, hchunks, hbytes, Nat.add_sub_cancel_left]
  rw [hshift]
  refine ⟨⟨fun other hother => ?_, rfl⟩, hbytes.symm⟩
  exact h.sized other (hchunks ▸ mem_cons_of_mem chunk hother)

/-- Replace the head by what is left of it after `taken` bytes. -/
theorem OutputQueue.Counted.replaceHead
    (h : queue.Counted) {tail : QueuedOutputChunk} {taken : Nat}
    (hpeek : peekOutputQueue queue = some chunk)
    (htail : taken + tail.bytes = chunk.bytes) (hsized : tail.Sized) :
    OutputQueue.Counted { replaceOutputQueueHead queue tail with
        bytes := queue.bytes - taken } ∧
      taken + (queue.bytes - taken) = queue.bytes := by
  obtain ⟨rest, hchunks⟩ := head?_eq_some_iff.mp hpeek
  have hbytes : queue.bytes =
      taken + (tail.bytes + total QueuedOutputChunk.bytes rest) := by
    rw [h.bytes, hchunks, total, ← htail, Nat.add_assoc]
  have hleft : queue.bytes - taken =
      tail.bytes + total QueuedOutputChunk.bytes rest := by
    rw [hbytes, Nat.add_sub_cancel_left]
  refine ⟨?_, by rw [hleft, hbytes]⟩
  simp only [replaceOutputQueueHead, hchunks, hleft]
  refine ⟨fun other hother => ?_, rfl⟩
  rcases mem_cons.mp hother with rfl | hold
  · exact hsized
  · exact h.sized other (hchunks ▸ mem_cons_of_mem chunk hold)

/-- The dequeued bytes and the bytes left add up to the queue's. -/
theorem dequeueLoop_counted (h : queue.Counted)
    (remaining : Nat) (parts : List JsStr) (bytes : Nat) :
    (dequeueLoop queue remaining parts bytes).2.Counted ∧
      (dequeueLoop queue remaining parts bytes).1.2 +
        (dequeueLoop queue remaining parts bytes).2.bytes =
          bytes + queue.bytes := by
  fun_induction dequeueLoop queue remaining parts bytes with
  | case1 queue parts bytes => exact ⟨h, rfl⟩
  | case2 queue remaining parts bytes => exact ⟨h, rfl⟩
  | case3 queue remaining parts bytes hroom chunk hpeek hfits ih =>
    obtain ⟨hcounted, hbytes⟩ := h.shift hpeek
    obtain ⟨hrest, htotal⟩ := ih hcounted
    exact ⟨hrest, by rw [htotal, Nat.add_assoc, hbytes]⟩
  | case4 queue remaining parts bytes hroom chunk hpeek hsplit head tail ih =>
    have hchunk : chunk.Sized := h.sized chunk (mem_of_mem_head? hpeek)
    obtain ⟨hparts, htail⟩ := splitOutputChunk_sized hchunk remaining
    obtain ⟨hcounted, hbytes⟩ := h.replaceHead hpeek hparts htail
    obtain ⟨hrest, htotal⟩ := ih hcounted
    refine ⟨hrest, htotal.trans ?_⟩
    rw [Nat.add_assoc]
    exact congrArg (bytes + ·) hbytes

theorem dequeueLoop_parts {remaining : Nat} {parts : List JsStr} {bytes : Nat}
    (h : parts ≠ []) : (dequeueLoop queue remaining parts bytes).1.1 ≠ [] := by
  fun_induction dequeueLoop queue remaining parts bytes with
  | case1 queue parts bytes => exact h
  | case2 queue remaining parts bytes => exact h
  | case3 queue remaining parts bytes hroom chunk hpeek hfits ih =>
    exact ih (concat_ne_nil _ _)
  | case4 queue remaining parts bytes hroom chunk hpeek hsplit head tail ih =>
    exact ih (concat_ne_nil _ _)

theorem peek_of_hasItems (h : hasOutputQueueItems queue = true) :
    ∃ chunk, peekOutputQueue queue = some chunk := by
  cases hchunks : queue.chunks with
  | nil => simp [hasOutputQueueItems, hchunks] at h
  | cons chunk rest =>
    exact ⟨chunk, by simp [peekOutputQueue, hchunks]⟩

/-- With room and a chunk to take, the loop takes something. -/
theorem dequeueLoop_takes
    (hroom : maxBytes ≠ 0) (hitems : hasOutputQueueItems queue = true) :
    (dequeueLoop queue maxBytes [] 0).1.1 ≠ [] := by
  obtain ⟨chunk, hpeek⟩ := peek_of_hasItems hitems
  rw [dequeueLoop, dif_neg hroom]
  split
  · next hnone => exact absurd (hnone.symm.trans hpeek) (by simp)
  · split
    · exact dequeueLoop_parts (concat_ne_nil _ _)
    · exact dequeueLoop_parts (concat_ne_nil _ _)

theorem dequeueOutputChunk_of_items
    (hroom : maxBytes ≠ 0) (hitems : hasOutputQueueItems queue = true) :
    dequeueOutputChunk queue maxBytes =
      (some ⟨(dequeueLoop queue maxBytes [] 0).1.1.flatten,
        (dequeueLoop queue maxBytes [] 0).1.2⟩,
        (dequeueLoop queue maxBytes [] 0).2) := by
  have htakes := dequeueLoop_takes hroom hitems
  simp [dequeueOutputChunk, hroom, hitems, htakes]

theorem dequeueOutputChunk_of_none
    (h : maxBytes = 0 ∨ hasOutputQueueItems queue = false) :
    dequeueOutputChunk queue maxBytes = (none, queue) := by
  rw [dequeueOutputChunk, if_pos h]

theorem dequeueOutputChunk_eq_none {next : OutputQueue}
    (h : dequeueOutputChunk queue maxBytes = (none, next)) : next = queue := by
  by_cases hnone : maxBytes = 0 ∨ hasOutputQueueItems queue = false
  · rw [dequeueOutputChunk_of_none hnone] at h
    exact (congrArg Prod.snd h).symm
  · obtain ⟨hroom, hitems⟩ := not_or.mp hnone
    rw [dequeueOutputChunk_of_items hroom (Bool.of_not_eq_false hitems)] at h
    exact absurd (congrArg Prod.fst h) (Option.some_ne_none _)

theorem dequeueOutputChunk_counted (h : queue.Counted) (maxBytes : Nat) :
    (dequeueOutputChunk queue maxBytes).2.Counted ∧
      (dequeueOutputChunk queue maxBytes).1.elim 0 QueuedOutputChunk.bytes +
        (dequeueOutputChunk queue maxBytes).2.bytes = queue.bytes := by
  by_cases hnone : maxBytes = 0 ∨ hasOutputQueueItems queue = false
  · rw [dequeueOutputChunk_of_none hnone]
    exact ⟨h, Nat.zero_add _⟩
  · obtain ⟨hroom, hitems⟩ := not_or.mp hnone
    rw [dequeueOutputChunk_of_items hroom (Bool.of_not_eq_false hitems)]
    obtain ⟨hcounted, hbytes⟩ := dequeueLoop_counted h maxBytes [] 0
    exact ⟨hcounted, hbytes.trans (Nat.zero_add _)⟩

end NiceTerm.Drain
