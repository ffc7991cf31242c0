/-
A pipelined download that succeeds has put every answer of the server where it
belongs.  An answer that is longer than asked for makes the count of the bytes
too large, and no answer can make it too small.
-/
import NiceTerm.Lib.Fallible
import NiceTerm.Sftp.Pipeline

namespace NiceTerm.Sftp

open List Option

variable {request : DownloadRequest}

theorem chunkSize_pos (request : DownloadRequest) : 0 < request.chunkSize :=
  Nat.lt_of_lt_of_le (by decide) (Nat.le_max_right _ _)

theorem chunkSize_le (request : DownloadRequest) :
    request.chunkSize ≤ 262144 := by
  have hkib : request.requestKib ≤ 256 := request.requestKib_le
  rw [DownloadRequest.chunkSize, sftpPayloadSize, sftpPacketOverheadReserve]
  omega

/-- A task that has read its range has read it exactly, or too much. -/
def Chunk.Fills (chunk : Chunk) (span : Span) : Prop :=
  (span.length = chunk.data.length ∧
      Piece.Laid span.start chunk.reads chunk.data) ∨
    span.length < chunk.data.length

theorem classify_progress {remotePath localPath : RustStr.Str}
    {stop offset written read kib payload : Nat}
    {progress : DownloadReadProgress} (hread : 0 < read)
    (hoffset : offset < stop) (hstop : stop ≤ u64Max)
    (h : classifyDownloadReadProgress remotePath localPath stop offset written
      read kib payload = .ok progress) :
    (offset + read < stop ∧ progress = .continue (offset + read)) ∨
      (stop ≤ offset + read ∧ progress = .complete) := by
  rw [classifyDownloadReadProgress, if_neg (Nat.not_le.mpr hoffset),
    if_neg (Nat.ne_of_gt hread)] at h
  by_cases hend : stop ≤ offset + read
  · have hnext : stop ≤ saturatingAdd offset read := Nat.le_min.mpr ⟨hend, hstop⟩
    simp only [if_pos hnext, Except.ok.injEq] at h
    exact .inr ⟨hend, h.symm⟩
  · have hnext : saturatingAdd offset read = offset + read :=
      Nat.min_eq_left (by omega)
    simp only [hnext, if_neg hend, Except.ok.injEq] at h
    exact .inl ⟨Nat.lt_of_not_le hend, h.symm⟩

/-- Where the loop of a task is: all reads so far fit, or the last one went
beyond the end. -/
def Reading (first stop readOffset : Nat) (chunk : Chunk) : Prop :=
  (readOffset ≤ stop ∧ readOffset = first + chunk.data.length ∧
      Piece.Laid first chunk.reads chunk.data) ∨
    (readOffset = stop ∧ stop < first + chunk.data.length)

variable {chunk : Chunk}

theorem readLoop_reading {first stop readOffset : Nat} {done : Chunk}
    {answers : List (Except RustStr.Str Bytes)} (hstop : stop ≤ u64Max)
    (hreading : Reading first stop readOffset chunk)
    (h : readLoop request stop readOffset chunk answers = some (.ok done))
    (hcomplete : done.completedRange = true) :
    Reading first stop stop done := by
  induction answers generalizing readOffset chunk with
  | nil =>
    simp only [readLoop] at h
    split at h
    · exact absurd h.symm (some_ne_none _)
    · rename_i hend
      rw [some.injEq, Except.ok.injEq] at h
      subst h
      have hat : readOffset = stop := by
        rcases hreading with ⟨hle, -, -⟩ | ⟨heq, -⟩
        · exact Nat.le_antisymm hle (Nat.le_of_not_lt hend)
        · exact heq
      rwa [hat] at hreading
  | cons answer answers ih =>
    rw [readLoop.eq_def] at h
    simp only at h
    by_cases hend : readOffset < stop
    · rw [if_pos hend] at h
      obtain ⟨hat, hlaid⟩ : readOffset = first + chunk.data.length ∧
          Piece.Laid first chunk.reads chunk.data := by
        rcases hreading with ⟨-, hat, hlaid⟩ | ⟨heq, -⟩
        · exact ⟨hat, hlaid⟩
        · exact absurd hend (by rw [heq]; exact Nat.lt_irrefl _)
      match answer with
      | .error error =>
        simp only at h
        split at h <;> simp at h
      | .ok [] =>
        simp only at h
        split at h
        · rw [some.injEq, Except.ok.injEq] at h
          rw [← h] at hcomplete
          exact absurd hcomplete Bool.false_ne_true
        · exact absurd h.symm (some_ne_none _)
      | .ok (byte :: bytes) =>
        have hread : 0 < (byte :: bytes).length := Nat.succ_pos _
        simp only at h
        split at h
        · simp at h
        · rename_i next hclassify
          rcases classify_progress hread hend hstop hclassify
            with ⟨hshort, hnext⟩ | ⟨-, hnext⟩
          · rw [DownloadReadProgress.continue.injEq] at hnext
            refine ih (.inl ⟨?_, ?_, ?_⟩) h
            · rw [hnext]
              exact Nat.le_of_lt hshort
            · rw [hnext, hat, length_append, Nat.add_assoc]
            · rw [hat]
              exact hlaid.concat (byte :: bytes)
          · exact absurd hnext (by simp)
        · rename_i hclassify
          rcases classify_progress hread hend hstop hclassify
            with ⟨-, hnext⟩ | ⟨hlong, -⟩
          · exact absurd hnext (by simp)
          · refine ih ?_ h
            rw [hat] at hlong ⊢
            by_cases hexact : stop = first + chunk.data.length +
                (byte :: bytes).length
            · refine .inl ⟨Nat.le_refl _, ?_, hlaid.concat _⟩
              rw [length_append, ← Nat.add_assoc]
              exact hexact
            · refine .inr ⟨rfl, ?_⟩
              rw [length_append, ← Nat.add_assoc]
              omega
    · rw [if_neg hend] at h
      exact absurd h.symm (some_ne_none _)

variable {span : Span}

theorem readSftpChunk_fills {answers : List (Except RustStr.Str Bytes)}
    (hspan : span.start + span.length ≤ request.totalSize)
    (h : readSftpChunk request span answers = some (.ok chunk))
    (hcomplete : chunk.completedRange = true) : chunk.Fills span := by
  have hsize := request.totalSize_le
  have hstop : min (saturatingAdd span.start span.length) request.totalSize =
      span.start + span.length := by
    rw [saturatingAdd]
    omega
  rw [readSftpChunk, hstop] at h
  have hstart : Reading span.start (span.start + span.length) span.start
      ⟨[], [], true⟩ :=
    .inl ⟨Nat.le_add_right _ _, rfl, Piece.Laid.nil⟩
  rcases readLoop_reading (Nat.le_trans hspan hsize) hstart h hcomplete with
    ⟨-, hlength, hlaid⟩ | ⟨-, hlong⟩
  · exact .inl ⟨Nat.add_left_cancel hlength, hlaid⟩
  · exact .inr (Nat.lt_of_add_lt_add_left hlong)

/-- What a task that has ended has contributed. -/
abbrev Done := Span × Chunk

def Done.piece (done : Done) : Piece UInt8 := ⟨done.1.start, done.2.data⟩

def Done.Exact (done : Done) : Prop := done.1.length = done.2.data.length

open Span

/-- The ranges of the tasks that have ended, `all`, and of the others tile what
has been asked for so far.  The file holds what has been read as long as no
answer was too long. -/
structure Account (request : DownloadRequest) (download : Download)
    (all : List Done) : Prop where
  tiles : Span.Tiles download.nextOffset (all.map Prod.fst ++ download.pending)
  within : download.nextOffset ≤ request.totalSize
  sized : ∀ span ∈ all.map Prod.fst ++ download.pending,
    0 < span.length ∧ span.length ≤ request.chunkSize
  seekable : ∀ done ∈ all, done.1.start ≤ maxSeek
  fills : ∀ done ∈ all, done.2.Fills done.1
  writes : download.writes = all.map Done.piece
  reads : download.reads = all.flatMap fun done => done.2.reads
  count : download.bytesTransferred = min u64Max
    (totalLength (all.map fun done => done.piece.span))
  held : download.localFile.settle.lastWriteErr = none →
    (∀ done ∈ all, done.Exact) →
    ∀ done ∈ all, done.piece.In download.localFile.settle.bytes

/-- The loops leave off only when everything has been asked for. -/
def OnStage (request : DownloadRequest) (download : Download) : Prop :=
  match download.stage with
  | .opening =>
    download.pending = [] ∧ download.handlePool < request.concurrency
  | .spawning =>
    download.handlePool + download.pending.length = request.concurrency
  | .joining =>
    download.pending ≠ [] ∨ download.nextOffset = request.totalSize

/-- Every position is written once, with what was answered for it, and every
answer is in the file. -/
structure Delivered (request : DownloadRequest) (download : Download)
    (file : Bytes) : Prop where
  written : ∀ i, coverage (download.writes.map Piece.span) i =
    if i < request.totalSize then 1 else 0
  answered : ∀ i, coverage (download.reads.map Piece.span) i =
    if i < request.totalSize then 1 else 0
  stored : ∀ read ∈ download.reads, read.In file

def Download.Sound (request : DownloadRequest) (download : Download) : Prop :=
  match download.result with
  | none => ∃ all, Account request download all ∧ OnStage request download
  | some (.error _) => True
  | some (.ok count) =>
    count = request.totalSize ∧ ∀ file, download.localFile.flush = .ok file →
      Delivered request download file

variable {download : Download} {all : List Done}

theorem Account.launch (h : Account request download all)
    (hmore : download.nextOffset < request.totalSize) :
    Account request (download.launch request) all := by
  have htiles := h.tiles.concat
    (min request.chunkSize (request.totalSize - download.nextOffset))
  rw [append_assoc] at htiles
  have hpos := chunkSize_pos request
  simp only [Download.launch]
  refine ⟨htiles, by simp only; omega, ?_, h.seekable, h.fills, h.writes,
    h.reads, h.count, h.held⟩
  intro span hmem
  rw [← append_assoc] at hmem
  rcases mem_append.mp hmem with hmem | hmem
  · exact h.sized span hmem
  · rw [mem_singleton.mp hmem]
    exact ⟨by simp only; omega, Nat.min_le_left _ _⟩

variable {turn : Turn}

open Fallible

theorem store_ok {stored : Download} (hdata : 0 < chunk.data.length)
    (h : download.store turn span chunk = .ok stored) :
    span.start ≤ maxSeek ∧ download.localFile.settle.lastWriteErr = none ∧
      stored = { download with
        localFile := { download.localFile.settle with
          busy := some ⟨Done.piece (span, chunk), turn.write, turn.written⟩ }
        writes := download.writes ++ [Done.piece (span, chunk)]
        reads := download.reads ++ chunk.reads
        bytesTransferred :=
          saturatingAdd download.bytesTransferred chunk.data.length } := by
  have hne : chunk.data.isEmpty = false := by
    rw [isEmpty_eq_false_iff]
    exact ne_nil_of_length_pos hdata
  rw [Download.store, hne, if_neg Bool.false_ne_true, bind_eq_ok] at h
  obtain ⟨_, hseek, h⟩ := h
  rw [bind_eq_ok] at h
  obtain ⟨_, hwrite, h⟩ := h
  refine ⟨?_, ?_, (Except.ok.inj h).symm⟩
  · by_contra hfar
    have herror : Download.seekError turn span.start =
        some "Invalid argument".toList := if_pos (Nat.lt_of_not_le hfar)
    rw [herror] at hseek
    exact absurd hseek (by simp [mapError])
  · cases herror : download.localFile.settle.lastWriteErr with
    | none => rfl
    | some error =>
      rw [herror] at hwrite
      exact absurd hwrite (by simp [mapError])

variable {next : Download}

/-- A turn of the second loop goes on only with a range that has been read. -/
theorem joined_ok {task : Except AppError Chunk}
    (h : download.joined request turn span task = .ok next) :
    ∃ chunk stored, task = .ok chunk ∧
      { download with pending := download.pending.eraseIdx turn.index }.store
        turn span chunk = .ok stored ∧
      chunk.completedRange = true ∧
      stored.reuseHandle request turn span = .ok next := by
  rw [Download.joined, bind_eq_ok] at h
  obtain ⟨_, -, h⟩ := h
  rw [bind_eq_ok] at h
  obtain ⟨_, -, h⟩ := h
  rw [bind_eq_ok] at h
  obtain ⟨chunk, htask, h⟩ := h
  rw [bind_eq_ok] at h
  obtain ⟨stored, hstored, h⟩ := h
  by_cases hcomplete : chunk.completedRange = true
  · rw [if_pos hcomplete] at h
    exact ⟨chunk, stored, htask, hstored, hcomplete, h⟩
  · rw [if_neg hcomplete] at h
    exact absurd h (by simp)

/-- The state once a task has been taken out and its data handed over. -/
def Download.stored (download : Download) (index : Nat) (done : Done)
    (turn : Turn) : Download :=
  { download with
    pending := download.pending.eraseIdx index
    localFile := { download.localFile.settle with
      busy := some ⟨done.piece, turn.write, turn.written⟩ }
    writes := download.writes ++ [done.piece]
    reads := download.reads ++ done.2.reads
    bytesTransferred :=
      saturatingAdd download.bytesTransferred done.2.data.length }

theorem pending_perm {index : Nat}
    (hindex : download.pending[index]? = some span) :
    (span :: download.pending.eraseIdx index).Perm download.pending := by
  obtain ⟨hlt, hget⟩ := List.getElem?_eq_some_iff.mp hindex
  rw [← hget]
  exact getElem_cons_eraseIdx_perm hlt

theorem Account.stored (h : Account request download all) {index : Nat}
    {done : Done} (hindex : download.pending[index]? = some done.1)
    (hfills : done.2.Fills done.1) (hseek : done.1.start ≤ maxSeek)
    (hwritten : download.localFile.settle.lastWriteErr = none) (turn : Turn) :
    Account request (download.stored index done turn) (all ++ [done]) := by
  have hperm : (all.map Prod.fst ++ download.pending).Perm
      ((all ++ [done]).map Prod.fst ++ download.pending.eraseIdx index) := by
    rw [map_append, append_assoc]
    exact (pending_perm hindex).symm.append_left _
  have htiles := h.tiles.perm hperm
  simp only [Download.stored]
  refine ⟨htiles, h.within, ?_, ?_, ?_, ?_, ?_, ?_, ?_⟩
  · exact fun span hmem => h.sized span (hperm.mem_iff.mpr hmem)
  · intro other hmem
    rcases mem_append.mp hmem with hmem | hmem
    · exact h.seekable other hmem
    · rwa [mem_singleton.mp hmem]
  · intro other hmem
    rcases mem_append.mp hmem with hmem | hmem
    · exact h.fills other hmem
    · rwa [mem_singleton.mp hmem]
  · rw [h.writes, map_append, map_singleton]
  · rw [h.reads, flatMap_append, flatMap_singleton]
  · rw [h.count, map_append, totalLength_append, saturatingAdd]
    change min (min u64Max _ + _) u64Max = min u64Max (_ + (_ + 0))
    rw [Nat.add_zero]
    change min (min u64Max _ + done.2.data.length) u64Max =
      min u64Max (_ + done.2.data.length)
    omega
  · intro hfine hexact other hmem
    have hnone : turn.write = none := hfine
    have hfile : LocalWrite.apply ⟨done.piece, turn.write, turn.written⟩
        download.localFile.settle.bytes =
          done.piece.writeTo 0 download.localFile.settle.bytes := by
      rw [LocalWrite.apply, hnone]
    change other.piece.In (LocalWrite.apply _ _)
    rw [hfile]
    have hold (other : Done) (hother : other ∈ all) : other.piece.In
        (done.piece.writeTo 0 download.localFile.settle.bytes) := by
      have hin := h.held hwritten
        (fun d hd => hexact d (mem_append_left _ hd)) other hother
      refine hin.writeTo fun i hcovers hdone => ?_
      have hfront : ((all ++ [done]).map Prod.fst ++
          download.pending.eraseIdx index).Perm (done.1 :: (all.map Prod.fst ++
            download.pending.eraseIdx index)) := by
        rw [map_append, append_assoc]
        exact perm_middle
      have hdoneSpan : done.piece.span = done.1 := by
        have hlength : done.1.length = done.2.data.length :=
          hexact done (mem_append_right _ (mem_singleton_self _))
        rw [Piece.span, Done.piece, ← hlength]
      have hotherSpan : other.piece.span = other.1 := by
        have hlength : other.1.length = other.2.data.length :=
          hexact other (mem_append_left _ hother)
        rw [Piece.span, Done.piece, ← hlength]
      rw [hdoneSpan] at hdone
      rw [hotherSpan] at hcovers
      have hmem : other.1 ∈ all.map Prod.fst ++
          download.pending.eraseIdx index :=
        mem_append_left _ (mem_map_of_mem hother)
      exact (htiles.perm hfront).apart hmem hdone hcovers
    rcases mem_append.mp hmem with hmem | hmem
    · exact hold other hmem
    · rw [mem_singleton.mp hmem]
      exact Piece.in_writeTo 0 done.piece _

/-- Behind a range there is another one, or everything has been asked for. -/
theorem Account.reuseHandle (h : Account request download all)
    (hstage : download.stage = .joining)
    (hnext : download.reuseHandle request turn span = .ok next) :
    Account request next all ∧ OnStage request next ∧
      next.result = download.result := by
  rw [Download.reuseHandle] at hnext
  by_cases hmore : download.nextOffset < request.totalSize
  · rw [if_pos hmore, bind_eq_ok] at hnext
    obtain ⟨_, -, hnext⟩ := hnext
    obtain rfl := Except.ok.inj hnext
    refine ⟨h.launch hmore, ?_, by simp [Download.launch]⟩
    simp only [OnStage, Download.launch, hstage]
    exact .inl (by simp)
  · rw [if_neg hmore, bind_eq_ok] at hnext
    obtain ⟨_, -, hnext⟩ := hnext
    obtain rfl := Except.ok.inj hnext
    refine ⟨h, ?_, rfl⟩
    rw [OnStage, hstage]
    exact .inr (Nat.le_antisymm h.within (Nat.le_of_not_lt hmore))

theorem Account.joined (h : Account request download all)
    {task : Except AppError Chunk} (hstage : download.stage = .joining)
    (hindex : download.pending[turn.index]? = some span)
    (hread : readSftpChunk request span turn.answers = some task)
    (hnext : download.joined request turn span task = .ok next) :
    ∃ all, Account request next all ∧ OnStage request next ∧
      next.result = download.result := by
  obtain ⟨chunk, stored, rfl, hstore, hcomplete, hreuse⟩ := joined_ok hnext
  have hmem : span ∈ all.map Prod.fst ++ download.pending :=
    mem_append_right _ (mem_of_getElem? hindex)
  have hend : span.start + span.length ≤ request.totalSize :=
    Nat.le_trans (h.tiles.stop_le span hmem) h.within
  have hfills := readSftpChunk_fills hend hread hcomplete
  have hdata : 0 < chunk.data.length := by
    have hpos := (h.sized span hmem).1
    rcases hfills with ⟨hlength, -⟩ | hlong <;> omega
  obtain ⟨hseek, hwritten, rfl⟩ := store_ok hdata hstore
  have hstored : Account request
      (download.stored turn.index (span, chunk) turn)
      (all ++ [(span, chunk)]) := h.stored hindex hfills hseek hwritten turn
  exact ⟨_, hstored.reuseHandle hstage hreuse⟩

theorem Chunk.Fills.length_le
    (h : chunk.Fills span) : span.length ≤ chunk.data.length := by
  rcases h with ⟨hlength, -⟩ | hlong
  · exact Nat.le_of_eq hlength
  · exact Nat.le_of_lt hlong

/-- Reading at least as much as asked for everywhere, and as much in total, is
reading as much everywhere. -/
theorem totalLength_le {all : List Done}
    (h : ∀ done ∈ all, done.1.length ≤ done.2.data.length) :
    totalLength (all.map Prod.fst) ≤
        totalLength (all.map fun done => done.piece.span) ∧
      (totalLength (all.map fun done => done.piece.span) =
        totalLength (all.map Prod.fst) → ∀ done ∈ all, done.Exact) := by
  induction all with
  | nil => exact ⟨Nat.le_refl _, fun _ _ hmem => absurd hmem not_mem_nil⟩
  | cons done all ih =>
    rw [forall_mem_cons] at h
    obtain ⟨hle, hexact⟩ := ih h.2
    have hdone : done.piece.span.length = done.2.data.length := rfl
    simp only [map_cons, totalLength, hdone, forall_mem_cons]
    refine ⟨by omega, fun heq => ⟨?_, hexact (by omega)⟩⟩
    rw [Done.Exact]
    omega

theorem coverage_reads {all : List Done}
    (hlaid : ∀ done ∈ all, done.Exact ∧
      Piece.Laid done.1.start done.2.reads done.2.data) (i : Nat) :
    coverage ((all.flatMap fun done => done.2.reads).map Piece.span) i =
      coverage (all.map Prod.fst) i := by
  induction all with
  | nil => rfl
  | cons done all ih =>
    rw [forall_mem_cons] at hlaid
    obtain ⟨⟨hexact, hdone⟩, hall⟩ := hlaid
    have hread := hdone.coverage i
    have hspan : mk done.1.start done.2.data.length = done.1 := by
      rw [← hexact]
    rw [hspan] at hread
    rw [flatMap_cons, map_append, coverage_append, hread,
      ih hall, map_cons, coverage_cons]

theorem flush_ok {localFile : LocalFile} {file : Bytes}
    (h : localFile.flush = .ok file) :
    localFile.settle.lastWriteErr = none ∧ localFile.settle.bytes = file := by
  rw [LocalFile.flush] at h
  cases herror : localFile.settle.lastWriteErr with
  | none =>
    rw [herror] at h
    exact ⟨rfl, Except.ok.inj h⟩
  | some error =>
    rw [herror] at h
    cases h

/-- With the right count, nothing was read twice or too long. -/
theorem Account.delivered (h : Account request download all)
    (hpending : download.pending = [])
    (hasked : download.nextOffset = request.totalSize)
    (hcount : download.bytesTransferred = request.totalSize) {file : Bytes}
    (hfile : download.localFile.flush = .ok file) :
    Delivered request download file := by
  obtain ⟨hfine, rfl⟩ := flush_ok hfile
  have htiles := h.tiles
  rw [hpending, append_nil, hasked] at htiles
  have hlength := htiles.totalLength
  obtain ⟨hle, hexactOf⟩ := totalLength_le fun done hdone =>
    (h.fills done hdone).length_le
  have hsum : totalLength (all.map fun done => done.piece.span) =
      request.totalSize := by
    have hbytes := h.count
    rw [hcount] at hbytes
    by_contra hne
    have hfull : request.totalSize = u64Max := by omega
    have hlast := htiles.coverage (request.totalSize - 1)
    have hbelow : request.totalSize - 1 < request.totalSize := by
      rw [hfull]
      decide
    rw [if_pos hbelow] at hlast
    obtain ⟨span, hmem, hcovers⟩ : ∃ span ∈ all.map Prod.fst,
        span.Covers (request.totalSize - 1) := by
      have hpos : 0 < coverage (all.map Prod.fst)
          (request.totalSize - 1) := by omega
      rw [coverage, countP_pos_iff] at hpos
      simpa using hpos
    obtain ⟨done, hdone, rfl⟩ := mem_map.mp hmem
    have hseek := h.seekable done hdone
    have hsized := (h.sized done.1 (mem_append_left _ hmem)).2
    have hchunk := chunkSize_le request
    obtain ⟨-, hend⟩ := hcovers
    rw [u64Max] at hfull
    rw [maxSeek] at hseek
    omega
  have hexact := hexactOf (hsum.trans hlength.symm)
  have hlaid (done : Done) (hdone : done ∈ all) :
      Piece.Laid done.1.start done.2.reads done.2.data := by
    have hsame := hexact done hdone
    rw [Done.Exact] at hsame
    rcases h.fills done hdone with ⟨-, hlaid⟩ | hlong
    · exact hlaid
    · omega
  constructor
  · intro i
    have hspans : download.writes.map Piece.span = all.map Prod.fst := by
      rw [h.writes, List.map_map]
      refine map_congr_left fun done hdone => ?_
      have hsame : done.1.length = done.2.data.length := hexact done hdone
      rw [Function.comp_apply, Piece.span, Done.piece, ← hsame]
    rw [hspans, htiles.coverage]
  · intro i
    rw [h.reads, coverage_reads fun done hdone =>
      ⟨hexact done hdone, hlaid done hdone⟩, htiles.coverage]
  · intro read hread
    rw [h.reads, mem_flatMap] at hread
    obtain ⟨done, hdone, hread⟩ := hread
    exact (hlaid done hdone).in (h.held hfine hexact done hdone) read hread

theorem start_sound (request : DownloadRequest) (file : Bytes) :
    (Download.start request file).Sound request := by
  by_cases hempty : request.totalSize = 0
  · have hresult : (Download.start request file).result = some (.ok 0) := by
      simp [Download.start, ensureDownloadComplete, hempty, Except.map]
    rw [Download.Sound, hresult]
    refine ⟨hempty.symm, fun _ _ =>
      ⟨?_, ?_, fun _ hmem => absurd hmem not_mem_nil⟩⟩
    · intro i
      rw [hempty]
      rfl
    · intro i
      rw [hempty]
      rfl
  · have hresult : (Download.start request file).result = none := if_neg hempty
    rw [Download.Sound, hresult]
    refine ⟨[], ⟨Span.Tiles.nil, Nat.zero_le _, ?_, ?_, ?_, rfl, rfl, ?_, ?_⟩,
      rfl, Nat.lt_of_lt_of_le Nat.one_pos (Nat.le_max_right _ _)⟩
    all_goals simp [Download.start, totalLength]

theorem goOn_sound {next : Except AppError Download}
    (h : ∀ download, next = .ok download → download.Sound request) :
    (download.goOn next).Sound request := by
  cases next with
  | error error => trivial
  | ok next => exact h next rfl

theorem opened_sound (h : Account request download all)
    (hresult : download.result = none) (hstage : download.stage = .opening)
    (hon : OnStage request download) (error : Option RustStr.Str) :
    (download.opened request error).Sound request := by
  rw [OnStage, hstage] at hon
  refine goOn_sound fun next hnext => ?_
  rw [bind_eq_ok] at hnext
  obtain ⟨_, -, hnext⟩ := hnext
  obtain rfl := Except.ok.inj hnext
  simp only [Download.Sound, hresult]
  refine ⟨all, ⟨h.tiles, h.within, h.sized, h.seekable, h.fills, h.writes,
    h.reads, h.count, h.held⟩, ?_⟩
  by_cases hfull : download.handlePool + 1 = request.concurrency
  · simp [OnStage, hfull, hon.1]
  · simp only [OnStage, hfull, ↓reduceIte]
    exact ⟨hon.1, by omega⟩

theorem concurrency_pos (request : DownloadRequest) : 0 < request.concurrency :=
  Nat.lt_of_lt_of_le Nat.one_pos (Nat.le_max_right _ _)

theorem spawnTurn_sound (h : Account request download all)
    (hresult : download.result = none) (hstage : download.stage = .spawning)
    (hon : OnStage request download) (control : TransferControlState) :
    (download.spawnTurn request control).Sound request := by
  rw [OnStage, hstage] at hon
  have hpos := concurrency_pos request
  rw [Download.spawnTurn]
  by_cases hpool : download.handlePool = 0
  · rw [if_pos hpool]
    have hpending : 0 < download.pending.length := by omega
    simp only [Download.Sound, hresult]
    exact ⟨all, ⟨h.tiles, h.within, h.sized, h.seekable, h.fills, h.writes,
      h.reads, h.count, h.held⟩, .inl (ne_nil_of_length_pos hpending)⟩
  · rw [if_neg hpool]
    have hpopped : Account request
        { download with handlePool := download.handlePool - 1 } all :=
      ⟨h.tiles, h.within, h.sized, h.seekable, h.fills, h.writes, h.reads,
        h.count, h.held⟩
    by_cases hasked : request.totalSize ≤ download.nextOffset
    · simp only [hasked, ↓reduceIte, Download.Sound, hresult]
      exact ⟨all, ⟨h.tiles, h.within, h.sized, h.seekable, h.fills, h.writes,
        h.reads, h.count, h.held⟩, .inr (Nat.le_antisymm h.within hasked)⟩
    · simp only [hasked, ↓reduceIte]
      refine goOn_sound fun next hnext => ?_
      rw [bind_eq_ok] at hnext
      obtain ⟨_, -, hnext⟩ := hnext
      obtain rfl := Except.ok.inj hnext
      have hlaunched := hpopped.launch (Nat.lt_of_not_le hasked)
      simp only [Download.Sound, Download.launch, hresult] at hlaunched ⊢
      refine ⟨all, hlaunched, ?_⟩
      simp only [OnStage, hstage, length_append, length_singleton]
      omega

theorem finished_sound (h : Account request download all)
    (hon : OnStage request download) (hstage : download.stage = .joining)
    (hpending : download.pending = []) :
    (download.finished request).Sound request := by
  rw [OnStage, hstage] at hon
  have hasked : download.nextOffset = request.totalSize :=
    hon.resolve_left fun hne => hne hpending
  by_cases hcount : download.bytesTransferred = request.totalSize
  · have hresult : (download.finished request).result =
        some (.ok download.bytesTransferred) := by
      simp [Download.finished, ensureDownloadComplete, hcount, Except.map]
    rw [Download.Sound, hresult]
    refine ⟨hcount, fun file hfile => ?_⟩
    have hdelivered := h.delivered hpending hasked hcount hfile
    exact ⟨hdelivered.written, hdelivered.answered, hdelivered.stored⟩
  · have hresult : ∃ error, (download.finished request).result =
        some (.error error) := by
      simp [Download.finished, ensureDownloadComplete, hcount, Except.map]
    obtain ⟨error, hresult⟩ := hresult
    rw [Download.Sound, hresult]
    trivial

theorem step_sound {event : DownloadEvent} (h : download.Sound request)
    (hstep : download.step request event = some next) : next.Sound request := by
  unfold Download.step at hstep
  by_cases hended : download.result.isSome = true
  · rw [if_pos hended] at hstep
    exact absurd hstep.symm (some_ne_none _)
  rw [if_neg hended] at hstep
  have hresult : download.result = none := by simpa using hended
  rw [Download.Sound, hresult] at h
  obtain ⟨all, haccount, hon⟩ := h
  split at hstep
  · rename_i error hstage
    obtain rfl := some.inj hstep
    exact opened_sound haccount hresult hstage hon error
  · rename_i control hstage
    obtain rfl := some.inj hstep
    exact spawnTurn_sound haccount hresult hstage hon control
  · rename_i turn hstage
    split at hstep
    · exact absurd hstep.symm (some_ne_none _)
    · rename_i span hindex
      rw [map_eq_some_iff] at hstep
      obtain ⟨task, hread, rfl⟩ := hstep
      refine goOn_sound fun next hnext => ?_
      obtain ⟨all, hnextAccount, hnextOn, hsame⟩ :=
        haccount.joined hstage hindex hread hnext
      rw [Download.Sound, hsame, hresult]
      exact ⟨all, hnextAccount, hnextOn⟩
  · rename_i hstage
    by_cases hpending : download.pending.isEmpty = true
    · rw [if_pos hpending] at hstep
      obtain rfl := some.inj hstep
      exact finished_sound haccount hon hstage (List.isEmpty_iff.mp hpending)
    · rw [if_neg hpending] at hstep
      exact absurd hstep.symm (some_ne_none _)
  · exact absurd hstep.symm (some_ne_none _)

/-- However the tasks end and whatever the server answers, a download that
succeeds has every byte where it was asked for, and each exactly once, when the
local file has been flushed. -/
theorem download_delivers {file flushed : Bytes} {events : List DownloadEvent}
    {count : Nat} (hrun : (Download.system request file).runFrom
      (Download.start request file) events = some download)
    (hresult : download.result = some (.ok count))
    (hflush : download.localFile.flush = .ok flushed) :
    count = request.totalSize ∧ Delivered request download flushed := by
  have hreachable : (Download.system request file).Reachable download :=
    ⟨Download.start request file, events, rfl, hrun⟩
  have hsound : download.Sound request := by
    apply hreachable.invariant
    · rintro s rfl
      exact start_sound request file
    · exact fun s event t hs hstep => step_sound hs hstep
  rw [Download.Sound, hresult] at hsound
  exact ⟨hsound.1, hsound.2 flushed hflush⟩

def sampleDownload : DownloadRequest :=
  .ofSettings "/srv/a".toList "/home/a".toList 3 64 none 16

/-- The server answers with two bytes and then with one.  The write of them may
fail after it has been accepted. -/
def sampleTurn (write : Option RustStr.Str) : Turn where
  index := 0
  answers := [.ok [1, 2], .ok [3]]
  write := write

def sampleEvents (write : Option RustStr.Str) : List DownloadEvent :=
  [.opened none, .spawn .running, .spawn .running, .join (sampleTurn write),
    .finish]

def sampleWrite (write : Option RustStr.Str) : LocalFile :=
  ⟨[], some ⟨⟨0, [1, 2, 3]⟩, write, 0⟩, none⟩

def Download.ended (download : Download) :
    Option (Option Nat) × LocalFile × List (Piece UInt8) :=
  (download.result.map Except.toOption, download.localFile, download.reads)

theorem sample_run :
    ∀ write ∈ [none, some "No space left".toList],
      ((Download.system sampleDownload []).runFrom
        (Download.start sampleDownload []) (sampleEvents write)).map
          Download.ended =
        some (some (some 3), sampleWrite write, [⟨0, [1, 2]⟩, ⟨2, [3]⟩]) := by
  decide +kernel

theorem sample_ends {write : Option RustStr.Str}
    (h : write ∈ [none, some "No space left".toList]) :
    ∃ download : Download, (Download.system sampleDownload []).runFrom
        (Download.start sampleDownload []) (sampleEvents write) =
          some download ∧
      download.result = some (.ok 3) ∧
      download.localFile = sampleWrite write ∧
      download.reads = [⟨0, [1, 2]⟩, ⟨2, [3]⟩] := by
  obtain ⟨download, hrun, hended⟩ := map_eq_some_iff.mp (sample_run write h)
  obtain ⟨hresult, hrest⟩ := Prod.mk.inj hended
  obtain ⟨hfile, hreads⟩ := Prod.mk.inj hrest
  obtain ⟨ended, hresult, hok⟩ := map_eq_some_iff.mp hresult
  refine ⟨download, hrun, ?_, hfile, hreads⟩
  cases ended with
  | error error => exact absurd hok.symm (some_ne_none _)
  | ok count => rw [hresult, some.inj hok]

/-- Three bytes arrive in two answers. -/
theorem sample_delivers : ∃ download : Download,
    (Download.system sampleDownload []).runFrom
      (Download.start sampleDownload []) (sampleEvents none) = some download ∧
    3 = sampleDownload.totalSize ∧
    Delivered sampleDownload download [1, 2, 3] := by
  obtain ⟨download, hrun, hresult, hfile, -⟩ := sample_ends mem_cons_self
  refine ⟨download, hrun, download_delivers hrun hresult ?_⟩
  rw [hfile]
  decide

/-- The disk is full: the download succeeds, and the flush fails. -/
theorem accepted_write_missing : ∃ download : Download,
    (Download.system sampleDownload []).runFrom
      (Download.start sampleDownload [])
        (sampleEvents (some "No space left".toList)) = some download ∧
    download.result = some (.ok 3) ∧
    ¬ Delivered sampleDownload download download.localFile.settle.bytes := by
  obtain ⟨download, hrun, hresult, hfile, hreads⟩ :=
    sample_ends (mem_cons_of_mem none (mem_singleton_self _))
  refine ⟨download, hrun, hresult, fun h => ?_⟩
  have hbytes : download.localFile.settle.bytes = [] := by
    rw [hfile]
    rfl
  have hin := h.stored ⟨0, [1, 2]⟩ (by rw [hreads]; exact mem_cons_self)
  rw [hbytes] at hin
  have hbyte := hin 0 (by decide)
  exact absurd hbyte (by decide)

end NiceTerm.Sftp
