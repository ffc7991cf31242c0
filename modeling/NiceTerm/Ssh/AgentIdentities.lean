/-
The identities an agent channel answers with: which of the offered ones are
collected, and that the answer is read back as it was written.
-/
import NiceTerm.Lib.Keyed
import NiceTerm.Ssh.AgentBroker

namespace NiceTerm.Ssh.Agent

open RustStr
open RustStr (Str)
open Distinct List

variable {Key : Type}

/-- The bytes of an answer with these identities. -/
def encodedLength : List (AgentIdentityRecord Key) → Nat
  | [] => 5
  | record :: rest =>
    encodedLength rest + 4 + record.blob.length + 4 + len record.comment

/-- Both limits of an answer. -/
def Fits (records : List (AgentIdentityRecord Key)) : Prop :=
  records.length ≤ maxAgentIdentities ∧
    encodedLength records ≤ maxAgentFrameLen

theorem encodedLength_append (front back : List (AgentIdentityRecord Key)) :
    encodedLength (front ++ back) + 5 =
      encodedLength front + encodedLength back := by
  induction front with
  | nil => simp only [nil_append, encodedLength]; omega
  | cons record front ih =>
    rw [cons_append, encodedLength, encodedLength]
    omega

theorem encodedLength_ge (records : List (AgentIdentityRecord Key)) :
    5 ≤ encodedLength records := by
  induction records with
  | nil => exact Nat.le_refl 5
  | cons record rest ih =>
    rw [encodedLength]
    omega

theorem Fits.of_prefix {front all : List (AgentIdentityRecord Key)}
    (hpart : front <+: all) (h : Fits all) : Fits front := by
  obtain ⟨rest, rfl⟩ := hpart
  have hlength := encodedLength_append front rest
  have hrest := encodedLength_ge rest
  refine ⟨?_, ?_⟩
  · have hcount := h.1
    rw [length_append] at hcount
    omega
  · have hbytes := h.2
    omega

/-! What is collected. -/

namespace IdentityCollector

/-- The collector knows the blobs and the size of what it has. -/
structure Keeps (collector : IdentityCollector Key) : Prop where
  seen : ∀ blob, blob ∈ collector.seen ↔ blob ∈ collector.items.map (·.blob)
  encodedLen : collector.encodedLen = encodedLength collector.items
  fits : Fits collector.items

theorem keeps_new : Keeps (.new : IdentityCollector Key) where
  seen blob := by simp [new]
  encodedLen := rfl
  fits := by
    refine ⟨Nat.zero_le _, ?_⟩
    change 5 ≤ 262144
    omega

/-- What one offered identity does to a collector that has left out none. -/
inductive Pushed (collector : IdentityCollector Key)
    (record : AgentIdentityRecord Key) : IdentityCollector Key → Prop
  | again (h : record.blob ∈ collector.seen) :
      Pushed collector record collector
  | full (hnew : record.blob ∉ collector.seen)
      (h : ¬ Fits (collector.items ++ [record])) :
      Pushed collector record { collector with truncated := true }
  | added (hnew : record.blob ∉ collector.seen)
      (h : Fits (collector.items ++ [record])) :
      Pushed collector record { collector with
          seen := record.blob :: collector.seen
          encodedLen := encodedLength (collector.items ++ [record])
          items := collector.items ++ [record] }

variable {collector after : IdentityCollector Key}

theorem push_pushed (hkeeps : collector.Keeps)
    (hopen : collector.truncated = false) (record : AgentIdentityRecord Key) :
    Pushed collector record (collector.push record) := by
  have hlength := encodedLength_append collector.items [record]
  have hone : encodedLength [record] =
      5 + 4 + record.blob.length + 4 + len record.comment := rfl
  have hsum : collector.encodedLen + 4 + record.blob.length + 4 + len
      record.comment = encodedLength (collector.items ++ [record]) := by
    rw [hkeeps.encodedLen]
    omega
  have hcount : (collector.items ++ [record]).length =
      collector.items.length + 1 := length_append
  by_cases hseen : record.blob ∈ collector.seen
  · have hsame : collector.push record = collector := by
      rw [push, if_pos (by simp [hseen])]
    rw [hsame]
    exact Pushed.again hseen
  · rw [push, if_neg (by simp [hopen, hseen])]
    simp only [hsum]
    by_cases hfits : Fits (collector.items ++ [record])
    · have hitems := hfits.1
      have hbytes := hfits.2
      have hlimit : maxAgentFrameLen = 262144 := rfl
      rw [if_neg (by omega), if_neg (by simp; omega)]
      exact Pushed.added hseen hfits
    · have hfull := Pushed.full hseen hfits
      split
      · exact hfull
      · rw [if_pos]
        · exact hfull
        · rw [Bool.or_eq_true, decide_eq_true_eq, decide_eq_true_eq]
          by_contra hboth
          rw [not_or] at hboth
          exact hfits ⟨by omega, by omega⟩

theorem Pushed.keeps
    {record : AgentIdentityRecord Key} (h : Pushed collector record after)
    (hkeeps : collector.Keeps) : after.Keeps := by
  induction h with
  | again => exact hkeeps
  | full => exact ⟨hkeeps.seen, hkeeps.encodedLen, hkeeps.fits⟩
  | added hnew hfits =>
    refine ⟨?_, rfl, hfits⟩
    intro blob
    simp only [mem_cons, map_append, map_cons, map_nil,
      mem_append, not_mem_nil, or_false, hkeeps.seen blob]
    exact or_comm

/-- A collector that has left an identity out takes no more. -/
theorem foldl_push_truncated (h : collector.truncated = true)
    (offered : List (AgentIdentityRecord Key)) :
    offered.foldl push collector = collector := by
  induction offered with
  | nil => rfl
  | cons record rest ih =>
    rw [foldl_cons, push, if_pos (by simp [h])]
    exact ih

/-- What all offered identities make of a collector that has left out none:
the first ones with each blob are added, all of them or up to one that does
not fit. -/
inductive Collected (collector : IdentityCollector Key)
    (distinct : List (AgentIdentityRecord Key)) :
    IdentityCollector Key → Prop
  | all {after : IdentityCollector Key} (hkeeps : after.Keeps)
      (hopen : after.truncated = false)
      (hitems : after.items = collector.items ++ distinct) :
      Collected collector distinct after
  | part {after : IdentityCollector Key}
      (taken : List (AgentIdentityRecord Key))
      {rest : List (AgentIdentityRecord Key)} {next : AgentIdentityRecord Key}
      (hkeeps : after.Keeps) (htruncated : after.truncated = true)
      (hdistinct : distinct = taken ++ next :: rest)
      (hitems : after.items = collector.items ++ taken)
      (hnext : ¬ Fits (after.items ++ [next])) :
      Collected collector distinct after

theorem foldl_push
    (hkeeps : collector.Keeps) (hopen : collector.truncated = false)
    (offered : List (AgentIdentityRecord Key)) :
    Collected collector (firsts (·.blob) collector.seen offered)
      (offered.foldl push collector) := by
  induction offered generalizing collector with
  | nil =>
    refine Collected.all hkeeps hopen ?_
    rw [firsts, append_nil]
    rfl
  | cons record rest ih =>
    have hpushed := push_pushed hkeeps hopen record
    have hafter := hpushed.keeps hkeeps
    rw [foldl_cons]
    generalize collector.push record = after at hpushed hafter
    cases hpushed with
    | again h =>
      rw [firsts, if_pos h]
      exact ih hkeeps hopen
    | full hnew h =>
      rw [firsts, if_neg hnew, foldl_push_truncated rfl]
      refine Collected.part [] hafter rfl rfl ?_ h
      exact (append_nil _).symm
    | added hnew h =>
      rw [firsts, if_neg hnew]
      have hrest := ih hafter hopen
      generalize rest.foldl push _ = last at hrest
      cases hrest with
      | all hkeeps hopen hitems =>
        refine Collected.all hkeeps hopen ?_
        rw [hitems, append_assoc]
        rfl
      | part taken hkeeps htruncated hdistinct hitems hnext =>
        refine Collected.part (record :: taken) hkeeps htruncated
          (congrArg (cons record) hdistinct) ?_ hnext
        rw [hitems, append_assoc]
        rfl

theorem Collected.longest {distinct : List (AgentIdentityRecord Key)}
    (h : Collected .new distinct after) :
    LongestWithin Fits after.items distinct := by
  cases h with
  | all hkeeps hopen hitems =>
    have hall : after.items = distinct := hitems
    rw [hall]
    apply LongestWithin.whole
    rw [← hall]
    exact hkeeps.fits
  | part taken hkeeps htruncated hdistinct hitems hnext =>
    have htaken : after.items = taken := hitems
    rw [hdistinct, ← htaken]
    exact LongestWithin.stopped (fun front all => Fits.of_prefix)
      hkeeps.fits hnext

theorem Collected.truncated_iff {offered : List (AgentIdentityRecord Key)}
    (h : Collected .new (firsts (·.blob) [] offered) after) :
    after.truncated = true ↔
      ∃ record ∈ offered, record.blob ∉ after.items.map (·.blob) := by
  cases h with
  | all hkeeps hopen hitems =>
    have hall : after.items = firsts (·.blob) [] offered := hitems
    rw [hopen, hall]
    constructor
    · exact fun hfalse => absurd hfalse Bool.false_ne_true
    · rintro ⟨record, hrecord, hleft⟩
      refine absurd (mem_keys_firsts.mpr ⟨?_, not_mem_nil⟩) hleft
      exact mem_map_of_mem hrecord
  | part taken hkeeps htruncated hdistinct hitems hnext =>
    rename_i rest next
    have htaken : after.items = taken := hitems
    have hmem : next ∈ firsts (·.blob) [] offered := by
      rw [hdistinct]
      exact mem_append_right taken mem_cons_self
    refine ⟨fun _ => ⟨next, ?_, ?_⟩, fun _ => htruncated⟩
    · exact (firsts_sublist [] offered).subset hmem
    · have hnodup : ((firsts (·.blob) [] offered).map (·.blob)).Nodup :=
        keys_firsts_nodup [] offered
      rw [hdistinct, map_append, nodup_append] at hnodup
      rw [htaken]
      intro hagain
      exact hnodup.2.2 _ hagain _ (mem_map_of_mem mem_cons_self) rfl

end IdentityCollector

/-! What is written and read back. -/

theorem readU32_encodeU32 {value : Nat} (h : value < 4294967296)
    (rest : Bytes) :
    readU32 (encodeU32 value ++ rest) = some (value, rest) := by
  have hvalue : (UInt8.ofNat (value / 16777216)).toNat * 16777216 +
      (UInt8.ofNat (value / 65536)).toNat * 65536 +
      (UInt8.ofNat (value / 256)).toNat * 256 +
      (UInt8.ofNat value).toNat = value := by
    simp only [UInt8.toNat_ofNat']
    omega
  rw [encodeU32, cons_append, cons_append, cons_append,
    cons_append, nil_append, readU32, hvalue]

theorem encodeU32_length (value : Nat) : (encodeU32 value).length = 4 := rfl

theorem encodeString_length (value : Bytes) :
    (encodeString value).length = 4 + value.length := by
  rw [encodeString, length_append, encodeU32_length]

/-- A string within the reader's limit is read back. -/
theorem readStringLimited_encodeString {limit : Nat} {value : Bytes}
    (h : value.length ≤ limit) (hlimit : limit < 4294967296) (rest : Bytes) :
    readStringLimited limit (encodeString value ++ rest) =
      some (value, rest) := by
  have hlength := readU32_encodeU32 (lt_of_le_of_lt h hlimit) (value ++ rest)
  rw [readStringLimited, encodeString, append_assoc, hlength]
  simp only
  rw [if_neg, take_left, drop_left]
  rw [Bool.or_eq_true, decide_eq_true_eq, decide_eq_true_eq, length_append]
  omega

theorem readString_encodeString {value : Bytes}
    (h : value.length ≤ maxAgentFrameLen) (rest : Bytes) :
    readString (encodeString value ++ rest) = some (value, rest) := by
  apply readStringLimited_encodeString h
  change 262144 < 4294967296
  omega

theorem readComment_encodeString {comment : Str}
    (h : len comment ≤ maxAgentCommentLen) (rest : Bytes) :
    readStringLimited maxAgentCommentLen (encodeString (utf8 comment) ++ rest)
      = some (utf8 comment, rest) := by
  rw [← length_utf8] at h
  apply readStringLimited_encodeString h
  change 4096 < 4294967296
  omega

/-- A payload is read back from its frame, whatever follows it. -/
theorem readFrame_frame {payload : Bytes} (hpos : payload ≠ [])
    (h : payload.length ≤ maxAgentFrameLen) (rest : Bytes) :
    readFrame (frame payload ++ rest) = some (some (payload, rest)) := by
  have hpositive := length_pos_of_ne_nil hpos
  have hlimit : maxAgentFrameLen = 262144 := rfl
  have hbound : payload.length < 4294967296 := by omega
  have hlength := readU32_encodeU32 hbound (payload ++ rest)
  rw [readFrame, frame, append_assoc, hlength]
  simp only
  rw [if_neg, if_neg, take_left, drop_left]
  · rw [length_append]
    omega
  · rw [Bool.or_eq_true, decide_eq_true_eq, decide_eq_true_eq]
    omega

/-- One identity, as it is written. -/
def encodeIdentity (identity : Bytes × Str) : Bytes :=
  encodeString identity.1 ++ encodeString (utf8 identity.2)

variable {identities : List (Bytes × Str)}

theorem encodeIdentities_eq {payload : Bytes}
    (h : (payload ++ identities.flatMap encodeIdentity).length ≤
      maxAgentFrameLen) :
    encodeIdentities payload identities =
      some (payload ++ identities.flatMap encodeIdentity) := by
  induction identities generalizing payload with
  | nil =>
    rw [flatMap_nil, append_nil]
    rfl
  | cons identity rest ih =>
    rw [flatMap_cons, ← append_assoc] at h
    have hthis := ih h
    rw [flatMap_cons, ← append_assoc, ← hthis, encodeIdentities, append_assoc]
    rw [length_append] at h
    exact if_neg (by
      change ¬ maxAgentFrameLen < (payload ++ encodeIdentity identity).length
      omega)

theorem encodeIdentity_length (identity : Bytes × Str) :
    (encodeIdentity identity).length =
      4 + identity.1.length + 4 + len identity.2 := by
  rw [encodeIdentity, length_append, encodeString_length,
    encodeString_length, length_utf8]
  omega


theorem readIdentities_succ {count : Nat} {bytes afterBlob rest : Bytes}
    {blob comment : Bytes} {text : Str} {identities : List ExternalIdentity}
    (hblob : readString bytes = some (blob, afterBlob))
    (hcomment : readStringLimited maxAgentCommentLen afterBlob =
      some (comment, rest))
    (htext : fromUtf8 comment = some text)
    (hrest : readIdentities count rest = some identities) :
    readIdentities (count + 1) bytes = some (⟨blob, text⟩ :: identities) := by
  rw [readIdentities, hblob]
  simp only [Option.bind_eq_bind, Option.bind_some, hcomment, htext, hrest]

/-- Identities whose strings the reader allows are read back one by one. -/
theorem readIdentities_encode
    (hblobs : ∀ identity ∈ identities, identity.1.length ≤ maxAgentFrameLen)
    (hcomments : ∀ identity ∈ identities, len identity.2 ≤ maxAgentCommentLen) :
    readIdentities identities.length (identities.flatMap encodeIdentity) =
      some (identities.map fun identity => ⟨identity.1, identity.2⟩) := by
  induction identities with
  | nil => rfl
  | cons identity rest ih =>
    rw [forall_mem_cons] at hblobs hcomments
    have hbytes : (identity :: rest).flatMap encodeIdentity =
        encodeString identity.1 ++
          (encodeString (utf8 identity.2) ++ rest.flatMap encodeIdentity) := by
      rw [flatMap_cons, encodeIdentity, append_assoc]
    rw [hbytes]
    exact readIdentities_succ (readString_encodeString hblobs.1 _)
      (readComment_encodeString hcomments.1 _) (fromUtf8_utf8 _)
      (ih hblobs.2 hcomments.2)

theorem parseIdentitiesResponse_eq {count : Nat} {bytes rest : Bytes}
    {identities : List ExternalIdentity}
    (hbytes : readU32 bytes = some (count, rest))
    (hcount : count ≤ maxAgentIdentities)
    (hrest : readIdentities count rest = some identities) :
    parseIdentitiesResponse (identitiesAnswer :: bytes) = some identities := by
  rw [parseIdentitiesResponse, readU8]
  simp only [Option.bind_eq_bind, Option.bind_some, if_true, hbytes]
  rw [if_neg (Nat.not_lt.mpr hcount)]
  exact hrest

/-- An answer within both limits is written, and read back as it was. -/
theorem identitiesFrame_eq
    (hcount : identities.length ≤ maxAgentIdentities)
    (hbytes : 5 + (identities.flatMap encodeIdentity).length ≤
      maxAgentFrameLen)
    (hcomments : ∀ identity ∈ identities,
      len identity.2 ≤ maxAgentCommentLen) :
    ∃ payload, identitiesFrame identities = some (frame payload) ∧ payload ≠ []
      ∧ payload.length ≤ maxAgentFrameLen ∧ parseIdentitiesResponse payload =
        some (identities.map fun identity => ⟨identity.1, identity.2⟩) := by
  have hlength : (identitiesAnswer :: encodeU32 identities.length ++
      identities.flatMap encodeIdentity).length ≤ maxAgentFrameLen := by
    rw [length_append, length_cons, encodeU32_length]
    exact hbytes
  have hcount32 : identities.length < 4294967296 := by
    have hlimit : maxAgentIdentities = 1024 := rfl
    omega
  have hblobs : ∀ identity ∈ identities,
      identity.1.length ≤ maxAgentFrameLen := by
    intro identity hmem
    have hpart := (sublist_flatten_of_mem
      (mem_map_of_mem (f := encodeIdentity) hmem)).length_le
    rw [encodeIdentity_length, ← flatMap_def] at hpart
    omega
  refine ⟨identitiesAnswer :: (encodeU32 identities.length ++
    identities.flatMap encodeIdentity), ?_, cons_ne_nil _ _, hlength, ?_⟩
  · rw [identitiesFrame, if_neg (Nat.not_lt.mpr hcount),
      encodeIdentities_eq hlength]
    rfl
  · exact parseIdentitiesResponse_eq (readU32_encodeU32 hcount32 _) hcount
      (readIdentities_encode hblobs hcomments)

/-- The blob and the comment of a record, as `identities_frame` reads them. -/
def written (record : AgentIdentityRecord Key) : Bytes × Str :=
  (record.blob, record.comment)

theorem encodedLength_eq (records : List (AgentIdentityRecord Key)) :
    encodedLength records =
      5 + ((records.map written).flatMap encodeIdentity).length := by
  induction records with
  | nil => rfl
  | cons record rest ih =>
    rw [encodedLength, map_cons, flatMap_cons, length_append,
      encodeIdentity_length, ih]
    simp only [written]
    omega

/-- What is collected has each blob once and is the longest part, within both
limits, of the first identities with each blob; `truncated` says that one was
left out; and the frame is written, accepted and read back. -/
theorem identities_complete (offered : List (AgentIdentityRecord Key))
    (hcomments : ∀ record ∈ offered, len record.comment ≤ maxAgentCommentLen) :
    let collected := offered.foldl IdentityCollector.push .new
    (collected.items.map (·.blob)).Nodup ∧ LongestWithin Fits collected.items
      (firsts (·.blob) [] offered) ∧ (collected.truncated = true ↔
        ∃ record ∈ offered, record.blob ∉ collected.items.map (·.blob)) ∧
      ∃ payload, identitiesFrame (collected.items.map written) =
          some (frame payload) ∧
        payload.length ≤ maxAgentFrameLen ∧
        (∀ rest, readFrame (frame payload ++ rest) =
          some (some (payload, rest))) ∧
        parseIdentitiesResponse payload =
          some (collected.items.map fun record =>
            ⟨record.blob, record.comment⟩) := by
  intro collected
  have hcollected := IdentityCollector.foldl_push
    IdentityCollector.keeps_new rfl offered
  have hlongest : LongestWithin Fits collected.items
      (firsts (·.blob) [] offered) := hcollected.longest
  have hnodup : ((firsts (·.blob) [] offered).map (·.blob)).Nodup :=
    keys_firsts_nodup [] offered
  have hsub := hlongest.isPrefix.sublist
  refine ⟨hnodup.sublist (hsub.map _), hlongest, hcollected.truncated_iff, ?_⟩
  have hitems : ∀ identity ∈ collected.items.map written,
      len identity.2 ≤ maxAgentCommentLen := by
    intro identity hmem
    obtain ⟨record, hrecord, rfl⟩ := mem_map.mp hmem
    exact hcomments record ((firsts_sublist [] offered).subset
      (hsub.subset hrecord))
  obtain ⟨hcount, hbytes⟩ := hlongest.admitted
  rw [encodedLength_eq] at hbytes
  have hcountWritten : (collected.items.map written).length ≤
      maxAgentIdentities := by
    rw [length_map]
    exact hcount
  obtain ⟨payload, hframe, hne, hlength, hparsed⟩ :=
    identitiesFrame_eq hcountWritten hbytes hitems
  refine ⟨payload, hframe, hlength, readFrame_frame hne hlength, ?_⟩
  rw [hparsed, map_map]
  rfl

/-- A key that two providers offer, and one key more. -/
def sharedOffer : List (AgentIdentityRecord Unit) :=
  [⟨[1, 2], "work".toList, [], .external 0⟩,
    ⟨[1, 2], "stored".toList, [], .stored () 0⟩,
    ⟨[3], "home".toList, [], .stored () 0⟩]

theorem sharedOffer_answered :
    ∃ payload,
      identitiesFrame [([1, 2], "work".toList), ([3], "home".toList)] =
          some (frame payload) ∧
        parseIdentitiesResponse payload =
          some [⟨[1, 2], "work".toList⟩, ⟨[3], "home".toList⟩] := by
  have hcomments : ∀ record ∈ sharedOffer,
      len record.comment ≤ maxAgentCommentLen := by decide
  obtain ⟨-, -, -, payload, hframe, -, -, hparsed⟩ :=
    identities_complete sharedOffer hcomments
  exact ⟨payload, hframe, hparsed⟩

end NiceTerm.Ssh.Agent
