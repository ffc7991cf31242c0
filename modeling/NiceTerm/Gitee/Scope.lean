/-
The path that a listing shows for a readable name is a path of that name.
-/
import NiceTerm.Gitee.Names

namespace NiceTerm.Gitee

open List Option RustStr

/-- What is trimmed from paths. -/
def blank (c : Char) : Bool := isWhitespace c || c == '/'

variable {c : Char}

theorem whitespace_of_not_blank (h : blank c = false) :
    isWhitespace c = false ∧ (c == '/') = false := by
  rwa [blank, Bool.or_eq_false_iff] at h

def strip (path : Str) : Str := trimMatches '/' (trim path)

/-- White space and then slashes are cut off in front. -/
theorem strip_parts (path : Str) : ∃ space slashes back,
    path = space ++ slashes ++ strip path ++ back ∧
      (∀ c ∈ space, isWhitespace c = true) ∧ (∀ c ∈ slashes, c = '/') ∧
      ∃ inner, trim path = slashes ++ inner ∧ strip path <+: inner := by
  obtain ⟨space, spaceBack, hpath, hspace, -⟩ :=
    trimBoth_eq isWhitespace path
  obtain ⟨slashes, slashesBack, htrim, hslashes, -⟩ :=
    trimBoth_eq (· == '/') (trim path)
  refine ⟨space, slashes, slashesBack ++ spaceBack, ?_, hspace,
    fun c hmem => beq_iff_eq.mp (hslashes c hmem), strip path ++ slashesBack,
    ?_, prefix_append _ _⟩
  · calc path = space ++ trim path ++ spaceBack := hpath
      _ = space ++ (slashes ++ strip path ++ slashesBack) ++ spaceBack :=
          congrArg (fun inner => space ++ inner ++ spaceBack) htrim
      _ = _ := by simp
  · rw [← append_assoc]
    exact htrim

variable {path sync filename : Str}

theorem head_strip (h : (strip path).head? = some c) : c ≠ '/' := by
  have hnot : (c == '/') = false := head_trimBoth (· == '/') h
  simpa using hnot

theorem head_trim (h : (trim path).head? = some c) : isWhitespace c = false :=
  head_trimBoth isWhitespace h

theorem strip_of_ends (hfirst : ∀ c, path.head? = some c → blank c = false)
    (hlast : ∀ c, path.getLast? = some c → blank c = false) :
    strip path = path := by
  have htrim : trim path = path := trimBoth_of_ends isWhitespace
    (fun c h => (whitespace_of_not_blank (hfirst c h)).1)
    (fun c h => (whitespace_of_not_blank (hlast c h)).1)
  rw [strip, htrim]
  exact trimBoth_of_ends (· == '/')
    (fun c h => (whitespace_of_not_blank (hfirst c h)).2)
    (fun c h => (whitespace_of_not_blank (hlast c h)).2)

/-- A blank prefix ends before the first character that is not blank. -/
theorem length_le_of_blank {run front : Str} (hrun : run <+: path)
    (hblank : ∀ b ∈ run, blank b = true) (hfront : front ++ [c] <+: path)
    (hc : blank c = false) : run.length ≤ front.length := by
  by_contra hlt
  have hlength : (front ++ [c]).length ≤ run.length := by
    rw [length_append, length_singleton]
    omega
  have hinner := prefix_of_prefix_length_le hfront hrun hlength
  have hmem : c ∈ run := hinner.subset (by simp)
  rw [hblank c hmem] at hc
  cases hc

theorem head_append_of_ne_nil {l back : Str} (h : l ≠ []) :
    (l ++ back).head? = l.head? := by
  cases l with
  | nil => exact absurd rfl h
  | cons c rest => rfl

theorem blank_of_parts {space slashes : Str}
    (hspace : ∀ c ∈ space, isWhitespace c = true)
    (hslashes : ∀ c ∈ slashes, c = '/') :
    ∀ c ∈ space ++ slashes, blank c = true := by
  intro c hmem
  rcases mem_append.mp hmem with hmem | hmem
  · rw [blank, hspace c hmem, Bool.true_or]
  · rw [blank, hslashes c hmem]
    decide

theorem slash_not_whitespace : isWhitespace '/' = false := by decide

/-- The prefix of a listing has blanks in front of the stripped path. -/
theorem listing_parts {scope : Str} (hne : strip scope ≠ []) :
    ∃ front back, trimStartMatches '/' scope = front ++ strip scope ++ back ∧
      ∀ c ∈ front, blank c = true := by
  obtain ⟨space, slashes, back, hscope, hspace, hslashes, -⟩ :=
    strip_parts scope
  cases space with
  | nil =>
    refine ⟨[], back, ?_, fun c hmem => by cases hmem⟩
    obtain ⟨c, rest, hstrip⟩ := exists_cons_of_ne_nil hne
    have hc : c ≠ '/' := head_strip (by rw [hstrip]; rfl)
    have hdrop : ∀ c ∈ slashes, (c == '/') = true :=
      fun c hmem => beq_iff_eq.mpr (hslashes c hmem)
    have hstop : (c == '/') = false := beq_eq_false_iff_ne.mpr hc
    have hcut : trimStartMatches '/' (slashes ++ (strip scope ++ back)) =
        strip scope ++ back := by
      rw [trimStartMatches, dropWhile_append_of_pos hdrop, hstrip,
        cons_append, dropWhile_cons, hstop]
      rfl
    rw [nil_append, ← hcut, ← append_assoc]
    exact congrArg (trimStartMatches '/') hscope
  | cons c rest =>
    refine ⟨c :: rest ++ slashes, back, ?_, blank_of_parts hspace hslashes⟩
    have hc : (c == '/') = false := by
      rw [beq_eq_false_iff_ne]
      rintro rfl
      have hwhite := hspace '/' mem_cons_self
      rw [slash_not_whitespace] at hwhite
      cases hwhite
    rw [← hscope, hscope, trimStartMatches]
    simp only [cons_append, dropWhile_cons, hc, Bool.false_eq_true, ↓reduceIte]

/-- What is stripped in front of a path that does not begin with a slash. -/
theorem base_parts {base : Str} (hhead : ∀ c, base.head? = some c → c ≠ '/')
    (hne : strip base ≠ []) :
    ∃ front back, base = front ++ strip base ++ back ∧
      (∀ c ∈ front, blank c = true) ∧
      (front = [] → ∀ c, (strip base).head? = some c → blank c = false) ∧
      ((∀ c ∈ strip base, blank c = true) → 2 ≤ front.length) := by
  obtain ⟨space, slashes, back, hbase, hspace, hslashes, inner, htrim,
    hinner⟩ := strip_parts base
  obtain ⟨c, rest, hstrip⟩ := exists_cons_of_ne_nil hne
  have hslash : c ≠ '/' := head_strip (by rw [hstrip]; rfl)
  have hinnerHead : inner.head? = some c := by
    obtain ⟨more, rfl⟩ := hinner
    rw [hstrip]
    rfl
  have hwhite : slashes = [] → isWhitespace c = false := by
    rintro rfl
    rw [nil_append] at htrim
    exact head_trim (htrim ▸ hinnerHead)
  refine ⟨space ++ slashes, back, hbase, blank_of_parts hspace hslashes,
    fun hfront d hd => ?_, fun hblank => ?_⟩
  · rw [hstrip] at hd
    obtain rfl := some.inj hd
    have hnone := (append_eq_nil_iff.mp hfront).2
    rw [blank, hwhite hnone, Bool.false_or, beq_eq_false_iff_ne]
    exact hslash
  · have hc := hblank c (by rw [hstrip]; exact mem_cons_self)
    have hslashes' : slashes ≠ [] := by
      intro hnil
      rw [blank, hwhite hnil, Bool.false_or, beq_iff_eq] at hc
      exact hslash hc
    have hspace' : space ≠ [] := by
      rintro rfl
      obtain ⟨d, others, rfl⟩ := exists_cons_of_ne_nil hslashes'
      exact hhead d (by rw [hbase]; rfl) (hslashes d mem_cons_self)
    have hone := length_pos_iff.mpr hslashes'
    have htwo := length_pos_iff.mpr hspace'
    rw [length_append]
    omega

/-- If the listed path has the prefix of the listing, nothing is stripped in
front of the part that stands in front of the sync directory. -/
theorem root_of_prefix {scope base : Str} (hbase : base <+: strip scope)
    (hroot : strip base ≠ [])
    (hunder : trimStartMatches '/' scope <+: strip base ++ '/' :: 's' :: sync) :
    strip base <+: strip scope ∧
      ∀ c, (strip base).head? = some c → blank c = false := by
  obtain ⟨more, hmore⟩ := hbase
  have hbaseNe : base ≠ [] := by
    rintro rfl
    exact hroot rfl
  have hscopeNe : strip scope ≠ [] := by
    rw [← hmore]
    exact append_ne_nil_of_left_ne_nil hbaseNe more
  have hhead : ∀ c, base.head? = some c → c ≠ '/' := by
    intro c hc
    have hscope : (strip scope).head? = some c := by
      rw [← hmore, head_append_of_ne_nil hbaseNe, hc]
    exact head_strip hscope
  obtain ⟨front, back, hlisting, hfront⟩ := listing_parts hscopeNe
  obtain ⟨baseFront, baseBack, hparts, hbaseFront, hnotBlank, htwo⟩ :=
    base_parts hhead hroot
  -- The blanks in front of the root, as the listing path has them.
  have hrun : front ++ baseFront ++ strip base <+:
      strip base ++ '/' :: 's' :: sync := by
    refine IsPrefix.trans ⟨baseBack ++ more ++ back, ?_⟩ hunder
    rw [hlisting, ← hmore]
    conv_rhs => rw [hparts]
    simp
  have hblankFront : ∀ c ∈ front ++ baseFront, blank c = true := by
    intro c hmem
    rcases mem_append.mp hmem with hmem | hmem
    · exact hfront c hmem
    · exact hbaseFront c hmem
  have hnil : front ++ baseFront = [] := by
    by_cases hall : ∀ c ∈ strip base, blank c = true
    · have hblank : ∀ c ∈ front ++ baseFront ++ strip base,
          blank c = true := by
        intro c hmem
        rcases mem_append.mp hmem with hmem | hmem
        · exact hblankFront c hmem
        · exact hall c hmem
      have hsync : strip base ++ ['/'] ++ ['s'] <+:
          strip base ++ '/' :: 's' :: sync := ⟨sync, by simp⟩
      have hle := length_le_of_blank hrun hblank hsync (by decide)
      simp only [length_append, length_singleton] at hle
      have hlong := htwo hall
      omega
    · obtain ⟨d, hd, hdark⟩ : ∃ d ∈ strip base, ¬ blank d = true := by
        simpa using hall
      obtain ⟨first, c, last, hsplit, hfirst, hc⟩ :
          ∃ first c last, strip base = first ++ c :: last ∧
            (∀ b ∈ first, blank b = true) ∧ blank c = false := by
        refine ⟨(strip base).takeWhile blank, ?_⟩
        cases hdrop : (strip base).dropWhile blank with
        | nil =>
          have hnone := dropWhile_eq_nil_iff.mp hdrop d hd
          exact absurd hnone hdark
        | cons c last =>
          refine ⟨c, last, ?_, fun b hmem => mem_takeWhile_imp hmem, ?_⟩
          · rw [← hdrop, takeWhile_append_dropWhile]
          · have hnot := head?_dropWhile_not blank (strip base)
            rw [hdrop] at hnot
            simpa using hnot
      have hblank : ∀ b ∈ front ++ baseFront ++ first, blank b = true := by
        intro b hmem
        rcases mem_append.mp hmem with hmem | hmem
        · exact hblankFront b hmem
        · exact hfirst b hmem
      have hstart : front ++ baseFront ++ first <+:
          strip base ++ '/' :: 's' :: sync :=
        IsPrefix.trans ⟨c :: last, by rw [hsplit]; simp⟩ hrun
      have hdarkPrefix : first ++ [c] <+: strip base ++ '/' :: 's' :: sync :=
        ⟨last ++ '/' :: 's' :: sync, by rw [hsplit]; simp⟩
      have hle := length_le_of_blank hstart hblank hdarkPrefix hc
      rw [length_append] at hle
      exact length_eq_zero_iff.mp (by omega)
  obtain ⟨-, rfl⟩ := append_eq_nil_iff.mp hnil
  refine ⟨⟨baseBack ++ more, ?_⟩, hnotBlank rfl⟩
  rw [← hmore]
  conv_rhs => rw [hparts]
  simp

theorem SyncName.front (h : SyncName filename sync) :
    "sync/".toList <+: sync := by
  cases h with
  | latest => decide
  | current => decide
  | snapshot => decide
  | @revision revision hplain =>
    rw [append_assoc]
    exact IsPrefix.trans (by decide) (prefix_append _ _)

theorem blank_of_last {text : Str} {last : Char} (hlast : blank last = false)
    (hend : text.getLast? = some last) :
    ∀ c, text.getLast? = some c → blank c = false := by
  intro c hc
  rw [hend, some.injEq] at hc
  rw [← hc, hlast]

theorem SyncName.last (h : SyncName filename sync) :
    ∀ c, sync.getLast? = some c → blank c = false := by
  have hdark : blank 'c' = false := by decide
  cases h with
  | latest =>
    have hdark : blank 'b' = false := by decide
    exact blank_of_last hdark (by decide)
  | current => exact blank_of_last hdark (by decide)
  | snapshot => exact blank_of_last hdark (by decide)
  | @revision revision hplain =>
    have hend : syncSnapshotFileSuffix.getLast? = some 'c' := by decide
    apply blank_of_last hdark
    rw [getLast?_append, hend, some_or]

theorem syncPath_self (h : SyncName filename sync) :
    giteeSyncPath sync = some sync := by
  have hstrip : strip sync = sync := by
    refine strip_of_ends (fun c hc => ?_) h.last
    obtain ⟨rest, rfl⟩ := h.front
    obtain rfl := some.inj hc
    decide
  rw [strip] at hstrip
  rw [giteeSyncPath, hstrip]
  refine if_pos ?_
  cases h with
  | latest => exact .inl rfl
  | current => exact .inr (.inl rfl)
  | snapshot => exact .inr (.inr (.inl rfl))
  | @revision revision hplain =>
    refine .inr (.inr (.inr (List.isPrefixOf_iff_prefix.mpr ?_)))
    rw [append_assoc]
    exact prefix_append _ _

theorem slash_split {front back other rest : Str} (hback : '/' ∉ back)
    (hrest : '/' ∉ rest) (h : front ++ '/' :: back = other ++ '/' :: rest) :
    front = other ∧ back = rest := by
  have hboth := congrArg (rsplitOnce '/') h
  rw [rsplitOnce_append front hback, rsplitOnce_append other hrest] at hboth
  exact Prod.mk.inj (some.inj hboth)

/-- The sync directory is below `root`, which is not in a sync directory. -/
structure Below (root sync path : Str) : Prop where
  eq : path = root ++ '/' :: sync
  head : ∀ c, root.head? = some c → blank c = false
  outside : ¬ "sync/".toList <+: root
  nonempty : root ≠ []

theorem Below.not_prefix {root front : Str}
    (h : Below root sync path) (hname : SyncName filename sync)
    (hfront : ¬ front <+: "sync/".toList) (hsync : ¬ "sync/".toList <+: front) :
    ¬ "sync/".toList ++ front <+: path := by
  intro hunder
  have hstart : "sync/".toList <+: path :=
    IsPrefix.trans (prefix_append _ _) hunder
  have hroot : root ++ ['/'] <+: path := ⟨sync, by rw [h.eq]; simp⟩
  have hsyncRoot : root ++ ['/'] = "sync/".toList := by
    rcases prefix_or_prefix_of_prefix hroot hstart with hle | hle
    · have hall : ∀ l ∈ "sync/".toList.inits, l.getLast? = some '/' →
          l = "sync/".toList := by decide
      exact hall _ ((mem_inits _ _).mpr hle) (by simp)
    · by_contra hne
      apply h.outside
      rcases (prefix_concat_iff).mp hle with heq | hle
      · exact absurd heq.symm hne
      · exact hle
  have hrest : front <+: sync := by
    have heq : path = "sync/".toList ++ sync := by
      rw [h.eq, ← hsyncRoot]
      simp
    rw [heq, prefix_append_right_inj] at hunder
    exact hunder
  rcases prefix_or_prefix_of_prefix hrest hname.front with hle | hle
  · exact hfront hle
  · exact hsync hle

theorem Below.strip_eq {root : Str} (h : Below root sync path)
    (hname : SyncName filename sync) : strip path = path := by
  refine strip_of_ends (fun c hc => ?_) (fun c hc => ?_)
  · rw [h.eq, head_append_of_ne_nil h.nonempty] at hc
    exact h.head c hc
  · obtain ⟨rest, hrest⟩ := hname.front
    have hsplit : path = root ++ ['/'] ++ sync := by
      rw [h.eq]
      simp
    rw [hsplit, getLast?_append] at hc
    have hsome : ∃ d, sync.getLast? = some d := by
      cases hlast : sync.getLast? with
      | some d => exact ⟨d, rfl⟩
      | none =>
        rw [getLast?_eq_none_iff] at hlast
        rw [hlast] at hrest
        cases hrest
    obtain ⟨d, hd⟩ := hsome
    rw [hd, some_or, some.injEq] at hc
    exact hc ▸ hname.last d hd

theorem endsInDirectory_iff {file : Str} :
    endsInDirectory path file = true ↔
      ∃ front, path = front ++ '/' :: file := by
  rw [endsInDirectory]
  constructor
  · intro h
    cases hdrop : path.dropSuffix? file with
    | none => simp [hdrop] at h
    | some front =>
      rw [hdrop] at h
      obtain ⟨outer, rfl⟩ := isSuffixOf_iff_suffix.mp h
      exact ⟨outer, by rw [Search.dropSuffix?_eq_some.mp hdrop]; simp⟩
  · rintro ⟨front, rfl⟩
    have hdrop : (front ++ '/' :: file).dropSuffix? file =
        some (front ++ ['/']) :=
      Search.dropSuffix?_eq_some.mpr (by simp)
    rw [hdrop]
    exact isSuffixOf_iff_suffix.mpr (suffix_append _ _)

/-- A path with one file name does not end in `sync` and another file name,
nor with the same file name if it is in another directory. -/
theorem not_endsInDirectory {front name file : Str}
    (hpath : path = front ++ '/' :: name) (hname : '/' ∉ name)
    (hfile : '/' ∉ file) (hother : name = file → ¬ "sync".toList <:+ front) :
    ¬ endsInDirectory path ("sync/".toList ++ file) = true := by
  rw [endsInDirectory_iff]
  rintro ⟨outer, houter⟩
  have heq : front ++ '/' :: name =
      (outer ++ '/' :: "sync".toList) ++ '/' :: file := by
    rw [← hpath, houter]
    simp
  obtain ⟨hfront, hsame⟩ := slash_split hname hfile heq
  apply hother hsame
  exact ⟨outer ++ ['/'], by rw [hfront]; simp⟩

theorem Below.syncPath {root : Str} (h : Below root sync path)
    (hname : SyncName filename sync) : giteeSyncPath path = some sync := by
  have hnormal : trimMatches '/' (trim path) = path := h.strip_eq hname
  have hnot : ∀ front, ¬ front <+: "sync/".toList →
      ¬ "sync/".toList <+: front → ¬ "sync/".toList ++ front <+: path :=
    fun front => h.not_prefix hname
  have hhere : ¬ (path = syncLatestFile ∨ path = syncCurrentFile ∨
      path = syncSnapshotFile ∨ syncSnapshotsDir.isPrefixOf path = true) := by
    rintro (rfl | rfl | rfl | hunder)
    · exact hnot "latest.redb".toList (by decide) (by decide) (by decide)
    · exact hnot "current.redb.enc".toList (by decide) (by decide) (by decide)
    · exact hnot "niceterm-snapshot.redb.enc".toList (by decide) (by decide)
        (by decide)
    · exact hnot "snapshots/".toList (by decide) (by decide)
        (List.isPrefixOf_iff_prefix.mp hunder)
  have hends : endsInDirectory path sync = true :=
    endsInDirectory_iff.mpr ⟨root, h.eq⟩
  rw [giteeSyncPath, hnormal, if_neg hhere]
  have hlatest : syncLatestFile = "sync/".toList ++ "latest.redb".toList := by
    decide
  have hcurrent : syncCurrentFile =
      "sync/".toList ++ "current.redb.enc".toList := by decide
  have hsnapshot : syncSnapshotFile =
      "sync/".toList ++ "niceterm-snapshot.redb.enc".toList := by decide
  cases hname with
  | latest => rw [if_pos hends]
  | current =>
    have hpath : path = (root ++ '/' :: "sync".toList) ++
        '/' :: "current.redb.enc".toList := by
      rw [h.eq, hcurrent]
      simp
    rw [if_neg, if_pos hends]
    rw [hlatest]
    exact not_endsInDirectory hpath (by decide) (by decide)
      (fun heq => absurd heq (by decide))
  | snapshot =>
    have hpath : path = (root ++ '/' :: "sync".toList) ++
        '/' :: "niceterm-snapshot.redb.enc".toList := by
      rw [h.eq, hsnapshot]
      simp
    rw [if_neg, if_neg, if_pos (.inl hends)]
    · rw [hcurrent]
      exact not_endsInDirectory hpath (by decide) (by decide)
        (fun heq => absurd heq (by decide))
    · rw [hlatest]
      exact not_endsInDirectory hpath (by decide) (by decide)
        (fun heq => absurd heq (by decide))
  | @revision revision hplain =>
    obtain ⟨-, hslash, -⟩ := plainRevision_iff.mp hplain
    have hfile : '/' ∉ revision ++ syncSnapshotFileSuffix := by
      rw [mem_append, not_or]
      exact ⟨hslash, by decide⟩
    have hdir : ¬ "sync".toList <:+ root ++ "/sync/snapshots".toList := by
      intro hsuffix
      have hboth := suffix_of_suffix_length_le hsuffix
        (suffix_append root "/sync/snapshots".toList) (by decide)
      exact absurd hboth (by decide)
    have hsync : syncSnapshotsDir ++ revision ++ syncSnapshotFileSuffix =
        "sync/snapshots".toList ++
          '/' :: (revision ++ syncSnapshotFileSuffix) := by
      have hdirEq : syncSnapshotsDir = "sync/snapshots".toList ++ ['/'] := by
        decide
      rw [hdirEq]
      simp
    have hpath : path = (root ++ "/sync/snapshots".toList) ++
        '/' :: (revision ++ syncSnapshotFileSuffix) := by
      have hslashDir : "/sync/snapshots".toList =
          '/' :: "sync/snapshots".toList := by decide
      rw [h.eq, hsync, hslashDir]
      simp
    have hnone : ∀ file, '/' ∉ file →
        ¬ endsInDirectory path ("sync/".toList ++ file) = true :=
      fun file hplainFile =>
        not_endsInDirectory hpath hfile hplainFile fun _ => hdir
    -- The directory occurs once, since the rest has too few slashes.
    have honce : ¬ ('/' :: syncSnapshotsDir) <:+:
        syncSnapshotsDir ++ (revision ++ syncSnapshotFileSuffix) := by
      intro hinfix
      have hcount := hinfix.sublist.count_le '/'
      rw [count_append, count_eq_zero_of_not_mem hfile] at hcount
      exact absurd hcount (by decide)
    have hfound : rfind ('/' :: syncSnapshotsDir) path = some root.length := by
      have hwhole : path = root ++ ('/' :: syncSnapshotsDir) ++
          (revision ++ syncSnapshotFileSuffix) := by
        rw [h.eq]
        simp
      rw [hwhole]
      exact rfind_append root _ honce
    rw [if_neg, if_neg, if_neg, hfound, map_some, h.eq]
    · simp
    · rintro (hsuffix | hwhole)
      · exact hnone "niceterm-snapshot.redb.enc".toList (by decide)
          (hsnapshot ▸ hsuffix)
      · have heq := Search.dropSuffix?_eq_some.mp hwhole
        exact hhere (.inr (.inr (.inl heq)))
    · exact fun hsuffix => hnone "current.redb.enc".toList (by decide)
        (hcurrent ▸ hsuffix)
    · exact fun hsuffix => hnone "latest.redb".toList (by decide)
        (hlatest ▸ hsuffix)

theorem syncName_child (h : SyncName filename sync) :
    trimStartMatches '/' (trim sync) = sync := by
  obtain ⟨rest, hrest⟩ := h.front
  have htrim : trim sync = sync := by
    refine trimBoth_of_ends isWhitespace (fun c hc => ?_) fun c hc =>
      (whitespace_of_not_blank (h.last c hc)).1
    rw [← hrest] at hc
    obtain rfl := some.inj hc
    decide
  rw [htrim, ← hrest]
  rfl

/-- A listing in a sync directory shows the path itself, every other one a
path below the part in front of the sync directory. -/
theorem scoped_cases (scope sync : Str) :
    giteeScopedRemotePath scope sync = sync ∨
      ¬ "sync/".toList <+: strip scope ∧ ∃ base, base <+: strip scope ∧
        giteeScopedRemotePath scope sync = remotePath base sync := by
  rw [giteeScopedRemotePath]
  by_cases hhere : (trimMatches '/' (trim scope)).isEmpty = true ∨
      trimMatches '/' (trim scope) = "sync".toList ∨
      "sync/".toList.isPrefixOf (trimMatches '/' (trim scope)) = true
  · exact .inl (if_pos hhere)
  · refine .inr ⟨fun hsyncDir => hhere (.inr (.inr
      (List.isPrefixOf_iff_prefix.mpr hsyncDir))), ?_⟩
    rw [if_neg hhere]
    cases rfind "/sync".toList (trimMatches '/' (trim scope)) with
    | none => exact ⟨_, prefix_refl _, rfl⟩
    | some index =>
      dsimp only
      split
      · exact ⟨_, take_prefix _ _, rfl⟩
      · exact ⟨_, prefix_refl _, rfl⟩

/-- What a listing shows for a readable name, if it is below the path of the
listing, is a path of that name. -/
theorem semanticFilename_scoped {scope : Str} (h : SyncName filename sync)
    (hunder : trimStartMatches '/' scope <+: giteeScopedRemotePath scope sync) :
    giteeSemanticRemoteFilename (giteeScopedRemotePath scope sync) =
      some filename := by
  rw [semanticFilename_eq_some]
  refine ⟨sync, ?_, h⟩
  have hbelow : ∀ base, base <+: strip scope →
      ¬ "sync/".toList <+: strip scope →
      trimStartMatches '/' scope <+: remotePath base sync →
      giteeSyncPath (remotePath base sync) = some sync := by
    intro base hbase houtside hlisted
    obtain ⟨rest, hrest⟩ := h.front
    have hsync : sync ≠ [] := by
      rw [← hrest]
      exact append_ne_nil_of_left_ne_nil (by decide) rest
    have hempty : sync.isEmpty = false := by simpa using hsync
    rw [remotePath, syncName_child h] at hlisted ⊢
    by_cases hroot : strip base = []
    · rw [strip] at hroot
      simp only [hroot, isEmpty_nil, ↓reduceIte]
      exact syncPath_self h
    · have hrootEmpty : (trimMatches '/' (trim base)).isEmpty = false := by
        simpa [strip] using hroot
      simp only [hrootEmpty, hempty, Bool.false_eq_true, ↓reduceIte]
        at hlisted ⊢
      have hlist : trimStartMatches '/' scope <+:
          strip base ++ '/' :: 's' :: ("ync/".toList ++ rest) := by
        have hcons : sync = 's' :: ("ync/".toList ++ rest) := hrest.symm
        rw [← hcons]
        simpa [strip] using hlisted
      obtain ⟨hinside, hhead⟩ := root_of_prefix hbase hroot hlist
      exact Below.syncPath
        { eq := by simp [strip]
          head := hhead
          outside := fun hsyncDir => houtside (hsyncDir.trans hinside)
          nonempty := hroot } h
  rcases scoped_cases scope sync with heq | ⟨houtside, base, hbase, heq⟩
  · rw [heq]
    exact syncPath_self h
  · rw [heq] at hunder ⊢
    exact hbelow base hbase houtside hunder

end NiceTerm.Gitee
