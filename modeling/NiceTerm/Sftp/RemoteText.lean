/-
Reading and saving a remote file as text over SCP.  Every step is a command on
the remote side; what it prints, and how it ends, decides what the file is
taken for.
-/
import NiceTerm.Lib.RustSplit
import NiceTerm.Lib.Utf8

namespace NiceTerm.Sftp.RemoteText

open RustStr (Str)

abbrev Bytes := List UInt8

inductive AppError
  | channel (message : Str)
  | config (message : Str)
deriving DecidableEq, Repr

/-- The two SCP backends; the second one is for systems without `stat`. -/
inductive Backend
  | enhanced
  | normal
deriving DecidableEq, Repr

/-- What a path names: a file, or a link to one with the text of the link.
`isDir` is what the path leads to. -/
structure RemotePath where
  link : Option (Bytes × Nat)
  isDir : Bool
  content : Bytes
  mtime : Nat
deriving DecidableEq, Repr

/-- How a command ends: with all of its output, with a part of it and an exit
status that is no success, or not at all. -/
inductive Run
  | completes
  | fails (delivered : Nat) (code : Option Nat) (stderr : Bytes)
      (h : code ≠ some 0)
  | broken (error : AppError)

structure ExecResult where
  stdout : Bytes
  stderr : Bytes
  exitCode : Option Nat

/-- A command with its whole output. -/
def exec (run : Run) (output : Bytes) : Except AppError ExecResult :=
  match run with
  | .completes => .ok ⟨output, [], some 0⟩
  | .fails delivered code stderr _ =>
    .ok ⟨output.take delivered, stderr, code⟩
  | .broken error => .error error

/-- What a command wrote as an error. -/
def errorText (result : ExecResult) : Str :=
  RustStr.trim (Utf8.decodeLossy result.stderr)

/-- The error of a command that has ended without success. -/
def exitError (intro : Str) (result : ExecResult) : AppError :=
  .channel (intro ++ " (exit ".toList ++ RustStr.decimal
    (result.exitCode.getD 255) ++ "): ".toList ++ errorText result)

def failedCommand : Backend → Str
  | .enhanced => "Remote command failed".toList
  | .normal => "Command failed".toList

def execOk (backend : Backend) (run : Run) (output : Bytes) :
    Except AppError Bytes :=
  match exec run output with
  | .error error => .error error
  | .ok result =>
    if result.exitCode = some 0 then .ok result.stdout
    else .error (exitError (failedCommand backend) result)

/-- What the text functions read of `FileProperties`. -/
structure FileProperties where
  isDir : Bool
  size : Nat
  mtime : Nat
deriving DecidableEq, Repr

/-- Both `stat` and `ls -d` describe a link itself, apart from `test -d`; `ls`
has no time that is parsed. -/
def propertiesOf (backend : Backend) (path : RemotePath) : FileProperties where
  isDir := path.isDir
  size :=
    match path.link with
    | some (text, _) => text.length
    | none => path.content.length
  mtime :=
    match backend, path.link with
    | .enhanced, some (_, linkMtime) => linkMtime
    | .enhanced, none => path.mtime
    | .normal, _ => 0

def stat (backend : Backend) (run : Run) (path : RemotePath) :
    Except AppError FileProperties :=
  match execOk backend run [] with
  | .error error => .error error
  | .ok _ => .ok (propertiesOf backend path)

/-- `dd` of the normal backend: its exit status counts only when nothing was
printed. -/
def printed (run : Run) (output : Bytes) : Except AppError Bytes :=
  match exec run output with
  | .error error => .error error
  | .ok result =>
    if result.exitCode ≠ some 0 && result.stdout.isEmpty then
      .error (.channel ("Failed to read file: ".toList ++ errorText result))
    else .ok result.stdout

/-- `head -c` or `dd bs=1 count=`. -/
def readBytes (backend : Backend) (run : Run) (count : Nat)
    (path : RemotePath) : Except AppError Bytes :=
  match backend with
  | .enhanced => execOk backend run (path.content.take count)
  | .normal => printed run (path.content.take count)

def tooLarge (intro : String) (size maxBytes : Nat) : AppError :=
  .config (intro.toList ++ " (".toList ++ RustStr.decimal size ++
    " bytes > ".toList ++ RustStr.decimal maxBytes ++ " bytes)".toList)

def ensureTextBytes (bytes : Bytes) (maxBytes : Nat) : Except AppError Unit :=
  if maxBytes < bytes.length then
    .error (tooLarge "File is too large to open as text" bytes.length maxBytes)
  else if bytes.contains 0 then
    .error (.config
      "Binary files are not supported by the built-in editor".toList)
  else .ok ()

structure RemoteTextFile where
  content : Str
  size : Nat
  mtime : Nat
  contentHash : Str
deriving DecidableEq, Repr

structure RemoteBinaryFile where
  contentBytes : Bytes
  size : Nat
  mtime : Nat
deriving DecidableEq, Repr

/-- How the commands of one call end. -/
structure Runs where
  stat : Run
  read : Run
  write : Run
  /-- whether the file was replaced although the command did not succeed -/
  replaced : Bool
  statAfter : Run
  now : Nat

variable (contentHash : Bytes → Str)

/-- The bytes that were read, as text. -/
def textFile (props : FileProperties) (maxBytes : Nat) (output : Bytes) :
    Except AppError RemoteTextFile :=
  match ensureTextBytes output maxBytes with
  | .error error => .error error
  | .ok _ =>
    match RustStr.fromUtf8 output with
    | none => .error (.config "Only UTF-8 text files are supported".toList)
    | some content =>
      .ok ⟨content, props.size, props.mtime, contentHash output⟩

variable (backend : Backend) (runs : Runs)

def readFileText (maxBytes : Nat)
    (path : RemotePath) : Except AppError RemoteTextFile :=
  match stat backend runs.stat path with
  | .error error => .error error
  | .ok props =>
    if props.isDir then
      .error (.config "Directories cannot be opened as text".toList)
    else if maxBytes < props.size then
      .error (tooLarge "File is too large to open as text" props.size maxBytes)
    else
      match readBytes backend runs.read maxBytes path with
      | .error error => .error error
      | .ok output => textFile contentHash props maxBytes output

def readFileBytes (maxBytes : Nat)
    (path : RemotePath) : Except AppError RemoteBinaryFile :=
  match stat backend runs.stat path with
  | .error error => .error error
  | .ok props =>
    if props.isDir then
      .error (.config "Directories cannot be previewed".toList)
    else if maxBytes < props.size then
      .error (tooLarge "File is too large to preview" props.size maxBytes)
    else
      match readBytes backend runs.read props.size path with
      | .error error => .error error
      | .ok bytes => .ok ⟨bytes, props.size, props.mtime⟩

inductive WriteResult
  | saved (mtime size : Nat) (contentHash : Str)
  | conflict (mtime size : Nat)
deriving DecidableEq, Repr

variable (path : RemotePath)

/-- The temporary file is moved over the path: a link is replaced, not what it
leads to. -/
def replace (content : Bytes) (now : Nat) : RemotePath :=
  { path with link := none, content := content, mtime := now }

/-- The new content is written, and described once more. -/
def save (content : Str) : Except AppError WriteResult × RemotePath :=
  let bytes := RustStr.utf8 content
  let after := replace path bytes runs.now
  match exec runs.write [] with
  | .error error => (.error error, if runs.replaced then after else path)
  | .ok result =>
    if result.exitCode ≠ some 0 then
      (.error (exitError "Failed to write remote file".toList result),
        if runs.replaced then after else path)
    else
      match stat backend runs.statAfter after with
      | .error error => (.error error, after)
      | .ok props =>
        (.ok (.saved props.mtime props.size (contentHash bytes)), after)

variable (props : FileProperties)

/-- The time is checked, unless the normal backend does not know it. -/
def mtimeDiffers :
    Option Nat → Bool
  | some mtime =>
    match backend with
    | .enhanced => mtime ≠ props.mtime
    | .normal => props.mtime ≠ 0 && mtime ≠ props.mtime
  | none => false

def sizeDiffers : Option Nat → Bool
  | some size => size ≠ props.size
  | none => false

/-- What is read again must have the hash that is expected. -/
def checkHash (expectedHash : Str) : Except AppError (Option WriteResult) :=
  match readBytes backend runs.read props.size path with
  | .error error => .error error
  | .ok current =>
    if contentHash current ≠ expectedHash then
      .ok (some (.conflict props.mtime props.size))
    else .ok none

def writeFileText (content : Str) (expectedMtime expectedSize : Option Nat)
    (expectedHash : Option Str) (force : Bool) :
    Except AppError WriteResult × RemotePath :=
  match stat backend runs.stat path with
  | .error error => (.error error, path)
  | .ok props =>
    if !force && (mtimeDiffers backend props expectedMtime ||
        sizeDiffers props expectedSize) then
      (.ok (.conflict props.mtime props.size), path)
    else if force then save contentHash backend runs path content
    else
      match expectedHash with
      | none => save contentHash backend runs path content
      | some expectedHash =>
        match checkHash contentHash backend runs path props expectedHash with
        | .error error => (.error error, path)
        | .ok (some conflict) => (.ok conflict, path)
        | .ok none => save contentHash backend runs path content

end NiceTerm.Sftp.RemoteText

/-! When editing a remote file over SCP reads all of it, saves it unless it
has changed, and never takes a part of it for the whole. -/

namespace NiceTerm.Sftp.RemoteText

open List
open RustStr (Str)

/-- Every command of a save succeeds. -/
structure Runs.Complete (runs : Runs) : Prop where
  stat : runs.stat = .completes
  read : runs.read = .completes
  write : runs.write = .completes
  statAfter : runs.statAfter = .completes

variable (contentHash : Bytes → Str)

/-- A save of what was read, with what the reading told. -/
def saveRead (backend : Backend) (runs : Runs) (path : RemotePath)
    (content : Str) (file : RemoteTextFile) :
    Except AppError WriteResult × RemotePath :=
  writeFileText contentHash backend runs path content (some file.mtime)
    (some file.size) (some file.contentHash) false

/-- What editing a file is to be, however the commands end. -/
structure EditsSafely (backend : Backend) (maxBytes : Nat)
    (path : RemotePath) : Prop where
  reads : ∀ runs file, readFileText contentHash backend runs maxBytes path =
    .ok file → RustStr.utf8 file.content = path.content
  saves : ∀ runs file, readFileText contentHash backend runs maxBytes path =
    .ok file → ∀ runs' content written,
      (saveRead contentHash backend runs' path content file).1 = .ok written →
      (∃ mtime size hash, written = .saved mtime size hash) ∧
        (saveRead contentHash backend runs' path content file).2 =
          { path with content := RustStr.utf8 content, mtime := runs'.now }
  succeeds : ∀ runs file, readFileText contentHash backend runs maxBytes path =
    .ok file → ∀ runs' content, runs'.Complete →
      ∃ written,
        (saveRead contentHash backend runs' path content file).1 = .ok written
  conflicts : ∀ runs file, readFileText contentHash backend runs maxBytes path
    = .ok file → ∀ changed mtime, changed ≠ path.content → ∀ runs' content,
      let result := saveRead contentHash backend runs'
        { path with content := changed, mtime := mtime } content file
      result.2 = { path with content := changed, mtime := mtime } ∧
        (∀ written, result.1 = .ok written →
          ∃ mtime size, written = .conflict mtime size) ∧
        (runs'.Complete → ∃ mtime size, result.1 = .ok (.conflict mtime size))
  bytes : ∀ runs file, readFileBytes backend runs maxBytes path = .ok file →
    file.contentBytes <+: path.content → file.contentBytes = path.content

/-- The normal backend cannot get a part of the content only. -/
def Uncut (backend : Backend) (content : Bytes) : Prop :=
  backend = .normal → content.length ≤ 1

/-- The files that are edited safely. -/
def Safe (backend : Backend) (maxBytes : Nat) (path : RemotePath) : Prop :=
  match path.link with
  | none => Uncut backend path.content
  | some (text, _) =>
    maxBytes < text.length ∨
      (0 ∈ path.content ∧ path.content.length ≤ text.length ∧
        Uncut backend path.content)

/-! What the commands give. -/

variable {run : Run} {bytes : Bytes}

theorem execOk_ok {backend : Backend} {output : Bytes}
    (h : execOk backend run output = .ok bytes) : bytes = output := by
  cases run with
  | completes => exact (Except.ok.inj h).symm
  | broken error => exact absurd h (by simp [execOk, exec])
  | fails delivered code stderr hcode =>
    rw [execOk, exec] at h
    simp only [if_neg hcode] at h
    exact absurd h (by simp)

variable {props : FileProperties}

theorem stat_ok {backend : Backend} {path : RemotePath}
    (h : stat backend run path = .ok props) :
    props = propertiesOf backend path := by
  rw [stat] at h
  split at h
  next => exact absurd h (by simp)
  next => exact (Except.ok.inj h).symm

/-- What is printed is all of the output, when there is no part of it. -/
theorem printed_ok {output : Bytes} (hshort : output.length ≤ 1)
    (h : printed run output = .ok bytes) : bytes = output := by
  cases run with
  | completes => exact (Except.ok.inj h).symm
  | broken error => exact absurd h (by simp [printed, exec])
  | fails delivered code stderr hcode =>
    rw [printed, exec] at h
    simp only [hcode, ne_eq, not_false_eq_true, decide_true,
      Bool.true_and, List.isEmpty_iff] at h
    split at h
    next => exact absurd h (by simp)
    next hprinted =>
      obtain rfl := Except.ok.inj h
      cases delivered with
      | zero => exact absurd take_zero hprinted
      | succ n => exact take_of_length_le (by omega)

/-- What is read is the beginning that was asked for, if it cannot be cut. -/
theorem readBytes_ok {backend : Backend} {count : Nat} {path : RemotePath}
    (huncut : Uncut backend (path.content.take count))
    (h : readBytes backend run count path = .ok bytes) :
    bytes = path.content.take count := by
  cases backend with
  | enhanced => exact execOk_ok h
  | normal => exact printed_ok (huncut rfl) h

theorem readBytes_completes (backend : Backend) (count : Nat)
    (path : RemotePath) :
    readBytes backend .completes count path =
      .ok (path.content.take count) := by
  cases backend <;> rfl

/-- `dd` that fails after one byte. -/
theorem printed_cut (first : UInt8) (rest : Bytes) :
    printed (.fails 1 none [] (by simp)) (first :: rest) = .ok [first] :=
  rfl

/-! What the functions give. -/

variable {file : RemoteTextFile}

theorem textFile_ok {maxBytes : Nat} {output : Bytes}
    (h : textFile contentHash props maxBytes output = .ok file) :
    0 ∉ output ∧ RustStr.fromUtf8 output = some file.content ∧
      file.size = props.size ∧ file.mtime = props.mtime ∧
      file.contentHash = contentHash output := by
  rw [textFile, ensureTextBytes] at h
  by_cases hlarge : maxBytes < output.length
  · rw [if_pos hlarge] at h
    exact absurd h (by simp)
  · by_cases hbinary : output.contains 0 = true
    · rw [if_neg hlarge, if_pos hbinary] at h
      exact absurd h (by simp)
    · rw [if_neg hlarge, if_neg hbinary] at h
      simp only at h
      split at h
      next => exact absurd h (by simp)
      next content hcontent =>
        obtain rfl := Except.ok.inj h
        refine ⟨?_, hcontent, rfl, rfl, rfl⟩
        exact fun hmem => hbinary (contains_iff_mem.mpr hmem)

variable {runs : Runs}

theorem readFileText_ok {backend : Backend} {maxBytes : Nat}
    {path : RemotePath}
    (h : readFileText contentHash backend runs maxBytes path = .ok file) :
    (propertiesOf backend path).size ≤ maxBytes ∧
      ∃ output, readBytes backend runs.read maxBytes path = .ok output ∧
        textFile contentHash (propertiesOf backend path) maxBytes output =
          .ok file := by
  rw [readFileText] at h
  cases hstat : stat backend runs.stat path with
  | error error =>
    rw [hstat] at h
    exact absurd h (by simp)
  | ok props =>
    rw [hstat, stat_ok hstat] at h
    simp only at h
    split at h
    next => exact absurd h (by simp)
    next =>
      split at h
      next => exact absurd h (by simp)
      next hsize =>
        refine ⟨Nat.le_of_not_lt hsize, ?_⟩
        cases hread : readBytes backend runs.read maxBytes path with
        | error error =>
          rw [hread] at h
          exact absurd h (by simp)
        | ok output =>
          rw [hread] at h
          exact ⟨output, rfl, h⟩

theorem readFileBytes_ok {backend : Backend} {maxBytes : Nat}
    {path : RemotePath} {file : RemoteBinaryFile}
    (h : readFileBytes backend runs maxBytes path = .ok file) :
    (propertiesOf backend path).size ≤ maxBytes ∧
      readBytes backend runs.read (propertiesOf backend path).size path =
        .ok file.contentBytes := by
  rw [readFileBytes] at h
  cases hstat : stat backend runs.stat path with
  | error error =>
    rw [hstat] at h
    exact absurd h (by simp)
  | ok props =>
    rw [hstat, stat_ok hstat] at h
    simp only at h
    split at h
    next => exact absurd h (by simp)
    next =>
      split at h
      next => exact absurd h (by simp)
      next hsize =>
        refine ⟨Nat.le_of_not_lt hsize, ?_⟩
        cases hread : readBytes backend runs.read
            (propertiesOf backend path).size path with
        | error error =>
          rw [hread] at h
          exact absurd h (by simp)
        | ok bytes =>
          rw [hread] at h
          rw [← Except.ok.inj h]

/-- What a save of something read comes to. -/
inductive Outcome (backend : Backend) (runs : Runs) (path : RemotePath)
    (content : Str) (file : RemoteTextFile) :
    Except AppError WriteResult × RemotePath → Prop
  | failed (error : AppError) :
      Outcome backend runs path content file (.error error, path)
  | conflict (mtime size : Nat)
      (hdiffers : file.mtime ≠ (propertiesOf backend path).mtime ∨
        file.size ≠ (propertiesOf backend path).size ∨
        ∃ current, readBytes backend runs.read
            (propertiesOf backend path).size path = .ok current ∧
          contentHash current ≠ file.contentHash) :
      Outcome backend runs path content file (.ok (.conflict mtime size), path)
  | reached (current : Bytes)
      (hsize : file.size = (propertiesOf backend path).size)
      (hread : readBytes backend runs.read (propertiesOf backend path).size
        path = .ok current)
      (hhash : contentHash current = file.contentHash) :
      Outcome backend runs path content file
        (save contentHash backend runs path content)

theorem mtime_ne_of_differs {backend : Backend}
    {mtime : Nat} (h : mtimeDiffers backend props (some mtime) = true) :
    mtime ≠ props.mtime := by
  cases backend with
  | enhanced => exact of_decide_eq_true h
  | normal => exact of_decide_eq_true (Bool.and_eq_true_iff.mp h).2

theorem saveRead_outcome (backend : Backend) (runs : Runs) (path : RemotePath)
    (content : Str) (file : RemoteTextFile) :
    Outcome contentHash backend runs path content file
      (saveRead contentHash backend runs path content file) := by
  rw [saveRead, writeFileText]
  cases hstat : stat backend runs.stat path with
  | error error => exact Outcome.failed error
  | ok props =>
    rw [stat_ok hstat]
    simp only [Bool.not_false, Bool.true_and, Bool.false_eq_true, if_false]
    by_cases hdiffers : (mtimeDiffers backend (propertiesOf backend path)
        (some file.mtime) || sizeDiffers (propertiesOf backend path)
        (some file.size)) = true
    · rw [if_pos hdiffers]
      apply Outcome.conflict
      rcases Bool.or_eq_true_iff.mp hdiffers with hmtime | hsize
      · exact .inl (mtime_ne_of_differs hmtime)
      · exact .inr (.inl (of_decide_eq_true hsize))
    · rw [if_neg hdiffers, checkHash]
      rw [Bool.or_eq_true, not_or] at hdiffers
      have hsize : file.size = (propertiesOf backend path).size := by
        by_contra hne
        exact hdiffers.2 (decide_eq_true hne)
      cases hread : readBytes backend runs.read
          (propertiesOf backend path).size path with
      | error error => exact Outcome.failed error
      | ok current =>
        simp only
        by_cases hhash : contentHash current = file.contentHash
        · rw [if_neg (not_not_intro hhash)]
          exact Outcome.reached current hsize hread hhash
        · rw [if_pos hhash]
          exact Outcome.conflict _ _ (.inr (.inr ⟨current, hread, hhash⟩))

theorem save_ok {backend : Backend} {path : RemotePath}
    {content : Str} {written : WriteResult}
    (h : (save contentHash backend runs path content).1 = .ok written) :
    (∃ mtime size hash, written = .saved mtime size hash) ∧
      (save contentHash backend runs path content).2 =
        replace path (RustStr.utf8 content) runs.now := by
  rw [save] at h ⊢
  cases hwrite : exec runs.write [] with
  | error error =>
    rw [hwrite] at h
    exact absurd h (by simp)
  | ok result =>
    rw [hwrite] at h
    simp only at h ⊢
    by_cases hcode : result.exitCode ≠ some 0
    · rw [if_pos hcode] at h
      exact absurd h (by simp)
    · rw [if_neg hcode] at h ⊢
      cases hstat : stat backend runs.statAfter
          (replace path (RustStr.utf8 content) runs.now) with
      | error error =>
        rw [hstat] at h
        exact absurd h (by simp)
      | ok props =>
        rw [hstat] at h
        exact ⟨⟨_, _, _, (Except.ok.inj h).symm⟩, rfl⟩

theorem save_complete {backend : Backend}
    (hcomplete : runs.Complete) (path : RemotePath) (content : Str) :
    ∃ mtime size hash, save contentHash backend runs path content =
        (.ok (.saved mtime size hash),
          replace path (RustStr.utf8 content) runs.now) := by
  rw [save, hcomplete.write, hcomplete.statAfter]
  exact ⟨_, _, _, rfl⟩

/-! When editing is safe. -/

variable {contentHash} {backend : Backend} {maxBytes : Nat} {path : RemotePath}

theorem Uncut.take {content : Bytes} (h : Uncut backend content) (n : Nat) :
    Uncut backend (content.take n) := by
  intro hbackend
  have hshort := h hbackend
  rw [length_take]
  omega

/-- What a reading has told about the path, when it gives all of a content
that is a text. -/
theorem readFileText_whole {text : Str}
    (htext : path.content = RustStr.utf8 text)
    (huncut : Uncut backend path.content)
    (hlimit : path.content.length ≤ maxBytes)
    (h : readFileText contentHash backend runs maxBytes path = .ok file) :
    0 ∉ path.content ∧ file.content = text ∧
      file.size = (propertiesOf backend path).size ∧
      file.mtime = (propertiesOf backend path).mtime ∧
      file.contentHash = contentHash path.content := by
  obtain ⟨-, output, hread, hfile⟩ := readFileText_ok contentHash h
  have hwhole : output = path.content := by
    rw [readBytes_ok (huncut.take maxBytes) hread]
    exact take_of_length_le hlimit
  subst hwhole
  obtain ⟨hbinary, hcontent, hrest⟩ := textFile_ok contentHash hfile
  rw [htext, RustStr.fromUtf8_utf8] at hcontent
  exact ⟨hbinary, (Option.some.inj hcontent).symm, hrest⟩

theorem size_direct (hlink : path.link = none) :
    (propertiesOf backend path).size = path.content.length := by
  simp only [propertiesOf, hlink]

theorem size_link {text : Bytes} {linkMtime : Nat}
    (hlink : path.link = some (text, linkMtime)) :
    (propertiesOf backend path).size = text.length := by
  simp only [propertiesOf, hlink]

/-- What is read of a file that is named itself is all of it. -/
theorem readBytes_direct (hlink : path.link = none)
    (huncut : Uncut backend path.content)
    (h : readBytes backend run (propertiesOf backend path).size path =
      .ok bytes) : bytes = path.content := by
  rw [size_direct hlink] at h
  rw [readBytes_ok (huncut.take _) h]
  exact take_length

/-- What is read of another file of the same size is all of it as well. -/
theorem readBytes_same (other : RemotePath) (hlink : path.link = none)
    (hother : other.link = none) (huncut : Uncut backend path.content)
    (hsize : (propertiesOf backend path).size =
      (propertiesOf backend other).size)
    (h : readBytes backend run (propertiesOf backend other).size other =
      .ok bytes) : bytes = other.content := by
  apply readBytes_direct hother ?_ h
  intro hbackend
  rw [size_direct hlink, size_direct hother] at hsize
  rw [← hsize]
  exact huncut hbackend

theorem saveRead_complete (hcomplete : runs.Complete)
    {content : Str}
    (hmtime : file.mtime = (propertiesOf backend path).mtime)
    (hsize : file.size = (propertiesOf backend path).size)
    (hhash : file.contentHash =
      contentHash (path.content.take (propertiesOf backend path).size)) :
    saveRead contentHash backend runs path content file =
      save contentHash backend runs path content := by
  have hstat : stat backend runs.stat path =
      .ok (propertiesOf backend path) := by
    rw [hcomplete.stat]
    rfl
  have hsame : mtimeDiffers backend (propertiesOf backend path)
      (some file.mtime) = false := by
    rw [hmtime]
    cases backend <;> simp [mtimeDiffers]
  have hcheck : checkHash contentHash backend runs path
      (propertiesOf backend path) file.contentHash = .ok none := by
    rw [checkHash, hcomplete.read, readBytes_completes]
    exact if_neg (not_not_intro hhash.symm)
  rw [saveRead, writeFileText, hstat]
  simp only [hsame, sizeDiffers, hsize, hcheck]
  simp

theorem saveRead_ok (hcomplete : runs.Complete) (path : RemotePath)
    (content : Str) (file : RemoteTextFile) : ∃ written,
      (saveRead contentHash backend runs path content file).1 =
        .ok written := by
  obtain ⟨mtime, size, hash, hsaved⟩ := @save_complete contentHash _ backend
    hcomplete path content
  have hstat : stat backend runs.stat path =
      .ok (propertiesOf backend path) := by
    rw [hcomplete.stat]
    rfl
  rw [saveRead, writeFileText, hstat]
  simp only [hsaved, checkHash, hcomplete.read, readBytes_completes]
  split
  · exact ⟨_, rfl⟩
  · by_cases hhash : contentHash
        (path.content.take (propertiesOf backend path).size) =
          file.contentHash
    · simp [hhash]
    · simp [hhash]

/-- A file that is named itself is edited safely if it is read whole. -/
theorem editsSafely_direct (hinjective : Function.Injective contentHash)
    {text : Str} (htext : path.content = RustStr.utf8 text)
    (hlimit : path.content.length ≤ maxBytes) (hlink : path.link = none)
    (huncut : Uncut backend path.content) :
    EditsSafely contentHash backend maxBytes path := by
  have hunchanged : ∀ runs file, readFileText contentHash backend runs maxBytes
      path = .ok file → ∀ runs' content, (∃ error,
          saveRead contentHash backend runs' path content file =
            (.error error, path)) ∨
        saveRead contentHash backend runs' path content file =
          save contentHash backend runs' path content := by
    intro runs file hread runs' content
    obtain ⟨-, -, hsize, hmtime, hhash⟩ :=
      readFileText_whole htext huncut hlimit hread
    have houtcome :=
      saveRead_outcome contentHash backend runs' path content file
    generalize saveRead contentHash backend runs' path content file =
      result at houtcome
    cases houtcome with
    | failed error => exact .inl ⟨error, rfl⟩
    | reached => exact .inr rfl
    | conflict mtime size hdiffers =>
      rcases hdiffers with hne | hne | ⟨current, hcurrent, hne⟩
      · exact absurd hmtime hne
      · exact absurd hsize hne
      · rw [readBytes_direct hlink huncut hcurrent] at hne
        exact absurd hhash.symm hne
  refine ⟨?_, ?_, ?_, ?_, ?_⟩
  · intro runs file hread
    rw [(readFileText_whole htext huncut hlimit hread).2.1, htext]
  · intro runs file hread runs' content written hwritten
    rcases hunchanged runs file hread runs' content with ⟨error, herror⟩ | hsave
    · rw [herror] at hwritten
      exact absurd hwritten (by simp)
    · rw [hsave] at hwritten ⊢
      obtain ⟨hsaved, hafter⟩ := save_ok contentHash hwritten
      refine ⟨hsaved, ?_⟩
      rw [hafter, replace, hlink]
  · exact fun runs file _ runs' content hcomplete =>
      saveRead_ok hcomplete path content file
  · intro runs file hread changed mtime hchanged runs' content
    obtain ⟨-, -, hsize, -, hhash⟩ :=
      readFileText_whole htext huncut hlimit hread
    have houtcome := saveRead_outcome contentHash backend runs'
      { path with content := changed, mtime := mtime } content file
    have hok : runs'.Complete → ∃ written, (saveRead contentHash backend runs'
        { path with content := changed, mtime := mtime } content file).1 =
          .ok written := fun hcomplete => saveRead_ok hcomplete _ content file
    generalize saveRead contentHash backend runs'
      { path with content := changed, mtime := mtime } content file =
      result at houtcome hok
    cases houtcome with
    | failed error =>
      refine ⟨rfl, fun written h => absurd h (by simp), fun hcomplete => ?_⟩
      obtain ⟨written, hwritten⟩ := hok hcomplete
      exact absurd hwritten (by simp)
    | conflict mtime' size hdiffers =>
      exact ⟨rfl, fun written h => ⟨mtime', size, (Except.ok.inj h).symm⟩,
        fun _ => ⟨mtime', size, rfl⟩⟩
    | reached current hsame hcurrent hequal =>
      rw [hsize] at hsame
      have hwhole : current = changed :=
        readBytes_same { path with content := changed, mtime := mtime }
          hlink hlink huncut hsame hcurrent
      rw [hwhole, hhash] at hequal
      exact absurd (hinjective hequal) hchanged
  · intro runs file hread hpart
    exact readBytes_direct hlink huncut (readFileBytes_ok hread).2

/-- Through a link whose own size is over the limit nothing is read. -/
theorem editsSafely_large_link {text : Bytes} {linkMtime : Nat}
    (hlink : path.link = some (text, linkMtime))
    (hlarge : maxBytes < text.length) :
    EditsSafely contentHash backend maxBytes path := by
  have hno_text : ∀ runs file,
      readFileText contentHash backend runs maxBytes path ≠ .ok file := by
    intro runs file hread
    have hsize := (readFileText_ok contentHash hread).1
    rw [size_link hlink] at hsize
    omega
  have hno_bytes : ∀ runs file,
      readFileBytes backend runs maxBytes path ≠ .ok file := by
    intro runs file hread
    have hsize := (readFileBytes_ok hread).1
    rw [size_link hlink] at hsize
    omega
  exact ⟨fun runs file h => absurd h (hno_text runs file),
    fun runs file h => absurd h (hno_text runs file),
    fun runs file h => absurd h (hno_text runs file),
    fun runs file h => absurd h (hno_text runs file),
    fun runs file h => absurd h (hno_bytes runs file)⟩

/-- A content that is no text is only read as bytes. -/
theorem editsSafely_binary_link {decoded : Str}
    (htext : path.content = RustStr.utf8 decoded)
    (hlimit : path.content.length ≤ maxBytes) {text : Bytes} {linkMtime : Nat}
    (hlink : path.link = some (text, linkMtime))
    (hbinary : 0 ∈ path.content) (hshort : path.content.length ≤ text.length)
    (huncut : Uncut backend path.content) :
    EditsSafely contentHash backend maxBytes path := by
  have hno_text : ∀ runs file,
      readFileText contentHash backend runs maxBytes path ≠ .ok file :=
    fun runs file hread =>
      (readFileText_whole htext huncut hlimit hread).1 hbinary
  refine ⟨fun runs file h => absurd h (hno_text runs file),
    fun runs file h => absurd h (hno_text runs file),
    fun runs file h => absurd h (hno_text runs file),
    fun runs file h => absurd h (hno_text runs file), ?_⟩
  intro runs file hread hpart
  have hbytes := (readFileBytes_ok hread).2
  rw [size_link hlink] at hbytes
  rw [readBytes_ok (huncut.take _) hbytes]
  exact take_of_length_le hshort

/-! What is safe says of the path. -/

theorem stat_completes (backend : Backend) (path : RemotePath) :
    stat backend .completes path = .ok (propertiesOf backend path) :=
  rfl

theorem readFileBytes_eq (runs : Runs) (hstat : runs.stat = .completes)
    (hfile : path.isDir = false)
    (hsize : (propertiesOf backend path).size ≤ maxBytes)
    (hread : readBytes backend runs.read (propertiesOf backend path).size path =
      .ok bytes) :
    readFileBytes backend runs maxBytes path =
      .ok ⟨bytes, (propertiesOf backend path).size,
        (propertiesOf backend path).mtime⟩ := by
  have hdir : (propertiesOf backend path).isDir = false := hfile
  rw [readFileBytes, hstat, stat_completes]
  simp only [hdir, Bool.false_eq_true, if_false]
  rw [if_neg (Nat.not_lt.mpr hsize), hread]

/-- What is read of a text when nothing fails. -/
def wholeFile (contentHash : Bytes → Str) (backend : Backend)
    (path : RemotePath) (text : Str) : RemoteTextFile :=
  ⟨text, (propertiesOf backend path).size, (propertiesOf backend path).mtime,
    contentHash path.content⟩

theorem readFileText_eq (runs : Runs) (hstat : runs.stat = .completes)
    (hread : runs.read = .completes) (hfile : path.isDir = false)
    (hsize : (propertiesOf backend path).size ≤ maxBytes) {text : Str}
    (htext : path.content = RustStr.utf8 text)
    (hlimit : path.content.length ≤ maxBytes) (hzero : 0 ∉ path.content) :
    readFileText contentHash backend runs maxBytes path =
      .ok (wholeFile contentHash backend path text) := by
  have hdir : (propertiesOf backend path).isDir = false := hfile
  have hensure : ensureTextBytes path.content maxBytes = .ok () := by
    rw [ensureTextBytes, if_neg (Nat.not_lt.mpr hlimit), if_neg]
    exact fun hmem => hzero (contains_iff_mem.mp hmem)
  have hdecoded : RustStr.fromUtf8 path.content = some text := by
    rw [htext, RustStr.fromUtf8_utf8]
  rw [readFileText, hstat, stat_completes]
  simp only [hdir, Bool.false_eq_true, if_false]
  rw [if_neg (Nat.not_lt.mpr hsize), hread, readBytes_completes,
    take_of_length_le hlimit]
  simp only [textFile, hensure, hdecoded]
  rfl

/-- Commands that all succeed. -/
def Runs.complete : Runs :=
  ⟨.completes, .completes, .completes, false, .completes, 0⟩

theorem Runs.complete_complete : Runs.complete.Complete :=
  ⟨rfl, rfl, rfl, rfl⟩

/-- Commands that all succeed, but for a `dd` that fails after one byte. -/
def Runs.cut : Runs :=
  { Runs.complete with read := .fails 1 none [] (by simp) }

section

variable (hsafe : EditsSafely contentHash backend maxBytes path)
    (hfile : path.isDir = false)
    (hsize : (propertiesOf backend path).size ≤ maxBytes)
include hsafe hfile hsize

theorem length_le_of_editsSafely :
    path.content.length ≤ (propertiesOf backend path).size := by
  have hread := readFileBytes_eq Runs.complete rfl hfile hsize
    (readBytes_completes backend _ path)
  have hwhole := hsafe.bytes Runs.complete _ hread (List.take_prefix _ _)
  rw [← hwhole, length_take]
  omega

theorem uncut_of_editsSafely :
    Uncut backend path.content := by
  intro hbackend
  subst hbackend
  by_contra hlong
  have hasked := length_le_of_editsSafely hsafe hfile hsize
  cases hcontent : path.content with
  | nil =>
    rw [hcontent] at hlong
    exact hlong (Nat.zero_le 1)
  | cons first rest =>
    have hprinted : readBytes .normal Runs.cut.read
        (propertiesOf .normal path).size path = .ok [first] := by
      rw [readBytes, take_of_length_le hasked, hcontent]
      exact printed_cut first rest
    have hread := readFileBytes_eq Runs.cut rfl hfile hsize hprinted
    have hwhole := hsafe.bytes Runs.cut _ hread (by simp [hcontent])
    rw [hcontent] at hwhole hlong
    rw [← hwhole] at hlong
    exact hlong (Nat.le_refl 1)

/-- A save that succeeds replaces a link, so there may be none. -/
theorem link_none_of_editsSafely {text : Str}
    (htext : path.content = RustStr.utf8 text)
    (hlimit : path.content.length ≤ maxBytes) (hzero : 0 ∉ path.content) :
    path.link = none := by
  have hasked := length_le_of_editsSafely hsafe hfile hsize
  have hread : readFileText contentHash backend Runs.complete maxBytes path =
      .ok (wholeFile contentHash backend path text) :=
    readFileText_eq Runs.complete rfl rfl hfile hsize htext hlimit hzero
  have hresult : saveRead contentHash backend Runs.complete path []
      (wholeFile contentHash backend path text) =
        save contentHash backend Runs.complete path [] := by
    apply saveRead_complete Runs.complete_complete rfl rfl
    rw [take_of_length_le hasked]
    rfl
  obtain ⟨mtime, size, hash, hsaved⟩ :=
    save_complete contentHash Runs.complete_complete path ([] : Str)
  have hafter := (hsafe.saves Runs.complete _ hread Runs.complete []
    (.saved mtime size hash) (by rw [hresult, hsaved])).2
  rw [hresult, hsaved] at hafter
  exact (congrArg RemotePath.link hafter).symm

end

/-- Editing is safe exactly for a file that is named itself and is read whole,
and through a link where nothing, or nothing but all of the bytes, is read. -/
theorem editsSafely_iff (hinjective : Function.Injective contentHash)
    (hfile : path.isDir = false) {text : Str}
    (htext : path.content = RustStr.utf8 text)
    (hlimit : path.content.length ≤ maxBytes) :
    EditsSafely contentHash backend maxBytes path ↔
      Safe backend maxBytes path := by
  cases hlink : path.link with
  | none =>
    have hsize : (propertiesOf backend path).size ≤ maxBytes := by
      rw [size_direct hlink]
      exact hlimit
    rw [Safe, hlink]
    exact ⟨fun hsafe => uncut_of_editsSafely hsafe hfile hsize,
      editsSafely_direct hinjective htext hlimit hlink⟩
  | some link =>
    obtain ⟨linkText, linkMtime⟩ := link
    have hsizeEq : (propertiesOf backend path).size = linkText.length :=
      size_link hlink
    rw [Safe, hlink]
    constructor
    · intro hsafe
      by_cases hlarge : maxBytes < linkText.length
      · exact .inl hlarge
      · right
        have hsize : (propertiesOf backend path).size ≤ maxBytes := by omega
        refine ⟨?_, ?_, uncut_of_editsSafely hsafe hfile hsize⟩
        · by_contra hzero
          have hnone :=
            link_none_of_editsSafely hsafe hfile hsize htext hlimit hzero
          rw [hlink] at hnone
          exact Option.some_ne_none _ hnone
        · rw [← hsizeEq]
          exact length_le_of_editsSafely hsafe hfile hsize
    · rintro (hlarge | ⟨hbinary, hshort, huncut⟩)
      · exact editsSafely_large_link hlink hlarge
      · exact editsSafely_binary_link htext hlimit hlink hbinary hshort huncut

/-! One file, named itself and through a link. -/

theorem byteChar_toNat (byte : UInt8) :
    (Char.ofNat byte.toNat).toNat = byte.toNat := by
  have hvalid : byte.toNat.isValidChar := by
    have hbound := byte.toNat_lt
    exact .inl (by omega)
  rw [Char.ofNat, dif_pos hvalid]
  rfl

/-- The digest of the content below, and a name of its own for any other. -/
def sampleHash (bytes : Bytes) : Str :=
  if bytes = [97, 98, 99] then
    ("ba7816bf8f01cfea414140de5dae2223" ++
      "b00361a396177a9cb410ff61f20015ad").toList
  else 'x' :: bytes.map fun byte => Char.ofNat byte.toNat

theorem sampleHash_injective : Function.Injective sampleHash := by
  have hchars : Function.Injective
      (List.map fun byte : UInt8 => Char.ofNat byte.toNat) := by
    apply map_injective_iff.mpr
    intro first second hchar
    have hnat := congrArg Char.toNat hchar
    simp only [byteChar_toNat] at hnat
    exact UInt8.toNat_inj.mp hnat
  intro first second hsame
  rw [sampleHash, sampleHash] at hsame
  by_cases hfirst : first = [97, 98, 99]
  · by_cases hsecond : second = [97, 98, 99]
    · rw [hfirst, hsecond]
    · rw [if_pos hfirst, if_neg hsecond] at hsame
      exact absurd (cons.inj hsame).1 (by decide)
  · by_cases hsecond : second = [97, 98, 99]
    · rw [if_neg hfirst, if_pos hsecond] at hsame
      exact absurd (cons.inj hsame).1 (by decide)
    · rw [if_neg hfirst, if_neg hsecond] at hsame
      exact hchars (cons.inj hsame).2

/-- A file with the text `abc`. -/
def abcFile : RemotePath :=
  ⟨none, false, [97, 98, 99], 1700000000⟩

theorem abcFile_edited : EditsSafely sampleHash .enhanced 1048576 abcFile :=
  (editsSafely_iff sampleHash_injective rfl
    (show abcFile.content = RustStr.utf8 "abc".toList by decide)
    (by decide)).mpr fun h => by cases h

/-- The link `a` to the file `b`. -/
def abcLink : RemotePath :=
  { abcFile with link := some ([98], 1600000000) }

/-- Through the link one byte is read; and a `dd` that fails leaves one byte. -/
theorem abcFile_cut :
    ¬ EditsSafely sampleHash .enhanced 1048576 abcLink ∧
      ¬ EditsSafely sampleHash .normal 1048576 abcFile := by
  constructor
  · intro hsafe
    have hwhole := hsafe.bytes Runs.complete ⟨[97], 1, 1600000000⟩ rfl
      (by decide)
    exact absurd hwhole (by decide)
  · intro hsafe
    have hwhole := hsafe.bytes Runs.cut ⟨[97], 3, 0⟩ rfl (by decide)
    exact absurd hwhole (by decide)

end NiceTerm.Sftp.RemoteText
