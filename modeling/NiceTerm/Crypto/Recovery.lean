/-
The master key, which encrypts the stored secrets, and the one record that it
is kept in, wrapped with a key that is derived from the master password.  Any
number of calls are under way; loading the record, writing it and reading the
password are one step each.
-/
import NiceTerm.Lib.RustStr
import NiceTerm.Lib.Transition

namespace NiceTerm.Crypto

open RustStr (Str)

inductive WrappingPrefix
  | niceTerm
  | dragonfly
deriving DecidableEq, Repr

/-- A master key as it is stored: it is unwrapped by the key that wrapped it. -/
structure WrappedMasterKey (κ ω : Type) where
  masterKey : κ
  wrappingKey : ω
deriving DecidableEq, Repr

/-- What `encrypt` returns: it is decrypted by the key that encrypted it. -/
structure Token (κ : Type) where
  key : κ
  plaintext : Str
deriving DecidableEq, Repr

/-- What a caller of `get_master_key` wants it for. -/
inductive Purpose (κ : Type)
  | encrypt (plaintext : Str)
  | decrypt (token : Token κ)
  | verify
deriving DecidableEq, Repr

/-- How far a call is.  `found` is the record that it has loaded. -/
inductive Phase (κ ω : Type)
  | loaded (found : Option (WrappedMasterKey κ ω)) (purpose : Purpose κ)
  | writing (found : Option (WrappedMasterKey κ ω)) (key : κ)
      (password : Option Str) (purpose : Purpose κ)
  | holding (key : κ) (purpose : Purpose κ)
  | rewrapping (key : κ) (newPassword : Option Str)
  | rewrapped (newPassword : Option Str)
deriving DecidableEq, Repr

/-- `masterPassword` is the one in force, and `tokens` are all that have been
returned. -/
structure Vault (κ ω : Type) where
  stored : Option (WrappedMasterKey κ ω)
  masterPassword : Option Str
  tasks : Nat → Option (Phase κ ω)
  tokens : List (Token κ)

/-- A key that is generated is given from outside. -/
inductive Event (κ : Type)
  | getMasterKey (task : Nat) (purpose : Purpose κ)
  | readPassword (task : Nat) (generated : κ)
  | rewrapMasterKey (task : Nat) (oldPassword newPassword : Option Str)
      (generated : κ)
  | write (task : Nat)
  | finish (task : Nat)
  | fail (task : Nat)
deriving DecidableEq, Repr

variable {κ ω : Type} [DecidableEq ω]

/-- `derive_wrapping_key_with_prefix`, a digest of the prefix and the password.
The material used without one is fixed here; the source creates it on first
use. -/
abbrev Derive (ω : Type) := WrappingPrefix → Option Str → ω

def unwrapMasterKeyBytes (raw : WrappedMasterKey κ ω) (wrappingKey : ω) :
    Option κ :=
  if raw.wrappingKey = wrappingKey then some raw.masterKey else none

/-- The master key, and whether it was wrapped with the old prefix. -/
def unwrapMasterKeyWithCompatibleWrapping (derive : Derive ω)
    (raw : WrappedMasterKey κ ω) (password : Option Str) : Option (κ × Bool) :=
  match unwrapMasterKeyBytes raw (derive .niceTerm password) with
  | some masterKey => some (masterKey, false)
  | none =>
    (unwrapMasterKeyBytes raw (derive .dragonfly password)).map
      fun masterKey => (masterKey, true)

def setMasterPassword (password : Option Str) : Option Str :=
  password.filter fun text => !text.isEmpty

namespace Vault

def setTask (vault : Vault κ ω) (task : Nat) (phase : Option (Phase κ ω)) :
    Vault κ ω :=
  { vault with tasks := Function.update vault.tasks task phase }

variable (derive : Derive ω) (vault : Vault κ ω)

/-- With the record and the password: a key wrapped with the old prefix is to
be wrapped anew, and without a record a new key is to be written. -/
def readPassword (task : Nat) (found : Option (WrappedMasterKey κ ω))
    (purpose : Purpose κ) (generated : κ) : Vault κ ω :=
  match found with
  | none =>
    vault.setTask task
      (some (.writing none generated vault.masterPassword purpose))
  | some raw =>
    match unwrapMasterKeyWithCompatibleWrapping derive raw
        vault.masterPassword with
    | none => vault.setTask task none
    | some (masterKey, false) =>
      vault.setTask task (some (.holding masterKey purpose))
    | some (masterKey, true) =>
      vault.setTask task
        (some (.writing found masterKey vault.masterPassword purpose))

/-- Changing the master password begins with the key under the old one. -/
def rewrapMasterKey (task : Nat)
    (oldPassword newPassword : Option Str) (generated : κ) : Vault κ ω :=
  match vault.stored with
  | none => vault.setTask task (some (.rewrapping generated newPassword))
  | some raw =>
    match unwrapMasterKeyWithCompatibleWrapping derive raw oldPassword with
    | none => vault
    | some (masterKey, _) =>
      vault.setTask task (some (.rewrapping masterKey newPassword))

def writeWrappedMasterKey (masterKey : κ) (password : Option Str) : Vault κ ω :=
  { vault with stored := some ⟨masterKey, derive .niceTerm password⟩ }

/-- A call has the master key. -/
def useMasterKey (key : κ) : Purpose κ → Vault κ ω
  | .encrypt plaintext =>
    { vault with tokens := ⟨key, plaintext⟩ :: vault.tokens }
  | .decrypt _ | .verify => vault

/-- An empty new password is refused before anything is rewrapped, and no call
fails between the write of a rewrapped key and the change of the password. -/
def step (derive : Derive ω) (vault : Vault κ ω) :
    Event κ → Option (Vault κ ω)
  | .getMasterKey task purpose =>
    if vault.tasks task = none then
      some (vault.setTask task (some (.loaded vault.stored purpose)))
    else none
  | .readPassword task generated =>
    match vault.tasks task with
    | some (.loaded found purpose) =>
      some (vault.readPassword derive task found purpose generated)
    | _ => none
  | .rewrapMasterKey task oldPassword newPassword generated =>
    if vault.tasks task = none ∧ newPassword ≠ some [] then
      some (vault.rewrapMasterKey derive task oldPassword newPassword
        generated)
    else none
  | .write task =>
    match vault.tasks task with
    | some (.writing _ key password purpose) =>
      some ((vault.writeWrappedMasterKey derive key password).setTask task
        (some (.holding key purpose)))
    | some (.rewrapping key newPassword) =>
      some ((vault.writeWrappedMasterKey derive key newPassword).setTask
        task (some (.rewrapped newPassword)))
    | _ => none
  | .finish task =>
    match vault.tasks task with
    | some (.holding key purpose) =>
      some ((vault.useMasterKey key purpose).setTask task none)
    | some (.rewrapped newPassword) =>
      some ({ vault with
        masterPassword := setMasterPassword newPassword }.setTask task none)
    | _ => none
  | .fail task =>
    match vault.tasks task with
    | none | some (.rewrapped _) => none
    | some _ => some (vault.setTask task none)

section Tokens

variable [DecidableEq κ] (derive : Derive ω) (vault : Vault κ ω)

/-- The key that `get_master_key` finds when nothing else is under way. -/
def masterKey : Option κ :=
  vault.stored.bind fun raw =>
    (unwrapMasterKeyWithCompatibleWrapping derive raw
      vault.masterPassword).map Prod.fst

/-- `decrypt`, when nothing else is under way. -/
def decrypt (token : Token κ) : Option Str :=
  (vault.masterKey derive).bind fun key =>
    if key = token.key then some token.plaintext else none

/-- Once all calls have finished, every token decrypts to its plaintext. -/
def Recoverable : Prop :=
  (∀ task, vault.tasks task = none) →
    ∀ token ∈ vault.tokens, vault.decrypt derive token = some token.plaintext

/-- Nothing is under way, the record opens with the password in force, and the
tokens there are can be decrypted. -/
structure Sound (derive : Derive ω) (vault : Vault κ ω) : Prop where
  idle : ∀ task, vault.tasks task = none
  opens : ∀ raw, vault.stored = some raw →
    (unwrapMasterKeyWithCompatibleWrapping derive raw
      vault.masterPassword).isSome
  tokens : ∀ token ∈ vault.tokens,
    vault.decrypt derive token = some token.plaintext

def system : Transition.System (Vault κ ω) (Event κ) where
  init := Sound derive
  step := step derive

end Tokens

end Vault

/-! When the stored secrets stay decryptable: a write of the master key must
leave the key as it is and agree with the password that is in force when the
calls have finished. -/

variable {κ ω : Type}

section Unwrapping

variable [DecidableEq ω] {derive : Derive ω}

theorem unwrapped_key {raw : WrappedMasterKey κ ω} {password : Option Str}
    {key : κ} {legacy : Bool}
    (h : unwrapMasterKeyWithCompatibleWrapping derive raw password =
      some (key, legacy)) : key = raw.masterKey := by
  have hbytes : ∀ wrappingKey found,
      unwrapMasterKeyBytes raw wrappingKey = some found →
        found = raw.masterKey := by
    intro wrappingKey found hfound
    rw [unwrapMasterKeyBytes] at hfound
    split at hfound
    · exact (Option.some.inj hfound).symm
    · exact absurd hfound.symm (Option.some_ne_none found)
  rw [unwrapMasterKeyWithCompatibleWrapping] at h
  split at h
  next masterKey hnew =>
    have hkey : masterKey = key := congrArg Prod.fst (Option.some.inj h)
    exact hkey ▸ hbytes _ _ hnew
  next =>
    obtain ⟨masterKey, hold, heq⟩ := Option.map_eq_some_iff.mp h
    have hkey : masterKey = key := congrArg Prod.fst heq
    exact hkey ▸ hbytes _ _ hold

/-- What is wrapped with the prefix of today opens. -/
theorem unwrap_wrapped (key : κ) (password : Option Str) :
    unwrapMasterKeyWithCompatibleWrapping derive
      ⟨key, derive .niceTerm password⟩ password = some (key, false) := by
  simp [unwrapMasterKeyWithCompatibleWrapping, unwrapMasterKeyBytes]

end Unwrapping

theorem setMasterPassword_eq {password : Option Str} (h : password ≠ some []) :
    setMasterPassword password = password := by
  cases password with
  | none => rfl
  | some text =>
    have hne : text ≠ [] := fun hnil => h (hnil ▸ rfl)
    simp [setMasterPassword, Option.filter_some, hne]

namespace Vault

variable (vault : Vault κ ω)

/-- The record has this master key. -/
def HasKey (key : κ) : Prop :=
  ∃ raw, vault.stored = some raw ∧ raw.masterKey = key

/-- The record, if there is one, opens with this password. -/
def Opens [DecidableEq ω] (derive : Derive ω) (vault : Vault κ ω) (password : Option Str) :
    Prop :=
  ∀ raw, vault.stored = some raw →
    (unwrapMasterKeyWithCompatibleWrapping derive raw password).isSome

/-- No other master key is stored. -/
def KeepsKey (key : κ) : Prop :=
  ∀ raw, vault.stored = some raw → raw.masterKey = key

/-- No rewrapped key waits for the password to be changed. -/
def NoneRewrapped : Prop :=
  ∀ task newPassword, vault.tasks task ≠ some (.rewrapped newPassword)

/-- What is written has the master key that is stored, if one is, and does not
come between a rewrapped key and its password; and outside a change of the
password it is wrapped for the password in force. -/
def Undisturbed : Event κ → Prop
  | .write task =>
    match vault.tasks task with
    | some (.writing _ key password _) =>
      vault.KeepsKey key ∧ vault.NoneRewrapped ∧
        password = vault.masterPassword
    | some (.rewrapping key _) => vault.KeepsKey key ∧ vault.NoneRewrapped
    | _ => True
  | _ => True

end Vault

/-- The key that a phase relies on. -/
def Phase.relies : Phase κ ω → Option κ
  | .loaded found _ => found.map WrappedMasterKey.masterKey
  | .holding key _ => some key
  | .writing _ _ _ _ | .rewrapping _ _ | .rewrapped _ => none

/-- The password that a phase is going to set. -/
def Phase.newPassword : Phase κ ω → Option Str
  | .rewrapping _ newPassword | .rewrapped newPassword => newPassword
  | .loaded _ _ | .writing _ _ _ _ | .holding _ _ => none

namespace Vault

open Option

theorem setTask_eq_some {vault : Vault κ ω} {task : Nat}
    {phase : Option (Phase κ ω)} {other : Nat} {found : Phase κ ω} :
    (vault.setTask task phase).tasks other = some found ↔
      other = task ∧ phase = some found ∨
        other ≠ task ∧ vault.tasks other = some found := by
  by_cases h : other = task
  · subst h
    simp [setTask]
  · simp [setTask, h]

variable [DecidableEq ω] {derive : Derive ω}

/-- All keys that are relied on are the stored one, and the record opens with
the password in force, or with the one that is about to be. -/
structure Kept (derive : Derive ω) (vault : Vault κ ω) : Prop where
  tokens : ∀ token ∈ vault.tokens, vault.HasKey token.key
  relied : ∀ task phase key, vault.tasks task = some phase →
    phase.relies = some key → vault.HasKey key
  named : ∀ task phase, vault.tasks task = some phase →
    phase.newPassword ≠ some []
  opens : vault.NoneRewrapped → vault.Opens derive vault.masterPassword
  rewrapped : ∀ task newPassword,
    vault.tasks task = some (.rewrapped newPassword) →
      vault.Opens derive newPassword ∧
      ∀ other password, vault.tasks other = some (.rewrapped password) →
        other = task

theorem hasKey_of_unwrap {vault : Vault κ ω} {raw : WrappedMasterKey κ ω}
    {password : Option Str} {key : κ} {legacy : Bool}
    (hraw : vault.HasKey raw.masterKey)
    (h : unwrapMasterKeyWithCompatibleWrapping derive raw password =
      some (key, legacy)) : vault.HasKey key :=
  unwrapped_key h ▸ hraw

section Steps

variable {vault : Vault κ ω} {task : Nat}

theorem Kept.setTask (h : vault.Kept derive) {phase : Option (Phase κ ω)}
    (hold : ∀ newPassword, vault.tasks task ≠ some (.rewrapped newPassword))
    (hrelied : ∀ found key, phase = some found → found.relies = some key →
      vault.HasKey key)
    (hnamed : ∀ found, phase = some found → found.newPassword ≠ some [])
    (hnew : ∀ newPassword, phase ≠ some (.rewrapped newPassword)) :
    (vault.setTask task phase).Kept derive where
  tokens := h.tokens
  relied other found key hfound hkey := by
    rcases setTask_eq_some.mp hfound with ⟨-, hphase⟩ | ⟨-, hother⟩
    · exact hrelied found key hphase hkey
    · exact h.relied other found key hother hkey
  named other found hfound := by
    rcases setTask_eq_some.mp hfound with ⟨-, hphase⟩ | ⟨-, hother⟩
    · exact hnamed found hphase
    · exact h.named other found hother
  opens hnone := by
    apply h.opens
    intro other newPassword hother
    by_cases hsame : other = task
    · exact hold newPassword (hsame ▸ hother)
    · exact hnone other newPassword
        (setTask_eq_some.mpr (.inr ⟨hsame, hother⟩))
  rewrapped other newPassword hfound := by
    rcases setTask_eq_some.mp hfound with ⟨-, hphase⟩ | ⟨-, hother⟩
    · exact absurd hphase (hnew newPassword)
    · obtain ⟨hopens, honly⟩ := h.rewrapped other newPassword hother
      refine ⟨hopens, fun third password hthird => ?_⟩
      rcases setTask_eq_some.mp hthird with ⟨-, hphase⟩ | ⟨-, hthird⟩
      · exact absurd hphase (hnew password)
      · exact honly third password hthird

omit [DecidableEq ω] in
theorem hasKey_write {key other : κ} {password : Option Str}
    (hkeeps : vault.KeepsKey key) (h : vault.HasKey other) :
    (vault.writeWrappedMasterKey derive key password).HasKey other := by
  obtain ⟨raw, hraw, rfl⟩ := h
  exact ⟨_, rfl, (hkeeps raw hraw).symm⟩

theorem opens_write (vault : Vault κ ω) (key : κ) (password : Option Str) :
    (vault.writeWrappedMasterKey derive key password).Opens derive
      password := by
  rintro raw ⟨⟩
  rw [unwrap_wrapped]
  rfl

theorem Kept.write_relied (h : vault.Kept derive) {key : κ}
    {password : Option Str} {phase : Phase κ ω}
    (hkeeps : vault.KeepsKey key)
    (hphase : ∀ held, phase.relies = some held → held = key)
    (other : Nat) (found : Phase κ ω) (held : κ)
    (hfound : ((vault.writeWrappedMasterKey derive key password).setTask task
      (some phase)).tasks other = some found)
    (hheld : found.relies = some held) :
    (vault.writeWrappedMasterKey derive key password).HasKey held := by
  rcases setTask_eq_some.mp hfound with ⟨-, heq⟩ | ⟨-, hother⟩
  · obtain rfl := some.inj heq
    exact ⟨_, rfl, (hphase held hheld).symm⟩
  · exact hasKey_write hkeeps (h.relied other found held hother hheld)

theorem Kept.write (h : vault.Kept derive) {key : κ} {purpose : Purpose κ}
    (hkeeps : vault.KeepsKey key) (hnone : vault.NoneRewrapped) :
    ((vault.writeWrappedMasterKey derive key vault.masterPassword).setTask task
      (some (.holding key purpose))).Kept derive where
  tokens token hmem := hasKey_write hkeeps (h.tokens token hmem)
  relied := h.write_relied hkeeps fun held hheld => (some.inj hheld).symm
  named other found hfound := by
    rcases setTask_eq_some.mp hfound with ⟨-, heq⟩ | ⟨-, hother⟩
    · rw [← some.inj heq]
      exact (some_ne_none _).symm
    · exact h.named other found hother
  opens _ := opens_write vault key vault.masterPassword
  rewrapped other newPassword hfound := by
    rcases setTask_eq_some.mp hfound with ⟨-, heq⟩ | ⟨-, hother⟩
    · cases heq
    · exact absurd hother (hnone other newPassword)

variable {newPassword : Option Str}

/-- A write that comes before the change of the password. -/
theorem Kept.rewrap (h : vault.Kept derive) {key : κ}
    (hnamed : newPassword ≠ some [])
    (hkeeps : vault.KeepsKey key) (hnone : vault.NoneRewrapped) :
    ((vault.writeWrappedMasterKey derive key newPassword).setTask task
      (some (.rewrapped newPassword))).Kept derive where
  tokens token hmem := hasKey_write hkeeps (h.tokens token hmem)
  relied := h.write_relied hkeeps fun held hheld =>
    absurd hheld.symm (some_ne_none held)
  named other found hfound := by
    rcases setTask_eq_some.mp hfound with ⟨-, heq⟩ | ⟨-, hother⟩
    · rw [← some.inj heq]
      exact hnamed
    · exact h.named other found hother
  opens hnew := absurd (setTask_eq_some.mpr (.inl ⟨rfl, rfl⟩))
    (hnew task newPassword)
  rewrapped other password hfound := by
    rcases setTask_eq_some.mp hfound with ⟨hsame, heq⟩ | ⟨-, hother⟩
    · obtain rfl : newPassword = password := by
        simpa using some.inj heq
      refine ⟨opens_write vault key newPassword, fun third password hthird => ?_⟩
      rcases setTask_eq_some.mp hthird with ⟨hthird, -⟩ | ⟨-, hthird⟩
      · rw [hthird, hsame]
      · exact absurd hthird (hnone third password)
    · exact absurd hother (hnone other password)

/-- The change of the password ends what the write has begun. -/
theorem Kept.changePassword (h : vault.Kept derive)
    (htask : vault.tasks task = some (.rewrapped newPassword)) :
    ({ vault with masterPassword := setMasterPassword newPassword }.setTask task
      none).Kept derive := by
  obtain ⟨hopens, honly⟩ := h.rewrapped task newPassword htask
  have hnamed : newPassword ≠ some [] := h.named task _ htask
  constructor
  case tokens => exact h.tokens
  case relied =>
    intro other found key hfound hkey
    rcases setTask_eq_some.mp hfound with ⟨-, heq⟩ | ⟨-, hother⟩
    · exact absurd heq.symm (some_ne_none found)
    · exact h.relied other found key hother hkey
  case named =>
    intro other found hfound
    rcases setTask_eq_some.mp hfound with ⟨-, heq⟩ | ⟨-, hother⟩
    · exact absurd heq.symm (some_ne_none found)
    · exact h.named other found hother
  case opens =>
    intro _
    change Opens derive vault (setMasterPassword newPassword)
    rw [setMasterPassword_eq hnamed]
    exact hopens
  case rewrapped =>
    intro other password hfound
    rcases setTask_eq_some.mp hfound with ⟨-, heq⟩ | ⟨hne, hother⟩
    · exact absurd heq.symm (some_ne_none _)
    · exact absurd (honly other password hother) hne

omit [DecidableEq ω] in
theorem tasks_useMasterKey (key : κ) (purpose : Purpose κ) :
    (vault.useMasterKey key purpose).tasks = vault.tasks := by
  cases purpose <;> rfl

theorem Kept.useMasterKey (h : vault.Kept derive) {key : κ}
    (hkey : vault.HasKey key) (purpose : Purpose κ) :
    (vault.useMasterKey key purpose).Kept derive := by
  cases purpose with
  | encrypt plaintext =>
    refine ⟨?_, h.relied, h.named, h.opens, h.rewrapped⟩
    intro token hmem
    rcases List.mem_cons.mp hmem with rfl | hmem
    · exact hkey
    · exact h.tokens token hmem
  | decrypt token => exact h
  | verify => exact h

theorem Kept.readPassword (h : vault.Kept derive)
    {found : Option (WrappedMasterKey κ ω)} {purpose : Purpose κ}
    (htask : vault.tasks task = some (.loaded found purpose)) (generated : κ) :
    (vault.readPassword derive task found purpose generated).Kept derive := by
  have hold : ∀ password, vault.tasks task ≠ some (.rewrapped password) := by
    intro password heq
    rw [htask] at heq
    cases heq
  have hwriting (key : κ) : (vault.setTask task
      (some (.writing found key vault.masterPassword purpose))).Kept derive := by
    apply h.setTask hold
    · rintro other held ⟨⟩ hheld
      exact absurd hheld.symm (some_ne_none held)
    · rintro other ⟨⟩
      exact (some_ne_none _).symm
    · exact fun password heq => by cases heq
  cases found with
  | none => exact hwriting generated
  | some raw =>
    have hraw : vault.HasKey raw.masterKey :=
      h.relied task _ raw.masterKey htask rfl
    rw [Vault.readPassword]
    split
    next =>
      apply h.setTask hold
      · exact fun _ _ heq => by cases heq
      · exact fun _ heq => by cases heq
      · exact fun _ heq => by cases heq
    next key hunwrap =>
      apply h.setTask hold
      · rintro other held ⟨⟩ hheld
        obtain rfl := some.inj hheld
        exact hasKey_of_unwrap hraw hunwrap
      · rintro other ⟨⟩
        exact (some_ne_none _).symm
      · exact fun password heq => by cases heq
    next key hunwrap => exact hwriting key

theorem Kept.rewrapMasterKey (h : vault.Kept derive)
    {oldPassword : Option Str} (hfree : vault.tasks task = none)
    (hnamed : newPassword ≠ some []) (generated : κ) :
    (vault.rewrapMasterKey derive task oldPassword newPassword
      generated).Kept derive := by
  have hfresh : ∀ password, vault.tasks task ≠ some (.rewrapped password) :=
    fun password htask => absurd (hfree.symm.trans htask).symm (some_ne_none _)
  have hrewrapping (key : κ) :
      (vault.setTask task (some (.rewrapping key newPassword))).Kept derive := by
    apply h.setTask hfresh
    · rintro found held ⟨⟩ hheld
      exact absurd hheld.symm (some_ne_none held)
    · rintro found ⟨⟩
      exact hnamed
    · exact fun password heq => by cases heq
  rw [Vault.rewrapMasterKey]
  split
  next => exact hrewrapping generated
  next raw hraw =>
    split
    next => exact h
    next key legacy hunwrap => exact hrewrapping key

theorem Kept.step (h : vault.Kept derive) {event : Event κ} {next : Vault κ ω}
    (hundisturbed : vault.Undisturbed event)
    (hstep : vault.step derive event = some next) : next.Kept derive := by
  have hidle {task : Nat} (hfree : vault.tasks task = none) :
      ∀ password, vault.tasks task ≠ some (.rewrapped password) :=
    fun password htask => absurd (hfree.symm.trans htask).symm (some_ne_none _)
  cases event with
  | getMasterKey task purpose =>
    simp only [Vault.step] at hstep
    split at hstep
    next hfree =>
      obtain rfl := some.inj hstep
      apply h.setTask (hidle hfree)
      · rintro found key ⟨⟩ hkey
        obtain ⟨raw, hraw, rfl⟩ := map_eq_some_iff.mp hkey
        exact ⟨raw, hraw, rfl⟩
      · rintro found ⟨⟩
        exact (some_ne_none _).symm
      · exact fun password heq => by cases heq
    next => exact absurd hstep.symm (some_ne_none next)
  | readPassword task generated =>
    simp only [Vault.step] at hstep
    split at hstep
    next found purpose htask =>
      obtain rfl := some.inj hstep
      exact h.readPassword htask generated
    next => exact absurd hstep.symm (some_ne_none next)
  | rewrapMasterKey task oldPassword newPassword generated =>
    simp only [Vault.step] at hstep
    split at hstep
    next hfree =>
      obtain rfl := some.inj hstep
      exact h.rewrapMasterKey hfree.1 hfree.2 generated
    next => exact absurd hstep.symm (some_ne_none next)
  | write task =>
    simp only [Vault.step] at hstep
    simp only [Undisturbed] at hundisturbed
    split at hstep
    next found key password purpose htask =>
      rw [htask] at hundisturbed
      obtain ⟨hkeeps, hnone, rfl⟩ := hundisturbed
      obtain rfl := some.inj hstep
      exact h.write hkeeps hnone
    next key newPassword htask =>
      rw [htask] at hundisturbed
      obtain rfl := some.inj hstep
      exact h.rewrap (h.named task _ htask) hundisturbed.1 hundisturbed.2
    next => exact absurd hstep.symm (some_ne_none next)
  | finish task =>
    simp only [Vault.step] at hstep
    split at hstep
    next key purpose htask =>
      obtain rfl := some.inj hstep
      have hkey : vault.HasKey key := h.relied task _ key htask rfl
      apply (h.useMasterKey hkey purpose).setTask
      · intro password heq
        rw [tasks_useMasterKey, htask] at heq
        cases heq
      · exact fun _ _ heq => by cases heq
      · exact fun _ heq => by cases heq
      · exact fun _ heq => by cases heq
    next newPassword htask =>
      obtain rfl := some.inj hstep
      exact h.changePassword htask
    next => exact absurd hstep.symm (some_ne_none next)
  | fail task =>
    simp only [Vault.step] at hstep
    split at hstep
    next => exact absurd hstep.symm (some_ne_none next)
    next => exact absurd hstep.symm (some_ne_none next)
    next phase hother htask =>
      obtain rfl := some.inj hstep
      apply h.setTask
      · intro password heq
        rw [htask] at heq
        exact hother password (some.inj heq)
      · exact fun _ _ heq => by cases heq
      · exact fun _ heq => by cases heq
      · exact fun _ heq => by cases heq

end Steps

section Secrets

variable [DecidableEq κ]

theorem Sound.kept {vault : Vault κ ω} (h : vault.Sound derive) :
    vault.Kept derive where
  tokens token hmem := by
    have hdecrypts := h.tokens token hmem
    obtain ⟨key, hkey, htoken⟩ := bind_eq_some_iff.mp hdecrypts
    obtain ⟨raw, hraw, hunwrap⟩ := bind_eq_some_iff.mp hkey
    obtain ⟨⟨found, legacy⟩, hfound, rfl⟩ := map_eq_some_iff.mp hunwrap
    split at htoken
    next heq => exact ⟨raw, hraw, (unwrapped_key hfound).symm.trans heq⟩
    next => exact absurd htoken.symm (some_ne_none _)
  relied task phase key htask _ :=
    absurd ((h.idle task).symm.trans htask).symm (some_ne_none phase)
  named task phase htask :=
    absurd ((h.idle task).symm.trans htask).symm (some_ne_none phase)
  opens _ := h.opens
  rewrapped task newPassword htask :=
    absurd ((h.idle task).symm.trans htask).symm (some_ne_none _)

theorem Kept.recoverable {vault : Vault κ ω} (h : vault.Kept derive) :
    vault.Recoverable derive := by
  intro hidle token hmem
  have hnone : vault.NoneRewrapped := fun task newPassword htask =>
    absurd ((hidle task).symm.trans htask).symm (some_ne_none _)
  obtain ⟨raw, hraw, hkey⟩ := h.tokens token hmem
  obtain ⟨⟨found, legacy⟩, hfound⟩ :=
    isSome_iff_exists.mp (h.opens hnone raw hraw)
  have hmaster : vault.masterKey derive = some token.key := by
    rw [masterKey, hraw, bind_some, hfound, map_some,
      unwrapped_key hfound, hkey]
  rw [decrypt, hmaster, bind_some, if_pos rfl]

/-- In a run in which every write is undisturbed, every token that has been
returned decrypts to its plaintext once all calls have finished. -/
theorem tokens_recoverable (derive : Derive ω) (start : Vault κ ω)
    (hstart : start.Sound derive) (events : List (Event κ))
    (vault : Vault κ ω)
    (hrun : (system derive).runFrom start events = some vault)
    (hundisturbed : (system derive).Along Undisturbed start events) :
    vault.Recoverable derive := by
  have hkept := (system derive).run_invariant_along
    (fun _ _ _ h hevent hstep => h.step hevent hstep) hstart.kept hundisturbed
    hrun
  exact hkept.recoverable

end Secrets

/-- Digests that tell all prefixes and passwords apart. -/
def sampleDerive : Derive (WrappingPrefix × Option Str) := Prod.mk

def unused : Vault Nat (WrappingPrefix × Option Str) where
  stored := none
  masterPassword := none
  tasks := fun _ => none
  tokens := []

theorem unused_sound : unused.Sound sampleDerive where
  idle _ := rfl
  opens raw hraw := absurd hraw.symm (some_ne_none raw)
  tokens _ hmem := absurd hmem List.not_mem_nil

/-- A secret is encrypted, and then a password is set. -/
def encryptThenRewrap : List (Event Nat) :=
  [.getMasterKey 0 (.encrypt "s".toList), .readPassword 0 7, .write 0, .finish
    0, .rewrapMasterKey 1 none (some "p".toList) 8, .write 1, .finish 1]

theorem encryptThenRewrap_recoverable :
    ∃ vault, (system sampleDerive).runFrom unused encryptThenRewrap =
        some vault ∧ vault.tokens ≠ [] ∧ vault.Recoverable sampleDerive := by
  refine ⟨_, rfl, List.cons_ne_nil _ _, ?_⟩
  refine tokens_recoverable sampleDerive unused unused_sound encryptThenRewrap
    _ rfl ?_
  refine ⟨trivial, ?_⟩
  rintro _ ⟨⟩
  refine ⟨trivial, ?_⟩
  rintro _ ⟨⟩
  refine ⟨⟨fun raw hraw => absurd hraw.symm (some_ne_none raw), ?_,
    rfl⟩, ?_⟩
  · rintro (_ | task) newPassword ⟨⟩
  rintro _ ⟨⟩
  refine ⟨trivial, ?_⟩
  rintro _ ⟨⟩
  refine ⟨trivial, ?_⟩
  rintro _ ⟨⟩
  refine ⟨⟨?_, ?_⟩, ?_⟩
  · rintro raw ⟨⟩
    rfl
  · rintro (_ | _ | task) newPassword ⟨⟩
  rintro _ ⟨⟩
  exact ⟨trivial, fun _ _ => trivial⟩

/-- Two secrets are encrypted at the same time before there is a key. -/
def firstEncryptions : List (Event Nat) :=
  [.getMasterKey 0 (.encrypt "a".toList),
    .getMasterKey 1 (.encrypt "b".toList), .readPassword 0 7,
    .readPassword 1 8, .write 0, .finish 0, .write 1, .finish 1]

theorem first_encryption_lost :
    ¬ ∀ (start : Vault Nat (WrappingPrefix × Option Str))
      (events : List (Event Nat))
      (vault : Vault Nat (WrappingPrefix × Option Str)), start.Sound
      sampleDerive → (system sampleDerive).runFrom start events = some vault →
      vault.Recoverable sampleDerive := by
  intro h
  have hrecoverable := h unused firstEncryptions _ unused_sound rfl
  refine absurd (hrecoverable ?_ ⟨7, "a".toList⟩ ?_) (by decide)
  · rintro (_ | _ | task) <;> rfl
  · exact List.mem_cons_of_mem _ List.mem_cons_self

end Vault

end NiceTerm.Crypto
