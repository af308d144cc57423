/-
What openmls promises, as far as the results on groups rest on it: commits lead from one epoch to the
next and are accepted only where they were made, welcomes lead where their commit does, and a message
is encrypted under the generation its sender's state records.
-/
import Mathlib.Data.Prod.Lex
import GhostCrypt.Mls.Change

namespace GhostCrypt.Mls

/-! ## Members and epochs -/

/-- What can be told of a group: whose state it is, who is in it, and the secrets of its epoch. -/
structure Observer (M : OpenMls) where
  Member : Type
  Members : Type
  Secrets : Type
  member : M.MlsGroup → Member
  members : M.MlsGroup → Members
  epochSecrets : M.MlsGroup → Secrets
  isActive : M.MlsGroup → Prop
  /-- No application message of the epoch was sent or received. -/
  isFresh : M.MlsGroup → Prop

/-- What the members of an epoch share. -/
structure View {M : OpenMls} (R : Observer M) where
  groupId : M.GroupId
  epoch : ℕ
  members : R.Members
  epochSecrets : R.Secrets

variable {M : OpenMls}

def Observer.view (R : Observer M) (group : M.MlsGroup) : View R :=
  { groupId := M.groupId group, epoch := M.epoch group, members := R.members group
    epochSecrets := R.epochSecrets group }

/-- The bytes of a commit that leads from the loaded group to `target`. -/
def CommitTo (loaded : Loaded M) (target : M.MlsGroup) (bytes : Bytes) : Prop :=
  loaded.Held ∧ ∃ commit welcome provider,
    M.Commits loaded commit welcome target provider ∧ M.serializeMessage commit = .ok bytes

/-- The bytes of the welcome of such a commit. -/
def WelcomeTo (loaded : Loaded M) (target : M.MlsGroup) (bytes : Bytes) : Prop :=
  loaded.Held ∧ ∃ commit welcome provider,
    M.Commits loaded commit (some welcome) target provider ∧ M.serializeMessage welcome = .ok bytes

/-- The group is where `target` is, and its provider holds it. -/
structure Reaches (R : Observer M) (target group : M.MlsGroup) (provider : Storage) : Prop where
  view : R.isActive group → R.view group = R.view target
  fresh : R.isFresh group
  holds : M.Holds provider group

/-- The next epoch of the same group. -/
structure Next (target group : M.MlsGroup) : Prop where
  groupId : M.groupId target = M.groupId group
  epoch : M.epoch target = M.epoch group + 1

/-- What openmls promises of commits, welcomes and application messages. -/
structure Observer.Lawful (R : Observer M) : Prop where
  serde : M.Serde
  loads : M.LoadsById
  /-- An active member commits, and merging its commit leads it to the next epoch. -/
  commits : ∀ {loaded : Loaded M} {commit welcome target provider}, loaded.Held →
    M.Commits loaded commit welcome target provider →
    R.isActive loaded.group ∧ Next target loaded.group ∧ Reaches R target target provider
  /-- A commit is accepted only where it was made. -/
  accepts : ∀ {loaded taker : Loaded M} {target bytes message content group provider}, CommitTo loaded target bytes →
    M.Reads bytes message → taker.Held →
    M.processMessage taker.group taker.provider message = .ok (content, group, provider) →
    R.view taker.group = R.view loaded.group ∧ ∃ stagedCommit, content = .stagedCommitMessage stagedCommit
  /-- Merging it leads where it led its maker. -/
  takes : ∀ {loaded taker : Loaded M} {target bytes message group provider}, CommitTo loaded target bytes →
    M.Reads bytes message → taker.Held → M.Takes taker message group provider → Reaches R target group provider
  /-- So does a welcome. -/
  joins : ∀ {loaded : Loaded M} {target bytes group provider provider'}, WelcomeTo loaded target bytes →
    M.Joins provider bytes group provider' → Reaches R target group provider'
  /-- Different commits give different epoch secrets. -/
  differ : ∀ {loaded loaded' : Loaded M} {target target' bytes bytes'}, CommitTo loaded target bytes →
    CommitTo loaded' target' bytes' → bytes ≠ bytes' → R.epochSecrets target ≠ R.epochSecrets target'
  /-- The first application message of an epoch can be read by every other member that shares it. -/
  receives : ∀ {loaded taker : Loaded M} {rng plaintext message group provider bytes}, loaded.Held → taker.Held →
    R.isActive loaded.group → R.isActive taker.group → R.isFresh loaded.group → R.isFresh taker.group →
    R.view loaded.group = R.view taker.group → R.member loaded.group ≠ R.member taker.group →
    M.createMessage rng loaded.group loaded.provider loaded.signer plaintext = .ok (message, group, provider) →
    M.serializeMessage message = .ok bytes →
    ∃ message group' provider', M.Reads bytes message ∧
      M.processMessage taker.group taker.provider message = .ok (.applicationMessage plaintext, group', provider')

/-! ## Sender generations -/

/-- The message key of a ciphertext: a generation of a member's sender ratchet in an epoch. -/
structure MessageKey (Member GroupId : Type) where
  member : Member
  groupId : GroupId
  epoch : ℕ
  generation : ℕ

namespace MessageKey

variable {Member GroupId : Type}

def owner (k : MessageKey Member GroupId) : Member × GroupId := (k.member, k.groupId)

/-- Epochs first, then generations. -/
def position (k : MessageKey Member GroupId) : ℕ ×ₗ ℕ := toLex (k.epoch, k.generation)

def next (k : MessageKey Member GroupId) : MessageKey Member GroupId := { k with generation := k.generation + 1 }

theorem position_lt_next (k : MessageKey Member GroupId) : k.position < k.next.position :=
  Prod.Lex.toLex_lt_toLex.2 (.inr ⟨rfl, Nat.lt_succ_self _⟩)

theorem position_lt_of_epoch {k k' : MessageKey Member GroupId} (h : k.epoch < k'.epoch) : k.position < k'.position :=
  Prod.Lex.toLex_lt_toLex.2 (.inl h)

end MessageKey

/-- Whose state a group is, the generation it records, and the key of a ciphertext. -/
structure Sender (M : OpenMls) where
  Member : Type
  member : M.MlsGroup → Member
  generation : M.MlsGroup → ℕ
  keyOf : Bytes → MessageKey Member M.GroupId

/-- The key the next message of a group is encrypted under. -/
def Sender.recorded (S : Sender M) (group : M.MlsGroup) : MessageKey S.Member M.GroupId :=
  { member := S.member group, groupId := M.groupId group, epoch := M.epoch group, generation := S.generation group }

/-- The group that loads after a change records `P`. -/
def Sender.Records (S : Sender M) (group : M.MlsGroup) (provider : Storage)
    (P : MessageKey S.Member M.GroupId → Prop) : Prop :=
  ∃ stored, M.load provider (M.groupId group) = .ok (some stored) ∧ P (S.recorded stored)

/-- What openmls promises of sender generations. -/
structure Sender.Lawful (S : Sender M) : Prop where
  serde : M.Serde
  loads : M.LoadsById
  /-- A message uses the generation recorded. -/
  uses : ∀ {loaded : Loaded M} {rng plaintext message group provider bytes}, loaded.Held →
    M.createMessage rng loaded.group loaded.provider loaded.signer plaintext = .ok (message, group, provider) →
    M.serializeMessage message = .ok bytes → S.keyOf bytes = S.recorded loaded.group
  /-- The state that results records the next one. -/
  creates : ∀ {loaded : Loaded M} {rng plaintext message group provider}, loaded.Held →
    M.createMessage rng loaded.group loaded.provider loaded.signer plaintext = .ok (message, group, provider) →
    S.Records group provider fun k => k = (S.recorded loaded.group).next
  /-- Merging a commit leads to a later epoch. -/
  commits : ∀ {loaded : Loaded M} {commit welcome group provider}, loaded.Held →
    M.Commits loaded commit welcome group provider →
    S.Records group provider fun k => k.owner = (S.recorded loaded.group).owner ∧ M.epoch loaded.group < k.epoch
  takes : ∀ {loaded : Loaded M} {message group provider}, loaded.Held → M.Takes loaded message group provider →
    S.Records group provider fun k => k.owner = (S.recorded loaded.group).owner ∧ M.epoch loaded.group < k.epoch
  /-- Messages of others leave the own generation alone. -/
  keeps : ∀ {loaded : Loaded M} {message group provider}, loaded.Held → M.Keeps loaded message group provider →
    S.Records group provider fun k => k = S.recorded loaded.group
  decrypts : ∀ {loaded : Loaded M} {message plaintext group provider}, loaded.Held →
    M.processMessage loaded.group loaded.provider message = .ok (.applicationMessage plaintext, group, provider) →
    S.Records group provider fun k => k = S.recorded loaded.group

end GhostCrypt.Mls
