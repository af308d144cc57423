/-
The crates under `mls/mod.rs`: openmls with its provider and credentials, tls_codec and serde_json.
Their types and functions are one structure; a function that writes to the provider returns the key
store it leaves, one that changes an `MlsGroup` returns the group, and errors are their texts.
-/
import GhostCrypt.Mls.Bundle

namespace GhostCrypt.Mls

/-- `serde_json` on one type. A `HashMap` is written in some order of its own. -/
structure Codec (α : Type) where
  toVec : α → Except String Bytes
  fromSlice : Bytes → Except String α

/-- Decoding inverts encoding, which does not fail. -/
structure Codec.Lawful {α : Type} (c : Codec α) : Prop where
  encodes : ∀ a, ∃ bytes, c.toVec a = .ok bytes
  decodes : ∀ {a bytes}, c.toVec a = .ok bytes → c.fromSlice bytes = .ok a

/-- `Ciphersuite`, by its code point. -/
abbrev Ciphersuite := UInt16

/-- `MlsGroupCreateConfig`. -/
structure MlsGroupCreateConfig where
  ciphersuite : Ciphersuite
  useRatchetTreeExtension : Bool

/-- `MlsGroupJoinConfig`. -/
structure MlsGroupJoinConfig where
  useRatchetTreeExtension : Bool

inductive ProcessedMessageContent (StagedCommit Proposal : Type)
  | applicationMessage (bytes : Bytes)
  | proposalMessage (proposal : Proposal)
  | externalJoinProposalMessage (proposal : Proposal)
  | stagedCommitMessage (stagedCommit : StagedCommit)

structure OpenMls where
  /-- The randomness a call draws. -/
  Rng : Type
  SignatureKeyPair : Type
  CredentialWithKey : Type
  GroupId : Type
  MlsGroup : Type
  KeyPackageIn : Type
  KeyPackage : Type
  MlsMessageOut : Type
  MlsMessageIn : Type
  ProtocolMessage : Type
  StagedCommit : Type
  Proposal : Type
  Welcome : Type
  StagedWelcome : Type
  -- serde_json
  groupBundle : Codec GroupBundle
  secretBundle : Codec KeyPackageSecretBundle
  signatureKeyPair : Codec SignatureKeyPair
  credential : Codec CredentialWithKey
  groupIdCodec : Codec GroupId
  -- openmls_basic_credential
  newSigner : Rng → Ciphersuite → Except String SignatureKeyPair
  storeSigner : SignatureKeyPair → Storage → Except String Storage
  credentialWithKey : (identity : Bytes) → SignatureKeyPair → CredentialWithKey
  -- key packages
  buildKeyPackage : Rng → Ciphersuite → Storage → SignatureKeyPair → CredentialWithKey →
    Except String (KeyPackage × Storage)
  serializeKeyPackage : KeyPackage → Except String Bytes
  deserializeKeyPackage : Bytes → Except String KeyPackageIn
  validate : KeyPackageIn → Except String KeyPackage
  -- messages
  serializeMessage : MlsMessageOut → Except String Bytes
  deserializeMessage : Bytes → Except String MlsMessageIn
  tryIntoProtocolMessage : MlsMessageIn → Except String ProtocolMessage
  /-- `extract`, where the body is a welcome. -/
  extractWelcome : MlsMessageIn → Option Welcome
  /-- The `Debug` text. -/
  debug : ProcessedMessageContent StagedCommit Proposal → String
  -- groups
  groupIdBytes : GroupId → Bytes
  groupId : MlsGroup → GroupId
  epoch : MlsGroup → ℕ
  newGroup : Rng → Storage → SignatureKeyPair → MlsGroupCreateConfig → CredentialWithKey →
    Except String (MlsGroup × Storage)
  load : Storage → GroupId → Except String (Option MlsGroup)
  addMembers : Rng → MlsGroup → Storage → SignatureKeyPair → List KeyPackage →
    Except String (MlsMessageOut × MlsMessageOut × MlsGroup × Storage)
  removeMembers : Rng → MlsGroup → Storage → SignatureKeyPair → List UInt32 →
    Except String (MlsMessageOut × MlsGroup × Storage)
  mergePendingCommit : MlsGroup → Storage → Except String (MlsGroup × Storage)
  createMessage : Rng → MlsGroup → Storage → SignatureKeyPair → Bytes →
    Except String (MlsMessageOut × MlsGroup × Storage)
  processMessage : MlsGroup → Storage → ProtocolMessage →
    Except String (ProcessedMessageContent StagedCommit Proposal × MlsGroup × Storage)
  mergeStagedCommit : MlsGroup → Storage → StagedCommit → Except String (MlsGroup × Storage)
  storePendingProposal : MlsGroup → Storage → Proposal → Except String (MlsGroup × Storage)
  newFromWelcome : Storage → MlsGroupJoinConfig → Welcome → Except String (StagedWelcome × Storage)
  intoGroup : StagedWelcome → Storage → Except String (MlsGroup × Storage)

namespace OpenMls

variable (M : OpenMls)

/-- What serde_json promises of the types written. -/
structure Serde : Prop where
  groupBundle : M.groupBundle.Lawful
  secretBundle : M.secretBundle.Lawful
  signatureKeyPair : M.signatureKeyPair.Lawful
  credential : M.credential.Lawful
  groupId : M.groupIdCodec.Lawful

/-- The key store holds the group as it stands. -/
def Holds (storage : Storage) (group : M.MlsGroup) : Prop :=
  M.load storage (M.groupId group) = .ok (some group)

/-- Loading returns the group of the id. -/
def LoadsById : Prop :=
  ∀ ⦃storage groupId group⦄, M.load storage groupId = .ok (some group) → M.groupId group = groupId

/-- A text that reads as a protocol message. -/
def Reads (bytes : Bytes) (message : M.ProtocolMessage) : Prop :=
  ∃ m, M.deserializeMessage bytes = .ok m ∧ M.tryIntoProtocolMessage m = .ok message

end OpenMls

end GhostCrypt.Mls
