/-
The functions of `mls/mod.rs`, over the crates of `OpenMls`. Each takes a blob, rebuilds the group
and its provider from it, and returns a new blob; a function that draws randomness is given it.
-/
import GhostCrypt.Mls.OpenMls

namespace GhostCrypt.Mls

variable (M : OpenMls)

/-! ## Results -/

structure MlsKeyPackageResult where
  keyPackage : Bytes
  secretBundle : Bytes

structure CreateGroupResult where
  groupState : Bytes
  groupId : Bytes
  epoch : ℕ

structure AddMemberResult where
  commit : Bytes
  welcome : Bytes
  groupState : Bytes
  epoch : ℕ

structure RemoveMemberResult where
  commit : Bytes
  groupState : Bytes
  epoch : ℕ

structure EncryptResult where
  mlsCiphertext : Bytes
  groupState : Bytes
  epoch : ℕ

structure DecryptResult where
  plaintext : Bytes
  groupState : Bytes

structure ProcessCommitResult where
  groupState : Bytes
  epoch : ℕ

structure ProcessWelcomeResult where
  groupState : Bytes
  groupId : Bytes
  epoch : ℕ

/-! ## Helpers -/

/-- `CIPHERSUITE`, `MLS_128_DHKEMX25519_AES128GCM_SHA256_Ed25519`. -/
def ciphersuite : Ciphersuite := 0x0001

/-- `default_group_create_config`. -/
def defaultGroupCreateConfig : MlsGroupCreateConfig := { ciphersuite, useRatchetTreeExtension := true }

/-- `default_group_join_config`. -/
def defaultGroupJoinConfig : MlsGroupJoinConfig := { useRatchetTreeExtension := true }

/-- A `Result` with `map_err` and `?`. -/
def orErr {α : Type} (x : Except String α) (f : String → CryptoError) : Outcome CryptoError α :=
  .ofExcept (x.mapError f)

@[simp] theorem orErr_eq_ok {α : Type} {x : Except String α} {f : String → CryptoError} {a : α} :
    orErr x f = .ok a ↔ x = .ok a := by
  cases x <;> simp [orErr, Except.mapError]

/-- The `Debug` text of a byte slice. -/
def debugBytes (bytes : Bytes) : String := "[" ++ ", ".intercalate (bytes.map fun b => toString b) ++ "]"

/-- `serialize_bundle`. -/
def serializeBundle (bundle : GroupBundle) : Outcome CryptoError Bytes :=
  orErr (M.groupBundle.toVec bundle) .serialization

/-- `deserialize_bundle`. -/
def deserializeBundle (bytes : Bytes) : Outcome CryptoError GroupBundle :=
  orErr (M.groupBundle.fromSlice bytes) .serialization

/-- What `load_group` returns. -/
structure Loaded where
  group : M.MlsGroup
  provider : Storage
  signer : M.SignatureKeyPair
  credentialWithKey : M.CredentialWithKey

/-- The group that was found, or an error. -/
def okOrNotFound (groupId : M.GroupId) : Option M.MlsGroup → Outcome CryptoError M.MlsGroup
  | some group => .ok group
  | none => .err (.mlsGroupNotFound s!"no group found for id {debugBytes (M.groupIdBytes groupId)}")

/-- `load_group`. -/
def loadGroup (bundle : GroupBundle) : Outcome CryptoError (Loaded M) := do
  let provider ← providerFromStore bundle.store
  let signer ← orErr (M.signatureKeyPair.fromSlice bundle.signer) fun e => .serialization s!"signer: {e}"
  let credentialWithKey ← orErr (M.credential.fromSlice bundle.credentialWithKey) fun e =>
    .serialization s!"credential: {e}"
  let groupId ← orErr (M.groupIdCodec.fromSlice bundle.groupId) fun e => .serialization s!"group_id: {e}"
  let found ← orErr (M.load provider groupId) fun e => .mls s!"storage error loading group: {e}"
  let group ← okOrNotFound M groupId found
  return { group, provider, signer, credentialWithKey }

/-- `save_group`. -/
def saveGroup (group : M.MlsGroup) (provider : Storage) (signer : M.SignatureKeyPair)
    (credentialWithKey : M.CredentialWithKey) : Outcome CryptoError Bytes := do
  let signer ← orErr (M.signatureKeyPair.toVec signer) .serialization
  let credentialWithKey ← orErr (M.credential.toVec credentialWithKey) .serialization
  let groupId ← orErr (M.groupIdCodec.toVec (M.groupId group)) .serialization
  serializeBundle M { store := snapshotStore provider, signer, credentialWithKey, groupId }

/-- `serialize_mls_message`. -/
def serializeMlsMessage (msg : M.MlsMessageOut) : Outcome CryptoError Bytes :=
  orErr (M.serializeMessage msg) fun e => .serialization s!"tls_serialize: {e}"

/-- `deserialize_mls_message`. -/
def deserializeMlsMessage (bytes : Bytes) : Outcome CryptoError M.MlsMessageIn :=
  orErr (M.deserializeMessage bytes) fun e => .serialization s!"tls_deserialize MlsMessageIn: {e}"

/-! ## Public functions -/

/-- A signer drawn and stored in a fresh provider, and the credential of `identity`. -/
def newCredential (rng : M.Rng) (identity : Bytes) :
    Outcome CryptoError (M.SignatureKeyPair × Storage × M.CredentialWithKey) := do
  let signer ← orErr (M.newSigner rng ciphersuite) fun e => .keyGeneration s!"signature keypair: {e}"
  let provider ← orErr (M.storeSigner signer ∅) fun e => .keyGeneration s!"store signer: {e}"
  return (signer, provider, M.credentialWithKey identity signer)

/-- `generate_key_package`. -/
def generateKeyPackage (rng : M.Rng) (identity : Bytes) : Outcome CryptoError MlsKeyPackageResult := do
  let (signer, provider, credentialWithKey) ← newCredential M rng identity
  let (keyPackage, provider) ← orErr (M.buildKeyPackage rng ciphersuite provider signer credentialWithKey) fun e =>
    .keyGeneration s!"key package build: {e}"
  let kpBytes ← orErr (M.serializeKeyPackage keyPackage) fun e => .serialization s!"key package tls: {e}"
  let signer ← orErr (M.signatureKeyPair.toVec signer) .serialization
  let credentialWithKey ← orErr (M.credential.toVec credentialWithKey) .serialization
  let secretBytes ← orErr (M.secretBundle.toVec { store := snapshotStore provider, signer, credentialWithKey })
    .serialization
  return { keyPackage := kpBytes, secretBundle := secretBytes }

/-- `create_group`. -/
def createGroup (rng : M.Rng) (identity : Bytes) : Outcome CryptoError CreateGroupResult := do
  let (signer, provider, credentialWithKey) ← newCredential M rng identity
  let (group, provider) ← orErr (M.newGroup rng provider signer defaultGroupCreateConfig credentialWithKey) fun e =>
    .mls s!"create group: {e}"
  let state ← saveGroup M group provider signer credentialWithKey
  return { groupState := state, groupId := M.groupIdBytes (M.groupId group), epoch := M.epoch group }

/-- `add_member`. -/
def addMember (rng : M.Rng) (groupState keyPackageBytes : Bytes) : Outcome CryptoError AddMemberResult := do
  let bundle ← deserializeBundle M groupState
  let loaded ← loadGroup M bundle
  let keyPackageIn ← orErr (M.deserializeKeyPackage keyPackageBytes) fun e =>
    .serialization s!"key package tls deser: {e}"
  let keyPackage ← orErr (M.validate keyPackageIn) fun e => .mls s!"key package validation: {e}"
  let (commitMsg, welcomeMsg, group, provider) ←
    orErr (M.addMembers rng loaded.group loaded.provider loaded.signer [keyPackage]) fun e => .mls s!"add_members: {e}"
  let (group, provider) ← orErr (M.mergePendingCommit group provider) fun e => .mls s!"merge_pending_commit: {e}"
  let state ← saveGroup M group provider loaded.signer loaded.credentialWithKey
  let commit ← serializeMlsMessage M commitMsg
  let welcome ← serializeMlsMessage M welcomeMsg
  return { commit, welcome, groupState := state, epoch := M.epoch group }

/-- `remove_member`. -/
def removeMember (rng : M.Rng) (groupState : Bytes) (leafIndex : UInt32) :
    Outcome CryptoError RemoveMemberResult := do
  let bundle ← deserializeBundle M groupState
  let loaded ← loadGroup M bundle
  let (commitMsg, group, provider) ←
    orErr (M.removeMembers rng loaded.group loaded.provider loaded.signer [leafIndex]) fun e =>
      .mls s!"remove_members: {e}"
  let (group, provider) ← orErr (M.mergePendingCommit group provider) fun e => .mls s!"merge_pending_commit: {e}"
  let state ← saveGroup M group provider loaded.signer loaded.credentialWithKey
  let commit ← serializeMlsMessage M commitMsg
  return { commit, groupState := state, epoch := M.epoch group }

/-- `encrypt_message`. -/
def encryptMessage (rng : M.Rng) (groupState plaintext : Bytes) : Outcome CryptoError EncryptResult := do
  let bundle ← deserializeBundle M groupState
  let loaded ← loadGroup M bundle
  let (ciphertextMsg, group, provider) ←
    orErr (M.createMessage rng loaded.group loaded.provider loaded.signer plaintext) fun e =>
      .encryption s!"create_message: {e}"
  let state ← saveGroup M group provider loaded.signer loaded.credentialWithKey
  let mlsCiphertext ← serializeMlsMessage M ciphertextMsg
  return { mlsCiphertext, groupState := state, epoch := M.epoch group }

/-- A proposal is kept for a later commit; its sender's plaintext is empty. -/
def keepProposal (loaded : Loaded M) (group : M.MlsGroup) (provider : Storage) (proposal : M.Proposal) :
    Outcome CryptoError DecryptResult := do
  let (group, provider) ← orErr (M.storePendingProposal group provider proposal) fun e =>
    .mls s!"store_pending_proposal: {e}"
  let state ← saveGroup M group provider loaded.signer loaded.credentialWithKey
  return { plaintext := [], groupState := state }

/-- The `match` of `decrypt_message`. -/
def decryptContent (loaded : Loaded M) (group : M.MlsGroup) (provider : Storage) :
    ProcessedMessageContent M.StagedCommit M.Proposal → Outcome CryptoError DecryptResult
  | .applicationMessage bytes => do
    let state ← saveGroup M group provider loaded.signer loaded.credentialWithKey
    return { plaintext := bytes, groupState := state }
  | .stagedCommitMessage stagedCommit => do
    let (group, provider) ← orErr (M.mergeStagedCommit group provider stagedCommit) fun e =>
      .mls s!"merge_staged_commit: {e}"
    let state ← saveGroup M group provider loaded.signer loaded.credentialWithKey
    return { plaintext := [], groupState := state }
  | .proposalMessage proposal => keepProposal M loaded group provider proposal
  | .externalJoinProposalMessage proposal => keepProposal M loaded group provider proposal

/-- `decrypt_message`. -/
def decryptMessage (groupState mlsMessageBytes : Bytes) : Outcome CryptoError DecryptResult := do
  let bundle ← deserializeBundle M groupState
  let loaded ← loadGroup M bundle
  let mlsMessageIn ← deserializeMlsMessage M mlsMessageBytes
  let protocolMessage ← orErr (M.tryIntoProtocolMessage mlsMessageIn) fun e =>
    .decryption s!"not a protocol message: {e}"
  let (content, group, provider) ← orErr (M.processMessage loaded.group loaded.provider protocolMessage) fun e =>
    .decryption s!"process_message: {e}"
  decryptContent M loaded group provider content

/-- The `match` of `process_commit`: the group after the commit. -/
def mergeCommit (group : M.MlsGroup) (provider : Storage) :
    ProcessedMessageContent M.StagedCommit M.Proposal → Outcome CryptoError (M.MlsGroup × Storage)
  | .stagedCommitMessage stagedCommit =>
    orErr (M.mergeStagedCommit group provider stagedCommit) fun e => .mls s!"merge_staged_commit: {e}"
  | other => .err (.mls s!"expected a commit message, got: {M.debug other}")

/-- `process_commit`. -/
def processCommit (groupState commitBytes : Bytes) : Outcome CryptoError ProcessCommitResult := do
  let bundle ← deserializeBundle M groupState
  let loaded ← loadGroup M bundle
  let mlsMessageIn ← deserializeMlsMessage M commitBytes
  let protocolMessage ← orErr (M.tryIntoProtocolMessage mlsMessageIn) fun e => .mls s!"not a protocol message: {e}"
  let (content, group, provider) ← orErr (M.processMessage loaded.group loaded.provider protocolMessage) fun e =>
    .mls s!"process_message: {e}"
  let (group, provider) ← mergeCommit M group provider content
  let state ← saveGroup M group provider loaded.signer loaded.credentialWithKey
  return { groupState := state, epoch := M.epoch group }

/-- The welcome a message carries. -/
def welcomeOf (msg : M.MlsMessageIn) : Outcome CryptoError M.Welcome :=
  match M.extractWelcome msg with
  | some welcome => .ok welcome
  | none => .err (.mls "expected a Welcome message")

/-- `process_welcome`. -/
def processWelcome (welcomeBytes secretBundleBytes : Bytes) : Outcome CryptoError ProcessWelcomeResult := do
  let secretBundle ← orErr (M.secretBundle.fromSlice secretBundleBytes) fun e => .serialization s!"secret bundle: {e}"
  let provider ← providerFromStore secretBundle.store
  let signer ← orErr (M.signatureKeyPair.fromSlice secretBundle.signer) fun e => .serialization s!"signer: {e}"
  let credentialWithKey ← orErr (M.credential.fromSlice secretBundle.credentialWithKey) fun e =>
    .serialization s!"credential: {e}"
  let mlsMessageIn ← deserializeMlsMessage M welcomeBytes
  let welcome ← welcomeOf M mlsMessageIn
  let (stagedWelcome, provider) ← orErr (M.newFromWelcome provider defaultGroupJoinConfig welcome) fun e =>
    .mls s!"staged welcome: {e}"
  let (group, provider) ← orErr (M.intoGroup stagedWelcome provider) fun e => .mls s!"welcome into_group: {e}"
  let state ← saveGroup M group provider signer credentialWithKey
  return { groupState := state, groupId := M.groupIdBytes (M.groupId group), epoch := M.epoch group }

end GhostCrypt.Mls
