/-
What is saved is what loads. The key store, the signer, the credential and the group id of a blob go
through any number of saves and loads as they are, and so does what a secret bundle holds.
-/
import Mathlib.Logic.Relation
import GhostCrypt.Mls.Reference

namespace GhostCrypt.Mls

variable (M : OpenMls)

/-! ## Contents -/

/-- What a blob holds besides the id of its group. -/
structure Contents where
  provider : Storage
  signer : M.SignatureKeyPair
  credentialWithKey : M.CredentialWithKey

/-- What `load_group` reads of a bundle before it looks the group up. -/
def readGroup (bundle : GroupBundle) : Outcome CryptoError (Contents M × M.GroupId) := do
  let provider ← providerFromStore bundle.store
  let signer ← orErr (M.signatureKeyPair.fromSlice bundle.signer) fun e => .serialization s!"signer: {e}"
  let credentialWithKey ← orErr (M.credential.fromSlice bundle.credentialWithKey) fun e =>
    .serialization s!"credential: {e}"
  let groupId ← orErr (M.groupIdCodec.fromSlice bundle.groupId) fun e => .serialization s!"group_id: {e}"
  return ({ provider, signer, credentialWithKey }, groupId)

/-- `MlsGroup::load` on what was read. -/
def findGroup (contents : Contents M) (groupId : M.GroupId) : Outcome CryptoError (Loaded M) := do
  let found ← orErr (M.load contents.provider groupId) fun e => .mls s!"storage error loading group: {e}"
  let group ← okOrNotFound M groupId found
  return { group, provider := contents.provider, signer := contents.signer
           credentialWithKey := contents.credentialWithKey }

theorem loadGroup_eq (bundle : GroupBundle) :
    loadGroup M bundle = readGroup M bundle >>= fun (contents, groupId) => findGroup M contents groupId := by
  simp only [loadGroup, readGroup, Outcome.bind_assoc]
  rfl

/-- The contents of a group state. -/
def openState (groupState : Bytes) : Outcome CryptoError (Contents M × M.GroupId) :=
  deserializeBundle M groupState >>= readGroup M

theorem loadState_eq (groupState : Bytes) :
    loadState M groupState = openState M groupState >>= fun (contents, groupId) => findGroup M contents groupId := by
  simp only [loadState, openState, Outcome.bind_assoc]
  exact congrArg _ (funext (loadGroup_eq M))

/-- The secret bundle `generate_key_package` writes at its end. -/
def writeSecret (provider : Storage) (signer : M.SignatureKeyPair) (credentialWithKey : M.CredentialWithKey) :
    Outcome CryptoError Bytes := do
  let signer ← orErr (M.signatureKeyPair.toVec signer) .serialization
  let credentialWithKey ← orErr (M.credential.toVec credentialWithKey) .serialization
  orErr (M.secretBundle.toVec { store := snapshotStore provider, signer, credentialWithKey }) .serialization

theorem generateKeyPackage_eq (rng : M.Rng) (identity : Bytes) : generateKeyPackage M rng identity = (do
    let (signer, provider, credentialWithKey) ← newCredential M rng identity
    let (keyPackage, provider) ← orErr (M.buildKeyPackage rng ciphersuite provider signer credentialWithKey) fun e =>
      .keyGeneration s!"key package build: {e}"
    let kpBytes ← orErr (M.serializeKeyPackage keyPackage) fun e => .serialization s!"key package tls: {e}"
    let secretBytes ← writeSecret M provider signer credentialWithKey
    return { keyPackage := kpBytes, secretBundle := secretBytes }) := by
  simp only [generateKeyPackage, writeSecret, Outcome.bind_assoc]

/-- What `process_welcome` reads of a secret bundle, before it looks at the welcome. -/
def openSecret (secretBundleBytes : Bytes) : Outcome CryptoError (Contents M) := do
  let secretBundle ← orErr (M.secretBundle.fromSlice secretBundleBytes) fun e => .serialization s!"secret bundle: {e}"
  let provider ← providerFromStore secretBundle.store
  let signer ← orErr (M.signatureKeyPair.fromSlice secretBundle.signer) fun e => .serialization s!"signer: {e}"
  let credentialWithKey ← orErr (M.credential.fromSlice secretBundle.credentialWithKey) fun e =>
    .serialization s!"credential: {e}"
  return { provider, signer, credentialWithKey }

/-- The rest of `process_welcome`. -/
def joinWith (welcomeBytes : Bytes) (contents : Contents M) : Outcome CryptoError ProcessWelcomeResult := do
  let mlsMessageIn ← deserializeMlsMessage M welcomeBytes
  let welcome ← welcomeOf M mlsMessageIn
  let (stagedWelcome, provider) ← orErr (M.newFromWelcome contents.provider defaultGroupJoinConfig welcome) fun e =>
    .mls s!"staged welcome: {e}"
  let (group, provider) ← orErr (M.intoGroup stagedWelcome provider) fun e => .mls s!"welcome into_group: {e}"
  let state ← saveGroup M group provider contents.signer contents.credentialWithKey
  return { groupState := state, groupId := M.groupIdBytes (M.groupId group), epoch := M.epoch group }

theorem processWelcome_eq (welcomeBytes secretBundleBytes : Bytes) :
    processWelcome M welcomeBytes secretBundleBytes = openSecret M secretBundleBytes >>= joinWith M welcomeBytes := by
  simp only [processWelcome, openSecret, Outcome.bind_assoc]
  rfl

/-! ## Rounds -/

variable {M}

/-- One round: what a blob holds is read and saved again, with a group of the id it names. -/
def Resaves (groupState groupState' : Bytes) : Prop :=
  ∃ contents group, openState M groupState = .ok (contents, M.groupId group) ∧
    saveGroup M group contents.provider contents.signer contents.credentialWithKey = .ok groupState'

/-- Loading a group and saving it is a round. -/
theorem resaves_of_loadState (hM : M.LoadsById) {groupState groupState' : Bytes} {loaded : Loaded M}
    (hload : loadState M groupState = .ok loaded) (hsave : loaded.Saves loaded.group loaded.provider groupState') :
    Resaves (M := M) groupState groupState' := by
  rw [loadState_eq, Outcome.bind_eq_ok] at hload
  obtain ⟨⟨contents, groupId⟩, hopen, hfind⟩ := hload
  simp only [findGroup, Outcome.bind_eq_ok, orErr_eq_ok, Outcome.pure_eq_ok, okOrNotFound_eq_ok] at hfind
  obtain ⟨_, hfound, group, rfl, rfl⟩ := hfind
  obtain rfl := hM hfound
  exact ⟨contents, group, hopen, hsave⟩

/-- What is saved is what is read. -/
theorem openState_saveGroup (hM : M.Serde) {group : M.MlsGroup} {contents : Contents M} {groupState : Bytes}
    (hsave : saveGroup M group contents.provider contents.signer contents.credentialWithKey = .ok groupState) :
    openState M groupState = .ok (contents, M.groupId group) := by
  simp only [saveGroup, serializeBundle, Outcome.bind_eq_ok, orErr_eq_ok] at hsave
  obtain ⟨s, hs, c, hc, i, hi, hb⟩ := hsave
  simp only [openState, deserializeBundle, readGroup, Outcome.bind_eq_ok, orErr_eq_ok, Outcome.pure_eq_ok]
  exact ⟨_, hM.groupBundle.decodes hb, contents.provider, providerFromStore_snapshotStore contents.provider,
    contents.signer, hM.signatureKeyPair.decodes hs, contents.credentialWithKey, hM.credential.decodes hc, _,
    hM.groupId.decodes hi, rfl⟩

/-- One round keeps what the blob holds. -/
theorem openState_resaves (hM : M.Serde) {groupState groupState' : Bytes}
    (h : Resaves (M := M) groupState groupState') :
    openState M groupState' = openState M groupState := by
  obtain ⟨contents, group, hopen, hsave⟩ := h
  rw [hopen, openState_saveGroup hM hsave]

/-- So do any number. -/
theorem openState_rounds (hM : M.Serde) {groupState groupState' : Bytes}
    (h : Relation.ReflTransGen (Resaves (M := M)) groupState groupState') :
    openState M groupState' = openState M groupState := by
  induction h with
  | refl => rfl
  | tail _ hround ih => rw [openState_resaves hM hround, ih]

/-- The secret bundle holds what it was written with. -/
theorem openSecret_writeSecret (hM : M.Serde) (contents : Contents M) :
    ∃ secretBundle, writeSecret M contents.provider contents.signer contents.credentialWithKey = .ok secretBundle ∧
      openSecret M secretBundle = .ok contents := by
  obtain ⟨s, hs⟩ := hM.signatureKeyPair.encodes contents.signer
  obtain ⟨c, hc⟩ := hM.credential.encodes contents.credentialWithKey
  obtain ⟨b, hb⟩ := hM.secretBundle.encodes ⟨snapshotStore contents.provider, s, c⟩
  refine ⟨b, ?_, ?_⟩
  · simp only [writeSecret, Outcome.bind_eq_ok, orErr_eq_ok]
    exact ⟨s, hs, c, hc, hb⟩
  · simp only [openSecret, Outcome.bind_eq_ok, orErr_eq_ok, Outcome.pure_eq_ok]
    exact ⟨_, hM.secretBundle.decodes hb, contents.provider, providerFromStore_snapshotStore contents.provider,
      contents.signer, hM.signatureKeyPair.decodes hs, contents.credentialWithKey, hM.credential.decodes hc, rfl⟩

/-- What `generate_key_package` had in its provider is what `process_welcome` joins with. -/
theorem generateKeyPackage_ok (hM : M.Serde) {rng : M.Rng} {identity : Bytes} {r : MlsKeyPackageResult}
    (h : generateKeyPackage M rng identity = .ok r) :
    ∃ signer created credentialWithKey keyPackage provider,
      newCredential M rng identity = .ok (signer, created, credentialWithKey) ∧
      M.buildKeyPackage rng ciphersuite created signer credentialWithKey = .ok (keyPackage, provider) ∧
      openSecret M r.secretBundle = .ok ⟨provider, signer, credentialWithKey⟩ := by
  simp only [generateKeyPackage_eq, Outcome.bind_eq_ok, orErr_eq_ok, Outcome.pure_eq_ok, Prod.exists] at h
  obtain ⟨signer, created, credentialWithKey, hnew, keyPackage, provider, hbuild, _, _, secretBundle, hwrite, rfl⟩ := h
  obtain ⟨secretBundle', hwrite', hopen⟩ := openSecret_writeSecret hM ⟨provider, signer, credentialWithKey⟩
  obtain rfl := Outcome.ok.inj (hwrite'.symm.trans hwrite)
  exact ⟨signer, created, credentialWithKey, keyPackage, provider, hnew, hbuild, hopen⟩

/-- Nothing is lost, merged, added or altered: a saved group is read back as it was, after any number of
rounds, and another round is always possible; so is a secret bundle, and `process_welcome` joins with what
`generate_key_package` had. -/
theorem saved_is_loaded (hM : M.Serde) :
    (∀ (contents : Contents M) (group : M.MlsGroup), ∃ groupState,
      saveGroup M group contents.provider contents.signer contents.credentialWithKey = .ok groupState ∧
      ∀ groupState', Relation.ReflTransGen (Resaves (M := M)) groupState groupState' →
        openState M groupState' = .ok (contents, M.groupId group) ∧
        loadState M groupState' = findGroup M contents (M.groupId group) ∧
        ∃ next, Resaves (M := M) groupState' next) ∧
    (∀ contents : Contents M, ∃ secretBundle,
      writeSecret M contents.provider contents.signer contents.credentialWithKey = .ok secretBundle ∧
      openSecret M secretBundle = .ok contents ∧
      ∀ welcomeBytes, processWelcome M welcomeBytes secretBundle = joinWith M welcomeBytes contents) ∧
    (∀ (rng : M.Rng) (identity : Bytes) (r : MlsKeyPackageResult), generateKeyPackage M rng identity = .ok r →
      ∃ signer created credentialWithKey keyPackage provider,
        newCredential M rng identity = .ok (signer, created, credentialWithKey) ∧
        M.buildKeyPackage rng ciphersuite created signer credentialWithKey = .ok (keyPackage, provider) ∧
        openSecret M r.secretBundle = .ok ⟨provider, signer, credentialWithKey⟩) := by
  refine ⟨?_, ?_, fun rng identity r => generateKeyPackage_ok hM⟩
  · intro contents group
    obtain ⟨groupState, hsave⟩ := exists_saveGroup hM group contents.provider contents.signer contents.credentialWithKey
    refine ⟨groupState, hsave, fun groupState' hrounds => ?_⟩
    have hopen : openState M groupState' = .ok (contents, M.groupId group) := by
      rw [openState_rounds hM hrounds, openState_saveGroup hM hsave]
    refine ⟨hopen, ?_, ?_⟩
    · rw [loadState_eq, hopen, Outcome.ok_bind]
    · obtain ⟨next, hnext⟩ := exists_saveGroup hM group contents.provider contents.signer contents.credentialWithKey
      exact ⟨next, contents, group, hopen, hnext⟩
  · intro contents
    obtain ⟨secretBundle, hwrite, hopen⟩ := openSecret_writeSecret hM contents
    refine ⟨secretBundle, hwrite, hopen, fun welcomeBytes => ?_⟩
    rw [processWelcome_eq, hopen, Outcome.ok_bind]

/-- A group of the reference crates in a store with a binding of its own, after a round. -/
theorem saved_is_loaded_reference :
    ∃ groupState groupState', Resaves (M := Reference.crates) groupState groupState' ∧
      openState Reference.crates groupState' =
        .ok (⟨Finmap.singleton [0xFF] [], (7 : ℕ), [1, 2]⟩, (3 : ℕ)) := by
  let group : Reference.crates.MlsGroup := (⟨⟨3, 0, [[1, 2]], 5⟩, [1, 2], true, 0, none⟩ : Reference.Group)
  obtain ⟨groupState, -, hkept⟩ :=
    (saved_is_loaded Reference.serde).1 ⟨Finmap.singleton [0xFF] [], (7 : ℕ), [1, 2]⟩ group
  obtain ⟨next, hnext⟩ := (hkept groupState .refl).2.2
  exact ⟨groupState, next, hnext, (hkept next (.single hnext)).1⟩

end GhostCrypt.Mls
