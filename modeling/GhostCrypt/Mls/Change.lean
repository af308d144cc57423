/-
What the functions of `mls/mod.rs` do to the group in a blob. A blob that was saved loads again, and
a call that succeeds has loaded a group, changed it through openmls and saved what came out.
-/
import GhostCrypt.Mls.Group

namespace GhostCrypt.Mls

namespace OpenMls

variable (M : OpenMls)

/-! ## Changes -/

/-- The group makes a commit and merges it at once. Adding comes with a welcome, removing does not. -/
inductive Commits (loaded : Loaded M) : M.MlsMessageOut → Option M.MlsMessageOut → M.MlsGroup → Storage → Prop
  | add {rng keyPackages commit welcome group provider group' provider'}
      (hadd : M.addMembers rng loaded.group loaded.provider loaded.signer keyPackages =
        .ok (commit, welcome, group, provider))
      (hmerge : M.mergePendingCommit group provider = .ok (group', provider')) :
      Commits loaded commit (some welcome) group' provider'
  | remove {rng leafIndices commit group provider group' provider'}
      (hremove : M.removeMembers rng loaded.group loaded.provider loaded.signer leafIndices =
        .ok (commit, group, provider))
      (hmerge : M.mergePendingCommit group provider = .ok (group', provider')) :
      Commits loaded commit none group' provider'

/-- The group takes a message for a commit and merges it. -/
def Takes (loaded : Loaded M) (message : M.ProtocolMessage) (group' : M.MlsGroup) (provider' : Storage) : Prop :=
  ∃ stagedCommit group provider,
    M.processMessage loaded.group loaded.provider message = .ok (.stagedCommitMessage stagedCommit, group, provider) ∧
    M.mergeStagedCommit group provider stagedCommit = .ok (group', provider')

/-- The group keeps a proposal. -/
def Keeps (loaded : Loaded M) (message : M.ProtocolMessage) (group' : M.MlsGroup) (provider' : Storage) : Prop :=
  ∃ content proposal group provider,
    M.processMessage loaded.group loaded.provider message = .ok (content, group, provider) ∧
    (content = .proposalMessage proposal ∨ content = .externalJoinProposalMessage proposal) ∧
    M.storePendingProposal group provider proposal = .ok (group', provider')

/-- A welcome makes a group. -/
def Joins (provider : Storage) (bytes : Bytes) (group' : M.MlsGroup) (provider' : Storage) : Prop :=
  ∃ message welcome staged staged',
    M.deserializeMessage bytes = .ok message ∧ M.extractWelcome message = some welcome ∧
    M.newFromWelcome provider defaultGroupJoinConfig welcome = .ok (staged, staged') ∧
    M.intoGroup staged staged' = .ok (group', provider')

end OpenMls

variable (M : OpenMls)

/-! ## Saving and loading -/

/-- The group of a blob, with its provider, signer and credential. -/
def loadState (groupState : Bytes) : Outcome CryptoError (Loaded M) :=
  deserializeBundle M groupState >>= loadGroup M

/-- The blob of a changed group, under the signer and the credential it was loaded with. -/
def Loaded.Saves {M : OpenMls} (loaded : Loaded M) (group : M.MlsGroup) (provider : Storage) (groupState : Bytes) :
    Prop :=
  saveGroup M group provider loaded.signer loaded.credentialWithKey = .ok groupState

variable {M}

/-- The loaded group is in its provider. -/
def Loaded.Held (loaded : Loaded M) : Prop := M.Holds loaded.provider loaded.group

theorem okOrNotFound_eq_ok {groupId : M.GroupId} {found : Option M.MlsGroup} {group : M.MlsGroup} :
    okOrNotFound M groupId found = .ok group ↔ found = some group := by
  cases found <;> simp [okOrNotFound]

/-- Saving does not fail. -/
theorem exists_saveGroup (hM : M.Serde) (group : M.MlsGroup) (provider : Storage) (signer : M.SignatureKeyPair)
    (credentialWithKey : M.CredentialWithKey) :
    ∃ groupState, saveGroup M group provider signer credentialWithKey = .ok groupState := by
  obtain ⟨s, hs⟩ := hM.signatureKeyPair.encodes signer
  obtain ⟨c, hc⟩ := hM.credential.encodes credentialWithKey
  obtain ⟨i, hi⟩ := hM.groupId.encodes (M.groupId group)
  obtain ⟨b, hb⟩ := hM.groupBundle.encodes ⟨snapshotStore provider, s, c, i⟩
  refine ⟨b, ?_⟩
  simp only [saveGroup, serializeBundle, Outcome.bind_eq_ok, orErr_eq_ok]
  exact ⟨s, hs, c, hc, i, hi, hb⟩

/-- A saved blob loads with what was saved, as far as the provider holds the group. -/
theorem loadState_saveGroup (hM : M.Serde) {group group' : M.MlsGroup} {provider : Storage}
    {signer : M.SignatureKeyPair} {credentialWithKey : M.CredentialWithKey} {groupState : Bytes}
    (hsave : saveGroup M group provider signer credentialWithKey = .ok groupState)
    (hload : M.load provider (M.groupId group) = .ok (some group')) :
    loadState M groupState = .ok ⟨group', provider, signer, credentialWithKey⟩ := by
  simp only [saveGroup, serializeBundle, Outcome.bind_eq_ok, orErr_eq_ok] at hsave
  obtain ⟨s, hs, c, hc, i, hi, hb⟩ := hsave
  simp only [loadState, deserializeBundle, loadGroup, Outcome.bind_eq_ok, orErr_eq_ok, Outcome.pure_eq_ok]
  refine ⟨_, hM.groupBundle.decodes hb, provider, providerFromStore_snapshotStore provider, signer,
    hM.signatureKeyPair.decodes hs, credentialWithKey, hM.credential.decodes hc, _, hM.groupId.decodes hi,
    _, hload, group', rfl, rfl⟩

theorem held_of_loadState (hM : M.LoadsById) {groupState : Bytes} {loaded : Loaded M}
    (h : loadState M groupState = .ok loaded) : loaded.Held := by
  simp only [loadState, loadGroup, Outcome.bind_eq_ok, orErr_eq_ok, Outcome.pure_eq_ok, okOrNotFound_eq_ok] at h
  obtain ⟨_, _, _, _, _, _, _, _, groupId, _, _, hload, _, rfl, rfl⟩ := h
  obtain rfl := hM hload
  exact hload

/-! ## The calls -/

variable {rng : M.Rng} {groupState : Bytes}

theorem addMember_ok {keyPackageBytes : Bytes} {r : AddMemberResult}
    (h : addMember M rng groupState keyPackageBytes = .ok r) :
    ∃ loaded commit welcome group provider, loadState M groupState = .ok loaded ∧
      M.Commits loaded commit (some welcome) group provider ∧ loaded.Saves group provider r.groupState ∧
      M.serializeMessage commit = .ok r.commit ∧ M.serializeMessage welcome = .ok r.welcome ∧
      r.epoch = M.epoch group := by
  simp only [addMember, serializeMlsMessage, Outcome.bind_eq_ok, Outcome.pure_eq_ok, orErr_eq_ok, Prod.exists] at h
  obtain ⟨bundle, hbundle, loaded, hload, _, _, _, _, commit, welcome, _, _, hadd, group, provider, hmerge, state,
    hsave, _, hcommit, _, hwelcome, rfl⟩ := h
  refine ⟨loaded, commit, welcome, group, provider, ?_, .add hadd hmerge, hsave, hcommit, hwelcome, rfl⟩
  exact Outcome.bind_eq_ok.2 ⟨bundle, hbundle, hload⟩

/-- The calls into openmls that make `add_member` succeed. -/
theorem addMember_of_loadState {loaded : Loaded M} {keyPackageBytes state commit welcome : Bytes}
    {keyPackageIn : M.KeyPackageIn} {keyPackage : M.KeyPackage} {commitMsg welcomeMsg : M.MlsMessageOut}
    {group group' : M.MlsGroup} {provider provider' : Storage} (hload : loadState M groupState = .ok loaded)
    (hin : M.deserializeKeyPackage keyPackageBytes = .ok keyPackageIn)
    (hvalid : M.validate keyPackageIn = .ok keyPackage)
    (hadd : M.addMembers rng loaded.group loaded.provider loaded.signer [keyPackage] =
      .ok (commitMsg, welcomeMsg, group, provider))
    (hmerge : M.mergePendingCommit group provider = .ok (group', provider'))
    (hsave : loaded.Saves group' provider' state) (hcommit : M.serializeMessage commitMsg = .ok commit)
    (hwelcome : M.serializeMessage welcomeMsg = .ok welcome) :
    addMember M rng groupState keyPackageBytes = .ok ⟨commit, welcome, state, M.epoch group'⟩ := by
  obtain ⟨bundle, hbundle, hload⟩ := Outcome.bind_eq_ok.1 hload
  simp only [addMember, serializeMlsMessage, Outcome.bind_eq_ok, Outcome.pure_eq_ok, orErr_eq_ok, Prod.exists]
  exact ⟨bundle, hbundle, loaded, hload, _, hin, _, hvalid, _, _, _, _, hadd, _, _, hmerge, _, hsave, _, hcommit, _,
    hwelcome, rfl⟩

theorem removeMember_ok {leafIndex : UInt32} {r : RemoveMemberResult}
    (h : removeMember M rng groupState leafIndex = .ok r) :
    ∃ loaded commit group provider, loadState M groupState = .ok loaded ∧
      M.Commits loaded commit none group provider ∧ loaded.Saves group provider r.groupState ∧
      M.serializeMessage commit = .ok r.commit ∧ r.epoch = M.epoch group := by
  simp only [removeMember, serializeMlsMessage, Outcome.bind_eq_ok, Outcome.pure_eq_ok, orErr_eq_ok, Prod.exists] at h
  obtain ⟨bundle, hbundle, loaded, hload, commit, _, _, hremove, group, provider, hmerge, state, hsave, _, hcommit,
    rfl⟩ := h
  refine ⟨loaded, commit, group, provider, ?_, .remove hremove hmerge, hsave, hcommit, rfl⟩
  exact Outcome.bind_eq_ok.2 ⟨bundle, hbundle, hload⟩

theorem encryptMessage_ok {plaintext : Bytes} {r : EncryptResult}
    (h : encryptMessage M rng groupState plaintext = .ok r) :
    ∃ loaded message group provider, loadState M groupState = .ok loaded ∧
      M.createMessage rng loaded.group loaded.provider loaded.signer plaintext = .ok (message, group, provider) ∧
      loaded.Saves group provider r.groupState ∧ M.serializeMessage message = .ok r.mlsCiphertext ∧
      r.epoch = M.epoch group := by
  simp only [encryptMessage, serializeMlsMessage, Outcome.bind_eq_ok, Outcome.pure_eq_ok, orErr_eq_ok, Prod.exists] at h
  obtain ⟨bundle, hbundle, loaded, hload, message, group, provider, hcreate, state, hsave, _, hmessage, rfl⟩ := h
  refine ⟨loaded, message, group, provider, ?_, hcreate, hsave, hmessage, rfl⟩
  exact Outcome.bind_eq_ok.2 ⟨bundle, hbundle, hload⟩

/-- The calls into openmls that make `encrypt_message` succeed. -/
theorem encryptMessage_of_loadState {loaded : Loaded M} {plaintext state ciphertext : Bytes} {message : M.MlsMessageOut}
    {group : M.MlsGroup} {provider : Storage} (hload : loadState M groupState = .ok loaded)
    (hcreate : M.createMessage rng loaded.group loaded.provider loaded.signer plaintext =
      .ok (message, group, provider))
    (hsave : loaded.Saves group provider state) (hmessage : M.serializeMessage message = .ok ciphertext) :
    encryptMessage M rng groupState plaintext = .ok ⟨ciphertext, state, M.epoch group⟩ := by
  obtain ⟨bundle, hbundle, hload⟩ := Outcome.bind_eq_ok.1 hload
  simp only [encryptMessage, serializeMlsMessage, Outcome.bind_eq_ok, Outcome.pure_eq_ok, orErr_eq_ok, Prod.exists]
  exact ⟨bundle, hbundle, loaded, hload, _, _, _, hcreate, _, hsave, _, hmessage, rfl⟩

theorem processCommit_ok {commitBytes : Bytes} {r : ProcessCommitResult}
    (h : processCommit M groupState commitBytes = .ok r) :
    ∃ loaded message group provider, loadState M groupState = .ok loaded ∧ M.Reads commitBytes message ∧
      M.Takes loaded message group provider ∧ loaded.Saves group provider r.groupState ∧ r.epoch = M.epoch group := by
  simp only [processCommit, deserializeMlsMessage, Outcome.bind_eq_ok, Outcome.pure_eq_ok, orErr_eq_ok,
    Prod.exists] at h
  obtain ⟨bundle, hbundle, loaded, hload, messageIn, hin, message, hmessage, content, group, provider, hprocess, group',
    provider', hmerge, state, hsave, rfl⟩ := h
  refine ⟨loaded, message, group', provider', Outcome.bind_eq_ok.2 ⟨bundle, hbundle, hload⟩, ⟨messageIn, hin, hmessage⟩,
    ?_, hsave, rfl⟩
  cases content with
  | stagedCommitMessage stagedCommit => exact ⟨stagedCommit, group, provider, hprocess, orErr_eq_ok.1 hmerge⟩
  | applicationMessage | proposalMessage | externalJoinProposalMessage => cases hmerge

/-- `decrypt_message` decrypts application data, merges a commit, or keeps a proposal. -/
theorem decryptMessage_ok {mlsMessageBytes : Bytes} {r : DecryptResult}
    (h : decryptMessage M groupState mlsMessageBytes = .ok r) :
    ∃ loaded message group provider, loadState M groupState = .ok loaded ∧ M.Reads mlsMessageBytes message ∧
      loaded.Saves group provider r.groupState ∧
      (M.processMessage loaded.group loaded.provider message = .ok (.applicationMessage r.plaintext, group, provider) ∨
        (r.plaintext = [] ∧ (M.Takes loaded message group provider ∨ M.Keeps loaded message group provider))) := by
  simp only [decryptMessage, deserializeMlsMessage, Outcome.bind_eq_ok, orErr_eq_ok, Prod.exists] at h
  obtain ⟨bundle, hbundle, loaded, hload, messageIn, hin, message, hmessage, content, group, provider, hprocess, h⟩ := h
  refine ⟨loaded, message, ?_⟩
  have hloaded : loadState M groupState = .ok loaded := Outcome.bind_eq_ok.2 ⟨bundle, hbundle, hload⟩
  have hreads : M.Reads mlsMessageBytes message := ⟨messageIn, hin, hmessage⟩
  cases content with
  | applicationMessage bytes =>
    simp only [decryptContent, Outcome.bind_eq_ok, Outcome.pure_eq_ok] at h
    obtain ⟨state, hsave, rfl⟩ := h
    exact ⟨group, provider, hloaded, hreads, hsave, .inl hprocess⟩
  | stagedCommitMessage stagedCommit =>
    simp only [decryptContent, Outcome.bind_eq_ok, Outcome.pure_eq_ok, orErr_eq_ok, Prod.exists] at h
    obtain ⟨group', provider', hmerge, state, hsave, rfl⟩ := h
    exact ⟨group', provider', hloaded, hreads, hsave,
      .inr ⟨rfl, .inl ⟨stagedCommit, group, provider, hprocess, hmerge⟩⟩⟩
  | proposalMessage proposal =>
    simp only [decryptContent, keepProposal, Outcome.bind_eq_ok, Outcome.pure_eq_ok, orErr_eq_ok, Prod.exists] at h
    obtain ⟨group', provider', hstore, state, hsave, rfl⟩ := h
    exact ⟨group', provider', hloaded, hreads, hsave,
      .inr ⟨rfl, .inr ⟨_, proposal, group, provider, hprocess, .inl rfl, hstore⟩⟩⟩
  | externalJoinProposalMessage proposal =>
    simp only [decryptContent, keepProposal, Outcome.bind_eq_ok, Outcome.pure_eq_ok, orErr_eq_ok, Prod.exists] at h
    obtain ⟨group', provider', hstore, state, hsave, rfl⟩ := h
    exact ⟨group', provider', hloaded, hreads, hsave,
      .inr ⟨rfl, .inr ⟨_, proposal, group, provider, hprocess, .inr rfl, hstore⟩⟩⟩

/-- Application data that openmls decrypts is returned. -/
theorem decryptMessage_application (hM : M.Serde) {loaded : Loaded M} {mlsMessageBytes plaintext : Bytes}
    {message : M.ProtocolMessage} {group : M.MlsGroup} {provider : Storage}
    (hload : loadState M groupState = .ok loaded) (hreads : M.Reads mlsMessageBytes message)
    (hprocess : M.processMessage loaded.group loaded.provider message =
      .ok (.applicationMessage plaintext, group, provider)) :
    ∃ r, decryptMessage M groupState mlsMessageBytes = .ok r ∧ r.plaintext = plaintext := by
  obtain ⟨bundle, hbundle, hload⟩ := Outcome.bind_eq_ok.1 hload
  obtain ⟨messageIn, hin, hmessage⟩ := hreads
  obtain ⟨state, hsave⟩ := exists_saveGroup hM group provider loaded.signer loaded.credentialWithKey
  refine ⟨⟨plaintext, state⟩, ?_, rfl⟩
  simp only [decryptMessage, deserializeMlsMessage, Outcome.bind_eq_ok, orErr_eq_ok, Prod.exists]
  refine ⟨bundle, hbundle, loaded, hload, messageIn, hin, message, hmessage, _, group, provider, hprocess, ?_⟩
  exact Outcome.bind_eq_ok.2 ⟨state, hsave, rfl⟩

theorem processWelcome_ok {welcomeBytes secretBundleBytes : Bytes} {r : ProcessWelcomeResult}
    (h : processWelcome M welcomeBytes secretBundleBytes = .ok r) :
    ∃ provider group provider' signer credentialWithKey, M.Joins provider welcomeBytes group provider' ∧
      saveGroup M group provider' signer credentialWithKey = .ok r.groupState ∧
      r.groupId = M.groupIdBytes (M.groupId group) ∧ r.epoch = M.epoch group := by
  simp only [processWelcome, deserializeMlsMessage, Outcome.bind_eq_ok, Outcome.pure_eq_ok, orErr_eq_ok,
    Prod.exists] at h
  obtain ⟨_, _, provider, _, signer, _, credentialWithKey, _, message, hmessage, welcome, hwelcome, staged, staged',
    hstaged, group, provider', hinto, state, hsave, rfl⟩ := h
  refine ⟨provider, group, provider', signer, credentialWithKey,
    ⟨message, welcome, staged, staged', hmessage, ?_, hstaged, hinto⟩, hsave, rfl, rfl⟩
  unfold welcomeOf at hwelcome
  split at hwelcome
  · rename_i heq
    rw [heq, Outcome.ok.inj hwelcome]
  · cases hwelcome

end GhostCrypt.Mls
