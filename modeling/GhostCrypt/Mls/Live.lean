/-
A member that keeps its group in memory. It calls openmls on its group, provider and signer, and writes
nothing down in between. The functions of `mls/mod.rs` do the same between loading a blob and saving one,
and openmls keeps a group in its provider, so no client can tell the blobs from such members.
-/
import GhostCrypt.Lib.Versions
import GhostCrypt.Mls.Saved

namespace GhostCrypt.Mls

open Versions (Objects Alike)

variable (M : OpenMls)

/-! ## Calls -/

/-- What is asked for without a group. -/
inductive Setup
  | keyPackage (rng : M.Rng) (identity : Bytes)
  | create (rng : M.Rng) (identity : Bytes)
  | join (welcome secretBundle : Bytes)

/-- What is asked of a group. -/
inductive Request
  | addMember (rng : M.Rng) (keyPackage : Bytes)
  | removeMember (rng : M.Rng) (leafIndex : UInt32)
  | encryptMessage (rng : M.Rng) (plaintext : Bytes)
  | decryptMessage (mlsMessage : Bytes)
  | processCommit (commit : Bytes)

/-- What is answered, the state apart. -/
inductive Reply
  | keyPackage (keyPackage secretBundle : Bytes)
  | group (groupId : Bytes) (epoch : ℕ)
  | added (commit welcome : Bytes) (epoch : ℕ)
  | removed (commit : Bytes) (epoch : ℕ)
  | encrypted (mlsCiphertext : Bytes) (epoch : ℕ)
  | decrypted (plaintext : Bytes)
  | committed (epoch : ℕ)

/-- A call whose result has a reply and a state. -/
def ofCall {α γ : Type} (x : Outcome CryptoError γ) (reply : γ → Reply) (state : γ → α) :
    Outcome CryptoError Reply × Option α :=
  (x.map reply, x.value.map state)

/-- The functions of `mls/mod.rs`, on blobs. -/
def blobs : Objects Bytes (Setup M) (Request M) (Outcome CryptoError Reply) where
  make
    | .keyPackage rng identity =>
      ((generateKeyPackage M rng identity).map fun r => .keyPackage r.keyPackage r.secretBundle, none)
    | .create rng identity => ofCall (createGroup M rng identity) (fun r => .group r.groupId r.epoch) (·.groupState)
    | .join welcome secretBundle =>
      ofCall (processWelcome M welcome secretBundle) (fun r => .group r.groupId r.epoch) (·.groupState)
  work
    | .addMember rng keyPackage, s =>
      ofCall (addMember M rng s keyPackage) (fun r => .added r.commit r.welcome r.epoch) (·.groupState)
    | .removeMember rng leafIndex, s =>
      ofCall (removeMember M rng s leafIndex) (fun r => .removed r.commit r.epoch) (·.groupState)
    | .encryptMessage rng plaintext, s =>
      ofCall (encryptMessage M rng s plaintext) (fun r => .encrypted r.mlsCiphertext r.epoch) (·.groupState)
    | .decryptMessage mlsMessage, s =>
      ofCall (decryptMessage M s mlsMessage) (fun r => .decrypted r.plaintext) (·.groupState)
    | .processCommit commit, s => ofCall (processCommit M s commit) (fun r => .committed r.epoch) (·.groupState)

/-! ## Members in memory -/

namespace Loaded

/-- A group of its own. -/
def create (rng : M.Rng) (identity : Bytes) : Outcome CryptoError (Reply × Loaded M) := do
  let (signer, provider, credentialWithKey) ← newCredential M rng identity
  let (group, provider) ← orErr (M.newGroup rng provider signer defaultGroupCreateConfig credentialWithKey) fun e =>
    .mls s!"create group: {e}"
  return (.group (M.groupIdBytes (M.groupId group)) (M.epoch group), { group, provider, signer, credentialWithKey })

/-- The group of a welcome, with what a secret bundle holds. -/
def join (welcomeBytes : Bytes) (contents : Contents M) : Outcome CryptoError (Reply × Loaded M) := do
  let mlsMessageIn ← deserializeMlsMessage M welcomeBytes
  let welcome ← welcomeOf M mlsMessageIn
  let (stagedWelcome, provider) ← orErr (M.newFromWelcome contents.provider defaultGroupJoinConfig welcome) fun e =>
    .mls s!"staged welcome: {e}"
  let (group, provider) ← orErr (M.intoGroup stagedWelcome provider) fun e => .mls s!"welcome into_group: {e}"
  return (.group (M.groupIdBytes (M.groupId group)) (M.epoch group),
    { group, provider, signer := contents.signer, credentialWithKey := contents.credentialWithKey })

variable {M} (m : Loaded M)

def addMember (rng : M.Rng) (keyPackageBytes : Bytes) : Outcome CryptoError (Reply × Loaded M) := do
  let keyPackageIn ← orErr (M.deserializeKeyPackage keyPackageBytes) fun e =>
    .serialization s!"key package tls deser: {e}"
  let keyPackage ← orErr (M.validate keyPackageIn) fun e => .mls s!"key package validation: {e}"
  let (commitMsg, welcomeMsg, group, provider) ←
    orErr (M.addMembers rng m.group m.provider m.signer [keyPackage]) fun e => .mls s!"add_members: {e}"
  let (group, provider) ← orErr (M.mergePendingCommit group provider) fun e => .mls s!"merge_pending_commit: {e}"
  let commit ← serializeMlsMessage M commitMsg
  let welcome ← serializeMlsMessage M welcomeMsg
  return (.added commit welcome (M.epoch group), { m with group, provider })

def removeMember (rng : M.Rng) (leafIndex : UInt32) : Outcome CryptoError (Reply × Loaded M) := do
  let (commitMsg, group, provider) ←
    orErr (M.removeMembers rng m.group m.provider m.signer [leafIndex]) fun e => .mls s!"remove_members: {e}"
  let (group, provider) ← orErr (M.mergePendingCommit group provider) fun e => .mls s!"merge_pending_commit: {e}"
  let commit ← serializeMlsMessage M commitMsg
  return (.removed commit (M.epoch group), { m with group, provider })

def encryptMessage (rng : M.Rng) (plaintext : Bytes) : Outcome CryptoError (Reply × Loaded M) := do
  let (ciphertextMsg, group, provider) ←
    orErr (M.createMessage rng m.group m.provider m.signer plaintext) fun e => .encryption s!"create_message: {e}"
  let mlsCiphertext ← serializeMlsMessage M ciphertextMsg
  return (.encrypted mlsCiphertext (M.epoch group), { m with group, provider })

/-- What a member does with a message that its group has processed. -/
def receive (group : M.MlsGroup) (provider : Storage) :
    ProcessedMessageContent M.StagedCommit M.Proposal → Outcome CryptoError (Reply × Loaded M)
  | .applicationMessage bytes => return (.decrypted bytes, { m with group, provider })
  | .stagedCommitMessage stagedCommit => do
    let (group, provider) ← orErr (M.mergeStagedCommit group provider stagedCommit) fun e =>
      .mls s!"merge_staged_commit: {e}"
    return (.decrypted [], { m with group, provider })
  | .proposalMessage proposal | .externalJoinProposalMessage proposal => do
    let (group, provider) ← orErr (M.storePendingProposal group provider proposal) fun e =>
      .mls s!"store_pending_proposal: {e}"
    return (.decrypted [], { m with group, provider })

def decryptMessage (mlsMessageBytes : Bytes) : Outcome CryptoError (Reply × Loaded M) := do
  let mlsMessageIn ← deserializeMlsMessage M mlsMessageBytes
  let protocolMessage ← orErr (M.tryIntoProtocolMessage mlsMessageIn) fun e =>
    .decryption s!"not a protocol message: {e}"
  let (content, group, provider) ← orErr (M.processMessage m.group m.provider protocolMessage) fun e =>
    .decryption s!"process_message: {e}"
  m.receive group provider content

def processCommit (commitBytes : Bytes) : Outcome CryptoError (Reply × Loaded M) := do
  let mlsMessageIn ← deserializeMlsMessage M commitBytes
  let protocolMessage ← orErr (M.tryIntoProtocolMessage mlsMessageIn) fun e => .mls s!"not a protocol message: {e}"
  let (content, group, provider) ← orErr (M.processMessage m.group m.provider protocolMessage) fun e =>
    .mls s!"process_message: {e}"
  let (group, provider) ← mergeCommit M group provider content
  return (.committed (M.epoch group), { m with group, provider })

end Loaded

/-- Members in memory. -/
def live : Objects (Loaded M) (Setup M) (Request M) (Outcome CryptoError Reply) where
  make
    | .keyPackage rng identity =>
      ((generateKeyPackage M rng identity).map fun r => .keyPackage r.keyPackage r.secretBundle, none)
    | .create rng identity => ofCall (Loaded.create M rng identity) Prod.fst Prod.snd
    | .join welcome secretBundle => ofCall (openSecret M secretBundle >>= Loaded.join M welcome) Prod.fst Prod.snd
  work
    | .addMember rng keyPackage, m => ofCall (m.addMember rng keyPackage) Prod.fst Prod.snd
    | .removeMember rng leafIndex, m => ofCall (m.removeMember rng leafIndex) Prod.fst Prod.snd
    | .encryptMessage rng plaintext, m => ofCall (m.encryptMessage rng plaintext) Prod.fst Prod.snd
    | .decryptMessage mlsMessage, m => ofCall (m.decryptMessage mlsMessage) Prod.fst Prod.snd
    | .processCommit commit, m => ofCall (m.processCommit commit) Prod.fst Prod.snd

/-! ## What openmls keeps -/

/-- openmls writes every change of a group to its provider, and serde_json what it is given. -/
structure OpenMls.Persistent : Prop where
  serde : M.Serde
  loads : M.LoadsById
  creates : ∀ {rng storage signer config credential group provider},
    M.newGroup rng storage signer config credential = .ok (group, provider) → M.Holds provider group
  joins : ∀ {staged storage group provider}, M.intoGroup staged storage = .ok (group, provider) →
    M.Holds provider group
  commits : ∀ {loaded : Loaded M} {commit welcome group provider}, loaded.Held →
    M.Commits loaded commit welcome group provider → M.Holds provider group
  sends : ∀ {loaded : Loaded M} {rng plaintext message group provider}, loaded.Held →
    M.createMessage rng loaded.group loaded.provider loaded.signer plaintext = .ok (message, group, provider) →
    M.Holds provider group
  decrypts : ∀ {loaded : Loaded M} {message plaintext group provider}, loaded.Held →
    M.processMessage loaded.group loaded.provider message = .ok (.applicationMessage plaintext, group, provider) →
    M.Holds provider group
  takes : ∀ {loaded : Loaded M} {message group provider}, loaded.Held → M.Takes loaded message group provider →
    M.Holds provider group
  keeps : ∀ {loaded : Loaded M} {message group provider}, loaded.Held → M.Keeps loaded message group provider →
    M.Holds provider group

variable {M}

/-! ## Blobs and members -/

/-- The same end, with a state that loads as the member. -/
inductive Same {γ : Type} (reply : γ → Reply) (state : γ → Bytes) :
    Outcome CryptoError γ → Outcome CryptoError (Reply × Loaded M) → Prop
  | ok {r m} : loadState M (state r) = .ok m → Same reply state (.ok r) (.ok (reply r, m))
  | err (e : CryptoError) : Same reply state (.err e) (.err e)
  | panic : Same reply state .panic .panic

namespace Same

variable {γ δ : Type} {reply : γ → Reply} {state : γ → Bytes}

/-- Both go on with the same value. -/
theorem bind {x : Outcome CryptoError δ} {f : δ → Outcome CryptoError γ}
    {g : δ → Outcome CryptoError (Reply × Loaded M)} (h : ∀ a, x = .ok a → Same reply state (f a) (g a)) :
    Same reply state (x >>= f) (x >>= g) := by
  cases x with
  | ok a => exact h a rfl
  | err e => exact .err e
  | panic => exact .panic

/-- One of them saves, which does not fail. -/
theorem save (hM : M.Serde) {group : M.MlsGroup} {provider : Storage} {signer : M.SignatureKeyPair}
    {credentialWithKey : M.CredentialWithKey} {f : Bytes → Outcome CryptoError γ}
    {y : Outcome CryptoError (Reply × Loaded M)}
    (h : ∀ groupState, saveGroup M group provider signer credentialWithKey = .ok groupState →
      Same reply state (f groupState) y) :
    Same reply state (saveGroup M group provider signer credentialWithKey >>= f) y := by
  obtain ⟨groupState, hsave⟩ := exists_saveGroup hM group provider signer credentialWithKey
  rw [hsave]
  exact h groupState hsave

theorem alike {x : Outcome CryptoError γ} {y : Outcome CryptoError (Reply × Loaded M)} (h : Same reply state x y) :
    Alike (fun s m => loadState M s = .ok m) (ofCall x reply state) (ofCall y Prod.fst Prod.snd) := by
  cases h with
  | ok hload => exact ⟨rfl, .some hload⟩
  | err e => exact ⟨rfl, .none⟩
  | panic => exact ⟨rfl, .none⟩

end Same

variable {rng : M.Rng} {s : Bytes} {m : Loaded M}

/-- A call on a blob that loads. -/
theorem load_bind (hload : loadState M s = .ok m) {γ : Type} (f : Loaded M → Outcome CryptoError γ) :
    (deserializeBundle M s >>= fun bundle => loadGroup M bundle >>= f) = f m := by
  rw [← Outcome.bind_assoc, show (deserializeBundle M s >>= loadGroup M) = .ok m from hload, Outcome.ok_bind]

theorem createGroup_live (hM : M.Persistent) (rng : M.Rng) (identity : Bytes) :
    Same (fun r => .group r.groupId r.epoch) (·.groupState) (createGroup M rng identity)
      (Loaded.create M rng identity) := by
  unfold createGroup Loaded.create
  refine .bind fun ⟨signer, provider, credentialWithKey⟩ _ => .bind fun ⟨group, provider⟩ hnew => ?_
  refine .save hM.serde fun groupState hsave => ?_
  exact .ok (loadState_saveGroup hM.serde hsave (hM.creates (orErr_eq_ok.1 hnew)))

theorem joinWith_live (hM : M.Persistent) (welcome : Bytes) (contents : Contents M) :
    Same (fun r => .group r.groupId r.epoch) (·.groupState) (joinWith M welcome contents)
      (Loaded.join M welcome contents) := by
  unfold joinWith Loaded.join
  refine .bind fun mlsMessageIn _ => .bind fun welcome _ => .bind fun ⟨stagedWelcome, provider⟩ _ => ?_
  refine .bind fun ⟨group, provider⟩ hinto => .save hM.serde fun groupState hsave => ?_
  exact .ok (loadState_saveGroup hM.serde hsave (hM.joins (orErr_eq_ok.1 hinto)))

theorem addMember_live (hM : M.Persistent) (hload : loadState M s = .ok m) (keyPackage : Bytes) :
    Same (fun r => .added r.commit r.welcome r.epoch) (·.groupState) (addMember M rng s keyPackage)
      (m.addMember rng keyPackage) := by
  unfold addMember Loaded.addMember
  rw [load_bind hload]
  refine .bind fun keyPackageIn _ => .bind fun keyPackage _ => ?_
  refine .bind fun ⟨commitMsg, welcomeMsg, group, provider⟩ hadd => .bind fun ⟨group, provider⟩ hmerge => ?_
  refine .save hM.serde fun groupState hsave => .bind fun commit _ => .bind fun welcome _ => ?_
  have hcommits := OpenMls.Commits.add (orErr_eq_ok.1 hadd) (orErr_eq_ok.1 hmerge)
  exact .ok (loadState_saveGroup hM.serde hsave (hM.commits (held_of_loadState hM.loads hload) hcommits))

theorem removeMember_live (hM : M.Persistent) (hload : loadState M s = .ok m) (leafIndex : UInt32) :
    Same (fun r => .removed r.commit r.epoch) (·.groupState) (removeMember M rng s leafIndex)
      (m.removeMember rng leafIndex) := by
  unfold removeMember Loaded.removeMember
  rw [load_bind hload]
  refine .bind fun ⟨commitMsg, group, provider⟩ hremove => .bind fun ⟨group, provider⟩ hmerge => ?_
  refine .save hM.serde fun groupState hsave => .bind fun commit _ => ?_
  have hcommits := OpenMls.Commits.remove (orErr_eq_ok.1 hremove) (orErr_eq_ok.1 hmerge)
  exact .ok (loadState_saveGroup hM.serde hsave (hM.commits (held_of_loadState hM.loads hload) hcommits))

theorem encryptMessage_live (hM : M.Persistent) (hload : loadState M s = .ok m) (plaintext : Bytes) :
    Same (fun r => .encrypted r.mlsCiphertext r.epoch) (·.groupState) (encryptMessage M rng s plaintext)
      (m.encryptMessage rng plaintext) := by
  unfold encryptMessage Loaded.encryptMessage
  rw [load_bind hload]
  refine .bind fun ⟨ciphertextMsg, group, provider⟩ hcreate => .save hM.serde fun groupState hsave => ?_
  refine .bind fun mlsCiphertext _ => ?_
  have hholds := hM.sends (held_of_loadState hM.loads hload) (orErr_eq_ok.1 hcreate)
  exact .ok (loadState_saveGroup hM.serde hsave hholds)

theorem decryptMessage_live (hM : M.Persistent) (hload : loadState M s = .ok m) (mlsMessage : Bytes) :
    Same (fun r => .decrypted r.plaintext) (·.groupState) (decryptMessage M s mlsMessage)
      (m.decryptMessage mlsMessage) := by
  have hheld := held_of_loadState hM.loads hload
  unfold decryptMessage Loaded.decryptMessage
  rw [load_bind hload]
  refine .bind fun mlsMessageIn _ => .bind fun message _ => .bind fun ⟨content, group, provider⟩ hprocess => ?_
  have hprocess := orErr_eq_ok.1 hprocess
  cases content with
  | applicationMessage bytes =>
    refine .save hM.serde fun groupState hsave => ?_
    exact .ok (loadState_saveGroup hM.serde hsave (hM.decrypts hheld hprocess))
  | stagedCommitMessage stagedCommit =>
    refine .bind fun ⟨group', provider'⟩ hmerge => .save hM.serde fun groupState hsave => ?_
    have htakes : M.Takes m message group' provider' :=
      ⟨stagedCommit, group, provider, hprocess, orErr_eq_ok.1 hmerge⟩
    exact .ok (loadState_saveGroup hM.serde hsave (hM.takes hheld htakes))
  | proposalMessage proposal =>
    refine .bind fun ⟨group', provider'⟩ hstore => .save hM.serde fun groupState hsave => ?_
    have hkeeps : M.Keeps m message group' provider' :=
      ⟨_, proposal, group, provider, hprocess, .inl rfl, orErr_eq_ok.1 hstore⟩
    exact .ok (loadState_saveGroup hM.serde hsave (hM.keeps hheld hkeeps))
  | externalJoinProposalMessage proposal =>
    refine .bind fun ⟨group', provider'⟩ hstore => .save hM.serde fun groupState hsave => ?_
    have hkeeps : M.Keeps m message group' provider' :=
      ⟨_, proposal, group, provider, hprocess, .inr rfl, orErr_eq_ok.1 hstore⟩
    exact .ok (loadState_saveGroup hM.serde hsave (hM.keeps hheld hkeeps))

theorem processCommit_live (hM : M.Persistent) (hload : loadState M s = .ok m) (commit : Bytes) :
    Same (fun r => .committed r.epoch) (·.groupState) (processCommit M s commit) (m.processCommit commit) := by
  unfold processCommit Loaded.processCommit
  rw [load_bind hload]
  refine .bind fun mlsMessageIn _ => .bind fun message _ => .bind fun ⟨content, group, provider⟩ hprocess => ?_
  refine .bind fun ⟨group', provider'⟩ hmerge => .save hM.serde fun groupState hsave => ?_
  have htakes : M.Takes m message group' provider' := by
    cases content with
    | stagedCommitMessage stagedCommit =>
      exact ⟨stagedCommit, group, provider, orErr_eq_ok.1 hprocess, orErr_eq_ok.1 hmerge⟩
    | applicationMessage | proposalMessage | externalJoinProposalMessage => cases hmerge
  exact .ok (loadState_saveGroup hM.serde hsave (hM.takes (held_of_loadState hM.loads hload) htakes))

/-- The functions of `mls/mod.rs` do to blobs what members in memory do. -/
theorem blobs_refine (hM : M.Persistent) :
    Versions.Refines (fun s m => loadState M s = .ok m) (blobs M) (live M) where
  make setup := by
    cases setup with
    | keyPackage rng identity => exact ⟨rfl, .none⟩
    | create rng identity => exact (createGroup_live hM rng identity).alike
    | join welcome secretBundle =>
      have hsame := Same.bind (x := openSecret M secretBundle) fun contents _ => joinWith_live hM welcome contents
      rw [← processWelcome_eq] at hsame
      exact hsame.alike
  work request _ _ hload := by
    cases request with
    | addMember rng keyPackage => exact (addMember_live hM hload keyPackage).alike
    | removeMember rng leafIndex => exact (removeMember_live hM hload leafIndex).alike
    | encryptMessage rng plaintext => exact (encryptMessage_live hM hload plaintext).alike
    | decryptMessage mlsMessage => exact (decryptMessage_live hM hload mlsMessage).alike
    | processCommit commit => exact (processCommit_live hM hload commit).alike

namespace Reference

/-- The small openmls writes every group it returns. -/
theorem persistent : crates.Persistent where
  serde := serde
  loads := loads
  creates := by
    intro rng storage signer config credential group provider h
    obtain ⟨rfl, rfl⟩ := Prod.mk.inj (Except.ok.inj h)
    exact holds_put _ _
  joins := by
    intro staged storage group provider h
    obtain ⟨rfl, rfl⟩ := Prod.mk.inj (Except.ok.inj h)
    exact holds_put _ _
  commits _ h := (committed h).holds
  sends := by
    intro loaded rng plaintext message group provider _ h
    obtain ⟨-, -, rfl⟩ := create_ok h
    exact holds_put _ _
  decrypts := by
    intro loaded message plaintext group provider _ h
    obtain ⟨rfl, rfl⟩ := process_application h
    exact holds_put _ _
  takes := by
    intro loaded message group provider _ h
    obtain ⟨stagedCommit, group', provider', -, hmerge⟩ := h
    obtain ⟨rfl, rfl⟩ := Prod.mk.inj (Except.ok.inj hmerge)
    exact holds_put _ _
  keeps := by
    intro loaded message group provider _ h
    obtain ⟨content, proposal, -⟩ := h
    exact proposal.elim

end Reference

end GhostCrypt.Mls
