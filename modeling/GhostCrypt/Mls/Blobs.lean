/-
The blobs the functions of `mls/mod.rs` are given and give back. A blob whose store is not base64
panics in `restore_store`, and no other does. What is saved is what loads, however often.
-/
import Mathlib.Logic.Relation
import GhostCrypt.Mls.Reference

namespace GhostCrypt.Mls

/-! ## Corrupt blobs -/

/-- Every key and every value of a stored map is the base64 text of some bytes. -/
def Restorable (store : StringMap) : Prop := ∀ e ∈ store.entries, (decodeEntry e).isSome

/-- If the bytes parse to a bundle, its store is base64 throughout. -/
def Intact {γ : Type} (parsed : Except String γ) (store : γ → StringMap) : Prop :=
  ∀ bundle, parsed = .ok bundle → Restorable (store bundle)

theorem providerFromStore_eq_panic {store : StringMap} : providerFromStore store = .panic ↔ ¬ Restorable store := by
  unfold providerFromStore restoreStore
  split <;> simp_all [Restorable]

/-- What the core writes can be restored. -/
theorem restorable_snapshotStore (storage : Storage) : Restorable (snapshotStore storage) := by
  by_contra h
  have := providerFromStore_eq_panic.2 h
  rw [providerFromStore_snapshotStore] at this
  cases this

variable {M : OpenMls}

theorem orErr_ne_panic {α : Type} {x : Except String α} {f : String → CryptoError} : orErr x f ≠ .panic := by
  cases x <;> exact fun h => by cases h

theorem orErr_bind_ne_panic {α β : Type} {x : Except String α} {e : String → CryptoError}
    {f : α → Outcome CryptoError β} (hf : ∀ a, f a ≠ .panic) : (orErr x e >>= f) ≠ .panic :=
  Outcome.bind_ne_panic orErr_ne_panic hf

theorem saveGroup_ne_panic {group : M.MlsGroup} {provider : Storage} {signer : M.SignatureKeyPair}
    {credentialWithKey : M.CredentialWithKey} : saveGroup M group provider signer credentialWithKey ≠ .panic := by
  unfold saveGroup serializeBundle
  refine orErr_bind_ne_panic fun s => orErr_bind_ne_panic fun c => orErr_bind_ne_panic fun i => ?_
  exact orErr_ne_panic

theorem saveGroup_bind_ne_panic {α : Type} {group : M.MlsGroup} {provider : Storage} {signer : M.SignatureKeyPair}
    {credentialWithKey : M.CredentialWithKey} {f : Bytes → Outcome CryptoError α} (hf : ∀ state, f state ≠ .panic) :
    (saveGroup M group provider signer credentialWithKey >>= f) ≠ .panic :=
  Outcome.bind_ne_panic saveGroup_ne_panic hf

theorem okOrNotFound_ne_panic {groupId : M.GroupId} {found : Option M.MlsGroup} :
    okOrNotFound M groupId found ≠ .panic := by
  cases found <;> exact fun h => by cases h

/-- Loading panics on a store that is not base64, before anything else of the bundle is looked at. -/
theorem loadGroup_eq_panic {bundle : GroupBundle} : loadGroup M bundle = .panic ↔ ¬ Restorable bundle.store := by
  unfold loadGroup
  rw [Outcome.bind_eq_panic, providerFromStore_eq_panic]
  apply or_iff_left
  rintro ⟨provider, -, h⟩
  revert h
  refine orErr_bind_ne_panic fun signer => orErr_bind_ne_panic fun credentialWithKey =>
    orErr_bind_ne_panic fun groupId => orErr_bind_ne_panic fun found => ?_
  refine Outcome.bind_ne_panic okOrNotFound_ne_panic fun group h => ?_
  cases h

/-- A call that parses a bundle, restores its store and does not panic later returns when the store is base64. -/
theorem restoring_ne_panic_iff {α β γ : Type} {parsed : Except String γ} {e : String → CryptoError}
    {store : γ → StringMap} {restored : γ → Outcome CryptoError α} {rest : γ → α → Outcome CryptoError β}
    (hrestored : ∀ bundle, restored bundle = .panic ↔ ¬ Restorable (store bundle))
    (hrest : ∀ bundle a, rest bundle a ≠ .panic) :
    (orErr parsed e >>= fun bundle => restored bundle >>= rest bundle) ≠ .panic ↔
      Intact parsed store := by
  rw [ne_eq, Outcome.bind_eq_panic, or_iff_right orErr_ne_panic]
  simp only [orErr_eq_ok, Outcome.bind_eq_panic, hrestored, hrest, and_false, exists_false, or_false]
  unfold Intact
  push Not
  rfl

/-! ## The calls on a group state -/

variable {rng : M.Rng} {groupState : Bytes}

theorem addMember_ne_panic_iff {keyPackageBytes : Bytes} : addMember M rng groupState keyPackageBytes ≠ .panic ↔
    Intact (M.groupBundle.fromSlice groupState) GroupBundle.store := by
  unfold addMember
  refine restoring_ne_panic_iff (fun _ => loadGroup_eq_panic) fun _ loaded => ?_
  refine orErr_bind_ne_panic fun keyPackageIn => orErr_bind_ne_panic fun keyPackage => ?_
  refine orErr_bind_ne_panic fun ⟨commitMsg, welcomeMsg, group, provider⟩ => ?_
  refine orErr_bind_ne_panic fun ⟨group', provider'⟩ => ?_
  apply saveGroup_bind_ne_panic
  intro state
  refine orErr_bind_ne_panic fun commit => orErr_bind_ne_panic fun welcome h => ?_
  cases h

theorem removeMember_ne_panic_iff {leafIndex : UInt32} : removeMember M rng groupState leafIndex ≠ .panic ↔
    Intact (M.groupBundle.fromSlice groupState) GroupBundle.store := by
  unfold removeMember
  refine restoring_ne_panic_iff (fun _ => loadGroup_eq_panic) fun _ loaded => ?_
  refine orErr_bind_ne_panic fun ⟨commitMsg, group, provider⟩ => ?_
  refine orErr_bind_ne_panic fun ⟨group', provider'⟩ => ?_
  refine saveGroup_bind_ne_panic fun state => orErr_bind_ne_panic fun commit h => ?_
  cases h

theorem encryptMessage_ne_panic_iff {plaintext : Bytes} : encryptMessage M rng groupState plaintext ≠ .panic ↔
    Intact (M.groupBundle.fromSlice groupState) GroupBundle.store := by
  unfold encryptMessage
  refine restoring_ne_panic_iff (fun _ => loadGroup_eq_panic) fun _ loaded => ?_
  refine orErr_bind_ne_panic fun ⟨ciphertextMsg, group, provider⟩ => ?_
  refine saveGroup_bind_ne_panic fun state => orErr_bind_ne_panic fun mlsCiphertext h => ?_
  cases h

theorem keepProposal_ne_panic {loaded : Loaded M} {group : M.MlsGroup} {provider : Storage} {proposal : M.Proposal} :
    keepProposal M loaded group provider proposal ≠ .panic := by
  unfold keepProposal
  refine orErr_bind_ne_panic fun ⟨group', provider'⟩ => saveGroup_bind_ne_panic fun state h => ?_
  cases h

theorem decryptContent_ne_panic {loaded : Loaded M} {group : M.MlsGroup} {provider : Storage} :
    ∀ content, decryptContent M loaded group provider content ≠ .panic
  | .applicationMessage bytes => saveGroup_bind_ne_panic fun state h => by cases h
  | .stagedCommitMessage stagedCommit => by
    refine orErr_bind_ne_panic fun ⟨group', provider'⟩ => saveGroup_bind_ne_panic fun state h => ?_
    cases h
  | .proposalMessage _ => keepProposal_ne_panic
  | .externalJoinProposalMessage _ => keepProposal_ne_panic

theorem decryptMessage_ne_panic_iff {mlsMessageBytes : Bytes} : decryptMessage M groupState mlsMessageBytes ≠ .panic ↔
    Intact (M.groupBundle.fromSlice groupState) GroupBundle.store := by
  unfold decryptMessage
  refine restoring_ne_panic_iff (fun _ => loadGroup_eq_panic) fun _ loaded => ?_
  refine orErr_bind_ne_panic fun mlsMessageIn => orErr_bind_ne_panic fun protocolMessage => ?_
  refine orErr_bind_ne_panic fun ⟨content, group, provider⟩ => ?_
  exact decryptContent_ne_panic content

theorem mergeCommit_ne_panic {group : M.MlsGroup} {provider : Storage} :
    ∀ content, mergeCommit M group provider content ≠ .panic
  | .stagedCommitMessage _ => orErr_ne_panic
  | .applicationMessage _ | .proposalMessage _ | .externalJoinProposalMessage _ => fun h => by cases h

theorem processCommit_ne_panic_iff {commitBytes : Bytes} : processCommit M groupState commitBytes ≠ .panic ↔
    Intact (M.groupBundle.fromSlice groupState) GroupBundle.store := by
  unfold processCommit
  refine restoring_ne_panic_iff (fun _ => loadGroup_eq_panic) fun _ loaded => ?_
  refine orErr_bind_ne_panic fun mlsMessageIn => orErr_bind_ne_panic fun protocolMessage => ?_
  refine orErr_bind_ne_panic fun ⟨content, group, provider⟩ => ?_
  refine Outcome.bind_ne_panic (mergeCommit_ne_panic content) fun ⟨group', provider'⟩ => ?_
  apply saveGroup_bind_ne_panic
  intro state h
  cases h

/-! ## `process_welcome` -/

theorem welcomeOf_ne_panic {msg : M.MlsMessageIn} : welcomeOf M msg ≠ .panic := by
  unfold welcomeOf
  split <;> exact fun h => by cases h

theorem processWelcome_ne_panic_iff {welcomeBytes secretBundleBytes : Bytes} :
    processWelcome M welcomeBytes secretBundleBytes ≠ .panic ↔
      Intact (M.secretBundle.fromSlice secretBundleBytes) KeyPackageSecretBundle.store := by
  unfold processWelcome
  refine restoring_ne_panic_iff (fun _ => providerFromStore_eq_panic) fun bundle provider => ?_
  refine orErr_bind_ne_panic fun signer => orErr_bind_ne_panic fun credentialWithKey => ?_
  refine orErr_bind_ne_panic fun mlsMessageIn => Outcome.bind_ne_panic welcomeOf_ne_panic fun welcome => ?_
  refine orErr_bind_ne_panic fun ⟨stagedWelcome, provider⟩ => orErr_bind_ne_panic fun ⟨group, provider'⟩ => ?_
  apply saveGroup_bind_ne_panic
  intro state h
  cases h

/-! ## All calls -/

variable (M) in
/-- The functions that take a blob return exactly when the store of the bundle it parses to, if it
parses, is base64 throughout. -/
theorem blobs_rejected_iff :
    (∀ (rng : M.Rng) (groupState keyPackageBytes : Bytes), addMember M rng groupState keyPackageBytes ≠ .panic ↔
      Intact (M.groupBundle.fromSlice groupState) GroupBundle.store) ∧
    (∀ (rng : M.Rng) (groupState : Bytes) (leafIndex : UInt32), removeMember M rng groupState leafIndex ≠ .panic ↔
      Intact (M.groupBundle.fromSlice groupState) GroupBundle.store) ∧
    (∀ (rng : M.Rng) (groupState plaintext : Bytes), encryptMessage M rng groupState plaintext ≠ .panic ↔
      Intact (M.groupBundle.fromSlice groupState) GroupBundle.store) ∧
    (∀ groupState mlsMessageBytes : Bytes, decryptMessage M groupState mlsMessageBytes ≠ .panic ↔
      Intact (M.groupBundle.fromSlice groupState) GroupBundle.store) ∧
    (∀ groupState commitBytes : Bytes, processCommit M groupState commitBytes ≠ .panic ↔
      Intact (M.groupBundle.fromSlice groupState) GroupBundle.store) ∧
    (∀ welcomeBytes secretBundleBytes : Bytes, processWelcome M welcomeBytes secretBundleBytes ≠ .panic ↔
      Intact (M.secretBundle.fromSlice secretBundleBytes) KeyPackageSecretBundle.store) := by
  refine ⟨?_, ?_, ?_, ?_, ?_, ?_⟩
  · exact fun _ _ _ => addMember_ne_panic_iff
  · exact fun _ _ _ => removeMember_ne_panic_iff
  · exact fun _ _ _ => encryptMessage_ne_panic_iff
  · exact fun _ _ => decryptMessage_ne_panic_iff
  · exact fun _ _ => processCommit_ne_panic_iff
  · exact fun _ _ => processWelcome_ne_panic_iff

/-- A bundle whose one key, `!`, is not base64. -/
def corruptBundle : GroupBundle :=
  { store := Finmap.singleton "!" "", signer := [], credentialWithKey := [], groupId := [] }

theorem not_restorable_corruptBundle : ¬ Restorable corruptBundle.store := by
  intro h
  have hsome : (decodeEntry ⟨"!", ""⟩).isSome := h ⟨"!", ""⟩ (Multiset.mem_singleton_self _)
  have hnone : decodeEntry ⟨"!", ""⟩ = none := by decide
  rw [hnone] at hsome
  cases hsome

/-- The bytes of that bundle panic where a corrupt group state should be refused. -/
theorem corrupt_store_panics :
    ¬ ∀ groupState commitBytes : Bytes, processCommit Reference.crates groupState commitBytes ≠ .panic := by
  intro h
  have hread : Reference.crates.groupBundle.fromSlice (Reference.write corruptBundle) = .ok corruptBundle :=
    Reference.read_write corruptBundle
  exact not_restorable_corruptBundle (processCommit_ne_panic_iff.1 (h (Reference.write corruptBundle) []) _ hread)

end GhostCrypt.Mls
