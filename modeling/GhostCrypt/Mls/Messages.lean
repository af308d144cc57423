/-
`decrypt_message` and `process_commit` on the same message. An empty plaintext stands for a commit or a
proposal, and the two functions agree on commits; only application data that is itself empty is
taken for one of these.
-/
import GhostCrypt.Mls.Members

namespace GhostCrypt.Mls

variable {M : OpenMls} {groupState bytes : Bytes}

/-! ## What openmls makes of a message -/

/-- The group of a blob processes the message, with what openmls finds in it. -/
structure Processed (M : OpenMls) (groupState bytes : Bytes)
    (content : ProcessedMessageContent M.StagedCommit M.Proposal) (loaded : Loaded M) (group : M.MlsGroup)
    (provider : Storage) : Prop where
  load : loadState M groupState = .ok loaded
  process : ∃ message, M.Reads bytes message ∧
    M.processMessage loaded.group loaded.provider message = .ok (content, group, provider)

/-- What the message turns out to hold for the group of the blob. -/
def Contains (M : OpenMls) (groupState bytes : Bytes) (content : ProcessedMessageContent M.StagedCommit M.Proposal) :
    Prop :=
  ∃ loaded group provider, Processed M groupState bytes content loaded group provider

theorem reads_inj {message message' : M.ProtocolMessage} (h : M.Reads bytes message) (h' : M.Reads bytes message') :
    message = message' := by
  obtain ⟨m, hm, hmessage⟩ := h
  obtain ⟨m', hm', hmessage'⟩ := h'
  obtain rfl := Except.ok.inj (hm.symm.trans hm')
  exact Except.ok.inj (hmessage.symm.trans hmessage')

/-- A message holds one thing. -/
theorem contains_inj {content content' : ProcessedMessageContent M.StagedCommit M.Proposal}
    (h : Contains M groupState bytes content) (h' : Contains M groupState bytes content') : content = content' := by
  obtain ⟨loaded, group, provider, hload, message, hreads, hprocess⟩ := h
  obtain ⟨loaded', group', provider', hload', message', hreads', hprocess'⟩ := h'
  obtain rfl := Outcome.ok.inj (hload.symm.trans hload')
  obtain rfl := reads_inj hreads hreads'
  exact (Prod.mk.inj (Except.ok.inj (hprocess.symm.trans hprocess'))).1

variable {content : ProcessedMessageContent M.StagedCommit M.Proposal} {loaded : Loaded M} {group : M.MlsGroup}
  {provider : Storage}

theorem exists_processed {r : DecryptResult} (h : decryptMessage M groupState bytes = .ok r) :
    ∃ content loaded group provider, Processed M groupState bytes content loaded group provider ∧
      decryptContent M loaded group provider content = .ok r := by
  simp only [decryptMessage, deserializeMlsMessage, Outcome.bind_eq_ok, orErr_eq_ok, Prod.exists] at h
  obtain ⟨bundle, hbundle, loaded, hload, messageIn, hin, message, hmessage, content, group, provider, hprocess, h⟩ := h
  refine ⟨content, loaded, group, provider, ⟨?_, message, ⟨messageIn, hin, hmessage⟩, hprocess⟩, h⟩
  exact Outcome.bind_eq_ok.2 ⟨bundle, hbundle, hload⟩

/-- `process_commit` merges what was processed, and saves. -/
theorem Processed.processCommit (h : Processed M groupState bytes content loaded group provider) :
    processCommit M groupState bytes = (mergeCommit M group provider content >>= fun (group, provider) => do
      let state ← saveGroup M group provider loaded.signer loaded.credentialWithKey
      return { groupState := state, epoch := M.epoch group }) := by
  obtain ⟨bundle, hbundle, hload⟩ := Outcome.bind_eq_ok.1 h.load
  obtain ⟨message, ⟨messageIn, hin, hmessage⟩, hprocess⟩ := h.process
  simp only [Mls.processCommit, deserializeMlsMessage, orErr, hbundle, hload, hin, hmessage, hprocess, Except.mapError,
    Outcome.ofExcept_ok, Outcome.ok_bind]

/-! ## Faithfulness -/

/-- A commit or a proposal. -/
inductive IsControl : ProcessedMessageContent M.StagedCommit M.Proposal → Prop
  | commit (stagedCommit : M.StagedCommit) : IsControl (.stagedCommitMessage stagedCommit)
  | proposal (proposal : M.Proposal) : IsControl (.proposalMessage proposal)
  | externalJoin (proposal : M.Proposal) : IsControl (.externalJoinProposalMessage proposal)

/-- What `decrypt_message` returned tells its caller what the message was. -/
structure Faithful (M : OpenMls) (groupState bytes : Bytes) (r : DecryptResult) : Prop where
  /-- The plaintext is empty for control traffic and nothing else. -/
  empty_iff : ∀ content, Contains M groupState bytes content → (r.plaintext = [] ↔ IsControl content)
  /-- Otherwise it is the sender's. -/
  plaintext : ∀ plaintext, Contains M groupState bytes (.applicationMessage plaintext) → r.plaintext = plaintext
  /-- A commit leaves the state that `process_commit` leaves. -/
  commit : ∀ stagedCommit, Contains M groupState bytes (.stagedCommitMessage stagedCommit) →
    ∃ c, processCommit M groupState bytes = .ok c ∧ c.groupState = r.groupState
  /-- `process_commit` refuses anything else. -/
  refuses : ∀ content, Contains M groupState bytes content →
    (∀ stagedCommit, content ≠ .stagedCommitMessage stagedCommit) →
    ∃ e, processCommit M groupState bytes = .err e

theorem Processed.contains (h : Processed M groupState bytes content loaded group provider) :
    Contains M groupState bytes content := ⟨loaded, group, provider, h⟩

/-- Application data is returned, whatever it is. -/
theorem decryptContent_application {plaintext : Bytes} {r : DecryptResult}
    (h : decryptContent M loaded group provider (.applicationMessage plaintext) = .ok r) : r.plaintext = plaintext := by
  simp only [decryptContent, Outcome.bind_eq_ok, Outcome.pure_eq_ok] at h
  obtain ⟨state, -, rfl⟩ := h
  rfl

/-- Control traffic comes with an empty plaintext. -/
theorem decryptContent_control {r : DecryptResult} (hcontrol : IsControl content)
    (h : decryptContent M loaded group provider content = .ok r) : r.plaintext = [] := by
  cases hcontrol <;>
  · simp only [decryptContent, keepProposal, Outcome.bind_eq_ok, Outcome.pure_eq_ok, Prod.exists] at h
    obtain ⟨_, _, _, _, _, rfl⟩ := h
    rfl

theorem plaintext_or_control : ∀ content : ProcessedMessageContent M.StagedCommit M.Proposal,
    (∃ plaintext, content = .applicationMessage plaintext) ∨ IsControl content
  | .applicationMessage plaintext => .inl ⟨plaintext, rfl⟩
  | .stagedCommitMessage stagedCommit => .inr (.commit stagedCommit)
  | .proposalMessage proposal => .inr (.proposal proposal)
  | .externalJoinProposalMessage proposal => .inr (.externalJoin proposal)

/-- A commit that `decrypt_message` merges, `process_commit` merges to the same state. -/
theorem Processed.processCommit_commit {stagedCommit : M.StagedCommit} {r : DecryptResult}
    (h : Processed M groupState bytes (.stagedCommitMessage stagedCommit) loaded group provider)
    (hr : decryptContent M loaded group provider (.stagedCommitMessage stagedCommit) = .ok r) :
    ∃ c, Mls.processCommit M groupState bytes = .ok c ∧ c.groupState = r.groupState := by
  simp only [decryptContent, Outcome.bind_eq_ok, Outcome.pure_eq_ok, Prod.exists] at hr
  obtain ⟨group', provider', hmerge, state, hsave, rfl⟩ := hr
  refine ⟨⟨state, M.epoch group'⟩, ?_, rfl⟩
  simp only [h.processCommit, mergeCommit, hmerge, hsave, Outcome.ok_bind]
  rfl

/-- Anything else it refuses. -/
theorem Processed.processCommit_other (h : Processed M groupState bytes content loaded group provider)
    (hother : ∀ stagedCommit, content ≠ .stagedCommitMessage stagedCommit) :
    ∃ e, Mls.processCommit M groupState bytes = .err e := by
  rw [h.processCommit]
  cases content with
  | stagedCommitMessage stagedCommit => exact absurd rfl (hother stagedCommit)
  | applicationMessage | proposalMessage | externalJoinProposalMessage => exact ⟨_, rfl⟩

/-- `decrypt_message` classifies a message it accepts faithfully exactly when the message is not empty
application data, whatever openmls makes of messages. -/
theorem decryptMessage_faithful_iff {r : DecryptResult} (h : decryptMessage M groupState bytes = .ok r) :
    Faithful M groupState bytes r ↔ ¬ Contains M groupState bytes (.applicationMessage []) := by
  obtain ⟨content, loaded, group, provider, hprocessed, hr⟩ := exists_processed h
  constructor
  · intro hfaithful hempty
    have hplain := hfaithful.plaintext [] hempty
    cases (hfaithful.empty_iff _ hempty).1 hplain
  · intro hnonempty
    refine ⟨?_, ?_, ?_, ?_⟩
    · intro content' hcontent'
      obtain rfl := contains_inj hprocessed.contains hcontent'
      refine ⟨fun hempty => ?_, fun hcontrol => decryptContent_control hcontrol hr⟩
      rcases plaintext_or_control content with ⟨plaintext, rfl⟩ | hcontrol
      · rw [decryptContent_application hr] at hempty
        exact absurd (hempty ▸ hcontent') hnonempty
      · exact hcontrol
    · intro plaintext hcontent'
      obtain rfl := contains_inj hprocessed.contains hcontent'
      exact decryptContent_application hr
    · intro stagedCommit hcontent'
      obtain rfl := contains_inj hprocessed.contains hcontent'
      exact hprocessed.processCommit_commit hr
    · intro content' hcontent' hother
      obtain rfl := contains_inj hprocessed.contains hcontent'
      exact hprocessed.processCommit_other hother

/-! ## Between two members -/

open Reference World

/-- What one member encrypts. -/
def pairSent (plaintext : Bytes) : EncryptResult :=
  let sender := { pairGroup [1] with generation := 1 }
  ⟨write (Message.application pairEpoch [1] 0 plaintext), blobOf sender (sender.put ((pairGroup [1]).put ∅)), 1⟩

theorem encryptMessage_pair (plaintext : Bytes) :
    encryptMessage crates (0 : ℕ) (pairBlob [1]) plaintext = .ok (pairSent plaintext) :=
  encryptMessage_blob 0 rfl ∅ plaintext

theorem process_shared {g : Group} {source : Epoch} {sender plaintext : Bytes} (generation : ℕ)
    (storage : Storage) (h : g.active ∧ g.epoch = source ∧ g.own ≠ sender) :
    g.process storage (.application source sender generation plaintext) =
      .ok (.applicationMessage plaintext, g, g.put storage) := if_pos h

theorem processed_pair (plaintext : Bytes) : Processed crates (pairBlob [2]) (pairSent plaintext).mlsCiphertext
    (.applicationMessage plaintext) ⟨pairGroup [2], (pairGroup [2]).put ∅, (0 : ℕ), [2]⟩ (pairGroup [2])
    ((pairGroup [2]).put ((pairGroup [2]).put ∅)) := by
  have hshared : (pairGroup [2]).active ∧ (pairGroup [2]).epoch = pairEpoch ∧ (pairGroup [2]).own ≠ [1] := by decide
  exact ⟨loadState_blob (pairGroup [2]) ∅, _, ⟨_, read_write _, rfl⟩, process_shared 0 ((pairGroup [2]).put ∅) hshared⟩

/-- The other decrypts it. -/
theorem decryptMessage_pair (plaintext : Bytes) :
    ∃ r, decryptMessage crates (pairBlob [2]) (pairSent plaintext).mlsCiphertext = .ok r := by
  have hprocessed := processed_pair plaintext
  obtain ⟨message, hreads, hprocess⟩ := hprocessed.process
  obtain ⟨r, hr, -⟩ := decryptMessage_application serde hprocessed.load hreads hprocess
  exact ⟨r, hr⟩

/-- A message that is not empty. -/
theorem decryptMessage_faithful_pair : ∃ r, decryptMessage crates (pairBlob [2]) (pairSent [7]).mlsCiphertext = .ok r ∧
    Faithful crates (pairBlob [2]) (pairSent [7]).mlsCiphertext r := by
  obtain ⟨r, hr⟩ := decryptMessage_pair [7]
  refine ⟨r, hr, (decryptMessage_faithful_iff hr).2 fun hempty => ?_⟩
  cases contains_inj (processed_pair [7]).contains hempty

/-- An empty message of a member looks like a commit to the other. -/
theorem decryptMessage_unfaithful : ¬ ∀ (plaintext : Bytes) (sent : EncryptResult) (r : DecryptResult),
    encryptMessage crates (0 : ℕ) (pairBlob [1]) plaintext = .ok sent →
    decryptMessage crates (pairBlob [2]) sent.mlsCiphertext = .ok r →
    Faithful crates (pairBlob [2]) sent.mlsCiphertext r := by
  intro h
  obtain ⟨r, hr⟩ := decryptMessage_pair []
  have hfaithful := h [] (pairSent []) r (encryptMessage_pair []) hr
  have hcontains := (processed_pair []).contains
  cases (hfaithful.empty_iff _ hcontains).1 (hfaithful.plaintext [] hcontains)

end GhostCrypt.Mls
