/-
A small openmls. A commit carries the epoch it was made in and the epoch it leads to, a message the
epoch, the sender and the generation it was encrypted under, and everything is written as a numeral
in unary. It keeps what is promised of openmls, so the promises do not contradict each other.
-/
import Mathlib.Logic.Encodable.Basic
import Mathlib.Logic.Equiv.Multiset
import Mathlib.Tactic.DeriveEncodable
import GhostCrypt.Mls.Promises

namespace GhostCrypt.Mls.Reference

open Encodable

/-! ## Encodings -/

instance encodableUInt8 : Encodable UInt8 := ofLeftInverse UInt8.toNat UInt8.ofNat fun _ => UInt8.ofNat_toNat

instance encodableChar : Encodable Char := ofLeftInverse Char.toNat Char.ofNat Char.ofNat_toNat

instance encodableString : Encodable String := ofLeftInverse String.toList String.ofList fun _ => String.ofList_toList

instance encodableStringMap : Encodable StringMap :=
  ofLeftInjection Finmap.entries
    (fun entries => if h : entries.keys.Nodup then some ⟨entries, Multiset.nodup_keys.1 h⟩ else none)
    fun store => dif_pos (Multiset.nodup_keys.2 store.nodupKeys)

instance encodableGroupBundle : Encodable GroupBundle :=
  ofLeftInverse (fun b => (b.store, b.signer, b.credentialWithKey, b.groupId)) (fun t => ⟨t.1, t.2.1, t.2.2.1, t.2.2.2⟩)
    fun _ => rfl

instance encodableKeyPackageSecretBundle : Encodable KeyPackageSecretBundle :=
  ofLeftInverse (fun b => (b.store, b.signer, b.credentialWithKey)) (fun t => ⟨t.1, t.2.1, t.2.2⟩) fun _ => rfl

section

variable {α : Type} [Encodable α]

@[irreducible] def write (a : α) : Bytes := List.replicate (encode a) 0

@[irreducible] def read (bytes : Bytes) : Except String α :=
  match decode bytes.length with
  | some a => .ok a
  | none => .error "invalid value"

@[simp] theorem read_write (a : α) : read (write a) = .ok a := by
  rw [read, write, List.length_replicate, encodek]

variable (α) in
def codec : Codec α := { toVec := fun a => .ok (write a), fromSlice := read }

theorem codec_lawful : (codec α).Lawful where
  encodes a := ⟨_, rfl⟩
  decodes := by
    intro a bytes h
    obtain rfl := Except.ok.inj h
    exact read_write a

end

/-! ## Groups -/

/-- An epoch: the secrets encode how it came about. -/
structure Epoch where
  groupId : ℕ
  number : ℕ
  members : List Bytes
  secrets : ℕ
  deriving DecidableEq, Encodable

structure Group where
  epoch : Epoch
  own : Bytes
  active : Bool
  generation : ℕ
  pending : Option Epoch
  deriving Encodable

inductive Message
  | commit (source target : Epoch)
  | welcome (target : Epoch) (joiners : List Bytes)
  | application (source : Epoch) (sender : Bytes) (generation : ℕ) (plaintext : Bytes)
  deriving Encodable

/-- The epoch after `e`, drawn with `rng`. -/
def Epoch.next (rng : ℕ) (e : Epoch) (members : List Bytes) : Epoch :=
  { groupId := e.groupId, number := e.number + 1, members, secrets := encode (rng, e, members) }

/-- The group at the start of an epoch. -/
def Group.enter (g : Group) (e : Epoch) : Group := { g with epoch := e, generation := 0, pending := none }

def groupKey (groupId : ℕ) : Bytes := 1 :: write groupId

def Group.put (g : Group) (storage : Storage) : Storage := storage.insert (groupKey g.epoch.groupId) (write g)

def load (storage : Storage) (groupId : ℕ) : Except String (Option Group) :=
  match storage.lookup (groupKey groupId) with
  | none => .ok none
  | some bytes =>
    match (read bytes : Except String Group) with
    | .ok g => if g.epoch.groupId = groupId then .ok (some g) else .error "another group"
    | .error e => .error e

/-- The commit to an epoch with other members, and the group that awaits it. -/
def Group.propose (rng : ℕ) (g : Group) (members : List Bytes) : Except String (Epoch × Group) :=
  if g.active then .ok (g.epoch.next rng members, { g with pending := some (g.epoch.next rng members) })
  else .error "use after eviction"

def Group.process (g : Group) (storage : Storage) :
    Message → Except String (ProcessedMessageContent Epoch Empty × Group × Storage)
  | .commit source target =>
    if g.active ∧ g.epoch = source ∧ target.groupId = source.groupId ∧ target.number = source.number + 1 then
      .ok (.stagedCommitMessage target, g, g.put storage)
    else .error "wrong epoch"
  | .application source sender _ plaintext =>
    if g.active ∧ g.epoch = source ∧ g.own ≠ sender then .ok (.applicationMessage plaintext, g, g.put storage)
    else .error "cannot decrypt"
  | .welcome _ _ => .error "not a group message"

def crates : OpenMls where
  Rng := ℕ
  SignatureKeyPair := ℕ
  CredentialWithKey := Bytes
  GroupId := ℕ
  MlsGroup := Group
  KeyPackageIn := Bytes
  KeyPackage := Bytes
  MlsMessageOut := Message
  MlsMessageIn := Message
  ProtocolMessage := Message
  StagedCommit := Epoch
  Proposal := Empty
  Welcome := Epoch × List Bytes
  StagedWelcome := Epoch × Bytes
  groupBundle := codec GroupBundle
  secretBundle := codec KeyPackageSecretBundle
  signatureKeyPair := codec ℕ
  credential := codec Bytes
  groupIdCodec := codec ℕ
  newSigner rng _ := .ok rng
  storeSigner _ storage := .ok storage
  credentialWithKey identity _ := identity
  buildKeyPackage _ _ storage _ credential := .ok (credential, storage.insert [0] credential)
  serializeKeyPackage := .ok
  deserializeKeyPackage := .ok
  validate := .ok
  serializeMessage m := .ok (write m)
  deserializeMessage := read
  tryIntoProtocolMessage
    | .welcome _ _ => .error "wrong message type"
    | m => .ok m
  extractWelcome
    | .welcome target joiners => some (target, joiners)
    | _ => none
  debug
    | .applicationMessage _ => "ApplicationMessage"
    | .stagedCommitMessage _ => "StagedCommitMessage"
    | .proposalMessage p | .externalJoinProposalMessage p => p.elim
  groupIdBytes := write
  groupId g := g.epoch.groupId
  epoch g := g.epoch.number
  newGroup rng storage _ _ credential :=
    let g : Group :=
      { epoch := ⟨rng, 0, [credential], rng⟩, own := credential, active := true, generation := 0, pending := none }
    .ok (g, g.put storage)
  load := load
  addMembers rng g storage _ keyPackages := do
    let (target, g') ← g.propose rng (g.epoch.members ++ keyPackages)
    return (.commit g.epoch target, .welcome target keyPackages, g', storage)
  removeMembers rng g storage _ leafIndices := do
    let (target, g') ← g.propose rng (leafIndices.foldl (fun members i => members.eraseIdx i.toNat) g.epoch.members)
    return (.commit g.epoch target, g', storage)
  mergePendingCommit g storage :=
    let g' := g.enter (g.pending.getD g.epoch)
    .ok (g', g'.put storage)
  createMessage _ g storage _ plaintext :=
    let g' := { g with generation := g.generation + 1 }
    if g.active then .ok (.application g.epoch g.own g.generation plaintext, g', g'.put storage)
    else .error "use after eviction"
  processMessage := Group.process
  mergeStagedCommit g storage target :=
    let g' := { g.enter target with active := g.active && decide (g.own ∈ target.members) }
    .ok (g', g'.put storage)
  storePendingProposal _ _ p := p.elim
  newFromWelcome storage _ welcome :=
    match storage.lookup [0] with
    | some own => if own ∈ welcome.2 then .ok ((welcome.1, own), storage) else .error "no matching key package"
    | none => .error "no matching key package"
  intoGroup staged storage :=
    let g : Group := { epoch := staged.1, own := staged.2, active := true, generation := 0, pending := none }
    .ok (g, g.put storage)

def observer : Observer crates where
  Member := Bytes
  Members := List Bytes
  Secrets := ℕ
  member := Group.own
  members g := g.epoch.members
  epochSecrets g := g.epoch.secrets
  isActive g := g.active = true
  isFresh g := g.generation = 0

/-- The key a ciphertext says it is encrypted under. -/
def keyOf (bytes : Bytes) : MessageKey Bytes ℕ :=
  match (read bytes : Except String Message) with
  | .ok (.application source own generation _) => ⟨own, source.groupId, source.number, generation⟩
  | _ => ⟨[], 0, 0, 0⟩

def sender : Sender crates where
  Member := Bytes
  member := Group.own
  generation := Group.generation
  keyOf := keyOf

/-! ## Promises -/

theorem serde : crates.Serde where
  groupBundle := codec_lawful (α := GroupBundle)
  secretBundle := codec_lawful (α := KeyPackageSecretBundle)
  signatureKeyPair := codec_lawful (α := ℕ)
  credential := codec_lawful (α := Bytes)
  groupId := codec_lawful (α := ℕ)

theorem loads : crates.LoadsById := by
  intro storage groupId group h
  simp only [crates, load] at h
  split at h
  · cases Except.ok.inj h
  · split at h
    · split at h
      · rename_i heq
        obtain rfl := Option.some.inj (Except.ok.inj h)
        exact heq
      · cases h
    · cases h

theorem holds_put (g : Group) (storage : Storage) : crates.Holds (g.put storage) g := by
  show load (g.put storage) g.epoch.groupId = .ok (some g)
  rw [load, Group.put, Finmap.lookup_insert]
  simp only [read_write, if_true]

theorem propose_ok {rng : ℕ} {g g' : Group} {members : List Bytes} {target : Epoch}
    (h : g.propose rng members = .ok (target, g')) :
    g.active = true ∧ target = g.epoch.next rng members ∧ g' = { g with pending := some target } := by
  unfold Group.propose at h
  split at h
  · rename_i hactive
    obtain ⟨rfl, rfl⟩ := Prod.mk.inj (Except.ok.inj h)
    exact ⟨hactive, rfl, rfl⟩
  · cases h

/-- What a commit is, and where it leads. -/
structure Committed (g : Group) (commit : Message) (welcome : Option Message) (target : Group) (provider : Storage) :
    Prop where
  active : g.active = true
  next : ∃ rng members, target = g.enter (g.epoch.next rng members)
  commit : commit = .commit g.epoch target.epoch
  welcome : ∀ m ∈ welcome, ∃ joiners, m = .welcome target.epoch joiners
  holds : crates.Holds provider target

theorem committed {loaded : Loaded crates} {commit : crates.MlsMessageOut} {welcome : Option crates.MlsMessageOut}
    {target : crates.MlsGroup} {provider : Storage} (h : crates.Commits loaded commit welcome target provider) :
    Committed loaded.group commit welcome target provider := by
  cases h with
  | add hadd hmerge =>
    simp only [crates, bind, Except.bind] at hadd
    split at hadd
    · cases hadd
    · rename_i r hpropose
      obtain ⟨hactive, htarget, hgroup⟩ := propose_ok hpropose
      obtain ⟨rfl, rfl, rfl, rfl⟩ := by simpa using Except.ok.inj hadd
      obtain ⟨rfl, rfl⟩ := Prod.mk.inj (Except.ok.inj hmerge)
      simp only [hgroup, htarget]
      exact ⟨hactive, ⟨_, _, rfl⟩, rfl, fun m hm => ⟨_, (Option.some.inj hm).symm⟩, holds_put _ _⟩
  | remove hremove hmerge =>
    simp only [crates, bind, Except.bind] at hremove
    split at hremove
    · cases hremove
    · rename_i r hpropose
      obtain ⟨hactive, htarget, hgroup⟩ := propose_ok hpropose
      obtain ⟨rfl, rfl, rfl⟩ := by simpa using Except.ok.inj hremove
      obtain ⟨rfl, rfl⟩ := Prod.mk.inj (Except.ok.inj hmerge)
      simp only [hgroup, htarget]
      exact ⟨hactive, ⟨_, _, rfl⟩, rfl, (fun _ hm => nomatch hm), holds_put _ _⟩

theorem commitTo {loaded : Loaded crates} {target : crates.MlsGroup} {bytes : Bytes}
    (h : CommitTo loaded target bytes) :
    (∃ rng members, target = loaded.group.enter (Epoch.next rng loaded.group.epoch members)) ∧
      bytes = write (Message.commit loaded.group.epoch target.epoch) := by
  obtain ⟨-, commit, welcome, provider, hcommits, hbytes⟩ := h
  have hc := committed hcommits
  obtain rfl := hc.commit
  exact ⟨hc.next, (Except.ok.inj hbytes).symm⟩

theorem reads_write {m message : Message} (h : crates.Reads (write m) message) : message = m := by
  obtain ⟨m', hread, hinto⟩ := h
  obtain rfl := Except.ok.inj ((read_write m).symm.trans hread)
  cases m with
  | commit | application => exact (Except.ok.inj hinto).symm
  | welcome => cases hinto

theorem process_commit {g group : Group} {storage provider : Storage} {source target : Epoch}
    {content : ProcessedMessageContent Epoch Empty}
    (h : g.process storage (.commit source target) = .ok (content, group, provider)) :
    g.epoch = source ∧ content = .stagedCommitMessage target ∧ group = g ∧
      target.groupId = source.groupId ∧ target.number = source.number + 1 := by
  simp only [Group.process] at h
  split at h
  · rename_i hg
    obtain ⟨rfl, rfl, -⟩ := by simpa using Except.ok.inj h
    exact ⟨hg.2.1, rfl, rfl, hg.2.2⟩
  · cases h

theorem process_application {g group : Group} {storage provider : Storage} {message : Message} {plaintext : Bytes}
    (h : g.process storage message = .ok (.applicationMessage plaintext, group, provider)) :
    group = g ∧ provider = g.put storage := by
  cases message with
  | application source sender generation plaintext' =>
    simp only [Group.process] at h
    split at h
    · obtain ⟨-, rfl, rfl⟩ := by simpa using Except.ok.inj h
      exact ⟨rfl, rfl⟩
    · cases h
  | commit source target => cases (process_commit h).2.1
  | welcome => cases h

theorem create_ok {rng : ℕ} {g : Group} {storage provider : Storage} {signer : ℕ} {plaintext : Bytes}
    {message : Message} {group : Group}
    (h : crates.createMessage rng g storage signer plaintext = .ok (message, group, provider)) :
    message = .application g.epoch g.own g.generation plaintext ∧ group = { g with generation := g.generation + 1 } ∧
      provider = group.put storage := by
  simp only [crates] at h
  split at h
  · obtain ⟨rfl, rfl, rfl⟩ := by simpa using Except.ok.inj h
    exact ⟨rfl, rfl, rfl⟩
  · cases h

theorem epoch_of_view {g g' : Group} (h : observer.view g = observer.view g') : g.epoch = g'.epoch := by
  obtain ⟨⟨_, _, _, _⟩, _⟩ := g
  obtain ⟨⟨_, _, _, _⟩, _⟩ := g'
  simp only [Observer.view, observer, crates, View.mk.injEq] at h
  obtain ⟨rfl, rfl, rfl, rfl⟩ := h
  rfl

theorem observer_lawful : observer.Lawful where
  serde := serde
  loads := loads
  commits := by
    intro loaded commit welcome target provider _ h
    have hc := committed h
    obtain ⟨rng, members, rfl⟩ := hc.next
    exact ⟨hc.active, ⟨rfl, rfl⟩, fun _ => rfl, rfl, hc.holds⟩
  accepts := by
    intro loaded taker target bytes message content group provider hto hreads _ hprocess
    obtain ⟨-, rfl⟩ := commitTo hto
    obtain rfl := reads_write hreads
    obtain ⟨hepoch, rfl, -, -⟩ := process_commit hprocess
    refine ⟨?_, _, rfl⟩
    simp only [Observer.view, observer, crates, hepoch]
  takes := by
    intro loaded taker target bytes message group provider hto hreads _ htakes
    obtain ⟨-, rfl⟩ := commitTo hto
    obtain rfl := reads_write hreads
    obtain ⟨stagedCommit, group', provider', hprocess, hmerge⟩ := htakes
    obtain ⟨-, hstaged, rfl, -⟩ := process_commit hprocess
    obtain rfl := ProcessedMessageContent.stagedCommitMessage.inj hstaged
    obtain ⟨rfl, rfl⟩ := Prod.mk.inj (Except.ok.inj hmerge)
    exact ⟨fun _ => rfl, rfl, holds_put _ _⟩
  joins := by
    intro loaded target bytes group provider provider' hto hjoins
    obtain ⟨-, commit, welcome, _, hcommits, hbytes⟩ := hto
    obtain ⟨joiners, rfl⟩ := (committed hcommits).welcome welcome rfl
    obtain rfl := Except.ok.inj hbytes
    obtain ⟨message, welcome, staged, staged', hmessage, hwelcome, hstaged, hinto⟩ := hjoins
    obtain rfl := Except.ok.inj ((read_write _).symm.trans hmessage)
    obtain rfl := Option.some.inj hwelcome
    obtain ⟨rfl, rfl⟩ := Prod.mk.inj (Except.ok.inj hinto)
    simp only [crates] at hstaged
    split at hstaged
    · split at hstaged
      · obtain ⟨rfl, rfl⟩ := Prod.mk.inj (Except.ok.inj hstaged)
        exact ⟨fun _ => rfl, rfl, holds_put _ _⟩
      · cases hstaged
    · cases hstaged
  differ := by
    intro loaded loaded' target target' bytes bytes' hto hto' hne heq
    obtain ⟨⟨rng, members, rfl⟩, rfl⟩ := commitTo hto
    obtain ⟨⟨rng', members', rfl⟩, rfl⟩ := commitTo hto'
    -- the secrets of an epoch tell the epoch before it, and its members
    obtain ⟨rfl, hepoch, rfl⟩ : rng = rng' ∧ loaded.group.epoch = loaded'.group.epoch ∧ members = members' := by
      simpa using encode_injective heq
    apply hne
    simp only [Group.enter, hepoch]
  receives := by
    intro loaded taker rng plaintext message group provider bytes _ _ hactive hactive' _ _ hview hmember hcreate hbytes
    obtain ⟨rfl, -⟩ := create_ok hcreate
    obtain rfl := Except.ok.inj hbytes
    refine ⟨_, taker.group, taker.group.put taker.provider, ⟨_, read_write _, rfl⟩, ?_⟩
    exact if_pos ⟨hactive', (epoch_of_view hview).symm, hmember.symm⟩

theorem sender_lawful : sender.Lawful where
  serde := serde
  loads := loads
  uses := by
    intro loaded rng plaintext message group provider bytes _ hcreate hbytes
    obtain ⟨rfl, -⟩ := create_ok hcreate
    obtain rfl := Except.ok.inj hbytes
    show keyOf (write _) = _
    rw [keyOf, read_write]
    rfl
  creates := by
    intro loaded rng plaintext message group provider _ hcreate
    obtain ⟨-, rfl, rfl⟩ := create_ok hcreate
    exact ⟨_, holds_put _ _, rfl⟩
  commits := by
    intro loaded commit welcome group provider _ h
    have hc := committed h
    obtain ⟨rng, members, rfl⟩ := hc.next
    exact ⟨_, hc.holds, rfl, Nat.lt_succ_self _⟩
  takes := by
    intro loaded message group provider _ h
    obtain ⟨stagedCommit, group', provider', hprocess, hmerge⟩ := h
    cases message with
    | commit source target =>
      obtain ⟨rfl, hstaged, rfl, hgroupId, hnumber⟩ := process_commit hprocess
      obtain rfl := ProcessedMessageContent.stagedCommitMessage.inj hstaged
      obtain ⟨rfl, rfl⟩ := Prod.mk.inj (Except.ok.inj hmerge)
      refine ⟨_, holds_put _ _, Prod.ext rfl hgroupId, ?_⟩
      show loaded.group.epoch.number < stagedCommit.number
      omega
    | application source own generation plaintext =>
      simp only [crates, Group.process] at hprocess
      split at hprocess
      · cases hprocess
      · cases hprocess
    | welcome => cases hprocess
  keeps := by
    intro loaded message group provider _ h
    obtain ⟨content, proposal, -⟩ := h
    exact proposal.elim
  decrypts := by
    intro loaded message plaintext group provider _ h
    obtain ⟨rfl, rfl⟩ := process_application h
    exact ⟨_, holds_put _ _, rfl⟩

/-! ## Blobs -/

/-- The blob of a group in a provider. -/
def blobOf (g : Group) (storage : Storage) : Bytes :=
  write { store := snapshotStore storage, signer := write (0 : ℕ), credentialWithKey := write g.own,
          groupId := write g.epoch.groupId : GroupBundle }

theorem loadState_blob (g : Group) (storage : Storage) :
    loadState crates (blobOf g (g.put storage)) = .ok ⟨g, g.put storage, (0 : ℕ), g.own⟩ := by
  have hsave : saveGroup crates g (g.put storage) (0 : ℕ) g.own = .ok (blobOf g (g.put storage)) := rfl
  exact loadState_saveGroup serde hsave (holds_put g storage)

/-- Adding a member to a blob. -/
theorem addMember_blob (rng : ℕ) {g : Group} (hg : g.active = true) (storage : Storage) (keyPackage : Bytes) :
    let g' := g.enter (g.epoch.next rng (g.epoch.members ++ [keyPackage]))
    addMember crates rng (blobOf g (g.put storage)) keyPackage =
      .ok ⟨write (Message.commit g.epoch g'.epoch), write (Message.welcome g'.epoch [keyPackage]),
        blobOf g' (g'.put (g.put storage)), g'.epoch.number⟩ := by
  intro g'
  have hadd : crates.addMembers rng g (g.put storage) (0 : ℕ) [keyPackage] =
      .ok (Message.commit g.epoch g'.epoch, Message.welcome g'.epoch [keyPackage],
        { g with pending := some g'.epoch }, g.put storage) := by
    simp only [crates, Group.propose, hg, if_true]
    rfl
  have hmerge : crates.mergePendingCommit { g with pending := some g'.epoch } (g.put storage) =
      .ok (g', g'.put (g.put storage)) := rfl
  have hsave : saveGroup crates g' (g'.put (g.put storage)) (0 : ℕ) g.own =
    .ok (blobOf g' (g'.put (g.put storage))) := rfl
  exact addMember_of_loadState (M := crates) (loadState_blob g storage) rfl rfl hadd hmerge hsave rfl rfl

/-- Encrypting with a blob. -/
theorem encryptMessage_blob (rng : ℕ) {g : Group} (hg : g.active = true) (storage : Storage) (plaintext : Bytes) :
    let g' := { g with generation := g.generation + 1 }
    encryptMessage crates rng (blobOf g (g.put storage)) plaintext =
      .ok ⟨write (Message.application g.epoch g.own g.generation plaintext), blobOf g' (g'.put (g.put storage)),
        g.epoch.number⟩ := by
  intro g'
  have hcreate : crates.createMessage rng g (g.put storage) (0 : ℕ) plaintext =
      .ok (Message.application g.epoch g.own g.generation plaintext, g', g'.put (g.put storage)) := if_pos hg
  have hsave : saveGroup crates g' (g'.put (g.put storage)) (0 : ℕ) g.own =
    .ok (blobOf g' (g'.put (g.put storage))) := rfl
  have hok := encryptMessage_of_loadState (M := crates) (loadState_blob g storage) hcreate hsave rfl
  exact hok

end GhostCrypt.Mls.Reference
