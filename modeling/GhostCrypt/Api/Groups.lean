/-
The MLS half of `api.rs`: group states under `u32` handles. A call copies the state of a handle under
the read lock, computes on the copy, and stores what comes out under a new handle; the old handle
stays. Nothing panics while the write lock is held, so it is never poisoned.
-/
import GhostCrypt.Api.Helpers
import GhostCrypt.Mls.Group

namespace GhostCrypt.Api

variable (M : Mls.OpenMls)

/-! ## The store -/

/-- `MLS_STATES` and `NEXT_MLS_ID`. -/
structure Groups where
  states : Finmap fun _ : UInt32 => Bytes
  nextMlsId : UInt32

/-- The store at program start. -/
def Groups.empty : Groups := { states := ∅, nextMlsId := 1 }

/-- `fetch_add`. -/
def Groups.draw (st : Groups) : Groups := { st with nextMlsId := st.nextMlsId + 1 }

/-- `insert`, under the write lock. -/
def Groups.insert (handle : UInt32) (state : Bytes) (st : Groups) : Groups :=
  { st with states := st.states.insert handle state }

/-- The state a call returned goes under the next handle; a call that failed leaves the store. -/
def storeState {α β : Type} (r : Outcome CryptoError α) (groupState : α → Bytes) (result : UInt32 → α → β)
    (st : Groups) : Outcome String β × Groups :=
  match r with
  | .ok r => (.ok (result st.nextMlsId r), st.draw.insert st.nextMlsId (groupState r))
  | .err e => (.err e.display, st)
  | .panic => (.panic, st)

/-- A call on a copy of the state of a handle. -/
def withState {α β : Type} (groupHandle : UInt32) (f : Bytes → Outcome CryptoError α) (groupState : α → Bytes)
    (result : UInt32 → α → β) (st : Groups) : Outcome String β × Groups :=
  match st.states.lookup groupHandle with
  | none => (.err s!"No MLS group with handle {groupHandle}", st)
  | some state => storeState (f state) groupState result st

/-! ## Exported functions -/

structure MlsKeyPackageResult where
  keyPackage : Bytes
  secretBundle : Bytes

structure MlsCreateGroupResult where
  handle : UInt32
  groupId : Bytes
  epoch : ℕ

structure MlsAddMemberResult where
  handle : UInt32
  commit : Bytes
  welcome : Bytes
  epoch : ℕ

structure MlsRemoveMemberResult where
  handle : UInt32
  commit : Bytes
  epoch : ℕ

structure MlsEncryptResult where
  handle : UInt32
  mlsCiphertext : Bytes
  epoch : ℕ

structure MlsDecryptResult where
  handle : UInt32
  plaintext : Bytes

structure MlsProcessWelcomeResult where
  handle : UInt32
  groupId : Bytes
  epoch : ℕ

structure MlsProcessCommitResult where
  handle : UInt32
  epoch : ℕ

/-- `mls_generate_key_package`, which leaves the store alone. -/
def mlsGenerateKeyPackage (rng : M.Rng) (identity : Bytes) : Outcome String MlsKeyPackageResult :=
  ((Mls.generateKeyPackage M rng identity).mapErr CryptoError.display).map fun r => ⟨r.keyPackage, r.secretBundle⟩

/-- `mls_create_group`. -/
def mlsCreateGroup (rng : M.Rng) (identity : Bytes) : Groups → Outcome String MlsCreateGroupResult × Groups :=
  storeState (Mls.createGroup M rng identity) (·.groupState) fun handle r => ⟨handle, r.groupId, r.epoch⟩

/-- `mls_add_member`. -/
def mlsAddMember (rng : M.Rng) (groupHandle : UInt32) (keyPackage : Bytes) :
    Groups → Outcome String MlsAddMemberResult × Groups :=
  withState groupHandle (fun state => Mls.addMember M rng state keyPackage) (·.groupState)
    fun handle r => ⟨handle, r.commit, r.welcome, r.epoch⟩

/-- `mls_remove_member`. -/
def mlsRemoveMember (rng : M.Rng) (groupHandle : UInt32) (leafIndex : UInt32) :
    Groups → Outcome String MlsRemoveMemberResult × Groups :=
  withState groupHandle (fun state => Mls.removeMember M rng state leafIndex) (·.groupState)
    fun handle r => ⟨handle, r.commit, r.epoch⟩

/-- `mls_encrypt_message`. -/
def mlsEncryptMessage (rng : M.Rng) (groupHandle : UInt32) (plaintext : Bytes) :
    Groups → Outcome String MlsEncryptResult × Groups :=
  withState groupHandle (fun state => Mls.encryptMessage M rng state plaintext) (·.groupState)
    fun handle r => ⟨handle, r.mlsCiphertext, r.epoch⟩

/-- `mls_decrypt_message`. -/
def mlsDecryptMessage (groupHandle : UInt32) (mlsMessage : Bytes) :
    Groups → Outcome String MlsDecryptResult × Groups :=
  withState groupHandle (fun state => Mls.decryptMessage M state mlsMessage) (·.groupState)
    fun handle r => ⟨handle, r.plaintext⟩

/-- `mls_process_welcome`. -/
def mlsProcessWelcome (welcome secretBundle : Bytes) : Groups → Outcome String MlsProcessWelcomeResult × Groups :=
  storeState (Mls.processWelcome M welcome secretBundle) (·.groupState) fun handle r => ⟨handle, r.groupId, r.epoch⟩

/-- `mls_process_commit`. -/
def mlsProcessCommit (groupHandle : UInt32) (commit : Bytes) :
    Groups → Outcome String MlsProcessCommitResult × Groups :=
  withState groupHandle (fun state => Mls.processCommit M state commit) (·.groupState)
    fun handle r => ⟨handle, r.epoch⟩

/-- `mls_destroy_state`. -/
def mlsDestroyState (groupHandle : UInt32) (st : Groups) : Bool × Groups :=
  ((st.states.lookup groupHandle).isSome, { st with states := st.states.erase groupHandle })

/-! ## Calls on a handle -/

/-- What is done to the state of a handle. -/
inductive GroupCall
  | addMember (rng : M.Rng) (keyPackage : Bytes)
  | removeMember (rng : M.Rng) (leafIndex : UInt32)
  | encryptMessage (rng : M.Rng) (plaintext : Bytes)
  | decryptMessage (mlsMessage : Bytes)
  | processCommit (commit : Bytes)

/-- The new state, and the ciphertext of an encryption. -/
structure Computed where
  groupState : Bytes
  ciphertext : Option Bytes

variable {M}

/-- The computation between the locks. -/
def GroupCall.compute (state : Bytes) : GroupCall M → Outcome CryptoError Computed
  | .addMember rng keyPackage => (Mls.addMember M rng state keyPackage).map fun r => ⟨r.groupState, none⟩
  | .removeMember rng leafIndex => (Mls.removeMember M rng state leafIndex).map fun r => ⟨r.groupState, none⟩
  | .encryptMessage rng plaintext =>
    (Mls.encryptMessage M rng state plaintext).map fun r => ⟨r.groupState, some r.mlsCiphertext⟩
  | .decryptMessage mlsMessage => (Mls.decryptMessage M state mlsMessage).map fun r => ⟨r.groupState, none⟩
  | .processCommit commit => (Mls.processCommit M state commit).map fun r => ⟨r.groupState, none⟩

/-- The store after the call, run to its end with no other in between. -/
def GroupCall.call (groupHandle : UInt32) (st : Groups) : GroupCall M → Groups
  | .addMember rng keyPackage => (mlsAddMember M rng groupHandle keyPackage st).2
  | .removeMember rng leafIndex => (mlsRemoveMember M rng groupHandle leafIndex st).2
  | .encryptMessage rng plaintext => (mlsEncryptMessage M rng groupHandle plaintext st).2
  | .decryptMessage mlsMessage => (mlsDecryptMessage M groupHandle mlsMessage st).2
  | .processCommit commit => (mlsProcessCommit M groupHandle commit st).2

theorem withState_map {α β γ : Type} (groupHandle : UInt32) (f : Bytes → Outcome CryptoError α) (k : α → γ)
    (groupState : γ → Bytes) (result : UInt32 → α → β) (st : Groups) :
    (withState groupHandle f (fun r => groupState (k r)) result st).2 =
      (withState groupHandle (fun s => (f s).map k) groupState (fun _ r => r) st).2 := by
  unfold withState
  cases st.states.lookup groupHandle with
  | none => rfl
  | some state => cases h : f state <;> simp only [h, storeState, Outcome.map]

/-- Every call on a handle does the same to the store, around its computation. -/
theorem GroupCall.call_eq (groupHandle : UInt32) (st : Groups) (c : GroupCall M) :
    c.call groupHandle st = (withState groupHandle (fun s => c.compute s) (·.groupState) (fun _ r => r) st).2 := by
  cases c with
  | addMember rng keyPackage =>
    exact withState_map groupHandle _ (fun r : Mls.AddMemberResult => ⟨r.groupState, none⟩) Computed.groupState _ st
  | removeMember rng leafIndex =>
    exact withState_map groupHandle _ (fun r : Mls.RemoveMemberResult => ⟨r.groupState, none⟩) Computed.groupState _ st
  | encryptMessage rng plaintext =>
    exact withState_map groupHandle _ (fun r : Mls.EncryptResult => ⟨r.groupState, some r.mlsCiphertext⟩)
      Computed.groupState _ st
  | decryptMessage mlsMessage =>
    exact withState_map groupHandle _ (fun r : Mls.DecryptResult => ⟨r.groupState, none⟩) Computed.groupState _ st
  | processCommit commit =>
    exact withState_map groupHandle _ (fun r : Mls.ProcessCommitResult => ⟨r.groupState, none⟩) Computed.groupState _ st

end GhostCrypt.Api
