/-
Handles of the two native stores. A session or group state goes under the number that `fetch_add`
returned, and nothing looks whether that handle is taken. The counters are `u32` and wrap, so a
handle is reused when the store has returned more than `2^32`.
-/
import GhostCrypt.Api.Groups
import GhostCrypt.Api.Sessions
import GhostCrypt.Lib.Handles

namespace GhostCrypt.Api

open Identity Ratchet

/-- The handle of a call that returned one. -/
def handleOf : Outcome String UInt32 → Option UInt32
  | .ok handle => some handle
  | _ => none

/-! ## Sessions -/

section

variable {B : Type} [ByteString B] (P : Primitives B)

/-- The handle a call returns. -/
def Reply.handle? : Reply → Option UInt32
  | .created r => handleOf r
  | _ => none

namespace Sessions

def table (st : Sessions B) : Handles.Table (Session B) := ⟨st.sessions, st.nextSessionId, st.poisoned⟩

omit [ByteString B] in
theorem insertSession_effect (session : Session B) (st : Sessions B) (named : Option UInt32) :
    Handles.Effect st.table named (handleOf (insertSession session st).1) (insertSession session st).2.table := by
  unfold insertSession
  simp only
  split
  · rename_i hp
    exact .refuse _ hp
  · rename_i hp
    exact .create _ session (Bool.not_eq_true _ ▸ hp)

omit [ByteString B] in
theorem withSession_effect {α : Type} (handle : UInt32) (f : Session B → Outcome CryptoError α × Session B)
    (st : Sessions B) : Handles.Effect st.table (some handle) none (withSession handle f st).2.table := by
  unfold withSession
  split
  · exact .keep _
  · rename_i hp
    cases hl : st.sessions.lookup handle with
    | none => exact .keep _
    | some session => exact .update handle session _ _ hl fun hc => absurd hc hp

/-- What a call does to the table of sessions. -/
theorem call_effect (st : Sessions B) (c : SessionCall B) :
    Handles.Effect st.table c.handle? (st.call P c).1.handle? (st.step P c).table := by
  cases c with
  | createInitiator fresh sharedSecret spkPublic =>
    simp only [step, call, createSessionInitiator, Prod.map]
    cases bytesToPublicKey spkPublic with
    | error e => exact .keep _
    | ok pk =>
      simp only [Session.initAlice_eq]
      exact insertSession_effect _ st none
  | createResponder sharedSecret spkSecret spkPublic spkSignature =>
    simp only [step, call, createSessionResponder, Prod.map]
    cases mapErr (SignedPreKey.fromBytes spkSecret spkPublic spkSignature) with
    | error e => exact .keep _
    | ok spk => exact insertSession_effect _ st none
  | encrypt nonce handle plaintext => exact withSession_effect handle _ st
  | decrypt fresh handle header ciphertext nonce => exact withSession_effect handle _ st
  | destroy handle =>
    simp only [step, call, destroySession, Prod.map]
    split
    · exact .keep _
    · exact .remove handle

/-- The store as a machine on its table. -/
def machine : Handles.Machine (Sessions B) (SessionCall B) (Session B) where
  step := step P
  named := SessionCall.handle?
  reply := fun st c => (st.call P c).1.handle?
  table := table
  effect := call_effect P

end Sessions

end

/-! ## Group states -/

section

variable {M : Mls.OpenMls}

variable (M) in
/-- A call on the MLS store. -/
inductive MlsCall
  | createGroup (rng : M.Rng) (identity : Bytes)
  | processWelcome (welcome secretBundle : Bytes)
  | onState (groupHandle : UInt32) (call : GroupCall M)
  | destroy (groupHandle : UInt32)

/-- The handle whose state a call takes away; the others only read the one they are given. -/
def MlsCall.destroyed? : MlsCall M → Option UInt32
  | .destroy groupHandle => some groupHandle
  | _ => none

/-- The handle a call on a state returns. -/
def GroupCall.reply (groupHandle : UInt32) (st : Groups) : GroupCall M → Outcome String UInt32
  | .addMember rng keyPackage => (mlsAddMember M rng groupHandle keyPackage st).1.map (·.handle)
  | .removeMember rng leafIndex => (mlsRemoveMember M rng groupHandle leafIndex st).1.map (·.handle)
  | .encryptMessage rng plaintext => (mlsEncryptMessage M rng groupHandle plaintext st).1.map (·.handle)
  | .decryptMessage mlsMessage => (mlsDecryptMessage M groupHandle mlsMessage st).1.map (·.handle)
  | .processCommit commit => (mlsProcessCommit M groupHandle commit st).1.map (·.handle)

namespace Groups

/-- The handle a call returns. -/
def reply (st : Groups) : MlsCall M → Option UInt32
  | .createGroup rng identity => handleOf ((mlsCreateGroup M rng identity st).1.map (·.handle))
  | .processWelcome welcome secretBundle => handleOf ((mlsProcessWelcome M welcome secretBundle st).1.map (·.handle))
  | .onState groupHandle call => handleOf (call.reply groupHandle st)
  | .destroy _ => none

/-- The store after a call. -/
def step (st : Groups) : MlsCall M → Groups
  | .createGroup rng identity => (mlsCreateGroup M rng identity st).2
  | .processWelcome welcome secretBundle => (mlsProcessWelcome M welcome secretBundle st).2
  | .onState groupHandle call => call.call groupHandle st
  | .destroy groupHandle => (mlsDestroyState groupHandle st).2

def table (st : Groups) : Handles.Table Bytes := ⟨st.states, st.nextMlsId, false⟩

theorem storeState_effect {α β : Type} (r : Outcome CryptoError α) (groupState : α → Bytes) {result : UInt32 → α → β}
    {handle : β → UInt32} (hresult : ∀ k r, handle (result k r) = k) (st : Groups) :
    Handles.Effect st.table none (handleOf ((storeState r groupState result st).1.map handle))
      (storeState r groupState result st).2.table := by
  cases r with
  | ok r =>
    simp only [storeState, Outcome.map, hresult]
    exact .create _ (groupState r) rfl
  | err e => exact .keep _
  | panic => exact .keep _

theorem withState_effect {α β : Type} (groupHandle : UInt32) (f : Bytes → Outcome CryptoError α)
    (groupState : α → Bytes) {result : UInt32 → α → β} {handle : β → UInt32}
    (hresult : ∀ k r, handle (result k r) = k) (st : Groups) :
    Handles.Effect st.table none (handleOf ((withState groupHandle f groupState result st).1.map handle))
      (withState groupHandle f groupState result st).2.table := by
  unfold withState
  cases st.states.lookup groupHandle with
  | none => exact .keep _
  | some state => exact storeState_effect (f state) groupState hresult st

/-- What a call does to the table of group states. -/
theorem call_effect (st : Groups) (c : MlsCall M) :
    Handles.Effect st.table c.destroyed? (st.reply c) (st.step c).table := by
  cases c with
  | createGroup rng identity => exact storeState_effect _ _ (fun _ _ => rfl) st
  | processWelcome welcome secretBundle => exact storeState_effect _ _ (fun _ _ => rfl) st
  | onState groupHandle call => cases call <;> exact withState_effect groupHandle _ _ (fun _ _ => rfl) st
  | destroy groupHandle => exact .remove groupHandle

variable (M) in
/-- The store as a machine on its table. -/
def machine : Handles.Machine Groups (MlsCall M) Bytes where
  step := step
  named := MlsCall.destroyed?
  reply := reply
  table := table
  effect := call_effect

end Groups

end

/-! ## Handles from program start -/

/-- From program start, a run of calls on either store reuses no handle exactly if the store returns
at most `2^32` handles in it. -/
theorem never_reuses_iff {B : Type} [ByteString B] (P : Primitives B) (M : Mls.OpenMls) :
    (∀ calls : List (SessionCall B), (Sessions.machine P).NeverReuses Sessions.empty calls ↔
      ((Sessions.machine P).returned Sessions.empty calls).length ≤ 2 ^ 32) ∧
    (∀ calls : List (MlsCall M), (Groups.machine M).NeverReuses Groups.empty calls ↔
      ((Groups.machine M).returned Groups.empty calls).length ≤ 2 ^ 32) := by
  constructor
  · exact fun calls => Handles.Machine.neverReuses_iff _ (.start rfl rfl) calls
  · exact fun calls => Handles.Machine.neverReuses_iff _ (.start rfl rfl) calls

/-- Creating responders on a sound lock: each call returns a handle. -/
theorem returned_replicate {B : Type} [ByteString B] (P : Primitives B) (sharedSecret : B) (spk : SignedPreKey)
    {spkSecret spkPublic spkSignature : Bytes}
    (hspk : mapErr (SignedPreKey.fromBytes spkSecret spkPublic spkSignature) = .ok spk) :
    ∀ (n : ℕ) (st : Sessions B), st.poisoned = false → ((Sessions.machine P).returned st
      (List.replicate n (.createResponder sharedSecret spkSecret spkPublic spkSignature))).length = n
  | 0, _, _ => rfl
  | n + 1, st, hp => by
    have hcall : st.call P (.createResponder sharedSecret spkSecret spkPublic spkSignature) =
        (.created (.ok st.nextSessionId),
          { st with sessions := st.sessions.insert st.nextSessionId (Session.initBob sharedSecret spk)
                    nextSessionId := st.nextSessionId + 1 }) := by
      simp [Sessions.call, createSessionResponder, hspk, insertSession, hp]
    have ih := returned_replicate P sharedSecret spk hspk n
      ((Sessions.machine P).step st (.createResponder sharedSecret spkSecret spkPublic spkSignature))
      (by simp [Sessions.machine, Sessions.step, hcall, hp])
    rw [List.replicate_succ, Handles.Machine.returned, List.length_append, ih]
    simp [Sessions.machine, hcall, Reply.handle?, handleOf, Nat.add_comm]

/-- After `2^32` sessions the next one goes under the handle of the first. -/
theorem handle_reused :
    ¬ ∀ calls : List (SessionCall Key), (Sessions.machine Sample.aead).NeverReuses Sessions.empty calls := by
  intro h
  have hspk : mapErr (SignedPreKey.fromBytes (Sample.bytes32 1).1 (Sample.bytes32 1).1 Sample.spk.signature) =
      .ok Sample.spk := by rfl
  let create : SessionCall Key :=
    .createResponder (.shared 0) (Sample.bytes32 1).1 (Sample.bytes32 1).1 Sample.spk.signature
  have hle := (Handles.Machine.neverReuses_iff _ (.start rfl rfl) _).1 (h (List.replicate (2 ^ 32 + 1) create))
  rw [returned_replicate Sample.aead _ _ hspk _ _ rfl] at hle
  omega

end GhostCrypt.Api
