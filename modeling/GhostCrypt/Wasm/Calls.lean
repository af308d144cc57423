/-
The calls of `wasm.rs` as one machine, and what each can do to the stores: every invariant of an
instance is read off `Change`, not off the calls.
-/
import GhostCrypt.Wasm.Groups
import GhostCrypt.Ratchet.Panic

namespace GhostCrypt.Wasm

open Identity Ratchet X3dh
open Json (Value)

variable {B : Type} [ByteString B]

/-! ## Calls -/

/-- A call, with the randomness it draws. -/
inductive Call (M : Mls.OpenMls)
  | generateIdentityKeypair (secretSeed : Bytes32) (signingKey : SigningKey)
  | generateSignedPreKey (secretSeed : Bytes32) (identityHandle : UInt32)
  | generateOneTimePreKeys (seeds : ℕ → Bytes32) (count : UInt32)
  | x3dhInitiate (ephemeralSecret : StaticSecret) (identityHandle : UInt32) (bobBundleJson : String)
  | x3dhRespond (identityHandle spkHandle : UInt32) (aliceIdentityKeyB64 aliceEphemeralKeyB64 : String)
  | createSessionAlice (fresh : StaticSecret) (sharedSecretB64 bobSpkPublicB64 : String)
  | createSessionBob (sharedSecretB64 : String) (spkHandle : UInt32)
  | sessionEncrypt (nonce : Aead.Nonce) (sessionHandle : UInt32) (plaintextB64 : String)
  | sessionDecrypt (fresh : StaticSecret) (sessionHandle : UInt32) (headerJson ciphertextB64 nonceB64 : String)
  | mlsGenerateKeyPackage (rng : M.Rng) (identityB64 : String)
  | mlsCreateGroup (rng : M.Rng) (identityB64 : String)
  | mlsAddMember (rng : M.Rng) (groupHandle : UInt32) (keyPackageB64 : String)
  | mlsRemoveMember (rng : M.Rng) (groupHandle leafIndex : UInt32)
  | mlsEncryptMessage (rng : M.Rng) (groupHandle : UInt32) (plaintextB64 : String)
  | mlsDecryptMessage (groupHandle : UInt32) (mlsMessageB64 : String)
  | mlsProcessWelcome (welcomeB64 secretBundleB64 : String)
  | mlsProcessCommit (groupHandle : UInt32) (commitB64 : String)
  | mlsDestroyState (groupHandle : UInt32)

/-- What a call returns. -/
inductive Returned
  | text (s : String)
  | handle (h : UInt32)
  | removed (b : Bool)
  deriving DecidableEq

variable {M : Mls.OpenMls} (C : Crates B) (P : Primitives B) (E : Ed25519)

namespace Instance

/-- A call, what it returns and the instance it leaves. -/
def call (st : Instance B) : Call M → Outcome String Returned × Instance B
  | .generateIdentityKeypair secretSeed signingKey =>
    (generateIdentityKeypair C P E secretSeed signingKey st).map (·.map .text) id
  | .generateSignedPreKey secretSeed identityHandle =>
    (generateSignedPreKey C P E secretSeed identityHandle st).map (·.map .text) id
  | .generateOneTimePreKeys seeds count => ((Outcome.ofExcept (generateOneTimePreKeys C P seeds count)).map .text, st)
  | .x3dhInitiate ephemeralSecret identityHandle bobBundleJson =>
    ((Outcome.ofExcept (x3dhInitiate C E P ephemeralSecret identityHandle bobBundleJson st.toStore)).map .text, st)
  | .x3dhRespond identityHandle spkHandle aliceIdentityKeyB64 aliceEphemeralKeyB64 =>
    ((Outcome.ofExcept
      (x3dhRespond C P identityHandle spkHandle aliceIdentityKeyB64 aliceEphemeralKeyB64 st)).map .text, st)
  | .createSessionAlice fresh sharedSecretB64 bobSpkPublicB64 =>
    (createSessionAlice C P fresh sharedSecretB64 bobSpkPublicB64 st).map (·.map .handle) id
  | .createSessionBob sharedSecretB64 spkHandle =>
    (createSessionBob C sharedSecretB64 spkHandle st).map (·.map .handle) id
  | .sessionEncrypt nonce sessionHandle plaintextB64 =>
    (onStore (sessionEncrypt C P nonce sessionHandle plaintextB64) st).map (·.map .text) id
  | .sessionDecrypt fresh sessionHandle headerJson ciphertextB64 nonceB64 =>
    (onStore (sessionDecrypt C P fresh sessionHandle headerJson ciphertextB64 nonceB64) st).map (·.map .text) id
  | .mlsGenerateKeyPackage rng identityB64 => ((mlsGenerateKeyPackage C M rng identityB64).map .text, st)
  | .mlsCreateGroup rng identityB64 => (mlsCreateGroup C M rng identityB64 st).map (·.map .text) id
  | .mlsAddMember rng groupHandle keyPackageB64 =>
    (mlsAddMember C M rng groupHandle keyPackageB64 st).map (·.map .text) id
  | .mlsRemoveMember rng groupHandle leafIndex =>
    (mlsRemoveMember C M rng groupHandle leafIndex st).map (·.map .text) id
  | .mlsEncryptMessage rng groupHandle plaintextB64 =>
    (mlsEncryptMessage C M rng groupHandle plaintextB64 st).map (·.map .text) id
  | .mlsDecryptMessage groupHandle mlsMessageB64 =>
    (mlsDecryptMessage C M groupHandle mlsMessageB64 st).map (·.map .text) id
  | .mlsProcessWelcome welcomeB64 secretBundleB64 =>
    (mlsProcessWelcome C M welcomeB64 secretBundleB64 st).map (·.map .text) id
  | .mlsProcessCommit groupHandle commitB64 => (mlsProcessCommit C M groupHandle commitB64 st).map (·.map .text) id
  | .mlsDestroyState groupHandle => (mlsDestroyState groupHandle st).map (fun b => .ok (.removed b)) id

/-- The instance after a call. -/
def step (st : Instance B) (c : Call M) : Instance B := (st.call C P E c).2

end Instance

/-! ## What a call can do -/

/-- A message call that the session runs to its end. -/
def Fits (s : Session B) : Ratchet.Call → Prop
  | .encrypt _ _ => True
  | .decrypt _ header encrypted => s.WellFormed header encrypted

/-- The effects of a call: none, a new object under the next handle, a handle drawn for a session that
the borrowed store does not take, a message call on a session, or the removal of a group state. -/
inductive Change (st : Instance B) : Instance B → Prop
  | nothing : Change st st
  | identity (secretSeed : Bytes32) (signingKey : SigningKey) : Change st
      { st.draw with identityKeys := st.identityKeys.insert st.nextId (.generate P secretSeed signingKey) }
  | signedPreKey (h : UInt32) (identity : IdentityKeyPair) (secretSeed : Bytes32) :
      st.identityKeys.lookup h = some identity → Change st
        { st.draw with spkKeys := st.spkKeys.insert st.nextId (.generate P E identity secretSeed) }
  | session (sharedSecret : B) (s : Session B) : st.sessionsBorrowed = false → Session.Created P sharedSecret s →
      Change st { st.draw with sessions := st.sessions.insert st.nextId s }
  | wasted : st.sessionsBorrowed = true → Change st st.draw
  | message (h : UInt32) (s : Session B) (c : Ratchet.Call) (borrowed : Bool) : st.sessionsBorrowed = false →
      st.sessions.lookup h = some s → (borrowed = false ↔ Fits s c) → Change st
        { st with sessions := st.sessions.insert h (s.call P c), sessionsBorrowed := borrowed }
  | state (bytes : Bytes) : Change st { st.draw with mlsStates := st.mlsStates.insert st.nextId bytes }
  | removed (h : UInt32) : Change st { st with mlsStates := st.mlsStates.erase h }

variable {C P E}

theorem Change.of_insertSession {sharedSecret : B} {s : Session B} (hs : Session.Created P sharedSecret s)
    (st : Instance B) : Change P E st (insertSession s st).2 := by
  unfold insertSession
  cases hb : st.sessionsBorrowed with
  | true => simpa [Instance.draw, hb] using Change.wasted (P := P) (E := E) hb
  | false => simpa [Instance.draw, hb] using Change.session (E := E) sharedSecret s hb hs

/-- A chain of `?` ends where a call fails, and changes nothing before the last of them. -/
theorem Change.of_andThen {α β : Type} {x : Except String α} {st : Instance B}
    {f : α → Instance B → Outcome String β × Instance B} (hf : ∀ a, x = .ok a → Change P E st (f a st).2) :
    Change P E st (Outcome.andThen (.ofExcept x, st) f).2 := Outcome.andThen_ofExcept .nothing hf

theorem Change.of_storeState {α : Type} (r : Outcome CryptoError α) (failed : String) (groupState : α → Bytes)
    (result : UInt32 → α → Value) (st : Instance B) : Change P E st (storeState C r failed groupState result st).2 := by
  cases r with
  | ok r => exact .state (groupState r)
  | err e => exact .nothing
  | panic => exact .nothing

/-- A message call that reaches its session. -/
theorem Change.of_withSession {α : Type} {handle : UInt32} {failed : String} {c : Ratchet.Call}
    {f : Session B → Outcome CryptoError α × Session B} {st : Instance B}
    (hf : ∀ s, (f s).2 = s.call P c ∧ ((f s).1 ≠ .panic ↔ Fits s c)) :
    Change P E st (onStore (withSession handle failed f) st).2 := by
  unfold onStore withSession
  cases hb : st.sessionsBorrowed with
  | true => exact .nothing
  | false =>
    cases hs : st.sessions.lookup handle with
    | none => exact .nothing
    | some s =>
      obtain ⟨hcall, hpanic⟩ := hf s
      have hchange := fun borrowed => Change.message (P := P) (E := E) handle s c borrowed hb hs
      rw [← hcall] at hchange
      refine hchange _ ?_
      rw [← hpanic]
      cases (f s).1 <;> simp

theorem Change.of_sessionEncrypt (nonce : Aead.Nonce) (handle : UInt32) (plaintextB64 : String) (st : Instance B) :
    Change P E st (onStore (sessionEncrypt C P nonce handle plaintextB64) st).2 := by
  unfold sessionEncrypt
  rw [onStore_andThen]
  apply Change.of_andThen
  intro plaintext _
  rw [onStore_andThen_snd fun _ _ => rfl]
  exact .of_withSession (c := .encrypt nonce plaintext) fun s =>
    ⟨rfl, iff_of_true (Session.encrypt_ne_panic P nonce s plaintext) trivial⟩

theorem Change.of_sessionDecrypt (fresh : StaticSecret) (handle : UInt32) (headerJson ciphertextB64 nonceB64 : String)
    (st : Instance B) :
    Change P E st (onStore (sessionDecrypt C P fresh handle headerJson ciphertextB64 nonceB64) st).2 := by
  unfold sessionDecrypt decryptWith
  rw [onStore_andThen]
  apply Change.of_andThen
  intro header _
  rw [onStore_andThen]
  apply Change.of_andThen
  intro ciphertext _
  rw [onStore_andThen]
  apply Change.of_andThen
  intro nonce _
  rw [onStore_andThen_snd fun _ _ => rfl]
  refine .of_withSession (c := .decrypt fresh header { nonce, ciphertext }) fun s => ⟨rfl, ?_⟩
  rw [Ne, Session.decrypt_panic_iff, not_not]
  exact Iff.rfl

/-- The one place where the calls of the machine are taken apart. -/
theorem step_change (st : Instance B) (c : Call M) : Change P E st (st.step C P E c) := by
  cases c with
  | generateIdentityKeypair secretSeed signingKey => exact .identity secretSeed signingKey
  | generateSignedPreKey secretSeed identityHandle =>
    show Change P E st (generateSignedPreKey C P E secretSeed identityHandle st).2
    unfold generateSignedPreKey
    cases h : st.identityKeys.lookup identityHandle with
    | none => exact .nothing
    | some identity => exact .signedPreKey identityHandle identity secretSeed h
  | generateOneTimePreKeys | x3dhInitiate | x3dhRespond | mlsGenerateKeyPackage => exact .nothing
  | createSessionAlice fresh sharedSecretB64 bobSpkPublicB64 =>
    show Change P E st (createSessionAlice C P fresh sharedSecretB64 bobSpkPublicB64 st).2
    unfold createSessionAlice
    apply Change.of_andThen
    intro sharedSecret _
    apply Change.of_andThen
    intro bobSpkBytes _
    apply Change.of_andThen
    intro keyBytes _
    rw [Session.initAlice_eq]
    exact .of_insertSession (.alice fresh _ _ (Session.initAlice_eq ..)) st
  | createSessionBob sharedSecretB64 spkHandle =>
    show Change P E st (createSessionBob C sharedSecretB64 spkHandle st).2
    unfold createSessionBob
    apply Change.of_andThen
    intro sharedSecret _
    cases st.spkKeys.lookup spkHandle with
    | none => exact .nothing
    | some spk => exact .of_insertSession (.bob spk) st
  | sessionEncrypt nonce sessionHandle plaintextB64 => exact .of_sessionEncrypt nonce sessionHandle plaintextB64 st
  | sessionDecrypt fresh sessionHandle headerJson ciphertextB64 nonceB64 =>
    exact .of_sessionDecrypt fresh sessionHandle headerJson ciphertextB64 nonceB64 st
  | mlsCreateGroup rng identityB64 =>
    show Change P E st (mlsCreateGroup C M rng identityB64 st).2
    unfold mlsCreateGroup
    exact .of_andThen fun _ _ => .of_storeState ..
  | mlsAddMember rng groupHandle keyPackageB64 =>
    show Change P E st (mlsAddMember C M rng groupHandle keyPackageB64 st).2
    unfold mlsAddMember
    exact .of_andThen fun _ _ => .of_andThen fun _ _ => .of_storeState ..
  | mlsRemoveMember rng groupHandle leafIndex =>
    show Change P E st (mlsRemoveMember C M rng groupHandle leafIndex st).2
    unfold mlsRemoveMember
    exact .of_andThen fun _ _ => .of_storeState ..
  | mlsEncryptMessage rng groupHandle plaintextB64 =>
    show Change P E st (mlsEncryptMessage C M rng groupHandle plaintextB64 st).2
    unfold mlsEncryptMessage
    exact .of_andThen fun _ _ => .of_andThen fun _ _ => .of_storeState ..
  | mlsDecryptMessage groupHandle mlsMessageB64 =>
    show Change P E st (mlsDecryptMessage C M groupHandle mlsMessageB64 st).2
    unfold mlsDecryptMessage
    exact .of_andThen fun _ _ => .of_andThen fun _ _ => .of_storeState ..
  | mlsProcessWelcome welcomeB64 secretBundleB64 =>
    show Change P E st (mlsProcessWelcome C M welcomeB64 secretBundleB64 st).2
    unfold mlsProcessWelcome
    exact .of_andThen fun _ _ => .of_andThen fun _ _ => .of_storeState ..
  | mlsProcessCommit groupHandle commitB64 =>
    show Change P E st (mlsProcessCommit C M groupHandle commitB64 st).2
    unfold mlsProcessCommit
    exact .of_andThen fun _ _ => .of_andThen fun _ _ => .of_storeState ..
  | mlsDestroyState groupHandle => exact .removed groupHandle

end GhostCrypt.Wasm
