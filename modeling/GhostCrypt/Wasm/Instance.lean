/-
An instance of `wasm.rs`: its thread-local stores, the counter all of them draw handles from, and the
calls that make keys and sessions.
-/
import GhostCrypt.Wasm.Sessions
import GhostCrypt.Wasm.X3dh

namespace GhostCrypt.Wasm

open Identity Ratchet X3dh
open Json (Value)
open Json.Value (json)

variable {B : Type}

/-! ## The stores -/

/-- `IDENTITY_KEYS` and `SESSIONS` with its borrow, `SPK_KEYS`, `MLS_STATES` and `NEXT_ID`. -/
structure Instance (B : Type) extends Store B where
  spkKeys : Finmap fun _ : UInt32 => SignedPreKey
  mlsStates : Finmap fun _ : UInt32 => Bytes
  nextId : UInt32

/-- The instance when the module is loaded. -/
def Instance.empty : Instance B :=
  { identityKeys := ∅, sessions := ∅, sessionsBorrowed := false, spkKeys := ∅, mlsStates := ∅, nextId := 1 }

/-- `next_id`; the counter wraps in a release build. -/
def Instance.draw (st : Instance B) : Instance B := { st with nextId := st.nextId + 1 }

/-- A session under the next handle. The handle is drawn before the store is borrowed, which panics if
it still is. -/
def insertSession (session : Session B) (st : Instance B) : Outcome String UInt32 × Instance B :=
  let handle := st.nextId
  let st := st.draw
  if st.sessionsBorrowed then (.panic, st)
  else (.ok handle, { st with sessions := st.sessions.insert handle session })

/-- A call on `IDENTITY_KEYS` and `SESSIONS` alone. -/
def onStore {α : Type} (f : Store B → Outcome String α × Store B) (st : Instance B) : Outcome String α × Instance B :=
  let (r, toStore) := f st.toStore
  (r, { st with toStore })

/-- A chain of `?` that starts with a check starts with it on the whole instance. -/
theorem onStore_andThen {α β : Type} (x : Except String α) (f : α → Store B → Outcome String β × Store B)
    (st : Instance B) : onStore (fun st => Outcome.andThen (.ofExcept x, st) f) st =
      Outcome.andThen (.ofExcept x, st) fun a => onStore (f a) := by
  cases x <;> rfl

/-- What is done with the result of a call does not matter to the instance. -/
theorem onStore_andThen_snd {α β : Type} {x : Store B → Outcome String α × Store B}
    {g : α → Store B → Outcome String β × Store B} (hg : ∀ a store, (g a store).2 = store) (st : Instance B) :
    (onStore (fun st => Outcome.andThen (x st) g) st).2 = (onStore x st).2 := by
  have hsnd : (Outcome.andThen (x st.toStore) g).2 = (x st.toStore).2 := by
    obtain ⟨a | e | _, store⟩ := x st.toStore
    · exact hg a store
    · rfl
    · rfl
  simp only [onStore, hsnd]

/-! ## Results -/

/-- A byte string in a result. -/
def b64 (bytes : Bytes) : Value := .string (Base64.encodeString bytes)

/-- A `u64` in a result. -/
def u64 (n : ℕ) : Value := .posInt (UInt64.ofNat n)

/-- The handle in a result. -/
def handleEntry (handle : UInt32) : String × Value := ("handle", .posInt handle.toUInt64)

section

variable (C : Crates B) (E : Ed25519)

/-- The result of `generate_identity_keypair`. -/
def identityJson (handle : UInt32) (kp : IdentityKeyPair) : Value :=
  json [handleEntry handle, ("public_key", b64 kp.x25519Public.toVec),
    ("signing_key_public", b64 (kp.verifyingKey E).bytes.1)]

/-- The result of `generate_signed_pre_key`. -/
def signedPreKeyJson (handle : UInt32) (spk : SignedPreKey) : Value :=
  json [handleEntry handle, ("public_key", b64 spk.x25519Public.toVec), ("signature", b64 spk.signature)]

/-- The result of `generate_one_time_pre_keys`. -/
def oneTimePreKeysJson (otpks : List OneTimePreKey) : Value :=
  .array (otpks.map fun otpk => json [("id", .posInt otpk.id.toUInt64), ("public_key", b64 otpk.x25519Public.toVec)])

/-- The result of `x3dh_respond`. -/
def respondResultJson (r : X3DHResult B) : Value := json [("shared_secret", b64 (C.keyBytes r.sharedSecret))]

end

/-! ## Keys -/

variable [ByteString B] (C : Crates B) (P : Primitives B) (E : Ed25519)

/-- `generate_identity_keypair`, on the random seeds drawn. -/
def generateIdentityKeypair (secretSeed : Bytes32) (signingKey : SigningKey) (st : Instance B) :
    Outcome String String × Instance B :=
  let kp := IdentityKeyPair.generate P secretSeed signingKey
  let handle := st.nextId
  let st := st.draw
  let st := { st with identityKeys := st.identityKeys.insert handle kp }
  (.ofExcept (C.serialize (identityJson E handle kp)), st)

/-- `generate_signed_pre_key`, on the random seed drawn. -/
def generateSignedPreKey (secretSeed : Bytes32) (identityHandle : UInt32) (st : Instance B) :
    Outcome String String × Instance B :=
  match st.identityKeys.lookup identityHandle with
  | none => (.err s!"Identity handle {identityHandle} not found", st)
  | some identity =>
    let spk := SignedPreKey.generate P E identity secretSeed
    let handle := st.nextId
    let st := st.draw
    let st := { st with spkKeys := st.spkKeys.insert handle spk }
    (.ofExcept (C.serialize (signedPreKeyJson handle spk)), st)

/-- `generate_one_time_pre_keys`, on the random seeds drawn; the secrets are not kept. -/
def generateOneTimePreKeys (seeds : ℕ → Bytes32) (count : UInt32) : Except String String :=
  C.serialize (oneTimePreKeysJson (OneTimePreKey.generateBatch P ((List.range count.toNat).map seeds)))

/-- The two public keys of Alice's that `x3dh_respond` takes. -/
def decodeAlice (aliceIdentityKeyB64 aliceEphemeralKeyB64 : String) : Except String (PublicKey × PublicKey) := do
  let aliceIkBytes ← C.decode "alice_identity_key" aliceIdentityKeyB64
  let aliceEkBytes ← C.decode "alice_ephemeral_key" aliceEphemeralKeyB64
  let ikArr ← bytes32 "alice_identity_key" aliceIkBytes
  let ekArr ← bytes32 "alice_ephemeral_key" aliceEkBytes
  return (⟨ikArr⟩, ⟨ekArr⟩)

/-- `x3dh_respond`; no one-time pre-key reaches `respond`. -/
def x3dhRespond (identityHandle spkHandle : UInt32) (aliceIdentityKeyB64 aliceEphemeralKeyB64 : String)
    (st : Instance B) : Except String String := do
  let (aliceIk, aliceEk) ← decodeAlice C aliceIdentityKeyB64 aliceEphemeralKeyB64
  match st.identityKeys.lookup identityHandle with
  | none => .error s!"Identity handle {identityHandle} not found"
  | some identity =>
    match st.spkKeys.lookup spkHandle with
    | none => .error s!"SPK handle {spkHandle} not found"
    | some spk =>
      match respond P identity spk none aliceIk aliceEk with
      | .error e => .error s!"X3DH respond failed: {e.display}"
      | .ok r => C.serialize (respondResultJson C r)

omit [ByteString B] in
variable {C} in
theorem decodeAlice_eq_ok {aliceIdentityKeyB64 aliceEphemeralKeyB64 : String} {aliceIk aliceEk : PublicKey} :
    decodeAlice C aliceIdentityKeyB64 aliceEphemeralKeyB64 = .ok (aliceIk, aliceEk) ↔
      Base64.decodeString aliceIdentityKeyB64 = some aliceIk.toVec ∧
      Base64.decodeString aliceEphemeralKeyB64 = some aliceEk.toVec := by
  unfold decodeAlice
  simp only [except_bind_eq_ok, decode_eq_ok, bytes32_eq_ok]
  constructor
  · rintro ⟨_, hik, _, hek, ikArr, rfl, ekArr, rfl, heq⟩
    obtain ⟨rfl, rfl⟩ := Prod.mk.inj (Except.ok.inj heq)
    exact ⟨hik, hek⟩
  · obtain ⟨ikArr⟩ := aliceIk
    obtain ⟨ekArr⟩ := aliceEk
    rintro ⟨hik, hek⟩
    exact ⟨_, hik, _, hek, ikArr, rfl, ekArr, rfl, rfl⟩

variable {C P} in
/-- What `x3dh_respond` returns is the secret of the keys under the two handles and of the two it is
given. -/
theorem x3dhRespond_eq_ok {identityHandle spkHandle : UInt32} {aliceIdentityKeyB64 aliceEphemeralKeyB64 text : String}
    {st : Instance B} :
    x3dhRespond C P identityHandle spkHandle aliceIdentityKeyB64 aliceEphemeralKeyB64 st = .ok text ↔
      ∃ aliceIk aliceEk identity spk, Base64.decodeString aliceIdentityKeyB64 = some aliceIk.toVec ∧
        Base64.decodeString aliceEphemeralKeyB64 = some aliceEk.toVec ∧
        st.identityKeys.lookup identityHandle = some identity ∧ st.spkKeys.lookup spkHandle = some spk ∧
        C.serialize (respondResultJson C ⟨secretOf P (spk.dh P aliceIk) (identity.dh P aliceEk) (spk.dh P aliceEk) none,
          aliceEk⟩) = .ok text := by
  unfold x3dhRespond
  rw [except_bind_eq_ok]
  constructor
  · rintro ⟨⟨aliceIk, aliceEk⟩, hdecode, h⟩
    obtain ⟨hik, hek⟩ := decodeAlice_eq_ok.1 hdecode
    cases hidentity : st.identityKeys.lookup identityHandle with
    | none => simp [hidentity] at h
    | some identity =>
      cases hspk : st.spkKeys.lookup spkHandle with
      | none => simp [hidentity, hspk] at h
      | some spk =>
        simp only [hidentity, hspk, respond_eq, Option.map_none] at h
        exact ⟨aliceIk, aliceEk, identity, spk, hik, hek, rfl, rfl, h⟩
  · rintro ⟨aliceIk, aliceEk, identity, spk, hik, hek, hidentity, hspk, htext⟩
    refine ⟨(aliceIk, aliceEk), decodeAlice_eq_ok.2 ⟨hik, hek⟩, ?_⟩
    simp only [hidentity, hspk, respond_eq, Option.map_none]
    exact htext

/-! ## Sessions -/

/-- `create_session_alice`, on the secret drawn. -/
def createSessionAlice (fresh : StaticSecret) (sharedSecretB64 bobSpkPublicB64 : String) (st : Instance B) :
    Outcome String UInt32 × Instance B :=
  Outcome.andThen (.ofExcept (C.decode "shared_secret" sharedSecretB64), st) fun sharedSecret st =>
  Outcome.andThen (.ofExcept (C.decode "bob_spk_public" bobSpkPublicB64), st) fun bobSpkBytes st =>
  Outcome.andThen (.ofExcept (bytes32 "Bob's SPK public key" bobSpkBytes), st) fun keyBytes st =>
    match Session.initAlice P fresh (ByteString.ofBytes sharedSecret) ⟨keyBytes⟩ with
    | .ok session => insertSession session st
    | .err e => (.err e.display, st)
    | .panic => (.panic, st)

/-- `create_session_bob`. -/
def createSessionBob (sharedSecretB64 : String) (spkHandle : UInt32) (st : Instance B) :
    Outcome String UInt32 × Instance B :=
  Outcome.andThen (.ofExcept (C.decode "shared_secret" sharedSecretB64), st) fun sharedSecret st =>
    match st.spkKeys.lookup spkHandle with
    | none => (.err s!"SPK handle {spkHandle} not found", st)
    | some spk => insertSession (Session.initBob (ByteString.ofBytes sharedSecret) spk) st

end GhostCrypt.Wasm
