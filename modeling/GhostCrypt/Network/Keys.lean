/-
The keys of the two surfaces. A native caller keeps the secrets it was given and hands them in again; a page
keeps handles, and reads everything else in the JSON of the results.
-/
import GhostCrypt.Api.Keys
import GhostCrypt.Network.Handshake
import GhostCrypt.Network.Surfaces

namespace GhostCrypt.Network

open Identity Ratchet X3dh
open Json (Value)

variable {B : Type} [ByteString B] (P : Primitives B) (E : Ed25519)

/-! ## Native keys -/

/-- What `x3dh_initiate` takes of Bob's keys. -/
structure NativeBundle where
  identityPublic : Bytes
  signingPublic : Bytes
  spkPublic : Bytes
  spkSignature : Bytes
  opkPublic : Option Bytes

/-- The native calls; a reference is the bytes that a key is restored from. -/
def nativeKeys : KeySurface B where
  toSurface := native P
  Identity := Bytes × Bytes
  PreKey := Bytes × Bytes × Bytes
  Bundle := NativeBundle
  Secret := B
  identity _ r := (Api.mapErr (IdentityKeyPair.fromBytes P r.1 r.2)).toOption
  preKey _ r := (Api.mapErr (SignedPreKey.fromBytes r.1 r.2.1 r.2.2)).toOption
  secret := some
  Offers bundle card :=
    bundle = ⟨card.identityKey, card.verifyingKey, card.signedPreKey, card.signature, none⟩
  Spares st c := st.WellFormed c
  generateIdentityKeypair secretSeed signingKey st :=
    let r := Api.generateIdentityKeypair P E secretSeed signingKey
    (some ((r.identitySecret, r.signingSecret), r.identityPublic, r.signingPublic), st)
  generateSignedPreKey secretSeed identity st :=
    ((Api.generateSignedPreKey P E secretSeed identity.1 identity.2).toOption.map fun r =>
      ((r.secret, r.publicKey, r.signature), r.publicKey, r.signature), st)
  x3dhInitiate ephemeral identity bundle _ :=
    (Api.x3dhInitiate P E ephemeral identity.1 identity.2 bundle.identityPublic bundle.signingPublic bundle.spkPublic
      bundle.spkSignature bundle.opkPublic).toOption.map fun r => (r.sharedSecret, r.ephemeralPublic)
  x3dhRespond identity preKey aliceIk aliceEk _ :=
    (Api.x3dhRespond P identity.1 identity.2 preKey.1 preKey.2.1 preKey.2.2 aliceIk aliceEk).toOption.map
      Api.X3dhRespondResult.sharedSecret
  createInitiator fresh secret spk st := (Api.createSessionInitiator P fresh secret spk st).map Outcome.value id
  createResponder secret preKey st :=
    (Api.createSessionResponder secret preKey.1 preKey.2.1 preKey.2.2 st).map Outcome.value id

variable {P E}

namespace Native

theorem toOption_eq_some {ε α : Type} {x : Except ε α} {a : α} : x.toOption = some a ↔ x = .ok a := by
  cases x <;> simp [Except.toOption]

omit [ByteString B] in
theorem insertSession_eq {st : Api.Sessions B} (hsound : st.poisoned = false) (session : Session B) :
    Api.insertSession session st = (.ok st.nextSessionId,
      { st with nextSessionId := st.nextSessionId + 1, sessions := st.sessions.insert st.nextSessionId session }) :=
  if_neg (show ¬ st.poisoned = true by rw [hsound]; exact Bool.false_ne_true)

/-- The native `x3dh_initiate` on Bob's keys. -/
theorem x3dhInitiate_eq {ephemeral : StaticSecret} {identity : Bytes × Bytes} {alice : IdentityKeyPair}
    (halice : Api.mapErr (IdentityKeyPair.fromBytes P identity.1 identity.2) = .ok alice) {b : PreKeyBundle}
    (hfrom : E.fromBytes b.identityVerifyingKey.bytes = .ok b.identityVerifyingKey) (hnone : b.oneTimePreKey = none)
    {result : X3DHResult B} (hresult : initiate P E ephemeral alice b = .ok result) :
    Api.x3dhInitiate P E ephemeral identity.1 identity.2 b.identityKey.toVec b.identityVerifyingKey.bytes.1
      b.signedPreKey.toVec b.signature none = .ok ⟨result.sharedSecret, result.ephemeralKey.toVec⟩ := by
  obtain ⟨identityKey, vk, signedPreKey, signature, opk⟩ := b
  obtain rfl := hnone
  have hvk : Api.bytesToVerifyingKey E vk.bytes.1 = .ok vk := by
    unfold Api.bytesToVerifyingKey
    rw [dif_pos vk.bytes.2]
    simp only [Subtype.coe_eta, hfrom]
  unfold Api.x3dhInitiate
  simp only [halice, Api.bytesToPublicKey_toVec, hvk, bind, Except.bind, Api.optionToPublicKey, hresult]
  rfl

theorem x3dhRespond_eq {identity : Bytes × Bytes} {preKey : Bytes × Bytes × Bytes} {bob : IdentityKeyPair}
    {spk : SignedPreKey} (hbob : Api.mapErr (IdentityKeyPair.fromBytes P identity.1 identity.2) = .ok bob)
    (hspk : Api.mapErr (SignedPreKey.fromBytes preKey.1 preKey.2.1 preKey.2.2) = .ok spk) {aliceIk aliceEk : PublicKey}
    {result : X3DHResult B} (hresult : respond P bob spk none aliceIk aliceEk = .ok result) :
    Api.x3dhRespond P identity.1 identity.2 preKey.1 preKey.2.1 preKey.2.2 aliceIk.toVec aliceEk.toVec =
      .ok ⟨result.sharedSecret⟩ := by
  unfold Api.x3dhRespond
  simp only [hbob, hspk, Api.bytesToPublicKey_toVec, bind, Except.bind, hresult]
  rfl

end Native

theorem nativeKeys_lawful : (nativeKeys P E).Lawful P E where
  toLawful := native_lawful P
  plain bytes := ⟨bytes, rfl⟩
  bundle _ := ⟨_, rfl⟩
  generateIdentityKeypair secretSeed signingKey hsound := ⟨_, _, _, rfl, hsound, fun _ => rfl,
    Native.toOption_eq_some.2 (Api.restore_identity (E := E) secretSeed signingKey), rfl, rfl⟩
  generateSignedPreKey secretSeed hsound hidentity := by
    obtain ⟨r, hr, hrestore, hpublic, hsig⟩ := Api.restore_signedPreKey (Native.toOption_eq_some.1 hidentity) secretSeed
    refine ⟨(r.secret, r.publicKey, r.signature), r.publicKey, r.signature, ?_, hsound, fun _ => rfl, hidentity,
      Native.toOption_eq_some.2 hrestore, congrArg some hpublic, congrArg some hsig⟩
    exact congrArg (Option.map _) (Native.toOption_eq_some.2 hr)
  x3dhInitiate ephemeral halice hoffers hfrom hnone hresult := by
    obtain rfl := hoffers
    have hcall := Native.x3dhInitiate_eq (Native.toOption_eq_some.1 halice) hfrom hnone hresult
    exact ⟨_, _, congrArg (Option.map _) (Native.toOption_eq_some.2 hcall), rfl, rfl⟩
  x3dhRespond hbob hspk hik hek hresult := by
    obtain rfl := Option.some.inj hik
    obtain rfl := Option.some.inj hek
    have hcall := Native.x3dhRespond_eq (Native.toOption_eq_some.1 hbob) (Native.toOption_eq_some.1 hspk) hresult
    exact ⟨_, congrArg (Option.map _) (Native.toOption_eq_some.2 hcall), rfl⟩
  createInitiator fresh hsound hsecret hspk hsession := by
    obtain rfl := Option.some.inj hsecret
    obtain rfl := Option.some.inj hspk
    simp only [nativeKeys, Api.createSessionInitiator, Api.bytesToPublicKey_toVec, hsession,
      Native.insertSession_eq hsound]
    exact ⟨_, rfl, hsound, ⟨fun _ => rfl, fun _ => rfl⟩, Finmap.lookup_insert _⟩
  createResponder hsound hsecret hspk := by
    obtain rfl := Option.some.inj hsecret
    simp only [nativeKeys, Api.createSessionResponder, Native.toOption_eq_some.1 hspk, Native.insertSession_eq hsound]
    exact ⟨_, rfl, hsound, ⟨fun _ => rfl, fun _ => rfl⟩, Finmap.lookup_insert _⟩
  spares hsound hspares := ⟨(Api.Sessions.step_unpoisoned_iff P _ _ hsound).2 hspares, fun _ _ => id, fun _ _ => id⟩

/-! ## Keys in a page -/

section

variable (C : Wasm.Crates B)

/-- An entry of a result that is a string, as a page reads it. -/
def readString (text name : String) : Option String :=
  (C.fromStr text).toOption.bind fun value => (value.get name).asStr

/-- The handle in a result. -/
def readHandle (text : String) : Option UInt32 :=
  (C.fromStr text).toOption.bind fun value => (value.get "handle").asU64.map UInt64.toUInt32

/-- The handle and the two byte strings of a new key. -/
def readKeys (first second text : String) : Option (UInt32 × String × String) := do
  return (← readHandle C text, ← readString C text first, ← readString C text second)

/-- The two byte strings of an initiated key agreement. -/
def readInitiated (text : String) : Option (String × String) := do
  return (← readString C text "shared_secret", ← readString C text "ephemeral_key")

/-- The text is the JSON of a bundle of these keys. -/
structure WasmOffers (value : Value) (card : Card) : Prop where
  identityKey : Wasm.Holds value "identity_key" card.identityKey
  verifyingKey : Wasm.Holds value "identity_verifying_key" card.verifyingKey
  signedPreKey : Wasm.Holds value "signed_pre_key" card.signedPreKey
  signature : Wasm.Holds value "signature" card.signature
  oneTimePreKey : value.get "one_time_pre_key" = .null

variable (P E) (M : Mls.OpenMls)

/-- The calls of an instance, and what a page reads in their results. -/
def wasmKeys : KeySurface B where
  toSurface := wasm C P E M
  Identity := UInt32
  PreKey := UInt32
  Bundle := String
  Secret := String
  identity st handle := st.identityKeys.lookup handle
  preKey st handle := st.spkKeys.lookup handle
  secret text := (Base64.decodeString text).map ByteString.ofBytes
  Offers text card := ∃ value, C.fromStr text = .ok value ∧ WasmOffers value card
  Spares st c := (∀ k, ¬ st.Live k st.nextId) ∧ st.WellFormed C c
  generateIdentityKeypair secretSeed signingKey st :=
    (Wasm.generateIdentityKeypair C P E secretSeed signingKey st).map
      (·.value.bind (readKeys C "public_key" "signing_key_public")) id
  generateSignedPreKey secretSeed handle st :=
    (Wasm.generateSignedPreKey C P E secretSeed handle st).map (·.value.bind (readKeys C "public_key" "signature")) id
  x3dhInitiate ephemeral handle text st :=
    (Wasm.x3dhInitiate C E P ephemeral handle text st.toStore).toOption.bind (readInitiated C)
  x3dhRespond handle spkHandle aliceIk aliceEk st :=
    (Wasm.x3dhRespond C P handle spkHandle aliceIk aliceEk st).toOption.bind (readString C · "shared_secret")
  createInitiator fresh secret spk st := (Wasm.createSessionAlice C P fresh secret spk st).map Outcome.value id
  createResponder secret spkHandle st := (Wasm.createSessionBob C secret spkHandle st).map Outcome.value id

end

variable {C : Wasm.Crates B} {M : Mls.OpenMls}

namespace WasmModule

omit [ByteString B] in
theorem readString_eq {text name s : String} {value : Value} (hfrom : C.fromStr text = .ok value)
    (hget : value.get name = .string s) : readString C text name = some s := by
  unfold readString
  rw [hfrom, Except.toOption, Option.bind_some, hget]
  rfl

omit [ByteString B] in
theorem readKeys_eq {first second text : String} {handle : UInt32} {a b : Bytes}
    (hfrom : C.fromStr text =
      .ok (Value.json [Wasm.handleEntry handle, (first, Wasm.b64 a), (second, Wasm.b64 b)]))
    (hfirst : first ≠ "handle") (hsecond : second ≠ "handle") (hne : first ≠ second) :
    readKeys C first second text = some (handle, Base64.encodeString a, Base64.encodeString b) := by
  have hhandle : readHandle C text = some handle := by
    unfold readHandle
    rw [hfrom]
    simp [Except.toOption, Wasm.handleEntry, Value.get_json, Value.lookup_cons, hfirst.symm, hsecond.symm, Value.asU64]
  have ha : readString C text first = some (Base64.encodeString a) :=
    readString_eq hfrom (by simp [Wasm.handleEntry, Wasm.b64, Value.get_json, Value.lookup_cons, hne])
  have hb : readString C text second = some (Base64.encodeString b) :=
    readString_eq hfrom (by simp [Wasm.handleEntry, Wasm.b64, Value.get_json])
  simp only [readKeys, hhandle, ha, hb]
  rfl

omit [ByteString B] in
/-- A page reads the new key in the text it gets. -/
theorem read_serialize (hC : C.Lawful) {first second : String} (handle : UInt32) (a b : Bytes)
    (hfirst : first ≠ "handle") (hsecond : second ≠ "handle") (hne : first ≠ second) :
    (Outcome.ofExcept (C.serialize
      (Value.json [Wasm.handleEntry handle, (first, Wasm.b64 a), (second, Wasm.b64 b)]))).value.bind
        (readKeys C first second) = some (handle, Base64.encodeString a, Base64.encodeString b) := by
  have hreadable : (Value.json [Wasm.handleEntry handle, (first, Wasm.b64 a), (second, Wasm.b64 b)]).Readable 127 := by
    apply Value.readable_json
    simp [Wasm.handleEntry, Value.Readable]
  obtain ⟨text, htext, hfrom⟩ := Wasm.serialize_of_readable hC hreadable
  rw [htext]
  exact readKeys_eq hfrom hfirst hsecond hne

omit [ByteString B] in
theorem exists_offers (hC : C.Lawful) (card : Card) :
    ∃ text value, C.fromStr text = .ok value ∧ WasmOffers value card := by
  let value := Value.json [("identity_key", Wasm.b64 card.identityKey),
    ("identity_verifying_key", Wasm.b64 card.verifyingKey), ("signed_pre_key", Wasm.b64 card.signedPreKey),
    ("signature", Wasm.b64 card.signature)]
  have hreadable : value.Readable 127 := by
    apply Value.readable_json
    simp
  obtain ⟨text, -, hfrom⟩ := hC.roundTrip value hreadable
  refine ⟨text, value, hfrom, ?_, ?_, ?_, ?_, ?_⟩
  · exact Wasm.holds_iff.2 (by simp [value, Wasm.b64, Value.get_json, Value.lookup_cons])
  · exact Wasm.holds_iff.2 (by simp [value, Wasm.b64, Value.get_json, Value.lookup_cons])
  · exact Wasm.holds_iff.2 (by simp [value, Wasm.b64, Value.get_json, Value.lookup_cons])
  · exact Wasm.holds_iff.2 (by simp [value, Wasm.b64, Value.get_json])
  · simp [value, Value.get_json, Value.lookup_cons]

theorem x3dhInitiate_eq (hC : C.Lawful) {st : Wasm.Instance B} {handle : UInt32} {alice : IdentityKeyPair}
    (halice : st.identityKeys.lookup handle = some alice) {text : String} {b : PreKeyBundle}
    (hoffers : (wasmKeys P E C M).Offers text
      ⟨b.identityKey.toVec, b.identityVerifyingKey.bytes.1, b.signedPreKey.toVec, b.signature⟩)
    (hfrom : E.fromBytes b.identityVerifyingKey.bytes = .ok b.identityVerifyingKey) (hnone : b.oneTimePreKey = none)
    {ephemeral : StaticSecret} {result : X3DHResult B} (hresult : initiate P E ephemeral alice b = .ok result) :
    (wasmKeys P E C M).x3dhInitiate ephemeral handle text st =
      some (Base64.encodeString (C.keyBytes result.sharedSecret), Base64.encodeString result.ephemeralKey.toVec) := by
  obtain ⟨value, hvalue, hoffers⟩ := hoffers
  have hbundle : Wasm.decodeBundle C E text = .ok b := by
    refine Wasm.decodeBundle_eq_ok.2 ⟨value, hvalue, ⟨hoffers.identityKey, hoffers.signedPreKey, hoffers.signature,
      b.identityVerifyingKey.bytes, hoffers.verifyingKey, hfrom⟩, ?_⟩
    rw [hoffers.oneTimePreKey, hnone]
    rfl
  obtain ⟨text', htext, hread⟩ := Wasm.serialize_of_readable hC (Wasm.readable_initiateResultJson 125 result)
  have hcall : Wasm.x3dhInitiate C E P ephemeral handle text st.toStore = .ok text' :=
    except_bind_eq_ok.2 ⟨b, hbundle, Wasm.initiateWith_eq_ok.2 ⟨alice, result, halice, hresult, htext⟩⟩
  have hsecret : readString C text' "shared_secret" = some (Base64.encodeString (C.keyBytes result.sharedSecret)) :=
    readString_eq hread (by simp [Wasm.initiateResultJson, Value.get_json, Value.lookup_cons])
  have hephemeral : readString C text' "ephemeral_key" = some (Base64.encodeString result.ephemeralKey.toVec) :=
    readString_eq hread (by simp [Wasm.initiateResultJson, Value.get_json])
  have hboth : readInitiated C text' =
      some (Base64.encodeString (C.keyBytes result.sharedSecret), Base64.encodeString result.ephemeralKey.toVec) := by
    simp only [readInitiated, hsecret, hephemeral]
    rfl
  simp only [wasmKeys, hcall]
  exact hboth

theorem x3dhRespond_eq (hC : C.Lawful) {st : Wasm.Instance B} {handle spkHandle : UInt32} {bob : IdentityKeyPair}
    {spk : SignedPreKey} (hbob : st.identityKeys.lookup handle = some bob)
    (hspk : st.spkKeys.lookup spkHandle = some spk) {ik ek : String} {aliceIk aliceEk : PublicKey}
    (hik : Base64.decodeString ik = some aliceIk.toVec) (hek : Base64.decodeString ek = some aliceEk.toVec)
    {result : X3DHResult B} (hresult : respond P bob spk none aliceIk aliceEk = .ok result) :
    (wasmKeys P E C M).x3dhRespond handle spkHandle ik ek st =
      some (Base64.encodeString (C.keyBytes result.sharedSecret)) := by
  rw [respond_eq] at hresult
  obtain rfl := Except.ok.inj hresult
  have hreadable : (Wasm.respondResultJson C ⟨secretOf P (spk.dh P aliceIk) (bob.dh P aliceEk) (spk.dh P aliceEk) none,
      aliceEk⟩).Readable 127 := by
    apply Value.readable_json
    simp
  obtain ⟨text, htext, hread⟩ := Wasm.serialize_of_readable hC hreadable
  have hcall := Wasm.x3dhRespond_eq_ok.2 ⟨aliceIk, aliceEk, bob, spk, hik, hek, hbob, hspk, htext⟩
  simp only [wasmKeys, hcall, Except.toOption, Option.bind_some]
  exact readString_eq hread (by simp [Wasm.respondResultJson, Wasm.b64, Value.get_json])

theorem generateSignedPreKey_eq {st : Wasm.Instance B} {handle : UInt32} {identity : IdentityKeyPair}
    (hidentity : st.identityKeys.lookup handle = some identity) {secretSeed : Bytes32} :
    Wasm.generateSignedPreKey C P E secretSeed handle st =
      (.ofExcept (C.serialize (Wasm.signedPreKeyJson st.nextId (.generate P E identity secretSeed))),
        { st.draw with spkKeys := st.spkKeys.insert st.nextId (.generate P E identity secretSeed) }) := by
  unfold Wasm.generateSignedPreKey
  rw [hidentity]
  rfl

theorem createSessionBob_eq {st : Wasm.Instance B} (hb : st.sessionsBorrowed = false) {secret : String}
    {sharedSecret : Bytes} (hsecret : Base64.decodeString secret = some sharedSecret) {spkHandle : UInt32}
    {spk : SignedPreKey} (hspk : st.spkKeys.lookup spkHandle = some spk) :
    Wasm.createSessionBob C secret spkHandle st = (.ok st.nextId, { st.draw with
      sessions := st.sessions.insert st.nextId (Session.initBob (ByteString.ofBytes sharedSecret) spk) }) := by
  have hdecode : C.decode "shared_secret" secret = .ok sharedSecret := Wasm.decode_eq_ok.2 hsecret
  simp only [Wasm.createSessionBob, hdecode, Outcome.ofExcept_ok, Outcome.andThen_ok, hspk]
  exact Wasm.insertSession_of_free hb _

end WasmModule

/-- A page keeps the promises where what is read of a secret is the secret. -/
theorem wasmKeys_lawful (hC : C.Lawful) (hkeys : ∀ key : B, ByteString.ofBytes (C.keyBytes key) = key) :
    (wasmKeys P E C M).Lawful P E where
  toLawful := wasm_lawful hC
  plain bytes := ⟨_, Base64.decodeString_encodeString bytes⟩
  bundle card := WasmModule.exists_offers hC card
  generateIdentityKeypair {st} secretSeed signingKey hsound := by
    refine ⟨st.nextId, _, _, WasmModule.read_serialize hC st.nextId _ _ (by decide) (by decide) (by decide), hsound,
      fun _ => rfl, Finmap.lookup_insert _, Base64.decodeString_encodeString _, Base64.decodeString_encodeString _⟩
  generateSignedPreKey {st r identity} secretSeed hsound hidentity := by
    simp only [wasmKeys, WasmModule.generateSignedPreKey_eq hidentity]
    refine ⟨st.nextId, _, _, WasmModule.read_serialize hC st.nextId _ _ (by decide) (by decide) (by decide), hsound,
      fun _ => rfl, hidentity, Finmap.lookup_insert _, Base64.decodeString_encodeString _,
      Base64.decodeString_encodeString _⟩
  x3dhInitiate ephemeral halice hoffers hfrom hnone hresult := by
    refine ⟨_, _, WasmModule.x3dhInitiate_eq hC halice hoffers hfrom hnone hresult, ?_,
      Base64.decodeString_encodeString _⟩
    exact (congrArg (Option.map _) (Base64.decodeString_encodeString _)).trans (congrArg some (hkeys _))
  x3dhRespond hbob hspk hik hek hresult := by
    refine ⟨_, WasmModule.x3dhRespond_eq hC hbob hspk hik hek hresult, ?_⟩
    exact (congrArg (Option.map _) (Base64.decodeString_encodeString _)).trans (congrArg some (hkeys _))
  createInitiator fresh hsound hsecret hspk hsession := by
    obtain ⟨bytes, hbytes, rfl⟩ := Option.map_eq_some_iff.1 hsecret
    simp only [wasmKeys, Wasm.createSessionAlice_of_free hsound fresh hbytes hspk hsession]
    exact ⟨_, rfl, hsound, ⟨fun _ => rfl, fun _ => rfl⟩, Finmap.lookup_insert _⟩
  createResponder hsound hsecret hspk := by
    obtain ⟨bytes, hbytes, rfl⟩ := Option.map_eq_some_iff.1 hsecret
    simp only [wasmKeys, WasmModule.createSessionBob_eq hsound hbytes hspk]
    exact ⟨_, rfl, hsound, ⟨fun _ => rfl, fun _ => rfl⟩, Finmap.lookup_insert _⟩
  spares {st c} hsound hspares := by
    have hkeys := (Wasm.KeepsKeys.refl st).change (Wasm.step_change (C := C) (P := P) (E := E) st c) fun _ => hspares.1
    exact ⟨(Wasm.step_free_iff hsound c).2 hspares.2, hkeys.identity, hkeys.signedPreKey⟩

/-! ## Sides -/

variable (C P E M) in
/-- The calls of the surface a party uses. -/
def Side.keySurface : Side → KeySurface B
  | .native => nativeKeys P E
  | .wasm => wasmKeys P E C M

theorem Side.keys_lawful (hC : C.Lawful) (hkeys : ∀ key : B, ByteString.ofBytes (C.keyBytes key) = key) :
    ∀ side : Side, (side.keySurface P E C M).Lawful P E
  | .native => nativeKeys_lawful
  | .wasm => wasmKeys_lawful hC hkeys

end GhostCrypt.Network
