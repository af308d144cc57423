/-
`x3dh_initiate` of `wasm.rs`. The bundle crosses the boundary as JSON: `decodeBundle` is the part that
reads it, and `initiateWith` the rest.
-/
import GhostCrypt.Wasm.Store
import GhostCrypt.X3dh

namespace GhostCrypt.Wasm

open Identity X3dh
open Json (Value)
open Json.Value (json)

variable {B : Type} (C : Crates B) (E : Ed25519)

/-! ## The bundle -/

/-- `VerifyingKey::from_bytes`. -/
def verifyingKey (bytes : Bytes32) : Except String VerifyingKey :=
  (E.fromBytes bytes).mapError fun e => s!"Invalid identity_verifying_key: {e}"

/-- The one-time pre-key, if the entry is a string. -/
def decodeOneTimePreKey : Option String → Except String (Option PublicKey)
  | some opkB64 => do
    let opkBytes ← C.decode "one_time_pre_key" opkB64
    let opk ← bytes32 "one_time_pre_key" opkBytes
    return some ⟨opk⟩
  | none => .ok none

/-- `x3dh_initiate` up to the bundle; `as_str` of an entry that is not a string is none. -/
def decodeBundle (bobBundleJson : String) : Except String PreKeyBundle := do
  let bundleValue ← (C.fromStr bobBundleJson).mapError fun e => s!"Invalid bundle JSON: {e}"
  let identityKeyB64 ← strField "bundle" "identity_key" bundleValue
  let signedPreKeyB64 ← strField "bundle" "signed_pre_key" bundleValue
  let signatureB64 ← strField "bundle" "signature" bundleValue
  let identityVerifyingKeyB64 ← strField "bundle" "identity_verifying_key" bundleValue
  let oneTimePreKeyB64 := (bundleValue.get "one_time_pre_key").asStr
  let ikBytes ← C.decode "identity_key" identityKeyB64
  let spkBytes ← C.decode "signed_pre_key" signedPreKeyB64
  let sigBytes ← C.decode "signature" signatureB64
  let vkBytes ← C.decode "identity_verifying_key" identityVerifyingKeyB64
  let ikArr ← bytes32 "identity_key" ikBytes
  let spkArr ← bytes32 "signed_pre_key" spkBytes
  let vkArr ← bytes32 "identity_verifying_key" vkBytes
  let bobVk ← verifyingKey E vkArr
  let bobOpk ← decodeOneTimePreKey C oneTimePreKeyB64
  return { identityKey := ⟨ikArr⟩, identityVerifyingKey := bobVk, signedPreKey := ⟨spkArr⟩, signature := sigBytes,
           oneTimePreKey := bobOpk }

/-- The entries that a bundle cannot do without are those of `bundle`. -/
structure KeysIn (value : Value) (bundle : PreKeyBundle) : Prop where
  identityKey : Holds value "identity_key" bundle.identityKey.toVec
  signedPreKey : Holds value "signed_pre_key" bundle.signedPreKey.toVec
  signature : Holds value "signature" bundle.signature
  identityVerifyingKey : ∃ vk : Bytes32, Holds value "identity_verifying_key" vk.1 ∧
    E.fromBytes vk = .ok bundle.identityVerifyingKey

variable {C E}

theorem KeysIn.with_oneTimePreKey {value : Value} {bundle : PreKeyBundle} (h : KeysIn E value bundle)
    (oneTimePreKey : Option PublicKey) : KeysIn E value { bundle with oneTimePreKey } :=
  ⟨h.identityKey, h.signedPreKey, h.signature, h.identityVerifyingKey⟩

theorem verifyingKey_eq_ok {bytes : Bytes32} {vk : VerifyingKey} :
    verifyingKey E bytes = .ok vk ↔ E.fromBytes bytes = .ok vk := except_mapError_eq_ok

theorem decodeOneTimePreKey_some {opkB64 : String} {opk : Option PublicKey} :
    decodeOneTimePreKey C (some opkB64) = .ok opk ↔
      ∃ k, opk = some k ∧ Base64.decodeString opkB64 = some k.toVec := by
  unfold decodeOneTimePreKey
  simp only [except_bind_eq_ok, decode_eq_ok, bytes32_eq_ok]
  constructor
  · rintro ⟨bytes, hdecode, a, rfl, heq⟩
    exact ⟨⟨a⟩, (Except.ok.inj heq).symm, hdecode⟩
  · rintro ⟨⟨a⟩, rfl, hdecode⟩
    exact ⟨_, hdecode, a, rfl, rfl⟩

/-- What `decodeBundle` accepts, and what it makes of it. -/
theorem decodeBundle_eq_ok {text : String} {bundle : PreKeyBundle} : decodeBundle C E text = .ok bundle ↔
    ∃ value, C.fromStr text = .ok value ∧ KeysIn E value bundle ∧
      decodeOneTimePreKey C (value.get "one_time_pre_key").asStr = .ok bundle.oneTimePreKey := by
  unfold decodeBundle
  simp only [except_bind_eq_ok, except_mapError_eq_ok, strField_eq_ok, decode_eq_ok, bytes32_eq_ok, verifyingKey_eq_ok]
  constructor
  · rintro ⟨value, hvalue, ik, hik, spk, hspk, sig, hsig, vk, hvk, _, hik', _, hspk', sigBytes, hsig', _, hvk',
      ikArr, rfl, spkArr, rfl, vkArr, rfl, bobVk, hbobVk, opk, hopk, heq⟩
    obtain rfl := Except.ok.inj heq
    refine ⟨value, hvalue, ⟨⟨ik, hik, hik'⟩, ⟨spk, hspk, hspk'⟩, ⟨sig, hsig, hsig'⟩, ?_⟩, hopk⟩
    exact ⟨vkArr, ⟨vk, hvk, hvk'⟩, hbobVk⟩
  · obtain ⟨⟨ikArr⟩, bobVk, ⟨spkArr⟩, sigBytes, opk⟩ := bundle
    rintro ⟨value, hvalue, ⟨⟨ik, hik, hik'⟩, ⟨spk, hspk, hspk'⟩, ⟨sig, hsig, hsig'⟩, vkArr, ⟨vk, hvk, hvk'⟩, hbobVk⟩,
      hopk⟩
    exact ⟨value, hvalue, ik, hik, spk, hspk, sig, hsig, vk, hvk, _, hik', _, hspk', sigBytes, hsig', _, hvk',
      ikArr, rfl, spkArr, rfl, vkArr, rfl, bobVk, hbobVk, opk, hopk, rfl⟩

/-! ## The call -/

variable (C) in
/-- The result of `x3dh_initiate`. -/
def initiateResultJson (r : X3DHResult B) : Value :=
  json [("shared_secret", .string (Base64.encodeString (C.keyBytes r.sharedSecret))),
    ("ephemeral_key", .string (Base64.encodeString r.ephemeralKey.toVec))]

theorem readable_initiateResultJson (d : ℕ) (r : X3DHResult B) : (initiateResultJson C r).Readable (d + 2) := by
  apply Value.readable_json
  simp [Value.Readable]

variable [ByteString B]

section

variable (C E) (P : Primitives B)

/-- `x3dh_initiate` from the bundle on, on the ephemeral secret drawn. -/
def initiateWith (ephemeralSecret : StaticSecret) (identityHandle : UInt32) (bundle : PreKeyBundle) (st : Store B) :
    Except String String :=
  match st.identityKeys.lookup identityHandle with
  | none => .error s!"Identity handle {identityHandle} not found"
  | some identity =>
    match initiate P E ephemeralSecret identity bundle with
    | .error e => .error s!"X3DH initiate failed: {e.display}"
    | .ok r => C.serialize (initiateResultJson C r)

/-- `x3dh_initiate`, on the ephemeral secret drawn. -/
def x3dhInitiate (ephemeralSecret : StaticSecret) (identityHandle : UInt32) (bobBundleJson : String) (st : Store B) :
    Except String String := do
  let bundle ← decodeBundle C E bobBundleJson
  initiateWith C E P ephemeralSecret identityHandle bundle st

end

variable {P : Primitives B}

theorem initiateWith_eq_ok {ephemeralSecret : StaticSecret} {handle : UInt32} {bundle : PreKeyBundle} {st : Store B}
    {text : String} : initiateWith C E P ephemeralSecret handle bundle st = .ok text ↔
      ∃ identity r, st.identityKeys.lookup handle = some identity ∧
        initiate P E ephemeralSecret identity bundle = .ok r ∧ C.serialize (initiateResultJson C r) = .ok text := by
  unfold initiateWith
  cases st.identityKeys.lookup handle with
  | none => simp
  | some identity => cases hr : initiate P E ephemeralSecret identity bundle <;> simp [hr]

end GhostCrypt.Wasm
