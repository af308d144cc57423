/-
`session_encrypt` and `session_decrypt` of `wasm.rs`. The header crosses the boundary as JSON:
`decodeHeader` is the part of `session_decrypt` that reads it, and `decryptWith` the rest.
-/
import GhostCrypt.Wasm.Store

namespace GhostCrypt.Wasm

open Ratchet
open Json (Value)
open Json.Value (json)

variable {B : Type} (C : Crates B)

/-! ## The header -/

/-- The header in the result of `session_encrypt`. -/
def headerJson (header : MessageHeader) : Value :=
  json [("dh_public_key", .string (Base64.encodeString header.dhPublicKey)),
    ("message_number", .posInt header.messageNumber.toUInt64),
    ("previous_chain_length", .posInt header.previousChainLength.toUInt64)]

/-- The result of `session_encrypt`. -/
def encryptResultJson (header : MessageHeader) (encrypted : Aead.Encrypted) : Value :=
  json [("header", headerJson header), ("ciphertext", .string (Base64.encodeString encrypted.ciphertext)),
    ("nonce", .string (Base64.encodeString encrypted.nonce))]

/-- `session_decrypt` up to the header; `as u32` keeps the lower half of each number. -/
def decodeHeader (headerJson : String) : Except String MessageHeader := do
  let headerValue ← (C.fromStr headerJson).mapError fun e => s!"Invalid header JSON: {e}"
  let dhPublicKeyB64 ← strField "header" "dh_public_key" headerValue
  let dhPublicKey ← C.decode "dh_public_key" dhPublicKeyB64
  let messageNumber ← u64Field "header" "message_number" headerValue
  let previousChainLength ← u64Field "header" "previous_chain_length" headerValue
  return { dhPublicKey, messageNumber := messageNumber.toUInt32, previousChainLength := previousChainLength.toUInt32 }

variable {C}

/-- What `decodeHeader` accepts, and what it makes of it. -/
theorem decodeHeader_eq_ok {text : String} {header : MessageHeader} : decodeHeader C text = .ok header ↔
    ∃ value m p, C.fromStr text = .ok value ∧ Holds value "dh_public_key" header.dhPublicKey ∧
      value.get "message_number" = .posInt m ∧ value.get "previous_chain_length" = .posInt p ∧
      header.messageNumber = m.toUInt32 ∧ header.previousChainLength = p.toUInt32 := by
  unfold decodeHeader
  simp only [except_bind_eq_ok, except_mapError_eq_ok, strField_eq_ok, decode_eq_ok, u64Field_eq_ok]
  constructor
  · rintro ⟨value, hvalue, s, hs, dhPublicKey, hdh, m, hm, p, hp, heq⟩
    obtain rfl := Except.ok.inj heq
    exact ⟨value, m, p, hvalue, ⟨s, hs, hdh⟩, hm, hp, rfl, rfl⟩
  · obtain ⟨dhPublicKey, messageNumber, previousChainLength⟩ := header
    rintro ⟨value, m, p, hvalue, ⟨s, hs, hdh⟩, hm, hp, rfl, rfl⟩
    exact ⟨value, hvalue, s, hs, dhPublicKey, hdh, m, hm, p, hp, rfl⟩

theorem holds_headerJson (header : MessageHeader) : Holds (headerJson header) "dh_public_key" header.dhPublicKey := by
  apply holds_iff.2
  simp [headerJson, Value.get_json, Value.lookup_cons]

theorem get_message_number_headerJson (header : MessageHeader) :
    (headerJson header).get "message_number" = .posInt header.messageNumber.toUInt64 := by
  simp [headerJson, Value.get_json, Value.lookup_cons]

theorem get_previous_chain_length_headerJson (header : MessageHeader) :
    (headerJson header).get "previous_chain_length" = .posInt header.previousChainLength.toUInt64 := by
  simp [headerJson, Value.get_json]

/-- Any text of the header's JSON decodes to the header. -/
theorem decodeHeader_headerJson {text : String} {header : MessageHeader}
    (h : C.fromStr text = .ok (headerJson header)) : decodeHeader C text = .ok header :=
  decodeHeader_eq_ok.2 ⟨_, _, _, h, holds_headerJson header, get_message_number_headerJson header,
    get_previous_chain_length_headerJson header, by simp, by simp⟩

theorem readable_headerJson (d : ℕ) (header : MessageHeader) : (headerJson header).Readable (d + 2) := by
  apply Value.readable_json
  simp [Value.Readable]

theorem readable_encryptResultJson (d : ℕ) (header : MessageHeader) (encrypted : Aead.Encrypted) :
    (encryptResultJson header encrypted).Readable (d + 3) := by
  apply Value.readable_json
  simp [Value.Readable, readable_headerJson]

theorem get_header_encryptResultJson (header : MessageHeader) (encrypted : Aead.Encrypted) :
    (encryptResultJson header encrypted).get "header" = headerJson header := by
  simp [encryptResultJson, Value.get_json, Value.lookup_cons]

/-! ## The calls -/

variable [ByteString B]

section

variable (C) (P : Primitives B)

/-- `session_encrypt`, under the nonce drawn. -/
def sessionEncrypt (nonce : Aead.Nonce) (sessionHandle : UInt32) (plaintextB64 : String) (st : Store B) :
    Outcome String String × Store B :=
  Outcome.andThen (.ofExcept (C.decode "plaintext" plaintextB64), st) fun plaintext st =>
  Outcome.andThen (withSession sessionHandle "Encryption failed" (fun session => session.encrypt P nonce plaintext) st)
    fun (header, encrypted) st => (.ofExcept (C.serialize (encryptResultJson header encrypted)), st)

/-- `session_decrypt` from the header on, on the secret drawn. -/
def decryptWith (fresh : StaticSecret) (sessionHandle : UInt32) (header : MessageHeader)
    (ciphertextB64 nonceB64 : String) (st : Store B) : Outcome String String × Store B :=
  Outcome.andThen (.ofExcept (C.decode "ciphertext" ciphertextB64), st) fun ciphertext st =>
  Outcome.andThen (.ofExcept (C.decode "nonce" nonceB64), st) fun nonce st =>
  Outcome.andThen (withSession sessionHandle "Decryption failed"
    (fun session => session.decrypt P fresh header { nonce, ciphertext }) st)
    fun plaintext st => (.ok (Base64.encodeString plaintext), st)

/-- `session_decrypt`, on the secret drawn. -/
def sessionDecrypt (fresh : StaticSecret) (sessionHandle : UInt32) (headerJson ciphertextB64 nonceB64 : String)
    (st : Store B) : Outcome String String × Store B :=
  Outcome.andThen (.ofExcept (decodeHeader C headerJson), st) fun header st =>
  decryptWith C P fresh sessionHandle header ciphertextB64 nonceB64 st

end

variable {P : Primitives B}

/-- What `session_encrypt` returns is the header and the ciphertext that the session made. -/
theorem sessionEncrypt_eq_ok {nonce : Aead.Nonce} {handle : UInt32} {plaintextB64 text : String} {st : Store B} :
    (sessionEncrypt C P nonce handle plaintextB64 st).1 = .ok text ↔
      ∃ plaintext session header encrypted, Base64.decodeString plaintextB64 = some plaintext ∧
        st.sessionsBorrowed = false ∧ st.sessions.lookup handle = some session ∧
        (session.encrypt P nonce plaintext).1 = .ok (header, encrypted) ∧
        C.serialize (encryptResultJson header encrypted) = .ok text := by
  unfold sessionEncrypt
  simp only [Outcome.andThen_fst_eq_ok, Outcome.ofExcept_eq_ok, decode_eq_ok, withSession_eq_ok]
  constructor
  · rintro ⟨plaintext, hplaintext, ⟨header, encrypted⟩, ⟨hfree, session, hsession, henc⟩, htext⟩
    exact ⟨plaintext, session, header, encrypted, hplaintext, hfree, hsession, henc, htext⟩
  · rintro ⟨plaintext, session, header, encrypted, hplaintext, hfree, hsession, henc, htext⟩
    exact ⟨plaintext, hplaintext, (header, encrypted), ⟨hfree, session, hsession, henc⟩, htext⟩

end GhostCrypt.Wasm
