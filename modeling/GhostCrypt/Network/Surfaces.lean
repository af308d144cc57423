/-
The two surfaces of the library: the native session store, and an instance of the WASM module, whose calls
take and return JSON and base64. Both keep the promises of `Surface`.
-/
import GhostCrypt.Api.Handles
import GhostCrypt.Api.Isolation
import GhostCrypt.Network.Refinement
import GhostCrypt.Wasm.Extends

namespace GhostCrypt.Network

open Ratchet
open Json (Value)

variable {B : Type} [ByteString B]

/-! ## The native store -/

/-- The native result has the header and the ciphertext of the message. -/
def NativeHolds (r : Api.EncryptResult) (header : MessageHeader) (encrypted : Aead.Encrypted) : Prop :=
  r = ⟨⟨header.dhPublicKey, header.messageNumber, header.previousChainLength⟩, encrypted.ciphertext, encrypted.nonce⟩

theorem nativeHolds_inj {r : Api.EncryptResult} {header header' : MessageHeader} {encrypted encrypted' : Aead.Encrypted}
    (h : NativeHolds r header encrypted) (h' : NativeHolds r header' encrypted') :
    header = header' ∧ encrypted = encrypted' := by
  obtain ⟨dhPublicKey, messageNumber, previousChainLength⟩ := header
  obtain ⟨nonce, ciphertext⟩ := encrypted
  obtain ⟨hheader, rfl, rfl⟩ := Api.EncryptResult.mk.inj (h.symm.trans h')
  obtain ⟨rfl, rfl, rfl⟩ := Api.MessageHeaderData.mk.inj hheader
  exact ⟨rfl, rfl⟩

/-- The native calls; the arguments of `session_decrypt` are the parts of a result. -/
def native (P : Primitives B) : Surface B where
  Store := Api.Sessions B
  Plain := Bytes
  Sealed := Api.EncryptResult
  Parcel := Api.EncryptResult
  Other := Api.SessionCall B
  session st handle := st.sessions.lookup handle
  Sound st := st.poisoned = false
  bytes := some
  Contains := NativeHolds
  Bears := NativeHolds
  Elsewhere handle st c :=
    c.handle? ≠ some handle ∧ (c.handle? = none → st.nextSessionId ≠ handle) ∧ st.WellFormed c
  encrypt nonce handle plaintext st := Api.sessionEncrypt P nonce handle plaintext st
  decrypt fresh handle r st := Api.sessionDecrypt P fresh handle r.header r.ciphertext r.nonce st
  other st c := st.step P c

namespace Native

variable {P : Primitives B} {st : Api.Sessions B} {handle : UInt32} {session : Session B}

omit [ByteString B] in
/-- A call on a session of a sound store. -/
theorem withSession_eq {α : Type} (hsound : st.poisoned = false) (hsession : st.sessions.lookup handle = some session)
    {f : Session B → Outcome CryptoError α × Session B} (hf : (f session).1 ≠ .panic) :
    Api.withSession handle f st = ((f session).1.mapErr CryptoError.display,
      { st with sessions := st.sessions.insert handle (f session).2 }) := by
  unfold Api.withSession
  rw [if_neg (by rw [hsound]; exact Bool.false_ne_true), hsession]
  cases hr : (f session).1 with
  | panic => exact absurd hr hf
  | ok a => simp only [hr, hsound]
  | err e => simp only [hr, hsound]

theorem other_lawful {c : Api.SessionCall B} (hsound : st.poisoned = false)
    (helse : (native P).Elsewhere handle st c) :
    (st.step P c).poisoned = false ∧ (st.step P c).sessions.lookup handle = st.sessions.lookup handle := by
  obtain ⟨hname, hnext, hwell⟩ := helse
  refine ⟨(Api.Sessions.step_unpoisoned_iff P st c hsound).2 hwell, ?_⟩
  refine (Api.Sessions.call_effect P st c).lookup_of_ne hname fun hreply => hnext ?_
  cases c with
  | createInitiator | createResponder => rfl
  | encrypt | decrypt | destroy => exact absurd rfl hreply

end Native

theorem native_lawful (P : Primitives B) : (native P).Lawful P where
  encrypt {st handle session plain plaintext} nonce hsound hsession hplain := by
    obtain rfl := Option.some.inj hplain
    have hcall := Native.withSession_eq (f := fun session => session.encrypt P nonce plain) hsound hsession
      (Session.encrypt_ne_panic P nonce session plain)
    simp only [native, Api.sessionEncrypt, hcall, Finmap.lookup_insert]
    refine ⟨hsound, trivial, ?_⟩
    cases (session.encrypt P nonce plain).1 with
    | ok m => exact .some rfl
    | err e => exact .none
    | panic => exact .none
  malformed nonce hplain := nomatch hplain
  decrypt {st handle session parcel header encrypted} fresh hsound hsession hbears hwell := by
    have hne := (Session.decrypt_panic_iff P fresh session header encrypted).not.2 (not_not.2 hwell)
    obtain rfl := hbears
    have hcall := Native.withSession_eq (f := fun session => session.decrypt P fresh header encrypted) hsound
      hsession hne
    simp only [native, Api.sessionDecrypt, hcall, Finmap.lookup_insert]
    refine ⟨hsound, trivial, ?_⟩
    rw [Outcome.value_mapErr]
    cases (session.decrypt P fresh header encrypted).1.value <;> rfl
  other := Native.other_lawful

/-! ## The WASM module -/

/-- The arguments of `session_decrypt`. -/
structure WasmParcel where
  headerJson : String
  ciphertextB64 : String
  nonceB64 : String

/-- A message under the JSON of its header. -/
def WasmParcel.relayed (headerJson : String) (encrypted : Aead.Encrypted) : WasmParcel :=
  { headerJson, ciphertextB64 := Base64.encodeString encrypted.ciphertext
    nonceB64 := Base64.encodeString encrypted.nonce }

variable (C : Wasm.Crates B)

/-- The text is the JSON of the message. -/
def WasmContains (text : String) (header : MessageHeader) (encrypted : Aead.Encrypted) : Prop :=
  ∃ value, C.fromStr text = .ok value ∧ Wasm.HeaderIn (value.get "header") header ∧
    Wasm.Holds value "ciphertext" encrypted.ciphertext ∧ Wasm.Holds value "nonce" encrypted.nonce

/-- The texts are the JSON of the header, and the base64 of the rest. -/
def WasmBears (parcel : WasmParcel) (header : MessageHeader) (encrypted : Aead.Encrypted) : Prop :=
  (∃ value, C.fromStr parcel.headerJson = .ok value ∧ Wasm.HeaderIn value header) ∧
    Base64.decodeString parcel.ciphertextB64 = some encrypted.ciphertext ∧
    Base64.decodeString parcel.nonceB64 = some encrypted.nonce

variable (P : Primitives B) (E : Identity.Ed25519) (M : Mls.OpenMls)

/-- The calls of an instance. -/
def wasm : Surface B where
  Store := Wasm.Instance B
  Plain := String
  Sealed := String
  Parcel := WasmParcel
  Other := Wasm.Call M
  session st handle := st.sessions.lookup handle
  Sound st := st.sessionsBorrowed = false
  bytes := Base64.decodeString
  Contains := WasmContains C
  Bears := WasmBears C
  Elsewhere handle st c :=
    (Wasm.Kind.session, handle) ∉ c.uses ∧ (c.makes = some .session → st.nextId ≠ handle) ∧ st.WellFormed C c
  encrypt nonce handle plaintextB64 st := Wasm.onStore (Wasm.sessionEncrypt C P nonce handle plaintextB64) st
  decrypt fresh handle parcel st :=
    Wasm.onStore (Wasm.sessionDecrypt C P fresh handle parcel.headerJson parcel.ciphertextB64 parcel.nonceB64) st
  other st c := st.step C P E c

variable {C P E M}

namespace WasmModule

variable {st : Wasm.Instance B} {handle : UInt32} {session : Session B}

omit [ByteString B] in
/-- A call on a session of a sound store. -/
theorem withSession_eq {α : Type} {st : Wasm.Store B} (failed : String) (hsound : st.sessionsBorrowed = false)
    (hsession : st.sessions.lookup handle = some session) {f : Session B → Outcome CryptoError α × Session B}
    (hf : (f session).1 ≠ .panic) :
    Wasm.withSession handle failed f st = ((f session).1.mapErr fun e => failed ++ ": " ++ e.display,
      { st with sessions := st.sessions.insert handle (f session).2 }) := by
  unfold Wasm.withSession
  rw [if_neg (by rw [hsound]; exact Bool.false_ne_true), hsession]
  cases hr : (f session).1 with
  | panic => exact absurd hr hf
  | ok a => simp only [hr, hsound]
  | err e => simp only [hr, hsound]

omit [ByteString B] in
theorem wasmContains_encryptResultJson {text : String} {header : MessageHeader} {encrypted : Aead.Encrypted}
    (h : C.fromStr text = .ok (Wasm.encryptResultJson header encrypted)) : WasmContains C text header encrypted := by
  refine ⟨_, h, ?_, ?_, ?_⟩
  · rw [Wasm.get_header_encryptResultJson]
    exact Wasm.headerIn_headerJson header
  · exact Wasm.holds_iff.2 (by simp [Wasm.encryptResultJson, Value.get_json, Value.lookup_cons])
  · exact Wasm.holds_iff.2 (by simp [Wasm.encryptResultJson, Value.get_json])

omit [ByteString B] in
theorem wasmBears_headerJson {text : String} {header : MessageHeader}
    (h : C.fromStr text = .ok (Wasm.headerJson header)) (encrypted : Aead.Encrypted) :
    WasmBears C (.relayed text encrypted) header encrypted :=
  ⟨⟨_, h, Wasm.headerIn_headerJson header⟩, Base64.decodeString_encodeString _, Base64.decodeString_encodeString _⟩

theorem encrypt_lawful (hC : C.Lawful) {plain : String} {plaintext : Bytes} (nonce : Aead.Nonce)
    (hsound : st.sessionsBorrowed = false) (hsession : st.sessions.lookup handle = some session)
    (hplain : Base64.decodeString plain = some plaintext) :
    ((wasm C P E M).encrypt nonce handle plain st).2.sessionsBorrowed = false ∧
    ((wasm C P E M).encrypt nonce handle plain st).2.sessions.lookup handle =
      some (session.encrypt P nonce plaintext).2 ∧
    Option.Rel (fun c m => WasmContains C c m.1 m.2) ((wasm C P E M).encrypt nonce handle plain st).1.value
      (session.encrypt P nonce plaintext).1.value := by
  have hcall := withSession_eq "Encryption failed"
    (f := fun session => session.encrypt P nonce plaintext) hsound hsession
    (Session.encrypt_ne_panic P nonce session plaintext)
  have hdecode : C.decode "plaintext" plain = .ok plaintext := Wasm.decode_eq_ok.2 hplain
  simp only [wasm, Wasm.onStore, Wasm.sessionEncrypt, hdecode, Outcome.ofExcept_ok, Outcome.andThen_ok, hcall]
  cases (session.encrypt P nonce plaintext).1 with
  | ok m =>
    obtain ⟨text, htext, hfrom⟩ := Wasm.serialize_of_readable hC (Wasm.readable_encryptResultJson 124 m.1 m.2)
    simp only [Outcome.mapErr, Outcome.andThen_ok, htext, Outcome.ofExcept_ok, Finmap.lookup_insert]
    exact ⟨hsound, trivial, .some (wasmContains_encryptResultJson hfrom)⟩
  | err e => exact ⟨hsound, Finmap.lookup_insert _, .none⟩
  | panic => exact ⟨hsound, Finmap.lookup_insert _, .none⟩

theorem decrypt_lawful {parcel : WasmParcel} {header : MessageHeader} {encrypted : Aead.Encrypted}
    (fresh : StaticSecret) (hsound : st.sessionsBorrowed = false)
    (hsession : st.sessions.lookup handle = some session) (hbears : WasmBears C parcel header encrypted)
    (hwell : session.WellFormed header encrypted) :
    ((wasm C P E M).decrypt fresh handle parcel st).2.sessionsBorrowed = false ∧
    ((wasm C P E M).decrypt fresh handle parcel st).2.sessions.lookup handle =
      some (session.decrypt P fresh header encrypted).2 ∧
    ((wasm C P E M).decrypt fresh handle parcel st).1.value.bind Base64.decodeString =
      (session.decrypt P fresh header encrypted).1.value := by
  obtain ⟨⟨value, hfrom, hin⟩, hciphertext, hnonce⟩ := hbears
  have hheader : Wasm.decodeHeader C parcel.headerJson = .ok header :=
    Wasm.decodeHeader_eq_ok.2 ⟨value, _, _, hfrom, hin.dhPublicKey, hin.messageNumber, hin.previousChainLength,
      by simp, by simp⟩
  have hct : C.decode "ciphertext" parcel.ciphertextB64 = .ok encrypted.ciphertext := Wasm.decode_eq_ok.2 hciphertext
  have hn : C.decode "nonce" parcel.nonceB64 = .ok encrypted.nonce := Wasm.decode_eq_ok.2 hnonce
  have hcall := withSession_eq "Decryption failed"
    (f := fun session => session.decrypt P fresh header ⟨encrypted.nonce, encrypted.ciphertext⟩) hsound hsession
    ((Session.decrypt_panic_iff P fresh session header encrypted).not.2 (not_not.2 hwell))
  simp only [wasm, Wasm.onStore, Wasm.sessionDecrypt, Wasm.decryptWith, hheader, hct, hn, Outcome.ofExcept_ok,
    Outcome.andThen_ok, hcall]
  cases (session.decrypt P fresh header encrypted).1 with
  | ok plaintext => exact ⟨hsound, Finmap.lookup_insert _, Base64.decodeString_encodeString plaintext⟩
  | err e => exact ⟨hsound, Finmap.lookup_insert _, rfl⟩
  | panic => exact ⟨hsound, Finmap.lookup_insert _, rfl⟩

theorem encrypt_malformed {plain : String} (nonce : Aead.Nonce) (hplain : Base64.decodeString plain = none) :
    ((wasm C P E M).encrypt nonce handle plain st).2 = st := by
  have hdecode : ∃ e, C.decode "plaintext" plain = .error e := by
    unfold Wasm.Crates.decode
    rw [hplain]
    exact ⟨_, rfl⟩
  obtain ⟨e, he⟩ := hdecode
  simp only [wasm, Wasm.onStore, Wasm.sessionEncrypt, he]
  rfl

end WasmModule

theorem wasm_lawful (hC : C.Lawful) : (wasm C P E M).Lawful P where
  encrypt nonce hsound hsession hplain := WasmModule.encrypt_lawful hC nonce hsound hsession hplain
  malformed nonce hplain := WasmModule.encrypt_malformed nonce hplain
  decrypt fresh hsound hsession hbears hwell := WasmModule.decrypt_lawful fresh hsound hsession hbears hwell
  other hsound helse :=
    ⟨(Wasm.step_free_iff hsound _).2 helse.2.2, Wasm.keeps_step helse.1 fun hmakes _ => helse.2.1 hmakes⟩

/-! ## Sides -/

/-- The surface a party uses. -/
inductive Side
  | native
  | wasm
  deriving DecidableEq

variable (C P E M) in
/-- Its calls. -/
def Side.surface : Side → Surface B
  | .native => Network.native P
  | .wasm => Network.wasm C P E M

theorem Side.lawful (hC : C.Lawful) : ∀ side : Side, (side.surface C P E M).Lawful P
  | .native => native_lawful P
  | .wasm => wasm_lawful hC

end GhostCrypt.Network
