/-
What the JSON decoders of `wasm.rs` make of the texts they accept. A number of a header is cut down to
32 bits, and a one-time pre-key that is no string counts as none; apart from that a call works on the
values that are written in its text.
-/
import GhostCrypt.Ratchet.Panic
import GhostCrypt.Wasm.Sessions
import GhostCrypt.Wasm.X3dh
import GhostCrypt.X3dh.Binding

namespace GhostCrypt.Wasm

open Identity Ratchet X3dh
open Json (Value)

variable {B : Type} (C : Crates B) (E : Ed25519)

/-! ## What is written -/

/-- The header with the key and the two integers of a JSON value. -/
structure HeaderIn (value : Value) (header : MessageHeader) : Prop where
  dhPublicKey : Holds value "dh_public_key" header.dhPublicKey
  messageNumber : value.get "message_number" = .posInt header.messageNumber.toUInt64
  previousChainLength : value.get "previous_chain_length" = .posInt header.previousChainLength.toUInt64

/-- The entry is null or absent for none, else the text of the key. -/
def OptionHolds (value : Value) (name : String) : Option PublicKey → Prop
  | some key => Holds value name key.toVec
  | none => value.get name = .null

/-- The bundle with the keys of a JSON value, the one-time pre-key included. -/
structure BundleIn (value : Value) (bundle : PreKeyBundle) : Prop extends KeysIn E value bundle where
  oneTimePreKey : OptionHolds value "one_time_pre_key" bundle.oneTimePreKey

/-! ## Conditions on the text -/

/-- If the text is a header with a base64 key and two `u64`s, these are `u32`s. -/
def HeaderFits (text : String) : Prop :=
  ∀ value bytes m p, C.fromStr text = .ok value → Holds value "dh_public_key" bytes →
    value.get "message_number" = .posInt m → value.get "previous_chain_length" = .posInt p →
    m.toNat < 2 ^ 32 ∧ p.toNat < 2 ^ 32

/-- If the text is a bundle with the other keys in place and a signature that verifies, its one-time
pre-key is null or a string. -/
def BundleFits (text : String) : Prop :=
  ∀ value bundle, C.fromStr text = .ok value → KeysIn E value bundle →
    IdentityKeyPair.verify E bundle.identityVerifyingKey bundle.signedPreKey.toVec bundle.signature = true →
    value.get "one_time_pre_key" = .null ∨ ∃ s, value.get "one_time_pre_key" = .string s

/-! ## Headers -/

variable {C}

theorem toUInt64_toUInt32 {n : UInt64} (h : n.toNat < 2 ^ 32) : n.toUInt32.toUInt64 = n := by
  apply UInt64.toNat_inj.1
  rw [UInt32.toNat_toUInt64, UInt64.toNat_toUInt32, Nat.mod_eq_of_lt h]

/-- A header that fits is decoded to what is written. -/
theorem headerIn_of_decodeHeader {text : String} (h : HeaderFits C text) {header : MessageHeader}
    (hdecode : decodeHeader C text = .ok header) : ∃ value, C.fromStr text = .ok value ∧ HeaderIn value header := by
  obtain ⟨value, m, p, hvalue, hdh, hm, hp, hheader, hheader'⟩ := decodeHeader_eq_ok.1 hdecode
  obtain ⟨hm32, hp32⟩ := h value _ m p hvalue hdh hm hp
  refine ⟨value, hvalue, hdh, ?_, ?_⟩
  · rw [hheader, toUInt64_toUInt32 hm32, hm]
  · rw [hheader', toUInt64_toUInt32 hp32, hp]

/-- What is written is a header that fits. -/
theorem lt_of_headerIn {value : Value} {header : MessageHeader} (h : HeaderIn value header) {m p : UInt64}
    (hm : value.get "message_number" = .posInt m) (hp : value.get "previous_chain_length" = .posInt p) :
    m.toNat < 2 ^ 32 ∧ p.toNat < 2 ^ 32 := by
  obtain rfl := Value.posInt.inj (h.messageNumber.symm.trans hm)
  obtain rfl := Value.posInt.inj (h.previousChainLength.symm.trans hp)
  rw [UInt32.toNat_toUInt64, UInt32.toNat_toUInt64]
  exact ⟨header.messageNumber.toNat_lt, header.previousChainLength.toNat_lt⟩

theorem headerIn_headerJson (header : MessageHeader) : HeaderIn (headerJson header) header :=
  ⟨holds_headerJson header, get_message_number_headerJson header, get_previous_chain_length_headerJson header⟩

section

variable [ByteString B] (P : Primitives B)

variable (C) in
/-- `session_decrypt` returns an error on this text, or works on the header written in it. -/
def HeaderExact (text : String) : Prop :=
  ∀ fresh handle ciphertextB64 nonceB64 st,
    (∃ e, (sessionDecrypt C P fresh handle text ciphertextB64 nonceB64 st).1 = .err e) ∨
    ∃ value header, C.fromStr text = .ok value ∧ HeaderIn value header ∧
      sessionDecrypt C P fresh handle text ciphertextB64 nonceB64 st =
        decryptWith C P fresh handle header ciphertextB64 nonceB64 st

/-- A session with a key stored for the header. -/
def holder (header : MessageHeader) : Session B :=
  let key := P.hmac (ByteString.ofBytes []) []
  { rootKey := key, dhSecret := ⟨⟨List.replicate 32 0, by simp⟩⟩, dhPublic := ⟨⟨List.replicate 32 0, by simp⟩⟩
    remoteDhPublic := none, sendingChain := none, receivingChain := none, previousSendingChainLength := 0
    skippedKeys := (∅ : SkippedKeys B).insert (header.dhPublicKey, header.messageNumber) key }

/-- It comes to the AEAD, which panics on a nonce that is not 12 bytes long. -/
theorem holder_decrypt_panic (fresh : StaticSecret) (header : MessageHeader) :
    ((holder P header).decrypt P fresh header { nonce := [], ciphertext := [] }).1 = .panic := by
  rw [Session.decrypt_panic_iff]
  intro h
  have hfinds : (holder P header).FindsKey header := by
    unfold Session.FindsKey holder
    simp only [Finmap.lookup_insert]
    exact P.length_hmac _ _
  exact absurd (h.2 hfinds) (by decide)

def holderStore (header : MessageHeader) : Store B :=
  { identityKeys := ∅, sessions := (∅ : Finmap fun _ : UInt32 => Session B).insert 1 (holder P header)
    sessionsBorrowed := false }

theorem holderStore_decrypt_panic (fresh : StaticSecret) {text : String} {header : MessageHeader}
    (h : decodeHeader C text = .ok header) :
    (sessionDecrypt C P fresh 1 text "" "" (holderStore P header)).1 = .panic := by
  have hempty : Base64.decodeString "" = some [] := by decide
  have hpanic := holder_decrypt_panic P fresh header
  unfold sessionDecrypt decryptWith
  rw [h, Outcome.ofExcept_ok, Outcome.andThen_ok, decode_eq_ok.2 hempty, decode_eq_ok.2 hempty]
  simp only [Outcome.ofExcept_ok, Outcome.andThen_ok, withSession, holderStore, Finmap.lookup_insert]
  generalize (holder P header).decrypt P fresh header { nonce := [], ciphertext := [] } = r at hpanic ⊢
  obtain ⟨a, s⟩ := r
  obtain rfl : a = .panic := hpanic
  rfl

/-- The texts on which `session_decrypt` works on what is written are those that fit. -/
theorem headerExact_iff (text : String) : HeaderExact C P text ↔ HeaderFits C text := by
  constructor
  · intro h value bytes m p hvalue hdh hm hp
    have hdecode : decodeHeader C text = .ok ⟨bytes, m.toUInt32, p.toUInt32⟩ :=
      decodeHeader_eq_ok.2 ⟨value, m, p, hvalue, hdh, hm, hp, rfl, rfl⟩
    have hpanic := holderStore_decrypt_panic P ⟨⟨List.replicate 32 0, by simp⟩⟩ hdecode
    rcases h _ _ _ _ _ with ⟨e, he⟩ | ⟨value', header, hvalue', hin, -⟩
    · exact absurd (hpanic.symm.trans he) (by rintro ⟨⟩)
    · obtain rfl := Except.ok.inj (hvalue.symm.trans hvalue')
      exact lt_of_headerIn hin hm hp
  · intro h fresh handle ciphertextB64 nonceB64 st
    rcases hdecode : decodeHeader C text with e | header
    · refine .inl ⟨e, ?_⟩
      rw [sessionDecrypt, hdecode]
      rfl
    · obtain ⟨value, hvalue, hin⟩ := headerIn_of_decodeHeader h hdecode
      refine .inr ⟨value, header, hvalue, hin, ?_⟩
      rw [sessionDecrypt, hdecode]
      rfl

end

variable (C) in
/-- If both texts are accepted, and a number differs, the decoded headers do. -/
def HeadersApart (text text' : String) : Prop :=
  ∀ value value' header header', C.fromStr text = .ok value → C.fromStr text' = .ok value' →
    decodeHeader C text = .ok header → decodeHeader C text' = .ok header' →
    (value.get "message_number" ≠ value'.get "message_number" ∨
      value.get "previous_chain_length" ≠ value'.get "previous_chain_length") → header ≠ header'

/-- The texts that are kept apart from all that fit are those that fit: another has the decoded header
in common with the text of that header. -/
theorem headersApart_iff (hC : C.Lawful) (text : String) :
    (∀ text', HeaderFits C text' → HeadersApart C text text') ↔ HeaderFits C text := by
  constructor
  · intro h value bytes m p hvalue hdh hm hp
    have hdecode : decodeHeader C text = .ok ⟨bytes, m.toUInt32, p.toUInt32⟩ :=
      decodeHeader_eq_ok.2 ⟨value, m, p, hvalue, hdh, hm, hp, rfl, rfl⟩
    generalize hheader : (⟨bytes, m.toUInt32, p.toUInt32⟩ : MessageHeader) = header at hdecode
    obtain ⟨text', -, hfrom⟩ := hC.roundTrip (headerJson header) (readable_headerJson 125 header)
    have hfits : HeaderFits C text' := by
      intro value' bytes' m' p' hvalue' _ hm' hp'
      obtain rfl := Except.ok.inj (hfrom.symm.trans hvalue')
      exact lt_of_headerIn (headerIn_headerJson header) hm' hp'
    by_contra hlarge
    refine h text' hfits value _ header header hvalue hfrom hdecode (decodeHeader_headerJson hfrom) ?_ rfl
    by_contra hsame
    push Not at hsame
    refine hlarge (lt_of_headerIn (headerIn_headerJson header) ?_ ?_)
    · rw [← hsame.1, hm]
    · rw [← hsame.2, hp]
  · intro h text' h' value value' header header' hvalue hvalue' hdecode hdecode' hne
    rintro rfl
    obtain ⟨v, hv, hin⟩ := headerIn_of_decodeHeader h hdecode
    obtain ⟨v', hv', hin'⟩ := headerIn_of_decodeHeader h' hdecode'
    obtain rfl := Except.ok.inj (hvalue.symm.trans hv)
    obtain rfl := Except.ok.inj (hvalue'.symm.trans hv')
    rcases hne with hne | hne
    · exact hne (hin.messageNumber.trans hin'.messageNumber.symm)
    · exact hne (hin.previousChainLength.trans hin'.previousChainLength.symm)

variable (C) in
/-- Decoding the header in a result of `session_encrypt` gives back the header the session made. -/
def EncryptRoundTrips [ByteString B] (P : Primitives B) : Prop :=
  ∀ nonce handle plaintextB64 st text, (sessionEncrypt C P nonce handle plaintextB64 st).1 = .ok text →
    ∃ plaintext session header encrypted result, Base64.decodeString plaintextB64 = some plaintext ∧
      st.sessions.lookup handle = some session ∧ (session.encrypt P nonce plaintext).1 = .ok (header, encrypted) ∧
      C.fromStr text = .ok result ∧
      (∃ t, C.toString (result.get "header") = .ok t ∧ C.fromStr t = .ok (result.get "header")) ∧
      ∀ t, C.fromStr t = .ok (result.get "header") → decodeHeader C t = .ok header

theorem encryptRoundTrips [ByteString B] (P : Primitives B) (hC : C.Lawful) : EncryptRoundTrips C P := by
  intro nonce handle plaintextB64 st text h
  obtain ⟨plaintext, session, header, encrypted, hplaintext, -, hsession, henc, htext⟩ := sessionEncrypt_eq_ok.1 h
  obtain ⟨text', htext', hfrom⟩ := serialize_of_readable hC (readable_encryptResultJson 124 header encrypted)
  obtain rfl := Except.ok.inj (htext.symm.trans htext')
  refine ⟨plaintext, session, header, encrypted, _, hplaintext, hsession, henc, hfrom, ?_⟩
  rw [get_header_encryptResultJson]
  exact ⟨hC.roundTrip _ (readable_headerJson 125 header), fun t ht => decodeHeader_headerJson ht⟩

/-! ## Bundles -/

section

variable {E} [ByteString B] (P : Primitives B)

variable (C E) in
/-- `x3dh_initiate` returns an error on this text, or works on the bundle written in it. -/
def BundleExact (text : String) : Prop :=
  ∀ ephemeralSecret handle st,
    (∃ e, x3dhInitiate C E P ephemeralSecret handle text st = .error e) ∨
    ∃ value bundle, C.fromStr text = .ok value ∧ BundleIn E value bundle ∧
      x3dhInitiate C E P ephemeralSecret handle text st = initiateWith C E P ephemeralSecret handle bundle st

/-- A store with one identity. -/
def identityStore : Store B :=
  { identityKeys := (∅ : Finmap fun _ : UInt32 => IdentityKeyPair).insert 1
      (IdentityKeyPair.generate P ⟨List.replicate 32 0, by simp⟩ ⟨⟨List.replicate 32 0, by simp⟩⟩)
    sessions := ∅, sessionsBorrowed := false }

/-- With its identity, a bundle whose signature verifies is used. -/
theorem identityStore_initiate_ok (hC : C.Lawful) (ephemeralSecret : StaticSecret) {text : String}
    {bundle : PreKeyBundle} (hdecode : decodeBundle C E text = .ok bundle)
    (hverify : IdentityKeyPair.verify E bundle.identityVerifyingKey bundle.signedPreKey.toVec bundle.signature = true) :
    ∃ result, x3dhInitiate C E P ephemeralSecret 1 text (identityStore P) = .ok result := by
  obtain ⟨result, hresult, -⟩ := serialize_of_readable hC (readable_initiateResultJson 125 _)
  exact ⟨result, except_bind_eq_ok.2 ⟨bundle, hdecode, initiateWith_eq_ok.2
    ⟨_, _, Finmap.lookup_insert _, initiate_ok.2 ⟨hverify, rfl⟩, hresult⟩⟩⟩

/-- The texts on which `x3dh_initiate` works on what is written are those that fit. -/
theorem bundleExact_iff (hC : C.Lawful) (text : String) : BundleExact C E P text ↔ BundleFits C E text := by
  constructor
  · intro h value bundle hvalue hkeys hverify
    by_cases hstring : ∃ s, value.get "one_time_pre_key" = .string s
    · exact .inr hstring
    -- what is no string is left out, and the call goes through without it
    have hnone : (value.get "one_time_pre_key").asStr = none := by
      rw [Option.eq_none_iff_forall_ne_some]
      exact fun s hs => hstring ⟨s, Value.asStr_eq_some.1 hs⟩
    have hdecode : decodeBundle C E text = .ok { bundle with oneTimePreKey := none } :=
      decodeBundle_eq_ok.2 ⟨value, hvalue, hkeys.with_oneTimePreKey none, by rw [hnone]; rfl⟩
    obtain ⟨result, hresult⟩ := identityStore_initiate_ok P hC ⟨⟨List.replicate 32 0, by simp⟩⟩ hdecode hverify
    rcases h _ _ _ with ⟨e, he⟩ | ⟨value', bundle', hvalue', hin, -⟩
    · exact absurd (hresult.symm.trans he) (by rintro ⟨⟩)
    · obtain rfl := Except.ok.inj (hvalue.symm.trans hvalue')
      have hopk := hin.oneTimePreKey
      cases hkey : bundle'.oneTimePreKey with
      | none =>
        rw [hkey] at hopk
        exact .inl hopk
      | some key =>
        rw [hkey] at hopk
        obtain ⟨s, hs, -⟩ := hopk
        exact absurd ⟨s, hs⟩ hstring
  · intro h ephemeralSecret handle st
    rcases hcall : x3dhInitiate C E P ephemeralSecret handle text st with e | result
    · exact .inl ⟨e, rfl⟩
    · obtain ⟨bundle, hdecode, hinitiate⟩ := except_bind_eq_ok.1 hcall
      obtain ⟨identity, r, -, hr, -⟩ := initiateWith_eq_ok.1 hinitiate
      obtain ⟨value, hvalue, hkeys, hopk⟩ := decodeBundle_eq_ok.1 hdecode
      refine .inr ⟨value, bundle, hvalue, ⟨hkeys, ?_⟩, hinitiate.symm⟩
      rcases h value bundle hvalue hkeys (initiate_ok.1 hr).1 with hnull | ⟨s, hs⟩
      · rw [hnull] at hopk
        rw [← Except.ok.inj hopk]
        exact hnull
      · rw [hs, Value.asStr_eq_some.2 rfl] at hopk
        obtain ⟨key, hkey, hdecode'⟩ := decodeOneTimePreKey_some.1 hopk
        rw [hkey]
        exact ⟨s, hs, hdecode'⟩

/-! ## The decoders -/

/-- Exactly the texts that fit are decoded to what is written in them: a header with numbers below
2^32, and a bundle whose one-time pre-key, if it has one, is a string. Only they are kept apart from
each other, and the header of `session_encrypt` is read back. -/
theorem decoders_exact_iff (hC : C.Lawful) :
    (∀ text, HeaderExact C P text ↔ HeaderFits C text) ∧
    (∀ text, (∀ text', HeaderFits C text' → HeadersApart C text text') ↔ HeaderFits C text) ∧
    (∀ text, BundleExact C E P text ↔ BundleFits C E text) ∧ EncryptRoundTrips C P :=
  ⟨headerExact_iff P, headersApart_iff hC, bundleExact_iff P hC, encryptRoundTrips P hC⟩

end

end GhostCrypt.Wasm

/-! ## Two texts that do not fit -/

namespace GhostCrypt.Sample

open Identity Ratchet Wasm X3dh
open Json (Value)
open Json.Value (json)

/-- The crates, with the JSON reader of the library. -/
def crates : Crates Key where
  fromStr text :=
    match Json.read 127 text with
    | some value => .ok value
    | none => .error "expected value at line 1 column 1"
  toString value := .ok (String.ofList (Json.print value))
  decodeError _ := "Invalid padding"
  keyBytes _ := List.replicate 32 0

theorem crates_fromStr {value : Value} (h : value.Readable 127) :
    crates.fromStr (String.ofList (Json.print value)) = .ok value := by
  simp only [crates, Json.read_print h]

theorem crates_lawful : crates.Lawful where
  roundTrip _ h := ⟨_, rfl, crates_fromStr h⟩

/-- Alice's first header, with 2^32 for the message number. -/
def wideHeader : String :=
  "\x7b\"dh_public_key\":\"AgICAgICAgICAgICAgICAgICAgICAgICAgICAgICAgI=\"," ++
    "\"message_number\":4294967296,\"previous_chain_length\":0\x7d"

def wideHeaderJson : Value :=
  json [("dh_public_key", .string (Base64.encodeString (header 0).dhPublicKey)), ("message_number", .posInt 4294967296),
    ("previous_chain_length", .posInt 0)]

/-- Bob's bundle, with 5 for the one-time pre-key. -/
def numberedBundleJson : Value :=
  json [("identity_key", .string (Base64.encodeString bobBundle.identityKey.toVec)),
    ("identity_verifying_key", .string (Base64.encodeString bobBundle.identityVerifyingKey.bytes.1)),
    ("one_time_pre_key", .posInt 5), ("signature", .string (Base64.encodeString bobBundle.signature)),
    ("signed_pre_key", .string (Base64.encodeString bobBundle.signedPreKey.toVec))]

def numberedBundle : String := String.ofList (Json.print numberedBundleJson)

theorem fromStr_wideHeader : crates.fromStr wideHeader = .ok wideHeaderJson := by
  rw [show wideHeader = String.ofList (Json.print wideHeaderJson) by decide +kernel]
  apply crates_fromStr
  apply Value.readable_json
  simp [Value.Readable]

theorem fromStr_numberedBundle : crates.fromStr numberedBundle = .ok numberedBundleJson := by
  rw [numberedBundle]
  apply crates_fromStr
  apply Value.readable_json
  simp [Value.Readable]

theorem get_wideHeaderJson : wideHeaderJson.get "dh_public_key" = .string (Base64.encodeString (header 0).dhPublicKey) ∧
    wideHeaderJson.get "message_number" = .posInt 4294967296 ∧
    wideHeaderJson.get "previous_chain_length" = .posInt 0 := by
  simp [wideHeaderJson, Value.get_json, Value.lookup_cons]

theorem decodeHeader_wideHeader : decodeHeader crates wideHeader = .ok (header 0) := by
  obtain ⟨hdh, hm, hp⟩ := get_wideHeaderJson
  exact decodeHeader_eq_ok.2 ⟨_, _, _, fromStr_wideHeader, holds_iff.2 hdh, hm, hp, rfl, rfl⟩

theorem keysIn_numberedBundleJson : KeysIn naming numberedBundleJson bobBundle where
  identityKey := holds_iff.2 (by simp [numberedBundleJson, Value.get_json, Value.lookup_cons])
  signedPreKey := holds_iff.2 (by simp [numberedBundleJson, Value.get_json])
  signature := holds_iff.2 (by simp [numberedBundleJson, Value.get_json, Value.lookup_cons])
  identityVerifyingKey :=
    ⟨bobBundle.identityVerifyingKey.bytes,
      holds_iff.2 (by simp [numberedBundleJson, Value.get_json, Value.lookup_cons]), rfl⟩

theorem get_one_time_pre_key_numberedBundleJson : numberedBundleJson.get "one_time_pre_key" = .posInt 5 := by
  simp [numberedBundleJson, Value.get_json, Value.lookup_cons]

theorem verify_bobBundle : IdentityKeyPair.verify naming bobBundle.identityVerifyingKey bobBundle.signedPreKey.toVec
    bobBundle.signature = true :=
  Server.verify_sign server_sound.verifies bobIdentity.signingKey bobSpk.x25519Public.toVec

theorem decodeBundle_numberedBundle :
    decodeBundle crates naming numberedBundle = .ok { bobBundle with oneTimePreKey := none } := by
  refine decodeBundle_eq_ok.2 ⟨_, fromStr_numberedBundle, keysIn_numberedBundleJson.with_oneTimePreKey none, ?_⟩
  rw [get_one_time_pre_key_numberedBundleJson]
  rfl

theorem not_headerFits_wideHeader : ¬ HeaderFits crates wideHeader := by
  intro h
  obtain ⟨hdh, hm, hp⟩ := get_wideHeaderJson
  exact absurd (h _ _ _ _ fromStr_wideHeader (holds_iff.2 hdh) hm hp).1 (by decide)

theorem not_bundleFits_numberedBundle : ¬ BundleFits crates naming numberedBundle := by
  intro h
  rcases h _ _ fromStr_numberedBundle keysIn_numberedBundleJson verify_bobBundle with hnull | ⟨s, hs⟩
  · rw [get_one_time_pre_key_numberedBundleJson] at hnull
    cases hnull
  · rw [get_one_time_pre_key_numberedBundleJson] at hs
    cases hs

/-- A store with Bob's session and Carol's identity. -/
def store : Store Key :=
  { identityKeys := (∅ : Finmap fun _ : UInt32 => IdentityKeyPair).insert 2 carolIdentity
    sessions := (∅ : Finmap fun _ : UInt32 => Session Key).insert 1 bob, sessionsBorrowed := false }

theorem sessionDecrypt_wideHeader :
    (sessionDecrypt crates aead freshSecret 1 wideHeader (Base64.encodeString (sealed [7]).ciphertext)
      (Base64.encodeString (sealed [7]).nonce) store).1 = .ok (Base64.encodeString [7]) := by
  have hdecrypt : (bob.decrypt aead freshSecret (header 0) (sealed [7])).1 = .ok [7] := rfl
  unfold sessionDecrypt decryptWith
  simp only [Outcome.andThen_fst_eq_ok, Outcome.ofExcept_eq_ok, decodeHeader_wideHeader, decode_eq_ok,
    Base64.decodeString_encodeString, withSession_eq_ok]
  exact ⟨_, rfl, _, rfl, _, rfl, [7], ⟨rfl, bob, Finmap.lookup_insert _, hdecrypt⟩, rfl⟩

theorem x3dhInitiate_numberedBundle :
    ∃ text, x3dhInitiate crates naming aead ⟨bytes32 11⟩ 2 numberedBundle store = .ok text :=
  ⟨_, except_bind_eq_ok.2 ⟨_, decodeBundle_numberedBundle, initiateWith_eq_ok.2
    ⟨_, _, Finmap.lookup_insert _, initiate_ok.2 ⟨verify_bobBundle, rfl⟩, rfl⟩⟩⟩

end GhostCrypt.Sample

namespace GhostCrypt.Wasm

/-- With the JSON reader of the library. -/
theorem decoders_exact_iff_sample :
    (∀ text, HeaderExact Sample.crates Sample.aead text ↔ HeaderFits Sample.crates text) ∧
    (∀ text, (∀ text', HeaderFits Sample.crates text' → HeadersApart Sample.crates text text') ↔
      HeaderFits Sample.crates text) ∧
    (∀ text, BundleExact Sample.crates Sample.naming Sample.aead text ↔
      BundleFits Sample.crates Sample.naming text) ∧
    EncryptRoundTrips Sample.crates Sample.aead :=
  decoders_exact_iff Sample.aead Sample.crates_lawful

/-- Message 2^32 is decrypted as message 0, and the bundle is used without a one-time pre-key. -/
theorem decoders_reinterpret :
    ((sessionDecrypt Sample.crates Sample.aead Sample.freshSecret 1 Sample.wideHeader
        (Base64.encodeString (Sample.sealed [7]).ciphertext) (Base64.encodeString (Sample.sealed [7]).nonce)
        Sample.store).1 = .ok (Base64.encodeString [7]) ∧
      ¬ HeaderExact Sample.crates Sample.aead Sample.wideHeader) ∧
    ((∃ text, x3dhInitiate Sample.crates Sample.naming Sample.aead ⟨Sample.bytes32 11⟩ 2 Sample.numberedBundle
        Sample.store = .ok text) ∧
      ¬ BundleExact Sample.crates Sample.naming Sample.aead Sample.numberedBundle) := by
  refine ⟨⟨Sample.sessionDecrypt_wideHeader, fun h => ?_⟩, Sample.x3dhInitiate_numberedBundle, fun h => ?_⟩
  · exact Sample.not_headerFits_wideHeader ((headerExact_iff _ _).1 h)
  · exact Sample.not_bundleFits_numberedBundle ((bundleExact_iff _ Sample.crates_lawful _).1 h)

end GhostCrypt.Wasm
