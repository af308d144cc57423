/-
Sessions and everything else. A message call that traps leaves `SESSIONS` borrowed, and no call on
sessions returns again; the calls on keys, key agreements and groups never notice.
-/
import GhostCrypt.Wasm.Calls

namespace GhostCrypt.Wasm

open Identity Ratchet X3dh
open Json (Value)

variable {B : Type} {M : Mls.OpenMls}

/-! ## Calls on sessions -/

/-- `session_encrypt` and `session_decrypt`. -/
def Call.isMessage : Call M → Bool
  | .sessionEncrypt _ _ _ | .sessionDecrypt _ _ _ _ _ => true
  | _ => false

/-- The calls that borrow `SESSIONS`. -/
def Call.onSessions : Call M → Bool
  | .createSessionAlice _ _ _ | .createSessionBob _ _ | .sessionEncrypt _ _ _ | .sessionDecrypt _ _ _ _ _ => true
  | _ => false

/-- The instance with other sessions. -/
def Instance.withSessions (st : Instance B) (sessions : Finmap fun _ : UInt32 => Session B) (sessionsBorrowed : Bool) :
    Instance B := { st with sessions, sessionsBorrowed }

/-- The two instances have the same keys, group states and next handle. -/
def SameApart (st st' : Instance B) : Prop := ∃ sessions borrowed, st' = st.withSessions sessions borrowed

/-- What is done on the instance neither reads its sessions nor changes them. -/
def Apart {α : Type} (f : Instance B → Outcome String α × Instance B) : Prop :=
  ∀ st sessions borrowed, f (st.withSessions sessions borrowed) = (f st).map id (·.withSessions sessions borrowed)

theorem SameApart.refl (st : Instance B) : SameApart st st := ⟨st.sessions, st.sessionsBorrowed, rfl⟩

theorem SameApart.trans {st st' st'' : Instance B} : SameApart st st' → SameApart st' st'' → SameApart st st'' := by
  rintro ⟨_, _, rfl⟩ ⟨sessions, borrowed, rfl⟩
  exact ⟨sessions, borrowed, rfl⟩

theorem SameApart.symm {st st' : Instance B} : SameApart st st' → SameApart st' st := by
  rintro ⟨_, _, rfl⟩
  exact ⟨st.sessions, st.sessionsBorrowed, rfl⟩

/-! ## Calls elsewhere -/

namespace Apart

variable {α β : Type}

theorem andThen {x : Except String α} {f : α → Instance B → Outcome String β × Instance B} (hf : ∀ a, Apart (f a)) :
    Apart fun st => Outcome.andThen (.ofExcept x, st) f := by
  intro st sessions borrowed
  cases x with
  | ok a => exact hf a st sessions borrowed
  | error e => rfl

theorem storeState (C : Crates B) (r : Outcome CryptoError α) (failed : String) (groupState : α → Bytes)
    (result : UInt32 → α → Value) : Apart (storeState C r failed groupState result) := by
  intro st sessions borrowed
  cases r <;> rfl

theorem stateOf {groupHandle : UInt32} {f : Bytes → Instance B → Outcome String β × Instance B}
    (hf : ∀ a, Apart (f a)) : Apart fun st => Outcome.andThen (.ofExcept (stateOf groupHandle st), st) f := by
  intro st sessions borrowed
  have hsame : Wasm.stateOf groupHandle (st.withSessions sessions borrowed) = Wasm.stateOf groupHandle st := rfl
  simp only [hsame]
  exact andThen hf st sessions borrowed

theorem map {f : Instance B → Outcome String α × Instance B} (hf : Apart f) (g : α → β) :
    Apart fun st => (f st).map (·.map g) id := by
  intro st sessions borrowed
  simp only [hf st sessions borrowed]
  rfl

end Apart

variable [ByteString B] {C : Crates B} {P : Primitives B} {E : Ed25519}

/-- A call that does not borrow `SESSIONS` does not depend on them. -/
theorem call_apart {c : Call M} (hc : c.onSessions = false) : Apart fun st => st.call C P E c := by
  cases c with
  | createSessionAlice | createSessionBob | sessionEncrypt | sessionDecrypt => cases hc
  | generateIdentityKeypair secretSeed signingKey => exact fun st sessions borrowed => rfl
  | generateSignedPreKey secretSeed identityHandle =>
    refine Apart.map (f := generateSignedPreKey C P E secretSeed identityHandle) (fun st sessions borrowed => ?_) _
    unfold generateSignedPreKey
    rw [show (st.withSessions sessions borrowed).identityKeys = st.identityKeys from rfl]
    cases st.identityKeys.lookup identityHandle <;> rfl
  | generateOneTimePreKeys | x3dhInitiate | x3dhRespond | mlsGenerateKeyPackage => exact fun st sessions borrowed => rfl
  | mlsCreateGroup rng identityB64 => exact (Apart.andThen fun _ => .storeState C _ _ _ _).map _
  | mlsAddMember rng groupHandle keyPackageB64 =>
    exact (Apart.andThen fun _ => .stateOf fun _ => .storeState C _ _ _ _).map _
  | mlsRemoveMember rng groupHandle leafIndex => exact (Apart.stateOf fun _ => .storeState C _ _ _ _).map _
  | mlsEncryptMessage rng groupHandle plaintextB64 =>
    exact (Apart.andThen fun _ => .stateOf fun _ => .storeState C _ _ _ _).map _
  | mlsDecryptMessage groupHandle mlsMessageB64 =>
    exact (Apart.andThen fun _ => .stateOf fun _ => .storeState C _ _ _ _).map _
  | mlsProcessWelcome welcomeB64 secretBundleB64 =>
    exact (Apart.andThen fun _ => .andThen fun _ => .storeState C _ _ _ _).map _
  | mlsProcessCommit groupHandle commitB64 =>
    exact (Apart.andThen fun _ => .stateOf fun _ => .storeState C _ _ _ _).map _
  | mlsDestroyState groupHandle => exact fun st sessions borrowed => rfl

theorem step_withSessions {c : Call M} (hc : c.onSessions = false) (st : Instance B)
    (sessions : Finmap fun _ : UInt32 => Session B) (borrowed : Bool) :
    (st.withSessions sessions borrowed).step C P E c = (st.step C P E c).withSessions sessions borrowed :=
  congrArg Prod.snd (call_apart hc st sessions borrowed)

/-- Such a call leaves the sessions as they are. -/
theorem sessions_step_of_elsewhere {c : Call M} (hc : c.onSessions = false) (st : Instance B) :
    (st.step C P E c).sessions = st.sessions ∧ (st.step C P E c).sessionsBorrowed = st.sessionsBorrowed := by
  have hsame := step_withSessions (C := C) (P := P) (E := E) hc st st.sessions st.sessionsBorrowed
  rw [show st.withSessions st.sessions st.sessionsBorrowed = st from rfl] at hsame
  rw [hsame]
  exact ⟨rfl, rfl⟩

/-! ## Calls on sessions, seen from elsewhere -/

/-- What is done on instances that are the same apart from their sessions leaves them so. -/
def Alike {α : Type} (f : Instance B → Outcome String α × Instance B) : Prop :=
  ∀ st st', SameApart st st' → SameApart (f st).2 (f st').2

omit [ByteString B] in
theorem Alike.andThen {α β : Type} {x : Except String α} {f : α → Instance B → Outcome String β × Instance B}
    (hf : ∀ a, Alike (f a)) : Alike fun st => Outcome.andThen (.ofExcept x, st) f := by
  intro st st' h
  cases x with
  | ok a => exact hf a st st' h
  | error e => exact h

omit [ByteString B] in
theorem Alike.insertSession (s : Session B) : Alike (insertSession s) := by
  have hdraw : ∀ st : Instance B, SameApart st.draw (Wasm.insertSession s st).2 := by
    intro st
    simp only [Wasm.insertSession]
    split
    · exact .refl _
    · exact ⟨_, st.sessionsBorrowed, rfl⟩
  rintro st _ ⟨sessions, borrowed, rfl⟩
  have hmoved : SameApart st.draw (st.withSessions sessions borrowed).draw := ⟨sessions, borrowed, rfl⟩
  exact ((hdraw st).symm.trans hmoved).trans (hdraw _)

omit [ByteString B] in
/-- A message call is not seen elsewhere. -/
theorem sameApart_withSession {α β : Type} {handle : UInt32} {failed : String}
    {f : Session B → Outcome CryptoError α × Session B} {g : α → Store B → Outcome String β × Store B}
    (hg : ∀ a store, (g a store).2 = store) (st : Instance B) :
    SameApart st (onStore (fun st => Outcome.andThen (withSession handle failed f st) g) st).2 := by
  have hkeys : ∀ store : Store B, (withSession handle failed f store).2.identityKeys = store.identityKeys := by
    intro store
    unfold withSession
    split
    · rfl
    · cases store.sessions.lookup handle <;> rfl
  rw [onStore_andThen_snd hg]
  refine ⟨(withSession handle failed f st.toStore).2.sessions,
    (withSession handle failed f st.toStore).2.sessionsBorrowed, ?_⟩
  simp only [onStore, Instance.withSessions, ← hkeys st.toStore]

theorem sameApart_message {c : Call M} (hc : c.isMessage = true) (st : Instance B) :
    SameApart st (st.step C P E c) := by
  cases c with
  | sessionEncrypt nonce sessionHandle plaintextB64 =>
    show SameApart st (onStore (sessionEncrypt C P nonce sessionHandle plaintextB64) st).2
    unfold sessionEncrypt
    rw [onStore_andThen]
    exact Outcome.andThen_ofExcept (.refl st) fun _ _ => sameApart_withSession (fun _ _ => rfl) st
  | sessionDecrypt fresh sessionHandle headerJson ciphertextB64 nonceB64 =>
    show SameApart st (onStore (sessionDecrypt C P fresh sessionHandle headerJson ciphertextB64 nonceB64) st).2
    unfold sessionDecrypt decryptWith
    rw [onStore_andThen]
    refine Outcome.andThen_ofExcept (.refl st) fun header _ => ?_
    rw [onStore_andThen]
    refine Outcome.andThen_ofExcept (.refl st) fun ciphertext _ => ?_
    rw [onStore_andThen]
    exact Outcome.andThen_ofExcept (.refl st) fun nonce _ => sameApart_withSession (fun _ _ => rfl) st
  | _ => cases hc

/-- Every call keeps two instances the same apart from their sessions. -/
theorem SameApart.step {st st' : Instance B} (h : SameApart st st') (c : Call M) :
    SameApart (st.step C P E c) (st'.step C P E c) := by
  by_cases hmessage : c.isMessage = true
  · exact ((sameApart_message hmessage st).symm.trans h).trans (sameApart_message hmessage st')
  · cases c with
    | sessionEncrypt | sessionDecrypt => exact absurd rfl hmessage
    | createSessionAlice fresh sharedSecretB64 bobSpkPublicB64 =>
      have halike : Alike (createSessionAlice C P fresh sharedSecretB64 bobSpkPublicB64) := by
        refine .andThen fun sharedSecret => .andThen fun bobSpkBytes => .andThen fun keyBytes => ?_
        simp only [Session.initAlice_eq]
        exact .insertSession _
      exact halike st st' h
    | createSessionBob sharedSecretB64 spkHandle =>
      have halike : Alike (createSessionBob C sharedSecretB64 spkHandle) := by
        refine .andThen fun sharedSecret => ?_
        rintro st _ ⟨sessions, borrowed, rfl⟩
        simp only [show (st.withSessions sessions borrowed).spkKeys = st.spkKeys from rfl]
        cases st.spkKeys.lookup spkHandle with
        | none => exact ⟨sessions, borrowed, rfl⟩
        | some spk => exact Alike.insertSession _ st _ ⟨sessions, borrowed, rfl⟩
      exact halike st st' h
    | _ =>
      obtain ⟨sessions, borrowed, rfl⟩ := h
      exact ⟨sessions, borrowed, step_withSessions rfl st sessions borrowed⟩

variable (C P E) in
/-- What a sequence of calls returns for those that do not borrow `SESSIONS`. -/
def Instance.repliesElsewhere : Instance B → List (Call M) → List (Outcome String Returned)
  | _, [] => []
  | st, c :: calls =>
    if c.onSessions then repliesElsewhere (st.step C P E c) calls
    else (st.call C P E c).1 :: repliesElsewhere (st.step C P E c) calls

theorem SameApart.repliesElsewhere : ∀ (calls : List (Call M)) {st st' : Instance B}, SameApart st st' →
    st.repliesElsewhere C P E calls = st'.repliesElsewhere C P E (calls.filter fun c => !c.isMessage)
  | [], _, _, _ => rfl
  | c :: calls, st, st', h => by
    by_cases hmessage : c.isMessage = true
    · have hon : c.onSessions = true := by cases c <;> first | rfl | cases hmessage
      rw [List.filter_cons_of_neg (by simpa using hmessage), Instance.repliesElsewhere, if_pos hon]
      exact SameApart.repliesElsewhere calls ((sameApart_message hmessage st).symm.trans h)
    · have ih := SameApart.repliesElsewhere calls (h.step (C := C) (P := P) (E := E) c)
      rw [List.filter_cons_of_pos (by simpa using hmessage), Instance.repliesElsewhere, Instance.repliesElsewhere, ih]
      split
      · rfl
      · rename_i hon
        obtain ⟨sessions, borrowed, rfl⟩ := h
        have hcall : (st.withSessions sessions borrowed).call C P E c = _ :=
          call_apart (by simpa using hon) st sessions borrowed
        rw [hcall]
        rfl

/-- Messages do not interfere with anything else: in every run from every instance, the calls on keys,
key agreements and groups return what they return in the run without its message calls, also after one
of those has trapped. -/
theorem repliesElsewhere_filter (st : Instance B) (calls : List (Call M)) :
    st.repliesElsewhere C P E calls = st.repliesElsewhere C P E (calls.filter fun c => !c.isMessage) :=
  (SameApart.refl st).repliesElsewhere calls

/-! ## The borrow -/

variable (C) in
/-- A `session_decrypt` gives its session lengths it can rely on. -/
def Instance.WellFormed (st : Instance B) : Call M → Prop
  | .sessionDecrypt _ sessionHandle headerJson ciphertextB64 nonceB64 => ∀ header ciphertext nonce session,
      decodeHeader C headerJson = .ok header → Base64.decodeString ciphertextB64 = some ciphertext →
      Base64.decodeString nonceB64 = some nonce → st.sessions.lookup sessionHandle = some session →
      session.WellFormed header { nonce, ciphertext }
  | _ => True

omit [ByteString B] in
/-- A message call gives the borrow back unless its session panics. -/
theorem borrowed_withSession {α β : Type} {handle : UInt32} {failed : String}
    {f : Session B → Outcome CryptoError α × Session B} {g : α → Store B → Outcome String β × Store B}
    (hg : ∀ a store, (g a store).2 = store) {st : Instance B} (hb : st.sessionsBorrowed = false) :
    (onStore (fun st => Outcome.andThen (withSession handle failed f st) g) st).2.sessionsBorrowed = false ↔
      ∀ session, st.sessions.lookup handle = some session → (f session).1 ≠ .panic := by
  rw [onStore_andThen_snd hg]
  show (withSession handle failed f st.toStore).2.sessionsBorrowed = false ↔ _
  rw [withSession, if_neg (by rw [hb]; exact Bool.false_ne_true)]
  cases st.sessions.lookup handle with
  | none => exact iff_of_true hb fun _ => nofun
  | some session =>
    simp only [Option.some.injEq, forall_eq']
    cases (f session).1 <;> simp

omit [ByteString B] in
/-- A check is passed or leaves the store free. -/
theorem free_andThen {α β : Type} {x : Except String α} {st : Instance B} (hb : st.sessionsBorrowed = false)
    {f : α → Instance B → Outcome String β × Instance B} :
    (Outcome.andThen (.ofExcept x, st) f).2.sessionsBorrowed = false ↔
      ∀ a, x = .ok a → (f a st).2.sessionsBorrowed = false := by
  cases x with
  | ok a =>
    simp only [Except.ok.injEq, forall_eq']
    exact Iff.rfl
  | error e => exact iff_of_true hb fun _ => nofun

omit [ByteString B] in
theorem free_insertSession (s : Session B) {st : Instance B} (hb : st.sessionsBorrowed = false) :
    (insertSession s st).2.sessionsBorrowed = false := by
  simp only [insertSession]
  rw [if_neg (show ¬ st.draw.sessionsBorrowed = true from Bool.eq_false_iff.1 hb)]
  exact hb

/-- A call on a free store leaves it free exactly when it is well formed. -/
theorem step_free_iff {st : Instance B} (hb : st.sessionsBorrowed = false) (c : Call M) :
    (st.step C P E c).sessionsBorrowed = false ↔ st.WellFormed C c := by
  cases c with
  | createSessionAlice fresh sharedSecretB64 bobSpkPublicB64 =>
    refine iff_of_true ?_ trivial
    show (createSessionAlice C P fresh sharedSecretB64 bobSpkPublicB64 st).2.sessionsBorrowed = false
    unfold createSessionAlice
    simp only [Session.initAlice_eq, free_andThen hb]
    exact fun _ _ _ _ _ _ => free_insertSession _ hb
  | createSessionBob sharedSecretB64 spkHandle =>
    refine iff_of_true ?_ trivial
    show (createSessionBob C sharedSecretB64 spkHandle st).2.sessionsBorrowed = false
    refine (free_andThen hb).2 fun _ _ => ?_
    cases st.spkKeys.lookup spkHandle with
    | none => exact hb
    | some spk => exact free_insertSession _ hb
  | sessionEncrypt nonce sessionHandle plaintextB64 =>
    refine iff_of_true ?_ trivial
    show (onStore (sessionEncrypt C P nonce sessionHandle plaintextB64) st).2.sessionsBorrowed = false
    unfold sessionEncrypt
    rw [onStore_andThen]
    exact (free_andThen hb).2 fun plaintext _ =>
      (borrowed_withSession (fun _ _ => rfl) hb).2 fun s _ => Session.encrypt_ne_panic P nonce s plaintext
  | sessionDecrypt fresh sessionHandle headerJson ciphertextB64 nonceB64 =>
    show (onStore (sessionDecrypt C P fresh sessionHandle headerJson ciphertextB64 nonceB64) st).2.sessionsBorrowed =
      false ↔ _
    unfold sessionDecrypt decryptWith Instance.WellFormed
    simp only [onStore_andThen, free_andThen hb, decode_eq_ok]
    constructor
    · intro h header ciphertext nonce session hheader hciphertext hnonce hsession
      have hfree := (borrowed_withSession (fun _ _ => rfl) hb).1 (h header hheader ciphertext hciphertext nonce hnonce)
      exact not_not.1 ((Session.decrypt_panic_iff P fresh session header _).not.1 (hfree session hsession))
    · intro h header hheader ciphertext hciphertext nonce hnonce
      refine (borrowed_withSession (fun _ _ => rfl) hb).2 fun session hsession => ?_
      exact (Session.decrypt_panic_iff P fresh session header _).not.2
        (not_not.2 (h header ciphertext nonce session hheader hciphertext hnonce hsession))
  | _ => exact iff_of_true ((sessions_step_of_elsewhere rfl st).2.trans hb) trivial

/-- What ends without a result, and leaves the store borrowed and the sessions as they were. -/
structure Lost {α : Type} (st : Instance B) (x : Outcome String α × Instance B) : Prop where
  fails : ∀ a, x.1 ≠ .ok a
  borrowed : x.2.sessionsBorrowed = true
  sessions : x.2.sessions = st.sessions

omit [ByteString B] in
theorem Lost.andThen {α β : Type} {x : Except String α} {st : Instance B} (hb : st.sessionsBorrowed = true)
    {f : α → Instance B → Outcome String β × Instance B} (hf : ∀ a, Lost st (f a st)) :
    Lost st (Outcome.andThen (.ofExcept x, st) f) := by
  cases x with
  | ok a => exact hf a
  | error e => exact ⟨fun _ => nofun, hb, rfl⟩

omit [ByteString B] in
theorem Lost.insertSession (s : Session B) {st : Instance B} (hb : st.sessionsBorrowed = true) :
    Lost st (insertSession s st) := by
  simp only [Wasm.insertSession]
  rw [if_pos (show st.draw.sessionsBorrowed = true from hb)]
  exact ⟨fun _ => nofun, hb, rfl⟩

omit [ByteString B] in
theorem Lost.withSession {α β : Type} {handle : UInt32} {failed : String}
    {f : Session B → Outcome CryptoError α × Session B} {g : α → Store B → Outcome String β × Store B} {st : Instance B}
    (hb : st.sessionsBorrowed = true) :
    Lost st (onStore (fun st => Outcome.andThen (withSession handle failed f st) g) st) := by
  have hpanic : Wasm.withSession handle failed f st.toStore = (.panic, st.toStore) := if_pos hb
  simp only [onStore, hpanic]
  exact ⟨fun _ h => (by cases h), hb, rfl⟩

omit [ByteString B] in
theorem Lost.map {α : Type} {st : Instance B} {x : Outcome String α × Instance B} (h : Lost st x) (f : α → Returned) :
    Lost st (x.map (·.map f) id) := by
  obtain ⟨a | e | _, st'⟩ := x
  · exact absurd rfl (h.fails a)
  · exact ⟨fun _ => nofun, h.borrowed, h.sessions⟩
  · exact ⟨fun _ => nofun, h.borrowed, h.sessions⟩

/-- On a borrowed store no call on sessions returns, and no call changes them. -/
theorem call_of_borrowed {st : Instance B} (hb : st.sessionsBorrowed = true) {c : Call M} (hc : c.onSessions = true) :
    Lost st (st.call C P E c) := by
  cases c with
  | createSessionAlice fresh sharedSecretB64 bobSpkPublicB64 =>
    refine Lost.map (x := createSessionAlice C P fresh sharedSecretB64 bobSpkPublicB64 st) ?_ _
    refine .andThen hb fun _ => .andThen hb fun _ => .andThen hb fun _ => ?_
    simp only [Session.initAlice_eq]
    exact .insertSession _ hb
  | createSessionBob sharedSecretB64 spkHandle =>
    refine Lost.map (x := createSessionBob C sharedSecretB64 spkHandle st) (.andThen hb fun _ => ?_) _
    cases st.spkKeys.lookup spkHandle with
    | none => exact ⟨fun _ => nofun, hb, rfl⟩
    | some spk => exact .insertSession _ hb
  | sessionEncrypt nonce sessionHandle plaintextB64 =>
    refine Lost.map (x := onStore (sessionEncrypt C P nonce sessionHandle plaintextB64) st) ?_ _
    unfold sessionEncrypt
    rw [onStore_andThen]
    exact .andThen hb fun _ => .withSession hb
  | sessionDecrypt fresh sessionHandle headerJson ciphertextB64 nonceB64 =>
    refine Lost.map (x := onStore (sessionDecrypt C P fresh sessionHandle headerJson ciphertextB64 nonceB64) st) ?_ _
    unfold sessionDecrypt decryptWith
    rw [onStore_andThen]
    refine .andThen hb fun header => ?_
    rw [onStore_andThen]
    refine .andThen hb fun ciphertext => ?_
    rw [onStore_andThen]
    exact .andThen hb fun nonce => .withSession hb
  | _ => cases hc

theorem borrowed_step {st : Instance B} (hb : st.sessionsBorrowed = true) (c : Call M) :
    (st.step C P E c).sessionsBorrowed = true := by
  by_cases hc : c.onSessions = true
  · exact (call_of_borrowed hb hc).borrowed
  · exact (sessions_step_of_elsewhere (by simpa using hc) st).2.trans hb

/-- From a borrowed store no call on sessions ever returns. -/
theorem lost_along : ∀ {calls : List (Call M)} {st : Instance B}, st.sessionsBorrowed = true →
    Run.Along (Instance.step C P E) (fun st c => c.onSessions = true → ∀ r, (st.call C P E c).1 ≠ .ok r) st calls
  | [], _, _ => trivial
  | c :: _, _, hb => ⟨fun hc => (call_of_borrowed hb hc).fails, lost_along (borrowed_step hb c)⟩

/-- A run ends with the store free exactly when all its decryptions were well formed. -/
theorem exec_free_iff (calls : List (Call M)) :
    (Run.exec (Instance.step C P E) Instance.empty calls).sessionsBorrowed = false ↔
      Run.Along (Instance.step C P E) (Instance.WellFormed C) Instance.empty calls := by
  rw [← Run.throughout_iff_along (I := fun st : Instance B => st.sessionsBorrowed = false)
    (fun st c hb => step_free_iff hb c) rfl]
  constructor
  · refine Run.Throughout.of_last (I := fun st : Instance B => st.sessionsBorrowed = false) fun st c => ?_
    contrapose!
    simp only [ne_eq, Bool.not_eq_false]
    exact fun hb => borrowed_step hb c
  · exact Run.Throughout.last

omit [ByteString B] in
theorem insertSession_of_free {st : Instance B} (hb : st.sessionsBorrowed = false) (s : Session B) :
    insertSession s st = (.ok st.nextId, { st.draw with sessions := st.sessions.insert st.nextId s }) :=
  if_neg (show ¬ st.sessionsBorrowed = true by rw [hb]; exact Bool.false_ne_true)

theorem createSessionAlice_of_free {st : Instance B} (hb : st.sessionsBorrowed = false) (fresh : StaticSecret)
    {sharedSecretB64 bobSpkPublicB64 : String} {sharedSecret : Bytes} {bobSpkPublic : PublicKey}
    (hsecret : Base64.decodeString sharedSecretB64 = some sharedSecret)
    (hspk : Base64.decodeString bobSpkPublicB64 = some bobSpkPublic.toVec) {s : Session B}
    (hs : Session.initAlice P fresh (ByteString.ofBytes sharedSecret) bobSpkPublic = .ok s) :
    createSessionAlice C P fresh sharedSecretB64 bobSpkPublicB64 st =
      (.ok st.nextId, { st.draw with sessions := st.sessions.insert st.nextId s }) := by
  have hsecret' : C.decode "shared_secret" sharedSecretB64 = .ok sharedSecret := decode_eq_ok.2 hsecret
  have hspk' : C.decode "bob_spk_public" bobSpkPublicB64 = .ok bobSpkPublic.toVec := decode_eq_ok.2 hspk
  have hbytes : bytes32 "Bob's SPK public key" bobSpkPublic.toVec = .ok bobSpkPublic.bytes := bytes32_eq_ok.2 rfl
  simp only [createSessionAlice, hsecret', hspk', hbytes, Outcome.ofExcept_ok, Outcome.andThen_ok]
  rw [hs]
  exact insertSession_of_free hb s

/-- On a free store some call on sessions returns: one that makes a session. -/
theorem returns_of_free {st : Instance B} (hb : st.sessionsBorrowed = false) :
    ∃ c : Call M, c.onSessions = true ∧ ∃ r, (st.call C P E c).1 = .ok r := by
  let key : PublicKey := ⟨⟨List.replicate 32 0, List.length_replicate⟩⟩
  let fresh : StaticSecret := ⟨key.bytes⟩
  have hcall := createSessionAlice_of_free (C := C) (P := P) hb fresh (Base64.decodeString_encodeString [])
    (Base64.decodeString_encodeString key.toVec) (Session.initAlice_eq ..)
  refine ⟨.createSessionAlice fresh (Base64.encodeString []) (Base64.encodeString key.toVec), rfl,
    .handle st.nextId, ?_⟩
  simp only [Instance.call, hcall]
  rfl

/-- In a run from the start, calls on sessions are lost for good exactly if one of its decryptions was
malformed: whatever is called later, none of them returns. -/
theorem sessions_lost_iff (calls : List (Call M)) :
    (∀ later : List (Call M), Run.Along (Instance.step C P E)
      (fun st c => c.onSessions = true → ∀ r, (st.call C P E c).1 ≠ .ok r)
      (Run.exec (Instance.step C P E) Instance.empty calls) later) ↔
    ¬ Run.Along (Instance.step C P E) (Instance.WellFormed C) Instance.empty calls := by
  rw [← exec_free_iff]
  constructor
  · intro h hb
    obtain ⟨c, hc, r, hr⟩ := returns_of_free (C := C) (P := P) (E := E) (M := M) hb
    exact (h [c]).1 hc r hr
  · exact fun hb later => lost_along (by simpa using hb)

end GhostCrypt.Wasm
