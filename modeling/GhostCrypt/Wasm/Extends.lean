/-
What becomes of the objects of an instance. Keys stay as they were made, a group state stays as it was stored
until it is destroyed, and a session is what the messages sent and received under its own handle have made of it.
-/
import GhostCrypt.Wasm.Borrow
import GhostCrypt.Wasm.Kinds

namespace GhostCrypt.Wasm

open Identity Ratchet
open Kinds (Machine)

variable {B : Type} [ByteString B] {M : Mls.OpenMls} {C : Crates B} {P : Primitives B} {E : Ed25519}

/-! ## Keys -/

/-- Every key of `a` is in `b` under its handle. -/
structure KeepsKeys (a b : Instance B) : Prop where
  identity : ∀ h i, a.identityKeys.lookup h = some i → b.identityKeys.lookup h = some i
  signedPreKey : ∀ h k, a.spkKeys.lookup h = some k → b.spkKeys.lookup h = some k

omit [ByteString B] in
/-- What is put under a handle without an object replaces none. -/
theorem lookup_insert_unused {V : Type} {m : Finmap fun _ : UInt32 => V} {h h' : UInt32} {v v' : V}
    (hl : m.lookup h = some v) (hunused : ¬ m.lookup h' ≠ none) : (m.insert h' v').lookup h = some v := by
  rw [Finmap.lookup_insert_of_ne _ (show h ≠ h' from ?_), hl]
  rintro rfl
  exact hunused (hl ▸ Option.some_ne_none v)

namespace KeepsKeys

omit [ByteString B] in
theorem refl (a : Instance B) : KeepsKeys a a := ⟨fun _ _ => id, fun _ _ => id⟩

/-- A change that puts no object under a handle in use. -/
theorem change {a b b' : Instance B} (h : KeepsKeys a b) (hchange : Change P E b b')
    (hnew : b'.nextId ≠ b.nextId → ∀ k, ¬ b.Live k b.nextId) : KeepsKeys a b' := by
  cases hchange with
  | identity secretSeed signingKey =>
    have hfree := hnew (Machine.add_one_ne _) .identity
    exact ⟨fun i k hl => lookup_insert_unused (h.identity i k hl) hfree, h.signedPreKey⟩
  | signedPreKey _ identity secretSeed =>
    have hfree := hnew (Machine.add_one_ne _) .signedPreKey
    exact ⟨h.identity, fun i k hl => lookup_insert_unused (h.signedPreKey i k hl) hfree⟩
  | nothing | session | wasted | message | state | removed => exact ⟨h.identity, h.signedPreKey⟩

theorem exec {a st : Instance B} {calls : List (Call M)} (h : KeepsKeys a st)
    (hnew : Run.Along (Instance.step C P E) ((machine M C P E).New a) st calls) :
    KeepsKeys a (Run.exec (Instance.step C P E) st calls) :=
  Run.exec_invariant (fun st c h hnew => h.change (step_change st c) fun hdraws k => (hnew hdraws k).1) h hnew

end KeepsKeys

/-! ## The session of a handle -/

section

variable {st : Instance B} {handle : UInt32}

/-- The session of the handle is the same in both instances. -/
def Keeps (handle : UInt32) (st st' : Instance B) : Prop := st'.sessions.lookup handle = st.sessions.lookup handle

/-- What is left of a call that makes sessions: the same sessions, or one more under the handle drawn. -/
def MakesSession (st st' : Instance B) : Prop :=
  st'.sessions = st.sessions ∨ st'.nextId ≠ st.nextId ∧ ∃ s, st'.sessions = st.sessions.insert st.nextId s

omit [ByteString B] in
theorem MakesSession.of_insertSession (s : Session B) (st : Instance B) : MakesSession st (insertSession s st).2 := by
  simp only [insertSession]
  split
  · exact .inl rfl
  · exact .inr ⟨Machine.add_one_ne _, s, rfl⟩

omit [ByteString B] in
theorem MakesSession.keeps {st st' : Instance B} (h : MakesSession st st')
    (hne : st'.nextId ≠ st.nextId → st.nextId ≠ handle) : Keeps handle st st' := by
  rcases h with hsame | ⟨hdraws, s, hinsert⟩
  · rw [Keeps, hsame]
  · rw [Keeps, hinsert]
    exact Finmap.lookup_insert_of_ne _ (hne hdraws).symm

theorem makesSession_step {c : Call M} (hmakes : c.makes = some .session) (st : Instance B) :
    MakesSession st (st.step C P E c) := by
  cases c with
  | createSessionAlice fresh sharedSecretB64 bobSpkPublicB64 =>
    show MakesSession st (createSessionAlice C P fresh sharedSecretB64 bobSpkPublicB64 st).2
    unfold createSessionAlice
    simp only [Session.initAlice_eq]
    refine Outcome.andThen_ofExcept (.inl rfl) fun _ _ => Outcome.andThen_ofExcept (.inl rfl) fun _ _ =>
      Outcome.andThen_ofExcept (.inl rfl) fun _ _ => ?_
    exact .of_insertSession _ st
  | createSessionBob sharedSecretB64 spkHandle =>
    show MakesSession st (createSessionBob C sharedSecretB64 spkHandle st).2
    refine Outcome.andThen_ofExcept (.inl rfl) fun _ _ => ?_
    cases st.spkKeys.lookup spkHandle with
    | none => exact .inl rfl
    | some spk => exact .of_insertSession _ st
  | _ => cases hmakes

omit [ByteString B] in
theorem keeps_withSession {α β : Type} {h : UInt32} {failed : String}
    {f : Session B → Outcome CryptoError α × Session B} {g : α → Store B → Outcome String β × Store B}
    (hg : ∀ a store, (g a store).2 = store) (hne : h ≠ handle) :
    Keeps handle st (onStore (fun st => Outcome.andThen (withSession h failed f st) g) st).2 := by
  rw [onStore_andThen_snd hg]
  show (withSession h failed f st.toStore).2.sessions.lookup handle = _
  unfold withSession
  split
  · rfl
  · cases st.sessions.lookup h with
    | none => rfl
    | some session => exact Finmap.lookup_insert_of_ne _ hne.symm

/-- A call that neither names the session of the handle nor makes one under it. -/
theorem keeps_step {c : Call M} (huses : (Kind.session, handle) ∉ c.uses)
    (hmakes : c.makes = some .session → (st.step C P E c).nextId ≠ st.nextId → st.nextId ≠ handle) :
    Keeps handle st (st.step C P E c) := by
  cases c with
  | createSessionAlice fresh sharedSecretB64 bobSpkPublicB64 => exact (makesSession_step rfl st).keeps (hmakes rfl)
  | createSessionBob sharedSecretB64 spkHandle => exact (makesSession_step rfl st).keeps (hmakes rfl)
  | sessionEncrypt nonce h plaintextB64 =>
    have hne : h ≠ handle := fun heq => huses (heq ▸ List.mem_singleton_self _)
    show Keeps handle st (onStore (sessionEncrypt C P nonce h plaintextB64) st).2
    unfold sessionEncrypt
    rw [onStore_andThen]
    exact Outcome.andThen_ofExcept rfl fun _ _ => keeps_withSession (fun _ _ => rfl) hne
  | sessionDecrypt fresh h headerJson ciphertextB64 nonceB64 =>
    have hne : h ≠ handle := fun heq => huses (heq ▸ List.mem_singleton_self _)
    show Keeps handle st (onStore (sessionDecrypt C P fresh h headerJson ciphertextB64 nonceB64) st).2
    unfold sessionDecrypt decryptWith
    rw [onStore_andThen]
    refine Outcome.andThen_ofExcept rfl fun header _ => ?_
    rw [onStore_andThen]
    refine Outcome.andThen_ofExcept rfl fun ciphertext _ => ?_
    rw [onStore_andThen]
    exact Outcome.andThen_ofExcept rfl fun nonce _ => keeps_withSession (fun _ _ => rfl) hne
  | _ => rw [Keeps, (sessions_step_of_elsewhere rfl st).1]

variable (C) in
/-- The message that a call sends or receives in the session of the handle, if it decodes to one. -/
def Call.messageTo (handle : UInt32) : Call M → Option Ratchet.Call
  | .sessionEncrypt nonce h plaintextB64 =>
    if h = handle then (Base64.decodeString plaintextB64).map (.encrypt nonce) else none
  | .sessionDecrypt fresh h headerJson ciphertextB64 nonceB64 =>
    if h = handle then do
      let header ← (decodeHeader C headerJson).toOption
      let ciphertext ← Base64.decodeString ciphertextB64
      let nonce ← Base64.decodeString nonceB64
      return .decrypt fresh header { nonce, ciphertext }
    else none
  | _ => none

omit [ByteString B] in
/-- A message call that reaches the session of the handle. -/
theorem lookup_withSession {α β : Type} {failed : String} {f : Session B → Outcome CryptoError α × Session B}
    {g : α → Store B → Outcome String β × Store B} (hg : ∀ a store, (g a store).2 = store) {s : Session B}
    (hb : st.sessionsBorrowed = false) (hs : st.sessions.lookup handle = some s) :
    (onStore (fun st => Outcome.andThen (withSession handle failed f st) g) st).2.sessions.lookup handle =
      some (f s).2 := by
  rw [onStore_andThen_snd hg]
  show (withSession handle failed f st.toStore).2.sessions.lookup handle = _
  unfold withSession
  rw [if_neg (by rw [hb]; exact Bool.false_ne_true), hs]
  exact Finmap.lookup_insert _

/-- A call on a free store runs its message, if any, on the session of the handle. -/
theorem lookup_step {s : Session B} (hb : st.sessionsBorrowed = false) (hs : st.sessions.lookup handle = some s)
    {c : Call M} (hmakes : c.makes = some .session → (st.step C P E c).nextId ≠ st.nextId → st.nextId ≠ handle) :
    (st.step C P E c).sessions.lookup handle = some (Run.exec (Session.call P) s (c.messageTo C handle).toList) := by
  by_cases huses : (Kind.session, handle) ∈ c.uses
  · cases c with
    | sessionEncrypt nonce h plaintextB64 =>
      obtain rfl : handle = h := congrArg Prod.snd (List.mem_singleton.1 huses)
      show (onStore (sessionEncrypt C P nonce handle plaintextB64) st).2.sessions.lookup handle = _
      unfold sessionEncrypt Crates.decode
      rw [onStore_andThen, Call.messageTo, if_pos rfl]
      cases Base64.decodeString plaintextB64 with
      | none => exact hs
      | some plaintext => exact lookup_withSession (fun _ _ => rfl) hb hs
    | sessionDecrypt fresh h headerJson ciphertextB64 nonceB64 =>
      obtain rfl : handle = h := congrArg Prod.snd (List.mem_singleton.1 huses)
      show (onStore (sessionDecrypt C P fresh handle headerJson ciphertextB64 nonceB64) st).2.sessions.lookup handle = _
      unfold sessionDecrypt decryptWith Crates.decode
      rw [onStore_andThen, Call.messageTo, if_pos rfl]
      cases decodeHeader C headerJson with
      | error e => exact hs
      | ok header =>
        cases Base64.decodeString ciphertextB64 with
        | none => exact hs
        | some ciphertext =>
          cases Base64.decodeString nonceB64 with
          | none => exact hs
          | some nonce => exact lookup_withSession (fun _ _ => rfl) hb hs
    | _ => simp [Call.uses] at huses
  · have hnone : c.messageTo C handle = none := by
      cases c with
      | sessionEncrypt | sessionDecrypt =>
        refine if_neg ?_
        rintro rfl
        exact huses (List.mem_singleton_self _)
      | _ => rfl
    rw [hnone]
    exact (keeps_step huses hmakes).trans hs

/-- No call changes the sessions of a borrowed store. -/
theorem sessions_exec_of_borrowed (calls : List (Call M)) {st : Instance B} (hb : st.sessionsBorrowed = true) :
    (Run.exec (Instance.step C P E) st calls).sessions = st.sessions := by
  have hstep : ∀ (st' : Instance B) (c : Call M), st'.sessionsBorrowed = true ∧ st'.sessions = st.sessions →
      (st'.step C P E c).sessionsBorrowed = true ∧ (st'.step C P E c).sessions = st.sessions := by
    rintro st' c ⟨hb', hsame⟩
    refine ⟨borrowed_step hb' c, ?_⟩
    by_cases hc : c.onSessions = true
    · exact (call_of_borrowed hb' hc).sessions.trans hsame
    · exact (sessions_step_of_elsewhere (by simpa using hc) st').1.trans hsame
  exact (Run.exec_invariant' hstep ⟨hb, rfl⟩).2

variable (C P E) in
/-- The calls made before `SESSIONS` is left borrowed, with the one that leaves it so. -/
def Instance.heard : Instance B → List (Call M) → List (Call M)
  | _, [] => []
  | st, c :: calls => if st.sessionsBorrowed then [] else c :: heard (st.step C P E c) calls

/-- The run of the messages that reach the session of the handle. -/
theorem session_exec {a : Instance B} : ∀ {calls : List (Call M)} {st : Instance B} {s : Session B},
    st.sessions.lookup handle = some s → Run.Along (Instance.step C P E) ((machine M C P E).New a) st calls →
      (Run.exec (Instance.step C P E) st calls).sessions.lookup handle =
        some (Run.exec (Session.call P) s ((st.heard C P E calls).filterMap (Call.messageTo C handle)))
  | [], _, _, hs, _ => hs
  | c :: calls, st, s, hs, hnew => by
    rw [Instance.heard]
    cases hb : st.sessionsBorrowed with
    -- nothing is heard any more, and nothing changes
    | true =>
      rw [sessions_exec_of_borrowed _ hb]
      exact hs
    | false =>
      -- the handle is not drawn again, so no session is made under it
      have hne : (st.step C P E c).nextId ≠ st.nextId → st.nextId ≠ handle := by
        rintro hdraws rfl
        exact (hnew.1 hdraws .session).1 (show st.sessions.lookup st.nextId ≠ none from hs ▸ Option.some_ne_none s)
      have hstep := lookup_step hb hs fun _ => hne
      rw [Run.exec_cons, session_exec hstep hnew.2, ← Run.exec_append]
      congr 2
      rw [if_neg Bool.false_ne_true, List.filterMap_cons]
      cases c.messageTo C handle <;> rfl

/-- Where no decryption is malformed, every call is heard. -/
theorem heard_of_wellFormed : ∀ {calls : List (Call M)} {st : Instance B}, st.sessionsBorrowed = false →
    Run.Along (Instance.step C P E) (Instance.WellFormed C) st calls → st.heard C P E calls = calls
  | [], _, _, _ => rfl
  | c :: calls, st, hb, hwell => by
    rw [Instance.heard, hb, if_neg Bool.false_ne_true,
      heard_of_wellFormed ((step_free_iff hb c).2 hwell.1) hwell.2]

end

/-! ## The state of a handle -/

section

variable {st : Instance B} {handle : UInt32}

/-- Unless it is drawn, the handle has the state that it had. -/
def KeepsState (handle : UInt32) (st st' : Instance B) : Prop :=
  (st'.nextId ≠ st.nextId → handle ≠ st.nextId) → st'.mlsStates.lookup handle = st.mlsStates.lookup handle

omit [ByteString B] in
theorem keepsState_of_eq {st' : Instance B} (h : st'.mlsStates = st.mlsStates) :
    KeepsState handle st st' := fun _ => by rw [h]

omit [ByteString B] in
theorem keepsState_storeState {γ : Type} (r : Outcome CryptoError γ) (failed : String)
    (groupState : γ → Bytes) (result : UInt32 → γ → Json.Value) (st : Instance B) :
    KeepsState handle st (storeState C r failed groupState result st).2 := by
  cases r with
  | ok r => exact fun hnew => Finmap.lookup_insert_of_ne _ (hnew (Machine.add_one_ne _))
  | err | panic => exact keepsState_of_eq rfl

omit [ByteString B] in
theorem mlsStates_insertSession (session : Session B) (st : Instance B) :
    (insertSession session st).2.mlsStates = st.mlsStates := by
  unfold insertSession
  simp only
  split <;> rfl

/-- A call that does not destroy the state of the handle. -/
theorem keepsState_step {c : Call M} (hc : c ≠ .mlsDestroyState handle) (st : Instance B) :
    KeepsState handle st (st.step C P E c) := by
  have hrefl : KeepsState handle st st := keepsState_of_eq rfl
  cases c with
  | generateIdentityKeypair | generateOneTimePreKeys | x3dhInitiate | x3dhRespond | sessionEncrypt | sessionDecrypt
  | mlsGenerateKeyPackage => exact keepsState_of_eq rfl
  | generateSignedPreKey secretSeed identityHandle =>
    show KeepsState handle st (generateSignedPreKey C P E secretSeed identityHandle st).2
    unfold generateSignedPreKey
    cases st.identityKeys.lookup identityHandle <;> exact keepsState_of_eq rfl
  | createSessionAlice fresh sharedSecretB64 bobSpkPublicB64 =>
    show KeepsState handle st (createSessionAlice C P fresh sharedSecretB64 bobSpkPublicB64 st).2
    unfold createSessionAlice
    simp only [Session.initAlice_eq]
    refine Outcome.andThen_ofExcept hrefl fun _ _ => Outcome.andThen_ofExcept hrefl fun _ _ =>
      Outcome.andThen_ofExcept hrefl fun _ _ => ?_
    exact keepsState_of_eq (mlsStates_insertSession _ st)
  | createSessionBob sharedSecretB64 spkHandle =>
    show KeepsState handle st (createSessionBob C sharedSecretB64 spkHandle st).2
    refine Outcome.andThen_ofExcept hrefl fun _ _ => ?_
    cases st.spkKeys.lookup spkHandle with
    | none => exact hrefl
    | some spk => exact keepsState_of_eq (mlsStates_insertSession _ st)
  | mlsCreateGroup rng identityB64 =>
    exact Outcome.andThen_ofExcept hrefl fun _ _ => keepsState_storeState _ _ _ _ st
  | mlsRemoveMember rng groupHandle leafIndex =>
    exact Outcome.andThen_ofExcept hrefl fun _ _ => keepsState_storeState _ _ _ _ st
  | mlsAddMember | mlsEncryptMessage | mlsDecryptMessage | mlsProcessWelcome | mlsProcessCommit =>
    exact Outcome.andThen_ofExcept hrefl fun _ _ => Outcome.andThen_ofExcept hrefl fun _ _ =>
      keepsState_storeState _ _ _ _ st
  | mlsDestroyState groupHandle =>
    refine fun _ => Finmap.lookup_erase_ne ?_
    rintro rfl
    exact hc rfl

/-- Whatever is called, the handle has the state that it had, until that is destroyed. -/
theorem state_exec {a : Instance B} (ha : a.mlsStates.lookup handle ≠ none) :
    ∀ {calls : List (Call M)} {st : Instance B}, Run.Along (Instance.step C P E) ((machine M C P E).New a) st calls →
      (.mlsDestroyState handle ∉ calls →
        (Run.exec (Instance.step C P E) st calls).mlsStates.lookup handle = st.mlsStates.lookup handle) ∧
      (.mlsDestroyState handle ∈ calls →
        (Run.exec (Instance.step C P E) st calls).mlsStates.lookup handle = none)
  | [], _, _ => ⟨fun _ => rfl, nofun⟩
  | c :: calls, st, hnew => by
    obtain ⟨hkept, hgone⟩ := state_exec ha hnew.2
    have hstep : c ≠ .mlsDestroyState handle →
        (st.step C P E c).mlsStates.lookup handle = st.mlsStates.lookup handle := by
      refine fun hc => keepsState_step hc st fun hdraws => ?_
      rintro rfl
      exact (hnew.1 hdraws .state).2 ha
    refine ⟨fun hmem => ?_, fun hmem => ?_⟩
    · rw [List.mem_cons, not_or] at hmem
      exact (hkept hmem.2).trans (hstep (Ne.symm hmem.1))
    -- it is gone with the last of the calls that destroy it
    · by_cases hlater : .mlsDestroyState handle ∈ calls
      · exact hgone hlater
      · obtain rfl := (List.mem_cons.1 hmem).resolve_right hlater
        exact (hkept hlater).trans (Finmap.lookup_erase handle st.mlsStates)

end

/-! ## What stays -/

variable (C P E) in
/-- What `later` calls have made `b` of `a`: every key of `a` is in `b` under its handle; every session too, after the
messages of its own handle that were heard; and every group state, unless it was destroyed. -/
structure Extends (later : List (Call M)) (a b : Instance B) : Prop extends KeepsKeys a b where
  session : ∀ h s, a.sessions.lookup h = some s → b.sessions.lookup h =
    some (Run.exec (Session.call P) s ((a.heard C P E later).filterMap (Call.messageTo C h)))
  state : ∀ h bytes, a.mlsStates.lookup h = some bytes → .mlsDestroyState h ∉ later → b.mlsStates.lookup h = some bytes
  destroyed : ∀ h bytes, a.mlsStates.lookup h = some bytes → .mlsDestroyState h ∈ later → b.mlsStates.lookup h = none

/-- From the start, as long as no more than `2^32` handles are drawn: whatever is called later, an instance
extends what it was. -/
theorem run_extends (calls later : List (Call M))
    (hdraws : (machine M C P E).drawsOf Instance.empty (calls ++ later) ≤ 2 ^ 32) :
    Extends C P E later (Run.exec (Instance.step C P E) Instance.empty calls)
      (Run.exec (Instance.step C P E) Instance.empty (calls ++ later)) := by
  rw [Machine.drawsOf_append] at hdraws
  have hnumbered := numbered_run calls (show (machine M C P E).drawsOf Instance.empty calls ≤ 2 ^ 32 by omega)
  have hnew := hnumbered.new_along hdraws hnumbered.drawn
  rw [Run.exec_append]
  refine ⟨(KeepsKeys.refl _).exec hnew, fun h s hs => session_exec hs hnew, fun h bytes hl hmem => ?_,
    fun h bytes hl => ?_⟩
  · exact ((state_exec (hl ▸ Option.some_ne_none bytes) hnew).1 hmem).trans hl
  · exact (state_exec (hl ▸ Option.some_ne_none bytes) hnew).2

/-- The first identity, after its signed pre-key was made. -/
theorem run_extends_identity :
    let calls : List (Call Mls.Reference.crates) := [.generateIdentityKeypair (Sample.bytes32 1) ⟨Sample.bytes32 2⟩]
    let later : List (Call Mls.Reference.crates) := [.generateSignedPreKey (Sample.bytes32 3) 1]
    (Run.exec (Instance.step Sample.crates Sample.aead Sample.naming) Instance.empty
      (calls ++ later)).identityKeys.lookup 1 = some (.generate Sample.aead (Sample.bytes32 1) ⟨Sample.bytes32 2⟩) :=
  (run_extends _ _ ((Kinds.Machine.drawsOf_le_length _ _ _).trans (by decide))).identity 1 _ (Finmap.lookup_insert _)

/-- From the start, as long as no more than `2^32` handles are drawn and no decryption is malformed: a session
is what the messages under its own handle, in the order of their calls, have made of it. -/
theorem session_messages (calls later : List (Call M))
    (hdraws : (machine M C P E).drawsOf Instance.empty (calls ++ later) ≤ 2 ^ 32)
    (hwell : Run.Along (Instance.step C P E) (Instance.WellFormed C) Instance.empty (calls ++ later)) {handle : UInt32}
    {s : Session B} (hs : (Run.exec (Instance.step C P E) Instance.empty calls).sessions.lookup handle = some s) :
    (Run.exec (Instance.step C P E) Instance.empty (calls ++ later)).sessions.lookup handle =
      some (Run.exec (Session.call P) s (later.filterMap (Call.messageTo C handle))) := by
  rw [Run.along_append] at hwell
  rw [Machine.drawsOf_append] at hdraws
  have hnumbered := numbered_run calls (show (machine M C P E).drawsOf Instance.empty calls ≤ 2 ^ 32 by omega)
  have hfree := (exec_free_iff calls).2 hwell.1
  rw [Run.exec_append, session_exec hs (hnumbered.new_along hdraws hnumbered.drawn), heard_of_wellFormed hfree hwell.2]

/-- The first session, after one message was sent in it. -/
theorem session_messages_first :
    let calls : List (Call Mls.Reference.crates) :=
      [.createSessionAlice Sample.aliceSecret (Base64.encodeString [])
        (Base64.encodeString Sample.spk.x25519Public.toVec)]
    let later : List (Call Mls.Reference.crates) := [.sessionEncrypt Sample.nonce 1 (Base64.encodeString [7])]
    ∃ s, Session.initAlice Sample.aead Sample.aliceSecret (ByteString.ofBytes []) Sample.spk.x25519Public = .ok s ∧
      (Run.exec (Instance.step Sample.crates Sample.aead Sample.naming) Instance.empty (calls ++ later)).sessions.lookup
        1 = some (s.encrypt Sample.aead Sample.nonce [7]).2 := by
  intro calls later
  have hcall := createSessionAlice_of_free (C := Sample.crates) (P := Sample.aead)
    (show (Instance.empty : Instance Key).sessionsBorrowed = false from rfl) Sample.aliceSecret
    (Base64.decodeString_encodeString []) (Base64.decodeString_encodeString Sample.spk.x25519Public.toVec)
    (Session.initAlice_eq ..)
  refine ⟨_, Session.initAlice_eq .., ?_⟩
  have hs : (Run.exec (Instance.step Sample.crates Sample.aead Sample.naming) Instance.empty calls).sessions.lookup 1 =
      some _ := (congrArg (fun x => x.2.sessions.lookup 1) hcall).trans (Finmap.lookup_insert _)
  have hmessages : later.filterMap (Call.messageTo Sample.crates 1) = [.encrypt Sample.nonce [7]] := by
    simp [later, Call.messageTo, Base64.decodeString_encodeString]
  have hlookup := session_messages calls later ((Kinds.Machine.drawsOf_le_length _ _ _).trans (by decide))
    ⟨trivial, trivial, trivial⟩ hs
  rw [hmessages] at hlookup
  exact hlookup

end GhostCrypt.Wasm
