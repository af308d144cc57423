/-
The handles of an instance. One counter serves all four stores, so a handle stands for an object of one
kind, and a call that is given a handle of another kind refuses it and changes nothing.
-/
import GhostCrypt.Wasm.Calls
import GhostCrypt.Wasm.Decoding
import GhostCrypt.Lib.Kinds
import GhostCrypt.Mls.Reference

namespace GhostCrypt.Wasm

open Identity Ratchet X3dh
open Json (Value)
open Json.Value (json)

variable {B : Type}

/-! ## Kinds -/

/-- The kinds of objects an instance keeps. -/
inductive Kind
  | identity
  | signedPreKey
  | session
  | state
  deriving DecidableEq

/-- The handle has an object of the kind. -/
def Instance.Live (st : Instance B) : Kind → UInt32 → Prop
  | .identity, h => st.identityKeys.lookup h ≠ none
  | .signedPreKey, h => st.spkKeys.lookup h ≠ none
  | .session, h => st.sessions.lookup h ≠ none
  | .state, h => st.mlsStates.lookup h ≠ none

variable {M : Mls.OpenMls}

/-- The handles a call names, and the kinds it takes them for. -/
def Call.uses : Call M → List (Kind × UInt32)
  | .generateSignedPreKey _ h | .x3dhInitiate _ h _ => [(.identity, h)]
  | .x3dhRespond h h' _ _ => [(.identity, h), (.signedPreKey, h')]
  | .createSessionBob _ h => [(.signedPreKey, h)]
  | .sessionEncrypt _ h _ | .sessionDecrypt _ h _ _ _ => [(.session, h)]
  | .mlsAddMember _ h _ | .mlsRemoveMember _ h _ | .mlsEncryptMessage _ h _ | .mlsDecryptMessage h _
  | .mlsProcessCommit h _ | .mlsDestroyState h => [(.state, h)]
  | _ => []

/-- The kind of the object a call makes. -/
def Call.makes : Call M → Option Kind
  | .generateIdentityKeypair _ _ => some .identity
  | .generateSignedPreKey _ _ => some .signedPreKey
  | .createSessionAlice _ _ _ | .createSessionBob _ _ => some .session
  | .mlsCreateGroup _ _ | .mlsAddMember _ _ _ | .mlsRemoveMember _ _ _ | .mlsEncryptMessage _ _ _
  | .mlsDecryptMessage _ _ | .mlsProcessWelcome _ _ | .mlsProcessCommit _ _ => some .state
  | _ => none

/-- The call returned no object and no text: an error, a panic, or that there was nothing to remove. -/
def Refused (r : Outcome String Returned) : Prop := ∀ a, r = .ok a → a = .removed false

/-! ## Handles in use -/

variable [ByteString B] {C : Crates B} {P : Primitives B} {E : Ed25519}

theorem lookup_insert_ne_none {V : Type} {m : Finmap fun _ : UInt32 => V} {k h : UInt32} {v : V}
    (hl : (m.insert k v).lookup h ≠ none) : m.lookup h ≠ none ∨ h = k := by
  rw [Handles.lookup_insert_eq] at hl
  by_cases heq : h = k
  · exact .inr heq
  · rw [if_neg heq] at hl
    exact .inl hl

theorem lookup_insert_self_ne_none {V : Type} (m : Finmap fun _ : UInt32 => V) (k : UInt32) (v : V) :
    (m.insert k v).lookup k ≠ none := by
  rw [Finmap.lookup_insert]
  exact Option.some_ne_none v

theorem erase_of_lookup_eq_none {V : Type} {m : Finmap fun _ : UInt32 => V} {k : UInt32} (h : m.lookup k = none) :
    m.erase k = m := by
  apply Finmap.ext_lookup
  intro i
  rw [Handles.lookup_erase_eq]
  split
  · rename_i heq
    rw [heq, h]
  · rfl

/-- Each change draws no handle, or makes an object of one kind under the next. -/
theorem Change.kinds {st st' : Instance B} (h : Change P E st st') :
    Kinds.Step st.Live st.nextId st'.Live st'.nextId := by
  cases h with
  | nothing => exact .keep fun _ _ hl => hl
  | identity secretSeed signingKey =>
    refine .draw .identity fun k h hl => ?_
    cases k with
    | identity => exact (lookup_insert_ne_none hl).imp_right fun heq => ⟨rfl, heq⟩
    | signedPreKey | session | state => exact .inl hl
  | signedPreKey _ identity secretSeed =>
    refine .draw .signedPreKey fun k h hl => ?_
    cases k with
    | signedPreKey => exact (lookup_insert_ne_none hl).imp_right fun heq => ⟨rfl, heq⟩
    | identity | session | state => exact .inl hl
  | session sharedSecret s =>
    refine .draw .session fun k h hl => ?_
    cases k with
    | session => exact (lookup_insert_ne_none hl).imp_right fun heq => ⟨rfl, heq⟩
    | identity | signedPreKey | state => exact .inl hl
  | wasted => exact .draw .session fun k h hl => .inl (by cases k <;> exact hl)
  | message h s c borrowed _ hs =>
    refine .keep fun k i hl => ?_
    cases k with
    | session =>
      rcases lookup_insert_ne_none hl with hold | rfl
      · exact hold
      · show st.sessions.lookup i ≠ none
        rw [hs]
        exact Option.some_ne_none s
    | identity | signedPreKey | state => exact hl
  | state bytes =>
    refine .draw .state fun k h hl => ?_
    cases k with
    | state => exact (lookup_insert_ne_none hl).imp_right fun heq => ⟨rfl, heq⟩
    | identity | signedPreKey | session => exact .inl hl
  | removed h =>
    refine .keep fun k i hl => ?_
    cases k with
    | state =>
      show st.mlsStates.lookup i ≠ none
      intro hnone
      apply hl
      show (st.mlsStates.erase h).lookup i = none
      rw [Handles.lookup_erase_eq, hnone, ite_self]
    | identity | signedPreKey | session => exact hl

variable (M C P E) in
/-- The instance as a machine whose calls draw handles. -/
def machine : Kinds.Machine (Instance B) (Call M) Kind where
  step := Instance.step C P E
  live := Instance.Live
  next := Instance.nextId
  steps st c := (step_change st c).kinds

/-- The handles drawn from the start. -/
theorem numbered_empty : (machine M C P E).Numbered 1 0 Instance.empty :=
  .start rfl fun k h hl => by cases k <;> exact hl rfl

theorem numbered_run (calls : List (Call M)) (hdraws : (machine M C P E).drawsOf Instance.empty calls ≤ 2 ^ 32) :
    (machine M C P E).Numbered 1 ((machine M C P E).drawsOf Instance.empty calls)
      (Run.exec (Instance.step C P E) Instance.empty calls) := by
  have hrun := Kinds.Machine.Numbered.exec (numbered_empty (M := M) (C := C) (P := P) (E := E))
    (show 0 + (machine M C P E).drawsOf Instance.empty calls ≤ 2 ^ 32 by omega)
  rwa [Nat.zero_add] at hrun

/-! ## Handles of another kind -/

/-- The call returned nothing and left the instance as it was. -/
def Fails {α : Type} (x : Outcome String α × Instance B) (st : Instance B) : Prop := (∀ a, x.1 ≠ .ok a) ∧ x.2 = st

omit [ByteString B] in
theorem Fails.error {α : Type} (e : String) (st : Instance B) : Fails (.err e, st) st (α := α) := ⟨fun _ => nofun, rfl⟩

omit [ByteString B] in
theorem Fails.andThen {α β : Type} {x : Except String α} {st : Instance B}
    {f : α → Instance B → Outcome String β × Instance B} (hf : ∀ a, Fails (f a st) st) :
    Fails (Outcome.andThen (.ofExcept x, st) f) st := by
  cases x with
  | ok a => exact hf a
  | error e => exact .error e st

omit [ByteString B] in
theorem Fails.stateOf {β : Type} {h : UInt32} {st : Instance B} {f : Bytes → Instance B → Outcome String β × Instance B}
    (hl : ¬ st.Live .state h) : Fails (Outcome.andThen (.ofExcept (stateOf h st), st) f) st := by
  unfold Wasm.stateOf
  rw [not_not.1 hl]
  exact .error _ st

omit [ByteString B] in
theorem withSession_of_not_live {α : Type} {h : UInt32} {st : Instance B} (hl : ¬ st.Live .session h) (failed : String)
    (f : Session B → Outcome CryptoError α × Session B) :
    ∃ r : Outcome String α, (∀ a, r ≠ .ok a) ∧ withSession h failed f st.toStore = (r, st.toStore) := by
  unfold withSession
  cases st.sessionsBorrowed with
  | true => exact ⟨.panic, fun _ => nofun, rfl⟩
  | false =>
    rw [show st.toStore.sessions.lookup h = none from not_not.1 hl]
    exact ⟨.err _, fun _ => nofun, rfl⟩

omit [ByteString B] in
theorem Fails.withSession {α β : Type} {h : UInt32} {st : Instance B} (hl : ¬ st.Live .session h) {failed : String}
    {f : Session B → Outcome CryptoError α × Session B} {g : α → Store B → Outcome String β × Store B} :
    Fails (onStore (fun st => Outcome.andThen (Wasm.withSession h failed f st) g) st) st := by
  obtain ⟨r, hr, hsession⟩ := withSession_of_not_live hl failed f
  simp only [onStore, hsession]
  cases r with
  | ok a => exact absurd rfl (hr a)
  | err e => exact .error e st
  | panic => exact ⟨fun _ h => (by cases h), rfl⟩

omit [ByteString B] in
theorem Fails.refused {α : Type} {x : Outcome String α × Instance B} {st : Instance B} (h : Fails x st)
    (f : α → Returned) : Refused (x.map (·.map f) id).1 ∧ (x.map (·.map f) id).2 = st := by
  obtain ⟨a | e | _, st'⟩ := x
  · exact absurd rfl (h.1 a)
  · exact ⟨fun _ => nofun, h.2⟩
  · exact ⟨fun _ => nofun, h.2⟩

/-- A call on a handle without an object of the kind it takes it for is refused. -/
theorem call_of_not_live {st : Instance B} {c : Call M} {k : Kind} {h : UInt32} (hu : (k, h) ∈ c.uses)
    (hl : ¬ st.Live k h) : Refused (st.call C P E c).1 ∧ st.step C P E c = st := by
  cases c with
  | generateIdentityKeypair | generateOneTimePreKeys | createSessionAlice | mlsGenerateKeyPackage | mlsCreateGroup
  | mlsProcessWelcome => cases hu
  | generateSignedPreKey secretSeed identityHandle =>
    obtain ⟨rfl, rfl⟩ := Prod.mk.inj (List.mem_singleton.1 hu)
    refine Fails.refused (x := generateSignedPreKey C P E secretSeed h st) ?_ _
    unfold generateSignedPreKey
    rw [show st.identityKeys.lookup h = none from not_not.1 hl]
    exact .error _ st
  | x3dhInitiate ephemeralSecret identityHandle bobBundleJson =>
    obtain ⟨rfl, rfl⟩ := Prod.mk.inj (List.mem_singleton.1 hu)
    have hnone : st.identityKeys.lookup h = none := not_not.1 hl
    refine ⟨?_, rfl⟩
    simp only [Instance.call]
    cases hr : x3dhInitiate C E P ephemeralSecret h bobBundleJson st.toStore with
    | error e => exact fun _ heq => nomatch heq
    | ok text =>
      obtain ⟨bundle, -, h⟩ := except_bind_eq_ok.1 hr
      obtain ⟨identity, r, hidentity, -⟩ := initiateWith_eq_ok.1 h
      rw [hnone] at hidentity
      cases hidentity
  | x3dhRespond identityHandle spkHandle aliceIdentityKeyB64 aliceEphemeralKeyB64 =>
    refine ⟨?_, rfl⟩
    simp only [Instance.call]
    cases hr : x3dhRespond C P identityHandle spkHandle aliceIdentityKeyB64 aliceEphemeralKeyB64 st with
    | error e => exact fun _ heq => nomatch heq
    | ok text =>
      obtain ⟨_, _, identity, spk, -, -, hidentity, hspk, -⟩ := x3dhRespond_eq_ok.1 hr
      rcases List.mem_cons.1 hu with heq | hmem
      · obtain ⟨rfl, rfl⟩ := Prod.mk.inj heq
        exact absurd hidentity (not_not.1 hl ▸ nofun)
      · obtain ⟨rfl, rfl⟩ := Prod.mk.inj (List.mem_singleton.1 hmem)
        exact absurd hspk (not_not.1 hl ▸ nofun)
  | createSessionBob sharedSecretB64 spkHandle =>
    obtain ⟨rfl, rfl⟩ := Prod.mk.inj (List.mem_singleton.1 hu)
    refine Fails.refused (x := createSessionBob C sharedSecretB64 h st) ?_ _
    unfold createSessionBob
    apply Fails.andThen
    intro sharedSecret
    rw [show st.spkKeys.lookup h = none from not_not.1 hl]
    exact .error _ st
  | sessionEncrypt nonce sessionHandle plaintextB64 =>
    obtain ⟨rfl, rfl⟩ := Prod.mk.inj (List.mem_singleton.1 hu)
    refine Fails.refused (x := onStore (sessionEncrypt C P nonce h plaintextB64) st) ?_ _
    unfold sessionEncrypt
    rw [onStore_andThen]
    exact .andThen fun plaintext => .withSession hl
  | sessionDecrypt fresh sessionHandle headerJson ciphertextB64 nonceB64 =>
    obtain ⟨rfl, rfl⟩ := Prod.mk.inj (List.mem_singleton.1 hu)
    refine Fails.refused (x := onStore (sessionDecrypt C P fresh h headerJson ciphertextB64 nonceB64) st) ?_ _
    unfold sessionDecrypt decryptWith
    rw [onStore_andThen]
    apply Fails.andThen
    intro header
    rw [onStore_andThen]
    apply Fails.andThen
    intro ciphertext
    rw [onStore_andThen]
    exact .andThen fun nonce => .withSession hl
  | mlsAddMember rng groupHandle keyPackageB64 =>
    obtain ⟨rfl, rfl⟩ := Prod.mk.inj (List.mem_singleton.1 hu)
    exact (Fails.andThen fun keyPackage => .stateOf hl).refused _
  | mlsRemoveMember rng groupHandle leafIndex =>
    obtain ⟨rfl, rfl⟩ := Prod.mk.inj (List.mem_singleton.1 hu)
    exact (Fails.stateOf hl).refused _
  | mlsEncryptMessage rng groupHandle plaintextB64 =>
    obtain ⟨rfl, rfl⟩ := Prod.mk.inj (List.mem_singleton.1 hu)
    exact (Fails.andThen fun plaintext => .stateOf hl).refused _
  | mlsDecryptMessage groupHandle mlsMessageB64 =>
    obtain ⟨rfl, rfl⟩ := Prod.mk.inj (List.mem_singleton.1 hu)
    exact (Fails.andThen fun mlsMessage => .stateOf hl).refused _
  | mlsProcessCommit groupHandle commitB64 =>
    obtain ⟨rfl, rfl⟩ := Prod.mk.inj (List.mem_singleton.1 hu)
    exact (Fails.andThen fun commit => .stateOf hl).refused _
  | mlsDestroyState groupHandle =>
    obtain ⟨rfl, rfl⟩ := Prod.mk.inj (List.mem_singleton.1 hu)
    have hnone : st.mlsStates.lookup h = none := not_not.1 hl
    refine ⟨?_, ?_⟩
    · rintro _ ⟨⟩
      rw [hnone]
      rfl
    · show { st with mlsStates := st.mlsStates.erase h } = st
      rw [erase_of_lookup_eq_none hnone]

/-- From the start, as long as no more than `2^32` handles were drawn: a call that is given a handle of
an object of another kind refuses it and changes nothing. -/
theorem wrong_kind_refused (calls : List (Call M)) (hdraws : (machine M C P E).drawsOf Instance.empty calls ≤ 2 ^ 32)
    {c : Call M} {k j : Kind} {h : UInt32} (hu : (k, h) ∈ c.uses)
    (hlive : (Run.exec (Instance.step C P E) Instance.empty calls).Live j h) (hne : j ≠ k) :
    Refused ((Run.exec (Instance.step C P E) Instance.empty calls).call C P E c).1 ∧
      Run.exec (Instance.step C P E) Instance.empty (calls ++ [c]) =
        Run.exec (Instance.step C P E) Instance.empty calls := by
  have hnumbered := numbered_run calls hdraws
  have hnot : ¬ (Run.exec (Instance.step C P E) Instance.empty calls).Live k h :=
    fun hl => hne (hnumbered.exclusive j k h hlive hl)
  rw [Run.exec_append]
  exact call_of_not_live hu hnot

/-- The handle of an identity, given for that of a session. -/
theorem wrong_kind_refused_identity :
    let calls : List (Call Mls.Reference.crates) := [.generateIdentityKeypair (Sample.bytes32 1) ⟨Sample.bytes32 2⟩]
    let st := Run.exec (Instance.step Sample.crates Sample.aead Sample.naming) Instance.empty calls
    let c : Call Mls.Reference.crates := .sessionEncrypt Sample.nonce 1 "BwcH"
    Refused (st.call Sample.crates Sample.aead Sample.naming c).1 ∧
      Run.exec (Instance.step Sample.crates Sample.aead Sample.naming) Instance.empty (calls ++ [c]) = st :=
  wrong_kind_refused _ ((Kinds.Machine.drawsOf_le_length _ _ _).trans (by decide)) (k := .session) (h := 1)
    (List.mem_singleton_self _) (lookup_insert_self_ne_none (k := 1) _ _) (j := .identity) (by decide)

/-! ## New handles -/

@[simp] theorem readable_b64 (d : ℕ) (bytes : Bytes) : (b64 bytes).Readable (d + 1) := trivial

@[simp] theorem readable_u64 (d n : ℕ) : (u64 n).Readable (d + 1) := trivial

variable (C) in
/-- The handle that the caller reads from what a call returned. -/
def Carries (r : Returned) (h : UInt32) : Prop :=
  r = .handle h ∨ ∃ text value, r = .text text ∧ C.fromStr text = .ok value ∧
    value.get "handle" = .posInt h.toUInt64

variable (C) in
/-- If the call returns, it returns the next handle, under which there is now an object of the kind. -/
def Made {α : Type} (f : α → Returned) (k : Kind) (st : Instance B) (x : Outcome String α × Instance B) : Prop :=
  ∀ a, x.1 = .ok a → Carries C (f a) st.nextId ∧ x.2.Live k st.nextId

omit [ByteString B] in
theorem Made.andThen {α β : Type} {f : β → Returned} {k : Kind} {st : Instance B} {x : Except String α}
    {g : α → Instance B → Outcome String β × Instance B} (hg : ∀ a, Made C f k st (g a st)) :
    Made C f k st (Outcome.andThen (.ofExcept x, st) g) := by
  cases x with
  | ok a => exact hg a
  | error e => exact fun _ => nofun

/-- The other entries of a result that names a handle. -/
def Beside (rest : List (String × Value)) : Prop := ∀ e ∈ rest, e.1 ≠ "handle" ∧ e.2.Readable 126

omit [ByteString B] in
theorem carries_of_serialize (hC : C.Lawful) {h : UInt32} {rest : List (String × Value)} (hrest : Beside rest)
    {text : String} (htext : C.serialize (json (handleEntry h :: rest)) = .ok text) : Carries C (.text text) h := by
  have hreadable : (json (handleEntry h :: rest)).Readable 127 := by
    apply Value.readable_json
    intro e he
    rcases List.mem_cons.1 he with rfl | he
    · trivial
    · exact (hrest e he).2
  have hget : (json (handleEntry h :: rest)).get "handle" = .posInt h.toUInt64 := by
    have hnone : rest.reverse.lookup "handle" = none := by
      rw [List.lookup_eq_none_iff]
      intro e he
      simpa using (hrest e (List.mem_reverse.1 he)).1.symm
    rw [Value.get_json, List.reverse_cons, List.lookup_append, hnone]
    rfl
  obtain ⟨text', hto, hfrom⟩ := serialize_of_readable hC hreadable
  obtain rfl := Except.ok.inj (htext.symm.trans hto)
  exact .inr ⟨text, _, rfl, hfrom, hget⟩

omit [ByteString B] in
theorem Made.result (hC : C.Lawful) {rest : List (String × Value)} (hrest : Beside rest) {k : Kind}
    {st st' : Instance B} (hlive : st'.Live k st.nextId) :
    Made C .text k st (.ofExcept (C.serialize (json (handleEntry st.nextId :: rest))), st') :=
  fun _ htext => ⟨carries_of_serialize hC hrest (Outcome.ofExcept_eq_ok.1 htext), hlive⟩

omit [ByteString B] in
theorem Made.storeState (hC : C.Lawful) {α : Type} {r : Outcome CryptoError α} {failed : String}
    {groupState : α → Bytes} {rest : α → List (String × Value)} (hrest : ∀ a, Beside (rest a)) (st : Instance B) :
    Made C .text .state st
      (storeState C r failed groupState (fun h a => json (handleEntry h :: rest a)) st) := by
  cases r with
  | ok a =>
    exact .result (k := .state) hC (hrest a) (lookup_insert_self_ne_none _ _ _)
  | err e => exact fun _ => nofun
  | panic => exact fun _ => nofun

omit [ByteString B] in
theorem Made.insertSession (session : Session B) (st : Instance B) :
    Made C .handle .session st (insertSession session st) := by
  intro h hr
  unfold Wasm.insertSession at hr ⊢
  cases hb : st.draw.sessionsBorrowed with
  | true => simp [hb] at hr
  | false =>
    simp only [hb] at hr ⊢
    obtain rfl := Outcome.ok.inj hr
    exact ⟨.inl rfl, lookup_insert_self_ne_none _ _ _⟩

omit [ByteString B] in
theorem Made.of_map {α : Type} {f : α → Returned} {k : Kind} {st : Instance B} {x : Outcome String α × Instance B}
    (h : Made C f k st x) {r : Returned} (hr : (x.map (·.map f) id).1 = .ok r) :
    Carries C r st.nextId ∧ (x.map (·.map f) id).2.Live k st.nextId := by
  obtain ⟨a, ha, rfl⟩ := Outcome.map_eq_ok.1 hr
  exact h a ha

theorem call_makes (hC : C.Lawful) {st : Instance B} {c : Call M} {k : Kind} (hmakes : c.makes = some k) {r : Returned}
    (hr : (st.call C P E c).1 = .ok r) : Carries C r st.nextId ∧ (st.step C P E c).Live k st.nextId := by
  cases c with
  | generateOneTimePreKeys | x3dhInitiate | x3dhRespond | sessionEncrypt | sessionDecrypt | mlsGenerateKeyPackage
  | mlsDestroyState => cases hmakes
  | generateIdentityKeypair secretSeed signingKey =>
    obtain rfl := Option.some.inj hmakes
    exact Made.of_map (x := generateIdentityKeypair C P E secretSeed signingKey st)
      (.result (k := .identity) hC (by simp [Beside]) (lookup_insert_self_ne_none _ _ _)) hr
  | generateSignedPreKey secretSeed identityHandle =>
    obtain rfl := Option.some.inj hmakes
    refine Made.of_map (x := generateSignedPreKey C P E secretSeed identityHandle st) ?_ hr
    unfold generateSignedPreKey
    cases st.identityKeys.lookup identityHandle with
    | none => exact fun _ => nofun
    | some identity => exact .result (k := .signedPreKey) hC (by simp [Beside]) (lookup_insert_self_ne_none _ _ _)
  | createSessionAlice fresh sharedSecretB64 bobSpkPublicB64 =>
    obtain rfl := Option.some.inj hmakes
    refine Made.of_map (x := createSessionAlice C P fresh sharedSecretB64 bobSpkPublicB64 st) ?_ hr
    refine .andThen fun sharedSecret => .andThen fun bobSpkBytes => .andThen fun keyBytes => ?_
    simp only [Session.initAlice_eq]
    exact .insertSession _ st
  | createSessionBob sharedSecretB64 spkHandle =>
    obtain rfl := Option.some.inj hmakes
    refine Made.of_map (x := createSessionBob C sharedSecretB64 spkHandle st) (.andThen fun sharedSecret => ?_) hr
    cases st.spkKeys.lookup spkHandle with
    | none => exact fun _ => nofun
    | some spk => exact .insertSession _ st
  | mlsCreateGroup rng identityB64 =>
    obtain rfl := Option.some.inj hmakes
    exact Made.of_map (x := mlsCreateGroup C M rng identityB64 st)
      (.andThen fun _ => .storeState hC (fun r => by simp [Beside]) st) hr
  | mlsAddMember rng groupHandle keyPackageB64 =>
    obtain rfl := Option.some.inj hmakes
    exact Made.of_map (x := mlsAddMember C M rng groupHandle keyPackageB64 st) (.andThen fun _ => .andThen fun _ =>
      .storeState hC (fun r => by simp [Beside]) st) hr
  | mlsRemoveMember rng groupHandle leafIndex =>
    obtain rfl := Option.some.inj hmakes
    exact Made.of_map (x := mlsRemoveMember C M rng groupHandle leafIndex st)
      (.andThen fun _ => .storeState hC (fun r => by simp [Beside]) st) hr
  | mlsEncryptMessage rng groupHandle plaintextB64 =>
    obtain rfl := Option.some.inj hmakes
    exact Made.of_map (x := mlsEncryptMessage C M rng groupHandle plaintextB64 st) (.andThen fun _ => .andThen fun _ =>
      .storeState hC (fun r => by simp [Beside]) st) hr
  | mlsDecryptMessage groupHandle mlsMessageB64 =>
    obtain rfl := Option.some.inj hmakes
    exact Made.of_map (x := mlsDecryptMessage C M groupHandle mlsMessageB64 st) (.andThen fun _ => .andThen fun _ =>
      .storeState hC (fun r => by simp [Beside]) st) hr
  | mlsProcessWelcome welcomeB64 secretBundleB64 =>
    obtain rfl := Option.some.inj hmakes
    exact Made.of_map (x := mlsProcessWelcome C M welcomeB64 secretBundleB64 st) (.andThen fun _ => .andThen fun _ =>
      .storeState hC (fun r => by simp [Beside]) st) hr
  | mlsProcessCommit groupHandle commitB64 =>
    obtain rfl := Option.some.inj hmakes
    exact Made.of_map (x := mlsProcessCommit C M groupHandle commitB64 st) (.andThen fun _ => .andThen fun _ =>
      .storeState hC (fun r => by simp [Beside]) st) hr

/-- From the start, as long as fewer than `2^32` handles were drawn: a call that makes an object returns a
handle under which no store had one, and under which there is one now, of its kind alone. -/
theorem new_handle (hC : C.Lawful) (calls : List (Call M))
    (hdraws : (machine M C P E).drawsOf Instance.empty calls < 2 ^ 32) {c : Call M} {k : Kind}
    (hmakes : c.makes = some k) {r : Returned}
    (hr : ((Run.exec (Instance.step C P E) Instance.empty calls).call C P E c).1 = .ok r) :
    ∃ h, Carries C r h ∧ (∀ k', ¬ (Run.exec (Instance.step C P E) Instance.empty calls).Live k' h) ∧
      ∀ k', (Run.exec (Instance.step C P E) Instance.empty (calls ++ [c])).Live k' h ↔ k' = k := by
  have hnumbered := numbered_run calls hdraws.le
  obtain ⟨hcarries, hlive⟩ := call_makes hC hmakes hr
  have hone : (machine M C P E).draws (Run.exec (Instance.step C P E) Instance.empty calls) c ≤ 1 := by
    unfold Kinds.Machine.draws
    split <;> omega
  have hafter := hnumbered.step c (by omega)
  rw [Run.exec_append]
  refine ⟨_, hcarries, hnumbered.not_live_next hdraws, fun k' => ⟨fun hl => ?_, ?_⟩⟩
  · exact hafter.exclusive k' k _ hl hlive
  · rintro rfl
    exact hlive

/-- The first identity and its signed pre-key. -/
theorem new_handle_signedPreKey :
    let calls : List (Call Mls.Reference.crates) := [.generateIdentityKeypair (Sample.bytes32 1) ⟨Sample.bytes32 2⟩]
    let c : Call Mls.Reference.crates := .generateSignedPreKey (Sample.bytes32 3) 1
    let st := Run.exec (Instance.step Sample.crates Sample.aead Sample.naming) Instance.empty calls
    ∃ r h, (st.call Sample.crates Sample.aead Sample.naming c).1 = .ok r ∧ Carries Sample.crates r h ∧
      (∀ k, ¬ st.Live k h) ∧
      ∀ k, (Run.exec (Instance.step Sample.crates Sample.aead Sample.naming) Instance.empty (calls ++ [c])).Live k h ↔
        k = .signedPreKey := by
  intro calls c st
  have hlookup : st.identityKeys.lookup 1 =
      some (.generate Sample.aead (Sample.bytes32 1) ⟨Sample.bytes32 2⟩) := Finmap.lookup_insert _
  obtain ⟨r, hr⟩ : ∃ r, (st.call Sample.crates Sample.aead Sample.naming c).1 = .ok r := by
    simp only [c, Instance.call, generateSignedPreKey, hlookup]
    exact ⟨_, rfl⟩
  obtain ⟨h, hcarries, hbefore, hafter⟩ := new_handle Sample.crates_lawful calls
    ((Kinds.Machine.drawsOf_le_length _ _ _).trans_lt (by decide)) (c := c) (k := .signedPreKey) rfl hr
  exact ⟨r, h, hr, hcarries, hbefore, hafter⟩

end GhostCrypt.Wasm
