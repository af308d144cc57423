/-
Group states on both surfaces. A client that calls the MLS functions, natively or from a page, learns what
members that hold their groups in memory would tell it, as long as nobody else destroys its states.
-/
import GhostCrypt.Api.Keeper
import GhostCrypt.Network.Keys

namespace GhostCrypt.Network

open Mls (Setup Request Reply Loaded loadState blobs live ofCall)
open Versions (Keeper Client Action Shelf)
open Json (Value)
open Json.Value (json)

variable {B : Type} (C : Wasm.Crates B) (M : Mls.OpenMls)

/-! ## The calls of a page -/

/-- The entries of a result, the handle apart. -/
def WasmTells (value : Value) : Reply → Prop
  | .keyPackage keyPackage secretBundle =>
    Wasm.Holds value "key_package" keyPackage ∧ Wasm.Holds value "secret_bundle" secretBundle
  | .group groupId epoch => Wasm.Holds value "group_id" groupId ∧ value.get "epoch" = Wasm.u64 epoch
  | .added commit welcome epoch =>
    Wasm.Holds value "commit" commit ∧ Wasm.Holds value "welcome" welcome ∧ value.get "epoch" = Wasm.u64 epoch
  | .removed commit epoch => Wasm.Holds value "commit" commit ∧ value.get "epoch" = Wasm.u64 epoch
  | .encrypted mlsCiphertext epoch =>
    Wasm.Holds value "mls_ciphertext" mlsCiphertext ∧ value.get "epoch" = Wasm.u64 epoch
  | .decrypted plaintext => Wasm.Holds value "plaintext" plaintext
  | .committed epoch => value.get "epoch" = Wasm.u64 epoch

/-- The result is the JSON of the reply, or ends in the text of the error. -/
inductive WasmSays : Outcome String String → Outcome CryptoError Reply → Prop
  | ok {text value reply} : C.fromStr text = .ok value → WasmTells value reply → WasmSays (.ok text) (.ok reply)
  | err (failed : String) (e : CryptoError) : WasmSays (.err (failed ++ ": " ++ e.display)) (.err e)
  | panic : WasmSays .panic .panic

variable {M}

/-- A call without a state. -/
def wasmSetup (st : Wasm.Instance B) : Setup M → Outcome String String × Wasm.Instance B
  | .keyPackage rng identity => (Wasm.mlsGenerateKeyPackage C M rng (Base64.encodeString identity), st)
  | .create rng identity => Wasm.mlsCreateGroup C M rng (Base64.encodeString identity) st
  | .join welcome secretBundle =>
    Wasm.mlsProcessWelcome C M (Base64.encodeString welcome) (Base64.encodeString secretBundle) st

/-- A call on the state of a handle. -/
def wasmRequest (groupHandle : UInt32) (st : Wasm.Instance B) : Request M → Outcome String String × Wasm.Instance B
  | .addMember rng keyPackage => Wasm.mlsAddMember C M rng groupHandle (Base64.encodeString keyPackage) st
  | .removeMember rng leafIndex => Wasm.mlsRemoveMember C M rng groupHandle leafIndex st
  | .encryptMessage rng plaintext => Wasm.mlsEncryptMessage C M rng groupHandle (Base64.encodeString plaintext) st
  | .decryptMessage mlsMessage => Wasm.mlsDecryptMessage C M groupHandle (Base64.encodeString mlsMessage) st
  | .processCommit commit => Wasm.mlsProcessCommit C M groupHandle (Base64.encodeString commit) st

variable (M)

/-- The calls of a page, and the other calls on the instance. -/
def wasmGroups [ByteString B] (P : Primitives B) (E : Identity.Ed25519) :
    Keeper Bytes (Setup M) (Request M) (Outcome CryptoError Reply) where
  Store := Wasm.Instance B
  Result := Outcome String String
  Other := Wasm.Call M
  object st handle := st.mlsStates.lookup handle
  next := Wasm.Instance.nextId
  handle r := r.value.bind (readHandle C)
  Says := WasmSays C
  Refuses r := ∃ handle : UInt32, r = .err s!"MLS group handle {handle} not found"
  Spares handle c := c ≠ .mlsDestroyState handle
  make m st := wasmSetup C st m
  work handle w st := wasmRequest C handle st w
  drop handle st := Wasm.mlsDestroyState handle st
  other c st := st.step C P E c

variable {C M}

/-! ## Results -/

namespace WasmModule

/-- A page reads the handle, and what else is in the result. -/
theorem exists_serialize (hC : C.Lawful) {rest : List (String × Value)} (hrest : Wasm.Beside rest) (handle : UInt32) :
    ∃ text, C.serialize (json (Wasm.handleEntry handle :: rest)) = .ok text ∧
      C.fromStr text = .ok (json (Wasm.handleEntry handle :: rest)) ∧ readHandle C text = some handle := by
  have hreadable : (json (Wasm.handleEntry handle :: rest)).Readable 127 := by
    apply Value.readable_json
    intro e he
    rcases List.mem_cons.1 he with rfl | he
    · trivial
    · exact (hrest e he).2
  obtain ⟨text, htext, hfrom⟩ := Wasm.serialize_of_readable hC hreadable
  refine ⟨text, htext, hfrom, ?_⟩
  obtain ⟨h, ⟨⟩⟩ | ⟨text', value, htext', hfrom', hget⟩ := Wasm.carries_of_serialize hC hrest htext
  obtain rfl := Wasm.Returned.text.inj htext'
  unfold readHandle
  rw [hfrom', Except.toOption, Option.bind_some, hget]
  simp [Value.asU64]

theorem stateOf_of_lookup {st : Wasm.Instance B} {groupHandle : UInt32} {state : Bytes}
    (hstate : st.mlsStates.lookup groupHandle = some state) : Wasm.stateOf groupHandle st = .ok state := by
  unfold Wasm.stateOf
  rw [hstate]

theorem decode_encodeString (C : Wasm.Crates B) (name : String) (bytes : Bytes) :
    C.decode name (Base64.encodeString bytes) = .ok bytes :=
  Wasm.decode_eq_ok.2 (Base64.decodeString_encodeString bytes)

/-- A call on a handle without a state. -/
theorem wasmRequest_missing {st : Wasm.Instance B} {groupHandle : UInt32}
    (hstate : st.mlsStates.lookup groupHandle = none) (w : Request M) :
    wasmRequest C groupHandle st w = (.err s!"MLS group handle {groupHandle} not found", st) := by
  have hmissing : Wasm.stateOf groupHandle st = .error s!"MLS group handle {groupHandle} not found" := by
    unfold Wasm.stateOf
    rw [hstate]
  cases w with
  | addMember | removeMember | encryptMessage | decryptMessage | processCommit =>
    simp only [wasmRequest, Wasm.mlsAddMember, Wasm.mlsRemoveMember, Wasm.mlsEncryptMessage, Wasm.mlsDecryptMessage,
      Wasm.mlsProcessCommit, decode_encodeString, hmissing, Outcome.ofExcept_ok, Outcome.andThen_ok]
    rfl

section

variable [ByteString B] {P : Primitives B} {E : Identity.Ed25519} {st : Wasm.Instance B}

theorem puts_storeState (hC : C.Lawful) {γ : Type} {failed : String} {groupState : γ → Bytes}
    {rest : γ → List (String × Value)} {reply : γ → Reply} (hrest : ∀ r, Wasm.Beside (rest r))
    (htells : ∀ h r, WasmTells (json (Wasm.handleEntry h :: rest r)) (reply r)) (r : Outcome CryptoError γ)
    (st : Wasm.Instance B) :
    (wasmGroups C M P E).Puts st (ofCall r reply groupState)
      (Wasm.storeState C r failed groupState (fun h r => json (Wasm.handleEntry h :: rest r)) st) := by
  cases r with
  | ok r =>
    obtain ⟨text, htext, hfrom, hhandle⟩ := exists_serialize hC (hrest r) st.nextId
    unfold Wasm.storeState
    simp only [Outcome.mapErr, Outcome.andThen_ok, htext, Outcome.ofExcept_ok]
    exact .object (.ok hfrom (htells _ r)) hhandle rfl fun h => Handles.lookup_insert_eq _ _ _ _
  | err e => exact .nothing (.err failed e) rfl
  | panic => exact .nothing .panic rfl

/-- The result of `mls_generate_key_package`, which names no handle. -/
theorem puts_keyPackage (hC : C.Lawful) (keyPackage secretBundle : Bytes) (st : Wasm.Instance B) :
    (wasmGroups C M P E).Puts st (.ok (.keyPackage keyPackage secretBundle), none)
      (.ofExcept (C.serialize (json [("key_package", Wasm.b64 keyPackage), ("secret_bundle", Wasm.b64 secretBundle)])),
        st) := by
  let value := json [("key_package", Wasm.b64 keyPackage), ("secret_bundle", Wasm.b64 secretBundle)]
  have hreadable : value.Readable 127 := by
    apply Value.readable_json
    simp
  obtain ⟨text, htext, hfrom⟩ := Wasm.serialize_of_readable hC hreadable
  rw [htext]
  refine .nothing (.ok hfrom ⟨?_, ?_⟩) ?_
  · exact Wasm.holds_iff.2 (by simp [value, Wasm.b64, Value.get_json, Value.lookup_cons])
  · exact Wasm.holds_iff.2 (by simp [value, Wasm.b64, Value.get_json])
  · show readHandle C text = none
    unfold readHandle
    rw [hfrom]
    simp [value, Except.toOption, Value.get_json, Value.lookup_cons, Value.asU64]

theorem puts_wasmSetup (hC : C.Lawful) (m : Setup M) (st : Wasm.Instance B) :
    (wasmGroups C M P E).Puts st ((blobs M).make m) (wasmSetup C st m) := by
  cases m with
  | keyPackage rng identity =>
    simp only [blobs, wasmSetup, Wasm.mlsGenerateKeyPackage, decode_encodeString, Outcome.ofExcept_ok, Outcome.ok_bind]
    cases Mls.generateKeyPackage M rng identity with
    | ok r => exact puts_keyPackage hC r.keyPackage r.secretBundle st
    | err e => exact .nothing (WasmSays.err "MLS key package generation failed" e) rfl
    | panic => exact .nothing WasmSays.panic rfl
  | create rng identity =>
    simp only [blobs, wasmSetup, Wasm.mlsCreateGroup, decode_encodeString, Outcome.ofExcept_ok, Outcome.andThen_ok]
    refine puts_storeState hC (fun r => by simp [Wasm.Beside]) (fun h r => ?_) _ st
    simp [WasmTells, Wasm.holds_iff, Wasm.handleEntry, Wasm.b64, Value.get_json, Value.lookup_cons]
  | join welcome secretBundle =>
    simp only [blobs, wasmSetup, Wasm.mlsProcessWelcome, decode_encodeString, Outcome.ofExcept_ok, Outcome.andThen_ok]
    refine puts_storeState hC (fun r => by simp [Wasm.Beside]) (fun h r => ?_) _ st
    simp [WasmTells, Wasm.holds_iff, Wasm.handleEntry, Wasm.b64, Value.get_json, Value.lookup_cons]

/-- A call on a handle with a state. -/
theorem puts_wasmRequest (hC : C.Lawful) {groupHandle : UInt32} {state : Bytes}
    (hstate : st.mlsStates.lookup groupHandle = some state) (w : Request M) :
    (wasmGroups C M P E).Puts st ((blobs M).work w state) (wasmRequest C groupHandle st w) := by
  cases w with
  | addMember | removeMember | encryptMessage | decryptMessage | processCommit =>
    simp only [blobs, wasmRequest, Wasm.mlsAddMember, Wasm.mlsRemoveMember, Wasm.mlsEncryptMessage,
      Wasm.mlsDecryptMessage, Wasm.mlsProcessCommit, decode_encodeString, stateOf_of_lookup hstate,
      Outcome.ofExcept_ok, Outcome.andThen_ok]
    refine puts_storeState hC (fun r => by simp [Wasm.Beside]) (fun h r => ?_) _ st
    simp [WasmTells, Wasm.holds_iff, Wasm.handleEntry, Wasm.b64, Value.get_json, Value.lookup_cons]

/-! ## Calls about something else -/

theorem draws_step (c : Wasm.Call M) (st : Wasm.Instance B) :
    (st.step C P E c).nextId = st.nextId ∨ (st.step C P E c).nextId = st.nextId + 1 := by
  have hkinds := (Wasm.step_change (C := C) (P := P) (E := E) st c).kinds
  generalize (st.step C P E c).nextId = next at hkinds
  cases hkinds with
  | keep => exact .inl rfl
  | draw => exact .inr rfl

end

end WasmModule

/-- The calls of a page do to the instance what the functions of `mls/mod.rs` do to blobs. -/
theorem wasmGroups_lawful [ByteString B] (hC : C.Lawful) (P : Primitives B) (E : Identity.Ed25519) :
    (wasmGroups C M P E).Lawful (blobs M) where
  make m st := WasmModule.puts_wasmSetup hC m st
  work w hstate := WasmModule.puts_wasmRequest hC hstate w
  missing {st h} w hstate := by
    show (∃ i : UInt32, (wasmRequest C h st w).1 = _) ∧ (wasmRequest C h st w).1.value.bind (readHandle C) = none ∧
      (wasmRequest C h st w).2 = st
    rw [WasmModule.wasmRequest_missing hstate]
    exact ⟨⟨h, rfl⟩, rfl, rfl⟩
  drop h st := ⟨rfl, rfl, fun i => Handles.lookup_erase_eq _ _ _⟩
  draws c st := WasmModule.draws_step c st
  other hspares hnew := Wasm.keepsState_step hspares _ hnew

/-! ## Clients -/

variable [ByteString B]

variable (C M) in
/-- The MLS calls of a side. -/
def Side.groups (P : Primitives B) (E : Identity.Ed25519) :
    Side → Keeper Bytes (Setup M) (Request M) (Outcome CryptoError Reply)
  | .native => Api.keeper M
  | .wasm => wasmGroups C M P E

variable {P : Primitives B} {E : Identity.Ed25519}

theorem Side.groups_lawful (hC : C.Lawful) : ∀ side : Side, (side.groups C M P E).Lawful (blobs M)
  | .native => Api.keeper_lawful M
  | .wasm => wasmGroups_lawful hC P E

/-- On both surfaces, from the first call of a client on, as long as no more than `2^32` handles are drawn and no
other call destroys a state whose handle the client was given: each call answers as it does on members that hold
their groups in memory, and the state under each handle of the client is that of such a member. -/
theorem clients_learn (hC : C.Lawful) (hM : M.Persistent) (side : Side) (st : (side.groups C M P E).Store)
    {actions : List (Action (side.groups C M P E))}
    (hspared : Run.Along Client.step Client.Spared (Client.start st) actions)
    (hdraws : (Client.machine (side.groups_lawful hC)).drawsOf (Client.start st) actions ≤ 2 ^ 32) :
    let client := Run.exec Client.step (Client.start st) actions
    List.Forall₂ (Keeper.Learns (fun s m => loadState M s = .ok m) client.store) client.calls
      (Run.exec (Shelf.step (live M)) [] (actions.filterMap Action.move)) :=
  Client.learns_exec (side.groups_lawful hC) (Mls.blobs_refine hM) st hspared hdraws

/-! ## A page that makes an identity between two calls -/

abbrev samplePage :
    Keeper Bytes (Setup Mls.Reference.crates) (Request Mls.Reference.crates) (Outcome CryptoError Reply) :=
  Side.wasm.groups Sample.crates Mls.Reference.crates Sample.aead Sample.naming

/-- A group, and a message in it. -/
def sampleActions : List (Action samplePage) :=
  [.call (.make (.create (5 : ℕ) [1, 2])),
    .other (.generateIdentityKeypair (Sample.bytes32 5) ⟨Sample.bytes32 6⟩ : Wasm.Call Mls.Reference.crates),
    .call (.work 0 (.encryptMessage (6 : ℕ) [7]))]

theorem clients_learn_sample :
    let page := Run.exec Client.step (Client.start (K := samplePage) Wasm.Instance.empty) sampleActions
    List.Forall₂ (Keeper.Learns (fun s m => loadState Mls.Reference.crates s = .ok m) page.store) page.calls
      (Run.exec (Shelf.step (live Mls.Reference.crates)) []
        [.make (.create (5 : ℕ) [1, 2]), .work 0 (.encryptMessage (6 : ℕ) [7])]) := by
  have hspared : Run.Along Client.step Client.Spared (Client.start (K := samplePage) Wasm.Instance.empty)
      sampleActions := ⟨trivial, fun _ _ => nofun, trivial, trivial⟩
  exact clients_learn Sample.crates_lawful Mls.Reference.persistent .wasm Wasm.Instance.empty hspared
    ((Kinds.Machine.drawsOf_le_length _ _ _).trans (by decide))

end GhostCrypt.Network
