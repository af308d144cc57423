/-
The MLS half of `wasm.rs`. A call decodes its arguments, copies the state of a handle, computes on the
copy, and stores what comes out under a new handle; no store is borrowed while it computes.
-/
import GhostCrypt.Wasm.Instance
import GhostCrypt.Mls.Group

namespace GhostCrypt.Wasm

open Json (Value)
open Json.Value (json)

variable {B : Type} (C : Crates B) (M : Mls.OpenMls)

/-! ## What the calls share -/

/-- The state a call returned goes under the next handle, and the rest into the result; a call that
failed leaves the instance. -/
def storeState {α : Type} (r : Outcome CryptoError α) (failed : String) (groupState : α → Bytes)
    (result : UInt32 → α → Value) (st : Instance B) : Outcome String String × Instance B :=
  Outcome.andThen (r.mapErr fun e => failed ++ ": " ++ e.display, st) fun r st =>
    let handle := st.nextId
    let st := st.draw
    let st := { st with mlsStates := st.mlsStates.insert handle (groupState r) }
    (.ofExcept (C.serialize (result handle r)), st)

/-- A copy of the state of a handle. -/
def stateOf (groupHandle : UInt32) (st : Instance B) : Except String Bytes :=
  match st.mlsStates.lookup groupHandle with
  | none => .error s!"MLS group handle {groupHandle} not found"
  | some state => .ok state

/-! ## The calls -/

/-- `mls_generate_key_package`. -/
def mlsGenerateKeyPackage (rng : M.Rng) (identityB64 : String) : Outcome String String := do
  let identity ← .ofExcept (C.decode "identity" identityB64)
  let result ← (Mls.generateKeyPackage M rng identity).mapErr fun e =>
    "MLS key package generation failed: " ++ e.display
  .ofExcept (C.serialize (json [("key_package", b64 result.keyPackage), ("secret_bundle", b64 result.secretBundle)]))

/-- `mls_create_group`. -/
def mlsCreateGroup (rng : M.Rng) (identityB64 : String) (st : Instance B) : Outcome String String × Instance B :=
  Outcome.andThen (.ofExcept (C.decode "identity" identityB64), st) fun identity st =>
  storeState C (Mls.createGroup M rng identity) "MLS create group failed" (·.groupState) (fun handle r =>
    json [handleEntry handle, ("group_id", b64 r.groupId), ("epoch", u64 r.epoch)]) st

/-- `mls_add_member`. -/
def mlsAddMember (rng : M.Rng) (groupHandle : UInt32) (keyPackageB64 : String) (st : Instance B) :
    Outcome String String × Instance B :=
  Outcome.andThen (.ofExcept (C.decode "key_package" keyPackageB64), st) fun keyPackage st =>
  Outcome.andThen (.ofExcept (stateOf groupHandle st), st) fun state st =>
  storeState C (Mls.addMember M rng state keyPackage) "MLS add member failed" (·.groupState) (fun handle r =>
    json [handleEntry handle, ("commit", b64 r.commit), ("welcome", b64 r.welcome),
      ("epoch", u64 r.epoch)]) st

/-- `mls_remove_member`. -/
def mlsRemoveMember (rng : M.Rng) (groupHandle leafIndex : UInt32) (st : Instance B) :
    Outcome String String × Instance B :=
  Outcome.andThen (.ofExcept (stateOf groupHandle st), st) fun state st =>
  storeState C (Mls.removeMember M rng state leafIndex) "MLS remove member failed" (·.groupState) (fun handle r =>
    json [handleEntry handle, ("commit", b64 r.commit), ("epoch", u64 r.epoch)]) st

/-- `mls_encrypt_message`. -/
def mlsEncryptMessage (rng : M.Rng) (groupHandle : UInt32) (plaintextB64 : String) (st : Instance B) :
    Outcome String String × Instance B :=
  Outcome.andThen (.ofExcept (C.decode "plaintext" plaintextB64), st) fun plaintext st =>
  Outcome.andThen (.ofExcept (stateOf groupHandle st), st) fun state st =>
  storeState C (Mls.encryptMessage M rng state plaintext) "MLS encrypt failed" (·.groupState) (fun handle r =>
    json [handleEntry handle, ("mls_ciphertext", b64 r.mlsCiphertext), ("epoch", u64 r.epoch)]) st

/-- `mls_decrypt_message`. -/
def mlsDecryptMessage (groupHandle : UInt32) (mlsMessageB64 : String) (st : Instance B) :
    Outcome String String × Instance B :=
  Outcome.andThen (.ofExcept (C.decode "mls_message" mlsMessageB64), st) fun mlsMessage st =>
  Outcome.andThen (.ofExcept (stateOf groupHandle st), st) fun state st =>
  storeState C (Mls.decryptMessage M state mlsMessage) "MLS decrypt failed" (·.groupState) (fun handle r =>
    json [handleEntry handle, ("plaintext", b64 r.plaintext)]) st

/-- `mls_process_welcome`. -/
def mlsProcessWelcome (welcomeB64 secretBundleB64 : String) (st : Instance B) : Outcome String String × Instance B :=
  Outcome.andThen (.ofExcept (C.decode "welcome" welcomeB64), st) fun welcome st =>
  Outcome.andThen (.ofExcept (C.decode "secret_bundle" secretBundleB64), st) fun secretBundle st =>
  storeState C (Mls.processWelcome M welcome secretBundle) "MLS process welcome failed" (·.groupState) (fun handle r =>
    json [handleEntry handle, ("group_id", b64 r.groupId), ("epoch", u64 r.epoch)]) st

/-- `mls_process_commit`. -/
def mlsProcessCommit (groupHandle : UInt32) (commitB64 : String) (st : Instance B) :
    Outcome String String × Instance B :=
  Outcome.andThen (.ofExcept (C.decode "commit" commitB64), st) fun commit st =>
  Outcome.andThen (.ofExcept (stateOf groupHandle st), st) fun state st =>
  storeState C (Mls.processCommit M state commit) "MLS process commit failed" (·.groupState) (fun handle r =>
    json [handleEntry handle, ("epoch", u64 r.epoch)]) st

/-- `mls_destroy_state`. -/
def mlsDestroyState (groupHandle : UInt32) (st : Instance B) : Bool × Instance B :=
  ((st.mlsStates.lookup groupHandle).isSome, { st with mlsStates := st.mlsStates.erase groupHandle })

end GhostCrypt.Wasm
