/-
The session store of `api.rs`: sessions under `u32` handles behind one `RwLock`. Every call on a
session holds the write guard while the session runs, so a panic there poisons the lock for all.
-/
import GhostCrypt.Api.Helpers
import GhostCrypt.Ratchet.Panic

namespace GhostCrypt.Api

open Ratchet Identity

variable {B : Type} [ByteString B] (P : Primitives B)

/-! ## The store -/

/-- `SESSIONS`, whether its lock is poisoned, and `NEXT_SESSION_ID`. -/
structure Sessions (B : Type) where
  sessions : Finmap fun _ : UInt32 => Session B
  poisoned : Bool
  nextSessionId : UInt32

/-- The store at program start. -/
def Sessions.empty : Sessions B := { sessions := ∅, poisoned := false, nextSessionId := 1 }

/-- `MessageHeaderData`. -/
structure MessageHeaderData where
  dhPublicKey : Bytes
  messageNumber : UInt32
  previousChainLength : UInt32
  deriving DecidableEq

/-- `EncryptResult`. -/
structure EncryptResult where
  header : MessageHeaderData
  ciphertext : Bytes
  nonce : Bytes
  deriving DecidableEq

/-- What every call returns on a poisoned lock. -/
def lockPoisoned : String := "Session lock poisoned: poisoned lock: another task failed inside"

/-- A new session under the next handle, which is used up whether the lock is poisoned or not. -/
def insertSession (session : Session B) (st : Sessions B) : Outcome String UInt32 × Sessions B :=
  let handle := st.nextSessionId
  let st := { st with nextSessionId := st.nextSessionId + 1 }
  if st.poisoned then (.err lockPoisoned, st)
  else (.ok handle, { st with sessions := st.sessions.insert handle session })

/-- `create_session_initiator`, on the secret drawn. -/
def createSessionInitiator (fresh : StaticSecret) (sharedSecret : B) (responderSpkPublic : Bytes)
    (st : Sessions B) : Outcome String UInt32 × Sessions B :=
  match bytesToPublicKey responderSpkPublic with
  | .error e => (.err e, st)
  | .ok bobSpkPub =>
    match Session.initAlice P fresh sharedSecret bobSpkPub with
    | .ok session => insertSession session st
    | .err e => (.err e.display, st)
    | .panic => (.panic, st)

/-- `create_session_responder`. -/
def createSessionResponder (sharedSecret : B) (ourSpkSecret ourSpkPublic ourSpkSignature : Bytes)
    (st : Sessions B) : Outcome String UInt32 × Sessions B :=
  match mapErr (SignedPreKey.fromBytes ourSpkSecret ourSpkPublic ourSpkSignature) with
  | .error e => (.err e, st)
  | .ok spk => insertSession (Session.initBob sharedSecret spk) st

/-- `f` on the session of a handle, under the write guard. -/
def withSession {α : Type} (handle : UInt32) (f : Session B → Outcome CryptoError α × Session B)
    (st : Sessions B) : Outcome String α × Sessions B :=
  if st.poisoned then (.err lockPoisoned, st)
  else
    match st.sessions.lookup handle with
    | none => (.err s!"No session with handle {handle}", st)
    | some session =>
      let (r, session) := f session
      (r.mapErr CryptoError.display,
        { st with
          sessions := st.sessions.insert handle session
          -- the guard is dropped while the thread unwinds
          poisoned := match r with | .panic => true | _ => false })

/-- `session_encrypt`, under the nonce drawn. -/
def sessionEncrypt (nonce : Aead.Nonce) (handle : UInt32) (plaintext : Bytes) (st : Sessions B) :
    Outcome String EncryptResult × Sessions B :=
  let (r, st) := withSession handle (fun session => session.encrypt P nonce plaintext) st
  (r.map fun (header, encrypted) =>
    { header := ⟨header.dhPublicKey, header.messageNumber, header.previousChainLength⟩
      ciphertext := encrypted.ciphertext, nonce := encrypted.nonce }, st)

/-- `session_decrypt`, on the secret drawn. -/
def sessionDecrypt (fresh : StaticSecret) (handle : UInt32) (header : MessageHeaderData) (ciphertext nonce : Bytes)
    (st : Sessions B) : Outcome String Bytes × Sessions B :=
  withSession handle (fun session => session.decrypt P fresh
    ⟨header.dhPublicKey, header.messageNumber, header.previousChainLength⟩ ⟨nonce, ciphertext⟩) st

/-- `destroy_session`. -/
def destroySession (handle : UInt32) (st : Sessions B) : Bool × Sessions B :=
  if st.poisoned then (false, st)
  else ((st.sessions.lookup handle).isSome, { st with sessions := st.sessions.erase handle })

/-! ## Calls -/

/-- A call, with the randomness it draws. -/
inductive SessionCall (B : Type)
  | createInitiator (fresh : StaticSecret) (sharedSecret : B) (responderSpkPublic : Bytes)
  | createResponder (sharedSecret : B) (ourSpkSecret ourSpkPublic ourSpkSignature : Bytes)
  | encrypt (nonce : Aead.Nonce) (handle : UInt32) (plaintext : Bytes)
  | decrypt (fresh : StaticSecret) (handle : UInt32) (header : MessageHeaderData) (ciphertext nonce : Bytes)
  | destroy (handle : UInt32)

/-- What a call returns. -/
inductive Reply
  | created (r : Outcome String UInt32)
  | encrypted (r : Outcome String EncryptResult)
  | decrypted (r : Outcome String Bytes)
  | destroyed (removed : Bool)
  deriving DecidableEq

/-- The handle a call names. -/
def SessionCall.handle? : SessionCall B → Option UInt32
  | .createInitiator _ _ _ | .createResponder _ _ _ _ => none
  | .encrypt _ handle _ | .decrypt _ handle _ _ _ | .destroy handle => some handle

namespace Sessions

/-- A call, its reply and the store it leaves. -/
def call (st : Sessions B) : SessionCall B → Reply × Sessions B
  | .createInitiator fresh sharedSecret spkPublic =>
    (createSessionInitiator P fresh sharedSecret spkPublic st).map .created id
  | .createResponder sharedSecret spkSecret spkPublic spkSignature =>
    (createSessionResponder sharedSecret spkSecret spkPublic spkSignature st).map .created id
  | .encrypt nonce handle plaintext => (sessionEncrypt P nonce handle plaintext st).map .encrypted id
  | .decrypt fresh handle header ciphertext nonce =>
    (sessionDecrypt P fresh handle header ciphertext nonce st).map .decrypted id
  | .destroy handle => (destroySession handle st).map .destroyed id

/-- The store after a call. -/
def step (st : Sessions B) (c : SessionCall B) : Sessions B := (st.call P c).2

/-- The replies of a sequence of calls to those that name `handle`. -/
def repliesOn (handle : UInt32) : Sessions B → List (SessionCall B) → List Reply
  | _, [] => []
  | st, c :: cs =>
    if c.handle? = some handle then (st.call P c).1 :: repliesOn handle (st.step P c) cs
    else repliesOn handle (st.step P c) cs

end Sessions

end GhostCrypt.Api
