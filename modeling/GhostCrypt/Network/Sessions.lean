/-
From two applications without keys to messages delivered between them. Whatever surfaces they use, the handshake
ends in two sessions that belong together, and it never comes to a dead end, as long as the other calls on the
two stores are well formed, replace nothing and leave the two sessions alone.
-/
import GhostCrypt.Network.Delivery
import GhostCrypt.Network.Keys

namespace GhostCrypt.Network

open Identity Ratchet
open Handshake (Commutes)

variable {B : Type} [ByteString B] {P : Primitives B} {C : Wasm.Crates B} {E : Ed25519} {M : Mls.OpenMls}

/-! ## The sessions of a handshake -/

section

variable {S : Party → KeySurface B} {d : Draws} {net : Handshake S}

/-- The exchange that starts with the initiator's session and the responder's. -/
def Draws.exchange (P : Primitives B) (E : Ed25519) (d : Draws) (alice : Session B) : Exchange B where
  session
    | .alice => alice
    | .bob => Session.initBob (d.sharedSecret P E) (d.preKey P E .bob)
  sent := []
  result _ := none
  generated := [P.publicKey d.fresh, (d.preKey P E .bob).x25519Public]
  replaced _ := []
  setUps := []

/-- Where both calls that make a session have returned, a conversation begins. -/
theorem Handshake.Agreed.begins (h : net.Agreed P E d)
    (hfresh : P.publicKey d.fresh ≠ P.publicKey ⟨d.preKeySeed .bob⟩) {handle : Party → UInt32}
    (hhandle : ∀ p, net.handle p = some (handle p)) :
    ∃ x : Exchange B, x.Start P (d.sharedSecret P E) d.fresh (d.preKey P E .bob) ∧
      net.conversation.Begins handle x := by
  obtain ⟨alice, halice⟩ :
      ∃ s, Session.initAlice P d.fresh (d.sharedSecret P E) (d.preKey P E .bob).x25519Public = .ok s :=
    ⟨_, Session.initAlice_eq ..⟩
  refine ⟨d.exchange P E alice, ⟨halice, rfl, rfl, hfresh, rfl, fun _ => rfl, rfl, fun _ => rfl, rfl⟩, h.sound,
    fun p => ?_, rfl, fun _ => rfl⟩
  refine (h.session p _ (hhandle p)).trans ?_
  cases p with
  | alice =>
    show (Session.initAlice P d.fresh (d.sharedSecret P E) _).value = some alice
    rw [halice]
    rfl
  | bob => rfl

end

variable {side : Party → Side} {d : Draws} {net : Handshake fun p => (side p).keySurface P E C M}
  {events : List (Event fun p => (side p).keySurface P E C M)}

/-- On any two surfaces, with other calls in between that are well formed, replace nothing and are not about the
sessions: every call of an honest handshake returns, the two shared secrets returned are the one of the keys drawn,
and the two sessions begin a conversation with it. -/
theorem handshake_begins (hC : C.Lawful) (hkeys : ∀ key : B, ByteString.ofBytes (C.keyBytes key) = key)
    (hE : Verifies E) (hdh : Commutes P) (hstart : net.Starts)
    (hs : Run.Along (Handshake.step d) Handshake.Honest net events)
    (hfresh : P.publicKey d.fresh ≠ P.publicKey ⟨d.preKeySeed .bob⟩) :
    let net' := Run.exec (Handshake.step d) net events
    (∀ e ∈ events, net'.Done e) ∧ net'.Computes P E d ∧
      ∀ handle : Party → UInt32, (∀ p, net'.handle p = some (handle p)) →
        ∃ x : Exchange B, x.Start P (d.sharedSecret P E) d.fresh (d.preKey P E .bob) ∧
          net'.conversation.Begins handle x := by
  have hS := fun p => (side p).keys_lawful (M := M) (P := P) (E := E) hC hkeys
  obtain ⟨hagreed, -, hall⟩ := hstart.agreed.exec hS hE hdh hstart.ordered hs
  exact ⟨hall, hagreed.computes, fun handle hhandle => hagreed.begins hfresh hhandle⟩

/-- From wherever an honest run has come, whatever well-formed other calls that replace nothing are in it, an honest
run makes both sessions. -/
theorem handshake_completes (hC : C.Lawful) (hkeys : ∀ key : B, ByteString.ofBytes (C.keyBytes key) = key)
    (hE : Verifies E) (hdh : Commutes P) (hstart : net.Starts)
    (hs : Run.Along (Handshake.step d) Handshake.Honest net events) :
    ∃ more, Run.Along (Handshake.step d) Handshake.Honest net (events ++ more) ∧
      ∀ p, (Run.exec (Handshake.step d) net (events ++ more)).handle p ≠ none := by
  have hS := fun p => (side p).keys_lawful (M := M) (P := P) (E := E) hC hkeys
  obtain ⟨hagreed, hordered, -⟩ := hstart.agreed.exec hS hE hdh hstart.ordered hs
  obtain ⟨_, ⟨more, hmore, rfl⟩, hhandle⟩ := hagreed.exists_run hS hE hdh hordered
  refine ⟨more, (Run.along_append ..).2 ⟨hs, hmore⟩, fun p => ?_⟩
  rw [Run.exec_append]
  exact hhandle p

/-- From applications without keys to messages: the conversation that an honest handshake begins delivers what is
handed on, exactly as long as never more than `MAX_SKIP` messages are overtaken at an end. The other calls are well
formed and leave the two sessions alone, the key pairs drawn are new, and the chains shorter than `2^32`. -/
theorem handshake_delivers (hC : C.Lawful) (hkeys : ∀ key : B, ByteString.ofBytes (C.keyBytes key) = key)
    (hE : Verifies E) (hinv : Inverts P) (hstart : net.Starts)
    (hs : Run.Along (Handshake.step d) Handshake.Honest net events)
    (hfresh : P.publicKey d.fresh ≠ P.publicKey ⟨d.preKeySeed .bob⟩) {handle : Party → UInt32}
    (hhandle : ∀ p, (Run.exec (Handshake.step d) net events).handle p = some (handle p)) :
    ∃ x : Exchange B, x.Start P (d.sharedSecret P E) d.fresh (d.preKey P E .bob) ∧ ∀ steps,
      Run.Along (Conversation.step handle) (Conversation.Honest handle)
        (Run.exec (Handshake.step d) net events).conversation steps →
      Run.Along (Exchange.step P) (Exchange.FreshKey P) x (steps.filterMap Step.move) →
      Run.Throughout (Exchange.step P) Exchange.ShortChains x (steps.filterMap Step.move) →
      ((Run.exec (Conversation.step handle) (Run.exec (Handshake.step d) net events).conversation steps).Delivers ↔
        Run.Throughout (Exchange.step P) Exchange.FewOvertaken x (steps.filterMap Step.move)) := by
  have hS := fun p => (side p).keys_lawful (M := M) (P := P) (E := E) hC hkeys
  obtain ⟨hagreed, -, -⟩ := hstart.agreed.exec hS hE hinv.commutes hstart.ordered hs
  obtain ⟨x, hx, hbegins⟩ := hagreed.begins hfresh hhandle
  exact ⟨x, hx, fun steps hsteps hnew hshort =>
    hbegins.delivers_iff (fun p => (hS p).toLawful) hinv hx hsteps hnew hshort⟩

end GhostCrypt.Network

/-! ## A native application and a page -/

namespace GhostCrypt.Sample

/-- Sample crates on actual bytes: sums for X25519, and the sample AEAD. -/
def bytewise : Primitives Bytes where
  publicKey := pub
  diffieHellman a p := List.zipWith (· + ·) a.bytes.1 p.bytes.1
  hkdf salt ikm info n := (ikm ++ salt ++ info ++ List.replicate n 0).take n
  hmac key data := (data ++ key ++ List.replicate 32 0).take 32
  aesGcmEncrypt _ _ msg _ := some (msg ++ List.replicate 16 0)
  aesGcmDecrypt _ _ ciphertext _ :=
    if 16 ≤ ciphertext.length then some (ciphertext.take (ciphertext.length - 16)) else none
  length_diffieHellman a p := by
    show (List.zipWith (· + ·) a.bytes.1 p.bytes.1).length = 32
    rw [List.length_zipWith, a.bytes.2, p.bytes.2]
    rfl
  length_hkdf salt ikm info n := by
    show List.length _ = n
    simp only [List.length_take, List.length_append, List.length_replicate]
    omega
  length_hmac key data := by
    show List.length _ = 32
    simp only [List.length_take, List.length_append, List.length_replicate]
    omega

theorem bytewise_inverts : Ratchet.Inverts bytewise where
  commutes _ _ := List.zipWith_comm_of_comm fun _ _ => UInt8.add_comm _ _
  decrypts := by
    rintro key nonce msg aad _ ⟨⟩
    have hlen : 16 ≤ (msg ++ List.replicate 16 0).length := by simp
    exact (if_pos hlen).trans (congrArg some (by simp))

/-- The crates of a page, on actual bytes. -/
def byteCrates : Wasm.Crates Bytes where
  fromStr := crates.fromStr
  toString := crates.toString
  decodeError := crates.decodeError
  keyBytes := id

theorem byteCrates_lawful : byteCrates.Lawful := ⟨crates_lawful.roundTrip⟩

theorem byteCrates_fromStr {value : Json.Value} (h : value.Readable 127) :
    byteCrates.fromStr (String.ofList (Json.print value)) = .ok value := crates_fromStr h

theorem naming_verifies : Network.Verifies naming where
  verifies _ _ := decide_eq_true rfl
  fromBytes _ := rfl

/-- Alice on the native library, Bob in a page, both without keys. -/
def handshake : Network.Handshake fun p =>
    (Network.sampleSide p).keySurface bytewise naming byteCrates Mls.Reference.crates where
  store
    | .alice => (Api.Sessions.empty : Api.Sessions Bytes)
    | .bob => (Wasm.Instance.empty : Wasm.Instance Bytes)
  identity _ := none
  preKey _ := none
  initiated := none
  responded := none
  handle _ := none

theorem handshake_starts : handshake.Starts where
  sound
    | .alice => rfl
    | .bob => rfl
  identity _ := rfl
  preKey _ := rfl
  initiated := rfl
  responded := rfl
  handle _ := rfl

def draws : Network.Draws where
  secretSeed
    | .alice => bytes32 1
    | .bob => bytes32 2
  signingKey
    | .alice => ⟨bytes32 3⟩
    | .bob => ⟨bytes32 4⟩
  preKeySeed _ := bytes32 5
  ephemeral := ⟨bytes32 6⟩
  fresh := ⟨bytes32 7⟩

theorem draws_fresh : bytewise.publicKey draws.fresh ≠ bytewise.publicKey ⟨draws.preKeySeed .bob⟩ := by decide

end GhostCrypt.Sample

namespace GhostCrypt.Network

open Ratchet

/-- Both make an identity, and Bob's page makes a second one. -/
def sampleEvents : List (Event fun p =>
    (sampleSide p).keySurface Sample.bytewise Sample.naming Sample.byteCrates Mls.Reference.crates) :=
  [.generateIdentityKeypair .alice, .generateIdentityKeypair .bob,
    .other .bob (.generateIdentityKeypair (Sample.bytes32 8) ⟨Sample.bytes32 9⟩ : Wasm.Call Mls.Reference.crates)]

/-- The page has no object under the handle that it draws next. -/
theorem sampleEvents_honest :
    Run.Along (Handshake.step Sample.draws) Handshake.Honest Sample.handshake sampleEvents := by
  refine ⟨trivial, trivial, ⟨⟨fun k => ?_, trivial⟩, nofun⟩, trivial⟩
  cases k with
  | identity => exact not_not.2 ((Finmap.lookup_insert_of_ne _ (by decide)).trans (Finmap.lookup_empty _))
  | signedPreKey | session | state => exact not_not.2 (Finmap.lookup_empty _)

theorem handshake_completes_sample : ∃ more,
    Run.Along (Handshake.step Sample.draws) Handshake.Honest Sample.handshake (sampleEvents ++ more) ∧
      ∀ p, (Run.exec (Handshake.step Sample.draws) Sample.handshake (sampleEvents ++ more)).handle p ≠ none :=
  handshake_completes Sample.byteCrates_lawful (fun _ => rfl) Sample.naming_verifies Sample.bytewise_inverts.commutes
    Sample.handshake_starts sampleEvents_honest

/-- An honest run of the sample that makes both sessions. -/
theorem exists_sampleEvents : ∃ events,
    Run.Along (Handshake.step Sample.draws) Handshake.Honest Sample.handshake (sampleEvents ++ events) ∧
    (Run.exec (Handshake.step Sample.draws) Sample.handshake (sampleEvents ++ events)).Agreed
      Sample.bytewise Sample.naming Sample.draws ∧
    ∃ handle : Party → UInt32, ∀ p, (Run.exec (Handshake.step Sample.draws) Sample.handshake
      (sampleEvents ++ events)).handle p = some (handle p) := by
  have hS := fun p => (sampleSide p).keys_lawful (M := Mls.Reference.crates) (P := Sample.bytewise) (E := Sample.naming)
    Sample.byteCrates_lawful fun _ => rfl
  have hE := Sample.naming_verifies
  have hdh := Sample.bytewise_inverts.commutes
  have hstart := Sample.handshake_starts
  obtain ⟨hagreed, hordered, -⟩ := hstart.agreed.exec hS hE hdh hstart.ordered sampleEvents_honest
  obtain ⟨_, ⟨events, hs, rfl⟩, hhandle⟩ := hagreed.exists_run hS hE hdh hordered
  have hall := (Run.along_append ..).2 ⟨sampleEvents_honest, hs⟩
  choose handle hhandle using fun p => Option.ne_none_iff_exists'.1 (hhandle p)
  refine ⟨events, hall, (hstart.agreed.exec hS hE hdh hstart.ordered hall).1, handle, fun p => ?_⟩
  rw [Run.exec_append]
  exact hhandle p

theorem handshake_begins_sample : ∃ events handle, ∃ x : Exchange Bytes,
    let net := Run.exec (Handshake.step Sample.draws) Sample.handshake (sampleEvents ++ events)
    (∀ p, net.handle p = some (handle p)) ∧ net.Computes Sample.bytewise Sample.naming Sample.draws ∧
    x.Start Sample.bytewise (Sample.draws.sharedSecret Sample.bytewise Sample.naming) Sample.draws.fresh
      (Sample.draws.preKey Sample.bytewise Sample.naming .bob) ∧ net.conversation.Begins handle x := by
  obtain ⟨events, hs, -, handle, hhandle⟩ := exists_sampleEvents
  obtain ⟨-, hcomputes, hbegins⟩ := handshake_begins Sample.byteCrates_lawful (fun _ => rfl) Sample.naming_verifies
    Sample.bytewise_inverts.commutes Sample.handshake_starts hs Sample.draws_fresh
  obtain ⟨x, hx, hx'⟩ := hbegins handle hhandle
  exact ⟨events, handle, x, hhandle, hcomputes, hx, hx'⟩

/-- What Bob's page is given for a message that Alice's library returned. -/
def relayed (r : Api.EncryptResult) : WasmParcel :=
  .relayed (String.ofList (Json.print (Wasm.headerJson
    ⟨r.header.dhPublicKey, r.header.messageNumber, r.header.previousChainLength⟩))) ⟨r.nonce, r.ciphertext⟩

theorem relayed_bears {r : Api.EncryptResult} {header : MessageHeader} {encrypted : Aead.Encrypted}
    (h : NativeHolds r header encrypted) : WasmBears Sample.byteCrates (relayed r) header encrypted := by
  obtain rfl := h
  exact WasmModule.wasmBears_headerJson (Sample.byteCrates_fromStr (Wasm.readable_headerJson 125 header)) encrypted

/-- Alice's first message, which comes to Bob. -/
def firstMessage (parcel : WasmParcel) : List (Step fun p => ((sampleSide p).keySurface Sample.bytewise Sample.naming
    Sample.byteCrates Mls.Reference.crates).toSurface) :=
  [.encrypt .alice Sample.nonce ([7] : Bytes), .deliver 0 .bob ⟨Sample.bytes32 10⟩ parcel]

/-- It comes to him as she sent it. -/
theorem firstMessage_honest {handle : Party → UInt32} {net : Conversation fun p => ((sampleSide p).keySurface
      Sample.bytewise Sample.naming Sample.byteCrates Mls.Reference.crates).toSurface} {r : Api.EncryptResult}
    (hposted : (net.send handle .alice Sample.nonce ([7] : Bytes)).posted = [⟨.alice, [7], some r⟩]) :
    Run.Along (Conversation.step handle) (Conversation.Honest handle) net (firstMessage (relayed r)) := by
  refine ⟨trivial, fun m hm => ?_, trivial⟩
  change (net.send handle .alice Sample.nonce ([7] : Bytes)).posted[0]? = some m at hm
  rw [hposted] at hm
  obtain rfl := Option.some.inj hm
  refine ⟨rfl, ?_⟩
  -- the header and the ciphertext can be read off what Alice's call returned
  rintro sealed header encrypted hsealed hholds
  obtain rfl := Option.some.inj hsealed
  exact relayed_bears hholds

/-- The sample AEAD seals whatever a session encrypts. -/
theorem bytewise_encrypt {s : Session Bytes} {c : ChainKey Bytes} (hc : s.sendingChain = some c) (nonce : Aead.Nonce)
    (plaintext : Bytes) :
    ∃ header encrypted, (s.encrypt Sample.bytewise nonce plaintext).1 = .ok (header, encrypted) := by
  rcases Session.nextMessageKey_cases Sample.bytewise s with ⟨hnone, -⟩ | ⟨c', -, hn⟩
  · rw [hc] at hnone
    cases hnone
  · exact ⟨_, _, (Session.encrypt_ok Sample.bytewise).2 ⟨_, congrArg Prod.fst hn, rfl⟩⟩

theorem handshake_delivers_sample : ∃ events handle parcel,
    let net := Run.exec (Conversation.step handle)
      (Run.exec (Handshake.step Sample.draws) Sample.handshake (sampleEvents ++ events)).conversation
      (firstMessage parcel)
    net.Delivers ∧ net.opened 0 = some (some [7]) := by
  obtain ⟨events, hs, hagreed, handle, hhandle⟩ := exists_sampleEvents
  obtain ⟨x, hx, hdelivers⟩ := handshake_delivers Sample.byteCrates_lawful (fun _ => rfl) Sample.naming_verifies
    Sample.bytewise_inverts Sample.handshake_starts hs Sample.draws_fresh hhandle
  -- what Alice's call returns is handed on
  obtain ⟨x', hx', hbegins⟩ := hagreed.begins Sample.draws_fresh hhandle
  have hchain := congrArg Session.sendingChain
    (Outcome.ok.inj ((Session.initAlice_eq Sample.bytewise ..).symm.trans hx'.alice))
  obtain ⟨header, encrypted, henc⟩ := bytewise_encrypt hchain.symm Sample.nonce [7]
  have hplain : ((sampleSide .alice).keySurface Sample.bytewise Sample.naming Sample.byteCrates
      Mls.Reference.crates).bytes ([7] : Bytes) = some [7] := rfl
  obtain ⟨r, hposted, -⟩ := hbegins.posted_send (fun p => ((sampleSide p).keys_lawful Sample.byteCrates_lawful
    fun _ => rfl).toLawful) hplain henc
  have hmoves : (firstMessage (relayed r)).filterMap Step.move =
      [.encrypt .alice Sample.nonce [7], .deliver 0 ⟨Sample.bytes32 10⟩] := rfl
  have hlength : Run.Throughout (Exchange.step Sample.bytewise) (fun x => x.sent.length ≤ 2) x
      [.encrypt .alice Sample.nonce [7], .deliver 0 ⟨Sample.bytes32 10⟩] :=
    Exchange.length_sent_throughout Sample.bytewise (by rw [hx.sent]; decide)
  have hall := hdelivers (firstMessage (relayed r)) (firstMessage_honest hposted)
  rw [hmoves] at hall
  replace hall := (hall (Exchange.freshKey_along _ (by decide) (by rw [hx.generated]; decide))
    (hlength.mono fun x h => Exchange.shortChains_of_length (h.trans_lt (by norm_num)))).2
    (hlength.mono fun x h => Exchange.fewOvertaken_of_length (h.trans (by decide)))
  refine ⟨events, handle, relayed r, hall, ?_⟩
  exact Conversation.Delivers.opened (m := ⟨.alice, [7], some r⟩) (congrArg (·[0]?) hposted) rfl
    ((congrFun (Conversation.opened_send ..) 0).trans (hbegins.opened 0)) hall

end GhostCrypt.Network
