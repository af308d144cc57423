/-
Delivery from application to application. Whatever surfaces the two ends use, and in whatever order the network
hands the messages on, `session_decrypt` gives back what was given to `session_encrypt`, exactly as long as few
messages are overtaken. The other calls on their stores are well formed and neither name nor replace the two
sessions, the key pairs drawn are new, and the chains shorter than `2^32`.
-/
import GhostCrypt.Network.Surfaces
import GhostCrypt.Ratchet.Limit

namespace GhostCrypt.Network

open Ratchet
open Json (Value)

variable {B : Type} [ByteString B] {P : Primitives B} {C : Wasm.Crates B} {E : Identity.Ed25519} {M : Mls.OpenMls}

/-- A conversation before its first message: each party has its session of `x` under its handle. -/
structure Conversation.Begins {S : Party → Surface B} (handle : Party → UInt32) (net : Conversation S)
    (x : Exchange B) : Prop where
  sound : ∀ p, (S p).Sound (net.store p)
  session : ∀ p, (S p).session (net.store p) (handle p) = some (x.session p)
  posted : net.posted = []
  opened : ∀ i, net.opened i = none

section

variable {S : Party → Surface B} {handle : Party → UInt32} {net : Conversation S} {x : Exchange B}

omit [ByteString B] in
theorem Conversation.Begins.refines (h : net.Begins handle x) (hsent : x.sent = []) (hresult : ∀ i, x.result i = none) :
    Refines handle net x := by
  refine ⟨h.sound, h.session, ?_, fun i => by rw [h.opened, hresult, Option.map_none]⟩
  rw [h.posted, hsent]
  exact .nil

omit [ByteString B] in
/-- The API delivers when the abstract conversation does. -/
theorem Refines.delivers_iff (h : Refines handle net x) : net.Delivers ↔ x.Delivers := by
  constructor
  · intro hnet i m' r hm' hr
    have hget := h.posted_get i
    rw [hm'] at hget
    generalize hm : net.posted[i]? = posted at hget
    obtain ⟨hshows⟩ := hget
    have hopened := h.opened i
    rw [hr, Option.map_some] at hopened
    have hvalue := hnet i _ _ hm hopened
    rwa [hshows.plaintext, Outcome.value_eq_some] at hvalue
  · intro hx i m r hm hr
    have hget := h.posted_get i
    rw [hm] at hget
    generalize hm' : x.sent[i]? = sent at hget
    obtain ⟨hshows⟩ := hget
    rw [h.opened, Option.map_eq_some_iff] at hr
    obtain ⟨r', hr', rfl⟩ := hr
    rw [hx i _ r' hm' hr', hshows.plaintext]
    rfl

omit [ByteString B] in
theorem Conversation.posted_send {p : Party} {nonce : Aead.Nonce} {plain : (S p).Plain} {plaintext : Bytes}
    (hplain : (S p).bytes plain = some plaintext) (hcan : net.CanSend handle p = true) :
    (net.send handle p nonce plain).posted =
      net.posted ++ [⟨p, plaintext, ((S p).encrypt nonce (handle p) plain (net.store p)).1.value⟩] := by
  simp only [Conversation.send, hplain, hcan]

omit [ByteString B] in
theorem Conversation.opened_send (p : Party) (nonce : Aead.Nonce) (plain : (S p).Plain) :
    (net.send handle p nonce plain).opened = net.opened := by
  unfold Conversation.send
  split <;> rfl

omit [ByteString B] in
/-- A message handed on for the first time gives back its plaintext, if all that were handed on do. -/
theorem Conversation.Delivers.opened {i : ℕ} {p : Party} {fresh : StaticSecret} {parcel : (S p).Parcel} {m : Posted S}
    (hm : net.posted[i]? = some m) (hsealed : m.sealed.isSome = true) (hnone : net.opened i = none)
    (hall : (net.step handle (.deliver i p fresh parcel)).Delivers) :
    (net.step handle (.deliver i p fresh parcel)).opened i = some (some m.plaintext) := by
  have hstep : net.step handle (.deliver i p fresh parcel) = net.receive handle i p fresh parcel :=
    if_pos ⟨by rw [hm, Option.any_some, hsealed], hnone⟩
  rw [hstep] at hall ⊢
  have hopened : (net.receive handle i p fresh parcel).opened i = some _ := Function.update_self ..
  rw [hopened, hall i m _ hm hopened]

/-- The first message, where the session encrypts it. -/
theorem Conversation.Begins.posted_send (hS : ∀ p, (S p).Lawful P) (h : net.Begins handle x) {p : Party}
    {nonce : Aead.Nonce} {plain : (S p).Plain} {plaintext : Bytes} (hplain : (S p).bytes plain = some plaintext)
    {header : MessageHeader} {encrypted : Aead.Encrypted}
    (henc : ((x.session p).encrypt P nonce plaintext).1 = .ok (header, encrypted)) :
    ∃ sealed, (net.send handle p nonce plain).posted = [⟨p, plaintext, some sealed⟩] ∧
      (S p).Contains sealed header encrypted := by
  -- a session that encrypts has a sending chain
  have hcan : net.CanSend handle p = true := by
    rw [Conversation.CanSend, h.session p, Option.any_some]
    obtain ⟨key, hkey, -⟩ := (Session.encrypt_ok P).1 henc
    rcases Session.nextMessageKey_cases P (x.session p) with ⟨-, hnone⟩ | ⟨c, hc, -⟩
    · rw [hnone] at hkey
      cases hkey
    · rw [hc, Option.isSome_some]
  obtain ⟨-, -, hsealed⟩ := (hS p).encrypt nonce (h.sound p) (h.session p) hplain
  rw [Conversation.posted_send hplain hcan, h.posted]
  rw [henc] at hsealed
  generalize ((S p).encrypt nonce (handle p) plain (net.store p)).1.value = v at hsealed
  cases hsealed with
  | some hcontains => exact ⟨_, rfl, hcontains⟩

theorem Conversation.Begins.delivers_iff (hS : ∀ p, (S p).Lawful P) (hinv : Inverts P) {sharedSecret : B}
    {fresh : StaticSecret} {ourSpk : Identity.SignedPreKey} (hstart : x.Start P sharedSecret fresh ourSpk)
    (hbegins : net.Begins handle x) {steps : List (Step S)}
    (hs : Run.Along (Conversation.step handle) (Conversation.Honest handle) net steps)
    (hfresh : Run.Along (Exchange.step P) (Exchange.FreshKey P) x (steps.filterMap Step.move))
    (hshort : Run.Throughout (Exchange.step P) Exchange.ShortChains x (steps.filterMap Step.move)) :
    (Run.exec (Conversation.step handle) net steps).Delivers ↔
      Run.Throughout (Exchange.step P) Exchange.FewOvertaken x (steps.filterMap Step.move) := by
  rw [((hbegins.refines hstart.sent hstart.result).exec hS hs).delivers_iff]
  exact (InOrder.start hstart).delivers_exec_iff hstart.bounded hinv hfresh hshort

end

variable {side : Party → Side} {handle : Party → UInt32} {net : Conversation fun p => (side p).surface C P E M}
  {x : Exchange B} {steps : List (Step fun p => (side p).surface C P E M)}

/-- On both surfaces, every honest run of two applications, whose other calls are well formed and neither name nor
replace the two sessions, is a run of the abstract conversation, step for step. -/
theorem conversation_refines (hC : C.Lawful) (h : Refines handle net x)
    (hs : Run.Along (Conversation.step handle) (Conversation.Honest handle) net steps) :
    Refines handle (Run.exec (Conversation.step handle) net steps)
      (Run.exec (Exchange.step P) x (steps.filterMap Step.move)) :=
  h.exec (fun p => (side p).lawful hC) hs

/-- From application to application, on any two surfaces, with new key pairs and chains shorter than `2^32`: in every
honest run, the messages handed on are all decrypted to what was encrypted exactly when never more than `MAX_SKIP`
messages are overtaken at an end. -/
theorem api_delivers_iff (hC : C.Lawful) (hinv : Inverts P) {sharedSecret : B} {fresh : StaticSecret}
    {ourSpk : Identity.SignedPreKey} (hstart : x.Start P sharedSecret fresh ourSpk) (hbegins : net.Begins handle x)
    (hs : Run.Along (Conversation.step handle) (Conversation.Honest handle) net steps)
    (hfresh : Run.Along (Exchange.step P) (Exchange.FreshKey P) x (steps.filterMap Step.move))
    (hshort : Run.Throughout (Exchange.step P) Exchange.ShortChains x (steps.filterMap Step.move)) :
    (Run.exec (Conversation.step handle) net steps).Delivers ↔
      Run.Throughout (Exchange.step P) Exchange.FewOvertaken x (steps.filterMap Step.move) :=
  hbegins.delivers_iff (fun p => (side p).lawful hC) hinv hstart hs hfresh hshort

/-! ## From a native application to a page -/

/-- Alice on the native library, Bob in a page. -/
def sampleSide : Party → Side
  | .alice => .native
  | .bob => .wasm

/-- The calls of the two. -/
abbrev sampleSurface (p : Party) : Surface Key :=
  (sampleSide p).surface Sample.crates Sample.aead Sample.naming Mls.Reference.crates

def aliceStore : Api.Sessions Key :=
  { sessions := (∅ : Finmap fun _ : UInt32 => Session Key).insert 1 Sample.alice, poisoned := false,
    nextSessionId := 2 }

def bobStore : Wasm.Instance Key :=
  { identityKeys := ∅, sessions := (∅ : Finmap fun _ : UInt32 => Session Key).insert 1 Sample.bob
    sessionsBorrowed := false, spkKeys := ∅, mlsStates := ∅, nextId := 2 }

def sampleConversation : Conversation sampleSurface where
  store
    | .alice => aliceStore
    | .bob => bobStore
  posted := []
  opened _ := none

/-- Alice's first message, as it comes to Bob. -/
def sampleParcel : WasmParcel :=
  .relayed (String.ofList (Json.print (Wasm.headerJson (Sample.header 0)))) (Sample.sealed [7])

theorem sampleConversation_begins : sampleConversation.Begins (fun _ => 1) sampleExchange where
  sound
    | .alice => rfl
    | .bob => rfl
  session
    | .alice => show aliceStore.sessions.lookup 1 = some Sample.alice from Finmap.lookup_insert _
    | .bob => show bobStore.sessions.lookup 1 = some Sample.bob from Finmap.lookup_insert _
  posted := rfl
  opened _ := rfl

theorem sampleParcel_bears : WasmBears Sample.crates sampleParcel (Sample.header 0) (Sample.sealed [7]) :=
  WasmModule.wasmBears_headerJson (Sample.crates_fromStr (Wasm.readable_headerJson 125 _)) _

/-- Alice encrypts, Bob makes an identity, and the message comes to Bob. -/
def sampleSteps : List (Step sampleSurface) :=
  [.encrypt .alice Sample.nonce ([7] : Bytes),
    .other .bob (.generateIdentityKeypair (Sample.bytes32 5) ⟨Sample.bytes32 6⟩ : Wasm.Call Mls.Reference.crates),
    .deliver 0 .bob Sample.freshSecret sampleParcel]

/-- What Alice's call returns. -/
theorem sampleConversation_posted : ∃ r,
    (sampleConversation.send (fun _ => 1) .alice Sample.nonce ([7] : Bytes)).posted = [⟨.alice, [7], some r⟩] ∧
      NativeHolds r (Sample.header 0) (Sample.sealed [7]) :=
  sampleConversation_begins.posted_send (P := Sample.aead)
    (fun p => (sampleSide p).lawful (E := Sample.naming) (M := Mls.Reference.crates) Sample.crates_lawful)
    (show (sampleSurface .alice).bytes ([7] : Bytes) = some [7] from rfl) rfl

theorem sampleSteps_honest : Run.Along (Conversation.step fun _ => 1) (Conversation.Honest fun _ => 1)
    sampleConversation sampleSteps := by
  obtain ⟨r, hposted, hr⟩ := sampleConversation_posted
  refine ⟨trivial, ⟨?_, ?_, trivial⟩, fun m hm => ?_, trivial⟩
  · rintro ⟨⟩
  · rintro ⟨⟩
  · change (sampleConversation.send (fun _ => 1) .alice Sample.nonce ([7] : Bytes)).posted[0]? = some m at hm
    rw [hposted] at hm
    obtain rfl := Option.some.inj hm
    refine ⟨rfl, ?_⟩
    rintro sealed header encrypted hsealed hholds
    obtain rfl := Option.some.inj hsealed
    obtain ⟨rfl, rfl⟩ := nativeHolds_inj hr hholds
    exact sampleParcel_bears

theorem conversation_refines_sample :
    Refines (fun _ => 1) (Run.exec (Conversation.step fun _ => 1) sampleConversation sampleSteps)
      (Run.exec (Exchange.step Sample.aead) sampleExchange
        [.encrypt .alice Sample.nonce [7], .deliver 0 Sample.freshSecret]) :=
  conversation_refines (P := Sample.aead) Sample.crates_lawful
    (sampleConversation_begins.refines rfl fun _ => rfl) sampleSteps_honest

theorem api_delivers_iff_sample :
    let net := Run.exec (Conversation.step fun _ => 1) sampleConversation sampleSteps
    net.Delivers ∧ net.opened 0 = some (some [7]) := by
  have hlength : Run.Throughout (Exchange.step Sample.aead) (fun x => x.sent.length ≤ 2) sampleExchange
      (sampleSteps.filterMap Step.move) := Exchange.length_sent_throughout Sample.aead (by decide)
  have hall := (api_delivers_iff Sample.crates_lawful sample_inverts sampleExchange_start sampleConversation_begins
    sampleSteps_honest (Exchange.freshKey_along _ (by decide) (by decide))
    (hlength.mono fun x h => Exchange.shortChains_of_length (h.trans_lt (by norm_num)))).2
    (hlength.mono fun x h => Exchange.fewOvertaken_of_length (h.trans (by decide)))
  -- and it has been handed on
  obtain ⟨r, hposted, -⟩ := sampleConversation_posted
  let before := Run.exec (Conversation.step fun _ => 1) sampleConversation (sampleSteps.take 2)
  have hget : before.posted[0]? = some ⟨.alice, [7], some r⟩ := congrArg (·[0]?) hposted
  have hsame : before.opened = sampleConversation.opened :=
    Conversation.opened_send (S := sampleSurface) .alice Sample.nonce ([7] : Bytes)
  have hopened : before.opened 0 = none := congrFun hsame 0
  have hlast : (before.step (fun _ => 1) (.deliver 0 .bob Sample.freshSecret sampleParcel)).Delivers := hall
  have hlater := Conversation.Delivers.opened hget rfl hopened hlast
  exact ⟨hall, hlater⟩

end GhostCrypt.Network
