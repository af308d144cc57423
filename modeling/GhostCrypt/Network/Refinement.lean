/-
A conversation over the API. Two applications call `session_encrypt` and `session_decrypt` on a session
each, hand on what the calls return, and make other well-formed calls in between that leave the two sessions
alone. `Surface` is what they see of a store; over any two of them that keep their promises the conversation
refines `Exchange`.
-/
import GhostCrypt.Lib.Lists
import GhostCrypt.Lib.Run
import GhostCrypt.Ratchet.Exchange
import GhostCrypt.Ratchet.Panic

namespace GhostCrypt.Network

open Ratchet

variable {B : Type} [ByteString B] {P : Primitives B}

/-! ## Surfaces -/

variable (B) in
/-- A store of sessions under handles, as its caller sees it: the forms in which plaintexts and messages
cross the boundary, the calls on a session, and the other calls. -/
structure Surface where
  Store : Type
  Plain : Type
  Sealed : Type
  Parcel : Type
  Other : Type
  /-- The session under a handle. -/
  session : Store → UInt32 → Option (Session B)
  /-- No call on sessions has failed inside. -/
  Sound : Store → Prop
  /-- The bytes that a plaintext stands for. -/
  bytes : Plain → Option Bytes
  /-- What `session_encrypt` returned is this message. -/
  Contains : Sealed → MessageHeader → Aead.Encrypted → Prop
  /-- What `session_decrypt` is given is this message. -/
  Bears : Parcel → MessageHeader → Aead.Encrypted → Prop
  /-- The call is well formed, and neither names the session of the handle nor replaces it. -/
  Elsewhere : UInt32 → Store → Other → Prop
  encrypt : Aead.Nonce → UInt32 → Plain → Store → Outcome String Sealed × Store
  decrypt : StaticSecret → UInt32 → Parcel → Store → Outcome String Plain × Store
  other : Store → Other → Store

variable (P) in
/-- What a caller can rely on: the calls on a session do what the session does, and the others leave it
alone. -/
structure Surface.Lawful (S : Surface B) : Prop where
  encrypt : ∀ {st handle session plain plaintext} (nonce : Aead.Nonce), S.Sound st →
    S.session st handle = some session → S.bytes plain = some plaintext →
    S.Sound (S.encrypt nonce handle plain st).2 ∧
    S.session (S.encrypt nonce handle plain st).2 handle = some (session.encrypt P nonce plaintext).2 ∧
    Option.Rel (fun c m => S.Contains c m.1 m.2) (S.encrypt nonce handle plain st).1.value
      (session.encrypt P nonce plaintext).1.value
  malformed : ∀ {st handle plain} (nonce : Aead.Nonce), S.bytes plain = none → (S.encrypt nonce handle plain st).2 = st
  decrypt : ∀ {st handle session parcel header encrypted} (fresh : StaticSecret), S.Sound st →
    S.session st handle = some session → S.Bears parcel header encrypted → session.WellFormed header encrypted →
    S.Sound (S.decrypt fresh handle parcel st).2 ∧
    S.session (S.decrypt fresh handle parcel st).2 handle = some (session.decrypt P fresh header encrypted).2 ∧
    (S.decrypt fresh handle parcel st).1.value.bind S.bytes = (session.decrypt P fresh header encrypted).1.value
  other : ∀ {st handle c}, S.Sound st → S.Elsewhere handle st c →
    S.Sound (S.other st c) ∧ S.session (S.other st c) handle = S.session st handle

/-! ## The conversation -/

/-- A `session_encrypt` call that used up a number, and what it returned unless it failed. -/
structure Posted (S : Party → Surface B) where
  sender : Party
  plaintext : Bytes
  sealed : Option (S sender).Sealed

/-- Two stores, the messages in the order of their `session_encrypt` calls, and the bytes, if any, that
`session_decrypt` returned for each. -/
structure Conversation (S : Party → Surface B) where
  store : ∀ p, (S p).Store
  posted : List (Posted S)
  opened : ℕ → Option (Option Bytes)

/-- A step: `session_encrypt`, `session_decrypt` with what stands for the `i`-th message, or another call. -/
inductive Step (S : Party → Surface B)
  | encrypt (p : Party) (nonce : Aead.Nonce) (plain : (S p).Plain)
  | deliver (i : ℕ) (p : Party) (fresh : StaticSecret) (parcel : (S p).Parcel)
  | other (p : Party) (c : (S p).Other)

/-- The move of the abstract conversation that a step stands for. -/
def Step.move {S : Party → Surface B} : Step S → Option Move
  | .encrypt p nonce plain => ((S p).bytes plain).map (.encrypt p nonce)
  | .deliver i _ fresh _ => some (.deliver i fresh)
  | .other _ _ => none

namespace Conversation

variable {S : Party → Surface B} (handle : Party → UInt32)

/-- The session of a party has a chain to send in. -/
def CanSend (net : Conversation S) (p : Party) : Bool :=
  ((S p).session (net.store p) (handle p)).any fun session => session.sendingChain.isSome

/-- `session_encrypt` on the session of `p`. -/
def send (net : Conversation S) (p : Party) (nonce : Aead.Nonce) (plain : (S p).Plain) : Conversation S :=
  let r := (S p).encrypt nonce (handle p) plain (net.store p)
  let store := Function.update net.store p r.2
  match (S p).bytes plain, net.CanSend handle p with
  | some plaintext, true => { net with store, posted := net.posted ++ [⟨p, plaintext, r.1.value⟩] }
  | _, _ => { net with store }

/-- `session_decrypt` on the session of `p`, with what stands for the `i`-th message. -/
def receive (net : Conversation S) (i : ℕ) (p : Party) (fresh : StaticSecret) (parcel : (S p).Parcel) :
    Conversation S :=
  let r := (S p).decrypt fresh (handle p) parcel (net.store p)
  { net with
    store := Function.update net.store p r.2
    opened := Function.update net.opened i (some (r.1.value.bind (S p).bytes)) }

/-- One step. A message is delivered at most once, and not at all if there is none. -/
def step (net : Conversation S) : Step S → Conversation S
  | .encrypt p nonce plain => net.send handle p nonce plain
  | .deliver i p fresh parcel =>
    if (net.posted[i]?).any (·.sealed.isSome) ∧ net.opened i = none then net.receive handle i p fresh parcel else net
  | .other p c => { net with store := Function.update net.store p ((S p).other (net.store p) c) }

/-- What the applications and the network do: a message comes to the other end as it was sent, and the other
calls are well formed and about something else. -/
def Honest (net : Conversation S) : Step S → Prop
  | .encrypt _ _ _ => True
  | .deliver i p _ parcel => ∀ m, net.posted[i]? = some m → p = m.sender.other ∧
      ∀ sealed header encrypted, m.sealed = some sealed → (S m.sender).Contains sealed header encrypted →
        (S p).Bears parcel header encrypted
  | .other p c => (S p).Elsewhere (handle p) (net.store p) c

/-- Every message delivered gave back its plaintext. -/
def Delivers (net : Conversation S) : Prop :=
  ∀ (i : ℕ) (m : Posted S) r, net.posted[i]? = some m → net.opened i = some r → r = some m.plaintext

end Conversation

/-! ## The refinement -/

section

variable {S : Party → Surface B}

/-- What was posted is the message, and the message is well formed. -/
structure Shows (m : Posted S) (m' : Message) : Prop where
  sender : m.sender = m'.sender
  plaintext : m.plaintext = m'.plaintext
  sealed : Option.Rel (fun c encrypted => (S m.sender).Contains c m'.header encrypted) m.sealed m'.encrypted
  header : m'.header.dhPublicKey.length = 32
  nonce : ∀ encrypted, m'.encrypted = some encrypted → encrypted.nonce.length = 12

/-- Both stores hold the sessions of the abstract conversation, and what was posted and opened is what was
sent and delivered there. -/
structure Refines (handle : Party → UInt32) (net : Conversation S) (x : Exchange B) : Prop where
  sound : ∀ p, (S p).Sound (net.store p)
  session : ∀ p, (S p).session (net.store p) (handle p) = some (x.session p)
  posted : List.Forall₂ Shows net.posted x.sent
  opened : ∀ i, net.opened i = (x.result i).map Outcome.value

variable {handle : Party → UInt32} {net : Conversation S} {x : Exchange B}

namespace Refines

omit [ByteString B] in
/-- A call on the store of `p`. -/
theorem update (h : Refines handle net x) {p : Party} {st : (S p).Store} {session : Session B} (hsound : (S p).Sound st)
    (hsession : (S p).session st (handle p) = some session) (q : Party) :
    (S q).Sound (Function.update net.store p st q) ∧
      (S q).session (Function.update net.store p st q) (handle q) = some (Function.update x.session p session q) := by
  by_cases hq : q = p
  · subst hq
    rw [Function.update_self, Function.update_self]
    exact ⟨hsound, hsession⟩
  · rw [Function.update_of_ne hq, Function.update_of_ne hq]
    exact ⟨h.sound q, h.session q⟩

/-- The message of an `encrypt` call, as posted. -/
theorem shows {p : Party} {nonce : Aead.Nonce} {plaintext : Bytes} {session : Session B} {header : MessageHeader}
    {key : B} (hnext : (session.nextMessageKey P).1 = .ok (header, key)) (hlen : header.dhPublicKey.length = 32)
    {r : Outcome String (S p).Sealed} (hsealed : Option.Rel (fun c m => (S p).Contains c m.1 m.2) r.value
      (session.encrypt P nonce plaintext).1.value) :
    Shows (⟨p, plaintext, r.value⟩ : Posted S)
      ⟨p, plaintext, header, Exchange.ciphertext (session.encrypt P nonce plaintext).1⟩ := by
  have hok : ∀ m, (session.encrypt P nonce plaintext).1 = .ok m → m.1 = header ∧ m.2.nonce = nonce.1 := by
    rintro ⟨header', encrypted⟩ hm
    obtain ⟨key', hkey', henc⟩ := (Session.encrypt_ok P).1 hm
    rw [hnext] at hkey'
    exact ⟨(Prod.mk.inj (Outcome.ok.inj hkey')).1.symm, ((Aead.encrypt_ok P).1 henc).1⟩
  have hvalue : Exchange.ciphertext (session.encrypt P nonce plaintext).1 =
      (session.encrypt P nonce plaintext).1.value.map Prod.snd := by
    cases (session.encrypt P nonce plaintext).1 <;> rfl
  rw [hvalue]
  refine ⟨rfl, rfl, ?_, hlen, fun encrypted he => ?_⟩
  · show Option.Rel (fun c encrypted => (S p).Contains c header encrypted) r.value _
    generalize r.value = v at hsealed
    generalize hw : (session.encrypt P nonce plaintext).1.value = w at hsealed
    cases hsealed with
    | some hcontains =>
      rw [(hok _ (Outcome.value_eq_some.1 hw)).1] at hcontains
      exact .some hcontains
    | none => exact .none
  · obtain ⟨m, hm, rfl⟩ := Option.map_eq_some_iff.1 he
    rw [(hok m (Outcome.value_eq_some.1 hm)).2]
    exact nonce.2

theorem send (hS : ∀ p, (S p).Lawful P) (h : Refines handle net x) (p : Party) (nonce : Aead.Nonce)
    {plain : (S p).Plain} {plaintext : Bytes} (hplain : (S p).bytes plain = some plaintext) :
    Refines handle (net.send handle p nonce plain) (x.send P p nonce plaintext) := by
  obtain ⟨hsound, hsession, hsealed⟩ := (hS p).encrypt nonce (h.sound p) (h.session p) hplain
  have hupdate := h.update hsound hsession
  have hcan : net.CanSend handle p = (x.session p).sendingChain.isSome := by
    rw [Conversation.CanSend, h.session p, Option.any_some]
  rcases Session.nextMessageKey_cases P (x.session p) with ⟨hc, hn⟩ | ⟨c, hc, hn⟩
  · rw [hc, Option.isSome_none] at hcan
    simp only [Conversation.send, Exchange.send, hplain, hcan, hn]
    exact ⟨fun q => (hupdate q).1, fun q => (hupdate q).2, h.posted, h.opened⟩
  · rw [hc, Option.isSome_some] at hcan
    have hnext := congrArg Prod.fst hn
    simp only [Conversation.send, Exchange.send, hplain, hcan, hn]
    refine ⟨fun q => (hupdate q).1, fun q => (hupdate q).2, List.rel_append h.posted (.cons ?_ .nil), h.opened⟩
    exact shows hnext (PublicKey.length_toVec _) hsealed

theorem receive (hS : ∀ p, (S p).Lawful P) (h : Refines handle net x) {i : ℕ} {m : Posted S} {m' : Message}
    (hshows : Shows m m') {encrypted : Aead.Encrypted} (he : m'.encrypted = some encrypted) (fresh : StaticSecret)
    {p : Party} (hp : p = m'.sender.other) {parcel : (S p).Parcel} (hbears : (S p).Bears parcel m'.header encrypted) :
    Refines handle (net.receive handle i p fresh parcel) (x.receive P i m' encrypted fresh) := by
  subst hp
  have hwell : (x.session m'.sender.other).WellFormed m'.header encrypted :=
    ⟨fun _ => hshows.header, fun _ => hshows.nonce encrypted he⟩
  obtain ⟨hsound, hsession, hopened⟩ := (hS _).decrypt fresh (h.sound _) (h.session _) hbears hwell
  have hupdate := h.update hsound hsession
  refine ⟨fun q => (hupdate q).1, fun q => (hupdate q).2, h.posted, fun j => ?_⟩
  simp only [Conversation.receive, Exchange.receive, Function.update_apply, hopened]
  split
  · rfl
  · exact h.opened j

omit [ByteString B] in
theorem posted_get (h : Refines handle net x) (i : ℕ) : Option.Rel Shows net.posted[i]? x.sent[i]? :=
  Lists.forall₂_getElem? h.posted i

theorem deliver (hS : ∀ p, (S p).Lawful P) (h : Refines handle net x) {i : ℕ} {p : Party} {fresh : StaticSecret}
    {parcel : (S p).Parcel} (hs : net.Honest handle (.deliver i p fresh parcel)) :
    Refines handle (net.step handle (.deliver i p fresh parcel)) (x.step P (.deliver i fresh)) := by
  have hget := h.posted_get i
  have hopened := h.opened i
  simp only [Exchange.step, Conversation.step]
  generalize hm : net.posted[i]? = posted at hget
  generalize hm' : x.sent[i]? = sent at hget
  cases hget with
  | none => simpa using h
  | @some m m' hshows =>
    cases hr : x.result i with
    | some r =>
      rw [hr] at hopened
      simpa [hopened] using h
    | none =>
      rw [hr, Option.map_none] at hopened
      have hsealed := hshows.sealed
      generalize hc : m.sealed = c at hsealed
      generalize he : m'.encrypted = e at hsealed
      cases hsealed with
      | none => simpa [hc, he] using h
      | @some sealed encrypted hcontains =>
        obtain ⟨hp, hbears⟩ := hs m hm
        rw [if_pos (by simp [hc, hopened])]
        simp only [he]
        exact h.receive hS hshows he fresh (hshows.sender ▸ hp) (hbears _ _ _ hc hcontains)

/-- Every honest step of the API is the move it stands for. -/
theorem step (hS : ∀ p, (S p).Lawful P) (h : Refines handle net x) {s : Step S} (hs : net.Honest handle s) :
    Refines handle (net.step handle s) (Run.exec (Exchange.step P) x s.move.toList) := by
  cases s with
  | encrypt p nonce plain =>
    cases hplain : (S p).bytes plain with
    | some plaintext =>
      simp only [Step.move, hplain, Option.map_some, Option.toList_some]
      exact h.send hS p nonce hplain
    | none =>
      have hsame : net.send handle p nonce plain = net := by
        simp only [Conversation.send, hplain, (hS p).malformed nonce hplain, Function.update_eq_self]
      simp only [Step.move, hplain, Option.map_none, Option.toList_none, Run.exec_nil]
      show Refines handle (net.send handle p nonce plain) x
      rw [hsame]
      exact h
  | deliver i p fresh parcel => exact h.deliver hS hs
  | other p c =>
    obtain ⟨hsound, hsession⟩ := (hS p).other (h.sound p) hs
    have hupdate := h.update hsound (hsession.trans (h.session p))
    rw [Function.update_eq_self] at hupdate
    exact ⟨fun q => (hupdate q).1, fun q => (hupdate q).2, h.posted, h.opened⟩

/-- Every run of the API is a run of the abstract conversation. -/
theorem exec (hS : ∀ p, (S p).Lawful P) (h : Refines handle net x) {steps : List (Step S)}
    (hs : Run.Along (Conversation.step handle) (Conversation.Honest handle) net steps) :
    Refines handle (Run.exec (Conversation.step handle) net steps)
      (Run.exec (Exchange.step P) x (steps.filterMap Step.move)) :=
  Run.exec_simulation (fun _ _ _ h hs => h.step hS hs) h hs

end Refines

end

end GhostCrypt.Network
