/-
From published keys to two sessions. Each party makes its keys on the surface it uses, Alice starts from
what Bob has published, Bob answers what Alice has sent, and each makes a session; the other calls on their
stores meanwhile are well formed, replace nothing and leave the two sessions alone. Over any two surfaces that
keep their promises the sessions belong together.
-/
import GhostCrypt.Network.Refinement
import GhostCrypt.X3dh.Server

namespace GhostCrypt.Network

open Identity Ratchet X3dh

variable {B : Type} [ByteString B] {P : Primitives B} {E : Ed25519}

/-- What Ed25519 promises here: signatures verify, and verifying keys can be read back. -/
structure Verifies (E : Ed25519) : Prop where
  verifies : ∀ k message, E.verify (E.verifyingKey k) message (E.sign k message) = true
  fromBytes : ∀ k, E.fromBytes (E.verifyingKey k).bytes = .ok (E.verifyingKey k)

/-! ## Keys on a surface -/

/-- The public keys of a party, as bytes. -/
structure Card where
  identityKey : Bytes
  verifyingKey : Bytes
  signedPreKey : Bytes
  signature : Bytes

variable (B) in
/-- A surface with its calls on keys: what stands for a key, and what the calls return unless they fail. Public
keys cross the boundary in the form of plaintexts. -/
structure KeySurface extends Surface B where
  Identity : Type
  PreKey : Type
  Bundle : Type
  Secret : Type
  /-- The keys that a reference stands for. -/
  identity : Store → Identity → Option IdentityKeyPair
  preKey : Store → PreKey → Option SignedPreKey
  secret : Secret → Option B
  /-- The bundle of these keys, without a one-time pre-key. -/
  Offers : Bundle → Card → Prop
  /-- The call is well formed and replaces nothing. -/
  Spares : Store → Other → Prop
  generateIdentityKeypair : Bytes32 → SigningKey → Store → Option (Identity × Plain × Plain) × Store
  generateSignedPreKey : Bytes32 → Identity → Store → Option (PreKey × Plain × Plain) × Store
  x3dhInitiate : StaticSecret → Identity → Bundle → Store → Option (Secret × Plain)
  x3dhRespond : Identity → PreKey → Plain → Plain → Store → Option Secret
  createInitiator : StaticSecret → Secret → Plain → Store → Option UInt32 × Store
  createResponder : Secret → PreKey → Store → Option UInt32 × Store

/-- The references stand for the same keys in both stores. -/
def KeySurface.KeepsKeys (S : KeySurface B) (st st' : S.Store) : Prop :=
  (∀ r, S.identity st' r = S.identity st r) ∧ ∀ r, S.preKey st' r = S.preKey st r

variable (P E) in
/-- What a caller can rely on. -/
structure KeySurface.Lawful (S : KeySurface B) : Prop extends S.toSurface.Lawful P where
  plain : ∀ bytes, ∃ plain, S.bytes plain = some bytes
  bundle : ∀ card, ∃ bundle, S.Offers bundle card
  generateIdentityKeypair : ∀ {st} (secretSeed : Bytes32) (signingKey : SigningKey), S.Sound st →
    ∃ r ik vk, (S.generateIdentityKeypair secretSeed signingKey st).1 = some (r, ik, vk) ∧
      S.Sound (S.generateIdentityKeypair secretSeed signingKey st).2 ∧
      (∀ handle, S.session (S.generateIdentityKeypair secretSeed signingKey st).2 handle = S.session st handle) ∧
      S.identity (S.generateIdentityKeypair secretSeed signingKey st).2 r = some (.generate P secretSeed signingKey) ∧
      S.bytes ik = some (P.publicKey ⟨secretSeed⟩).toVec ∧ S.bytes vk = some (E.verifyingKey signingKey).bytes.1
  generateSignedPreKey : ∀ {st r identity} (secretSeed : Bytes32), S.Sound st → S.identity st r = some identity →
    ∃ r' spk sig, (S.generateSignedPreKey secretSeed r st).1 = some (r', spk, sig) ∧
      S.Sound (S.generateSignedPreKey secretSeed r st).2 ∧
      (∀ handle, S.session (S.generateSignedPreKey secretSeed r st).2 handle = S.session st handle) ∧
      S.identity (S.generateSignedPreKey secretSeed r st).2 r = some identity ∧
      S.preKey (S.generateSignedPreKey secretSeed r st).2 r' = some (.generate P E identity secretSeed) ∧
      S.bytes spk = some (P.publicKey ⟨secretSeed⟩).toVec ∧
      S.bytes sig = some (identity.sign E (P.publicKey ⟨secretSeed⟩).toVec)
  x3dhInitiate : ∀ {st r alice bundle} {b : PreKeyBundle} {result} (ephemeral : StaticSecret),
    S.identity st r = some alice →
    S.Offers bundle ⟨b.identityKey.toVec, b.identityVerifyingKey.bytes.1, b.signedPreKey.toVec, b.signature⟩ →
    E.fromBytes b.identityVerifyingKey.bytes = .ok b.identityVerifyingKey → b.oneTimePreKey = none →
    initiate P E ephemeral alice b = .ok result →
    ∃ secret ek, S.x3dhInitiate ephemeral r bundle st = some (secret, ek) ∧
      S.secret secret = some result.sharedSecret ∧ S.bytes ek = some result.ephemeralKey.toVec
  x3dhRespond : ∀ {st r r' bob spk ik ek} {aliceIk aliceEk : PublicKey} {result}, S.identity st r = some bob →
    S.preKey st r' = some spk → S.bytes ik = some aliceIk.toVec → S.bytes ek = some aliceEk.toVec →
    respond P bob spk none aliceIk aliceEk = .ok result →
    ∃ secret, S.x3dhRespond r r' ik ek st = some secret ∧ S.secret secret = some result.sharedSecret
  createInitiator : ∀ {st secret sharedSecret spk} {bobSpk : PublicKey} {session} (fresh : StaticSecret), S.Sound st →
    S.secret secret = some sharedSecret → S.bytes spk = some bobSpk.toVec →
    Session.initAlice P fresh sharedSecret bobSpk = .ok session →
    ∃ handle, (S.createInitiator fresh secret spk st).1 = some handle ∧
      S.Sound (S.createInitiator fresh secret spk st).2 ∧ S.KeepsKeys st (S.createInitiator fresh secret spk st).2 ∧
      S.session (S.createInitiator fresh secret spk st).2 handle = some session
  createResponder : ∀ {st secret sharedSecret r spk}, S.Sound st → S.secret secret = some sharedSecret →
    S.preKey st r = some spk →
    ∃ handle, (S.createResponder secret r st).1 = some handle ∧ S.Sound (S.createResponder secret r st).2 ∧
      S.KeepsKeys st (S.createResponder secret r st).2 ∧
      S.session (S.createResponder secret r st).2 handle = some (Session.initBob sharedSecret spk)
  spares : ∀ {st c}, S.Sound st → S.Spares st c → S.Sound (S.other st c) ∧
    (∀ r identity, S.identity st r = some identity → S.identity (S.other st c) r = some identity) ∧
    ∀ r spk, S.preKey st r = some spk → S.preKey (S.other st c) r = some spk

/-! ## The handshake -/

/-- What the two draw for their keys: the seeds of their identities and of their pre-keys, and Alice's ephemeral
and first ratchet secrets. -/
structure Draws where
  secretSeed : Party → Bytes32
  signingKey : Party → SigningKey
  preKeySeed : Party → Bytes32
  ephemeral : StaticSecret
  fresh : StaticSecret

namespace Draws

variable (P) (E) (d : Draws)

def identity (p : Party) : IdentityKeyPair := .generate P (d.secretSeed p) (d.signingKey p)

def preKey (p : Party) : SignedPreKey := .generate P E (d.identity P p) (d.preKeySeed p)

/-- What Bob publishes. -/
def bundle : PreKeyBundle :=
  { identityKey := (d.identity P .bob).x25519Public, identityVerifyingKey := (d.identity P .bob).verifyingKey E
    signedPreKey := (d.preKey P E .bob).x25519Public, signature := (d.preKey P E .bob).signature,
    oneTimePreKey := none }

def card : Card :=
  { identityKey := (d.bundle P E).identityKey.toVec, verifyingKey := (d.bundle P E).identityVerifyingKey.bytes.1
    signedPreKey := (d.bundle P E).signedPreKey.toVec, signature := (d.bundle P E).signature }

/-- What Alice makes of it. -/
def sharedSecret : B :=
  secretOf P ((d.identity P .alice).dh P (d.bundle P E).signedPreKey)
    (P.diffieHellman d.ephemeral (d.bundle P E).identityKey)
    (P.diffieHellman d.ephemeral (d.bundle P E).signedPreKey) none

/-- The sessions of the two. -/
def session : Party → Option (Session B)
  | .alice => (Session.initAlice P d.fresh (d.sharedSecret P E) (d.preKey P E .bob).x25519Public).value
  | .bob => some (Session.initBob (d.sharedSecret P E) (d.preKey P E .bob))

end Draws

/-- Two stores, and what the calls of the handshake have returned so far: to each its keys and its session, to
Alice the shared secret and her ephemeral key, to Bob the shared secret. -/
structure Handshake (S : Party → KeySurface B) where
  store : ∀ p, (S p).Store
  identity : ∀ p, Option ((S p).Identity × (S p).Plain × (S p).Plain)
  preKey : ∀ p, Option ((S p).PreKey × (S p).Plain × (S p).Plain)
  initiated : Option ((S .alice).Secret × (S .alice).Plain)
  responded : Option (S .bob).Secret
  handle : Party → Option UInt32

/-- A call of the handshake, with what its caller has from the other party, or another call. -/
inductive Event (S : Party → KeySurface B)
  | generateIdentityKeypair (p : Party)
  | generateSignedPreKey (p : Party)
  | x3dhInitiate (bundle : (S .alice).Bundle)
  | x3dhRespond (aliceIk aliceEk : (S .bob).Plain)
  | createInitiator (bobSpk : (S .alice).Plain)
  | createResponder
  | other (p : Party) (c : (S p).Other)

namespace Handshake

variable {S : Party → KeySurface B} (d : Draws) (net : Handshake S)

/-- One step. A call of the handshake that has returned is not made again. -/
def step : Event S → Handshake S
  | .generateIdentityKeypair p =>
    match net.identity p with
    | none =>
      let r := (S p).generateIdentityKeypair (d.secretSeed p) (d.signingKey p) (net.store p)
      { net with store := Function.update net.store p r.2, identity := Function.update net.identity p r.1 }
    | some _ => net
  | .generateSignedPreKey p =>
    match net.preKey p, net.identity p with
    | none, some (identity, _, _) =>
      let r := (S p).generateSignedPreKey (d.preKeySeed p) identity (net.store p)
      { net with store := Function.update net.store p r.2, preKey := Function.update net.preKey p r.1 }
    | _, _ => net
  | .x3dhInitiate bundle =>
    match net.initiated, net.identity .alice with
    | none, some (identity, _, _) =>
      { net with initiated := (S .alice).x3dhInitiate d.ephemeral identity bundle (net.store .alice) }
    | _, _ => net
  | .x3dhRespond aliceIk aliceEk =>
    match net.responded, net.identity .bob, net.preKey .bob with
    | none, some (identity, _, _), some (preKey, _, _) =>
      { net with responded := (S .bob).x3dhRespond identity preKey aliceIk aliceEk (net.store .bob) }
    | _, _, _ => net
  | .createInitiator bobSpk =>
    match net.handle .alice, net.initiated with
    | none, some (secret, _) =>
      let r := (S .alice).createInitiator d.fresh secret bobSpk (net.store .alice)
      { net with store := Function.update net.store .alice r.2, handle := Function.update net.handle .alice r.1 }
    | _, _ => net
  | .createResponder =>
    match net.handle .bob, net.responded, net.preKey .bob with
    | none, some secret, some (preKey, _, _) =>
      let r := (S .bob).createResponder secret preKey (net.store .bob)
      { net with store := Function.update net.store .bob r.2, handle := Function.update net.handle .bob r.1 }
    | _, _, _ => net
  | .other p c => { net with store := Function.update net.store p ((S p).other (net.store p) c) }

/-- What Bob has published. -/
structure Published (card : Card) : Prop where
  identity : ∃ r ik vk, net.identity .bob = some (r, ik, vk) ∧ (S .bob).bytes ik = some card.identityKey ∧
    (S .bob).bytes vk = some card.verifyingKey
  preKey : ∃ r spk sig, net.preKey .bob = some (r, spk, sig) ∧ (S .bob).bytes spk = some card.signedPreKey ∧
    (S .bob).bytes sig = some card.signature

/-- What the applications and the network do: a call is made once what it needs is there, keys come to the other
end as they were sent, and the other calls are well formed, replace nothing and are not about the session. -/
def Honest : Event S → Prop
  | .generateIdentityKeypair _ => True
  | .generateSignedPreKey p => net.identity p ≠ none
  | .x3dhInitiate bundle => net.identity .alice ≠ none ∧ ∃ card, net.Published card ∧ (S .alice).Offers bundle card
  | .x3dhRespond aliceIk aliceEk => ∃ r ik vk secret ek, net.identity .alice = some (r, ik, vk) ∧
      net.initiated = some (secret, ek) ∧ (S .bob).bytes aliceIk = (S .alice).bytes ik ∧
      (S .bob).bytes aliceEk = (S .alice).bytes ek
  | .createInitiator bobSpk => net.initiated ≠ none ∧ ∃ r spk sig, net.preKey .bob = some (r, spk, sig) ∧
      (S .alice).bytes bobSpk = (S .bob).bytes spk
  | .createResponder => net.responded ≠ none
  | .other p c => (S p).Spares (net.store p) c ∧
      ∀ handle, net.handle p = some handle → (S p).Elsewhere handle (net.store p) c

/-- The call has returned. -/
def Done : Event S → Prop
  | .generateIdentityKeypair p => net.identity p ≠ none
  | .generateSignedPreKey p => net.preKey p ≠ none
  | .x3dhInitiate _ => net.initiated ≠ none
  | .x3dhRespond _ _ => net.responded ≠ none
  | .createInitiator _ => net.handle .alice ≠ none
  | .createResponder => net.handle .bob ≠ none
  | .other _ _ => True

/-! ## What the two agree on -/

variable (P E) in
/-- What `generate_identity_keypair` returned to `p`: a reference to the identity drawn, and its public keys. -/
structure ShowsIdentity (p : Party) (st : (S p).Store) (r : (S p).Identity × (S p).Plain × (S p).Plain) : Prop where
  identity : (S p).identity st r.1 = some (d.identity P p)
  identityKey : (S p).bytes r.2.1 = some (d.identity P p).x25519Public.toVec
  verifyingKey : (S p).bytes r.2.2 = some ((d.identity P p).verifyingKey E).bytes.1

variable (P E) in
/-- What `generate_signed_pre_key` returned to `p`: a reference to the pre-key drawn, its public key and its
signature. -/
structure ShowsPreKey (p : Party) (st : (S p).Store) (r : (S p).PreKey × (S p).Plain × (S p).Plain) : Prop where
  preKey : (S p).preKey st r.1 = some (d.preKey P E p)
  publicKey : (S p).bytes r.2.1 = some (d.preKey P E p).x25519Public.toVec
  signature : (S p).bytes r.2.2 = some (d.preKey P E p).signature

variable (P E) in
/-- What has returned stands for the keys that were drawn, both have the same shared secret, and the sessions
are made from it. -/
structure Agreed : Prop where
  sound : ∀ p, (S p).Sound (net.store p)
  identity : ∀ p, ∀ r ∈ net.identity p, ShowsIdentity P E d p (net.store p) r
  preKey : ∀ p, ∀ r ∈ net.preKey p, ShowsPreKey P E d p (net.store p) r
  initiated : ∀ r ∈ net.initiated, (S .alice).secret r.1 = some (d.sharedSecret P E) ∧
    (S .alice).bytes r.2 = some (P.publicKey d.ephemeral).toVec
  responded : ∀ secret ∈ net.responded, (S .bob).secret secret = some (d.sharedSecret P E)
  session : ∀ p, ∀ handle ∈ net.handle p, (S p).session (net.store p) handle = d.session P E p

variable (P E) in
/-- What the two calls of the key agreement have returned is one shared secret. -/
structure Computes : Prop where
  initiated : ∀ r ∈ net.initiated, (S .alice).secret r.1 = some (d.sharedSecret P E)
  responded : ∀ secret ∈ net.responded, (S .bob).secret secret = some (d.sharedSecret P E)

/-- No call has returned before those that it needs. -/
structure Ordered : Prop where
  preKey : ∀ p, net.preKey p ≠ none → net.identity p ≠ none
  initiated : net.initiated ≠ none → net.identity .alice ≠ none ∧ net.preKey .bob ≠ none
  responded : net.responded ≠ none → net.initiated ≠ none

section

variable {d : Draws} {net : Handshake S}

omit [ByteString B] in
theorem update_some_ne_none {β : Party → Type} (f : ∀ p, Option (β p)) {p q : Party} (v : β p)
    (h : f q ≠ none ∨ q = p) :
    Function.update f p (some v) q ≠ none := by
  by_cases hq : q = p
  · subst hq
    rw [Function.update_self]
    exact Option.some_ne_none v
  · rw [Function.update_of_ne hq]
    exact h.resolve_right hq

omit [ByteString B] in
theorem forall_update_some {β : Party → Type} {f : ∀ p, Option (β p)} {p : Party} {v : β p} {R : ∀ q, β q → Prop}
    (hf : ∀ q, ∀ r ∈ f q, R q r) (hv : R p v) : ∀ q, ∀ r ∈ Function.update f p (some v) q, R q r := by
  refine (Function.forall_update_iff f fun q o => ∀ r ∈ o, R q r).2 ⟨?_, fun q _ => hf q⟩
  rintro _ ⟨⟩
  exact hv

/-- A call on the store of `p` that leaves the keys and the session alone. -/
theorem Agreed.update_store (h : net.Agreed P E d) {p : Party} {st : (S p).Store} (hsound : (S p).Sound st)
    (hidentity : ∀ r ∈ net.identity p, (S p).identity st r.1 = (S p).identity (net.store p) r.1)
    (hpreKey : ∀ r ∈ net.preKey p, (S p).preKey st r.1 = (S p).preKey (net.store p) r.1)
    (hsession : ∀ handle ∈ net.handle p, (S p).session st handle = (S p).session (net.store p) handle) :
    { net with store := Function.update net.store p st }.Agreed P E d := by
  have hkeep := (Function.forall_update_iff net.store (a := p) (b := st) fun q st => (S q).Sound st ∧
    (∀ r ∈ net.identity q, (S q).identity st r.1 = (S q).identity (net.store q) r.1) ∧
    (∀ r ∈ net.preKey q, (S q).preKey st r.1 = (S q).preKey (net.store q) r.1) ∧
    ∀ handle ∈ net.handle q, (S q).session st handle = (S q).session (net.store q) handle).2
    ⟨⟨hsound, hidentity, hpreKey, hsession⟩, fun q _ => ⟨h.sound q, fun _ _ => rfl, fun _ _ => rfl, fun _ _ => rfl⟩⟩
  constructor
  · exact fun q => (hkeep q).1
  · exact fun q r hr => { h.identity q r hr with identity := ((hkeep q).2.1 r hr).trans (h.identity q r hr).identity }
  · exact fun q r hr => { h.preKey q r hr with preKey := ((hkeep q).2.2.1 r hr).trans (h.preKey q r hr).preKey }
  · exact h.initiated
  · exact h.responded
  · exact fun q handle hq => ((hkeep q).2.2.2 handle hq).trans (h.session q handle hq)

theorem Agreed.computes (h : net.Agreed P E d) : net.Computes P E d :=
  ⟨fun r hr => (h.initiated r hr).1, h.responded⟩

/-! ## The calls -/

theorem Agreed.generateIdentityKeypair (hS : ∀ p, (S p).Lawful P E) (h : net.Agreed P E d) (ho : net.Ordered)
    (p : Party) : let net' := net.step d (.generateIdentityKeypair p)
    net'.Agreed P E d ∧ net'.Ordered ∧ net'.Done (.generateIdentityKeypair p) := by
  cases hnone : net.identity p with
  | some r =>
    have hdone : net.identity p ≠ none := hnone ▸ Option.some_ne_none r
    simp only [step, hnone]
    exact ⟨h, ho, hdone⟩
  | none =>
    obtain ⟨r, ik, vk, hr, hsound, hsession, hidentity, hik, hvk⟩ :=
      (hS p).generateIdentityKeypair (d.secretSeed p) (d.signingKey p) (h.sound p)
    have hpre : net.preKey p = none := not_not.1 fun hne => ho.preKey p hne hnone
    have hstore := h.update_store hsound (by simp [hnone]) (by simp [hpre]) fun handle _ => hsession handle
    simp only [step, hnone, hr]
    refine ⟨{ hstore with identity := ?_ }, { ho with preKey := fun q hq => ?_, initiated := fun hi => ?_ }, ?_⟩
    · refine forall_update_some hstore.identity ?_
      simp only [Function.update_self]
      exact ⟨hidentity, hik, hvk⟩
    · exact update_some_ne_none _ _ (.inl (ho.preKey q hq))
    · exact ⟨update_some_ne_none _ _ (.inl (ho.initiated hi).1), (ho.initiated hi).2⟩
    · exact update_some_ne_none _ _ (.inr rfl)

theorem Agreed.generateSignedPreKey (hS : ∀ p, (S p).Lawful P E) (h : net.Agreed P E d) (ho : net.Ordered) {p : Party}
    (hs : net.Honest (.generateSignedPreKey p)) : let net' := net.step d (.generateSignedPreKey p)
    net'.Agreed P E d ∧ net'.Ordered ∧ net'.Done (.generateSignedPreKey p) := by
  cases hnone : net.preKey p with
  | some r =>
    have hdone : net.preKey p ≠ none := hnone ▸ Option.some_ne_none r
    simp only [step, hnone]
    exact ⟨h, ho, hdone⟩
  | none =>
    obtain ⟨⟨ref, ik, vk⟩, hi⟩ := Option.ne_none_iff_exists'.1 hs
    have hidentity := (h.identity p _ hi).identity
    obtain ⟨r, spk, sig, hr, hsound, hsession, hkept, hpre, hspk, hsig⟩ :=
      (hS p).generateSignedPreKey (d.preKeySeed p) (h.sound p) hidentity
    have hstore := h.update_store hsound (fun r hr => by
      obtain rfl := Option.some.inj (hi.symm.trans hr)
      exact hkept.trans hidentity.symm) (by simp [hnone]) fun handle _ => hsession handle
    simp only [step, hnone, hi, hr]
    refine ⟨{ hstore with preKey := ?_ }, { ho with preKey := ?_, initiated := fun hi => ?_ }, ?_⟩
    · refine forall_update_some hstore.preKey ?_
      simp only [Function.update_self]
      exact ⟨hpre, hspk, hsig⟩
    · intro q hq
      by_cases hqp : q = p
      · subst hqp
        exact hs
      · simp only [Function.update_of_ne hqp] at hq
        exact ho.preKey q hq
    · exact ⟨(ho.initiated hi).1, update_some_ne_none _ _ (.inl (ho.initiated hi).2)⟩
    · exact update_some_ne_none _ _ (.inr rfl)

/-- What Bob publishes are his keys. -/
theorem Agreed.published (h : net.Agreed P E d) {card : Card} (hp : net.Published card) : card = d.card P E := by
  obtain ⟨⟨r, ik, vk, hr, hik, hvk⟩, r', spk, sig, hr', hspk, hsig⟩ := hp
  obtain ⟨-, hik', hvk'⟩ := h.identity .bob _ hr
  obtain ⟨-, hspk', hsig'⟩ := h.preKey .bob _ hr'
  obtain ⟨identityKey, verifyingKey, signedPreKey, signature⟩ := card
  obtain rfl := Option.some.inj (hik.symm.trans hik')
  obtain rfl := Option.some.inj (hvk.symm.trans hvk')
  obtain rfl := Option.some.inj (hspk.symm.trans hspk')
  obtain rfl := Option.some.inj (hsig.symm.trans hsig')
  rfl

theorem Agreed.x3dhInitiate (hS : ∀ p, (S p).Lawful P E) (hE : Verifies E) (h : net.Agreed P E d) (ho : net.Ordered)
    {bundle : (S .alice).Bundle} (hs : net.Honest (.x3dhInitiate bundle)) :
    let net' := net.step d (.x3dhInitiate bundle)
    net'.Agreed P E d ∧ net'.Ordered ∧ net'.Done (.x3dhInitiate bundle) := by
  cases hnone : net.initiated with
  | some r =>
    have hdone : net.initiated ≠ none := hnone ▸ Option.some_ne_none r
    simp only [step, hnone]
    exact ⟨h, ho, hdone⟩
  | none =>
    obtain ⟨halice, card, hpublished, hoffers⟩ := hs
    obtain ⟨⟨ref, ik, vk⟩, hi⟩ := Option.ne_none_iff_exists'.1 halice
    have hverify := Server.verify_sign hE.verifies (d.signingKey .bob) (d.preKey P E .bob).x25519Public.toVec
    obtain ⟨secret, ek, hr, hsecret, hek⟩ := (hS .alice).x3dhInitiate (b := d.bundle P E) d.ephemeral
      (h.identity .alice _ hi).identity (h.published hpublished ▸ hoffers) (hE.fromBytes _) rfl
      (initiate_ok.2 ⟨hverify, rfl⟩)
    have hpre : net.preKey .bob ≠ none := by
      obtain ⟨r, spk, sig, hpre, -⟩ := hpublished.preKey
      exact hpre ▸ Option.some_ne_none _
    simp only [step, hnone, hi, hr]
    refine ⟨{ h with initiated := ?_ }, { ho with initiated := fun _ => ⟨halice, hpre⟩, responded := ?_ }, ?_⟩
    · rintro _ ⟨⟩
      exact ⟨hsecret, hek⟩
    · exact fun _ => Option.some_ne_none _
    · exact Option.some_ne_none _

/-- What `x3dh_respond` computes from Alice's keys. -/
theorem sharedSecret_eq (hdh : ∀ a b, P.diffieHellman a (P.publicKey b) = P.diffieHellman b (P.publicKey a))
    (d : Draws) :
    d.sharedSecret P E = secretOf P ((d.preKey P E .bob).dh P (d.identity P .alice).x25519Public)
      ((d.identity P .bob).dh P (P.publicKey d.ephemeral)) ((d.preKey P E .bob).dh P (P.publicKey d.ephemeral))
      none := by
  unfold Draws.sharedSecret
  congr 1
  · exact hdh ⟨d.secretSeed .alice⟩ ⟨d.preKeySeed .bob⟩
  · exact hdh d.ephemeral ⟨d.secretSeed .bob⟩
  · exact hdh d.ephemeral ⟨d.preKeySeed .bob⟩

theorem Agreed.x3dhRespond (hS : ∀ p, (S p).Lawful P E)
    (hdh : ∀ a b, P.diffieHellman a (P.publicKey b) = P.diffieHellman b (P.publicKey a)) (h : net.Agreed P E d)
    (ho : net.Ordered) {aliceIk aliceEk : (S .bob).Plain} (hs : net.Honest (.x3dhRespond aliceIk aliceEk)) :
    let net' := net.step d (.x3dhRespond aliceIk aliceEk)
    net'.Agreed P E d ∧ net'.Ordered ∧ net'.Done (.x3dhRespond aliceIk aliceEk) := by
  cases hnone : net.responded with
  | some r =>
    have hdone : net.responded ≠ none := hnone ▸ Option.some_ne_none r
    simp only [step, hnone]
    exact ⟨h, ho, hdone⟩
  | none =>
    obtain ⟨ref, ik, vk, secret, ek, halice, hinitiated, hik, hek⟩ := hs
    have hinitiated' : net.initiated ≠ none := hinitiated ▸ Option.some_ne_none _
    have hpre := (ho.initiated hinitiated').2
    obtain ⟨⟨bob, _⟩, hbob⟩ := Option.ne_none_iff_exists'.1 (ho.preKey .bob hpre)
    obtain ⟨⟨preKey, _⟩, hpreKey⟩ := Option.ne_none_iff_exists'.1 hpre
    have hresult := respond_eq (P := P) (d.identity P .bob) (d.preKey P E .bob) none (d.identity P .alice).x25519Public
      (P.publicKey d.ephemeral)
    obtain ⟨secret', hr, hsecret⟩ := (hS .bob).x3dhRespond (h.identity .bob _ hbob).identity
      (h.preKey .bob _ hpreKey).preKey (hik.trans (h.identity .alice _ halice).identityKey)
      (hek.trans (h.initiated _ hinitiated).2) hresult
    simp only [step, hnone, hbob, hpreKey, hr]
    refine ⟨{ h with responded := ?_ }, { ho with responded := fun _ => hinitiated' }, Option.some_ne_none _⟩
    rintro _ ⟨⟩
    exact hsecret.trans (congrArg some (sharedSecret_eq hdh d).symm)

theorem Agreed.createInitiator (hS : ∀ p, (S p).Lawful P E) (h : net.Agreed P E d) (ho : net.Ordered)
    {bobSpk : (S .alice).Plain} (hs : net.Honest (.createInitiator bobSpk)) :
    let net' := net.step d (.createInitiator bobSpk)
    net'.Agreed P E d ∧ net'.Ordered ∧ net'.Done (.createInitiator bobSpk) := by
  cases hnone : net.handle .alice with
  | some r =>
    have hdone : net.handle .alice ≠ none := hnone ▸ Option.some_ne_none r
    simp only [step, hnone]
    exact ⟨h, ho, hdone⟩
  | none =>
    obtain ⟨hinitiated, ref, spk, sig, hpreKey, hspk⟩ := hs
    obtain ⟨⟨secret, ek⟩, hi⟩ := Option.ne_none_iff_exists'.1 hinitiated
    obtain ⟨handle, hr, hsound, hkeys, hsession⟩ := (hS .alice).createInitiator d.fresh (h.sound .alice)
      (h.initiated _ hi).1 (hspk.trans (h.preKey .bob _ hpreKey).publicKey) (Session.initAlice_eq ..)
    have hstore := h.update_store hsound (fun r _ => hkeys.1 r.1) (fun r _ => hkeys.2 r.1) (by simp [hnone])
    have hstep : net.step d (.createInitiator bobSpk) = { net with
        store := Function.update net.store .alice
          ((S .alice).createInitiator d.fresh secret bobSpk (net.store .alice)).2
        handle := Function.update net.handle .alice (some handle) } := by simp only [step, hnone, hi, hr]
    simp only [hstep]
    have hdone : Function.update net.handle .alice (some handle) .alice ≠ none := update_some_ne_none _ _ (.inr rfl)
    refine ⟨{ hstore with session := ?_ }, { ho with }, hdone⟩
    refine forall_update_some hstore.session ?_
    simp only [Function.update_self, hsession, Draws.session, Session.initAlice_eq]
    rfl

theorem Agreed.createResponder (hS : ∀ p, (S p).Lawful P E) (h : net.Agreed P E d) (ho : net.Ordered)
    (hs : net.Honest .createResponder) : let net' := net.step d .createResponder
    net'.Agreed P E d ∧ net'.Ordered ∧ net'.Done .createResponder := by
  cases hnone : net.handle .bob with
  | some r =>
    have hdone : net.handle .bob ≠ none := hnone ▸ Option.some_ne_none r
    simp only [step, hnone]
    exact ⟨h, ho, hdone⟩
  | none =>
    obtain ⟨secret, hi⟩ := Option.ne_none_iff_exists'.1 hs
    obtain ⟨⟨ref, _⟩, hpreKey⟩ := Option.ne_none_iff_exists'.1 (ho.initiated (ho.responded hs)).2
    obtain ⟨handle, hr, hsound, hkeys, hsession⟩ := (hS .bob).createResponder (h.sound .bob) (h.responded _ hi)
      (h.preKey .bob _ hpreKey).preKey
    have hstore := h.update_store hsound (fun r _ => hkeys.1 r.1) (fun r _ => hkeys.2 r.1) (by simp [hnone])
    have hstep : net.step d .createResponder = { net with
        store := Function.update net.store .bob ((S .bob).createResponder secret ref (net.store .bob)).2
        handle := Function.update net.handle .bob (some handle) } := by simp only [step, hnone, hi, hpreKey, hr]
    simp only [hstep]
    have hdone : Function.update net.handle .bob (some handle) .bob ≠ none := update_some_ne_none _ _ (.inr rfl)
    refine ⟨{ hstore with session := ?_ }, { ho with }, hdone⟩
    refine forall_update_some hstore.session ?_
    simp only [Function.update_self]
    exact hsession

theorem Agreed.other (hS : ∀ p, (S p).Lawful P E) (h : net.Agreed P E d) (ho : net.Ordered) {p : Party}
    {c : (S p).Other} (hs : net.Honest (.other p c)) : let net' := net.step d (.other p c)
    net'.Agreed P E d ∧ net'.Ordered ∧ net'.Done (.other p c) := by
  obtain ⟨hspares, helse⟩ := hs
  obtain ⟨hsound, hidentity, hpreKey⟩ := (hS p).spares (h.sound p) hspares
  refine ⟨h.update_store hsound (fun r hr => ?_) (fun r hr => ?_) fun handle hhandle => ?_, { ho with }, trivial⟩
  · rw [(h.identity p r hr).identity]
    exact hidentity _ _ (h.identity p r hr).identity
  · rw [(h.preKey p r hr).preKey]
    exact hpreKey _ _ (h.preKey p r hr).preKey
  · exact ((hS p).other (h.sound p) (helse handle hhandle)).2

/-! ## Runs -/

variable (P) in
/-- Diffie-Hellman commutes. -/
def Commutes : Prop := ∀ a b, P.diffieHellman a (P.publicKey b) = P.diffieHellman b (P.publicKey a)

/-- Every honest step keeps the two agreed, and its call returns. -/
theorem Agreed.step (hS : ∀ p, (S p).Lawful P E) (hE : Verifies E) (hdh : Commutes P) (h : net.Agreed P E d)
    (ho : net.Ordered) {e : Event S} (hs : net.Honest e) :
    (net.step d e).Agreed P E d ∧ (net.step d e).Ordered ∧ (net.step d e).Done e := by
  cases e with
  | generateIdentityKeypair p => exact h.generateIdentityKeypair hS ho p
  | generateSignedPreKey p => exact h.generateSignedPreKey hS ho hs
  | x3dhInitiate bundle => exact h.x3dhInitiate hS hE ho hs
  | x3dhRespond aliceIk aliceEk => exact h.x3dhRespond hS hdh ho hs
  | createInitiator bobSpk => exact h.createInitiator hS ho hs
  | createResponder => exact h.createResponder hS ho hs
  | other p c => exact h.other hS ho hs

/-- What has returned in `net` has returned in `net'`. -/
structure Grows (net net' : Handshake S) : Prop where
  identity : ∀ p, net.identity p ≠ none → net'.identity p ≠ none
  preKey : ∀ p, net.preKey p ≠ none → net'.preKey p ≠ none
  initiated : net.initiated ≠ none → net'.initiated ≠ none
  responded : net.responded ≠ none → net'.responded ≠ none
  handle : ∀ p, net.handle p ≠ none → net'.handle p ≠ none

omit [ByteString B] in
theorem Grows.refl (net : Handshake S) : Grows net net :=
  ⟨fun _ => id, fun _ => id, id, id, fun _ => id⟩

omit [ByteString B] in
theorem Grows.trans {net' net'' : Handshake S} (h : Grows net net') (h' : Grows net' net'') : Grows net net'' :=
  ⟨fun p => h'.identity p ∘ h.identity p, fun p => h'.preKey p ∘ h.preKey p, h'.initiated ∘ h.initiated,
    h'.responded ∘ h.responded, fun p => h'.handle p ∘ h.handle p⟩

omit [ByteString B] in
theorem update_ne_none {β : Party → Type} {f : ∀ p, Option (β p)} {p : Party} (hnone : f p = none) (o : Option (β p))
    (q : Party) (h : f q ≠ none) : Function.update f p o q ≠ none := by
  rw [Function.update_of_ne]
  · exact h
  · rintro rfl
    exact h hnone

omit [ByteString B] in
theorem grows_step (d : Draws) (net : Handshake S) (e : Event S) : Grows net (net.step d e) := by
  have hrefl := Grows.refl net
  cases e with
  | generateIdentityKeypair p =>
    simp only [step]
    split
    · exact { hrefl with identity := update_ne_none ‹_› _ }
    · exact hrefl
  | generateSignedPreKey p =>
    simp only [step]
    split
    · exact { hrefl with preKey := update_ne_none ‹_› _ }
    · exact hrefl
  | x3dhInitiate bundle =>
    simp only [step]
    split
    · exact { hrefl with initiated := fun h => absurd ‹_› h }
    · exact hrefl
  | x3dhRespond aliceIk aliceEk =>
    simp only [step]
    split
    · exact { hrefl with responded := fun h => absurd ‹_› h }
    · exact hrefl
  | createInitiator bobSpk =>
    simp only [step]
    split
    · exact { hrefl with handle := update_ne_none (f := net.handle) ‹_› _ }
    · exact hrefl
  | createResponder =>
    simp only [step]
    split
    · exact { hrefl with handle := update_ne_none (f := net.handle) ‹_› _ }
    · exact hrefl
  | other p c => exact { hrefl with }

omit [ByteString B] in
theorem Grows.done {net' : Handshake S} (hg : Grows net net') {e : Event S} (h : net.Done e) : net'.Done e := by
  cases e with
  | generateIdentityKeypair p => exact hg.identity p h
  | generateSignedPreKey p => exact hg.preKey p h
  | x3dhInitiate bundle => exact hg.initiated h
  | x3dhRespond aliceIk aliceEk => exact hg.responded h
  | createInitiator bobSpk => exact hg.handle .alice h
  | createResponder => exact hg.handle .bob h
  | other p c => trivial

/-- Nothing of the handshake has been called. -/
structure Starts (net : Handshake S) : Prop where
  sound : ∀ p, (S p).Sound (net.store p)
  identity : ∀ p, net.identity p = none
  preKey : ∀ p, net.preKey p = none
  initiated : net.initiated = none
  responded : net.responded = none
  handle : ∀ p, net.handle p = none

theorem Starts.agreed (h : net.Starts) : net.Agreed P E d where
  sound := h.sound
  identity p r hr := absurd (h.identity p ▸ hr) (Option.not_mem_none r)
  preKey p r hr := absurd (h.preKey p ▸ hr) (Option.not_mem_none r)
  initiated r hr := absurd (h.initiated ▸ hr) (Option.not_mem_none r)
  responded r hr := absurd (h.responded ▸ hr) (Option.not_mem_none r)
  session p r hr := absurd (h.handle p ▸ hr) (Option.not_mem_none r)

omit [ByteString B] in
theorem Starts.ordered (h : net.Starts) : net.Ordered where
  preKey p hne := absurd (h.preKey p) hne
  initiated hne := absurd h.initiated hne
  responded hne := absurd h.responded hne

/-- Every honest run keeps the two agreed, and every call of it has returned in the end. -/
theorem Agreed.exec (hS : ∀ p, (S p).Lawful P E) (hE : Verifies E) (hdh : Commutes P) : ∀ {events : List (Event S)}
    {net : Handshake S}, net.Agreed P E d → net.Ordered → Run.Along (Handshake.step d) Honest net events →
    let net' := Run.exec (Handshake.step d) net events
    net'.Agreed P E d ∧ net'.Ordered ∧ ∀ e ∈ events, net'.Done e
  | [], _, h, ho, _ => ⟨h, ho, fun _ => nofun⟩
  | e :: events, net, h, ho, hs => by
    obtain ⟨h', ho', hdone⟩ := h.step hS hE hdh ho hs.1
    obtain ⟨hagreed, hordered, hall⟩ := Agreed.exec hS hE hdh h' ho' hs.2
    refine ⟨hagreed, hordered, fun e' he' => ?_⟩
    rcases List.mem_cons.1 he' with rfl | hmem
    · exact (Run.exec_invariant' (I := fun net' => Grows (net.step d e') net')
        (fun net' e hg => hg.trans (grows_step d net' e)) (Grows.refl _)).done hdone
    · exact hall e' hmem

/-! ## Completion -/

theorem Agreed.exists_published (h : net.Agreed P E d) (ho : net.Ordered) (hpre : net.preKey .bob ≠ none) :
    net.Published (d.card P E) := by
  obtain ⟨⟨r, ik, vk⟩, hi⟩ := Option.ne_none_iff_exists'.1 (ho.preKey .bob hpre)
  obtain ⟨⟨r', spk, sig⟩, hp⟩ := Option.ne_none_iff_exists'.1 hpre
  obtain ⟨-, hik, hvk⟩ := h.identity .bob _ hi
  obtain ⟨-, hspk, hsig⟩ := h.preKey .bob _ hp
  exact ⟨⟨r, ik, vk, hi, hik, hvk⟩, r', spk, sig, hp, hspk, hsig⟩

variable (d) in
/-- An honest run leads from one to the other. -/
def Leads (net net' : Handshake S) : Prop :=
  ∃ events, Run.Along (Handshake.step d) Honest net events ∧ Run.exec (Handshake.step d) net events = net'

omit [ByteString B] in
theorem Leads.trans {net' net'' : Handshake S} : Leads d net net' → Leads d net' net'' → Leads d net net'' := by
  rintro ⟨events, hs, rfl⟩ ⟨events', hs', rfl⟩
  exact ⟨events ++ events', (Run.along_append ..).2 ⟨hs, hs'⟩, Run.exec_append ..⟩

theorem Agreed.take (hS : ∀ p, (S p).Lawful P E) (hE : Verifies E) (hdh : Commutes P) (h : net.Agreed P E d)
    (ho : net.Ordered) {e : Event S} (hs : net.Honest e) :
    ∃ net', Leads d net net' ∧ net'.Agreed P E d ∧ net'.Ordered ∧ Grows net net' ∧ net'.Done e := by
  obtain ⟨h', ho', hdone⟩ := h.step hS hE hdh ho hs
  exact ⟨_, ⟨[e], ⟨hs, trivial⟩, rfl⟩, h', ho', grows_step d net e, hdone⟩

/-- From wherever the two have come, the handshake can be completed. -/
theorem Agreed.exists_run (hS : ∀ p, (S p).Lawful P E) (hE : Verifies E) (hdh : Commutes P) (h : net.Agreed P E d)
    (ho : net.Ordered) : ∃ net', Leads d net net' ∧ ∀ p, net'.handle p ≠ none := by
  -- both identities, and Bob's pre-key
  obtain ⟨net₁, hl₁, h₁, ho₁, -, halice⟩ := h.take hS hE hdh ho (e := .generateIdentityKeypair .alice) trivial
  obtain ⟨net₂, hl₂, h₂, ho₂, hg₂, hbob⟩ := h₁.take hS hE hdh ho₁ (e := .generateIdentityKeypair .bob) trivial
  obtain ⟨net₃, hl₃, h₃, ho₃, hg₃, hpre⟩ := h₂.take hS hE hdh ho₂ (e := .generateSignedPreKey .bob) hbob
  -- what Bob has published comes to Alice
  obtain ⟨bundle, hoffers⟩ := (hS .alice).bundle (d.card P E)
  obtain ⟨net₄, hl₄, h₄, ho₄, hg₄, hinitiated⟩ := h₃.take hS hE hdh ho₃ (e := .x3dhInitiate bundle)
    ⟨(hg₂.trans hg₃).identity .alice halice, _, h₃.exists_published ho₃ hpre, hoffers⟩
  -- her keys come to Bob
  obtain ⟨⟨r, ik, vk⟩, hr⟩ := Option.ne_none_iff_exists'.1 (ho₄.initiated hinitiated).1
  obtain ⟨⟨secret, ek⟩, hi⟩ := Option.ne_none_iff_exists'.1 hinitiated
  obtain ⟨aliceIk, hik⟩ := (hS .bob).plain (d.identity P .alice).x25519Public.toVec
  obtain ⟨aliceEk, hek⟩ := (hS .bob).plain (P.publicKey d.ephemeral).toVec
  obtain ⟨net₅, hl₅, h₅, ho₅, hg₅, hresponded⟩ := h₄.take hS hE hdh ho₄ (e := .x3dhRespond aliceIk aliceEk)
    ⟨r, ik, vk, secret, ek, hr, hi, hik.trans (h₄.identity .alice _ hr).identityKey.symm,
      hek.trans (h₄.initiated _ hi).2.symm⟩
  -- the two sessions
  obtain ⟨⟨r', spk, sig⟩, hp⟩ := Option.ne_none_iff_exists'.1 ((hg₄.trans hg₅).preKey .bob hpre)
  obtain ⟨bobSpk, hspk⟩ := (hS .alice).plain (d.preKey P E .bob).x25519Public.toVec
  obtain ⟨net₆, hl₆, h₆, ho₆, hg₆, hhandle⟩ := h₅.take hS hE hdh ho₅ (e := .createInitiator bobSpk)
    ⟨hg₅.initiated hinitiated, r', spk, sig, hp, hspk.trans (h₅.preKey .bob _ hp).publicKey.symm⟩
  obtain ⟨net₇, hl₇, -, -, hg₇, hhandle'⟩ := h₆.take hS hE hdh ho₆ (e := .createResponder) (hg₆.responded hresponded)
  refine ⟨net₇, hl₁.trans (hl₂.trans (hl₃.trans (hl₄.trans (hl₅.trans (hl₆.trans hl₇))))), fun p => ?_⟩
  cases p with
  | alice => exact hg₇.handle .alice hhandle
  | bob => exact hhandle'

/-! ## The conversation that follows -/

/-- The two stores, before any message. -/
def conversation (net : Handshake S) : Conversation fun p => (S p).toSurface where
  store := net.store
  posted := []
  opened _ := none

end

end Handshake

end GhostCrypt.Network
