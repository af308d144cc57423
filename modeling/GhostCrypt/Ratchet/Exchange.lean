/-
An honest conversation of two sessions. Each end encrypts when it likes, and the network hands on
what was encrypted, to the end it is addressed to, unmodified and in any order: at most once in
`step`, any number of times in `handOn`.
-/
import GhostCrypt.Ratchet.Stored

namespace GhostCrypt.Ratchet

open Session

variable {B : Type} [ByteString B] (P : Primitives B)

/-! ## The conversation -/

/-- An `encrypt` call that got a number: the ciphertext is missing where the AEAD refused the
plaintext, which leaves a number that no message bears. -/
structure Message where
  sender : Party
  plaintext : Bytes
  header : MessageHeader
  encrypted : Option Aead.Encrypted

/-- The first chain keys of the two chains that a DH ratchet of a party sets up. -/
structure SetUp (B : Type) where
  party : Party
  receiving : Option B
  sending : Option B

/-- Two sessions; the messages in the order of their `encrypt` calls; how the delivery of each
ended; the public keys of the key pairs drawn; for each party the remote keys it has replaced; and
the chains set up by DH ratchets, latest first. -/
structure Exchange (B : Type) where
  session : Party → Session B
  sent : List Message
  result : Nat → Option (Outcome CryptoError Bytes)
  generated : List PublicKey
  replaced : Party → List PublicKey
  setUps : List (SetUp B)

/-- A step of the conversation: a party encrypts, or the `i`-th message is delivered. -/
inductive Move
  | encrypt (sender : Party) (nonce : Aead.Nonce) (plaintext : Bytes)
  | deliver (i : Nat) (fresh : StaticSecret)

namespace Exchange

/-- The ciphertext an `encrypt` returns. -/
def ciphertext : Outcome CryptoError (MessageHeader × Aead.Encrypted) → Option Aead.Encrypted
  | .ok (_, encrypted) => some encrypted
  | _ => none

/-- A party encrypts. -/
def send (x : Exchange B) (p : Party) (nonce : Aead.Nonce) (plaintext : Bytes) : Exchange B :=
  let session := Function.update x.session p ((x.session p).encrypt P nonce plaintext).2
  match ((x.session p).nextMessageKey P).1 with
  | .ok (header, _) =>
    let encrypted := ciphertext ((x.session p).encrypt P nonce plaintext).1
    { x with session, sent := x.sent ++ [{ sender := p, plaintext, header, encrypted }] }
  | _ => { x with session }

/-- The new remote key, if a call replaced it: then it performed a DH ratchet. -/
def ratchetedTo (s s' : Session B) : Option PublicKey :=
  if s'.remoteDhPublic = s.remoteDhPublic then none else s'.remoteDhPublic

/-- The chains set up by the DH ratchet of `s` to the remote key `k`. -/
def setUp (p : Party) (fresh : StaticSecret) (s : Session B) (k : PublicKey) : SetUp B :=
  { party := p
    receiving := (s.dhRatchet P fresh k).2.receivingChain.map ChainKey.key
    sending := (s.dhRatchet P fresh k).2.sendingChain.map ChainKey.key }

/-- The message `m` with index `i` is delivered. -/
def receive (x : Exchange B) (i : Nat) (m : Message) (encrypted : Aead.Encrypted) (fresh : StaticSecret) :
    Exchange B :=
  let p := m.sender.other
  let s := x.session p
  let r := s.decrypt P fresh m.header encrypted
  { session := Function.update x.session p r.2
    sent := x.sent
    result := Function.update x.result i (some r.1)
    generated := P.publicKey fresh :: x.generated
    replaced := match ratchetedTo s r.2 with
      | some _ => Function.update x.replaced p (s.remoteDhPublic.toList ++ x.replaced p)
      | none => x.replaced
    setUps := match ratchetedTo s r.2 with
      | some k => setUp P p fresh s k :: x.setUps
      | none => x.setUps }

/-- One step. A message is delivered at most once, and not at all if it does not exist. -/
def step (x : Exchange B) : Move → Exchange B
  | .encrypt p nonce plaintext => x.send P p nonce plaintext
  | .deliver i fresh =>
    match x.sent[i]?, x.result i with
    | some m, none =>
      match m.encrypted with
      | some encrypted => x.receive P i m encrypted fresh
      | none => x
    | _, _ => x

/-- One step on a network that may hand a message on again. -/
def handOn (x : Exchange B) : Move → Exchange B
  | .encrypt p nonce plaintext => x.send P p nonce plaintext
  | .deliver i fresh =>
    match x.sent[i]? with
    | some m =>
      match m.encrypted with
      -- whatever became of an earlier delivery
      | some encrypted => x.receive P i m encrypted fresh
      | none => x
    | none => x

/-- A message is handed on that was not handed on before. -/
def Once (x : Exchange B) : Move → Prop
  | .encrypt _ _ _ => True
  | .deliver i _ => x.result i = none

/-- The conversation before any message: both sessions made from one shared secret and Bob's signed
pre-key, whose public key is that of its secret. -/
structure Start (sharedSecret : B) (fresh : StaticSecret) (ourSpk : Identity.SignedPreKey) (x : Exchange B) : Prop where
  alice : initAlice P fresh sharedSecret ourSpk.x25519Public = .ok (x.session .alice)
  bob : x.session .bob = initBob sharedSecret ourSpk
  matching : ourSpk.x25519Public = P.publicKey ⟨ourSpk.secretSeed⟩
  distinct : P.publicKey fresh ≠ ourSpk.x25519Public
  sent : x.sent = []
  result : ∀ i, x.result i = none
  generated : x.generated = [P.publicKey fresh, ourSpk.x25519Public]
  replaced : ∀ p, x.replaced p = []
  setUps : x.setUps = []

/-- A key pair is drawn that was not drawn before. -/
def FreshKey (x : Exchange B) : Move → Prop
  | .encrypt _ _ _ => True
  | .deliver _ fresh => P.publicKey fresh ∉ x.generated

/-- The public keys of the key pairs that the moves draw. -/
def drawn : List Move → List PublicKey
  | [] => []
  | .encrypt _ _ _ :: moves => drawn moves
  | .deliver _ fresh :: moves => P.publicKey fresh :: drawn moves

/-- The messages that the moves hand on. -/
def handedOn : List Move → List Nat
  | [] => []
  | .encrypt _ _ _ :: moves => handedOn moves
  | .deliver i _ :: moves => i :: handedOn moves

/-! ## Overtaken messages -/

/-- The numbers used in the chain of a DH public key. -/
def chainLength (x : Exchange B) (dhBytes : Bytes) : Nat :=
  x.sent.countP fun m => m.header.dhPublicKey == dhBytes

/-- The message is addressed to `p` and behind it: of a chain that a DH ratchet of `p` replaced, or
numbered below the index of its receiving chain. -/
def behind (x : Exchange B) (p : Party) (m : Message) : Bool :=
  m.sender == p.other &&
    ((x.replaced p).any (fun k => m.header.dhPublicKey == k.toVec) ||
      match (x.session p).remoteDhPublic, (x.session p).receivingChain with
      | some k, some c => m.header.dhPublicKey == k.toVec && decide (m.header.messageNumber < c.index)
      | _, _ => false)

/-- The messages that have been overtaken at `p` and not delivered. -/
def overtaken (x : Exchange B) (p : Party) : Finset Nat :=
  (Finset.range x.sent.length).filter fun i => (x.result i).isNone && (x.sent[i]?).any (x.behind p)

/-- No chain has come to `2^32` messages. -/
def ShortChains (x : Exchange B) : Prop := ∀ dhBytes, x.chainLength dhBytes < 2 ^ 32

/-- At most `MAX_SKIP` messages are overtaken at either end. -/
def FewOvertaken (x : Exchange B) : Prop := ∀ p, (x.overtaken p).card ≤ maxSkip

/-! ## Reading the conversation -/

@[simp] theorem receive_sent (x : Exchange B) (i : Nat) (m : Message) (encrypted : Aead.Encrypted)
    (fresh : StaticSecret) : (x.receive P i m encrypted fresh).sent = x.sent := rfl

theorem receive_session (x : Exchange B) (i : Nat) (m : Message) (encrypted : Aead.Encrypted) (fresh : StaticSecret) :
    (x.receive P i m encrypted fresh).session = Function.update x.session m.sender.other
      ((x.session m.sender.other).takeMessageKey P fresh m.header).2 := by
  simp only [receive, decrypt_snd]

/-- A delivery without a DH ratchet replaces no key and sets up no chain. -/
theorem receive_of_none {x : Exchange B} {m : Message} {fresh : StaticSecret}
    (h : ratchetedTo (x.session m.sender.other)
      ((x.session m.sender.other).takeMessageKey P fresh m.header).2 = none) (i : Nat) (encrypted : Aead.Encrypted) :
    (x.receive P i m encrypted fresh).replaced = x.replaced ∧ (x.receive P i m encrypted fresh).setUps = x.setUps := by
  simp only [receive, decrypt_snd, h, and_self]

theorem receive_of_some {x : Exchange B} {m : Message} {fresh : StaticSecret} {k : PublicKey}
    (h : ratchetedTo (x.session m.sender.other)
      ((x.session m.sender.other).takeMessageKey P fresh m.header).2 = some k) (i : Nat) (encrypted : Aead.Encrypted) :
    (x.receive P i m encrypted fresh).replaced = Function.update x.replaced m.sender.other
      ((x.session m.sender.other).remoteDhPublic.toList ++ x.replaced m.sender.other) ∧
    (x.receive P i m encrypted fresh).setUps =
      setUp P m.sender.other fresh (x.session m.sender.other) k :: x.setUps := by
  simp only [receive, decrypt_snd, h, and_self]

/-- A step is an `encrypt`, a message handed on, or nothing. -/
theorem handOn_cases (x : Exchange B) (move : Move) :
    (∃ p nonce plaintext, move = .encrypt p nonce plaintext) ∨
    (∃ i fresh m encrypted, move = .deliver i fresh ∧ x.sent[i]? = some m ∧ m.encrypted = some encrypted ∧
      x.handOn P move = x.receive P i m encrypted fresh) ∨ x.handOn P move = x := by
  cases move with
  | encrypt p nonce plaintext => exact .inl ⟨p, nonce, plaintext, rfl⟩
  | deliver i fresh =>
    right
    cases hm : x.sent[i]? with
    | none => exact .inr (by simp [handOn, hm])
    | some m =>
      cases he : m.encrypted with
      | none => exact .inr (by simp [handOn, hm, he])
      | some encrypted => exact .inl ⟨i, fresh, m, encrypted, rfl, hm, he, by simp [handOn, hm, he]⟩

/-- Where nothing is handed on again, the two networks are the same. -/
theorem handOn_eq_step {x : Exchange B} {move : Move} (h : x.Once move) : x.handOn P move = x.step P move := by
  cases move with
  | encrypt p nonce plaintext => rfl
  | deliver i fresh =>
    have hr : x.result i = none := h
    simp only [handOn, step, hr]
    cases x.sent[i]? <;> rfl

/-- What was handed on before is not handed on again. -/
theorem step_of_not_once {x : Exchange B} {move : Move} (h : ¬ x.Once move) : x.step P move = x := by
  cases move with
  | encrypt p nonce plaintext => exact absurd trivial h
  | deliver i fresh =>
    obtain ⟨r, hr⟩ := Option.ne_none_iff_exists'.1 h
    simp only [step, hr]
    cases x.sent[i]? <;> rfl

/-- A step is an `encrypt`, a delivery of an undelivered message, or nothing. -/
theorem step_cases (x : Exchange B) (move : Move) :
    (∃ p nonce plaintext, move = .encrypt p nonce plaintext) ∨
    (∃ i fresh m encrypted, move = .deliver i fresh ∧ x.sent[i]? = some m ∧ x.result i = none ∧
      m.encrypted = some encrypted ∧ x.step P move = x.receive P i m encrypted fresh) ∨ x.step P move = x := by
  by_cases honce : x.Once move
  · rw [← handOn_eq_step P honce]
    rcases x.handOn_cases P move with h | ⟨i, fresh, m, encrypted, rfl, hm, he, hstep⟩ | hstep
    · exact .inl h
    · exact .inr (.inl ⟨i, fresh, m, encrypted, rfl, hm, honce, he, hstep⟩)
    · exact .inr (.inr hstep)
  · exact .inr (.inr (step_of_not_once P honce))

/-- `encrypt` under a sending chain uses its next number. -/
theorem send_eq {x : Exchange B} {p : Party} {c : ChainKey B} (hc : (x.session p).sendingChain = some c)
    (nonce : Aead.Nonce) (plaintext : Bytes) :
    x.send P p nonce plaintext = { x with
      session := Function.update x.session p { x.session p with sendingChain := some (c.advanced P 1) }
      sent := x.sent ++ [{ sender := p, plaintext
                           header := MessageHeader.new (x.session p).dhPublic c.index
                             (x.session p).previousSendingChainLength
                           encrypted := ciphertext ((x.session p).encrypt P nonce plaintext).1 }] } := by
  rcases nextMessageKey_cases P (x.session p) with ⟨hnone, -⟩ | ⟨c', hc', hn⟩
  · rw [hc] at hnone
    cases hnone
  · obtain rfl := Option.some.inj (hc.symm.trans hc')
    simp only [send, encrypt_snd, hn]

/-- The first message of a new chain is handed on, when nothing of the old one is left to skip. -/
theorem handOn_first {x : Exchange B} {i : Nat} {m : Message} {encrypted : Aead.Encrypted} (fresh : StaticSecret)
    {s : Session B} {k : PublicKey} (hm : x.sent[i]? = some m)
    (he : m.encrypted = some encrypted) (hs : x.session m.sender.other = s)
    (hl : s.skippedKeys.lookup (m.header.dhPublicKey, m.header.messageNumber) = none)
    (hk : m.header.dhPublicKey = k.toVec) (hrem : s.remoteDhPublic ≠ some k)
    (hold : ∀ c, s.receivingChain = some c → m.header.previousChainLength.toNat ≤ c.index.toNat)
    (hnum : m.header.messageNumber = 0) :
    ∃ r generated replaced, x.handOn P (.deliver i fresh) =
      { session := Function.update x.session m.sender.other (s.turned P fresh k)
        sent := x.sent, result := Function.update x.result i (some r), generated, replaced
        setUps := setUp P m.sender.other fresh s k :: x.setUps } := by
  subst hs
  have hfirst := takeMessageKey_first P fresh hl hk hrem hold hnum
  have hsome : ratchetedTo (x.session m.sender.other) ((x.session m.sender.other).turned P fresh k) = some k := by
    rw [ratchetedTo, if_neg]
    · rfl
    · exact fun h => hrem h.symm
  refine ⟨((x.session m.sender.other).decrypt P fresh m.header encrypted).1, P.publicKey fresh :: x.generated,
    (x.receive P i m encrypted fresh).replaced, ?_⟩
  simp only [handOn, hm, he]
  simp only [receive, decrypt_snd, hfirst, hsome]

theorem send_generated (x : Exchange B) (p : Party) (nonce : Aead.Nonce) (plaintext : Bytes) :
    (x.send P p nonce plaintext).generated = x.generated := by
  unfold send
  split <;> rfl

theorem send_result (x : Exchange B) (p : Party) (nonce : Aead.Nonce) (plaintext : Bytes) :
    (x.send P p nonce plaintext).result = x.result := by
  unfold send
  split <;> rfl

/-- A step draws the key pair it is given, or none. -/
theorem handOn_generated {x : Exchange B} {move : Move} {k : PublicKey} (hk : k ∈ (x.handOn P move).generated) :
    k ∈ drawn P [move] ∨ k ∈ x.generated := by
  rcases x.handOn_cases P move with ⟨p, nonce, plaintext, rfl⟩ | ⟨i, fresh, m, encrypted, rfl, -, -, hstep⟩ | hstep
  · exact .inr (x.send_generated P p nonce plaintext ▸ hk)
  · rw [hstep, Exchange.receive] at hk
    exact (List.mem_cons.1 hk).imp List.mem_singleton.2 id
  · exact .inr (hstep ▸ hk)

theorem step_generated {x : Exchange B} {move : Move} {k : PublicKey} (hk : k ∈ (x.step P move).generated) :
    k ∈ drawn P [move] ∨ k ∈ x.generated := by
  by_cases honce : x.Once move
  · exact handOn_generated P (handOn_eq_step P honce ▸ hk)
  · exact .inr (step_of_not_once P honce ▸ hk)

theorem drawn_cons (move : Move) (moves : List Move) : drawn P (move :: moves) = drawn P [move] ++ drawn P moves := by
  cases move <;> rfl

/-- On a network that draws the key pairs of the moves, those that differ from each other and from the
ones drawn before are new all along. -/
theorem freshKey_of_drawn {hand : Exchange B → Move → Exchange B}
    (hhand : ∀ x move, ∀ k ∈ (hand x move).generated, k ∈ drawn P [move] ∨ k ∈ x.generated) :
    ∀ {moves : List Move} {x : Exchange B}, (drawn P moves).Nodup → (∀ k ∈ drawn P moves, k ∉ x.generated) →
      Run.Along hand (FreshKey P) x moves
  | [], _, _, _ => trivial
  | move :: moves, x, hd, hx => by
    rw [drawn_cons] at hd hx
    obtain ⟨-, hrest, hdisjoint⟩ := List.nodup_append.1 hd
    refine ⟨?_, freshKey_of_drawn hhand hrest fun k hk hgen => ?_⟩
    · cases move with
      | encrypt p nonce plaintext => trivial
      | deliver i fresh => exact hx _ (List.mem_append_left _ (List.mem_singleton_self _))
    -- what comes later is drawn neither by this move nor before it
    · rcases hhand x move k hgen with h | h
      · exact hdisjoint k h k hk rfl
      · exact hx k (List.mem_append_right _ hk) h

/-- Key pairs that differ from each other and from those drawn before are new all along. -/
theorem freshKey_along {moves : List Move} {x : Exchange B} :
    (drawn P moves).Nodup → (∀ k ∈ drawn P moves, k ∉ x.generated) → Run.Along (step P) (FreshKey P) x moves :=
  freshKey_of_drawn P fun _ _ _ => step_generated P

theorem freshKey_handOn {moves : List Move} {x : Exchange B} :
    (drawn P moves).Nodup → (∀ k ∈ drawn P moves, k ∉ x.generated) → Run.Along (handOn P) (FreshKey P) x moves :=
  freshKey_of_drawn P fun _ _ _ => handOn_generated P

/-- Different messages that were not handed on before are handed on once all along. -/
theorem once_handOn : ∀ {moves : List Move} {x : Exchange B}, (handedOn moves).Nodup →
    (∀ i ∈ handedOn moves, x.result i = none) → Run.Along (handOn P) Once x moves
  | [], _, _, _ => trivial
  | .encrypt p nonce plaintext :: moves, x, hd, hx => by
    refine ⟨trivial, once_handOn hd fun i hi => ?_⟩
    change (x.send P p nonce plaintext).result i = none
    rw [send_result]
    exact hx i hi
  | .deliver i fresh :: moves, x, hd, hx => by
    obtain ⟨hnew, hd⟩ := List.nodup_cons.1 hd
    refine ⟨hx _ (List.mem_cons_self ..), once_handOn hd fun j hj => ?_⟩
    have hold := hx j (List.mem_cons_of_mem _ hj)
    rcases x.handOn_cases P (.deliver i fresh) with ⟨_, _, _, h⟩ | ⟨_, _, m, encrypted, h, -, -, hstep⟩ | hstep
    · cases h
    -- the delivery gives no message but its own a result
    · cases h
      rw [hstep]
      exact (Function.update_of_ne (ne_of_mem_of_not_mem hj hnew) _ _).trans hold
    · rwa [hstep]

@[simp] theorem drawn_encrypts (p : Party) (nonce : Aead.Nonce) (plaintext : Bytes) (moves : List Move) : ∀ n,
    drawn P (List.replicate n (.encrypt p nonce plaintext) ++ moves) = drawn P moves
  | 0 => rfl
  | n + 1 => drawn_encrypts p nonce plaintext moves n

@[simp] theorem handedOn_encrypts (p : Party) (nonce : Aead.Nonce) (plaintext : Bytes) (moves : List Move) : ∀ n,
    handedOn (List.replicate n (.encrypt p nonce plaintext) ++ moves) = handedOn moves
  | 0 => rfl
  | n + 1 => handedOn_encrypts p nonce plaintext moves n

/-- A step adds one message at most. -/
theorem length_sent_handOn (x : Exchange B) (move : Move) : (x.handOn P move).sent.length ≤ x.sent.length + 1 := by
  rcases x.handOn_cases P move with ⟨p, nonce, plaintext, rfl⟩ | ⟨i, fresh, m, encrypted, -, -, -, hstep⟩ | hstep
  · change (x.send P p nonce plaintext).sent.length ≤ _
    unfold send
    split
    · simp
    · exact Nat.le_succ _
  · rw [hstep]
    exact Nat.le_succ _
  · rw [hstep]
    exact Nat.le_succ _

theorem length_sent_step (x : Exchange B) (move : Move) : (x.step P move).sent.length ≤ x.sent.length + 1 := by
  by_cases honce : x.Once move
  · rw [← handOn_eq_step P honce]
    exact x.length_sent_handOn P move
  · rw [step_of_not_once P honce]
    exact Nat.le_succ _

omit [ByteString B] in
/-- Where a step adds one message at most, a run of `j` moves from a conversation of `i` messages never
has more than `i + j`. -/
theorem length_sent_of_step {hand : Exchange B → Move → Exchange B}
    (hhand : ∀ x move, (hand x move).sent.length ≤ x.sent.length + 1) {n : Nat} :
    ∀ {moves : List Move} {x : Exchange B}, x.sent.length + moves.length ≤ n →
      Run.Throughout hand (fun x => x.sent.length ≤ n) x moves
  | [], _, h => h
  | move :: moves, x, h => by
    have hstep := hhand x move
    rw [List.length_cons] at h
    exact ⟨by omega, length_sent_of_step hhand (by omega)⟩

theorem length_sent_throughout {n : Nat} {moves : List Move} {x : Exchange B} :
    x.sent.length + moves.length ≤ n → Run.Throughout (step P) (fun x => x.sent.length ≤ n) x moves :=
  length_sent_of_step (length_sent_step P)

theorem length_sent_throughout_handOn {n : Nat} {moves : List Move} {x : Exchange B} :
    x.sent.length + moves.length ≤ n → Run.Throughout (handOn P) (fun x => x.sent.length ≤ n) x moves :=
  length_sent_of_step (length_sent_handOn P)

omit [ByteString B] in
/-- A message of a conversation that one has joined is an old one, or the one that has joined. -/
theorem getElem?_sent_push {x x' : Exchange B} {m m' : Message} (hsent : x'.sent = x.sent ++ [m]) {i : Nat}
    (h : x'.sent[i]? = some m') : (x.sent[i]? = some m' ∧ i < x.sent.length) ∨ (i = x.sent.length ∧ m' = m) := by
  rw [hsent, List.getElem?_append] at h
  split at h
  · rename_i hlt
    exact .inl ⟨h, hlt⟩
  · rename_i hge
    obtain ⟨hi, hm⟩ := List.getElem?_eq_some_iff.1 h
    rw [List.length_singleton] at hi
    have hzero : i - x.sent.length = 0 := by omega
    simp only [hzero, List.getElem_cons_zero] at hm
    exact .inr ⟨by omega, hm.symm⟩

omit [ByteString B] in
theorem chainLength_push {x x' : Exchange B} {m : Message} (hsent : x'.sent = x.sent ++ [m]) (dhBytes : Bytes) :
    x'.chainLength dhBytes = x.chainLength dhBytes + if m.header.dhPublicKey = dhBytes then 1 else 0 := by
  rw [chainLength, hsent, List.countP_append, List.countP_singleton]
  simp [chainLength]

omit [ByteString B] in
theorem shortChains_of_length {x : Exchange B} (h : x.sent.length < 2 ^ 32) : x.ShortChains :=
  fun _ => List.countP_le_length.trans_lt h

omit [ByteString B] in
theorem fewOvertaken_of_length {x : Exchange B} (h : x.sent.length ≤ maxSkip) : x.FewOvertaken := by
  intro p
  have := Finset.card_filter_le (Finset.range x.sent.length)
    fun i => (x.result i).isNone && (x.sent[i]?).any (x.behind p)
  rw [Finset.card_range] at this
  exact this.trans h

end Exchange

/-- The sample conversation, before any message. -/
def sampleExchange : Exchange Key :=
  { session := fun | .alice => Sample.alice | .bob => Sample.bob
    sent := [], result := fun _ => none, generated := [Sample.pub Sample.aliceSecret, Sample.spk.x25519Public]
    replaced := fun _ => [], setUps := [] }

theorem sampleExchange_start : sampleExchange.Start Sample.aead (.shared 0) Sample.aliceSecret Sample.spk where
  alice := Sample.alice_created
  bob := rfl
  matching := rfl
  distinct := by decide
  sent := rfl
  result _ := rfl
  generated := rfl
  replaced _ := rfl
  setUps := rfl

end GhostCrypt.Ratchet
