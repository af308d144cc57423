/-
Post-compromise security of an honest conversation. An adversary that reads a whole session in
epoch `a` knows the secret of that epoch and no other, so the outputs of the later pairs of keys
are out of its reach, and with them every key from epoch `a + 2` on. The next DH ratchet of the
session sets up that epoch or a later one, unless a message is handed on twice or a chain wraps.
-/
import GhostCrypt.Ratchet.ForwardSecrecy
import GhostCrypt.Ratchet.Synced

namespace GhostCrypt.Ratchet

open Session Symbolic

/-! ## What is out of reach -/

section

variable (pub : StaticSecret → PublicKey) (enc dec : Key → Bytes → Bytes → Bytes → Option Bytes) (n : Nat)

/-- What is safe from an adversary that knows the secret of epoch `a`: the other secrets, and from
epoch `a + 2` on the outputs of neighbouring keys and all that is derived from them. -/
inductive Safe (key : Nat → StaticSecret) (a top : Nat) : Set Key
  | secret (s : StaticSecret) (i : Nat) : i ≤ top → i ≠ a → pub s = pub (key i) → Safe key a top (.secret s)
  | shared (e : Nat) : a < e → e < top → Safe key a top (.dh s(pub (key (e + 1)), pub (key e)))
  | block (e : Nat) : a < e → e < top →
      Safe key a top (.hkdf (rootAt (symbolic pub enc dec) (.shared n) key e)
        (dh (symbolic pub enc dec) (key (e + 1)) (pub (key e))) (ascii "GhostCrypt_Ratchet") 64)
  | root (e : Nat) : a < e → e < top → Safe key a top
      (.lower (ladderBlock (symbolic pub enc dec) (.shared n) (pathAt (symbolic pub enc dec) key (e + 1))))
  | chain (e : Nat) : a < e → e < top → Safe key a top
      (.upper (ladderBlock (symbolic pub enc dec) (.shared n) (pathAt (symbolic pub enc dec) key (e + 1))))
  | next (e m : Nat) : a < e → e < top → Safe key a top
      (.hmac (chainKeyAt (symbolic pub enc dec) (chainStart (symbolic pub enc dec) (.shared n) key (e + 1)) m) [0x01])
  | message (e m : Nat) : a < e → e < top → Safe key a top
      (.hmac (chainKeyAt (symbolic pub enc dec) (chainStart (symbolic pub enc dec) (.shared n) key (e + 1)) m) [0x02])

variable {pub enc dec n} {key : Nat → StaticSecret} {a top : Nat}

namespace Safe

theorem of_chain {e : Nat} (ha : a < e) (he : e < top) : ∀ m, Safe pub enc dec n key a top
    (chainKeyAt (symbolic pub enc dec) (chainStart (symbolic pub enc dec) (.shared n) key (e + 1)) m)
  | 0 => .chain e ha he
  | m + 1 => .next e m ha he

theorem lower_inv {t : Key} (h : Safe pub enc dec n key a top (.lower t)) : ∃ e, a < e ∧ e < top ∧
    t = ladderBlock (symbolic pub enc dec) (.shared n) (pathAt (symbolic pub enc dec) key (e + 1)) := by
  cases h with
  | root e ha he => exact ⟨e, ha, he, rfl⟩

theorem upper_inv {t : Key} (h : Safe pub enc dec n key a top (.upper t)) : ∃ e, a < e ∧ e < top ∧
    t = ladderBlock (symbolic pub enc dec) (.shared n) (pathAt (symbolic pub enc dec) key (e + 1)) := by
  cases h with
  | chain e ha he => exact ⟨e, ha, he, rfl⟩

theorem hkdf_inv {salt ikm : Key} {info : Bytes} {l : Nat} (h : Safe pub enc dec n key a top (.hkdf salt ikm info l)) :
    ∃ e, a < e ∧ e < top ∧ salt = rootAt (symbolic pub enc dec) (.shared n) key e ∧
      ikm = .dh s(pub (key (e + 1)), pub (key e)) := by
  cases h with
  | block e ha he => exact ⟨e, ha, he, rfl, rfl⟩

theorem hmac_inv {k : Key} {data : Bytes} (h : Safe pub enc dec n key a top (.hmac k data)) : ∃ e m, a < e ∧ e < top ∧
    k = chainKeyAt (symbolic pub enc dec) (chainStart (symbolic pub enc dec) (.shared n) key (e + 1)) m := by
  cases h with
  | next e m ha he => exact ⟨e, m, ha, he, rfl⟩
  | message e m ha he => exact ⟨e, m, ha, he, rfl⟩

theorem pathAt_inj {e f : Nat} (h : pathAt (symbolic pub enc dec) key e = pathAt (symbolic pub enc dec) key f) :
    e = f := by
  simpa using congrArg List.length h

theorem pathAt_succ_ne_nil (e : Nat) : pathAt (symbolic pub enc dec) key (e + 1) ≠ [] := List.cons_ne_nil _ _

/-- Different epochs have different HKDF outputs. -/
theorem block_epoch_inj {e f : Nat}
    (h : ladderBlock (symbolic pub enc dec) (.shared n) (pathAt (symbolic pub enc dec) key (e + 1)) =
      ladderBlock (symbolic pub enc dec) (.shared n) (pathAt (symbolic pub enc dec) key (f + 1))) : e = f :=
  Nat.succ.inj (pathAt_inj (ladderBlock_inj pub enc dec (.shared n) (pathAt_succ_ne_nil e) (pathAt_succ_ne_nil f) h))

/-- The chains of different epochs have no key in common. -/
theorem chainKey_epoch_inj {e f m k : Nat}
    (h : chainKeyAt (symbolic pub enc dec) (chainStart (symbolic pub enc dec) (.shared n) key (e + 1)) m =
      chainKeyAt (symbolic pub enc dec) (chainStart (symbolic pub enc dec) (.shared n) key (f + 1)) k) : e = f :=
  Nat.succ.inj
    (pathAt_inj (chainKeyAt_inj pub enc dec (.shared n) (pathAt_succ_ne_nil e) (pathAt_succ_ne_nil f) h).1)

/-- The HKDF outputs up to epoch `a + 1` are not safe, but give nothing safe away either. -/
theorem not_mem_block {e : Nat} (he : e ≤ a) : ¬ Safe pub enc dec n key a top
    (ladderBlock (symbolic pub enc dec) (.shared n) (pathAt (symbolic pub enc dec) key (e + 1))) := by
  intro h
  obtain ⟨f, ha, -, hroot, -⟩ := hkdf_inv h
  have := pathAt_inj (ladderRoot_injective pub enc dec (.shared n) hroot)
  omega

theorem not_exposes_root : ∀ {e : Nat}, e ≤ a + 1 →
    ¬ Exposes (Safe pub enc dec n key a top) (rootAt (symbolic pub enc dec) (.shared n) key e)
  | 0, _ => by rintro ⟨⟩
  | e + 1, he => by
    rintro (hlow | ⟨hblock, -⟩)
    · obtain ⟨f, ha, -, heq⟩ := lower_inv hlow
      have := block_epoch_inj heq
      omega
    · exact not_mem_block (by omega) hblock

theorem not_exposes_chain {e : Nat} (he : e ≤ a) : ∀ m, ¬ Exposes (Safe pub enc dec n key a top)
    (chainKeyAt (symbolic pub enc dec) (chainStart (symbolic pub enc dec) (.shared n) key (e + 1)) m)
  | 0 => by
    rintro (hup | ⟨hblock, -⟩)
    · obtain ⟨f, ha, -, heq⟩ := upper_inv hup
      have := block_epoch_inj heq
      omega
    · exact not_mem_block he hblock
  | m + 1 => by
    intro h
    obtain ⟨f, k, ha, -, heq⟩ := hmac_inv h
    have := chainKey_epoch_inj heq
    omega

theorem not_exposes_message {e : Nat} (he : e ≤ a) (m : Nat) : ¬ Exposes (Safe pub enc dec n key a top)
    (epochKey (symbolic pub enc dec) (.shared n) key (e + 1) m) := by
  intro h
  obtain ⟨f, k, ha, -, heq⟩ := hmac_inv h
  have := chainKey_epoch_inj heq
  omega

end Safe

/-- Reading a session in epoch `a` and any headers gives nothing safe away. -/
theorem Seat.sealed {count : Nat → Nat} {due done : Nat → Nat → Prop} {received : Nat} {s : Session Key}
    (h : Seat (symbolic pub enc dec) (.shared n) key count due done a received s)
    (hd : Distinct (symbolic pub enc dec) key top) (ha : a ≤ top) (hzero : count 0 = 0) (headers : List MessageHeader) :
    Sealed pub (contents s ∪ headerTerms headers) (Safe pub enc dec n key a top) where
  known := by
    rintro t (hc | ⟨header, -, rfl⟩) hexp
    · rcases hc with rfl | rfl | ⟨c, hc, rfl⟩ | ⟨c, hc, rfl⟩ | ⟨y, hy⟩
      · rw [h.root] at hexp
        exact Safe.not_exposes_root (Nat.le_succ a) hexp
      · rw [h.dhSecret] at hexp
        cases (show Safe pub enc dec n key a top (.secret (key a)) from hexp) with
        | secret _ i hi hne heq => exact hne (hd a ha i hi heq).symm
      · rw [h.sending] at hc
        split at hc
        · cases hc
        · obtain rfl := Option.some.inj hc
          obtain ⟨e, rfl⟩ : ∃ e, a = e + 1 := ⟨a - 1, by omega⟩
          exact Safe.not_exposes_chain (Nat.le_succ e) _ hexp
      · rw [h.receiving] at hc
        split at hc
        · cases hc
        · obtain rfl := Option.some.inj hc
          obtain ⟨e, rfl⟩ : ∃ e, a = e + 2 := ⟨a - 2, by omega⟩
          exact Safe.not_exposes_chain (by omega) _ hexp
      · obtain ⟨e, m, -, hp, hm, -, rfl⟩ := h.stored y t hy
        have he := Seat.passed_lt hp
        rcases Nat.eq_zero_or_pos e with rfl | hpos
        · exact absurd (hzero ▸ hm) (Nat.not_lt_zero m)
        · obtain ⟨e, rfl⟩ : ∃ f, e = f + 1 := ⟨e - 1, by omega⟩
          exact Safe.not_exposes_message (by omega) m hexp
    · cases hexp
  bytes := by rintro b ⟨⟩
  append := by rintro u v ⟨⟩
  lower := by
    intro t ht
    obtain ⟨e, he, htop, rfl⟩ := Safe.lower_inv ht
    exact .block e he htop
  upper := by
    intro t ht
    obtain ⟨e, he, htop, rfl⟩ := Safe.upper_inv ht
    exact .block e he htop
  hmac := by
    intro k data ht
    obtain ⟨e, m, he, htop, rfl⟩ := Safe.hmac_inv ht
    exact .of_chain he htop m
  hkdf := by
    intro salt ikm info l ht
    obtain ⟨e, he, htop, -, rfl⟩ := Safe.hkdf_inv ht
    exact .inr (.shared e he htop)
  dh := by
    intro s q ht
    generalize hpair : s(pub s, q) = pair at ht
    cases ht with
    | shared e he htop =>
      -- whichever of the two keys it is, its epoch is after `a`
      rcases Sym2.eq_iff.1 hpair with ⟨hs, -⟩ | ⟨hs, -⟩
      · exact .secret s (e + 1) htop (by omega) hs
      · exact .secret s e htop.le (by omega) hs

end

/-! ## The chains of the later set-ups -/

section

variable {B : Type} [ByteString B] (P : Primitives B) (sharedSecret : B)

@[simp] theorem length_setUpLog (key : Nat → StaticSecret) : ∀ e, (setUpLog P sharedSecret key e).length = e - 1
  | 0 => rfl
  | 1 => rfl
  | e + 2 => by
    rw [setUpLog, List.length_cons, length_setUpLog key (e + 1)]
    rfl

/-- A set-up in the log belongs to an epoch, and the ones after it to later epochs. -/
theorem setUpLog_split {key : Nat → StaticSecret} {r : SetUp B} {earlier : List (SetUp B)} :
    ∀ {top : Nat} {later : List (SetUp B)}, setUpLog P sharedSecret key top = later ++ r :: earlier →
      ∃ e, e + 2 ≤ top ∧ earlier.length = e ∧ r.party = epochParty (e + 2) ∧
        r.sending = some (chainStart P sharedSecret key (e + 2)) ∧
        ∀ r' ∈ later, ∃ f, e + 2 ≤ f ∧ f < top ∧ r'.receiving = some (chainStart P sharedSecret key f) ∧
          r'.sending = some (chainStart P sharedSecret key (f + 1))
  | 0, later, h => by cases later <;> cases h
  | 1, later, h => by cases later <;> cases h
  | top + 2, [], h => by
    obtain ⟨rfl, rfl⟩ := List.cons.inj h
    exact ⟨top, le_rfl, length_setUpLog P sharedSecret key (top + 1), rfl, rfl, by rintro r' ⟨⟩⟩
  | top + 2, r' :: later, h => by
    obtain ⟨rfl, hrest⟩ := List.cons.inj h
    obtain ⟨e, he, hlen, hparty, hsending, hlater⟩ := setUpLog_split hrest
    refine ⟨e, by omega, hlen, hparty, hsending, fun r' hr' => ?_⟩
    rcases List.mem_cons.1 hr' with rfl | hr'
    · exact ⟨top + 1, by omega, Nat.lt_succ_self _, rfl, rfl⟩
    · obtain ⟨f, hef, hf, hrec, hsend⟩ := hlater r' hr'
      exact ⟨f, hef, by omega, hrec, hsend⟩

end

/-! ## Recovery -/

/-- The session of `p` is read in the conversation `x₀`, which goes on to `x`: then the message keys
of the sending chain of any later DH ratchet of `p`, and of all chains set up after that, cannot be
computed from what was read and the headers. -/
def Recovers (P : Primitives Key) (p : Party) (x₀ x : Exchange Key) : Prop :=
  ∀ (later earlier : List (SetUp Key)) (r : SetUp Key), x.setUps = later ++ r :: (earlier ++ x₀.setUps) → r.party = p →
    ∀ c, (r.sending = some c ∨ ∃ r' ∈ later, r'.receiving = some c ∨ r'.sending = some c) → ∀ m,
      ¬ Derivable P.publicKey (contents (x₀.session p) ∪ headerTerms (x.sent.map Message.header)) (messageKeyAt P c m)

section

variable (pub : StaticSecret → PublicKey) (enc dec : Key → Bytes → Bytes → Bytes → Option Bytes) (n : Nat)

theorem Synced.recovers {done : Nat → Prop} {g₀ g : Epochs} {x₀ x : Exchange Key}
    (h₀ : Synced (symbolic pub enc dec) (.shared n) done g₀ x₀) (h : Synced (symbolic pub enc dec) (.shared n) done g x)
    (hbefore : g₀.Before g) (p : Party) : Recovers (symbolic pub enc dec) p x₀ x := by
  intro later earlier r hlog hparty c hc m
  have hkey : ∀ e ≤ g₀.own p, g.key e = g₀.key e := fun e he => hbefore.key e (he.trans (g₀.own_le_top p))
  have hcount : ∀ e ≤ g₀.own p, x₀.count (symbolic pub enc dec) g.key e = x₀.count (symbolic pub enc dec) g₀.key e :=
    fun e he => by rw [Exchange.count, Exchange.count, hkey e he]
  have hseat := (h₀.seat p).congr hkey (fun e he _ => hcount e he) (fun e he => (hcount e he.le).ge)
    (fun _ _ _ _ hb => hb) (fun _ _ _ hb => hb) (hcount 0 (Nat.zero_le _))
  have hsealed := hseat.sealed h.distinct ((hbefore.own p).trans (g.own_le_top p))
    ((hcount 0 (Nat.zero_le _)).trans h₀.count_zero) (x.sent.map Message.header)
  -- the DH ratchet of `p` led at least two epochs on
  obtain ⟨e, he, hlen, hr, hsending, hlater⟩ := setUpLog_split _ _ (h.setUps.symm.trans hlog)
  have hown : g₀.own p ≤ e := by
    rw [hr] at hparty
    have hpar : (e + 2) % 2 = g₀.own p % 2 := by
      rw [h₀.parity, ← hparty, epochParty]
      split
      · assumption
      · simp only [Party.parity]
        omega
    have htop := g₀.own_le_top p
    rw [List.length_append, h₀.setUps, length_setUpLog] at hlen
    omega
  -- so the chain is that of an epoch after it
  obtain ⟨f, hef, hftop, rfl⟩ : ∃ f, e + 1 ≤ f ∧ f < g.top ∧
      c = chainStart (symbolic pub enc dec) (.shared n) g.key (f + 1) := by
    rcases hc with hc | ⟨r', hr', hc | hc⟩
    · exact ⟨e + 1, le_rfl, by omega, Option.some.inj (hc.symm.trans hsending)⟩
    · obtain ⟨f, hef, hf, hrec, -⟩ := hlater r' hr'
      refine ⟨f - 1, by omega, by omega, ?_⟩
      rw [Nat.sub_add_cancel (by omega)]
      exact Option.some.inj (hc.symm.trans hrec)
    · obtain ⟨f, hef, hf, -, hsend⟩ := hlater r' hr'
      exact ⟨f, by omega, hf, Option.some.inj (hc.symm.trans hsend)⟩
  exact hsealed.not_derivable (.message f m (by omega) hftop)

/-- In an honest conversation with new key pairs and chains shorter than `2^32`, on a network that hands
each message on at most once, a session that has been read recovers with its next DH ratchet. -/
theorem post_compromise_security {fresh : StaticSecret} {ourSpk : Identity.SignedPreKey} {x : Exchange Key}
    (hstart : x.Start (symbolic pub enc dec) (.shared n) fresh ourSpk) (before after : List Move)
    (honce : Run.Along (Exchange.handOn (symbolic pub enc dec)) Exchange.Once x (before ++ after))
    (hfresh : Run.Along (Exchange.handOn (symbolic pub enc dec)) (Exchange.FreshKey (symbolic pub enc dec)) x
      (before ++ after))
    (hshort : Run.Throughout (Exchange.handOn (symbolic pub enc dec)) Exchange.ShortChains x (before ++ after))
    (p : Party) :
    Recovers (symbolic pub enc dec) p (Run.exec (Exchange.handOn (symbolic pub enc dec)) x before)
      (Run.exec (Exchange.handOn (symbolic pub enc dec)) x (before ++ after)) := by
  have hcomm : ∀ a b, dh (symbolic pub enc dec) a (pub b) = dh (symbolic pub enc dec) b (pub a) :=
    fun a b => congrArg Term.dh Sym2.eq_swap
  -- the network that hands nothing on again
  have hsame : ∀ (x : Exchange Key) move, x.Once move →
      x.handOn (symbolic pub enc dec) move = x.step (symbolic pub enc dec) move :=
    fun x move => Exchange.handOn_eq_step _
  rw [Run.exec_congr hsame honce, Run.exec_congr hsame ((Run.along_append _ _ _).1 honce).1]
  obtain ⟨hfresh₀, hfresh₁⟩ := (Run.along_append _ _ _).1 (honce.congr hsame hfresh)
  obtain ⟨hshort₀, hshort₁⟩ := (Run.Throughout.congr hsame honce hshort).of_append
  have hinit := Synced.start hstart fun _ : Nat => not_false
  obtain ⟨g₀, hsync₀, -⟩ := hinit.exec hcomm hfresh₀ hshort₀
  obtain ⟨g, hsync, hbefore⟩ := hsync₀.exec hcomm hfresh₁ hshort₁
  rw [Run.exec_append]
  exact hsync₀.recovers pub enc dec n hsync hbefore p

end

/-- Bob's session is read after his first message, and he receives Alice's answer. -/
theorem post_compromise_security_bob :
    Recovers Sample.aead .bob
      (Run.exec (Exchange.handOn Sample.aead) sampleExchange [.encrypt .alice Sample.nonce [7],
        .deliver 0 ⟨Sample.bytes32 3⟩, .encrypt .bob Sample.nonce [8]])
      (Run.exec (Exchange.handOn Sample.aead) sampleExchange ([.encrypt .alice Sample.nonce [7],
        .deliver 0 ⟨Sample.bytes32 3⟩, .encrypt .bob Sample.nonce [8]] ++ [.deliver 1 ⟨Sample.bytes32 4⟩,
        .encrypt .alice Sample.nonce [9], .deliver 2 ⟨Sample.bytes32 5⟩, .encrypt .bob Sample.nonce [10]])) :=
  post_compromise_security Sample.pub Sample.sealMsg Sample.openMsg 0 sampleExchange_start _ _
    (Exchange.once_handOn _ (by decide) fun _ _ => rfl)
    (Exchange.freshKey_handOn _ (by decide) (by decide))
    ((Exchange.length_sent_throughout_handOn _ (n := 7) (by decide)).mono
      fun x h => Exchange.shortChains_of_length (h.trans_lt (by norm_num))) _

/-! ## A chain that wraps, a message handed on again -/

/-- What `encrypt` returns in the sample crates. -/
theorem sample_ciphertext {s : Session Key} {c : ChainKey Key} (hc : s.sendingChain = some c) (plaintext : Bytes) :
    Exchange.ciphertext (s.encrypt Sample.aead Sample.nonce plaintext).1 = some (Sample.sealed plaintext) := by
  rcases nextMessageKey_cases Sample.aead s with ⟨hnone, -⟩ | ⟨c', -, hn⟩
  · rw [hc] at hnone
    cases hnone
  · rw [(encrypt_ok Sample.aead).2 ⟨_, congrArg Prod.fst hn, rfl⟩]
    rfl

/-- The message a session of `p` sends with number `i` of its chain. -/
def sampleMessage (p : Party) (s : Session Key) (i : UInt32) : Message :=
  { sender := p, plaintext := [], header := MessageHeader.new s.dhPublic i s.previousSendingChainLength
    encrypted := some (Sample.sealed []) }

/-- The session after `j` messages sent. -/
def moved (s : Session Key) (j : Nat) : Session Key :=
  { s with sendingChain := s.sendingChain.map fun c => c.advanced Sample.aead j }

/-- What the sample conversation shows: the sessions, the messages, the chains set up and the
messages that have arrived. -/
structure Looks (x : Exchange Key) (session : Party → Session Key) (sent : List Message) (setUps : List (SetUp Key))
    (arrived : List Nat) : Prop where
  session : x.session = session
  sent : x.sent = sent
  setUps : x.setUps = setUps
  result : ∀ i ∉ arrived, x.result i = none

namespace Looks

variable {x : Exchange Key} {session : Party → Session Key} {sent : List Message} {setUps : List (SetUp Key)}
  {arrived : List Nat}

theorem encrypt (h : Looks x session sent setUps arrived) {p : Party} {c : ChainKey Key}
    (hc : (session p).sendingChain = some c) :
    Looks (x.step Sample.aead (.encrypt p Sample.nonce [])) (Function.update session p (moved (session p) 1))
      (sent ++ [sampleMessage p (session p) c.index]) setUps arrived := by
  obtain ⟨rfl, rfl, rfl, hresult⟩ := h
  rw [Exchange.step, Exchange.send_eq _ hc, sample_ciphertext hc, moved, hc]
  exact ⟨rfl, rfl, rfl, hresult⟩

theorem encrypts (h : Looks x session sent setUps arrived) {p : Party} {c : ChainKey Key}
    (hc : (session p).sendingChain = some c) : ∀ n,
    Looks (Run.exec (Exchange.step Sample.aead) x (List.replicate n (.encrypt p Sample.nonce [])))
      (Function.update session p (moved (session p) n))
      (sent ++ (List.range n).map fun i => sampleMessage p (session p) (c.index + UInt32.ofNat i)) setUps arrived
  | 0 => by
    have hsame : moved (session p) 0 = session p := by
      rw [moved, hc, Option.map_some, advanced_zero, ← hc]
    rw [hsame, Function.update_eq_self]
    simpa using h
  | n + 1 => by
    have hmoved : (moved (session p) n).sendingChain = some (c.advanced Sample.aead n) := by
      rw [moved, hc]
      rfl
    have ih := (encrypts h hc n).encrypt (p := p) (by rw [Function.update_self, hmoved])
    have hnext : moved (moved (session p) n) 1 = moved (session p) (n + 1) := by
      simp only [moved, hc, Option.map_some, advanced_add_one]
    rw [Function.update_self, Function.update_idem, hnext, List.append_assoc] at ih
    rw [List.replicate_succ', Run.exec_append, List.range_succ, List.map_append]
    exact ih

/-- The first message of a chain is handed on, whether it has arrived before or not. -/
theorem handOn (h : Looks x session sent setUps arrived) {p : Party} {s : Session Key} {i : Nat}
    (hm : sent[i]? = some (sampleMessage p s 0)) (hskipped : (session p.other).skippedKeys = ∅)
    (hrem : (session p.other).remoteDhPublic ≠ some s.dhPublic)
    (hold : ∀ c, (session p.other).receivingChain = some c → s.previousSendingChainLength.toNat ≤ c.index.toNat)
    (fresh : StaticSecret) :
    Looks (x.handOn Sample.aead (.deliver i fresh))
      (Function.update session p.other ((session p.other).turned Sample.aead fresh s.dhPublic)) sent
      (Exchange.setUp Sample.aead p.other fresh (session p.other) s.dhPublic :: setUps) (i :: arrived) := by
  obtain ⟨rfl, rfl, rfl, hresult⟩ := h
  obtain ⟨r, generated, replaced, hstep⟩ := Exchange.handOn_first Sample.aead fresh hm rfl
    rfl (by rw [show (sampleMessage p s 0).sender = p from rfl, hskipped]; rfl) rfl hrem hold rfl
  rw [hstep]
  refine ⟨rfl, rfl, rfl, fun j hj => ?_⟩
  rw [List.mem_cons, not_or] at hj
  exact (Function.update_of_ne hj.1 _ _).trans (hresult j hj.2)

theorem deliver (h : Looks x session sent setUps arrived) {p : Party} {s : Session Key} {i : Nat}
    (hm : sent[i]? = some (sampleMessage p s 0)) (hi : i ∉ arrived) (hskipped : (session p.other).skippedKeys = ∅)
    (hrem : (session p.other).remoteDhPublic ≠ some s.dhPublic)
    (hold : ∀ c, (session p.other).receivingChain = some c → s.previousSendingChainLength.toNat ≤ c.index.toNat)
    (fresh : StaticSecret) :
    Looks (x.step Sample.aead (.deliver i fresh))
      (Function.update session p.other ((session p.other).turned Sample.aead fresh s.dhPublic)) sent
      (Exchange.setUp Sample.aead p.other fresh (session p.other) s.dhPublic :: setUps) (i :: arrived) := by
  have honce : x.Once (.deliver i fresh) := h.result i hi
  rw [← Exchange.handOn_eq_step Sample.aead honce]
  exact h.handOn hm hskipped hrem hold fresh

/-- A message of the current chain that is not ahead of it is delivered. -/
theorem deliverCurrent (h : Looks x session sent setUps arrived) {p : Party} {s : Session Key} {i : Nat}
    {number : UInt32} {c : ChainKey Key} (hm : sent[i]? = some (sampleMessage p s number)) (hi : i ∉ arrived)
    (hskipped : (session p.other).skippedKeys = ∅) (hrem : (session p.other).remoteDhPublic = some s.dhPublic)
    (hc : (session p.other).receivingChain = some c) (hnum : number.toNat ≤ c.index.toNat) (fresh : StaticSecret) :
    Looks (x.step Sample.aead (.deliver i fresh)) (Function.update session p.other
      { session p.other with receivingChain := some (c.advanced Sample.aead 1) }) sent setUps (i :: arrived) := by
  obtain ⟨rfl, rfl, rfl, hresult⟩ := h
  have hlookup : (x.session p.other).skippedKeys.lookup (s.dhPublic.toVec, number) = none := by
    rw [hskipped]
    rfl
  have htake := takeMessageKey_current Sample.aead fresh (show (x.session p.other).skippedKeys.lookup
    ((sampleMessage p s number).header.dhPublicKey, (sampleMessage p s number).header.messageNumber) = none
    from hlookup) rfl hrem hc hnum
  have hnone : Exchange.ratchetedTo (x.session p.other)
      ((x.session p.other).takeMessageKey Sample.aead fresh (sampleMessage p s number).header).2 = none := by
    rw [htake]
    exact if_pos rfl
  have hstep : x.step Sample.aead (.deliver i fresh) =
      x.receive Sample.aead i (sampleMessage p s number) (Sample.sealed []) fresh := by
    simp only [Exchange.step, hm, hresult i hi]
    rfl
  rw [hstep]
  refine ⟨?_, rfl, (Exchange.receive_of_none Sample.aead hnone i _).2, fun j hj => ?_⟩
  · rw [Exchange.receive_session]
    exact congrArg _ htake
  · rw [List.mem_cons, not_or] at hj
    exact (Function.update_of_ne hj.1 _ _).trans (hresult j hj.2)

/-- A chain set up after the DH ratchet of the session read is one that session was sending in. -/
theorem not_recovers {x₀ : Exchange Key} {session₀ : Party → Session Key} {sent₀ : List Message}
    {setUps₀ : List (SetUp Key)} {arrived₀ : List Nat} {r r' : SetUp Key} {p : Party} {c : ChainKey Key}
    (h₀ : Looks x₀ session₀ sent₀ setUps₀ arrived₀) (h : Looks x session sent (r' :: r :: setUps₀) arrived)
    (hparty : r.party = p) (hc : (session₀ p).sendingChain = some (c.advanced Sample.aead 1))
    (hr' : r'.receiving = some c.key) : ¬ Recovers Sample.aead p x₀ x := by
  intro hrec
  refine hrec [r'] [] r ?_ hparty c.key (.inr ⟨r', List.mem_singleton_self r', .inl hr'⟩) 1
    (.hmac _ (.known (.inl (.inr (.inr (.inl ⟨c.advanced Sample.aead 1, ?_, rfl⟩))))))
  · rw [h.setUps, h₀.setUps]
    rfl
  · rw [h₀.session, hc]

end Looks

/-- The sessions of the two parties. -/
def both (a b : Session Key) : Party → Session Key
  | .alice => a
  | .bob => b

@[simp] theorem update_both_alice (a b a' : Session Key) : Function.update (both a b) .alice a' = both a' b := by
  funext p
  cases p <;> rfl

@[simp] theorem update_both_bob (a b b' : Session Key) : Function.update (both a b) .bob b' = both a b' := by
  funext p
  cases p <;> rfl

/-- Alice sends `n` messages, of which Bob receives the first; he answers, and she answers him. -/
def wrapped (n : Nat) : List Move :=
  List.replicate n (.encrypt .alice Sample.nonce []) ++
    [.deliver 0 ⟨Sample.bytes32 3⟩, .encrypt .bob Sample.nonce [], .deliver n ⟨Sample.bytes32 4⟩,
      .encrypt .alice Sample.nonce []]

/-- Bob after her first message, and Alice after his answer. -/
def wrappedBob : Session Key := Sample.bob.turned Sample.aead ⟨Sample.bytes32 3⟩ (Sample.pub ⟨Sample.bytes32 2⟩)

def wrappedAlice (n : Nat) : Session Key :=
  (moved Sample.alice n).turned Sample.aead ⟨Sample.bytes32 4⟩ (Sample.pub ⟨Sample.bytes32 3⟩)

/-- The messages sent. -/
def wrappedSent (n : Nat) : List Message :=
  (List.range n).map (fun i => sampleMessage .alice Sample.alice (0 + UInt32.ofNat i)) ++
    [sampleMessage .bob wrappedBob 0] ++ [sampleMessage .alice (wrappedAlice n) 0]

theorem looks_wrapped (n : Nat) : ∃ setUps,
    Looks (Run.exec (Exchange.step Sample.aead) sampleExchange (wrapped (n + 1)))
    (both (moved (wrappedAlice (n + 1)) 1) (moved wrappedBob 1)) (wrappedSent (n + 1)) setUps [n + 1, 0] := by
  let a₁ := moved Sample.alice (n + 1)
  let a₂ := wrappedAlice (n + 1)
  let b₁ := wrappedBob
  let chain := (List.range (n + 1)).map fun i => sampleMessage .alice Sample.alice (0 + UInt32.ofNat i)
  have hlen : chain.length = n + 1 := by simp [chain]
  have h1 : Looks _ (both a₁ Sample.bob) chain [] [] :=
    update_both_alice Sample.alice Sample.bob a₁ ▸
      (show Looks sampleExchange (both Sample.alice Sample.bob) [] [] [] from
        ⟨funext fun | .alice => rfl | .bob => rfl, rfl, rfl, fun _ _ => rfl⟩).encrypts (p := .alice) rfl (n + 1)
  have h2 : Looks _ (both a₁ b₁) chain _ [0] := update_both_bob a₁ Sample.bob b₁ ▸
    h1.deliver (p := .alice) (s := Sample.alice) (i := 0) (by simp [chain]) (by simp) rfl
      (by exact Option.some_ne_none _ ∘ Eq.symm) (by rintro c ⟨⟩) _
  have h3 : Looks _ (both a₁ (moved b₁ 1)) (chain ++ [sampleMessage .bob b₁ 0]) _ [0] :=
    update_both_bob a₁ b₁ (moved b₁ 1) ▸ h2.encrypt (p := .bob) rfl
  have h4 : Looks _ (both a₂ (moved b₁ 1)) (chain ++ [sampleMessage .bob b₁ 0]) _ [n + 1, 0] :=
    update_both_alice a₁ (moved b₁ 1) a₂ ▸ h3.deliver (p := .bob) (s := b₁) (i := n + 1)
      (by rw [List.getElem?_append_right hlen.le, hlen, Nat.sub_self]; rfl) (by simp) rfl
      (by change some (Sample.pub ⟨Sample.bytes32 1⟩) ≠ some (Sample.pub ⟨Sample.bytes32 3⟩); decide) (by rintro c ⟨⟩) _
  have h5 : Looks _ (both (moved a₂ 1) (moved b₁ 1)) (wrappedSent (n + 1)) _ [n + 1, 0] :=
    update_both_alice a₂ (moved b₁ 1) (moved a₂ 1) ▸ h4.encrypt (p := .alice) rfl
  rw [wrapped, Run.exec_append]
  exact ⟨_, h5⟩

section

variable {n : Nat}

theorem length_wrappedSent : (wrappedSent n).length = n + 2 := by simp [wrappedSent]

/-- The number of the last message of Alice's first chain wraps. -/
theorem wrappedSent_old (hn : UInt32.ofNat n = 0) :
    (wrappedSent (n + 1))[n]? = some (sampleMessage .alice Sample.alice 0) := by
  rw [wrappedSent, List.append_assoc, List.getElem?_append_left (by simp)]
  simp [hn]

theorem wrappedSent_new : (wrappedSent (n + 1))[n + 2]? = some (sampleMessage .alice (wrappedAlice (n + 1)) 0) := by
  rw [wrappedSent, List.getElem?_append_right (by simp)]
  simp

/-- And so does the length that her headers give for it. -/
theorem wrappedAlice_prev (hn : UInt32.ofNat n = 0) : (wrappedAlice (n + 1)).previousSendingChainLength = 1 := by
  change 0 + UInt32.ofNat (n + 1) = 1
  rw [UInt32.ofNat_add, hn]
  rfl

end

/-- Alice sends `n` messages, of which Bob receives the first; then each answers the other once. -/
def wrapBefore (n : Nat) : List Move :=
  List.replicate n (.encrypt .alice Sample.nonce []) ++
    [.deliver 0 ⟨Sample.bytes32 3⟩, .encrypt .bob Sample.nonce [], .deliver n ⟨Sample.bytes32 4⟩,
      .encrypt .alice Sample.nonce [], .deliver (n + 1) ⟨Sample.bytes32 5⟩, .encrypt .bob Sample.nonce []]

/-- Bob receives the last message of Alice's first chain, and she his second. Where that chain has the
one message, he receives it again. -/
def wrapAfter (n : Nat) : List Move := [.deliver (n - 1) ⟨Sample.bytes32 6⟩, .deliver (n + 2) ⟨Sample.bytes32 7⟩]

theorem wrapBefore_eq (n : Nat) : wrapBefore n = wrapped n ++ [.deliver (n + 1) ⟨Sample.bytes32 5⟩,
    .encrypt .bob Sample.nonce []] := by
  rw [wrapBefore, wrapped, List.append_assoc]
  rfl

/-- Up to there nothing is handed on twice. -/
theorem exec_wrapBefore (n : Nat) : Run.exec (Exchange.handOn Sample.aead) sampleExchange (wrapBefore (n + 1)) =
    Run.exec (Exchange.step Sample.aead) sampleExchange (wrapBefore (n + 1)) := by
  refine Run.exec_congr (fun x move => Exchange.handOn_eq_step Sample.aead)
    (Exchange.once_handOn Sample.aead ?_ fun _ _ => rfl)
  rw [wrapBefore, Exchange.handedOn_encrypts]
  simp [Exchange.handedOn]

/-- Alice's first chain has one message, or so many that its length wraps to 1. The last of them, for which
Bob has no key stored, takes him through a DH ratchet on an old key, and she goes on in the chain he was
sending in when he was read. -/
theorem not_recovers_of_wrap {n : Nat} (hn : UInt32.ofNat n = 0) :
    ¬ Recovers Sample.aead .bob (Run.exec (Exchange.handOn Sample.aead) sampleExchange (wrapBefore (n + 1)))
      (Run.exec (Exchange.handOn Sample.aead) sampleExchange (wrapBefore (n + 1) ++ wrapAfter (n + 1))) := by
  let k (i : UInt8) : PublicKey := Sample.pub ⟨Sample.bytes32 i⟩
  let b₁ := wrappedBob
  let a₂ := wrappedAlice (n + 1)
  let b₂ := (moved b₁ 1).turned Sample.aead ⟨Sample.bytes32 5⟩ (k 4)
  obtain ⟨setUps, h5⟩ := looks_wrapped n
  have hlen : (wrappedSent (n + 1)).length = n + 3 := length_wrappedSent
  have h6 : Looks _ (both (moved a₂ 1) b₂) (wrappedSent (n + 1)) _ [n + 2, n + 1, 0] :=
    update_both_bob (moved a₂ 1) (moved b₁ 1) b₂ ▸ h5.deliver (p := .alice) (s := a₂) (i := n + 2) wrappedSent_new
      (by simp) rfl (by change some (k 2) ≠ some (k 4); decide)
      (by rintro c ⟨⟩; rw [wrappedAlice_prev hn]; exact le_rfl) _
  have h7 : Looks _ (both (moved a₂ 1) (moved b₂ 1)) (wrappedSent (n + 1) ++ [sampleMessage .bob b₂ 0]) _
    [n + 2, n + 1, 0] :=
    update_both_bob (moved a₂ 1) b₂ (moved b₂ 1) ▸ h6.encrypt (p := .bob) rfl
  -- no key is stored for the old message
  have h8 := h7.handOn (p := .alice) (s := Sample.alice) (i := n)
    (by rw [List.getElem?_append_left (by omega)]; exact wrappedSent_old hn)
    rfl (by change some (k 4) ≠ some (k 2); decide) (by rintro c ⟨⟩; exact Nat.zero_le _) ⟨Sample.bytes32 6⟩
  have h9 := h8.handOn (p := .bob) (s := b₂) (i := n + 3)
    (by rw [List.getElem?_append_right hlen.le, hlen, Nat.sub_self]; rfl)
    rfl (by change some (k 3) ≠ some (k 5); decide) (by rintro c ⟨⟩; exact le_rfl) ⟨Sample.bytes32 7⟩
  -- the last two set-ups are those of the rest of the run, and Bob still knows the chain Alice set up
  have hcomm : ∀ i j : UInt8, dh Sample.aead ⟨Sample.bytes32 i⟩ (k j) = dh Sample.aead ⟨Sample.bytes32 j⟩ (k i) :=
    fun i j => congrArg Term.dh Sym2.eq_swap
  have hchain : b₂.sendingChain = some ⟨nextChain Sample.aead a₂.rootKey (dh Sample.aead a₂.dhSecret (k 5)), 0⟩ := by
    change some (ChainKey.mk (nextChain Sample.aead (nextRoot Sample.aead (nextRoot Sample.aead
        (nextRoot Sample.aead (.shared 0)
        (dh Sample.aead ⟨Sample.bytes32 1⟩ (k 2))) (dh Sample.aead ⟨Sample.bytes32 3⟩ (k 2)))
        (dh Sample.aead ⟨Sample.bytes32 3⟩ (k 4))) (dh Sample.aead ⟨Sample.bytes32 5⟩ (k 4))) 0) = _
    rw [hcomm 1 2, hcomm 3 2, hcomm 3 4, hcomm 5 4]
    rfl
  rw [Run.exec_append, exec_wrapBefore, wrapBefore_eq, Run.exec_append]
  refine h7.not_recovers h9 rfl (c := ⟨nextChain Sample.aead a₂.rootKey (dh Sample.aead a₂.dhSecret (k 5)), 0⟩) ?_ rfl
  change (moved b₂ 1).sendingChain = _
  rw [moved, hchain, Option.map_some]

/-- The key pairs drawn are all new. -/
theorem freshKey_wrap (n : Nat) : Run.Along (Exchange.handOn Sample.aead) (Exchange.FreshKey Sample.aead)
    sampleExchange (wrapBefore n ++ wrapAfter n) := by
  have hdrawn : Exchange.drawn Sample.aead (wrapBefore n ++ wrapAfter n) =
      [3, 4, 5, 6, 7].map fun i => Sample.pub ⟨Sample.bytes32 i⟩ := by
    rw [wrapBefore, List.append_assoc, Exchange.drawn_encrypts]
    rfl
  refine Exchange.freshKey_handOn _ ?_ ?_
  · rw [hdrawn]
    decide
  · rw [hdrawn]
    decide

/-- Both conditions are needed. Once Alice's first chain has come to `2^32` messages her headers give its
length wrongly, so that Bob stores no key for the last of them; and no key is stored for a message that
is handed on to him again. Either takes him through a DH ratchet at any time, before the AEAD is asked:
he has drawn a new key, but she goes on in the chain he was sending in when he was read. -/
theorem not_recovers_after_wrap_or_replay :
    sampleExchange.Start Sample.aead (.shared 0) Sample.aliceSecret Sample.spk ∧
    (Run.Along (Exchange.handOn Sample.aead) (Exchange.FreshKey Sample.aead) sampleExchange
        (wrapBefore (2 ^ 32 + 1) ++ wrapAfter (2 ^ 32 + 1)) ∧
      Run.Along (Exchange.handOn Sample.aead) Exchange.Once sampleExchange
        (wrapBefore (2 ^ 32 + 1) ++ wrapAfter (2 ^ 32 + 1)) ∧
      ¬ Recovers Sample.aead .bob (Run.exec (Exchange.handOn Sample.aead) sampleExchange (wrapBefore (2 ^ 32 + 1)))
        (Run.exec (Exchange.handOn Sample.aead) sampleExchange
          (wrapBefore (2 ^ 32 + 1) ++ wrapAfter (2 ^ 32 + 1)))) ∧
    (Run.Along (Exchange.handOn Sample.aead) (Exchange.FreshKey Sample.aead) sampleExchange
        (wrapBefore 1 ++ wrapAfter 1) ∧
      Run.Throughout (Exchange.handOn Sample.aead) Exchange.ShortChains sampleExchange (wrapBefore 1 ++ wrapAfter 1) ∧
      ¬ Recovers Sample.aead .bob (Run.exec (Exchange.handOn Sample.aead) sampleExchange (wrapBefore 1))
        (Run.exec (Exchange.handOn Sample.aead) sampleExchange (wrapBefore 1 ++ wrapAfter 1))) := by
  refine ⟨sampleExchange_start, ⟨freshKey_wrap _, Exchange.once_handOn _ ?_ fun _ _ => rfl,
    not_recovers_of_wrap (by decide)⟩, freshKey_wrap 1, ?_, not_recovers_of_wrap rfl⟩
  · rw [wrapBefore, List.append_assoc, Exchange.handedOn_encrypts]
    simp [wrapAfter, Exchange.handedOn]
  · exact (Exchange.length_sent_throughout_handOn _ (n := 9) (by decide)).mono
      fun x h => Exchange.shortChains_of_length (h.trans_lt (by norm_num))

end GhostCrypt.Ratchet
