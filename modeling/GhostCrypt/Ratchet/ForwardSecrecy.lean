/-
Forward secrecy of the session state. Whatever calls a session gets, the keys it has used or tried
are out of reach of an adversary that reads the whole session, every header, and any secrets of
its own: the root keys below the present one are gone, and every spent key lies behind one.
-/
import GhostCrypt.Ratchet.History

namespace GhostCrypt.Ratchet

open Session Symbolic

/-! ## What is spent, what is read -/

section

variable {B : Type} [ByteString B] (P : Primitives B)

/-- A session, the AEAD keys its calls have used or tried, and the headers sent or received. -/
structure Record (B : Type) where
  session : Session B
  spent : List B
  headers : List MessageHeader

/-- A call, recorded. -/
def Record.call (r : Record B) : Call → Record B
  | .encrypt nonce plaintext =>
    { session := r.session.call P (.encrypt nonce plaintext)
      spent := match (r.session.nextMessageKey P).1 with
        | .ok (_, key) => key :: r.spent
        | _ => r.spent
      headers := match (r.session.encrypt P nonce plaintext).1 with
        | .ok (header, _) => header :: r.headers
        | _ => r.headers }
  | .decrypt fresh header encrypted =>
    { session := r.session.call P (.decrypt fresh header encrypted)
      spent := match (r.session.takeMessageKey P fresh header).1 with
        | .ok key => key :: r.spent
        | _ => r.spent
      headers := header :: r.headers }

/-- The key recorded for a message that `encrypt` returns is the one it is sealed under. -/
theorem Record.spent_encrypt {r : Record B} {nonce : Aead.Nonce} {plaintext : Bytes} {header : MessageHeader}
    {encrypted : Aead.Encrypted} (h : (r.session.encrypt P nonce plaintext).1 = .ok (header, encrypted)) :
    ∃ key, (r.call P (.encrypt nonce plaintext)).spent = key :: r.spent ∧
      Aead.encrypt P nonce key plaintext header.toBytes = .ok encrypted := by
  obtain ⟨key, hkey, hseal⟩ := (encrypt_ok P).1 h
  refine ⟨key, ?_, hseal⟩
  rw [Record.call, hkey]

/-- And the key recorded for a message that `decrypt` accepts is the one that opens it. -/
theorem Record.spent_decrypt {r : Record B} {fresh : StaticSecret} {header : MessageHeader}
    {encrypted : Aead.Encrypted} {plaintext : Bytes}
    (h : (r.session.decrypt P fresh header encrypted).1 = .ok plaintext) :
    ∃ key, (r.call P (.decrypt fresh header encrypted)).spent = key :: r.spent ∧
      Aead.decrypt P key encrypted header.toBytes = .ok plaintext := by
  obtain ⟨key, hkey, hopen⟩ := (decrypt_ok P).1 h
  refine ⟨key, ?_, hopen⟩
  rw [Record.call, hkey]

/-- Nothing recorded yet. -/
def Record.start (s : Session B) : Record B := ⟨s, [], []⟩

/-- The recorded keys are those at the positions the session has used or tried. -/
structure Record.At (sharedSecret : B) (g : Places B) (r : Record B) : Prop where
  history : History P sharedSecret g r.session
  spent : ∀ k ∈ r.spent, ∃ p, (p ∈ g.used ∨ p ∈ g.tried) ∧ k = positionKey P sharedSecret p

theorem Record.At.call {sharedSecret : B} {g : Places B} {r : Record B} (h : r.At P sharedSecret g) (c : Call) :
    ∃ g', (r.call P c).At P sharedSecret g' := by
  cases c with
  | encrypt nonce plaintext =>
    rcases nextMessageKey_cases P r.session with ⟨-, hn⟩ | ⟨c, hc, hn⟩
    · refine ⟨g, ?_, ?_⟩
      · rw [Record.call, Session.call, encrypt_snd, hn]
        exact h.history
      · rw [Record.call, hn]
        exact h.spent
    · refine ⟨g.send, ?_, ?_⟩
      · rw [Record.call, Session.call, encrypt_snd, hn]
        exact h.history.send hc
      · rw [Record.call, hn]
        intro k hk
        rcases List.mem_cons.1 hk with rfl | hk
        · exact ⟨_, .inl (List.mem_cons_self ..), h.history.send_key hc⟩
        · obtain ⟨p, hp, rfl⟩ := h.spent k hk
          exact ⟨p, hp.imp_left (List.mem_cons_of_mem _), rfl⟩
  | decrypt fresh header encrypted =>
    obtain ⟨g', hg', ht⟩ := h.history.takeMessageKey fresh header
    refine ⟨g', ?_, ?_⟩
    · rw [Record.call, Session.call, decrypt_snd]
      exact hg'
    · rcases ht.tried with ⟨p, ho, htried⟩ | ⟨ho, htried⟩
      · rw [Record.call, ho]
        intro k hk
        rcases List.mem_cons.1 hk with rfl | hk
        · exact ⟨p, .inr (htried ▸ List.mem_cons_self ..), rfl⟩
        · obtain ⟨q, hq, rfl⟩ := h.spent k hk
          rw [ht.used, htried]
          exact ⟨q, hq.imp_right (List.mem_cons_of_mem _), rfl⟩
      · intro k hk
        have hk' : k ∈ r.spent := by
          rw [Record.call] at hk
          cases ho' : (r.session.takeMessageKey P fresh header).1 with
          | ok key => exact absurd ho' (ho key)
          | err e => rwa [ho'] at hk
          | panic => rwa [ho'] at hk
        obtain ⟨q, hq, rfl⟩ := h.spent k hk'
        rw [ht.used, htried]
        exact ⟨q, hq, rfl⟩

end

/-- The key material in a session. -/
def contents (s : Session Key) : Set Key :=
  { t | t = s.rootKey ∨ t = .secret s.dhSecret ∨ (∃ c, s.sendingChain = some c ∧ t = c.key) ∨
      (∃ c, s.receivingChain = some c ∧ t = c.key) ∨ ∃ x, s.skippedKeys.lookup x = some t }

/-- The headers, as the bytes they are sent as. -/
def headerTerms (headers : List MessageHeader) : Set Key := { t | ∃ h ∈ headers, t = .bytes h.toBytes }

/-- Secrets of the adversary. -/
def secretTerms (A : Set StaticSecret) : Set Key := { t | ∃ a ∈ A, t = .secret a }

/-! ## What is out of reach -/

section

variable (pub : StaticSecret → PublicKey) (enc dec : Key → Bytes → Bytes → Bytes → Option Bytes) (n : Nat)

/-- The keys that cannot be computed from a session at its places: the root keys below the present
one, the HKDF outputs and chain keys behind those it holds, and the spent message keys. -/
inductive Hidden (g : Places Key) : Set Key
  | foot : [] ≠ g.path → Hidden g (.shared n)
  | root (d : Key) (q : List Key) : d :: q <:+ g.path → d :: q ≠ g.path →
      Hidden g (.lower (ladderBlock (symbolic pub enc dec) (.shared n) (d :: q)))
  | block (d : Key) (q : List Key) : d :: q <:+ g.path → (d :: q = g.path → 0 < g.sent) →
      Hidden g (.hkdf (ladderRoot (symbolic pub enc dec) (.shared n) q) d (ascii "GhostCrypt_Ratchet") 64)
  | chain (d : Key) (q : List Key) : g.Reached (d :: q, 0) →
      Hidden g (.upper (ladderBlock (symbolic pub enc dec) (.shared n) (d :: q)))
  | next (q : List Key) (m : Nat) : g.Reached (q, m + 1) →
      Hidden g (.hmac (chainKeyAt (symbolic pub enc dec) (ladderChain (symbolic pub enc dec) (.shared n) q) m) [0x01])
  | spent (p : Position Key) : p ∈ g.used ∨ p ∈ g.tried →
      Hidden g (.hmac (chainKeyAt (symbolic pub enc dec) (ladderChain (symbolic pub enc dec) (.shared n) p.1) p.2)
        [0x02])

variable {pub enc dec n} {g : Places Key}

namespace Hidden

theorem of_root : ∀ {q : List Key}, q <:+ g.path → q ≠ g.path →
    Hidden pub enc dec n g (ladderRoot (symbolic pub enc dec) (.shared n) q)
  | [], _, hne => .foot hne
  | d :: q, hq, hne => .root d q hq hne

theorem of_chain : ∀ {q : List Key} {m : Nat}, g.Reached (q, m) →
    Hidden pub enc dec n g (chainKeyAt (symbolic pub enc dec) (ladderChain (symbolic pub enc dec) (.shared n) q) m)
  | [], 0, h => absurd rfl h.nonempty
  | d :: q, 0, h => .chain d q h
  | q, m + 1, h => .next q m h

theorem lower_inv {t : Key} (h : Hidden pub enc dec n g (.lower t)) :
    ∃ d q, t = ladderBlock (symbolic pub enc dec) (.shared n) (d :: q) ∧ d :: q <:+ g.path ∧ d :: q ≠ g.path := by
  cases h with
  | root d q hq hne => exact ⟨d, q, rfl, hq, hne⟩

theorem upper_inv {t : Key} (h : Hidden pub enc dec n g (.upper t)) :
    ∃ d q, t = ladderBlock (symbolic pub enc dec) (.shared n) (d :: q) ∧ g.Reached (d :: q, 0) := by
  cases h with
  | chain d q hr => exact ⟨d, q, rfl, hr⟩

theorem hkdf_inv {salt ikm : Key} {info : Bytes} {l : Nat} (h : Hidden pub enc dec n g (.hkdf salt ikm info l)) :
    ∃ q, salt = ladderRoot (symbolic pub enc dec) (.shared n) q ∧ ikm :: q <:+ g.path ∧
      (ikm :: q = g.path → 0 < g.sent) := by
  cases h with
  | block _ q hq hs => exact ⟨q, rfl, hq, hs⟩

theorem hmac_inv {key : Key} {data : Bytes} (h : Hidden pub enc dec n g (.hmac key data)) :
    ∃ q m, key = chainKeyAt (symbolic pub enc dec) (ladderChain (symbolic pub enc dec) (.shared n) q) m ∧
      ((data = [0x01] ∧ g.Reached (q, m + 1)) ∨ (data = [0x02] ∧ ((q, m) ∈ g.used ∨ (q, m) ∈ g.tried))) := by
  cases h with
  | next q m hr => exact ⟨q, m, rfl, .inl ⟨rfl, hr⟩⟩
  | spent p hp => exact ⟨p.1, p.2, rfl, .inr ⟨rfl, hp⟩⟩

/-- A chain key a session may hold, at a position not behind it, gives nothing hidden away. -/
theorem not_exposes_chain : ∀ {q : List Key} {m : Nat}, q <:+ g.path → q ≠ [] → (q = g.path → m = g.sent) →
    ¬ g.Reached (q, m) →
    ¬ Exposes (Hidden pub enc dec n g)
      (chainKeyAt (symbolic pub enc dec) (ladderChain (symbolic pub enc dec) (.shared n) q) m)
  | [], _, _, hne, _, _ => absurd rfl hne
  | d :: q, 0, hq, hne, hm, hnot => by
    rintro (hup | ⟨hblock, hlow⟩)
    · obtain ⟨e, q', heq, hr⟩ := upper_inv hup
      have := ladderBlock_inj pub enc dec (.shared n) hne (List.cons_ne_nil e q') heq
      exact hnot (this ▸ hr)
    · -- the other slice is the root key, which is hidden unless it is the present one
      by_cases htop : d :: q = g.path
      · obtain ⟨q', heq, -, hs⟩ := hkdf_inv hblock
        have hq' : q = q' := ladderRoot_injective pub enc dec (.shared n) heq
        subst hq'
        have := hs htop
        have := hm htop
        omega
      · exact hlow (.root d q hq htop)
  | q, m + 1, _, hne, _, hnot => by
    intro h
    obtain ⟨q', m', heq, ⟨-, hr⟩ | ⟨hdata, -⟩⟩ := hmac_inv h
    · have hq' : q' ≠ [] := hr.nonempty
      obtain ⟨rfl, rfl⟩ := chainKeyAt_inj pub enc dec (.shared n) hne hq' heq
      exact hnot hr
    · exact absurd hdata (by decide)

theorem not_exposes_root : ∀ {path : List Key}, path = g.path →
    ¬ Exposes (Hidden pub enc dec n g) (ladderRoot (symbolic pub enc dec) (.shared n) path)
  | [], htop => fun h => by
    cases (show Hidden pub enc dec n g (.shared n) from h) with
    | foot hne => exact hne htop
  | d :: q, htop => by
    rintro (hlow | ⟨hblock, hup⟩)
    · obtain ⟨e, q', heq, -, hne⟩ := lower_inv hlow
      exact hne (ladderBlock_inj pub enc dec (.shared n) (List.cons_ne_nil d q) (List.cons_ne_nil e q') heq ▸ htop)
    · obtain ⟨q', heq, hq, hs⟩ := hkdf_inv hblock
      have hq' : q = q' := ladderRoot_injective pub enc dec (.shared n) heq
      subst hq'
      refine hup (.chain d q ⟨hq, List.cons_ne_nil d q, hs, fun htail => ?_⟩)
      have hlen := congrArg List.length htail
      rw [← htop] at hlen
      simp at hlen

end Hidden

/-- The hidden keys are out of reach of whoever reads the session and the headers. -/
theorem History.sealed {s : Session Key} (h : History (symbolic pub enc dec) (.shared n) g s)
    (headers : List MessageHeader) (A : Set StaticSecret) :
    Sealed pub (contents s ∪ headerTerms headers ∪ secretTerms A) (Hidden pub enc dec n g) where
  known := by
    rintro t ((hc | ⟨header, -, rfl⟩) | ⟨a, -, rfl⟩) hexp
    · rcases hc with rfl | rfl | ⟨c, hc, rfl⟩ | ⟨c, hc, rfl⟩ | ⟨x, hx⟩
      · rw [h.root] at hexp
        exact Hidden.not_exposes_root rfl hexp
      · cases hexp
      · obtain ⟨hne, rfl⟩ := h.sending c hc
        exact Hidden.not_exposes_chain (List.suffix_refl _) hne (fun _ => rfl)
          (fun hr => Nat.lt_irrefl _ (hr.sent rfl)) hexp
      · obtain ⟨hlen, rfl⟩ := h.receiving c hc
        refine Hidden.not_exposes_chain (List.tail_suffix _) (Places.tail_ne_nil hlen) (fun htail => ?_)
          (fun hr => Nat.lt_irrefl _ (hr.received rfl)) hexp
        have := congrArg List.length htail
        rw [List.length_tail] at this
        omega
      · obtain ⟨rfl, hr, ht⟩ := h.stored x t hx
        obtain ⟨q, m, heq, ⟨hdata, -⟩ | ⟨-, hspent⟩⟩ := Hidden.hmac_inv hexp
        · exact absurd hdata (by decide)
        · have hq : q ≠ [] := by
            rcases hspent with hu | hu
            · exact (h.used _ hu).nonempty
            · exact (h.tried _ hu).nonempty
          obtain ⟨rfl, rfl⟩ := chainKeyAt_inj pub enc dec (.shared n) hr.nonempty hq heq
          rcases hspent with hu | hu
          · exact hr.parity (h.used _ hu).parity
          · exact ht hu
    · cases hexp
    · cases hexp
  bytes := by rintro b ⟨⟩
  append := by rintro a b ⟨⟩
  lower := by
    intro t ht
    obtain ⟨d, q, rfl, hq, hne⟩ := Hidden.lower_inv ht
    exact .block d q hq fun htop => absurd htop hne
  upper := by
    intro t ht
    obtain ⟨d, q, rfl, hr⟩ := Hidden.upper_inv ht
    exact .block d q hr.suffix hr.sent
  hmac := by
    intro key data ht
    obtain ⟨q, m, rfl, ⟨-, hr⟩ | ⟨-, hspent⟩⟩ := Hidden.hmac_inv ht
    · exact .of_chain ⟨hr.suffix, hr.nonempty, fun hq => Nat.lt_of_succ_lt (hr.sent hq),
        fun hq => Nat.lt_of_succ_lt (hr.received hq)⟩
    · rcases hspent with hu | hu
      · exact .of_chain (h.used _ hu).reached
      · exact .of_chain (h.tried _ hu).reached
  hkdf := by
    intro salt ikm info l ht
    obtain ⟨q, rfl, hq, -⟩ := Hidden.hkdf_inv ht
    refine .inl (.of_root ((List.suffix_cons ikm q).trans hq) fun htop => ?_)
    have := hq.length_le
    rw [htop, List.length_cons] at this
    omega
  dh := by rintro s q ⟨⟩

variable (pub enc dec n)

/-- After any calls, no key used by an earlier `encrypt` or tried by an earlier `decrypt` can be
computed from the session, all headers, and any secrets of the adversary. -/
theorem forward_secrecy {s₀ : Session Key} (hs : Created (symbolic pub enc dec) (.shared n) s₀)
    (calls : List Call) (A : Set StaticSecret) :
    let r := Run.exec (Record.call (symbolic pub enc dec)) (Record.start s₀) calls
    ∀ k ∈ r.spent, ¬ Derivable pub (contents r.session ∪ headerTerms r.headers ∪ secretTerms A) k := by
  intro r k hk
  have hr : ∃ g, r.At (symbolic pub enc dec) (.shared n) g := by
    refine Run.exec_invariant' (I := fun r : Record Key => ∃ g, r.At (symbolic pub enc dec) (.shared n) g) ?_ ?_
    · rintro r c ⟨g, hg⟩
      exact hg.call _ c
    · obtain ⟨g, hg, -, -⟩ := History.created hs
      exact ⟨g, hg, by rintro k ⟨⟩⟩
  obtain ⟨g, hg⟩ := hr
  obtain ⟨p, hp, rfl⟩ := hg.spent k hk
  exact (hg.history.sealed r.headers A).not_derivable (.spent p hp)

end

/-- Bob, after Alice's message 1 and an answer, to an adversary who knows the secret Alice drew. -/
theorem forward_secrecy_bob :
    let r := Run.exec (Record.call Sample.aead) (Record.start Sample.bob)
      [.decrypt Sample.freshSecret (Sample.header 1) Sample.garbage, .encrypt Sample.nonce [1]]
    ∀ k ∈ r.spent, ¬ Derivable Sample.pub
      (contents r.session ∪ headerTerms r.headers ∪ secretTerms {Sample.aliceSecret}) k :=
  forward_secrecy Sample.pub Sample.sealMsg Sample.openMsg 0 Sample.bob_created _ _

end GhostCrypt.Ratchet
