/-
The numbers a session gives its messages. Whatever is delivered to it, the headers under each of its
DH keys count 0, 1, 2, …, each says how many messages its previous key was used for, and no key of
the AEAD comes back.
-/
import GhostCrypt.Ratchet.History

namespace GhostCrypt.Ratchet

open Session

variable {B : Type}

/-! ## The sending side of a session -/

namespace Session

/-- The fields that say under which key and number a session sends are left alone. -/
structure SameSending (s s' : Session B) : Prop where
  remote : s'.remoteDhPublic = s.remoteDhPublic
  dhPublic : s'.dhPublic = s.dhPublic
  chain : s'.sendingChain = s.sendingChain
  previous : s'.previousSendingChainLength = s.previousSendingChainLength

section

variable [ByteString B] (P : Primitives B)

/-- They are those of a key pair just drawn; the length of the chain before is noted. -/
structure NewSending (fresh : StaticSecret) (s s' : Session B) : Prop where
  remote : s'.remoteDhPublic ≠ s.remoteDhPublic
  dhPublic : s'.dhPublic = P.publicKey fresh
  chain : ∃ c, s'.sendingChain = some c ∧ c.index = 0
  previous : s'.previousSendingChainLength = (s.sendingChain.map ChainKey.index).getD 0

variable {P} {fresh : StaticSecret} {header : MessageHeader} {s s₁ s' : Session B}

theorem ReceiveResult.sameSending {r : Outcome CryptoError B × Session B} (h : ReceiveResult P header s r) :
    SameSending s r.2 := by
  cases h <;> exact ⟨rfl, rfl, rfl, rfl⟩

theorem SkippedOld.sameSending (h : SkippedOld P header s s₁) : SameSending s s₁ := by
  cases h <;> exact ⟨rfl, rfl, rfl, rfl⟩

theorem NewSending.trans (h : SameSending s s₁) (hnew : NewSending P fresh s₁ s') : NewSending P fresh s s' where
  remote := h.remote ▸ hnew.remote
  dhPublic := hnew.dhPublic
  chain := hnew.chain
  previous := h.chain ▸ hnew.previous

theorem newSending_ratcheted {k : PublicKey} (hk : s.remoteDhPublic ≠ some k)
    (h : SameSending (s.ratcheted P fresh k) s') : NewSending P fresh s s' where
  remote := by
    rw [h.remote]
    exact hk.symm
  dhPublic := h.dhPublic
  chain := ⟨_, h.chain, rfl⟩
  previous := h.previous

/-- A `decrypt` leaves the sending side alone unless it performs a DH ratchet. -/
theorem takeMessageKey_sending (fresh : StaticSecret) (s : Session B) (header : MessageHeader) :
    SameSending s (s.takeMessageKey P fresh header).2 ∨ NewSending P fresh s (s.takeMessageKey P fresh header).2 := by
  have h := takeMessageKey_cases P fresh header s
  generalize s.takeMessageKey P fresh header = r at h
  cases h with
  | stored | badHeader | oldTooMany => exact .inl ⟨rfl, rfl, rfl, rfl⟩
  | current k r _ _ _ hr => exact .inl hr.sameSending
  | ratchet k s₁ r _ _ hk hold hr =>
    have hsame := hold.sameSending
    exact .inr (.trans hsame (newSending_ratcheted (hsame.remote ▸ hk) hr.sameSending))

end

end Session

/-! ## The journal of a session -/

/-- A session, the public keys of its own key pairs, latest first, and the headers its `encrypt` calls
returned with the AEAD keys they used, in the order of the calls. -/
structure Journal (B : Type) where
  session : Session B
  keys : List PublicKey
  sent : List (MessageHeader × B)

namespace Journal

/-- A new session. -/
def start (s : Session B) : Journal B := { session := s, keys := [s.dhPublic], sent := [] }

/-- The entries of the messages sent under a key. -/
def under (j : Journal B) (k : PublicKey) : List (MessageHeader × B) :=
  j.sent.filter fun m => m.1.dhPublicKey == k.toVec

/-- The length of the chain before, whose key is the first of `older` if there is one. -/
def lengthBefore (j : Journal B) (older : List PublicKey) : ℕ := (older.head?.map fun k => (j.under k).length).getD 0

/-- A message is sent under the present key. -/
def enter (j : Journal B) (s' : Session B) (m : MessageHeader × B) : Journal B :=
  { session := s', keys := j.keys, sent := j.sent ++ [m] }

/-- What is entered is in order: numbers and lengths as `u32` counts. -/
structure InOrder (j : Journal B) : Prop where
  key : j.keys.head? = some j.session.dhPublic
  index : (j.session.sendingChain.map ChainKey.index).getD 0 = UInt32.ofNat (j.under j.session.dhPublic).length
  previous : j.session.previousSendingChainLength = UInt32.ofNat (j.lengthBefore j.keys.tail)
  numbers : ∀ k, (j.under k).map (fun m => m.1.messageNumber) = (List.range (j.under k).length).map UInt32.ofNat
  lengths : ∀ m ∈ j.sent, ∃ later k older, j.keys = later ++ k :: older ∧ m.1.dhPublicKey = k.toVec ∧
    m.1.previousChainLength = UInt32.ofNat (j.lengthBefore older)

variable {j : Journal B}

theorem start_inOrder {s : Session B} (hs : (s.sendingChain.map ChainKey.index).getD 0 = 0)
    (hprev : s.previousSendingChainLength = 0) : (start s).InOrder where
  key := rfl
  index := hs
  previous := hprev
  numbers _ := rfl
  lengths _ hm := nomatch hm

/-- Nothing was sent under a key not in the journal. -/
theorem InOrder.under_new (h : j.InOrder) {k : PublicKey} (hk : k ∉ j.keys) : j.under k = [] := by
  refine List.filter_eq_nil_iff.2 fun m hm heq => ?_
  obtain ⟨later, k', older, hkeys, hkey, -⟩ := h.lengths m hm
  obtain rfl := PublicKey.toVec_inj.1 (hkey.symm.trans (beq_iff_eq.1 heq))
  exact hk (hkeys ▸ List.mem_append_right later (List.mem_cons_self ..))

/-- The present key is not older than any. -/
theorem notMem_older {keys later older : List PublicKey} {d k : PublicKey} (hnodup : keys.Nodup)
    (hhead : keys.head? = some d) (hkeys : keys = later ++ k :: older) : d ∉ older := by
  subst hkeys
  cases later with
  | nil =>
    obtain rfl := Option.some.inj hhead
    exact (List.nodup_cons.1 hnodup).1
  | cons d' later =>
    obtain rfl := Option.some.inj hhead
    intro hmem
    exact (List.nodup_cons.1 hnodup).1 (List.mem_append_right later (List.mem_cons_of_mem _ hmem))

theorem under_enter (j : Journal B) (s' : Session B) {m : MessageHeader × B} {d : PublicKey}
    (hm : m.1.dhPublicKey = d.toVec) (k : PublicKey) :
    (j.enter s' m).under k = if k = d then j.under k ++ [m] else j.under k := by
  unfold under enter
  rw [List.filter_append]
  split
  · rename_i hk
    rw [List.filter_singleton, hm, hk, beq_self_eq_true]
    rfl
  · rename_i hk
    have hne : (m.1.dhPublicKey == k.toVec) = false := by
      rw [hm, beq_eq_false_iff_ne]
      exact fun h => hk (PublicKey.toVec_inj.1 h).symm
    rw [List.filter_singleton, hne]
    exact List.append_nil _

theorem lengthBefore_enter (j : Journal B) (s' : Session B) {m : MessageHeader × B} {d : PublicKey}
    (hm : m.1.dhPublicKey = d.toVec) {older : List PublicKey} (hd : d ∉ older) :
    (j.enter s' m).lengthBefore older = j.lengthBefore older := by
  cases older with
  | nil => rfl
  | cons k older =>
    have hne : k ≠ d := fun h => hd (h ▸ List.mem_cons_self ..)
    simp only [lengthBefore, List.head?_cons, Option.map_some, Option.getD_some, under_enter j s' hm, if_neg hne]

theorem InOrder.keep (h : j.InOrder) {s' : Session B} (hsame : SameSending j.session s') :
    ({ j with session := s' } : Journal B).InOrder where
  key := hsame.dhPublic ▸ h.key
  index := by
    rw [hsame.chain, hsame.dhPublic]
    exact h.index
  previous := hsame.previous ▸ h.previous
  numbers := h.numbers
  lengths := h.lengths

variable [ByteString B] (P : Primitives B)

/-- A call, entered. A DH ratchet is told by the new remote key. -/
def call (j : Journal B) : Call → Journal B
  | .encrypt nonce plaintext =>
    match (j.session.nextMessageKey P).1, (j.session.encrypt P nonce plaintext).1 with
    | .ok (_, key), .ok (header, _) => j.enter (j.session.call P (.encrypt nonce plaintext)) (header, key)
    | _, _ => { j with session := j.session.call P (.encrypt nonce plaintext) }
  | .decrypt fresh header encrypted =>
    let s' := j.session.call P (.decrypt fresh header encrypted)
    { session := s'
      keys := if s'.remoteDhPublic = j.session.remoteDhPublic then j.keys else P.publicKey fresh :: j.keys
      sent := j.sent }

/-- The key entered with a header that `encrypt` returns is the one its message is sealed under. -/
theorem sent_encrypt {j : Journal B} {nonce : Aead.Nonce} {plaintext : Bytes} {header : MessageHeader}
    {encrypted : Aead.Encrypted} (h : (j.session.encrypt P nonce plaintext).1 = .ok (header, encrypted)) :
    ∃ key, (j.call P (.encrypt nonce plaintext)).sent = j.sent ++ [(header, key)] ∧
      Aead.encrypt P nonce key plaintext header.toBytes = .ok encrypted := by
  obtain ⟨key, hkey, hseal⟩ := (encrypt_ok P).1 h
  refine ⟨key, ?_, hseal⟩
  simp only [call, hkey, h, enter]

/-- The AEAD takes the plaintext of the call, if the session has a key for it. -/
def Seals (j : Journal B) : Call → Prop
  | .encrypt nonce plaintext => ∀ header key, (j.session.nextMessageKey P).1 = .ok (header, key) →
    ∃ encrypted, Aead.encrypt P nonce key plaintext header.toBytes = .ok encrypted
  | .decrypt _ _ _ => True

variable {P}

/-- `encrypt` gives the next number. -/
theorem InOrder.enter (h : j.InOrder) (hnodup : j.keys.Nodup) {c : ChainKey B} (hc : j.session.sendingChain = some c)
    (key : B) : (j.enter { j.session with sendingChain := some (c.advanced P 1) }
      (MessageHeader.new j.session.dhPublic c.index j.session.previousSendingChainLength, key)).InOrder := by
  have hindex := h.index
  rw [hc, Option.map_some, Option.getD_some] at hindex
  generalize hs' : ({ j.session with sendingChain := some (c.advanced P 1) } : Session B) = s'
  generalize hm : (MessageHeader.new j.session.dhPublic c.index j.session.previousSendingChainLength, key) = m
  have hkey : m.1.dhPublicKey = j.session.dhPublic.toVec := by rw [← hm]; rfl
  have hunder := j.under_enter s' hkey
  refine ⟨?_, ?_, ?_, ?_, ?_⟩
  · rw [← hs']
    exact h.key
  · have hdh : (j.enter s' m).session.dhPublic = j.session.dhPublic := by rw [← hs']; rfl
    rw [hdh, hunder, if_pos rfl, List.length_append, List.length_singleton, UInt32.ofNat_add, ← hindex, ← hs']
    rfl
  · have htail : j.session.dhPublic ∉ j.keys.tail := by
      obtain ⟨older, hkeys⟩ := List.head?_eq_some_iff.1 h.key
      rw [hkeys] at hnodup ⊢
      exact (List.nodup_cons.1 hnodup).1
    rw [show (j.enter s' m).keys = j.keys from rfl, lengthBefore_enter j s' hkey htail, ← h.previous, ← hs']
    rfl
  · intro k
    rw [hunder]
    split
    · rename_i hk
      rw [List.length_append, List.length_singleton, List.range_succ, List.map_append, List.map_append, h.numbers k]
      rw [hk, ← hm]
      exact congrArg _ (congrArg (fun i => [i]) hindex)
    · exact h.numbers k
  · intro m' hm'
    rcases List.mem_append.1 hm' with hm' | hm'
    · obtain ⟨later, k, older, hkeys, hk, hlength⟩ := h.lengths m' hm'
      refine ⟨later, k, older, hkeys, hk, ?_⟩
      rw [lengthBefore_enter j s' hkey (notMem_older hnodup h.key hkeys)]
      exact hlength
    · obtain rfl := List.mem_singleton.1 hm'
      obtain ⟨older, hkeys⟩ := List.head?_eq_some_iff.1 h.key
      refine ⟨[], j.session.dhPublic, older, hkeys, hkey, ?_⟩
      have holder := notMem_older hnodup h.key (show j.keys = [] ++ j.session.dhPublic :: older from hkeys)
      have hprevious := h.previous
      rw [hkeys, List.tail_cons] at hprevious
      rw [lengthBefore_enter j s' hkey holder, ← hprevious, ← hm]
      rfl

/-- A DH ratchet starts a new chain. -/
theorem InOrder.renew (h : j.InOrder) {fresh : StaticSecret} {s' : Session B} (hnew : NewSending P fresh j.session s')
    (hfresh : P.publicKey fresh ∉ j.keys) :
    ({ session := s', keys := P.publicKey fresh :: j.keys, sent := j.sent } : Journal B).InOrder := by
  obtain ⟨c, hc, hzero⟩ := hnew.chain
  refine ⟨?_, ?_, ?_, h.numbers, ?_⟩
  · rw [hnew.dhPublic]
    rfl
  · have hnone : j.under s'.dhPublic = [] := h.under_new (hnew.dhPublic ▸ hfresh)
    show _ = UInt32.ofNat (j.under s'.dhPublic).length
    rw [hnone, hc, Option.map_some, Option.getD_some, hzero]
    rfl
  · obtain ⟨older, hkeys⟩ := List.head?_eq_some_iff.1 h.key
    rw [hnew.previous, h.index, List.tail_cons, hkeys]
    rfl
  · intro m hm
    obtain ⟨later, k, older, hkeys, hk, hlength⟩ := h.lengths m hm
    exact ⟨P.publicKey fresh :: later, k, older, congrArg _ hkeys, hk, hlength⟩

/-- A call whose message is sealed, if it has one, is entered as the session moved. -/
theorem call_cases (j : Journal B) (c : Call) (hseals : j.Seals P c) :
    (∃ chain, j.session.sendingChain = some chain ∧
      j.call P c = j.enter { j.session with sendingChain := some (chain.advanced P 1) }
        (MessageHeader.new j.session.dhPublic chain.index j.session.previousSendingChainLength,
          messageKeyAt P chain.key 0)) ∨
    (∃ s', SameSending j.session s' ∧ j.call P c = { j with session := s' }) ∨
    (∃ fresh s', NewSending P fresh j.session s' ∧
      j.call P c = { session := s', keys := P.publicKey fresh :: j.keys, sent := j.sent }) := by
  cases c with
  | encrypt nonce plaintext =>
    rcases nextMessageKey_cases P j.session with ⟨-, hn⟩ | ⟨chain, hchain, hn⟩
    · refine .inr (.inl ⟨j.session, ⟨rfl, rfl, rfl, rfl⟩, ?_⟩)
      simp only [call, Session.call, encrypt_snd, hn]
    · obtain ⟨encrypted, hsealed⟩ := hseals _ _ (congrArg Prod.fst hn)
      have hok := (encrypt_ok P).2 ⟨_, congrArg Prod.fst hn, hsealed⟩
      refine .inl ⟨chain, hchain, ?_⟩
      simp only [call, Session.call, encrypt_snd, hn, hok]
  | decrypt fresh header encrypted =>
    rcases takeMessageKey_sending (P := P) fresh j.session header with hsame | hnew
    · refine .inr (.inl ⟨_, hsame, ?_⟩)
      simp only [call, Session.call, decrypt_snd, if_pos hsame.remote]
    · refine .inr (.inr ⟨fresh, _, hnew, ?_⟩)
      simp only [call, Session.call, decrypt_snd, if_neg hnew.remote]

theorem keys_call (j : Journal B) (c : Call) : j.keys <:+ (j.call P c).keys := by
  cases c with
  | encrypt nonce plaintext =>
    rw [call]
    split <;> exact List.suffix_refl _
  | decrypt fresh header encrypted =>
    simp only [call]
    split
    · exact List.suffix_refl _
    · exact List.suffix_cons _ _

/-- Every call keeps the journal in order, as long as no key pair is drawn twice. -/
theorem InOrder.call (h : j.InOrder) (c : Call) (hseals : j.Seals P c) (hnodup : (j.call P c).keys.Nodup) :
    (j.call P c).InOrder := by
  rcases j.call_cases c hseals with ⟨chain, hc, heq⟩ | ⟨s', hsame, heq⟩ | ⟨fresh, s', hnew, heq⟩
  · rw [heq] at hnodup ⊢
    exact h.enter hnodup hc _
  · rw [heq]
    exact h.keep hsame
  · rw [heq] at hnodup ⊢
    exact h.renew hnew (List.nodup_cons.1 hnodup).1

/-! ## The keys of the AEAD -/

variable (P) in
/-- The keys entered are those at the positions `encrypt` has used. -/
structure At (sharedSecret : B) (g : Places B) (j : Journal B) : Prop where
  history : History P sharedSecret g j.session
  sent : j.sent.map Prod.snd = g.used.reverse.map (positionKey P sharedSecret)

theorem At.call {sharedSecret : B} {g : Places B} (h : j.At P sharedSecret g) (c : Call) (hseals : j.Seals P c) :
    ∃ g', (j.call P c).At P sharedSecret g' := by
  cases c with
  | encrypt nonce plaintext =>
    rcases nextMessageKey_cases P j.session with ⟨-, hn⟩ | ⟨chain, hchain, hn⟩
    · refine ⟨g, ?_⟩
      simp only [Journal.call, Session.call, encrypt_snd, hn]
      exact h
    · obtain ⟨encrypted, hsealed⟩ := hseals _ _ (congrArg Prod.fst hn)
      have hok := (encrypt_ok P).2 ⟨_, congrArg Prod.fst hn, hsealed⟩
      refine ⟨g.send, ?_⟩
      simp only [Journal.call, Session.call, encrypt_snd, hn, hok]
      refine ⟨h.history.send hchain, ?_⟩
      rw [enter, List.map_append, h.sent, Places.send, List.reverse_cons, List.map_append, h.history.send_key hchain]
      rfl
  | decrypt fresh header encrypted =>
    obtain ⟨g', hhistory, htried⟩ := h.history.takeMessageKey fresh header
    refine ⟨g', ?_, ?_⟩
    · simp only [Journal.call, Session.call, decrypt_snd]
      exact hhistory
    · rw [htried.used]
      exact h.sent

end Journal

/-! ## Runs -/

/-- What the messages of a journal show: no gap, no repetition, exact lengths, and no key twice. -/
structure Journal.Exact (j : Journal B) : Prop where
  /-- Under each key the messages are numbered `0, 1, 2, …`. -/
  numbers : ∀ k, (j.under k).map (fun m => m.1.messageNumber.toNat) = List.range (j.under k).length
  /-- Each header is under one of the keys, and tells how many messages are under the key before. -/
  lengths : ∀ m ∈ j.sent, ∃ later k older, j.keys = later ++ k :: older ∧ m.1.dhPublicKey = k.toVec ∧
    m.1.previousChainLength.toNat = j.lengthBefore older
  /-- No two messages are encrypted under one key. -/
  distinct : (j.sent.map Prod.snd).Nodup

namespace Journal

theorem created_inOrder [ByteString B] {P : Primitives B} {sharedSecret : B} {s : Session B}
    (hs : Created P sharedSecret s) : (start s).InOrder := by
  cases hs with
  | alice fresh pk s hs =>
    rw [initAlice_eq] at hs
    cases hs
    exact start_inOrder rfl rfl
  | bob ourSpk => exact start_inOrder rfl rfl

theorem lengthBefore_lt {j : Journal B} (hshort : ∀ k, (j.under k).length < 2 ^ 32) (older : List PublicKey) :
    j.lengthBefore older < 2 ^ 32 := by
  cases older with
  | nil => exact Nat.two_pow_pos 32
  | cons k older => exact hshort k

/-- Below `2^32` messages a key, the `u32` counts are exact. -/
theorem InOrder.exact {j : Journal B} (h : j.InOrder) (hshort : ∀ k, (j.under k).length < 2 ^ 32)
    (hdistinct : (j.sent.map Prod.snd).Nodup) : j.Exact where
  numbers k := by
    have hnumbers := congrArg (List.map UInt32.toNat) (h.numbers k)
    rw [List.map_map, List.map_map] at hnumbers
    have hsmall : (List.range (j.under k).length).map (UInt32.toNat ∘ UInt32.ofNat) =
        List.range (j.under k).length := by
      refine (List.map_congr_left fun n hn => ?_).trans (List.map_id _)
      exact UInt32.toNat_ofNat_of_lt' ((List.mem_range.1 hn).trans (hshort k))
    exact hnumbers.trans hsmall
  lengths m hm := by
    obtain ⟨later, k, older, hkeys, hk, hlength⟩ := h.lengths m hm
    refine ⟨later, k, older, hkeys, hk, ?_⟩
    rw [hlength, UInt32.toNat_ofNat_of_lt' (lengthBefore_lt hshort older)]
  distinct := hdistinct

/-- In the symbolic crates the keys differ where the positions do. -/
theorem At.nodup {pub : StaticSecret → PublicKey} {enc dec : Key → Bytes → Bytes → Bytes → Option Bytes}
    {sharedSecret : Key} {g : Places Key} {j : Journal Key} (h : j.At (symbolic pub enc dec) sharedSecret g) :
    (j.sent.map Prod.snd).Nodup := by
  rw [h.sent]
  refine List.Nodup.map_on ?_ (List.nodup_reverse.2 h.history.usedNodup)
  intro p hp q hq heq
  have hp' := h.history.used p (List.mem_reverse.1 hp)
  have hq' := h.history.used q (List.mem_reverse.1 hq)
  exact positionKey_inj pub enc dec sharedSecret hp'.nonempty hq'.nonempty heq

end Journal

/-- Whatever calls a session gets, the messages it sends are numbered without gap or repetition under
each of its keys, tell the length of the chain before, and never share a key of the AEAD: as long as
no key pair is drawn twice, no plaintext is refused, and no key is used for `2^32` messages. -/
theorem sender_exact (pub : StaticSecret → PublicKey) (enc dec : Key → Bytes → Bytes → Bytes → Option Bytes)
    {sharedSecret : Key} {s : Session Key} (hs : Created (symbolic pub enc dec) sharedSecret s) (calls : List Call)
    (hseals : Run.Along (Journal.call (symbolic pub enc dec)) (Journal.Seals (symbolic pub enc dec)) (.start s) calls) :
    let j := Run.exec (Journal.call (symbolic pub enc dec)) (.start s) calls
    j.keys.Nodup → (∀ k, (j.under k).length < 2 ^ 32) → j.Exact := by
  intro j hkeys hshort
  have hnodup : Run.Throughout (Journal.call (symbolic pub enc dec)) (fun j => j.keys.Nodup) (.start s) calls :=
    .of_last (fun j c h => h.sublist (j.keys_call c).sublist) hkeys
  have hinOrder : j.InOrder := Run.exec_invariant (I := Journal.InOrder) (fun j c h hc => h.call c hc.1 hc.2)
    (Journal.created_inOrder hs) (hseals.and hnodup.along)
  have hat : ∃ g, j.At (symbolic pub enc dec) sharedSecret g := by
    refine Run.exec_invariant (I := fun j : Journal Key => ∃ g, j.At (symbolic pub enc dec) sharedSecret g) ?_ ?_ hseals
    · rintro j c ⟨g, hg⟩ hc
      exact hg.call c hc
    · obtain ⟨g, hg, hused, -⟩ := History.created hs
      exact ⟨g, hg, by rw [hused]; rfl⟩
  obtain ⟨g, hg⟩ := hat
  exact hinOrder.exact hshort hg.nodup

theorem seals_sample (j : Journal Key) (c : Call) : j.Seals Sample.aead c := by
  cases c with
  | encrypt nonce plaintext => exact fun header key _ => ⟨_, rfl⟩
  | decrypt fresh header encrypted => trivial

/-- Alice sends twice, ratchets on a forged message, and sends again. -/
def forgedCalls : List Call :=
  [.encrypt Sample.nonce [1], .encrypt Sample.nonce [2],
    .decrypt Sample.freshSecret (MessageHeader.new (Sample.pub ⟨Sample.bytes32 4⟩) 0 0) Sample.garbage,
    .encrypt Sample.nonce [3]]

theorem sender_exact_forged : (Run.exec (Journal.call Sample.aead) (.start Sample.alice) forgedCalls).Exact := by
  refine sender_exact Sample.pub Sample.sealMsg Sample.openMsg (.alice _ _ _ Sample.alice_created) forgedCalls ?_ ?_ ?_
  · exact (Run.along_true _ _).mono fun j c _ => seals_sample j c
  · decide
  · intro k
    have hlength : (Run.exec (Journal.call Sample.aead) (.start Sample.alice) forgedCalls).sent.length = 3 := by decide
    exact (List.length_filter_le _ _).trans_lt (hlength ▸ by norm_num)

end GhostCrypt.Ratchet
