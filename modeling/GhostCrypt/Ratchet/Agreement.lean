/-
Two sessions over an active network. The adversary delivers what it likes to whom it likes; every
message accepted is one the other end sent, as it was sent, and accepted only once.
-/
import GhostCrypt.Ratchet.ForwardSecrecy

namespace GhostCrypt.Ratchet

open Session Symbolic

/-! ## The network -/

section

variable {B : Type} [ByteString B] (P : Primitives B)

/-- A message made by `encrypt`, with its AEAD key. -/
structure SentMessage (B : Type) where
  sender : Party
  plaintext : Bytes
  header : MessageHeader
  encrypted : Aead.Encrypted
  key : B

/-- A successful `decrypt`, with its AEAD key. -/
structure Accepted (B : Type) where
  receiver : Party
  plaintext : Bytes
  header : MessageHeader
  encrypted : Aead.Encrypted
  key : B

/-- Two sessions, the messages they have made, newest first, and those they have accepted. -/
structure Net (B : Type) where
  session : Party → Session B
  sent : List (SentMessage B)
  accepted : List (Accepted B)

/-- A move of the network: a party encrypts, or is handed a header and a ciphertext, any at all. -/
inductive NetAction
  | encrypt (sender : Party) (nonce : Aead.Nonce) (plaintext : Bytes)
  | decrypt (receiver : Party) (fresh : StaticSecret) (header : MessageHeader) (encrypted : Aead.Encrypted)

/-- One move. -/
def Net.step (net : Net B) : NetAction → Net B
  | .encrypt p nonce plaintext =>
    let session := Function.update net.session p ((net.session p).encrypt P nonce plaintext).2
    match ((net.session p).encrypt P nonce plaintext).1, ((net.session p).nextMessageKey P).1 with
    | .ok (header, encrypted), .ok (_, key) =>
      { net with session, sent := ⟨p, plaintext, header, encrypted, key⟩ :: net.sent }
    | _, _ => { net with session }
  | .decrypt p fresh header encrypted =>
    let session := Function.update net.session p ((net.session p).decrypt P fresh header encrypted).2
    match ((net.session p).decrypt P fresh header encrypted).1, ((net.session p).takeMessageKey P fresh header).1 with
    | .ok plaintext, .ok key =>
      { net with session, accepted := ⟨p, plaintext, header, encrypted, key⟩ :: net.accepted }
    | _, _ => { net with session }

/-- Every message made was sealed under its key, and every message accepted opens under its key. -/
structure Net.Keyed (net : Net B) : Prop where
  sent : ∀ m ∈ net.sent, ∃ nonce, Aead.encrypt P nonce m.key m.plaintext m.header.toBytes = .ok m.encrypted
  accepted : ∀ a ∈ net.accepted, Aead.decrypt P a.key a.encrypted a.header.toBytes = .ok a.plaintext

theorem Net.Keyed.step {net : Net B} (h : net.Keyed P) (action : NetAction) : (net.step P action).Keyed P := by
  cases action with
  | encrypt p nonce plaintext =>
    unfold Net.step
    simp only
    split
    · rename_i header encrypted header' key hok hkey
      refine ⟨fun m hm => ?_, h.accepted⟩
      -- the key entered beside the call is the one the call took
      obtain ⟨key', hkey', hseal⟩ := (encrypt_ok P).1 hok
      obtain ⟨-, rfl⟩ := Prod.mk.inj (Outcome.ok.inj (hkey.symm.trans hkey'))
      rcases List.mem_cons.1 hm with rfl | hm
      · exact ⟨nonce, hseal⟩
      · exact h.sent m hm
    · exact ⟨h.sent, h.accepted⟩
  | decrypt p fresh header encrypted =>
    unfold Net.step
    simp only
    split
    · rename_i plaintext key hok hkey
      refine ⟨h.sent, fun a ha => ?_⟩
      obtain ⟨key', hkey', hopen⟩ := (decrypt_ok P).1 hok
      obtain rfl := Outcome.ok.inj (hkey.symm.trans hkey')
      rcases List.mem_cons.1 ha with rfl | ha
      · exact hopen
      · exact h.accepted a ha
    · exact ⟨h.sent, h.accepted⟩

/-- So the keys in the records of a run are those the AEAD was called with. -/
theorem Net.Keyed.exec {net : Net B} (hsent : net.sent = []) (haccepted : net.accepted = [])
    (actions : List NetAction) : (Run.exec (Net.step P) net actions).Keyed P := by
  refine Run.exec_invariant' (I := Net.Keyed P) (fun net action h => h.step P action) ⟨?_, ?_⟩
  · rw [hsent]
    exact fun _ => nofun
  · rw [haccepted]
    exact fun _ => nofun

/-- The accepted message is this one, from the other end. -/
structure SentMessage.Matches (m : SentMessage B) (a : Accepted B) : Prop where
  sender : m.sender = a.receiver.other
  plaintext : m.plaintext = a.plaintext
  header : m.header = a.header
  encrypted : m.encrypted = a.encrypted

/-- Each accepted message is a different sent one, from the other end. -/
def Net.Agrees (net : Net B) : Prop :=
  ∃ f : Fin net.accepted.length → Fin net.sent.length, Function.Injective f ∧
    ∀ i, (net.sent.get (f i)).Matches (net.accepted.get i)

/-- The two sessions of a conversation, before any message. -/
def Net.Start (sharedSecret : B) (net : Net B) : Prop :=
  (∃ fresh bobSpkPublic, initAlice P fresh sharedSecret bobSpkPublic = .ok (net.session .alice)) ∧
    (∃ ourSpk, net.session .bob = initBob sharedSecret ourSpk) ∧ net.sent = [] ∧ net.accepted = []

/-- The AEAD's promise: what opens under a key was sealed under it, with the same nonce and
associated data, by `encrypt`, or the adversary with the secrets `A` holds the key. -/
def AeadAuthentic (P : Primitives Key) (A : Set StaticSecret) (net : Net Key) : NetAction → Prop
  | .encrypt _ _ _ => True
  | .decrypt p fresh header encrypted => ∀ key plaintext,
    ((net.session p).takeMessageKey P fresh header).1 = .ok key →
    Aead.decrypt P key encrypted header.toBytes = .ok plaintext →
    (∃ m ∈ net.sent, m.key = key ∧ m.encrypted = encrypted ∧ m.header.toBytes = header.toBytes ∧
      m.plaintext = plaintext) ∨ Derivable P.publicKey (secretTerms A) key

/-! ## The invariant -/

/-- Both sessions are at their places, their sending chains differ in parity, and the sent and
accepted keys are at positions used and tried. -/
structure Net.At (sharedSecret : B) (g : Party → Places B) (net : Net B) : Prop where
  history : ∀ p, History P sharedSecret (g p) (net.session p)
  parity : ∀ p, (g p).path.length % 2 = p.parity
  sent : ∀ m ∈ net.sent, ∃ q ∈ (g m.sender).used, m.key = positionKey P sharedSecret q
  accepted : ∀ a ∈ net.accepted, ∃ q ∈ (g a.receiver).tried, a.key = positionKey P sharedSecret q
  matched : ∀ a ∈ net.accepted, ∃ m ∈ net.sent, m.key = a.key ∧ m.Matches a
  nodup : (net.accepted.map Accepted.key).Nodup

variable {P} {sharedSecret : B} {g : Party → Places B} {net : Net B}

/-- A party's session moves on. -/
theorem Net.At.update (h : net.At P sharedSecret g) (p : Party) {g' : Places B} {s' : Session B}
    (hs : History P sharedSecret g' s') (hpar : g'.path.length % 2 = (g p).path.length % 2)
    (hused : (g p).used ⊆ g'.used) (htried : (g p).tried ⊆ g'.tried) :
    Net.At P sharedSecret (Function.update g p g') { net with session := Function.update net.session p s' } where
  history q := by
    by_cases hq : q = p
    · subst hq
      simpa using hs
    · simpa [hq] using h.history q
  parity q := by
    by_cases hq : q = p
    · subst hq
      simpa [hpar] using h.parity q
    · simpa [hq] using h.parity q
  sent m hm := by
    obtain ⟨q, hq, hk⟩ := h.sent m hm
    by_cases hp : m.sender = p
    · subst hp
      exact ⟨q, by simpa using hused hq, hk⟩
    · exact ⟨q, by simpa [hp] using hq, hk⟩
  accepted a ha := by
    obtain ⟨q, hq, hk⟩ := h.accepted a ha
    by_cases hp : a.receiver = p
    · subst hp
      exact ⟨q, by simpa using htried hq, hk⟩
    · exact ⟨q, by simpa [hp] using hq, hk⟩
  matched := h.matched
  nodup := h.nodup

theorem Net.At.push_sent (h : net.At P sharedSecret g) (m : SentMessage B)
    (hm : ∃ q ∈ (g m.sender).used, m.key = positionKey P sharedSecret q) :
    Net.At P sharedSecret g { net with sent := m :: net.sent } := by
  refine { h with sent := ?_, matched := ?_ }
  · intro m' hm'
    rcases List.mem_cons.1 hm' with rfl | hm'
    · exact hm
    · exact h.sent m' hm'
  · intro a ha
    obtain ⟨m', hm', hmatch⟩ := h.matched a ha
    exact ⟨m', List.mem_cons_of_mem _ hm', hmatch⟩

theorem Net.At.push_accepted (h : net.At P sharedSecret g) (a : Accepted B)
    (ha : ∃ q ∈ (g a.receiver).tried, a.key = positionKey P sharedSecret q)
    (hm : ∃ m ∈ net.sent, m.key = a.key ∧ m.Matches a) (hnew : ∀ b ∈ net.accepted, b.key ≠ a.key) :
    Net.At P sharedSecret g { net with accepted := a :: net.accepted } := by
  refine { h with accepted := ?_, matched := ?_, nodup := ?_ }
  · intro b hb
    rcases List.mem_cons.1 hb with rfl | hb
    · exact ha
    · exact h.accepted b hb
  · intro b hb
    rcases List.mem_cons.1 hb with rfl | hb
    · exact hm
    · exact h.matched b hb
  · rw [List.map_cons, List.nodup_cons]
    refine ⟨fun hin => ?_, h.nodup⟩
    obtain ⟨b, hb, hkey⟩ := List.mem_map.1 hin
    exact hnew b hb hkey

theorem Net.At.encrypt (h : net.At P sharedSecret g) (p : Party) (nonce : Aead.Nonce) (plaintext : Bytes) :
    ∃ g', (net.step P (.encrypt p nonce plaintext)).At P sharedSecret g' := by
  simp only [Net.step, encrypt_snd]
  rcases nextMessageKey_cases P (net.session p) with ⟨-, hn⟩ | ⟨c, hc, hn⟩
  · rw [hn]
    refine ⟨g, ?_⟩
    have hsame : Function.update net.session p (net.session p) = net.session := Function.update_eq_self p net.session
    simp only [hsame]
    split
    · rename_i hkey
      cases hkey
    · exact h
  · have hs := (h.history p).send hc
    have hup := h.update p hs rfl (List.subset_cons_self _ _) (List.Subset.refl _)
    rw [hn]
    split
    · rename_i header encrypted _ key _ hkey
      simp only [Outcome.ok.injEq, Prod.mk.injEq] at hkey
      refine ⟨_, hup.push_sent ⟨p, plaintext, header, encrypted, key⟩ ⟨((g p).path, (g p).sent), ?_, ?_⟩⟩
      · simp [Places.send]
      · rw [← hkey.2]
        exact (h.history p).send_key hc
    · exact ⟨_, hup⟩

end

section

variable {pub : StaticSecret → PublicKey} {enc dec : Key → Bytes → Bytes → Bytes → Option Bytes} {n : Nat}

variable {g : Party → Places Key} {net : Net Key}

/-- The position behind a key that a session takes is one no session has taken before. -/
theorem Net.At.fresh (h : net.At (symbolic pub enc dec) (.shared n) g) {p : Party} {g' : Places Key}
    {s' : Session Key} (hs : History (symbolic pub enc dec) (.shared n) g' s')
    (hpar : g'.path.length % 2 = (g p).path.length % 2) {q : Position Key} (htried : g'.tried = q :: (g p).tried)
    (a : Accepted Key) (ha : a ∈ net.accepted) : a.key ≠ positionKey (symbolic pub enc dec) (.shared n) q := by
  intro heq
  have hq : g'.Received q := hs.tried q (htried ▸ List.mem_cons_self ..)
  obtain ⟨q', hq', hkey⟩ := h.accepted a ha
  have hr' := (h.history a.receiver).tried q' hq'
  have hsame : q' = q := positionKey_inj pub enc dec (.shared n) hr'.nonempty hq.nonempty (hkey ▸ heq)
  subst hsame
  by_cases hp : a.receiver = p
  · have hnodup := hs.triedNodup
    rw [htried, List.nodup_cons] at hnodup
    exact hnodup.1 (hp ▸ hq')
  · have h1 := hr'.parity
    have h2 := hq.parity
    rw [hpar] at h2
    rw [h.parity] at h1 h2
    have := mt Party.parity_inj hp
    have := Party.parity_lt_two a.receiver
    have := Party.parity_lt_two p
    omega

/-- A sent message under the key a session takes comes from the other end. -/
theorem Net.At.sender (h : net.At (symbolic pub enc dec) (.shared n) g) {p : Party} {g' : Places Key}
    {s' : Session Key} (hs : History (symbolic pub enc dec) (.shared n) g' s')
    (hpar : g'.path.length % 2 = (g p).path.length % 2) {q : Position Key} (hq : q ∈ g'.tried)
    {m : SentMessage Key} (hm : m ∈ net.sent) (hkey : m.key = positionKey (symbolic pub enc dec) (.shared n) q) :
    m.sender = p.other := by
  obtain ⟨q', hq', hkey'⟩ := h.sent m hm
  have hsent := (h.history m.sender).used q' hq'
  have hrec := hs.tried q hq
  have hsame : q' = q := positionKey_inj pub enc dec (.shared n) hsent.nonempty hrec.nonempty (hkey' ▸ hkey)
  subst hsame
  apply Party.eq_other_of_ne
  intro hp
  have h1 := hsent.parity
  have h2 := hrec.parity
  rw [hpar, h1, hp] at h2
  exact h2 rfl

theorem Net.At.decrypt (h : net.At (symbolic pub enc dec) (.shared n) g) (A : Set StaticSecret) (p : Party)
    (fresh : StaticSecret) (header : MessageHeader) (encrypted : Aead.Encrypted)
    (hauth : AeadAuthentic (symbolic pub enc dec) A net (.decrypt p fresh header encrypted)) :
    ∃ g', (net.step (symbolic pub enc dec) (.decrypt p fresh header encrypted)).At
      (symbolic pub enc dec) (.shared n) g' := by
  obtain ⟨g', hs, ht⟩ := (h.history p).takeMessageKey fresh header
  have hsub : (g p).tried ⊆ g'.tried := by
    rcases ht.tried with ⟨q, -, htried⟩ | ⟨-, htried⟩
    · rw [htried]
      exact List.subset_cons_self _ _
    · rw [htried]
      exact List.Subset.refl _
  have hup := h.update p hs ht.parity (ht.used ▸ List.Subset.refl _) hsub
  simp only [Net.step, decrypt_snd]
  split
  · rename_i plaintext key hopen hkey
    obtain ⟨key', hkey', hdec⟩ := Session.decrypt_ok (symbolic pub enc dec) |>.1 hopen
    obtain rfl : key = key' := Outcome.ok.inj (hkey.symm.trans hkey')
    rcases ht.tried with ⟨q, ho, htried⟩ | ⟨ho, -⟩
    · obtain rfl := Outcome.ok.inj (hkey.symm.trans ho)
      have hq : q ∈ g'.tried := htried ▸ List.mem_cons_self ..
      refine ⟨_, hup.push_accepted ⟨p, plaintext, header, encrypted, _⟩ ⟨q, by simpa using hq, rfl⟩ ?_
        (h.fresh hs ht.parity htried)⟩
      rcases hauth _ plaintext hkey hdec with ⟨m, hm, hmk, henc, had, hpt⟩ | hder
      · exact ⟨m, hm, hmk, h.sender hs ht.parity hq hm hmk, hpt, MessageHeader.toBytes_injective had, henc⟩
      · -- the adversary cannot hold a key the session has just taken
        refine absurd (hder.mono ?_) ((hs.sealed [] A).not_derivable (.spent q (.inr hq)))
        exact Set.subset_union_right
    · exact absurd hkey (ho key)
  · exact ⟨_, hup⟩

/-! ## Agreement -/

theorem Net.At.agrees (h : net.At (symbolic pub enc dec) (.shared n) g) : net.Agrees := by
  have hidx : ∀ i : Fin net.accepted.length, ∃ j : Fin net.sent.length,
      (net.sent.get j).key = (net.accepted.get i).key ∧ (net.sent.get j).Matches (net.accepted.get i) := by
    intro i
    obtain ⟨m, hm, hmatch⟩ := h.matched _ (List.get_mem net.accepted i)
    obtain ⟨j, rfl⟩ := List.get_of_mem hm
    exact ⟨j, hmatch⟩
  choose f hf using hidx
  refine ⟨f, fun i j hij => ?_, fun i => (hf i).2⟩
  have hkey : (net.accepted.get i).key = (net.accepted.get j).key := by rw [← (hf i).1, ← (hf j).1, hij]
  have hnodup := List.nodup_iff_injective_get.1 h.nodup
  have := @hnodup (i.cast (by simp)) (j.cast (by simp)) (by simpa using hkey)
  simpa [Fin.ext_iff] using this

/-- Where the two ends are before any message: Alice has done the DH step `d`. -/
def startPlaces (d : Key) : Party → Places Key
  | .alice => ⟨[d], 0, 0, [], [], fun _ => ([], 0)⟩
  | .bob => ⟨[], 0, 0, [], [], fun _ => ([], 0)⟩

variable (pub enc dec n)

theorem Net.Start.at (h : net.Start (symbolic pub enc dec) (.shared n)) :
    ∃ g, net.At (symbolic pub enc dec) (.shared n) g := by
  obtain ⟨⟨fresh, bobSpkPublic, ha⟩, ⟨ourSpk, hb⟩, hsent, hacc⟩ := h
  refine ⟨startPlaces (dh (symbolic pub enc dec) fresh bobSpkPublic), ?_, ?_, ?_, ?_, ?_, ?_⟩
  · rintro ⟨⟩
    · exact .alice fresh bobSpkPublic ha
    · rw [hb]
      exact .bob ourSpk
  · rintro ⟨⟩ <;> rfl
  · simp [hsent]
  · simp [hacc]
  · simp [hacc]
  · simp [hacc]

/-- In every run over an active network, the accepted messages are different messages that the
other end sent, with their plaintext, header and ciphertext. -/
theorem injective_agreement (hstart : net.Start (symbolic pub enc dec) (.shared n)) (A : Set StaticSecret)
    (actions : List NetAction)
    (hauth : Run.Along (Net.step (symbolic pub enc dec)) (AeadAuthentic (symbolic pub enc dec) A) net actions) :
    (Run.exec (Net.step (symbolic pub enc dec)) net actions).Agrees := by
  obtain ⟨g, hg⟩ := Run.exec_invariant (I := fun net : Net Key => ∃ g, net.At (symbolic pub enc dec) (.shared n) g)
    (fun net action ⟨g, hg⟩ ha => by
      cases action with
      | encrypt p nonce plaintext => exact hg.encrypt p nonce plaintext
      | decrypt p fresh header encrypted => exact hg.decrypt A p fresh header encrypted ha)
    (hstart.at pub enc dec n) hauth
  exact hg.agrees

end

/-- The sample conversation, before any message. -/
def sampleNet : Net Key := { session := fun | .alice => Sample.alice | .bob => Sample.bob, sent := [], accepted := [] }

/-- Alice's first message, delivered to Bob. -/
theorem injective_agreement_first :
    (Run.exec (Net.step Sample.aead) sampleNet [.encrypt .alice Sample.nonce [7],
      .decrypt .bob Sample.freshSecret (Sample.header 0) (Sample.sealed [7])]).Agrees := by
  have hstart : sampleNet.Start (symbolic Sample.pub Sample.sealMsg Sample.openMsg) (.shared 0) :=
    ⟨⟨_, _, Sample.alice_created⟩, ⟨Sample.spk, rfl⟩, rfl, rfl⟩
  refine injective_agreement Sample.pub Sample.sealMsg Sample.openMsg 0 hstart ∅ _ ⟨trivial, ?_, trivial⟩
  rintro key plaintext hk hd
  refine .inl ⟨_, List.mem_cons_self .., ?_, rfl, rfl, ?_⟩
  · cases hk
    have hdh : dh Sample.aead Sample.aliceSecret Sample.spk.x25519Public =
      dh Sample.aead ⟨Sample.spk.secretSeed⟩ (Sample.pub Sample.aliceSecret) := congrArg Term.dh Sym2.eq_swap
    exact congrArg (fun d => messageKeyAt Sample.aead (nextChain Sample.aead (.shared 0) d) 0) hdh
  · exact Outcome.ok.inj hd

end GhostCrypt.Ratchet
