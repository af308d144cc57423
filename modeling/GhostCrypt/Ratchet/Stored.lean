/-
The stored keys after a skip loop, and sequences of calls on one session.
-/
import GhostCrypt.Core.Symbolic
import GhostCrypt.Lib.Run
import GhostCrypt.Ratchet.Skip

namespace GhostCrypt.Ratchet

variable {B : Type} [ByteString B] (P : Primitives B)

/-! ## The entries a loop writes -/

/-- The map keys of `j` messages numbered from `i`. -/
def passed (dhBytes : Bytes) (i : UInt32) (j : Nat) : Finset (Bytes × UInt32) :=
  (Finset.range j).image fun n => (dhBytes, i + UInt32.ofNat n)

theorem mem_passed {dhBytes : Bytes} {i : UInt32} {j : Nat} {x : Bytes × UInt32} :
    x ∈ passed dhBytes i j ↔ ∃ n < j, x = (dhBytes, i + UInt32.ofNat n) := by
  simp [passed, eq_comm]

theorem passed_succ (dhBytes : Bytes) (i : UInt32) (j : Nat) :
    passed dhBytes i (j + 1) = insert (dhBytes, i + UInt32.ofNat j) (passed dhBytes i j) := by
  rw [passed, Finset.range_add_one, Finset.image_insert, passed]

/-- Fewer than `2^32` steps do not lead back to a number already passed. -/
theorem add_ofNat_inj {i : UInt32} {m n : Nat} (hm : m < 2 ^ 32) (hn : n < 2 ^ 32)
    (h : i + UInt32.ofNat m = i + UInt32.ofNat n) : m = n := by
  have h' := congrArg UInt32.toNat ((UInt32.add_right_inj i).1 h)
  rwa [UInt32.toNat_ofNat_of_lt' hm, UInt32.toNat_ofNat_of_lt' hn] at h'

theorem add_ofNat_ne {i : UInt32} {n : Nat} (h0 : 0 < n) (hn : n < 2 ^ 32) : i + UInt32.ofNat n ≠ i := by
  intro h
  have := add_ofNat_inj (i := i) hn (by norm_num : 0 < 2 ^ 32) (by simpa using h)
  omega

theorem card_passed (dhBytes : Bytes) (i : UInt32) {j : Nat} (hj : j ≤ 2 ^ 32) :
    (passed dhBytes i j).card = j := by
  rw [passed, Finset.card_image_of_injOn, Finset.card_range]
  intro m hm n hn h
  rw [Finset.coe_range, Set.mem_Iio] at hm hn
  exact add_ofNat_inj (by omega) (by omega) (Prod.mk.inj h).2

theorem toNat_sub_lt (a b : UInt32) : a.toNat - b.toNat < 2 ^ 32 := by
  have := a.toNat_lt; omega

omit [ByteString B] in
@[simp] theorem keys_insert (m : SkippedKeys B) (x : Bytes × UInt32) (k : B) :
    (m.insert x k).keys = insert x m.keys := by
  ext y
  rw [Finmap.mem_keys, Finmap.mem_insert, Finset.mem_insert, Finmap.mem_keys]

theorem keys_storeSkipped (dhBytes : Bytes) (c : ChainKey B) (m : SkippedKeys B) : ∀ j,
    (storeSkipped P dhBytes c m j).keys = m.keys ∪ passed dhBytes c.index j
  | 0 => by simp [storeSkipped, passed]
  | j + 1 => by rw [storeSkipped, keys_insert, keys_storeSkipped dhBytes c m j, passed_succ, Finset.union_insert]

theorem card_storeSkipped_mono (dhBytes : Bytes) (c : ChainKey B) (m : SkippedKeys B) {j k : Nat} (h : j ≤ k) :
    (storeSkipped P dhBytes c m j).keys.card ≤ (storeSkipped P dhBytes c m k).keys.card := by
  apply Finset.card_le_card
  rw [keys_storeSkipped, keys_storeSkipped]
  exact Finset.union_subset_union_right (Finset.image_subset_image (Finset.range_subset_range.2 h))

theorem le_card_storeSkipped (dhBytes : Bytes) (c : ChainKey B) (m : SkippedKeys B) {j : Nat} (hj : j ≤ 2 ^ 32) :
    j ≤ (storeSkipped P dhBytes c m j).keys.card := by
  rw [keys_storeSkipped]
  have hsub : passed dhBytes c.index j ⊆ m.keys ∪ passed dhBytes c.index j := Finset.subset_union_right
  have hle := Finset.card_le_card hsub
  rwa [card_passed dhBytes c.index hj] at hle

theorem lookup_storeSkipped_of_notMem (dhBytes : Bytes) (c : ChainKey B) (m : SkippedKeys B)
    {x : Bytes × UInt32} : ∀ {j}, x ∉ passed dhBytes c.index j →
      (storeSkipped P dhBytes c m j).lookup x = m.lookup x
  | 0, _ => rfl
  | j + 1, h => by
    rw [passed_succ, Finset.mem_insert, not_or] at h
    rw [storeSkipped, Finmap.lookup_insert_of_ne _ h.1]
    exact lookup_storeSkipped_of_notMem dhBytes c m h.2

theorem lookup_storeSkipped (dhBytes : Bytes) (c : ChainKey B) (m : SkippedKeys B) {n : Nat} :
    ∀ {j}, n < j → j ≤ 2 ^ 32 →
      (storeSkipped P dhBytes c m j).lookup (dhBytes, c.index + UInt32.ofNat n) = some (messageKeyAt P c.key n)
  | j + 1, h, hj => by
    rw [storeSkipped]
    rcases Nat.lt_succ_iff_lt_or_eq.1 h with hlt | rfl
    · rw [Finmap.lookup_insert_of_ne]
      · exact lookup_storeSkipped dhBytes c m hlt (by omega)
      · intro heq
        have := add_ofNat_inj (by omega) (by omega) (Prod.mk.inj heq).2
        omega
    · exact Finmap.lookup_insert _

/-- An entry after the loop is one it wrote or one that was there. -/
theorem lookup_storeSkipped_cases (dhBytes : Bytes) (c : ChainKey B) (m : SkippedKeys B) {j : Nat}
    (hj : j ≤ 2 ^ 32) {x : Bytes × UInt32} {k : B} (h : (storeSkipped P dhBytes c m j).lookup x = some k) :
    (∃ n < j, x = (dhBytes, c.index + UInt32.ofNat n) ∧ k = messageKeyAt P c.key n) ∨
    (x ∉ passed dhBytes c.index j ∧ m.lookup x = some k) := by
  by_cases hx : x ∈ passed dhBytes c.index j
  · obtain ⟨n, hn, rfl⟩ := mem_passed.1 hx
    rw [lookup_storeSkipped P dhBytes c m hn hj] at h
    exact .inl ⟨n, hn, rfl, (Option.some.inj h).symm⟩
  · rw [lookup_storeSkipped_of_notMem P dhBytes c m hx] at h
    exact .inr ⟨hx, h⟩

/-! ## Calls -/

/-- The two ends of a conversation: who called `init_alice`, who called `init_bob`. -/
inductive Party
  | alice
  | bob
  deriving DecidableEq

/-- The other end. -/
def Party.other : Party → Party
  | .alice => .bob
  | .bob => .alice

theorem Party.eq_other_of_ne : ∀ {p q : Party}, p ≠ q → p = q.other
  | .alice, .alice, h | .bob, .bob, h => absurd rfl h
  | .alice, .bob, _ | .bob, .alice, _ => rfl

theorem Party.other_ne : ∀ p : Party, p.other ≠ p
  | .alice | .bob => Party.noConfusion

@[simp] theorem Party.other_other : ∀ p : Party, p.other.other = p
  | .alice | .bob => rfl

/-- The parity of the number of root-key steps before each of a party's sending chains. -/
def Party.parity : Party → Nat
  | .alice => 1
  | .bob => 0

theorem Party.parity_lt_two (p : Party) : p.parity < 2 := by cases p <;> decide

theorem Party.parity_inj : ∀ {p q : Party}, p.parity = q.parity → p = q
  | .alice, .alice, _ | .bob, .bob, _ => rfl

/-- A call on a session, with the randomness it draws. -/
inductive Call
  | encrypt (nonce : Aead.Nonce) (plaintext : Bytes)
  | decrypt (fresh : StaticSecret) (header : MessageHeader) (encrypted : Aead.Encrypted)

namespace Session

/-- The session a call leaves, whichever way the call ends. -/
def call (s : Session B) : Call → Session B
  | .encrypt nonce plaintext => (s.encrypt P nonce plaintext).2
  | .decrypt fresh header encrypted => (s.decrypt P fresh header encrypted).2

/-- A message leaves `encrypt` under the key of its header. -/
theorem encrypt_ok {nonce : Aead.Nonce} {s : Session B} {plaintext : Bytes} {header : MessageHeader}
    {encrypted : Aead.Encrypted} :
    (s.encrypt P nonce plaintext).1 = .ok (header, encrypted) ↔
      ∃ key, (s.nextMessageKey P).1 = .ok (header, key) ∧
        Aead.encrypt P nonce key plaintext header.toBytes = .ok encrypted := by
  unfold encrypt Outcome.andThen
  rcases s.nextMessageKey P with ⟨⟨header', key⟩ | _ | _, s'⟩
  · simp only
    cases h : Aead.encrypt P nonce key plaintext header'.toBytes with
    | ok e =>
      simp only [Outcome.ok.injEq, Prod.mk.injEq]
      constructor
      · rintro ⟨rfl, rfl⟩
        exact ⟨key, ⟨rfl, rfl⟩, h⟩
      · rintro ⟨_, ⟨rfl, rfl⟩, he⟩
        rw [h] at he
        exact ⟨rfl, Outcome.ok.inj he⟩
    | err e =>
      simp only [reduceCtorEq, false_iff]
      rintro ⟨_, hk, he⟩
      cases hk
      rw [h] at he
      cases he
    | panic =>
      simp only [reduceCtorEq, false_iff]
      rintro ⟨_, hk, he⟩
      cases hk
      rw [h] at he
      cases he
  · simp
  · simp

/-- A message opens in `decrypt` under the key taken for its header. -/
theorem decrypt_ok {fresh : StaticSecret} {s : Session B} {header : MessageHeader}
    {encrypted : Aead.Encrypted} {plaintext : Bytes} :
    (s.decrypt P fresh header encrypted).1 = .ok plaintext ↔
      ∃ key, (s.takeMessageKey P fresh header).1 = .ok key ∧
        Aead.decrypt P key encrypted header.toBytes = .ok plaintext := by
  unfold decrypt Outcome.andThen
  rcases s.takeMessageKey P fresh header with ⟨_ | _ | _, s'⟩ <;> simp

/-- The skip limit is met before the AEAD is called. -/
theorem decrypt_tooMany {fresh : StaticSecret} {s : Session B} {header : MessageHeader} {encrypted : Aead.Encrypted} :
    (s.decrypt P fresh header encrypted).1 = .err tooMany ↔ (s.takeMessageKey P fresh header).1 = .err tooMany := by
  unfold decrypt Outcome.andThen
  rcases s.takeMessageKey P fresh header with ⟨key | _ | _, s'⟩
  · simp only [reduceCtorEq, iff_false]
    unfold Aead.decrypt
    split
    · split
      · simp
      · simp [tooMany]
    · simp
  · simp
  · simp

/-- The sessions the two constructors make from a shared secret. -/
inductive Created (sharedSecret : B) : Session B → Prop
  | alice (fresh : StaticSecret) (bobSpkPublic : PublicKey) (s : Session B) :
      initAlice P fresh sharedSecret bobSpkPublic = .ok s → Created sharedSecret s
  | bob (ourSpk : Identity.SignedPreKey) : Created sharedSecret (initBob sharedSecret ourSpk)

/-- A session after any calls, from a created one. -/
def Reachable (s : Session B) : Prop :=
  ∃ sharedSecret s₀ calls, Created P sharedSecret s₀ ∧ s = Run.exec (call P) s₀ calls

theorem Created.reachable {sharedSecret : B} {s : Session B} (h : Created P sharedSecret s) : Reachable P s :=
  ⟨sharedSecret, s, [], h, rfl⟩

theorem Created.skippedKeys {sharedSecret : B} {s : Session B} (h : Created P sharedSecret s) :
    s.skippedKeys = ∅ := by
  cases h with
  | alice fresh pk s h => rw [initAlice_eq] at h; cases h; rfl
  | bob => rfl

/-- The AEAD call changes no field. -/
theorem encrypt_snd (nonce : Aead.Nonce) (s : Session B) (plaintext : Bytes) :
    (s.encrypt P nonce plaintext).2 = (s.nextMessageKey P).2 := by
  unfold encrypt Outcome.andThen
  rcases s.nextMessageKey P with ⟨⟨header, key⟩ | _ | _, s'⟩
  · simp only
    split <;> rfl
  · rfl
  · rfl

theorem decrypt_snd (fresh : StaticSecret) (s : Session B) (header : MessageHeader) (encrypted : Aead.Encrypted) :
    (s.decrypt P fresh header encrypted).2 = (s.takeMessageKey P fresh header).2 := by
  unfold decrypt Outcome.andThen
  rcases s.takeMessageKey P fresh header with ⟨_ | _ | _, s'⟩ <;> rfl

end Session

end GhostCrypt.Ratchet

/-! ## Sample sessions -/

namespace GhostCrypt.Sample

open Ratchet

/-- Bob's signed pre-key. -/
def spk : Identity.SignedPreKey :=
  { secretSeed := bytes32 1, x25519Secret := ⟨bytes32 1⟩, x25519Public := pub ⟨bytes32 1⟩,
    signature := List.replicate 64 0 }

/-- Bob's session, as created. -/
def bob : Session Key := Session.initBob (.shared 0) spk

/-- The secret Alice's session draws. -/
def aliceSecret : StaticSecret := ⟨bytes32 2⟩

/-- Alice's session, as created. -/
def alice : Session Key :=
  { rootKey := nextRoot aead (.shared 0) (dh aead aliceSecret spk.x25519Public), dhSecret := aliceSecret,
    dhPublic := pub aliceSecret, remoteDhPublic := some spk.x25519Public,
    sendingChain := some { key := nextChain aead (.shared 0) (dh aead aliceSecret spk.x25519Public), index := 0 },
    receivingChain := none, previousSendingChainLength := 0, skippedKeys := ∅ }

theorem alice_created : Session.initAlice aead aliceSecret (.shared 0) spk.x25519Public = .ok alice :=
  Session.initAlice_eq aead aliceSecret (.shared 0) spk.x25519Public

/-- The secret a session draws when it ratchets. -/
def freshSecret : StaticSecret := ⟨bytes32 3⟩

/-- The header of Alice's message number `n`, in her first chain. -/
def header (n : UInt32) : MessageHeader := MessageHeader.new (pub aliceSecret) n 0

theorem bob_created : Session.Created aead (.shared 0) bob := .bob _

/-- A nonce. -/
def nonce : Aead.Nonce := ⟨List.replicate 12 0, rfl⟩

/-- What the sample AEAD makes of a message. -/
def sealed (msg : Bytes) : Aead.Encrypted := ⟨nonce.1, msg ++ List.replicate 16 0⟩

/-- What no key opens: shorter than a tag. -/
def garbage : Aead.Encrypted := ⟨List.replicate 12 0, []⟩

end GhostCrypt.Sample
