/-
Where the keys of one session come from, under any calls at all: the position in the ladder of
each key it holds, has used or has tried. Positions are never taken twice, a stored key is one
that has not been tried, and sending and receiving use chains of different parity.
-/
import GhostCrypt.Ratchet.Ladder
import GhostCrypt.Ratchet.Stored

namespace GhostCrypt.Ratchet

variable {B : Type}

/-! ## Positions of a session -/

/-- The positions behind a session: the path of its root key, the numbers reached in its two
chains, the positions used by `encrypt` and tried by `decrypt`, and those of the stored keys. -/
structure Places (B : Type) where
  path : List B
  sent : Nat
  received : Nat
  used : List (Position B)
  tried : List (Position B)
  storedAt : Bytes × UInt32 → Position B

namespace Places

/-- A position in a sending chain, before the next one to use. -/
structure Sent (g : Places B) (p : Position B) : Prop where
  suffix : p.1 <:+ g.path
  nonempty : p.1 ≠ []
  parity : p.1.length % 2 = g.path.length % 2
  before : p.1 = g.path → p.2 < g.sent

/-- A position in a receiving chain, before the next one to try. -/
structure Received (g : Places B) (p : Position B) : Prop where
  suffix : p.1 <:+ g.path
  nonempty : p.1 ≠ []
  parity : p.1.length % 2 ≠ g.path.length % 2
  before : p.1 = g.path.tail → p.2 < g.received

/-- After the next `encrypt`. -/
def send (g : Places B) : Places B :=
  { g with sent := g.sent + 1, used := (g.path, g.sent) :: g.used }

/-- After a stored key is tried. -/
def tryStored (g : Places B) (x : Bytes × UInt32) : Places B := { g with tried := g.storedAt x :: g.tried }

/-- After the next `j` messages of the receiving chain, whose numbers start at `i`, are skipped. -/
def skip (g : Places B) (dhBytes : Bytes) (i : UInt32) (j : Nat) : Places B :=
  { g with
    received := g.received + j
    storedAt := fun x => if x ∈ passed dhBytes i j then (g.path.tail, g.received + (x.2 - i).toNat) else g.storedAt x }

/-- After the next message of the receiving chain is tried. -/
def tryNext (g : Places B) : Places B :=
  { g with received := g.received + 1, tried := (g.path.tail, g.received) :: g.tried }

/-- After a DH ratchet, with the outputs of its two steps. -/
def ratchet (g : Places B) (d e : B) : Places B := { g with path := e :: d :: g.path, sent := 0, received := 0 }

end Places

/-! ## Positions stay where they are -/

namespace Places

/-- A position behind those the two chains are at. -/
structure Reached (g : Places B) (p : Position B) : Prop where
  suffix : p.1 <:+ g.path
  nonempty : p.1 ≠ []
  sent : p.1 = g.path → p.2 < g.sent
  received : p.1 = g.path.tail → p.2 < g.received

variable {g : Places B} {p : Position B}

theorem Sent.reached (h : g.Sent p) : g.Reached p := by
  refine ⟨h.suffix, h.nonempty, h.before, fun htail => ?_⟩
  have hlen := congrArg List.length htail
  have hpos := List.length_pos_iff.2 h.nonempty
  have hpar := h.parity
  rw [List.length_tail] at hlen
  omega

theorem Received.reached (h : g.Received p) : g.Reached p :=
  ⟨h.suffix, h.nonempty, fun hp => absurd (congrArg (List.length · % 2) hp) h.parity, h.before⟩

theorem Received.mono {g' : Places B} (h : g.Received p) (hpath : g'.path = g.path)
    (hrec : g.received ≤ g'.received) : g'.Received p :=
  ⟨hpath ▸ h.suffix, h.nonempty, hpath ▸ h.parity, fun hp => (h.before (hpath ▸ hp)).trans_le hrec⟩

theorem Sent.mono {g' : Places B} (h : g.Sent p) (hpath : g'.path = g.path) (hsent : g.sent ≤ g'.sent) :
    g'.Sent p :=
  ⟨hpath ▸ h.suffix, h.nonempty, hpath ▸ h.parity, fun hp => (h.before (hpath ▸ hp)).trans_le hsent⟩

theorem Received.ratchet (h : g.Received p) (d e : B) : (g.ratchet d e).Received p where
  suffix := h.suffix.trans (List.suffix_append [e, d] g.path)
  nonempty := h.nonempty
  parity := by
    have := h.parity
    simp only [Places.ratchet, List.length_cons]
    omega
  before hp := by
    have := h.suffix.length_le
    rw [hp] at this
    simp [Places.ratchet] at this

theorem Sent.ratchet (h : g.Sent p) (d e : B) : (g.ratchet d e).Sent p where
  suffix := h.suffix.trans (List.suffix_append [e, d] g.path)
  nonempty := h.nonempty
  parity := by
    have := h.parity
    simp only [Places.ratchet, List.length_cons]
    omega
  before hp := by
    have := h.suffix.length_le
    rw [hp] at this
    simp [Places.ratchet] at this

/-- The next position of the receiving chain has not been reached. -/
theorem not_received_next (n : Nat) (hn : g.received ≤ n) : ¬ g.Received (g.path.tail, n) :=
  fun h => absurd (h.before rfl) (Nat.not_lt.2 hn)

theorem not_sent_next : ¬ g.Sent (g.path, g.sent) := fun h => absurd (h.before rfl) (Nat.lt_irrefl _)

theorem tail_ne_nil {path : List B} (h : 2 ≤ path.length) : path.tail ≠ [] := by
  intro hnil
  have := congrArg List.length hnil
  rw [List.length_tail, List.length_nil] at this
  omega

theorem received_tail (h : 2 ≤ g.path.length) {n : Nat} (hn : n < g.received) : g.Received (g.path.tail, n) where
  suffix := List.tail_suffix _
  nonempty := tail_ne_nil h
  parity := by
    rw [List.length_tail]
    omega
  before _ := hn

theorem storedAt_skip_of_mem {dhBytes : Bytes} {i : UInt32} {j n : Nat} (hn : n < j) (hj : j ≤ 2 ^ 32) :
    (g.skip dhBytes i j).storedAt (dhBytes, i + UInt32.ofNat n) = (g.path.tail, g.received + n) := by
  have hsub : i + UInt32.ofNat n - i = UInt32.ofNat n := by rw [UInt32.add_comm, UInt32.add_sub_cancel]
  simp only [skip, if_pos (mem_passed.2 ⟨n, hn, rfl⟩), hsub]
  rw [UInt32.toNat_ofNat_of_lt' (show n < 2 ^ 32 by omega)]

theorem storedAt_skip_of_notMem {dhBytes : Bytes} {i : UInt32} {j : Nat} {x : Bytes × UInt32}
    (hx : x ∉ passed dhBytes i j) : (g.skip dhBytes i j).storedAt x = g.storedAt x := if_neg hx

end Places

/-! ## Sessions at their places -/

variable [ByteString B] (P : Primitives B) (sharedSecret : B)

/-- The session `s` holds exactly the keys at the places `g`. -/
structure History (g : Places B) (s : Session B) : Prop where
  root : s.rootKey = ladderRoot P sharedSecret g.path
  sending : ∀ c, s.sendingChain = some c →
    g.path ≠ [] ∧ c = chainAt P (ladderChain P sharedSecret g.path) g.sent
  receiving : ∀ c, s.receivingChain = some c →
    2 ≤ g.path.length ∧ c = chainAt P (ladderChain P sharedSecret g.path.tail) g.received
  stored : ∀ x mk, s.skippedKeys.lookup x = some mk →
    mk = positionKey P sharedSecret (g.storedAt x) ∧ g.Received (g.storedAt x) ∧ g.storedAt x ∉ g.tried
  storedInj : ∀ x y, x ∈ s.skippedKeys → y ∈ s.skippedKeys → g.storedAt x = g.storedAt y → x = y
  used : ∀ p ∈ g.used, g.Sent p
  tried : ∀ p ∈ g.tried, g.Received p
  usedNodup : g.used.Nodup
  triedNodup : g.tried.Nodup

/-! ## The moves of a session -/

namespace History

open Session

variable {P sharedSecret} {g : Places B} {s : Session B}

theorem send (h : History P sharedSecret g s) {c : ChainKey B} (hc : s.sendingChain = some c) :
    History P sharedSecret g.send { s with sendingChain := some (c.advanced P 1) } := by
  obtain ⟨hne, rfl⟩ := h.sending c hc
  refine { h with sending := ?_, stored := ?_, used := ?_, tried := ?_, usedNodup := ?_ }
  · rintro _ ⟨⟩
    exact ⟨hne, advanced_chainAt P _ _ 1⟩
  · intro x mk hx
    obtain ⟨hk, hr, ht⟩ := h.stored x mk hx
    exact ⟨hk, hr.mono rfl le_rfl, ht⟩
  · intro p hp
    rcases List.mem_cons.1 hp with rfl | hp
    · exact ⟨List.suffix_refl _, hne, rfl, fun _ => Nat.lt_succ_self _⟩
    · exact (h.used p hp).mono rfl (Nat.le_succ _)
  · intro p hp
    exact (h.tried p hp).mono rfl le_rfl
  · exact List.nodup_cons.2 ⟨fun hp => Places.not_sent_next (h.used _ hp), h.usedNodup⟩

theorem tryStored (h : History P sharedSecret g s) {x : Bytes × UInt32} {mk : B}
    (hx : s.skippedKeys.lookup x = some mk) :
    History P sharedSecret (g.tryStored x) { s with skippedKeys := s.skippedKeys.erase x } := by
  obtain ⟨-, hrec, htried⟩ := h.stored x mk hx
  have hmem : x ∈ s.skippedKeys := Finmap.mem_of_lookup_eq_some hx
  refine { h with stored := ?_, storedInj := ?_, used := ?_, tried := ?_, triedNodup := ?_ }
  · intro y mk' hy
    have hne : y ≠ x := by
      rintro rfl
      rw [Finmap.lookup_erase] at hy
      cases hy
    rw [Finmap.lookup_erase_ne hne] at hy
    obtain ⟨hk, hr, ht⟩ := h.stored y mk' hy
    refine ⟨hk, hr.mono rfl le_rfl, fun hin => ?_⟩
    rcases List.mem_cons.1 hin with heq | hin
    · exact hne (h.storedInj y x (Finmap.mem_of_lookup_eq_some hy) hmem heq)
    · exact ht hin
  · intro y z hy hz heq
    exact h.storedInj y z (Finmap.mem_erase.1 hy).2 (Finmap.mem_erase.1 hz).2 heq
  · intro p hp
    exact (h.used p hp).mono rfl le_rfl
  · intro p hp
    rcases List.mem_cons.1 hp with rfl | hp
    · exact hrec.mono rfl le_rfl
    · exact (h.tried p hp).mono rfl le_rfl
  · exact List.nodup_cons.2 ⟨htried, h.triedNodup⟩

theorem skip (h : History P sharedSecret g s) {c : ChainKey B} (hc : s.receivingChain = some c)
    (dhBytes : Bytes) {j : Nat} (hj : j ≤ 2 ^ 32) :
    History P sharedSecret (g.skip dhBytes c.index j) (s.skipBy P dhBytes c j) := by
  obtain ⟨hlen, hck⟩ := h.receiving c hc
  have hmk : ∀ n, messageKeyAt P c.key n = positionKey P sharedSecret (g.path.tail, g.received + n) := by
    intro n
    rw [hck, positionKey, messageKeyAt, messageKeyAt, chainKeyAt_add]
    rfl
  -- a position already stored is one passed before
  have hold : ∀ y ∈ s.skippedKeys, ∀ n, g.storedAt y ≠ (g.path.tail, g.received + n) := by
    intro y hy n heq
    obtain ⟨mk, hmk⟩ := Finmap.mem_iff.1 hy
    have hr := (h.stored y mk hmk).2.1
    rw [heq] at hr
    exact Places.not_received_next _ (Nat.le_add_right _ _) hr
  have hmem : ∀ y, y ∈ (s.skipBy P dhBytes c j).skippedKeys → y ∉ passed dhBytes c.index j → y ∈ s.skippedKeys := by
    intro y hy hnot
    have hy' := Finmap.mem_keys.2 hy
    rw [skipBy, keys_storeSkipped, Finset.mem_union] at hy'
    exact Finmap.mem_keys.1 (hy'.resolve_right hnot)
  refine { h with receiving := ?_, stored := ?_, storedInj := ?_, used := ?_, tried := ?_ }
  · rintro _ ⟨⟩
    refine ⟨hlen, ?_⟩
    rw [hck, advanced_chainAt]
    rfl
  · intro x mk hx
    rcases lookup_storeSkipped_cases P dhBytes c s.skippedKeys hj hx with ⟨n, hn, rfl, rfl⟩ | ⟨hnot, hx⟩
    · rw [Places.storedAt_skip_of_mem hn hj, hmk]
      refine ⟨rfl, ?_, fun hin => ?_⟩
      · exact Places.received_tail (g := g.skip dhBytes c.index j) hlen (Nat.add_lt_add_left hn _)
      · exact Places.not_received_next _ (Nat.le_add_right _ _) (h.tried _ hin)
    · rw [Places.storedAt_skip_of_notMem hnot]
      obtain ⟨hk, hr, ht⟩ := h.stored x mk hx
      exact ⟨hk, hr.mono rfl (Nat.le_add_right _ _), ht⟩
  · intro x y hx hy heq
    by_cases hxp : x ∈ passed dhBytes c.index j <;> by_cases hyp : y ∈ passed dhBytes c.index j
    · obtain ⟨m, hm, rfl⟩ := mem_passed.1 hxp
      obtain ⟨n, hn, rfl⟩ := mem_passed.1 hyp
      rw [Places.storedAt_skip_of_mem hm hj, Places.storedAt_skip_of_mem hn hj] at heq
      rw [Nat.add_left_cancel (Prod.mk.inj heq).2]
    · obtain ⟨m, hm, rfl⟩ := mem_passed.1 hxp
      rw [Places.storedAt_skip_of_mem hm hj, Places.storedAt_skip_of_notMem hyp] at heq
      exact absurd heq.symm (hold y (hmem y hy hyp) m)
    · obtain ⟨n, hn, rfl⟩ := mem_passed.1 hyp
      rw [Places.storedAt_skip_of_notMem hxp, Places.storedAt_skip_of_mem hn hj] at heq
      exact absurd heq (hold x (hmem x hx hxp) n)
    · rw [Places.storedAt_skip_of_notMem hxp, Places.storedAt_skip_of_notMem hyp] at heq
      exact h.storedInj x y (hmem x hx hxp) (hmem y hy hyp) heq
  · intro p hp
    exact (h.used p hp).mono rfl le_rfl
  · intro p hp
    exact (h.tried p hp).mono rfl (Nat.le_add_right _ _)

theorem tryNext (h : History P sharedSecret g s) {c : ChainKey B} (hc : s.receivingChain = some c) :
    History P sharedSecret g.tryNext { s with receivingChain := some (c.advanced P 1) } := by
  obtain ⟨hlen, rfl⟩ := h.receiving c hc
  refine { h with receiving := ?_, stored := ?_, used := ?_, tried := ?_, triedNodup := ?_ }
  · rintro _ ⟨⟩
    exact ⟨hlen, advanced_chainAt P _ _ 1⟩
  · intro x mk hx
    obtain ⟨hk, hr, ht⟩ := h.stored x mk hx
    refine ⟨hk, hr.mono rfl (Nat.le_succ _), fun hin => ?_⟩
    rcases List.mem_cons.1 hin with heq | hin
    · rw [show g.tryNext.storedAt x = g.storedAt x from rfl] at heq
      rw [heq] at hr
      exact Places.not_received_next _ le_rfl hr
    · exact ht hin
  · intro p hp
    exact (h.used p hp).mono rfl le_rfl
  · intro p hp
    rcases List.mem_cons.1 hp with rfl | hp
    · exact Places.received_tail (g := g.tryNext) hlen (Nat.lt_succ_self _)
    · exact (h.tried p hp).mono rfl (Nat.le_succ _)
  · exact List.nodup_cons.2 ⟨fun hp => Places.not_received_next _ le_rfl (h.tried _ hp), h.triedNodup⟩

theorem ratchet (h : History P sharedSecret g s) (fresh : StaticSecret) (k : PublicKey) :
    History P sharedSecret (g.ratchet (dh P s.dhSecret k) (dh P fresh k)) (s.ratcheted P fresh k) where
  root := by rw [ratcheted, h.root]; rfl
  sending := by
    rintro _ ⟨⟩
    refine ⟨List.cons_ne_nil _ _, ?_⟩
    rw [h.root]
    rfl
  receiving := by
    rintro _ ⟨⟩
    refine ⟨by simp [Places.ratchet], ?_⟩
    rw [h.root]
    rfl
  stored x mk hx := by
    obtain ⟨hk, hr, ht⟩ := h.stored x mk hx
    exact ⟨hk, hr.ratchet _ _, ht⟩
  storedInj := h.storedInj
  used p hp := (h.used p hp).ratchet _ _
  tried p hp := (h.tried p hp).ratchet _ _
  usedNodup := h.usedNodup
  triedNodup := h.triedNodup

/-! ## Calls -/

/-- The key `encrypt` uses is at the next position of the sending chain. -/
theorem send_key (h : History P sharedSecret g s) {c : ChainKey B} (hc : s.sendingChain = some c) :
    messageKeyAt P c.key 0 = positionKey P sharedSecret (g.path, g.sent) := by
  obtain ⟨-, rfl⟩ := h.sending c hc
  rfl

/-- The key `decrypt` tries is at the next position of the receiving chain. -/
theorem tryNext_key (h : History P sharedSecret g s) {c : ChainKey B} (hc : s.receivingChain = some c) :
    messageKeyAt P c.key 0 = positionKey P sharedSecret (g.path.tail, g.received) := by
  obtain ⟨-, rfl⟩ := h.receiving c hc
  rfl

end History

/-- The places after `decrypt` looked for a key: perhaps a DH ratchet further, and the position of
the key it found, if it found one, is tried. -/
structure Tried (o : Outcome CryptoError B) (g g' : Places B) : Prop where
  path : g.path <:+ g'.path
  parity : g'.path.length % 2 = g.path.length % 2
  used : g'.used = g.used
  tried : (∃ p, o = .ok (positionKey P sharedSecret p) ∧ g'.tried = p :: g.tried) ∨
    ((∀ k, o ≠ .ok k) ∧ g'.tried = g.tried)

theorem Tried.ratchet {o : Outcome CryptoError B} {g g' : Places B} {d e : B}
    (h : Tried P sharedSecret o (g.ratchet d e) g') : Tried P sharedSecret o g g' := by
  refine ⟨(List.suffix_append [e, d] g.path).trans h.path, ?_, h.used, h.tried⟩
  rw [h.parity, Places.ratchet, List.length_cons, List.length_cons]
  omega

/-- Skipping tries nothing. -/
theorem Tried.skip {o : Outcome CryptoError B} {g g' : Places B} (dhBytes : Bytes) (i : UInt32) (j : Nat)
    (h : Tried P sharedSecret o (g.skip dhBytes i j) g') : Tried P sharedSecret o g g' :=
  ⟨h.path, h.parity, h.used, h.tried⟩

theorem Tried.nothing {o : Outcome CryptoError B} (g : Places B) (ho : ∀ k, o ≠ .ok k) :
    Tried P sharedSecret o g g := ⟨List.suffix_refl _, rfl, rfl, .inr ⟨ho, rfl⟩⟩

namespace History

open Session

variable {P sharedSecret} {g : Places B} {s : Session B}

theorem receive {header : MessageHeader} {r : Outcome CryptoError B × Session B}
    (hr : ReceiveResult P header s r) (h : History P sharedSecret g s) :
    ∃ g', History P sharedSecret g' r.2 ∧ Tried P sharedSecret r.1 g g' := by
  cases hr with
  | noChain hc => exact ⟨g, h, .nothing P sharedSecret g fun _ h => nomatch h⟩
  | tooMany c j hc _ hj _ =>
    have hlt := toNat_sub_lt header.messageNumber c.index
    exact ⟨_, h.skip hc header.dhPublicKey (by omega),
      .skip P sharedSecret _ _ _ (.nothing P sharedSecret _ fun _ h => nomatch h)⟩
  | key c n hc hn _ =>
    have hlt := toNat_sub_lt header.messageNumber c.index
    have hskip := h.skip hc header.dhPublicKey (j := n) (by omega)
    have hnext := hskip.tryNext (c := c.advanced P n) rfl
    have hkey := hskip.tryNext_key (c := c.advanced P n) rfl
    rw [show (c.advanced P n).advanced P 1 = c.advanced P (n + 1) from (advanced_add_one P c n)] at hnext
    refine ⟨_, hnext, .skip P sharedSecret header.dhPublicKey c.index n ?_⟩
    exact ⟨List.suffix_refl _, rfl, rfl, .inl ⟨_, congrArg Outcome.ok hkey, rfl⟩⟩

/-- Every `decrypt` keeps the session at its places, whatever its header. -/
theorem takeMessageKey (fresh : StaticSecret) (header : MessageHeader) (h : History P sharedSecret g s) :
    ∃ g', History P sharedSecret g' (s.takeMessageKey P fresh header).2 ∧
      Tried P sharedSecret (s.takeMessageKey P fresh header).1 g g' := by
  have htake := takeMessageKey_cases P fresh header s
  generalize s.takeMessageKey P fresh header = r at htake
  cases htake with
  | stored mk hl =>
    have hk := (h.stored _ mk hl).1
    refine ⟨_, h.tryStored hl, List.suffix_refl _, rfl, rfl, .inl ⟨_, ?_, rfl⟩⟩
    rw [hk]
    exact tryInto32_messageKey P _ _ _
  | badHeader _ _ => exact ⟨g, h, .nothing P sharedSecret g fun _ h => nomatch h⟩
  | current k r _ _ _ hr => exact receive hr h
  | oldTooMany k old c j _ _ _ _ hc _ hj _ =>
    have hlt := toNat_sub_lt header.previousChainLength c.index
    exact ⟨_, h.skip hc old.toVec (by omega),
      .skip P sharedSecret _ _ _ (.nothing P sharedSecret _ fun _ h => nomatch h)⟩
  | ratchet k s₁ r _ _ _ hold hr =>
    cases hold with
    | noChain _ =>
      obtain ⟨g', hg', ht⟩ := receive hr (h.ratchet fresh k)
      exact ⟨g', hg', ht.ratchet⟩
    | skipped c old n hc _ hn _ =>
      have hlt := toNat_sub_lt header.previousChainLength c.index
      obtain ⟨g', hg', ht⟩ := receive hr ((h.skip hc old.toVec (j := n) (by omega)).ratchet fresh k)
      exact ⟨g', hg', .skip P sharedSecret _ _ _ ht.ratchet⟩

/-! ## Created sessions -/

/-- Alice starts one step up the ladder, with a sending chain. -/
theorem alice (fresh : StaticSecret) (bobSpkPublic : PublicKey) {s : Session B}
    (hs : initAlice P fresh sharedSecret bobSpkPublic = .ok s) :
    History P sharedSecret ⟨[dh P fresh bobSpkPublic], 0, 0, [], [], fun _ => ([], 0)⟩ s := by
  rw [initAlice_eq] at hs
  cases hs
  refine ⟨rfl, ?_, ?_, ?_, ?_, by simp, by simp, List.nodup_nil, List.nodup_nil⟩
  · rintro _ ⟨⟩
    exact ⟨List.cons_ne_nil _ _, rfl⟩
  · rintro _ ⟨⟩
  · rintro x mk ⟨⟩
  · intro x y hx
    exact absurd hx Finmap.notMem_empty

/-- Bob starts at the foot of the ladder, without chains. -/
theorem bob (ourSpk : Identity.SignedPreKey) :
    History P sharedSecret ⟨[], 0, 0, [], [], fun _ => ([], 0)⟩ (initBob sharedSecret ourSpk) := by
  refine ⟨rfl, ?_, ?_, ?_, ?_, by simp, by simp, List.nodup_nil, List.nodup_nil⟩
  · rintro _ ⟨⟩
  · rintro _ ⟨⟩
  · rintro x mk ⟨⟩
  · intro x y hx
    exact absurd hx Finmap.notMem_empty

theorem created (h : Created P sharedSecret s) :
    ∃ g, History P sharedSecret g s ∧ g.used = [] ∧ g.tried = [] := by
  cases h with
  | alice fresh pk s hs => exact ⟨_, History.alice fresh pk hs, rfl, rfl⟩
  | bob ourSpk => exact ⟨_, History.bob ourSpk, rfl, rfl⟩

end History

end GhostCrypt.Ratchet
