/-
One end of an honest conversation. Epochs count the DH key pairs of both ends together: `key 0` is
the responder's signed pre-key, `key 1` the initiator's first key, and each further one is drawn
when an end receives the one before. Epoch `e` has one chain, in which the holder of `key e` sends.
A `Seat` says what a session in epoch `own` holds; its moves are those of `encrypt` and `decrypt`.
-/
import GhostCrypt.Ratchet.Ladder
import GhostCrypt.Ratchet.Stored
import Mathlib.Data.Prod.Lex

namespace GhostCrypt.Ratchet

open Session

variable {B : Type} [ByteString B] (P : Primitives B) (sharedSecret : B)

/-! ## Epochs -/

/-- The path of epoch `e`: the outputs of each key with the public key before it. -/
def pathAt (key : Nat → StaticSecret) : Nat → List B
  | 0 => []
  | e + 1 => dh P (key (e + 1)) (P.publicKey (key e)) :: pathAt key e

/-- The root key of an epoch. -/
def rootAt (key : Nat → StaticSecret) (e : Nat) : B := ladderRoot P sharedSecret (pathAt P key e)

/-- The first chain key of an epoch. -/
def chainStart (key : Nat → StaticSecret) (e : Nat) : B := ladderChain P sharedSecret (pathAt P key e)

/-- The message key of message `n` of an epoch. -/
def epochKey (key : Nat → StaticSecret) (e n : Nat) : B := messageKeyAt P (chainStart P sharedSecret key e) n

/-- The map key under which the message key of message `n` of an epoch is stored. -/
def epochName (key : Nat → StaticSecret) (e n : Nat) : Bytes × UInt32 :=
  ((P.publicKey (key e)).toVec, UInt32.ofNat n)

/-- The header of message `n` of an epoch. -/
def epochHeader (key : Nat → StaticSecret) (count : Nat → Nat) (e n : Nat) : MessageHeader :=
  MessageHeader.new (P.publicKey (key e)) (UInt32.ofNat n) (UInt32.ofNat (count (e - 2)))

/-- The epochs up to `top` have different public keys. -/
def Distinct (key : Nat → StaticSecret) (top : Nat) : Prop :=
  ∀ i ≤ top, ∀ j ≤ top, P.publicKey (key i) = P.publicKey (key j) → i = j

/-- Message `n` of epoch `e` is behind a session in epoch `own` that has reached number `received`
in its receiving chain. -/
def Passed (own received e n : Nat) : Prop := e + 1 < own ∨ (e + 1 = own ∧ n < received)

/-- How far a session has come: its epoch, and the number reached in its receiving chain. -/
def place (own received : Nat) : Nat ×ₗ Nat := toLex (own, received)

/-- A session has passed a message when it has come to the place behind it. -/
theorem passed_iff {own received e n : Nat} : Passed own received e n ↔ place (e + 1) (n + 1) ≤ place own received := by
  rw [place, place, Prod.Lex.toLex_le_toLex]
  exact Iff.rfl

theorem pathAt_congr {key key' : Nat → StaticSecret} : ∀ {e : Nat}, (∀ i ≤ e, key' i = key i) →
    pathAt P key' e = pathAt P key e
  | 0, _ => rfl
  | e + 1, h => by
    rw [pathAt, pathAt, h (e + 1) le_rfl, h e (Nat.le_succ e), pathAt_congr fun i hi => h i (Nat.le_succ_of_le hi)]

@[simp] theorem length_pathAt (key : Nat → StaticSecret) : ∀ e, (pathAt P key e).length = e
  | 0 => rfl
  | e + 1 => by rw [pathAt, List.length_cons, length_pathAt key e]

theorem Distinct.mono {key : Nat → StaticSecret} {top top' : Nat} (h : Distinct P key top') (hle : top ≤ top') :
    Distinct P key top := fun i hi j hj => h i (hi.trans hle) j (hj.trans hle)

/-- Within the epochs so far, a map key determines its epoch and number. -/
theorem epochName_inj {key : Nat → StaticSecret} {top e e' n n' : Nat} (hd : Distinct P key top) (he : e ≤ top)
    (he' : e' ≤ top) (hn : n < 2 ^ 32) (hn' : n' < 2 ^ 32) (h : epochName P key e n = epochName P key e' n') :
    e = e' ∧ n = n' := by
  obtain ⟨hk, hnum⟩ := Prod.mk.inj h
  have hnat := congrArg UInt32.toNat hnum
  rw [UInt32.toNat_ofNat_of_lt' hn, UInt32.toNat_ofNat_of_lt' hn'] at hnat
  exact ⟨hd e he e' he' (PublicKey.toVec_inj.1 hk), hnat⟩

theorem mem_passed_epochName {key : Nat → StaticSecret} {top e e' n r j : Nat} (hd : Distinct P key top)
    (he : e ≤ top) (he' : e' ≤ top) (hn : n < 2 ^ 32) (hr : r + j ≤ 2 ^ 32) :
    epochName P key e n ∈ passed (P.publicKey (key e')).toVec (UInt32.ofNat r) j ↔ e = e' ∧ r ≤ n ∧ n < r + j := by
  rw [mem_passed]
  constructor
  · rintro ⟨i, hi, h⟩
    rw [← UInt32.ofNat_add] at h
    obtain ⟨heq, rfl⟩ := epochName_inj P hd he he' hn (by omega) h
    exact ⟨heq, by omega, by omega⟩
  · rintro ⟨rfl, hle, hlt⟩
    refine ⟨n - r, by omega, ?_⟩
    rw [← UInt32.ofNat_add, Nat.add_sub_cancel' hle]
    rfl

/-! ## Seats -/

/-- A session in epoch `own` of a conversation in which `count e` numbers of epoch `e` have been
used. `due` are the messages still to come, `done` those whose keys are spent. -/
structure Seat (key : Nat → StaticSecret) (count : Nat → Nat) (due done : Nat → Nat → Prop)
    (own received : Nat) (s : Session B) : Prop where
  root : s.rootKey = rootAt P sharedSecret key own
  dhSecret : s.dhSecret = key own
  dhPublic : s.dhPublic = P.publicKey (key own)
  remote : s.remoteDhPublic = if own = 0 then none else some (P.publicKey (key (own - 1)))
  sending : s.sendingChain = if own = 0 then none else some (chainAt P (chainStart P sharedSecret key own) (count own))
  receiving : s.receivingChain =
    if own < 2 then none else some (chainAt P (chainStart P sharedSecret key (own - 1)) received)
  receivedLe : received ≤ count (own - 1)
  prevLen : s.previousSendingChainLength = UInt32.ofNat (count (own - 2))
  stored : ∀ y mk, s.skippedKeys.lookup y = some mk → ∃ e n, e % 2 ≠ own % 2 ∧ Passed own received e n ∧
    n < count e ∧ y = epochName P key e n ∧ mk = epochKey P sharedSecret key e n
  complete : ∀ e n, e % 2 ≠ own % 2 → due e n → Passed own received e n →
    s.skippedKeys.lookup (epochName P key e n) = some (epochKey P sharedSecret key e n)
  spent : ∀ e n, e % 2 ≠ own % 2 → done e n → Passed own received e n ∧
    s.skippedKeys.lookup (epochName P key e n) = none

/-- Numbers stay below `2^32`, and only numbers used are due or done. -/
structure Numbered (count : Nat → Nat) (due done : Nat → Nat → Prop) : Prop where
  small : ∀ e, count e < 2 ^ 32
  due : ∀ e n, due e n → n < count e
  done : ∀ e n, done e n → n < count e

namespace Seat

variable {P sharedSecret} {key : Nat → StaticSecret} {count : Nat → Nat} {due done : Nat → Nat → Prop}
  {own received top : Nat} {s : Session B}

theorem passed_lt {e n : Nat} (h : Passed own received e n) : e < own := by
  rcases h with h | ⟨h, -⟩ <;> omega

/-- Skipping the next `j` messages of the receiving chain. -/
theorem skip {e : Nat} (h : Seat P sharedSecret key count due done (e + 2) received s) (hd : Distinct P key top)
    (htop : e + 2 ≤ top) (hnum : Numbered count due done) {j : Nat} (hj : received + j ≤ count (e + 1)) :
    Seat P sharedSecret key count due done (e + 2) (received + j)
      (s.skipBy P (P.publicKey (key (e + 1))).toVec (chainAt P (chainStart P sharedSecret key (e + 1)) received)
        j) := by
  have hbound := hnum.small (e + 1)
  have hmk : ∀ n, messageKeyAt P (chainAt P (chainStart P sharedSecret key (e + 1)) received).key n =
      epochKey P sharedSecret key (e + 1) (received + n) := by
    intro n
    rw [epochKey, messageKeyAt, messageKeyAt, chainKeyAt_add]
    rfl
  have hin : ∀ e' n', e' < e + 2 → n' < 2 ^ 32 →
      (epochName P key e' n' ∈ passed (P.publicKey (key (e + 1))).toVec (UInt32.ofNat received) j ↔
        e' = e + 1 ∧ received ≤ n' ∧ n' < received + j) := by
    intro e' n' he' hn'
    exact mem_passed_epochName P hd (by omega) (by omega) hn' (by omega)
  refine { h with receiving := ?_, receivedLe := hj, stored := ?_, complete := ?_, spent := ?_ }
  · simp [skipBy]
  · intro y mk hy
    rcases lookup_storeSkipped_cases P _ _ s.skippedKeys (by omega) hy with ⟨n, hn, rfl, rfl⟩ | ⟨-, hy⟩
    · refine ⟨e + 1, received + n, by omega, .inr ⟨rfl, by omega⟩, by omega, ?_, hmk n⟩
      rw [epochName, UInt32.ofNat_add]
      rfl
    · obtain ⟨e', n', hpar, hp, hn', rfl, rfl⟩ := h.stored y mk hy
      exact ⟨e', n', hpar, hp.imp_right fun hp => ⟨hp.1, by omega⟩, hn', rfl, rfl⟩
  · intro e' n' hpar hdue' hp
    have hn' := (hnum.due e' n' hdue').trans (hnum.small e')
    by_cases hnew : e' = e + 1 ∧ received ≤ n'
    · -- one of those just stored
      obtain ⟨rfl, hle⟩ := hnew
      have hlt : n' < received + j := by
        rcases hp with hp | hp <;> omega
      have hlook := lookup_storeSkipped P (P.publicKey (key (e + 1))).toVec
        (chainAt P (chainStart P sharedSecret key (e + 1)) received) s.skippedKeys (n := n' - received) (j := j)
        (by omega) (by omega)
      have hidx : (chainAt P (chainStart P sharedSecret key (e + 1)) received).index + UInt32.ofNat (n' - received) =
          UInt32.ofNat n' := by
        rw [chainAt, ← UInt32.ofNat_add, Nat.add_sub_cancel' hle]
      rw [hidx, hmk, Nat.add_sub_cancel' hle] at hlook
      exact hlook
    · have hp' : Passed (e + 2) received e' n' := by
        rcases hp with hp | hp
        · exact .inl hp
        · exact .inr ⟨hp.1, by omega⟩
      rw [skipBy, lookup_storeSkipped_of_notMem]
      · exact h.complete e' n' hpar hdue' hp'
      · intro hmem
        have := (hin e' n' (passed_lt hp') hn').1 hmem
        omega
  · intro e' n' hpar hdone'
    obtain ⟨hp, hlook⟩ := h.spent e' n' hpar hdone'
    have hn' := (hnum.done e' n' hdone').trans (hnum.small e')
    refine ⟨hp.imp_right fun hp => ⟨hp.1, by omega⟩, ?_⟩
    rw [skipBy, lookup_storeSkipped_of_notMem, hlook]
    intro hmem
    have := (hin e' n' (passed_lt hp) hn').1 hmem
    rcases hp with hp | hp <;> omega

/-- Taking the next key of the receiving chain, for a message that is not due any more. -/
theorem take {e : Nat} (h : Seat P sharedSecret key count due done (e + 2) received s)
    (hdue : ¬ due (e + 1) received) (hlt : received < count (e + 1)) :
    Seat P sharedSecret key count due done (e + 2) (received + 1)
      { s with receivingChain := some (chainAt P (chainStart P sharedSecret key (e + 1)) (received + 1)) } := by
  refine { h with receiving := ?_, receivedLe := hlt, stored := ?_, complete := ?_, spent := ?_ }
  · simp
  · intro y mk hy
    obtain ⟨e', n', hpar, hp, hn', rfl, rfl⟩ := h.stored y mk hy
    exact ⟨e', n', hpar, hp.imp_right fun hp => ⟨hp.1, by omega⟩, hn', rfl, rfl⟩
  · intro e' n' hpar hdue' hp
    refine h.complete e' n' hpar hdue' ?_
    rcases hp with hp | ⟨he, hn⟩
    · exact .inl hp
    · rcases Nat.lt_succ_iff_lt_or_eq.1 hn with hn | rfl
      · exact .inr ⟨he, hn⟩
      · obtain rfl : e' = e + 1 := by omega
        exact absurd hdue' hdue
  · intro e' n' hpar hdone'
    obtain ⟨hp, hlook⟩ := h.spent e' n' hpar hdone'
    exact ⟨hp.imp_right fun hp => ⟨hp.1, by omega⟩, hlook⟩

/-- Taking a stored key, for a message that is not due any more. -/
theorem erase (h : Seat P sharedSecret key count due done own received s) (hd : Distinct P key top)
    (htop : own ≤ top) (hnum : Numbered count due done) {e n : Nat} (he : e ≤ top) (hn : n < 2 ^ 32)
    (hnot : ¬ due e n) :
    Seat P sharedSecret key count due done own received
      { s with skippedKeys := s.skippedKeys.erase (epochName P key e n) } := by
  refine { h with stored := ?_, complete := ?_, spent := ?_ }
  · intro y mk hy
    have hne : y ≠ epochName P key e n := by
      rintro rfl
      rw [Finmap.lookup_erase] at hy
      cases hy
    rw [Finmap.lookup_erase_ne hne] at hy
    exact h.stored y mk hy
  · intro e' n' hpar hdue' hp
    have hn' := (hnum.due e' n' hdue').trans (hnum.small e')
    have hne : epochName P key e' n' ≠ epochName P key e n := by
      intro heq
      obtain ⟨rfl, rfl⟩ := epochName_inj P hd ((passed_lt hp).le.trans htop) he hn' hn heq
      exact hnot hdue'
    rw [Finmap.lookup_erase_ne hne]
    exact h.complete e' n' hpar hdue' hp
  · intro e' n' hpar hdone'
    obtain ⟨hp, hlook⟩ := h.spent e' n' hpar hdone'
    refine ⟨hp, ?_⟩
    by_cases heq : epochName P key e' n' = epochName P key e n
    · rw [heq, Finmap.lookup_erase]
    · rw [Finmap.lookup_erase_ne heq, hlook]

/-- What the DH ratchet derives, on the public key of the next epoch and the secret of the one after
it: the chains of these two epochs, and the root key of the second. -/
theorem ratcheted_eq (h : Seat P sharedSecret key count due done own received s)
    (hcomm : ∀ a b, P.diffieHellman a (P.publicKey b) = P.diffieHellman b (P.publicKey a)) :
    (s.ratcheted P (key (own + 2)) (P.publicKey (key (own + 1)))).rootKey = rootAt P sharedSecret key (own + 2) ∧
    (s.ratcheted P (key (own + 2)) (P.publicKey (key (own + 1)))).receivingChain =
      some (chainAt P (chainStart P sharedSecret key (own + 1)) 0) ∧
    (s.ratcheted P (key (own + 2)) (P.publicKey (key (own + 1)))).sendingChain =
      some (chainAt P (chainStart P sharedSecret key (own + 2)) 0) := by
  simp only [ratcheted, h.root, h.dhSecret, dh, hcomm (key own)]
  exact ⟨rfl, rfl, rfl⟩

/-- The DH ratchet, on the public key of the next epoch and the secret of the one after it, when the
rest of the receiving chain has been skipped. -/
theorem ratchet (h : Seat P sharedSecret key count due done own received s) (hnum : Numbered count due done)
    (hcomm : ∀ a b, P.diffieHellman a (P.publicKey b) = P.diffieHellman b (P.publicKey a))
    (hzero : count 0 = 0) (hnew : count (own + 2) = 0) (hfull : received = count (own - 1)) :
    Seat P sharedSecret key count due done (own + 2) 0
      (s.ratcheted P (key (own + 2)) (P.publicKey (key (own + 1)))) where
  root := (h.ratcheted_eq hcomm).1
  dhSecret := rfl
  dhPublic := rfl
  remote := by simp [ratcheted]
  sending := by simp [(h.ratcheted_eq hcomm).2.2, hnew]
  receiving := by simp [(h.ratcheted_eq hcomm).2.1]
  receivedLe := Nat.zero_le _
  prevLen := by
    simp only [ratcheted, h.sending, Nat.add_sub_cancel]
    split
    · rename_i h0
      rw [h0, hzero]
      rfl
    · rfl
  stored y mk hy := by
    obtain ⟨e, n, hpar, hp, hn, rfl, rfl⟩ := h.stored y mk hy
    exact ⟨e, n, by omega, .inl (by rcases hp with hp | hp <;> omega), hn, rfl, rfl⟩
  complete e n hpar hdue hp := by
    have hn := hnum.due e n hdue
    refine h.complete e n (by omega) hdue ?_
    rcases hp with hp | ⟨-, hp⟩
    · by_cases he : e + 1 < own
      · exact .inl he
      · have hown : own = e + 1 := by omega
        rw [hown, Nat.add_sub_cancel] at hfull
        exact .inr ⟨hown.symm, by omega⟩
    · exact absurd hp (Nat.not_lt_zero n)
  spent e n hpar hdone := by
    obtain ⟨hp, hlook⟩ := h.spent e n (by omega) hdone
    exact ⟨.inl (by rcases hp with hp | hp <;> omega), hlook⟩

/-- `encrypt` uses the next number of the epoch. -/
theorem send (h : Seat P sharedSecret key count due done own received s) (hown : own ≠ 0) :
    Seat P sharedSecret key (Function.update count own (count own + 1)) due done own received
      { s with sendingChain := some (chainAt P (chainStart P sharedSecret key own) (count own + 1)) } := by
  have hother : ∀ e, e ≠ own → Function.update count own (count own + 1) e = count e :=
    fun e he => Function.update_of_ne he _ _
  refine { h with sending := ?_, receivedLe := ?_, prevLen := ?_, stored := ?_ }
  · simp [hown]
  · rw [hother _ (by omega)]
    exact h.receivedLe
  · rw [hother _ (by omega)]
    exact h.prevLen
  · intro y mk hy
    obtain ⟨e, n, hpar, hp, hn, rfl, rfl⟩ := h.stored y mk hy
    refine ⟨e, n, hpar, hp, ?_, rfl, rfl⟩
    rwa [hother e fun he => hpar (he ▸ rfl)]

/-- A seat looks only at its own and earlier epochs: the other end may go on, and messages may
become due or done elsewhere. -/
theorem congr {key' : Nat → StaticSecret} {count' : Nat → Nat} {due' done' : Nat → Nat → Prop}
    (h : Seat P sharedSecret key count due done own received s) (hkey : ∀ e ≤ own, key' e = key e)
    (hcount : ∀ e ≤ own, e % 2 = own % 2 → count' e = count e) (hmore : ∀ e < own, count e ≤ count' e)
    (hdue : ∀ e n, e % 2 ≠ own % 2 → Passed own received e n → due' e n → due e n)
    (hdone : ∀ e n, e % 2 ≠ own % 2 → done' e n → done e n) (hzero : count' 0 = count 0) :
    Seat P sharedSecret key' count' due' done' own received s := by
  have hpath : ∀ e ≤ own, pathAt P key' e = pathAt P key e :=
    fun e he => pathAt_congr P fun i hi => hkey i (hi.trans he)
  have hchain : ∀ e ≤ own, chainStart P sharedSecret key' e = chainStart P sharedSecret key e :=
    fun e he => by rw [chainStart, hpath e he, chainStart]
  have hname : ∀ e n, e ≤ own → epochName P key' e n = epochName P key e n :=
    fun e n he => by rw [epochName, hkey e he, epochName]
  have hep : ∀ e n, e ≤ own → epochKey P sharedSecret key' e n = epochKey P sharedSecret key e n :=
    fun e n he => by rw [epochKey, hchain e he, epochKey]
  constructor
  · rw [h.root, rootAt, rootAt, hpath own le_rfl]
  · rw [h.dhSecret, hkey own le_rfl]
  · rw [h.dhPublic, hkey own le_rfl]
  · rw [h.remote, hkey (own - 1) (Nat.sub_le _ _)]
  · rw [h.sending, hchain own le_rfl, hcount own le_rfl rfl]
  · rw [h.receiving, hchain (own - 1) (Nat.sub_le _ _)]
  · rcases Nat.eq_zero_or_pos own with rfl | hpos
    · rw [hzero]
      exact h.receivedLe
    · exact h.receivedLe.trans (hmore _ (by omega))
  · rw [h.prevLen]
    by_cases h2 : 2 ≤ own
    · rw [hcount (own - 2) (Nat.sub_le _ _) (by omega)]
    · rw [show own - 2 = 0 by omega, hzero]
  · intro y mk hy
    obtain ⟨e, n, hpar, hp, hn, rfl, rfl⟩ := h.stored y mk hy
    have he := passed_lt hp
    exact ⟨e, n, hpar, hp, hn.trans_le (hmore e he), (hname e n he.le).symm, (hep e n he.le).symm⟩
  · intro e n hpar hdue' hp
    have he := passed_lt hp
    rw [hname e n he.le, hep e n he.le]
    exact h.complete e n hpar (hdue e n hpar hp hdue') hp
  · intro e n hpar hdone'
    obtain ⟨hp, hlook⟩ := h.spent e n hpar (hdone e n hpar hdone')
    rw [hname e n (passed_lt hp).le]
    exact ⟨hp, hlook⟩

/-! ## Decrypting a message of the conversation -/

/-- What is not behind a session has no stored key. -/
theorem lookup_of_not_passed (h : Seat P sharedSecret key count due done own received s) (hd : Distinct P key top)
    (htop : own ≤ top) (hnum : Numbered count due done) {e n : Nat} (he : e ≤ top) (hn : n < 2 ^ 32)
    (hnot : ¬ Passed own received e n) : s.skippedKeys.lookup (epochName P key e n) = none := by
  cases hl : s.skippedKeys.lookup (epochName P key e n) with
  | none => rfl
  | some mk =>
    obtain ⟨e', n', -, hp, hn', heq, -⟩ := h.stored _ mk hl
    obtain ⟨rfl, rfl⟩ := epochName_inj P hd he ((passed_lt hp).le.trans htop) hn (hn'.trans (hnum.small e')) heq
    exact absurd hp hnot

variable (P sharedSecret key count due done) in
/-- What looking for the key of message `n` of epoch `e` comes to: the right key, and the message
is behind the session; or the skip limit, and more keys stored than it allows. -/
structure Gets (e n own' received' : Nat) (r : Outcome CryptoError B × Session B) : Prop where
  seat : Seat P sharedSecret key count due done own' received' r.2
  gone : r.2.skippedKeys.lookup (epochName P key e n) = none
  result : (r.1 = .ok (epochKey P sharedSecret key e n) ∧ Passed own' received' e n) ∨
    (r.1 = .err tooMany ∧ maxSkip < r.2.skippedKeys.keys.card)

/-- Looking for the key of a message ahead in the receiving chain; if it is found, the session stops
behind the message. -/
theorem receive {e n : Nat} (h : Seat P sharedSecret key count due done (e + 2) received s)
    (hd : Distinct P key top) (htop : e + 2 ≤ top) (hnum : Numbered count due done) (hn : n < count (e + 1))
    (hle : received ≤ n) (hdue : ¬ due (e + 1) n) {header : MessageHeader}
    (hk : header.dhPublicKey = (P.publicKey (key (e + 1))).toVec) (hnumber : header.messageNumber = UInt32.ofNat n)
    {r : Outcome CryptoError B × Session B} (hr : ReceiveResult P header s r) :
    ∃ received', Gets P sharedSecret key count due done (e + 1) n (e + 2) received' r ∧
      (r.1 ≠ .err tooMany → received' = n + 1) := by
  have hsmall := hn.trans (hnum.small (e + 1))
  have hchain : s.receivingChain = some (chainAt P (chainStart P sharedSecret key (e + 1)) received) := by
    simp [h.receiving]
  have hdist : header.messageNumber.toNat -
      (chainAt P (chainStart P sharedSecret key (e + 1)) received).index.toNat = n - received := by
    rw [hnumber, chainAt, UInt32.toNat_ofNat_of_lt' hsmall, UInt32.toNat_ofNat_of_lt' (hle.trans_lt hsmall)]
  cases hr with
  | noChain hc =>
    rw [hchain] at hc
    cases hc
  | tooMany c j hc _ hj hgt =>
    obtain rfl := Option.some.inj (hchain.symm.trans hc)
    rw [hdist] at hj
    rw [hk] at hgt ⊢
    have hskip := h.skip hd htop hnum (j := j) (by omega)
    refine ⟨received + j, ⟨hskip, ?_, .inr ⟨rfl, hgt⟩⟩, fun hne => absurd rfl hne⟩
    refine hskip.lookup_of_not_passed hd htop hnum (by omega) hsmall ?_
    rintro (hp | ⟨-, hp⟩) <;> omega
  | key c m hc hm _ =>
    obtain rfl := Option.some.inj (hchain.symm.trans hc)
    rw [hdist] at hm
    subst hm
    rw [hk]
    have hskip := h.skip hd htop hnum (j := n - received) (by omega)
    rw [Nat.add_sub_cancel' hle] at hskip
    have htake := hskip.take hdue hn
    have hnext : (chainAt P (chainStart P sharedSecret key (e + 1)) received).advanced P (n - received + 1) =
        chainAt P (chainStart P sharedSecret key (e + 1)) (n + 1) := by
      rw [advanced_chainAt, ← Nat.add_assoc, Nat.add_sub_cancel' hle]
    have hkey : messageKeyAt P (chainAt P (chainStart P sharedSecret key (e + 1)) received).key (n - received) =
        epochKey P sharedSecret key (e + 1) n := by
      rw [epochKey, messageKeyAt, messageKeyAt, chainAt, ← chainKeyAt_add, Nat.add_sub_cancel' hle]
    rw [hnext, hkey]
    refine ⟨n + 1, ⟨htake, ?_, .inl ⟨rfl, .inr ⟨rfl, Nat.lt_succ_self n⟩⟩⟩, fun _ => rfl⟩
    refine hskip.lookup_of_not_passed hd htop hnum (by omega) hsmall ?_
    rintro (hp | ⟨-, hp⟩) <;> omega

/-- A receiving chain is that of the epoch before, at the number reached in it. -/
theorem eq_chainAt (h : Seat P sharedSecret key count due done own received s) (hnum : Numbered count due done)
    {c : ChainKey B} (hc : s.receivingChain = some c) :
    2 ≤ own ∧ c = chainAt P (chainStart P sharedSecret key (own - 1)) received ∧ c.index.toNat = received := by
  rw [h.receiving] at hc
  split at hc
  · cases hc
  · rename_i hlt
    obtain rfl := Option.some.inj hc
    exact ⟨not_lt.1 hlt, rfl, UInt32.toNat_ofNat_of_lt' (h.receivedLe.trans_lt (hnum.small _))⟩

/-- Skipping on in the receiving chain, before the DH ratchet that replaces it. -/
theorem skipOld (h : Seat P sharedSecret key count due done own received s) (hd : Distinct P key top)
    (htop : own ≤ top) (hnum : Numbered count due done) {c : ChainKey B} {old : PublicKey}
    (hc : s.receivingChain = some c) (hrem : s.remoteDhPublic = some old) {j : Nat}
    (hj : received + j ≤ count (own - 1)) :
    Seat P sharedSecret key count due done own (received + j) (s.skipBy P old.toVec c j) := by
  obtain ⟨h2, rfl, -⟩ := h.eq_chainAt hnum hc
  obtain ⟨f, rfl⟩ : ∃ f, own = f + 2 := ⟨own - 2, by omega⟩
  have hold : old = P.publicKey (key (f + 1)) := by
    rw [h.remote] at hrem
    simpa [eq_comm] using hrem
  rw [hold]
  exact h.skip hd htop hnum hj

/-- The DH ratchet to the next epoch finds the receiving chain skipped to its end. -/
theorem skippedOld (h : Seat P sharedSecret key count due done own received s) (hd : Distinct P key top)
    (htop : own ≤ top) (hnum : Numbered count due done) (hzero : count 0 = 0) {header : MessageHeader}
    (hprev : header.previousChainLength.toNat = count (own - 1)) {s₁ : Session B} (hold : SkippedOld P header s s₁) :
    Seat P sharedSecret key count due done own (count (own - 1)) s₁ := by
  have hrec := h.receivedLe
  cases hold with
  | noChain hnone =>
    have hlt : own < 2 := by
      by_contra hge
      rw [h.receiving, h.remote, if_neg hge, if_neg (by omega)] at hnone
      rcases hnone with hnone | hnone <;> cases hnone
    rw [show own - 1 = 0 by omega, hzero] at hrec ⊢
    rwa [Nat.le_zero.1 hrec] at h
  | skipped c old j hc hrem hj _ =>
    obtain ⟨-, -, hidx⟩ := h.eq_chainAt hnum hc
    rw [hprev, hidx] at hj
    have hskip := h.skipOld hd htop hnum hc hrem (j := j) (by omega)
    rwa [show received + j = count (own - 1) by omega] at hskip

/-- `decrypt` of a message of the conversation finds its key or stops at the skip limit. If it finds it, the
session goes on to the place behind the message, unless it is past that place already. -/
theorem takeMessageKey_place (h : Seat P sharedSecret key count due done own received s) (hd : Distinct P key top)
    (htop : own ≤ top) (hnum : Numbered count due done)
    (hcomm : ∀ a b, P.diffieHellman a (P.publicKey b) = P.diffieHellman b (P.publicKey a))
    (hzero : count 0 = 0) {e n : Nat} (hpar : e % 2 ≠ own % 2) (he : e ≤ own + 1) (hetop : e ≤ top)
    (hn : n < count e) (hdue : ¬ due e n)
    (hstored : Passed own received e n →
      s.skippedKeys.lookup (epochName P key e n) = some (epochKey P sharedSecret key e n))
    (fresh : StaticSecret) (hnext : e = own + 1 → own + 2 ≤ top ∧ key (own + 2) = fresh ∧ count (own + 2) = 0) :
    ∃ own' received', Gets P sharedSecret key count due done e n own' received'
      (s.takeMessageKey P fresh (epochHeader P key count e n)) ∧ (own' = own ∨ (e = own + 1 ∧ own' = own + 2)) ∧
      ((s.takeMessageKey P fresh (epochHeader P key count e n)).1 ≠ .err tooMany →
        place own' received' = max (place own received) (place (e + 1) (n + 1))) := by
  have hsmall := hn.trans (hnum.small e)
  have htake := takeMessageKey_cases P fresh (epochHeader P key count e n) s
  generalize s.takeMessageKey P fresh (epochHeader P key count e n) = r at htake ⊢
  -- a message without a stored key is not behind the session
  have hahead : s.skippedKeys.lookup (epochName P key e n) = none → ¬ Passed own received e n := by
    intro hl hp
    rw [hstored hp] at hl
    cases hl
  -- and unless it is of the current receiving chain, it is of the next epoch
  have hafter : s.skippedKeys.lookup (epochName P key e n) = none →
      s.remoteDhPublic ≠ some (P.publicKey (key e)) → e = own + 1 := by
    intro hl hrem
    by_contra hne
    have hown : own = e + 1 := by
      by_contra hne'
      exact hahead hl (.inl (by omega))
    rw [h.remote, hown] at hrem
    exact hrem (by simp)
  have hprev : ∀ m, (epochHeader P key count e m).previousChainLength.toNat = count (e - 2) := by
    intro m
    exact UInt32.toNat_ofNat_of_lt' (hnum.small _)
  have hpk : ∀ {k : PublicKey}, (epochHeader P key count e n).dhPublicKey = k.toVec → k = P.publicKey (key e) :=
    fun hk => (PublicKey.toVec_inj.1 hk).symm
  cases htake with
  | stored mk hl =>
    obtain ⟨e', n', -, hp, hn', heq, rfl⟩ := h.stored _ mk hl
    obtain ⟨rfl, rfl⟩ := epochName_inj P hd hetop ((passed_lt hp).le.trans htop) hsmall
      (hn'.trans (hnum.small e')) heq
    refine ⟨own, received, ⟨h.erase hd htop hnum hetop hsmall hdue, Finmap.lookup_erase _ _, .inl ⟨?_, hp⟩⟩, .inl rfl,
      fun _ => (max_eq_left (passed_iff.1 hp)).symm⟩
    exact tryInto32_messageKey P _ _ _
  | badHeader _ hlen => exact absurd (PublicKey.length_toVec _) hlen
  | current k r hl hk hrem hr =>
    obtain rfl := hpk hk
    have hown : own = e + 1 := by
      rw [h.remote] at hrem
      split at hrem
      · cases hrem
      · have := hd _ ((Nat.sub_le own 1).trans htop) _ hetop (Option.some.inj hrem)
        omega
    obtain ⟨f, rfl⟩ : ∃ f, e = f + 1 := ⟨e - 1, by rcases Nat.eq_zero_or_pos e with rfl | h0 <;> omega⟩
    subst hown
    have hle : received ≤ n := by
      by_contra hlt
      exact hahead hl (.inr ⟨rfl, by omega⟩)
    obtain ⟨received', hgets, hnext⟩ := h.receive hd htop hnum hn hle hdue rfl rfl hr
    refine ⟨f + 2, received', hgets, .inl rfl, fun hne => ?_⟩
    rw [hnext hne, max_eq_right]
    exact Prod.Lex.toLex_le_toLex.2 (.inr ⟨rfl, hle.trans (Nat.le_succ n)⟩)
  | oldTooMany k old c j hl hk hrem hne hc _ hj hgt =>
    obtain rfl := hpk hk
    obtain rfl : e = own + 1 := hafter hl (by rw [hrem]; exact fun h => hne (Option.some.inj h))
    obtain ⟨-, -, hidx⟩ := h.eq_chainAt hnum hc
    rw [hprev, hidx, show own + 1 - 2 = own - 1 by omega] at hj
    have hrec := h.receivedLe
    have hskip := h.skipOld hd htop hnum hc hrem (j := j) (by omega)
    refine ⟨own, received + j, ⟨hskip, ?_, .inr ⟨rfl, hgt⟩⟩, .inl rfl, fun hne => absurd rfl hne⟩
    refine hskip.lookup_of_not_passed hd htop hnum hetop hsmall ?_
    rintro (hp | ⟨hp, -⟩) <;> omega
  | ratchet k s₁ r hl hk hrem hold hr =>
    obtain rfl := hpk hk
    obtain rfl : e = own + 1 := hafter hl hrem
    obtain ⟨htop2, rfl, hnew⟩ := hnext rfl
    have hfull := h.skippedOld hd htop hnum hzero (hprev n) hold
    have hratchet := hfull.ratchet hnum hcomm hzero hnew rfl
    obtain ⟨received', hgets, hnext⟩ := hratchet.receive hd htop2 hnum hn (Nat.zero_le n) hdue rfl rfl hr
    refine ⟨own + 2, received', hgets, .inr ⟨rfl, rfl⟩, fun hne => ?_⟩
    rw [hnext hne, max_eq_right]
    exact Prod.Lex.toLex_le_toLex.2 (.inl (show own < own + 1 + 1 by omega))

/-- `decrypt` of a message of the conversation finds its key or stops at the skip limit; it goes on
two epochs if the message is of the next one, and stays in its own otherwise. -/
theorem takeMessageKey (h : Seat P sharedSecret key count due done own received s) (hd : Distinct P key top)
    (htop : own ≤ top) (hnum : Numbered count due done)
    (hcomm : ∀ a b, P.diffieHellman a (P.publicKey b) = P.diffieHellman b (P.publicKey a))
    (hzero : count 0 = 0) {e n : Nat} (hpar : e % 2 ≠ own % 2) (he : e ≤ own + 1) (hetop : e ≤ top)
    (hn : n < count e) (hdue : ¬ due e n)
    (hstored : Passed own received e n →
      s.skippedKeys.lookup (epochName P key e n) = some (epochKey P sharedSecret key e n))
    (fresh : StaticSecret) (hnext : e = own + 1 → own + 2 ≤ top ∧ key (own + 2) = fresh ∧ count (own + 2) = 0) :
    ∃ own' received', Gets P sharedSecret key count due done e n own' received'
      (s.takeMessageKey P fresh (epochHeader P key count e n)) ∧ (own' = own ∨ (e = own + 1 ∧ own' = own + 2)) := by
  obtain ⟨own', received', hgets, hown, -⟩ :=
    h.takeMessageKey_place hd htop hnum hcomm hzero hpar he hetop hn hdue hstored fresh hnext
  exact ⟨own', received', hgets, hown⟩

end Seat

end GhostCrypt.Ratchet
