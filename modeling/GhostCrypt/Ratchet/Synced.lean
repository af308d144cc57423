/-
The invariant of an honest conversation: both ends sit in adjacent epochs of one ladder, every
message bears the next number of its epoch, and what each end holds fits what the other sent. It
survives every step, also the deliveries that stop at the skip limit.
-/
import GhostCrypt.Ratchet.Exchange
import GhostCrypt.Ratchet.Seat

namespace GhostCrypt.Ratchet

open Session

/-- The secrets of the epochs, and where each party is. -/
structure Epochs where
  key : Nat → StaticSecret
  own : Party → Nat
  received : Party → Nat

/-- The responder's signed pre-key, and the initiator's first key. -/
def Epochs.first (fresh : StaticSecret) (ourSpk : Identity.SignedPreKey) : Epochs :=
  { key := fun e => if e = 0 then ⟨ourSpk.secretSeed⟩ else fresh
    own := fun | .alice => 1 | .bob => 0
    received := fun _ => 0 }

/-- The latest epoch. -/
def Epochs.top (g : Epochs) : Nat := max (g.own .alice) (g.own .bob)

/-- The party that sends in an epoch. -/
def epochParty (e : Nat) : Party := if e % 2 = 1 then .alice else .bob

/-- The pair of header fields that names a message. -/
def Message.name (m : Message) : Bytes × UInt32 := (m.header.dhPublicKey, m.header.messageNumber)

variable {B : Type} [ByteString B] (P : Primitives B) (sharedSecret : B)

/-- The chains set up by the DH ratchets up to epoch `e`, latest first. -/
def setUpLog (key : Nat → StaticSecret) : Nat → List (SetUp B)
  | 0 => []
  | 1 => []
  | e + 2 =>
    { party := epochParty (e + 2), receiving := some (chainStart P sharedSecret key (e + 1)),
      sending := some (chainStart P sharedSecret key (e + 2)) } :: setUpLog key (e + 1)

namespace Exchange

/-- The numbers used in an epoch. -/
def count (x : Exchange B) (key : Nat → StaticSecret) (e : Nat) : Nat := x.chainLength (P.publicKey (key e)).toVec

/-- Message `n` of epoch `e` has been made and is one of those whose index satisfies `Q`. -/
def Bears (x : Exchange B) (Q : Nat → Prop) (g : Epochs) (e n : Nat) : Prop :=
  e ≤ g.top ∧ n < 2 ^ 32 ∧ ∃ (i : Nat) (m : Message), x.sent[i]? = some m ∧ Q i ∧ m.name = epochName P g.key e n

/-- Message `n` of epoch `e` has not been delivered. -/
def Due (x : Exchange B) : Epochs → Nat → Nat → Prop := x.Bears P fun i => x.result i = none

/-- The message `m` is message `n` of epoch `e`, made by `encrypt` under that epoch's key. -/
structure IsSlot (x : Exchange B) (g : Epochs) (m : Message) (e n : Nat) : Prop where
  pos : 1 ≤ e
  le : e ≤ g.own m.sender
  parity : e % 2 = m.sender.parity
  lt : n < x.count P g.key e
  header : m.header = epochHeader P g.key (x.count P g.key) e n
  sealed : ∀ encrypted, m.encrypted = some encrypted → ∃ nonce,
    Aead.encrypt P nonce (epochKey P sharedSecret g.key e n) m.plaintext m.header.toBytes = .ok encrypted

end Exchange

/-- The invariant, for the epochs `g`; the keys of the messages `done` are spent. -/
structure Synced (done : Nat → Prop) (g : Epochs) (x : Exchange B) : Prop where
  seat : ∀ p, Seat P sharedSecret g.key (x.count P g.key) (x.Due P g) (x.Bears P done g) (g.own p)
    (g.received p) (x.session p)
  parity : ∀ p, g.own p % 2 = p.parity
  adjacent : ∀ p, g.own p ≤ g.own p.other + 1
  distinct : Distinct P g.key g.top
  generated : ∀ e ≤ g.top, P.publicKey (g.key e) ∈ x.generated
  slot : ∀ (i : Nat) m, x.sent[i]? = some m → ∃ e n, x.IsSlot P sharedSecret g m e n
  used : ∀ e ≤ g.top, ∀ n < x.count P g.key e, ∃ (i : Nat) (m : Message),
    x.sent[i]? = some m ∧ m.name = epochName P g.key e n
  unique : ∀ (i j : Nat) (m m' : Message), x.sent[i]? = some m → x.sent[j]? = some m' → m.name = m'.name → i = j
  pending : ∀ i, x.sent.length ≤ i → x.result i = none ∧ ¬ done i
  replaced : ∀ p k, k ∈ x.replaced p ↔ ∃ e, e + 1 < g.own p ∧ e % 2 ≠ g.own p % 2 ∧ k = P.publicKey (g.key e)
  setUps : x.setUps = setUpLog P sharedSecret g.key g.top

/-- The secret of the epoch to come is drawn. -/
def Epochs.draw (g : Epochs) (fresh : StaticSecret) : Epochs :=
  { g with key := Function.update g.key (g.top + 1) fresh }

/-- `p` draws the secret of the epoch to come, and is in epoch `own` afterwards. -/
def Epochs.goOn (g : Epochs) (fresh : StaticSecret) (p : Party) (own received : Nat) : Epochs :=
  { key := (g.draw fresh).key, own := Function.update g.own p own, received := Function.update g.received p received }

/-- Where `p` may be next: in its epoch, or in the one after the other's if that is ahead. -/
def Epochs.Reaches (g : Epochs) (p : Party) (own : Nat) : Prop :=
  own = g.own p ∨ (g.own p.other = g.own p + 1 ∧ own = g.own p + 2)

/-- The epochs `g'` continue `g`. -/
structure Epochs.Before (g g' : Epochs) : Prop where
  key : ∀ e ≤ g.top, g'.key e = g.key e
  own : ∀ p, g.own p ≤ g'.own p

/-! ## Epochs -/

theorem Epochs.own_le_top (g : Epochs) : ∀ p, g.own p ≤ g.top
  | .alice => le_max_left _ _
  | .bob => le_max_right _ _

theorem Epochs.top_le {g : Epochs} {n : Nat} (h : ∀ p, g.own p ≤ n) : g.top ≤ n := max_le (h .alice) (h .bob)

theorem Epochs.Before.refl (g : Epochs) : g.Before g := ⟨fun _ _ => rfl, fun _ => le_rfl⟩

theorem Epochs.Before.top {g g' : Epochs} (h : g.Before g') : g.top ≤ g'.top :=
  g.top_le fun p => (h.own p).trans (g'.own_le_top p)

theorem Epochs.Before.trans {g g' g'' : Epochs} (h : g.Before g') (h' : g'.Before g'') : g.Before g'' :=
  ⟨fun e he => (h'.key e (he.trans h.top)).trans (h.key e he), fun p => (h.own p).trans (h'.own p)⟩

theorem Epochs.draw_key_of_ne {g : Epochs} (fresh : StaticSecret) {e : Nat} (he : e ≠ g.top + 1) :
    (g.draw fresh).key e = g.key e := Function.update_of_ne he _ _

@[simp] theorem Epochs.draw_key_next (g : Epochs) (fresh : StaticSecret) : (g.draw fresh).key (g.top + 1) = fresh :=
  Function.update_self _ _ _

section

variable {g : Epochs} (fresh : StaticSecret) {p q : Party} {own : Nat} (received : Nat)

@[simp] theorem Epochs.goOn_own : (g.goOn fresh p own received).own p = own := Function.update_self _ _ _

@[simp] theorem Epochs.goOn_received : (g.goOn fresh p own received).received p = received := Function.update_self _ _ _

theorem Epochs.goOn_own_of_ne (hq : q ≠ p) : (g.goOn fresh p own received).own q = g.own q :=
  Function.update_of_ne hq _ _

theorem Epochs.goOn_received_of_ne (hq : q ≠ p) : (g.goOn fresh p own received).received q = g.received q :=
  Function.update_of_ne hq _ _

theorem Epochs.own_le_goOn (hown : g.Reaches p own) (q : Party) : g.own q ≤ (g.goOn fresh p own received).own q := by
  by_cases hq : q = p
  · rw [hq, Epochs.goOn_own]
    rcases hown with rfl | ⟨-, rfl⟩ <;> omega
  · rw [Epochs.goOn_own_of_ne fresh received hq]

theorem Epochs.goOn_top_le (hown : g.Reaches p own) : (g.goOn fresh p own received).top ≤ g.top + 1 := by
  apply Epochs.top_le
  intro q
  have hp := g.own_le_top p
  have hother := g.own_le_top p.other
  by_cases hq : q = p
  · rw [hq, Epochs.goOn_own]
    rcases hown with rfl | ⟨hahead, rfl⟩ <;> omega
  · rw [Epochs.goOn_own_of_ne fresh received hq]
    exact (g.own_le_top q).trans (Nat.le_succ _)

theorem Epochs.Reaches.ahead (hown : g.Reaches p own) (hne : own ≠ g.own p) : g.own p.other = g.own p + 1 :=
  (hown.resolve_left hne).1

theorem Epochs.Reaches.before (hown : g.Reaches p own) : g.Before (g.goOn fresh p own received) :=
  ⟨fun _ he => Epochs.draw_key_of_ne fresh (by omega), Epochs.own_le_goOn fresh received hown⟩

theorem Epochs.Reaches.parity (hown : g.Reaches p own) (q : Party) :
    (g.goOn fresh p own received).own q % 2 = g.own q % 2 := by
  by_cases hq : q = p
  · rw [hq, Epochs.goOn_own]
    rcases hown with rfl | ⟨-, rfl⟩ <;> omega
  · rw [Epochs.goOn_own_of_ne fresh received hq]

/-- The ends stay at most one epoch apart. -/
theorem Epochs.Reaches.adjacent (hown : g.Reaches p own) (hadj : ∀ q, g.own q ≤ g.own q.other + 1) (q : Party) :
    (g.goOn fresh p own received).own q ≤ (g.goOn fresh p own received).own q.other + 1 := by
  have hp := hadj p
  have hother := hadj p.other
  rw [Party.other_other] at hother
  by_cases hq : q = p
  · rw [hq, Epochs.goOn_own, Epochs.goOn_own_of_ne fresh received (Party.other_ne p)]
    rcases hown with rfl | ⟨hahead, rfl⟩ <;> omega
  · rw [Party.eq_other_of_ne hq, Party.other_other, Epochs.goOn_own,
      Epochs.goOn_own_of_ne fresh received (Party.other_ne p)]
    rcases hown with rfl | ⟨hahead, rfl⟩ <;> omega

end

theorem epochParty_of_parity {e : Nat} {p : Party} (h : e % 2 = p.parity) : epochParty e = p := by
  unfold epochParty
  cases p
  · exact if_pos h
  · exact if_neg (by rw [h]; decide)

theorem setUpLog_congr {key key' : Nat → StaticSecret} : ∀ {e : Nat}, (∀ i ≤ e, key' i = key i) →
    setUpLog P sharedSecret key' e = setUpLog P sharedSecret key e
  | 0, _ => rfl
  | 1, _ => rfl
  | e + 2, h => by
    rw [setUpLog, setUpLog, chainStart, pathAt_congr P fun i hi => h i (hi.trans (Nat.le_succ _)), chainStart,
      chainStart, pathAt_congr P h, chainStart, setUpLog_congr fun i hi => h i (Nat.le_succ_of_le hi)]

section

variable {P sharedSecret} {key : Nat → StaticSecret} {top own : Nat}

/-- A session has replaced its remote key exactly when it has gone on two epochs. -/
theorem ratchetedTo_of_seat {count count' : Nat → Nat} {due due' done done' : Nat → Nat → Prop}
    {own' received received' : Nat} {s s' : Session B} (h : Seat P sharedSecret key count due done own received s)
    (h' : Seat P sharedSecret key count' due' done' own' received' s') (hd : Distinct P key top) (htop : own < top)
    (hown' : own' = own ∨ own' = own + 2) :
    (own' = own ∧ Exchange.ratchetedTo s s' = none) ∨
      (own' = own + 2 ∧ Exchange.ratchetedTo s s' = some (P.publicKey (key (own + 1)))) := by
  have hrem := h'.remote
  unfold Exchange.ratchetedTo
  rcases hown' with rfl | rfl
  · exact .inl ⟨rfl, if_pos (hrem.trans h.remote.symm)⟩
  · refine .inr ⟨rfl, ?_⟩
    rw [if_neg (by omega)] at hrem
    rw [hrem, if_neg]
    · rfl
    · rw [h.remote]
      intro heq
      split at heq
      · cases heq
      · have := hd _ (by omega) _ (by omega) (Option.some.inj heq)
        omega

/-- The keys replaced so far, and the one replaced now. -/
theorem mem_replaced_next {replaced : List PublicKey} {remote : Option PublicKey}
    (hremote : remote = if own = 0 then none else some (P.publicKey (key (own - 1))))
    (hreplaced : ∀ k, k ∈ replaced ↔ ∃ e, e + 1 < own ∧ e % 2 ≠ own % 2 ∧ k = P.publicKey (key e)) (k : PublicKey) :
    k ∈ remote.toList ++ replaced ↔ ∃ e, e + 1 < own + 2 ∧ e % 2 ≠ (own + 2) % 2 ∧ k = P.publicKey (key e) := by
  rw [List.mem_append, hreplaced, Option.mem_toList, hremote]
  constructor
  · rintro (hk | ⟨e, he, hpar, rfl⟩)
    · split at hk
      · cases hk
      · exact ⟨own - 1, by omega, by omega, (Option.some.inj hk).symm⟩
    · exact ⟨e, by omega, by omega, rfl⟩
  · rintro ⟨e, he, hpar, rfl⟩
    by_cases hlast : e + 1 < own
    · exact .inr ⟨e, hlast, by omega, rfl⟩
    · obtain rfl : own = e + 1 := by omega
      exact .inl (by simp)

end

namespace Synced

variable {P sharedSecret} {done : Nat → Prop} {g : Epochs} {x : Exchange B}

/-- No message bears the public key of an epoch to come, or of epoch 0. -/
theorem chainLength_eq_zero (h : Synced P sharedSecret done g x) {k : PublicKey}
    (hk : ∀ e ≤ g.top, 1 ≤ e → P.publicKey (g.key e) ≠ k) : x.chainLength k.toVec = 0 := by
  refine List.countP_eq_zero.2 fun m hm => ?_
  obtain ⟨i, hi⟩ := List.mem_iff_getElem?.1 hm
  obtain ⟨e, n, hs⟩ := h.slot i m hi
  have hne := hk e (hs.le.trans (g.own_le_top _)) hs.pos
  rw [hs.header]
  simpa [epochHeader, MessageHeader.new] using hne

theorem count_zero (h : Synced P sharedSecret done g x) : x.count P g.key 0 = 0 := by
  apply h.chainLength_eq_zero
  intro e he hpos heq
  have := h.distinct e he 0 (Nat.zero_le _) heq
  omega

theorem name_of_slot {m : Message} {e n : Nat} (hs : x.IsSlot P sharedSecret g m e n) :
    m.name = epochName P g.key e n := by
  rw [Message.name, hs.header]
  rfl

/-- The sender of a message is the end that sends in its epoch. -/
theorem sender_iff (h : Synced P sharedSecret done g x) {m : Message} {e n : Nat} (hs : x.IsSlot P sharedSecret g m e n)
    {p : Party} : m.sender = p.other ↔ e % 2 ≠ g.own p % 2 := by
  rw [hs.parity, h.parity]
  constructor
  · intro hsender heq
    rw [hsender] at heq
    exact Party.other_ne p (Party.parity_inj heq)
  · exact fun hne => Party.eq_other_of_ne fun heq => hne (congrArg Party.parity heq)

/-- No end is more than one epoch behind. -/
theorem top_le_own (h : Synced P sharedSecret done g x) (p : Party) : g.top ≤ g.own p + 1 := by
  apply g.top_le
  intro q
  by_cases hq : q = p
  · rw [hq]
    exact Nat.le_succ _
  · have hadj := h.adjacent q
    rwa [show q.other = p by rw [Party.eq_other_of_ne hq, Party.other_other]] at hadj

/-- Nobody is past the latest message of its sender. -/
theorem not_passed_last (h : Synced P sharedSecret done g x) (p q : Party) :
    ¬ Passed (g.own q) (g.received q) (g.own p) (x.count P g.key (g.own p)) := by
  have hmax := (g.own_le_top q).trans (h.top_le_own p)
  rintro (hp | ⟨hp, hlt⟩)
  · omega
  · have hrec := (h.seat q).receivedLe
    rw [← hp, Nat.add_sub_cancel] at hrec
    omega

/-- A message has been given the number its header bears. -/
theorem lt_of_name (h : Synced P sharedSecret done g x) (hshort : x.ShortChains) {i : Nat} {m : Message}
    (hm : x.sent[i]? = some m) {e n : Nat} (hn : n < 2 ^ 32) (hname : m.name = epochName P g.key e n) :
    n < x.count P g.key e := by
  obtain ⟨e', n', hs⟩ := h.slot i m hm
  obtain ⟨hk, hnum⟩ := Prod.mk.inj ((name_of_slot hs).symm.trans hname)
  have hlt := hs.lt
  have hnat := congrArg UInt32.toNat hnum
  rw [UInt32.toNat_ofNat_of_lt' (hlt.trans (hshort _)), UInt32.toNat_ofNat_of_lt' hn] at hnat
  rw [← hnat, Exchange.count, ← hk]
  exact hlt

theorem numbered (h : Synced P sharedSecret done g x) (hshort : x.ShortChains) :
    Numbered (x.count P g.key) (x.Due P g) (x.Bears P done g) where
  small _ := hshort _
  due := by
    rintro e n ⟨-, hn, i, m, hm, -, hname⟩
    exact h.lt_of_name hshort hm hn hname
  done := by
    rintro e n ⟨-, hn, i, m, hm, -, hname⟩
    exact h.lt_of_name hshort hm hn hname

theorem IsSlot_mono {g' : Epochs} {x' : Exchange B} {m : Message} {e n : Nat} (hs : x.IsSlot P sharedSecret g m e n)
    (hkey : ∀ i ≤ e, g'.key i = g.key i) (hown : g.own m.sender ≤ g'.own m.sender)
    (hprev : x'.count P g'.key (e - 2) = x.count P g.key (e - 2))
    (hle : x.count P g.key e ≤ x'.count P g'.key e) : x'.IsSlot P sharedSecret g' m e n := by
  refine ⟨hs.pos, hs.le.trans hown, hs.parity, hs.lt.trans_le hle, ?_, fun encrypted he => ?_⟩
  · rw [hs.header, epochHeader, epochHeader, hkey e le_rfl, hprev]
  · obtain ⟨nonce, hn⟩ := hs.sealed encrypted he
    refine ⟨nonce, ?_⟩
    rw [epochKey, chainStart, pathAt_congr P hkey]
    exact hn

/-! ## Encrypting -/

variable (P sharedSecret g x) in
/-- In `x'`, a message of `p` with the next number of its epoch has joined the conversation `x`. -/
structure Pushes (p : Party) (m : Message) (x' : Exchange B) : Prop where
  own : g.own p ≠ 0
  sender : m.sender = p
  header : m.header = epochHeader P g.key (x.count P g.key) (g.own p) (x.count P g.key (g.own p))
  sealed : ∀ encrypted, m.encrypted = some encrypted → ∃ nonce,
    Aead.encrypt P nonce (epochKey P sharedSecret g.key (g.own p) (x.count P g.key (g.own p)))
      m.plaintext m.header.toBytes = .ok encrypted
  pushed : x' = { x with
    session := Function.update x.session p { x.session p with
      sendingChain := some (chainAt P (chainStart P sharedSecret g.key (g.own p)) (x.count P g.key (g.own p) + 1)) }
    sent := x.sent ++ [m] }
  short : x'.ShortChains

namespace Pushes

variable {p : Party} {m : Message} {x' : Exchange B}

theorem sent (hx' : Pushes P sharedSecret g x p m x') : x'.sent = x.sent ++ [m] := by rw [hx'.pushed]

theorem result (hx' : Pushes P sharedSecret g x p m x') : x'.result = x.result := by rw [hx'.pushed]

theorem session_own (hx' : Pushes P sharedSecret g x p m x') : x'.session p = { x.session p with
    sendingChain := some (chainAt P (chainStart P sharedSecret g.key (g.own p)) (x.count P g.key (g.own p) + 1)) } := by
  rw [hx'.pushed]
  exact Function.update_self _ _ _

theorem session_of_ne (hx' : Pushes P sharedSecret g x p m x') {q : Party} (hq : q ≠ p) :
    x'.session q = x.session q := by
  rw [hx'.pushed]
  exact Function.update_of_ne hq _ _

theorem count_eq (hx' : Pushes P sharedSecret g x p m x') (e : Nat) : x'.count P g.key e =
    x.count P g.key e + if (P.publicKey (g.key (g.own p))).toVec = (P.publicKey (g.key e)).toVec then 1 else 0 := by
  rw [Exchange.count, Exchange.chainLength_push hx'.sent, hx'.header]
  rfl

theorem count_le (hx' : Pushes P sharedSecret g x p m x') (e : Nat) : x.count P g.key e ≤ x'.count P g.key e := by
  rw [hx'.count_eq]
  exact Nat.le_add_right _ _

theorem count_own (hx' : Pushes P sharedSecret g x p m x') :
    x'.count P g.key (g.own p) = x.count P g.key (g.own p) + 1 := by
  rw [hx'.count_eq, if_pos rfl]

/-- The other epochs have no message more. -/
theorem count_of_ne (hx' : Pushes P sharedSecret g x p m x') (h : Synced P sharedSecret done g x) {e : Nat}
    (he : e ≤ g.top) (hne : e ≠ g.own p) : x'.count P g.key e = x.count P g.key e := by
  rw [hx'.count_eq, if_neg, Nat.add_zero]
  intro heq
  exact hne (h.distinct _ he _ (g.own_le_top p) (PublicKey.toVec_inj.1 heq).symm)

theorem count_lt (hx' : Pushes P sharedSecret g x p m x') : x.count P g.key (g.own p) < 2 ^ 32 := by
  have hlt := hx'.short (P.publicKey (g.key (g.own p))).toVec
  rw [← Exchange.count, hx'.count_own] at hlt
  omega

theorem newSlot (hx' : Pushes P sharedSecret g x p m x') (h : Synced P sharedSecret done g x) :
    x'.IsSlot P sharedSecret g m (g.own p) (x.count P g.key (g.own p)) := by
  refine ⟨Nat.pos_of_ne_zero hx'.own, hx'.sender ▸ le_rfl, hx'.sender ▸ h.parity p,
    hx'.count_own ▸ Nat.lt_succ_self _, ?_, hx'.sealed⟩
  have hpos := Nat.pos_of_ne_zero hx'.own
  rw [hx'.header, epochHeader, epochHeader,
    hx'.count_of_ne h ((Nat.sub_le _ _).trans (g.own_le_top p)) (by omega)]

theorem oldSlot (hx' : Pushes P sharedSecret g x p m x') (h : Synced P sharedSecret done g x) {m' : Message}
    {e n : Nat} (hs : x.IsSlot P sharedSecret g m' e n) : x'.IsSlot P sharedSecret g m' e n := by
  refine IsSlot_mono hs (fun _ _ => rfl) le_rfl (hx'.count_of_ne h ?_ ?_) (hx'.count_le e)
  · exact (Nat.sub_le _ _).trans (hs.le.trans (g.own_le_top _))
  · -- an end is never two epochs past its own sending epoch
    intro heq
    have hown := hx'.own
    have hparity := h.parity p
    have hle := hs.le
    have hsame := Party.parity_inj (hs.parity.symm.trans ((show e % 2 = g.own p % 2 by omega).trans hparity))
    rw [hsame] at hle
    omega

theorem bears (hx' : Pushes P sharedSecret g x p m x') (h : Synced P sharedSecret done g x) {Q : Nat → Prop} {e n : Nat}
    (hb : x'.Bears P Q g e n) : x.Bears P Q g e n ∨
      (Q x.sent.length ∧ e = g.own p ∧ n = x.count P g.key (g.own p)) := by
  obtain ⟨he, hn, i, m', hm', hQ, hname⟩ := hb
  rcases Exchange.getElem?_sent_push hx'.sent hm' with ⟨hm', -⟩ | ⟨rfl, rfl⟩
  · exact .inl ⟨he, hn, i, m', hm', hQ, hname⟩
  · obtain ⟨rfl, rfl⟩ := epochName_inj P h.distinct (g.own_le_top p) he hx'.count_lt hn
      ((name_of_slot (hx'.newSlot h)).symm.trans hname)
    exact .inr ⟨hQ, rfl, rfl⟩

/-- The key of the new message is not spent. -/
theorem bears_done (hx' : Pushes P sharedSecret g x p m x') (h : Synced P sharedSecret done g x) {e n : Nat}
    (hb : x'.Bears P done g e n) : x.Bears P done g e n := by
  rcases hx'.bears h hb with hb | ⟨hd, -⟩
  · exact hb
  · exact absurd hd (h.pending _ le_rfl).2

/-- Nobody has passed the new message. -/
theorem due_of_passed (hx' : Pushes P sharedSecret g x p m x') (h : Synced P sharedSecret done g x) {q : Party}
    {e n : Nat} (hp : Passed (g.own q) (g.received q) e n) (hb : x'.Due P g e n) : x.Due P g e n := by
  rw [Exchange.Due, hx'.result] at hb
  rcases hx'.bears h hb with hb | ⟨-, rfl, rfl⟩
  · exact hb
  · exact absurd hp (h.not_passed_last p q)

theorem seat (hx' : Pushes P sharedSecret g x p m x') (h : Synced P sharedSecret done g x) (q : Party) :
    Seat P sharedSecret g.key (x'.count P g.key) (x'.Due P g) (x'.Bears P done g) (g.own q) (g.received q)
      (x'.session q) := by
  have hzero : (0 : Nat) ≠ g.own p := Ne.symm hx'.own
  by_cases hq : q = p
  · subst hq
    rw [hx'.session_own]
    refine ((h.seat q).send hx'.own).congr (fun _ _ => rfl) (fun e he _ => ?_) (fun e he => ?_)
      (fun e n _ hp => hx'.due_of_passed h hp) (fun e n _ => hx'.bears_done h) ?_
    · by_cases heq : e = g.own q
      · rw [heq, Function.update_self, hx'.count_own]
      · rw [Function.update_of_ne heq, hx'.count_of_ne h (he.trans (g.own_le_top q)) heq]
    · rw [Function.update_of_ne (by omega)]
      exact hx'.count_le e
    · rw [Function.update_of_ne hzero, hx'.count_of_ne h (Nat.zero_le _) hzero]
  · rw [hx'.session_of_ne hq]
    refine (h.seat q).congr (fun _ _ => rfl) (fun e he hpar => ?_) (fun e _ => hx'.count_le e)
      (fun e n _ hp => hx'.due_of_passed h hp) (fun e n _ => hx'.bears_done h)
      (hx'.count_of_ne h (Nat.zero_le _) hzero)
    refine hx'.count_of_ne h (he.trans (g.own_le_top q)) ?_
    rintro rfl
    rw [h.parity, h.parity] at hpar
    exact hq (Party.parity_inj hpar).symm

theorem used (hx' : Pushes P sharedSecret g x p m x') (h : Synced P sharedSecret done g x) {e n : Nat} (he : e ≤ g.top)
    (hn : n < x'.count P g.key e) : ∃ (i : Nat) (m' : Message), x'.sent[i]? = some m' ∧
      m'.name = epochName P g.key e n := by
  by_cases hlast : e = g.own p ∧ n = x.count P g.key (g.own p)
  · obtain ⟨rfl, rfl⟩ := hlast
    exact ⟨x.sent.length, m, by simp [hx'.sent], name_of_slot (hx'.newSlot h)⟩
  · have hold : n < x.count P g.key e := by
      by_cases hep : e = g.own p
      · subst hep
        rw [hx'.count_own] at hn
        omega
      · rwa [hx'.count_of_ne h he hep] at hn
    obtain ⟨i, m', hm', hname⟩ := h.used e he n hold
    refine ⟨i, m', ?_, hname⟩
    rw [hx'.sent, List.getElem?_append_left (List.getElem?_eq_some_iff.1 hm').1]
    exact hm'

/-- No earlier message has the name of the new one. -/
theorem name_ne (hx' : Pushes P sharedSecret g x p m x') (h : Synced P sharedSecret done g x) {i : Nat} {m' : Message}
    (hm' : x.sent[i]? = some m') : m'.name ≠ m.name := by
  intro hname
  obtain ⟨e, n, hs⟩ := h.slot i m' hm'
  rw [name_of_slot hs, name_of_slot (hx'.newSlot h)] at hname
  obtain ⟨rfl, rfl⟩ := epochName_inj P h.distinct (hs.le.trans (g.own_le_top _)) (g.own_le_top p)
    (hs.lt.trans_le ((hx'.count_le _).trans (hx'.short _).le)) hx'.count_lt hname
  exact Nat.lt_irrefl _ hs.lt

theorem unique (hx' : Pushes P sharedSecret g x p m x') (h : Synced P sharedSecret done g x) {i j : Nat}
    {m₁ m₂ : Message} (hm₁ : x'.sent[i]? = some m₁) (hm₂ : x'.sent[j]? = some m₂) (hname : m₁.name = m₂.name) :
    i = j := by
  rcases Exchange.getElem?_sent_push hx'.sent hm₁ with ⟨hm₁, -⟩ | ⟨rfl, rfl⟩ <;>
    rcases Exchange.getElem?_sent_push hx'.sent hm₂ with ⟨hm₂, -⟩ | ⟨rfl, rfl⟩
  · exact h.unique i j m₁ m₂ hm₁ hm₂ hname
  · exact absurd hname (hx'.name_ne h hm₁)
  · exact absurd hname.symm (hx'.name_ne h hm₂)
  · rfl

end Pushes

/-- A message with the next number of its sender's epoch keeps the invariant. -/
theorem push (h : Synced P sharedSecret done g x) {p : Party} {m : Message} {x' : Exchange B}
    (hx' : Pushes P sharedSecret g x p m x') : Synced P sharedSecret done g x' where
  seat := hx'.seat h
  parity := h.parity
  adjacent := h.adjacent
  distinct := h.distinct
  generated := by
    rw [hx'.pushed]
    exact h.generated
  slot := by
    intro i m' hm'
    rcases Exchange.getElem?_sent_push hx'.sent hm' with ⟨hm', -⟩ | ⟨-, rfl⟩
    · obtain ⟨e, n, hs⟩ := h.slot i m' hm'
      exact ⟨e, n, hx'.oldSlot h hs⟩
    · exact ⟨_, _, hx'.newSlot h⟩
  used := fun _ he _ hn => hx'.used h he hn
  unique := fun _ _ _ _ hm₁ hm₂ hname => hx'.unique h hm₁ hm₂ hname
  pending := by
    intro i hi
    rw [hx'.sent, List.length_append] at hi
    rw [hx'.result]
    exact h.pending i (by omega)
  replaced := by
    rw [hx'.pushed]
    exact h.replaced
  setUps := by
    rw [hx'.pushed]
    exact h.setUps

theorem send (h : Synced P sharedSecret done g x) (p : Party) (nonce : Aead.Nonce) (plaintext : Bytes)
    (hshort : (x.send P p nonce plaintext).ShortChains) :
    Synced P sharedSecret done g (x.send P p nonce plaintext) := by
  have hseat := h.seat p
  rcases nextMessageKey_cases P (x.session p) with ⟨-, hn⟩ | ⟨c, hc, hn⟩
  · have hsame : x.send P p nonce plaintext = x := by
      simp only [Exchange.send, encrypt_snd, hn, Function.update_eq_self]
    rw [hsame]
    exact h
  · have hown : g.own p ≠ 0 := by
      intro h0
      rw [hseat.sending, if_pos h0] at hc
      cases hc
    rw [hseat.sending, if_neg hown] at hc
    obtain rfl := Option.some.inj hc
    have hheader : MessageHeader.new (x.session p).dhPublic
        (chainAt P (chainStart P sharedSecret g.key (g.own p)) (x.count P g.key (g.own p))).index
        (x.session p).previousSendingChainLength =
          epochHeader P g.key (x.count P g.key) (g.own p) (x.count P g.key (g.own p)) := by
      rw [hseat.dhPublic, hseat.prevLen]
      rfl
    rw [advanced_chainAt, hheader] at hn
    refine h.push (m := ⟨p, plaintext, epochHeader P g.key (x.count P g.key) (g.own p) (x.count P g.key (g.own p)),
      Exchange.ciphertext ((x.session p).encrypt P nonce plaintext).1⟩) ⟨hown, rfl, rfl, ?_, ?_, hshort⟩
    · intro encrypted he
      cases hok : ((x.session p).encrypt P nonce plaintext).1 with
      | ok r =>
        rw [hok] at he
        obtain rfl := Option.some.inj he
        obtain ⟨key, hkey, henc⟩ := (encrypt_ok P).1 hok
        rw [hn] at hkey
        obtain ⟨hheader', rfl⟩ := Prod.mk.inj (Outcome.ok.inj hkey)
        rw [← hheader'] at henc
        exact ⟨nonce, henc⟩
      | err e =>
        rw [hok] at he
        cases he
      | panic =>
        rw [hok] at he
        cases he
    · simp only [Exchange.send, encrypt_snd, hn]

/-! ## Delivering -/

/-- A new secret is the one of the epoch to come. -/
theorem draw (h : Synced P sharedSecret done g x) {fresh : StaticSecret} (hfresh : P.publicKey fresh ∉ x.generated) :
    Synced P sharedSecret done (g.draw fresh) x ∧ Distinct P (g.draw fresh).key (g.top + 1) ∧
      x.count P (g.draw fresh).key (g.top + 1) = 0 := by
  have hkey : ∀ e ≤ g.top, (g.draw fresh).key e = g.key e := fun e he => Epochs.draw_key_of_ne fresh (by omega)
  have hcount : ∀ e ≤ g.top, x.count P (g.draw fresh).key e = x.count P g.key e :=
    fun e he => by rw [Exchange.count, Exchange.count, hkey e he]
  have hname : ∀ e n, e ≤ g.top → epochName P (g.draw fresh).key e n = epochName P g.key e n :=
    fun e n he => by rw [epochName, epochName, hkey e he]
  have hother : ∀ e ≤ g.top, P.publicKey (g.key e) ≠ P.publicKey fresh :=
    fun e he heq => hfresh (heq ▸ h.generated e he)
  have hbears : ∀ Q e n, x.Bears P Q (g.draw fresh) e n → x.Bears P Q g e n := by
    rintro Q e n ⟨he, hn, i, m, hm, hQ, hmn⟩
    exact ⟨he, hn, i, m, hm, hQ, (hname e n he).symm.trans hmn.symm |>.symm⟩
  refine ⟨⟨fun p => ?_, h.parity, h.adjacent, ?_, ?_, ?_, ?_, h.unique, h.pending, ?_, ?_⟩, ?_, ?_⟩
  · have hle := g.own_le_top p
    exact (h.seat p).congr (fun e he => hkey e (he.trans hle)) (fun e he _ => hcount e (he.trans hle))
      (fun e he => (hcount e (he.le.trans hle)).ge) (fun e n _ _ => hbears _ e n) (fun e n _ => hbears _ e n)
      (hcount 0 (Nat.zero_le _))
  · intro i hi j hj heq
    rw [hkey i hi, hkey j hj] at heq
    exact h.distinct i hi j hj heq
  · intro e he
    rw [hkey e he]
    exact h.generated e he
  · intro i m hm
    obtain ⟨e, n, hs⟩ := h.slot i m hm
    have hle := hs.le.trans (g.own_le_top _)
    exact ⟨e, n, IsSlot_mono hs (fun i hi => hkey i (hi.trans hle)) le_rfl
      (hcount _ ((Nat.sub_le _ _).trans hle)) (hcount e hle).ge⟩
  · intro e he n hn
    rw [hname e n he]
    exact h.used e he n (hcount e he ▸ hn)
  · intro p k
    have hle := g.own_le_top p
    rw [h.replaced]
    constructor
    · rintro ⟨e, he, hpar, rfl⟩
      exact ⟨e, he, hpar, by rw [hkey e (by omega)]⟩
    · rintro ⟨e, he, hpar, rfl⟩
      exact ⟨e, he, hpar, by rw [hkey e (show e ≤ g.top by have : e + 1 < g.own p := he; omega)]⟩
  · rw [h.setUps]
    exact (setUpLog_congr P sharedSecret hkey).symm
  · intro i hi j hj heq
    rcases Nat.lt_or_eq_of_le hi with hi | rfl <;> rcases Nat.lt_or_eq_of_le hj with hj | rfl
    · rw [hkey i (by omega), hkey j (by omega)] at heq
      exact h.distinct i (by omega) j (by omega) heq
    · rw [hkey i (by omega), Epochs.draw_key_next] at heq
      exact absurd heq (hother i (by omega))
    · rw [hkey j (by omega), Epochs.draw_key_next] at heq
      exact absurd heq.symm (hother j (by omega))
    · rfl
  · rw [Exchange.count, Epochs.draw_key_next]
    exact h.chainLength_eq_zero fun e he _ => hother e he

/-- The session at the receiving end of a delivery, in a seat. -/
theorem takeMessageKey (h : Synced P sharedSecret done g x)
    (hcomm : ∀ a b, P.diffieHellman a (P.publicKey b) = P.diffieHellman b (P.publicKey a))
    (hshort : x.ShortChains) {i : Nat} {m : Message} (hm : x.sent[i]? = some m) (hr : x.result i = none)
    (encrypted : Aead.Encrypted) {fresh : StaticSecret} (hfresh : P.publicKey fresh ∉ x.generated) {e n : Nat}
    (hs : x.IsSlot P sharedSecret (g.draw fresh) m e n) :
    ∃ own' received', Seat.Gets P sharedSecret (g.draw fresh).key (x.count P (g.draw fresh).key)
        ((x.receive P i m encrypted fresh).Due P (g.draw fresh)) (x.Bears P done (g.draw fresh)) e n own' received'
        ((x.session m.sender.other).takeMessageKey P fresh m.header) ∧
      (own' = g.own m.sender.other ∨ (e = g.own m.sender.other + 1 ∧ own' = g.own m.sender.other + 2)) := by
  obtain ⟨hdraw, hd, hnew⟩ := h.draw hfresh
  have hle : e ≤ g.own m.sender := hs.le
  have hadj := h.adjacent m.sender
  have htop := g.own_le_top m.sender
  have hdue : ∀ e n, (x.receive P i m encrypted fresh).Due P (g.draw fresh) e n →
      x.Due P (g.draw fresh) e n ∧ m.name ≠ epochName P (g.draw fresh).key e n := by
    rintro e n ⟨he, hn, j, m', hm', hj, hname⟩
    have hij : j ≠ i := by
      rintro rfl
      simp [Exchange.receive] at hj
    refine ⟨⟨he, hn, j, m', hm', ?_, hname⟩, fun hmn => hij (h.unique j i m' m hm' hm (hname.trans hmn.symm))⟩
    simpa [Exchange.receive, hij] using hj
  have hseat : Seat P sharedSecret (g.draw fresh).key (x.count P (g.draw fresh).key)
      ((x.receive P i m encrypted fresh).Due P (g.draw fresh)) (x.Bears P done (g.draw fresh))
      (g.own m.sender.other) (g.received m.sender.other) (x.session m.sender.other) :=
    (hdraw.seat m.sender.other).congr (fun _ _ => rfl) (fun _ _ _ => rfl) (fun _ _ => le_rfl)
      (fun e n _ _ hb => (hdue e n hb).1) (fun _ _ _ hb => hb) rfl
  have hnum := hdraw.numbered hshort
  have hnum' : Numbered (x.count P (g.draw fresh).key) ((x.receive P i m encrypted fresh).Due P (g.draw fresh))
      (x.Bears P done (g.draw fresh)) := ⟨hnum.small, fun e n hb => hnum.due e n (hdue e n hb).1, hnum.done⟩
  have hpar : e % 2 ≠ g.own m.sender.other % 2 := (hdraw.sender_iff hs).1 (Party.other_other _).symm
  have hname := name_of_slot hs
  rw [hs.header]
  refine hseat.takeMessageKey hd ((g.own_le_top _).trans (Nat.le_succ _)) hnum' hcomm hdraw.count_zero hpar
    (hle.trans hadj) (hle.trans (htop.trans (Nat.le_succ _))) hs.lt (fun hb => (hdue e n hb).2 hname) (fun hp => ?_)
    fresh (fun he => ?_)
  · exact (hdraw.seat m.sender.other).complete e n hpar
      ⟨hle.trans htop, hs.lt.trans (hnum.small e), i, m, hm, hr, hname⟩ hp
  · -- the sender is an epoch ahead, in the latest one
    have hmax := h.top_le_own m.sender.other
    rw [show g.own m.sender.other + 2 = g.top + 1 by omega]
    exact ⟨le_rfl, Epochs.draw_key_next g fresh, hnew⟩

variable (P sharedSecret done g x) in
/-- The delivery of message `i`, with `fresh` drawn, leaves its receiver in epoch `own`. -/
structure Receives (i : Nat) (m : Message) (encrypted : Aead.Encrypted) (fresh : StaticSecret) (own received : Nat) :
    Prop where
  sent : x.sent[i]? = some m
  new : P.publicKey fresh ∉ x.generated
  reaches : g.Reaches m.sender.other own
  seat : Seat P sharedSecret (g.draw fresh).key (x.count P (g.draw fresh).key)
    ((x.receive P i m encrypted fresh).Due P (g.draw fresh)) (x.Bears P done (g.draw fresh)) own received
    ((x.session m.sender.other).takeMessageKey P fresh m.header).2

namespace Receives

variable {i : Nat} {m : Message} {encrypted : Aead.Encrypted} {fresh : StaticSecret} {own received : Nat}

/-- The call ratchets exactly when it goes on two epochs. -/
theorem ratchetedTo (hr : Receives P sharedSecret done g x i m encrypted fresh own received)
    (h : Synced P sharedSecret done g x) :
    (own = g.own m.sender.other ∧ Exchange.ratchetedTo (x.session m.sender.other)
        ((x.session m.sender.other).takeMessageKey P fresh m.header).2 = none) ∨
      (own = g.own m.sender.other + 2 ∧ Exchange.ratchetedTo (x.session m.sender.other)
        ((x.session m.sender.other).takeMessageKey P fresh m.header).2 =
          some (P.publicKey ((g.draw fresh).key (g.own m.sender.other + 1)))) := by
  obtain ⟨hdraw, hd, -⟩ := h.draw hr.new
  exact ratchetedTo_of_seat (hdraw.seat _) hr.seat hd (Nat.lt_succ_of_le (g.own_le_top _))
    (hr.reaches.imp_right And.right)

/-- The new epoch has no messages yet. -/
theorem bears (hr : Receives P sharedSecret done g x i m encrypted fresh own received)
    (h : Synced P sharedSecret done g x) {Q : Nat → Prop} {f k : Nat}
    (hb : x.Bears P Q (g.goOn fresh m.sender.other own received) f k) : x.Bears P Q (g.draw fresh) f k := by
  obtain ⟨hdraw, hd, -⟩ := h.draw hr.new
  obtain ⟨hf, hk, j, m', hm', hQ, hname⟩ := hb
  obtain ⟨f', k', hs'⟩ := hdraw.slot j m' hm'
  have hf' : f' ≤ g.top := hs'.le.trans (g.own_le_top _)
  have heq := hd f' (by omega) f (hf.trans (Epochs.goOn_top_le fresh received hr.reaches))
    (PublicKey.toVec_inj.1 (Prod.mk.inj ((name_of_slot hs').symm.trans hname)).1)
  exact ⟨heq ▸ hf', hk, j, m', hm', hQ, hname⟩

theorem slot (hr : Receives P sharedSecret done g x i m encrypted fresh own received) {m' : Message} {e n : Nat}
    (hs : x.IsSlot P sharedSecret (g.draw fresh) m' e n) : (x.receive P i m encrypted fresh).IsSlot P sharedSecret
      (g.goOn fresh m.sender.other own received) m' e n :=
  IsSlot_mono hs (fun _ _ => rfl) (Epochs.own_le_goOn fresh received hr.reaches _) rfl le_rfl

theorem session (hr : Receives P sharedSecret done g x i m encrypted fresh own received)
    (h : Synced P sharedSecret done g x) (q : Party) :
    Seat P sharedSecret (g.goOn fresh m.sender.other own received).key
      ((x.receive P i m encrypted fresh).count P (g.goOn fresh m.sender.other own received).key)
      ((x.receive P i m encrypted fresh).Due P (g.goOn fresh m.sender.other own received))
      ((x.receive P i m encrypted fresh).Bears P done (g.goOn fresh m.sender.other own received))
      ((g.goOn fresh m.sender.other own received).own q) ((g.goOn fresh m.sender.other own received).received q)
      ((x.receive P i m encrypted fresh).session q) := by
  obtain ⟨hdraw, -, -⟩ := h.draw hr.new
  rw [Exchange.receive_session]
  by_cases hq : q = m.sender.other
  · rw [hq, Function.update_self, Epochs.goOn_own, Epochs.goOn_received]
    exact hr.seat.congr (fun _ _ => rfl) (fun _ _ _ => rfl) (fun _ _ => le_rfl) (fun _ _ _ _ hb => hr.bears h hb)
      (fun _ _ _ hb => hr.bears h hb) rfl
  · rw [Function.update_of_ne hq, Epochs.goOn_own_of_ne _ _ hq, Epochs.goOn_received_of_ne _ _ hq]
    refine (hdraw.seat q).congr (fun _ _ => rfl) (fun _ _ _ => rfl) (fun _ _ => le_rfl) ?_
      (fun _ _ _ hb => hr.bears h hb) rfl
    intro f k _ _ hb
    obtain ⟨hf, hk, j, m', hm', hj, hname⟩ := hr.bears h hb
    refine ⟨hf, hk, j, m', hm', ?_, hname⟩
    simp only [Exchange.receive, Function.update_apply] at hj
    split at hj
    · cases hj
    · exact hj

theorem replaced (hr : Receives P sharedSecret done g x i m encrypted fresh own received)
    (h : Synced P sharedSecret done g x) (q : Party) (k : PublicKey) :
    k ∈ (x.receive P i m encrypted fresh).replaced q ↔
      ∃ e, e + 1 < (g.goOn fresh m.sender.other own received).own q ∧
        e % 2 ≠ (g.goOn fresh m.sender.other own received).own q % 2 ∧
        k = P.publicKey ((g.goOn fresh m.sender.other own received).key e) := by
  obtain ⟨hdraw, -, -⟩ := h.draw hr.new
  rcases hr.ratchetedTo h with ⟨rfl, hnone⟩ | ⟨rfl, hsome⟩
  · rw [(Exchange.receive_of_none P hnone i encrypted).1]
    by_cases hq : q = m.sender.other
    · rw [hq, Epochs.goOn_own]
      exact hdraw.replaced _ k
    · rw [Epochs.goOn_own_of_ne _ _ hq]
      exact hdraw.replaced q k
  · rw [(Exchange.receive_of_some P hsome i encrypted).1]
    by_cases hq : q = m.sender.other
    · rw [hq, Epochs.goOn_own, Function.update_self]
      exact mem_replaced_next (hdraw.seat _).remote (hdraw.replaced _) k
    · rw [Epochs.goOn_own_of_ne _ _ hq, Function.update_of_ne hq]
      exact hdraw.replaced q k

theorem setUps (hr : Receives P sharedSecret done g x i m encrypted fresh own received)
    (h : Synced P sharedSecret done g x)
    (hcomm : ∀ a b, P.diffieHellman a (P.publicKey b) = P.diffieHellman b (P.publicKey a)) :
    (x.receive P i m encrypted fresh).setUps = setUpLog P sharedSecret (g.goOn fresh m.sender.other own received).key
      (g.goOn fresh m.sender.other own received).top := by
  obtain ⟨hdraw, -, -⟩ := h.draw hr.new
  rcases hr.ratchetedTo h with ⟨rfl, hnone⟩ | ⟨rfl, hsome⟩
  · rw [(Exchange.receive_of_none P hnone i encrypted).2, hdraw.setUps]
    exact congrArg (setUpLog P sharedSecret _) (congrArg (fun own => max (own Party.alice) (own Party.bob))
      (Function.update_eq_self m.sender.other g.own).symm)
  · -- the sender was in the latest epoch, and the receiver is in the one after it
    have hahead : g.own m.sender.other.other = g.own m.sender.other + 1 := hr.reaches.ahead (by omega)
    have htop : g.top = g.own m.sender.other + 1 :=
      le_antisymm (h.top_le_own _) (hahead ▸ g.own_le_top m.sender.other.other)
    have htop' : (g.goOn fresh m.sender.other (g.own m.sender.other + 2) received).top = g.own m.sender.other + 2 := by
      refine le_antisymm ((Epochs.goOn_top_le fresh received hr.reaches).trans (by omega)) ?_
      have hle := (g.goOn fresh m.sender.other (g.own m.sender.other + 2) received).own_le_top m.sender.other
      rwa [Epochs.goOn_own] at hle
    have hfresh : (g.draw fresh).key (g.own m.sender.other + 2) = fresh := by
      have := Epochs.draw_key_next g fresh
      rwa [htop] at this
    have hchains := (hdraw.seat m.sender.other).ratcheted_eq hcomm
    rw [show (g.draw fresh).own m.sender.other = g.own m.sender.other from rfl, hfresh] at hchains
    rw [(Exchange.receive_of_some P hsome i encrypted).2, hdraw.setUps, htop',
      show (g.draw fresh).top = g.own m.sender.other + 1 from htop, setUpLog, Exchange.setUp, dhRatchet_eq,
      hchains.2.1, hchains.2.2, epochParty_of_parity (p := m.sender.other)]
    · rfl
    · rw [← h.parity]
      omega

theorem synced (hr : Receives P sharedSecret done g x i m encrypted fresh own received)
    (h : Synced P sharedSecret done g x)
    (hcomm : ∀ a b, P.diffieHellman a (P.publicKey b) = P.diffieHellman b (P.publicKey a)) :
    Synced P sharedSecret done (g.goOn fresh m.sender.other own received) (x.receive P i m encrypted fresh) := by
  obtain ⟨hdraw, hd, hnew⟩ := h.draw hr.new
  have htop := Epochs.goOn_top_le fresh received hr.reaches
  refine ⟨hr.session h, fun q => ?_, fun q => ?_, hd.mono P htop, fun f hf => ?_, fun j m' hm' => ?_,
    fun f hf k hk => ?_, h.unique, fun j hj => ?_, hr.replaced h, hr.setUps h hcomm⟩
  · rw [hr.reaches.parity fresh received, h.parity]
  · exact hr.reaches.adjacent fresh received h.adjacent q
  · rcases Nat.lt_or_eq_of_le (hf.trans htop) with hf | rfl
    · rw [show (g.goOn fresh m.sender.other own received).key f = g.key f from Epochs.draw_key_of_ne fresh (by omega)]
      exact List.mem_cons_of_mem _ (h.generated f (by omega))
    · rw [show (g.goOn fresh m.sender.other own received).key (g.top + 1) = fresh from Epochs.draw_key_next g fresh]
      exact List.mem_cons_self ..
  · obtain ⟨f, k, hs⟩ := hdraw.slot j m' hm'
    exact ⟨f, k, hr.slot hs⟩
  · rcases Nat.lt_or_eq_of_le (hf.trans htop) with hf | rfl
    · exact hdraw.used f (Nat.le_of_lt_succ hf) k hk
    · exact absurd hk (hnew ▸ Nat.not_lt_zero k)
  · obtain ⟨hres, hdone⟩ := h.pending j hj
    have hij : j ≠ i := by
      rintro rfl
      exact absurd (List.getElem?_eq_some_iff.1 hr.sent).1 (Nat.not_lt.2 hj)
    refine ⟨?_, hdone⟩
    simp only [Exchange.receive, Function.update_of_ne hij, hres]

end Receives

/-- A delivery keeps the invariant, however it ends. -/
theorem receive (h : Synced P sharedSecret done g x)
    (hcomm : ∀ a b, P.diffieHellman a (P.publicKey b) = P.diffieHellman b (P.publicKey a))
    (hshort : x.ShortChains) {i : Nat} {m : Message} (hm : x.sent[i]? = some m) (hr : x.result i = none)
    (encrypted : Aead.Encrypted) {fresh : StaticSecret} (hfresh : P.publicKey fresh ∉ x.generated) :
    ∃ g' e n, Synced P sharedSecret done g' (x.receive P i m encrypted fresh) ∧ g.Before g' ∧
      (x.receive P i m encrypted fresh).IsSlot P sharedSecret g' m e n ∧
      (((x.receive P i m encrypted fresh).session m.sender.other).skippedKeys.lookup (epochName P g'.key e n) = none) ∧
      ((((x.session m.sender.other).takeMessageKey P fresh m.header).1 = .ok (epochKey P sharedSecret g'.key e n) ∧
          Passed (g'.own m.sender.other) (g'.received m.sender.other) e n) ∨
        (((x.session m.sender.other).takeMessageKey P fresh m.header).1 = .err tooMany ∧
          maxSkip < ((x.receive P i m encrypted fresh).session m.sender.other).skippedKeys.keys.card)) := by
  obtain ⟨hdraw, -, -⟩ := h.draw hfresh
  obtain ⟨e, n, hs⟩ := hdraw.slot i m hm
  obtain ⟨own, received, hgets, hown⟩ := h.takeMessageKey hcomm hshort hm hr encrypted hfresh hs
  have hreaches : g.Reaches m.sender.other own := by
    refine hown.imp_right fun ⟨he, hnext⟩ => ⟨?_, hnext⟩
    have hle : e ≤ g.own m.sender := hs.le
    have hadj := h.adjacent m.sender
    rw [Party.other_other]
    omega
  have hreceives : Receives P sharedSecret done g x i m encrypted fresh own received :=
    ⟨hm, hfresh, hreaches, hgets.seat⟩
  refine ⟨g.goOn fresh m.sender.other own received, e, n, hreceives.synced h hcomm, hreaches.before fresh received,
    hreceives.slot hs, ?_⟩
  rw [Exchange.receive_session, Function.update_self, Epochs.goOn_own, Epochs.goOn_received]
  exact ⟨hgets.gone, hgets.result⟩

/-- The key of a message that has been passed and is not stored is spent. -/
theorem finish (h : Synced P sharedSecret done g x) (hshort : x.ShortChains) {i : Nat} {m : Message} {e n : Nat}
    (hm : x.sent[i]? = some m) (hs : x.IsSlot P sharedSecret g m e n)
    (hgone : (x.session m.sender.other).skippedKeys.lookup (epochName P g.key e n) = none)
    (hp : Passed (g.own m.sender.other) (g.received m.sender.other) e n) :
    Synced P sharedSecret (fun j => done j ∨ j = i) g x := by
  refine { h with seat := fun q => { h.seat q with spent := ?_ }, pending := fun j hj => ?_ }
  · rintro f k hpar ⟨hf, hk, j, m', hm', hj, hname⟩
    rcases hj with hj | rfl
    · exact (h.seat q).spent f k hpar ⟨hf, hk, j, m', hm', hj, hname⟩
    · obtain rfl := Option.some.inj (hm.symm.trans hm')
      obtain ⟨rfl, rfl⟩ := epochName_inj P h.distinct (hs.le.trans (g.own_le_top _)) hf (hs.lt.trans (hshort _)) hk
        ((name_of_slot hs).symm.trans hname)
      obtain rfl : q = m.sender.other := by rw [(h.sender_iff hs).2 hpar, Party.other_other]
      exact ⟨hp, hgone⟩
  · obtain ⟨hres, hdone⟩ := h.pending j hj
    have hi := (List.getElem?_eq_some_iff.1 hm).1
    exact ⟨hres, by rintro (hd | rfl); exacts [hdone hd, absurd hi (Nat.not_lt.2 hj)]⟩

/-! ## Runs -/

section

variable {fresh : StaticSecret} {ourSpk : Identity.SignedPreKey}

theorem count_start (hstart : x.Start P sharedSecret fresh ourSpk) (key : Nat → StaticSecret) (e : Nat) :
    x.count P key e = 0 := by
  simp [Exchange.count, Exchange.chainLength, hstart.sent]

theorem not_bears_start (hstart : x.Start P sharedSecret fresh ourSpk) {Q : Nat → Prop} {g : Epochs} {e n : Nat} :
    ¬ x.Bears P Q g e n := by
  rintro ⟨-, -, i, m, hm, -⟩
  simp [hstart.sent] at hm

/-- The initiator has derived a sending chain from its first key and the signed pre-key. -/
theorem seat_alice (hstart : x.Start P sharedSecret fresh ourSpk) :
    Seat P sharedSecret (Epochs.first fresh ourSpk).key (x.count P (Epochs.first fresh ourSpk).key)
      (x.Due P (Epochs.first fresh ourSpk)) (x.Bears P done (Epochs.first fresh ourSpk)) 1 0 (x.session .alice) := by
  have halice := hstart.alice
  have hspk := hstart.matching
  rw [initAlice_eq] at halice
  rw [← Outcome.ok.inj halice]
  constructor
  · simp [Epochs.first, rootAt, pathAt, hspk]
  · rfl
  · rfl
  · simp [Epochs.first, hspk]
  · simp [Epochs.first, chainAt, chainStart, pathAt, hspk, count_start hstart, chainKeyAt]
  · rfl
  · exact Nat.zero_le _
  · rw [count_start hstart]
    rfl
  · rintro y mk ⟨⟩
  · exact fun _ _ _ hb => absurd hb (not_bears_start hstart)
  · exact fun _ _ _ hb => absurd hb (not_bears_start hstart)

/-- The responder has the signed pre-key, and no chain. -/
theorem seat_bob (hstart : x.Start P sharedSecret fresh ourSpk) :
    Seat P sharedSecret (Epochs.first fresh ourSpk).key (x.count P (Epochs.first fresh ourSpk).key)
      (x.Due P (Epochs.first fresh ourSpk)) (x.Bears P done (Epochs.first fresh ourSpk)) 0 0 (x.session .bob) := by
  rw [hstart.bob]
  constructor
  · rfl
  · rfl
  · exact hstart.matching
  · rfl
  · rfl
  · rfl
  · exact Nat.zero_le _
  · rw [count_start hstart]
    rfl
  · rintro y mk ⟨⟩
  · exact fun _ _ _ hb => absurd hb (not_bears_start hstart)
  · exact fun _ _ _ hb => absurd hb (not_bears_start hstart)

theorem distinct_start (hstart : x.Start P sharedSecret fresh ourSpk) :
    Distinct P (Epochs.first fresh ourSpk).key 1 := by
  have hne := hstart.distinct
  rw [hstart.matching] at hne
  intro i hi j hj heq
  obtain rfl | rfl : i = 0 ∨ i = 1 := by omega
  all_goals obtain rfl | rfl : j = 0 ∨ j = 1 := by omega
  · rfl
  · exact absurd heq.symm hne
  · exact absurd heq hne
  · rfl

/-- A conversation starts in epochs 0 and 1. -/
theorem start (hstart : x.Start P sharedSecret fresh ourSpk) (hdone : ∀ i, ¬ done i) :
    Synced P sharedSecret done (Epochs.first fresh ourSpk) x where
  seat := by
    rintro ⟨⟩
    · exact seat_alice hstart
    · exact seat_bob hstart
  parity := by rintro ⟨⟩ <;> rfl
  adjacent := by rintro ⟨⟩ <;> simp [Epochs.first, Party.other]
  distinct := distinct_start hstart
  generated := by
    intro e he
    rw [hstart.generated, hstart.matching]
    obtain rfl | rfl : e = 0 ∨ e = 1 := by
      change e ≤ 1 at he
      omega
    all_goals simp [Epochs.first]
  slot := by
    intro i m hm
    simp [hstart.sent] at hm
  used := by
    intro e _ n hn
    rw [count_start hstart] at hn
    exact absurd hn (Nat.not_lt_zero n)
  unique := by
    intro i j m m' hm
    simp [hstart.sent] at hm
  pending := fun i _ => ⟨hstart.result i, hdone i⟩
  replaced := by
    intro p k
    rw [hstart.replaced]
    constructor
    · rintro ⟨⟩
    · rintro ⟨e, he, -⟩
      cases p <;> simp [Epochs.first] at he
  setUps := hstart.setUps

end

theorem shortChains_of_step {move : Move} (hshort : (x.step P move).ShortChains) : x.ShortChains := by
  intro dhBytes
  refine lt_of_le_of_lt ?_ (hshort dhBytes)
  rcases x.step_cases P move with ⟨p, nonce, plaintext, rfl⟩ | ⟨i, fresh, m, encrypted, -, -, -, -, hstep⟩ | hstep
  · simp only [Exchange.step, Exchange.send]
    split
    · simp only [Exchange.chainLength, List.countP_append]
      exact Nat.le_add_right _ _
    · exact le_rfl
  · rw [hstep]
    exact le_rfl
  · rw [hstep]

/-- Every step of an honest conversation keeps the invariant. -/
theorem step (h : Synced P sharedSecret done g x)
    (hcomm : ∀ a b, P.diffieHellman a (P.publicKey b) = P.diffieHellman b (P.publicKey a)) {move : Move}
    (hshort : (x.step P move).ShortChains) (hfresh : x.FreshKey P move) :
    ∃ g', Synced P sharedSecret done g' (x.step P move) ∧ g.Before g' := by
  have hshort' := shortChains_of_step hshort
  rcases x.step_cases P move with ⟨p, nonce, plaintext, rfl⟩ | ⟨i, fresh, m, encrypted, rfl, hm, hr, -, hstep⟩ | hstep
  · exact ⟨g, h.send p nonce plaintext hshort, .refl g⟩
  · obtain ⟨g', -, -, hsync, hbefore, -⟩ := h.receive hcomm hshort' hm hr encrypted hfresh
    rw [hstep]
    exact ⟨g', hsync, hbefore⟩
  · rw [hstep]
    exact ⟨g, h, .refl g⟩

/-- A run continues the epochs it starts in. -/
theorem exec (h : Synced P sharedSecret done g x)
    (hcomm : ∀ a b, P.diffieHellman a (P.publicKey b) = P.diffieHellman b (P.publicKey a)) {moves : List Move}
    (hfresh : Run.Along (Exchange.step P) (Exchange.FreshKey P) x moves)
    (hshort : Run.Throughout (Exchange.step P) Exchange.ShortChains x moves) :
    ∃ g', Synced P sharedSecret done g' (Run.exec (Exchange.step P) x moves) ∧ g.Before g' := by
  refine Run.exec_invariant (I := fun x => ∃ g', Synced P sharedSecret done g' x ∧ g.Before g') ?_ ⟨g, h, .refl g⟩
    (hfresh.and hshort.along)
  rintro x move ⟨g', hsync, hbefore⟩ ⟨hf, hs⟩
  obtain ⟨g'', hsync', hbefore'⟩ := hsync.step hcomm hs hf
  exact ⟨g'', hsync', hbefore.trans hbefore'⟩

end Synced

end GhostCrypt.Ratchet
