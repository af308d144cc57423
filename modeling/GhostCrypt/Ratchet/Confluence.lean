/-
The order of deliveries. What one end holds after some messages of an honest conversation is decided
by the set of them: it has come to the furthest place behind one of them, and a key is stored for
each message behind that place that was not delivered. A chain that comes to `2^32` messages breaks this.
-/
import GhostCrypt.Ratchet.Delivery
import GhostCrypt.Ratchet.Healing

namespace GhostCrypt.Ratchet

open Session

variable {B : Type} [ByteString B] {P : Primitives B} {sharedSecret : B}

/-! ## A seat decides its session -/

namespace Seat

variable {key : Nat → StaticSecret} {count : Nat → Nat} {due done : Nat → Nat → Prop} {own received top : Nat}
  {s s' : Session B}

/-- Where every message passed is due or done, two sessions in one seat store the same keys. -/
theorem lookup_of_seat (h : Seat P sharedSecret key count due done own received s)
    (h' : Seat P sharedSecret key count due done own received s')
    (htotal : ∀ e n, n < count e → due e n ∨ done e n) {y : Bytes × UInt32} {mk : B}
    (hy : s.skippedKeys.lookup y = some mk) : s'.skippedKeys.lookup y = some mk := by
  obtain ⟨e, n, hpar, hp, hn, rfl, rfl⟩ := h.stored y mk hy
  rcases htotal e n hn with hdue | hdone
  · exact h'.complete e n hpar hdue hp
  · have hnone := (h.spent e n hpar hdone).2
    rw [hy] at hnone
    cases hnone

/-- They are equal in every field. -/
theorem unique (h : Seat P sharedSecret key count due done own received s)
    (h' : Seat P sharedSecret key count due done own received s')
    (htotal : ∀ e n, n < count e → due e n ∨ done e n) : s = s' := by
  have hskipped : s.skippedKeys = s'.skippedKeys := by
    apply Finmap.ext_lookup
    intro y
    cases hy : s.skippedKeys.lookup y with
    | some mk => exact (h.lookup_of_seat h' htotal hy).symm
    | none =>
      cases hy' : s'.skippedKeys.lookup y with
      | none => rfl
      | some mk =>
        rw [h'.lookup_of_seat h htotal hy'] at hy
        cases hy
  have hroot := h.root.trans h'.root.symm
  have hsecret := h.dhSecret.trans h'.dhSecret.symm
  have hpublic := h.dhPublic.trans h'.dhPublic.symm
  have hremote := h.remote.trans h'.remote.symm
  have hsending := h.sending.trans h'.sending.symm
  have hreceiving := h.receiving.trans h'.receiving.symm
  have hprev := h.prevLen.trans h'.prevLen.symm
  cases s
  cases s'
  simp only [Session.mk.injEq]
  exact ⟨hroot, hsecret, hpublic, hremote, hsending, hreceiving, hprev, hskipped⟩

variable (P key) in
/-- Message `n` of epoch `e` has been passed, and its key is not stored. -/
def Gone (own received : Nat) (s : Session B) (e n : Nat) : Prop :=
  Passed own received e n ∧ s.skippedKeys.lookup (epochName P key e n) = none

/-- Every message made is either gone, or still due. -/
theorem settle (h : Seat P sharedSecret key count due done own received s) (hd : Distinct P key top) (htop : own ≤ top)
    (hsmall : ∀ e, count e < 2 ^ 32) :
    Seat P sharedSecret key count (fun e n => n < count e ∧ ¬ Gone P key own received s e n)
      (fun e n => n < count e ∧ Gone P key own received s e n) own received s := by
  refine { h with complete := ?_, spent := fun e n _ hdone => hdone.2 }
  intro e n _ ⟨hn, hnot⟩ hp
  cases hl : s.skippedKeys.lookup (epochName P key e n) with
  | none => exact absurd ⟨hp, hl⟩ hnot
  | some mk =>
    obtain ⟨e', n', -, hp', hn', hname, rfl⟩ := h.stored _ mk hl
    obtain ⟨rfl, rfl⟩ := epochName_inj P hd ((passed_lt hp).le.trans htop) ((passed_lt hp').le.trans htop)
      (hn.trans (hsmall e)) (hn'.trans (hsmall e')) hname
    rfl

end Seat

/-! ## Deliveries to a seat -/

/-- The messages still due after those of `taken`. -/
def dueAfter (due : Nat → Nat → Prop) (taken : List (Nat × Nat)) (e n : Nat) : Prop := due e n ∧ (e, n) ∉ taken

/-- The messages done after those of `taken`. -/
def doneAfter (done : Nat → Nat → Prop) (taken : List (Nat × Nat)) (e n : Nat) : Prop := done e n ∨ (e, n) ∈ taken

/-- The furthest place behind a message of `taken`, or the one before if it is further. -/
def placeAfter (start : Nat ×ₗ Nat) (taken : List (Nat × Nat)) : Nat ×ₗ Nat :=
  taken.foldl (fun furthest m => max furthest (place (m.1 + 1) (m.2 + 1))) start

theorem placeAfter_perm (start : Nat ×ₗ Nat) {taken taken' : List (Nat × Nat)} (h : taken.Perm taken') :
    placeAfter start taken = placeAfter start taken' := by
  refine h.foldl_eq' (fun m _ m' _ furthest => ?_) start
  exact max_right_comm furthest (place (m.1 + 1) (m.2 + 1)) (place (m'.1 + 1) (m'.2 + 1))

/-- What the network may deliver to an end in epoch `own`: the chains and keys of the conversation, which
no `encrypt` changes, and the secret `fresh` drawn for the next epoch of that end. -/
structure Inbox (P : Primitives B) (key : Nat → StaticSecret) (count : Nat → Nat) (fresh : StaticSecret)
    (own top : Nat) : Prop where
  distinct : Distinct P key top
  small : ∀ e, count e < 2 ^ 32
  zero : count 0 = 0
  next : own + 1 < top → key (own + 2) = fresh ∧ count (own + 2) = 0

/-- Message `n` of epoch `e` is for an end in epoch `own`. -/
structure For (count : Nat → Nat) (own top e n : Nat) : Prop where
  parity : e % 2 ≠ own % 2
  le : e ≤ own + 1
  next : e = own + 1 → own + 1 < top
  leTop : e ≤ top
  lt : n < count e

variable (P sharedSecret) in
/-- The session of an end that was in epoch `first`, after the messages `taken` were delivered to it. -/
structure After (key : Nat → StaticSecret) (count : Nat → Nat) (due done : Nat → Nat → Prop) (start : Nat ×ₗ Nat)
    (first top : Nat) (taken : List (Nat × Nat)) (own received : Nat) (s : Session B) : Prop where
  seat : Seat P sharedSecret key count (dueAfter due taken) (doneAfter done taken) own received s
  place : place own received = placeAfter start taken
  ge : first ≤ own
  parity : own % 2 = first % 2
  le : own ≤ top
  counted : ∀ e n, (e, n) ∈ taken → n < count e

namespace After

variable {key : Nat → StaticSecret} {count : Nat → Nat} {due done : Nat → Nat → Prop} {start : Nat ×ₗ Nat}
  {first top own received own' received' : Nat} {taken taken' : List (Nat × Nat)} {fresh : StaticSecret}
  {s s' : Session B}

/-- A delivery that does not stop at the skip limit. -/
theorem take (h : After P sharedSecret key count due done start first top taken own received s)
    (hinbox : Inbox P key count fresh first top) (hnum : Numbered count due done)
    (hcomm : ∀ a b, P.diffieHellman a (P.publicKey b) = P.diffieHellman b (P.publicKey a)) {e n : Nat}
    (hfor : For count first top e n) (hdue : due e n) (hnew : (e, n) ∉ taken)
    (hlimit : (s.takeMessageKey P fresh (epochHeader P key count e n)).1 ≠ .err tooMany) :
    (s.takeMessageKey P fresh (epochHeader P key count e n)).1 = .ok (epochKey P sharedSecret key e n) ∧
      ∃ own' received', After P sharedSecret key count due done start first top (taken ++ [(e, n)]) own' received'
        (s.takeMessageKey P fresh (epochHeader P key count e n)).2 := by
  have hpar : e % 2 ≠ own % 2 := h.parity ▸ hfor.parity
  have hge := h.ge
  have hle := hfor.le
  have hseat : Seat P sharedSecret key count (dueAfter due (taken ++ [(e, n)])) (doneAfter done taken) own received s :=
    h.seat.congr (fun _ _ => rfl) (fun _ _ _ => rfl) (fun _ _ => le_rfl)
      (fun _ _ _ _ hd => ⟨hd.1, fun hm => hd.2 (List.mem_append_left _ hm)⟩) (fun _ _ _ hd => hd) rfl
  have hnumbered : Numbered count (dueAfter due (taken ++ [(e, n)])) (doneAfter done taken) :=
    ⟨hnum.small, fun e n hd => hnum.due e n hd.1, fun e n hd => hd.elim (hnum.done e n) (h.counted e n)⟩
  -- only an end that is still in its first epoch gets a message of the next
  have hnext : e = own + 1 → own + 2 ≤ top ∧ key (own + 2) = fresh ∧ count (own + 2) = 0 := by
    intro he
    obtain rfl : own = first := by omega
    exact ⟨hfor.next he, hinbox.next (hfor.next he)⟩
  obtain ⟨own', received', hgets, hown, hplace⟩ := hseat.takeMessageKey_place hinbox.distinct h.le hnumbered hcomm
    hinbox.zero hpar (by omega) hfor.leTop hfor.lt
    (fun hd => hd.2 (List.mem_append_right _ (List.mem_singleton_self _)))
    (h.seat.complete e n hpar ⟨hdue, hnew⟩) fresh hnext
  obtain ⟨hok, hp⟩ := hgets.result.resolve_right fun hres => hlimit hres.1
  refine ⟨hok, own', received', { hgets.seat with spent := ?_ }, ?_, ?_, ?_, ?_, ?_⟩
  · intro f k hparf hdone
    rcases hdone with hdone | hmem
    · exact hgets.seat.spent f k hparf (.inl hdone)
    · rcases List.mem_append.1 hmem with hmem | hmem
      · exact hgets.seat.spent f k hparf (.inr hmem)
      · obtain ⟨rfl, rfl⟩ := Prod.mk.inj (List.mem_singleton.1 hmem)
        exact ⟨hp, hgets.gone⟩
  · rw [hplace hlimit, h.place, placeAfter, placeAfter, List.foldl_append]
    rfl
  · omega
  · have := h.parity
    omega
  · have := h.le
    rcases hown with rfl | ⟨he, rfl⟩
    · exact this
    · exact (hnext he).1
  · intro f k hmem
    rcases List.mem_append.1 hmem with hmem | hmem
    · exact h.counted f k hmem
    · obtain ⟨rfl, rfl⟩ := Prod.mk.inj (List.mem_singleton.1 hmem)
      exact hfor.lt

/-- The set of the messages delivered decides the session. -/
theorem unique (h : After P sharedSecret key count due done start first top taken own received s)
    (h' : After P sharedSecret key count due done start first top taken' own' received' s') (hperm : taken.Perm taken')
    (htotal : ∀ e n, n < count e → due e n ∨ done e n) : s = s' := by
  have hplace := h.place.trans ((placeAfter_perm start hperm).trans h'.place.symm)
  obtain ⟨rfl, rfl⟩ := Prod.mk.inj (toLex.injective hplace)
  have hdue : dueAfter due taken = dueAfter due taken' := by
    funext e n
    rw [dueAfter, dueAfter, hperm.mem_iff]
  have hdone : doneAfter done taken = doneAfter done taken' := by
    funext e n
    rw [doneAfter, doneAfter, hperm.mem_iff]
  refine h.seat.unique (hdue ▸ hdone ▸ h'.seat) fun e n hn => ?_
  by_cases hmem : (e, n) ∈ taken
  · exact .inr (.inr hmem)
  · exact (htotal e n hn).imp (fun hd => ⟨hd, hmem⟩) .inl

end After

/-! ## Deliveries in a conversation -/

namespace Exchange

/-- Message `i` is for `p` and was not delivered. -/
def Pending (x : Exchange B) (p : Party) (i : Nat) : Prop :=
  x.result i = none ∧ ∃ m encrypted, x.sent[i]? = some m ∧ m.sender = p.other ∧ m.encrypted = some encrypted

variable (P) in
/-- Messages are delivered in this order; `fresh` is drawn if one of them leads to a DH ratchet. -/
def deliverAll (x : Exchange B) (fresh : StaticSecret) (order : List Nat) : Exchange B :=
  Run.exec (step P) x (order.map fun i => .deliver i fresh)

/-- None of these deliveries stopped at the skip limit. -/
def WithinLimit (x : Exchange B) (order : List Nat) : Prop := ∀ i ∈ order, x.result i ≠ some (.err tooMany)

variable (P) in
/-- Delivering pending messages to `p` in two orders gives one plaintext each and one session. -/
def OrderFree (x : Exchange B) (p : Party) : Prop :=
  ∀ (fresh : StaticSecret) (order order' : List Nat), P.publicKey fresh ∉ x.generated → order.Perm order' →
    order.Nodup → (∀ i ∈ order, x.Pending p i) →
    (x.deliverAll P fresh order).WithinLimit order → (x.deliverAll P fresh order').WithinLimit order' →
    (x.deliverAll P fresh order).session p = (x.deliverAll P fresh order').session p ∧
    ∀ i ∈ order, ∀ m, x.sent[i]? = some m → (x.deliverAll P fresh order).result i = some (.ok m.plaintext) ∧
      (x.deliverAll P fresh order').result i = some (.ok m.plaintext)

variable (P) in
/-- Delivering these pending messages to `p` in these two orders, without meeting the skip limit, leaves two
sessions behind. -/
structure Diverges (x : Exchange B) (p : Party) (fresh : StaticSecret) (order order' : List Nat) : Prop where
  isNew : P.publicKey fresh ∉ x.generated
  perm : order.Perm order'
  nodup : order.Nodup
  pending : ∀ i ∈ order, x.Pending p i
  within : (x.deliverAll P fresh order).WithinLimit order
  within' : (x.deliverAll P fresh order').WithinLimit order'
  session : (x.deliverAll P fresh order).session p ≠ (x.deliverAll P fresh order').session p

/-- A delivery ends once. -/
theorem result_step {x : Exchange B} {i : Nat} {r : Outcome CryptoError Bytes} (h : x.result i = some r) (move : Move) :
    (x.step P move).result i = some r := by
  rcases x.step_cases P move with ⟨p, nonce, plaintext, rfl⟩ | ⟨j, fresh, m, encrypted, rfl, -, hj, -, hstep⟩ | hstep
  · change (x.send P p nonce plaintext).result i = some r
    rw [send_result]
    exact h
  · have hij : i ≠ j := by
      rintro rfl
      rw [h] at hj
      cases hj
    rw [hstep, receive]
    exact (Function.update_of_ne hij _ _).trans h
  · rw [hstep, h]

theorem result_exec {i : Nat} {r : Outcome CryptoError Bytes} : ∀ {moves : List Move} {x : Exchange B},
    x.result i = some r → (Run.exec (step P) x moves).result i = some r
  | [], _, h => h
  | move :: _, _, h => by
    rw [Run.exec_cons]
    exact result_exec (result_step h move)

/-- No keys are stored at either end. -/
def NoneStored (x : Exchange B) : Prop := ∀ p, (x.session p).skippedKeys = ∅

/-- A step that leaves no stored keys has not met the skip limit. -/
theorem result_of_noneStored {x : Exchange B} {move : Move} (hstored : (x.step P move).NoneStored) {i : Nat}
    (h : (x.step P move).result i = some (.err tooMany)) : x.result i = some (.err tooMany) := by
  rcases x.step_cases P move with ⟨p, nonce, plaintext, rfl⟩ | ⟨j, fresh, m, encrypted, rfl, -, -, -, hstep⟩ | hstep
  · change (x.send P p nonce plaintext).result i = _ at h
    rwa [send_result] at h
  · rw [hstep] at h hstored
    by_cases hij : i = j
    · subst hij
      have htake := (decrypt_tooMany P).1 (Option.some.inj ((Function.update_self i _ x.result).symm.trans h))
      have hcard := takeMessageKey_tooMany P htake
      have hempty := hstored m.sender.other
      rw [receive_session, Function.update_self] at hempty
      rw [hempty] at hcard
      exact absurd hcard (Nat.not_lt_zero _)
    · exact (Function.update_of_ne hij _ _).symm.trans h
  · rwa [hstep] at h

theorem withinLimit_of_noneStored {fresh : StaticSecret} {order : List Nat} {x : Exchange B}
    (hstored : Run.Throughout (step P) NoneStored x (order.map fun i => .deliver i fresh))
    (hpending : ∀ i ∈ order, x.result i = none) : (x.deliverAll P fresh order).WithinLimit order := by
  have hback : ∀ {moves : List Move} {x : Exchange B} {i : Nat}, Run.Throughout (step P) NoneStored x moves →
      (Run.exec (step P) x moves).result i = some (.err tooMany) → x.result i = some (.err tooMany) := by
    intro moves
    induction moves with
    | nil => exact fun _ h => h
    | cons move moves ih => exact fun hstored h => result_of_noneStored hstored.2.head (ih hstored.2 h)
  intro i hi hres
  have hfirst := hback hstored hres
  rw [hpending i hi] at hfirst
  cases hfirst

end Exchange

section

variable {done : Nat → Prop} {g : Epochs} {x y : Exchange B} {p : Party} {fresh : StaticSecret}

variable (P) in
/-- Message `n` of epoch `e` is gone from `p`. -/
def GoneAt (g : Epochs) (fresh : StaticSecret) (x : Exchange B) (p : Party) (e n : Nat) : Prop :=
  n < x.count P (g.draw fresh).key e ∧ Seat.Gone P (g.draw fresh).key (g.own p) (g.received p) (x.session p) e n

variable (P) in
/-- It is still due. -/
def DueAt (g : Epochs) (fresh : StaticSecret) (x : Exchange B) (p : Party) (e n : Nat) : Prop :=
  n < x.count P (g.draw fresh).key e ∧ ¬ Seat.Gone P (g.draw fresh).key (g.own p) (g.received p) (x.session p) e n

variable (P sharedSecret) in
/-- The session of `p` after the messages `taken` were delivered to it in the conversation `x`. -/
abbrev Follows (g : Epochs) (fresh : StaticSecret) (x : Exchange B) (p : Party) :=
  After P sharedSecret (g.draw fresh).key (x.count P (g.draw fresh).key) (DueAt P g fresh x p) (GoneAt P g fresh x p)
    (place (g.own p) (g.received p)) (g.own p) (g.top + 1)

variable (P sharedSecret) in
/-- Message `i` is message `n` of epoch `e`, pending at `p` and due. -/
structure Arrives (g : Epochs) (fresh : StaticSecret) (x : Exchange B) (p : Party) (i e n : Nat) : Prop where
  pending : x.result i = none
  message : ∃ m encrypted, x.sent[i]? = some m ∧ m.sender = p.other ∧ m.encrypted = some encrypted ∧
    x.IsSlot P sharedSecret (g.draw fresh) m e n
  recipient : For (x.count P (g.draw fresh).key) (g.own p) (g.top + 1) e n
  due : DueAt P g fresh x p e n

theorem numberedAt (hshort : x.ShortChains) :
    Numbered (x.count P (g.draw fresh).key) (DueAt P g fresh x p) (GoneAt P g fresh x p) :=
  ⟨fun _ => hshort _, fun _ _ h => h.1, fun _ _ h => h.1⟩

namespace Synced

theorem inbox (h : Synced P sharedSecret done g x) (hshort : x.ShortChains) (hfresh : P.publicKey fresh ∉ x.generated)
    (p : Party) : Inbox P (g.draw fresh).key (x.count P (g.draw fresh).key) fresh (g.own p) (g.top + 1) := by
  obtain ⟨hdraw, hd, hnew⟩ := h.draw hfresh
  refine ⟨hd, fun _ => hshort _, hdraw.count_zero, fun hlt => ?_⟩
  -- the other end is in the latest epoch
  have hmax := h.top_le_own p
  rw [show g.own p + 2 = g.top + 1 by omega]
  exact ⟨Epochs.draw_key_next g fresh, hnew⟩

theorem follows (h : Synced P sharedSecret done g x) (hshort : x.ShortChains) (hfresh : P.publicKey fresh ∉ x.generated)
    (p : Party) : Follows P sharedSecret g fresh x p [] (g.own p) (g.received p) (x.session p) := by
  obtain ⟨hdraw, hd, -⟩ := h.draw hfresh
  have hle : g.own p ≤ g.top + 1 := (g.own_le_top p).trans (Nat.le_succ _)
  have hseat := (hdraw.seat p).settle hd hle fun _ => hshort _
  refine ⟨?_, rfl, le_rfl, rfl, hle, fun _ _ hmem => nomatch hmem⟩
  refine hseat.congr (fun _ _ => rfl) (fun _ _ _ => rfl) (fun _ _ => le_rfl) (fun _ _ _ _ hdue => hdue.1)
    (fun _ _ _ hdone => ?_) rfl
  exact hdone.resolve_right fun hmem => nomatch hmem

/-- A pending message is still due. -/
theorem arrives (h : Synced P sharedSecret done g x) (hshort : x.ShortChains) (hfresh : P.publicKey fresh ∉ x.generated)
    {i : Nat} (hi : x.Pending p i) : ∃ e n, Arrives P sharedSecret g fresh x p i e n := by
  obtain ⟨hdraw, hd, -⟩ := h.draw hfresh
  obtain ⟨hres, m, encrypted, hm, hsender, he⟩ := hi
  obtain ⟨e, n, hs⟩ := hdraw.slot i m hm
  have htop : e ≤ g.top := hs.le.trans (g.own_le_top _)
  have hpar : e % 2 ≠ g.own p % 2 := (hdraw.sender_iff hs).1 hsender
  refine ⟨e, n, hres, ⟨m, encrypted, hm, hsender, he, hs⟩,
    ⟨hpar, htop.trans (h.top_le_own p), fun heq => ?_, htop.trans (Nat.le_succ _), hs.lt⟩, hs.lt, ?_⟩
  · omega
  · rintro ⟨hp, hnone⟩
    have hdue : x.Due P (g.draw fresh) e n := ⟨htop, hs.lt.trans (hshort _), i, m, hm, hres, name_of_slot hs⟩
    have hlook := (hdraw.seat p).complete e n hpar hdue hp
    rw [hnone] at hlook
    cases hlook

/-- Two messages are not one. -/
theorem arrives_inj (h : Synced P sharedSecret done g x) {i j e n : Nat} (hi : Arrives P sharedSecret g fresh x p i e n)
    (hj : Arrives P sharedSecret g fresh x p j e n) : i = j := by
  obtain ⟨m, -, hm, -, -, hs⟩ := hi.message
  obtain ⟨m', -, hm', -, -, hs'⟩ := hj.message
  exact h.unique i j m m' hm hm' ((name_of_slot hs).trans (name_of_slot hs').symm)

end Synced

/-- The conversation `y` after the messages `taken` of `x` were delivered to `p`; `slot` gives their epochs and
numbers. -/
structure Midway (P : Primitives B) (sharedSecret : B) (g : Epochs) (fresh : StaticSecret) (x : Exchange B) (p : Party)
    (slot : Nat → Nat × Nat) (taken : List Nat) (y : Exchange B) : Prop where
  sent : y.sent = x.sent
  waiting : ∀ i ∉ taken, y.result i = x.result i
  opened : ∀ i ∈ taken, ∀ m, x.sent[i]? = some m → y.result i = some (.ok m.plaintext)
  session : ∃ own received, Follows P sharedSecret g fresh x p (taken.map slot) own received (y.session p)

namespace Midway

variable {slot : Nat → Nat × Nat} {taken rest : List Nat} {i : Nat}

/-- A delivery that does not stop at the skip limit opens its message. -/
theorem deliver (h : Midway P sharedSecret g fresh x p slot taken y) (hinv : Inverts P) (hshort : x.ShortChains)
    (hinbox : Inbox P (g.draw fresh).key (x.count P (g.draw fresh).key) fresh (g.own p) (g.top + 1))
    (hi : Arrives P sharedSecret g fresh x p i (slot i).1 (slot i).2) (hnew : i ∉ taken)
    (hslot : slot i ∉ taken.map slot)
    (hlimit : (y.step P (.deliver i fresh)).result i ≠ some (.err tooMany)) :
    Midway P sharedSecret g fresh x p slot (taken ++ [i]) (y.step P (.deliver i fresh)) := by
  obtain ⟨m, encrypted, hm, hsender, he, hs⟩ := hi.message
  obtain ⟨own, received, hfollows⟩ := h.session
  have hp : m.sender.other = p := by rw [hsender, Party.other_other]
  have hres : y.result i = none := (h.waiting i hnew).trans hi.pending
  have hstep : y.step P (.deliver i fresh) = y.receive P i m encrypted fresh := by
    simp [Exchange.step, h.sent, hm, hres, he]
  rw [hstep] at hlimit ⊢
  have hsession : (y.receive P i m encrypted fresh).session p = ((y.session p).takeMessageKey P fresh m.header).2 := by
    rw [Exchange.receive_session, hp, Function.update_self]
  have hresult : (y.receive P i m encrypted fresh).result i =
      some ((y.session p).decrypt P fresh m.header encrypted).1 := by
    rw [← hp]
    exact Function.update_self _ _ _
  rw [hresult, Ne, Option.some.injEq, decrypt_tooMany, hs.header] at hlimit
  obtain ⟨hok, own', received', hnext⟩ := hfollows.take hinbox (numberedAt hshort) hinv.commutes hi.recipient hi.due
    hslot hlimit
  have hplain : ((y.session p).decrypt P fresh m.header encrypted).1 = .ok m.plaintext :=
    (decrypt_ok P).2 ⟨_, hs.header ▸ hok, hinv.opens hs he⟩
  refine ⟨h.sent, fun j hj => ?_, fun j hj m' hm' => ?_, own', received', ?_⟩
  · rw [List.mem_append, List.mem_singleton, not_or] at hj
    exact (Function.update_of_ne hj.2 _ _).trans (h.waiting j hj.1)
  · rcases List.mem_append.1 hj with hj | hj
    · have hji : j ≠ i := fun heq => hnew (heq ▸ hj)
      exact (Function.update_of_ne hji _ _).trans (h.opened j hj m' hm')
    · obtain rfl := List.mem_singleton.1 hj
      obtain rfl := Option.some.inj (hm.symm.trans hm')
      rw [hresult, hplain]
  · rw [hsession, hs.header, List.map_append]
    exact hnext

/-- All of them, one after the other. -/
theorem deliverAll (hinv : Inverts P) (hshort : x.ShortChains)
    (hinbox : Inbox P (g.draw fresh).key (x.count P (g.draw fresh).key) fresh (g.own p) (g.top + 1))
    (hinj : ∀ i j, x.Pending p i → x.Pending p j → slot i = slot j → i = j)
    (hslot : ∀ i, x.Pending p i → Arrives P sharedSecret g fresh x p i (slot i).1 (slot i).2) :
    ∀ {rest taken : List Nat} {y : Exchange B}, Midway P sharedSecret g fresh x p slot taken y →
      (∀ i ∈ taken ++ rest, x.Pending p i) → (taken ++ rest).Nodup → (y.deliverAll P fresh rest).WithinLimit rest →
      Midway P sharedSecret g fresh x p slot (taken ++ rest) (y.deliverAll P fresh rest)
  | [], taken, y, h, _, _, _ => by
    rw [List.append_nil]
    exact h
  | i :: rest, taken, y, h, hpending, hnodup, hlimit => by
    have hi : x.Pending p i := hpending i (List.mem_append_right _ (List.mem_cons_self ..))
    have hnew : i ∉ taken := fun hmem => (List.nodup_append.1 hnodup).2.2 i hmem i (List.mem_cons_self ..) rfl
    have hnext := h.deliver hinv hshort hinbox (hslot i hi) hnew ?_ ?_
    · rw [List.append_cons] at hpending hnodup ⊢
      exact deliverAll hinv hshort hinbox hinj hslot hnext hpending hnodup
        fun j hj => hlimit j (List.mem_cons_of_mem _ hj)
    · intro hmem
      obtain ⟨j, hj, heq⟩ := List.mem_map.1 hmem
      obtain rfl := hinj j i (hpending j (List.mem_append_left _ hj)) hi heq
      exact hnew hj
    · -- what a delivery ends with stays
      intro hres
      exact hlimit i (List.mem_cons_self ..) (Exchange.result_exec (x := y.step P (.deliver i fresh)) hres)

end Midway

theorem Synced.orderFree (h : Synced P sharedSecret done g x) (hinv : Inverts P) (hshort : x.ShortChains) (p : Party) :
    x.OrderFree P p := by
  intro fresh order order' hfresh hperm hnodup hpending hlimit hlimit'
  have hslots : ∃ slot : Nat → Nat × Nat, ∀ i, x.Pending p i →
      Arrives P sharedSecret g fresh x p i (slot i).1 (slot i).2 := by
    choose! epoch number harrives using fun i (hi : x.Pending p i) => h.arrives hshort hfresh hi
    exact ⟨fun i => (epoch i, number i), harrives⟩
  obtain ⟨slot, hslot⟩ := hslots
  have hinj : ∀ i j, x.Pending p i → x.Pending p j → slot i = slot j → i = j := fun i j hi hj heq =>
    h.arrives_inj (hslot i hi) (heq ▸ hslot j hj)
  have hinit : Midway P sharedSecret g fresh x p slot [] x :=
    ⟨rfl, fun _ _ => rfl, fun _ hmem => absurd hmem List.not_mem_nil, _, _, h.follows hshort hfresh p⟩
  have hinbox := h.inbox hshort hfresh p
  have hmid := hinit.deliverAll hinv hshort hinbox hinj hslot hpending hnodup hlimit
  have hmid' := hinit.deliverAll hinv hshort hinbox hinj hslot (fun i hi => hpending i (hperm.mem_iff.2 hi))
    (hperm.nodup_iff.1 hnodup) hlimit'
  refine ⟨?_, fun i hi m hm => ⟨hmid.opened i hi m hm, hmid'.opened i (hperm.mem_iff.1 hi) m hm⟩⟩
  obtain ⟨own, received, hfollows⟩ := hmid.session
  obtain ⟨own', received', hfollows'⟩ := hmid'.session
  refine hfollows.unique hfollows' (hperm.map slot) fun e n hn => ?_
  by_cases hgone : Seat.Gone P (g.draw fresh).key (g.own p) (g.received p) (x.session p) e n
  · exact .inr ⟨hn, hgone⟩
  · exact .inl ⟨hn, hgone⟩

end

/-- In an honest conversation with new key pairs and chains shorter than `2^32`, whatever messages are
then delivered to an end, in whatever order: if no delivery meets the skip limit they all give their
plaintexts, and the session they leave behind does not depend on the order. -/
theorem delivery_order (hinv : Inverts P) {fresh : StaticSecret} {ourSpk : Identity.SignedPreKey} {x : Exchange B}
    (hstart : x.Start P sharedSecret fresh ourSpk) (moves : List Move)
    (hfresh : Run.Along (Exchange.step P) (Exchange.FreshKey P) x moves)
    (hshort : Run.Throughout (Exchange.step P) Exchange.ShortChains x moves) (p : Party) :
    (Run.exec (Exchange.step P) x moves).OrderFree P p := by
  have hinit := Synced.start hstart fun _ : Nat => not_false
  obtain ⟨g, hsync, -⟩ := hinit.exec hinv.commutes hfresh hshort
  exact hsync.orderFree hinv hshort.last p

/-- A message of Alice's first chain and one of her second reach Bob in either order. -/
theorem delivery_order_two :
    let x := Run.exec (Exchange.step Sample.aead) sampleExchange [.encrypt .alice Sample.nonce [7],
      .encrypt .alice Sample.nonce [8], .deliver 0 Sample.freshSecret, .encrypt .bob Sample.nonce [9],
      .deliver 2 ⟨Sample.bytes32 4⟩, .encrypt .alice Sample.nonce [10]]
    let y := x.deliverAll Sample.aead ⟨Sample.bytes32 5⟩ [1, 3]
    let y' := x.deliverAll Sample.aead ⟨Sample.bytes32 5⟩ [3, 1]
    y.session .bob = y'.session .bob ∧ y'.result 1 = some (.ok [8]) ∧ y'.result 3 = some (.ok [10]) := by
  intro x y y'
  have hlength : Run.Throughout (Exchange.step Sample.aead) (fun x => x.sent.length ≤ 6) sampleExchange
      [.encrypt .alice Sample.nonce [7], .encrypt .alice Sample.nonce [8], .deliver 0 Sample.freshSecret,
        .encrypt .bob Sample.nonce [9], .deliver 2 ⟨Sample.bytes32 4⟩, .encrypt .alice Sample.nonce [10]] :=
    Exchange.length_sent_throughout Sample.aead (by decide)
  have horder := delivery_order sample_inverts sampleExchange_start _
    (Exchange.freshKey_along _ (by decide) (by decide))
    (hlength.mono fun x h => Exchange.shortChains_of_length (h.trans_lt (by norm_num))) .bob
  obtain ⟨hsession, hopened⟩ := horder ⟨Sample.bytes32 5⟩ [1, 3] [3, 1] (by decide) (.swap 3 1 []) (by decide)
    (by
      intro i hi
      rcases (show i = 1 ∨ i = 3 by simpa using hi) with rfl | rfl
      · exact ⟨rfl, _, _, rfl, rfl, rfl⟩
      · exact ⟨rfl, _, _, rfl, rfl, rfl⟩)
    (by unfold Exchange.WithinLimit; decide) (by unfold Exchange.WithinLimit; decide)
  exact ⟨hsession, (hopened 1 (by decide) _ rfl).2, (hopened 3 (by decide) _ rfl).2⟩

/-! ## A chain that wraps -/

/-- Once Alice's first chain has come to `2^32` messages, the last of them bears the number 0: Bob takes it
for a message of the chain he receives in, or, after her next message, for one of a new chain. -/
theorem diverges_of_wrap {n : Nat} (hn : UInt32.ofNat n = 0) (hpos : 0 < n) {x : Exchange Key} {fresh : StaticSecret}
    (hx : x = Run.exec (Exchange.step Sample.aead) sampleExchange (wrapped (n + 1)))
    (hfresh : Sample.aead.publicKey fresh ∉ x.generated) :
    x.Diverges Sample.aead .bob fresh [n, n + 2] [n + 2, n] := by
  let k (i : UInt8) : PublicKey := Sample.pub ⟨Sample.bytes32 i⟩
  obtain ⟨setUps, h⟩ := looks_wrapped n
  rw [← hx] at h
  let a := moved (wrappedAlice (n + 1)) 1
  let b := moved wrappedBob 1
  have hprev := wrappedAlice_prev hn
  -- the old message first
  have hold := h.deliverCurrent (p := .alice) (s := Sample.alice) (i := n) (wrappedSent_old hn) (by simp; omega)
    rfl rfl rfl (Nat.zero_le _) fresh
  have holdNew := hold.deliver (p := .alice) (s := wrappedAlice (n + 1)) (i := n + 2) wrappedSent_new (by simp) rfl
    (by change some (k 2) ≠ some (k 4); decide) (by rintro c ⟨⟩; rw [hprev]; decide) fresh
  -- the new message first
  have hnew := h.deliver (p := .alice) (s := wrappedAlice (n + 1)) (i := n + 2) wrappedSent_new (by simp) rfl
    (by change some (k 2) ≠ some (k 4); decide) (by rintro c ⟨⟩; rw [hprev]; exact le_rfl) fresh
  have hnewOld := hnew.deliver (p := .alice) (s := Sample.alice) (i := n) (wrappedSent_old hn) (by simp; omega) rfl
    (by change some (k 4) ≠ some (k 2); decide) (by rintro c ⟨⟩; exact Nat.zero_le _) fresh
  have hpending : ∀ i ∈ [n, n + 2], x.Pending .bob i := by
    intro i hi
    rcases (show i = n ∨ i = n + 2 by simpa using hi) with rfl | rfl
    · exact ⟨h.result i (by simp; omega), _, _, h.sent ▸ wrappedSent_old hn, rfl, rfl⟩
    · exact ⟨h.result _ (by simp), _, _, h.sent ▸ wrappedSent_new, rfl, rfl⟩
  refine ⟨hfresh, .swap (n + 2) n [], by simp, hpending, ?_, ?_, fun heq => ?_⟩
  · refine Exchange.withinLimit_of_noneStored ⟨fun p => ?_, fun p => ?_, fun p => ?_⟩ fun i hi => (hpending i hi).1
    · rw [h.session]
      cases p <;> rfl
    · rw [hold.session]
      cases p <;> rfl
    · rw [holdNew.session]
      cases p <;> rfl
  · refine Exchange.withinLimit_of_noneStored ⟨fun p => ?_, fun p => ?_, fun p => ?_⟩
      fun i hi => (hpending i (List.mem_pair.2 (List.mem_pair.1 hi).symm)).1
    · rw [h.session]
      cases p <;> rfl
    · rw [hnew.session]
      cases p <;> rfl
    · rw [hnewOld.session]
      cases p <;> rfl
  · -- Bob ends on her second key, or back on her first
    have hremote := congrArg Session.remoteDhPublic heq
    simp only [Exchange.deliverAll, List.map_cons, List.map_nil, Run.exec_cons, Run.exec_nil] at hremote
    rw [holdNew.session, hnewOld.session] at hremote
    exact absurd hremote (show some (k 4) ≠ some (k 2) by decide)

theorem wrapped_freshKey {n : Nat} {x : Exchange Key}
    (hx : x = Run.exec (Exchange.step Sample.aead) sampleExchange (wrapped n)) :
    Run.Along (Exchange.step Sample.aead) (Exchange.FreshKey Sample.aead) sampleExchange (wrapped n) ∧
    Sample.aead.publicKey ⟨Sample.bytes32 5⟩ ∉ x.generated := by
  have hdrawn : Exchange.drawn Sample.aead (wrapped n ++ [.deliver 0 ⟨Sample.bytes32 5⟩]) =
      [3, 4, 5].map fun i => Sample.pub ⟨Sample.bytes32 i⟩ := by
    rw [wrapped, List.append_assoc, Exchange.drawn_encrypts]
    rfl
  have hfresh : Run.Along (Exchange.step Sample.aead) (Exchange.FreshKey Sample.aead) sampleExchange
      (wrapped n ++ [.deliver 0 ⟨Sample.bytes32 5⟩]) := by
    apply Exchange.freshKey_along
    · rw [hdrawn]
      decide
    · rw [hdrawn]
      decide
  obtain ⟨halong, hnew⟩ := (Run.along_append _ _ _).1 hfresh
  rw [← hx] at hnew
  exact ⟨halong, hnew.1⟩

/-- The condition on the chains is needed: the order of two deliveries decides which chain Bob receives in. -/
theorem order_matters_after_wrap :
    sampleExchange.Start Sample.aead (.shared 0) Sample.aliceSecret Sample.spk ∧
    Run.Along (Exchange.step Sample.aead) (Exchange.FreshKey Sample.aead) sampleExchange (wrapped (2 ^ 32 + 1)) ∧
    (Run.exec (Exchange.step Sample.aead) sampleExchange (wrapped (2 ^ 32 + 1))).Diverges Sample.aead .bob
      ⟨Sample.bytes32 5⟩ [2 ^ 32, 2 ^ 32 + 2] [2 ^ 32 + 2, 2 ^ 32] := by
  obtain ⟨halong, hfresh⟩ := wrapped_freshKey (n := 2 ^ 32 + 1) rfl
  exact ⟨sampleExchange_start, halong, diverges_of_wrap (by decide) (by norm_num) rfl hfresh⟩

end GhostCrypt.Ratchet
