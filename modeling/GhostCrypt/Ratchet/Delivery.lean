/-
Delivery: in an honest conversation in which no end has more than `MAX_SKIP` messages overtaken,
every delivered message decrypts to its plaintext. The stored keys are those of overtaken messages,
so a delivery that met the skip limit would leave too many of them.
-/
import GhostCrypt.Ratchet.Synced
import GhostCrypt.Lib.Run

namespace GhostCrypt.Ratchet

open Session Symbolic

variable {B : Type} [ByteString B] {P : Primitives B} {sharedSecret : B}

/-- Every delivery so far gave the plaintext of its message. -/
def Exchange.Delivers (x : Exchange B) : Prop :=
  ∀ (i : Nat) (m : Message) r, x.sent[i]? = some m → x.result i = some r → r = .ok m.plaintext

/-- The name of the `i`-th message. -/
def Exchange.nameAt (x : Exchange B) (i : Nat) : Bytes × UInt32 := (x.sent[i]?).elim ([], 0) Message.name

/-! ## Stored keys are overtaken messages -/

namespace Synced

variable {done : Nat → Prop} {g : Epochs} {x : Exchange B}

/-- An epoch behind an end is one of its replaced chains, or its receiving chain up to the index. -/
theorem behind_of_passed (h : Synced P sharedSecret done g x) (hshort : x.ShortChains) {p : Party} {m : Message}
    {e n : Nat} (hs : x.IsSlot P sharedSecret g m e n) (hsender : m.sender = p.other)
    (hp : Passed (g.own p) (g.received p) e n) : x.behind p m = true := by
  have hpar := (h.sender_iff hs).1 hsender
  have hkey : m.header.dhPublicKey = (P.publicKey (g.key e)).toVec := by rw [hs.header]; rfl
  simp only [Exchange.behind, hsender, beq_self_eq_true, Bool.true_and, Bool.or_eq_true]
  rcases hp with hp | ⟨hown, hlt⟩
  · left
    rw [List.any_eq_true]
    exact ⟨_, (h.replaced p _).2 ⟨e, hp, hpar, rfl⟩, by simp [hkey]⟩
  · right
    have hpos := hs.pos
    have hrec := (h.seat p).receivedLe
    rw [(h.seat p).remote, (h.seat p).receiving, ← hown, if_neg (by omega), if_neg (by omega)]
    simp only [Nat.add_sub_cancel, hkey, beq_self_eq_true, Bool.true_and, decide_eq_true_eq]
    rw [← hown, Nat.add_sub_cancel] at hrec
    rw [hs.header, UInt32.lt_iff_toNat_lt]
    have hr : g.received p < 2 ^ 32 := hrec.trans_lt (hshort _)
    simp only [epochHeader, MessageHeader.new, chainAt]
    rwa [UInt32.toNat_ofNat_of_lt' (hlt.trans hr), UInt32.toNat_ofNat_of_lt' hr]

/-- If no stored key belongs to a delivered message, the stored keys of an end are those of overtaken
messages. -/
theorem stored_subset (h : Synced P sharedSecret done g x) (hshort : x.ShortChains) {p : Party}
    (hdue : ∀ (i : Nat) (m : Message), x.sent[i]? = some m → m.sender = p.other →
      m.name ∈ (x.session p).skippedKeys → x.result i = none) :
    (x.session p).skippedKeys.keys ⊆ (x.overtaken p).image x.nameAt := by
  intro y hy
  obtain ⟨mk, hmk⟩ := Finmap.mem_iff.1 (Finmap.mem_keys.1 hy)
  obtain ⟨e, n, hpar, hp, hn, rfl, -⟩ := (h.seat p).stored y mk hmk
  have he : e ≤ g.top := (Seat.passed_lt hp).le.trans (g.own_le_top p)
  obtain ⟨i, m, hm, hname⟩ := h.used e he n hn
  obtain ⟨e', n', hs⟩ := h.slot i m hm
  obtain ⟨rfl, rfl⟩ := epochName_inj P h.distinct (hs.le.trans (g.own_le_top _)) he (hs.lt.trans (hshort _))
    (hn.trans (hshort _)) ((name_of_slot hs).symm.trans hname)
  have hsender : m.sender = p.other := (h.sender_iff hs).2 hpar
  refine Finset.mem_image.2 ⟨i, ?_, by simp [Exchange.nameAt, hm, hname]⟩
  have hres : x.result i = none := hdue i m hm hsender (hname ▸ Finmap.mem_keys.1 hy)
  simp only [Exchange.overtaken, Finset.mem_filter, Finset.mem_range]
  refine ⟨(List.getElem?_eq_some_iff.1 hm).1, ?_⟩
  simp [hm, hres, h.behind_of_passed hshort hs hsender hp]

theorem not_done_of_mem (h : Synced P sharedSecret done g x) (hshort : x.ShortChains) {p : Party} {i : Nat}
    {m : Message} (hm : x.sent[i]? = some m) (hsender : m.sender = p.other)
    (hmem : m.name ∈ (x.session p).skippedKeys) : ¬ done i := by
  intro hdone
  obtain ⟨mk, hmk⟩ := Finmap.mem_iff.1 hmem
  obtain ⟨e, n, hs⟩ := h.slot i m hm
  have hspent := ((h.seat p).spent e n ((h.sender_iff hs).1 hsender) ⟨hs.le.trans (g.own_le_top _),
    hs.lt.trans (hshort _), i, m, hm, hdone, name_of_slot hs⟩).2
  rw [name_of_slot hs, hspent] at hmk
  cases hmk

end Synced

/-! ## Deliveries -/

/-- A conversation in which all deliveries have succeeded. -/
structure InOrder (P : Primitives B) (sharedSecret : B) (x : Exchange B) : Prop where
  delivers : x.Delivers
  synced : ∃ g, Synced P sharedSecret (fun i => x.result i ≠ none) g x

variable (P) in
/-- What the AEAD and X25519 promise here. -/
structure Inverts : Prop where
  commutes : ∀ a b, P.diffieHellman a (P.publicKey b) = P.diffieHellman b (P.publicKey a)
  decrypts : ∀ key nonce msg aad ciphertext, P.aesGcmEncrypt key nonce msg aad = some ciphertext →
    P.aesGcmDecrypt key nonce ciphertext aad = some msg

theorem sample_inverts : Inverts Sample.aead where
  commutes _ _ := congrArg Term.dh Sym2.eq_swap
  decrypts := by
    rintro key nonce msg aad _ ⟨⟩
    have hlen : 16 ≤ (msg ++ List.replicate 16 0).length := by simp
    exact (if_pos hlen).trans (congrArg some (by simp))

/-- A message opens under the key of its slot. -/
theorem Inverts.opens (h : Inverts P) {x : Exchange B} {g : Epochs} {m : Message} {e n : Nat}
    {encrypted : Aead.Encrypted} (hs : x.IsSlot P sharedSecret g m e n) (he : m.encrypted = some encrypted) :
    Aead.decrypt P (epochKey P sharedSecret g.key e n) encrypted m.header.toBytes = .ok m.plaintext := by
  obtain ⟨nonce, henc⟩ := hs.sealed encrypted he
  obtain ⟨hnonce, hseal⟩ := (Aead.encrypt_ok P).1 henc
  refine (Aead.decrypt_ok P).2 ⟨hnonce ▸ nonce.2, ?_⟩
  rw [hnonce]
  exact h.decrypts _ _ _ _ _ hseal

/-- A delivery succeeds, or it meets the skip limit, and then too many messages are overtaken. -/
theorem InOrder.receive_cases {x : Exchange B} (h : InOrder P sharedSecret x) (hinv : Inverts P) {i : Nat} {m : Message}
    (hm : x.sent[i]? = some m) (hr : x.result i = none) {encrypted : Aead.Encrypted}
    (he : m.encrypted = some encrypted) {fresh : StaticSecret} (hfresh : P.publicKey fresh ∉ x.generated)
    (hshort : (x.receive P i m encrypted fresh).ShortChains) :
    (InOrder P sharedSecret (x.receive P i m encrypted fresh) ∧
      ∃ key, ((x.session m.sender.other).takeMessageKey P fresh m.header).1 = .ok key) ∨
    (((x.session m.sender.other).takeMessageKey P fresh m.header).1 = .err tooMany ∧
      maxSkip < ((x.receive P i m encrypted fresh).overtaken m.sender.other).card) := by
  obtain ⟨g, hsync⟩ := h.synced
  obtain ⟨g', e, n, hsync', -, hs, hgone, hres⟩ := hsync.receive hinv.commutes hshort hm hr encrypted hfresh
  have hresult : ∀ j, j ≠ i → (x.receive P i m encrypted fresh).result j = x.result j :=
    fun j hj => Function.update_of_ne hj _ _
  rcases hres with ⟨hok, hp⟩ | ⟨hmany, hgt⟩
  · have hplain : ((x.session m.sender.other).decrypt P fresh m.header encrypted).1 = .ok m.plaintext :=
      (decrypt_ok P).2 ⟨_, hok, hinv.opens hs he⟩
    have hi : (x.receive P i m encrypted fresh).result i = some (.ok m.plaintext) := by
      rw [← hplain]
      exact Function.update_self _ _ _
    refine .inl ⟨⟨fun j m' r hm' hr' => ?_, g', ?_⟩, _, hok⟩
    · by_cases hj : j = i
      · subst hj
        obtain rfl := Option.some.inj (hm.symm.trans hm')
        exact Option.some.inj (hr'.symm.trans hi)
      · exact h.delivers j m' r hm' (hresult j hj ▸ hr')
    · have hfin := hsync'.finish hshort hm hs hgone hp
      have hdone : (fun j => x.result j ≠ none ∨ j = i) =
          fun j => (x.receive P i m encrypted fresh).result j ≠ none := by
        funext j
        by_cases hj : j = i
        · simp [hj, hi]
        · simp [hj, hresult j hj]
      rwa [hdone] at hfin
  · -- the keys stored at the limit are those of overtaken messages
    refine .inr ⟨hmany,
      hgt.trans_le ((Finset.card_le_card (hsync'.stored_subset hshort ?_)).trans Finset.card_image_le)⟩
    intro j m' hm' hsender hmem
    by_cases hj : j = i
    · subst hj
      obtain rfl := Option.some.inj (hm.symm.trans hm')
      rw [Synced.name_of_slot hs] at hmem
      exact absurd hgone (Finmap.lookup_eq_none.not.2 (not_not.2 hmem))
    · rw [hresult j hj]
      exact not_not.1 (hsync'.not_done_of_mem hshort hm' hsender hmem)

theorem InOrder.send {x : Exchange B} (h : InOrder P sharedSecret x) (p : Party) (nonce : Aead.Nonce)
    (plaintext : Bytes) (hshort : (x.send P p nonce plaintext).ShortChains) :
    InOrder P sharedSecret (x.send P p nonce plaintext) := by
  obtain ⟨g, hsync⟩ := h.synced
  have hsend := hsync.send p nonce plaintext hshort
  have hresult := x.send_result P p nonce plaintext
  refine ⟨fun i m r hm hr => ?_, g, ?_⟩
  · -- a message that was not there has not been delivered
    rw [hresult] at hr
    refine h.delivers i m r ?_ hr
    have hlt : i < x.sent.length := by
      by_contra hge
      rw [(hsync.pending i (Nat.not_lt.1 hge)).1] at hr
      cases hr
    revert hm
    unfold Exchange.send
    split
    · rw [List.getElem?_append_left hlt]
      exact id
    · exact id
  · rw [hresult]
    exact hsend

theorem InOrder.step {x : Exchange B} (h : InOrder P sharedSecret x) (hinv : Inverts P) {move : Move}
    (hfresh : x.FreshKey P move) (hshort : (x.step P move).ShortChains) (hfew : (x.step P move).FewOvertaken) :
    InOrder P sharedSecret (x.step P move) := by
  rcases x.step_cases P move with ⟨p, nonce, plaintext, rfl⟩ | ⟨i, fresh, m, encrypted, rfl, hm, hr, he, hstep⟩ | hstep
  · exact h.send p nonce plaintext hshort
  · rw [hstep] at hshort hfew ⊢
    rcases h.receive_cases hinv hm hr he hfresh hshort with ⟨h', -⟩ | ⟨-, hgt⟩
    · exact h'
    · exact absurd (hfew m.sender.other) (Nat.not_le.2 hgt)
  · rwa [hstep]

theorem InOrder.start {fresh : StaticSecret} {ourSpk : Identity.SignedPreKey} {x : Exchange B}
    (hstart : x.Start P sharedSecret fresh ourSpk) : InOrder P sharedSecret x := by
  refine ⟨fun i m r hm => ?_, _, Synced.start hstart fun i => not_not.2 (hstart.result i)⟩
  simp [hstart.sent] at hm

/-- In an honest conversation with new key pairs, chains shorter than `2^32`, and at every moment at
most `MAX_SKIP` messages overtaken at either end, every delivered message decrypts to its plaintext. -/
theorem delivery_correct (hinv : Inverts P) {fresh : StaticSecret} {ourSpk : Identity.SignedPreKey} {x : Exchange B}
    (hstart : x.Start P sharedSecret fresh ourSpk) (moves : List Move)
    (hfresh : Run.Along (Exchange.step P) (Exchange.FreshKey P) x moves)
    (hshort : Run.Throughout (Exchange.step P) Exchange.ShortChains x moves)
    (hfew : Run.Throughout (Exchange.step P) Exchange.FewOvertaken x moves) :
    (Run.exec (Exchange.step P) x moves).Delivers := by
  have hinit : InOrder P sharedSecret x := by
    refine ⟨fun i m r hm => ?_, _, Synced.start hstart fun i => not_not.2 (hstart.result i)⟩
    simp [hstart.sent] at hm
  exact (Run.exec_invariant (I := InOrder P sharedSecret)
    (fun x move h ⟨hf, hs, hw⟩ => h.step hinv hf hs hw) hinit (hfresh.and (hshort.along.and hfew.along))).delivers

/-- Two messages of Alice's, the second delivered first, and an answer of Bob's. -/
theorem delivery_correct_overtaken :
    (Run.exec (Exchange.step Sample.aead) sampleExchange [.encrypt .alice Sample.nonce [7],
      .encrypt .alice Sample.nonce [8], .deliver 1 Sample.freshSecret, .encrypt .bob Sample.nonce [9],
      .deliver 2 ⟨Sample.bytes32 4⟩, .deliver 0 ⟨Sample.bytes32 5⟩]).Delivers := by
  have hlength : Run.Throughout (Exchange.step Sample.aead) (fun x => x.sent.length ≤ 6) sampleExchange
      [.encrypt .alice Sample.nonce [7], .encrypt .alice Sample.nonce [8], .deliver 1 Sample.freshSecret,
        .encrypt .bob Sample.nonce [9], .deliver 2 ⟨Sample.bytes32 4⟩, .deliver 0 ⟨Sample.bytes32 5⟩] :=
    Exchange.length_sent_throughout Sample.aead (by decide)
  refine delivery_correct sample_inverts sampleExchange_start _
    (Exchange.freshKey_along _ (by decide) (by decide)) ?_ ?_
  · exact hlength.mono fun x h => Exchange.shortChains_of_length (h.trans_lt (by norm_num))
  · exact hlength.mono fun x h => Exchange.fewOvertaken_of_length (h.trans (by decide))

end GhostCrypt.Ratchet
