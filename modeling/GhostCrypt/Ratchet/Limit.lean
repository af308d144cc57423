/-
The skip limit. In an honest conversation an end stores the keys of exactly the messages overtaken at
it, so its deliveries all succeed exactly as long as no more than `MAX_SKIP` of them are.
-/
import GhostCrypt.Ratchet.Bound
import GhostCrypt.Ratchet.Delivery

namespace GhostCrypt.Ratchet

open Session

variable {B : Type} [ByteString B] {P : Primitives B} {sharedSecret : B}

/-! ## Overtaken messages have stored keys -/

namespace Synced

variable {done : Nat → Prop} {g : Epochs} {x : Exchange B} {p : Party}

/-- What is behind an end is addressed to it, and passed. -/
theorem passed_of_behind (h : Synced P sharedSecret done g x) (hshort : x.ShortChains) {m : Message} {e n : Nat}
    (hs : x.IsSlot P sharedSecret g m e n) (hbehind : x.behind p m = true) :
    m.sender = p.other ∧ Passed (g.own p) (g.received p) e n := by
  have he := hs.le.trans (g.own_le_top _)
  have hkey : m.header.dhPublicKey = (P.publicKey (g.key e)).toVec := by rw [hs.header]; rfl
  have hepoch : ∀ e' ≤ g.top, m.header.dhPublicKey = (P.publicKey (g.key e')).toVec → e = e' :=
    fun e' he' heq => h.distinct e he e' he' (PublicKey.toVec_inj.1 (hkey.symm.trans heq))
  have hrec := (h.seat p).receivedLe
  simp only [Exchange.behind, Bool.and_eq_true, Bool.or_eq_true, beq_iff_eq, List.any_eq_true] at hbehind
  obtain ⟨hsender, ⟨k, hk, heq⟩ | hcurrent⟩ := hbehind
  · obtain ⟨e', he', -, rfl⟩ := (h.replaced p k).1 hk
    have hle := g.own_le_top p
    rw [hepoch e' (by omega) heq]
    exact ⟨hsender, .inl he'⟩
  · rw [(h.seat p).remote, (h.seat p).receiving] at hcurrent
    by_cases hown : g.own p < 2
    · simp [hown] at hcurrent
    · rw [if_neg hown, if_neg (by omega)] at hcurrent
      simp only [Bool.and_eq_true, beq_iff_eq, decide_eq_true_eq, UInt32.lt_iff_toNat_lt] at hcurrent
      obtain ⟨heq, hlt⟩ := hcurrent
      have hle := g.own_le_top p
      obtain rfl := hepoch (g.own p - 1) (by omega) heq
      have hnumber : m.header.messageNumber = UInt32.ofNat n := by rw [hs.header]; rfl
      rw [hnumber, chainAt, UInt32.toNat_ofNat_of_lt' (hs.lt.trans (hshort _)),
        UInt32.toNat_ofNat_of_lt' (hrec.trans_lt (hshort _))] at hlt
      exact ⟨hsender, .inr ⟨by omega, hlt⟩⟩

/-- The key of an overtaken message is stored. -/
theorem lookup_of_overtaken (h : Synced P sharedSecret done g x) (hshort : x.ShortChains) {i : Nat}
    (hi : i ∈ x.overtaken p) : ∃ m e n, x.sent[i]? = some m ∧ x.IsSlot P sharedSecret g m e n ∧
      (x.session p).skippedKeys.lookup m.name = some (epochKey P sharedSecret g.key e n) := by
  simp only [Exchange.overtaken, Finset.mem_filter, Bool.and_eq_true, Option.isNone_iff_eq_none,
    Option.any_eq_true] at hi
  obtain ⟨-, hres, m, hm, hbehind⟩ := hi
  obtain ⟨e, n, hs⟩ := h.slot i m hm
  obtain ⟨hsender, hp⟩ := h.passed_of_behind hshort hs hbehind
  refine ⟨m, e, n, hm, hs, ?_⟩
  rw [name_of_slot hs]
  exact (h.seat p).complete e n ((h.sender_iff hs).1 hsender)
    ⟨hs.le.trans (g.own_le_top _), hs.lt.trans (hshort _), i, m, hm, hres, name_of_slot hs⟩ hp

/-- Overtaken messages have different names. -/
theorem nameAt_injOn (h : Synced P sharedSecret done g x) : Set.InjOn x.nameAt (x.overtaken p) := by
  intro i hi j hj heq
  obtain ⟨hi, -⟩ := Finset.mem_filter.1 hi
  obtain ⟨hj, -⟩ := Finset.mem_filter.1 hj
  have hmi := List.getElem?_eq_getElem (Finset.mem_range.1 hi)
  have hmj := List.getElem?_eq_getElem (Finset.mem_range.1 hj)
  simp only [Exchange.nameAt, hmi, hmj, Option.elim_some] at heq
  exact h.unique i j _ _ hmi hmj heq

end Synced

variable (P) in
/-- Each end stores one key for each message overtaken at it, under the name of that message, and the key
opens it. -/
structure Exchange.StoresOvertaken (x : Exchange B) : Prop where
  keys : ∀ p, (x.session p).skippedKeys.keys = (x.overtaken p).image x.nameAt
  card : ∀ p, (x.session p).skippedKeys.keys.card = (x.overtaken p).card
  opens : ∀ p, ∀ i ∈ x.overtaken p, ∀ m encrypted mk, x.sent[i]? = some m → m.encrypted = some encrypted →
    (x.session p).skippedKeys.lookup m.name = some mk → Aead.decrypt P mk encrypted m.header.toBytes = .ok m.plaintext

namespace InOrder

variable {x : Exchange B}

theorem storesOvertaken (h : InOrder P sharedSecret x) (hinv : Inverts P) (hshort : x.ShortChains) :
    x.StoresOvertaken P := by
  obtain ⟨g, hsync⟩ := h.synced
  have hkeys : ∀ p, (x.session p).skippedKeys.keys = (x.overtaken p).image x.nameAt := by
    intro p
    apply Finset.Subset.antisymm
    · exact hsync.stored_subset hshort fun i m hm hsender hmem =>
        not_not.1 (hsync.not_done_of_mem hshort hm hsender hmem)
    · intro y hy
      obtain ⟨i, hi, rfl⟩ := Finset.mem_image.1 hy
      obtain ⟨m, e, n, hm, -, hlook⟩ := hsync.lookup_of_overtaken hshort hi
      rw [Exchange.nameAt, hm, Option.elim_some, Finmap.mem_keys]
      exact Finmap.mem_iff.2 ⟨_, hlook⟩
  refine ⟨hkeys, fun p => ?_, fun p i hi m encrypted mk hm he hmk => ?_⟩
  · rw [hkeys, Finset.card_image_of_injOn hsync.nameAt_injOn]
  · obtain ⟨m', e, n, hm', hs, hlook⟩ := hsync.lookup_of_overtaken hshort hi
    obtain rfl := Option.some.inj (hm'.symm.trans hm)
    obtain rfl := Option.some.inj (hmk.symm.trans hlook)
    exact hinv.opens hs he

/-- Few messages are overtaken exactly when the stores are within their limits. -/
theorem fewOvertaken_iff (h : InOrder P sharedSecret x) (hinv : Inverts P) (hshort : x.ShortChains) :
    x.FewOvertaken ↔ ∀ p, (x.session p).Bounded := by
  have hcard := (h.storesOvertaken hinv hshort).card
  exact forall_congr' fun p => by rw [Bounded, hcard]

end InOrder

/-! ## One step -/

/-- A receiving chain that gives its key leaves the store within its limit. -/
theorem bounded_of_receive {header : MessageHeader} {s : Session B} {r : Outcome CryptoError B × Session B}
    (hr : ReceiveResult P header s r) (hs : s.Bounded) {key : B} (hkey : r.1 = .ok key) : r.2.Bounded := by
  cases hr with
  | noChain => cases hkey
  | tooMany => cases hkey
  | key c n hc hn h => exact bounded_skipBy P hs h

/-- So does a `decrypt` that finds its key. -/
theorem bounded_of_key {s : Session B} (hs : s.Bounded) {fresh : StaticSecret} {header : MessageHeader} {key : B}
    (hkey : (s.takeMessageKey P fresh header).1 = .ok key) : (s.takeMessageKey P fresh header).2.Bounded := by
  have htake := takeMessageKey_cases P fresh header s
  generalize s.takeMessageKey P fresh header = r at htake hkey
  cases htake with
  | stored mk hl =>
    refine le_trans (Finset.card_le_card fun y hy => ?_) hs
    rw [Finmap.mem_keys, Finmap.mem_erase] at hy
    exact Finmap.mem_keys.2 hy.2
  | badHeader hl hlen => cases hkey
  | current k r hl hk hrem hr => exact bounded_of_receive hr hs hkey
  | oldTooMany => cases hkey
  | ratchet k s₁ r hl hk hrem hold hr =>
    refine bounded_of_receive hr ?_ hkey
    cases hold with
    | noChain => exact hs
    | skipped c old n hc hrem' hn h => exact bounded_skipBy P hs h

theorem bounded_send {x : Exchange B} (hb : ∀ p, (x.session p).Bounded) (p : Party) (nonce : Aead.Nonce)
    (plaintext : Bytes) (q : Party) : ((x.send P p nonce plaintext).session q).Bounded := by
  have hsession : (x.send P p nonce plaintext).session =
      Function.update x.session p ((x.session p).encrypt P nonce plaintext).2 := by
    unfold Exchange.send
    split <;> rfl
  rw [hsession]
  by_cases hq : q = p
  · subst hq
    rw [Function.update_self, Bounded, encrypt_skippedKeys]
    exact hb q
  · rw [Function.update_of_ne hq]
    exact hb q

/-- After a step all deliveries so far have succeeded and few messages are overtaken, or neither. -/
theorem InOrder.step_or {x : Exchange B} (h : InOrder P sharedSecret x) (hinv : Inverts P)
    (hb : ∀ p, (x.session p).Bounded) {move : Move} (hfresh : x.FreshKey P move)
    (hshort : (x.step P move).ShortChains) :
    (InOrder P sharedSecret (x.step P move) ∧ ∀ p, ((x.step P move).session p).Bounded) ∨
      (¬ (x.step P move).Delivers ∧ ¬ (x.step P move).FewOvertaken) := by
  rcases x.step_cases P move with ⟨p, nonce, plaintext, rfl⟩ | ⟨i, fresh, m, encrypted, rfl, hm, hr, he, hstep⟩ | hstep
  · exact .inl ⟨h.send p nonce plaintext hshort, bounded_send hb p nonce plaintext⟩
  · rw [hstep] at hshort ⊢
    rcases h.receive_cases hinv hm hr he hfresh hshort with ⟨h', key, hkey⟩ | ⟨hmany, hgt⟩
    · refine .inl ⟨h', fun q => ?_⟩
      rw [Exchange.receive_session]
      by_cases hq : q = m.sender.other
      · rw [hq, Function.update_self]
        exact bounded_of_key (hb _) hkey
      · rw [Function.update_of_ne hq]
        exact hb q
    · refine .inr ⟨fun hdelivers => ?_, fun hfew => absurd (hfew m.sender.other) (Nat.not_le.2 hgt)⟩
      -- the delivery that met the limit has failed
      have hplain := hdelivers i m _ hm (Function.update_self _ _ _)
      obtain ⟨key, hkey, -⟩ := (decrypt_ok P).1 hplain
      rw [hmany] at hkey
      cases hkey
  · rw [hstep]
    exact .inl ⟨h, hb⟩

/-! ## Runs -/

/-- What has been delivered stays delivered. -/
theorem Exchange.delivers_of_step {x : Exchange B} {move : Move} (h : (x.step P move).Delivers) : x.Delivers := by
  intro i m r hm hr
  rcases x.step_cases P move with ⟨p, nonce, plaintext, rfl⟩ | ⟨j, fresh, m', encrypted, rfl, -, hj, -, hstep⟩ | hstep
  · refine h i m r ?_ ((congrFun (x.send_result P p nonce plaintext) i).trans hr)
    change (x.send P p nonce plaintext).sent[i]? = some m
    unfold Exchange.send
    split
    · rw [List.getElem?_append_left (List.getElem?_eq_some_iff.1 hm).1, hm]
    · exact hm
  · rw [hstep] at h
    have hne : i ≠ j := by
      rintro rfl
      rw [hj] at hr
      cases hr
    exact h i m r hm ((Function.update_of_ne hne _ _).trans hr)
  · rw [hstep] at h
    exact h i m r hm hr

/-- The two ends of a conversation that starts store nothing. -/
theorem Exchange.Start.bounded {fresh : StaticSecret} {ourSpk : Identity.SignedPreKey} {x : Exchange B}
    (hstart : x.Start P sharedSecret fresh ourSpk) : ∀ p, (x.session p).Bounded
  | .alice => Created.bounded P (.alice _ _ _ hstart.alice)
  | .bob => by
    rw [hstart.bob]
    exact Created.bounded P (.bob ourSpk)

section

variable {fresh : StaticSecret} {ourSpk : Identity.SignedPreKey} {x : Exchange B} {moves : List Move}

theorem throughout_delivers :
    Run.Throughout (Exchange.step P) Exchange.Delivers x moves ↔ (Run.exec (Exchange.step P) x moves).Delivers :=
  ⟨Run.Throughout.last, Run.Throughout.of_last fun _ _ => Exchange.delivers_of_step⟩

theorem InOrder.delivers_exec_iff (h : InOrder P sharedSecret x) (hb : ∀ p, (x.session p).Bounded) (hinv : Inverts P)
    (hfresh : Run.Along (Exchange.step P) (Exchange.FreshKey P) x moves)
    (hshort : Run.Throughout (Exchange.step P) Exchange.ShortChains x moves) :
    (Run.exec (Exchange.step P) x moves).Delivers ↔
      Run.Throughout (Exchange.step P) Exchange.FewOvertaken x moves := by
  rw [← throughout_delivers]
  refine Run.throughout_congr
    (I := fun x : Exchange B => (InOrder P sharedSecret x ∧ x.ShortChains) ∧ ∀ p, (x.session p).Bounded)
    (fun x h => h.1.1.delivers) (fun x h => (h.1.1.fewOvertaken_iff hinv h.1.2).2 h.2) ?_
    ⟨⟨h, hshort.head⟩, hb⟩ (hfresh.and hshort.along)
  rintro x move ⟨⟨h, -⟩, hb⟩ ⟨hf, hs⟩
  exact (h.step_or hinv hb hf hs).imp_left fun h' => ⟨⟨h'.1, hs⟩, h'.2⟩

/-- In an honest conversation with new key pairs and chains shorter than `2^32`, every message delivered
decrypts to its plaintext exactly when never more than `MAX_SKIP` messages were overtaken at an end: the
first delivery that leaves more is the first that fails. -/
theorem delivers_iff_fewOvertaken (hinv : Inverts P) (hstart : x.Start P sharedSecret fresh ourSpk)
    (hfresh : Run.Along (Exchange.step P) (Exchange.FreshKey P) x moves)
    (hshort : Run.Throughout (Exchange.step P) Exchange.ShortChains x moves) :
    (Run.exec (Exchange.step P) x moves).Delivers ↔
      Run.Throughout (Exchange.step P) Exchange.FewOvertaken x moves :=
  (InOrder.start hstart).delivers_exec_iff hstart.bounded hinv hfresh hshort

/-- As long as every message delivered there decrypts, each end stores exactly the keys of the messages
overtaken at it. -/
theorem stores_overtaken (hinv : Inverts P) (hstart : x.Start P sharedSecret fresh ourSpk)
    (hfresh : Run.Along (Exchange.step P) (Exchange.FreshKey P) x moves)
    (hshort : Run.Throughout (Exchange.step P) Exchange.ShortChains x moves)
    (hdelivers : (Run.exec (Exchange.step P) x moves).Delivers) :
    (Run.exec (Exchange.step P) x moves).StoresOvertaken P := by
  have hrun : InOrder P sharedSecret (Run.exec (Exchange.step P) x moves) ∧
      ∀ p, ((Run.exec (Exchange.step P) x moves).session p).Bounded := by
    refine Run.exec_invariant
      (I := fun x : Exchange B => InOrder P sharedSecret x ∧ ∀ p, (x.session p).Bounded) ?_
      ⟨.start hstart, hstart.bounded⟩ (hfresh.and (hshort.along.and (throughout_delivers.2 hdelivers).along))
    rintro x move ⟨h, hb⟩ ⟨hf, hs, hd⟩
    exact (h.step_or hinv hb hf hs).resolve_right fun hnot => hnot.1 hd
  exact hrun.1.storesOvertaken hinv hshort.last

end

/-- Two messages of Alice's, the second delivered first, and an answer of Bob's. -/
def sampleMoves : List Move := [.encrypt .alice Sample.nonce [7], .encrypt .alice Sample.nonce [8],
  .deliver 1 Sample.freshSecret, .encrypt .bob Sample.nonce [9], .deliver 2 ⟨Sample.bytes32 4⟩]

theorem sampleMoves_few : Run.Throughout (Exchange.step Sample.aead)
    (fun x => x.ShortChains ∧ x.FewOvertaken) sampleExchange sampleMoves := by
  have hlength : Run.Throughout (Exchange.step Sample.aead) (fun x => x.sent.length ≤ 5) sampleExchange sampleMoves :=
    Exchange.length_sent_throughout Sample.aead (by decide)
  exact hlength.mono fun x h => ⟨Exchange.shortChains_of_length (h.trans_lt (by norm_num)),
    Exchange.fewOvertaken_of_length (h.trans (by decide))⟩

theorem delivers_iff_fewOvertaken_sample :
    (Run.exec (Exchange.step Sample.aead) sampleExchange sampleMoves).Delivers :=
  (delivers_iff_fewOvertaken sample_inverts sampleExchange_start (Exchange.freshKey_along _ (by decide) (by decide))
    (sampleMoves_few.mono fun _ h => h.1)).2 (sampleMoves_few.mono fun _ h => h.2)

theorem stores_overtaken_sample :
    (Run.exec (Exchange.step Sample.aead) sampleExchange sampleMoves).StoresOvertaken Sample.aead := by
  have hfresh : Run.Along (Exchange.step Sample.aead) (Exchange.FreshKey Sample.aead) sampleExchange sampleMoves :=
    Exchange.freshKey_along _ (by decide) (by decide)
  have hrun : InOrder Sample.aead (.shared 0) (Run.exec (Exchange.step Sample.aead) sampleExchange sampleMoves) :=
    Run.exec_invariant (I := InOrder Sample.aead (.shared 0))
      (fun x move h ⟨hf, hs, hw⟩ => h.step sample_inverts hf hs hw) (.start sampleExchange_start)
      (hfresh.and ((sampleMoves_few.mono fun _ h => h.1).along.and (sampleMoves_few.mono fun _ h => h.2).along))
  exact stores_overtaken sample_inverts sampleExchange_start hfresh (sampleMoves_few.mono fun _ h => h.1) hrun.delivers

end GhostCrypt.Ratchet
