/-
How many times `decrypt` advances a chain. The loops run to a number the header gives, up to `2^32 - 1`,
and only the limit on the stored keys stops them. Every turn writes an entry that the call has not
written before, in either loop, so the limit is met after `MAX_SKIP + 1` turns whatever was stored.
-/
import GhostCrypt.Lib.Counted
import GhostCrypt.Ratchet.Stored

namespace GhostCrypt.Ratchet

open Session Counted

variable {B : Type} [ByteString B] (P : Primitives B)

/-! ## Counting -/

section

variable {ε α β σ : Type}

/-- `Outcome.andThen` on a counted call. -/
def andThenOk (x : Counted (Outcome ε α × σ)) (f : α → σ → Counted (Outcome ε β × σ)) : Counted (Outcome ε β × σ) :=
  x.andThen fun
    | (.ok a, s) => f a s
    | (.err e, s) => done (.err e, s)
    | (.panic, s) => done (.panic, s)

variable {x : ℕ → Counted (Outcome ε α × σ)} {f : ℕ → α → σ → Counted (Outcome ε β × σ)}
  {g : α → σ → Outcome ε β × σ} {t k : ℕ} {s : σ}

theorem ends_andThenOk {a : α} (hx : Ends x (.ok a, s) t) (hf : Ends (fun fuel => f fuel a s) (g a s) k) :
    Ends (fun fuel => andThenOk (x fuel) (f fuel)) (Outcome.andThen (.ok a, s) g) (t + k) := hx.andThen hf

theorem ends_andThenOk_err {e : ε} (hx : Ends x (.err e, s) t) :
    Ends (fun fuel => andThenOk (x fuel) (f fuel)) (Outcome.andThen (.err e, s) g) t := by
  refine hx.andThen (k := 0) fun fuel _ => ?_
  rfl

theorem ends_andThenOk_panic (hx : Ends x (.panic, s) t) :
    Ends (fun fuel => andThenOk (x fuel) (f fuel)) (Outcome.andThen (.panic, s) g) t := by
  refine hx.andThen (k := 0) fun fuel _ => ?_
  rfl

/-- What follows takes no call. -/
theorem ends_andThenOk_done {r : Outcome ε α × σ} (hx : Ends x r t) :
    Ends (fun fuel => andThenOk (x fuel) fun a s => done (g a s)) (Outcome.andThen r g) t := by
  rcases r with ⟨a | e | _, s⟩
  · exact ends_andThenOk (f := fun _ a s => done (g a s)) hx (ends_done _)
  · exact ends_andThenOk_err hx
  · exact ends_andThenOk_panic hx

end

/-- `advance`, counted. -/
def ChainKey.advanceCounted (c : ChainKey B) : Counted (Except CryptoError (B × ChainKey B)) := tick (c.advance P)

namespace Session

/-- `skipLoop` with the calls of `advance` counted, cut off after `fuel` turns. -/
def skipLoopCounted (dhBytes : Bytes) (upTo : UInt32) :
    Nat → ChainKey B → SkippedKeys B → Counted (Outcome CryptoError Unit × ChainKey B × SkippedKeys B)
  | 0, recvChain, skipped => if recvChain.index < upTo then none else done (.ok (), recvChain, skipped)
  | fuel + 1, recvChain, skipped =>
    if recvChain.index < upTo then
      (recvChain.advanceCounted P).andThen fun
        | .error e => done (.err e, recvChain, skipped)
        | .ok (skippedMk, recvChain) =>
          let skipped := skipped.insert (dhBytes, recvChain.index - 1) skippedMk
          if skipped.keys.card > maxSkip then done (.err (.ratchet "Too many skipped messages"), recvChain, skipped)
          else skipLoopCounted dhBytes upTo fuel recvChain skipped
    else done (.ok (), recvChain, skipped)

/-- `skipUntil`, counted. -/
def skipUntilCounted (fuel : Nat) (dhBytes : Bytes) (upTo : UInt32) (recvChain : ChainKey B) (s : Session B) :
    Counted (Outcome CryptoError (ChainKey B) × Session B) :=
  (skipLoopCounted P dhBytes upTo fuel recvChain s.skippedKeys).andThen fun
    | (.ok (), recvChain, skipped) =>
      done (.ok recvChain, { s with receivingChain := some recvChain, skippedKeys := skipped })
    | (.err e, recvChain, skipped) =>
      done (.err e, { s with receivingChain := some recvChain, skippedKeys := skipped })
    | (.panic, recvChain, skipped) =>
      done (.panic, { s with receivingChain := some recvChain, skippedKeys := skipped })

/-- `skipCurrentReceivingChain`, counted. -/
def skipCurrentReceivingChainCounted (fuel : Nat) (s : Session B) (upTo : UInt32) :
    Counted (Outcome CryptoError Unit × Session B) :=
  match s.receivingChain, s.remoteDhPublic with
  | some recvChain, some remote =>
    andThenOk (s.skipUntilCounted P fuel remote.toVec upTo recvChain) fun _ s => done (.ok (), s)
  | _, _ => done (.ok (), s)

/-- `receivingKey`, counted. -/
def receivingKeyCounted (fuel : Nat) (s : Session B) (header : MessageHeader) :
    Counted (Outcome CryptoError B × Session B) :=
  match s.receivingChain with
  | none => done (.err (.ratchet "No receiving chain established"), s)
  | some recvChain =>
    andThenOk (s.skipUntilCounted P fuel header.dhPublicKey header.messageNumber recvChain) fun recvChain s =>
      (recvChain.advanceCounted P).andThen fun
        | .error e => done (.err e, s)
        | .ok (messageKey, recvChain) =>
          done (tryInto32 messageKey "Invalid message key length", { s with receivingChain := some recvChain })

/-- `takeMessageKey`, counted. -/
def takeMessageKeyCounted (fuel : Nat) (fresh : StaticSecret) (s : Session B) (header : MessageHeader) :
    Counted (Outcome CryptoError B × Session B) :=
  match s.skippedKeys.lookup (header.dhPublicKey, header.messageNumber) with
  | some storedMk =>
    done (tryInto32 storedMk "Invalid skipped key length",
      { s with skippedKeys := s.skippedKeys.erase (header.dhPublicKey, header.messageNumber) })
  | none =>
    match header.toPublicKey with
    | none => done (.panic, s)
    | some headerDhPublic =>
      if s.needRatchet headerDhPublic then
        andThenOk (s.skipCurrentReceivingChainCounted P fuel header.previousChainLength) fun _ s =>
        andThenOk (done (s.dhRatchet P fresh headerDhPublic)) fun _ s =>
        s.receivingKeyCounted P fuel header
      else s.receivingKeyCounted P fuel header

/-- `decrypt` with the calls of `advance` counted; neither loop may make more than `fuel` turns. -/
def decryptCounted (fuel : Nat) (fresh : StaticSecret) (s : Session B) (header : MessageHeader)
    (encrypted : Aead.Encrypted) : Counted (Outcome CryptoError Bytes × Session B) :=
  andThenOk (s.takeMessageKeyCounted P fuel fresh header) fun key s =>
    done (Aead.decrypt P key encrypted header.toBytes, s)

end Session

/-! ## The loops -/

/-- How `t` turns of a loop left the store: the limit was kept before the last, and after it as well
if the loop ended without an error. -/
structure Turns (dhBytes : Bytes) (c : ChainKey B) (m : SkippedKeys B)
    (r : Outcome CryptoError Unit × ChainKey B × SkippedKeys B)
    (t : Nat) : Prop where
  le : t ≤ 2 ^ 32
  within : ∀ j < t, 0 < j → (storeSkipped P dhBytes c m j).keys.card ≤ maxSkip
  last : r.1 = .ok () → r.2.2 = storeSkipped P dhBytes c m t ∧
    (0 < t → (storeSkipped P dhBytes c m t).keys.card ≤ maxSkip)

variable {P}

theorem skipLoopCounted_of_not_lt (dhBytes : Bytes) {upTo : UInt32} {c : ChainKey B} (hge : ¬ c.index < upTo)
    (fuel : Nat) (m : SkippedKeys B) : skipLoopCounted P dhBytes upTo fuel c m = done (.ok (), c, m) := by
  cases fuel with
  | zero => rw [skipLoopCounted, if_neg hge]
  | succ fuel => rw [skipLoopCounted, if_neg hge]

/-- A turn of the counted loop is one call. -/
theorem skipLoopCounted_of_lt (dhBytes : Bytes) {upTo : UInt32} {c : ChainKey B} (hlt : c.index < upTo) (fuel : Nat)
    (m : SkippedKeys B) : skipLoopCounted P dhBytes upTo (fuel + 1) c m =
      (if (storeSkipped P dhBytes c m 1).keys.card > maxSkip then
        done (.err tooMany, c.advanced P 1, storeSkipped P dhBytes c m 1)
      else skipLoopCounted P dhBytes upTo fuel (c.advanced P 1) (storeSkipped P dhBytes c m 1)).map
        fun r => (r.1, 1 + r.2) := by
  have hidx : c.index + 1 - 1 = c.index := UInt32.add_sub_cancel ..
  rw [skipLoopCounted, if_pos hlt, ChainKey.advanceCounted, andThen_tick, advance_eq]
  simp only [hidx, storeSkipped_one]
  rfl

/-- A turn that keeps the limit, and the turns after it. -/
theorem Turns.succ {dhBytes : Bytes} {c : ChainKey B} {m : SkippedKeys B}
    {r : Outcome CryptoError Unit × ChainKey B × SkippedKeys B} {t : Nat}
    (h : Turns P dhBytes (c.advanced P 1) (storeSkipped P dhBytes c m 1) r t) (ht : t < 2 ^ 32)
    (hcard : (storeSkipped P dhBytes c m 1).keys.card ≤ maxSkip) : Turns P dhBytes c m r (t + 1) where
  le := ht
  within j hj h0 := by
    obtain ⟨i, rfl⟩ : ∃ i, j = i + 1 := ⟨j - 1, by omega⟩
    rcases Nat.eq_zero_or_pos i with rfl | hi
    · exact hcard
    · rw [← storeSkipped_succ]
      exact h.within i (by omega) hi
  last hok := by
    obtain ⟨hstore, hlast⟩ := h.last hok
    rw [storeSkipped_succ] at hstore hlast
    refine ⟨hstore, fun _ => ?_⟩
    rcases Nat.eq_zero_or_pos t with rfl | hpos
    · exact hcard
    · exact hlast hpos

theorem skipLoop_ends (dhBytes : Bytes) (upTo : UInt32) : ∀ (n : Nat) (c : ChainKey B) (m : SkippedKeys B),
    n = upTo.toNat - c.index.toNat → ∃ t, t ≤ n ∧
      Ends (fun fuel => skipLoopCounted P dhBytes upTo fuel c m) (skipLoop P dhBytes upTo n c m) t ∧
      Turns P dhBytes c m (skipLoop P dhBytes upTo n c m) t
  | 0, c, m, hn => by
    have hge : ¬ c.index < upTo := by rw [UInt32.lt_iff_toNat_lt]; omega
    refine ⟨0, le_rfl, fun fuel _ => ?_, by norm_num, fun j hj => absurd hj (Nat.not_lt_zero j),
      fun _ => ⟨rfl, fun h => absurd h (Nat.lt_irrefl 0)⟩⟩
    change skipLoopCounted P dhBytes upTo fuel c m = _
    rw [skipLoopCounted_of_not_lt dhBytes hge]
    rfl
  | n + 1, c, m, hn => by
    have hlt : c.index < upTo := by rw [UInt32.lt_iff_toNat_lt]; omega
    rw [skipLoop_of_lt P dhBytes hlt]
    by_cases hcard : (storeSkipped P dhBytes c m 1).keys.card > maxSkip
    · rw [if_pos hcard]
      refine ⟨1, by omega, fun fuel hle => ?_, by norm_num, fun j hj h0 => by omega, fun h => by cases h⟩
      obtain ⟨fuel, rfl⟩ : ∃ k, fuel = k + 1 := ⟨fuel - 1, by omega⟩
      change skipLoopCounted P dhBytes upTo (fuel + 1) c m = _
      rw [skipLoopCounted_of_lt dhBytes hlt, if_pos hcard]
      rfl
    · rw [if_neg hcard]
      obtain ⟨t, hle, hends, hturns⟩ := skipLoop_ends dhBytes upTo n (c.advanced P 1) (storeSkipped P dhBytes c m 1)
        (by rw [toNat_index_advanced hlt]; omega)
      have hbound := toNat_sub_lt upTo c.index
      refine ⟨t + 1, by omega, fun fuel hfuel => ?_, hturns.succ (by omega) (Nat.not_lt.1 hcard)⟩
      obtain ⟨fuel, rfl⟩ : ∃ k, fuel = k + 1 := ⟨fuel - 1, by omega⟩
      change skipLoopCounted P dhBytes upTo (fuel + 1) c m = _
      have hrest : skipLoopCounted P dhBytes upTo fuel (c.advanced P 1) (storeSkipped P dhBytes c m 1) = _ :=
        hends fuel (by omega)
      rw [skipLoopCounted_of_lt dhBytes hlt, if_neg hcard, hrest, Nat.add_comm]
      rfl

/-- Entries under another key and those of the loop are different. -/
theorem card_add_le {dhBytes : Bytes} {c : ChainKey B} {m : SkippedKeys B} {used : Finset (Bytes × UInt32)}
    (hused : used ⊆ m.keys) (hother : ∀ x ∈ used, x.1 ≠ dhBytes) {j : Nat} (hj : j ≤ 2 ^ 32) :
    used.card + j ≤ (storeSkipped P dhBytes c m j).keys.card := by
  have hdisjoint : Disjoint used (passed dhBytes c.index j) := by
    rw [Finset.disjoint_left]
    rintro x hx hp
    obtain ⟨n, -, rfl⟩ := mem_passed.1 hp
    exact hother _ hx rfl
  have hcard := Finset.card_union_of_disjoint hdisjoint
  rw [card_passed dhBytes c.index hj] at hcard
  rw [← hcard, keys_storeSkipped]
  exact Finset.card_le_card (Finset.union_subset_union_left hused)

/-- With the entries `used` written before, the limit stops the loop in time. -/
theorem Turns.add_le {dhBytes : Bytes} {c : ChainKey B} {m : SkippedKeys B}
    {r : Outcome CryptoError Unit × ChainKey B × SkippedKeys B} {t : Nat} (h : Turns P dhBytes c m r t)
    {used : Finset (Bytes × UInt32)} (hused : used ⊆ m.keys) (hother : ∀ x ∈ used, x.1 ≠ dhBytes)
    (hle : used.card ≤ maxSkip) : used.card + t ≤ maxSkip + 1 ∧ (r.1 = .ok () → used.card + t ≤ maxSkip) := by
  have ht := h.le
  constructor
  · by_cases h1 : t ≤ 1
    · omega
    · have hcard := h.within (t - 1) (by omega) (by omega)
      have hsum := card_add_le (P := P) (c := c) hused hother (j := t - 1) (by omega)
      omega
  · intro hok
    rcases Nat.eq_zero_or_pos t with rfl | hpos
    · exact hle
    · exact (card_add_le hused hother ht).trans ((h.last hok).2 hpos)

/-! ## The call -/

namespace Session

theorem skipUntil_ends (dhBytes : Bytes) (upTo : UInt32) (c : ChainKey B) (s : Session B) : ∃ t,
    Ends (fun fuel => s.skipUntilCounted P fuel dhBytes upTo c) (s.skipUntil P dhBytes upTo c) t ∧
      ∃ r, Turns P dhBytes c s.skippedKeys r t ∧ (∀ c', (s.skipUntil P dhBytes upTo c).1 = .ok c' → r.1 = .ok ()) ∧
        (s.skipUntil P dhBytes upTo c).2.skippedKeys = r.2.2 := by
  obtain ⟨t, -, hends, hturns⟩ := skipLoop_ends (P := P) dhBytes upTo _ c s.skippedKeys rfl
  refine ⟨t, ?_, _, hturns, ?_, ?_⟩
  · refine hends.andThen (k := 0) fun fuel _ => ?_
    unfold skipUntil
    rcases skipLoop P dhBytes upTo (upTo.toNat - c.index.toNat) c s.skippedKeys with ⟨⟨⟩ | _ | _, _, _⟩ <;> rfl
  · intro c' hc'
    unfold skipUntil at hc'
    rcases hr : skipLoop P dhBytes upTo (upTo.toNat - c.index.toNat) c s.skippedKeys with ⟨⟨⟩ | e | _, c'', m⟩
    · rfl
    · rw [hr] at hc'
      cases hc'
    · rw [hr] at hc'
      cases hc'
  · unfold skipUntil
    rcases skipLoop P dhBytes upTo (upTo.toNat - c.index.toNat) c s.skippedKeys with ⟨⟨⟩ | _ | _, _, _⟩ <;> rfl

/-- The receiving chain: its loop, and one more call for the message's own key. -/
theorem receivingKey_ends (s : Session B) (header : MessageHeader) {used : Finset (Bytes × UInt32)}
    (hused : used ⊆ s.skippedKeys.keys) (hother : ∀ x ∈ used, x.1 ≠ header.dhPublicKey) (hle : used.card ≤ maxSkip) :
    ∃ t, Ends (fun fuel => s.receivingKeyCounted P fuel header) (s.receivingKey P header) t ∧
      used.card + t ≤ maxSkip + 1 := by
  unfold receivingKeyCounted receivingKey
  cases s.receivingChain with
  | none => exact ⟨0, ends_done _, by omega⟩
  | some c =>
    obtain ⟨t, hends, r, hturns, hok, -⟩ := skipUntil_ends (P := P) header.dhPublicKey header.messageNumber c s
    obtain ⟨hany, hroom⟩ := hturns.add_le hused hother hle
    simp only
    rcases hr : s.skipUntil P header.dhPublicKey header.messageNumber c with ⟨c' | e | _, s'⟩ <;> rw [hr] at hends hok
    · have hlast := hroom (hok c' rfl)
      exact ⟨t + 1, ends_andThenOk hends fun _ _ => rfl, by omega⟩
    · exact ⟨t, ends_andThenOk_err hends, hany⟩
    · exact ⟨t, ends_andThenOk_panic hends, hany⟩

theorem skipCurrentReceivingChain_ends (s : Session B) (upTo : UInt32) : ∃ t,
    Ends (fun fuel => s.skipCurrentReceivingChainCounted P fuel upTo) (s.skipCurrentReceivingChain P upTo) t ∧
      t ≤ maxSkip + 1 ∧ ((s.skipCurrentReceivingChain P upTo).1 = .ok () → ∃ used ⊆
        (s.skipCurrentReceivingChain P upTo).2.skippedKeys.keys, used.card = t ∧ t ≤ maxSkip ∧
          ∀ x ∈ used, ∃ old, s.remoteDhPublic = some old ∧ x.1 = old.toVec) := by
  unfold skipCurrentReceivingChainCounted skipCurrentReceivingChain
  have hnone : ∃ t, Ends (fun _ => done ((.ok () : Outcome CryptoError Unit), s)) (.ok (), s) t ∧ t ≤ maxSkip + 1 ∧
      ((.ok () : Outcome CryptoError Unit) = .ok () → ∃ used ⊆ s.skippedKeys.keys, used.card = t ∧ t ≤ maxSkip ∧
        ∀ x ∈ used, ∃ old, s.remoteDhPublic = some old ∧ x.1 = old.toVec) :=
    ⟨0, ends_done _, Nat.zero_le _, fun _ => ⟨∅, Finset.empty_subset _, Finset.card_empty, Nat.zero_le _,
      fun x hx => absurd hx (Finset.notMem_empty x)⟩⟩
  cases s.receivingChain with
  | none => exact hnone
  | some c =>
  cases hold : s.remoteDhPublic with
  | none => rwa [hold] at hnone
  | some old =>
    simp only
    obtain ⟨t, hends, r, hturns, hok, hstore⟩ := skipUntil_ends (P := P) old.toVec upTo c s
    obtain ⟨hany, hroom⟩ := hturns.add_le (Finset.empty_subset _) (fun x hx => absurd hx (Finset.notMem_empty x))
      (Nat.zero_le _)
    rw [Finset.card_empty, Nat.zero_add] at hany hroom
    rcases hr : s.skipUntil P old.toVec upTo c with ⟨c' | e | _, s'⟩ <;> rw [hr] at hends hok hstore
    · have hdone := hok c' rfl
      refine ⟨t, ends_andThenOk_done hends, hany, fun _ => ⟨passed old.toVec c.index t, ?_,
        card_passed _ _ hturns.le, hroom hdone, fun x hx => ⟨old, rfl, ?_⟩⟩⟩
      · show _ ⊆ s'.skippedKeys.keys
        rw [show s'.skippedKeys = r.2.2 from hstore, (hturns.last hdone).1, keys_storeSkipped]
        exact Finset.subset_union_right
      · obtain ⟨n, -, rfl⟩ := mem_passed.1 hx
        rfl
    · exact ⟨t, ends_andThenOk_done hends, hany, fun h => by cases h⟩
    · exact ⟨t, ends_andThenOk_done hends, hany, fun h => by cases h⟩

theorem takeMessageKey_ends (fresh : StaticSecret) (s : Session B) (header : MessageHeader) : ∃ t,
    Ends (fun fuel => s.takeMessageKeyCounted P fuel fresh header) (s.takeMessageKey P fresh header) t ∧
      t ≤ maxSkip + 1 := by
  unfold takeMessageKeyCounted takeMessageKey
  cases s.skippedKeys.lookup (header.dhPublicKey, header.messageNumber) with
  | some mk => exact ⟨0, ends_done _, Nat.zero_le _⟩
  | none =>
    cases hk : header.toPublicKey with
    | none => exact ⟨0, ends_done _, Nat.zero_le _⟩
    | some k =>
      simp only [needRatchet, bne_iff_ne, ne_eq]
      split
      · rename_i hne
        obtain ⟨t, hends, hany, hroom⟩ := skipCurrentReceivingChain_ends (P := P) s header.previousChainLength
        rcases hr : s.skipCurrentReceivingChain P header.previousChainLength with ⟨⟨⟩ | e | _, s'⟩ <;>
          rw [hr] at hends hroom
        · -- the second loop writes under the new key
          obtain ⟨used, hused, hcard, hle, hunder⟩ := hroom rfl
          have hother : ∀ x ∈ used, x.1 ≠ header.dhPublicKey := by
            intro x hx heq
            obtain ⟨old, hold, hold'⟩ := hunder x hx
            rw [MessageHeader.toPublicKey_eq_some.1 hk, hold', PublicKey.toVec_inj] at heq
            exact hne (heq ▸ hold)
          obtain ⟨t', hends', hsum⟩ := receivingKey_ends (P := P) (s'.ratcheted P fresh k) header hused hother
            (hcard ▸ hle)
          refine ⟨t + t', ends_andThenOk hends ?_, hcard ▸ hsum⟩
          simp only [dhRatchet_eq, andThenOk, andThen_done, Outcome.andThen_ok]
          exact hends'
        · exact ⟨t, ends_andThenOk_err hends, hany⟩
        · exact ⟨t, ends_andThenOk_panic hends, hany⟩
      · obtain ⟨t, hends, hsum⟩ := receivingKey_ends (P := P) s header (Finset.empty_subset _)
          (fun x hx => absurd hx (Finset.notMem_empty x)) (Nat.zero_le _)
        rw [Finset.card_empty, Nat.zero_add] at hsum
        exact ⟨t, hends, hsum⟩

/-- Every `decrypt` call ends, as in `decrypt`, after at most `MAX_SKIP + 1` calls of `advance`: loops
that may make that many turns or more are never cut off, whatever is stored and whatever the header. -/
theorem decrypt_advances_le (fresh : StaticSecret) (s : Session B) (header : MessageHeader)
    (encrypted : Aead.Encrypted) :
    ∃ n ≤ maxSkip + 1, ∀ k,
      s.decryptCounted P (maxSkip + 1 + k) fresh header encrypted = some (s.decrypt P fresh header encrypted, n) := by
  obtain ⟨t, hends, hle⟩ := takeMessageKey_ends (P := P) fresh s header
  have hdecrypt := ends_andThenOk_done (g := fun key s => (Aead.decrypt P key encrypted header.toBytes, s)) hends
  exact ⟨t, hle, fun k => hdecrypt _ (hle.trans (Nat.le_add_right _ k))⟩

end Session

end GhostCrypt.Ratchet
