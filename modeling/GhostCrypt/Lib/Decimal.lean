/-
Decimal numerals as ASCII bytes, and reading them back from the front of a byte string: a numeral
followed by a byte that is not a digit is determined by the bytes, and so is a comma-separated
list of numerals up to a closing byte.
-/
import Mathlib.Data.Nat.Digits.Lemmas

namespace Decimal

/-! ## Splitting off a span -/

/-- The first byte, if any, is outside `p`. -/
def StopsAt {α : Type*} (p : α → Prop) (x : List α) : Prop := ∀ b, x.head? = some b → ¬ p b

/-- A span inside `p` followed by a rest that starts outside `p` is determined by the whole. -/
theorem span_append_inj {α : Type*} {p : α → Prop} :
    ∀ {u v x y : List α}, (∀ b ∈ u, p b) → (∀ b ∈ v, p b) → StopsAt p x → StopsAt p y →
      u ++ x = v ++ y → u = v ∧ x = y
  | [], [], _, _, _, _, _, _, h => ⟨rfl, h⟩
  | [], b :: v, x, y, _, hv, hx, _, h => by
    have hb : x.head? = some b := by simp at h; simp [h]
    exact absurd (hv b (List.mem_cons_self ..)) (hx b hb)
  | a :: u, [], x, y, hu, _, _, hy, h => by
    have ha : y.head? = some a := by simp at h; simp [← h]
    exact absurd (hu a (List.mem_cons_self ..)) (hy a ha)
  | a :: u, b :: v, x, y, hu, hv, hx, hy, h => by
    simp only [List.cons_append, List.cons.injEq] at h
    obtain ⟨rfl, h⟩ := h
    obtain ⟨rfl, rfl⟩ := span_append_inj (fun c hc => hu c (List.mem_cons_of_mem _ hc))
      (fun c hc => hv c (List.mem_cons_of_mem _ hc)) hx hy h
    exact ⟨rfl, rfl⟩

/-! ## Numerals -/

/-- An ASCII digit. -/
def IsDigit (b : UInt8) : Prop := 48 ≤ b.toNat ∧ b.toNat ≤ 57

instance : DecidablePred IsDigit := fun _ => inferInstanceAs (Decidable (_ ∧ _))

/-- The ASCII byte of a digit. -/
def digitByte (d : Nat) : UInt8 := UInt8.ofNat (48 + d)

/-- The decimal numeral of `n`, without leading zeros. -/
def numeral (n : Nat) : List UInt8 :=
  if n = 0 then [digitByte 0] else (Nat.digits 10 n).reverse.map digitByte

theorem toNat_digitByte {d : Nat} (h : d < 10) : (digitByte d).toNat = 48 + d := by
  unfold digitByte
  rw [UInt8.toNat_ofNat', Nat.mod_eq_of_lt (by omega)]

theorem isDigit_digitByte {d : Nat} (h : d < 10) : IsDigit (digitByte d) := by
  unfold IsDigit
  rw [toNat_digitByte h]; omega

theorem digits_lt {n d : Nat} (h : d ∈ Nat.digits 10 n) : d < 10 :=
  Nat.digits_lt_base (by omega) h

theorem isDigit_of_mem_numeral {n : Nat} {b : UInt8} (h : b ∈ numeral n) : IsDigit b := by
  unfold numeral at h
  split at h
  · rw [List.mem_singleton] at h
    subst h; exact isDigit_digitByte (by omega)
  · obtain ⟨d, hd, rfl⟩ := List.mem_map.1 h
    exact isDigit_digitByte (digits_lt (List.mem_reverse.1 hd))

theorem numeral_ne_nil (n : Nat) : numeral n ≠ [] := by
  unfold numeral
  split
  · simp
  · rename_i h
    simpa [Nat.digits_eq_nil_iff_eq_zero] using h

/-- The digits of a numeral, zero included. -/
theorem numeral_eq_map (n : Nat) :
    ∃ ds : List Nat, numeral n = ds.map digitByte ∧ (∀ d ∈ ds, d < 10) ∧ Nat.ofDigits 10 ds.reverse = n := by
  unfold numeral
  split
  · rename_i h
    exact ⟨[0], rfl, by simp, by simp [h]⟩
  · exact ⟨(Nat.digits 10 n).reverse, rfl, fun d hd => digits_lt (List.mem_reverse.1 hd),
      by rw [List.reverse_reverse, Nat.ofDigits_digits]⟩

theorem map_digitByte_inj : ∀ {u v : List Nat}, (∀ d ∈ u, d < 10) → (∀ d ∈ v, d < 10) →
    u.map digitByte = v.map digitByte → u = v
  | [], [], _, _, _ => rfl
  | [], _ :: _, _, _, h => by cases h
  | _ :: _, [], _, _, h => by cases h
  | a :: u, b :: v, hu, hv, h => by
    simp only [List.map_cons, List.cons.injEq] at h
    have hab := congrArg UInt8.toNat h.1
    rw [toNat_digitByte (hu a (List.mem_cons_self ..)),
      toNat_digitByte (hv b (List.mem_cons_self ..))] at hab
    have huv := map_digitByte_inj (fun d hd => hu d (List.mem_cons_of_mem _ hd))
      (fun d hd => hv d (List.mem_cons_of_mem _ hd)) h.2
    rw [huv, show a = b by omega]

theorem numeral_injective : Function.Injective numeral := by
  intro m n h
  obtain ⟨u, hu, hu10, hum⟩ := numeral_eq_map m
  obtain ⟨v, hv, hv10, hvn⟩ := numeral_eq_map n
  rw [hu, hv] at h
  rw [← hum, ← hvn, map_digitByte_inj hu10 hv10 h]

/-- A numeral at the front of a byte string is read back with its rest. -/
theorem numeral_append_inj {m n : Nat} {x y : List UInt8} (hx : StopsAt IsDigit x)
    (hy : StopsAt IsDigit y) (h : numeral m ++ x = numeral n ++ y) : m = n ∧ x = y := by
  obtain ⟨hmn, rfl⟩ := span_append_inj (fun b hb => isDigit_of_mem_numeral hb)
    (fun b hb => isDigit_of_mem_numeral hb) hx hy h
  exact ⟨numeral_injective hmn, rfl⟩

/-! ## Comma-separated lists -/

/-- The numerals of a list, separated by commas. -/
def commaList : List Nat → List UInt8
  | [] => []
  | [n] => numeral n
  | n :: m :: ns => numeral n ++ 44 :: commaList (m :: ns)

theorem stopsAt_cons {b : UInt8} {x : List UInt8} (h : ¬ IsDigit b) : StopsAt IsDigit (b :: x) := by
  intro c hc
  simp only [List.head?_cons, Option.some.injEq] at hc
  exact hc ▸ h

theorem head_numeral_append (n : Nat) (x : List UInt8) :
    ∃ b, (numeral n ++ x).head? = some b ∧ IsDigit b := by
  cases hn : numeral n with
  | nil => exact absurd hn (numeral_ne_nil n)
  | cons b u =>
    exact ⟨b, rfl, isDigit_of_mem_numeral (n := n) (by rw [hn]; exact List.mem_cons_self ..)⟩

/-- A nonempty list starts with a digit. -/
theorem head_commaList_append (n : Nat) (ns : List Nat) (x : List UInt8) :
    ∃ b, (commaList (n :: ns) ++ x).head? = some b ∧ IsDigit b := by
  cases ns with
  | nil => exact head_numeral_append n x
  | cons m ns =>
    rw [commaList, List.append_assoc]
    exact head_numeral_append n _

/-- A list up to a closing byte that is neither a digit nor a comma is read back with its rest. -/
theorem commaList_append_inj {c : UInt8} (hc : ¬ IsDigit c) (hcomma : c ≠ 44) :
    ∀ {ms ns : List Nat} {x y : List UInt8},
      commaList ms ++ c :: x = commaList ns ++ c :: y → ms = ns ∧ x = y
  | [], [], x, y, h => by simpa [commaList] using h
  | [], n :: ns, x, y, h => by
    obtain ⟨b, hb, hd⟩ := head_commaList_append n ns (c :: y)
    rw [← h] at hb
    simp only [commaList, List.nil_append, List.head?_cons, Option.some.injEq] at hb
    exact absurd (hb ▸ hd) hc
  | m :: ms, [], x, y, h => by
    obtain ⟨b, hb, hd⟩ := head_commaList_append m ms (c :: x)
    rw [h] at hb
    simp only [commaList, List.nil_append, List.head?_cons, Option.some.injEq] at hb
    exact absurd (hb ▸ hd) hc
  | [m], [n], x, y, h => by
    obtain ⟨rfl, h'⟩ := numeral_append_inj (stopsAt_cons hc) (stopsAt_cons hc) h
    simpa using h'
  | [m], n :: n' :: ns, x, y, h => by
    simp only [commaList, List.append_assoc, List.cons_append] at h
    obtain ⟨-, h'⟩ := numeral_append_inj (stopsAt_cons hc) (stopsAt_cons (by decide)) h
    simp only [List.cons.injEq] at h'
    exact absurd h'.1 hcomma
  | m :: m' :: ms, [n], x, y, h => by
    simp only [commaList, List.append_assoc, List.cons_append] at h
    obtain ⟨-, h'⟩ := numeral_append_inj (stopsAt_cons (by decide)) (stopsAt_cons hc) h
    simp only [List.cons.injEq] at h'
    exact absurd h'.1.symm hcomma
  | m :: m' :: ms, n :: n' :: ns, x, y, h => by
    simp only [commaList, List.append_assoc, List.cons_append] at h
    obtain ⟨rfl, h'⟩ := numeral_append_inj (stopsAt_cons (by decide)) (stopsAt_cons (by decide)) h
    simp only [List.cons.injEq, true_and] at h'
    obtain ⟨htail, rfl⟩ := commaList_append_inj hc hcomma h'
    exact ⟨by rw [htail], rfl⟩

end Decimal
