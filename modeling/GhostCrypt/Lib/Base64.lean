/-
Base64 with the standard alphabet and padding (RFC 4648, section 4). The decoder is strict: it wants
the padding, and zeros in the bits the padding leaves over, so that a byte string has exactly one
spelling.
-/
import Mathlib.Data.List.Basic
import Mathlib.Tactic.Cases

namespace Base64

/-! ## Alphabet -/

/-- The character of six bits. -/
def toChar (i : ℕ) : Char :=
  if i < 26 then Char.ofNat (i + 65)
  else if i < 52 then Char.ofNat (i + 71)
  else if i < 62 then Char.ofNat (i - 4)
  else if i = 62 then '+'
  else '/'

/-- The six bits of a character. -/
def ofChar (c : Char) : Option ℕ :=
  if 65 ≤ c.toNat ∧ c.toNat ≤ 90 then some (c.toNat - 65)
  else if 97 ≤ c.toNat ∧ c.toNat ≤ 122 then some (c.toNat - 71)
  else if 48 ≤ c.toNat ∧ c.toNat ≤ 57 then some (c.toNat + 4)
  else if c = '+' then some 62
  else if c = '/' then some 63
  else none

theorem ofChar_toChar : ∀ i < 64, ofChar (toChar i) = some i := by decide

theorem toChar_ne_pad : ∀ i < 64, toChar i ≠ '=' := by decide

/-- A character stands for at most one value. -/
theorem toChar_of_ofChar {c : Char} {i : ℕ} (h : ofChar c = some i) : i < 64 ∧ toChar i = c := by
  have hc : Char.ofNat c.toNat = c := Char.ofNat_toNat c
  unfold ofChar at h
  split at h
  · obtain rfl := Option.some.inj h
    refine ⟨by omega, ?_⟩
    rw [toChar, if_pos (by omega), Nat.sub_add_cancel (by omega), hc]
  split at h
  · obtain rfl := Option.some.inj h
    refine ⟨by omega, ?_⟩
    rw [toChar, if_neg (by omega), if_pos (by omega), Nat.sub_add_cancel (by omega), hc]
  split at h
  · obtain rfl := Option.some.inj h
    refine ⟨by omega, ?_⟩
    rw [toChar, if_neg (by omega), if_neg (by omega), if_pos (by omega), Nat.add_sub_cancel, hc]
  split at h
  · rename_i hplus
    obtain rfl := Option.some.inj h
    exact ⟨by omega, hplus.symm⟩
  split at h
  · rename_i hslash
    obtain rfl := Option.some.inj h
    exact ⟨by omega, hslash.symm⟩
  · cases h

theorem ofChar_eq_some {c : Char} {i : ℕ} : ofChar c = some i ↔ i < 64 ∧ c = toChar i :=
  ⟨fun h => ⟨(toChar_of_ofChar h).1, (toChar_of_ofChar h).2.symm⟩, fun ⟨hi, hc⟩ => hc ▸ ofChar_toChar i hi⟩

/-! ## Codec -/

/-- Three bytes at a time; one or two left over are padded. -/
def encode : List UInt8 → List Char
  | [] => []
  | [a] => [toChar (a.toNat / 4), toChar (a.toNat % 4 * 16), '=', '=']
  | [a, b] => [toChar (a.toNat / 4), toChar (a.toNat % 4 * 16 + b.toNat / 16), toChar (b.toNat % 16 * 4), '=']
  | a :: b :: c :: rest =>
    toChar (a.toNat / 4) :: toChar (a.toNat % 4 * 16 + b.toNat / 16) ::
      toChar (b.toNat % 16 * 4 + c.toNat / 64) :: toChar (c.toNat % 64) :: encode rest

/-- The byte of `wx==`. -/
def decodeOne (w x : Char) : Option (List UInt8) := do
  let i ← ofChar w
  let j ← ofChar x
  if j % 16 = 0 then some [UInt8.ofNat (i * 4 + j / 16)] else none

/-- The bytes of `wxy=`. -/
def decodeTwo (w x y : Char) : Option (List UInt8) := do
  let i ← ofChar w
  let j ← ofChar x
  let k ← ofChar y
  if k % 4 = 0 then some [UInt8.ofNat (i * 4 + j / 16), UInt8.ofNat (j % 16 * 16 + k / 4)] else none

/-- The bytes of `wxyz`. -/
def decodeThree (w x y z : Char) : Option (List UInt8) := do
  let i ← ofChar w
  let j ← ofChar x
  let k ← ofChar y
  let l ← ofChar z
  some [UInt8.ofNat (i * 4 + j / 16), UInt8.ofNat (j % 16 * 16 + k / 4), UInt8.ofNat (k % 4 * 64 + l)]

/-- Four characters at a time; padding ends the text. -/
def decode : List Char → Option (List UInt8)
  | [] => some []
  | w :: x :: y :: z :: rest =>
    if z = '=' then
      if rest = [] then if y = '=' then decodeOne w x else decodeTwo w x y else none
    else do
      let head ← decodeThree w x y z
      let tail ← decode rest
      some (head ++ tail)
  | _ => none

/-! ## One spelling for each byte string -/

theorem toNat_ofNat {n : ℕ} (h : n < 256) : (UInt8.ofNat n).toNat = n := by
  rw [UInt8.toNat_ofNat', Nat.mod_eq_of_lt h]

theorem eq_ofNat {a : UInt8} {n : ℕ} (h : a.toNat = n) : UInt8.ofNat n = a := by
  rw [← h, UInt8.ofNat_toNat]

theorem decodeOne_eq_some {w x : Char} {bs : List UInt8} :
    decodeOne w x = some bs ↔ ∃ a, bs = [a] ∧ encode [a] = [w, x, '=', '='] := by
  constructor
  · intro h
    simp only [decodeOne, Option.bind_eq_bind, Option.bind_eq_some_iff, ofChar_eq_some] at h
    obtain ⟨i, ⟨hi, rfl⟩, j, ⟨hj, rfl⟩, h⟩ := h
    split at h
    · obtain rfl := Option.some.inj h
      refine ⟨_, rfl, ?_⟩
      rw [encode, toNat_ofNat (by omega)]
      simp only [List.cons.injEq, and_true]
      refine ⟨?_, ?_⟩ <;> congr 1 <;> omega
    · cases h
  · rintro ⟨a, rfl, h⟩
    have ha := a.toNat_lt
    simp only [encode, List.cons.injEq, and_true] at h
    obtain ⟨rfl, rfl⟩ := h
    rw [decodeOne, ofChar_toChar _ (by omega), ofChar_toChar _ (by omega)]
    simp only [Option.bind_eq_bind, Option.bind_some]
    rw [if_pos (by omega), eq_ofNat (a := a) (by omega)]

theorem decodeTwo_eq_some {w x y : Char} {bs : List UInt8} :
    decodeTwo w x y = some bs ↔ ∃ a b, bs = [a, b] ∧ encode [a, b] = [w, x, y, '='] := by
  constructor
  · intro h
    simp only [decodeTwo, Option.bind_eq_bind, Option.bind_eq_some_iff, ofChar_eq_some] at h
    obtain ⟨i, ⟨hi, rfl⟩, j, ⟨hj, rfl⟩, k, ⟨hk, rfl⟩, h⟩ := h
    split at h
    · obtain rfl := Option.some.inj h
      refine ⟨_, _, rfl, ?_⟩
      rw [encode, toNat_ofNat (by omega), toNat_ofNat (by omega)]
      simp only [List.cons.injEq, and_true]
      refine ⟨?_, ?_, ?_⟩ <;> congr 1 <;> omega
    · cases h
  · rintro ⟨a, b, rfl, h⟩
    have ha := a.toNat_lt
    have hb := b.toNat_lt
    simp only [encode, List.cons.injEq, and_true] at h
    obtain ⟨rfl, rfl, rfl⟩ := h
    rw [decodeTwo, ofChar_toChar _ (by omega), ofChar_toChar _ (by omega), ofChar_toChar _ (by omega)]
    simp only [Option.bind_eq_bind, Option.bind_some]
    rw [if_pos (by omega), eq_ofNat (a := a) (by omega), eq_ofNat (a := b) (by omega)]

theorem decodeThree_eq_some {w x y z : Char} {bs : List UInt8} :
    decodeThree w x y z = some bs ↔ ∃ a b c, bs = [a, b, c] ∧ encode [a, b, c] = [w, x, y, z] := by
  constructor
  · intro h
    simp only [decodeThree, Option.bind_eq_bind, Option.bind_eq_some_iff, ofChar_eq_some] at h
    obtain ⟨i, ⟨hi, rfl⟩, j, ⟨hj, rfl⟩, k, ⟨hk, rfl⟩, l, ⟨hl, rfl⟩, h⟩ := h
    obtain rfl := Option.some.inj h
    refine ⟨_, _, _, rfl, ?_⟩
    rw [encode, encode, toNat_ofNat (by omega), toNat_ofNat (by omega), toNat_ofNat (by omega)]
    simp only [List.cons.injEq, and_true]
    refine ⟨?_, ?_, ?_, ?_⟩ <;> congr 1 <;> omega
  · rintro ⟨a, b, c, rfl, h⟩
    have ha := a.toNat_lt
    have hb := b.toNat_lt
    have hc := c.toNat_lt
    simp only [encode, List.cons.injEq, and_true] at h
    obtain ⟨rfl, rfl, rfl, rfl⟩ := h
    rw [decodeThree, ofChar_toChar _ (by omega), ofChar_toChar _ (by omega), ofChar_toChar _ (by omega),
      ofChar_toChar _ (by omega)]
    simp only [Option.bind_eq_bind, Option.bind_some]
    rw [eq_ofNat (a := a) (by omega), eq_ofNat (a := b) (by omega), eq_ofNat (a := c) (by omega)]

theorem encode_cons_three (a b c : UInt8) (rest : List UInt8) :
    encode (a :: b :: c :: rest) = encode [a, b, c] ++ encode rest := rfl

/-- What encodes to a text is what the text decodes to. -/
theorem decode_encode : ∀ bs : List UInt8, decode (encode bs) = some bs
  | [] => rfl
  | [a] => by
    rw [encode, decode, if_pos rfl, if_pos rfl, if_pos rfl]
    exact decodeOne_eq_some.2 ⟨a, rfl, rfl⟩
  | [a, b] => by
    rw [encode, decode, if_pos rfl, if_pos rfl, if_neg (toChar_ne_pad _ (by omega))]
    exact decodeTwo_eq_some.2 ⟨a, b, rfl, rfl⟩
  | a :: b :: c :: rest => by
    rw [encode, decode, if_neg (toChar_ne_pad _ (by omega)), decodeThree_eq_some.2 ⟨a, b, c, rfl, rfl⟩,
      decode_encode rest]
    rfl

/-- A text that decodes is the one its bytes encode to. -/
theorem encode_of_decode : ∀ {text : List Char} {bs : List UInt8}, decode text = some bs → encode bs = text
  | [], bs, h => by
    obtain rfl := Option.some.inj h
    rfl
  | w :: x :: y :: z :: rest, bs, h => by
    rw [decode] at h
    split at h
    · rename_i hz
      split at h
      · rename_i hrest
        subst hz hrest
        split at h
        · rename_i hy
          subst hy
          obtain ⟨a, rfl, henc⟩ := decodeOne_eq_some.1 h
          exact henc
        · obtain ⟨a, b, rfl, henc⟩ := decodeTwo_eq_some.1 h
          exact henc
      · cases h
    · simp only [Option.bind_eq_bind, Option.bind_eq_some_iff, Option.some.injEq] at h
      obtain ⟨head, hhead, tail, htail, rfl⟩ := h
      obtain ⟨a, b, c, rfl, henc⟩ := decodeThree_eq_some.1 hhead
      show encode (a :: b :: c :: tail) = _
      rw [encode_cons_three, henc, encode_of_decode htail]
      rfl
  | [_], _, h | [_, _], _, h | [_, _, _], _, h => by cases h

theorem decode_eq_some {text : List Char} {bs : List UInt8} : decode text = some bs ↔ encode bs = text :=
  ⟨encode_of_decode, fun h => h ▸ decode_encode bs⟩

/-! ## Strings -/

def encodeString (bs : List UInt8) : String := String.ofList (encode bs)

def decodeString (text : String) : Option (List UInt8) := decode text.toList

/-- A text decodes to the one byte string that encodes to it, if there is one. -/
theorem decodeString_eq_some {text : String} {bs : List UInt8} :
    decodeString text = some bs ↔ encodeString bs = text := by
  unfold decodeString encodeString
  rw [decode_eq_some]
  constructor
  · intro h
    rw [h, String.ofList_toList]
  · rintro rfl
    rw [String.toList_ofList]

@[simp] theorem decodeString_encodeString (bs : List UInt8) : decodeString (encodeString bs) = some bs :=
  decodeString_eq_some.2 rfl

theorem encodeString_injective : Function.Injective encodeString := fun a b h => by
  have := decodeString_encodeString a
  rw [h, decodeString_encodeString] at this
  exact (Option.some.inj this).symm

example : encodeString [77, 97] = "TWE=" ∧ decodeString "TWF=" = none := by decide

end Base64
