/-
JSON values as serde_json's `Value` holds them, the compact text of a value, and a reader for texts
without fractions and exponents. The reader gives back every value that is nested no deeper than it
goes, from the text of that value.
-/
import Mathlib.Data.String.Basic
import Mathlib.Tactic.IntervalCases

namespace Json

/-! ## Values -/

/-- A JSON value. A number is a `u64`, a negative `i64` or an `f64`, the last by its shortest decimal;
an object is a map sorted by its names. -/
inductive Value
  | null
  | bool (b : Bool)
  | posInt (n : UInt64)
  | negInt (n : Int64)
  | float (text : String)
  | string (s : String)
  | array (elems : List Value)
  | object (entries : List (String × Value))

namespace Value

/-- Indexing by a name: null where there is no such entry, or no object. -/
def get : Value → String → Value
  | .object entries, name => (entries.lookup name).getD .null
  | _, _ => .null

def asStr : Value → Option String
  | .string s => some s
  | _ => none

/-- Numbers that are not `u64`s have no value here, also where they are whole. -/
def asU64 : Value → Option UInt64
  | .posInt n => some n
  | _ => none

/-- Inserting into a sorted map; an entry of the same name is replaced. -/
def insert (name : String) (v : Value) : List (String × Value) → List (String × Value)
  | [] => [(name, v)]
  | (k, w) :: rest =>
    if name < k then (name, v) :: (k, w) :: rest
    else if name = k then (name, v) :: rest
    else (k, w) :: insert name v rest

/-- The map of a list of entries; of two entries of one name the later counts. -/
def ofEntries (entries : List (String × Value)) : List (String × Value) :=
  entries.foldl (fun m e => insert e.1 e.2 m) []

/-- The object of a list of entries. -/
def json (entries : List (String × Value)) : Value := .object (ofEntries entries)

/-- Nested less than `d` deep, with sorted maps, negative `negInt`s and no floats. -/
def Readable : Nat → Value → Prop
  | 0, _ => False
  | d + 1, .array elems => ∀ v ∈ elems, Readable d v
  | d + 1, .object entries => entries.Pairwise (fun a b => a.1 < b.1) ∧ ∀ e ∈ entries, Readable d e.2
  | _ + 1, .negInt n => n < 0
  | _ + 1, .float _ => False
  | _ + 1, .null | _ + 1, .bool _ | _ + 1, .posInt _ | _ + 1, .string _ => True

@[simp] theorem asStr_eq_some {v : Value} {s : String} : v.asStr = some s ↔ v = .string s := by
  cases v <;> simp [asStr]

@[simp] theorem asU64_eq_some {v : Value} {n : UInt64} : v.asU64 = some n ↔ v = .posInt n := by
  cases v <;> simp [asU64]

theorem insert_of_forall_lt {name : String} {v : Value} : ∀ {m : List (String × Value)},
    (∀ e ∈ m, e.1 < name) → insert name v m = m ++ [(name, v)]
  | [], _ => rfl
  | (k, w) :: rest, h => by
    have hk : k < name := h (k, w) (List.mem_cons_self ..)
    unfold insert
    rw [if_neg (lt_asymm hk), if_neg (ne_of_gt hk), insert_of_forall_lt fun e he => h e (List.mem_cons_of_mem _ he)]
    rfl

theorem foldl_insert_of_sorted : ∀ {entries m : List (String × Value)},
    (m ++ entries).Pairwise (fun a b => a.1 < b.1) →
      entries.foldl (fun m e => insert e.1 e.2 m) m = m ++ entries
  | [], m, _ => (List.append_nil m).symm
  | e :: entries, m, h => by
    have hlast : ∀ a ∈ m, a.1 < e.1 := fun a ha => (List.pairwise_append.1 h).2.2 a ha e (List.mem_cons_self ..)
    rw [List.foldl_cons, insert_of_forall_lt hlast, foldl_insert_of_sorted, List.append_assoc]
    · rfl
    · rwa [List.append_assoc]

/-- A sorted list of entries is its own map. -/
theorem ofEntries_of_sorted {entries : List (String × Value)} (h : entries.Pairwise (fun a b => a.1 < b.1)) :
    ofEntries entries = entries :=
  foldl_insert_of_sorted (m := []) h

theorem lookup_cons (name k : String) (v : Value) (rest : List (String × Value)) :
    ((k, v) :: rest).lookup name = if name = k then some v else rest.lookup name := by
  by_cases h : name = k
  · rw [if_pos h, h, List.lookup_cons_self]
  · rw [if_neg h, List.lookup_cons, beq_false_of_ne h]

/-- After an insertion, the name has the new value and the others what they had. -/
theorem lookup_insert (name k : String) (v : Value) : ∀ m : List (String × Value),
    (insert k v m).lookup name = if name = k then some v else m.lookup name
  | [] => lookup_cons name k v []
  | (k', w) :: rest => by
    unfold insert
    by_cases hlt : k < k'
    · rw [if_pos hlt, lookup_cons]
    rw [if_neg hlt]
    by_cases heq : k = k'
    · subst heq
      rw [if_pos rfl, lookup_cons, lookup_cons]
      by_cases hname : name = k
      · rw [if_pos hname, if_pos hname]
      · rw [if_neg hname, if_neg hname, if_neg hname]
    · rw [if_neg heq, lookup_cons, lookup_cons, lookup_insert name k v rest]
      by_cases hname : name = k
      · rw [if_pos hname, if_pos hname, if_neg (hname ▸ heq)]
      · rw [if_neg hname, if_neg hname]

theorem mem_insert {name : String} {v : Value} {e : String × Value} : ∀ {m : List (String × Value)},
    e ∈ insert name v m → e = (name, v) ∨ e ∈ m
  | [], h => .inl (List.mem_singleton.1 h)
  | (k, w) :: rest, h => by
    unfold insert at h
    split_ifs at h
    · exact List.mem_cons.1 h
    · rcases List.mem_cons.1 h with rfl | h
      · exact .inl rfl
      · exact .inr (List.mem_cons_of_mem _ h)
    · rcases List.mem_cons.1 h with rfl | h
      · exact .inr (List.mem_cons_self ..)
      · rcases mem_insert h with rfl | h
        · exact .inl rfl
        · exact .inr (List.mem_cons_of_mem _ h)

theorem sorted_insert {name : String} {v : Value} : ∀ {m : List (String × Value)},
    m.Pairwise (fun a b => a.1 < b.1) → (insert name v m).Pairwise (fun a b => a.1 < b.1)
  | [], _ => List.pairwise_singleton _ _
  | (k, w) :: rest, h => by
    obtain ⟨hhead, htail⟩ := List.pairwise_cons.1 h
    unfold insert
    split_ifs with hlt heq
    · refine List.pairwise_cons.2 ⟨fun e he => ?_, h⟩
      rcases List.mem_cons.1 he with rfl | he
      · exact hlt
      · exact lt_trans hlt (hhead e he)
    · subst heq
      exact List.pairwise_cons.2 ⟨hhead, htail⟩
    · refine List.pairwise_cons.2 ⟨fun e he => ?_, sorted_insert htail⟩
      rcases mem_insert he with rfl | he
      · exact lt_of_le_of_ne (not_lt.1 hlt) (Ne.symm heq)
      · exact hhead e he

theorem foldl_insert_mem {e : String × Value} : ∀ {entries m : List (String × Value)},
    e ∈ entries.foldl (fun m e => insert e.1 e.2 m) m → e ∈ m ∨ e ∈ entries
  | [], _, h => .inl h
  | x :: entries, m, h => by
    rw [List.foldl_cons] at h
    rcases foldl_insert_mem h with h | h
    · rcases mem_insert h with rfl | h
      · exact .inr (List.mem_cons_self ..)
      · exact .inl h
    · exact .inr (List.mem_cons_of_mem _ h)

theorem foldl_insert_sorted : ∀ {entries m : List (String × Value)}, m.Pairwise (fun a b => a.1 < b.1) →
    (entries.foldl (fun m e => insert e.1 e.2 m) m).Pairwise (fun a b => a.1 < b.1)
  | [], _, h => h
  | _ :: entries, _, h => by
    rw [List.foldl_cons]
    exact foldl_insert_sorted (sorted_insert h)

theorem lookup_foldl_insert (name : String) : ∀ entries m : List (String × Value),
    (entries.foldl (fun m e => insert e.1 e.2 m) m).lookup name =
      (entries.reverse.lookup name).or (m.lookup name)
  | [], m => rfl
  | (k, v) :: entries, m => by
    rw [List.foldl_cons, lookup_foldl_insert name entries, lookup_insert, List.reverse_cons, List.lookup_append,
      Option.or_assoc, lookup_cons]
    split <;> rfl

/-- An entry of an object is the last of its name. -/
theorem get_json (name : String) (entries : List (String × Value)) :
    (json entries).get name = (entries.reverse.lookup name).getD .null := by
  change ((ofEntries entries).lookup name).getD .null = _
  rw [ofEntries, lookup_foldl_insert, List.lookup_nil, Option.or_none]

/-- An object of readable values is readable. -/
theorem readable_json {d : Nat} {entries : List (String × Value)} (h : ∀ e ∈ entries, Readable d e.2) :
    Readable (d + 1) (json entries) := by
  refine ⟨foldl_insert_sorted List.Pairwise.nil, fun e he => ?_⟩
  rcases foldl_insert_mem he with he | he
  · cases he
  · exact h e he

end Value

/-! ## Printing -/

/-- The items separated by commas. -/
def commaSep : List (List Char) → List Char
  | [] => []
  | [x] => x
  | x :: y :: rest => x ++ ',' :: commaSep (y :: rest)

/-- A character of a string: quotes, backslashes and control characters are escaped. -/
def escape (c : Char) : List Char :=
  if c = '"' then ['\\', '"']
  else if c = '\\' then ['\\', '\\']
  else if c = '\x08' then ['\\', 'b']
  else if c = '\t' then ['\\', 't']
  else if c = '\n' then ['\\', 'n']
  else if c = '\x0c' then ['\\', 'f']
  else if c = '\r' then ['\\', 'r']
  else if c.toNat < 32 then ['\\', 'u', '0', '0', (c.toNat / 16).digitChar, (c.toNat % 16).digitChar]
  else [c]

/-- A string with the closing quote, not the opening one. -/
def printString (s : String) : List Char := s.toList.flatMap escape ++ ['"']

mutual

/-- The compact text of a value. -/
def print : Value → List Char
  | .null => ['n', 'u', 'l', 'l']
  | .bool true => ['t', 'r', 'u', 'e']
  | .bool false => ['f', 'a', 'l', 's', 'e']
  | .posInt n => Nat.toDigits 10 n.toNat
  | .negInt n => '-' :: Nat.toDigits 10 n.toInt.natAbs
  | .float text => text.toList
  | .string s => '"' :: printString s
  | .array elems => '[' :: (commaSep (printElems elems) ++ [']'])
  | .object entries => '\x7b' :: (commaSep (printEntries entries) ++ ['\x7d'])

def printElems : List Value → List (List Char)
  | [] => []
  | v :: rest => print v :: printElems rest

def printEntries : List (String × Value) → List (List Char)
  | [] => []
  | (name, v) :: rest => ('"' :: (printString name ++ ':' :: print v)) :: printEntries rest

end

theorem printElems_eq_map : ∀ elems : List Value, printElems elems = elems.map print
  | [] => rfl
  | _ :: rest => congrArg (List.cons _) (printElems_eq_map rest)

/-- The text of an entry. -/
def printEntry (e : String × Value) : List Char := '"' :: (printString e.1 ++ ':' :: print e.2)

theorem printEntries_eq_map : ∀ entries : List (String × Value), printEntries entries = entries.map printEntry
  | [] => rfl
  | _ :: rest => congrArg (List.cons _) (printEntries_eq_map rest)

/-! ## Reading -/

def isSpace (c : Char) : Bool := c = ' ' || c = '\n' || c = '\t' || c = '\r'

def skipSpace (text : List Char) : List Char := text.dropWhile isSpace

/-- The rest of a word, then a value. -/
def readWord (word : List Char) (v : Value) (text : List Char) : Option (Value × List Char) :=
  if word <+: text then some (v, text.drop word.length) else none

/-- A numeral without leading zeros, that is, the one its value prints as. -/
def readNat (text : List Char) : Option (Nat × List Char) :=
  let ds := text.takeWhile Char.isDigit
  let n := Nat.ofDigitChars 10 ds 0
  if Nat.toDigits 10 n = ds then some (n, text.dropWhile Char.isDigit) else none

/-- A number that goes on as a fraction or with an exponent is not read. -/
def numberEnds : List Char → Bool
  | [] => true
  | c :: _ => c ≠ '.' && c ≠ 'e' && c ≠ 'E'

def readNumber (text : List Char) : Option (Value × List Char) :=
  match text with
  | [] => none
  | c :: rest =>
    if c = '-' then
      match readNat rest with
      | some (n, rest) =>
        if 0 < n ∧ n ≤ 2 ^ 63 ∧ numberEnds rest then some (.negInt (Int64.ofInt (-n)), rest) else none
      | none => none
    else
      match readNat text with
      | some (n, rest) => if n < 2 ^ 64 ∧ numberEnds rest then some (.posInt (UInt64.ofNat n), rest) else none
      | none => none

/-- The character of an escape other than `u`. -/
def unescape (c : Char) : Option Char :=
  if c = '"' ∨ c = '\\' ∨ c = '/' then some c
  else if c = 'b' then some '\x08'
  else if c = 't' then some '\t'
  else if c = 'n' then some '\n'
  else if c = 'f' then some '\x0c'
  else if c = 'r' then some '\r'
  else none

def hexValue (c : Char) : Option Nat :=
  if c.isDigit then some (c.toNat - 48)
  else if 'a' ≤ c ∧ c ≤ 'f' then some (c.toNat - 87)
  else if 'A' ≤ c ∧ c ≤ 'F' then some (c.toNat - 55)
  else none

/-- The character of four hexadecimal digits; surrogates are not read. -/
def hexChar (a b c d : Char) : Option Char := do
  let n := (((← hexValue a) * 16 + (← hexValue b)) * 16 + (← hexValue c)) * 16 + (← hexValue d)
  if n.isValidChar then some (Char.ofNat n) else none

/-- A character in front of a string. -/
def push (c : Char) (p : List Char × List Char) : List Char × List Char := (c :: p.1, p.2)

/-- A string up to its closing quote. -/
def readString : List Char → Option (List Char × List Char)
  | [] => none
  | c :: rest =>
    if c = '"' then some ([], rest)
    else if c = '\\' then
      match rest with
      | [] => none
      | e :: rest =>
        if e = 'u' then
          match rest with
          | h₁ :: h₂ :: h₃ :: h₄ :: rest => (hexChar h₁ h₂ h₃ h₄).bind fun c => (readString rest).map (push c)
          | _ => none
        else (unescape e).bind fun c => (readString rest).map (push c)
    else if c.toNat < 32 then none
    else (readString rest).map (push c)

section

variable {α : Type} (item : List Char → Option (α × List Char))

/-- One item or more up to `close`, separated by commas, at most `n` of them. -/
def readItems (close : Char) : Nat → List Char → Option (List α × List Char)
  | 0, _ => none
  | n + 1, text => do
    let (a, rest) ← item text
    match skipSpace rest with
    | [] => none
    | c :: rest =>
      if c = ',' then do
        let (as, rest) ← readItems close n rest
        some (a :: as, rest)
      else if c = close then some ([a], rest)
      else none

/-- Any number of items up to `close`. -/
def readSeq (close : Char) (text : List Char) : Option (List α × List Char) :=
  match skipSpace text with
  | [] => none
  | c :: rest => if c = close then some ([], rest) else readItems item close text.length text

/-- The name of an entry, a colon, and an item. -/
def readEntry (text : List Char) : Option ((String × α) × List Char) :=
  match skipSpace text with
  | [] => none
  | c :: rest =>
    if c = '"' then do
      let (name, rest) ← readString rest
      match skipSpace rest with
      | [] => none
      | c :: rest =>
        if c = ':' then do
          let (a, rest) ← item rest
          some ((String.ofList name, a), rest)
        else none
    else none

end

/-- A value whose elements are read by `elem`. -/
def readWith (elem : List Char → Option (Value × List Char)) (text : List Char) : Option (Value × List Char) :=
  match skipSpace text with
  | [] => none
  | c :: rest =>
    if c = 'n' then readWord ['u', 'l', 'l'] .null rest
    else if c = 't' then readWord ['r', 'u', 'e'] (.bool true) rest
    else if c = 'f' then readWord ['a', 'l', 's', 'e'] (.bool false) rest
    else if c = '"' then do
      let (s, rest) ← readString rest
      some (.string (String.ofList s), rest)
    else if c = '[' then do
      let (elems, rest) ← readSeq elem ']' rest
      some (.array elems, rest)
    else if c = '\x7b' then do
      let (entries, rest) ← readSeq (readEntry elem) '\x7d' rest
      some (.object (Value.ofEntries entries), rest)
    else readNumber (c :: rest)

/-- A value nested less than `d` deep. -/
def readValue : Nat → List Char → Option (Value × List Char)
  | 0 => fun _ => none
  | d + 1 => readWith (readValue d)

/-- The value of a text, with nothing but space after it. -/
def read (d : Nat) (text : String) : Option Value :=
  match readValue d text.toList with
  | some (v, rest) => if skipSpace rest = [] then some v else none
  | none => none

/-! ## What is read back -/

/-- A value ends here: at the end of the text, or before a comma or a closing bracket. -/
def Ends : List Char → Prop
  | [] => True
  | c :: _ => c = ',' ∨ c = ']' ∨ c = '\x7d'

theorem Ends.head {rest : List Char} (h : Ends rest) {c : Char} {t : List Char} (hc : rest = c :: t) :
    c.isDigit = false ∧ isSpace c = false ∧ c ≠ '.' ∧ c ≠ 'e' ∧ c ≠ 'E' := by
  subst hc
  rcases h with rfl | rfl | rfl <;> decide

theorem numberEnds_of_ends {rest : List Char} (h : Ends rest) : numberEnds rest = true := by
  cases rest with
  | nil => rfl
  | cons c t =>
    obtain ⟨-, -, hdot, he, hE⟩ := h.head rfl
    simp [numberEnds, hdot, he, hE]

theorem skipSpace_cons {c : Char} {t : List Char} (h : isSpace c = false) : skipSpace (c :: t) = c :: t := by
  rw [skipSpace, List.dropWhile_cons_of_neg (by simp [h])]

theorem ne_of_isDigit {c d : Char} (hc : c.isDigit = true) (hd : d.isDigit = false) : c ≠ d := by
  rintro rfl
  rw [hc] at hd
  cases hd

theorem isSpace_of_isDigit {c : Char} (h : c.isDigit = true) : isSpace c = false := by
  have h₁ := ne_of_isDigit (d := ' ') h rfl
  have h₂ := ne_of_isDigit (d := '\n') h rfl
  have h₃ := ne_of_isDigit (d := '\t') h rfl
  have h₄ := ne_of_isDigit (d := '\r') h rfl
  simp [isSpace, h₁, h₂, h₃, h₄]

theorem isDigit_of_mem_numeral {n : Nat} {c : Char} (h : c ∈ Nat.toDigits 10 n) : c.isDigit = true :=
  Nat.isDigit_of_mem_toDigits (by decide) (by decide) h

theorem numeral_eq_cons (n : Nat) : ∃ c cs, Nat.toDigits 10 n = c :: cs ∧ c.isDigit = true := by
  cases h : Nat.toDigits 10 n with
  | nil => exact absurd h Nat.toDigits_ne_nil
  | cons c cs => exact ⟨c, cs, rfl, isDigit_of_mem_numeral (n := n) (by rw [h]; exact List.mem_cons_self ..)⟩

/-! ### Numbers -/

theorem readNat_numeral (n : Nat) {rest : List Char} (h : Ends rest) :
    readNat (Nat.toDigits 10 n ++ rest) = some (n, rest) := by
  have hall : ∀ c ∈ Nat.toDigits 10 n, Char.isDigit c = true := fun _ => isDigit_of_mem_numeral
  have hrest : rest.takeWhile Char.isDigit = [] ∧ rest.dropWhile Char.isDigit = rest := by
    cases rest with
    | nil => exact ⟨rfl, rfl⟩
    | cons c t =>
      have hc : ¬ c.isDigit = true := by simp [(h.head rfl).1]
      exact ⟨List.takeWhile_cons_of_neg hc, List.dropWhile_cons_of_neg hc⟩
  unfold readNat
  rw [List.takeWhile_append_of_pos hall, List.dropWhile_append_of_pos hall, hrest.1, hrest.2, List.append_nil]
  simp only [Nat.ofDigitChars_ten_toDigits, if_true]

theorem readNumber_posInt (n : UInt64) {rest : List Char} (h : Ends rest) :
    readNumber (Nat.toDigits 10 n.toNat ++ rest) = some (.posInt n, rest) := by
  have hread := readNat_numeral n.toNat h
  obtain ⟨c, cs, hcs, hc⟩ := numeral_eq_cons n.toNat
  rw [hcs, List.cons_append] at hread ⊢
  unfold readNumber
  simp only [if_neg (ne_of_isDigit (d := '-') hc rfl), hread]
  rw [if_pos ⟨n.toNat_lt, numberEnds_of_ends h⟩, UInt64.ofNat_toNat]

theorem readNumber_negInt {n : Int64} (hn : n < 0) {rest : List Char} (h : Ends rest) :
    readNumber ('-' :: (Nat.toDigits 10 n.toInt.natAbs ++ rest)) = some (.negInt n, rest) := by
  have hneg : n.toInt < 0 := Int64.lt_iff_toInt_lt.1 hn
  have hle := n.le_toInt
  unfold readNumber
  simp only [if_true, readNat_numeral _ h]
  rw [if_pos ⟨by omega, by omega, numberEnds_of_ends h⟩, show -(n.toInt.natAbs : Int) = n.toInt by omega,
    Int64.ofInt_toInt]

/-! ### Strings -/

theorem readString_unescape {e c : Char} (he : e ≠ 'u') (h : unescape e = some c) (text : List Char) :
    readString ('\\' :: e :: text) = (readString text).map (push c) := by
  rw [readString.eq_def]
  simp only [if_neg (show '\\' ≠ '"' by decide), if_true, if_neg he, h, Option.bind_some]

theorem readString_hexChar {h₁ h₂ h₃ h₄ c : Char} (h : hexChar h₁ h₂ h₃ h₄ = some c) (text : List Char) :
    readString ('\\' :: 'u' :: h₁ :: h₂ :: h₃ :: h₄ :: text) = (readString text).map (push c) := by
  rw [readString.eq_def]
  simp only [if_neg (show '\\' ≠ '"' by decide), if_true, h, Option.bind_some]

theorem hexValue_digitChar : ∀ d < 16, hexValue (Nat.digitChar d) = some d := by decide

theorem hexChar_control {c : Char} (h : c.toNat < 32) :
    hexChar '0' '0' (c.toNat / 16).digitChar (c.toNat % 16).digitChar = some c := by
  have hzero : hexValue '0' = some 0 := by decide
  have hhigh := hexValue_digitChar (c.toNat / 16) (by omega)
  have hlow := hexValue_digitChar (c.toNat % 16) (by omega)
  have hn : ((0 * 16 + 0) * 16 + c.toNat / 16) * 16 + c.toNat % 16 = c.toNat := by omega
  have hvalid : c.toNat.isValidChar := .inl (by omega)
  simp only [hexChar, hzero, hhigh, hlow, hn, Option.bind_eq_bind, Option.bind_some, if_pos hvalid, Char.ofNat_toNat]

/-- An escaped character is read back in front of the rest. -/
theorem readString_escape (c : Char) (text : List Char) :
    readString (escape c ++ text) = (readString text).map (push c) := by
  unfold escape
  split_ifs with hquote hslash hb ht hn hf hr hcontrol
  · subst hquote; exact readString_unescape (by decide) rfl text
  · subst hslash; exact readString_unescape (by decide) rfl text
  · subst hb; exact readString_unescape (by decide) rfl text
  · subst ht; exact readString_unescape (by decide) rfl text
  · subst hn; exact readString_unescape (by decide) rfl text
  · subst hf; exact readString_unescape (by decide) rfl text
  · subst hr; exact readString_unescape (by decide) rfl text
  · exact readString_hexChar (hexChar_control hcontrol) text
  · rw [List.singleton_append, readString.eq_def]
    simp only [if_neg hquote, if_neg hslash, if_neg hcontrol]

theorem readString_flatMap_escape : ∀ (cs rest : List Char),
    readString (cs.flatMap escape ++ '"' :: rest) = some (cs, rest)
  | [], rest => by
    rw [List.flatMap_nil, List.nil_append, readString.eq_def]
    simp only [if_true]
  | c :: cs, rest => by
    rw [List.flatMap_cons, List.append_assoc, readString_escape, readString_flatMap_escape cs rest]
    rfl

theorem readString_printString (s : String) (rest : List Char) :
    readString (printString s ++ rest) = some (s.toList, rest) := by
  rw [printString, List.append_assoc]
  exact readString_flatMap_escape s.toList rest

/-! ### Lists -/

section

variable {α : Type} {item : List Char → Option (α × List Char)} {p : α → List Char}

/-- Every item of a nonempty list is read back, if one item is wherever it ends. -/
theorem readItems_commaSep {close : Char} (hclose : close = ']' ∨ close = '\x7d') (rest : List Char) :
    ∀ {as : List α} {n : Nat}, as ≠ [] → as.length ≤ n →
      (∀ a ∈ as, ∀ r, Ends r → item (p a ++ r) = some (a, r)) →
      readItems item close n (commaSep (as.map p) ++ close :: rest) = some (as, rest)
  | [], _, hne, _, _ => absurd rfl hne
  | _ :: _, 0, _, hn, _ => by cases hn
  | [a], n + 1, _, _, hitem => by
    have hends : Ends (close :: rest) := .inr hclose
    have hspace := skipSpace_cons (hends.head rfl).2.1 (t := rest)
    have hcomma : close ≠ ',' := by rcases hclose with rfl | rfl <;> decide
    have hread := hitem a (List.mem_cons_self ..) _ hends
    simp only [List.map_cons, List.map_nil, commaSep, readItems, hread, Option.bind_eq_bind, Option.bind_some, hspace,
      if_neg hcomma, if_true]
  | a :: b :: as, n + 1, _, hn, hitem => by
    have hread := hitem a (List.mem_cons_self ..) (',' :: (commaSep ((b :: as).map p) ++ close :: rest)) (.inl rfl)
    have hspace := skipSpace_cons (c := ',') rfl (t := commaSep ((b :: as).map p) ++ close :: rest)
    have ih := readItems_commaSep hclose rest (List.cons_ne_nil b as) (Nat.le_of_succ_le_succ hn)
      fun x hx => hitem x (List.mem_cons_of_mem _ hx)
    simp only [List.map_cons, commaSep, List.append_assoc, List.cons_append] at hread hspace ih ⊢
    simp only [readItems, hread, Option.bind_eq_bind, Option.bind_some, hspace, if_true, ih]

/-- The text of a list has a character for each of its items. -/
theorem length_le_commaSep : ∀ as : List α, as.length ≤ (commaSep (as.map p)).length + 1
  | [] => Nat.zero_le _
  | [_] => Nat.succ_le_succ (Nat.zero_le _)
  | a :: b :: as => by
    have ih := length_le_commaSep (b :: as)
    simp only [List.map_cons, commaSep, List.length_append, List.length_cons] at ih ⊢
    omega

/-- A list is read back, if one item is wherever it ends and no item starts with space or like the
closing bracket. -/
theorem readSeq_commaSep {close : Char} (hclose : close = ']' ∨ close = '\x7d') {as : List α} (rest : List Char)
    (hstart : ∀ a ∈ as, ∃ c t, p a = c :: t ∧ isSpace c = false ∧ c ≠ close)
    (hitem : ∀ a ∈ as, ∀ r, Ends r → item (p a ++ r) = some (a, r)) :
    readSeq item close (commaSep (as.map p) ++ close :: rest) = some (as, rest) := by
  have hends : Ends (close :: rest) := .inr hclose
  cases as with
  | nil =>
    simp only [readSeq, List.map_nil, commaSep, List.nil_append, skipSpace_cons (hends.head rfl).2.1, if_true]
  | cons a as =>
    have hlen : (a :: as).length ≤ (commaSep ((a :: as).map p) ++ close :: rest).length := by
      have := length_le_commaSep (p := p) (a :: as)
      rw [List.length_append, List.length_cons (a := close)]
      omega
    have hread := readItems_commaSep hclose rest (List.cons_ne_nil a as) hlen hitem
    obtain ⟨c, t, hc, hspace, hne⟩ := hstart a (List.mem_cons_self ..)
    have hhead : ∃ u, commaSep ((a :: as).map p) ++ close :: rest = c :: u := by
      cases as <;> simp [commaSep, hc]
    obtain ⟨u, hu⟩ := hhead
    rw [hu] at hread ⊢
    simp only [readSeq, skipSpace_cons hspace, if_neg hne]
    exact hread

end

theorem readEntry_printEntry {elem : List Char → Option (Value × List Char)} (e : String × Value) (r : List Char)
    (h : elem (print e.2 ++ r) = some (e.2, r)) : readEntry elem (printEntry e ++ r) = some (e, r) := by
  have hname := readString_printString e.1 (':' :: (print e.2 ++ r))
  simp only [readEntry, printEntry, List.cons_append, List.append_assoc, skipSpace_cons (c := '"') rfl, if_true, hname,
    skipSpace_cons (c := ':') rfl, h, Option.bind_eq_bind, Option.bind_some, String.ofList_toList]

/-! ### Values -/

/-- The text of a value starts neither with space nor with a closing bracket. -/
theorem print_eq_cons {d : Nat} {v : Value} (h : v.Readable d) :
    ∃ c t, print v = c :: t ∧ isSpace c = false ∧ c ≠ ']' := by
  cases d with
  | zero => cases h
  | succ d =>
    cases v with
    | null | string _ | array _ | object _ => exact ⟨_, _, rfl, by decide, by decide⟩
    | bool b => cases b <;> exact ⟨_, _, rfl, by decide, by decide⟩
    | posInt n =>
      obtain ⟨c, t, hct, hc⟩ := numeral_eq_cons n.toNat
      exact ⟨c, t, hct, isSpace_of_isDigit hc, ne_of_isDigit hc rfl⟩
    | negInt n => exact ⟨_, _, rfl, by decide, by decide⟩
    | float _ => cases h

/-- A numeral in front of where a value ends is read as a number. -/
theorem readWith_numeral {elem : List Char → Option (Value × List Char)} (n : UInt64) {rest : List Char}
    (h : Ends rest) : readWith elem (Nat.toDigits 10 n.toNat ++ rest) = some (.posInt n, rest) := by
  have hread := readNumber_posInt n h
  obtain ⟨c, t, hct, hc⟩ := numeral_eq_cons n.toNat
  rw [hct, List.cons_append] at hread ⊢
  simp only [readWith, skipSpace_cons (isSpace_of_isDigit hc), if_neg (ne_of_isDigit (d := 'n') hc rfl),
    if_neg (ne_of_isDigit (d := 't') hc rfl), if_neg (ne_of_isDigit (d := 'f') hc rfl),
    if_neg (ne_of_isDigit (d := '"') hc rfl), if_neg (ne_of_isDigit (d := '[') hc rfl),
    if_neg (ne_of_isDigit (d := '\x7b') hc rfl), hread]

/-- Every readable value is read back from its text, wherever the text of a value may end. -/
theorem readValue_print : ∀ {d : Nat} {v : Value}, v.Readable d → ∀ rest, Ends rest →
    readValue d (print v ++ rest) = some (v, rest)
  | 0, _, h, _, _ => by cases h
  | d + 1, .null, _, rest, _ => by simp [readValue, readWith, print, skipSpace_cons, isSpace, readWord]
  | d + 1, .bool true, _, rest, _ => by simp [readValue, readWith, print, skipSpace_cons, isSpace, readWord]
  | d + 1, .bool false, _, rest, _ => by simp [readValue, readWith, print, skipSpace_cons, isSpace, readWord]
  | d + 1, .posInt n, _, rest, hrest => readWith_numeral n hrest
  | d + 1, .negInt n, h, rest, hrest => by
    have hread := readNumber_negInt (n := n) h hrest
    simp [readValue, readWith, print, skipSpace_cons, isSpace, hread]
  | d + 1, .float _, h, _, _ => by cases h
  | d + 1, .string s, _, rest, _ => by
    have hread := readString_printString s rest
    simp [readValue, readWith, print, skipSpace_cons, isSpace, hread]
  | d + 1, .array elems, h, rest, _ => by
    have hread := readSeq_commaSep (.inl rfl) rest (fun v hv => print_eq_cons (h v hv))
      fun v hv r hr => readValue_print (h v hv) r hr
    simp [readValue, readWith, print, skipSpace_cons, isSpace, printElems_eq_map, hread]
  | d + 1, .object entries, h, rest, _ => by
    have hread := readSeq_commaSep (p := printEntry) (.inr rfl) rest (fun e _ => ⟨'"', _, rfl, rfl, by decide⟩)
      fun e he r hr => readEntry_printEntry e r (readValue_print (h.2 e he) r hr)
    have hsorted := Value.ofEntries_of_sorted h.1
    simp [readValue, readWith, print, skipSpace_cons, isSpace, printEntries_eq_map, hread, hsorted]

/-- Every readable value is the value of its text. -/
theorem read_print {d : Nat} {v : Value} (h : v.Readable d) : read d (String.ofList (print v)) = some v := by
  have hread := readValue_print h [] trivial
  rw [List.append_nil] at hread
  unfold read
  rw [String.toList_ofList, hread]
  rfl

end Json
