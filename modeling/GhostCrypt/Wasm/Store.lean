/-
The stores of `wasm.rs` and what its calls share: reading entries of a JSON value, base64, and a
session under a handle. A WASM panic is a trap: the borrow of the store it interrupts is never given
back, and later calls on sessions panic.
-/
import GhostCrypt.Lib.Base64
import GhostCrypt.Lib.Json
import GhostCrypt.Ratchet.State

namespace GhostCrypt.Wasm

open Identity Ratchet
open Json (Value)

/-! ## Crates -/

/-- serde_json, with its errors by their `Display` texts; the text of base64's error for a string it
does not decode; and the bytes of key material. -/
structure Crates (B : Type) where
  fromStr : String → Except String Value
  toString : Value → Except String String
  decodeError : String → String
  keyBytes : B → Bytes

variable {B : Type}

/-- serde_json writes and reads back every value that is not nested deeper than it reads. -/
structure Crates.Lawful (C : Crates B) : Prop where
  roundTrip : ∀ v : Value, v.Readable 127 → ∃ text, C.toString v = .ok text ∧ C.fromStr text = .ok v

/-! ## Entries -/

/-- `BASE64.decode` of an argument or an entry. -/
def Crates.decode (C : Crates B) (name text : String) : Except String Bytes :=
  match Base64.decodeString text with
  | some bytes => .ok bytes
  | none => .error s!"Invalid {name} base64: {C.decodeError text}"

/-- `value[name].as_str()`, where it is required. -/
def strField (record name : String) (value : Value) : Except String String :=
  match (value.get name).asStr with
  | some s => .ok s
  | none => .error s!"{record}.{name} missing or not a string"

/-- `value[name].as_u64()`, where it is required. -/
def u64Field (record name : String) (value : Value) : Except String UInt64 :=
  match (value.get name).asU64 with
  | some n => .ok n
  | none => .error s!"{record}.{name} missing or not a number"

/-- `copy_from_slice` into a `[u8; 32]`, after the check of its length. -/
def bytes32 (name : String) (bytes : Bytes) : Except String Bytes32 :=
  if h : bytes.length = 32 then .ok ⟨bytes, h⟩ else .error s!"{name} must be 32 bytes"

/-- `to_string` of a result. -/
def Crates.serialize (C : Crates B) (result : Value) : Except String String :=
  (C.toString result).mapError fun e => s!"Serialization failed: {e}"

/-- The entry is a string, and decodes to these bytes. -/
def Holds (value : Value) (name : String) (bytes : Bytes) : Prop :=
  ∃ s, value.get name = .string s ∧ Base64.decodeString s = some bytes

@[simp] theorem decode_eq_ok {C : Crates B} {name text : String} {bytes : Bytes} :
    C.decode name text = .ok bytes ↔ Base64.decodeString text = some bytes := by
  unfold Crates.decode
  cases Base64.decodeString text <;> simp

@[simp] theorem strField_eq_ok {record name s : String} {value : Value} :
    strField record name value = .ok s ↔ value.get name = .string s := by
  rw [← Value.asStr_eq_some]
  unfold strField
  cases (value.get name).asStr <;> simp

@[simp] theorem u64Field_eq_ok {record name : String} {value : Value} {n : UInt64} :
    u64Field record name value = .ok n ↔ value.get name = .posInt n := by
  rw [← Value.asU64_eq_some]
  unfold u64Field
  cases (value.get name).asU64 <;> simp

@[simp] theorem bytes32_eq_ok {name : String} {bytes : Bytes} {a : Bytes32} :
    bytes32 name bytes = .ok a ↔ bytes = a.1 := by
  rw [← toArray32_eq_some]
  unfold bytes32 toArray32
  split <;> simp

/-- What is written can be read back. -/
theorem serialize_of_readable {C : Crates B} (hC : C.Lawful) {result : Value} (h : result.Readable 127) :
    ∃ text, C.serialize result = .ok text ∧ C.fromStr text = .ok result := by
  obtain ⟨text, hto, hfrom⟩ := hC.roundTrip result h
  exact ⟨text, except_mapError_eq_ok.2 hto, hfrom⟩

theorem holds_iff {value : Value} {name : String} {bytes : Bytes} :
    Holds value name bytes ↔ value.get name = .string (Base64.encodeString bytes) := by
  unfold Holds
  constructor
  · rintro ⟨s, hs, hdecode⟩
    rw [hs, Base64.decodeString_eq_some.1 hdecode]
  · exact fun h => ⟨_, h, Base64.decodeString_encodeString bytes⟩

/-! ## Stores -/

/-- `IDENTITY_KEYS`, `SESSIONS`, and whether `SESSIONS` is still borrowed by a call that trapped. -/
structure Store (B : Type) where
  identityKeys : Finmap fun _ : UInt32 => IdentityKeyPair
  sessions : Finmap fun _ : UInt32 => Session B
  sessionsBorrowed : Bool

/-- `f` on the session of a handle, while the store is borrowed. -/
def withSession {α : Type} (handle : UInt32) (failed : String) (f : Session B → Outcome CryptoError α × Session B)
    (st : Store B) : Outcome String α × Store B :=
  if st.sessionsBorrowed then (.panic, st)
  else
    match st.sessions.lookup handle with
    | none => (.err s!"Session handle {handle} not found", st)
    | some session =>
      let (r, session) := f session
      (r.mapErr fun e => failed ++ ": " ++ e.display,
        { st with
          sessions := st.sessions.insert handle session
          sessionsBorrowed := match r with | .panic => true | _ => false })

theorem withSession_eq_ok {α : Type} {handle : UInt32} {failed : String}
    {f : Session B → Outcome CryptoError α × Session B} {st : Store B} {a : α} :
    (withSession handle failed f st).1 = .ok a ↔ st.sessionsBorrowed = false ∧
      ∃ session, st.sessions.lookup handle = some session ∧ (f session).1 = .ok a := by
  unfold withSession
  cases st.sessionsBorrowed with
  | true => simp
  | false => cases st.sessions.lookup handle <;> simp

end GhostCrypt.Wasm
