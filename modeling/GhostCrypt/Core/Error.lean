/-
`error.rs`, and how a call ends: a value, an error, or a panic that unwinds to the caller. A call
on `&mut self` also leaves a state behind, whichever way it ends.
-/
import Mathlib.Tactic.TypeStar

namespace GhostCrypt

/-! ## Errors -/

/-- `CryptoError`. -/
inductive CryptoError
  | keyGeneration (msg : String)
  | keyExchange (msg : String)
  | encryption (msg : String)
  | decryption (msg : String)
  | invalidSignature (msg : String)
  | invalidKey (msg : String)
  | ratchet (msg : String)
  | serialization (msg : String)
  | mls (msg : String)
  | mlsGroupNotFound (msg : String)
  deriving DecidableEq, Repr

/-- The `Display` text of an error. -/
def CryptoError.display : CryptoError → String
  | .keyGeneration msg => "Key generation failed: " ++ msg
  | .keyExchange msg => "Key exchange failed: " ++ msg
  | .encryption msg => "Encryption failed: " ++ msg
  | .decryption msg => "Decryption failed: " ++ msg
  | .invalidSignature msg => "Invalid signature: " ++ msg
  | .invalidKey msg => "Invalid key: " ++ msg
  | .ratchet msg => "Ratchet error: " ++ msg
  | .serialization msg => "Serialization error: " ++ msg
  | .mls msg => "MLS error: " ++ msg
  | .mlsGroupNotFound msg => "MLS group not found: " ++ msg

/-! ## Outcomes -/

/-- How a call ends. -/
inductive Outcome (ε α : Type)
  | ok (a : α)
  | err (e : ε)
  | panic
  deriving DecidableEq, Repr

namespace Outcome

variable {ε ε' α β σ : Type}

/-- A `Result` as an outcome. -/
def ofExcept : Except ε α → Outcome ε α
  | .ok a => .ok a
  | .error e => .err e

/-- The value of a call, rewritten. -/
def map (f : α → β) : Outcome ε α → Outcome ε β
  | .ok a => .ok (f a)
  | .err e => .err e
  | .panic => .panic

/-- The value of a call that returns one. -/
def value : Outcome ε α → Option α
  | .ok a => some a
  | _ => none

/-- `map_err`. -/
def mapErr (f : ε → ε') : Outcome ε α → Outcome ε' α
  | .ok a => .ok a
  | .err e => .err (f e)
  | .panic => .panic

/-- `?`: the rest of a function runs on the value of a call. -/
def bind (x : Outcome ε α) (f : α → Outcome ε β) : Outcome ε β :=
  match x with
  | .ok a => f a
  | .err e => .err e
  | .panic => .panic

instance : Monad (Outcome ε) where
  pure := .ok
  bind := bind

/-- Continue with the value and the state of a call; an error or a panic keeps the state it left. -/
def andThen (x : Outcome ε α × σ) (f : α → σ → Outcome ε β × σ) : Outcome ε β × σ :=
  match x with
  | (.ok a, s) => f a s
  | (.err e, s) => (.err e, s)
  | (.panic, s) => (.panic, s)

@[simp] theorem andThen_ok (a : α) (s : σ) (f : α → σ → Outcome ε β × σ) :
    andThen (.ok a, s) f = f a s := rfl

@[simp] theorem andThen_err (e : ε) (s : σ) (f : α → σ → Outcome ε β × σ) :
    andThen (.err e, s) f = (.err e, s) := rfl

@[simp] theorem andThen_panic (s : σ) (f : α → σ → Outcome ε β × σ) :
    andThen (.panic, s) f = (.panic, s) := rfl

/-- The two calls of `andThen` return where it does. -/
theorem andThen_fst_eq_ok {x : Outcome ε α × σ} {f : α → σ → Outcome ε β × σ} {b : β} :
    (andThen x f).1 = .ok b ↔ ∃ a, x.1 = .ok a ∧ (f a x.2).1 = .ok b := by
  obtain ⟨a | e | _, s⟩ := x
  · exact ⟨fun h => ⟨a, rfl, h⟩, by rintro ⟨_, ⟨⟩, h⟩; exact h⟩
  · exact iff_of_false (by rintro ⟨⟩) (by rintro ⟨_, ⟨⟩, -⟩)
  · exact iff_of_false (by rintro ⟨⟩) (by rintro ⟨_, ⟨⟩, -⟩)

@[simp] theorem mapErr_eq_ok {f : ε → ε'} {x : Outcome ε α} {a : α} : x.mapErr f = .ok a ↔ x = .ok a := by
  cases x <;> simp [mapErr]

@[simp] theorem ofExcept_ok (a : α) : (ofExcept (.ok a) : Outcome ε α) = .ok a := rfl

@[simp] theorem pure_eq_ok {a b : α} : (pure a : Outcome ε α) = .ok b ↔ a = b := by
  constructor
  · exact fun h => Outcome.ok.inj h
  · rintro rfl
    rfl

/-- A function with `?` returns a value when each of its calls does. -/
@[simp] theorem bind_eq_ok {x : Outcome ε α} {f : α → Outcome ε β} {b : β} :
    (x >>= f) = .ok b ↔ ∃ a, x = .ok a ∧ f a = .ok b := by
  constructor
  · intro h
    cases x with
    | ok a => exact ⟨a, rfl, h⟩
    | err e => cases h
    | panic => cases h
  · rintro ⟨a, rfl, h⟩
    exact h

/-- A check that fails leaves the state as it is. -/
theorem andThen_ofExcept {Q : σ → Prop} {x : Except ε α} {s : σ} {f : α → σ → Outcome ε β × σ} (hs : Q s)
    (hf : ∀ a, x = .ok a → Q (f a s).2) : Q (andThen (ofExcept x, s) f).2 := by
  cases x with
  | ok a => exact hf a rfl
  | error e => exact hs

theorem bind_assoc {γ : Type} (x : Outcome ε α) (f : α → Outcome ε β) (g : β → Outcome ε γ) :
    (x >>= f) >>= g = x >>= fun a => f a >>= g := by
  cases x <;> rfl

@[simp] theorem ok_bind (a : α) (f : α → Outcome ε β) : (.ok a >>= f : Outcome ε β) = f a := rfl

/-- A function with `?` panics where its first call does, or the rest of it. -/
theorem bind_eq_panic {x : Outcome ε α} {f : α → Outcome ε β} :
    (x >>= f) = .panic ↔ x = .panic ∨ ∃ a, x = .ok a ∧ f a = .panic := by
  constructor
  · intro h
    cases x with
    | ok a => exact .inr ⟨a, rfl, h⟩
    | err e => cases h
    | panic => exact .inl rfl
  · rintro (rfl | ⟨a, rfl, h⟩)
    · rfl
    · exact h

theorem bind_ne_panic {x : Outcome ε α} {f : α → Outcome ε β} (hx : x ≠ .panic) (hf : ∀ a, f a ≠ .panic) :
    (x >>= f) ≠ .panic := by
  intro h
  rcases bind_eq_panic.1 h with h | ⟨a, -, h⟩
  · exact hx h
  · exact hf a h

@[simp] theorem value_eq_some {x : Outcome ε α} {a : α} : x.value = some a ↔ x = .ok a := by
  cases x <;> simp [value]

@[simp] theorem value_mapErr (f : ε → ε') (x : Outcome ε α) : (x.mapErr f).value = x.value := by
  cases x <;> rfl

theorem map_eq_ok {f : α → β} {x : Outcome ε α} {b : β} : x.map f = .ok b ↔ ∃ a, x = .ok a ∧ f a = b := by
  cases x <;> simp [Outcome.map]

@[simp] theorem ofExcept_eq_ok {x : Except ε α} {a : α} : ofExcept x = .ok a ↔ x = .ok a := by
  cases x <;> simp [ofExcept]

end Outcome

/-! ## Results -/

section

variable {ε ε' α β : Type}

theorem except_bind_eq_ok {x : Except ε α} {f : α → Except ε β} {b : β} :
    (x >>= f) = .ok b ↔ ∃ a, x = .ok a ∧ f a = .ok b := by
  cases x with
  | ok a => exact ⟨fun h => ⟨a, rfl, h⟩, by rintro ⟨_, ⟨⟩, h⟩; exact h⟩
  | error e => exact iff_of_false (by rintro ⟨⟩) (by rintro ⟨_, ⟨⟩, -⟩)

@[simp] theorem except_mapError_eq_ok {x : Except ε α} {f : ε → ε'} {a : α} :
    x.mapError f = .ok a ↔ x = .ok a := by
  cases x with
  | ok b => exact ⟨fun h => congrArg Except.ok (Except.ok.inj h), fun h => congrArg Except.ok (Except.ok.inj h)⟩
  | error e => exact iff_of_false (by rintro ⟨⟩) (by rintro ⟨⟩)

end

end GhostCrypt
