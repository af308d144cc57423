/-
The ladder of root keys: where each key of a session comes from. A path is the Diffie-Hellman
outputs of the root-key steps, newest first; it has a root key and, unless it is empty, the chain
set up by its last step. In the symbolic crates the path and the number determine a key.
-/
import GhostCrypt.Core.Symbolic
import GhostCrypt.Ratchet.Chain

namespace GhostCrypt.Ratchet

section

variable {B : Type} [ByteString B] (P : Primitives B) (sharedSecret : B)

/-- The root key of a path. -/
def ladderRoot : List B → B
  | [] => sharedSecret
  | d :: path => nextRoot P (ladderRoot path) d

/-- The chain set up by the last step of a path; the empty path has none. -/
def ladderChain : List B → B
  | [] => sharedSecret
  | d :: path => nextChain P (ladderRoot P sharedSecret path) d

/-- The HKDF output of the last step of a path. -/
def ladderBlock : List B → B
  | [] => sharedSecret
  | d :: path => stepBlock P (ladderRoot P sharedSecret path) d

/-- A chain, by its path, and a message number in it. -/
abbrev Position (B : Type) := List B × Nat

/-- The message key at a position. -/
def positionKey (p : Position B) : B := messageKeyAt P (ladderChain P sharedSecret p.1) p.2

@[simp] theorem ladderRoot_nil : ladderRoot P sharedSecret [] = sharedSecret := rfl

@[simp] theorem ladderRoot_cons (d : B) (path : List B) :
    ladderRoot P sharedSecret (d :: path) = nextRoot P (ladderRoot P sharedSecret path) d := rfl

@[simp] theorem ladderChain_cons (d : B) (path : List B) :
    ladderChain P sharedSecret (d :: path) = nextChain P (ladderRoot P sharedSecret path) d := rfl

end

/-! ## In the symbolic crates -/

section

variable (pub : StaticSecret → PublicKey) (enc dec : Key → Bytes → Bytes → Bytes → Option Bytes) (sharedSecret : Key)

theorem sizeOf_lt_ladderRoot (d : Key) : ∀ path,
    sizeOf sharedSecret < sizeOf (ladderRoot (symbolic pub enc dec) sharedSecret (d :: path))
  | [] => by
    rw [ladderRoot_cons]
    simp only [nextRoot, stepBlock, symbolic, ByteString.lower, ladderRoot_nil, Symbolic.Term.lower.sizeOf_spec,
      Symbolic.Term.hkdf.sizeOf_spec]
    omega
  | e :: path => by
    have ih := sizeOf_lt_ladderRoot e path
    rw [ladderRoot_cons]
    simp only [nextRoot, stepBlock, symbolic, ByteString.lower, Symbolic.Term.lower.sizeOf_spec,
      Symbolic.Term.hkdf.sizeOf_spec] at ih ⊢
    omega

/-- A root key is larger than the secret the ladder starts from, and each step is free. -/
theorem ladderRoot_injective : Function.Injective (ladderRoot (symbolic pub enc dec) sharedSecret)
  | [], [], _ => rfl
  | [], d :: p, h => absurd (congrArg sizeOf h) (sizeOf_lt_ladderRoot pub enc dec sharedSecret d p).ne
  | d :: p, [], h => absurd (congrArg sizeOf h) (sizeOf_lt_ladderRoot pub enc dec sharedSecret d p).ne'
  | d :: p, e :: q, h => by
    have hblock : stepBlock (symbolic pub enc dec) (ladderRoot (symbolic pub enc dec) sharedSecret p) d =
        stepBlock (symbolic pub enc dec) (ladderRoot (symbolic pub enc dec) sharedSecret q) e :=
      Symbolic.Term.lower.inj h
    obtain ⟨hroot, hd, -⟩ := Symbolic.Term.hkdf.inj hblock
    rw [hd, ladderRoot_injective hroot]

theorem ladderBlock_inj : ∀ {p q : List Key}, p ≠ [] → q ≠ [] →
    ladderBlock (symbolic pub enc dec) sharedSecret p = ladderBlock (symbolic pub enc dec) sharedSecret q → p = q
  | d :: p, e :: q, _, _, h => by
    obtain ⟨hroot, hd, -⟩ := Symbolic.Term.hkdf.inj h
    rw [hd, ladderRoot_injective pub enc dec sharedSecret hroot]

theorem ladderChain_inj : ∀ {p q : List Key}, p ≠ [] → q ≠ [] →
    ladderChain (symbolic pub enc dec) sharedSecret p = ladderChain (symbolic pub enc dec) sharedSecret q → p = q
  | _ :: _, _ :: _, hp, hq, h => ladderBlock_inj pub enc dec sharedSecret hp hq (Symbolic.Term.upper.inj h)

/-- A chain key is the slice of an HKDF output or an HMAC output, never both. -/
theorem chainKeyAt_inj {p q : List Key} (hp : p ≠ []) (hq : q ≠ []) : ∀ {m k : Nat},
    chainKeyAt (symbolic pub enc dec) (ladderChain (symbolic pub enc dec) sharedSecret p) m =
      chainKeyAt (symbolic pub enc dec) (ladderChain (symbolic pub enc dec) sharedSecret q) k → p = q ∧ m = k
  | 0, 0, h => ⟨ladderChain_inj pub enc dec sharedSecret hp hq h, rfl⟩
  | 0, k + 1, h => by
    obtain ⟨d, p, rfl⟩ := List.exists_cons_of_ne_nil hp
    cases h
  | m + 1, 0, h => by
    obtain ⟨d, q, rfl⟩ := List.exists_cons_of_ne_nil hq
    cases h
  | m + 1, k + 1, h => by
    obtain ⟨rfl, rfl⟩ := chainKeyAt_inj hp hq (Symbolic.Term.hmac.inj h).1
    exact ⟨rfl, rfl⟩

/-- A message key determines its position. -/
theorem positionKey_inj {p q : Position Key} (hp : p.1 ≠ []) (hq : q.1 ≠ [])
    (h : positionKey (symbolic pub enc dec) sharedSecret p = positionKey (symbolic pub enc dec) sharedSecret q) :
    p = q := by
  obtain ⟨hpath, hnum⟩ := chainKeyAt_inj pub enc dec sharedSecret hp hq (Symbolic.Term.hmac.inj h).1
  exact Prod.ext hpath hnum

end

end GhostCrypt.Ratchet
