/-
Symbolic byte strings: keys as terms, what an adversary can compute from a set of terms, and a
method to show that a term is out of its reach.

A Diffie-Hellman output is determined by the unordered pair of the two public keys, and is
computable from either secret. The outputs of HKDF and HMAC are computable only from all their
inputs, and say nothing about them; the two slices of a term give the term back together.
-/
import Mathlib.Data.Sym.Sym2
import Mathlib.Data.Set.Basic

namespace Symbolic

variable {σ π : Type}

/-! ## Terms -/

/-- Byte strings over secrets `σ` and public keys `π`. -/
inductive Term (σ π : Type)
  | bytes (b : List UInt8)
  | shared (n : Nat)
  | secret (s : σ)
  | dh (pair : Sym2 π)
  | hmac (key : Term σ π) (data : List UInt8)
  | hkdf (salt ikm : Term σ π) (info : List UInt8) (length : Nat)
  | append (a b : Term σ π)
  | lower (t : Term σ π)
  | upper (t : Term σ π)

namespace Term

/-- The length in bytes: keys and Diffie-Hellman outputs have 32, `lower` is the slice `[..32]`
and `upper` the slice `[32..]`. -/
def length : Term σ π → Nat
  | bytes b => b.length
  | shared _ | secret _ | dh _ | hmac _ _ => 32
  | hkdf _ _ _ n => n
  | append a b => a.length + b.length
  | lower t => min 32 t.length
  | upper t => t.length - 32

end Term

/-! ## Derivability -/

/-- What can be computed from `K`, every public byte string included; `pub` is the public key of
a secret. -/
inductive Derivable (pub : σ → π) (K : Set (Term σ π)) : Term σ π → Prop
  | known {t} : t ∈ K → Derivable pub K t
  | bytes (b : List UInt8) : Derivable pub K (.bytes b)
  | append {a b} : Derivable pub K a → Derivable pub K b → Derivable pub K (.append a b)
  | left {a b} : Derivable pub K (.append a b) → Derivable pub K a
  | right {a b} : Derivable pub K (.append a b) → Derivable pub K b
  | lower {t} : Derivable pub K t → Derivable pub K (.lower t)
  | upper {t} : Derivable pub K t → Derivable pub K (.upper t)
  | join {t} : Derivable pub K (.lower t) → Derivable pub K (.upper t) → Derivable pub K t
  | hmac {key} (data : List UInt8) : Derivable pub K key → Derivable pub K (.hmac key data)
  | hkdf {salt ikm} (info : List UInt8) (n : Nat) :
      Derivable pub K salt → Derivable pub K ikm → Derivable pub K (.hkdf salt ikm info n)
  | dh {s} (q : π) : Derivable pub K (.secret s) → Derivable pub K (.dh s(pub s, q))

/-- Knowing more, one computes no less. -/
theorem Derivable.mono {pub : σ → π} {K K' : Set (Term σ π)} (h : K ⊆ K') {t : Term σ π}
    (ht : Derivable pub K t) : Derivable pub K' t := by
  induction ht with
  | known hk => exact .known (h hk)
  | bytes b => exact .bytes b
  | append _ _ iha ihb => exact .append iha ihb
  | left _ ih => exact .left ih
  | right _ ih => exact .right ih
  | lower _ ih => exact .lower ih
  | upper _ ih => exact .upper ih
  | join _ _ ihl ihu => exact .join ihl ihu
  | hmac data _ ih => exact .hmac data ih
  | hkdf info n _ _ ihs ihi => exact .hkdf info n ihs ihi
  | dh q _ ih => exact .dh q ih

/-! ## Sealed sets -/

/-- The term gives away a member of `C`: by being one, by holding one, or as a slice of one whose
other slice is not itself in `C`. -/
def Exposes (C : Set (Term σ π)) : Term σ π → Prop
  | .append a b => .append a b ∈ C ∨ Exposes C a ∨ Exposes C b
  | .lower t => .lower t ∈ C ∨ (Exposes C t ∧ .upper t ∉ C)
  | .upper t => .upper t ∈ C ∨ (Exposes C t ∧ .lower t ∉ C)
  | t => t ∈ C

theorem Exposes.of_mem {C : Set (Term σ π)} : ∀ {t : Term σ π}, t ∈ C → Exposes C t
  | .bytes _, h | .shared _, h | .secret _, h | .dh _, h | .hmac _ _, h | .hkdf _ _ _ _, h => h
  | .append _ _, h | .lower _, h | .upper _, h => .inl h

/-- `C` is out of reach of `K`: no known term exposes it, and each computation of a member of `C`
has an input in `C`. -/
structure Sealed (pub : σ → π) (K C : Set (Term σ π)) : Prop where
  known : ∀ t ∈ K, ¬ Exposes C t
  bytes : ∀ b, .bytes b ∉ C
  append : ∀ a b, .append a b ∈ C → a ∈ C ∨ b ∈ C
  lower : ∀ t, .lower t ∈ C → t ∈ C
  upper : ∀ t, .upper t ∈ C → t ∈ C
  hmac : ∀ key data, .hmac key data ∈ C → key ∈ C
  hkdf : ∀ salt ikm info n, .hkdf salt ikm info n ∈ C → salt ∈ C ∨ ikm ∈ C
  dh : ∀ s q, .dh s(pub s, q) ∈ C → .secret s ∈ C

namespace Sealed

variable {pub : σ → π} {K C : Set (Term σ π)}

/-- Nothing derivable exposes a sealed set. -/
theorem not_exposes (h : Sealed pub K C) {t : Term σ π} (ht : Derivable pub K t) : ¬ Exposes C t := by
  induction ht with
  | known hk => exact h.known _ hk
  | bytes b => exact h.bytes b
  | append _ _ iha ihb =>
    rintro (hc | ha | hb)
    · rcases h.append _ _ hc with ha | hb
      · exact iha (.of_mem ha)
      · exact ihb (.of_mem hb)
    · exact iha ha
    · exact ihb hb
  | left _ ih => exact fun ha => ih (.inr (.inl ha))
  | right _ ih => exact fun hb => ih (.inr (.inr hb))
  | lower _ ih =>
    rintro (hc | ⟨ht, -⟩)
    · exact ih (.of_mem (h.lower _ hc))
    · exact ih ht
  | upper _ ih =>
    rintro (hc | ⟨ht, -⟩)
    · exact ih (.of_mem (h.upper _ hc))
    · exact ih ht
  | @join t _ _ ihl ihu =>
    intro ht
    by_cases hu : Term.upper t ∈ C
    · exact ihu (.inl hu)
    · exact ihl (.inr ⟨ht, hu⟩)
  | hmac data _ ih => exact fun hc => ih (.of_mem (h.hmac _ _ hc))
  | hkdf info n _ _ ihs ihi =>
    intro hc
    rcases h.hkdf _ _ _ _ hc with hs | hi
    · exact ihs (.of_mem hs)
    · exact ihi (.of_mem hi)
  | dh q _ ih => exact fun hc => ih (.of_mem (h.dh _ _ hc))

/-- No member of a sealed set can be computed. -/
theorem not_derivable (h : Sealed pub K C) {t : Term σ π} (ht : t ∈ C) : ¬ Derivable pub K t :=
  fun hd => h.not_exposes hd (.of_mem ht)

end Sealed

end Symbolic
