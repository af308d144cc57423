/-
Numbered versions of objects. A version belongs to an object, its key, and has a number; the version
after it has the next number. As long as no number of an object is issued twice, two holders of the
same number hold the same version.
-/
import Mathlib.Data.Set.Insert
import Mathlib.Data.Nat.Notation

namespace Lineage

variable {K V : Type*} {key : V → K} {number : V → ℕ}

/-- The versions in circulation: one for each key and number, and each is either the first of its
key or was issued. -/
structure Coherent (key : V → K) (number : V → ℕ) (first : K → ℕ) (issued : List (K × ℕ)) (held : Set V) : Prop where
  agree : ∀ x ∈ held, ∀ y ∈ held, key x = key y → number x = number y → x = y
  known : ∀ x ∈ held, number x = first (key x) ∨ (key x, number x) ∈ issued
  above : ∀ x ∈ held, first (key x) ≤ number x

/-- At the start each key has one version. -/
theorem exists_coherent {held : Set V} (h : ∀ x ∈ held, ∀ y ∈ held, key x = key y → x = y) :
    ∃ first, Coherent key number first [] held := by
  classical
  let first : K → ℕ := fun k => if hk : ∃ x ∈ held, key x = k then number hk.choose else 0
  have hfirst : ∀ x ∈ held, first (key x) = number x := by
    intro x hx
    have hk : ∃ y ∈ held, key y = key x := ⟨x, hx, rfl⟩
    show (if hk : ∃ y ∈ held, key y = key x then number hk.choose else 0) = _
    rw [dif_pos hk, h _ hk.choose_spec.1 x hx hk.choose_spec.2]
  refine ⟨first, ?_, ?_, ?_⟩
  · exact fun x hx y hy hxy _ => h x hx y hy hxy
  · exact fun x hx => .inl (hfirst x hx).symm
  · exact fun x hx => (hfirst x hx).le

/-- A version is issued under a number its key has not used. -/
theorem Coherent.issue {first : K → ℕ} {issued : List (K × ℕ)} {held : Set V}
    (h : Coherent key number first issued held) {u v : V} (hu : u ∈ held) (hkey : key v = key u)
    (hnumber : number v = number u + 1) (hnew : (key v, number v) ∉ issued) :
    Coherent key number first ((key v, number v) :: issued) (insert v held) := by
  have habove : first (key v) ≤ number u := hkey ▸ h.above u hu
  -- no version in circulation has the new number
  have hfresh : ∀ x ∈ held, key x = key v → number x ≠ number v := by
    intro x hx hxv heq
    rcases h.known x hx with hfirst | hissued
    · rw [hxv] at hfirst
      omega
    · rw [hxv, heq] at hissued
      exact hnew hissued
  refine ⟨?_, ?_, ?_⟩
  · rintro x (rfl | hx) y (rfl | hy) hxy heq
    · rfl
    · exact absurd heq.symm (hfresh y hy hxy.symm)
    · exact absurd heq (hfresh x hx hxy)
    · exact h.agree x hx y hy hxy heq
  · rintro x (rfl | hx)
    · exact .inr List.mem_cons_self
    · exact (h.known x hx).imp id (List.mem_cons_of_mem _)
  · rintro x (rfl | hx)
    · omega
    · exact h.above x hx

end Lineage
