/-
Computations that count the calls they make and may be cut off. A function with loops becomes one
that takes the number of turns it may make; that it ends is that some number is enough for it.
-/
import Mathlib.Data.Option.Basic
import Mathlib.Data.Nat.Notation

/-- A value and a count, or nothing if the computation was cut off. -/
abbrev Counted (α : Type*) := Option (α × ℕ)

namespace Counted

variable {α β : Type*}

/-- A value that took no call. -/
def done (a : α) : Counted α := some (a, 0)

/-- The value of one call. -/
def tick (a : α) : Counted α := some (a, 1)

/-- One computation after another. -/
def andThen (x : Counted α) (f : α → Counted β) : Counted β :=
  x.bind fun (a, n) => (f a).map fun (b, k) => (b, n + k)

@[simp] theorem andThen_some (a : α) (n : ℕ) (f : α → Counted β) :
    andThen (some (a, n)) f = (f a).map fun (b, k) => (b, n + k) := rfl

@[simp] theorem andThen_tick (a : α) (f : α → Counted β) :
    andThen (tick a) f = (f a).map fun (b, k) => (b, 1 + k) := rfl

@[simp] theorem andThen_done (a : α) (f : α → Counted β) : andThen (done a) f = f a := by
  rw [done, andThen_some]
  simp only [Nat.zero_add]
  exact Option.map_id'

/-- The computation ends with `a` after `n` calls, if it may make `n` turns or more. -/
def Ends (f : ℕ → Counted α) (a : α) (n : ℕ) : Prop := ∀ fuel, n ≤ fuel → f fuel = some (a, n)

theorem ends_done (a : α) : Ends (fun _ => done a) a 0 := fun _ _ => rfl

/-- Counts of computations in a row add up. -/
theorem Ends.andThen {f : ℕ → Counted α} {g : ℕ → α → Counted β} {a : α} {b : β} {n k : ℕ} (hf : Ends f a n)
    (hg : Ends (fun fuel => g fuel a) b k) : Ends (fun fuel => Counted.andThen (f fuel) (g fuel)) b (n + k) := by
  intro fuel hle
  have hfirst : f fuel = some (a, n) := hf fuel (Nat.le_trans (Nat.le_add_right n k) hle)
  have hsecond : g fuel a = some (b, k) := hg fuel (Nat.le_trans (Nat.le_add_left k n) hle)
  show Counted.andThen (f fuel) (g fuel) = _
  rw [hfirst, andThen_some, hsecond]
  rfl

end Counted
