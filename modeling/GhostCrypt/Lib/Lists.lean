/-
Lists by the places of their entries: what stands where after one entry was added or changed, and two lists
whose entries stand for each other place by place.
-/
import Mathlib.Data.List.Forall2

namespace Lists

variable {α β γ : Type*}

/-! ## One list -/

theorem getElem?_concat_eq_some {l : List α} {a b : α} {i : ℕ} :
    (l ++ [a])[i]? = some b ↔ l[i]? = some b ∨ i = l.length ∧ b = a := by
  rw [List.getElem?_append]
  split
  · rename_i hi
    have hne : i ≠ l.length := by omega
    simp [hne]
  · rename_i hi
    rw [List.getElem?_eq_none (Nat.not_lt.1 hi), List.getElem?_singleton]
    have hiff : i - l.length = 0 ↔ i = l.length := by omega
    simp only [hiff, reduceCtorEq, false_or]
    split <;> simp_all [eq_comm]

theorem getElem?_set_eq_some {l : List α} {a b c : α} {i j : ℕ} (hi : l[i]? = some c) :
    (l.set i a)[j]? = some b ↔ j = i ∧ b = a ∨ j ≠ i ∧ l[j]? = some b := by
  have hlt : i < l.length := (List.getElem?_eq_some_iff.1 hi).1
  rw [List.getElem?_set]
  split
  · rename_i heq
    simp [heq, eq_comm]
  · rename_i hne
    simp [Ne.symm hne]

/-! ## Two lists -/

/-- Lists that stand for each other, after the same entry of both has changed. -/
theorem forall₂_modify {R : α → β → Prop} {f : α → α} {g : β → β} (hfg : ∀ {a b}, R a b → R (f a) (g b)) :
    ∀ {l : List α} {m : List β} (k : ℕ), List.Forall₂ R l m → List.Forall₂ R (l.modify k f) (m.modify k g)
  | [], [], k, .nil => by simp
  | _ :: _, _ :: _, 0, .cons h hs => by simpa using ⟨hfg h, hs⟩
  | _ :: _, _ :: _, k + 1, .cons h hs => by simpa using ⟨h, forall₂_modify hfg k hs⟩

theorem forall₂_getElem? {R : α → β → Prop} :
    ∀ {l : List α} {m : List β}, List.Forall₂ R l m → ∀ k : ℕ, Option.Rel R l[k]? m[k]?
  | [], [], .nil, _ => .none
  | _ :: _, _ :: _, .cons h _, 0 => .some h
  | _ :: _, _ :: _, .cons _ hs, k + 1 => forall₂_getElem? hs k

theorem forall₂_trans {R : α → β → Prop} {S : β → γ → Prop} {T : α → γ → Prop} (h : ∀ a b c, R a b → S b c → T a c) :
    ∀ {l : List α} {m : List β} {n : List γ}, List.Forall₂ R l m → List.Forall₂ S m n → List.Forall₂ T l n
  | [], [], [], .nil, .nil => .nil
  | _ :: _, _ :: _, _ :: _, .cons hr hrs, .cons hs hss => .cons (h _ _ _ hr hs) (forall₂_trans h hrs hss)

end Lists
