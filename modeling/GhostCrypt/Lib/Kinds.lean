/-
Objects of several kinds under 32-bit handles of one counter. As long as no more than `2^32` handles are
drawn, a handle has an object of at most one kind, and the next handle has none of any kind.
-/
import GhostCrypt.Lib.Handles

namespace Kinds

open Handles (drawn drawn_inj drawn_succ)

variable {σ α κ : Type*}

/-! ## Machines -/

/-- What a step does to the handles in use and to the counter: it draws none, and puts no object under
a handle without one, or it draws the next and puts an object of at most one kind under it. -/
inductive Step (live : κ → UInt32 → Prop) (next : UInt32) (live' : κ → UInt32 → Prop) : UInt32 → Prop
  | keep : (∀ k h, live' k h → live k h) → Step live next live' next
  | draw (kind : κ) : (∀ k h, live' k h → live k h ∨ k = kind ∧ h = next) → Step live next live' (next + 1)

/-- A machine whose steps draw handles: the handles that have an object of a kind, and the next one. -/
structure Machine (σ α κ : Type*) where
  step : σ → α → σ
  live : σ → κ → UInt32 → Prop
  next : σ → UInt32
  steps : ∀ s a, Step (live s) (next s) (live (step s a)) (next (step s a))

namespace Machine

variable (M : Machine σ α κ)

/-- The handles that a step draws. -/
def draws (s : σ) (a : α) : ℕ := if M.next (M.step s a) = M.next s then 0 else 1

/-- The handles that a run draws. -/
def drawsOf : σ → List α → ℕ
  | _, [] => 0
  | s, a :: as => M.draws s a + drawsOf (M.step s a) as

theorem drawsOf_le_length : ∀ (s : σ) (as : List α), M.drawsOf s as ≤ as.length
  | _, [] => Nat.le_refl 0
  | s, a :: as => by
    have ih := drawsOf_le_length (M.step s a) as
    have hone : M.draws s a ≤ 1 := by unfold draws; split <;> omega
    rw [drawsOf, List.length_cons]
    omega

theorem drawsOf_append : ∀ (s : σ) (as bs : List α),
    M.drawsOf s (as ++ bs) = M.drawsOf s as + M.drawsOf (Run.exec M.step s as) bs
  | _, [], _ => (Nat.zero_add _).symm
  | s, a :: as, bs => by
    rw [List.cons_append, drawsOf, drawsOf, drawsOf_append (M.step s a) as bs, Run.exec_cons, Nat.add_assoc]

/-- After `n` draws from `first`: the counter is at the next one, and each handle in use is one of those
drawn, for one kind. -/
structure Numbered (first : UInt32) (n : ℕ) (s : σ) : Prop where
  next : M.next s = drawn first n
  drawn : ∀ k h, M.live s k h → ∃ i < n, drawn first i = h
  exclusive : ∀ k k' h, M.live s k h → M.live s k' h → k = k'

variable {M} {first : UInt32} {n : ℕ} {s : σ}

theorem Numbered.start (hnext : M.next s = first) (hlive : ∀ k h, ¬ M.live s k h) : M.Numbered first 0 s where
  next := by
    rw [hnext]
    simp [Handles.drawn]
  drawn k h hl := absurd hl (hlive k h)
  exclusive k _ h hl := absurd hl (hlive k h)

/-- The next handle has no object while fewer than `2^32` are drawn. -/
theorem Numbered.not_live_next (h : M.Numbered first n s) (hn : n < 2 ^ 32) (k : κ) : ¬ M.live s k (M.next s) := by
  intro hl
  obtain ⟨i, hi, heq⟩ := h.drawn k _ hl
  rw [h.next] at heq
  have := drawn_inj (by omega) hn heq
  omega

theorem add_one_ne (h : UInt32) : h + 1 ≠ h := by
  intro heq
  have hone := (UInt32.add_right_inj h).1 (heq.trans (UInt32.add_zero h).symm)
  exact absurd hone (by decide)

theorem Numbered.step (h : M.Numbered first n s) (a : α) (hn : n + M.draws s a ≤ 2 ^ 32) :
    M.Numbered first (n + M.draws s a) (M.step s a) := by
  have hcases : (M.next (M.step s a) = M.next s ∧ ∀ k h, M.live (M.step s a) k h → M.live s k h) ∨
      ∃ kind, M.next (M.step s a) = M.next s + 1 ∧
        ∀ k h, M.live (M.step s a) k h → M.live s k h ∨ k = kind ∧ h = M.next s := by
    have hstep := M.steps s a
    generalize M.next (M.step s a) = next' at hstep
    cases hstep with
    | keep hlive => exact .inl ⟨rfl, hlive⟩
    | draw kind hlive => exact .inr ⟨kind, rfl, hlive⟩
  rcases hcases with ⟨hnext, hlive⟩ | ⟨kind, hnext, hlive⟩
  · rw [draws, if_pos hnext]
    refine ⟨hnext.trans h.next, fun k i hl => h.drawn k i (hlive k i hl), fun k k' i hl hl' => ?_⟩
    exact h.exclusive k k' i (hlive k i hl) (hlive k' i hl')
  · have hdraws : M.draws s a = 1 := by rw [draws, hnext, if_neg (add_one_ne _)]
    rw [hdraws] at hn ⊢
    have hfree := h.not_live_next (by omega)
    refine ⟨by rw [hnext, h.next, drawn_succ], fun k i hl => ?_, fun k k' i hl hl' => ?_⟩
    · rcases hlive k i hl with hold | ⟨-, rfl⟩
      · obtain ⟨j, hj, heq⟩ := h.drawn k i hold
        exact ⟨j, by omega, heq⟩
      · exact ⟨n, by omega, h.next.symm⟩
    · -- the handle drawn has no object yet
      rcases hlive k i hl with hold | ⟨hk, hi⟩
      · rcases hlive k' i hl' with hold' | ⟨-, hi⟩
        · exact h.exclusive k k' i hold hold'
        · exact absurd (hi ▸ hold) (hfree k)
      · rcases hlive k' i hl' with hold' | ⟨hk', -⟩
        · exact absurd (hi ▸ hold') (hfree k')
        · rw [hk, hk']

/-- After a run that draws `m` more. -/
theorem Numbered.exec : ∀ {as : List α} {n : ℕ} {s : σ}, M.Numbered first n s → n + M.drawsOf s as ≤ 2 ^ 32 →
    M.Numbered first (n + M.drawsOf s as) (Run.exec M.step s as)
  | [], _, _, h, _ => h
  | a :: as, n, s, h, hn => by
    rw [drawsOf, ← Nat.add_assoc] at hn ⊢
    exact Numbered.exec (h.step a (by omega)) hn

variable (M) in
/-- If the step draws a handle, it has no object, and had none at `s₀`. -/
def New (s₀ s : σ) (a : α) : Prop :=
  M.next (M.step s a) ≠ M.next s → ∀ k, ¬ M.live s k (M.next s) ∧ ¬ M.live s₀ k (M.next s)

/-- As long as no more than `2^32` handles are drawn, no handle is drawn that was in use. -/
theorem Numbered.new_along {s₀ : σ} : ∀ {as : List α} {n : ℕ} {s : σ}, M.Numbered first n s →
    n + M.drawsOf s as ≤ 2 ^ 32 → (∀ k h, M.live s₀ k h → ∃ i < n, Handles.drawn first i = h) →
    Run.Along M.step (M.New s₀) s as
  | [], _, _, _, _, _ => trivial
  | a :: as, n, s, h, hn, hold => by
    rw [drawsOf, ← Nat.add_assoc] at hn
    refine ⟨fun hdraws k => ?_, Numbered.new_along (h.step a (by omega)) hn fun k i hl => ?_⟩
    · have hone : M.draws s a = 1 := if_neg hdraws
      refine ⟨h.not_live_next (by omega) k, fun hl => ?_⟩
      obtain ⟨i, hi, heq⟩ := hold k _ hl
      rw [h.next] at heq
      have := drawn_inj (by omega) (by omega) heq
      omega
    · obtain ⟨j, hj, heq⟩ := hold k i hl
      exact ⟨j, by omega, heq⟩

end Machine

end Kinds
