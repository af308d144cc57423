/-
Tokens that are spent once. A token stands for a version of its owner's state, and spending it yields
a token for a version no earlier. As long as no token is spent twice each owner has one token to
spend, and a position that is logged on the way to a later one is not logged again.
-/
import Mathlib.Data.Set.Insert
import Mathlib.Order.Basic

namespace Tokens

variable {H V O P : Type*} [Preorder P] {owner : V → O} {position : V → P}

/-- Each owner has at most one token that is not spent, and it is past what was logged for it. -/
structure Linear (owner : V → O) (position : V → P) (spent : List H) (tokens : Set (H × V)) (log : List (O × P)) :
    Prop where
  unique : ∀ {h v h' v'}, (h, v) ∈ tokens → (h', v') ∈ tokens → h ∉ spent → h' ∉ spent → owner v = owner v' →
    h = h' ∧ v = v'
  past : ∀ {h v p}, (h, v) ∈ tokens → h ∉ spent → (owner v, p) ∈ log → p < position v
  nodup : log.Nodup

variable {spent : List H} {tokens tokens' : Set (H × V)} {log : List (O × P)}

theorem Linear.mono (hl : Linear owner position spent tokens log) (hsub : tokens' ⊆ tokens) :
    Linear owner position spent tokens' log :=
  ⟨fun h h' => hl.unique (hsub h) (hsub h'), fun h => hl.past (hsub h), hl.nodup⟩

/-- The owner's token is spent for another. -/
theorem Linear.spend (hl : Linear owner position spent tokens log) {h h' : H} {v v' : V} (hv : (h, v) ∈ tokens)
    (hspent : h ∉ spent) (howner : owner v' = owner v) (hle : position v ≤ position v') :
    Linear owner position (h :: spent) (insert (h', v') tokens) log := by
  -- what the owner could spend was the token `h`
  have honly : ∀ {k u}, (k, u) ∈ tokens → k ∉ h :: spent → owner u ≠ owner v := by
    intro k u hu hk heq
    rw [List.mem_cons, not_or] at hk
    exact hk.1 (hl.unique hu hv hk.2 hspent heq).1
  refine ⟨?_, ?_, hl.nodup⟩
  · rintro k u k' u' (hu | hu) (hu' | hu') hk hk' heq
    · obtain ⟨rfl, rfl⟩ := Prod.mk.inj hu
      obtain ⟨rfl, rfl⟩ := Prod.mk.inj hu'
      exact ⟨rfl, rfl⟩
    · obtain ⟨rfl, rfl⟩ := Prod.mk.inj hu
      exact absurd (heq.symm.trans howner) (honly hu' hk')
    · obtain ⟨rfl, rfl⟩ := Prod.mk.inj hu'
      exact absurd (heq.trans howner) (honly hu hk)
    · rw [List.mem_cons, not_or] at hk hk'
      exact hl.unique hu hu' hk.2 hk'.2 heq
  · rintro k u p (hu | hu) hk hp
    · obtain ⟨rfl, rfl⟩ := Prod.mk.inj hu
      rw [howner] at hp
      exact (hl.past hv hspent hp).trans_le hle
    · rw [List.mem_cons, not_or] at hk
      exact hl.past hu hk.2 hp

/-- The position of the spent token is logged, and the new one is past it. -/
theorem Linear.spend_log (hl : Linear owner position spent tokens log) {h h' : H} {v v' : V} (hv : (h, v) ∈ tokens)
    (hspent : h ∉ spent) (howner : owner v' = owner v) (hlt : position v < position v') :
    Linear owner position (h :: spent) (insert (h', v') tokens) ((owner v, position v) :: log) := by
  have hnext : Linear owner position (h :: spent) (insert (h', v') tokens) log := hl.spend hv hspent howner hlt.le
  refine ⟨hnext.unique, ?_, List.nodup_cons.2 ⟨fun hmem => ?_, hl.nodup⟩⟩
  · intro k u p hu hk hp
    rcases List.mem_cons.1 hp with heq | hp
    · obtain ⟨howner', rfl⟩ := Prod.mk.inj heq
      -- the token after it is the only one its owner can spend
      rcases hu with hu | hu
      · obtain ⟨rfl, rfl⟩ := Prod.mk.inj hu
        exact hlt
      · rw [List.mem_cons, not_or] at hk
        exact absurd (hl.unique hu hv hk.2 hspent howner').1 hk.1
    · exact hnext.past hu hk hp
  · exact lt_irrefl _ (hl.past hv hspent hmem)

end Tokens
