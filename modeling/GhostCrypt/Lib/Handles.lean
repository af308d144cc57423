/-
Values under 32-bit handles. Each new value goes under the next number of a counter, which wraps. The
handles returned are new, and what they once denoted is all they ever denote, exactly as long as no
more than `2^32` of them are returned.
-/
import Mathlib.Data.Finmap
import Mathlib.Data.List.Range
import GhostCrypt.Lib.Run

namespace Handles

/-! ## Tables -/

/-- The values, the next handle, and whether the table takes no more values. -/
structure Table (V : Type*) where
  values : Finmap fun _ : UInt32 => V
  next : UInt32
  closed : Bool

variable {V σ α : Type*}

/-- What a call may do to a table, by the handle it names and the one it returns. -/
inductive Effect (t : Table V) : (named returned : Option UInt32) → Table V → Prop
  | create (named : Option UInt32) (v : V) : t.closed = false →
      Effect t named (some t.next) { t with values := t.values.insert t.next v, next := t.next + 1 }
  | keep (named : Option UInt32) : Effect t named none t
  | refuse (named : Option UInt32) : t.closed = true → Effect t named none { t with next := t.next + 1 }
  | update (h : UInt32) (v w : V) (closed : Bool) : t.values.lookup h = some v → (t.closed = true → closed = true) →
      Effect t (some h) none { t with values := t.values.insert h w, closed }
  | remove (h : UInt32) : Effect t (some h) none { t with values := t.values.erase h }

/-- A machine whose calls act on a table. -/
structure Machine (σ α V : Type*) where
  step : σ → α → σ
  named : α → Option UInt32
  reply : σ → α → Option UInt32
  table : σ → Table V
  effect : ∀ s a, Effect (table s) (named a) (reply s a) (table (step s a))

/-! ## New handles -/

/-- After the handles `used`: a returned handle is new and is the only one bound, a call changes no
other value than that of the handle it names, and a handle that has lost its value stays without. -/
structure Fresh (used : List UInt32) (t : Table V) (named returned : Option UInt32) (t' : Table V) : Prop where
  new : ∀ h, returned = some h → h ∉ used ∧ t.values.lookup h = none ∧ t'.values.lookup h ≠ none
  others : ∀ h, named ≠ some h → returned ≠ some h → t'.values.lookup h = t.values.lookup h
  stale : ∀ h ∈ used, t.values.lookup h = none → t'.values.lookup h = none

namespace Machine

variable (M : Machine σ α V)

/-- The handles a run returns, in order. -/
def returned : σ → List α → List UInt32
  | _, [] => []
  | s, a :: as => (M.reply s a).toList ++ returned (M.step s a) as

/-- Every call of the run treats the handles returned before it as used. -/
def NeverReuses (s : σ) (as : List α) : Prop :=
  ∀ before a after, as = before ++ a :: after →
    Fresh (M.returned s before) (M.table (Run.exec M.step s before)) (M.named a)
      (M.reply (Run.exec M.step s before) a) (M.table (Run.exec M.step s (before ++ [a])))

theorem returned_append : ∀ (s : σ) (as bs : List α),
    M.returned s (as ++ bs) = M.returned s as ++ M.returned (Run.exec M.step s as) bs
  | _, [], _ => rfl
  | s, a :: as, bs => by
    rw [List.cons_append, returned, returned, returned_append (M.step s a) as bs, List.append_assoc]
    rfl

theorem returned_concat (s : σ) (as : List α) (a : α) :
    M.returned s (as ++ [a]) = M.returned s as ++ (M.reply (Run.exec M.step s as) a).toList := by
  rw [returned_append, returned, returned, List.append_nil]

/-- A run keeps to it if all but the last call do, and the last. -/
theorem neverReuses_concat (s : σ) (as : List α) (a : α) :
    M.NeverReuses s (as ++ [a]) ↔ M.NeverReuses s as ∧
      Fresh (M.returned s as) (M.table (Run.exec M.step s as)) (M.named a)
        (M.reply (Run.exec M.step s as) a) (M.table (Run.exec M.step s (as ++ [a]))) := by
  constructor
  · intro h
    refine ⟨?_, h as a [] rfl⟩
    rintro before b after rfl
    exact h before b (after ++ [a]) (by simp)
  · rintro ⟨h, hlast⟩ before b after heq
    rcases List.eq_nil_or_concat after with rfl | ⟨after, c, rfl⟩
    · obtain ⟨rfl, hb⟩ := List.append_inj' heq rfl
      obtain rfl := (List.cons.inj hb).1
      exact hlast
    · rw [List.concat_eq_append, ← List.cons_append, ← List.append_assoc] at heq
      obtain ⟨rfl, -⟩ := List.append_inj' heq rfl
      exact h before b after rfl

end Machine

/-! ## The counter -/

/-- The `i`-th handle drawn after `first`. -/
def drawn (first : UInt32) (i : ℕ) : UInt32 := first + UInt32.ofNat i

theorem drawn_inj {first : UInt32} {i j : ℕ} (hi : i < 2 ^ 32) (hj : j < 2 ^ 32) (h : drawn first i = drawn first j) :
    i = j := by
  have heq := congrArg UInt32.toNat ((UInt32.add_right_inj first).1 h)
  rwa [UInt32.toNat_ofNat_of_lt' hi, UInt32.toNat_ofNat_of_lt' hj] at heq

/-- The counter comes back after `2^32` handles. -/
theorem drawn_wraps (first : UInt32) (i : ℕ) : drawn first (i + 2 ^ 32) = drawn first i := by
  unfold drawn
  rw [UInt32.ofNat_add]
  simp

theorem drawn_succ (first : UInt32) (i : ℕ) : drawn first i + 1 = drawn first (i + 1) := by
  unfold drawn
  rw [UInt32.ofNat_add, UInt32.add_assoc]
  rfl

/-- The first `n` handles. -/
def firstDrawn (first : UInt32) (n : ℕ) : List UInt32 := (List.range n).map (drawn first)

theorem mem_firstDrawn {first h : UInt32} {n : ℕ} : h ∈ firstDrawn first n ↔ ∃ i < n, drawn first i = h := by
  simp [firstDrawn]

/-- The next handle is new exactly while fewer than `2^32` are used. -/
theorem drawn_mem_iff (first : UInt32) (n : ℕ) : drawn first n ∈ firstDrawn first n ↔ 2 ^ 32 ≤ n := by
  rw [mem_firstDrawn]
  constructor
  · rintro ⟨i, hi, heq⟩
    by_contra hlt
    have := drawn_inj (by omega) (by omega) heq
    omega
  · intro hle
    refine ⟨n - 2 ^ 32, by omega, ?_⟩
    rw [← drawn_wraps, Nat.sub_add_cancel hle]

/-! ## Runs -/

/-- The handles returned are the first drawn, the counter is at the next one unless the table is
closed, and a value is under a handle that was returned. -/
structure Issued (first : UInt32) (used : List UInt32) (t : Table V) : Prop where
  used_eq : used = firstDrawn first used.length
  next : t.closed = false → t.next = drawn first used.length
  live : ∀ h, t.values.lookup h ≠ none → h ∈ used

theorem Issued.start {first : UInt32} {t : Table V} (hvalues : t.values = ∅) (hnext : t.next = first) :
    Issued first [] t := by
  refine ⟨rfl, fun _ => ?_, fun h hl => ?_⟩
  · rw [hnext]
    simp [drawn]
  · rw [hvalues] at hl
    exact absurd rfl hl

theorem lookup_insert_eq (m : Finmap fun _ : UInt32 => V) (k h : UInt32) (v : V) :
    (m.insert k v).lookup h = if h = k then some v else m.lookup h := by
  split
  · rename_i heq
    subst heq
    exact Finmap.lookup_insert m
  · rename_i hne
    exact Finmap.lookup_insert_of_ne m hne

theorem lookup_erase_eq (m : Finmap fun _ : UInt32 => V) (k h : UInt32) :
    (m.erase k).lookup h = if h = k then none else m.lookup h := by
  split
  · rename_i heq
    subst heq
    exact Finmap.lookup_erase _ m
  · rename_i hne
    exact Finmap.lookup_erase_ne hne

/-- A call that neither names the handle nor returns it leaves its value alone. -/
theorem Effect.lookup_of_ne {t t' : Table V} {named r : Option UInt32} (he : Effect t named r t') {h : UInt32}
    (hnamed : named ≠ some h) (hnext : r ≠ none → t.next ≠ h) : t'.values.lookup h = t.values.lookup h := by
  cases he with
  | create _ v => rw [lookup_insert_eq, if_neg fun heq => hnext (Option.some_ne_none _) heq.symm]
  | keep | refuse => rfl
  | update k v w closed => rw [lookup_insert_eq, if_neg fun heq => hnamed (congrArg some heq.symm)]
  | remove k => rw [lookup_erase_eq, if_neg fun heq => hnamed (congrArg some heq.symm)]

section

variable {first : UInt32} {used : List UInt32} {t t' : Table V} {named r : Option UInt32}

/-- One call keeps the invariant, with the handle it returned used up. -/
theorem Issued.effect (h : Issued first used t) (he : Effect t named r t') : Issued first (used ++ r.toList) t' := by
  cases he with
  | create _ v hopen =>
    have hlen : (used ++ [t.next]).length = used.length + 1 := List.length_append
    refine ⟨?_, fun _ => ?_, fun k hk => ?_⟩
    · show used ++ [t.next] = _
      rw [Option.toList_some, hlen, firstDrawn, List.range_succ, List.map_append, h.next hopen]
      exact congrArg (· ++ _) h.used_eq
    · rw [Option.toList_some, hlen, ← drawn_succ, ← h.next hopen]
    · rw [lookup_insert_eq] at hk
      rw [Option.toList_some, List.mem_append, List.mem_singleton]
      by_cases heq : k = t.next
      · exact .inr heq
      · rw [if_neg heq] at hk
        exact .inl (h.live k hk)
  | keep =>
    rw [Option.toList_none, List.append_nil]
    exact h
  | refuse _ hclosed =>
    rw [Option.toList_none, List.append_nil]
    exact ⟨h.used_eq, fun hopen => absurd (hclosed.symm.trans hopen) Bool.noConfusion, h.live⟩
  | update k v w closed hk hclosed =>
    rw [Option.toList_none, List.append_nil]
    refine ⟨h.used_eq, fun hopen => h.next ?_, fun k' hk' => ?_⟩
    · by_contra hne
      rw [Bool.not_eq_false] at hne
      exact absurd ((hclosed hne).symm.trans hopen) Bool.noConfusion
    · rw [lookup_insert_eq] at hk'
      by_cases heq : k' = k
      · subst heq
        exact h.live k' (by rw [hk]; exact Option.some_ne_none v)
      · rw [if_neg heq] at hk'
        exact h.live k' hk'
  | remove k =>
    rw [Option.toList_none, List.append_nil]
    refine ⟨h.used_eq, h.next, fun k' hk' => h.live k' ?_⟩
    rw [lookup_erase_eq] at hk'
    split at hk'
    · exact absurd rfl hk'
    · exact hk'

/-- The next handle of an open table is new while fewer than `2^32` are used. -/
theorem Issued.next_mem_iff (h : Issued first used t) (hopen : t.closed = false) :
    t.next ∈ used ↔ 2 ^ 32 ≤ used.length := by
  have hmem : drawn first used.length ∈ used ↔ drawn first used.length ∈ firstDrawn first used.length := by
    rw [← h.used_eq]
  rw [h.next hopen, hmem, drawn_mem_iff]

/-- One call treats the handles as used exactly if it returns none or fewer than `2^32` are. -/
theorem Issued.fresh_iff (h : Issued first used t) (he : Effect t named r t') :
    Fresh used t named r t' ↔ (r ≠ none → used.length < 2 ^ 32) := by
  have hnone : r = none → Fresh used t named r t' := by
    intro hr
    refine ⟨fun k hk => ?_, ?_, ?_⟩
    · rw [hr] at hk
      cases hk
    all_goals cases he with
      | create => cases hr
      | keep | refuse => intros; first | rfl | assumption
      | update k v w closed hk => ?_
      | remove k => ?_
    · intro k' hk' _
      rw [lookup_insert_eq, if_neg fun heq => hk' (congrArg some heq.symm)]
    · intro k' hk' _
      rw [lookup_erase_eq, if_neg fun heq => hk' (congrArg some heq.symm)]
    · intro k' _ hk'
      rw [lookup_insert_eq, if_neg, hk']
      rintro rfl
      rw [hk] at hk'
      cases hk'
    · intro k' _ hk'
      rw [lookup_erase_eq, hk', ite_self]
  constructor
  · intro hfresh hr
    obtain ⟨k, hk⟩ := Option.ne_none_iff_exists'.1 hr
    have hnew := (hfresh.new k hk).1
    cases he with
    | create _ v hopen =>
      obtain rfl := Option.some.inj hk
      exact Nat.not_le.1 fun hge => hnew ((h.next_mem_iff hopen).2 hge)
    | keep | refuse | update | remove => cases hk
  · intro hlt
    cases he with
    | create _ v hopen =>
      have hnew : t.next ∉ used := by
        rw [h.next_mem_iff hopen]
        exact Nat.not_le.2 (hlt (Option.some_ne_none _))
      refine ⟨?_, fun k _ hk => ?_, fun k hk hnone => ?_⟩
      · rintro _ ⟨⟩
        refine ⟨hnew, by_contra fun hl => hnew (h.live _ hl), ?_⟩
        rw [Finmap.lookup_insert]
        exact Option.some_ne_none v
      · rw [lookup_insert_eq, if_neg fun heq => hk (congrArg some heq.symm)]
      · rw [lookup_insert_eq, if_neg, hnone]
        rintro rfl
        exact hnew hk
    | keep | refuse | update | remove => exact hnone rfl

end

namespace Machine

variable (M : Machine σ α V) {first : UInt32} {s : σ}

/-- What has been issued in a run, from an empty table. -/
theorem issued_exec (h : Issued first [] (M.table s)) (as : List α) :
    Issued first (M.returned s as) (M.table (Run.exec M.step s as)) := by
  induction as using List.reverseRecOn with
  | nil => exact h
  | append_singleton as a ih =>
    rw [returned_concat, Run.exec_append]
    exact ih.effect (M.effect _ _)

/-- A run reuses no handle exactly if it returns at most `2^32`. -/
theorem neverReuses_iff (h : Issued first [] (M.table s)) (as : List α) :
    M.NeverReuses s as ↔ (M.returned s as).length ≤ 2 ^ 32 := by
  induction as using List.reverseRecOn with
  | nil =>
    refine iff_of_true ?_ (Nat.zero_le _)
    rintro (_ | ⟨_, _⟩) a after ⟨⟩
  | append_singleton as a ih =>
    have hissued := M.issued_exec h as
    have heffect : Effect (M.table (Run.exec M.step s as)) (M.named a) (M.reply (Run.exec M.step s as) a)
        (M.table (Run.exec M.step s (as ++ [a]))) := by
      rw [Run.exec_append]
      exact M.effect _ _
    rw [neverReuses_concat, ih, hissued.fresh_iff heffect, returned_concat, List.length_append]
    cases M.reply (Run.exec M.step s as) a with
    | none => simp
    | some k =>
      simp only [ne_eq, reduceCtorEq, not_false_eq_true, forall_const, Option.toList_some, List.length_singleton]
      omega

end Machine

end Handles
