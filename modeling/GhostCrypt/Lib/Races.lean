/-
Calls that race on a store of versions. A call copies the version it works on, computes, draws a handle and
puts its object under it, and other calls run in between. What a call returns does not depend on them: it is
what the calls return one after another, in the order in which they made their copies.
-/
import GhostCrypt.Lib.Versions

namespace Races

open Versions

variable {α μ ω ρ : Type}

/-! ## Calls under way -/

/-- How far a call is. -/
inductive Stage (α μ ω ρ : Type)
  | making (m : μ)
  | working (w : ω) (a : α)
  | drawn (r : ρ) (a : α) (h : UInt32)
  | done (e : Entry UInt32 ρ)

/-- The handle that a call drew. -/
def Stage.handle : Stage α μ ω ρ → Option UInt32
  | .drawn _ _ h => some h
  | .done e => e.object
  | _ => none

/-- The store, and the calls in the order in which they started. -/
structure World (α μ ω ρ : Type) where
  values : Finmap fun _ : UInt32 => α
  next : UInt32
  calls : List (Stage α μ ω ρ)

/-- What happens to the store without interruption. A call that drops a version is one access. -/
inductive Access (μ ω : Type)
  | start (m : Move μ ω)
  | compute (i : ℕ)
  | insert (i : ℕ)

/-- The call that an access starts. -/
def Access.move : Access μ ω → Option (Move μ ω)
  | .start m => some m
  | _ => none

namespace World

variable (O : Objects α μ ω ρ) (w : World α μ ω ρ)

/-- The handle that the `k`-th call returned. -/
def handle (k : ℕ) : Option UInt32 :=
  match w.calls[k]? with
  | some (.done e) => e.object
  | _ => none

def add (c : Stage α μ ω ρ) : World α μ ω ρ := { w with calls := w.calls ++ [c] }

/-- A call starts, with a copy of the version it works on. -/
def start : Move μ ω → World α μ ω ρ
  | .make m => w.add (.making m)
  | .work k q =>
    match (w.handle k).bind fun h => w.values.lookup h with
    | some a => w.add (.working q a)
    | none => w.add (.done ⟨.missing, none⟩)
  | .drop k =>
    match w.handle k with
    | some h =>
      { w with values := w.values.erase h }.add (.done ⟨.dropped (w.values.lookup h).isSome, none⟩)
    | none => w.add (.done ⟨.dropped false, none⟩)

/-- A call that made an object draws a handle for it; another one returns. -/
def draw (i : ℕ) : ρ × Option α → World α μ ω ρ
  | (r, some a) => { w with next := w.next + 1, calls := w.calls.set i (.drawn r a w.next) }
  | (r, none) => { w with calls := w.calls.set i (.done ⟨.returned r, none⟩) }

def step : Access μ ω → World α μ ω ρ
  | .start m => w.start m
  | .compute i =>
    match w.calls[i]? with
    | some (.making m) => w.draw i (O.make m)
    | some (.working q a) => w.draw i (O.work q a)
    | _ => w
  | .insert i =>
    match w.calls[i]? with
    | some (.drawn r a h) =>
      { w with values := w.values.insert h a, calls := w.calls.set i (.done ⟨.returned r, some h⟩) }
    | _ => w

/-- Only a version whose call has returned is named. -/
def Known : Access μ ω → Prop
  | .start (.work k _) | .start (.drop k) => ∀ c, w.calls[k]? = some c → ∃ e, c = .done e
  | _ => True

end World

/-! ## The order of the copies -/

/-- The call is where the version stands, which it makes at its start. -/
inductive Stands (O : Objects α μ ω ρ) (values : Finmap fun _ : UInt32 => α) : Stage α μ ω ρ → Entry α ρ → Prop
  | making (m : μ) : Stands O values (.making m) (.of (O.make m))
  | working (q : ω) (a : α) : Stands O values (.working q a) (.of (O.work q a))
  | drawn (r : ρ) (a : α) (h : UInt32) : Stands O values (.drawn r a h) (.of (r, some a))
  | done {e e'} : e.answer = e'.answer → (e.object.bind fun h => values.lookup h) = e'.object →
      Stands O values (.done e) e'

/-- The calls, and the shelf of the calls one after another. -/
structure Holds (O : Objects α μ ω ρ) (w : World α μ ω ρ) (s : Shelf α ρ) : Prop where
  length : w.calls.length = s.length
  entries : ∀ {i : ℕ} {c e}, w.calls[i]? = some c → s[i]? = some e → Stands O w.values c e
  distinct : ∀ {i j : ℕ} {c c' h}, w.calls[i]? = some c → w.calls[j]? = some c' → c.handle = some h →
    c'.handle = some h → i = j

section

variable {O : Objects α μ ω ρ} {w : World α μ ω ρ} {s : Shelf α ρ}

/-- The handle of the call has the value it had. -/
theorem Stands.mono {values values' : Finmap fun _ : UInt32 => α} {c : Stage α μ ω ρ} {e : Entry α ρ}
    (h : Stands O values c e) (hsame : ∀ i, c.handle = some i → values'.lookup i = values.lookup i) :
    Stands O values' c e := by
  cases h with
  | making m => exact .making m
  | working q a => exact .working q a
  | drawn r a i => exact .drawn r a i
  | @done e _ hanswer hobject =>
    refine .done hanswer (hobject ▸ ?_)
    cases he : e.object with
    | none => rfl
    | some i => exact hsame i he

theorem Holds.getElem?_eq_some (h : Holds O w s) {i : ℕ} {c : Stage α μ ω ρ} (hc : w.calls[i]? = some c) :
    ∃ e, s[i]? = some e ∧ Stands O w.values c e := by
  have hlt : i < s.length := by
    rw [← h.length]
    exact (List.getElem?_eq_some_iff.1 hc).1
  exact ⟨s[i], List.getElem?_eq_getElem hlt, h.entries hc (List.getElem?_eq_getElem hlt)⟩

/-- The version of a call that returned is the one under its handle. -/
theorem Holds.version (h : Holds O w s) {k : ℕ} (hknown : ∀ c, w.calls[k]? = some c → ∃ e, c = .done e) :
    ((w.handle k).bind fun i => w.values.lookup i) = s.version k := by
  unfold World.handle Shelf.version
  cases hc : w.calls[k]? with
  | none =>
    rw [List.getElem?_eq_none (h.length ▸ List.getElem?_eq_none_iff.1 hc)]
    rfl
  | some c =>
    obtain ⟨e, rfl⟩ := hknown c hc
    obtain ⟨e', he', hstands⟩ := h.getElem?_eq_some hc
    rw [he']
    cases hstands with
    | done _ hobject => exact hobject

/-- A call starts. -/
theorem Holds.add (h : Holds O w s) {c : Stage α μ ω ρ} {e : Entry α ρ} (hc : Stands O w.values c e)
    (hhandle : c.handle = none) : Holds O (w.add c) (s ++ [e]) where
  length := by
    show (w.calls ++ [c]).length = _
    rw [List.length_append, List.length_append, h.length]
    rfl
  entries hi he := by
    rcases Lists.getElem?_concat_eq_some.1 hi with hi | ⟨rfl, rfl⟩
    · rcases Lists.getElem?_concat_eq_some.1 he with he | ⟨rfl, -⟩
      · exact h.entries hi he
      · rw [← h.length, List.getElem?_eq_none (Nat.le_refl _)] at hi
        cases hi
    · rw [h.length, List.getElem?_concat_length] at he
      obtain rfl := Option.some.inj he
      exact hc
  distinct hi hj hhi hhj := by
    rcases Lists.getElem?_concat_eq_some.1 hi with hi | ⟨-, rfl⟩
    · rcases Lists.getElem?_concat_eq_some.1 hj with hj | ⟨-, rfl⟩
      · exact h.distinct hi hj hhi hhj
      · rw [hhandle] at hhj
        cases hhj
    · rw [hhandle] at hhi
      cases hhi

/-- A version is dropped. -/
theorem Holds.erase (h : Holds O w s) {k : ℕ} {e : Entry UInt32 ρ} {i : UInt32} (hk : w.calls[k]? = some (.done e))
    (hi : e.object = some i) : Holds O { w with values := w.values.erase i } (s.modify k Entry.clear) where
  length := by
    rw [List.length_modify]
    exact h.length
  entries {j c e'} hj he' := by
    rw [List.getElem?_modify, Option.map_eq_map, Option.map_eq_some_iff] at he'
    obtain ⟨e'', he'', rfl⟩ := he'
    have hstands := h.entries hj he''
    by_cases hjk : k = j
    · subst hjk
      obtain rfl := Option.some.inj (hk.symm.trans hj)
      rw [if_pos rfl]
      cases hstands with
      | done hanswer _ =>
        refine .done hanswer ?_
        rw [hi]
        exact Finmap.lookup_erase i w.values
    · rw [if_neg hjk]
      refine hstands.mono fun i' hi' => Finmap.lookup_erase_ne ?_
      rintro rfl
      exact hjk (h.distinct hk hj hi hi')
  distinct := h.distinct

/-- A call goes on. -/
theorem Holds.set (h : Holds O w s) {i : ℕ} {c c' : Stage α μ ω ρ} (hi : w.calls[i]? = some c)
    {values : Finmap fun _ : UInt32 => α} (next : UInt32) (hc' : ∀ e, s[i]? = some e → Stands O values c' e)
    (hsame : ∀ {j : ℕ} {d k}, j ≠ i → w.calls[j]? = some d → d.handle = some k →
      values.lookup k = w.values.lookup k)
    (hnew : ∀ {j : ℕ} {d k}, j ≠ i → w.calls[j]? = some d → d.handle = some k → c'.handle ≠ some k) :
    Holds O { values, next, calls := w.calls.set i c' } s where
  length := List.length_set.trans h.length
  entries {j d e} hj he := by
    rcases (Lists.getElem?_set_eq_some hi).1 hj with ⟨rfl, rfl⟩ | ⟨hne, hj⟩
    · exact hc' e he
    · exact (h.entries hj he).mono fun k hk => hsame hne hj hk
  distinct {j j' d d' k} hj hj' hk hk' := by
    rcases (Lists.getElem?_set_eq_some hi).1 hj with ⟨rfl, rfl⟩ | ⟨hne, hd⟩
    · rcases (Lists.getElem?_set_eq_some hi).1 hj' with ⟨rfl, -⟩ | ⟨hne', hd'⟩
      · rfl
      · exact absurd hk (hnew hne' hd' hk')
    · rcases (Lists.getElem?_set_eq_some hi).1 hj' with ⟨rfl, rfl⟩ | ⟨hne', hd'⟩
      · exact absurd hk' (hnew hne hd hk)
      · exact h.distinct hd hd' hk hk'

/-- What a call computed is what its version is, and its handle is new. -/
theorem Holds.draw (h : Holds O w s) {i : ℕ} {c : Stage α μ ω ρ} (hi : w.calls[i]? = some c) {r : ρ × Option α}
    (hr : ∀ e, s[i]? = some e → e = .of r)
    (hnew : (w.draw i r).next ≠ w.next → ∀ {j : ℕ} {d}, w.calls[j]? = some d → d.handle ≠ some w.next) :
    Holds O (w.draw i r) s := by
  obtain ⟨r, a | a⟩ := r
  · refine h.set hi w.next (fun e he => ?_) (fun _ _ _ => rfl) fun _ _ _ => nofun
    rw [hr e he]
    exact .done rfl rfl
  · refine h.set hi (w.next + 1) (fun e he => ?_) (fun _ _ _ => rfl) fun _ hd hk heq => ?_
    · rw [hr e he]
      exact .drawn r a w.next
    · obtain rfl := Option.some.inj heq
      exact hnew (Kinds.Machine.add_one_ne _) hd hk

theorem Holds.start (h : Holds O w s) {m : Move μ ω} (hknown : w.Known (.start m)) :
    Holds O (w.start m) (s.step O m) := by
  cases m with
  | make m => exact h.add (.making m) rfl
  | work k q =>
    have hversion := h.version hknown
    simp only [World.start, Shelf.step]
    rw [hversion]
    cases s.version k with
    | some a => exact h.add (.working q a) rfl
    | none => exact h.add (.done rfl rfl) rfl
  | drop k =>
    have hversion := h.version hknown
    simp only [World.start, Shelf.step]
    rw [← hversion]
    cases hhandle : w.handle k with
    | none =>
      rw [hhandle, Option.bind_none] at hversion
      rw [Client.modify_of_version_none hversion.symm]
      exact h.add (.done rfl rfl) rfl
    | some i =>
      obtain ⟨e, hk, hi⟩ : ∃ e : Entry UInt32 ρ, w.calls[k]? = some (.done e) ∧ e.object = some i := by
        unfold World.handle at hhandle
        split at hhandle
        · rename_i e hk
          exact ⟨e, hk, hhandle⟩
        · cases hhandle
      exact (h.erase hk hi).add (.done rfl rfl) rfl

/-- Every access but the start of a call leaves the shelf as it is. -/
theorem Holds.step (h : Holds O w s) (a : Access μ ω) (hknown : w.Known a)
    (hnew : (w.step O a).next ≠ w.next → ∀ {j : ℕ} {d}, w.calls[j]? = some d → d.handle ≠ some w.next) :
    Holds O (w.step O a) (Run.exec (Shelf.step O) s a.move.toList) := by
  cases a with
  | start m => exact h.start hknown
  | compute i =>
    simp only [World.step] at hnew ⊢
    cases hi : w.calls[i]? with
    | none => exact h
    | some c =>
      rw [hi] at hnew
      cases c with
      | making m =>
        refine h.draw hi (fun e he => ?_) hnew
        cases h.entries hi he
        rfl
      | working q a =>
        refine h.draw hi (fun e he => ?_) hnew
        cases h.entries hi he
        rfl
      | drawn | done => exact h
  | insert i =>
    simp only [World.step]
    split
    · rename_i r a k hi
      refine h.set hi w.next (fun e he => ?_) (fun hne hd hk => ?_) fun hne hd hk heq => ?_
      · cases h.entries hi he
        exact .done rfl (Finmap.lookup_insert _)
      · refine Finmap.lookup_insert_of_ne _ ?_
        rintro rfl
        exact hne (h.distinct hd hi hk rfl)
      · obtain rfl := Option.some.inj heq
        exact hne (h.distinct hd hi hk rfl)
    · exact h

/-- Each call that returned has the answer that it has on the shelf, and the version under its handle is there what
the shelf has. -/
def Learns {β : Type} (R : α → β → Prop) (w : World α μ ω ρ) (t : Shelf β ρ) : Prop :=
  ∀ (i : ℕ) (e : Entry UInt32 ρ), w.calls[i]? = some (.done e) → ∃ e', t[i]? = some e' ∧ e.answer = e'.answer ∧
    Option.Rel R (e.object.bind fun h => w.values.lookup h) e'.object

/-- The shelf may be one of other objects that do the same. -/
theorem Holds.learns {β : Type} {R : α → β → Prop} {t : Shelf β ρ} (h : Holds O w s)
    (hst : List.Forall₂ (Matches R) s t) : Learns R w t := by
  intro i e hi
  obtain ⟨e', he', hstands⟩ := h.getElem?_eq_some hi
  have hget := Lists.forall₂_getElem? hst i
  rw [he'] at hget
  generalize t[i]? = e'' at hget
  cases hget with
  | some hmatches =>
    cases hstands with
    | done hanswer hobject =>
      rw [hanswer, hobject]
      exact ⟨_, rfl, hmatches.answer, hmatches.object⟩

/-- A call that returned stays as it is. -/
theorem World.getElem?_step {k : ℕ} {e : Entry UInt32 ρ} (hk : w.calls[k]? = some (.done e)) (a : Access μ ω) :
    (w.step O a).calls[k]? = some (.done e) := by
  have hadd : ∀ {values : Finmap fun _ : UInt32 => α} (c : Stage α μ ω ρ),
      (World.add { w with values } c).calls[k]? = some (.done e) := fun c => Lists.getElem?_concat_eq_some.2 (.inl hk)
  have hset : ∀ {i : ℕ} {c c' : Stage α μ ω ρ}, w.calls[i]? = some c → (∀ e, c ≠ .done e) →
      (w.calls.set i c')[k]? = some (.done e) := by
    intro i c c' hi hne
    refine (Lists.getElem?_set_eq_some hi).2 (.inr ⟨?_, hk⟩)
    rintro rfl
    exact hne e (Option.some.inj (hi.symm.trans hk))
  cases a with
  | start m =>
    cases m with
    | make m => exact hadd _
    | work j q =>
      simp only [World.step, World.start]
      split <;> exact hadd _
    | drop j =>
      simp only [World.step, World.start]
      split <;> exact hadd _
  | compute i =>
    simp only [World.step]
    cases hi : w.calls[i]? with
    | none => exact hk
    | some c =>
      cases c with
      | making m =>
        simp only [World.draw]
        split <;> exact hset hi fun _ => nofun
      | working q a =>
        simp only [World.draw]
        split <;> exact hset hi fun _ => nofun
      | drawn | done => exact hk
  | insert i =>
    simp only [World.step]
    cases hi : w.calls[i]? with
    | none => exact hk
    | some c =>
      cases c with
      | drawn r a h => exact hset hi fun _ => nofun
      | making | working | done => exact hk

end

/-! ## From the first call -/

section

variable {O : Objects α μ ω ρ} {w : World α μ ω ρ}

/-- The call has drawn the handle. -/
def World.Drawn (w : World α μ ω ρ) (h : UInt32) : Prop :=
  ∃ (i : ℕ) (c : Stage α μ ω ρ), w.calls[i]? = some c ∧ c.handle = some h

theorem drawn_add {c : Stage α μ ω ρ} (hc : c.handle = none) {h : UInt32} (hd : (w.add c).Drawn h) : w.Drawn h := by
  obtain ⟨i, d, hi, hd⟩ := hd
  rcases Lists.getElem?_concat_eq_some.1 hi with hi | ⟨-, rfl⟩
  · exact ⟨i, d, hi, hd⟩
  · rw [hc] at hd
    cases hd

theorem drawn_set {i : ℕ} {c c' : Stage α μ ω ρ} (hi : w.calls[i]? = some c)
    {values : Finmap fun _ : UInt32 => α} {next h : UInt32}
    (hd : World.Drawn { values, next, calls := w.calls.set i c' } h) : w.Drawn h ∨ c'.handle = some h := by
  obtain ⟨j, d, hj, hd⟩ := hd
  rcases (Lists.getElem?_set_eq_some hi).1 hj with ⟨-, rfl⟩ | ⟨-, hj⟩
  · exact .inr hd
  · exact .inl ⟨j, d, hj, hd⟩

theorem kinds_draw {i : ℕ} {c : Stage α μ ω ρ} (hi : w.calls[i]? = some c) (r : ρ × Option α) :
    Kinds.Step (fun _ : Unit => w.Drawn) w.next (fun _ => (w.draw i r).Drawn) (w.draw i r).next := by
  obtain ⟨r, a | a⟩ := r
  · refine .keep fun _ h hd => (drawn_set hi hd).resolve_right nofun
  · refine .draw () fun _ h hd => ?_
    exact (drawn_set hi hd).imp_right fun heq => ⟨rfl, (Option.some.inj heq).symm⟩

/-- An access draws no handle, or a call draws the next. -/
theorem kinds_step (w : World α μ ω ρ) (a : Access μ ω) :
    Kinds.Step (fun _ : Unit => w.Drawn) w.next (fun _ => (w.step O a).Drawn) (w.step O a).next := by
  cases a with
  | start m =>
    cases m with
    | make m => exact .keep fun _ _ => drawn_add rfl
    | work k q =>
      simp only [World.step, World.start]
      split
      · exact .keep fun _ _ => drawn_add rfl
      · exact .keep fun _ _ => drawn_add rfl
    | drop k =>
      simp only [World.step, World.start]
      split
      · exact .keep fun _ _ => drawn_add rfl
      · exact .keep fun _ _ => drawn_add rfl
  | compute i =>
    simp only [World.step]
    split
    · rename_i hi
      exact kinds_draw hi _
    · rename_i hi
      exact kinds_draw hi _
    · exact .keep fun _ _ => id
  | insert i =>
    simp only [World.step]
    split
    · rename_i r a k hi
      refine .keep fun _ h hd => ?_
      rcases drawn_set hi hd with hd | heq
      · exact hd
      · exact ⟨i, _, hi, heq⟩
    · exact .keep fun _ _ => id

variable (O) in
/-- The world as a machine whose accesses draw handles. -/
def machine : Kinds.Machine (World α μ ω ρ) (Access μ ω) Unit where
  step := World.step O
  live w _ := w.Drawn
  next := World.next
  steps := kinds_step

/-- A store before the first call. -/
def World.begin (values : Finmap fun _ : UInt32 => α) (next : UInt32) : World α μ ω ρ := { values, next, calls := [] }

theorem Holds.begin (values : Finmap fun _ : UInt32 => α) (next : UInt32) : Holds O (.begin values next) [] where
  length := rfl
  entries hi := nomatch hi
  distinct hi := nomatch hi

/-- However the accesses of the calls come, as long as no more than `2^32` handles are drawn: the calls return what they
return one after another, in the order in which they started. -/
theorem holds_exec (values : Finmap fun _ : UInt32 => α) (next : UInt32) {accesses : List (Access μ ω)}
    (hknown : Run.Along (World.step O) World.Known (.begin values next) accesses)
    (hdraws : (machine O).drawsOf (.begin values next) accesses ≤ 2 ^ 32) :
    Holds O (Run.exec (World.step O) (.begin values next) accesses)
      (Run.exec (Shelf.step O) [] (accesses.filterMap Access.move)) := by
  have hnone : ∀ (k : Unit) h, ¬ (machine O).live (.begin values next) k h := by
    rintro - h ⟨i, c, hi, -⟩
    cases hi
  have hstart : (machine O).Numbered next 0 (.begin values next) := .start rfl hnone
  have hnew : Run.Along (World.step O) ((machine O).New (.begin values next)) (.begin values next) accesses :=
    hstart.new_along (by omega) fun k h hl => absurd hl (hnone k h)
  refine Run.exec_simulation (fun w s a h hs => ?_) (.begin values next) (hknown.and hnew)
  exact h.step a hs.1 fun hdraws j d hj hd => (hs.2 hdraws ()).1 ⟨j, d, hj, hd⟩

end

/-! ## Calls in one go -/

section

variable {O : Objects α μ ω ρ} {w : World α μ ω ρ}

/-- The store after a call that computed `r`, with no other in between. -/
def World.finish (w : World α μ ω ρ) : ρ × Option α → World α μ ω ρ
  | (r, some a) =>
    { values := w.values.insert w.next a, next := w.next + 1
      calls := w.calls ++ [.done ⟨.returned r, some w.next⟩] }
  | (r, none) => w.add (.done ⟨.returned r, none⟩)

theorem World.exists_finish (w : World α μ ω ρ) (r : ρ × Option α) :
    ∃ e, (w.finish r).calls[w.calls.length]? = some (.done e) := by
  obtain ⟨r, a | a⟩ := r <;> exact ⟨_, List.getElem?_concat_length⟩

theorem insert_draw (c : Stage α μ ω ρ) (r : ρ × Option α) :
    ((w.add c).draw w.calls.length r).step O (.insert w.calls.length) = w.finish r := by
  obtain ⟨r, a | a⟩ := r <;> simp [World.step, World.draw, World.add, World.finish]

theorem exec_making (w : World α μ ω ρ) (m : μ) :
    Run.exec (World.step O) (w.add (.making m)) [.compute w.calls.length, .insert w.calls.length] =
      w.finish (O.make m) := by
  rw [Run.exec_cons, Run.exec_cons, Run.exec_nil, ← insert_draw (O := O) (.making m)]
  simp only [World.step, World.add, List.getElem?_concat_length]

theorem exec_working (w : World α μ ω ρ) (q : ω) (a : α) :
    Run.exec (World.step O) (w.add (.working q a)) [.compute w.calls.length, .insert w.calls.length] =
      w.finish (O.work q a) := by
  rw [Run.exec_cons, Run.exec_cons, Run.exec_nil, ← insert_draw (O := O) (.working q a)]
  simp only [World.step, World.add, List.getElem?_concat_length]

/-- A call that returned at once. -/
theorem exec_done (w : World α μ ω ρ) (e : Entry UInt32 ρ) :
    Run.exec (World.step O) (w.add (.done e)) [.compute w.calls.length, .insert w.calls.length] = w.add (.done e) := by
  simp only [Run.exec_cons, Run.exec_nil, World.step, World.add, List.getElem?_concat_length]

variable {K : Keeper α μ ω ρ} {client : Client K}

/-- The call returned, in the world as to the client. -/
inductive Returned (K : Keeper α μ ω ρ) : Entry UInt32 K.Result → Stage α μ ω ρ → Prop
  | done {x y h} : K.Answers x y → Returned K ⟨x, h⟩ (.done ⟨y, h⟩)

/-- The calls of the client all returned, and its store is that of the world. -/
structure Alone (client : Client K) (w : World α μ ω ρ) : Prop where
  values : ∀ h, w.values.lookup h = K.object client.store h
  next : w.next = K.next client.store
  calls : List.Forall₂ (Returned K) client.calls w.calls

theorem Alone.handle (h : Alone client w) (k : ℕ) : w.handle k = client.calls.version k := by
  have hget := Lists.forall₂_getElem? h.calls k
  unfold World.handle Shelf.version
  generalize client.calls[k]? = e at hget ⊢
  generalize w.calls[k]? = c at hget ⊢
  cases hget with
  | none => rfl
  | some hreturned => cases hreturned with | done => rfl

/-- A call that returned no handle. -/
theorem Alone.add (h : Alone client w) {x : Answer K.Result} {y : Answer ρ} (hanswer : K.Answers x y) :
    Alone { client with calls := client.calls ++ [⟨x, none⟩] } (w.add (.done ⟨y, none⟩)) where
  values := h.values
  next := h.next
  calls := List.rel_append h.calls (.cons (.done hanswer) .nil)

theorem Alone.took (h : Alone client w) {r : ρ × Option α} {x : K.Result × K.Store}
    (hputs : K.Puts client.store r x) : Alone (client.took x) (w.finish r) := by
  cases hputs with
  | nothing hsays hhandle =>
    unfold Client.took Entry.of
    rw [hhandle]
    exact h.add (.returned hsays)
  | @object r a x st' hsays hhandle hnext hobject =>
    refine ⟨fun i => ?_, ?_, List.rel_append h.calls (.cons ?_ .nil)⟩
    · show (w.values.insert w.next a).lookup i = K.object st' i
      rw [hobject, Handles.lookup_insert_eq, h.next, h.values]
    · show w.next + 1 = K.next st'
      rw [hnext, h.next]
    · show Returned K (.of (x, K.handle x)) _
      rw [hhandle, ← h.next]
      exact .done (.returned hsays)

/-- A call of the client is the accesses of a call in one go. -/
theorem Alone.call (hK : K.Lawful O) (h : Alone client w) (m : Move μ ω) :
    Alone (client.step (.call m))
      (Run.exec (World.step O) w [.start m, .compute w.calls.length, .insert w.calls.length]) := by
  rw [Run.exec_cons]
  cases m with
  | make m =>
    show Alone _ (Run.exec (World.step O) (w.add (.making m)) _)
    rw [exec_making]
    exact h.took (hK.make m client.store)
  | work k q =>
    simp only [World.step, World.start, Client.step, h.handle]
    cases client.calls.version k with
    | none =>
      simp only [Option.bind_none, exec_done]
      exact h.add .missing
    | some i =>
      simp only [Option.bind_some, h.values]
      cases hobject : K.object client.store i with
      | some a =>
        simp only [exec_working]
        exact h.took (hK.work q hobject)
      | none =>
        obtain ⟨hrefuses, hnone, hstore⟩ := hK.missing q hobject
        simp only [exec_done, Client.took, Entry.of, hnone, hstore]
        exact h.add (.refused hrefuses)
  | drop k =>
    simp only [World.step, World.start, Client.step, h.handle]
    cases client.calls.version k with
    | none =>
      simp only [exec_done]
      exact h.add (.dropped false)
    | some i =>
      obtain ⟨hfound, hnext, hobject⟩ := hK.drop i client.store
      have hexec := exec_done (O := O) { w with values := w.values.erase i } ⟨.dropped (w.values.lookup i).isSome, none⟩
      refine (congrArg (Alone _) hexec).mpr ⟨fun j => ?_, h.next.trans hnext.symm, ?_⟩
      · show (w.values.erase i).lookup j = K.object (K.drop i client.store).2 j
        rw [hobject, Handles.lookup_erase_eq, h.values]
      · refine List.rel_append h.calls (.cons ?_ .nil)
        rw [hfound, h.values]
        exact .done (.dropped _)

/-- The accesses of calls one after another, the first of which is the `n`-th. -/
def alone : ℕ → List (Move μ ω) → List (Access μ ω)
  | _, [] => []
  | n, m :: moves => .start m :: .compute n :: .insert n :: alone (n + 1) moves

theorem length_call (client : Client K) (m : Move μ ω) :
    (client.step (.call m)).calls.length = client.calls.length + 1 := by
  cases m with
  | make m => exact List.length_append
  | work k q =>
    simp only [Client.step]
    cases client.calls.version k <;> exact List.length_append
  | drop k =>
    simp only [Client.step]
    cases client.calls.version k <;> exact List.length_append

/-- A client that makes one call after another. -/
theorem Alone.exec (hK : K.Lawful O) : ∀ {client : Client K} {w : World α μ ω ρ} (moves : List (Move μ ω)),
    Alone client w → Alone (Run.exec Client.step client (moves.map .call))
      (Run.exec (World.step O) w (alone w.calls.length moves))
  | _, _, [], h => h
  | client, w, m :: moves, h => by
    have hcall := h.call hK m
    have ih := hcall.exec hK moves
    rw [← hcall.calls.length_eq, length_call, h.calls.length_eq] at ih
    exact ih

end

end Races
