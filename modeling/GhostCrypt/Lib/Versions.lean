/-
Objects that calls never change in place. A call makes an object, or works on a copy of one, and what comes of
it stands beside the others as a new version; a version can be dropped. `Shelf` is what this means, whatever
the objects are. `Refines` puts other objects in their place, and `Keeper` puts them under 32-bit handles.
-/
import GhostCrypt.Lib.Kinds
import GhostCrypt.Lib.Lists

namespace Versions

variable {α β μ ω ρ : Type}

/-! ## Objects -/

/-- What calls do: each has a result, and an object if it succeeds. -/
structure Objects (α μ ω ρ : Type) where
  make : μ → ρ × Option α
  work : ω → α → ρ × Option α

/-- What the caller learns: the result, that the version is not there, or whether it was there to be dropped. -/
inductive Answer (ρ : Type)
  | returned (r : ρ)
  | missing
  | dropped (found : Bool)

/-- A call. It names a version by the number of the call that made it. -/
inductive Move (μ ω : Type)
  | make (m : μ)
  | work (k : ℕ) (w : ω)
  | drop (k : ℕ)

/-- A call that was made: its answer, and the version it made, as long as that is there. -/
structure Entry (α ρ : Type) where
  answer : Answer ρ
  object : Option α

namespace Entry

/-- The call returned. -/
def of (r : ρ × Option α) : Entry α ρ := ⟨.returned r.1, r.2⟩

/-- The version is dropped. -/
def clear (e : Entry α ρ) : Entry α ρ := { e with object := none }

end Entry

/-! ## Shelves -/

/-- The calls made, in order. -/
abbrev Shelf (α ρ : Type) := List (Entry α ρ)

namespace Shelf

/-- The version that the `k`-th call made. -/
def version (s : Shelf α ρ) (k : ℕ) : Option α := s[k]?.bind Entry.object

/-- The next call. -/
def step (O : Objects α μ ω ρ) (s : Shelf α ρ) : Move μ ω → Shelf α ρ
  | .make m => s ++ [.of (O.make m)]
  | .work k w =>
    match s.version k with
    | some a => s ++ [.of (O.work w a)]
    | none => s ++ [⟨.missing, none⟩]
  | .drop k => s.modify k Entry.clear ++ [⟨.dropped (s.version k).isSome, none⟩]

end Shelf

/-! ## Other objects -/

/-- The same result, and objects that stand for each other. -/
structure Alike (R : α → β → Prop) (x : ρ × Option α) (y : ρ × Option β) : Prop where
  result : x.1 = y.1
  object : Option.Rel R x.2 y.2

/-- The calls do the same to objects that stand for each other. -/
structure Refines (R : α → β → Prop) (O : Objects α μ ω ρ) (O' : Objects β μ ω ρ) : Prop where
  make : ∀ m, Alike R (O.make m) (O'.make m)
  work : ∀ w {a b}, R a b → Alike R (O.work w a) (O'.work w b)

/-- The same answer, and versions that stand for each other. -/
structure Matches (R : α → β → Prop) (e : Entry α ρ) (e' : Entry β ρ) : Prop where
  answer : e.answer = e'.answer
  object : Option.Rel R e.object e'.object

section

variable {R : α → β → Prop} {O : Objects α μ ω ρ} {O' : Objects β μ ω ρ} {s : Shelf α ρ} {t : Shelf β ρ}

theorem Alike.of {x : ρ × Option α} {y : ρ × Option β} (h : Alike R x y) : Matches R (.of x) (.of y) :=
  ⟨congrArg Answer.returned h.result, h.object⟩

theorem Matches.clear {e : Entry α ρ} {e' : Entry β ρ} (h : Matches R e e') : Matches R e.clear e'.clear :=
  ⟨h.answer, .none⟩

theorem version_rel (h : List.Forall₂ (Matches R) s t) (k : ℕ) : Option.Rel R (s.version k) (t.version k) := by
  have hget := Lists.forall₂_getElem? h k
  unfold Shelf.version
  generalize s[k]? = e at hget ⊢
  generalize t[k]? = e' at hget ⊢
  cases hget with
  | none => exact .none
  | some he => exact he.object

theorem Refines.step (h : Refines R O O') (hst : List.Forall₂ (Matches R) s t) (m : Move μ ω) :
    List.Forall₂ (Matches R) (s.step O m) (t.step O' m) := by
  cases m with
  | make m => exact List.rel_append hst (.cons (h.make m).of .nil)
  | work k w =>
    have hversion := version_rel hst k
    simp only [Shelf.step]
    generalize s.version k = v at hversion ⊢
    generalize t.version k = v' at hversion ⊢
    cases hversion with
    | none => exact List.rel_append hst (.cons ⟨rfl, .none⟩ .nil)
    | some hab => exact List.rel_append hst (.cons (h.work w hab).of .nil)
  | drop k =>
    refine List.rel_append (Lists.forall₂_modify Matches.clear k hst) (.cons ⟨?_, .none⟩ .nil)
    have hversion := version_rel hst k
    generalize s.version k = v at hversion ⊢
    generalize t.version k = v' at hversion ⊢
    cases hversion <;> rfl

/-- Every run on the one kind of objects is a run on the other, with the same answers. -/
theorem Refines.exec (h : Refines R O O') : ∀ {s : Shelf α ρ} {t : Shelf β ρ} (moves : List (Move μ ω)),
    List.Forall₂ (Matches R) s t →
      List.Forall₂ (Matches R) (Run.exec (Shelf.step O) s moves) (Run.exec (Shelf.step O') t moves)
  | _, _, [], hst => hst
  | _, _, m :: moves, hst => h.exec moves (h.step hst m)

end

/-! ## Handles -/

variable (α μ ω ρ) in
/-- A store that keeps objects under handles, as its clients see it. -/
structure Keeper where
  Store : Type
  Result : Type
  Other : Type
  object : Store → UInt32 → Option α
  next : Store → UInt32
  /-- The handle that a client reads in a result. -/
  handle : Result → Option UInt32
  Says : Result → ρ → Prop
  /-- The result says that there is no object under the handle. -/
  Refuses : Result → Prop
  /-- The call does not take the object of the handle away. -/
  Spares : UInt32 → Other → Prop
  make : μ → Store → Result × Store
  work : UInt32 → ω → Store → Result × Store
  drop : UInt32 → Store → Bool × Store
  other : Other → Store → Store

namespace Keeper

variable (K : Keeper α μ ω ρ)

/-- A call returned what it should, and put the object it made, if any, under the next handle. -/
inductive Puts (st : K.Store) : ρ × Option α → K.Result × K.Store → Prop
  | object {r a x st'} : K.Says x r → K.handle x = some (K.next st) → K.next st' = K.next st + 1 →
      (∀ h, K.object st' h = if h = K.next st then some a else K.object st h) → Puts st (r, some a) (x, st')
  | nothing {r x} : K.Says x r → K.handle x = none → Puts st (r, none) (x, st)

/-- What a client can rely on. -/
structure Lawful (O : Objects α μ ω ρ) : Prop where
  make : ∀ m st, K.Puts st (O.make m) (K.make m st)
  work : ∀ {st h a} w, K.object st h = some a → K.Puts st (O.work w a) (K.work h w st)
  missing : ∀ {st h} w, K.object st h = none →
    K.Refuses (K.work h w st).1 ∧ K.handle (K.work h w st).1 = none ∧ (K.work h w st).2 = st
  drop : ∀ h st, (K.drop h st).1 = (K.object st h).isSome ∧ K.next (K.drop h st).2 = K.next st ∧
    ∀ i, K.object (K.drop h st).2 i = if i = h then none else K.object st i
  draws : ∀ c st, K.next (K.other c st) = K.next st ∨ K.next (K.other c st) = K.next st + 1
  other : ∀ {c st h}, K.Spares h c → (K.next (K.other c st) ≠ K.next st → h ≠ K.next st) →
    K.object (K.other c st) h = K.object st h

/-- The client of the handle learns what the client of the shelf learns. -/
inductive Answers : Answer K.Result → Answer ρ → Prop
  | returned {x r} : K.Says x r → Answers (.returned x) (.returned r)
  | refused {x} : K.Refuses x → Answers (.returned x) .missing
  | missing : Answers .missing .missing
  | dropped (found : Bool) : Answers (.dropped found) (.dropped found)

/-- The handle that a call returned has the version that the call made. -/
structure Stands (st : K.Store) (e : Entry UInt32 K.Result) (e' : Entry α ρ) : Prop where
  answer : K.Answers e.answer e'.answer
  object : e.object.bind (K.object st) = e'.object

variable {K} in
/-- The same of other objects, which those of the store stand for. -/
structure Learns (R : α → β → Prop) (st : K.Store) (e : Entry UInt32 K.Result) (e' : Entry β ρ) : Prop where
  answer : K.Answers e.answer e'.answer
  object : Option.Rel R (e.object.bind (K.object st)) e'.object

variable {K} in
theorem Stands.learns {R : α → β → Prop} {st : K.Store} {e : Entry UInt32 K.Result} {e' : Entry α ρ} {e'' : Entry β ρ}
    (h : K.Stands st e e') (h' : Matches R e' e'') : Learns R st e e'' where
  answer := h'.answer ▸ h.answer
  object := by
    rw [h.object]
    exact h'.object

end Keeper

/-! ## Clients -/

/-- A store, and the calls of a client on it, with the handles it was given. -/
structure Client (K : Keeper α μ ω ρ) where
  store : K.Store
  calls : Shelf UInt32 K.Result

/-- The client makes a call, or somebody does something else with the store. -/
inductive Action (K : Keeper α μ ω ρ)
  | call (m : Move μ ω)
  | other (c : K.Other)

def Action.move {K : Keeper α μ ω ρ} : Action K → Option (Move μ ω)
  | .call m => some m
  | .other _ => none

namespace Client

variable {K : Keeper α μ ω ρ} {O : Objects α μ ω ρ}

/-- The client notes what was returned. -/
def took (client : Client K) (x : K.Result × K.Store) : Client K :=
  { store := x.2, calls := client.calls ++ [.of (x.1, K.handle x.1)] }

/-- A client has nothing to call with where the call it names returned no handle. -/
def step (client : Client K) : Action K → Client K
  | .call (.make m) => client.took (K.make m client.store)
  | .call (.work k w) =>
    match client.calls.version k with
    | some h => client.took (K.work h w client.store)
    | none => { client with calls := client.calls ++ [⟨.missing, none⟩] }
  | .call (.drop k) =>
    match client.calls.version k with
    | some h =>
      { store := (K.drop h client.store).2
        calls := client.calls ++ [⟨.dropped (K.drop h client.store).1, none⟩] }
    | none => { client with calls := client.calls ++ [⟨.dropped false, none⟩] }
  | .other c => { client with store := K.other c client.store }

/-- The handles the client was given. -/
def handles (client : Client K) : List UInt32 := client.calls.filterMap Entry.object

/-- Nobody else takes an object of the client's away. -/
def Spared (client : Client K) : Action K → Prop
  | .call _ => True
  | .other c => ∀ h ∈ client.handles, K.Spares h c

/-- The client, its handles and the shelf. -/
structure Holds (client : Client K) (s : Shelf α ρ) : Prop where
  entries : List.Forall₂ (K.Stands client.store) client.calls s
  nodup : client.handles.Nodup

/-! ## The handles implement the shelf -/

section

variable {st st' : K.Store} {e : Entry UInt32 K.Result} {e' : Entry α ρ} {calls : Shelf UInt32 K.Result} {s : Shelf α ρ}

theorem stands_same (h : K.Stands st e e') (hsame : ∀ i, e.object = some i → K.object st' i = K.object st i) :
    K.Stands st' e e' := by
  refine ⟨h.answer, h.object ▸ ?_⟩
  cases ho : e.object with
  | none => rfl
  | some i => exact hsame i ho

/-- The store after something else was done to it. -/
theorem entries_same : ∀ {calls : Shelf UInt32 K.Result} {s : Shelf α ρ},
    (∀ i ∈ calls.filterMap Entry.object, K.object st' i = K.object st i) →
      List.Forall₂ (K.Stands st) calls s → List.Forall₂ (K.Stands st') calls s
  | [], [], _, .nil => .nil
  | e :: calls, _ :: _, hsame, .cons h hs => by
    refine .cons (stands_same h fun i hi => hsame i ?_) (entries_same (fun i hi => hsame i ?_) hs)
    · exact List.mem_filterMap.2 ⟨e, List.mem_cons_self, hi⟩
    · exact ((List.sublist_cons_self e calls).filterMap Entry.object).subset hi

theorem version_eq (h : List.Forall₂ (K.Stands st) calls s) (k : ℕ) :
    (calls.version k).bind (K.object st) = s.version k := by
  have hget := Lists.forall₂_getElem? h k
  unfold Shelf.version
  generalize calls[k]? = e at hget ⊢
  generalize s[k]? = e' at hget ⊢
  cases hget with
  | none => rfl
  | some he => exact he.object

theorem version_mem {k : ℕ} {i : UInt32} (h : calls.version k = some i) : i ∈ calls.filterMap Entry.object := by
  obtain ⟨e, he, hi⟩ := Option.bind_eq_some_iff.1 h
  exact List.mem_filterMap.2 ⟨e, List.mem_of_getElem? he, hi⟩

/-- A version that is not there can be dropped again. -/
theorem modify_of_version_none : ∀ {s : Shelf α ρ} {k : ℕ}, s.version k = none → s.modify k Entry.clear = s
  | [], _, _ => by simp
  | e :: s, 0, h => by
    obtain ⟨answer, object⟩ := e
    obtain rfl : object = none := h
    rfl
  | e :: s, k + 1, h => by
    rw [List.modify_succ_cons, modify_of_version_none (s := s) (k := k) h]

/-- The object of a handle is taken away. -/
theorem entries_drop {i : UInt32} (hdrop : ∀ j, K.object st' j = if j = i then none else K.object st j) :
    ∀ {calls : Shelf UInt32 K.Result} {s : Shelf α ρ} {k : ℕ}, calls.version k = some i →
      (calls.filterMap Entry.object).Nodup → List.Forall₂ (K.Stands st) calls s →
        List.Forall₂ (K.Stands st') calls (s.modify k Entry.clear)
  | e :: calls, e' :: s, 0, hk, hnodup, .cons h hs => by
    replace hk : e.object = some i := hk
    rw [List.filterMap_cons_some hk, List.nodup_cons] at hnodup
    refine .cons ⟨h.answer, ?_⟩ (entries_same (fun j hj => ?_) hs)
    · rw [hk]
      exact (hdrop i).trans (if_pos rfl)
    · rw [hdrop, if_neg]
      rintro rfl
      exact hnodup.1 hj
  | e :: calls, e' :: s, k + 1, hk, hnodup, .cons h hs => by
    replace hk : Shelf.version calls k = some i := hk
    have hnodup' := hnodup.sublist ((List.sublist_cons_self e calls).filterMap Entry.object)
    refine .cons (stands_same h fun j hj => ?_) (entries_drop hdrop hk hnodup' hs)
    -- the handle is that of a later call
    rw [hdrop, if_neg]
    rintro rfl
    rw [List.filterMap_cons_some hj, List.nodup_cons] at hnodup
    exact hnodup.1 (version_mem hk)

end

section

variable {client : Client K} {s : Shelf α ρ}

/-- A call that returned no handle. -/
theorem handles_append (client : Client K) (st : K.Store) (x : Answer K.Result) :
    handles { store := st, calls := client.calls ++ [⟨x, none⟩] } = client.handles := by
  rw [handles, List.filterMap_append, List.filterMap_cons_none rfl, List.filterMap_nil, List.append_nil]
  rfl

theorem Holds.append (h : Holds client s) {st : K.Store} {x : Answer K.Result} {e : Entry α ρ}
    (hst : ∀ i ∈ client.handles, K.object st i = K.object client.store i) (hanswer : K.Answers x e.answer)
    (hobject : e.object = none) : Holds { store := st, calls := client.calls ++ [⟨x, none⟩] } (s ++ [e]) where
  entries := List.rel_append (entries_same hst h.entries) (.cons ⟨hanswer, hobject.symm⟩ .nil)
  nodup := by
    rw [handles_append]
    exact h.nodup

/-- A call that returned, on a store whose next handle the client was not given before. -/
theorem Holds.took (h : Holds client s) {r : ρ × Option α} {x : K.Result × K.Store}
    (hputs : K.Puts client.store r x) (hnew : K.next x.2 ≠ K.next client.store → K.next client.store ∉ client.handles) :
    Holds (client.took x) (s ++ [.of r]) := by
  cases hputs with
  | nothing hsays hhandle =>
    unfold Client.took Entry.of
    rw [hhandle]
    exact h.append (fun _ _ => rfl) (.returned hsays) rfl
  | @object r a x st' hsays hhandle hnext hobject =>
    have hfree : K.next client.store ∉ client.handles := by
      refine hnew ?_
      rw [hnext]
      exact Kinds.Machine.add_one_ne _
    refine ⟨List.rel_append (entries_same (fun i hi => ?_) h.entries) (.cons ⟨.returned hsays, ?_⟩ .nil), ?_⟩
    · refine (hobject i).trans (if_neg ?_)
      rintro rfl
      exact hfree hi
    · show (K.handle x).bind (K.object st') = some a
      rw [hhandle]
      exact (hobject _).trans (if_pos rfl)
    · show (List.filterMap Entry.object (client.calls ++ [.of (x, K.handle x)])).Nodup
      rw [List.filterMap_append, hhandle]
      exact List.nodup_append.2 ⟨h.nodup, List.nodup_singleton _, fun i hi j hj => by
        rintro rfl
        exact hfree ((List.mem_singleton.1 hj) ▸ hi)⟩

/-- Every step of the client is the call on the shelf that it stands for. -/
theorem Holds.step (hK : K.Lawful O) (h : Holds client s) (a : Action K) (hspared : client.Spared a)
    (hnew : K.next (client.step a).store ≠ K.next client.store → K.next client.store ∉ client.handles) :
    Holds (client.step a) (Run.exec (Shelf.step O) s a.move.toList) := by
  cases a with
  | other c =>
    have hsame : ∀ i ∈ client.handles, K.object (K.other c client.store) i = K.object client.store i := by
      refine fun i hi => hK.other (hspared i hi) fun hdraws => ?_
      rintro rfl
      exact hnew hdraws hi
    exact ⟨entries_same hsame h.entries, h.nodup⟩
  | call m =>
    cases m with
    | make m => exact h.took (hK.make m client.store) hnew
    | work k w =>
      have hversion := version_eq h.entries k
      simp only [Client.step] at hnew ⊢
      cases hhandle : client.calls.version k with
      | none =>
        rw [hhandle] at hversion
        simp only [Action.move, Option.toList_some, Run.exec_cons, Run.exec_nil, Shelf.step, ← hversion]
        exact h.append (fun _ _ => rfl) .missing rfl
      | some i =>
        simp only [hhandle] at hnew
        rw [hhandle, Option.bind_some] at hversion
        simp only [Action.move, Option.toList_some, Run.exec_cons, Run.exec_nil, Shelf.step, ← hversion]
        cases hobject : K.object client.store i with
        | some a => exact h.took (hK.work w hobject) hnew
        | none =>
          obtain ⟨hrefuses, hnone, hstore⟩ := hK.missing w hobject
          simp only [Client.took, Entry.of, hnone, hstore]
          exact h.append (fun _ _ => rfl) (.refused hrefuses) rfl
    | drop k =>
      have hversion := version_eq h.entries k
      simp only [Client.step]
      cases hhandle : client.calls.version k with
      | none =>
        rw [hhandle] at hversion
        simp only [Action.move, Option.toList_some, Run.exec_cons, Run.exec_nil, Shelf.step, ← hversion,
          modify_of_version_none hversion.symm]
        exact h.append (fun _ _ => rfl) (.dropped false) rfl
      | some i =>
        obtain ⟨hfound, -, hobject⟩ := hK.drop i client.store
        rw [hhandle, Option.bind_some] at hversion
        have hentries := entries_drop hobject hhandle h.nodup h.entries
        simp only [Action.move, Option.toList_some, Run.exec_cons, Run.exec_nil, Shelf.step, ← hversion]
        rw [hfound]
        refine ⟨List.rel_append hentries (.cons ⟨.dropped _, rfl⟩ .nil), ?_⟩
        rw [handles_append]
        exact h.nodup

end

/-! ## From the first call -/

theorem handles_took (client : Client K) (x : K.Result × K.Store) :
    (client.took x).handles = client.handles ++ (K.handle x.1).toList := by
  unfold handles took
  rw [List.filterMap_append]
  cases hhandle : K.handle x.1 with
  | none => simp [Entry.of]
  | some h => simp [Entry.of]

theorem kinds_took {client : Client K} {x : K.Result × K.Store}
    (h : K.handle x.1 = none ∧ K.next x.2 = K.next client.store ∨
      K.handle x.1 = some (K.next client.store) ∧ K.next x.2 = K.next client.store + 1) :
    Kinds.Step (fun (_ : Unit) h => h ∈ client.handles) (K.next client.store)
      (fun _ h => h ∈ (client.took x).handles) (K.next (client.took x).store) := by
  rw [handles_took]
  rcases h with ⟨hhandle, hnext⟩ | ⟨hhandle, hnext⟩
  · rw [hhandle, Option.toList_none, List.append_nil, show K.next (client.took x).store = _ from hnext]
    exact .keep fun _ _ => id
  · rw [hhandle, show K.next (client.took x).store = _ from hnext]
    refine .draw () fun _ h hh => ?_
    rcases List.mem_append.1 hh with hh | hh
    · exact .inl hh
    · exact .inr ⟨rfl, List.mem_singleton.1 hh⟩

theorem draws_of_puts {st : K.Store} {r : ρ × Option α} {x : K.Result × K.Store} (h : K.Puts st r x) :
    K.handle x.1 = none ∧ K.next x.2 = K.next st ∨ K.handle x.1 = some (K.next st) ∧ K.next x.2 = K.next st + 1 := by
  cases h with
  | nothing hsays hhandle => exact .inl ⟨hhandle, rfl⟩
  | object hsays hhandle hnext hobject => exact .inr ⟨hhandle, hnext⟩

/-- A step draws no handle, or the client is given the one that is drawn, or somebody else is. -/
theorem kinds_step (hK : K.Lawful O) (client : Client K) (a : Action K) :
    Kinds.Step (fun (_ : Unit) h => h ∈ client.handles) (K.next client.store)
      (fun _ h => h ∈ (client.step a).handles) (K.next (client.step a).store) := by
  cases a with
  | other c =>
    rcases hK.draws c client.store with hnext | hnext
    · rw [show K.next (client.step (.other c)).store = _ from hnext]
      exact .keep fun _ _ => id
    · rw [show K.next (client.step (.other c)).store = _ from hnext]
      exact .draw () fun _ _ => .inl
  | call m =>
    cases m with
    | make m => exact kinds_took (draws_of_puts (hK.make m client.store))
    | work k w =>
      simp only [Client.step]
      cases client.calls.version k with
      | none => exact .keep fun _ h hh => by rwa [handles_append] at hh
      | some i =>
        cases hobject : K.object client.store i with
        | some a => exact kinds_took (draws_of_puts (hK.work w hobject))
        | none =>
          obtain ⟨-, hnone, hstore⟩ := hK.missing w hobject
          exact kinds_took (.inl ⟨hnone, congrArg K.next hstore⟩)
    | drop k =>
      simp only [Client.step]
      cases client.calls.version k with
      | none => exact .keep fun _ h hh => by rwa [handles_append] at hh
      | some i =>
        simp only [(hK.drop i client.store).2.1]
        exact .keep fun _ h hh => by rwa [handles_append] at hh

/-- The client as a machine that draws handles. -/
def machine (hK : K.Lawful O) : Kinds.Machine (Client K) (Action K) Unit where
  step := step
  live client _ h := h ∈ client.handles
  next client := K.next client.store
  steps := kinds_step hK

/-- A client before its first call. -/
def start (st : K.Store) : Client K := { store := st, calls := [] }

/-- From the first call of a client on, as long as no more than `2^32` handles are drawn and the other calls spare the
handles it was given, the client learns what it would learn of the shelf. -/
theorem holds_exec (hK : K.Lawful O) (st : K.Store) {actions : List (Action K)}
    (hspared : Run.Along step Spared (start st) actions)
    (hdraws : (machine hK).drawsOf (start st) actions ≤ 2 ^ 32) :
    Holds (Run.exec step (start st) actions) (Run.exec (Shelf.step O) [] (actions.filterMap Action.move)) := by
  have hnone : ∀ (k : Unit) h, ¬ (machine hK).live (start st) k h := fun _ _ => List.not_mem_nil
  have hstart : (machine hK).Numbered (K.next st) 0 (start st) := .start rfl hnone
  have hnew : Run.Along step ((machine hK).New (start st)) (start st) actions :=
    hstart.new_along (by omega) fun k h hl => absurd hl (hnone k h)
  refine Run.exec_simulation (fun client s a h hs => ?_) ⟨.nil, List.nodup_nil⟩ (hspared.and hnew)
  exact h.step hK a hs.1 fun hdraws => (hs.2 hdraws ()).1

/-- It learns what it would learn of other objects that do the same. -/
theorem learns_exec {R : α → β → Prop} {O' : Objects β μ ω ρ} (hK : K.Lawful O) (hR : Refines R O O') (st : K.Store)
    {actions : List (Action K)} (hspared : Run.Along step Spared (start st) actions)
    (hdraws : (machine hK).drawsOf (start st) actions ≤ 2 ^ 32) :
    List.Forall₂ (Keeper.Learns R (Run.exec step (start st) actions).store) (Run.exec step (start st) actions).calls
      (Run.exec (Shelf.step O') [] (actions.filterMap Action.move)) :=
  Lists.forall₂_trans (fun _ _ _ => Keeper.Stands.learns) (holds_exec hK st hspared hdraws).entries
    (hR.exec (actions.filterMap Action.move) .nil)

end Client

end Versions
