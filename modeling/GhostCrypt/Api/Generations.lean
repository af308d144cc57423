/-
Calls that race on the MLS store, and the sender generations they use. A call copies a state, computes,
draws a handle and inserts, and other calls run in between; nothing stops two of them from starting
at the same state and encrypting under the same generation. As long as no handle is the input of two
calls that return, no generation of a member is used twice.
-/
import GhostCrypt.Api.Groups
import GhostCrypt.Lib.Run
import GhostCrypt.Lib.Tokens
import GhostCrypt.Mls.Reference

namespace GhostCrypt.Api

open Mls

variable {M : OpenMls}

/-! ## One call -/

/-- What a computation does to the key recorded. -/
structure Advances (S : Sender M) (loaded loaded' : Loaded M) (ciphertext : Option Bytes) : Prop where
  owner : (S.recorded loaded'.group).owner = (S.recorded loaded.group).owner
  le : (S.recorded loaded.group).position ≤ (S.recorded loaded'.group).position
  lt : ∀ bytes ∈ ciphertext, S.keyOf bytes = S.recorded loaded.group ∧
    (S.recorded loaded.group).position < (S.recorded loaded'.group).position

section

variable {S : Sender M} {loaded loaded' : Loaded M}

theorem Advances.of_later (howner : (S.recorded loaded'.group).owner = (S.recorded loaded.group).owner)
    (hlt : M.epoch loaded.group < (S.recorded loaded'.group).epoch) : Advances S loaded loaded' none :=
  ⟨howner, (MessageKey.position_lt_of_epoch hlt).le, fun _ hb => by cases hb⟩

theorem Advances.of_same (h : S.recorded loaded'.group = S.recorded loaded.group) : Advances S loaded loaded' none :=
  ⟨by rw [h], by rw [h], fun _ hb => by cases hb⟩

/-- A state saved after a change loads with what was recorded. -/
theorem loadState_of_records (hS : S.Lawful) {group : M.MlsGroup} {provider : Storage}
    {P : MessageKey S.Member M.GroupId → Prop} {groupState : Bytes}
    (hsave : loaded.Saves group provider groupState) (hrecords : S.Records group provider P) :
    ∃ loaded', loadState M groupState = .ok loaded' ∧ P (S.recorded loaded'.group) := by
  obtain ⟨stored, hload, hP⟩ := hrecords
  exact ⟨_, loadState_saveGroup hS.serde hsave hload, hP⟩

end

/-- A computation that succeeds loads a state and leaves one that loads, no earlier, and later if a
message was encrypted. -/
theorem compute_ok {S : Sender M} (hS : S.Lawful) {c : GroupCall M} {state : Bytes} {computed : Computed}
    (h : c.compute state = .ok computed) :
    ∃ loaded loaded', loadState M state = .ok loaded ∧ loadState M computed.groupState = .ok loaded' ∧
      Advances S loaded loaded' computed.ciphertext := by
  cases c with
  | addMember rng keyPackage =>
    obtain ⟨r, hr, rfl⟩ := Outcome.map_eq_ok.1 h
    obtain ⟨loaded, commit, welcome, group, provider, hload, hcommits, hsave, -⟩ := addMember_ok hr
    have hrecords := hS.commits (held_of_loadState hS.loads hload) hcommits
    obtain ⟨loaded', hload', hk⟩ := loadState_of_records hS hsave hrecords
    exact ⟨loaded, loaded', hload, hload', Advances.of_later hk.1 hk.2⟩
  | removeMember rng leafIndex =>
    obtain ⟨r, hr, rfl⟩ := Outcome.map_eq_ok.1 h
    obtain ⟨loaded, commit, group, provider, hload, hcommits, hsave, -⟩ := removeMember_ok hr
    have hrecords := hS.commits (held_of_loadState hS.loads hload) hcommits
    obtain ⟨loaded', hload', hk⟩ := loadState_of_records hS hsave hrecords
    exact ⟨loaded, loaded', hload, hload', Advances.of_later hk.1 hk.2⟩
  | encryptMessage rng plaintext =>
    obtain ⟨r, hr, rfl⟩ := Outcome.map_eq_ok.1 h
    obtain ⟨loaded, message, group, provider, hload, hcreate, hsave, hmessage, -⟩ := encryptMessage_ok hr
    have hin := held_of_loadState hS.loads hload
    obtain ⟨loaded', hload', hk⟩ := loadState_of_records hS hsave (hS.creates hin hcreate)
    have hlt : (S.recorded loaded.group).position < (S.recorded loaded'.group).position := by
      rw [hk]
      exact MessageKey.position_lt_next _
    refine ⟨loaded, loaded', hload, hload', by rw [hk]; rfl, hlt.le, fun bytes hb => ⟨?_, hlt⟩⟩
    obtain rfl := Option.some.inj hb
    exact hS.uses hin hcreate hmessage
  | decryptMessage mlsMessage =>
    obtain ⟨r, hr, rfl⟩ := Outcome.map_eq_ok.1 h
    obtain ⟨loaded, message, group, provider, hload, -, hsave, hcases⟩ := decryptMessage_ok hr
    have hin := held_of_loadState hS.loads hload
    rcases hcases with happlication | ⟨-, htakes | hkeeps⟩
    · obtain ⟨loaded', hload', hk⟩ := loadState_of_records hS hsave (hS.decrypts hin happlication)
      exact ⟨loaded, loaded', hload, hload', Advances.of_same hk⟩
    · obtain ⟨loaded', hload', hk⟩ := loadState_of_records hS hsave (hS.takes hin htakes)
      exact ⟨loaded, loaded', hload, hload', Advances.of_later hk.1 hk.2⟩
    · obtain ⟨loaded', hload', hk⟩ := loadState_of_records hS hsave (hS.keeps hin hkeeps)
      exact ⟨loaded, loaded', hload, hload', Advances.of_same hk⟩
  | processCommit commit =>
    obtain ⟨r, hr, rfl⟩ := Outcome.map_eq_ok.1 h
    obtain ⟨loaded, message, group, provider, hload, -, htakes, hsave, -⟩ := processCommit_ok hr
    have hrecords := hS.takes (held_of_loadState hS.loads hload) htakes
    obtain ⟨loaded', hload', hk⟩ := loadState_of_records hS hsave hrecords
    exact ⟨loaded, loaded', hload, hload', Advances.of_later hk.1 hk.2⟩

/-! ## Racing calls -/

/-- A call under way: it has copied the state of its handle, or has computed and drawn a handle. -/
inductive Thread (M : OpenMls)
  | copied (groupHandle : UInt32) (state : Bytes) (call : GroupCall M)
  | drawn (groupHandle : UInt32) (state : Bytes) (handle : UInt32) (computed : Computed)

/-- The store, the calls under way, and of those that returned a result the handles they were given
and the ciphertexts. -/
structure Calls (T : Type) (M : OpenMls) where
  groups : Groups
  threads : T → Option (Thread M)
  spent : List UInt32
  returned : List Bytes

/-- What happens to the store without interruption. -/
inductive Access (T : Type) (M : OpenMls)
  | start (t : T) (groupHandle : UInt32) (call : GroupCall M)
  | compute (t : T)
  | finish (t : T)
  | destroy (groupHandle : UInt32)

namespace Calls

variable {T : Type} [DecidableEq T]

def withThread (w : Calls T M) (t : T) (thread : Option (Thread M)) : Calls T M :=
  { w with threads := Function.update w.threads t thread }

/-- The computation of a thread, and `fetch_add`; a call that fails returns. -/
def runThread (w : Calls T M) (t : T) : Option (Thread M) → Calls T M
  | some (.copied groupHandle state call) =>
    match call.compute state with
    | .ok computed =>
      { w with groups := w.groups.draw }.withThread t (some (.drawn groupHandle state w.groups.nextMlsId computed))
    | _ => w.withThread t none
  | _ => w

/-- The insertion of a thread; the call returns. -/
def endThread (w : Calls T M) (t : T) : Option (Thread M) → Calls T M
  | some (.drawn groupHandle _ handle computed) =>
    { w.withThread t none with
      groups := w.groups.insert handle computed.groupState
      spent := groupHandle :: w.spent
      returned := computed.ciphertext.toList ++ w.returned }
  | _ => w

def step (w : Calls T M) : Access T M → Calls T M
  | .start t groupHandle call =>
    match w.threads t, w.groups.states.lookup groupHandle with
    | none, some state => w.withThread t (some (.copied groupHandle state call))
    | _, _ => w
  | .compute t => w.runThread t (w.threads t)
  | .finish t => w.endThread t (w.threads t)
  | .destroy groupHandle => { w with groups := (mlsDestroyState groupHandle w.groups).2 }

/-- A call whose three accesses come in one go does what the exported function does. -/
theorem exec_call (w : Calls T M) {t : T} (ht : w.threads t = none) (groupHandle : UInt32) (c : GroupCall M) :
    (Run.exec step w [.start t groupHandle c, .compute t, .finish t]).groups = c.call groupHandle w.groups := by
  rw [c.call_eq, withState]
  simp only [Run.exec_cons, Run.exec_nil]
  cases hl : w.groups.states.lookup groupHandle with
  | none => simp only [step, ht, hl, runThread, endThread]
  | some state =>
    simp only [step, ht, hl, withThread, Function.update_self, runThread]
    cases hc : c.compute state with
    | ok computed => simp only [Function.update_self, endThread, withThread, storeState, Groups.draw, Groups.insert]
    | err e => simp only [Function.update_self, endThread, storeState]
    | panic => simp only [Function.update_self, endThread, storeState]

/-! ## The invariant -/

/-- A handle and a state copied or to be copied from it. -/
def Refers (w : Calls T M) (groupHandle : UInt32) (state : Bytes) : Prop :=
  w.groups.states.lookup groupHandle = some state ∨
    (∃ t call, w.threads t = some (.copied groupHandle state call)) ∨
    ∃ t handle computed, w.threads t = some (.drawn groupHandle state handle computed)

/-- The handles, each with the key its state records. -/
def tokens (S : Sender M) (w : Calls T M) : Set (UInt32 × MessageKey S.Member M.GroupId) :=
  {token | ∃ state loaded, w.Refers token.1 state ∧ loadState M state = .ok loaded ∧
    token.2 = S.recorded loaded.group}

/-- The owners and positions of the ciphertexts returned. -/
def log (S : Sender M) (w : Calls T M) : List ((S.Member × M.GroupId) × (ℕ ×ₗ ℕ)) :=
  w.returned.map fun bytes => ((S.keyOf bytes).owner, (S.keyOf bytes).position)

structure Inv (S : Sender M) (w : Calls T M) : Prop where
  linear : Tokens.Linear MessageKey.owner MessageKey.position w.spent (w.tokens S) (w.log S)
  computed : ∀ {t groupHandle state handle computed}, w.threads t = some (.drawn groupHandle state handle computed) →
    ∃ c : GroupCall M, c.compute state = .ok computed

/-- No call was made yet, and each member of a group has one state in the store. -/
structure Start (S : Sender M) (w : Calls T M) : Prop where
  threads : ∀ t, w.threads t = none
  spent : w.spent = []
  returned : w.returned = []
  unique : ∀ {h h' state state'} {loaded loaded' : Loaded M}, w.groups.states.lookup h = some state →
    w.groups.states.lookup h' = some state' → loadState M state = .ok loaded → loadState M state' = .ok loaded' →
    (S.recorded loaded.group).owner = (S.recorded loaded'.group).owner → h = h'

variable {S : Sender M} {w : Calls T M}

omit [DecidableEq T] in
theorem Start.inv (h : Start S w) : Inv S w := by
  have hrefers : ∀ {groupHandle state}, w.Refers groupHandle state →
      w.groups.states.lookup groupHandle = some state := by
    rintro groupHandle state (hl | ⟨t, _, ht⟩ | ⟨t, _, _, ht⟩)
    · exact hl
    · rw [h.threads] at ht
      cases ht
    · rw [h.threads] at ht
      cases ht
  refine ⟨⟨?_, ?_, ?_⟩, ?_⟩
  · rintro k v k' v' ⟨state, loaded, hr, hl, rfl⟩ ⟨state', loaded', hr', hl', rfl⟩ - - howner
    obtain rfl := h.unique (hrefers hr) (hrefers hr') hl hl' howner
    obtain rfl := Option.some.inj ((hrefers hr).symm.trans (hrefers hr'))
    obtain rfl := Outcome.ok.inj (hl.symm.trans hl')
    exact ⟨rfl, rfl⟩
  · intro k v p _ _ hp
    rw [log, h.returned] at hp
    cases hp
  · rw [log, h.returned]
    exact List.nodup_nil
  · intro t _ _ _ _ ht
    rw [h.threads] at ht
    cases ht

omit [DecidableEq T] in
theorem tokens_subset {w' : Calls T M} (h : ∀ {k state}, w'.Refers k state → w.Refers k state) :
    w'.tokens S ⊆ w.tokens S := by
  rintro ⟨k, v⟩ ⟨state, loaded, hrefers, hload, hv⟩
  exact ⟨state, loaded, h hrefers, hload, hv⟩

theorem of_withThread {t t' : T} {thread : Option (Thread M)} {x : Thread M}
    (h : (w.withThread t thread).threads t' = some x) : t' = t ∧ thread = some x ∨ w.threads t' = some x := by
  by_cases ht : t' = t
  · subst ht
    simp only [withThread, Function.update_self] at h
    exact .inl ⟨rfl, h⟩
  · simp only [withThread, Function.update_of_ne ht] at h
    exact .inr h

/-- A call starts. -/
theorem Inv.start (h : Inv S w) (t : T) {groupHandle : UInt32} {state : Bytes} (call : GroupCall M)
    (hl : w.groups.states.lookup groupHandle = some state) :
    Inv S (w.withThread t (some (.copied groupHandle state call))) := by
  refine ⟨h.linear.mono (tokens_subset ?_), ?_⟩
  · rintro k state' (hr | ⟨t', call', ht⟩ | ⟨t', handle, computed, ht⟩)
    · exact .inl hr
    · rcases of_withThread ht with ⟨-, heq⟩ | ht
      · obtain ⟨rfl, rfl, -⟩ := Thread.copied.inj (Option.some.inj heq)
        exact .inl hl
      · exact .inr (.inl ⟨t', call', ht⟩)
    · rcases of_withThread ht with ⟨-, heq⟩ | ht
      · cases heq
      · exact .inr (.inr ⟨t', handle, computed, ht⟩)
  · intro t' _ _ _ _ ht
    rcases of_withThread ht with ⟨-, heq⟩ | ht
    · cases heq
    · exact h.computed ht

/-- A call computes: the state it copied stays with it, or goes if it failed. -/
theorem Inv.compute (h : Inv S w) (t : T) : Inv S (w.runThread t (w.threads t)) := by
  unfold runThread
  split
  · rename_i groupHandle state call hthread
    split
    · rename_i computed hcomputed
      refine ⟨h.linear.mono (tokens_subset ?_), ?_⟩
      · rintro k state' (hr | ⟨t', call', ht⟩ | ⟨t', handle, computed', ht⟩)
        · exact .inl hr
        · rcases of_withThread ht with ⟨-, heq⟩ | ht
          · cases heq
          · exact .inr (.inl ⟨t', call', ht⟩)
        · rcases of_withThread ht with ⟨-, heq⟩ | ht
          · obtain ⟨rfl, rfl, -⟩ := Thread.drawn.inj (Option.some.inj heq)
            exact .inr (.inl ⟨t, call, hthread⟩)
          · exact .inr (.inr ⟨t', handle, computed', ht⟩)
      · intro t' _ _ _ _ ht
        rcases of_withThread ht with ⟨-, heq⟩ | ht
        · obtain ⟨rfl, rfl, rfl, rfl⟩ := Thread.drawn.inj (Option.some.inj heq)
          exact ⟨call, hcomputed⟩
        · exact h.computed ht
    · refine ⟨h.linear.mono (tokens_subset ?_), ?_⟩
      · rintro k state' (hr | ⟨t', call', ht⟩ | ⟨t', handle, computed, ht⟩)
        · exact .inl hr
        · rcases of_withThread ht with ⟨-, heq⟩ | ht
          · cases heq
          · exact .inr (.inl ⟨t', call', ht⟩)
        · rcases of_withThread ht with ⟨-, heq⟩ | ht
          · cases heq
          · exact .inr (.inr ⟨t', handle, computed, ht⟩)
      · intro t' _ _ _ _ ht
        rcases of_withThread ht with ⟨-, heq⟩ | ht
        · cases heq
        · exact h.computed ht
  · exact h

/-- A call returns: its handle is spent, and its result goes under the handle it drew. -/
theorem Inv.finish (hS : S.Lawful) (h : Inv S w) (t : T) (hspent : (w.endThread t (w.threads t)).spent.Nodup) :
    Inv S (w.endThread t (w.threads t)) := by
  cases hthread : w.threads t with
  | none => exact h
  | some thread =>
    cases thread with
    | copied => exact h
    | drawn groupHandle state handle computed =>
      rw [hthread] at hspent
      have hnew : groupHandle ∉ w.spent := (List.nodup_cons.1 hspent).1
      obtain ⟨c, hc⟩ := h.computed hthread
      obtain ⟨loaded, loaded', hload, hload', hadvances⟩ := compute_ok hS hc
      have htoken : (groupHandle, S.recorded loaded.group) ∈ w.tokens S :=
        ⟨state, loaded, .inr (.inr ⟨t, handle, computed, hthread⟩), hload, rfl⟩
      have hsub : (w.endThread t (some (.drawn groupHandle state handle computed))).tokens S ⊆
          insert (handle, S.recorded loaded'.group) (w.tokens S) := by
        rintro ⟨k, v⟩ ⟨state', loaded'', hrefers, hload'', hv⟩
        rcases hrefers with hr | ⟨t', call, ht⟩ | ⟨t', handle', computed', ht⟩
        · by_cases hk : k = handle
          · subst hk
            simp only [endThread, Groups.insert, Finmap.lookup_insert] at hr
            obtain rfl := Option.some.inj hr
            obtain rfl := Outcome.ok.inj (hload'.symm.trans hload'')
            exact .inl (Prod.ext rfl hv)
          · simp only [endThread, Groups.insert, Finmap.lookup_insert_of_ne _ hk] at hr
            exact .inr ⟨state', loaded'', .inl hr, hload'', hv⟩
        · rcases of_withThread (w := w) ht with ⟨-, heq⟩ | ht
          · cases heq
          · exact .inr ⟨state', loaded'', .inr (.inl ⟨t', call, ht⟩), hload'', hv⟩
        · rcases of_withThread (w := w) ht with ⟨-, heq⟩ | ht
          · cases heq
          · exact .inr ⟨state', loaded'', .inr (.inr ⟨t', handle', computed', ht⟩), hload'', hv⟩
      constructor
      · refine Tokens.Linear.mono ?_ hsub
        cases hb : computed.ciphertext with
        | none =>
          simp only [log, endThread, hb, Option.toList_none, List.nil_append]
          exact h.linear.spend htoken hnew hadvances.owner hadvances.le
        | some bytes =>
          obtain ⟨hkey, hlt⟩ := hadvances.lt bytes hb
          simp only [log, endThread, hb, Option.toList_some, List.singleton_append, List.map_cons, hkey]
          exact h.linear.spend_log htoken hnew hadvances.owner hlt
      · intro t' _ _ _ _ ht
        rcases of_withThread (w := w) ht with ⟨-, heq⟩ | ht
        · cases heq
        · exact h.computed ht

/-- Every access keeps one token for each member of a group, as long as no handle is spent twice. -/
theorem Inv.step (hS : S.Lawful) (h : Inv S w) (a : Access T M) (hspent : (w.step a).spent.Nodup) :
    Inv S (w.step a) := by
  cases a with
  | start t groupHandle call =>
    simp only [Calls.step]
    split
    · rename_i hl
      exact h.start t call hl
    · exact h
  | compute t => exact h.compute t
  | finish t => exact h.finish hS t hspent
  | destroy groupHandle =>
    refine ⟨h.linear.mono (tokens_subset ?_), h.computed⟩
    rintro k state (hr | hr)
    · by_cases hk : k = groupHandle
      · subst hk
        simp only [Calls.step, mlsDestroyState, Finmap.lookup_erase] at hr
        cases hr
      · simp only [Calls.step, mlsDestroyState, Finmap.lookup_erase_ne hk] at hr
        exact .inl hr
    · exact .inr hr

/-- No access takes a handle back. -/
theorem nodup_of_step (w : Calls T M) (a : Access T M) (h : (w.step a).spent.Nodup) : w.spent.Nodup := by
  revert h
  cases a with
  | start t groupHandle call =>
    simp only [Calls.step]
    split <;> exact id
  | compute t =>
    simp only [Calls.step, runThread]
    split
    · split <;> exact id
    · exact id
  | finish t =>
    simp only [Calls.step, endThread]
    split
    · exact fun h => (List.nodup_cons.1 h).2
    · exact id
  | destroy groupHandle => exact id

/-- As long as no handle is the input of two calls that return a result, no two ciphertexts returned
for a member of a group in an epoch are encrypted under the same generation. -/
theorem generations_distinct (hS : S.Lawful) (hstart : Start S w) (accesses : List (Access T M))
    (hspent : (Run.exec step w accesses).spent.Nodup) :
    ((Run.exec step w accesses).returned.map S.keyOf).Nodup := by
  have hnodup := (Run.Throughout.of_last (I := fun w : Calls T M => w.spent.Nodup) nodup_of_step hspent).along
  have hend := Run.exec_invariant (I := fun w : Calls T M => Inv S w) (fun _ a hi hq => Inv.step hS hi a hq)
    hstart.inv hnodup
  refine List.Nodup.of_map (fun k => (k.owner, k.position)) ?_
  rw [List.map_map]
  exact hend.linear.nodup

/-! ## One state and two messages -/

open Reference

/-- The only member of a group, `generation` messages in. -/
def soloGroup (generation : ℕ) : Group :=
  { epoch := { groupId := 0, number := 0, members := [[1]], secrets := 0 }, own := [1], active := true, generation,
    pending := none }

def soloProvider : ℕ → Storage
  | 0 => (soloGroup 0).put ∅
  | n + 1 => (soloGroup (n + 1)).put (soloProvider n)

def soloBlob (generation : ℕ) : Bytes := blobOf (soloGroup generation) (soloProvider generation)

/-- Its ciphertext of that generation. -/
def soloCiphertext (generation : ℕ) (plaintext : Bytes) : Bytes :=
  write (Message.application (soloGroup generation).epoch [1] generation plaintext)

def solo : Calls Bool crates :=
  { groups := { states := Finmap.singleton 1 (soloBlob 0), nextMlsId := 2 }, threads := fun _ => none, spent := [],
    returned := [] }

theorem solo_compute (generation : ℕ) (plaintext : Bytes) :
    (GroupCall.encryptMessage (M := crates) (0 : ℕ) plaintext).compute (soloBlob generation) =
      .ok ⟨soloBlob (generation + 1), some (soloCiphertext generation plaintext)⟩ := by
  obtain ⟨storage, hprovider⟩ : ∃ storage, soloProvider generation = (soloGroup generation).put storage := by
    cases generation with
    | zero => exact ⟨_, rfl⟩
    | succ n => exact ⟨_, rfl⟩
  have hok := encryptMessage_blob (0 : ℕ) (g := soloGroup generation) rfl storage plaintext
  rw [← hprovider] at hok
  exact Outcome.map_eq_ok.2 ⟨_, hok, rfl⟩

theorem solo_start : Start sender solo where
  threads _ := rfl
  spent := rfl
  returned := rfl
  unique hl hl' _ _ _ := by
    have hone : ∀ {h : UInt32} {state}, solo.groups.states.lookup h = some state → h = 1 := by
      intro h state hl
      have hmem : h ∈ Finmap.singleton (β := fun _ => Bytes) 1 (soloBlob 0) :=
        Finmap.mem_of_lookup_eq_some hl
      exact (Finmap.mem_singleton _ _ _).1 hmem
    exact (hone hl).trans (hone hl').symm

theorem solo_lookup : solo.groups.states.lookup 1 = some (soloBlob 0) := Finmap.lookup_singleton_eq

theorem exec_ok {w : Calls T M} {t : T} {groupHandle : UInt32} {c : GroupCall M} {state : Bytes} {computed : Computed}
    (ht : w.threads t = none) (hl : w.groups.states.lookup groupHandle = some state)
    (hc : c.compute state = .ok computed) :
    Run.exec step w [.start t groupHandle c, .compute t, .finish t] =
      { groups := w.groups.draw.insert w.groups.nextMlsId computed.groupState, threads := w.threads
        spent := groupHandle :: w.spent, returned := computed.ciphertext.toList ++ w.returned } := by
  simp only [Run.exec_cons, Run.exec_nil, step, ht, hl, withThread, Function.update_self, runThread, hc, endThread,
    Function.update_idem]
  rw [← ht, Function.update_eq_self]

/-- After one message, with the handle it returned. -/
def soloAfter : Calls Bool crates :=
  { groups := { states := (Finmap.singleton 1 (soloBlob 0)).insert 2 (soloBlob 1), nextMlsId := 3 }
    threads := fun _ => none, spent := [1], returned := [soloCiphertext 0 [7]] }

theorem solo_exec : Run.exec step solo [.start true 1 (.encryptMessage (0 : ℕ) [7]), .compute true, .finish true] =
    soloAfter :=
  exec_ok (w := solo) rfl solo_lookup (solo_compute 0 [7])

theorem soloAfter_lookup : soloAfter.groups.states.lookup 2 = some (soloBlob 1) := Finmap.lookup_insert _

/-- The key of the first message does not depend on what it says. -/
theorem solo_keyOf (plaintext plaintext' : Bytes) :
    sender.keyOf (soloCiphertext 0 plaintext) = sender.keyOf (soloCiphertext 0 plaintext') := by
  have hkey : ∀ plaintext, keyOf (soloCiphertext 0 plaintext) = ⟨[1], 0, 0, 0⟩ := by
    intro plaintext
    rw [soloCiphertext, keyOf, read_write]
    rfl
  exact (hkey plaintext).trans (hkey plaintext').symm

theorem not_nodup_map {α β : Type} {f : α → β} {a b : α} {l : List α} (h : f a = f b) :
    ¬ ((a :: b :: l).map f).Nodup := by
  rw [List.map_cons, List.map_cons, h, List.nodup_cons]
  exact fun hl => hl.1 List.mem_cons_self

/-- Two messages in a row, the second with the handle the first returned. -/
theorem generations_distinct_solo :
    ((Run.exec step solo ([.start true 1 (.encryptMessage (0 : ℕ) [7]), .compute true, .finish true] ++
      [.start true 2 (.encryptMessage (0 : ℕ) [8]), .compute true, .finish true])).returned.map
      sender.keyOf).Nodup := by
  refine generations_distinct sender_lawful solo_start _ ?_
  rw [Run.exec_append, solo_exec, exec_ok (w := soloAfter) rfl soloAfter_lookup (solo_compute 1 [8])]
  show ([2, 1] : List UInt32).Nodup
  decide

/-- Two calls that copy a state before either returns. -/
theorem returned_race {w : Calls Bool M} {groupHandle : UInt32} {c c' : GroupCall M} {state : Bytes}
    {computed computed' : Computed} (ht : ∀ t, w.threads t = none)
    (hl : w.groups.states.lookup groupHandle = some state) (hc : c.compute state = .ok computed)
    (hc' : c'.compute state = .ok computed') :
    (Run.exec step w [.start true groupHandle c, .start false groupHandle c', .compute true, .compute false,
      .finish true, .finish false]).returned =
      computed'.ciphertext.toList ++ (computed.ciphertext.toList ++ w.returned) := by
  have hne : false ≠ true := Bool.false_ne_true
  simp only [Run.exec_cons, Run.exec_nil, step, ht, hl, withThread, runThread, endThread, Function.update_self,
    Function.update_of_ne hne, Function.update_of_ne hne.symm, hc, hc']

/-- Two calls that copy the same state encrypt under the same generation. -/
theorem generation_repeats : ¬ ∀ (M : OpenMls) (S : Sender M), S.Lawful → ∀ w : Calls Bool M, Start S w →
    ∀ accesses, ((Run.exec step w accesses).returned.map S.keyOf).Nodup := by
  intro h
  have hnodup := h crates sender sender_lawful solo solo_start
    [.start true 1 (.encryptMessage (0 : ℕ) [7]), .start false 1 (.encryptMessage (0 : ℕ) [8]), .compute true,
      .compute false, .finish true, .finish false]
  rw [returned_race (fun _ => rfl) solo_lookup (solo_compute 0 [7]) (solo_compute 0 [8])] at hnodup
  exact not_nodup_map (solo_keyOf [8] [7]) hnodup

end Calls

end GhostCrypt.Api
