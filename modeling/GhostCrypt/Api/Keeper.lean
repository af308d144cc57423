/-
The native MLS store as its callers see it: versions of group states under handles, which the exported
functions make and work on as the functions of `mls/mod.rs` do.
-/
import GhostCrypt.Api.Handles
import GhostCrypt.Mls.Live

namespace GhostCrypt.Api

open Mls (Setup Request blobs ofCall)
open Versions (Keeper)

variable {M : Mls.OpenMls}

/-! ## Calls -/

/-- What a caller reads of a result: the handle of a new state, and the rest. -/
abbrev Seen := Outcome String (Option UInt32 × Mls.Reply)

namespace Groups

/-- A call without a state. -/
def setup (st : Groups) : Setup M → Seen × Groups
  | .keyPackage rng identity =>
    ((mlsGenerateKeyPackage M rng identity).map fun r => (none, .keyPackage r.keyPackage r.secretBundle), st)
  | .create rng identity =>
    (mlsCreateGroup M rng identity st).map (·.map fun r => (some r.handle, .group r.groupId r.epoch)) id
  | .join welcome secretBundle =>
    (mlsProcessWelcome M welcome secretBundle st).map (·.map fun r => (some r.handle, .group r.groupId r.epoch)) id

/-- A call on the state of a handle. -/
def request (groupHandle : UInt32) (st : Groups) : Request M → Seen × Groups
  | .addMember rng keyPackage =>
    (mlsAddMember M rng groupHandle keyPackage st).map
      (·.map fun r => (some r.handle, .added r.commit r.welcome r.epoch)) id
  | .removeMember rng leafIndex =>
    (mlsRemoveMember M rng groupHandle leafIndex st).map
      (·.map fun r => (some r.handle, .removed r.commit r.epoch)) id
  | .encryptMessage rng plaintext =>
    (mlsEncryptMessage M rng groupHandle plaintext st).map
      (·.map fun r => (some r.handle, .encrypted r.mlsCiphertext r.epoch)) id
  | .decryptMessage mlsMessage =>
    (mlsDecryptMessage M groupHandle mlsMessage st).map (·.map fun r => (some r.handle, .decrypted r.plaintext)) id
  | .processCommit commit =>
    (mlsProcessCommit M groupHandle commit st).map (·.map fun r => (some r.handle, .committed r.epoch)) id

end Groups

variable (M) in
/-- The exported functions, and the other calls on the store. An error is known by its text. -/
def keeper : Keeper Bytes (Setup M) (Request M) (Outcome CryptoError Mls.Reply) where
  Store := Groups
  Result := Seen
  Other := MlsCall M
  object st handle := st.states.lookup handle
  next := Groups.nextMlsId
  handle seen := seen.value.bind Prod.fst
  Says seen r := seen.map Prod.snd = r.mapErr CryptoError.display
  Refuses seen := ∃ handle : UInt32, seen = .err s!"No MLS group with handle {handle}"
  Spares handle c := c.destroyed? ≠ some handle
  make m st := st.setup m
  work handle w st := st.request handle w
  drop handle st := mlsDestroyState handle st
  other c st := st.step c

/-! ## What they do -/

section

variable {γ δ : Type} {groupState : γ → Bytes} {result : UInt32 → γ → δ} {reply : γ → Mls.Reply}
  {seen : δ → Option UInt32 × Mls.Reply}

theorem puts_storeState (hseen : ∀ h r, seen (result h r) = (some h, reply r)) (r : Outcome CryptoError γ)
    (st : Groups) :
    (keeper M).Puts st (ofCall r reply groupState)
      ((storeState r groupState result st).map (·.map seen) id) := by
  cases r with
  | ok r =>
    refine .object ?_ ?_ rfl fun h => Handles.lookup_insert_eq _ _ _ _
    · show Outcome.ok (seen (result st.nextMlsId r)).2 = _
      rw [hseen]
      rfl
    · show (seen (result st.nextMlsId r)).1 = _
      rw [hseen]
      rfl
  | err e => exact .nothing rfl rfl
  | panic => exact .nothing rfl rfl

/-- A call on a handle with a state. -/
theorem withState_of_lookup {groupHandle : UInt32} {state : Bytes} {st : Groups}
    (hstate : st.states.lookup groupHandle = some state) (f : Bytes → Outcome CryptoError γ) :
    withState groupHandle f groupState result st = storeState (f state) groupState result st := by
  unfold withState
  rw [hstate]

/-- A call on a handle without one. -/
theorem missing_withState {groupHandle : UInt32} {st : Groups} (hstate : st.states.lookup groupHandle = none)
    (f : Bytes → Outcome CryptoError γ) :
    (withState groupHandle f groupState result st).map (·.map seen) id =
      (.err s!"No MLS group with handle {groupHandle}", st) := by
  unfold withState
  rw [hstate]
  rfl

end

theorem Groups.request_missing {groupHandle : UInt32} {st : Groups} (hstate : st.states.lookup groupHandle = none)
    (w : Request M) :
    st.request groupHandle w = (.err s!"No MLS group with handle {groupHandle}", st) := by
  cases w with
  | addMember | removeMember | encryptMessage | decryptMessage | processCommit => exact missing_withState hstate _

/-- A call that returns a handle draws it. -/
theorem Groups.step_draws (st : Groups) (c : MlsCall M) :
    st.reply c = none ∧ (st.step c).nextMlsId = st.nextMlsId ∨
      st.reply c ≠ none ∧ (st.step c).nextMlsId = st.nextMlsId + 1 := by
  have heffect := Groups.call_effect st c
  generalize hnext : (st.step c).table = t at heffect
  rw [show (st.step c).nextMlsId = t.next from congrArg Handles.Table.next hnext]
  generalize st.reply c = r at heffect ⊢
  generalize c.destroyed? = named at heffect
  cases heffect with
  | create => exact .inr ⟨Option.some_ne_none _, rfl⟩
  | keep | remove => exact .inl ⟨rfl, rfl⟩
  | refuse _ hclosed => cases hclosed
  | update => exact .inl ⟨rfl, rfl⟩

/-- The exported functions do to the store what those of `mls/mod.rs` do to blobs. -/
theorem keeper_lawful (M : Mls.OpenMls) : (keeper M).Lawful (blobs M) where
  make m st := by
    show (keeper M).Puts st ((blobs M).make m) (st.setup m)
    cases m with
    | keyPackage rng identity =>
      dsimp only [blobs, Groups.setup, mlsGenerateKeyPackage]
      cases Mls.generateKeyPackage M rng identity <;> exact .nothing rfl rfl
    | create | join =>
      dsimp only [blobs, Groups.setup, mlsCreateGroup, mlsProcessWelcome]
      exact puts_storeState (fun _ _ => rfl) _ st
  work {st h state} w hstate := by
    show (keeper M).Puts st ((blobs M).work w state) (st.request h w)
    cases w with
    | addMember | removeMember | encryptMessage | decryptMessage | processCommit =>
      dsimp only [blobs, Groups.request, mlsAddMember, mlsRemoveMember, mlsEncryptMessage, mlsDecryptMessage,
        mlsProcessCommit]
      rw [withState_of_lookup hstate]
      exact puts_storeState (fun _ _ => rfl) _ st
  missing {st h} w hstate := by
    show (∃ i : UInt32, (st.request h w).1 = _) ∧ ((st.request h w).1.value.bind Prod.fst) = none ∧
      (st.request h w).2 = st
    rw [Groups.request_missing hstate]
    exact ⟨⟨h, rfl⟩, rfl, rfl⟩
  drop h st := ⟨rfl, rfl, fun i => Handles.lookup_erase_eq _ _ _⟩
  draws c st := (Groups.step_draws st c).imp And.right And.right
  other {c st h} hspares hnew := by
    refine (Groups.call_effect st c).lookup_of_ne hspares fun hreply => ?_
    rcases Groups.step_draws st c with ⟨hnone, -⟩ | ⟨-, hnext⟩
    · exact absurd hnone hreply
    · exact (hnew (hnext.trans_ne (Kinds.Machine.add_one_ne _))).symm

end GhostCrypt.Api
