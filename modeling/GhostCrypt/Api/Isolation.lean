/-
Isolation of the sessions in the store. A call on one handle reaches the others only through the
lock: it leaves them alone unless it panics, and then every later call is refused.
-/
import GhostCrypt.Api.Sessions
import GhostCrypt.Lib.Run

namespace GhostCrypt.Api

open Ratchet Identity

variable {B : Type} [ByteString B] (P : Primitives B)

/-! ## The condition -/

/-- The handle of a `session_encrypt` or `session_decrypt`. -/
def SessionCall.message? : SessionCall B → Option UInt32
  | .encrypt _ handle _ | .decrypt _ handle _ _ _ => some handle
  | _ => none

namespace Sessions

/-- A `session_decrypt` gives its session lengths it can rely on. -/
def WellFormed (st : Sessions B) : SessionCall B → Prop
  | .decrypt _ handle header ciphertext nonce => ∀ session, st.sessions.lookup handle = some session →
      session.WellFormed ⟨header.dhPublicKey, header.messageNumber, header.previousChainLength⟩ ⟨nonce, ciphertext⟩
  | _ => True

/-- A call on one session is well formed, or has no other session to harm. -/
def Harmless (st : Sessions B) (c : SessionCall B) : Prop :=
  ∀ handle, c.message? = some handle →
    st.poisoned = true ∨ (∀ other, other ≠ handle → st.sessions.lookup other = none) ∨ st.WellFormed c

/-- Calls that name `handle` are well formed. -/
def WellFormedOn (handle : UInt32) (st : Sessions B) (c : SessionCall B) : Prop :=
  c.handle? = some handle → st.WellFormed c

/-- A message call leaves the state of every other live session as it is, and the results of all
later calls on it, whatever calls come in between, if those on the first session are well formed. -/
def Isolated (st : Sessions B) (c : SessionCall B) : Prop :=
  ∀ handle, c.message? = some handle → ∀ other, other ≠ handle → st.sessions.lookup other ≠ none →
    (st.step P c).sessions.lookup other = st.sessions.lookup other ∧
    ∀ later, Run.Along (step P) (WellFormedOn handle) (st.step P c) later →
      Run.Along (step P) (WellFormedOn handle) st later →
      (st.step P c).repliesOn P other later = st.repliesOn P other later

/-! ## Two stores that differ in one session -/

/-- The stores differ at most in the session of `handle`. -/
structure AgreeOff (handle : UInt32) (st st' : Sessions B) : Prop where
  poisoned : st.poisoned = st'.poisoned
  nextSessionId : st.nextSessionId = st'.nextSessionId
  sessions : ∀ other, other ≠ handle → st.sessions.lookup other = st'.sessions.lookup other

section

variable {handle : UInt32} {st st' : Sessions B}

omit [ByteString B] in
theorem AgreeOff.insert (h : AgreeOff handle st st') (k : UInt32) (session : Session B) (poisoned : Bool)
    (nextSessionId : UInt32) :
    AgreeOff handle ⟨st.sessions.insert k session, poisoned, nextSessionId⟩
      ⟨st'.sessions.insert k session, poisoned, nextSessionId⟩ := by
  refine ⟨rfl, rfl, fun other ho => ?_⟩
  by_cases hk : other = k
  · subst hk
    rw [Finmap.lookup_insert, Finmap.lookup_insert]
  · rw [Finmap.lookup_insert_of_ne _ hk, Finmap.lookup_insert_of_ne _ hk]
    exact h.sessions other ho

omit [ByteString B] in
theorem AgreeOff.insertSession (h : AgreeOff handle st st') (session : Session B) :
    (insertSession session st).1 = (insertSession session st').1 ∧
      AgreeOff handle (insertSession session st).2 (insertSession session st').2 := by
  unfold Api.insertSession
  simp only [← h.poisoned, ← h.nextSessionId]
  split
  · exact ⟨rfl, rfl, rfl, h.sessions⟩
  · exact ⟨rfl, h.insert _ _ _ _⟩

omit [ByteString B] in
/-- `f` on another session does the same in both stores. -/
theorem AgreeOff.withSession {α : Type} (h : AgreeOff handle st st') {other : UInt32} (ho : other ≠ handle)
    (f : Session B → Outcome CryptoError α × Session B) :
    (withSession other f st).1 = (withSession other f st').1 ∧
      AgreeOff handle (withSession other f st).2 (withSession other f st').2 := by
  unfold Api.withSession
  rw [← h.poisoned, ← h.sessions other ho, ← h.nextSessionId]
  split
  · exact ⟨rfl, h⟩
  · cases st.sessions.lookup other with
    | none => exact ⟨rfl, h⟩
    | some session => exact ⟨rfl, h.insert _ _ _ _⟩

omit [ByteString B] in
theorem AgreeOff.destroySession (h : AgreeOff handle st st') (k : UInt32) :
    (k ≠ handle → (destroySession k st).1 = (destroySession k st').1) ∧
      AgreeOff handle (destroySession k st).2 (destroySession k st').2 := by
  unfold Api.destroySession
  rw [← h.poisoned]
  split
  · exact ⟨fun _ => rfl, h⟩
  · refine ⟨fun hk => by rw [h.sessions k hk], rfl, h.nextSessionId, fun other ho => ?_⟩
    by_cases hk : other = k
    · subst hk
      rw [Finmap.lookup_erase, Finmap.lookup_erase]
    · rw [Finmap.lookup_erase_ne hk, Finmap.lookup_erase_ne hk]
      exact h.sessions other ho

omit [ByteString B] in
/-- `f` on the session of `handle` changes only that session, unless it panics. -/
theorem withSession_agreeOff {α : Type} (f : Session B → Outcome CryptoError α × Session B)
    (hf : ∀ session, st.sessions.lookup handle = some session → (f session).1 ≠ .panic) :
    AgreeOff handle (withSession handle f st).2 st := by
  unfold withSession
  split
  · exact ⟨rfl, rfl, fun _ _ => rfl⟩
  · rename_i hpoisoned
    rw [Bool.not_eq_true] at hpoisoned
    cases hl : st.sessions.lookup handle with
    | none => exact ⟨rfl, rfl, fun _ _ => rfl⟩
    | some session =>
      refine ⟨?_, rfl, fun other ho => Finmap.lookup_insert_of_ne _ ho⟩
      have hok := hf session hl
      rw [hpoisoned]
      cases hr : (f session).1 with
      | panic => exact absurd hr hok
      | ok a => simp [hr]
      | err e => simp [hr]

omit [ByteString B] in
theorem AgreeOff.symm (h : AgreeOff handle st st') : AgreeOff handle st' st :=
  ⟨h.poisoned.symm, h.nextSessionId.symm, fun other ho => (h.sessions other ho).symm⟩

omit [ByteString B] in
theorem AgreeOff.trans {st'' : Sessions B} (h : AgreeOff handle st st') (h' : AgreeOff handle st' st'') :
    AgreeOff handle st st'' :=
  ⟨h.poisoned.trans h'.poisoned, h.nextSessionId.trans h'.nextSessionId,
    fun other ho => (h.sessions other ho).trans (h'.sessions other ho)⟩

/-- A well-formed message call changes only its own session. -/
theorem step_agreeOff {c : SessionCall B} (hc : c.message? = some handle) (hw : st.WellFormed c) :
    AgreeOff handle (st.step P c) st := by
  cases c with
  | encrypt nonce k plaintext =>
    obtain rfl := Option.some.inj hc
    exact withSession_agreeOff _ fun session _ => Session.encrypt_ne_panic P nonce session plaintext
  | decrypt fresh k header ciphertext nonce =>
    obtain rfl := Option.some.inj hc
    apply withSession_agreeOff
    intro session hl hpanic
    exact (Session.decrypt_panic_iff P fresh session _ _).1 hpanic (hw session hl)
  | createInitiator | createResponder | destroy => cases hc

/-- A call on the same inputs keeps two stores in agreement, and replies the same in both unless it
names the session they differ in. -/
theorem AgreeOff.call (h : AgreeOff handle st st') (c : SessionCall B) (hw : WellFormedOn handle st c)
    (hw' : WellFormedOn handle st' c) :
    (c.handle? ≠ some handle → (st.call P c).1 = (st'.call P c).1) ∧
      AgreeOff handle (st.step P c) (st'.step P c) := by
  by_cases hmsg : c.message? = some handle
  · -- each store keeps all but its own session of `handle`
    have hc : c.handle? = some handle := by cases c <;> first | exact hmsg | cases hmsg
    refine ⟨fun hne => absurd hc hne, ?_⟩
    exact ((step_agreeOff P hmsg (hw hc)).trans h).trans (step_agreeOff P hmsg (hw' hc)).symm
  · cases c with
    | createInitiator fresh sharedSecret spkPublic =>
      simp only [step, Sessions.call, createSessionInitiator, Prod.map]
      cases bytesToPublicKey spkPublic with
      | error e => exact ⟨fun _ => rfl, h⟩
      | ok pk =>
        simp only
        cases Session.initAlice P fresh sharedSecret pk with
        | ok session => exact ⟨fun _ => congrArg _ (h.insertSession session).1, (h.insertSession session).2⟩
        | err e => exact ⟨fun _ => rfl, h⟩
        | panic => exact ⟨fun _ => rfl, h⟩
    | createResponder sharedSecret spkSecret spkPublic spkSignature =>
      simp only [step, Sessions.call, createSessionResponder, Prod.map]
      cases mapErr (SignedPreKey.fromBytes spkSecret spkPublic spkSignature) with
      | error e => exact ⟨fun _ => rfl, h⟩
      | ok spk => exact ⟨fun _ => congrArg _ (h.insertSession _).1, (h.insertSession _).2⟩
    | encrypt nonce k plaintext =>
      have hsame := h.withSession (fun hk => hmsg (congrArg some hk)) fun session => session.encrypt P nonce plaintext
      exact ⟨fun _ => by simp only [Sessions.call, sessionEncrypt, Prod.map, hsame.1], hsame.2⟩
    | decrypt fresh k header ciphertext nonce =>
      have hsame := h.withSession (fun hk => hmsg (congrArg some hk)) fun session => session.decrypt P fresh
        ⟨header.dhPublicKey, header.messageNumber, header.previousChainLength⟩ ⟨nonce, ciphertext⟩
      exact ⟨fun _ => congrArg Reply.decrypted hsame.1, hsame.2⟩
    | destroy k =>
      have hsame := h.destroySession k
      exact ⟨fun hk => congrArg Reply.destroyed (hsame.1 fun heq => hk (congrArg some heq)), hsame.2⟩

/-- Over a run, the other sessions get the same replies. -/
theorem AgreeOff.repliesOn {other : UInt32} (ho : other ≠ handle) :
    ∀ {calls : List (SessionCall B)} {st st' : Sessions B},
    AgreeOff handle st st' → Run.Along (step P) (WellFormedOn handle) st calls →
    Run.Along (step P) (WellFormedOn handle) st' calls → st.repliesOn P other calls = st'.repliesOn P other calls
  | [], _, _, _, _, _ => rfl
  | c :: calls, _, _, h, hw, hw' => by
    obtain ⟨hreply, hagree⟩ := h.call P c hw.1 hw'.1
    have ih := AgreeOff.repliesOn ho hagree hw.2 hw'.2
    unfold Sessions.repliesOn
    split
    · rename_i hc
      rw [ih, hreply]
      rw [hc]
      exact fun heq => ho (Option.some.inj heq)
    · exact ih

/-! ## The lock -/

omit [ByteString B] in
theorem withSession_of_poisoned {α : Type} (f : Session B → Outcome CryptoError α × Session B)
    (hp : st.poisoned = true) : (withSession handle f st).2 = st := by
  unfold withSession
  rw [if_pos hp]

/-- On a poisoned lock a message call changes nothing. -/
theorem step_of_poisoned {c : SessionCall B} (hc : c.message? = some handle) (hp : st.poisoned = true) :
    st.step P c = st := by
  cases c with
  | encrypt nonce k plaintext => exact withSession_of_poisoned _ hp
  | decrypt fresh k header ciphertext nonce => exact withSession_of_poisoned _ hp
  | createInitiator | createResponder | destroy => cases hc

/-- A malformed message call poisons the lock. -/
theorem poisoned_of_malformed {c : SessionCall B} (hp : st.poisoned = false) (hw : ¬ st.WellFormed c) :
    (st.step P c).poisoned = true := by
  cases c with
  | decrypt fresh k header ciphertext nonce =>
    rw [WellFormed, not_forall] at hw
    obtain ⟨session, hw⟩ := hw
    obtain ⟨hl, hw⟩ := Classical.not_imp.1 hw
    have hpanic := (Session.decrypt_panic_iff P fresh session _ _).2 hw
    simp [step, call, sessionDecrypt, withSession, hp, hl, hpanic]
  | encrypt | createInitiator | createResponder | destroy => exact absurd trivial hw

/-- A call isolates the other sessions exactly when it is harmless. -/
theorem isolated_iff (st : Sessions B) (c : SessionCall B) : st.Isolated P c ↔ st.Harmless c := by
  constructor
  · intro h handle hc
    by_contra hnot
    simp only [not_or, not_forall, Bool.not_eq_true] at hnot
    obtain ⟨hp, ⟨other, ho, hlive⟩, hw⟩ := hnot
    -- the next call on the other session is refused
    have hnext := (h handle hc other ho hlive).2 [.destroy other] ⟨fun _ => trivial, trivial⟩
      ⟨fun _ => trivial, trivial⟩
    obtain ⟨session, hsession⟩ := Option.ne_none_iff_exists'.1 hlive
    simp [repliesOn, SessionCall.handle?, call, destroySession, poisoned_of_malformed P hp hw, hp, hsession] at hnext
  · intro h handle hc other ho hlive
    rcases h handle hc with hp | hnone | hw
    · rw [step_of_poisoned P hc hp]
      exact ⟨rfl, fun _ _ _ => rfl⟩
    · exact absurd (hnone other ho) hlive
    · have hagree := step_agreeOff P hc hw
      exact ⟨hagree.sessions other ho, fun later hl hl' => hagree.repliesOn P ho hl hl'⟩

/-! ## Runs -/

/-- A call on a sound lock leaves it sound exactly when it is well formed. -/
theorem step_unpoisoned_iff (st : Sessions B) (c : SessionCall B) (hp : st.poisoned = false) :
    (st.step P c).poisoned = false ↔ st.WellFormed c := by
  constructor
  · intro h
    by_contra hw
    rw [poisoned_of_malformed P hp hw] at h
    cases h
  · intro hw
    cases c with
    | encrypt nonce k plaintext => exact (step_agreeOff P rfl hw).poisoned.trans hp
    | decrypt fresh k header ciphertext nonce => exact (step_agreeOff P rfl hw).poisoned.trans hp
    | createInitiator fresh sharedSecret spkPublic =>
      simp only [step, call, createSessionInitiator, Prod.map, id]
      cases bytesToPublicKey spkPublic with
      | error e => exact hp
      | ok pk =>
        simp only [Session.initAlice_eq, insertSession, hp]
        rfl
    | createResponder sharedSecret spkSecret spkPublic spkSignature =>
      simp only [step, call, createSessionResponder, Prod.map, id]
      cases mapErr (SignedPreKey.fromBytes spkSecret spkPublic spkSignature) with
      | error e => exact hp
      | ok spk =>
        simp only [insertSession, hp]
        rfl
    | destroy k =>
      simp only [step, call, destroySession, hp]
      rfl

/-- The lock stays sound through a run exactly as long as its calls are well formed. -/
theorem unpoisoned_throughout_iff (calls : List (SessionCall B)) :
    Run.Throughout (step P) (fun st => st.poisoned = false) empty calls ↔ Run.Along (step P) WellFormed empty calls :=
  Run.throughout_iff_along (step_unpoisoned_iff P) rfl

/-- In a run from program start every message call isolates the other sessions exactly when every
message call is harmless. -/
theorem isolated_along_iff (calls : List (SessionCall B)) :
    Run.Along (step P) (Isolated P) empty calls ↔ Run.Along (step P) Harmless empty calls :=
  ⟨Run.Along.mono fun st c => (isolated_iff P st c).1, Run.Along.mono fun st c => (isolated_iff P st c).2⟩

end

/-- Two sessions of Bob's, and a header with an empty key for the first: the second can no longer be
used. -/
theorem malformed_header_not_isolated :
    ¬ ∀ (calls : List (SessionCall Key)) (c : SessionCall Key),
      Isolated Sample.aead (Run.exec (step Sample.aead) empty calls) c := by
  intro h
  let create : SessionCall Key :=
    .createResponder (.shared 0) (Sample.bytes32 1).1 (Sample.bytes32 1).1 Sample.spk.signature
  have hharm := (isolated_iff Sample.aead _ _).1
    (h [create, create] (.decrypt Sample.freshSecret 1 ⟨[], 0, 0⟩ [] [])) 1 rfl
  rcases hharm with hp | hnone | hw
  · exact absurd hp (by decide)
  · exact absurd (hnone 2 (by decide)) (by decide)
  · have := (hw Sample.bob rfl).1 rfl
    exact absurd this (by decide)

end Sessions

end GhostCrypt.Api
