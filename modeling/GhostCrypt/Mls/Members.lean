/-
The members of groups, each with a blob of its own: they add and remove members, take each other's
commits and join by welcomes, in any order. `add_member` and `remove_member` merge their commit
before any other member has seen it, so two of them at one epoch split the group; as long as no two
commits of a group lead to the same epoch, members at one epoch agree.
-/
import GhostCrypt.Lib.Lineage
import GhostCrypt.Lib.Run
import GhostCrypt.Mls.Reference

namespace GhostCrypt.Mls

variable {M : OpenMls}

/-! ## Members and messages -/

/-- The members' blobs, the commits and welcomes under way, and the group and epoch of every commit. -/
structure World (Name : Type) (M : OpenMls) where
  blob : Name → Option Bytes
  commits : List Bytes
  welcomes : List Bytes
  issued : List (M.GroupId × ℕ)

inductive Move (Name : Type) (M : OpenMls)
  | addMember (m : Name) (rng : M.Rng) (keyPackage : Bytes)
  | removeMember (m : Name) (rng : M.Rng) (leafIndex : UInt32)
  | processCommit (m : Name) (commit : Bytes)
  | decryptMessage (m : Name) (commit : Bytes)
  | processWelcome (m : Name) (welcome secretBundle : Bytes)

namespace World

variable {Name : Type}

section

variable [DecidableEq Name]

/-- The member stores the blob a call returned. -/
def store (w : World Name M) (m : Name) (groupState : Bytes) : World Name M :=
  { w with blob := Function.update w.blob m (some groupState) }

/-- The commit, the welcome if there is one, and the epoch a call on `groupState` returned. -/
def publish (w : World Name M) (groupState commit : Bytes) (welcome : Option Bytes) (epoch : ℕ) : World Name M :=
  { w with
    commits := commit :: w.commits
    welcomes := welcome.toList ++ w.welcomes
    issued := match loadState M groupState with
      | .ok loaded => (M.groupId loaded.group, epoch) :: w.issued
      | _ => w.issued }

/-- A call of a member on its blob; one that fails changes nothing. -/
def onBlob {α : Type} (w : World Name M) (m : Name) (f : Bytes → Outcome CryptoError α) (g : Bytes → α → World Name M) :
    World Name M :=
  match w.blob m with
  | none => w
  | some groupState =>
    match f groupState with
    | .ok r => g groupState r
    | _ => w

/-- One call. What is delivered was published before. -/
def step (w : World Name M) : Move Name M → World Name M
  | .addMember m rng keyPackage => w.onBlob m (fun s => Mls.addMember M rng s keyPackage) fun s r =>
    (w.publish s r.commit (some r.welcome) r.epoch).store m r.groupState
  | .removeMember m rng leafIndex => w.onBlob m (fun s => Mls.removeMember M rng s leafIndex) fun s r =>
    (w.publish s r.commit none r.epoch).store m r.groupState
  | .processCommit m commit =>
    if commit ∈ w.commits then w.onBlob m (fun s => Mls.processCommit M s commit) fun _ r => w.store m r.groupState
    else w
  | .decryptMessage m commit =>
    if commit ∈ w.commits then w.onBlob m (fun s => Mls.decryptMessage M s commit) fun _ r => w.store m r.groupState
    else w
  | .processWelcome m welcome secretBundle =>
    if welcome ∈ w.welcomes then
      match Mls.processWelcome M welcome secretBundle with
      | .ok r => w.store m r.groupState
      | _ => w
    else w

/-! ## Agreement -/

/-- The blob of a member loads, and the member is still in the group. -/
def Current (R : Observer M) (w : World Name M) (m : Name) (groupState : Bytes) (loaded : Loaded M) : Prop :=
  w.blob m = some groupState ∧ loadState M groupState = .ok loaded ∧ R.isActive loaded.group

/-- What `encrypt_message` makes of the one blob, `decrypt_message` takes with the other. -/
def Accepts (M : OpenMls) (receiver sender : Bytes) : Prop :=
  ∀ rng plaintext r, encryptMessage M rng sender plaintext = .ok r →
    ∃ r', decryptMessage M receiver r.mlsCiphertext = .ok r' ∧ r'.plaintext = plaintext

/-- Current members at the same epoch of a group share its membership and secrets, and each accepts
the other's messages. -/
def Agree (R : Observer M) (w : World Name M) : Prop :=
  ∀ ⦃m m' s s' loaded loaded'⦄, Current R w m s loaded → Current R w m' s' loaded' →
    M.groupId loaded.group = M.groupId loaded'.group → M.epoch loaded.group = M.epoch loaded'.group →
    R.members loaded.group = R.members loaded'.group ∧ R.epochSecrets loaded.group = R.epochSecrets loaded'.group ∧
      (R.member loaded.group ≠ R.member loaded'.group → Accepts M s s' ∧ Accepts M s' s)

/-- No commit was made yet, and the members of a group are at one epoch. -/
structure Start (R : Observer M) (w : World Name M) : Prop where
  commits : w.commits = []
  welcomes : w.welcomes = []
  issued : w.issued = []
  fresh : ∀ {m s loaded}, Current R w m s loaded → R.isFresh loaded.group
  agree : ∀ {m m' s s' loaded loaded'}, Current R w m s loaded → Current R w m' s' loaded' →
    M.groupId loaded.group = M.groupId loaded'.group → R.view loaded.group = R.view loaded'.group

/-! ## The invariant -/

/-- Every view in circulation, of a current member or at the end of a commit, is in `held`, which has
one view for each group and epoch. -/
structure Inv (R : Observer M) (first : M.GroupId → ℕ) (held : Set (View R)) (w : World Name M) : Prop where
  coherent : Lineage.Coherent View.groupId View.epoch first w.issued held
  current : ∀ {m s loaded}, Current R w m s loaded → R.view loaded.group ∈ held ∧ R.isFresh loaded.group
  commits : ∀ bytes ∈ w.commits, ∃ (loaded : Loaded M) (target : M.MlsGroup),
    CommitTo loaded target bytes ∧ R.view target ∈ held
  welcomes : ∀ bytes ∈ w.welcomes, ∃ (loaded : Loaded M) (target : M.MlsGroup),
    WelcomeTo loaded target bytes ∧ R.view target ∈ held

variable {R : Observer M} {first : M.GroupId → ℕ} {held : Set (View R)} {w : World Name M}

omit [DecidableEq Name] in
theorem Start.inv (h : Start R w) : ∃ first held, Inv R first held w := by
  let held : Set (View R) := {v | ∃ m s loaded, Current R w m s loaded ∧ v = R.view loaded.group}
  have hone : ∀ x ∈ held, ∀ y ∈ held, x.groupId = y.groupId → x = y := by
    rintro _ ⟨m, s, loaded, hc, rfl⟩ _ ⟨m', s', loaded', hc', rfl⟩ hkey
    exact h.agree hc hc' hkey
  obtain ⟨first, hfirst⟩ : ∃ first, Lineage.Coherent View.groupId View.epoch first [] held :=
    Lineage.exists_coherent hone
  refine ⟨first, held, ?_, ?_, ?_, ?_⟩
  · rw [h.issued]
    exact hfirst
  · exact fun {m s loaded} hc => ⟨⟨m, s, loaded, hc, rfl⟩, h.fresh hc⟩
  · simp [h.commits]
  · simp [h.welcomes]

omit [DecidableEq Name] in
/-- Members in the same view take each other's messages. -/
theorem accepts_of_view (hR : R.Lawful) {m m' : Name} {s s' : Bytes} {sender receiver : Loaded M}
    (hs : Current R w m s sender) (hr : Current R w m' s' receiver) (hfs : R.isFresh sender.group)
    (hfr : R.isFresh receiver.group) (hview : R.view sender.group = R.view receiver.group)
    (hne : R.member sender.group ≠ R.member receiver.group) : Accepts M s' s := by
  intro rng plaintext r h
  obtain ⟨loaded, message, group, provider, hload, hcreate, -, hmessage, -⟩ := encryptMessage_ok h
  obtain rfl := Outcome.ok.inj (hload.symm.trans hs.2.1)
  obtain ⟨message', group', provider', hreads, hprocess⟩ := hR.receives (held_of_loadState hR.loads hload)
    (held_of_loadState hR.loads hr.2.1) hs.2.2 hr.2.2 hfs hfr hview hne hcreate hmessage
  exact decryptMessage_application hR.serde hr.2.1 hreads hprocess

omit [DecidableEq Name] in
theorem Inv.agree (hR : R.Lawful) (h : Inv R first held w) : Agree R w := by
  intro m m' s s' loaded loaded' hc hc' hgroup hepoch
  obtain ⟨hheld, hfresh⟩ := h.current hc
  obtain ⟨hheld', hfresh'⟩ := h.current hc'
  have hview : R.view loaded.group = R.view loaded'.group := h.coherent.agree _ hheld _ hheld' hgroup hepoch
  refine ⟨congrArg View.members hview, congrArg View.epochSecrets hview, fun hne => ⟨?_, ?_⟩⟩
  · exact accepts_of_view hR hc' hc hfresh' hfresh hview.symm hne.symm
  · exact accepts_of_view hR hc hc' hfresh hfresh' hview hne

/-- A member stores the blob of a group that reached a view in circulation. -/
theorem Inv.store (hR : R.Lawful) (h : Inv R first held w) {m : Name} {target group : M.MlsGroup} {provider : Storage}
    {signer : M.SignatureKeyPair} {credentialWithKey : M.CredentialWithKey} {groupState : Bytes}
    (htarget : R.view target ∈ held) (hreach : Reaches R target group provider)
    (hsave : saveGroup M group provider signer credentialWithKey = .ok groupState) :
    Inv R first held (w.store m groupState) := by
  refine ⟨h.coherent, ?_, h.commits, h.welcomes⟩
  rintro m' s loaded ⟨hblob, hload, hactive⟩
  by_cases hm : m' = m
  · subst hm
    simp only [World.store, Function.update_self] at hblob
    obtain rfl := Option.some.inj hblob
    have heq := loadState_saveGroup hR.serde hsave hreach.holds
    obtain rfl := Outcome.ok.inj (hload.symm.trans heq)
    exact ⟨hreach.view hactive ▸ htarget, hreach.fresh⟩
  · simp only [World.store, Function.update_of_ne hm] at hblob
    exact h.current ⟨hblob, hload, hactive⟩

omit [DecidableEq Name] in
/-- A current member publishes a commit to an epoch its group has not used. -/
theorem Inv.publish (h : Inv R first held w) {s commit : Bytes} {welcome : Option Bytes} {loaded : Loaded M}
    {target : M.MlsGroup} (hload : loadState M s = .ok loaded) (hheld : R.view loaded.group ∈ held)
    (hnext : Next target loaded.group) (hcommit : CommitTo loaded target commit)
    (hwelcome : ∀ bytes ∈ welcome, WelcomeTo loaded target bytes)
    (hnew : (w.publish s commit welcome (M.epoch target)).issued.Nodup) :
    Inv R first (insert (R.view target) held) (w.publish s commit welcome (M.epoch target)) := by
  have hissued : (w.publish s commit welcome (M.epoch target)).issued =
      (M.groupId target, M.epoch target) :: w.issued := by
    simp only [World.publish, hload, hnext.groupId]
  rw [hissued] at hnew
  refine ⟨?_, ?_, ?_, ?_⟩
  · rw [hissued]
    exact h.coherent.issue (v := R.view target) hheld hnext.groupId hnext.epoch (List.nodup_cons.1 hnew).1
  · exact fun hc => ⟨Set.mem_insert_of_mem _ (h.current hc).1, (h.current hc).2⟩
  · intro bytes hbytes
    rcases List.mem_cons.1 hbytes with rfl | hbytes
    · exact ⟨loaded, target, hcommit, Set.mem_insert _ _⟩
    · obtain ⟨loaded', target', hto, hin⟩ := h.commits bytes hbytes
      exact ⟨loaded', target', hto, Set.mem_insert_of_mem _ hin⟩
  · intro bytes hbytes
    rcases List.mem_append.1 hbytes with hbytes | hbytes
    · exact ⟨loaded, target, hwelcome bytes (Option.mem_toList.1 hbytes), Set.mem_insert _ _⟩
    · obtain ⟨loaded', target', hto, hin⟩ := h.welcomes bytes hbytes
      exact ⟨loaded', target', hto, Set.mem_insert_of_mem _ hin⟩

omit [DecidableEq Name] in
/-- A call of a member either changes nothing or goes through. -/
theorem onBlob_cases {α : Type} {P : World Name M → Prop} {m : Name} {f : Bytes → Outcome CryptoError α}
    {g : Bytes → α → World Name M} (hw : P w)
    (hok : ∀ s r, w.blob m = some s → f s = .ok r → P (g s r)) : P (w.onBlob m f g) := by
  unfold onBlob
  split
  · exact hw
  · rename_i s hs
    split
    · rename_i r hr
      exact hok s r hs hr
    · exact hw

/-- A call of a member that commits. -/
theorem Inv.commit (hR : R.Lawful) (h : Inv R first held w) {m : Name} {s commitBytes groupState : Bytes}
    {welcomeBytes : Option Bytes} {loaded : Loaded M} {commit : M.MlsMessageOut} {welcome : Option M.MlsMessageOut}
    {target : M.MlsGroup} {provider : Storage} (hs : w.blob m = some s) (hload : loadState M s = .ok loaded)
    (hcommits : M.Commits loaded commit welcome target provider) (hsave : loaded.Saves target provider groupState)
    (hcommit : M.serializeMessage commit = .ok commitBytes)
    (hwelcome : ∀ bytes ∈ welcomeBytes, ∃ msg ∈ welcome, M.serializeMessage msg = .ok bytes)
    (hnew : (w.publish s commitBytes welcomeBytes (M.epoch target)).issued.Nodup) :
    ∃ held', Inv R first held' ((w.publish s commitBytes welcomeBytes (M.epoch target)).store m groupState) := by
  have hin := held_of_loadState hR.loads hload
  obtain ⟨hactive, hnext, hreach⟩ := hR.commits hin hcommits
  have hcurrent : Current R w m s loaded := ⟨hs, hload, hactive⟩
  refine ⟨_, (h.publish hload (h.current hcurrent).1 hnext
    ⟨hin, commit, welcome, provider, hcommits, hcommit⟩ ?_ hnew).store
    hR (Set.mem_insert _ _) hreach hsave⟩
  intro bytes hbytes
  obtain ⟨msg, hmsg, hbytes⟩ := hwelcome bytes hbytes
  obtain rfl := Option.mem_def.1 hmsg
  exact ⟨hin, commit, msg, provider, hcommits, hbytes⟩

/-- A call of a member that takes a commit under way. -/
theorem Inv.take (hR : R.Lawful) (h : Inv R first held w) {m : Name} {s bytes groupState : Bytes} {taker : Loaded M}
    {message : M.ProtocolMessage} {group : M.MlsGroup} {provider : Storage} (hbytes : bytes ∈ w.commits)
    (hload : loadState M s = .ok taker) (hreads : M.Reads bytes message) (htakes : M.Takes taker message group provider)
    (hsave : taker.Saves group provider groupState) : Inv R first held (w.store m groupState) := by
  obtain ⟨loaded, target, hto, hin⟩ := h.commits bytes hbytes
  exact h.store hR hin (hR.takes hto hreads (held_of_loadState hR.loads hload) htakes) hsave

/-- One call keeps the views in circulation coherent, if a commit it makes leads to a new epoch. -/
theorem Inv.step (hR : R.Lawful) (h : ∃ held, Inv R first held w) (a : Move Name M)
    (hnew : (w.step a).issued.Nodup) : ∃ held, Inv R first held (w.step a) := by
  obtain ⟨held, h⟩ := h
  cases a with
  | addMember m rng keyPackage =>
    revert hnew
    refine onBlob_cases (P := fun w' => w'.issued.Nodup → ∃ held, Inv R first held w') (fun _ => ⟨held, h⟩) ?_
    intro s r hs hr hnew
    obtain ⟨loaded, commit, welcome, target, provider, hload, hcommits, hsave, hcommit, hwelcome, hepoch⟩ :=
      addMember_ok hr
    rw [hepoch] at hnew ⊢
    refine h.commit hR hs hload hcommits hsave hcommit ?_ hnew
    exact fun bytes hbytes => ⟨welcome, rfl, Option.some.inj hbytes ▸ hwelcome⟩
  | removeMember m rng leafIndex =>
    revert hnew
    refine onBlob_cases (P := fun w' => w'.issued.Nodup → ∃ held, Inv R first held w') (fun _ => ⟨held, h⟩) ?_
    intro s r hs hr hnew
    obtain ⟨loaded, commit, target, provider, hload, hcommits, hsave, hcommit, hepoch⟩ := removeMember_ok hr
    rw [hepoch] at hnew ⊢
    refine h.commit hR hs hload hcommits hsave hcommit ?_ hnew
    exact fun bytes hbytes => by cases hbytes
  | processCommit m bytes =>
    simp only [World.step]
    split
    · rename_i hbytes
      refine onBlob_cases (P := fun w' => ∃ held, Inv R first held w') ⟨held, h⟩ fun s r _ hr => ?_
      obtain ⟨taker, message, group, provider, hload, hreads, htakes, hsave, -⟩ := processCommit_ok hr
      exact ⟨held, h.take hR hbytes hload hreads htakes hsave⟩
    · exact ⟨held, h⟩
  | decryptMessage m bytes =>
    simp only [World.step]
    split
    · rename_i hbytes
      refine onBlob_cases (P := fun w' => ∃ held, Inv R first held w') ⟨held, h⟩ fun s r _ hr => ?_
      obtain ⟨taker, message, group, provider, hload, hreads, hsave, hcases⟩ := decryptMessage_ok hr
      obtain ⟨loaded, target, hto, -⟩ := h.commits bytes hbytes
      have hin := held_of_loadState hR.loads hload
      -- a commit is neither application data nor a proposal
      rcases hcases with happlication | ⟨-, htakes | ⟨content, proposal, group', provider', hprocess, hcontent, -⟩⟩
      · obtain ⟨-, stagedCommit, hstaged⟩ := hR.accepts hto hreads hin happlication
        cases hstaged
      · exact ⟨held, h.take hR hbytes hload hreads htakes hsave⟩
      · obtain ⟨-, stagedCommit, rfl⟩ := hR.accepts hto hreads hin hprocess
        rcases hcontent with hcontent | hcontent <;> cases hcontent
    · exact ⟨held, h⟩
  | processWelcome m welcome secretBundle =>
    simp only [World.step]
    split
    · rename_i hbytes
      split
      · rename_i r hr
        obtain ⟨provider, group, provider', signer, credentialWithKey, hjoins, hsave, -, -⟩ := processWelcome_ok hr
        obtain ⟨loaded, target, hto, hin⟩ := h.welcomes welcome hbytes
        exact ⟨held, h.store hR hin (hR.joins hto hjoins) hsave⟩
      · exact ⟨held, h⟩
    · exact ⟨held, h⟩

theorem issued_processCommit (w : World Name M) (m : Name) (bytes : Bytes) :
    (w.step (.processCommit m bytes)).issued = w.issued := by
  simp only [World.step]
  split
  · exact onBlob_cases (P := fun w' => w'.issued = w.issued) rfl fun _ _ _ _ => rfl
  · rfl

theorem issued_decryptMessage (w : World Name M) (m : Name) (bytes : Bytes) :
    (w.step (.decryptMessage m bytes)).issued = w.issued := by
  simp only [World.step]
  split
  · exact onBlob_cases (P := fun w' => w'.issued = w.issued) rfl fun _ _ _ _ => rfl
  · rfl

/-- No call takes a commit back. -/
theorem nodup_of_step (w : World Name M) (a : Move Name M) (h : (w.step a).issued.Nodup) : w.issued.Nodup := by
  have hpublish : ∀ s commit welcome epoch, (w.publish s commit welcome epoch).issued.Nodup → w.issued.Nodup := by
    intro s commit welcome epoch h
    unfold World.publish at h
    split at h
    · exact (List.nodup_cons.1 h).2
    · exact h
  revert h
  cases a with
  | addMember m rng keyPackage =>
    exact onBlob_cases (P := fun w' => w'.issued.Nodup → _) id
      fun s r _ _ => hpublish s r.commit (some r.welcome) r.epoch
  | removeMember m rng leafIndex =>
    exact onBlob_cases (P := fun w' => w'.issued.Nodup → _) id fun s r _ _ => hpublish s r.commit none r.epoch
  | processCommit m bytes => rw [issued_processCommit]; exact id
  | decryptMessage m bytes => rw [issued_decryptMessage]; exact id
  | processWelcome m welcome secretBundle =>
    simp only [World.step]
    split
    · split
      · exact id
      · exact id
    · exact id

/-- As long as no two commits of a group lead to the same epoch, current members at one epoch of it
share its membership and secrets, and each accepts the other's messages. -/
theorem members_agree (hR : R.Lawful) (hstart : Start R w) (moves : List (Move Name M))
    (hcommits : (Run.exec step w moves).issued.Nodup) : Agree R (Run.exec step w moves) := by
  obtain ⟨first, held, hinv⟩ := hstart.inv
  have hnodup := (Run.Throughout.of_last (I := fun w : World Name M => w.issued.Nodup) nodup_of_step hcommits).along
  obtain ⟨held', hend⟩ := Run.exec_invariant (I := fun w : World Name M => ∃ held, Inv R first held w)
    (fun _ a hi hq => Inv.step hR hi a hq) ⟨held, hinv⟩ hnodup
  exact hend.agree hR

theorem step_addMember {m : Name} {rng : M.Rng} {keyPackage s : Bytes} {r : AddMemberResult} (hs : w.blob m = some s)
    (hr : Mls.addMember M rng s keyPackage = .ok r) :
    w.step (.addMember m rng keyPackage) = (w.publish s r.commit (some r.welcome) r.epoch).store m r.groupState := by
  simp only [World.step, onBlob, hs, hr]

end

/-! ## Two members of a group -/

open Reference

/-- The second epoch of a group of two. -/
def pairEpoch : Epoch := { groupId := 0, number := 1, members := [[1], [2]], secrets := 0 }

/-- The state of one of them. -/
def pairGroup (own : Bytes) : Group := { epoch := pairEpoch, own, active := true, generation := 0, pending := none }

def pairBlob (own : Bytes) : Bytes := blobOf (pairGroup own) ((pairGroup own).put ∅)

def pair : World Bool crates :=
  { blob := fun m => some (pairBlob (if m then [1] else [2])), commits := [], welcomes := [], issued := [] }

theorem pair_current {m : Bool} {s : Bytes} {loaded : Loaded crates} (h : Current observer pair m s loaded) :
    ∃ own, loaded.group = pairGroup own := by
  obtain ⟨hs, hload, -⟩ := h
  obtain rfl := Option.some.inj hs
  obtain rfl := Outcome.ok.inj ((loadState_blob _ ∅).symm.trans hload)
  exact ⟨_, rfl⟩

theorem pair_start : Start observer pair where
  commits := rfl
  welcomes := rfl
  issued := rfl
  fresh h := by
    obtain ⟨own, hgroup⟩ := pair_current h
    rw [hgroup]
    rfl
  agree h h' _ := by
    obtain ⟨own, hgroup⟩ := pair_current h
    obtain ⟨own', hgroup'⟩ := pair_current h'
    rw [hgroup, hgroup']
    rfl

/-- The group after the member adds another. -/
def pairAdded (own other : Bytes) : Group := (pairGroup own).enter (pairEpoch.next 0 [[1], [2], other])

def pairAddedProvider (own other : Bytes) : Storage := (pairAdded own other).put ((pairGroup own).put ∅)

/-- What `add_member` returns to it. -/
def pairAdd (own other : Bytes) : AddMemberResult :=
  { commit := write (Message.commit pairEpoch (pairAdded own other).epoch)
    welcome := write (Message.welcome (pairAdded own other).epoch [other])
    groupState := blobOf (pairAdded own other) (pairAddedProvider own other)
    epoch := 2 }

theorem pair_add (own other : Bytes) : addMember crates (0 : ℕ) (pairBlob own) other = .ok (pairAdd own other) :=
  addMember_blob 0 (g := pairGroup own) rfl ∅ other

theorem pair_publish {w : World Bool crates} (own other : Bytes) :
    w.publish (pairBlob own) (pairAdd own other).commit (some (pairAdd own other).welcome) (pairAdd own other).epoch =
      { w with
        commits := (pairAdd own other).commit :: w.commits
        welcomes := (pairAdd own other).welcome :: w.welcomes
        issued := ((0 : ℕ), 2) :: w.issued } := by
  have hload : loadState crates (pairBlob own) = _ := loadState_blob (pairGroup own) ∅
  simp only [publish, hload]
  rfl

/-- One member adds a third, and the other takes the commit. -/
theorem members_agree_pair :
    Agree observer (Run.exec step pair
      [.addMember true (0 : ℕ) [3], .processCommit false (pairAdd [1] [3]).commit]) := by
  refine members_agree observer_lawful pair_start _ ?_
  rw [Run.exec_cons, Run.exec_cons, Run.exec_nil, issued_processCommit, step_addMember rfl (pair_add [1] [3]),
    pair_publish]
  exact List.nodup_singleton _

/-- Both members add a third at once: they are at the same epoch with different members. -/
theorem members_fork : ¬ ∀ (M : OpenMls) (R : Observer M), R.Lawful → ∀ w : World Bool M, Start R w →
    ∀ moves, Agree R (Run.exec step w moves) := by
  intro h
  have hagree := h crates observer observer_lawful pair pair_start
    [.addMember true (0 : ℕ) [3], .addMember false (0 : ℕ) [4]]
  rw [Run.exec_cons, Run.exec_cons, Run.exec_nil, step_addMember rfl (pair_add [1] [3]), pair_publish,
    step_addMember rfl (pair_add [2] [4]), pair_publish] at hagree
  have hfirst := loadState_blob (pairAdded [1] [3]) ((pairGroup [1]).put ∅)
  have hsecond := loadState_blob (pairAdded [2] [4]) ((pairGroup [2]).put ∅)
  have hmembers : ([[1], [2], [3]] : List Bytes) = [[1], [2], [4]] :=
    (@hagree true false _ _ _ _ ⟨rfl, hfirst, rfl⟩ ⟨rfl, hsecond, rfl⟩ rfl rfl).1
  exact absurd hmembers (by decide)

end World

end GhostCrypt.Mls
