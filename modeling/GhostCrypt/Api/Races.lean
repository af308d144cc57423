/-
Calls that race on the native MLS store, all of them. Between its lock on the store and the next a call works on
a copy, and other calls run; yet no caller can tell, for what the calls return is what members in memory return
one after another.
-/
import GhostCrypt.Api.Keeper
import GhostCrypt.Lib.Races

namespace GhostCrypt.Api

open Mls (Setup Request Loaded loadState blobs live)
open Races (World)
open Versions (Client Move Shelf)

variable {M : Mls.OpenMls}

variable (M) in
/-- The store, and the calls under way. -/
abbrev Racing := World Bytes (Setup M) (Request M) (Outcome CryptoError Mls.Reply)

/-- The store before the first call. -/
def Groups.racing (st : Groups) : Racing M := .begin st.states st.nextMlsId

/-- The exported functions, called one after another: each is its accesses in one go. -/
theorem alone_exec (st : Groups) (moves : List (Move (Setup M) (Request M))) :
    Races.Alone (Run.exec Client.step (Client.start (K := keeper M) st) (moves.map .call))
      (Run.exec (World.step (blobs M)) st.racing (Races.alone 0 moves)) := by
  have hstart : Races.Alone (Client.start (K := keeper M) st) (st.racing (M := M)) := ⟨fun _ => rfl, rfl, .nil⟩
  exact hstart.exec (keeper_lawful M) moves

/-- However the accesses of racing calls come, as long as no more than `2^32` handles are drawn: every call that has
returned has returned what members in memory return one after another, in the order in which the calls started,
and the state under its handle is that of such a member. -/
theorem races_learn (hM : M.Persistent) (st : Groups) {accesses : List (Races.Access (Setup M) (Request M))}
    (hknown : Run.Along (World.step (blobs M)) World.Known st.racing accesses)
    (hdraws : (Races.machine (blobs M)).drawsOf st.racing accesses ≤ 2 ^ 32) :
    Races.Learns (fun s m => loadState M s = .ok m) (Run.exec (World.step (blobs M)) st.racing accesses)
      (Run.exec (Shelf.step (live M)) [] (accesses.filterMap Races.Access.move)) :=
  (Races.holds_exec st.states st.nextMlsId hknown hdraws).learns
    ((Mls.blobs_refine hM).exec (accesses.filterMap Races.Access.move) .nil)

/-! ## Two messages at once -/

/-- A group is made. -/
def racingGroup : List (Races.Access (Setup Mls.Reference.crates) (Request Mls.Reference.crates)) :=
  [.start (.make (.create (5 : ℕ) [1, 2])), .compute 0, .insert 0]

/-- Two calls copy its state before either returns, and the later one returns first. -/
def racingMessages : List (Races.Access (Setup Mls.Reference.crates) (Request Mls.Reference.crates)) :=
  [.start (.work 0 (.encryptMessage (6 : ℕ) [7])), .start (.work 0 (.encryptMessage (8 : ℕ) [9])),
    .compute 2, .compute 1, .insert 2, .insert 1]

theorem racingMessages_known : Run.Along (World.step (blobs Mls.Reference.crates)) World.Known
    Groups.empty.racing (racingGroup ++ racingMessages) := by
  rw [Run.along_append]
  refine ⟨⟨trivial, trivial, trivial, trivial⟩, ?_⟩
  have hgroup : Run.exec (World.step (blobs Mls.Reference.crates)) Groups.empty.racing racingGroup =
      Groups.empty.racing.finish ((blobs Mls.Reference.crates).make (.create (5 : ℕ) [1, 2])) :=
    Races.exec_making _ _
  rw [hgroup]
  -- the first call returned, and stays so
  obtain ⟨e, he⟩ := World.exists_finish (Groups.empty.racing (M := Mls.Reference.crates))
    ((blobs Mls.Reference.crates).make (.create (5 : ℕ) [1, 2]))
  refine ⟨fun c hc => ⟨e, Option.some.inj (hc.symm.trans he)⟩, fun c hc => ⟨e, ?_⟩, trivial, trivial, trivial, trivial,
    trivial⟩
  exact Option.some.inj (hc.symm.trans (World.getElem?_step (O := blobs Mls.Reference.crates) he _))

theorem races_learn_sample :
    Races.Learns (fun s m => loadState Mls.Reference.crates s = .ok m)
      (Run.exec (World.step (blobs Mls.Reference.crates)) Groups.empty.racing (racingGroup ++ racingMessages))
      (Run.exec (Shelf.step (live Mls.Reference.crates)) []
        [.make (.create (5 : ℕ) [1, 2]), .work 0 (.encryptMessage (6 : ℕ) [7]),
          .work 0 (.encryptMessage (8 : ℕ) [9])]) :=
  races_learn Mls.Reference.persistent Groups.empty racingMessages_known
    ((Kinds.Machine.drawsOf_le_length _ _ _).trans (by decide))

end GhostCrypt.Api
