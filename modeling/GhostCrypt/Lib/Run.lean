/-
Runs of a deterministic machine: a state, a step function on states and actions, and a list of
actions. A property of the steps of a run (`Along`) or of the states it passes through
(`Throughout`), and the rule that turns a step lemma into a lemma about runs.
-/
import Mathlib.Data.List.Basic

namespace Run

variable {σ α : Type*} (step : σ → α → σ)

/-! ## Executing -/

/-- The state a run ends in. -/
def exec (s : σ) (as : List α) : σ := as.foldl step s

/-- Every step of the run satisfies `Q`, at the state it is taken from. -/
def Along (Q : σ → α → Prop) : σ → List α → Prop
  | _, [] => True
  | s, a :: as => Q s a ∧ Along Q (step s a) as

/-- Every state of the run satisfies `I`, the first and the last included. -/
def Throughout (I : σ → Prop) : σ → List α → Prop
  | s, [] => I s
  | s, a :: as => I s ∧ Throughout I (step s a) as

@[simp] theorem exec_nil (s : σ) : exec step s [] = s := rfl

@[simp] theorem exec_cons (s : σ) (a : α) (as : List α) :
    exec step s (a :: as) = exec step (step s a) as := rfl

@[simp] theorem exec_append (s : σ) (as bs : List α) :
    exec step s (as ++ bs) = exec step (exec step s as) bs := List.foldl_append

variable {step} {I : σ → Prop} {Q R : σ → α → Prop}

@[simp] theorem along_nil (s : σ) : Along step Q s [] ↔ True := Iff.rfl

@[simp] theorem along_cons (s : σ) (a : α) (as : List α) :
    Along step Q s (a :: as) ↔ Q s a ∧ Along step Q (step s a) as := Iff.rfl

@[simp] theorem throughout_nil (s : σ) : Throughout step I s ([] : List α) ↔ I s := Iff.rfl

@[simp] theorem throughout_cons (s : σ) (a : α) (as : List α) :
    Throughout step I s (a :: as) ↔ I s ∧ Throughout step I (step s a) as := Iff.rfl

@[simp] theorem along_append : ∀ (s : σ) (as bs : List α),
    Along step Q s (as ++ bs) ↔ Along step Q s as ∧ Along step Q (exec step s as) bs
  | s, [], bs => by simp
  | s, a :: as, bs => by simp [along_append (step s a) as bs, and_assoc]

theorem Throughout.head {s : σ} : ∀ {as : List α}, Throughout step I s as → I s
  | [], h => h
  | _ :: _, h => h.1

theorem Throughout.last : ∀ {s : σ} {as : List α}, Throughout step I s as → I (exec step s as)
  | _, [], h => h
  | _, _ :: _, h => by rw [exec_cons]; exact Throughout.last h.2

theorem Throughout.of_append : ∀ {s : σ} {as bs : List α},
    Throughout step I s (as ++ bs) → Throughout step I s as ∧ Throughout step I (exec step s as) bs
  | _, [], _, h => ⟨h.head, h⟩
  | _, _ :: _, _, h =>
    have ih := Throughout.of_append h.2
    ⟨⟨h.1, ih.1⟩, ih.2⟩

theorem Throughout.mono {J : σ → Prop} (h : ∀ s, I s → J s) : ∀ {s : σ} {as : List α},
    Throughout step I s as → Throughout step J s as
  | _, [], hi => h _ hi
  | _, _ :: _, hi => ⟨h _ hi.1, Throughout.mono h hi.2⟩

/-- A property no step can restore held throughout a run if it holds where the run ends. -/
theorem Throughout.of_last (hstep : ∀ s a, I (step s a) → I s) : ∀ {s : σ} {as : List α},
    I (exec step s as) → Throughout step I s as
  | _, [], h => h
  | s, a :: _, h =>
    have ih := Throughout.of_last hstep (s := step s a) h
    ⟨hstep s a ih.head, ih⟩

/-- What holds throughout a run holds where each of its steps leads. -/
theorem Throughout.along : ∀ {s : σ} {as : List α}, Throughout step I s as →
    Along step (fun s a => I (step s a)) s as
  | _, [], _ => trivial
  | _, _ :: _, h => ⟨h.2.head, Throughout.along h.2⟩

theorem Along.and : ∀ {s : σ} {as : List α}, Along step Q s as → Along step R s as →
    Along step (fun s a => Q s a ∧ R s a) s as
  | _, [], _, _ => trivial
  | _, _ :: _, hq, hr => ⟨⟨hq.1, hr.1⟩, Along.and hq.2 hr.2⟩

/-! ## Two machines -/

section

variable {step' : σ → α → σ}

/-- Two machines with the same steps along a run of the one end in the same state. -/
theorem exec_congr (heq : ∀ s a, Q s a → step s a = step' s a) : ∀ {s : σ} {as : List α}, Along step Q s as →
    exec step s as = exec step' s as
  | _, [], _ => rfl
  | s, a :: as, h => by
    rw [exec_cons, exec_cons, exec_congr heq h.2, heq s a h.1]

/-- What holds of the steps of the one holds of those of the other. -/
theorem Along.congr (heq : ∀ s a, Q s a → step s a = step' s a) : ∀ {s : σ} {as : List α}, Along step Q s as →
    Along step R s as → Along step' R s as
  | _, [], _, _ => trivial
  | s, a :: _, h, hr => ⟨hr.1, heq s a h.1 ▸ Along.congr heq h.2 hr.2⟩

/-- And what holds of the states. -/
theorem Throughout.congr (heq : ∀ s a, Q s a → step s a = step' s a) : ∀ {s : σ} {as : List α}, Along step Q s as →
    Throughout step I s as → Throughout step' I s as
  | _, [], _, hi => hi
  | s, a :: _, h, hi => ⟨hi.1, heq s a h.1 ▸ Throughout.congr heq h.2 hi.2⟩

end

/-! ## Invariants -/

/-- A property the steps of a run preserve holds where the run ends. -/
theorem exec_invariant (hstep : ∀ s a, I s → Q s a → I (step s a)) :
    ∀ {s : σ} {as : List α}, I s → Along step Q s as → I (exec step s as)
  | _, [], hs, _ => hs
  | s, a :: _, hs, h => by rw [exec_cons]; exact exec_invariant hstep (hstep s a hs h.1) h.2

/-- Where a step from `I` stays in `I` exactly when it satisfies `Q`, a run stays in `I` exactly
when all its steps satisfy `Q`. -/
theorem throughout_iff_along (hstep : ∀ s a, I s → (I (step s a) ↔ Q s a)) :
    ∀ {s : σ} {as : List α}, I s → (Throughout step I s as ↔ Along step Q s as)
  | _, [], hs => by simp [hs]
  | s, a :: as, hs => by
    rw [throughout_cons, along_cons, ← hstep s a hs]
    constructor
    · rintro ⟨-, h⟩
      exact ⟨h.head, (throughout_iff_along hstep h.head).1 h⟩
    · rintro ⟨ha, h⟩
      exact ⟨hs, (throughout_iff_along hstep ha).2 h⟩

/-- Where every step from `I` that satisfies `Q` stays in `I` or leaves both `J` and `K`, a run whose steps
satisfy `Q` stays in `J` exactly when it stays in `K`. -/
theorem throughout_congr {J K : σ → Prop} (hJ : ∀ s, I s → J s) (hK : ∀ s, I s → K s)
    (hstep : ∀ s a, I s → Q s a → I (step s a) ∨ (¬ J (step s a) ∧ ¬ K (step s a))) :
    ∀ {s : σ} {as : List α}, I s → Along step Q s as → (Throughout step J s as ↔ Throughout step K s as)
  | s, [], hs, _ => iff_of_true (hJ s hs) (hK s hs)
  | s, a :: as, hs, h => by
    rw [throughout_cons, throughout_cons]
    rcases hstep s a hs h.1 with hs' | ⟨hj, hk⟩
    · exact and_congr (iff_of_true (hJ s hs) (hK s hs)) (throughout_congr hJ hK hstep hs' h.2)
    · exact iff_of_false (fun hrun => hj hrun.2.head) fun hrun => hk hrun.2.head

/-- Forward simulation: where every step that satisfies `Q` is answered by the steps it stands for, a run is
answered by a run. -/
theorem exec_simulation {τ β : Type*} {step' : τ → β → τ} {R : σ → τ → Prop} {stands : α → Option β}
    (hstep : ∀ s t a, R s t → Q s a → R (step s a) (exec step' t (stands a).toList)) :
    ∀ {s : σ} {t : τ} {as : List α}, R s t → Along step Q s as →
      R (exec step s as) (exec step' t (as.filterMap stands))
  | _, _, [], h, _ => h
  | s, t, a :: as, h, hq => by
    have ih := exec_simulation hstep (hstep s t a h hq.1) hq.2
    rw [← exec_append] at ih
    have hcons : (stands a).toList ++ as.filterMap stands = (a :: as).filterMap stands := by
      rw [List.filterMap_cons]
      cases stands a <;> rfl
    rwa [hcons] at ih

theorem along_true : ∀ (s : σ) (as : List α), Along step (fun _ _ => True) s as
  | _, [] => trivial
  | s, a :: as => ⟨trivial, along_true (step s a) as⟩

/-- A property every step preserves, whatever the action. -/
theorem exec_invariant' (hstep : ∀ s a, I s → I (step s a)) {s : σ} {as : List α} (hs : I s) :
    I (exec step s as) :=
  exec_invariant (Q := fun _ _ => True) (fun s a h _ => hstep s a h) hs (along_true s as)

theorem Along.mono (h : ∀ s a, Q s a → R s a) : ∀ {s : σ} {as : List α},
    Along step Q s as → Along step R s as
  | _, [], _ => trivial
  | _, _ :: _, hq => ⟨h _ _ hq.1, Along.mono h hq.2⟩

end Run
