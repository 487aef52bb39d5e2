/-
  NvResourceController.Lib.Mailbox — one value that a writer announces by raising a flag
  and readers take when they see it raised. Whichever reader has taken the value lowers
  the flag, and the writer takes a lowered flag for an answer.

  The value has a version, which a reader's copy keeps. A reader may join at any time. The
  writer may also raise the flag to remind of the value it has stored before.

  - `current_of_attentive`: in runs in which the flag is lowered only when every reader
    has the value, and readers join only when the flag is up or is to be raised, a
    lowered flag means that every reader has the value.
  - `current_of_subsingleton`: so it does for a single reader that has taken a value
    once, whatever else happens; and the writer does not store the next before.
-/

import NvResourceController.Lib.Transition
import Mathlib.Logic.Function.Basic
import Mathlib.Data.Nat.Notation

namespace Mailbox

variable {ι α : Type}

/-- Where a reader is: it has not joined or has left; it is about its own work; it has
    seen the flag; it has taken the value and is to lower the flag. -/
inductive Phase where
  | absent
  | idle
  | told
  | taken
  deriving DecidableEq, Repr

structure Reader (α : Type) where
  phase : Phase
  /-- What it took last, with the version. -/
  copy : Option (ℕ × α)

/-- Where the writer is: it waits; it has found the flag lowered; it is to store a value;
    it is to raise the flag. -/
inductive Writer where
  | idle
  | claimed
  | committed
  | bound
  deriving DecidableEq, Repr

structure State (ι α : Type) where
  value : α
  version : ℕ
  raised : Bool
  writer : Writer
  readers : ι → Reader α

inductive Event (ι α : Type) where
  | join (i : ι)
  | leave (i : ι)
  | see (i : ι)
  | take (i : ι)
  | lower (i : ι)
  | claim
  | release
  | commit
  | store (value : α)
  | remind
  | announce

variable [DecidableEq ι]

def State.put (s : State ι α) (i : ι) (r : Reader α) : State ι α := { s with readers := Function.update s.readers i r }

@[simp] theorem put_value (s : State ι α) (i : ι) (r : Reader α) : (s.put i r).value = s.value := rfl
@[simp] theorem put_version (s : State ι α) (i : ι) (r : Reader α) : (s.put i r).version = s.version := rfl
@[simp] theorem put_raised (s : State ι α) (i : ι) (r : Reader α) : (s.put i r).raised = s.raised := rfl
@[simp] theorem put_writer (s : State ι α) (i : ι) (r : Reader α) : (s.put i r).writer = s.writer := rfl
@[simp] theorem put_self (s : State ι α) (i : ι) (r : Reader α) : (s.put i r).readers i = r := by simp [State.put]

inductive Step : State ι α → Event ι α → State ι α → Prop
  | join (s : State ι α) (i : ι) : (s.readers i).phase = .absent → Step s (.join i) (s.put i ⟨.idle, none⟩)
  | leave (s : State ι α) (i : ι) : Step s (.leave i) (s.put i ⟨.absent, none⟩)
  | see (s : State ι α) (i : ι) : (s.readers i).phase = .idle → s.raised = true →
      Step s (.see i) (s.put i ⟨.told, (s.readers i).copy⟩)
  | take (s : State ι α) (i : ι) : (s.readers i).phase = .told →
      Step s (.take i) (s.put i ⟨.taken, some (s.version, s.value)⟩)
  | lower (s : State ι α) (i : ι) : (s.readers i).phase = .taken →
      Step s (.lower i) { s.put i ⟨.idle, (s.readers i).copy⟩ with raised := false }
  | claim (s : State ι α) : s.writer = .idle → s.raised = false → Step s .claim { s with writer := .claimed }
  | release (s : State ι α) : s.writer = .claimed → Step s .release { s with writer := .idle }
  | commit (s : State ι α) : s.writer = .claimed → Step s .commit { s with writer := .committed }
  | store (s : State ι α) (value : α) : s.writer = .committed →
      Step s (.store value) { s with writer := .bound, value := value, version := s.version + 1 }
  | remind (s : State ι α) : s.writer = .idle → Step s .remind { s with writer := .bound }
  | announce (s : State ι α) : s.writer = .bound → Step s .announce { s with writer := .idle, raised := true }

/-- A mailbox, with the first value to be stored and nobody there. -/
def mailbox (ι α : Type) [DecidableEq ι] : System (State ι α) (Event ι α) where
  init s := s.writer = .committed ∧ s.raised = false ∧ ∀ i, s.readers i = ⟨.absent, none⟩
  step := Step

/-! ## Attentive readers -/

/-- The writer raises the flag, whatever the others do. -/
def State.Due (s : State ι α) : Prop := s.writer = .committed ∨ s.writer = .bound

/-- The reader has the value, or is about to take it. -/
def Reader.Informed (r : Reader α) (version : ℕ) : Prop :=
  r.phase = .absent ∨ r.phase = .told ∨ ∃ v, r.copy = some (version, v)

/-- The flag is lowered when all readers are informed; nobody joins unheard. -/
def Attentive (s : State ι α) : Event ι α → Prop
  | .lower _ => s.raised = false ∨ s.Due ∨ ∀ j, (s.readers j).Informed s.version
  | .join _ => s.raised = true ∨ s.Due
  | _ => True

/-- A copy is of a version there was, and one of the present version is the value. -/
def Dated (s : State ι α) (r : Reader α) : Prop :=
  ∀ n v, r.copy = some (n, v) → n ≤ s.version ∧ (n = s.version → v = s.value)

structure Kept (s : State ι α) : Prop where
  dated : ∀ i, Dated s (s.readers i)
  informed : s.raised = false → ¬ s.Due → ∀ i, (s.readers i).Informed s.version

theorem put_readers {P : Reader α → Prop} {s : State ι α} {i : ι} {r : Reader α} (hr : P r)
    (h : ∀ j, P (s.readers j)) (j : ι) : P ((s.put i r).readers j) := by
  by_cases hj : j = i
  · subst hj
    simpa [State.put] using hr
  · simpa [State.put, hj] using h j

theorem Kept.put {s : State ι α} (hi : Kept s) (i : ι) {r : Reader α} (hdated : Dated s r)
    (hr : s.raised = false → ¬ s.Due → r.Informed s.version) : Kept (s.put i r) :=
  ⟨put_readers (P := Dated s) hdated hi.dated, fun hlow hdue =>
    put_readers (P := fun r => r.Informed s.version) (hr hlow hdue) (hi.informed hlow hdue)⟩

theorem kept_step {s s' : State ι α} {e : Event ι α} (hi : Kept s) (hok : Attentive s e) (h : Step s e s') :
    Kept s' := by
  cases h with
  | join i hp =>
    refine hi.put i (fun n v h => by cases h) (fun hlow hdue => ?_)
    rcases hok with hok | hok
    · rw [hok] at hlow
      cases hlow
    · exact absurd hok hdue
  | leave i => exact hi.put i (fun n v h => by cases h) (fun _ _ => Or.inl rfl)
  | see i hp hraised => exact hi.put i (hi.dated i) (fun _ _ => Or.inr (Or.inl rfl))
  | take i hp =>
    refine hi.put i ?_ (fun _ _ => Or.inr (Or.inr ⟨_, rfl⟩))
    intro n v h
    cases h
    exact ⟨Nat.le_refl _, fun _ => rfl⟩
  | lower i hp =>
    refine ⟨put_readers (P := Dated s) (hi.dated i) hi.dated, ?_⟩
    intro _ hdue
    have hall : ∀ j, (s.readers j).Informed s.version := by
      rcases hok with hlow | hok | hok
      · exact hi.informed hlow hdue
      · exact absurd hok hdue
      · exact hok
    -- who has taken a value is informed by its copy
    have hself : ∃ v, (s.readers i).copy = some (s.version, v) := by
      rcases hall i with h | h | h
      · rw [hp] at h
        cases h
      · rw [hp] at h
        cases h
      · exact h
    exact put_readers (P := fun r => r.Informed s.version) (Or.inr (Or.inr hself)) hall
  | claim hw hr => exact ⟨hi.dated, fun hlow _ => hi.informed hlow (by simp [State.Due, hw])⟩
  | release hw => exact ⟨hi.dated, fun hlow _ => hi.informed hlow (by simp [State.Due, hw])⟩
  | commit hw => exact ⟨hi.dated, fun _ hdue => absurd (Or.inl rfl) hdue⟩
  | store value hw =>
    refine ⟨?_, fun _ hdue => absurd (Or.inr rfl) hdue⟩
    intro i n v h
    have hle := (hi.dated i n v h).1
    exact ⟨Nat.le_succ_of_le hle, fun hn => absurd hn (Nat.ne_of_lt (Nat.lt_succ_of_le hle))⟩
  | remind hw => exact ⟨hi.dated, fun _ hdue => absurd (Or.inr rfl) hdue⟩
  | announce hw => exact ⟨hi.dated, fun hlow => by cases hlow⟩

/-- Where every reader is waited for, a lowered flag means that all have the value. -/
theorem current_of_attentive {s : State ι α} (h : ((mailbox ι α).restrict Attentive).Reach s)
    (hr : s.raised = false) (hdue : ¬ s.Due) {i : ι} (habsent : (s.readers i).phase ≠ .absent)
    (htold : (s.readers i).phase ≠ .told) : (s.readers i).copy = some (s.version, s.value) := by
  have hk : Kept s := by
    refine System.Reach.inv (I := Kept) ?_ ?_ h
    · intro s h0
      obtain ⟨hw, -, hreaders⟩ := h0
      exact ⟨fun i n v h => by simp [hreaders i] at h, fun _ hdue => absurd (Or.inl hw) hdue⟩
    · intro s e s' hk hstep
      exact kept_step hk hstep.1 hstep.2
  rcases hk.informed hr hdue i with h | h | ⟨v, hv⟩
  · exact absurd h habsent
  · exact absurd h htold
  · rw [hv, (hk.dated i _ v hv).2 rfl]

/-! ## One reader -/

/-- With one reader, who lowers the flag has seen it raised, and the writer does not
    store before. -/
structure Alone (s : State ι α) : Prop where
  raised : ∀ i, (s.readers i).phase = .told ∨ (s.readers i).phase = .taken → s.raised = true
  waits : s.writer = .claimed ∨ s.writer = .committed → s.raised = false
  taken : ∀ i, (s.readers i).phase = .taken → (s.readers i).copy = some (s.version, s.value)
  current : s.raised = false → s.writer ≠ .bound → ∀ i n v, (s.readers i).copy = some (n, v) →
    n = s.version ∧ v = s.value

theorem put_alone [Subsingleton ι] (s : State ι α) (i j : ι) (r : Reader α) : (s.put i r).readers j = r := by
  rw [Subsingleton.elim j i]
  simp [State.put]

theorem Alone.restart [Subsingleton ι] {s : State ι α} (hi : Alone s) (i : ι) {p : Phase} (hp : p = .idle ∨ p = .absent) :
    Alone (s.put i ⟨p, none⟩) := by
  have hquiet : p ≠ .told ∧ p ≠ .taken := by rcases hp with rfl | rfl <;> decide
  refine ⟨?_, hi.waits, ?_, ?_⟩
  · intro j hj
    rw [put_alone] at hj
    simp [hquiet] at hj
  · intro j hj
    rw [put_alone] at hj
    exact absurd hj hquiet.2
  · intro _ _ j n v hj
    rw [put_alone] at hj
    cases hj

theorem alone_step [Subsingleton ι] {s s' : State ι α} {e : Event ι α} (hi : Alone s) (h : Step s e s') :
    Alone s' := by
  cases h with
  | join i hp => exact hi.restart i (Or.inl rfl)
  | leave i => exact hi.restart i (Or.inr rfl)
  | see i hp hraised =>
    refine ⟨fun _ _ => hraised, hi.waits, ?_, ?_⟩
    · intro j hj
      rw [put_alone] at hj
      cases hj
    · intro hr
      rw [put_raised, hraised] at hr
      cases hr
  | take i hp =>
    have hraised := hi.raised i (Or.inl hp)
    refine ⟨fun _ _ => hraised, hi.waits, fun j _ => by rw [put_alone]; rfl, fun hr => ?_⟩
    rw [put_raised, hraised] at hr
    cases hr
  | lower i hp =>
    have hcopy := hi.taken i hp
    refine ⟨?_, fun _ => rfl, ?_, ?_⟩
    · intro j hj
      obtain rfl := Subsingleton.elim i j
      simp at hj
    · intro j hj
      obtain rfl := Subsingleton.elim i j
      simp at hj
    · intro _ _ j n v hj
      obtain rfl := Subsingleton.elim i j
      rw [put_self, hcopy] at hj
      cases hj
      exact ⟨rfl, rfl⟩
  | claim hw hr => exact ⟨hi.raised, fun _ => hr, hi.taken, fun hr _ => hi.current hr (by simp [hw])⟩
  | release hw => exact ⟨hi.raised, fun h => by simp at h, hi.taken,
      fun hr _ => hi.current hr (by simp [hw])⟩
  | commit hw => exact ⟨hi.raised, fun _ => hi.waits (Or.inl hw), hi.taken, fun hr _ => hi.current hr (by simp [hw])⟩
  | store value hw =>
    have hlow := hi.waits (Or.inr hw)
    refine ⟨hi.raised, fun h => by simp at h, fun i hp => ?_, fun _ h => absurd rfl h⟩
    rw [hi.raised i (Or.inr hp)] at hlow
    cases hlow
  | remind hw => exact ⟨hi.raised, fun h => by simp at h, hi.taken, fun _ h => absurd rfl h⟩
  | announce hw => exact ⟨fun _ _ => rfl, fun h => by simp at h, hi.taken, fun hr => by cases hr⟩

theorem alone [Subsingleton ι] {s : State ι α} (h : (mailbox ι α).Reach s) : Alone s := by
  refine System.Reach.inv (I := Alone) ?_ ?_ h
  · intro s h0
    obtain ⟨hw, hr, hreaders⟩ := h0
    exact ⟨fun i hp => by simp [hreaders i] at hp, fun _ => hr, fun i hp => by simp [hreaders i] at hp,
      fun _ _ i n v hc => by simp [hreaders i] at hc⟩
  · intro s e s' hi hstep
    exact alone_step hi hstep

/-- A single reader that has taken a value has the present one when the flag is lowered
    and not to be raised, and when the writer is to store the next. -/
theorem current_of_subsingleton [Subsingleton ι] {s : State ι α} (h : (mailbox ι α).Reach s)
    (hs : s.writer = .committed ∨ s.raised = false ∧ s.writer ≠ .bound) {i : ι} {n : ℕ} {v : α}
    (hc : (s.readers i).copy = some (n, v)) : n = s.version ∧ v = s.value := by
  have ha := alone h
  rcases hs with hw | ⟨hr, hw⟩
  · exact ha.current (ha.waits (Or.inr hw)) (by simp [hw]) i n v hc
  · exact ha.current hr hw i n v hc

end Mailbox
