/-
  NvResourceController.Lib.Interference — commands among others that interfere: an
  assertion before every statement that the others cannot make false, and an auxiliary
  value that the statements are said to change.

  - `Annotated R A c Q`: from `A` the command `c` goes through assertions that hold, and
    stops in `Q`; each of its statements keeps to `R.guar`.
  - `Annotated.step`: one statement, and what is left is annotated again.
  - `Annotated.silent`: a command whose statements all keep an assertion has it
    everywhere.
  - `groups`: threads in groups. A group has a state and a lock of its own and all
    share a part of the state. `Manned.step`: where every section is annotated, so is
    what is left of each at any moment, whatever the groups do.
-/

import NvResourceController.Lib.Critical

namespace Command

variable {S T : Type}

namespace Cmd

/-- The statement the command goes on with, unless it is a test. -/
def head : Cmd S → Option (S → S → Prop)
  | act r => some r
  | seq c _ => c.head
  | scope c _ => c.head
  | _ => none

/-- Every statement of the command is one of these, and none before another is `break`. -/
def Each (p : (S → S → Prop) → Prop) : Cmd S → Prop
  | skip => True
  | brk => True
  | act r => p r
  | seq c d => c.exit = none ∧ c.Each p ∧ d.Each p
  | ite _ c d => c.Each p ∧ d.Each p
  | scope c body => c.exit = none ∧ body.exit = none ∧ c.Each p ∧ body.Each p

theorem Each.mono {p q : (S → S → Prop) → Prop} (h : ∀ r, p r → q r) {c : Cmd S} (hc : c.Each p) : c.Each q := by
  induction c with
  | skip => trivial
  | brk => trivial
  | act r => exact h r hc
  | seq c d ihc ihd => exact ⟨hc.1, ihc hc.2.1, ihd hc.2.2⟩
  | ite b c d ihc ihd => exact ⟨ihc hc.1, ihd hc.2⟩
  | scope c body ihc ihb => exact ⟨hc.1, hc.2.1, ihc hc.2.2.1, ihb hc.2.2.2⟩

end Cmd

theorem Part.zoom_each (P : Part S T) {p : (S → S → Prop) → Prop}
    (h : ∀ r : T → T → Prop, p fun s s' => ∃ t, r (P.get s) t ∧ s' = P.put s t) {c : Cmd T}
    (hc : c.Each fun _ => True) : (P.zoom c).Each p := by
  induction c with
  | skip => trivial
  | brk => trivial
  | act r => exact h r
  | seq c d ihc ihd => exact ⟨(P.zoom_exit c).trans hc.1, ihc hc.2.1, ihd hc.2.2⟩
  | ite b c d ihc ihd => exact ⟨ihc hc.1, ihd hc.2⟩
  | scope c body ihc ihb =>
    exact ⟨(P.zoom_exit c).trans hc.1, (P.zoom_exit body).trans hc.2.1, ihc hc.2.2.1, ihb hc.2.2.2⟩

end Command

namespace Interference

open Command Cmd

variable {S M : Type}

/-- `inv` holds while statements are left; `rely` is what may happen between two of
    them, `guar` what each may do, to the state and to the auxiliary value. -/
structure Rules (S M : Type) where
  inv : S → Prop
  rely : S × M → S × M → Prop
  guar : (S → S → Prop) → S × M → S × M → Prop

def Rules.Stable (R : Rules S M) (A : S × M → Prop) : Prop := ∀ p q, A p → R.rely p q → A q

/-- The statement leads from `A` to `B`, and keeps to what it may do. -/
def Rules.Turns (R : Rules S M) (A : S × M → Prop) (r : S → S → Prop) (B : S × M → Prop) : Prop :=
  ∀ p, A p → R.inv p.1 ∧ ∀ s', r p.1 s' → ∃ m', R.guar r p (s', m') ∧ B (s', m')

inductive Annotated (R : Rules S M) : (S × M → Prop) → Cmd S → (Exit → S × M → Prop) → Prop
  | skip {A : S × M → Prop} {Q : Exit → S × M → Prop} : R.Stable A → (∀ p, A p → Q .fell p) → Annotated R A .skip Q
  | brk {A : S × M → Prop} {Q : Exit → S × M → Prop} : R.Stable A → (∀ p, A p → Q .broke p) → Annotated R A .brk Q
  | act {r : S → S → Prop} {A B : S × M → Prop} {Q : Exit → S × M → Prop} : R.Stable A → R.Stable B →
      R.Turns A r B → (∀ p, B p → Q .fell p) → Annotated R A (.act r) Q
  | seq {c d : Cmd S} {A B : S × M → Prop} {Q : Exit → S × M → Prop} : c.exit = none →
      Annotated R A c (Then B (Q .broke)) → Annotated R B d Q → Annotated R A (.seq c d) Q
  | ite {b : S → Option Bool} {c d : Cmd S} {A B C : S × M → Prop} {Q : Exit → S × M → Prop} : R.Stable A →
      (∀ p, A p → R.inv p.1 ∧ (b p.1 = some true → B p) ∧ (b p.1 = some false → C p)) →
      Annotated R B c Q → Annotated R C d Q → Annotated R A (.ite b c d) Q
  | scope {c body : Cmd S} {A B : S × M → Prop} {Q : Exit → S × M → Prop} : c.exit = none → body.exit = none →
      Annotated R A c (Then B (Q .fell)) → Annotated R B body (Then B (Q .fell)) → Annotated R A (.scope c body) Q

namespace Annotated

variable {R : Rules S M} {A B : S × M → Prop} {Q Q' : Exit → S × M → Prop} {c c' d body : Cmd S} {s s' : S} {m : M}

theorem stable (h : Annotated R A c Q) : R.Stable A := by
  induction h with
  | skip hs _ => exact hs
  | brk hs _ => exact hs
  | act hs _ _ _ => exact hs
  | seq _ _ _ ih _ => exact ih
  | ite hs _ _ _ _ _ => exact hs
  | scope _ _ _ _ ih _ => exact ih

theorem inv (h : Annotated R A c Q) (hc : c.exit = none) (ha : A (s, m)) : R.inv s := by
  induction h with
  | skip => cases hc
  | brk => cases hc
  | act _ _ hr _ => exact (hr _ ha).1
  | seq hrun _ _ ih _ => exact ih hrun ha
  | ite _ hb _ _ _ _ => exact (hb _ ha).1
  | scope hrun _ _ _ ih _ => exact ih hrun ha

theorem stopped {e : Exit} (h : Annotated R A c Q) (he : c.exit = some e) (ha : A (s, m)) : Q e (s, m) := by
  cases h with
  | skip _ hq =>
    cases he
    exact hq _ ha
  | brk _ hq =>
    cases he
    exact hq _ ha
  | act => cases he
  | seq => cases he
  | ite => cases he
  | scope => cases he

/-! ## The rule of consequence -/

theorem post (h : Annotated R A c Q) (hq : ∀ e p, Q e p → Q' e p) : Annotated R A c Q' := by
  induction h generalizing Q' with
  | skip hs ha => exact .skip hs fun p hp => hq _ _ (ha p hp)
  | brk hs ha => exact .brk hs fun p hp => hq _ _ (ha p hp)
  | act hs hb hr hqb => exact .act hs hb hr fun p hp => hq _ _ (hqb p hp)
  | seq hrun _ _ ihc ihd =>
    refine .seq hrun (ihc fun e p hp => ?_) (ihd hq)
    cases e with
    | fell => exact hp
    | broke => exact hq _ _ hp
  | ite hs hb _ _ ihc ihd => exact .ite hs hb (ihc hq) (ihd hq)
  | scope hrun hbody _ _ ihc ihb =>
    refine .scope hrun hbody (ihc fun e p hp => ?_) (ihb fun e p hp => ?_)
    · cases e with
      | fell => exact hp
      | broke => exact hq _ _ hp
    · cases e with
      | fell => exact hp
      | broke => exact hq _ _ hp

theorem pre (h : Annotated R B c Q) (hs : R.Stable A) (hab : ∀ p, A p → B p) : Annotated R A c Q := by
  induction h with
  | skip _ ha => exact .skip hs fun p hp => ha p (hab p hp)
  | brk _ ha => exact .brk hs fun p hp => ha p (hab p hp)
  | act _ hb hr hqb => exact .act hs hb (fun p hp => hr p (hab p hp)) hqb
  | seq hrun _ hd ih _ => exact .seq hrun (ih hab) hd
  | ite _ hb hc hd _ _ => exact .ite hs (fun p hp => hb p (hab p hp)) hc hd
  | scope hrun hbody _ hb ih _ => exact .scope hrun hbody (ih hab) hb

theorem next (h : Annotated R A c (Then B (Q .broke))) (hd : Annotated R B d Q) (ha : A (s, m)) :
    ∃ C, Annotated R C (c.next d) Q ∧ C (s, m) := by
  cases hc : c.exit with
  | none =>
    rw [next_running hc]
    exact ⟨A, .seq hc h hd, ha⟩
  | some e =>
    have hq := h.stopped hc ha
    cases e with
    | fell =>
      rw [exit_fell hc]
      exact ⟨B, hd, hq⟩
    | broke =>
      rw [exit_broke hc] at h ⊢
      exact ⟨A, .brk h.stable fun p hp => h.stopped rfl hp, ha⟩

theorem again (h : Annotated R A c (Then B (Q .fell))) (hbody : body.exit = none)
    (hb : Annotated R B body (Then B (Q .fell))) (ha : A (s, m)) :
    ∃ C, Annotated R C (c.again body) Q ∧ C (s, m) := by
  cases hc : c.exit with
  | none =>
    rw [again_running hc]
    exact ⟨A, .scope hc hbody h hb, ha⟩
  | some e =>
    have hq := h.stopped hc ha
    cases e with
    | fell =>
      rw [exit_fell hc]
      exact ⟨B, .scope hbody hbody hb hb, hq⟩
    | broke =>
      rw [exit_broke hc] at h ⊢
      exact ⟨A, .skip h.stable fun p hp => h.stopped rfl hp, ha⟩

/-- One statement: it is a test, or the command's head and keeps to `R.guar`; what is
    left is annotated from where it leaves. -/
theorem step (h : Annotated R A c Q) (ha : A (s, m)) (hstep : Step c s c' s') :
    ∃ m' C, Annotated R C c' Q ∧ C (s', m') ∧
      ((c.head = none ∧ s' = s ∧ m' = m) ∨ ∃ r, c.head = some r ∧ R.guar r (s, m) (s', m')) := by
  induction hstep generalizing A Q with
  | act hr =>
    cases h with
    | act _ hb hall hq =>
      obtain ⟨m', hg, hbm⟩ := (hall _ ha).2 _ hr
      exact ⟨m', _, .skip hb hq, hbm, .inr ⟨_, rfl, hg⟩⟩
  | @ite b c d s v hv =>
    cases h with
    | ite _ hb hc hd =>
      obtain ⟨-, htrue, hfalse⟩ := hb _ ha
      cases v with
      | true => exact ⟨m, _, hc, htrue hv, .inl ⟨rfl, rfl, rfl⟩⟩
      | false => exact ⟨m, _, hd, hfalse hv, .inl ⟨rfl, rfl, rfl⟩⟩
  | seq _ ih =>
    cases h with
    | seq _ hc hd =>
      obtain ⟨m', C, hleft, hcm, hmove⟩ := ih hc ha
      obtain ⟨D, hnext, hdm⟩ := hleft.next hd hcm
      exact ⟨m', D, hnext, hdm, hmove⟩
  | scope _ ih =>
    cases h with
    | scope _ hbody hc hb =>
      obtain ⟨m', C, hleft, hcm, hmove⟩ := ih hc ha
      obtain ⟨D, hagain, hdm⟩ := hleft.again hbody hb hcm
      exact ⟨m', D, hagain, hdm, hmove⟩

theorem act_seq {r : S → S → Prop} (hs : R.Stable A) (hr : R.Turns A r B) (h : Annotated R B d Q) :
    Annotated R A (.seq (.act r) d) Q := .seq rfl (.act hs h.stable hr fun _ hp => hp) h

theorem silent (hs : R.Stable A) (hi : ∀ p, A p → R.inv p.1)
    (hc : c.Each fun r => ∀ p s', A p → r p.1 s' → R.guar r p (s', p.2) ∧ A (s', p.2)) :
    Annotated R A c fun _ => A := by
  induction c with
  | skip => exact .skip hs fun _ hp => hp
  | brk => exact .brk hs fun _ hp => hp
  | act r => exact .act hs hs (fun p hp => ⟨hi p hp, fun s' hr => ⟨p.2, hc p s' hp hr⟩⟩) fun _ hp => hp
  | seq c d ihc ihd =>
    refine .seq hc.1 ((ihc hc.2.1).post fun e p hp => ?_) (ihd hc.2.2)
    cases e <;> exact hp
  | ite b c d ihc ihd => exact .ite hs (fun p hp => ⟨hi p hp, fun _ => hp, fun _ => hp⟩) (ihc hc.1) (ihd hc.2)
  | scope c body ihc ihb =>
    refine .scope hc.1 hc.2.1 ((ihc hc.2.2.1).post fun e p hp => ?_) ((ihb hc.2.2.2).post fun e p hp => ?_)
    · cases e <;> exact hp
    · cases e <;> exact hp

end Annotated

/-! ## Threads in groups -/

section
open Critical

variable {ι π σ γ l ν : Type}

/-- What all groups share, what each has for itself, and the threads. What a group has in
    the place of the shared part is of no account. -/
structure Groups (ι π γ σ l ν : Type) where
  shared : γ
  own : π → σ
  thread : ι → Local σ l ν

def Groups.view (s : Groups ι π γ σ l ν) (V : Part σ γ) (p : π) : σ := V.put (s.own p) s.shared

def Groups.head (s : Groups ι π γ σ l ν) (t : ι) : Option (σ × l → σ × l → Prop) :=
  match s.thread t with
  | .out _ => none
  | .inside _ c _ => c.head

/-- Then a step of `t` that leaves its group in `σ'` and itself in `k`. -/
def moved [DecidableEq ι] [DecidableEq π] (group : ι → π) (s : Groups ι π γ σ l ν) (V : Part σ γ) (t : ι) (σ' : σ)
    (k : Local σ l ν) : Groups ι π γ σ l ν :=
  ⟨V.get σ', Function.update s.own (group t) σ', Function.update s.thread t k⟩

/-- The threads of the groups, a statement a step; `group` says whose each is. -/
def groups [DecidableEq ι] [DecidableEq π] (V : Part σ γ) (group : ι → π) (P : Code σ l ν)
    (init : γ → (π → σ) → Prop) (n0 : ν) : System (Groups ι π γ σ l ν) ι where
  init s := init s.shared s.own ∧ s.thread = fun _ => .out n0
  step s t s' := ∃ σ' k, P.Step (s.view V (group t)) (s.thread t) σ' k ∧ s' = moved group s V t σ' k

/-- Steps of one thread, one or more, with no one else. -/
inductive Solo (P : Code σ l ν) : σ → Local σ l ν → σ → Local σ l ν → Prop
  | one {s s' : σ} {k k' : Local σ l ν} : P.Step s k s' k' → Solo P s k s' k'
  | snoc {s s' s'' : σ} {k k' k'' : Local σ l ν} : Solo P s k s' k' → P.Step s' k' s'' k'' → Solo P s k s'' k''

section
variable [DecidableEq ι] [DecidableEq π] {V : Part σ γ} {P : Code σ l ν} {group : ι → π} {s : Groups ι π γ σ l ν}
  {t : ι} {σ' : σ} {k : Local σ l ν}

theorem moved_view : (moved group s V t σ' k).view V (group t) = σ' := by
  simp [moved, Groups.view, V.put_get]

theorem moved_moved {σ'' : σ} {k' : Local σ l ν} :
    moved group (moved group s V t σ' k) V t σ'' k' = moved group s V t σ'' k' := by
  simp [moved]

/-- What a thread does alone it can do in its group, where its steps are allowed while
    the others stay where they are. -/
theorem reach_alone {init : γ → (π → σ) → Prop} {n0 : ν} {ok : Groups ι π γ σ l ν → ι → Prop}
    (hok : ∀ s', (∀ u, u ≠ t → s'.thread u = s.thread u) → ok s' t)
    (hr : ((groups V group P init n0).restrict ok).Reach s) (h : Solo P (s.view V (group t)) (s.thread t) σ' k) :
    ((groups V group P init n0).restrict ok).Reach (moved group s V t σ' k) := by
  generalize hp : s.view V (group t) = a at h
  generalize hq : s.thread t = k0 at h
  induction h with
  | one hs =>
    subst hp hq
    exact hr.step (e := t) ⟨hok s fun _ _ => rfl, _, _, hs, rfl⟩
  | @snoc b c k0 k1 k2 _ hs ih =>
    have hmoved := (ih hq).step (e := t) ⟨hok _ fun u hu => Function.update_of_ne hu _ _, c, k2, ?_, rfl⟩
    · rwa [moved_moved] at hmoved
    · rw [moved_view, show (moved group s V t b k1).thread t = k1 from Function.update_self ..]
      exact hs

end

/-- What is to be shown of the sections. A section starts with the auxiliary value
    `fresh` and ends with one at rest; another group's step that changes the shared part
    changes it by `disturb`. -/
structure Discipline (V : Part σ γ) (P : Code σ l ν) (M : Type) where
  guar : (σ × l → σ × l → Prop) → (σ × l) × M → (σ × l) × M → Prop
  disturb : M → γ → γ → M
  fresh : M
  rest : M → Prop

namespace Discipline

variable {V : Part σ γ} {P : Code σ l ν} (D : Discipline V P M)

def rules : Rules (σ × l) M :=
  ⟨fun s => P.held s.1 = true, fun p q => ∃ g, q = ((V.put p.1.1 g, p.1.2), D.disturb p.2 (V.get p.1.1) g), D.guar⟩

def ends : Exit → (σ × l) × M → Prop := fun _ p => D.rest p.2

/-- Every section is annotated, and others can neither end a rest nor free the lock. -/
structure Sound : Prop where
  sections : ∀ {n c x s}, P.enter n = some (c, x) → P.held s = false →
    c.exit = none ∧ ∃ A, Annotated D.rules A c D.ends ∧ A ((P.acquire s, x), D.fresh)
  rests : ∀ {m} g g', D.rest m → D.rest (D.disturb m g g')
  held : ∀ s g, P.held (V.put s g) = P.held s

/-- The thread is inside, what is left of its section annotated from where it is. -/
def Working (s : σ) (m : M) : Local σ l ν → Prop
  | .out _ => False
  | .inside _ c x => c.exit = none ∧ ∃ A, Annotated D.rules A c D.ends ∧ A ((s, x), m)

/-- Nobody of the group is inside and its auxiliary value is at rest, or one is. -/
def Manned (group : ι → π) (s : Groups ι π γ σ l ν) (m : π → M) (p : π) : Prop :=
  (D.rest (m p) ∧ ∀ t, group t = p → ¬ (s.thread t).running) ∨
    ∃ t, group t = p ∧ D.Working (s.view V p) (m p) (s.thread t) ∧
      ∀ u, group u = p → u ≠ t → ¬ (s.thread u).running

/-- What a step does to its group's view and auxiliary value. -/
inductive Moves (group : ι → π) (s : Groups ι π γ σ l ν) (m : π → M) (t : ι) (s' : Groups ι π γ σ l ν) (m' : π → M) :
    Prop
  | quiet : s.head t = none → ((s'.thread t).running → (s.thread t).running) →
      s'.view V (group t) = s.view V (group t) → m' (group t) = m (group t) → Moves group s m t s' m'
  | enter {n : ν} : s.thread t = .out n → (P.enter n).isSome → (∀ u, group u = group t → ¬ (s.thread u).running) →
      s'.view V (group t) = P.acquire (s.view V (group t)) → D.rest (m (group t)) → m' (group t) = D.fresh →
      Moves group s m t s' m'
  | statement {r : σ × l → σ × l → Prop} {x x' : l} {n : ν} {c c' : Cmd (σ × l)} : s.head t = some r →
      (s.thread t).running → s.thread t = .inside n c x → s'.thread t = .inside n c' x' →
      D.guar r ((s.view V (group t), x), m (group t)) ((s'.view V (group t), x'), m' (group t)) →
      Moves group s m t s' m'

variable {D} {group : ι → π} {s : Groups ι π γ σ l ν} {m : π → M} {p : π} {t u : ι} {σ' : σ} {k : Local σ l ν} {v : M}

theorem Working.running {x : M} {a : σ} {k : Local σ l ν} (h : D.Working a x k) : k.running := by
  cases k with
  | out n => exact h
  | inside n c x => exact h.1

theorem Working.held {x : M} {a : σ} {k : Local σ l ν} (h : D.Working a x k) : P.held a = true := by
  cases k with
  | out n => exact h.elim
  | inside n c y =>
    obtain ⟨hc, A, hA, ha⟩ := h
    exact hA.inv hc ha

theorem Manned.working (h : D.Manned group s m (group t)) (ht : (s.thread t).running) :
    D.Working (s.view V (group t)) (m (group t)) (s.thread t) ∧
      ∀ u, group u = group t → u ≠ t → ¬ (s.thread u).running := by
  rcases h with ⟨-, hno⟩ | ⟨u, hu, hw, hno⟩
  · exact absurd ht (hno t rfl)
  · have hut : u = t := by_contra fun e => hno t rfl (Ne.symm e) ht
    subst hut
    exact ⟨hw, hno⟩

theorem Manned.free (h : D.Manned group s m p) (hs : P.held (s.view V p) = false) :
    D.rest (m p) ∧ ∀ t, group t = p → ¬ (s.thread t).running := by
  rcases h with h | ⟨t, -, hw, -⟩
  · exact h
  · rw [hw.held] at hs
    cases hs

section
variable [DecidableEq ι] [DecidableEq π]

/-- The auxiliary values after it. -/
def tell (D : Discipline V P M) (group : ι → π) (s : Groups ι π γ σ l ν) (m : π → M) (t : ι) (σ' : σ) (v : M)
    (p : π) : M :=
  if p = group t then v else D.disturb (m p) s.shared (V.get σ')

theorem Manned.other (h : D.Manned group s m p) (hD : D.Sound) (hp : p ≠ group t) :
    D.Manned group (moved group s V t σ' k) (tell D group s m t σ' v) p := by
  have hthread : ∀ u, group u = p → (moved group s V t σ' k).thread u = s.thread u := by
    intro u hu
    exact Function.update_of_ne (fun e => hp (by rw [← hu, e])) _ _
  have htell : tell D group s m t σ' v p = D.disturb (m p) s.shared (V.get σ') := if_neg hp
  have hview : (moved group s V t σ' k).view V p = V.put (s.view V p) (V.get σ') := by
    simp [moved, Groups.view, Function.update_of_ne hp, V.put_put]
  rcases h with ⟨hr, hno⟩ | ⟨u, hu, hw, hno⟩
  · refine .inl ⟨htell ▸ hD.rests _ _ hr, fun u hu => ?_⟩
    rw [hthread u hu]
    exact hno u hu
  · refine .inr ⟨u, hu, ?_, fun w hw' hne => ?_⟩
    · rw [hthread u hu, hview, htell]
      cases hk : s.thread u with
      | out n =>
        rw [hk] at hw
        exact hw
      | inside n c x =>
        rw [hk] at hw
        obtain ⟨hc, A, hA, ha⟩ := hw
        refine ⟨hc, A, hA, hA.stable _ _ ha ⟨V.get σ', ?_⟩⟩
        rw [show V.get (s.view V p) = s.shared from V.get_put _ _]
    · rw [hthread w hw']
      exact hno w hw' hne

theorem running_moved (hu : u ≠ t) : ((moved group s V t σ' k).thread u).running ↔ (s.thread u).running := by
  rw [show (moved group s V t σ' k).thread u = s.thread u from Function.update_of_ne hu _ _]

theorem Manned.idle (h : D.Manned group s m (group t)) (ht : ¬ (s.thread t).running) (hk : ¬ k.running) :
    D.Manned group (moved group s V t (s.view V (group t)) k) (tell D group s m t (s.view V (group t)) (m (group t)))
      (group t) := by
  have hself : (moved group s V t (s.view V (group t)) k).thread t = k := Function.update_self ..
  rcases h with ⟨hr, hno⟩ | ⟨u, hu, hw, hno⟩
  · refine .inl ⟨by simpa [tell] using hr, fun u hu => ?_⟩
    by_cases hut : u = t
    · subst hut
      rwa [hself]
    · rw [running_moved hut]
      exact hno u hu
  · have hut : u ≠ t := fun e => ht (e ▸ hw.running)
    refine .inr ⟨u, hu, ?_, fun w hw' hne => ?_⟩
    · have htold : tell D group s m t (s.view V (group t)) (m (group t)) (group t) = m (group t) := if_pos rfl
      rw [moved_view, htold, show (moved group s V t (s.view V (group t)) k).thread u = s.thread u from
        Function.update_of_ne hut _ _]
      exact hw
    · by_cases hwt : w = t
      · subst hwt
        rwa [hself]
      · rw [running_moved hwt]
        exact hno w hw' hne

theorem all_manned (h : ∀ p, D.Manned group s m p) (hD : D.Sound)
    (ht : D.Manned group (moved group s V t σ' k) (tell D group s m t σ' v) (group t)) (p : π) :
    D.Manned group (moved group s V t σ' k) (tell D group s m t σ' v) p := by
  by_cases hp : p = group t
  · rw [hp]
    exact ht
  · exact (h p).other hD hp

/-- Whatever the groups do, each stays manned; a step tells its own group's auxiliary
    value by the rules and disturbs the others'. -/
theorem Sound.step (hD : D.Sound) {init : γ → (π → σ) → Prop} {n0 : ν} {s' : Groups ι π γ σ l ν}
    (h : ∀ p, D.Manned group s m p) (hstep : (groups V group P init n0).step s t s') :
    ∃ m', (∀ p, D.Manned group s' m' p) ∧ (∀ p, p ≠ group t → m' p = D.disturb (m p) s.shared s'.shared) ∧
      D.Moves group s m t s' m' := by
  obtain ⟨σ', k, hstep, rfl⟩ := hstep
  have hother : ∀ v p, p ≠ group t → tell D group s m t σ' v p = D.disturb (m p) s.shared (V.get σ') :=
    fun v p hp => if_neg hp
  have htold : ∀ v, tell D group s m t σ' v (group t) = v := fun v => if_pos rfl
  have hself : (moved group s V t σ' k).thread t = k := Function.update_self ..
  generalize hk0 : s.thread t = k0 at hstep
  cases hstep with
  | outside hout =>
    refine ⟨_, all_manned h hD ((h _).idle (by rw [hk0]; exact id) id), hother _, .quiet ?_ ?_ moved_view (htold _)⟩
    · simp [Groups.head, hk0]
    · rw [hself]
      exact False.elim
  | @enter n c x henter hheld =>
    obtain ⟨hrest, hno⟩ := (h _).free hheld
    obtain ⟨hc, A, hA, ha⟩ := hD.sections henter hheld
    refine ⟨_, all_manned (v := D.fresh) h hD (.inr ⟨t, rfl, ?_, fun u hu hne => ?_⟩), hother _,
      .enter hk0 (by rw [henter]; rfl) hno moved_view hrest (htold _)⟩
    · rw [moved_view, htold, hself]
      exact ⟨hc, A, hA, ha⟩
    · rw [running_moved hne]
      exact hno u hu
  | @inside _ n c c' x x' hc =>
    have hrun : c.exit = none := by
      cases hc <;> rfl
    obtain ⟨⟨-, A, hA, ha⟩, hno⟩ := hk0 ▸ (h (group t)).working (by rw [hk0]; exact hrun)
    obtain ⟨v, B, hB, hb, hmove⟩ := hA.step ha hc
    refine ⟨tell D group s m t σ' v, all_manned h hD ?_, hother v, ?_⟩
    · cases he : c'.exit with
      | none =>
        refine .inr ⟨t, rfl, ?_, fun u hu hne => ?_⟩
        · rw [moved_view, htold, hself]
          exact ⟨he, B, hB, hb⟩
        · rw [running_moved hne]
          exact hno u hu hne
      | some e =>
        refine .inl ⟨?_, fun u hu => ?_⟩
        · rw [htold]
          exact hB.stopped he hb
        · by_cases hut : u = t
          · subst hut
            rw [hself]
            simp [Local.running, he]
          · rw [running_moved hut]
            exact hno u hu hut
    · rcases hmove with ⟨hhead, hsame, hm⟩ | ⟨r, hhead, hguar⟩
      · refine .quiet (by simpa [Groups.head, hk0] using hhead) (fun _ => ?_) ?_ ((htold _).trans hm)
        · rw [hk0]
          exact hrun
        · exact moved_view.trans (congrArg Prod.fst hsame)
      · refine .statement (by simpa [Groups.head, hk0] using hhead) (by rw [hk0]; exact hrun) hk0 hself ?_
        show D.guar r _ ((_, x'), tell D group s m t σ' v (group t))
        rw [htold, moved_view]
        exact hguar
  | @leave n c x e he =>
    have hnot : ¬ (s.thread t).running := by
      rw [hk0]
      simp [Local.running, he]
    refine ⟨_, all_manned h hD ((h _).idle hnot id), hother _, .quiet ?_ ?_ moved_view (htold _)⟩
    · cases c <;> simp_all [Groups.head, Cmd.head, Cmd.exit]
    · rw [hself]
      exact False.elim

end

end Discipline

end

end Interference
