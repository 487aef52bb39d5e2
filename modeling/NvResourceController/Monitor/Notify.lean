/-
  NvResourceController.Monitor.Notify — how the budget reaches the processes: `changed` is
  one flag for all of them. The monitor raises it (`init_attr`, `delta_change`), each
  `token_post` that sees it copies the budget and lowers it, and `delta_change` waits
  until it is lowered.

  The segment is there and cleared before anybody attaches. The container is then a
  mailbox (`mailbox_step`), with the budget for its value.

  - `budget_agrees`: in runs in which a process lowers the flag only when every other has
    the budget or is taking it, and starts its thread only when the flag is up or is to
    be raised, a lowered flag means that all have the budget and the interval.
  - `budget_differs`: of two processes that see the flag, the first lowers it before the
    second looks.
  - `one_process_agrees`: a single process that has copied once has the budget whenever
    the flag is lowered, and whenever `delta_change` stores the next, however often the
    monitor is restarted.
-/

import NvResourceController.Lib.Mailbox
import NvResourceController.Monitor.Container

namespace NvResourceController.Monitor

open Limiter

variable {ι F : Type}

/-! ## The monitor -/

/-- `init_attr` has set the attribute up, but for the announcement. -/
structure Ready (attr : TokenAttr) (stores : ℕ) : Prop where
  stored : 0 < stores
  inited : attr.inited ≠ 0
  waitTime : attr.waitTime = ⟨0, 100000000⟩
  addPerCycle : 1 ≤ attr.params.addPerCycle.toInt

/-- `init_attr` has stored the first budget, for the limit. -/
structure Draft (limit : Int32) (attr : TokenAttr) (stores : ℕ) : Prop where
  stored : 0 < stores
  inited : attr.inited = 0
  coreLimit : attr.params.coreLimit = limit
  addPerCycle : 1 ≤ attr.params.addPerCycle.toInt

/-- How far the attribute is when the monitor is at a step of `init_attr`. -/
def InitStage (limit : Int32) (attr : TokenAttr) (stores : ℕ) : InitPc → Prop
  | .testInited => (stores = 0 ∧ attr.inited = 0) ∨ Ready attr stores ∧ 0 < limit.toInt
  | .coreLimit => stores = 0 ∧ attr.inited = 0
  | .modTimes | .addPerCycle => stores = 0 ∧ attr.inited = 0 ∧ attr.params.coreLimit = limit
  | .avg0 | .avg1 | .launchIdx | .waitSec => Draft limit attr stores
  | .waitNsec => Draft limit attr stores ∧ attr.waitTime.tvSec = 0
  | .inited => Draft limit attr stores ∧ attr.waitTime = ⟨0, 100000000⟩
  | .post => Ready attr stores ∧ attr.params.coreLimit = limit
  | .testLimit => Ready attr stores ∧ (attr.params.coreLimit = limit ∨ 0 < limit.toInt)
  | .newLimit => Ready attr stores ∧ 0 < limit.toInt
  | .newModTimes | .scale => Ready attr stores ∧ 0 < limit.toInt ∧ attr.params.coreLimit = limit
  | .storeScaled newCycle => Ready attr stores ∧ newCycle = attr.params.addPerCycle
  | .changed => Ready attr stores

/-- And at a step of `delta_change`. -/
def DeltaStage (attr : TokenAttr) : DeltaPc → Prop
  | .count _ _ oldCycle => oldCycle = attr.params.addPerCycle
  | .store newCycle => 1 ≤ newCycle.toInt
  | _ => True

def Stage (limit : Int32) (attr : TokenAttr) (stores : ℕ) : Server → Prop
  | .attach => stores = 0 ∧ attr.inited = 0
  | .zero => False
  | .init pc => InitStage limit attr stores pc
  | .idle => Ready attr stores
  | .delta _ pc => Ready attr stores ∧ DeltaStage attr pc

theorem Ready.same {attr attr' : TokenAttr} {stores : ℕ} (h : Ready attr stores) (hs : SameBudget attr attr') :
    Ready attr' stores :=
  ⟨h.stored, by rw [hs.inited]; exact h.inited, by rw [hs.waitTime]; exact h.waitTime, by
    rw [hs.addPerCycle]; exact h.addPerCycle⟩

theorem initStep_stage {limit : Int32} {attr : TokenAttr} {stores : ℕ} {pc : InitPc}
    (h : InitStage limit attr stores pc) :
    Stage limit (initStep limit attr pc).1 (stores + pc.stores) (initStep limit attr pc).2 := by
  cases pc with
  | testInited =>
    rcases h with ⟨hstores, hinited⟩ | ⟨hready, hlimit⟩
    · simp only [initStep, hinited, if_true]
      exact ⟨hstores, hinited⟩
    · simp only [initStep, hready.inited, if_false]
      exact ⟨hready, Or.inr hlimit⟩
  | coreLimit => exact ⟨h.1, h.2, rfl⟩
  | modTimes => exact h
  | addPerCycle => exact ⟨Nat.succ_pos _, h.2.1, h.2.2, (by decide : (1 : ℤ) ≤ (1 : Int32).toInt)⟩
  | avg0 => exact ⟨h.stored, h.inited, h.coreLimit, h.addPerCycle⟩
  | avg1 => exact ⟨h.stored, h.inited, h.coreLimit, h.addPerCycle⟩
  | launchIdx => exact ⟨h.stored, h.inited, h.coreLimit, h.addPerCycle⟩
  | waitSec => exact ⟨⟨h.stored, h.inited, h.coreLimit, h.addPerCycle⟩, rfl⟩
  | waitNsec =>
    obtain ⟨hdraft, hsec⟩ := h
    refine ⟨⟨hdraft.stored, hdraft.inited, hdraft.coreLimit, hdraft.addPerCycle⟩, ?_⟩
    simp only [initStep, hsec]
    decide
  | inited =>
    obtain ⟨hdraft, hwait⟩ := h
    exact ⟨⟨hdraft.stored, (by decide : (1 : Int32) ≠ 0), hwait, hdraft.addPerCycle⟩, hdraft.coreLimit⟩
  | post => exact ⟨⟨h.1.stored, h.1.inited, h.1.waitTime, h.1.addPerCycle⟩, Or.inl h.2⟩
  | testLimit =>
    obtain ⟨hready, hlimit⟩ := h
    by_cases heq : attr.params.coreLimit = limit
    · simp only [initStep, heq, ne_eq, not_true_eq_false, if_false]
      exact hready
    · simp only [initStep, heq, ne_eq, not_false_eq_true, if_true]
      exact ⟨hready, hlimit.resolve_left heq⟩
  | newLimit => exact ⟨⟨h.1.stored, h.1.inited, h.1.waitTime, h.1.addPerCycle⟩, h.2, rfl⟩
  | newModTimes => exact ⟨⟨h.1.stored, h.1.inited, h.1.waitTime, h.1.addPerCycle⟩, h.2⟩
  | scale =>
    obtain ⟨hready, hlimit, heq⟩ := h
    refine ⟨hready, ?_⟩
    rw [heq]
    exact scaled_same hready.addPerCycle hlimit
  | storeScaled newCycle =>
    obtain ⟨hready, heq⟩ := h
    exact hready.same ⟨rfl, rfl, heq, rfl⟩
  | changed => exact ⟨h.stored, h.inited, h.waitTime, h.addPerCycle⟩

theorem deltaStep_stage {limit util : Int32} {attr : TokenAttr} {stores : ℕ} {pc : DeltaPc} (h : Ready attr stores)
    (hpc : DeltaStage attr pc) :
    Stage limit (deltaStep limit util attr pc).1 (stores + pc.stores) (deltaStep limit util attr pc).2 := by
  cases pc with
  | changed =>
    by_cases hraised : attr.changed = 0
    · simp only [deltaStep, hraised, ne_eq, not_true_eq_false, if_false]
      exact ⟨h, trivial⟩
    · simp only [deltaStep, hraised, ne_eq, not_false_eq_true, if_true]
      exact h
  | idx => exact ⟨h, trivial⟩
  | cur idx => exact ⟨h, trivial⟩
  | last idx cur => exact ⟨h, trivial⟩
  | old cur last => exact ⟨h, rfl⟩
  | count cur last old =>
    have hold : old = attr.params.addPerCycle := hpc
    have hready : Ready (deltaStep limit util attr (.count cur last old)).1 stores :=
      h.same ⟨rfl, rfl, rfl, rfl⟩
    simp only [deltaStep]
    split_ifs with hwarm hlow
    · exact ⟨hready, one_le_raised (by rw [hold]; exact h.addPerCycle) hlow⟩
    · exact hready
    · exact ⟨hready, one_le_stored _ _ _ _ _⟩
    · exact hready
  | store newCycle => exact ⟨⟨Nat.succ_pos _, h.inited, h.waitTime, hpc⟩, trivial⟩
  | announce => exact ⟨h.stored, h.inited, h.waitTime, h.addPerCycle⟩

theorem Stage.ready {limit : Int32} {attr : TokenAttr} {stores : ℕ} {server : Server}
    (h : Stage limit attr stores server) (hinited : attr.inited ≠ 0) : Ready attr stores := by
  cases server with
  | attach => exact absurd h.2 hinited
  | zero => exact absurd h id
  | idle => exact h
  | delta util pc => exact h.1
  | init pc =>
    cases pc with
    | testInited => exact (h.resolve_left fun hblank => hinited hblank.2).1
    | coreLimit => exact absurd h.2 hinited
    | modTimes => exact absurd h.2.1 hinited
    | addPerCycle => exact absurd h.2.1 hinited
    | avg0 => exact absurd h.inited hinited
    | avg1 => exact absurd h.inited hinited
    | launchIdx => exact absurd h.inited hinited
    | waitSec => exact absurd h.inited hinited
    | waitNsec => exact absurd h.1.inited hinited
    | inited => exact absurd h.1.inited hinited
    | post => exact h.1
    | testLimit => exact h.1
    | newLimit => exact h.1
    | newModTimes => exact h.1
    | scale => exact h.1
    | storeScaled newCycle => exact h.1
    | changed => exact h

theorem Stage.same {limit : Int32} {attr attr' : TokenAttr} {stores : ℕ} {server : Server}
    (h : Stage limit attr stores server) (hs : SameBudget attr attr') : Stage limit attr' stores server := by
  have hblank : attr.inited = 0 → attr'.inited = 0 := fun h => by rw [hs.inited, h]
  have hready : Ready attr stores → Ready attr' stores := fun h => h.same hs
  have hdraft : Draft limit attr stores → Draft limit attr' stores := fun h =>
    ⟨h.stored, hblank h.inited, by rw [hs.coreLimit]; exact h.coreLimit, by rw [hs.addPerCycle]; exact h.addPerCycle⟩
  cases server with
  | attach => exact ⟨h.1, hblank h.2⟩
  | zero => exact h
  | idle => exact hready h
  | delta util pc =>
    refine ⟨hready h.1, ?_⟩
    have hpc := h.2
    cases pc <;> first | trivial | exact hpc | exact Eq.trans hpc hs.addPerCycle.symm
  | init pc =>
    simp only [Stage] at h ⊢
    cases pc <;> simp only [InitStage, hs.coreLimit, hs.waitTime, hs.addPerCycle] at h ⊢
    case testInited => exact h.imp (fun h => ⟨h.1, hblank h.2⟩) fun h => ⟨hready h.1, h.2⟩
    case coreLimit => exact ⟨h.1, hblank h.2⟩
    case modTimes => exact ⟨h.1, hblank h.2.1, h.2.2⟩
    case addPerCycle => exact ⟨h.1, hblank h.2.1, h.2.2⟩
    case changed => exact hready h
    case avg0 => exact hdraft h
    case avg1 => exact hdraft h
    case launchIdx => exact hdraft h
    case waitSec => exact hdraft h
    case waitNsec => exact ⟨hdraft h.1, h.2⟩
    case inited => exact ⟨hdraft h.1, h.2⟩
    all_goals exact ⟨hready h.1, h.2⟩

/-! ## The mailbox -/

/-- The monitor is to raise the flag. -/
def Server.Announces : Server → Prop
  | .init _ => True
  | .delta _ (.store _) => True
  | .delta _ .announce => True
  | _ => False

def writer (stores : ℕ) : Server → Mailbox.Writer
  | .idle => .idle
  | .delta _ .changed => .idle
  | .delta _ (.store _) => .committed
  | .delta _ .announce => .bound
  | .delta _ _ => .claimed
  | _ => if stores = 0 then .committed else .bound

theorem writer_idle (stores : ℕ) : writer stores .idle = .idle := rfl

theorem writer_init (stores : ℕ) (pc : InitPc) :
    writer stores (.init pc) = if stores = 0 then .committed else .bound := rfl

theorem writer_changed (stores : ℕ) (util : Int32) : writer stores (.delta util .changed) = .idle := rfl

theorem writer_count (stores : ℕ) (util cur last old : Int32) :
    writer stores (.delta util (.count cur last old)) = .claimed := rfl

theorem writer_store (stores : ℕ) (util newCycle : Int32) :
    writer stores (.delta util (.store newCycle)) = .committed := rfl

theorem writer_announce (stores : ℕ) (util : Int32) : writer stores (.delta util .announce) = .bound := rfl

def phase : Pc → Mailbox.Phase
  | .copyWait => .told
  | .copyAdd => .told
  | .clear => .taken
  | _ => .idle

theorem phase_idle {pc : Pc} (h : ¬ Copies pc) : phase pc = .idle := by
  cases pc with
  | copyWait => exact absurd (Or.inl rfl) h
  | copyAdd => exact absurd (Or.inr (Or.inl rfl)) h
  | clear => exact absurd (Or.inr (Or.inr rfl)) h
  | _ => rfl

def reader : Proc F → Mailbox.Reader Int32
  | .running c copied =>
    if c.exited then ⟨.absent, none⟩ else ⟨phase c.post.pc, copied.map fun n => (n, c.post.addPerCycle)⟩
  | _ => ⟨.absent, none⟩

def Container.mailbox (s : Container ι F) : Mailbox.State ι Int32 :=
  ⟨s.attr.params.addPerCycle, s.stores, decide (s.attr.changed ≠ 0), writer s.stores s.server, fun i => reader (s.clients i)⟩

theorem reader_running {c : Client F} {copied : Option ℕ} (h : c.exited = false) :
    reader (.running c copied) = ⟨phase c.post.pc, copied.map fun n => (n, c.post.addPerCycle)⟩ := by
  simp [reader, h]

theorem mailbox_reader {s : Container ι F} {i : ι} {c : Client F} {copied : Option ℕ}
    (hi : s.clients i = .running c copied) (hrun : c.exited = false) :
    s.mailbox.readers i = ⟨phase c.post.pc, copied.map fun n => (n, c.post.addPerCycle)⟩ := by
  simp only [Container.mailbox, hi]
  exact reader_running hrun

/-- The process has the budget, or is about to take it. -/
def Proc.Informed (stores : ℕ) : Proc F → Prop
  | .running c copied =>
    c.exited = true ∨ c.post.pc = .copyWait ∨ c.post.pc = .copyAdd ∨ copied = some stores
  | _ => True

/-- A process lowers the flag when all are informed, and starts its thread in time. -/
def Attends (s : Container ι F) : Event ι F → Prop
  | .client _ .clear => s.attr.changed = 0 ∨ s.server.Announces ∨ ∀ j, (s.clients j).Informed s.stores
  | .create _ _ => s.attr.changed ≠ 0 ∨ s.server.Announces
  | _ => True

theorem Server.Announces.due {s : Container ι F} (h : s.server.Announces) : s.mailbox.Due := by
  unfold Mailbox.State.Due
  simp only [Container.mailbox]
  cases hs : s.server with
  | init pc =>
    rw [writer_init]
    split
    · exact Or.inl rfl
    · exact Or.inr rfl
  | delta util pc =>
    rw [hs] at h
    cases pc with
    | store newCycle => exact Or.inl rfl
    | announce => exact Or.inr rfl
    | _ => exact absurd h id
  | _ =>
    rw [hs] at h
    exact absurd h id

theorem Proc.Informed.reader {stores : ℕ} {p : Proc F} (h : p.Informed stores) : (reader p).Informed stores := by
  cases p with
  | running c copied =>
    simp only [Monitor.reader]
    split
    · exact Or.inl rfl
    · rename_i hexited
      rcases h with h | h | h | h
      · exact absurd h hexited
      · exact Or.inr (Or.inl (by rw [h]; rfl))
      · exact Or.inr (Or.inl (by rw [h]; rfl))
      · exact Or.inr (Or.inr ⟨_, by rw [h]; rfl⟩)
  | _ => exact Or.inl rfl

theorem mailbox_same {s s' : Container ι F} (hadd : s'.attr.params.addPerCycle = s.attr.params.addPerCycle)
    (hstores : s'.stores = s.stores) (hchanged : s'.attr.changed = s.attr.changed)
    (hwriter : writer s'.stores s'.server = writer s.stores s.server) (hclients : s'.clients = s.clients) :
    s'.mailbox = s.mailbox := by
  unfold Container.mailbox
  rw [hadd, hwriter, hstores, hchanged, hclients]

/-! ## The invariant -/

variable [DecidableEq ι]

structure Inv (s : Container ι F) : Prop where
  mapped : s.mapped = true
  stage : Stage s.limit s.attr s.stores s.server
  released : Released s
  /-- Nobody is to clear the segment. -/
  kept : ∀ i, s.clients i ≠ .starting .zero

theorem Inv.put {s : Container ι F} (hi : Inv s) (i : ι) {p : Proc F} {attr : TokenAttr} (hs : SameBudget s.attr attr)
    (hkept : p ≠ .starting .zero) (hreleased : Released { s.put i p with attr := attr }) :
    Inv { s.put i p with attr := attr } :=
  ⟨hi.mapped, hi.stage.same hs, hreleased, put_clients (P := fun p => p ≠ .starting .zero) hkept hi.kept⟩

theorem inv_released {s s' : Container ι F} {e : Event ι F} (hi : Inv s) (h : Step s e s') : Released s' := by
  have hstage := hi.stage
  refine released_step hi.released (fun h => (hstage.ready h).waitTime) ?_ ?_ h
  · intro h
    rw [h] at hstage
    exact hstage.1.inited
  · intro h
    rcases h with h | ⟨i, -, h⟩
    · rw [h] at hstage
      exact absurd hstage id
    · exact absurd h (hi.kept i)

theorem inv_step {s s' : Container ι F} {e : Event ι F} (hi : Inv s) (h : Step s e s') : Inv s' := by
  have hstage := hi.stage
  have hreleased := inv_released hi h
  cases h with
  | attachServer hserver =>
    rw [hserver] at hstage
    refine ⟨rfl, ?_, hreleased, hi.kept⟩
    simp only [hi.mapped, if_true]
    exact Or.inl hstage
  | zeroServer hserver =>
    rw [hserver] at hstage
    exact absurd hstage id
  | init pc hserver =>
    rw [hserver] at hstage
    exact ⟨hi.mapped, initStep_stage hstage, hreleased, hi.kept⟩
  | delta util pc hserver =>
    rw [hserver] at hstage
    exact ⟨hi.mapped, deltaStep_stage hstage.1 hstage.2, hreleased, hi.kept⟩
  | restart limit hserver hlimit =>
    rw [hserver] at hstage
    exact ⟨hi.mapped, Or.inr ⟨hstage, Int32.lt_iff_toInt_lt.mp hlimit⟩, hreleased, hi.kept⟩
  | measure util hserver =>
    rw [hserver] at hstage
    exact ⟨hi.mapped, ⟨hstage, trivial⟩, hreleased, hi.kept⟩
  | attach i hp =>
    exact ⟨rfl, hstage, hreleased,
      put_clients (P := fun p => p ≠ .starting .zero) (by simp [hi.mapped]) hi.kept⟩
  | zero i hp => exact absurd hp (hi.kept i)
  | semInit i hp => exact hi.put i ⟨rfl, rfl, rfl, rfl⟩ (by simp) hreleased
  | test i hp => exact hi.put i (SameBudget.refl _) (by split <;> simp) hreleased
  | wait i hp hpos => exact hi.put i ⟨rfl, rfl, rfl, rfl⟩ (by simp) hreleased
  | interrupted i hp => exact hi
  | failed i hp => exact hi.put i (SameBudget.refl _) (by simp) hreleased
  | create i client hp hattr hlimited hstarts => exact hi.put i (SameBudget.refl _) (by simp) hreleased
  | noTokens i hp hnone => exact hi.put i (SameBudget.refl _) (by simp) hreleased
  | client i c c' copied e hp hrun hown hstep =>
    exact hi.put i (client_cases hstep hown).budget (by simp) hreleased

theorem inv_init {s : Container ι F} (h : (container ι F true).init s) : Inv s := by
  obtain ⟨hfresh, hmapped⟩ := h
  refine ⟨hmapped, ?_, hfresh.released, ?_⟩
  · rw [hfresh.server, hfresh.stores, hfresh.attr]
    exact ⟨rfl, rfl⟩
  · intro i
    rw [hfresh.clients i]
    simp

/-! ## The steps -/

/-- The mailbox makes the step, or nothing has changed in it. -/
def Follows (s : Container ι F) (e : Event ι F) (s' : Container ι F) : Prop :=
  s'.mailbox = s.mailbox ∨
    ∃ d, Mailbox.Step s.mailbox d s'.mailbox ∧ (Attends s e → Mailbox.Attentive s.mailbox d)

theorem initStep_follows {s s' : Container ι F} {e : Event ι F} {pc : InitPc} (hi : Inv s) (hserver : s.server = .init pc)
    (hs' : s' = { s with
      attr := (initStep s.limit s.attr pc).1
      server := (initStep s.limit s.attr pc).2
      stores := s.stores + pc.stores }) : Follows s e s' := by
  have hstage := hi.stage
  rw [hserver] at hstage
  subst hs'
  cases pc with
  | addPerCycle =>
    have hw : s.mailbox.writer = .committed := by
      simp only [Container.mailbox, hserver, writer_init, if_pos hstage.1]
    have hbound : writer (s.stores + 1) (.init .avg0) = .bound := by
      rw [writer_init, if_neg (Nat.succ_ne_zero _)]
    refine Or.inr ⟨.store 1, ?_, fun _ => trivial⟩
    have hstore := Mailbox.Step.store s.mailbox 1 hw
    rw [← hbound] at hstore
    exact hstore
  | changed =>
    have hw : s.mailbox.writer = .bound := by
      simp only [Container.mailbox, hserver, writer_init, if_neg (Nat.pos_iff_ne_zero.mp hstage.stored)]
    exact Or.inr ⟨.announce, Mailbox.Step.announce s.mailbox hw, fun _ => trivial⟩
  | storeScaled newCycle => exact Or.inl (mailbox_same hstage.2 rfl rfl (by rw [hserver]; rfl) rfl)
  | _ => exact Or.inl (mailbox_same rfl rfl rfl (by rw [hserver]; rfl) rfl)

theorem deltaStep_follows {s s' : Container ι F} {e : Event ι F} {util : Int32} {pc : DeltaPc}
    (hserver : s.server = .delta util pc)
    (hs' : s' = { s with
      attr := (deltaStep s.limit util s.attr pc).1
      server := (deltaStep s.limit util s.attr pc).2
      stores := s.stores + pc.stores }) : Follows s e s' := by
  subst hs'
  cases pc with
  | changed =>
    by_cases hraised : s.attr.changed = 0
    · have hclaim := Mailbox.Step.claim s.mailbox (by simp only [Container.mailbox, hserver, writer_changed])
        (by simp only [Container.mailbox, hraised, ne_eq, not_true_eq_false, decide_false])
      simp only [deltaStep, hraised, ne_eq, not_true_eq_false, if_false]
      exact Or.inr ⟨.claim, hclaim, fun _ => trivial⟩
    · simp only [deltaStep, hraised, ne_eq, not_false_eq_true, if_true]
      exact Or.inl (mailbox_same rfl rfl rfl (by rw [hserver]; rfl) rfl)
  | count cur last old =>
    have hw : s.mailbox.writer = .claimed := by simp only [Container.mailbox, hserver, writer_count]
    simp only [deltaStep]
    split_ifs
    · exact Or.inr ⟨.commit, Mailbox.Step.commit s.mailbox hw, fun _ => trivial⟩
    · exact Or.inr ⟨.release, Mailbox.Step.release s.mailbox hw, fun _ => trivial⟩
    · exact Or.inr ⟨.commit, Mailbox.Step.commit s.mailbox hw, fun _ => trivial⟩
    · exact Or.inr ⟨.release, Mailbox.Step.release s.mailbox hw, fun _ => trivial⟩
  | store newCycle =>
    have hw : s.mailbox.writer = .committed := by simp only [Container.mailbox, hserver, writer_store]
    exact Or.inr ⟨.store newCycle, Mailbox.Step.store s.mailbox newCycle hw, fun _ => trivial⟩
  | announce =>
    have hw : s.mailbox.writer = .bound := by simp only [Container.mailbox, hserver, writer_announce]
    exact Or.inr ⟨.announce, Mailbox.Step.announce s.mailbox hw, fun _ => trivial⟩
  | _ => exact Or.inl (mailbox_same rfl rfl rfl (by rw [hserver]; rfl) rfl)

theorem mailbox_put_raised {s : Container ι F} {i : ι} {p : Proc F} {attr : TokenAttr}
    (hadd : attr.params.addPerCycle = s.attr.params.addPerCycle) :
    ({ s.put i p with attr := attr } : Container ι F).mailbox =
      { s.mailbox.put i (reader p) with raised := decide (attr.changed ≠ 0) } := by
  have hreaders : (fun j => reader ((s.put i p).clients j))
      = Function.update (fun j => reader (s.clients j)) i (reader p) := by
    funext j
    by_cases hj : j = i
    · subst hj
      rw [put_self, Function.update_self]
    · rw [put_other hj, Function.update_of_ne hj]
  simp only [Container.mailbox, Mailbox.State.put, hadd]
  rw [hreaders]
  rfl

theorem mailbox_put {s : Container ι F} {i : ι} {p : Proc F} {attr : TokenAttr}
    (hadd : attr.params.addPerCycle = s.attr.params.addPerCycle) (hchanged : attr.changed = s.attr.changed) :
    ({ s.put i p with attr := attr } : Container ι F).mailbox = s.mailbox.put i (reader p) := by
  rw [mailbox_put_raised hadd, hchanged]
  rfl

theorem mailbox_put_lowered (s : Container ι F) (i : ι) (p : Proc F) :
    ({ s.put i p with attr := { s.attr with changed := 0 } } : Container ι F).mailbox =
      { s.mailbox.put i (reader p) with raised := false } := mailbox_put_raised rfl

theorem follows_same {s : Container ι F} {e : Event ι F} {i : ι} {p : Proc F} (attr : TokenAttr)
    (hp : reader p = reader (s.clients i)) (hadd : attr.params.addPerCycle = s.attr.params.addPerCycle)
    (hchanged : attr.changed = s.attr.changed) : Follows s e { s.put i p with attr := attr } := by
  left
  rw [mailbox_put hadd hchanged, hp]
  simp [Mailbox.State.put, Container.mailbox]

theorem quiet_follows {s : Container ι F} {e : Event ι F} {i : ι} {c c' : Client F} {copied : Option ℕ}
    (hp : s.clients i = .running c copied) (hrun : c.exited = false) (hq : Quiet { c with attr := s.attr } c') :
    Follows s e { s.put i (.running c' copied) with attr := c'.attr } := by
  by_cases hexited : c'.exited = true
  · right
    refine ⟨.leave i, ?_, fun _ => trivial⟩
    rw [mailbox_put hq.budget.addPerCycle hq.changed]
    have hleave := Mailbox.Step.leave s.mailbox i
    simp only [reader, hexited, if_true]
    exact hleave
  · have hphase : phase c'.post.pc = phase c.post.pc := by
      rcases hq.pc with hpc | ⟨-, hout, hout'⟩
      · exact congrArg phase hpc
      · rw [phase_idle hout', phase_idle hout]
    refine follows_same _ ?_ hq.budget.addPerCycle hq.changed
    rw [hp, reader_running hrun, reader_running (by simpa using hexited), hphase, hq.addPerCycle]

/-- Who lowers the flag attends to the others where the process does. -/
theorem clear_follows {s : Container ι F} {i : ι} {c : Client F} {copied : Option ℕ} (hp : s.clients i = .running c copied)
    (hrun : c.exited = false) (hpc : c.post.pc = .clear) :
    Follows s (.client i .clear) { s.put i (.running { c with
        post := { c.post with pc := .reset }
        attr := { s.attr with changed := 0 } } copied) with attr := { s.attr with changed := 0 } } := by
  right
  have hreader := mailbox_reader hp hrun
  refine ⟨.lower i, ?_, ?_⟩
  · have htaken : (s.mailbox.readers i).phase = .taken := by
      rw [hreader]
      exact congrArg phase hpc
    have hlower := Mailbox.Step.lower s.mailbox i htaken
    rw [hreader] at hlower
    rw [mailbox_put_lowered, reader_running]
    · exact hlower
    · exact hrun
  · intro hattends
    rcases hattends with h | h | h
    · exact Or.inl (by simp [Container.mailbox, h])
    · exact Or.inr (Or.inl h.due)
    · exact Or.inr (Or.inr fun j => (h j).reader)

theorem clientStep_follows {s : Container ι F} {i : ι} {c c' : Client F} {copied : Option ℕ} {e : Limiter.Event F}
    (hp : s.clients i = .running c copied) (hrun : c.exited = false) (ha : Acts { c with attr := s.attr } e c') :
    Follows s (.client i e) { s.put i (.running c' (copiedAfter s.stores copied e)) with attr := c'.attr } := by
  have hreader := mailbox_reader hp hrun
  cases ha with
  | saw hpc hraised =>
    right
    refine ⟨.see i, ?_, fun _ => trivial⟩
    have hidle : (s.mailbox.readers i).phase = .idle := by
      rw [hreader]
      exact congrArg phase hpc
    have hsee := Mailbox.Step.see s.mailbox i hidle (by simpa [Container.mailbox] using hraised)
    rw [hreader] at hsee
    rw [mailbox_put rfl rfl, reader_running]
    · exact hsee
    · exact hrun
  | passed hpc hlow =>
    refine follows_same _ ?_ rfl rfl
    have hload : c.post.pc = .load := hpc
    rw [hp, reader_running hrun, reader_running, hload]
    · rfl
    · exact hrun
  | copiedWait hpc =>
    refine follows_same _ ?_ rfl rfl
    have hwait : c.post.pc = .copyWait := hpc
    rw [hp, reader_running hrun, reader_running, hwait]
    · rfl
    · exact hrun
  | copiedAdd hpc =>
    right
    refine ⟨.take i, ?_, fun _ => trivial⟩
    have htold : (s.mailbox.readers i).phase = .told := by
      rw [hreader]
      exact congrArg phase hpc
    have htake := Mailbox.Step.take s.mailbox i htold
    rw [mailbox_put rfl rfl, reader_running]
    · exact htake
    · exact hrun
  | cleared hpc =>
    have hfollows := clear_follows hp hrun hpc
    exact hfollows
  | other e c' hload hadd hclear hq =>
    rw [copiedAfter_other hadd]
    exact quiet_follows hp hrun hq

theorem mailbox_step {s s' : Container ι F} {e : Event ι F} (hi : Inv s) (h : Step s e s') : Follows s e s' := by
  have hstage := hi.stage
  cases h with
  | attachServer hserver =>
    have hattached : ({ s with mapped := true, server := if s.mapped then .init .testInited else .zero } :
        Container ι F) = { s with mapped := true, server := .init .testInited } := by rw [if_pos hi.mapped]
    rw [hattached]
    exact Or.inl (mailbox_same rfl rfl rfl (by rw [hserver]; rfl) rfl)
  | zeroServer hserver =>
    rw [hserver] at hstage
    exact absurd hstage id
  | init pc hserver => exact initStep_follows hi hserver rfl
  | delta util pc hserver => exact deltaStep_follows hserver rfl
  | restart limit hserver hlimit =>
    rw [hserver] at hstage
    have hbound : writer s.stores (.init .testInited) = .bound :=
      if_neg (Nat.pos_iff_ne_zero.mp (Ready.stored hstage))
    have hremind := Mailbox.Step.remind s.mailbox (by simp only [Container.mailbox, hserver, writer_idle])
    rw [← hbound] at hremind
    exact Or.inr ⟨.remind, hremind, fun _ => trivial⟩
  | measure util hserver => exact Or.inl (mailbox_same rfl rfl rfl (by rw [hserver]; rfl) rfl)
  | attach i hp =>
    have hsame := follows_same (e := .start i) (p := .starting (if s.mapped then .semInit else .zero)) s.attr
      (by rw [hp]; rfl) rfl rfl
    exact hsame
  | zero i hp => exact absurd hp (hi.kept i)
  | semInit i hp => exact follows_same _ (by rw [hp]; rfl) rfl rfl
  | test i hp => exact follows_same s.attr (by rw [hp]; rfl) rfl rfl
  | wait i hp hpos => exact follows_same _ (by rw [hp]; rfl) rfl rfl
  | interrupted i hp => exact Or.inl rfl
  | failed i hp => exact follows_same s.attr (by rw [hp]; rfl) rfl rfl
  | create i client hp hattr hlimited hstarts =>
    have hput : (s.put i (.running client none)).mailbox = s.mailbox.put i (reader (.running client none)) :=
      mailbox_put rfl rfl
    have habsent : (s.mailbox.readers i).phase = .absent := by
      simp only [Container.mailbox, hp]
      rfl
    have hjoin := Mailbox.Step.join s.mailbox i habsent
    rw [reader_running hstarts.running, hstarts.post.pc] at hput
    refine Or.inr ⟨.join i, ?_, ?_⟩
    · exact hput ▸ hjoin
    · intro hattends
      rcases hattends with h | h
      · exact Or.inl (by simpa [Container.mailbox] using h)
      · exact Or.inr h.due
  | noTokens i hp hnone => exact follows_same s.attr (by rw [hp]; rfl) rfl rfl
  | client i c c' copied e hp hrun hown hstep => exact clientStep_follows hp hrun (client_cases hstep hown)

/-! ## The results -/

theorem mailbox_init {s : Container ι F} (h : (container ι F true).init s) :
    (Mailbox.mailbox ι Int32).init s.mailbox := by
  obtain ⟨hfresh, -⟩ := h
  refine ⟨?_, ?_, ?_⟩
  · simp only [Container.mailbox, hfresh.server, hfresh.stores]
    rfl
  · simp [Container.mailbox, hfresh.attr, zeroedAttr]
  · intro i
    simp only [Container.mailbox, hfresh.clients i]
    rfl

/-- A container is a mailbox for the budget. -/
theorem mailbox_simulation :
    System.Simulation (container ι F true) (Mailbox.mailbox ι Int32) fun s m => m = s.mailbox ∧ Inv s where
  init s h := ⟨_, mailbox_init h, rfl, inv_init h⟩
  step s e s' m hR hstep := by
    obtain ⟨rfl, hi⟩ := hR
    rcases mailbox_step hi hstep with hsame | ⟨d, hd, -⟩
    · exact ⟨[], s'.mailbox, by rw [hsame]; exact .nil _, rfl, inv_step hi hstep⟩
    · exact ⟨[d], s'.mailbox, .cons hd (.nil _), rfl, inv_step hi hstep⟩

/-- Attentive processes are attentive readers of the mailbox. -/
theorem attentive_simulation :
    System.Simulation ((container ι F true).restrict Attends) ((Mailbox.mailbox ι Int32).restrict Mailbox.Attentive)
      fun s m => m = s.mailbox ∧ Inv s where
  init s h := ⟨_, mailbox_init h, rfl, inv_init h⟩
  step s e s' m hR hstep := by
    obtain ⟨rfl, hi⟩ := hR
    obtain ⟨hattends, hstep⟩ := hstep
    rcases mailbox_step hi hstep with hsame | ⟨d, hd, hattentive⟩
    · exact ⟨[], s'.mailbox, by rw [hsame]; exact .nil _, rfl, inv_step hi hstep⟩
    · exact ⟨[d], s'.mailbox, .cons ⟨hattentive hattends, hd⟩ (.nil _), rfl, inv_step hi hstep⟩

/-- The monitor is between two updates. -/
def Server.Rests : Server → Prop
  | .idle => True
  | .delta _ .changed => True
  | _ => False

theorem Server.Rests.writer {server : Server} (h : server.Rests) (stores : ℕ) :
    Monitor.writer stores server = .idle := by
  cases server with
  | idle => rfl
  | delta util pc =>
    cases pc with
    | changed => rfl
    | _ => exact absurd h id
  | _ => exact absurd h id

theorem copy_of_map {copied : Option ℕ} {add value : Int32} {version : ℕ}
    (h : copied.map (fun n => (n, add)) = some (version, value)) : copied = some version ∧ add = value := by
  cases copied with
  | none => cases h
  | some n =>
    cases h
    exact ⟨rfl, rfl⟩

/-- Where all processes are waited for, a lowered flag means that each that is not
    copying has the budget and the interval. -/
theorem budget_agrees {s : Container ι F} (h : ((container ι F true).restrict Attends).Reach s)
    (hchanged : s.attr.changed = 0) (hserver : s.server.Rests) {i : ι} {c : Client F} {copied : Option ℕ}
    (hi : s.clients i = .running c copied) (hrun : c.exited = false) (hrest : ¬ Copies c.post.pc) :
    c.post.addPerCycle = s.attr.params.addPerCycle ∧ c.post.interval = s.attr.waitTime := by
  obtain ⟨m, hm, rfl, hinv⟩ := attentive_simulation.transfer h
  have hreader := mailbox_reader hi hrun
  have hidle : phase c.post.pc = .idle := phase_idle hrest
  have hcopy := Mailbox.current_of_attentive hm (by simp [Container.mailbox, hchanged])
    (by simp [Mailbox.State.Due, Container.mailbox, hserver.writer]) (i := i)
    (by rw [hreader]; simp [hidle]) (by rw [hreader]; simp [hidle])
  rw [hreader] at hcopy
  obtain ⟨hcopied, hadd⟩ := copy_of_map hcopy
  have hclient := hinv.released.clients i
  rw [hi] at hclient
  obtain ⟨hinited, hclient⟩ := hclient
  refine ⟨hadd, ?_⟩
  rw [(hinv.stage.ready hinited).waitTime]
  exact hclient.interval (Or.inr (Or.inr (by rw [hcopied]; rfl)))

/-! ### Two processes -/

theorem reach_two (ok : Container Bool Unit → Event Bool Unit → Prop)
    (hserver : ∀ s : Container Bool Unit, s.server.Sets → ok s .server)
    (hstart : ∀ s i, ok s (.start i)) (hcreate : ∀ s i client, s.attr.changed ≠ 0 → ok s (.create i client)) :
    ∃ clients, clients false = Proc.running (joined { announcedAttr with ready := 0 }) none ∧
      clients true = Proc.running (joined { announcedAttr with ready := 0 }) none ∧
      ((container Bool Unit true).restrict ok).Reach
        (limitTen .idle { announcedAttr with ready := 0 } clients 1) := by
  have h := reach_announced hserver (reach_posted hserver reach_fresh)
  have h := reach_step (.start false) h (hstart _ _) (.attach _ _ rfl)
  have h := reach_step (.start false) h (hstart _ _) (.semInit _ _ rfl)
  have h := reach_step (.start false) h (hstart _ _) (.test _ _ rfl)
  have h := reach_step (.create false (joined { announcedAttr with ready := 0 })) h (hcreate _ _ _ (by decide))
    (.create _ _ _ rfl rfl rfl (joined_starts rfl))
  have h := reach_step (.start true) h (hstart _ _) (.attach _ _ rfl)
  have h := reach_step (.start true) h (hstart _ _) (.semInit _ _ rfl)
  have h := reach_step (.start true) h (hstart _ _) (.test _ _ rfl)
  have h := reach_step (.create true (joined { announcedAttr with ready := 0 })) h (hcreate _ _ _ (by decide))
    (.create _ _ _ rfl rfl rfl (joined_starts rfl))
  exact ⟨_, rfl, rfl, h⟩

/-- Two processes look before either lowers the flag. -/
theorem budget_agrees_run : ∃ s : Container Bool Unit, ((container Bool Unit true).restrict Attends).Reach s ∧
    s.attr.changed = 0 ∧ ∀ i, ∃ c copied, s.clients i = .running c copied ∧
      c.post.addPerCycle = s.attr.params.addPerCycle ∧ c.post.interval = s.attr.waitTime := by
  obtain ⟨clients, hfalse, htrue, h⟩ := reach_two Attends (fun _ _ => trivial) (fun _ _ => trivial)
    fun _ _ _ h => Or.inl h
  have h := reach_step (.client false .load) h trivial (.client _ _ _ _ _ _ hfalse rfl trivial (.load _ rfl))
  have h := reach_step (.client true .load) h trivial (.client _ _ _ _ _ _ htrue rfl trivial (.load _ rfl))
  have h := reach_step (.client false .copyWait) h trivial (.client _ _ _ _ _ _ rfl rfl trivial (.copyWait _ rfl))
  have h := reach_step (.client true .copyWait) h trivial (.client _ _ _ _ _ _ rfl rfl trivial (.copyWait _ rfl))
  have h := reach_step (.client false .copyAdd) h trivial (.client _ _ _ _ _ _ rfl rfl trivial (.copyAdd _ rfl))
  have h := reach_step (.client true .copyAdd) h trivial (.client _ _ _ _ _ _ rfl rfl trivial (.copyAdd _ rfl))
  have h := reach_step (.client false .clear) h
    (Or.inr (Or.inr (Bool.forall_bool.mpr ⟨Or.inr (Or.inr (Or.inr rfl)), Or.inr (Or.inr (Or.inr rfl))⟩)))
    (.client _ _ _ _ _ _ rfl rfl trivial (.clear _ rfl))
  have h := reach_step (.client true .clear) h (Or.inl rfl) (.client _ _ _ _ _ _ rfl rfl trivial (.clear _ rfl))
  exact ⟨_, h, rfl, Bool.forall_bool.mpr
    ⟨⟨_, _, rfl, budget_agrees (i := false) h rfl trivial rfl rfl (show ¬ Copies .reset by decide)⟩,
      _, _, rfl, budget_agrees (i := true) h rfl trivial rfl rfl (show ¬ Copies .reset by decide)⟩⟩

/-- The one has lowered the flag before the other looks. -/
theorem budget_differs : ∃ s : Container Bool Unit, (container Bool Unit true).Reach s ∧ s.attr.changed = 0 ∧
    s.server.Rests ∧ (∀ i c copied, s.clients i = .running c copied → ¬ Copies c.post.pc) ∧
    ∃ c copied, s.clients true = .running c copied ∧ c.exited = false ∧
      c.post.addPerCycle ≠ s.attr.params.addPerCycle ∧ c.post.interval ≠ s.attr.waitTime := by
  obtain ⟨clients, hfalse, htrue, h⟩ := reach_two (fun _ _ => True) (fun _ _ => trivial) (fun _ _ => trivial)
    fun _ _ _ _ => trivial
  have h := reach_step (.client false .load) h trivial (.client _ _ _ _ _ _ hfalse rfl trivial (.load _ rfl))
  have h := reach_step (.client false .copyWait) h trivial (.client _ _ _ _ _ _ rfl rfl trivial (.copyWait _ rfl))
  have h := reach_step (.client false .copyAdd) h trivial (.client _ _ _ _ _ _ rfl rfl trivial (.copyAdd _ rfl))
  have h := reach_step (.client false .clear) h trivial (.client _ _ _ _ _ _ rfl rfl trivial (.clear _ rfl))
  refine ⟨_, h.of_restrict, rfl, trivial, fun i c copied hi => ?_, _, _, htrue, rfl,
    (by decide : (0 : Int32) ≠ 1), (by decide : (⟨0, 0⟩ : Timespec) ≠ ⟨0, 100000000⟩)⟩
  cases i with
  | false =>
    cases hi
    exact (by decide : ¬ Copies .reset)
  | true =>
    cases htrue.symm.trans hi
    exact (by decide : ¬ Copies .load)

/-- A single process that has copied a budget has the present one when `delta_change`
    stores the next, and whenever the flag is lowered between two updates. -/
theorem one_process_agrees [Subsingleton ι] {s : Container ι F} (h : (container ι F true).Reach s) {i : ι}
    {c : Client F} {r : ℕ} (hi : s.clients i = .running c (some r)) (hrun : c.exited = false) :
    (∀ util newCycle, s.server = .delta util (.store newCycle) →
      r = s.stores ∧ c.post.addPerCycle = s.attr.params.addPerCycle) ∧
    (s.attr.changed = 0 → s.server.Rests → c.post.addPerCycle = s.attr.params.addPerCycle) := by
  obtain ⟨m, hm, rfl, hinv⟩ := mailbox_simulation.transfer h
  have hcopy : (s.mailbox.readers i).copy = some (r, c.post.addPerCycle) := by rw [mailbox_reader hi hrun]; rfl
  refine ⟨?_, ?_⟩
  · intro util newCycle hserver
    have hcommitted : s.mailbox.writer = .committed := by simp only [Container.mailbox, hserver, writer_store]
    exact Mailbox.current_of_subsingleton hm (Or.inl hcommitted) hcopy
  · intro hchanged hserver
    have hlow : s.mailbox.raised = false := by simp [Container.mailbox, hchanged]
    have hidle : s.mailbox.writer = .idle := hserver.writer _
    exact (Mailbox.current_of_subsingleton hm (Or.inr ⟨hlow, by simp [hidle]⟩) hcopy).2

/-! ### A process that has copied -/

/-- It has lowered the flag; two calls later `delta_change` is to store the next budget. -/
theorem one_process_agrees_run : ∃ s t : Container Unit Unit, ∃ c d : Client Unit,
    ((container Unit Unit true).Reach s ∧ s.clients () = .running c (some 1) ∧ s.attr.changed = 0 ∧
      s.server = .idle ∧ c.post.addPerCycle = s.attr.params.addPerCycle) ∧
    (container Unit Unit true).Reach t ∧ t.clients () = .running d (some 1) ∧ t.server = .delta 5 (.store 2) ∧
      1 = t.stores ∧ d.post.addPerCycle = t.attr.params.addPerCycle := by
  have h : ((container Unit Unit true).restrict fun _ _ => True).Reach _ :=
    reach_announced (fun _ _ => trivial) (reach_posted (fun _ _ => trivial) reach_fresh)
  have h := reach_joined (fun _ => trivial) (fun _ _ => trivial) rfl h
  have h := reach_step (.client () .load) h trivial (.client _ _ _ _ _ _ rfl rfl trivial (.load _ rfl))
  have h := reach_step (.client () .copyWait) h trivial (.client _ _ _ _ _ _ rfl rfl trivial (.copyWait _ rfl))
  have h := reach_step (.client () .copyAdd) h trivial (.client _ _ _ _ _ _ rfl rfl trivial (.copyAdd _ rfl))
  have h := reach_step (.client () .clear) h trivial (.client _ _ _ _ _ _ rfl rfl trivial (.clear _ rfl))
  have h' := reach_step (.measure 5) h trivial (.measure _ _ rfl)
  have h' := reach_step .server h' trivial (.delta _ 5 .changed rfl)
  have h' := reach_step .server h' trivial (.delta _ 5 .idx rfl)
  have h' := reach_step .server h' trivial (.delta _ 5 (.cur 0) rfl)
  have h' := reach_step .server h' trivial (.delta _ 5 (.last 0 0) rfl)
  have h' := reach_step .server h' trivial (.delta _ 5 (.old 0 0) rfl)
  have h' := reach_step .server h' trivial (.delta _ 5 (.count 0 0 1) rfl)
  exact ⟨_, _, _, _,
    ⟨h.of_restrict, rfl, rfl, rfl, (one_process_agrees (i := ()) h.of_restrict rfl rfl).2 rfl trivial⟩,
    h'.of_restrict, rfl, rfl, (one_process_agrees (i := ()) h'.of_restrict rfl rfl).1 5 2 rfl⟩

end NvResourceController.Monitor
