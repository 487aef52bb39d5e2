/-
  NvResourceController.Monitor.Adjustment — what an adjustment of `delta_change`
  (`src/server_monitor.c`) finds in the attribute it shares with one process, in every
  run of the two, with `float`s of 24 bits that are rounded to nearest.

  - `adjustment_sound_iff`: in runs in which the samples of `token_post` add up and its
    index does not run over, the arithmetic of an adjustment is sound exactly for the
    readings in range.
  - `idle_divides_by_zero`: the reading of an idle device is not.
-/

import NvResourceController.Monitor.Arithmetic
import NvResourceController.Monitor.Warmup

namespace NvResourceController.Monitor

open Limiter
open Machine (Adjusts Sound InRange)

variable {ι F : Type}

/-! ## The container, with rounding -/

/-- The two steps of the monitor that go by `float`s. -/
inductive Computes (fl : ℚ → ℚ) : Container ι F → Container ι F → Prop
  | scale (s : Container ι F) : s.server = .init .scale →
      Computes fl s { s with server := .init (.storeScaled
        (Machine.scaledCycle fl s.attr.params.addPerCycle s.attr.params.coreLimit s.limit)) }
  | adjust (s : Container ι F) (util cur last old : Int32) : s.server = .delta util (.count cur last old) →
      Adjusts s.attr →
      Computes fl s { s with
        attr := { s.attr with params := { s.attr.params with modTimes := s.attr.params.modTimes + 1 } }
        server := .delta util (.store (Machine.newCycle fl util s.limit old cur last)) }

/-- The others. -/
def Plain (s : Container ι F) : Event ι F → Prop
  | .server =>
    s.server ≠ .init .scale ∧
      ∀ util cur last old, s.server = .delta util (.count cur last old) → ¬ Adjusts s.attr
  | _ => True

variable [DecidableEq ι]

def floatContainer (fl : ℚ → ℚ) (ι F : Type) [DecidableEq ι] (mapped : Bool) : System (Container ι F) (Event ι F) where
  init s := s.Fresh ∧ s.mapped = mapped
  step s e s' := (Plain s e ∧ Step s e s') ∨ (e = .server ∧ Computes fl s s')

/-- Without such a step a run is one with any rounding. -/
theorem reach_float {mapped : Bool} {ok : Container ι F → Event ι F → Prop} (fl : ℚ → ℚ) {s : Container ι F}
    (h : ((container ι F mapped).restrict fun s e => ok s e ∧ Plain s e).Reach s) :
    ((floatContainer fl ι F mapped).restrict ok).Reach s := by
  induction h with
  | init h0 => exact .init h0
  | step _ hstep ih => exact ih.step ⟨hstep.1.1, Or.inl ⟨hstep.1.2, hstep.2⟩⟩

/-! ### The warm-up -/

theorem scaledCycle_le {add coreLimit limit : Int32} (hadd : 0 ≤ add.toInt ∧ add.toInt ≤ 4)
    (hcore : coreLimit = limit ∨ add = 0) :
    (Machine.scaledCycle single add coreLimit limit).toInt ≤ max 1 add.toInt := by
  have hzero : single 0 = 0 := Rounding.round_zero
  have htrunc : trunc 0 = 0 := trunc_intCast 0
  have hquot : -1 ≤ trunc (single (single (single add.toInt * single coreLimit.toInt) / single limit.toInt)) ∧
      trunc (single (single (single add.toInt * single coreLimit.toInt) / single limit.toInt)) ≤ add.toInt := by
    by_cases hadd0 : add.toInt = 0
    · rw [hadd0, Int.cast_zero, hzero, zero_mul, hzero, zero_div, hzero, htrunc]
      omega
    have hlimit : coreLimit = limit := hcore.resolve_right fun h => hadd0 (by rw [h, Int32.toInt_zero])
    rw [hlimit]
    by_cases hlimit0 : limit.toInt = 0
    · rw [hlimit0, Int.cast_zero, hzero, mul_zero, hzero, zero_div, hzero, htrunc]
      omega
    have hfladd : single add.toInt = add.toInt :=
      single_order.intCast _ (by rw [abs_of_nonneg hadd.1]; omega)
    have hone : (1 : ℚ) ≤ |single limit.toInt| := by
      rcases lt_or_gt_of_ne hlimit0 with hneg | hpos
      · have hle : single limit.toInt ≤ -1 := by
          have hminus : single ((-1 : ℤ) : ℚ) = -1 := by decide +kernel
          rw [← hminus]
          exact single_order.mono (by exact_mod_cast (by omega : limit.toInt ≤ -1))
        rw [abs_of_neg (by linarith)]
        linarith
      · exact (Machine.one_le_single hpos).trans (le_abs_self _)
    obtain ⟨hlow, hhigh⟩ := trunc_scaled (by omega : 1 ≤ add.toInt) (by omega) hone
    rw [hfladd]
    exact ⟨by omega, hhigh⟩
  unfold Machine.scaledCycle
  dsimp only
  generalize single (single (single add.toInt * single coreLimit.toInt) / single limit.toInt) = q at hquot ⊢
  have hconv : (Machine.ofFloat q).toInt = trunc q := Machine.ofFloat_toInt ⟨by omega, by omega⟩
  rw [Machine.ite_toInt, hconv, Int32.toInt_one]
  split <;> omega

section

variable {limit : Int32} {attr : TokenAttr} {t : Option TokenPost}

theorem scale_warm (h : WarmAt limit attr t (.init .scale)) :
    WarmAt limit attr t (.init (.storeScaled
      (Machine.scaledCycle single attr.params.addPerCycle attr.params.coreLimit limit))) := by
  obtain ⟨hidx, hf, hs, hm, hcore⟩ := h
  refine ⟨hidx, hf, Machine.one_le_scaledCycle _ _ _ _, ?_⟩
  rcases hs with h | ⟨hw, hc⟩
  · exact Or.inl h
  · have hbudget := hw.budget
    have hlooked := looked_le_one t
    have hpos := lowered_nonneg (t := t) hidx
    have hsmall : lowered attr t ≤ 3 := by
      have := hw.idx
      rw [lowered]
      omega
    have hle := scaledCycle_le ⟨hc.nonneg.trans hc.le, by omega⟩ hcore
    exact Or.inr ⟨hw, hm, by omega⟩

theorem Machine.Adjusts.many (ha : Adjusts attr) : 49 < attr.params.modTimes.toInt := by
  have hticks : sampleTicks = 50 := by decide
  obtain ⟨hpast, -⟩ := ha
  rw [hticks, Int32.toInt_add, Int32.toInt_one] at hpast
  have hlow := attr.params.modTimes.le_toInt
  by_contra hle
  rw [Int.bmod_eq_of_le (by omega) (by omega)] at hpast
  omega

theorem adjust_warm {util cur last old : Int32} (h : WarmAt limit attr t (.delta util (.count cur last old)))
    (ha : Adjusts attr) {newCycle : Int32} (hone : 1 ≤ newCycle.toInt) :
    WarmAt limit { attr with params := { attr.params with modTimes := attr.params.modTimes + 1 } } t
      (.delta util (.store newCycle)) := by
  obtain ⟨hidx, -, hs, -, -⟩ := h
  refine ⟨hidx, trivial, hone, ?_⟩
  rcases hs with hfill | ⟨hw, hc, hle⟩
  · exact Or.inl (hfill.same rfl)
  · have hcount := hw.count_le hc hle
    have hmany := ha.many
    omega

end

theorem Computes.warm {s s' : Container Unit F} (h : Computes single s s') (hi : Warm s) : Warm s' := by
  cases h with
  | scale hserver =>
    exact hi.server hserver nofun _ _ _ _ scale_warm fun hp => ⟨trivial, hp.avg, hp.launchIdx⟩
  | adjust util cur last old hserver ha =>
    exact hi.server hserver nofun _ _ _ _
      (fun h => adjust_warm h ha (Machine.one_le_newCycle _ _ _ _ _ _)) fun hp => absurd hp.idles id

theorem reach_warm_float {mapped : Bool} {s : Container Unit F}
    (h : ((floatContainer single Unit F mapped).restrict Bounded).Reach s) : Warm s := by
  refine System.Reach.inv (I := Warm) ?_ ?_ h
  · intro s hinit
    exact hinit.1.warm
  · intro s e s' hi hstep
    obtain ⟨hok, ⟨-, hstep⟩ | ⟨-, hstep⟩⟩ := hstep
    · exact warm_step hi hok hstep
    · exact hstep.warm hi

/-! ## An adjustment -/

theorem Warm.adjusts {s : Container Unit F} (hi : Warm s) {util cur last old : Int32}
    (hserver : s.server = .delta util (.count cur last old)) (ha : Adjusts s.attr) :
    1 ≤ old.toInt ∧ 1 ≤ cur.toInt ∧ 1 ≤ last.toInt := by
  obtain ⟨-, hf, hs⟩ := hi.stage
  rw [hserver] at hf hs
  have hf : 1 ≤ s.attr.params.addPerCycle.toInt ∨ (s.attr.params.addPerCycle = 0 ∧ s.attr.params.modTimes = 0) := hf
  obtain ⟨-, hread, rfl⟩ : Taken s.attr _ ∧ ((1 ≤ cur.toInt ∧ 1 ≤ last.toInt) ∨ s.attr.params.modTimes.toInt ≤ 3) ∧
    old = s.attr.params.addPerCycle := hs
  have hmany := ha.many
  refine ⟨?_, hread.resolve_right (by omega)⟩
  rcases hf with h | h
  · exact h
  · rw [h.2, Int32.toInt_zero] at hmany
    omega

/-- In runs whose samples and cycles fit, for every reading the arithmetic of an adjustment
    is sound exactly when the reading is in range. -/
theorem adjustment_sound_iff {mapped : Bool} {s : Container Unit F}
    (h : ((floatContainer single Unit F mapped).restrict Bounded).Reach s) {util cur last old : Int32}
    (hserver : s.server = .delta util (.count cur last old)) (ha : Adjusts s.attr)
    (hutil : 0 ≤ util.toInt ∧ util.toInt ≤ 100) :
    Sound util.toInt s.limit.toInt old.toInt cur.toInt last.toInt ↔
      InRange util.toInt s.limit.toInt old.toInt cur.toInt last.toInt := by
  obtain ⟨hold, hcur, hlast⟩ := (reach_warm_float h).adjusts hserver ha
  exact Machine.sound_iff_inRange ⟨hutil.1, by omega⟩ s.limit.toInt_lt ⟨hold, old.toInt_lt⟩ ⟨hcur, cur.toInt_lt⟩ hlast

/-! ## An idle device -/

/-- A run of a container of one process, in a segment that exists, without an adjustment. -/
def Warms (s : Container Unit Unit) : Prop :=
  ((container Unit Unit true).restrict fun s e => Bounded s e ∧ Plain s e).Reach s

theorem reach_client {s : Container Unit Unit} {c c' : Client Unit} {copied : Option ℕ} {e : Limiter.Event Unit}
    (h : Warms s) (hc : s.clients () = .running c copied) (hrun : c.exited = false)
    (hstep : Limiter.Step { c with attr := s.attr } e c') (hok : Bounded s (.client () e)) (hown : IsOwn e) :
    Warms { s.put () (.running c' (copiedAfter s.stores copied e)) with attr := c'.attr } :=
  reach_step (.client () e) h ⟨hok, trivial⟩ (.client _ _ _ _ _ _ hc hrun hown hstep)

section

variable {s : Container Unit Unit}

theorem reach_delta {util : Int32} (pc : DeltaPc) (h : Warms s) (hserver : s.server = .delta util pc)
    (hpc : ∀ cur last old, pc = .count cur last old → ¬ Adjusts s.attr) :
    Warms { s with
      attr := (deltaStep s.limit util s.attr pc).1
      server := (deltaStep s.limit util s.attr pc).2
      stores := s.stores + pc.stores } := by
  refine reach_step .server h ⟨trivial, ?_, ?_⟩ (.delta s util pc hserver)
  · rw [hserver]
    nofun
  · intro util' cur last old h'
    rw [hserver] at h'
    cases h'
    exact hpc cur last old rfl

theorem reach_counting (util : Int32) (h : Warms s) (hserver : s.server = .idle) (hdown : s.attr.changed = 0) :
    Warms { s with server := .delta util (.count (s.attr.params.avgLaunchs (s.attr.params.launchIdx % 2))
      (s.attr.params.avgLaunchs ((s.attr.params.launchIdx + 1) % 2)) s.attr.params.addPerCycle) } := by
  have h := reach_step (.measure util) h ⟨trivial, trivial⟩ (.measure _ _ hserver)
  have h := reach_delta .changed h rfl (by simp)
  simp only [deltaStep] at h
  rw [if_neg (not_not.mpr hdown)] at h
  have h := reach_delta .idx h rfl (by simp)
  have h := reach_delta (.cur _) h rfl (by simp)
  have h := reach_delta (.last _ _) h rfl (by simp)
  have h := reach_delta (.old _ _) h rfl (by simp)
  exact h

theorem reach_raised (h : Warms s) (hserver : s.server = .idle) (hdown : s.attr.changed = 0)
    (hmod : (s.attr.params.modTimes + 1).toInt ≤ sampleTicks) (hlow : s.attr.params.addPerCycle.toInt ≤ minSampleUtil) :
    Warms { s with
      server := .idle
      attr := { s.attr with
        changed := 1
        params := { s.attr.params with
          modTimes := s.attr.params.modTimes + 1
          addPerCycle := s.attr.params.addPerCycle + 1 } }
      stores := s.stores + 1 } := by
  have h := reach_counting 5 h hserver hdown
  have h := reach_delta (.count _ _ _) h rfl fun _ _ _ _ ha => absurd ha.1 (not_lt.mpr hmod)
  simp only [deltaStep] at h
  rw [if_pos hmod, if_pos hlow] at h
  have h := reach_delta (.store _) h rfl (by simp)
  have h := reach_delta .announce h rfl (by simp)
  exact h

/-- The thread posts its tokens and looks at its samples. -/
theorem reach_posts (n : ℕ) {c : Client Unit} {copied : Option ℕ} (h : Warms s)
    (hc : s.clients () = .running c copied) (hrun : c.exited = false) (hpc : c.post.pc = .post)
    (hn : c.post.addPerCycle.toInt - c.post.i.toInt = n) :
    ∃ c', Warms (s.put () (.running c' copied)) ∧ c'.exited = false ∧ c'.post.pc = .sample ∧
      c'.post.launchTimes = c.post.launchTimes := by
  induction n generalizing s c with
  | zero =>
    have hdone : ¬ c.post.i < c.post.addPerCycle := by
      rw [Int32.lt_iff_toInt_lt]
      omega
    exact ⟨_, reach_client h hc hrun (.posted _ hpc hdone) trivial trivial, hrun, rfl, rfl⟩
  | succ n ih =>
    have hmore : c.post.i < c.post.addPerCycle := by
      rw [Int32.lt_iff_toInt_lt]
      omega
    have hstep := reach_client h hc hrun (.post _ hpc hmore) trivial trivial
    have hsucc : (c.post.i + 1).toInt = c.post.i.toInt + 1 := by
      have hlow := c.post.i.le_toInt
      have hhigh := c.post.addPerCycle.toInt_lt
      rw [Int32.toInt_add, Int32.toInt_one, Int.bmod_eq_of_le (by omega) (by omega)]
    obtain ⟨c', hc', hrest⟩ := ih hstep rfl hrun hpc (by simp only [hsucc]; omega)
    refine ⟨c', ?_, hrest⟩
    simpa only [Container.put, copiedAfter, Function.update_idem] using hc'

end

/-- The flag is up for a budget of `k`, and nothing was launched. -/
structure Raised (s : Container Unit Unit) (k : ℕ) : Prop where
  server : s.server = .idle
  limit : s.limit = 10
  changed : s.attr.changed = 1
  addPerCycle : s.attr.params.addPerCycle.toInt = k
  modTimes : s.attr.params.modTimes.toInt = k - 1
  launchIdx : s.attr.params.launchIdx.toInt = k - 1
  even : 2 ≤ k → s.attr.params.avgLaunchs 0 = 1
  odd : 3 ≤ k → s.attr.params.avgLaunchs 1 = 1
  client : ∃ c copied, s.clients () = .running c copied ∧ c.exited = false ∧ c.post.pc = .load ∧
    ∀ i, c.post.launchTimes i = 0

/-- The process has copied the budget and lowered the flag. -/
structure Lowered (s : Container Unit Unit) (k : ℕ) : Prop where
  server : s.server = .idle
  limit : s.limit = 10
  changed : s.attr.changed = 0
  addPerCycle : s.attr.params.addPerCycle.toInt = k
  modTimes : s.attr.params.modTimes.toInt = k - 1
  launchIdx : s.attr.params.launchIdx.toInt = k - 1
  even : 2 ≤ k → s.attr.params.avgLaunchs 0 = 1
  odd : 3 ≤ k → s.attr.params.avgLaunchs 1 = 1
  client : ∃ c copied, s.clients () = .running c copied ∧ c.exited = false ∧ c.post.pc = .reset ∧
    c.post.addPerCycle = s.attr.params.addPerCycle ∧ ∀ i, c.post.launchTimes i = 0

theorem reach_lowered {s : Container Unit Unit} {k : ℕ} (h : Warms s) (hr : Raised s k) :
    ∃ s', Warms s' ∧ Lowered s' k := by
  obtain ⟨hserver, hlimit, hup, hadd, hmod, hidx, heven, hodd, c, copied, hc, hrun, hpc, hnone⟩ := hr
  have h := reach_client h hc hrun (.load _ hpc) trivial trivial
  have hsaw : (if s.attr.changed ≠ 0 then Pc.copyWait else Pc.reset) = .copyWait := by
    rw [hup]
    rfl
  simp only [hsaw] at h
  have h := reach_client h rfl hrun (.copyWait _ rfl) trivial trivial
  have h := reach_client h rfl hrun (.copyAdd _ rfl) trivial trivial
  have h := reach_client h rfl hrun (.clear _ rfl) trivial trivial
  exact ⟨_, h, hserver, hlimit, rfl, hadd, hmod, hidx, heven, hodd, _, _, rfl, hrun, rfl, rfl, hnone⟩

theorem avgLaunch_zero {launchTimes : Int32 → Int32} (h : ∀ i, launchTimes i = 0) : avgLaunch launchTimes = 1 := by
  have hzero : launchTimes = fun _ => 0 := funext h
  rw [hzero]
  decide

theorem sampleSum_zero {launchTimes : Int32 → Int32} (h : ∀ i, launchTimes i = 0) :
    sampleSum launchTimes [0, 1, 2, 3, 4, 5, 6, 7, 8, 9] < 2 ^ 31 := by
  have hzero : launchTimes = fun _ => 0 := funext h
  rw [hzero]
  decide

theorem update_one {f : Int32 → Int32} {i j : Int32} (h : j ≠ i → f j = 1) : Function.update f i 1 j = 1 := by
  by_cases hj : j = i
  · rw [hj, Function.update_self]
  · rw [Function.update_of_ne hj]
    exact h hj

/-- The thread empties the counter and posts its tokens. -/
theorem reach_sampling {s : Container Unit Unit} {k : ℕ} (h : Warms s) (hl : Lowered s k) :
    ∃ s' c copied, Warms s' ∧ s'.clients () = .running c copied ∧ c.exited = false ∧ c.post.pc = .sample ∧
      (∀ i, c.post.launchTimes i = 0) ∧ s'.server = s.server ∧ s'.limit = s.limit ∧
      s'.attr = { s.attr with params := { s.attr.params with launchTimes := 0 } } := by
  obtain ⟨-, -, -, hadd, -, -, -, -, c, copied, hc, hrun, hpc, hcopy, hnone⟩ := hl
  have h := reach_client h hc hrun (.reset _ hpc) trivial trivial
  have h := reach_client h rfl hrun (.sleep _ rfl) trivial trivial
  obtain ⟨c', h, hrun', hpc', hsame⟩ := reach_posts k h rfl hrun rfl (by
    simp only [hcopy, hadd, Int32.toInt_zero]
    omega)
  exact ⟨_, c', _, h, rfl, hrun', hpc', fun i => by rw [hsame]; exact hnone i, rfl, rfl, rfl⟩

theorem reach_published {s : Container Unit Unit} {c : Client Unit} {copied : Option ℕ} (h : Warms s)
    (hc : s.clients () = .running c copied) (hrun : c.exited = false) (hpc : c.post.pc = .sample)
    (hnone : ∀ i, c.post.launchTimes i = 0) (hlaunches : s.attr.params.launchTimes = 0)
    (hroom : s.attr.params.launchIdx.toInt + 1 < 2 ^ 31) :
    ∃ s' c' copied', Warms s' ∧ s'.clients () = .running c' copied' ∧ c'.exited = false ∧ c'.post.pc = .load ∧
      (∀ i, c'.post.launchTimes i = 0) ∧ s'.server = s.server ∧ s'.limit = s.limit ∧
      s'.attr = { s.attr with params := { s.attr.params with
        avgLaunchs := Function.update s.attr.params.avgLaunchs (s.attr.params.launchIdx % 2) 1
        launchIdx := s.attr.params.launchIdx + 1 } } := by
  have hsampled : ∀ i, Function.update c.post.launchTimes (c.post.loop % launchSamples)
      s.attr.params.launchTimes.toInt32 i = 0 := by
    intro i
    by_cases hi : i = c.post.loop % launchSamples
    · rw [hi, Function.update_self, hlaunches]
      rfl
    · rw [Function.update_of_ne hi]
      exact hnone i
  have havg := avgLaunch_zero hsampled
  have h := reach_client h hc hrun (.sample _ hpc) trivial trivial
  have h := reach_client h rfl hrun (.index _ rfl) trivial trivial
  have h := reach_client h rfl hrun (.publish _ rfl) (fun _ _ he => by cases he; exact sampleSum_zero hsampled) trivial
  have h := reach_client h rfl hrun (.next _ rfl) hroom trivial
  refine ⟨_, _, _, h, rfl, hrun, rfl, hsampled, rfl, rfl, ?_⟩
  exact congrArg (fun avg => { s.attr with params := { s.attr.params with
    avgLaunchs := Function.update s.attr.params.avgLaunchs (s.attr.params.launchIdx % 2) avg
    launchIdx := s.attr.params.launchIdx + 1 } }) havg

/-- A cycle of the process and the next raise. -/
theorem reach_cycle {s : Container Unit Unit} {k : ℕ} (h : Warms s) (hl : Lowered s k) (hk : 1 ≤ k ∧ k ≤ 3) :
    ∃ s', Warms s' ∧ Raised s' (k + 1) := by
  obtain ⟨s₁, c, copied, h, hc, hrun, hpc, hnone, hserver₁, hlimit₁, hattr₁⟩ := reach_sampling h hl
  obtain ⟨hserver, hlimit, hdown, hadd, hmod, hidx, heven, hodd, -⟩ := hl
  have hroom : s₁.attr.params.launchIdx.toInt + 1 < 2 ^ 31 := by
    rw [hattr₁]
    dsimp only
    omega
  obtain ⟨s₂, c, copied, h, hc, hrun, hpc, hnone, hserver₂, hlimit₂, hattr₂⟩ :=
    reach_published h hc hrun hpc hnone (by rw [hattr₁]) hroom
  rw [hattr₁] at hattr₂
  dsimp only at hattr₂
  have hticks : sampleTicks = 50 := by decide
  have hsample : minSampleUtil = 3 := by decide
  have hsuccMod := succ_toInt (by omega : s.attr.params.modTimes.toInt ≤ 3) (by omega)
  have hsuccAdd := succ_toInt (by omega : s.attr.params.addPerCycle.toInt ≤ 3) (by omega)
  have hsuccIdx := succ_toInt (by omega : s.attr.params.launchIdx.toInt ≤ 3) (by omega)
  have h := reach_raised h (by rw [hserver₂, hserver₁, hserver]) (by rw [hattr₂]; exact hdown)
    (by rw [hattr₂]; dsimp only; omega) (by rw [hattr₂]; dsimp only; omega)
  have hslot : s.attr.params.launchIdx % 2 = slot (k - 1) := mod_two (by omega)
  refine ⟨_, h, rfl, by rw [hlimit₂, hlimit₁, hlimit], rfl, ?_, ?_, ?_, ?_, ?_, c, copied, hc, hrun, hpc, hnone⟩
  · rw [hattr₂]
    dsimp only
    omega
  · rw [hattr₂]
    dsimp only
    omega
  · rw [hattr₂]
    dsimp only
    omega
  · intro _
    rw [hattr₂, hslot]
    refine update_one fun hne => heven ?_
    by_contra hk'
    exact hne (by rw [show k = 1 by omega]; rfl)
  · intro htwo
    rw [hattr₂, hslot]
    refine update_one fun hne => hodd ?_
    by_contra hk'
    exact hne (by rw [show k = 2 by omega]; rfl)

/-- The budget is raised to 4, and nothing is launched. -/
structure Idled (s : Container Unit Unit) (modTimes : ℤ) : Prop where
  server : s.server = .idle
  limit : s.limit = 10
  changed : s.attr.changed = 0
  addPerCycle : s.attr.params.addPerCycle = 4
  modTimes : s.attr.params.modTimes.toInt = modTimes
  cur : s.attr.params.avgLaunchs (s.attr.params.launchIdx % 2) = 1
  last : s.attr.params.avgLaunchs ((s.attr.params.launchIdx + 1) % 2) = 1

theorem Idled.adjusts {s : Container Unit Unit} (hi : Idled s 99) : Adjusts s.attr := by
  have hticks : sampleTicks = 50 := by decide
  have hsucc : (s.attr.params.modTimes + 1).toInt = 100 := by
    rw [Int32.toInt_add, Int32.toInt_one, hi.modTimes]
    decide
  rw [Adjusts, hsucc, hticks]
  decide

theorem Lowered.idled {s : Container Unit Unit} (hl : Lowered s 4) : Idled s 3 := by
  have heven := hl.even (by decide)
  have hodd := hl.odd (by decide)
  have hcur : s.attr.params.launchIdx % 2 = 1 := mod_two (n := 3) hl.launchIdx
  have hlast : (s.attr.params.launchIdx + 1) % 2 = 0 := succ_mod_two (n := 3) hl.launchIdx
  refine ⟨hl.server, hl.limit, hl.changed, ?_, hl.modTimes, by rw [hcur, hodd], by rw [hlast, heven]⟩
  rw [← Int32.toInt_inj, hl.addPerCycle]
  rfl

theorem reach_idled : ∃ s : Container Unit Unit, Warms s ∧ Idled s 3 := by
  have hserver : ∀ s : Container Unit Unit, s.server.Sets → Bounded s .server ∧ Plain s .server := by
    intro s hs
    refine ⟨trivial, ?_, ?_⟩
    · intro h
      rw [h] at hs
      exact hs rfl
    · intro util cur last old h
      rw [h] at hs
      exact absurd hs id
  have h : Warms _ := reach_announced hserver (reach_posted hserver reach_fresh)
  have h : Warms _ := reach_joined (fun _ => ⟨trivial, trivial⟩) (fun _ _ => ⟨trivial, trivial⟩) rfl h
  obtain ⟨s, h, hl⟩ := reach_lowered h ⟨rfl, rfl, rfl, rfl, rfl, rfl, fun h => absurd h (by decide),
    fun h => absurd h (by decide), _, _, rfl, rfl, rfl, fun _ => rfl⟩
  obtain ⟨s, h, hr⟩ := reach_cycle h hl (by decide)
  obtain ⟨s, h, hl⟩ := reach_lowered h hr
  obtain ⟨s, h, hr⟩ := reach_cycle h hl (by decide)
  obtain ⟨s, h, hl⟩ := reach_lowered h hr
  obtain ⟨s, h, hr⟩ := reach_cycle h hl (by decide)
  obtain ⟨s, h, hl⟩ := reach_lowered h hr
  exact ⟨s, h, hl.idled⟩

theorem reach_ticked {s : Container Unit Unit} {n : ℤ} (h : Warms s) (hi : Idled s n) (hn : 3 ≤ n) (hlt : n < 99) :
    ∃ s', Warms s' ∧ Idled s' (n + 1) := by
  obtain ⟨hserver, hlimit, hdown, hadd, hmod, hcur, hlast⟩ := hi
  have hticks : sampleTicks = 50 := by decide
  have hsample : minSampleUtil = 3 := by decide
  have hsucc : (s.attr.params.modTimes + 1).toInt = n + 1 := by
    rw [Int32.toInt_add, Int32.toInt_one, hmod, Int.bmod_eq_of_le (by omega) (by omega)]
  have hearly : ¬ Adjusts s.attr := by
    intro ha
    rw [Adjusts, hsucc, hticks] at ha
    omega
  have h := reach_counting 0 h hserver hdown
  have h := reach_delta (.count _ _ _) h rfl fun _ _ _ _ => hearly
  simp only [deltaStep, hsucc, hticks, hsample, hadd] at h
  by_cases hle : n + 1 ≤ 50
  · rw [if_pos hle, if_neg (by decide)] at h
    exact ⟨_, h, rfl, hlimit, hdown, rfl, hsucc, hcur, hlast⟩
  · rw [if_neg hle, if_neg (by omega)] at h
    exact ⟨_, h, rfl, hlimit, hdown, rfl, hsucc, hcur, hlast⟩

theorem reach_ninety_nine : ∃ s : Container Unit Unit, Warms s ∧ Idled s 99 := by
  have hticks : ∀ n : ℕ, n ≤ 96 → ∃ s : Container Unit Unit, Warms s ∧ Idled s (3 + n) := by
    intro n
    induction n with
    | zero => exact fun _ => reach_idled
    | succ n ih =>
      intro hle
      obtain ⟨s, h, hi⟩ := ih (by omega)
      obtain ⟨s', h', hi'⟩ := reach_ticked h hi (by omega) (by omega)
      refine ⟨s', h', ?_⟩
      rw [Nat.cast_succ, ← add_assoc]
      exact hi'
  exact hticks 96 (le_refl 96)

/-- On an idle device the reading is 0, and the budget is divided by a zero
    `util_per_kernel`. -/
theorem idle_divides_by_zero : ∃ s : Container Unit Unit, (floatContainer single Unit Unit true).Reach s ∧
    s.server = .delta 0 (.count 1 1 4) ∧ Adjusts s.attr ∧
    single (single (0 : Int32).toInt / single (1 : Int32).toInt) = 0 ∧
    ¬ Sound (0 : Int32).toInt s.limit.toInt (4 : Int32).toInt (1 : Int32).toInt (1 : Int32).toInt := by
  obtain ⟨s, h, hi⟩ := reach_ninety_nine
  have hzero : single (single (0 : Int32).toInt / single (1 : Int32).toInt) = 0 := Machine.perKernel_zero _
  have h := reach_counting 0 h hi.server hi.changed
  rw [hi.cur, hi.last, hi.addPerCycle] at h
  exact ⟨_, (reach_float single h).of_restrict, rfl, hi.adjusts, hzero, fun hs => hs.perKernel hzero⟩

/-- A reading of 5 at the same call. -/
theorem adjustment_sound_iff_run : ∃ s : Container Unit Unit,
    ((floatContainer single Unit Unit true).restrict Bounded).Reach s ∧
    s.server = .delta 5 (.count 1 1 4) ∧ Adjusts s.attr ∧
    (Sound (5 : Int32).toInt s.limit.toInt (4 : Int32).toInt (1 : Int32).toInt (1 : Int32).toInt ↔
      InRange (5 : Int32).toInt s.limit.toInt (4 : Int32).toInt (1 : Int32).toInt (1 : Int32).toInt) := by
  obtain ⟨s, h, hi⟩ := reach_ninety_nine
  have h := reach_counting 5 h hi.server hi.changed
  rw [hi.cur, hi.last, hi.addPerCycle] at h
  have h := reach_float single h
  exact ⟨_, h, rfl, hi.adjusts, adjustment_sound_iff h rfl hi.adjusts (by decide)⟩

end NvResourceController.Monitor
