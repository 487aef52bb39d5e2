/-
  NvResourceController.Monitor.Warmup — the calls of `delta_change`
  (`src/server_monitor.c`) before the first adjustment, beside one process
  (`src/ioctl_hook.c`) on the same attribute, whatever the order of their steps.

  - `client_progress`: what a step of the process keeps.
  - `warm_step`: the budget is raised from 1 to 4, and each raise waits until the process
    has lowered the flag, which it does once in a cycle; so when it is 4 both averages are
    published.
-/

import NvResourceController.Monitor.Averages

namespace NvResourceController.Monitor

open Limiter

variable {F : Type}

/-! ## The average -/

/-- The positive samples, added up without overflow. -/
def sampleSum (launchTimes : Int32 → Int32) : List Int32 → ℤ
  | [] => 0
  | i :: rest => sampleSum launchTimes rest + if launchTimes i > 0 then (launchTimes i).toInt else 0

theorem sampleSum_nonneg (launchTimes : Int32 → Int32) (is : List Int32) : 0 ≤ sampleSum launchTimes is := by
  induction is with
  | nil => exact le_refl 0
  | cons i rest ih =>
    rw [sampleSum]
    split
    · rename_i hpos
      have : (0 : Int32).toInt < (launchTimes i).toInt := Int32.lt_iff_toInt_lt.mp hpos
      rw [Int32.toInt_zero] at this
      omega
    · omega

theorem sumLaunch_eq {launchTimes : Int32 → Int32} {is : List Int32} (hsum : sampleSum launchTimes is < 2 ^ 31)
    (hlen : is.length < 2 ^ 31) :
    (sumLaunch launchTimes is).1.toInt = sampleSum launchTimes is ∧ 0 ≤ (sumLaunch launchTimes is).2.toInt ∧
      (sumLaunch launchTimes is).2.toInt ≤ is.length := by
  induction is with
  | nil => exact ⟨rfl, le_refl 0, le_refl 0⟩
  | cons i rest ih =>
    have hrest := sampleSum_nonneg launchTimes rest
    rw [sampleSum] at hsum ⊢
    rw [List.length_cons] at hlen ⊢
    rw [sumLaunch]
    dsimp only
    split
    · rename_i hpos
      have hpos' : (0 : Int32).toInt < (launchTimes i).toInt := Int32.lt_iff_toInt_lt.mp hpos
      rw [Int32.toInt_zero] at hpos'
      rw [if_pos hpos] at hsum
      obtain ⟨h₁, h₂, h₃⟩ := ih (by omega) (by omega)
      rw [Int32.toInt_add, Int32.toInt_add, Int32.toInt_one, h₁, Int.bmod_eq_of_le (by omega) (by omega),
        Int.bmod_eq_of_le (by omega) (by omega)]
      omega
    · rename_i hpos
      rw [if_neg hpos] at hsum
      obtain ⟨h₁, h₂, h₃⟩ := ih (by omega) (by omega)
      refine ⟨?_, h₂, h₃.trans (by omega)⟩
      rw [h₁]
      omega

theorem quotient_eq {sum j : Int32} (hsum : 0 ≤ sum.toInt) (hj : 0 ≤ j.toInt) (hlt : j.toInt < 2 ^ 31 - 1) :
    (sum / (j + 1)).toInt = sum.toInt / (j.toInt + 1) := by
  have hsucc : (j + 1).toInt = j.toInt + 1 := by
    rw [Int32.toInt_add, Int32.toInt_one, Int.bmod_eq_of_le (by omega) (by omega)]
  have hne : j + 1 ≠ -1 := by
    intro h
    have h := congrArg Int32.toInt h
    rw [hsucc, (by decide : (-1 : Int32).toInt = -1)] at h
    omega
  rw [Int32.toInt_div_of_ne_right _ _ hne, hsucc, Int.tdiv_eq_ediv_of_nonneg hsum]

theorem one_le_quotient {sum j : Int32} (hsum : 0 ≤ sum.toInt) (hj : 0 ≤ j.toInt ∧ j.toInt ≤ 10) :
    1 ≤ (if sum / (j + 1) ≠ 0 then sum / (j + 1) else 1).toInt := by
  have hdiv : 0 ≤ (sum / (j + 1)).toInt := by
    rw [quotient_eq hsum hj.1 (by omega)]
    exact Int.ediv_nonneg hsum (by omega)
  split
  · rename_i hzero
    rw [ne_eq, ← Int32.toInt_inj, Int32.toInt_zero] at hzero
    omega
  · decide

theorem one_le_avgLaunch {launchTimes : Int32 → Int32}
    (hsum : sampleSum launchTimes [0, 1, 2, 3, 4, 5, 6, 7, 8, 9] < 2 ^ 31) : 1 ≤ (avgLaunch launchTimes).toInt := by
  obtain ⟨h₁, h₂, h₃⟩ := sumLaunch_eq hsum (by decide)
  have hnonneg : 0 ≤ (sumLaunch launchTimes [0, 1, 2, 3, 4, 5, 6, 7, 8, 9]).1.toInt := by
    rw [h₁]
    exact sampleSum_nonneg launchTimes _
  exact one_le_quotient hnonneg ⟨h₂, h₃⟩

/-! ## A cycle of the process -/

/-- The samples add up, and the index does not run over. -/
def Bounded {ι : Type} (s : Container ι F) : Event ι F → Prop
  | .client i .publish => ∀ c copied, s.clients i = .running c copied →
      sampleSum c.post.launchTimes [0, 1, 2, 3, 4, 5, 6, 7, 8, 9] < 2 ^ 31
  | .client _ .next => s.attr.params.launchIdx.toInt + 1 < 2 ^ 31
  | _ => True

def Proc.thread : Proc F → Option TokenPost
  | .running c _ => some c.post
  | _ => none

/-- Whether the thread has looked at the flag in its present cycle. -/
def looked : Option TokenPost → ℤ
  | some t =>
    match t.pc with
    | .load | .copyWait | .copyAdd | .clear => 0
    | _ => 1
  | none => 0

/-- How often the flag can have been lowered. -/
def lowered (attr : TokenAttr) (t : Option TokenPost) : ℤ := attr.params.launchIdx.toInt + looked t

/-- Both averages are published. -/
structure Filled (attr : TokenAttr) : Prop where
  even : 1 ≤ (attr.params.avgLaunchs 0).toInt
  odd : 1 ≤ (attr.params.avgLaunchs 1).toInt

/-- At most two cycles were completed, and the budget is what raises it by as much. -/
structure Warming (attr : TokenAttr) (t : Option TokenPost) : Prop where
  idx : attr.params.launchIdx.toInt ≤ 2
  odd : attr.params.launchIdx.toInt = 2 → 1 ≤ (attr.params.avgLaunchs 1).toInt
  next : ∀ p, t = some p → p.pc = .next → attr.params.launchIdx.toInt ≤ 1 ∧
    (attr.params.launchIdx.toInt = 1 → 1 ≤ (attr.params.avgLaunchs 1).toInt)
  read : ∀ p, t = some p → p.pc = .publish → 1 ≤ attr.params.launchIdx.toInt → p.launchIdx = attr.params.launchIdx
  budget : attr.params.addPerCycle.toInt ≤ lowered attr t + 1

/-- What a step of the process keeps of the warm-up. -/
structure Progress (attr : TokenAttr) (t : Option TokenPost) (attr' : TokenAttr) (t' : Option TokenPost) : Prop where
  addPerCycle : attr'.params.addPerCycle = attr.params.addPerCycle
  modTimes : attr'.params.modTimes = attr.params.modTimes
  coreLimit : attr'.params.coreLimit = attr.params.coreLimit
  idx : 0 ≤ attr'.params.launchIdx.toInt
  mono : lowered attr t ≤ lowered attr' t'
  changed : attr'.changed = attr.changed ∨ lowered attr t + 1 ≤ lowered attr' t'
  filled : Filled attr → Filled attr'
  warming : Warming attr t → Filled attr' ∨ Warming attr' t'

theorem Progress.of_same {attr attr' : TokenAttr} {t t' : Option TokenPost} (hidx : 0 ≤ attr.params.launchIdx.toInt)
    (hparams : attr'.params = { attr.params with launchTimes := attr'.params.launchTimes })
    (hlooked : looked t ≤ looked t') (hchanged : attr'.changed = attr.changed ∨ looked t + 1 ≤ looked t')
    (hnext : ∀ p, t' = some p → p.pc = .next → t = t')
    (hread : ∀ p, t' = some p → p.pc = .publish → p.launchIdx = attr.params.launchIdx ∨ t = t') :
    Progress attr t attr' t' := by
  have hlaunch : attr'.params.launchIdx = attr.params.launchIdx := by rw [hparams]
  have havg : attr'.params.avgLaunchs = attr.params.avgLaunchs := by rw [hparams]
  have hadd : attr'.params.addPerCycle = attr.params.addPerCycle := by rw [hparams]
  have hmono : lowered attr t ≤ lowered attr' t' := by
    rw [lowered, lowered, hlaunch]
    omega
  refine ⟨hadd, by rw [hparams], by rw [hparams], by rw [hlaunch]; exact hidx, hmono, hchanged.imp id ?_, ?_, ?_⟩
  · intro h
    rw [lowered, lowered, hlaunch]
    omega
  · intro h
    exact ⟨by rw [havg]; exact h.even, by rw [havg]; exact h.odd⟩
  · intro h
    refine Or.inr ⟨by rw [hlaunch]; exact h.idx, by rw [hlaunch, havg]; exact h.odd, ?_, ?_, ?_⟩
    · intro p hp hpc
      rw [hlaunch, havg]
      exact h.next p ((hnext p hp hpc).trans hp) hpc
    · intro p hp hpc hone
      rw [hlaunch] at hone ⊢
      rcases hread p hp hpc with hr | ht
      · exact hr
      · exact h.read p (ht.trans hp) hpc hone
    · rw [hadd]
      have := h.budget
      omega

theorem Progress.publish {c : Client F} (hidx : 0 ≤ c.attr.params.launchIdx.toInt) (hpc : c.post.pc = .publish)
    {avg : Int32} (havg : 1 ≤ avg.toInt) :
    Progress c.attr (some c.post)
      { c.attr with params := { c.attr.params with
        avgLaunchs := Function.update c.attr.params.avgLaunchs (c.post.launchIdx % 2) avg } }
      (some { c.post with pc := .next }) := by
  have hlooked : looked (some { c.post with pc := .next }) = looked (some c.post) := by simp [looked, hpc]
  have hslot : ∀ i, 1 ≤ (c.attr.params.avgLaunchs i).toInt →
      1 ≤ (Function.update c.attr.params.avgLaunchs (c.post.launchIdx % 2) avg i).toInt := by
    intro i hi
    by_cases h : i = c.post.launchIdx % 2
    · rw [h, Function.update_self]
      exact havg
    · rw [Function.update_of_ne h]
      exact hi
  have hstored : ∀ n : ℕ, c.attr.params.launchIdx.toInt = n → c.post.launchIdx = c.attr.params.launchIdx →
      1 ≤ (Function.update c.attr.params.avgLaunchs (c.post.launchIdx % 2) avg (slot n)).toInt := by
    intro n hn hread
    rw [hread, mod_two hn, Function.update_self]
    exact havg
  refine ⟨rfl, rfl, rfl, hidx, ?_, Or.inl rfl, fun h => ⟨hslot 0 h.even, hslot 1 h.odd⟩, ?_⟩
  · rw [lowered, lowered, hlooked]
  · intro h
    by_cases htwo : c.attr.params.launchIdx.toInt = 2
    · exact Or.inl ⟨hstored 2 htwo (h.read _ rfl hpc (by omega)), hslot 1 (h.odd htwo)⟩
    · have hle := h.idx
      refine Or.inr ⟨hle, fun he => absurd he htwo, ?_, ?_, ?_⟩
      · intro p hp _
        exact ⟨by simp only; omega, fun hone => hstored 1 hone (h.read _ rfl hpc hone.ge)⟩
      · intro p hp hp'
        cases hp
        cases hp'
      · have hbudget := h.budget
        rw [lowered] at hbudget ⊢
        rw [hlooked]
        exact hbudget

theorem Progress.next {c : Client F} (hidx : 0 ≤ c.attr.params.launchIdx.toInt) (hpc : c.post.pc = .next)
    (hlt : c.attr.params.launchIdx.toInt + 1 < 2 ^ 31) :
    Progress c.attr (some c.post)
      { c.attr with params := { c.attr.params with launchIdx := c.attr.params.launchIdx + 1 } }
      (some { c.post with pc := .load }) := by
  have hsucc : (c.attr.params.launchIdx + 1).toInt = c.attr.params.launchIdx.toInt + 1 := by
    rw [Int32.toInt_add, Int32.toInt_one, Int.bmod_eq_of_le (by omega) (by omega)]
  have hlooked : looked (some c.post) = 1 := by simp [looked, hpc]
  have hlowered : lowered { c.attr with params := { c.attr.params with launchIdx := c.attr.params.launchIdx + 1 } }
      (some { c.post with pc := .load }) = lowered c.attr (some c.post) := by
    simp only [lowered, hsucc, hlooked]
    simp [looked]
  refine ⟨rfl, rfl, rfl, by rw [hsucc]; omega, hlowered.ge, Or.inl rfl, fun h => ⟨h.even, h.odd⟩, ?_⟩
  intro h
  obtain ⟨hone, hodd⟩ := h.next _ rfl hpc
  refine Or.inr ⟨by simp only [hsucc]; omega, fun htwo => hodd ?_, ?_, ?_, ?_⟩
  · simp only [hsucc] at htwo
    omega
  · intro p hp hp'
    cases hp
    cases hp'
  · intro p hp hp'
    cases hp
    cases hp'
  · rw [hlowered]
    exact h.budget

theorem Progress.thread {c c' : Client F} (hidx : 0 ≤ c.attr.params.launchIdx.toInt)
    (hparams : c'.attr.params = { c.attr.params with launchTimes := c'.attr.params.launchTimes })
    (hlooked : looked (some c.post) ≤ looked (some c'.post))
    (hchanged : c'.attr.changed = c.attr.changed ∨ looked (some c.post) + 1 ≤ looked (some c'.post))
    (hnext : c'.post.pc ≠ .next) (hread : c'.post.pc ≠ .publish ∨ c'.post.launchIdx = c.attr.params.launchIdx) :
    Progress c.attr (some c.post) c'.attr (some c'.post) := by
  refine Progress.of_same hidx hparams hlooked hchanged ?_ ?_
  · intro p hp hpc
    cases hp
    exact absurd hpc hnext
  · intro p hp hpc
    cases hp
    exact Or.inl (hread.resolve_left fun h => h hpc)

theorem Progress.application {c c' : Client F} (hidx : 0 ≤ c.attr.params.launchIdx.toInt)
    (hparams : c'.attr.params = { c.attr.params with launchTimes := c'.attr.params.launchTimes })
    (hchanged : c'.attr.changed = c.attr.changed) (hpost : c'.post = c.post) :
    Progress c.attr (some c.post) c'.attr (some c'.post) := by
  rw [hpost]
  exact Progress.of_same hidx hparams (le_refl _) (Or.inl hchanged) (fun _ _ _ => rfl) fun _ _ _ => Or.inr rfl

theorem client_progress {c c' : Client F} {e : Limiter.Event F} (hidx : 0 ≤ c.attr.params.launchIdx.toInt)
    (hown : IsOwn e)
    (hpublish : e = .publish → sampleSum c.post.launchTimes [0, 1, 2, 3, 4, 5, 6, 7, 8, 9] < 2 ^ 31)
    (hnext : e = .next → c.attr.params.launchIdx.toInt + 1 < 2 ^ 31) (h : Limiter.Step c e c') :
    Progress c.attr (some c.post) c'.attr (some c'.post) := by
  cases h with
  | load hpc =>
    have hlooked : looked (some c.post) = 0 := by simp [looked, hpc]
    by_cases hchanged : c.attr.changed = 0
    · exact .thread hidx rfl (by simp [looked, hpc, hchanged]) (Or.inl rfl) (by simp [hchanged])
        (Or.inl (by simp [hchanged]))
    · exact .thread hidx rfl (by simp [looked, hpc, hchanged]) (Or.inl rfl) (by simp [hchanged])
        (Or.inl (by simp [hchanged]))
  | copyWait hpc => exact .thread hidx rfl (by simp [looked, hpc]) (Or.inl rfl) nofun (Or.inl nofun)
  | copyAdd hpc => exact .thread hidx rfl (by simp [looked, hpc]) (Or.inl rfl) nofun (Or.inl nofun)
  | clear hpc =>
    exact .thread hidx rfl (by simp [looked, hpc]) (Or.inr (by simp [looked, hpc])) nofun (Or.inl nofun)
  | reset hpc => exact .thread hidx rfl (by simp [looked, hpc]) (Or.inl rfl) nofun (Or.inl nofun)
  | sleep hpc => exact .thread hidx rfl (by simp [looked, hpc]) (Or.inl rfl) nofun (Or.inl nofun)
  | post hpc _ => exact .thread hidx rfl (by simp [looked, hpc]) (Or.inl rfl) (by simp [hpc]) (Or.inl (by simp [hpc]))
  | posted hpc _ => exact .thread hidx rfl (by simp [looked, hpc]) (Or.inl rfl) nofun (Or.inl nofun)
  | sample hpc => exact .thread hidx rfl (by simp [looked, hpc]) (Or.inl rfl) nofun (Or.inl nofun)
  | index hpc => exact .thread hidx rfl (by simp [looked, hpc]) (Or.inl rfl) nofun (Or.inr rfl)
  | publish hpc => exact .publish hidx hpc (one_le_avgLaunch (hpublish rfl))
  | next hpc => exact .next hidx hpc (hnext rfl)
  | shared attr => exact absurd hown id
  | _ => exact .application hidx rfl rfl rfl

/-! ## The monitor -/

/-- The index counts what was published, and the budget what raised it. -/
structure Counted (attr : TokenAttr) : Prop where
  nonneg : 0 ≤ attr.params.modTimes.toInt
  le : attr.params.modTimes.toInt ≤ attr.params.addPerCycle.toInt

/-- Both averages are published, or the process is not far behind the budget. -/
def Settled (attr : TokenAttr) (t : Option TokenPost) : Prop := Filled attr ∨ Warming attr t ∧ Counted attr

/-- And the flag, if it is down, was lowered for the present budget. -/
def Turn (attr : TokenAttr) (t : Option TokenPost) : Prop :=
  Filled attr ∨ (Warming attr t ∧ Counted attr ∧
    (attr.changed = 0 → attr.params.addPerCycle.toInt ≤ lowered attr t))

/-- And it is down, and `delta_change` has seen it. -/
def Taken (attr : TokenAttr) (t : Option TokenPost) : Prop :=
  Filled attr ∨ (Warming attr t ∧ Counted attr ∧ attr.params.addPerCycle.toInt ≤ lowered attr t)

/-- How far the warm-up is at a step of `init_attr`. -/
def InitWarm (limit : Int32) (attr : TokenAttr) (t : Option TokenPost) : InitPc → Prop
  | .addPerCycle => attr.params.modTimes = 0
  | .avg0 | .avg1 | .launchIdx =>
    attr.params.modTimes = 0 ∧ 0 ≤ attr.params.addPerCycle.toInt ∧ attr.params.addPerCycle.toInt ≤ 1
  | .newModTimes => Settled attr t ∧ (attr.params.coreLimit = limit ∨ attr.params.addPerCycle = 0)
  | .scale =>
    Settled attr t ∧ attr.params.modTimes = 0 ∧ (attr.params.coreLimit = limit ∨ attr.params.addPerCycle = 0)
  | .storeScaled newCycle =>
    1 ≤ newCycle.toInt ∧
      (Filled attr ∨ (Warming attr t ∧ attr.params.modTimes = 0 ∧ newCycle.toInt ≤ lowered attr t + 1))
  | _ => Settled attr t

/-- The averages are read when they are published, or long before an adjustment. -/
def Seen (attr : TokenAttr) : DeltaPc → Prop
  | .cur idx => 0 ≤ idx.toInt
  | .last idx cur => 0 ≤ idx.toInt ∧ (1 ≤ cur.toInt ∨ attr.params.modTimes.toInt ≤ 3)
  | .old cur last => (1 ≤ cur.toInt ∧ 1 ≤ last.toInt) ∨ attr.params.modTimes.toInt ≤ 3
  | .count cur last oldCycle =>
    ((1 ≤ cur.toInt ∧ 1 ≤ last.toInt) ∨ attr.params.modTimes.toInt ≤ 3) ∧ oldCycle = attr.params.addPerCycle
  | _ => True

/-- And at a step of `delta_change`. -/
def DeltaWarm (attr : TokenAttr) (t : Option TokenPost) : DeltaPc → Prop
  | .changed => Turn attr t
  | .store newCycle =>
    1 ≤ newCycle.toInt ∧ (Filled attr ∨ (Warming attr t ∧ 0 ≤ attr.params.modTimes.toInt ∧
      attr.params.modTimes.toInt ≤ newCycle.toInt ∧ newCycle.toInt ≤ lowered attr t + 1))
  | .announce => Settled attr t
  | pc => Taken attr t ∧ Seen attr pc

def ServerWarm (limit : Int32) (attr : TokenAttr) (t : Option TokenPost) : Server → Prop
  | .attach | .zero => Settled attr t
  | .init pc => InitWarm limit attr t pc
  | .idle => Turn attr t
  | .delta _ pc => DeltaWarm attr t pc

/-- There is a budget once a call was counted. -/
def Funded (attr : TokenAttr) : Server → Prop
  | .delta _ (.store _) => True
  | _ => 1 ≤ attr.params.addPerCycle.toInt ∨ (attr.params.addPerCycle = 0 ∧ attr.params.modTimes = 0)

structure WarmAt (limit : Int32) (attr : TokenAttr) (t : Option TokenPost) (server : Server) : Prop where
  idx : 0 ≤ attr.params.launchIdx.toInt
  funded : Funded attr server
  stage : ServerWarm limit attr t server

theorem looked_nonneg (t : Option TokenPost) : 0 ≤ looked t := by
  unfold looked
  split
  · split <;> omega
  · omega

theorem looked_le_one (t : Option TokenPost) : looked t ≤ 1 := by
  unfold looked
  split
  · split <;> omega
  · omega

/-! ### The process goes on -/

section

variable {limit : Int32} {attr attr' : TokenAttr} {t t' : Option TokenPost}

theorem Progress.counted (hp : Progress attr t attr' t') (h : Counted attr) : Counted attr' :=
  ⟨by rw [hp.modTimes]; exact h.nonneg, by rw [hp.modTimes, hp.addPerCycle]; exact h.le⟩

theorem Progress.settled (hp : Progress attr t attr' t') (h : Settled attr t) : Settled attr' t' := by
  rcases h with h | ⟨hw, hc⟩
  · exact Or.inl (hp.filled h)
  · exact (hp.warming hw).imp id fun hw => ⟨hw, hp.counted hc⟩

theorem Progress.taken (hp : Progress attr t attr' t') (h : Taken attr t) : Taken attr' t' := by
  rcases h with h | ⟨hw, hc, hle⟩
  · exact Or.inl (hp.filled h)
  · refine (hp.warming hw).imp id fun hw => ⟨hw, hp.counted hc, ?_⟩
    rw [hp.addPerCycle]
    exact hle.trans hp.mono

theorem Progress.turn (hp : Progress attr t attr' t') (h : Turn attr t) : Turn attr' t' := by
  rcases h with h | ⟨hw, hc, hle⟩
  · exact Or.inl (hp.filled h)
  · refine (hp.warming hw).imp id fun hw' => ⟨hw', hp.counted hc, ?_⟩
    intro hdown
    rw [hp.addPerCycle]
    rcases hp.changed with he | hlt
    · rw [he] at hdown
      exact (hle hdown).trans hp.mono
    · -- the flag was lowered, once more
      exact hw.budget.trans hlt

theorem Progress.initWarm {pc : InitPc} (hp : Progress attr t attr' t') (h : InitWarm limit attr t pc) :
    InitWarm limit attr' t' pc := by
  cases pc with
  | addPerCycle => exact hp.modTimes.trans h
  | avg0 => simpa only [InitWarm, hp.modTimes, hp.addPerCycle] using h
  | avg1 => simpa only [InitWarm, hp.modTimes, hp.addPerCycle] using h
  | launchIdx => simpa only [InitWarm, hp.modTimes, hp.addPerCycle] using h
  | newModTimes =>
    obtain ⟨hs, hcore⟩ := h
    exact ⟨hp.settled hs, by rw [hp.coreLimit, hp.addPerCycle]; exact hcore⟩
  | scale =>
    obtain ⟨hs, hm, hcore⟩ := h
    exact ⟨hp.settled hs, by rw [hp.modTimes]; exact hm, by rw [hp.coreLimit, hp.addPerCycle]; exact hcore⟩
  | storeScaled newCycle =>
    obtain ⟨hone, h⟩ := h
    refine ⟨hone, ?_⟩
    rcases h with h | ⟨hw, hm, hle⟩
    · exact Or.inl (hp.filled h)
    · refine (hp.warming hw).imp id fun hw => ⟨hw, by rw [hp.modTimes]; exact hm, ?_⟩
      have := hp.mono
      omega
  | _ => exact hp.settled h

theorem Progress.seen {pc : DeltaPc} (hp : Progress attr t attr' t') (h : Seen attr pc) : Seen attr' pc := by
  unfold Seen at h ⊢
  rw [hp.modTimes, hp.addPerCycle]
  exact h

theorem Progress.deltaWarm {pc : DeltaPc} (hp : Progress attr t attr' t') (h : DeltaWarm attr t pc) :
    DeltaWarm attr' t' pc := by
  cases pc with
  | changed => exact hp.turn h
  | announce => exact hp.settled h
  | store newCycle =>
    obtain ⟨hone, h⟩ := h
    refine ⟨hone, ?_⟩
    rcases h with h | ⟨hw, hm⟩
    · exact Or.inl (hp.filled h)
    · refine (hp.warming hw).imp id fun hw => ⟨hw, ?_⟩
      rw [hp.modTimes]
      have := hp.mono
      omega
  | _ => exact ⟨hp.taken h.1, hp.seen h.2⟩

theorem Progress.warmAt {server : Server} (hp : Progress attr t attr' t') (h : WarmAt limit attr t server) :
    WarmAt limit attr' t' server := by
  refine ⟨hp.idx, ?_, ?_⟩
  · have hf := h.funded
    unfold Funded at hf ⊢
    rw [hp.addPerCycle, hp.modTimes]
    exact hf
  · have hs := h.stage
    cases server with
    | attach => exact hp.settled hs
    | zero => exact hp.settled hs
    | init pc => exact hp.initWarm hs
    | idle => exact hp.turn hs
    | delta util pc => exact hp.deltaWarm hs

end

/-! ### The monitor goes on -/

section

variable {limit util : Int32} {attr attr' : TokenAttr} {t : Option TokenPost}

theorem Warming.same (h : Warming attr t) (havg : attr'.params.avgLaunchs = attr.params.avgLaunchs)
    (hidx : attr'.params.launchIdx = attr.params.launchIdx)
    (hbudget : attr'.params.addPerCycle.toInt ≤ lowered attr t + 1) : Warming attr' t := by
  refine ⟨?_, ?_, ?_, ?_, ?_⟩
  · rw [hidx]
    exact h.idx
  · rw [hidx, havg]
    exact h.odd
  · rw [hidx, havg]
    exact h.next
  · rw [hidx]
    exact h.read
  · rw [lowered, hidx]
    exact hbudget

theorem Filled.same (h : Filled attr) (havg : attr'.params.avgLaunchs = attr.params.avgLaunchs) : Filled attr' :=
  ⟨by rw [havg]; exact h.even, by rw [havg]; exact h.odd⟩

theorem Settled.store (h : Settled attr t) (havg : attr'.params.avgLaunchs = attr.params.avgLaunchs)
    (hidx : attr'.params.launchIdx = attr.params.launchIdx)
    (hbudget : Warming attr t → Counted attr → Counted attr' ∧ attr'.params.addPerCycle.toInt ≤ lowered attr t + 1) :
    Settled attr' t := by
  rcases h with h | ⟨hw, hc⟩
  · exact Or.inl (h.same havg)
  · obtain ⟨hc', hle⟩ := hbudget hw hc
    exact Or.inr ⟨hw.same havg hidx hle, hc'⟩

theorem Settled.same (h : Settled attr t) (havg : attr'.params.avgLaunchs = attr.params.avgLaunchs)
    (hidx : attr'.params.launchIdx = attr.params.launchIdx)
    (hadd : attr'.params.addPerCycle = attr.params.addPerCycle) (hmod : attr'.params.modTimes = attr.params.modTimes) :
    Settled attr' t :=
  h.store havg hidx fun hw hc =>
    ⟨⟨by rw [hmod]; exact hc.nonneg, by rw [hmod, hadd]; exact hc.le⟩, by rw [hadd]; exact hw.budget⟩

theorem Settled.announced (h : Settled attr t) : Turn { attr with changed := 1 } t := by
  rcases h with h | ⟨hw, hc⟩
  · exact Or.inl (h.same rfl)
  · exact Or.inr ⟨hw.same rfl rfl hw.budget, ⟨hc.nonneg, hc.le⟩, fun h => absurd h (by decide : ¬ (1 : Int32) = 0)⟩

theorem lowered_nonneg (hidx : 0 ≤ attr.params.launchIdx.toInt) : 0 ≤ lowered attr t :=
  add_nonneg hidx (looked_nonneg t)

theorem warming_of_zero (hidx : attr.params.launchIdx = 0) (hbudget : attr.params.addPerCycle.toInt ≤ 1) :
    Warming attr t := by
  have hzero : attr.params.launchIdx.toInt = 0 := by rw [hidx, Int32.toInt_zero]
  refine ⟨by omega, fun h => by omega, fun p _ _ => ⟨by omega, fun h => by omega⟩, fun p _ _ h => by omega, ?_⟩
  have := lowered_nonneg (t := t) hzero.ge
  omega

theorem scaledCycle_of_same {add coreLimit : Int32} (hadd : 0 ≤ add.toInt) (hcore : coreLimit = limit ∨ add = 0) :
    scaledCycle wrap add.toInt coreLimit.toInt limit.toInt = max 1 add.toInt ∨
      scaledCycle wrap add.toInt coreLimit.toInt limit.toInt = 1 := by
  have hzero : wrap (trunc 0) = 0 := by decide +kernel
  unfold scaledCycle
  dsimp only
  rcases hcore with rfl | rfl
  · by_cases hl : coreLimit.toInt = 0
    · rw [hl, Int.cast_zero, mul_zero, zero_div, hzero]
      exact Or.inr rfl
    · have hne : (coreLimit.toInt : ℚ) ≠ 0 := by exact_mod_cast hl
      rw [mul_div_assoc, div_self hne, mul_one, trunc_intCast, wrap_toInt]
      omega
  · rw [Int32.toInt_zero, Int.cast_zero, zero_mul, zero_div, hzero]
    exact Or.inr rfl

theorem scaled_le {add coreLimit : Int32} (limit : Int32) (hadd : 0 ≤ add.toInt)
    (hcore : coreLimit = limit ∨ add = 0) :
    1 ≤ (Int32.ofInt (scaledCycle wrap add.toInt coreLimit.toInt limit.toInt)).toInt ∧
      (Int32.ofInt (scaledCycle wrap add.toInt coreLimit.toInt limit.toInt)).toInt ≤ max 1 add.toInt := by
  have hlt := add.toInt_lt
  rcases scaledCycle_of_same hadd hcore with h | h
  · rw [h, Int32.toInt_ofInt_of_le (by omega) (by omega)]
    omega
  · rw [h, Int32.toInt_ofInt_of_le (by omega) (by omega)]
    omega

theorem initStep_warm {pc : InitPc} (h : WarmAt limit attr t (.init pc)) :
    WarmAt limit (initStep limit attr pc).1 t (initStep limit attr pc).2 := by
  obtain ⟨hidx, hf, hs⟩ := h
  have hf : 1 ≤ attr.params.addPerCycle.toInt ∨ (attr.params.addPerCycle = 0 ∧ attr.params.modTimes = 0) := hf
  cases pc with
  | testInited =>
    simp only [initStep]
    split
    · exact ⟨hidx, hf, hs⟩
    · exact ⟨hidx, hf, hs⟩
  | coreLimit => exact ⟨hidx, hf, Settled.same hs rfl rfl rfl rfl⟩
  | modTimes => exact ⟨hidx, hf.imp id fun h => ⟨h.1, rfl⟩, rfl⟩
  | addPerCycle => exact ⟨hidx, Or.inl (by decide : (1 : ℤ) ≤ (1 : Int32).toInt), hs,
      (by decide : (0 : ℤ) ≤ (1 : Int32).toInt), (by decide : (1 : Int32).toInt ≤ 1)⟩
  | avg0 => exact ⟨hidx, hf, hs⟩
  | avg1 => exact ⟨hidx, hf, hs⟩
  | launchIdx =>
    obtain ⟨hm, hlow, hhigh⟩ := hs
    refine ⟨le_refl 0, hf, Or.inr ⟨warming_of_zero rfl hhigh, ?_, ?_⟩⟩
    · simp only [initStep, hm]
      decide
    · simp only [initStep, hm, Int32.toInt_zero]
      exact hlow
  | waitSec => exact ⟨hidx, hf, Settled.same hs rfl rfl rfl rfl⟩
  | waitNsec => exact ⟨hidx, hf, Settled.same hs rfl rfl rfl rfl⟩
  | inited => exact ⟨hidx, hf, Settled.same hs rfl rfl rfl rfl⟩
  | post => exact ⟨hidx, hf, Settled.same hs rfl rfl rfl rfl⟩
  | testLimit =>
    simp only [initStep]
    split
    · exact ⟨hidx, hf, hs⟩
    · exact ⟨hidx, hf, hs⟩
  | newLimit => exact ⟨hidx, hf, Settled.same hs rfl rfl rfl rfl, Or.inl rfl⟩
  | newModTimes =>
    obtain ⟨hs, hcore⟩ := hs
    refine ⟨hidx, hf.imp id fun h => ⟨h.1, rfl⟩, Settled.store hs rfl rfl ?_, rfl, hcore⟩
    intro hw hc
    exact ⟨⟨le_refl 0, le_trans hc.nonneg hc.le⟩, hw.budget⟩
  | scale =>
    obtain ⟨hs, hm, hcore⟩ := hs
    have hadd : 0 ≤ attr.params.addPerCycle.toInt := by
      rcases hf with h | h
      · omega
      · rw [h.1, Int32.toInt_zero]
    obtain ⟨hone, hle⟩ := scaled_le limit hadd hcore
    refine ⟨hidx, hf, hone, ?_⟩
    rcases hs with h | ⟨hw, hc⟩
    · exact Or.inl h
    · have hbudget := hw.budget
      have hpos := lowered_nonneg (t := t) hidx
      exact Or.inr ⟨hw, hm, by simp only [initStep]; omega⟩
  | storeScaled newCycle =>
    obtain ⟨hone, hs⟩ := hs
    refine ⟨hidx, Or.inl hone, ?_⟩
    rcases hs with h | ⟨hw, hm, hle⟩
    · exact Or.inl (h.same rfl)
    · refine Or.inr ⟨hw.same rfl rfl hle, ?_, ?_⟩
      · simp only [initStep, hm]
        decide
      · simp only [initStep, hm, Int32.toInt_zero]
        omega
  | changed => exact ⟨hidx, hf, Settled.announced hs⟩

/-- While the budget is taken in the warm-up, it is small. -/
theorem Warming.count_le (hw : Warming attr t) (hc : Counted attr)
    (hle : attr.params.addPerCycle.toInt ≤ lowered attr t) : attr.params.modTimes.toInt ≤ 3 := by
  have hidx := hw.idx
  have hmod := hc.le
  have hlooked := looked_le_one t
  rw [lowered] at hle
  omega

theorem Taken.read (h : Taken attr t) {x : Int32} (hx : 0 ≤ x.toInt ∨ ∃ y : Int32, 0 ≤ y.toInt ∧ x = y + 1) :
    1 ≤ (attr.params.avgLaunchs (x % 2)).toInt ∨ attr.params.modTimes.toInt ≤ 3 := by
  rcases h with h | ⟨hw, hc, hle⟩
  · have hslot : ∃ n, x % 2 = slot n := by
      rcases hx with hx | ⟨y, hy, rfl⟩
      · obtain ⟨n, hn⟩ := Int.eq_ofNat_of_zero_le hx
        exact ⟨n, mod_two hn⟩
      · obtain ⟨n, hn⟩ := Int.eq_ofNat_of_zero_le hy
        exact ⟨n + 1, succ_mod_two hn⟩
    obtain ⟨n, hn⟩ := hslot
    rw [hn, slot]
    split
    · exact Or.inl h.even
    · exact Or.inl h.odd
  · exact Or.inr (hw.count_le hc hle)

theorem succ_toInt {x : Int32} (h : x.toInt ≤ 3) (hnonneg : 0 ≤ x.toInt) : (x + 1).toInt = x.toInt + 1 := by
  rw [Int32.toInt_add, Int32.toInt_one, Int.bmod_eq_of_le (by omega) (by omega)]

theorem countStep_warm {cur last oldCycle : Int32} (h : WarmAt limit attr t (.delta util (.count cur last oldCycle))) :
    WarmAt limit (deltaStep limit util attr (.count cur last oldCycle)).1 t
      (deltaStep limit util attr (.count cur last oldCycle)).2 := by
  obtain ⟨hidx, hf, hs, -, hold⟩ := h
  have hf : 1 ≤ attr.params.addPerCycle.toInt ∨ (attr.params.addPerCycle = 0 ∧ attr.params.modTimes = 0) := hf
  have hticks : sampleTicks = 50 := by decide
  have hsample : minSampleUtil = 3 := by decide
  subst hold
  rcases hs with hfill | ⟨hw, hc, hle⟩
  · have hraise : attr.params.addPerCycle.toInt ≤ minSampleUtil → 1 ≤ (attr.params.addPerCycle + 1).toInt := by
      intro hlow
      rcases hf with h | h
      · exact one_le_raised h hlow
      · rw [h.1]
        decide
    have hlive : ¬ ((attr.params.modTimes + 1).toInt ≤ sampleTicks ∧ attr.params.addPerCycle.toInt ≤ minSampleUtil) →
        1 ≤ attr.params.addPerCycle.toInt := by
      intro hnot
      rcases hf with h | h
      · exact h
      · exact absurd ⟨by rw [h.2]; decide, by rw [h.1]; decide⟩ hnot
    simp only [deltaStep]
    split_ifs with h₁ h₂ h₂
    · exact ⟨hidx, trivial, hraise h₂, Or.inl (hfill.same rfl)⟩
    · exact ⟨hidx, Or.inl (hlive fun h => h₂ h.2), Or.inl (hfill.same rfl)⟩
    · exact ⟨hidx, trivial, one_le_stored _ _ _ _ _, Or.inl (hfill.same rfl)⟩
    · exact ⟨hidx, Or.inl (hlive fun h => h₁ h.1), Or.inl (hfill.same rfl)⟩
  · -- in the warm-up each call raises the budget
    have hcount := hw.count_le hc hle
    have hnonneg := hc.nonneg
    have hmod := hc.le
    have hmodSucc := succ_toInt hcount hnonneg
    have hlow : attr.params.addPerCycle.toInt ≤ 3 := by
      have hidx := hw.idx
      have hlooked := looked_le_one t
      rw [lowered] at hle
      omega
    have haddSucc := succ_toInt hlow (by omega)
    have hbump : deltaStep limit util attr (.count cur last attr.params.addPerCycle) =
        ({ attr with params := { attr.params with modTimes := attr.params.modTimes + 1 } },
          .delta util (.store (attr.params.addPerCycle + 1))) := by
      simp only [deltaStep]
      rw [if_pos (by omega), if_pos (by omega)]
    rw [hbump]
    refine ⟨hidx, trivial, by omega, Or.inr ⟨hw.same rfl rfl hw.budget, ?_, ?_, ?_⟩⟩
    · simp only [hmodSucc]
      omega
    · simp only [hmodSucc]
      omega
    · rw [haddSucc]
      exact Int.add_le_add_right hle 1

theorem deltaStep_warm {pc : DeltaPc} (h : WarmAt limit attr t (.delta util pc)) :
    WarmAt limit (deltaStep limit util attr pc).1 t (deltaStep limit util attr pc).2 := by
  cases pc with
  | changed =>
    obtain ⟨hidx, hf, hs⟩ := h
    simp only [deltaStep]
    split
    · exact ⟨hidx, hf, hs⟩
    · rename_i hdown
      refine ⟨hidx, hf, ?_, trivial⟩
      rcases hs with h | ⟨hw, hc, hle⟩
      · exact Or.inl h
      · exact Or.inr ⟨hw, hc, hle (not_not.mp hdown)⟩
  | idx => exact ⟨h.idx, h.funded, h.stage.1, h.idx⟩
  | cur idx =>
    obtain ⟨hidx, hf, hs, hseen⟩ := h
    exact ⟨hidx, hf, hs, hseen, hs.read (Or.inl hseen)⟩
  | last idx cur =>
    obtain ⟨hidx, hf, hs, hseen, hcur⟩ := h
    refine ⟨hidx, hf, hs, ?_⟩
    rcases hs.read (Or.inr ⟨idx, hseen, rfl⟩) with hlast | hlow
    · exact hcur.imp (fun hcur => ⟨hcur, hlast⟩) id
    · exact Or.inr hlow
  | old cur last => exact ⟨h.idx, h.funded, h.stage.1, h.stage.2, rfl⟩
  | count cur last oldCycle => exact countStep_warm h
  | store newCycle =>
    obtain ⟨hidx, -, hone, hs⟩ := h
    refine ⟨hidx, Or.inl hone, ?_⟩
    rcases hs with h | ⟨hw, hnonneg, hle, hbudget⟩
    · exact Or.inl (h.same rfl)
    · exact Or.inr ⟨hw.same rfl rfl hbudget, hnonneg, hle⟩
  | announce => exact ⟨h.idx, h.funded, Settled.announced h.stage⟩

/-- A cleared attribute, wherever the monitor may find it so. -/
theorem zeroed_settled : Settled zeroedAttr t := Or.inr ⟨warming_of_zero rfl (by decide), ⟨le_refl 0, le_refl 0⟩⟩

theorem zeroed_funded (server : Server) : Funded zeroedAttr server := by
  unfold Funded
  split
  · trivial
  · exact Or.inr ⟨rfl, rfl⟩

end

/-! ### The container -/

/-- `delta_change` finds the flag up. -/
def Server.Idles (attr : TokenAttr) : Server → Prop
  | .idle => attr.changed ≠ 0
  | .delta _ .changed => attr.changed ≠ 0
  | .delta _ _ => False
  | _ => True

/-- A process is to clear the segment, and none has used it. -/
structure Pending (attr : TokenAttr) (server : Server) : Prop where
  idles : server.Idles attr
  avg : attr.params.avgLaunchs 0 = 0
  launchIdx : attr.params.launchIdx = 0

theorem Pending.init {limit : Int32} {attr : TokenAttr} {pc : InitPc} (h : Pending attr (.init pc)) :
    Pending (initStep limit attr pc).1 (initStep limit attr pc).2 := by
  obtain ⟨-, havg, hidx⟩ := h
  cases pc with
  | avg0 => exact ⟨trivial, by simp [initStep], hidx⟩
  | avg1 => exact ⟨trivial, by simp [initStep, havg], hidx⟩
  | launchIdx => exact ⟨trivial, havg, rfl⟩
  | changed => exact ⟨(by decide : (1 : Int32) ≠ 0), havg, hidx⟩
  | _ => exact ⟨trivial, havg, hidx⟩

theorem Pending.delta {limit util : Int32} {attr : TokenAttr} {pc : DeltaPc} (h : Pending attr (.delta util pc)) :
    Pending (deltaStep limit util attr pc).1 (deltaStep limit util attr pc).2 := by
  obtain ⟨hidles, havg, hidx⟩ := h
  cases pc with
  | changed =>
    have hup : attr.changed ≠ 0 := hidles
    simp only [deltaStep]
    rw [if_pos hup]
    exact ⟨hup, havg, hidx⟩
  | _ => exact absurd hidles id

/-- Such a process takes nothing back from the monitor. -/
theorem Pending.zeroed {limit : Int32} {attr : TokenAttr} {server : Server} (hp : Pending attr server)
    (h : WarmAt limit attr none server) : WarmAt limit zeroedAttr none server := by
  have hfilled : ¬ Filled attr := by
    intro hf
    have := hf.even
    rw [hp.avg, Int32.toInt_zero] at this
    omega
  refine ⟨le_refl 0, zeroed_funded server, ?_⟩
  have hturn : Turn zeroedAttr none :=
    Or.inr ⟨warming_of_zero rfl (by decide), ⟨le_refl 0, le_refl 0⟩, fun _ => le_refl 0⟩
  cases server with
  | attach => exact zeroed_settled
  | zero => exact zeroed_settled
  | idle => exact hturn
  | delta util pc =>
    cases pc with
    | changed => exact hturn
    | _ => exact absurd hp.idles id
  | init pc =>
    cases pc with
    | addPerCycle => exact rfl
    | avg0 => exact ⟨rfl, le_refl 0, by decide⟩
    | avg1 => exact ⟨rfl, le_refl 0, by decide⟩
    | launchIdx => exact ⟨rfl, le_refl 0, by decide⟩
    | newModTimes => exact ⟨zeroed_settled, Or.inr rfl⟩
    | scale => exact ⟨zeroed_settled, rfl, Or.inr rfl⟩
    | storeScaled newCycle =>
      obtain ⟨hone, hs⟩ : 1 ≤ newCycle.toInt ∧ (Filled attr ∨
        (Warming attr none ∧ attr.params.modTimes = 0 ∧ newCycle.toInt ≤ lowered attr none + 1)) := h.stage
      obtain ⟨-, -, hle⟩ := hs.resolve_left hfilled
      refine ⟨hone, Or.inr ⟨warming_of_zero rfl (by decide), rfl, ?_⟩⟩
      rw [lowered, hp.launchIdx] at hle
      exact hle
    | _ => exact zeroed_settled

/-- A container of one process, before and after it published both averages. -/
structure Warm (s : Container Unit F) : Prop where
  stage : WarmAt s.limit s.attr (s.clients ()).thread s.server
  pending : s.clients () = .starting .zero → Pending s.attr s.server
  unmapped : s.mapped = false → s.server = .attach ∧ s.attr = zeroedAttr ∧ s.clients () = .starting .attach

theorem Warm.served {s : Container Unit F} (hi : Warm s) {server : Server} (hserver : s.server = server)
    (h : server ≠ .attach) : s.mapped ≠ false := fun hm => h (hserver.symm.trans (hi.unmapped hm).1)

theorem Warm.joined {s : Container Unit F} (hi : Warm s) {p : Proc F} (hp : s.clients () = p)
    (h : p ≠ .starting .attach) : s.mapped ≠ false := fun hm => h (hp.symm.trans (hi.unmapped hm).2.2)

theorem Warm.server {s : Container Unit F} (hi : Warm s) {server : Server} (hserver : s.server = server)
    (hmapped : server ≠ .attach) (limit : Int32) (attr : TokenAttr) (server' : Server) (stores : ℕ)
    (h : WarmAt s.limit s.attr (s.clients ()).thread server → WarmAt limit attr (s.clients ()).thread server')
    (hp : Pending s.attr server → Pending attr server') :
    Warm { s with limit := limit, attr := attr, server := server', stores := stores } := by
  subst hserver
  exact ⟨h hi.stage, fun hz => hp (hi.pending hz), fun hm => absurd hm (hi.served rfl hmapped)⟩

theorem Warm.put {s : Container Unit F} (hi : Warm s) {p : Proc F} (attr : TokenAttr) (hmapped : s.mapped ≠ false)
    (hp : p ≠ .starting .zero) (h : Progress s.attr (s.clients ()).thread attr p.thread) :
    Warm { s.put () p with attr := attr } := by
  refine ⟨?_, ?_, fun h => absurd h hmapped⟩
  · simp only [put_limit, put_self, put_server]
    exact h.warmAt hi.stage
  · intro hz
    simp only [put_self] at hz
    exact absurd hz hp

theorem Warm.idle {s : Container Unit F} (hi : Warm s) {p : Proc F} (ready : ℕ) (hmapped : s.mapped ≠ false)
    (hp : p ≠ .starting .zero) (hnone : (s.clients ()).thread = none) (hload : ∀ t, p.thread = some t → t.pc = .load) :
    Warm { s.put () p with attr := { s.attr with ready := ready } } := by
  refine hi.put _ hmapped hp ?_
  rw [hnone]
  have hlooked : looked p.thread = 0 := by
    cases ht : p.thread with
    | none => rfl
    | some t => simp [looked, hload t ht]
  refine Progress.of_same hi.stage.idx rfl hlooked.ge (Or.inl rfl) ?_ ?_
  · intro t ht hpc
    rw [hload t ht] at hpc
    cases hpc
  · intro t ht hpc
    rw [hload t ht] at hpc
    cases hpc

theorem warm_step {s s' : Container Unit F} {e : Event Unit F} (hi : Warm s) (hok : Bounded s e) (h : Step s e s') :
    Warm s' := by
  cases h with
  | attachServer hserver =>
    refine ⟨⟨hi.stage.idx, ?_, ?_⟩, ?_, nofun⟩
    · have hf := hi.stage.funded
      rw [hserver] at hf
      split
      · exact hf
      · exact hf
    · have hs := hi.stage.stage
      rw [hserver] at hs
      split
      · exact hs
      · exact hs
    · intro hz
      obtain ⟨-, havg, hidx⟩ := hi.pending hz
      refine ⟨?_, havg, hidx⟩
      split
      · trivial
      · trivial
  | zeroServer hserver =>
    exact hi.server hserver nofun _ _ _ _ (fun _ => ⟨le_refl 0, zeroed_funded _, zeroed_settled⟩)
      fun _ => ⟨trivial, rfl, rfl⟩
  | init pc hserver => exact hi.server hserver nofun _ _ _ _ initStep_warm Pending.init
  | delta util pc hserver => exact hi.server hserver nofun _ _ _ _ deltaStep_warm Pending.delta
  | restart limit hserver hlimit =>
    refine hi.server hserver nofun _ _ _ _ ?_ fun h => ⟨trivial, h.avg, h.launchIdx⟩
    intro h
    exact ⟨h.idx, h.funded, h.stage.imp id fun h => ⟨h.1, h.2.1⟩⟩
  | measure util hserver =>
    exact hi.server hserver nofun _ _ _ _ (fun h => ⟨h.idx, h.funded, h.stage⟩) fun h => ⟨h.idles, h.avg, h.launchIdx⟩
  | attach i hp =>
    have hs := hi.stage
    rw [hp] at hs
    refine ⟨?_, ?_, nofun⟩
    · simp only [put_limit, put_attr, put_self, put_server]
      split
      · exact hs
      · exact hs
    · intro hz
      simp only [put_self] at hz
      split at hz
      · cases hz
      · rename_i hm
        obtain ⟨hserver, hattr, -⟩ := hi.unmapped (by simpa using hm)
        simp only [put_server, put_attr, hserver, hattr]
        exact ⟨trivial, rfl, rfl⟩
  | zero i hp =>
    have hs := hi.stage
    rw [hp] at hs
    refine ⟨?_, ?_, fun hm => absurd hm (hi.joined hp nofun)⟩
    · simp only [put_limit, put_self, put_server]
      exact (hi.pending hp).zeroed hs
    · intro hz
      simp only [put_self] at hz
      cases hz
  | semInit i hp =>
    exact hi.idle 0 (hi.joined hp nofun) nofun (by rw [hp]; rfl) nofun
  | test i hp =>
    refine hi.idle s.attr.ready (hi.joined hp nofun) ?_ (by rw [hp]; rfl) nofun
    split <;> nofun
  | wait i hp hpos =>
    exact hi.idle _ (hi.joined hp nofun) nofun (by rw [hp]; rfl) nofun
  | interrupted i hp => exact hi
  | failed i hp =>
    exact hi.idle s.attr.ready (hi.joined hp nofun) nofun (by rw [hp]; rfl) nofun
  | create i client hp hattr hlimited hstarts =>
    refine hi.idle s.attr.ready (hi.joined hp nofun) nofun (by rw [hp]; rfl) ?_
    intro t ht
    cases ht
    exact hstarts.post.pc
  | noTokens i hp hnone =>
    exact hi.idle s.attr.ready (hi.joined hp nofun) nofun (by rw [hp]; rfl) nofun
  | client i c c' copied e hp hrun hown hstep =>
    refine hi.put _ (hi.joined hp nofun) nofun ?_
    rw [hp]
    refine client_progress (c := { c with attr := s.attr }) hi.stage.idx hown ?_ ?_ hstep
    · intro he
      subst he
      exact hok c copied hp
    · intro he
      subst he
      exact hok

theorem Container.Fresh.warm {s : Container Unit F} (h : s.Fresh) : Warm s := by
  refine ⟨?_, ?_, ?_⟩
  · rw [h.attr, h.server]
    exact ⟨le_refl 0, zeroed_funded _, zeroed_settled⟩
  · intro hz
    rw [h.clients ()] at hz
    cases hz
  · intro _
    exact ⟨h.server, h.attr, h.clients ()⟩

theorem reach_warm {mapped : Bool} {s : Container Unit F}
    (h : ((container Unit F mapped).restrict Bounded).Reach s) : Warm s := by
  refine System.Reach.inv (I := Warm) ?_ ?_ h
  · intro s hinit
    exact hinit.1.warm
  · intro s e s' hi hstep
    exact warm_step hi hstep.1 hstep.2

end NvResourceController.Monitor
