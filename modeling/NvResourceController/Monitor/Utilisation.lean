/-
  NvResourceController.Monitor.Utilisation — the reading the monitor takes of a container
  (`src/server_monitor.c`, `get_gpu_util`): NVML lists the processes of the device with
  their use of it, and the first one of the container is taken for all.

  - `getGpuUtil_eq`: what is returned, for any list.
  - `measures_iff`: so the reading is the container's, in whatever order the processes are
    listed, exactly where one of them is listed alone or none of them does anything.
-/

import Mathlib.Data.List.Perm.Basic
import Mathlib.Algebra.BigOperators.Group.List.Basic
import NvResourceController.Limiter.TokenPost
import NvResourceController.Monitor.CgroupId

namespace NvResourceController.Monitor

open CString Limiter

/-! ## `get_gpu_util` -/

structure ProcessUtilizationSample where
  pid : UInt32
  timeStamp : UInt64
  smUtil : UInt32
  deriving DecidableEq, Repr

def lastSeen (lastTime : Timespec) : UInt64 := lastTime.tvSec.toUInt64 * 1000 * 1000 + lastTime.tvNsec.toUInt64 / 1000

section

-- `get_cgroup_id`: the return value, and the buffer of the caller
variable (getCgroupId : Int32 → List UInt8 → Option (Int32 × List UInt8))

/-- The loop over the samples; `target` is the buffer as earlier samples left it. -/
def targetSample (cgroupId : List UInt8) (lastSeen : UInt64) :
    List ProcessUtilizationSample → List UInt8 → Option (Option ProcessUtilizationSample)
  | [], _ => some none
  | sample :: rest, target =>
    if sample.timeStamp < lastSeen then targetSample cgroupId lastSeen rest target
    else
      (getCgroupId sample.pid.toInt32 target).bind fun (ret, target) =>
        if ret = 0 then
          (strcmp target cgroupId).bind fun same =>
            if same then some (some sample) else targetSample cgroupId lastSeen rest target
        else targetSample cgroupId lastSeen rest target

/-- A return value of NVML other than 0 is logged unless it is 6, and answered by -1. -/
def getGpuUtil (nvmlDeviceGetProcessUtilization : UInt64 → Int32 × List ProcessUtilizationSample)
    (cgroupId : List UInt8) (lastTime : Timespec) : Option Int32 :=
  let (ret, samples) := nvmlDeviceGetProcessUtilization (lastSeen lastTime)
  if ret ≠ 0 then some (-1)
  else
    (targetSample getCgroupId cgroupId (lastSeen lastTime) samples (List.replicate maxCgroupIdLen 0)).map fun
      | some sample => sample.smUtil.toInt32
      | none => -1

end

/-! ## The container -/

/-- Each process is in the cgroup `get_cgroup_id` finds it in. -/
structure Exact (getCgroupId : Int32 → List UInt8 → Option (Int32 × List UInt8))
    (cgroupOf : Int32 → Option (List UInt8)) : Prop where
  found : ∀ pid name target, cgroupOf pid = some name → target.length = maxCgroupIdLen →
    ∃ buf, getCgroupId pid target = some (0, buf) ∧ buf.length = maxCgroupIdLen ∧ str buf = some name
  missing : ∀ pid target, cgroupOf pid = none → target.length = maxCgroupIdLen →
    ∃ ret buf, getCgroupId pid target = some (ret, buf) ∧ ret ≠ 0 ∧ buf.length = maxCgroupIdLen

/-- The sample is of a process of the container, and new. -/
def Counts (cgroupOf : Int32 → Option (List UInt8)) (name : List UInt8) (lastSeen : UInt64)
    (sample : ProcessUtilizationSample) : Bool :=
  decide (lastSeen ≤ sample.timeStamp) && decide (cgroupOf sample.pid.toInt32 = some name)

def ofCgroup (cgroupOf : Int32 → Option (List UInt8)) (name : List UInt8) (lastSeen : UInt64)
    (samples : List ProcessUtilizationSample) : List ProcessUtilizationSample :=
  samples.filter (Counts cgroupOf name lastSeen)

/-- Their use of the device, added up. -/
def cgroupUtil (samples : List ProcessUtilizationSample) : ℕ := (samples.map (·.smUtil.toNat)).sum

section

variable {getCgroupId : Int32 → List UInt8 → Option (Int32 × List UInt8)} {cgroupOf : Int32 → Option (List UInt8)}
  {cgroupId name : List UInt8}

theorem targetSample_eq (hexact : Exact getCgroupId cgroupOf) (hname : str cgroupId = some name) (lastSeen : UInt64)
    (samples : List ProcessUtilizationSample) {target : List UInt8} (ht : target.length = maxCgroupIdLen) :
    targetSample getCgroupId cgroupId lastSeen samples target =
      some (samples.find? (Counts cgroupOf name lastSeen)) := by
  induction samples generalizing target with
  | nil => rfl
  | cons sample rest ih =>
    rw [targetSample, List.find?_cons]
    by_cases hold : sample.timeStamp < lastSeen
    · have hnot : Counts cgroupOf name lastSeen sample = false := by
        simp [Counts, UInt64.not_le.mpr hold]
      rw [if_pos hold, hnot]
      exact ih ht
    · rw [if_neg hold]
      have hnew : Counts cgroupOf name lastSeen sample = decide (cgroupOf sample.pid.toInt32 = some name) := by
        simp [Counts, UInt64.not_lt.mp hold]
      rw [hnew]
      cases hof : cgroupOf sample.pid.toInt32 with
      | none =>
        obtain ⟨ret, buf, hget, hret, hlen⟩ := hexact.missing _ target hof ht
        rw [hget, Option.bind_some]
        dsimp only
        rw [if_neg hret]
        exact ih hlen
      | some other =>
        obtain ⟨buf, hget, hlen, hstr⟩ := hexact.found _ other target hof ht
        rw [hget, Option.bind_some]
        dsimp only
        rw [if_pos rfl, strcmp_eq hstr hname, Option.bind_some]
        by_cases hsame : other = name
        · subst hsame
          simp
        · rw [decide_eq_false hsame, decide_eq_false (by simpa using hsame)]
          exact ih hlen

theorem getGpuUtil_eq (hexact : Exact getCgroupId cgroupOf) (hname : str cgroupId = some name) (lastTime : Timespec)
    (samples : List ProcessUtilizationSample) :
    getGpuUtil getCgroupId (fun _ => (0, samples)) cgroupId lastTime =
      some (match samples.find? (Counts cgroupOf name (lastSeen lastTime)) with
        | some sample => sample.smUtil.toInt32
        | none => -1) := by
  rw [getGpuUtil]
  dsimp only
  rw [if_neg (not_not.mpr rfl), targetSample_eq hexact hname _ _ List.length_replicate, Option.map_some]

/-- The reading is the use of the whole container, in whatever order NVML lists the
    processes. -/
structure Measures (getCgroupId : Int32 → List UInt8 → Option (Int32 × List UInt8))
    (cgroupOf : Int32 → Option (List UInt8)) (cgroupId name : List UInt8) (lastTime : Timespec)
    (samples : List ProcessUtilizationSample) : Prop where
  whole : ∃ util, getGpuUtil getCgroupId (fun _ => (0, samples)) cgroupId lastTime = some util ∧
    util.toInt = cgroupUtil (ofCgroup cgroupOf name (lastSeen lastTime) samples)
  anyOrder : ∀ listed, listed.Perm samples → getGpuUtil getCgroupId (fun _ => (0, listed)) cgroupId lastTime =
    getGpuUtil getCgroupId (fun _ => (0, samples)) cgroupId lastTime

theorem toInt32_le (util : UInt32) : util.toInt32.toInt ≤ util.toNat := by
  have h : util.toInt32.toInt = util.toBitVec.toInt := rfl
  rw [h, BitVec.toInt_eq_toNat_cond]
  have hnat : util.toNat = util.toBitVec.toNat := rfl
  split <;> omega

theorem toInt32_eq_iff (util : UInt32) : util.toInt32.toInt = util.toNat ↔ util.toNat < 2 ^ 31 := by
  have h : util.toInt32.toInt = util.toBitVec.toInt := rfl
  rw [h, BitVec.toInt_eq_toNat_cond]
  have hnat : util.toNat = util.toBitVec.toNat := rfl
  split <;> omega

theorem cgroupUtil_const {samples : List ProcessUtilizationSample} {util : UInt32}
    (h : ∀ s ∈ samples, s.smUtil = util) :
    cgroupUtil samples = samples.length * util.toNat := by
  have hconst : samples.map (·.smUtil.toNat) = List.replicate samples.length util.toNat := by
    refine List.eq_replicate_iff.mpr ⟨List.length_map _, fun n hn => ?_⟩
    obtain ⟨s, hs, rfl⟩ := List.mem_map.mp hn
    rw [h s hs]
  rw [cgroupUtil, hconst, List.sum_replicate_nat]

theorem Measures.sample_eq (hexact : Exact getCgroupId cgroupOf) (hname : str cgroupId = some name)
    {lastTime : Timespec} {samples : List ProcessUtilizationSample}
    (h : Measures getCgroupId cgroupOf cgroupId name lastTime samples) {util : Int32}
    (hutil : getGpuUtil getCgroupId (fun _ => (0, samples)) cgroupId lastTime = some util) :
    ∀ s ∈ ofCgroup cgroupOf name (lastSeen lastTime) samples, s.smUtil = util.toUInt32 := by
  intro s hs
  obtain ⟨hmem, hs⟩ := List.mem_filter.mp hs
  have horder := h.anyOrder _ (List.perm_cons_erase hmem).symm
  rw [getGpuUtil_eq hexact hname, List.find?_cons_of_pos hs, hutil, Option.some_inj] at horder
  rw [← horder]
  rfl

theorem uniform_of_cond {samples : List ProcessUtilizationSample}
    (h : (∃ s, samples = [s] ∧ s.smUtil.toNat < 2 ^ 31) ∨ ∀ s ∈ samples, s.smUtil = 0) :
    ∃ util : UInt32, util.toNat < 2 ^ 31 ∧ util.toNat = cgroupUtil samples ∧ ∀ s ∈ samples, s.smUtil = util := by
  rcases h with ⟨s, rfl, hlt⟩ | hzero
  · refine ⟨s.smUtil, hlt, ?_, ?_⟩
    · rw [cgroupUtil, List.map_singleton, List.sum_singleton]
    · intro t ht
      rw [List.mem_singleton.mp ht]
  · refine ⟨0, by decide, ?_, hzero⟩
    rw [cgroupUtil_const hzero]
    rfl

/-- The reading is the container's exactly where it has one sample or does nothing. -/
theorem measures_iff (hexact : Exact getCgroupId cgroupOf) (hname : str cgroupId = some name) {lastTime : Timespec}
    {samples : List ProcessUtilizationSample} (hsome : ∃ s ∈ samples, Counts cgroupOf name (lastSeen lastTime) s) :
    Measures getCgroupId cgroupOf cgroupId name lastTime samples ↔
      (∃ s, ofCgroup cgroupOf name (lastSeen lastTime) samples = [s] ∧ s.smUtil.toNat < 2 ^ 31) ∨
        ∀ s ∈ ofCgroup cgroupOf name (lastSeen lastTime) samples, s.smUtil = 0 := by
  obtain ⟨first, hfirst, hcounts⟩ := hsome
  constructor
  · intro h
    obtain ⟨util, hutil, hsum⟩ := h.whole
    have hsame := h.sample_eq hexact hname hutil
    rw [cgroupUtil_const hsame] at hsum
    have hle := toInt32_le util.toUInt32
    rw [show util.toUInt32.toInt32 = util from rfl, hsum] at hle
    have hpos : 1 ≤ (ofCgroup cgroupOf name (lastSeen lastTime) samples).length :=
      List.length_pos_of_mem (List.mem_filter.mpr ⟨hfirst, hcounts⟩)
    by_cases hone : (ofCgroup cgroupOf name (lastSeen lastTime) samples).length = 1
    · obtain ⟨s, hs⟩ := List.length_eq_one_iff.mp hone
      refine Or.inl ⟨s, hs, (toInt32_eq_iff _).mp ?_⟩
      rw [hsame s (by rw [hs]; exact List.mem_singleton_self s), show util.toUInt32.toInt32 = util from rfl,
        hsum, hone, one_mul]
    · have hzero : util.toUInt32.toNat = 0 := by
        have htwo : 2 ≤ (ofCgroup cgroupOf name (lastSeen lastTime) samples).length := by omega
        have hle := (Nat.mul_le_mul_right util.toUInt32.toNat htwo).trans (by exact_mod_cast hle)
        omega
      refine Or.inr fun s hs => ?_
      rw [hsame s hs]
      exact UInt32.toNat_inj.mp hzero
  · intro h
    obtain ⟨util, hlt, hsum, hsame⟩ := uniform_of_cond h
    have hall : ∀ listed, listed.Perm samples →
        getGpuUtil getCgroupId (fun _ => (0, listed)) cgroupId lastTime = some util.toInt32 := by
      intro listed hperm
      obtain ⟨s, hs⟩ := Option.isSome_iff_exists.mp (List.find?_isSome.mpr ⟨first, hperm.mem_iff.mpr hfirst, hcounts⟩)
      have hmem : s ∈ ofCgroup cgroupOf name (lastSeen lastTime) samples :=
        List.mem_filter.mpr ⟨hperm.mem_iff.mp (List.mem_of_find?_eq_some hs), List.find?_some hs⟩
      rw [getGpuUtil_eq hexact hname, hs, ← hsame s hmem]
    refine ⟨⟨util.toInt32, hall samples (List.Perm.refl _), ?_⟩, ?_⟩
    · rw [← hsum]
      exact (toInt32_eq_iff util).mpr hlt
    · intro listed hperm
      rw [hall listed hperm, hall samples (List.Perm.refl _)]

end

/-! ### A container of two processes -/

def otherLine : List Line :=
  [⟨['4', ':', 'd', 'e', 'v', 'i', 'c', 'e', 's', ':'].map Char.toUInt8 ++ [slash, Char.toUInt8 'b'] ++ [newline],
    [slash, Char.toUInt8 'b', 0]⟩]

theorem otherLine_inContainer : InContainer otherLine [Char.toUInt8 'b'] [slash, Char.toUInt8 'b', 0] :=
  ⟨⟨by decide, by decide, by decide, by decide⟩, [], _, [], rfl, fun _ hl => absurd hl List.not_mem_nil, rfl⟩

/-- Processes 1 and 2 are in the container `a` and process 3 is in `b`; others have ended. -/
def threeProcesses (pid : Int32) : List Line :=
  if pid = 1 ∨ pid = 2 then oneLine [slash, Char.toUInt8 'a', 0] else if pid = 3 then otherLine else []

def ofThree (pid : Int32) : Option (List UInt8) :=
  if pid = 1 ∨ pid = 2 then some letter else if pid = 3 then some [Char.toUInt8 'b'] else none

theorem getCgroupId_finds {cgroup : List Line} {id leftover name target : List UInt8}
    (h : InContainer cgroup id leftover) (hname : foundName id leftover maxCgroupIdLen = some name)
    (ht : target.length = maxCgroupIdLen) :
    ∃ buf, getCgroupId cgroup target = some (0, buf) ∧ buf.length = maxCgroupIdLen ∧ str buf = some name := by
  rcases getCgroupId_name h target with ⟨buf, hget, hstr⟩ | ⟨-, hnone⟩
  · refine ⟨buf, hget, (getCgroupId_length hget).trans ht, ?_⟩
    rw [hstr, ht]
    exact hname
  · rw [ht, hname] at hnone
    cases hnone

theorem threeProcesses_exact : Exact (fun pid => Monitor.getCgroupId (threeProcesses pid)) ofThree := by
  refine ⟨?_, ?_⟩
  · intro pid name target hof ht
    rw [ofThree] at hof
    split at hof
    · rename_i hpid
      cases hof
      rw [threeProcesses, if_pos hpid]
      exact getCgroupId_finds (oneLine_inContainer _) (by decide) ht
    rename_i hpid
    split at hof
    · rename_i hother
      cases hof
      rw [threeProcesses, if_neg hpid, if_pos hother]
      exact getCgroupId_finds otherLine_inContainer (by decide) ht
    · cases hof
  · intro pid target hof ht
    rw [ofThree] at hof
    split at hof
    · cases hof
    rename_i hpid
    split at hof
    · cases hof
    rename_i hother
    refine ⟨-1, target, ?_, by decide, ht⟩
    rw [threeProcesses, if_neg hpid, if_neg hother]
    rfl

/-- After an old sample of the container and a new one of another, one of it is listed. -/
theorem measures_iff_run :
    Measures (fun pid => Monitor.getCgroupId (threeProcesses pid)) ofThree (mainCgroupId letter) letter ⟨0, 10000⟩
      [⟨2, 5, 20⟩, ⟨3, 15, 40⟩, ⟨1, 15, 30⟩] :=
  (measures_iff threeProcesses_exact (by decide) ⟨⟨1, 15, 30⟩, by decide, by decide⟩).mpr
    (Or.inl ⟨⟨1, 15, 30⟩, by decide, by decide⟩)

/-- Both are; the reading is that of the first, and their sum is not read in any order. -/
theorem reads_one_of_two : Exact (fun pid => Monitor.getCgroupId (threeProcesses pid)) ofThree ∧
    getGpuUtil (fun pid => Monitor.getCgroupId (threeProcesses pid)) (fun _ => (0, [⟨1, 5, 30⟩, ⟨2, 5, 20⟩]))
      (mainCgroupId letter) ⟨0, 0⟩ = some 30 ∧
    getGpuUtil (fun pid => Monitor.getCgroupId (threeProcesses pid)) (fun _ => (0, [⟨2, 5, 20⟩, ⟨1, 5, 30⟩]))
      (mainCgroupId letter) ⟨0, 0⟩ = some 20 ∧
    cgroupUtil (ofCgroup ofThree letter (lastSeen ⟨0, 0⟩) [⟨1, 5, 30⟩, ⟨2, 5, 20⟩]) = 50 ∧
    ¬ Measures (fun pid => Monitor.getCgroupId (threeProcesses pid)) ofThree (mainCgroupId letter) letter
      ⟨0, 0⟩ [⟨1, 5, 30⟩, ⟨2, 5, 20⟩] := by
  have hfirst : getGpuUtil (fun pid => Monitor.getCgroupId (threeProcesses pid))
      (fun _ => (0, [⟨1, 5, 30⟩, ⟨2, 5, 20⟩])) (mainCgroupId letter) ⟨0, 0⟩ = some 30 := by decide
  have hsecond : getGpuUtil (fun pid => Monitor.getCgroupId (threeProcesses pid))
      (fun _ => (0, [⟨2, 5, 20⟩, ⟨1, 5, 30⟩])) (mainCgroupId letter) ⟨0, 0⟩ = some 20 := by decide
  refine ⟨threeProcesses_exact, hfirst, hsecond, by decide, fun h => ?_⟩
  have horder := h.anyOrder _ (List.Perm.swap _ _ _)
  rw [hfirst, hsecond] at horder
  exact absurd horder (by decide)

end NvResourceController.Monitor
