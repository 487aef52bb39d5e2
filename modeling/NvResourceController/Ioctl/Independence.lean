/-
  NvResourceController.Ioctl.Independence — `_init_device_prop` (`src/ioctl_hook.c`) as a
  whole, from the two limits of its environment on.

  It returns at once where there is no memory limit, and the core limit has no device
  of its own: its attribute is looked for under the device of the memory limit.

  - `init_core`: what the core limit comes to.
  - `limits_independent_iff`: for which memory limits it is the same.
-/

import NvResourceController.Ioctl.Env
import NvResourceController.Ioctl.Hook
import NvResourceController.Limiter.TokenPost
import NvResourceController.Monitor.CgroupId

namespace NvResourceController.Ioctl

open Binary64

/-! ## `_init_device_prop` -/

structure Environ where
  memLimit : Option (List UInt8)
  coreLimit : Option (List UInt8)
  deriving DecidableEq, Repr

/-- What the calls of a start come to; none where one fails. -/
structure Calls where
  /-- `create_shm_addr` for the ledger of a device. -/
  segment : UInt32 → Option FbInfo
  lstat : Int32 → Lstat
  pid : Int32
  /-- `/proc/<pid>/cgroup`. -/
  cgroup : List Monitor.Line
  /-- `create_shm_addr` for the attribute of this path, and the wait for the monitor. -/
  attr : List UInt8 → Option Limiter.TokenAttr

structure Started where
  dev : DeviceProp
  coreLimited : Bool
  /-- The path of `attr`. -/
  attr : Option (List UInt8)
  /-- The count of the semaphore `tokens`. -/
  tokens : ℕ

/-- None where a call fails and the process exits. -/
def initDeviceProp (conv : Conversion) (env : Environ) (calls : Calls) (dev : DeviceProp) : Option Started :=
  let (ret, minor, totalMem) := getMemLimit conv env.memLimit (some dev.minor) 0
  if ret ≠ 0 then some ⟨dev, false, none, 0⟩
  else
    (initMemLimit (some (minor.getD dev.minor, totalMem)) calls.segment calls.lstat calls.pid dev).bind fun dev =>
      let (ret, _, _) := getCoreLimit env.coreLimit none 0
      if ret ≠ 0 then some ⟨dev, false, none, 0⟩
      else
        (Monitor.clientPath calls.cgroup dev.minor).bind fun path =>
          (calls.attr path).bind fun attr =>
            (Limiter.semInit attr.params.coreLimit).map fun tokens => ⟨dev, true, some path, tokens⟩

/-! ## The limits that are read -/

/-- The device of a limit that `get_limit` accepts. -/
def limitIndex (str : Option (List UInt8)) : Option UInt32 :=
  let (ret, minor, _) := getLimit str (some 0) []
  if ret = 0 then minor else none

theorem getLimit_index (str : Option (List UInt8)) (minor : Option UInt32) :
    ((getLimit str minor []).1 = if (limitIndex str).isSome then 0 else -1) ∧
      ∀ i, limitIndex str = some i → (getLimit str minor []).2.1 = minor.map fun _ => i := by
  cases str with
  | none => exact ⟨rfl, nofun⟩
  | some s =>
    by_cases h : Matches s
    · have hindex : limitIndex (some s) = some (sscanf s 0 []).2.1 := by
        rw [limitIndex, getLimit_matches h]
        rfl
      rw [hindex, getLimit_matches h]
      refine ⟨rfl, fun i hi => ?_⟩
      cases hi
      rfl
    · have hindex : limitIndex (some s) = none := by
        rw [limitIndex, getLimit_not_matches h]
        rfl
      rw [hindex, getLimit_not_matches h]
      exact ⟨rfl, nofun⟩

theorem getMemLimit_ret (conv : Conversion) (str : Option (List UInt8)) (minor : Option UInt32) (limit : UInt64) :
    (getMemLimit conv str minor limit).1 = (getLimit str minor []).1 ∧
      (getMemLimit conv str minor limit).2.1 = (getLimit str minor []).2.1 := by
  rw [getMemLimit]
  dsimp only
  split
  · exact ⟨rfl, rfl⟩
  · rename_i h
    exact ⟨(not_not.mp h).symm, rfl⟩

theorem getCoreLimit_ret (str : Option (List UInt8)) (minor : Option UInt32) (limit : UInt64) :
    (getCoreLimit str minor limit).1 = (getLimit str minor []).1 := by
  rw [getCoreLimit]
  dsimp only
  split
  · rfl
  · rename_i h
    exact (not_not.mp h).symm

/-! ## What a start comes to -/

section

variable {conv : Conversion} {env : Environ} {calls : Calls} {dev : DeviceProp}

theorem init_unlimited (h : limitIndex env.memLimit = none) :
    initDeviceProp conv env calls dev = some ⟨dev, false, none, 0⟩ := by
  have hret : (getMemLimit conv env.memLimit (some dev.minor) 0).1 = -1 := by
    rw [(getMemLimit_ret ..).1, (getLimit_index ..).1, h]
    rfl
  rw [initDeviceProp]
  dsimp only
  rw [if_pos (by rw [hret]; decide)]

theorem init_limited (conv : Conversion) (calls : Calls) (dev : DeviceProp) {i : UInt32}
    (h : limitIndex env.memLimit = some i) :
    ∃ totalMem, initDeviceProp conv env calls dev =
      (initMemLimit (some (i, totalMem)) calls.segment calls.lstat calls.pid dev).bind fun dev =>
        if limitIndex env.coreLimit = none then some ⟨dev, false, none, 0⟩
        else
          (Monitor.clientPath calls.cgroup i).bind fun path =>
            (calls.attr path).bind fun attr =>
              (Limiter.semInit attr.params.coreLimit).map fun tokens => ⟨dev, true, some path, tokens⟩ := by
  obtain ⟨hret, hminor⟩ := getLimit_index env.memLimit (some dev.minor)
  rw [h] at hret
  have hindex : (getMemLimit conv env.memLimit (some dev.minor) 0).2.1 = some i :=
    (getMemLimit_ret ..).2.trans (hminor i h)
  have hzero : (getMemLimit conv env.memLimit (some dev.minor) 0).1 = 0 := (getMemLimit_ret ..).1.trans hret
  refine ⟨(getMemLimit conv env.memLimit (some dev.minor) 0).2.2, ?_⟩
  rw [initDeviceProp]
  dsimp only
  rw [if_neg (not_not.mpr hzero), hindex, Option.getD_some]
  refine Option.bind_congr fun dev' hdev => ?_
  obtain ⟨fb, -, rfl⟩ := Option.map_eq_some_iff.mp hdev
  have hcore := (getLimit_index env.coreLimit none).1
  rw [← getCoreLimit_ret env.coreLimit none 0] at hcore
  rw [hcore]
  cases limitIndex env.coreLimit with
  | none => rfl
  | some k => rfl

theorem init_core {s : Started} (h : initDeviceProp conv env calls dev = some s) :
    s.coreLimited = ((limitIndex env.memLimit).isSome && (limitIndex env.coreLimit).isSome) ∧
      ∀ i, limitIndex env.memLimit = some i → s.coreLimited = true →
        ∃ path, Monitor.clientPath calls.cgroup i = some path ∧ s.attr = some path := by
  cases hmem : limitIndex env.memLimit with
  | none =>
    rw [init_unlimited hmem] at h
    cases h
    exact ⟨rfl, nofun⟩
  | some i =>
    obtain ⟨totalMem, heq⟩ := init_limited conv calls dev hmem
    rw [heq] at h
    obtain ⟨dev', -, h⟩ := Option.bind_eq_some_iff.mp h
    cases hcore : limitIndex env.coreLimit with
    | none =>
      rw [if_pos hcore] at h
      cases h
      exact ⟨rfl, fun _ _ hlimited => absurd hlimited Bool.false_ne_true⟩
    | some k =>
      rw [if_neg (by rw [hcore]; nofun)] at h
      obtain ⟨path, hpath, h⟩ := Option.bind_eq_some_iff.mp h
      obtain ⟨attr, -, h⟩ := Option.bind_eq_some_iff.mp h
      obtain ⟨tokens, -, rfl⟩ := Option.map_eq_some_iff.mp h
      refine ⟨rfl, fun j hj _ => ?_⟩
      cases hj
      exact ⟨path, hpath, rfl⟩

structure Calls.Succeed (calls : Calls) : Prop where
  segment : ∀ i, (calls.segment i).isSome
  path : ∀ i, (Monitor.clientPath calls.cgroup i).isSome
  attr : ∀ path, ∃ attr, calls.attr path = some attr ∧ (Limiter.semInit attr.params.coreLimit).isSome

theorem init_succeeds (h : calls.Succeed) : ∃ s, initDeviceProp conv env calls dev = some s := by
  cases hmem : limitIndex env.memLimit with
  | none => exact ⟨_, init_unlimited hmem⟩
  | some i =>
    obtain ⟨totalMem, heq⟩ := init_limited conv calls dev hmem
    obtain ⟨fb, hfb⟩ := Option.isSome_iff_exists.mp (h.segment i)
    obtain ⟨path, hpath⟩ := Option.isSome_iff_exists.mp (h.path i)
    obtain ⟨attr, hattr, htokens⟩ := h.attr path
    obtain ⟨tokens, htokens⟩ := Option.isSome_iff_exists.mp htokens
    rw [heq, initMemLimit, hfb, Option.map_some, Option.bind_some]
    split
    · exact ⟨_, rfl⟩
    · rw [hpath, Option.bind_some, hattr, Option.bind_some, htokens]
      exact ⟨_, rfl⟩

end

/-! ## The path of the attribute -/

theorem digitChar_inj : ∀ a < 16, ∀ b < 16, (Nat.digitChar a).toUInt8 = (Nat.digitChar b).toUInt8 → a = b := by decide

/-- What `%x` prints. -/
def hex (n : ℕ) : List UInt8 := (Nat.toDigits 16 n).map Char.toUInt8

theorem hex_eq (n : ℕ) : hex n = (if n < 16 then [] else hex (n / 16)) ++ [(Nat.digitChar (n % 16)).toUInt8] := by
  rw [hex, Nat.toDigits_eq_if (by decide)]
  split
  · rename_i h
    rw [Nat.mod_eq_of_lt h]
    rfl
  · rw [List.map_append]
    rfl

theorem hex_inj {n m : ℕ} (h : hex n = hex m) : n = m := by
  induction n using Nat.strong_induction_on generalizing m with
  | _ n ih =>
    rw [hex_eq n, hex_eq m] at h
    obtain ⟨hrest, hlast⟩ := List.append_inj' h rfl
    have hmod := digitChar_inj _ (Nat.mod_lt n (by decide)) _ (Nat.mod_lt m (by decide)) (List.cons.inj hlast).1
    have hne : ∀ k, hex k ≠ [] := by
      intro k
      rw [hex_eq]
      exact List.append_ne_nil_of_right_ne_nil _ (List.cons_ne_nil _ _)
    by_cases hn : n < 16
    · by_cases hm : m < 16
      · omega
      · rw [if_pos hn, if_neg hm] at hrest
        exact absurd hrest.symm (hne _)
    · by_cases hm : m < 16
      · rw [if_neg hn, if_pos hm] at hrest
        exact absurd hrest (hne _)
      · rw [if_neg hn, if_neg hm] at hrest
        have := ih (n / 16) (by omega) hrest
        omega

theorem clientPath_inj {cgroup : List Monitor.Line} {i j : UInt32} {path : List UInt8}
    (hi : Monitor.clientPath cgroup i = some path) (hj : Monitor.clientPath cgroup j = some path) : i = j := by
  obtain ⟨⟨ret, id⟩, hid, hi⟩ := Option.bind_eq_some_iff.mp hi
  obtain ⟨⟨ret', id'⟩, hid', hj⟩ := Option.bind_eq_some_iff.mp hj
  cases hid.symm.trans hid'
  obtain ⟨-, hi⟩ := Option.ite_none_left_eq_some.mp hi
  obtain ⟨-, hj⟩ := Option.ite_none_left_eq_some.mp hj
  obtain ⟨name, hname, hi⟩ := Option.bind_eq_some_iff.mp hi
  obtain ⟨name', hname', hj⟩ := Option.bind_eq_some_iff.mp hj
  cases hname.symm.trans hname'
  obtain ⟨-, hi⟩ := Option.ite_none_right_eq_some.mp hi
  obtain ⟨-, hj⟩ := Option.ite_none_right_eq_some.mp hj
  have hsame := List.append_cancel_right (List.append_cancel_right (Option.some.inj (hi.trans hj.symm)))
  exact UInt32.toNat_inj.mp (hex_inj (List.append_cancel_left hsame))

/-! ## Independence -/

/-- The attribute is that of the device of the core limit. -/
def Attaches (env : Environ) (calls : Calls) (s : Started) : Prop :=
  s.coreLimited = true → ∃ index path, limitIndex env.coreLimit = some index ∧
    Monitor.clientPath calls.cgroup index = some path ∧ s.attr = some path

theorem attaches_iff {conv : Conversion} {env : Environ} {calls : Calls} {dev : DeviceProp} {s : Started}
    (h : initDeviceProp conv env calls dev = some s) :
    Attaches env calls s ↔
      limitIndex env.memLimit = none ∨ limitIndex env.coreLimit = none ∨
        limitIndex env.memLimit = limitIndex env.coreLimit := by
  obtain ⟨hlimited, hattr⟩ := init_core h
  rw [Attaches, hlimited]
  cases hmem : limitIndex env.memLimit with
  | none => exact iff_of_true nofun (Or.inl rfl)
  | some i =>
    cases hcore : limitIndex env.coreLimit with
    | none => exact iff_of_true nofun (Or.inr (Or.inl rfl))
    | some k =>
      rw [hmem, hcore] at hlimited
      obtain ⟨path, hpath, hs⟩ := hattr i hmem hlimited
      constructor
      · intro hattaches
        obtain ⟨index, path', hindex, hpath', hs'⟩ := hattaches rfl
        cases hindex
        cases hs.symm.trans hs'
        rw [clientPath_inj hpath hpath']
        exact Or.inr (Or.inr rfl)
      · intro hsame _
        rcases hsame with h | h | h
        · cases h
        · cases h
        · cases h
          exact ⟨_, path, rfl, hpath, hs⟩

/-- For all environments with one core limit, where every start succeeds: the core limit
    is on in both or in none and at its own device, exactly if it is not accepted, or
    neither memory limit is, or both are and have its device. -/
theorem limits_independent_iff {conv : Conversion} {env₁ env₂ : Environ} {calls₁ calls₂ : Calls} {dev : DeviceProp}
    {s₁ s₂ : Started} (hcore : env₁.coreLimit = env₂.coreLimit) (h₁ : initDeviceProp conv env₁ calls₁ dev = some s₁)
    (h₂ : initDeviceProp conv env₂ calls₂ dev = some s₂) :
    (s₁.coreLimited = s₂.coreLimited ∧ Attaches env₁ calls₁ s₁ ∧ Attaches env₂ calls₂ s₂) ↔
      limitIndex env₁.coreLimit = none ∨ (limitIndex env₁.memLimit = none ∧ limitIndex env₂.memLimit = none) ∨
        (limitIndex env₁.memLimit = limitIndex env₁.coreLimit ∧
          limitIndex env₂.memLimit = limitIndex env₁.coreLimit) := by
  rw [attaches_iff h₁, attaches_iff h₂, (init_core h₁).1, (init_core h₂).1, ← hcore]
  cases limitIndex env₁.coreLimit with
  | none => simp
  | some k =>
    cases limitIndex env₁.memLimit with
    | none =>
      cases limitIndex env₂.memLimit with
      | none => simp
      | some j => simp
    | some i =>
      cases limitIndex env₂.memLimit with
      | none => simp
      | some j => simp

/-! ## Two devices -/

/-- Every call succeeds, in a container of one letter. -/
def allAnswer : Calls :=
  ⟨fun _ => some ⟨0, 0, 0⟩, fun _ => .found, 1, Monitor.oneLine [0],
    fun _ => some ⟨0, 1, ⟨0, 100000000⟩, ⟨1, 50, 0, fun _ => 0, 0, 0⟩, 1⟩⟩

theorem allAnswer_succeed : allAnswer.Succeed := by
  refine ⟨fun _ => rfl, fun i => ?_, fun path => ⟨_, rfl, by decide⟩⟩
  have hname : ∀ buf, Monitor.getCgroupId (Monitor.oneLine [0]) (List.replicate Monitor.pathMax 0) = some (0, buf) →
      Monitor.clientPath allAnswer.cgroup i = Monitor.shmPath i buf := by
    intro buf hbuf
    rw [Monitor.clientPath, allAnswer, hbuf]
    rfl
  have hfound : Monitor.foundName Monitor.letter [0] Monitor.pathMax
      = some (Monitor.letter ++ [Monitor.newline]) := by decide
  have hlen : (List.replicate Monitor.pathMax (0 : UInt8)).length = Monitor.pathMax := List.length_replicate
  rcases Monitor.getCgroupId_name (Monitor.oneLine_inContainer [0]) (List.replicate Monitor.pathMax 0) with
    ⟨buf, hbuf, hstr⟩ | ⟨-, hnone⟩
  · rw [hlen, hfound] at hstr
    have hpath : ∃ path, Monitor.shmPath i buf = some path ∧ Monitor.shmPath i buf = some path := by
      refine (Monitor.shmPath_iff fun name h => ?_).mpr ⟨_, hstr, hstr⟩
      cases hstr.symm.trans h
      decide
    obtain ⟨path, hpath, -⟩ := hpath
    rw [hname buf hbuf, hpath]
    rfl
  · rw [hlen, hfound] at hnone
    cases hnone

def halfOfFirst (memLimit : Option (List Char)) : Environ :=
  ⟨memLimit.map (·.map Char.toUInt8), some (['0', '=', '5', '0'].map Char.toUInt8)⟩

theorem halfOfFirst_starts (memLimit : Option (List Char)) :
    ∃ s, initDeviceProp towardsZero (halfOfFirst memLimit) allAnswer gpuDevice = some s :=
  init_succeeds allAnswer_succeed

theorem limits_independent_iff_first : ∃ s₁ s₂,
    initDeviceProp towardsZero (halfOfFirst (some ['0', '=', '1', 'G'])) allAnswer gpuDevice = some s₁ ∧
      initDeviceProp towardsZero (halfOfFirst (some ['0', '=', '2', 'G'])) allAnswer gpuDevice = some s₂ ∧
      s₁.coreLimited = s₂.coreLimited ∧ Attaches (halfOfFirst (some ['0', '=', '1', 'G'])) allAnswer s₁ ∧
      Attaches (halfOfFirst (some ['0', '=', '2', 'G'])) allAnswer s₂ := by
  obtain ⟨s₁, h₁⟩ := halfOfFirst_starts (some ['0', '=', '1', 'G'])
  obtain ⟨s₂, h₂⟩ := halfOfFirst_starts (some ['0', '=', '2', 'G'])
  have hcore : (halfOfFirst (some ['0', '=', '1', 'G'])).coreLimit
      = (halfOfFirst (some ['0', '=', '2', 'G'])).coreLimit := rfl
  exact ⟨s₁, s₂, h₁, h₂, (limits_independent_iff hcore h₁ h₂).mpr (.inr (.inr ⟨by decide, by decide⟩))⟩

/-- Without a memory limit there is no core limit, and with one on another device it is
    that device's. -/
theorem core_limit_depends : allAnswer.Succeed ∧ ∃ s₁ s₂ s₃,
    initDeviceProp towardsZero (halfOfFirst (some ['0', '=', '1', 'G'])) allAnswer gpuDevice = some s₁ ∧
      s₁.coreLimited = true ∧
      initDeviceProp towardsZero (halfOfFirst none) allAnswer gpuDevice = some s₂ ∧ s₂.coreLimited = false ∧
      initDeviceProp towardsZero (halfOfFirst (some ['1', '=', '1', 'G'])) allAnswer gpuDevice = some s₃ ∧
      s₃.coreLimited = true ∧ ¬ Attaches (halfOfFirst (some ['1', '=', '1', 'G'])) allAnswer s₃ := by
  obtain ⟨s₁, h₁⟩ := halfOfFirst_starts (some ['0', '=', '1', 'G'])
  obtain ⟨s₂, h₂⟩ := halfOfFirst_starts none
  obtain ⟨s₃, h₃⟩ := halfOfFirst_starts (some ['1', '=', '1', 'G'])
  refine ⟨allAnswer_succeed, s₁, s₂, s₃, h₁, (init_core h₁).1.trans (by decide),
    h₂, (init_core h₂).1.trans (by decide), h₃, (init_core h₃).1.trans (by decide), ?_⟩
  rw [attaches_iff h₃]
  decide

end NvResourceController.Ioctl
