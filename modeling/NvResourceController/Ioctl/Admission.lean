/-
  NvResourceController.Ioctl.Admission — what the stage before the kernel compares with
  the free memory, and what the stages after it take from it and give back.

  - `admission`: the two requests for memory are decided alike, within the free memory
    and exactly, unless `size + alignment - 1` overflows; then a power of two rounds to
    nothing and is always admitted (`huge_size_is_admitted`).
  - `amounts`: the check compares the rounded size and the charge takes the size as it
    is. They are the same amount when the alignment divides the size, and in runs of
    such requests the rounded sizes never exceed the limit together. In others they do
    (`padding_is_not_charged`): nothing is charged for the padding.
-/

import NvResourceController.Ioctl.Calls

namespace NvResourceController.Ioctl

open ListCursor MaskRound System

/-! ## The decision -/

theorem PreSpec.success_iff {cmd : UInt32} {args : Args} {dev : DeviceProp} {o : PreOut} {size alignment : UInt64}
    (h : PreSpec cmd args dev o) (hreq : memRequest cmd args = some (size, alignment)) (ha : alignment ≠ 0) :
    o.success = true ↔ dev.fbInfo.freeMem < roundUp size alignment := by
  constructor
  · intro hs
    exact ((rejects_iff hreq).mp (h.reject hs)).2
  · intro hlt
    by_contra hs
    exact (h.pass (by simpa using hs)).2 ((rejects_iff hreq).mpr ⟨ha, hlt⟩)

/-- What the check is for, of the two handlers' `*success`: they agree, what is admitted
    is free, and an alignment that is a power of two is rounded up to. -/
structure SoundCheck (size alignment : UInt64) (freeMem : ℕ) (vidHeap rmAlloc : Bool) : Prop where
  same : vidHeap = rmAlloc
  free : vidHeap = false → size.toNat ≤ freeMem
  exact : ∀ k n, alignment.toNat = 2 ^ k → IsLeast {m | alignment.toNat ∣ m ∧ size.toNat ≤ m} n →
    (vidHeap = false ↔ n ≤ freeMem)

/-- For a sum that overflows: no power of two, and what the mask leaves of the sum is
    decided as the size would be. -/
def LuckyWrap (size alignment : UInt64) (freeMem : ℕ) : Prop :=
  (¬ ∃ k, alignment.toNat = 2 ^ k) ∧
    (size.toNat ≤ freeMem ∨
      freeMem < cleared (size.toNat + alignment.toNat - 1 - 2 ^ 64) (alignment.toNat - 1))

theorem soundCheck_of_small {size alignment : UInt64} {freeMem : ℕ} {refused : Bool} (ha : alignment ≠ 0)
    (hs : size.toNat + alignment.toNat - 1 < 2 ^ 64)
    (hr : refused = true ↔ freeMem < (roundUp size alignment).toNat) :
    SoundCheck size alignment freeMem refused refused := by
  have hadm : refused = false ↔ (roundUp size alignment).toNat ≤ freeMem := by
    rw [← Nat.not_lt, ← hr, Bool.not_eq_true]
  refine ⟨rfl, fun hf => (le_roundUp ha hs).trans (hadm.mp hf), ?_⟩
  intro k n hk hn
  rw [hn.unique (isLeast_roundUp hk ha hs)]
  exact hadm

theorem soundCheck_wrapped {size alignment : UInt64} {freeMem : ℕ} {refused : Bool} (ha : alignment ≠ 0)
    (hfree : freeMem < 2 ^ 64) (hs : 2 ^ 64 ≤ size.toNat + alignment.toNat - 1)
    (hr : refused = true ↔ freeMem < (roundUp size alignment).toNat) :
    SoundCheck size alignment freeMem refused refused ↔ LuckyWrap size alignment freeMem := by
  constructor
  · intro h
    have hnot : ¬ ∃ k, alignment.toNat = 2 ^ k := by
      intro hpow
      obtain ⟨k, hk⟩ := hpow
      have hadm : refused = false := by
        rw [← Bool.not_eq_true, hr, roundUp_two_pow_wrapped hk ha hs]
        exact Nat.not_lt_zero _
      have hceil := isLeast_ceil size.toNat (toNat_pos_of_ne_zero ha)
      have hle := (h.exact k _ hk hceil).mp hadm
      have hpast := le_of_two_pow_wrapped hk hs hceil.1.1 hceil.1.2
      omega
    refine ⟨hnot, ?_⟩
    by_cases hrf : refused = true
    · exact Or.inr (by rw [← toNat_roundUp_wrapped ha hs]; exact hr.mp hrf)
    · exact Or.inl (h.free (by simpa using hrf))
  · intro h
    obtain ⟨hnot, hlucky⟩ := h
    refine ⟨rfl, ?_, fun k n hk => absurd ⟨k, hk⟩ hnot⟩
    intro hf
    refine hlucky.resolve_right ?_
    rw [← toNat_roundUp_wrapped ha hs, ← hr]
    simp [hf]

/-- The two handlers' decisions about a request are sound exactly when the sum does not
    overflow, or by luck. -/
theorem admission {args₁ args₂ : Args} {dev : DeviceProp} {o₁ o₂ : PreOut} {size alignment : UInt64}
    (hr₁ : memRequest nvEscRmVidHeapControl args₁ = some (size, alignment))
    (hr₂ : memRequest nvEscRmAlloc args₂ = some (size, alignment)) (ha : alignment ≠ 0)
    (h₁ : preVidHeapAlloc args₁ dev = some o₁) (h₂ : preRmAlloc args₂ dev = some o₂) :
    SoundCheck size alignment dev.fbInfo.freeMem.toNat o₁.success o₂.success ↔
      size.toNat + alignment.toNat - 1 < 2 ^ 64 ∨ LuckyWrap size alignment dev.fbInfo.freeMem.toNat := by
  have hs₁ := (preVidHeapAlloc_cases (by decide) h₁).success_iff hr₁ ha
  have hs₂ := (preRmAlloc_cases (by decide) h₂).success_iff hr₂ ha
  have hsame : o₁.success = o₂.success := by rw [Bool.eq_iff_iff, hs₁, hs₂]
  rw [← hsame]
  rw [UInt64.lt_iff_toNat_lt] at hs₁
  by_cases hs : size.toNat + alignment.toNat - 1 < 2 ^ 64
  · exact iff_of_true (soundCheck_of_small ha hs hs₁) (Or.inl hs)
  · rw [soundCheck_wrapped ha dev.fbInfo.freeMem.toNat_lt (by omega) hs₁]
    exact ⟨Or.inr, fun h => h.resolve_left hs⟩

def Args.localUser (size alignment : UInt64) : Args := .rmAlloc 1 2 7 .nv01MemoryLocalUser ⟨0, ⟨7, size, alignment⟩⟩

theorem admission_run : ∃ o₁ o₂, preVidHeapAlloc (.allocSize 1 2 7 64 64) firstProcess = some o₁ ∧
    preRmAlloc (.localUser 64 64) firstProcess = some o₂ ∧
    SoundCheck 64 64 firstProcess.fbInfo.freeMem.toNat o₁.success o₂.success := by
  have h₁ : preVidHeapAlloc (.allocSize 1 2 7 64 64) firstProcess = some ⟨0, false, _, _⟩ := rfl
  have h₂ : preRmAlloc (.localUser 64 64) firstProcess = some ⟨0, false, _, _⟩ := rfl
  exact ⟨_, _, h₁, h₂, (admission rfl rfl (by decide) h₁ h₂).mpr (Or.inl (by decide))⟩

/-- All but one byte of the address space at alignment 2, of 100 bytes, is admitted by
    both handlers. -/
theorem huge_size_is_admitted : ∃ o₁ o₂, preVidHeapAlloc (.allocSize 1 2 7 (-1) 2) firstProcess = some o₁ ∧
    preRmAlloc (.localUser (-1) 2) firstProcess = some o₂ ∧ o₁.success = false ∧ o₂.success = false ∧
    ¬ SoundCheck (-1) 2 firstProcess.fbInfo.freeMem.toNat o₁.success o₂.success :=
  ⟨_, _, rfl, rfl, rfl, rfl, fun h => absurd (h.free rfl) (by decide)⟩

/-! ## Three amounts -/

/-- `x` is what the stage before the kernel compares the free memory with. -/
def Compared (cmd : UInt32) (args : Args) (x : UInt64) : Prop :=
  ∀ dev o, preIoctl cmd args false dev = some o → (o.success = true ↔ dev.fbInfo.freeMem < x)

/-- `x` is what a free that ends at the record gives back. -/
def Credited (entry : DeviceMem) (x : UInt64) : Prop :=
  ∀ page dev c, scan (·.object == page) dev.heapMemList = some c → c.entry = entry →
    (freeHeapPage page dev).fbInfo.freeMem = dev.fbInfo.freeMem + x

/-- From `dev` to `dev'` the request was charged, filed, and will be given back, at the
    amount it was compared at. -/
def OneAmount (cmd : UInt32) (args : Args) (dev dev' : DeviceProp) : Prop :=
  ∃ x entry, Compared cmd args x ∧ dev'.fbInfo.freeMem = dev.fbInfo.freeMem - x ∧
    dev'.heapMemList = entry :: dev.heapMemList ∧ Credited entry x

/-- Memory asked for at a power of two, without overflow, and granted with the size as
    it was; `given` is the alignment the kernel leaves in the buffer. -/
structure Call.Regular (c : Call) (size alignment given : UInt64) : Prop where
  asked : memRequest c.cmd.toUInt32 c.args = some (size, alignment)
  granted : memRequest c.cmd.toUInt32 c.reply.2 = some (size, given)
  ok : statusOf c.cmd.toUInt32 c.reply.2 = .ok
  power : ∃ k, alignment.toNat = 2 ^ k
  small : size.toNat + alignment.toNat - 1 < 2 ^ 64

theorem Call.Regular.ne_zero {c : Call} {size alignment given : UInt64} (h : c.Regular size alignment given) :
    alignment ≠ 0 := by
  obtain ⟨k, hk⟩ := h.power
  intro h0
  have hpos : 0 < 2 ^ k := Nat.two_pow_pos k
  rw [← hk, h0] at hpos
  exact absurd hpos (by decide)

theorem compared_roundUp {cmd : UInt32} {args : Args} {size alignment : UInt64}
    (hreq : memRequest cmd args = some (size, alignment)) (ha : alignment ≠ 0) :
    Compared cmd args (roundUp size alignment) :=
  fun _ _ h => (preIoctl_cases h).success_iff hreq ha

theorem Compared.unique {cmd : UInt32} {args : Args} {x y : UInt64} (hx : Compared cmd args x)
    (hy : Compared cmd args y) : x = y := by
  have hiff : ∀ free : UInt64, free < x ↔ free < y := by
    intro free
    let dev : DeviceProp := { gpuDevice with fbInfo := ⟨0, 0, free⟩ }
    obtain ⟨o, ho⟩ := preIoctl_returns cmd args false (show dev.mu = false from rfl)
    exact (hx dev o ho).symm.trans (hy dev o ho)
  have h1 : ¬ x < y := fun h => absurd ((hiff x).mpr h) (UInt64.lt_irrefl x)
  have h2 : ¬ y < x := fun h => absurd ((hiff y).mp h) (UInt64.lt_irrefl y)
  exact UInt64.le_antisymm (UInt64.not_lt.mp h2) (UInt64.not_lt.mp h1)

theorem credited_size (entry : DeviceMem) : Credited entry entry.size := by
  intro page dev c hc he
  simp only [freeHeapPage, hc, he]

theorem oneAmount_iff {c : Call} {dev : DeviceProp} {o : Outcome} {minor : UInt32} {size alignment given : UInt64}
    (hl : dev.memLimited = true) (hd : c.device = some minor) (hr : c.reply.1 = 0)
    (hreg : c.Regular size alignment given) (h : ioctl c dev = some o) (ho : o.calls ≠ []) :
    OneAmount c.cmd.toUInt32 c.args dev o.dev ↔ alignment.toNat ∣ size.toNat ∧ c.malloc = true ∧ given ≠ 0 ∧
      (iocNr c.cmd.toUInt32 = nvEscRmVidHeapControl → minor = nvidiaCtlMinor) := by
  have ha := hreg.ne_zero
  obtain ⟨k, hk⟩ := hreg.power
  have hm : dev.mu = false := by
    by_contra hm
    have hpre : preIoctl c.cmd.toUInt32 c.args false dev = none := preIoctl_blocks (by simpa using hm) hreg.asked ha
    simp [ioctl, hl, getDeviceNumber_device hd, hpre] at h
  have hfit : ¬ Rejects c.cmd.toUInt32 c.args dev := by
    rcases ioctl_device hd hl h with ⟨p, -, -, rfl⟩ | ⟨hfit, -⟩
    · exact absurd rfl ho
    · exact hfit
  obtain ⟨-, hdev⟩ := ioctl_answered hm hl hd hfit hr h
  obtain ⟨key, heff⟩ := effect_memRequest minor dev.rmMemList hreg.granted
  rw [hdev, heff]
  constructor
  · intro hone
    obtain ⟨x, entry, hcomp, hdebit, hfiled, -⟩ := hone
    have hx := hcomp.unique (compared_roundUp hreg.asked ha)
    split at hfiled
    · rename_i hc
      rw [if_pos hc] at hdebit
      by_cases hmal : c.malloc = true
      · rw [hmal] at hdebit
        simp only [Effect.apply, if_true, charge_free] at hdebit
        have hsize : size = x := by
          have := congrArg (dev.fbInfo.freeMem - ·) hdebit
          simpa using this
        exact ⟨(roundUp_eq_self_iff hk ha hreg.small).mp (hx.symm.trans hsize.symm), hmal, hc.2⟩
      · simp [Effect.apply, hmal] at hfiled
    · simp [Effect.apply] at hfiled
  · intro hcond
    obtain ⟨hdvd, hmal, hgiven, hminor⟩ := hcond
    have hround := (roundUp_eq_self_iff hk ha hreg.small).mpr hdvd
    rw [if_pos ⟨hreg.ok, hgiven, hminor⟩, hmal]
    refine ⟨size, ⟨key, size⟩, ?_, rfl, rfl, credited_size _⟩
    have hcomp := compared_roundUp hreg.asked ha
    rw [hround] at hcomp
    exact hcomp

/-! ## Runs -/

/-- What a call asks of the books: nothing unless the kernel carries it out. -/
def Call.effect (c : Call) (dev : DeviceProp) (o : Outcome) : Effect :=
  match c.device with
  | some minor =>
    if dev.memLimited ∧ dev.mu = false ∧ o.calls ≠ [] ∧ c.reply.1 = 0 then
      Ioctl.effect minor c.cmd.toUInt32 c.reply.2 dev.rmMemList
    else .none
  | none => .none

theorem ioctl_apply {c : Call} {dev : DeviceProp} {o : Outcome} (h : ioctl c dev = some o) :
    o.dev = (c.effect dev o).apply c.malloc dev := by
  unfold Call.effect
  split
  · rename_i minor hd
    by_cases hl : dev.memLimited = true
    · by_cases hm : dev.mu = false
      · by_cases hr : c.reply.1 = 0
        · rcases ioctl_device hd hl h with ⟨p, -, -, rfl⟩ | ⟨hfit, hcalls, -⟩
          · rw [if_neg (by simp)]
            rfl
          · rw [if_pos ⟨hl, hm, by simp [hcalls], hr⟩]
            exact (ioctl_answered hm hl hd hfit hr h).2
        · rw [if_neg (fun hc => hr hc.2.2.2)]
          exact ioctl_unanswered h fun hc => hr hc.2.2.2
      · rw [if_neg (fun hc => hm hc.2.1)]
        exact (ioctl_effect h).resolve_right fun hc => hm hc.1
    · rw [if_neg (fun hc => hl hc.1)]
      exact ioctl_unanswered h fun hc => hl hc.1
  · rename_i hd
    exact ioctl_unanswered h fun hc => by simp [hd] at hc

theorem effect_charge {c : Call} {dev : DeviceProp} {o : Outcome} {entry : DeviceMem} (h : ioctl c dev = some o)
    (he : c.effect dev o = .charge entry) : c.reply.1 = 0 ∧ ¬ Rejects c.cmd.toUInt32 c.args dev ∧
      ∃ g, created c.cmd.toUInt32 c.reply.2 = some g ∧ g.kind = .memory entry.size g.alignment := by
  unfold Call.effect at he
  split at he
  · rename_i minor hd
    split at he
    · rename_i hc
      obtain ⟨g, hg, hk, -⟩ := created_of_charge he
      refine ⟨hc.2.2.2, fun hrej => hc.2.2.1 ?_, g, hg, hk⟩
      exact ((reject_or_forward c dev).2 o h).1.mpr ⟨hc.1, by simp [hd], hrej⟩
    · cases he
  · cases he

/-- A record and the alignment its memory was asked for at. -/
structure Padded where
  record : DeviceMem
  alignment : UInt64
  deriving DecidableEq, Repr

def Padded.bytes (p : Padded) : ℕ := (roundUp p.record.size p.alignment).toNat

def Call.alignment (c : Call) : UInt64 := ((memRequest c.cmd.toUInt32 c.args).map Prod.snd).getD 0

/-- What an effect does to the records and their alignments. -/
def Effect.pad (malloc : Bool) (alignment : UInt64) (live : List Padded) : Effect → List Padded
  | .charge entry => if malloc then ⟨entry, alignment⟩ :: live else live
  | .freeHeap page => scanDel (·.record.object == page) live
  | .none | .note _ | .freeDevice _ => live

structure Padding where
  dev : DeviceProp
  live : List Padded

/-- A process and its hooked calls, with the alignments kept beside the records. -/
def padded (d0 : DeviceProp) : System Padding Call where
  init s := s = ⟨d0, []⟩
  step s c s' := ∃ o, ioctl c s.dev = some o ∧
    s' = ⟨o.dev, (c.effect s.dev o).pad c.malloc c.alignment s.live⟩

/-- All memory the call is granted was asked for at an alignment that divides the
    size. -/
def Call.Exact (c : Call) : Prop :=
  c.reply.1 = 0 → ∀ g, created c.cmd.toUInt32 c.reply.2 = some g → g.isMemory = true →
    ∃ size alignment given, c.Regular size alignment given ∧ alignment.toNat ∣ size.toNat

/-- The records are covered by what is not free, at their rounded sizes. -/
structure Covers (total : UInt64) (s : Padding) : Prop where
  copies : s.live.map Padded.record = s.dev.heapMemList
  limit : s.dev.fbInfo.totalMem = total
  books : s.dev.booked + s.dev.fbInfo.freeMem.toNat = total.toNat
  exact : ∀ p ∈ s.live, p.bytes = p.record.size.toNat

theorem mem_of_mem_scanDel {α : Type} {p : α → Bool} {l : List α} {x : α} (h : x ∈ scanDel p l) : x ∈ l := by
  unfold scanDel at h
  split at h
  · rename_i c hc
    rw [← (scan_spec p hc).1, Cursor.list]
    rcases List.mem_append.mp h with h | h
    · exact List.mem_append_left _ h
    · exact List.mem_append_right _ (List.mem_cons_of_mem _ h)
  · exact h

theorem Covers.charge {total : UInt64} {s : Padding} {entry : DeviceMem} {alignment : UInt64} (h : Covers total s)
    (hfit : entry.size.toNat ≤ s.dev.fbInfo.freeMem.toNat)
    (hexact : (roundUp entry.size alignment) = entry.size) :
    Covers total ⟨s.dev.charge entry, ⟨entry, alignment⟩ :: s.live⟩ := by
  refine ⟨?_, h.limit, ?_, ?_⟩
  · simp [h.copies]
  · have hbooks := h.books
    have hle : entry.size ≤ s.dev.fbInfo.freeMem := UInt64.le_iff_toNat_le.mpr hfit
    simp only [booked_charge, charge_free, UInt64.toNat_sub_of_le _ _ hle]
    omega
  · intro p hp
    rcases List.mem_cons.mp hp with rfl | hp
    · exact congrArg UInt64.toNat hexact
    · exact h.exact p hp

theorem Covers.free {total : UInt64} {s : Padding} (h : Covers total s) (page : UInt32) :
    Covers total ⟨freeHeapPage page s.dev, scanDel (·.record.object == page) s.live⟩ := by
  refine ⟨?_, by simp [h.limit], ?_, fun p hp => h.exact p (mem_of_mem_scanDel hp)⟩
  · simp only [freeHeapPage_heap, ← h.copies]
    exact (scanDel_map (fun e : DeviceMem => e.object == page) Padded.record s.live).symm
  · obtain ⟨size, -, hfree, -, hbooked⟩ := freeHeapPage_sums page s.dev
    have hbooks := h.books
    have hlt := total.toNat_lt
    simp only [hfree, UInt64.toNat_add]
    omega

theorem covers_step {total : UInt64} {d0 : DeviceProp} {s s' : Padding} {c : Call} (hi : Covers total s)
    (hok : c.Exact) (h : (padded d0).step s c s') : Covers total s' := by
  obtain ⟨o, ho, rfl⟩ := h
  have hdev := ioctl_apply ho
  cases he : c.effect s.dev o with
  | none =>
    rw [he] at hdev
    rw [hdev]
    exact hi
  | note entry =>
    rw [he] at hdev
    rw [hdev]
    cases c.malloc <;> exact ⟨hi.copies, hi.limit, hi.books, hi.exact⟩
  | charge entry =>
    rw [he] at hdev
    rw [hdev]
    obtain ⟨hr, hfit, g, hg, hk⟩ := effect_charge ho he
    obtain ⟨size, alignment, given, hreg, hdvd⟩ := hok hr g hg (by simp [Object.isMemory, hk])
    obtain ⟨k, hpow⟩ := hreg.power
    have hsize : size = entry.size := by
      have hreq := memRequest_memory hg hk
      rw [hreg.granted] at hreq
      exact congrArg Prod.fst (Option.some.inj hreq)
    subst hsize
    have hround := (roundUp_eq_self_iff hpow hreg.ne_zero hreg.small).mpr hdvd
    have halign : c.alignment = alignment := by simp [Call.alignment, hreg.asked]
    cases c.malloc with
    | true =>
      rw [halign]
      exact hi.charge (fits_of_not_rejects hfit hreg.asked hreg.ne_zero hreg.small) hround
    | false => exact ⟨hi.copies, hi.limit, hi.books, hi.exact⟩
  | freeHeap page =>
    rw [he] at hdev
    rw [hdev]
    exact hi.free page
  | freeDevice page =>
    rw [he] at hdev
    rw [hdev]
    exact ⟨by simpa [Effect.apply, Effect.pad] using hi.copies, by simpa [Effect.apply] using hi.limit,
      by simpa [Effect.apply, DeviceProp.booked] using hi.books, hi.exact⟩

theorem padded_within_limit {minor : UInt32} {total : UInt64} {d0 : DeviceProp} {s : Padding}
    (h0 : Initialises minor total d0) (h : ((padded d0).restrict fun _ c => c.Exact).Reach s) :
    s.live.map Padded.record = s.dev.heapMemList ∧ (s.live.map Padded.bytes).sum ≤ s.dev.fbInfo.totalMem.toNat := by
  have hc : Covers total s := by
    refine System.Reach.inv (I := Covers total) ?_ ?_ h
    · intro s he
      rw [show s = ⟨d0, []⟩ from he]
      obtain ⟨pid, rfl⟩ := initialises_eq h0
      exact ⟨rfl, rfl, Nat.zero_add _, fun p hp => absurd hp List.not_mem_nil⟩
    · intro s c s' hi hstep
      exact covers_step hi hstep.1 hstep.2
  refine ⟨hc.copies, ?_⟩
  have hsum : (s.live.map Padded.bytes).sum = s.dev.booked := by
    rw [DeviceProp.booked, ← hc.copies, List.map_map]
    exact congrArg List.sum (List.map_congr_left hc.exact)
  have hbooks := hc.books
  rw [hsum, hc.limit]
  omega

/-- The three amounts of a granted request agree exactly when it is charged and its
    alignment divides its size; and over a run of such requests the rounded sizes of the
    live records stay within the limit. -/
theorem amounts (minor : UInt32) :
    (∀ {c : Call} {dev : DeviceProp} {o : Outcome} {size alignment given : UInt64},
      dev.memLimited = true → c.device = some minor → c.reply.1 = 0 → c.Regular size alignment given →
      ioctl c dev = some o → o.calls ≠ [] →
      (OneAmount c.cmd.toUInt32 c.args dev o.dev ↔ alignment.toNat ∣ size.toNat ∧ c.malloc = true ∧ given ≠ 0 ∧
        (iocNr c.cmd.toUInt32 = nvEscRmVidHeapControl → minor = nvidiaCtlMinor))) ∧
      ∀ {total : UInt64} {d0 : DeviceProp} {s : Padding}, Initialises minor total d0 →
        ((padded d0).restrict fun _ c => c.Exact).Reach s →
        s.live.map Padded.record = s.dev.heapMemList ∧
          (s.live.map Padded.bytes).sum ≤ s.dev.fbInfo.totalMem.toNat :=
  ⟨oneAmount_iff, padded_within_limit⟩

/-! ### Under a limit of 100 -/

def at64 (handle : UInt32) (size : UInt64) : Call := .grant nvEscRmVidHeapControl (.allocSize 1 2 handle size 64)

theorem at64_regular {handle : UInt32} {size : UInt64} (h : size.toNat ≤ 100) :
    (at64 handle size).Regular size 64 64 := by
  have hc : iocNr (at64 handle size).cmd.toUInt32 = nvEscRmVidHeapControl := by
    show iocNr nvEscRmVidHeapControl.toUInt64.toUInt32 = nvEscRmVidHeapControl
    decide
  refine ⟨by rw [memRequest, if_pos hc]; rfl, by rw [memRequest, if_pos hc]; rfl, by rw [statusOf, if_pos hc]; rfl,
    ⟨6, rfl⟩, ?_⟩
  rw [show (64 : UInt64).toNat = 64 from rfl]
  omega

theorem amounts_run : ∃ (o : Outcome) (s : Padding), ioctl (at64 7 64) firstProcess = some o ∧ s.dev = o.dev ∧
    OneAmount (at64 7 64).cmd.toUInt32 (at64 7 64).args firstProcess o.dev ∧ (s.live.map Padded.bytes).sum ≤ 100 := by
  have h : ioctl (at64 7 64) firstProcess = some ⟨0, _, firstProcess.charge ⟨7, 64⟩, [_]⟩ := rfl
  have hreg : (at64 7 64).Regular 64 64 64 := at64_regular (by decide)
  have hstep := System.Reach.step (S := (padded firstProcess).restrict fun _ c => c.Exact) (.init rfl)
    ⟨fun _ _ _ _ => ⟨64, 64, 64, hreg, by decide⟩, _, h, rfl⟩
  exact ⟨_, _, h, rfl, ((amounts _).1 rfl rfl rfl hreg h (by simp)).mpr (by decide),
    ((amounts _).2 firstProcess_initialises hstep).2⟩

/-- Ten bytes at alignment 64 are compared at 64 and charged at 10; after two such
    requests, of 100 bytes, 128 are taken. -/
theorem padding_is_not_charged :
    (∃ o, ioctl (at64 7 10) firstProcess = some o ∧ o.calls ≠ [] ∧
      ¬ OneAmount (at64 7 10).cmd.toUInt32 (at64 7 10).args firstProcess o.dev) ∧
    ∃ s, ((padded firstProcess).restrict fun _ c => ∃ size alignment given, c.Regular size alignment given).Reach s ∧
      s.dev.fbInfo.totalMem.toNat < (s.live.map Padded.bytes).sum := by
  have hreg (handle : UInt32) : (at64 handle 10).Regular 10 64 64 := at64_regular (by decide)
  have h1 : ioctl (at64 7 10) firstProcess = some ⟨0, _, firstProcess.charge ⟨7, 10⟩, [_]⟩ := rfl
  have h2 : ioctl (at64 8 10) (firstProcess.charge ⟨7, 10⟩)
      = some ⟨0, _, (firstProcess.charge ⟨7, 10⟩).charge ⟨8, 10⟩, [_]⟩ := rfl
  refine ⟨⟨_, h1, by simp, fun hone => ?_⟩, ?_⟩
  · exact absurd ((oneAmount_iff rfl rfl rfl (hreg 7) h1 (by simp)).mp hone).1 (by decide)
  · exact ⟨_, .step (.step (.init rfl) ⟨⟨_, _, _, hreg 7⟩, _, h1, rfl⟩) ⟨⟨_, _, _, hreg 8⟩, _, h2, rfl⟩, by decide⟩

end NvResourceController.Ioctl
