/-
  NvResourceController.Ioctl.Limit — the memory limit over whole runs of one process:
  check, kernel, debit and credit against the memory objects the kernel has granted.

  The hook never sees the objects. It decides by the ledger, and the ledger follows its
  records; a granted object counts against the limit as long as the hook has a record
  that shows it (`Covered`). `quota_simulates`: where the calls keep it so (`Tracked`),
  the runs are those of a quota over the live memory objects.

  - `live_within_limit`: so those objects never exceed the limit together.
  - Without `Tracked` they can. `limit_passed`: memory asked for with alignment 0 is
    neither checked nor charged (the guards say so); memory granted to another owner,
    and frees of handles with no record, give back what is still held.
-/

import NvResourceController.Lib.Quota
import NvResourceController.Ioctl.Free
import Mathlib.Algebra.Order.Group.Nat

namespace NvResourceController.Ioctl

open ListCursor Keyed Quota System

/-! ## Runs of hooked calls -/

/-- A call on the control device, and, should it be a free, which objects go. -/
structure Asked where
  call : Call
  gone : Object → Bool

def Asked.answer (e : Asked) : Answer :=
  ⟨e.call.cmd.toUInt32, e.call.reply.2, e.call.malloc, e.call.os, e.gone⟩

/-- A process and its hooked calls on the control device. The objects change when the
    kernel is asked and does not fail. -/
def hooked (s0 : State) : System State Asked where
  init s := s = s0
  step s e s' := e.call.stat = nvidiactl ∧ ∃ o, ioctl e.call s.dev = some o ∧
    s' = ⟨o.dev, if o.calls = [] ∨ e.call.reply.1 ≠ 0 then s.live else e.answer.objects s.live⟩

def Asked.Reached (s : State) (e : Asked) : Prop :=
  ¬ Rejects e.call.cmd.toUInt32 e.call.args s.dev ∧ e.call.reply.1 = 0

theorem hooked_step {s0 s s' : State} {e : Asked} (hl : s.dev.memLimited = true) (h : (hooked s0).step s e s') :
    s' = s ∨ (e.Reached s ∧ (answered s0).step s e.answer s') := by
  obtain ⟨hstat, o, ho, rfl⟩ := h
  rcases ioctl_cases hstat hl ho with ⟨hcalls, hdev, -, -⟩ | ⟨hfit, hcalls, hrep⟩
  · exact Or.inl (by simp [hcalls, hdev])
  · rcases hrep with ⟨hret, hdev, -, -⟩ | ⟨hret, p, hp, hdev, -, -⟩
    · exact Or.inl (by simp [hret, hdev])
    · exact Or.inr ⟨⟨hfit, hret⟩, p, hp, by simp [hcalls, hret, hdev]⟩

theorem hooked_blocks {s0 s s' : State} {e : Asked} {size alignment : UInt64} (hm : s.dev.mu = true)
    (hl : s.dev.memLimited = true) (hreq : memRequest e.call.cmd.toUInt32 e.call.args = some (size, alignment))
    (ha : alignment ≠ 0) : ¬ (hooked s0).step s e s' := by
  intro hstep
  obtain ⟨hstat, o, ho, -⟩ := hstep
  have hpre : preIoctl e.call.cmd.toUInt32 e.call.args false s.dev = none := preIoctl_blocks hm hreq ha
  simp [ioctl, hl, hstat, nvidiactl, getDeviceNumber, hpre] at ho

/-! ## What is held -/

def Object.bytes (o : Object) : ℕ := o.size.toNat

/-- The memory objects granted and not yet freed. -/
def State.memory (s : State) : List Object := s.live.filter Object.isMemory

/-! ## The two assumptions -/

/-- What the runs are about: the kernel leaves a request as it was, no request is near
    the top of a word, live objects have distinct handles, and what is freed goes. -/
structure Sane (s : State) (e : Asked) : Prop where
  echoed : ∀ o ∈ e.answer.created,
    memRequest e.call.cmd.toUInt32 e.call.reply.2 = memRequest e.call.cmd.toUInt32 e.call.args
  small : ∀ r ∈ memRequest e.call.cmd.toUInt32 e.call.args, r.1.toNat + r.2.toNat - 1 < 2 ^ 64
  fresh : ∀ o ∈ e.answer.created, ∀ x ∈ s.live, x.handle ≠ o.handle
  freed : ∀ f ∈ e.answer.freed, ∀ x ∈ s.live, x.handle = f.hObjectOld → e.gone x = true

/-- What keeps the hook's records in step: granted memory has an alignment and is filed
    under its handle, and a free that looks in `heap_mem_list` finds its handle or
    nothing at all. -/
structure Tracked (s : State) (e : Asked) : Prop where
  aligned : ∀ o ∈ e.answer.created, o.isMemory = true → o.alignment ≠ 0
  filed : ∀ o ∈ e.answer.created, o.isMemory = true → e.answer.key = o.handle
  found : ∀ f ∈ e.answer.freed, f.hObjectOld = f.hRoot ∨ f.hRoot = f.hObjectParent ∨
    (∃ r ∈ s.dev.heapMemList, r.object = f.hObjectOld) ∨ s.dev.heapMemList = []

instance (s : State) (e : Asked) : Decidable (Sane s e) :=
  decidable_of_iff
    ((∀ o ∈ e.answer.created,
        memRequest e.call.cmd.toUInt32 e.call.reply.2 = memRequest e.call.cmd.toUInt32 e.call.args) ∧
      ((memRequest e.call.cmd.toUInt32 e.call.args).all fun r => r.1.toNat + r.2.toNat - 1 < 2 ^ 64) = true ∧
      (∀ o ∈ e.answer.created, ∀ x ∈ s.live, x.handle ≠ o.handle) ∧
      ∀ f ∈ e.answer.freed, ∀ x ∈ s.live, x.handle = f.hObjectOld → e.gone x = true)
    ⟨fun h => ⟨h.1, fun r hr => of_decide_eq_true ((Option.all_eq_true _ _).mp h.2.1 r hr), h.2.2.1, h.2.2.2⟩,
      fun h => ⟨h.echoed, (Option.all_eq_true _ _).mpr fun r hr => decide_eq_true (h.small r hr), h.fresh, h.freed⟩⟩

instance (s : State) (e : Asked) : Decidable (Tracked s e) :=
  decidable_of_iff
    ((∀ o ∈ e.answer.created, o.isMemory = true → o.alignment ≠ 0) ∧
      (∀ o ∈ e.answer.created, o.isMemory = true → e.answer.key = o.handle) ∧
      ∀ f ∈ e.answer.freed, f.hObjectOld = f.hRoot ∨ f.hRoot = f.hObjectParent ∨
        (∃ r ∈ s.dev.heapMemList, r.object = f.hObjectOld) ∨ s.dev.heapMemList = [])
    ⟨fun h => ⟨h.1, h.2.1, h.2.2⟩, fun h => ⟨h.aligned, h.filed, h.found⟩⟩

/-! ## The invariant -/

/-- Unless the mutex is held for good, the ledger and the records make up the limit and
    every live memory object is what its handle finds. -/
structure Covered (total : ℕ) (s : State) : Prop where
  limited : s.dev.memLimited = true
  limit : s.dev.fbInfo.totalMem.toNat = total
  distinct : (s.live.map Object.handle).Nodup
  books : s.dev.mu = false → s.dev.fbInfo.freeMem.toNat + s.dev.booked = total
  shown : s.dev.mu = false → ∀ x ∈ s.memory,
    first DeviceMem.object x.handle s.dev.heapMemList = some ⟨x.handle, x.size⟩

theorem held_le_booked {total : ℕ} {s : State} (hi : Covered total s) (hm : s.dev.mu = false) :
    held Object.bytes s.memory ≤ s.dev.booked := by
  have hd : (s.memory.map Object.handle).Nodup := hi.distinct.sublist (List.filter_sublist.map _)
  exact sum_le_sum_of_first DeviceMem.object Object.handle Object.bytes (fun e => e.size.toNat) hd
    fun x hx => ⟨_, hi.shown hm x hx, rfl⟩

theorem Covered.same {total : ℕ} {s s' : State} (hi : Covered total s) (hl : s'.dev.memLimited = true)
    (hheap : s'.dev.heapMemList = s.dev.heapMemList) (hfb : s'.dev.fbInfo = s.dev.fbInfo)
    (hm : s'.dev.mu = false → s.dev.mu = false) (hd : (s'.live.map Object.handle).Nodup)
    (hmem : ∀ x ∈ s'.memory, x ∈ s.memory) : Covered total s' := by
  refine ⟨hl, by rw [hfb]; exact hi.limit, hd, fun h => ?_, fun h x hx => ?_⟩
  · rw [DeviceProp.booked, hheap, hfb]
    exact hi.books (hm h)
  · rw [hheap]
    exact hi.shown (hm h) x (hmem x hx)

theorem charge_covered {total : ℕ} {s : State} {o : Object} (hi : Covered total s)
    (hm : s.dev.mu = false) (hfresh : ∀ x ∈ s.live, x.handle ≠ o.handle)
    (hfit : o.size.toNat ≤ s.dev.fbInfo.freeMem.toNat) :
    Covered total ⟨s.dev.charge ⟨o.handle, o.size⟩, o :: s.live⟩ := by
  refine ⟨hi.limited, hi.limit, nodup_cons_of_fresh Object.handle hi.distinct hfresh, ?_, ?_⟩
  · intro _
    have hbooks := hi.books hm
    have hle : o.size ≤ s.dev.fbInfo.freeMem := UInt64.le_iff_toNat_le.mpr hfit
    simp only [DeviceProp.booked, charge_free, charge_heap, List.map_cons, List.sum_cons,
      UInt64.toNat_sub_of_le _ _ hle] at hbooks ⊢
    omega
  · intro _ x hx
    rw [charge_heap]
    rcases List.mem_cons.mp (List.mem_filter.mp hx).1 with rfl | hx'
    · exact first_cons_self DeviceMem.object _ _
    · rw [first_cons_ne DeviceMem.object (Ne.symm (hfresh x hx'))]
      exact hi.shown hm x (List.mem_filter.mpr ⟨hx', (List.mem_filter.mp hx).2⟩)

theorem freeHeapPage_covered {total : UInt64} {s : State} {page : UInt32} {r : DeviceMem} {live : List Object}
    (hi : Covered total.toNat s) (hm : s.dev.mu = false)
    (hr : first DeviceMem.object page s.dev.heapMemList = some r) (hsub : live.Sublist s.live)
    (hgone : ∀ x ∈ live, x.handle ≠ page) : Covered total.toNat ⟨freeHeapPage page s.dev, live⟩ := by
  refine ⟨by simpa using hi.limited, by simpa using hi.limit, hi.distinct.sublist (hsub.map _), fun _ => ?_,
    fun _ x hx => ?_⟩
  · have hbooks := hi.books hm
    have hsum := sum_dropFirst DeviceMem.object (fun e => e.size.toNat) hr
    have hlt := total.toNat_lt
    simp only [DeviceProp.booked, freeHeapPage_recorded hr, UInt64.toNat_add] at hbooks hsum ⊢
    omega
  · obtain ⟨hx', hmem⟩ := List.mem_filter.mp hx
    rw [freeHeapPage_recorded hr]
    show first DeviceMem.object x.handle (dropFirst DeviceMem.object page s.dev.heapMemList) = _
    rw [first_dropFirst_ne DeviceMem.object (hgone x hx')]
    exact hi.shown hm x (List.mem_filter.mpr ⟨hsub.subset hx', hmem⟩)

/-! ## The steps -/

theorem objects_distinct {live : List Object} {a : Answer} (hd : (live.map Object.handle).Nodup)
    (hfresh : ∀ o, a.created = some o → ∀ x ∈ live, x.handle ≠ o.handle) :
    ((a.objects live).map Object.handle).Nodup := by
  unfold Answer.objects
  split
  · rename_i o hc
    exact nodup_cons_of_fresh Object.handle hd (hfresh o hc)
  · split
    · exact hd.sublist (List.filter_sublist.map _)
    · exact hd

theorem freed_covered {total : UInt64} {s0 s s' : State} {e : Asked} {f : NVOS00Parameters}
    (hi : Covered total.toNat s) (hm : s.dev.mu = false) (hs : Sane s e) (ht : Tracked s e)
    (hf : e.answer.freed = some f) (h : (answered s0).step s e.answer s') : Covered total.toNat s' := by
  have hsub : (s.live.filter (!e.answer.gone ·)).Sublist s.live := List.filter_sublist
  have hsame : ∀ dev : DeviceProp, dev.memLimited = true → dev.heapMemList = s.dev.heapMemList →
      dev.fbInfo = s.dev.fbInfo → Covered total.toNat ⟨dev, s.live.filter (!e.answer.gone ·)⟩ := by
    intro dev hl hheap hfb
    exact hi.same hl hheap hfb (fun _ => hm) (hi.distinct.sublist (hsub.map _))
      fun x hx => (hsub.filter _).subset hx
  rw [step_freed hm hf h]
  split
  · exact hsame _ hi.limited rfl rfl
  split
  · exact hsame _ (by simpa using hi.limited) (by simp) (by simp)
  · rename_i hr hp
    rcases ht.found f hf with h1 | h1 | h1 | h1
    · exact absurd h1 hr
    · exact absurd h1 hp
    · obtain ⟨r, hr⟩ := (first_isSome DeviceMem.object).mpr h1
      refine freeHeapPage_covered hi hm hr hsub ?_
      intro x hx heq
      obtain ⟨hx', hkeep⟩ := List.mem_filter.mp hx
      have hgone := hs.freed f hf x hx' heq
      simp [Asked.answer, hgone] at hkeep
    · rw [freeHeapPage_nil h1]
      exact hsame _ hi.limited rfl rfl

theorem granted_fits {s0 s s' : State} {e : Asked} {o : Object} (hs : Sane s e) (ht : Tracked s e)
    (hc : e.answer.created = some o) (hmem : o.isMemory = true)
    (hfit : ¬ Rejects e.call.cmd.toUInt32 e.call.args s.dev) (hl : s.dev.memLimited = true)
    (h : (hooked s0).step s e s') : s.dev.mu = false ∧ o.size.toNat ≤ s.dev.fbInfo.freeMem.toNat := by
  have halign := ht.aligned o hc hmem
  have hreq : memRequest e.call.cmd.toUInt32 e.call.args = some (o.size, o.alignment) := by
    rw [← hs.echoed o hc]
    exact memRequest_memory hc (kind_of_isMemory hmem)
  refine ⟨?_, fits_of_not_rejects hfit hreq halign (hs.small _ hreq)⟩
  by_contra hm
  exact hooked_blocks (by simpa using hm) hl hreq halign h

theorem covered_step {total : UInt64} {s0 s s' : State} {e : Asked} (hi : Covered total.toNat s)
    (hok : e.Reached s → Sane s e ∧ Tracked s e) (h : (hooked s0).step s e s') : Covered total.toNat s' := by
  rcases hooked_step hi.limited h with rfl | ⟨hreach, ha⟩
  · exact hi
  obtain ⟨hs, ht⟩ := hok hreach
  have hd : ((e.answer.objects s.live).map Object.handle).Nodup := objects_distinct hi.distinct hs.fresh
  by_cases hm : s.dev.mu = true
  · obtain ⟨p, hp, rfl⟩ := ha
    have hdev : p.dev = s.dev := postIoctl_held hm hp
    have hheld : ¬ p.dev.mu = false := by simp [hdev, hm]
    exact ⟨by rw [hdev]; exact hi.limited, by rw [hdev]; exact hi.limit, hd, fun h => absurd h hheld,
      fun h => absurd h hheld⟩
  have hm : s.dev.mu = false := by simpa using hm
  -- a reply that is not about memory leaves the ledger, and shows nothing new
  have hquiet : (effect nvidiaCtlMinor e.answer.cmd e.answer.reply s.dev.rmMemList).Quiet →
      (∀ x ∈ (e.answer.objects s.live).filter Object.isMemory, x ∈ s.memory) → Covered total.toNat s' := by
    intro hq hmem
    obtain ⟨hheap, hfb, -, -⟩ := hq.apply e.answer.malloc s.dev
    rw [answered_step hm ha]
    exact hi.same (by rw [apply_memLimited]; exact hi.limited) hheap hfb (fun _ => hm) hd hmem
  cases hc : e.answer.created with
  | none =>
    cases hf : e.answer.freed with
    | none =>
      refine hquiet (effect_unreported _ hc hf) ?_
      intro x hx
      simpa [Answer.objects, hc, hf, State.memory] using hx
    | some f => exact freed_covered hi hm hs ht hf ha
  | some o =>
    by_cases hmem : o.isMemory = true
    · have hk := kind_of_isMemory hmem
      have halign := ht.aligned o hc hmem
      obtain ⟨-, hroom⟩ := granted_fits hs ht hc hmem hreach.1 hi.limited h
      cases hmal : e.answer.malloc with
      | true =>
        rw [step_memory hm hmal hc hk halign ha, ht.filed o hc hmem]
        exact charge_covered hi hm (hs.fresh o hc) hroom
      | false =>
        -- the record is lost, and the mutex stays held
        rw [answered_step hm ha, effect_memory _ hc hk, if_neg halign, hmal]
        exact ⟨hi.limited, hi.limit, hd, fun h => absurd h (by simp [Effect.apply]),
          fun h => absurd h (by simp [Effect.apply])⟩
    · refine hquiet (effect_quiet _ hc (kind_of_not_isMemory hmem)) ?_
      intro x hx
      rw [objects_created hc, List.filter_cons_of_neg hmem] at hx
      exact hx

theorem memory_step {total : UInt64} {s0 s s' : State} {e : Asked} (hi : Covered total.toNat s)
    (hok : e.Reached s → Sane s e ∧ Tracked s e) (h : (hooked s0).step s e s') :
    s'.memory = s.memory ∨ ∃ r, (quota Object.bytes total.toNat).step s.memory r s'.memory := by
  rcases hooked_step hi.limited h with rfl | ⟨hreach, ha⟩
  · exact Or.inl rfl
  obtain ⟨hs, ht⟩ := hok hreach
  have hlive : s'.live = e.answer.objects s.live := by
    obtain ⟨p, -, rfl⟩ := ha
    rfl
  have hmemory : s'.memory = (e.answer.objects s.live).filter Object.isMemory := by rw [State.memory, hlive]
  cases hc : e.answer.created with
  | none =>
    cases hf : e.answer.freed with
    | none =>
      refine Or.inl ?_
      rw [hmemory]
      simp [Answer.objects, hc, hf, State.memory]
    | some f =>
      refine Or.inr ⟨.release (!e.answer.gone ·), ?_⟩
      show s'.memory = s.memory.filter _
      rw [hmemory, objects_freed hf, State.memory, List.filter_comm]
  | some o =>
    rw [objects_created hc] at hmemory
    by_cases hmem : o.isMemory = true
    · obtain ⟨hm, hroom⟩ := granted_fits hs ht hc hmem hreach.1 hi.limited h
      have hheld := held_le_booked hi hm
      have hbooks := hi.books hm
      rw [List.filter_cons_of_pos hmem] at hmemory
      refine Or.inr ⟨.acquire o, ?_, hmemory⟩
      rw [held_cons]
      show o.size.toNat + _ ≤ _
      omega
    · rw [List.filter_cons_of_neg hmem] at hmemory
      exact Or.inl hmemory

/-! ## The limit -/

/-- The runs of a tracked process are runs of the quota over its live memory. -/
theorem quota_simulates {d0 : DeviceProp} (hl : d0.memLimited = true)
    (hh : d0.heapMemList = []) (hf : d0.fbInfo.freeMem = d0.fbInfo.totalMem) :
    Simulation ((hooked ⟨d0, []⟩).restrict fun s e => e.Reached s → Sane s e ∧ Tracked s e)
      (quota Object.bytes d0.fbInfo.totalMem.toNat)
      fun s items => items = s.memory ∧ Covered d0.fbInfo.totalMem.toNat s := by
  refine ⟨?_, ?_⟩
  · intro s hs
    rw [show s = ⟨d0, []⟩ from hs]
    refine ⟨[], rfl, rfl, hl, rfl, List.nodup_nil, ?_, fun _ x hx => absurd hx List.not_mem_nil⟩
    intro _
    simp [DeviceProp.booked, hh, hf]
  · intro s e s' items hsim hstep'
    obtain ⟨rfl, hi⟩ := hsim
    obtain ⟨hok, hstep⟩ := hstep'
    have hi' := covered_step hi hok hstep
    rcases memory_step hi hok hstep with hsame | ⟨r, hr⟩
    · exact ⟨[], s.memory, .nil _, hsame.symm, hi'⟩
    · exact ⟨[r], s'.memory, .cons hr (.nil _), rfl, hi'⟩

/-- The memory objects a process holds never exceed the limit together. -/
theorem live_within_limit {d0 : DeviceProp} {s : State} (hl : d0.memLimited = true)
    (hh : d0.heapMemList = []) (hf : d0.fbInfo.freeMem = d0.fbInfo.totalMem)
    (h : ((hooked ⟨d0, []⟩).restrict fun s e => e.Reached s → Sane s e ∧ Tracked s e).Reach s) :
    (s.memory.map fun o => o.size.toNat).sum ≤ s.dev.fbInfo.totalMem.toNat := by
  obtain ⟨items, ⟨rfl, hi⟩, hheld⟩ := limited_of_simulation (quota_simulates hl hh hf) h
  rw [hi.limit]
  exact hheld

/-! ## Runs under a limit of 100 -/

/-- The command `nr`, granted as asked; a free takes what has the freed handle. -/
def Asked.grant (nr : UInt32) (args : Args) : Asked :=
  ⟨.grant nr args, fun x => x.handle == args.nvos00.hObjectOld⟩

def Asked.heap (handle : UInt32) (size alignment : UInt64) : Asked :=
  .grant nvEscRmVidHeapControl (.allocSize 1 2 handle size alignment)

def Asked.local (new owner : UInt32) (size : UInt64) : Asked :=
  .grant nvEscRmAlloc (.rmAlloc 1 2 new .nv01MemoryLocalUser ⟨0, ⟨owner, size, 1⟩⟩)

def Asked.free (old : UInt32) : Asked := .grant nvEscRmFree (.rmFree 1 2 old)

theorem hooked_ok {s0 s s' : State} {e : Asked} {o : Outcome} {ok : State → Asked → Prop} (hok : ok s e)
    (hstat : e.call.stat = nvidiactl) (ho : ioctl e.call s.dev = some o)
    (h' : s' = ⟨o.dev, if o.calls = [] ∨ e.call.reply.1 ≠ 0 then s.live else e.answer.objects s.live⟩) :
    ((hooked s0).restrict ok).step s e s' := ⟨hok, hstat, o, ho, h'⟩

theorem live_within_limit_run :
    ∃ s : State, s.memory.map Object.handle = [9] ∧
      (s.memory.map fun o => o.size.toNat).sum ≤ s.dev.fbInfo.totalMem.toNat := by
  let ok : State → Asked → Prop := fun s e => e.Reached s → Sane s e ∧ Tracked s e
  have h : ((hooked ⟨firstProcess, []⟩).restrict ok).Reach ⟨firstProcess, []⟩ := .init rfl
  have h := h.step (hooked_ok (e := .heap 7 60 1) (fun _ => by decide) rfl rfl rfl)
  have h := h.step (hooked_ok (e := .heap 8 60 1) (fun _ => by decide) rfl rfl rfl)
  have h := h.step (hooked_ok (e := .free 7) (fun _ => by decide) rfl rfl rfl)
  have h := h.step (hooked_ok (e := .heap 9 60 1) (fun _ => by decide) rfl rfl rfl)
  exact ⟨_, by decide, live_within_limit rfl rfl rfl h⟩

/-- Under a limit of 100: 200 bytes of alignment 0; twice 60 bytes with the free of an
    object the hook has not recorded in between; twice 60 bytes where the first are
    filed under the handle of 10 others, which are freed. -/
theorem limit_passed :
    ∃ s1 s2 s3, ((hooked ⟨firstProcess, []⟩).restrict Sane).Reach s1 ∧
        s1.dev.fbInfo.totalMem.toNat < held Object.bytes s1.memory ∧
      ((hooked ⟨firstProcess, []⟩).restrict Sane).Reach s2 ∧
        s2.dev.fbInfo.totalMem.toNat < held Object.bytes s2.memory ∧
      ((hooked ⟨firstProcess, []⟩).restrict Sane).Reach s3 ∧
        s3.dev.fbInfo.totalMem.toNat < held Object.bytes s3.memory := by
  have h0 : ((hooked ⟨firstProcess, []⟩).restrict Sane).Reach ⟨firstProcess, []⟩ := .init rfl
  -- alignment 0
  have h1 := h0.step (hooked_ok (e := .heap 7 200 0) (by decide) rfl rfl rfl)
  -- a free of handle 9, which has no record
  have h2 := h0.step (hooked_ok (e := .heap 7 60 1) (by decide) rfl rfl rfl)
  have h2 := h2.step (hooked_ok (e := .free 9) (by decide) rfl rfl rfl)
  have h2 := h2.step (hooked_ok (e := .heap 8 60 1) (by decide) rfl rfl rfl)
  -- handle 7 filed under 8, and 8 freed
  have h3 := h0.step (hooked_ok (e := .heap 8 10 1) (by decide) rfl rfl rfl)
  have h3 := h3.step (hooked_ok (e := .local 7 8 60) (by decide) rfl rfl rfl)
  have h3 := h3.step (hooked_ok (e := .free 8) (by decide) rfl rfl rfl)
  have h3 := h3.step (hooked_ok (e := .heap 9 60 1) (by decide) rfl rfl rfl)
  exact ⟨_, _, _, h1, by decide, h2, by decide, h3, by decide⟩

end NvResourceController.Ioctl
