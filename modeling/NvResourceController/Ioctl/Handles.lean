/-
  NvResourceController.Ioctl.Handles — `rm_mem_list` as a map from handles to device
  ids. `post_device_rm_alloc` and `post_ctrl_rm_alloc` fill it, `free_device_page`
  empties it, and the handlers that are asked about a handle search it.

  It should show the live devices and subdevices, each with the id its device was
  allocated with (`Resolves`). `Mapped` is the representation invariant.

  - `handles_resolve`: it does, as long as the frees do not touch it otherwise than by
    a device's own (`Kept`).
  - `subdevice_lingers`: a free picks its list by the parent field, so a subdevice's
    looks in `heap_mem_list`, and its entry stays in `rm_mem_list`.
-/

import NvResourceController.Ioctl.Free

namespace NvResourceController.Ioctl

open ListCursor Keyed

/-! ## The search -/

theorem findDeviceId_first (h : UInt32) (rm : List RmMem) :
    findDeviceId h rm = match first RmMem.object h rm with
      | some entry => entry.deviceId.toInt32
      | none => -1 := rfl

theorem findDeviceId_of_mem {rm : List RmMem} {h : UInt32} {id : Int32} (hd : (rm.map RmMem.object).Nodup)
    (hm : (⟨h, id.toUInt32⟩ : RmMem) ∈ rm) : findDeviceId h rm = id := by
  rw [findDeviceId_first, first_of_mem RmMem.object hd hm]
  exact Int32.toInt32_toUInt32 id

theorem findDeviceId_of_not_mem {rm : List RmMem} {h : UInt32} (hn : ∀ e ∈ rm, e.object ≠ h) :
    findDeviceId h rm = -1 := by
  rw [findDeviceId_first, (first_eq_none RmMem.object).mpr hn]

/-! ## Live devices and subdevices -/

/-- The device id a live object stands for: a device's own, a subdevice's parent's. -/
def HasDevice (live : List Object) (x : Object) (id : Int32) : Prop :=
  x.kind = .device id ∨ (x.kind = .subdevice ∧ ∃ d ∈ live, d.handle = x.parent ∧ d.kind = .device id)

/-- The search finds an id for the live devices and subdevices and for no other handle,
    and it is the id their device was allocated with. -/
structure Resolves (s : State) : Prop where
  found : ∀ h, findDeviceId h s.dev.rmMemList ≠ -1 ↔
    ∃ x ∈ s.live, x.handle = h ∧ (x.isDevice = true ∨ x.kind = .subdevice)
  right : ∀ x ∈ s.live, ∀ id, HasDevice s.live x id → findDeviceId x.handle s.dev.rmMemList = id

/-! ## The runs -/

/-- A device under its client, a subdevice under a device, or memory, with a handle of
    its own. -/
structure Places (s : State) (o : Object) : Prop where
  fresh : ∀ x ∈ s.live, x.handle ≠ o.handle
  client : o.handle ≠ o.root
  placed : (o.isDevice = true ∧ o.parent = o.root) ∨
    (o.kind = .subdevice ∧ ∃ d ∈ s.live, d.handle = o.parent ∧ d.isDevice = true) ∨
    ∃ size alignment, o.kind = .memory size alignment

/-- The free of a live object that has no children. -/
structure FreesLeaf (s : State) (a : Answer) (f : NVOS00Parameters) (x : Object) : Prop where
  live : x ∈ s.live
  named : f.hObjectOld = x.handle ∧ f.hRoot = x.root ∧ f.hObjectParent = x.parent
  leaf : ∀ y ∈ s.live, y.parent ≠ x.handle
  gone : a.gone = fun y => y.handle == x.handle

/-- What the runs are about: such objects come and go. -/
def ComesOrGoes (s : State) (a : Answer) : Prop :=
  (∃ o, a.created = some o ∧ Places s o) ∨ ∃ f x, a.freed = some f ∧ FreesLeaf s a f x

/-- What keeps the map: every entry gets its memory, no device has the id that means
    none, no subdevice is freed, and no memory under the client itself while the map has
    entries. -/
structure Kept (s : State) (a : Answer) : Prop where
  malloc : ∀ o ∈ a.created, a.malloc = true
  id : ∀ o ∈ a.created, o.kind ≠ .device (-1)
  subdevice : ∀ f ∈ a.freed, ∀ x ∈ s.live, x.handle = f.hObjectOld → x.kind ≠ .subdevice
  memory : ∀ f ∈ a.freed, ∀ x ∈ s.live, x.handle = f.hObjectOld → x.isDevice = false →
    x.parent ≠ x.root ∨ s.dev.rmMemList = []

instance (s : State) (a : Answer) : Decidable (Kept s a) :=
  decidable_of_iff
    ((∀ o ∈ a.created, a.malloc = true) ∧ (∀ o ∈ a.created, o.kind ≠ .device (-1)) ∧
      (∀ f ∈ a.freed, ∀ x ∈ s.live, x.handle = f.hObjectOld → x.kind ≠ .subdevice) ∧
      ∀ f ∈ a.freed, ∀ x ∈ s.live, x.handle = f.hObjectOld → x.isDevice = false →
        x.parent ≠ x.root ∨ s.dev.rmMemList = [])
    ⟨fun h => ⟨h.1, h.2.1, h.2.2.1, h.2.2.2⟩, fun h => ⟨h.malloc, h.id, h.subdevice, h.memory⟩⟩

/-! ## The representation -/

structure Mapped (s : State) : Prop where
  unlocked : s.dev.mu = false
  distinct : (s.live.map Object.handle).Nodup
  client : ∀ x ∈ s.live, x.handle ≠ x.root
  device : ∀ x ∈ s.live, x.isDevice = true → x.parent = x.root
  id : ∀ x ∈ s.live, x.kind ≠ .device (-1)
  subdevice : ∀ x ∈ s.live, x.kind = .subdevice → ∃ d ∈ s.live, d.handle = x.parent ∧ d.isDevice = true
  once : (s.dev.rmMemList.map RmMem.object).Nodup
  entries : ∀ e, e ∈ s.dev.rmMemList ↔ ∃ x ∈ s.live, ∃ id, HasDevice s.live x id ∧ e = ⟨x.handle, id.toUInt32⟩

theorem resolves {s : State} (hi : Mapped s) : Resolves s := by
  have hright : ∀ x ∈ s.live, ∀ id, HasDevice s.live x id → findDeviceId x.handle s.dev.rmMemList = id := by
    intro x hx id hid
    exact findDeviceId_of_mem hi.once ((hi.entries _).mpr ⟨x, hx, id, hid, rfl⟩)
  refine ⟨fun h => ⟨?_, ?_⟩, hright⟩
  · intro hne
    by_cases hm : ∃ e ∈ s.dev.rmMemList, e.object = h
    · obtain ⟨e, he, rfl⟩ := hm
      obtain ⟨x, hx, id, hid, rfl⟩ := (hi.entries e).mp he
      refine ⟨x, hx, rfl, ?_⟩
      rcases hid with hk | ⟨hk, -⟩
      · exact Or.inl (isDevice_of_kind hk)
      · exact Or.inr hk
    · exact absurd (findDeviceId_of_not_mem fun e he heq => hm ⟨e, he, heq⟩) hne
  · intro hlive
    rcases hlive with ⟨x, hx, rfl, hdev | hsub⟩
    · obtain ⟨id, hk⟩ := kind_of_isDevice hdev
      rw [hright x hx id (Or.inl hk)]
      intro he
      subst he
      exact hi.id x hx hk
    · obtain ⟨d, hd, hp, hdev⟩ := hi.subdevice x hx hsub
      obtain ⟨id, hk⟩ := kind_of_isDevice hdev
      rw [hright x hx id (Or.inr ⟨hsub, d, hd, hp, hk⟩)]
      intro he
      subst he
      exact hi.id d hd hk

/-! ## An object comes -/

/-- What is created does not change what the others stand for. -/
theorem hasDevice_cons {s : State} {o x : Object} {id : Int32} (hi : Mapped s)
    (hfresh : ∀ y ∈ s.live, y.handle ≠ o.handle) (hx : x ∈ s.live) :
    HasDevice (o :: s.live) x id ↔ HasDevice s.live x id := by
  refine or_congr Iff.rfl (and_congr_right ?_)
  intro hk
  constructor
  · intro hparent
    obtain ⟨d, hd, hp, hdk⟩ := hparent
    rcases List.mem_cons.mp hd with rfl | hd
    · obtain ⟨d', hd', hp', -⟩ := hi.subdevice x hx hk
      exact absurd (hp'.trans hp.symm) (hfresh d' hd')
    · exact ⟨d, hd, hp, hdk⟩
  · intro hparent
    obtain ⟨d, hd, hp, hdk⟩ := hparent
    exact ⟨d, List.mem_cons_of_mem _ hd, hp, hdk⟩

theorem create_mapped {s : State} {o : Object} {dev : DeviceProp} (hi : Mapped s) (hpl : Places s o)
    (hid : o.kind ≠ .device (-1)) (hm : dev.mu = false) (honce : (dev.rmMemList.map RmMem.object).Nodup)
    (hnew : ∀ e, e ∈ dev.rmMemList ↔
      (∃ id, HasDevice (o :: s.live) o id ∧ e = ⟨o.handle, id.toUInt32⟩) ∨ e ∈ s.dev.rmMemList) :
    Mapped ⟨dev, o :: s.live⟩ := by
  have hdist := nodup_cons_of_fresh Object.handle hi.distinct hpl.fresh
  refine ⟨hm, hdist, ?_, ?_, ?_, ?_, honce, ?_⟩
  · intro x hx
    rcases List.mem_cons.mp hx with rfl | hx
    · exact hpl.client
    · exact hi.client x hx
  · intro x hx hdev
    rcases List.mem_cons.mp hx with rfl | hx
    · rcases hpl.placed with ⟨-, hp⟩ | ⟨hk, -⟩ | ⟨size, alignment, hk⟩
      · exact hp
      · simp [Object.isDevice, hk] at hdev
      · simp [Object.isDevice, hk] at hdev
    · exact hi.device x hx hdev
  · intro x hx
    rcases List.mem_cons.mp hx with rfl | hx
    · exact hid
    · exact hi.id x hx
  · intro x hx hk
    rcases List.mem_cons.mp hx with rfl | hx
    · rcases hpl.placed with ⟨hdev, -⟩ | ⟨-, d, hd, hp, hdev⟩ | ⟨size, alignment, hk'⟩
      · simp [Object.isDevice, hk] at hdev
      · exact ⟨d, List.mem_cons_of_mem _ hd, hp, hdev⟩
      · rw [hk] at hk'
        cases hk'
    · obtain ⟨d, hd, hp, hdev⟩ := hi.subdevice x hx hk
      exact ⟨d, List.mem_cons_of_mem _ hd, hp, hdev⟩
  · intro e
    rw [hnew, hi.entries]
    constructor
    · intro hentry
      rcases hentry with ⟨id, hid, rfl⟩ | ⟨x, hx, id, hid, rfl⟩
      · exact ⟨o, List.mem_cons_self, id, hid, rfl⟩
      · exact ⟨x, List.mem_cons_of_mem _ hx, id, (hasDevice_cons hi hpl.fresh hx).mpr hid, rfl⟩
    · intro hentry
      obtain ⟨x, hx, id, hid, rfl⟩ := hentry
      rcases List.mem_cons.mp hx with rfl | hx
      · exact Or.inl ⟨id, hid, rfl⟩
      · exact Or.inr ⟨x, hx, id, (hasDevice_cons hi hpl.fresh hx).mp hid, rfl⟩

theorem fresh_entry {s : State} {o : Object} (hi : Mapped s) (hfresh : ∀ x ∈ s.live, x.handle ≠ o.handle) :
    ∀ e ∈ s.dev.rmMemList, e.object ≠ o.handle := by
  intro e he
  obtain ⟨x, hx, id, -, rfl⟩ := (hi.entries e).mp he
  exact hfresh x hx

theorem note_mapped {s : State} {o : Object} {id : Int32} (hi : Mapped s) (hpl : Places s o)
    (hid : o.kind ≠ .device (-1)) (hone : ∀ id', HasDevice (o :: s.live) o id' ↔ id' = id) :
    Mapped ⟨s.dev.note ⟨o.handle, id.toUInt32⟩, o :: s.live⟩ := by
  have honce : ((s.dev.note ⟨o.handle, id.toUInt32⟩).rmMemList.map RmMem.object).Nodup :=
    nodup_cons_of_fresh RmMem.object hi.once (fresh_entry hi hpl.fresh)
  refine create_mapped hi hpl hid hi.unlocked honce ?_
  intro e
  rw [note_rm, List.mem_cons]
  refine or_congr_left ?_
  constructor
  · intro he
    exact ⟨id, (hone id).mpr rfl, he⟩
  · intro he
    obtain ⟨id', hid', rfl⟩ := he
    rw [(hone id').mp hid']

theorem created_mapped {s0 s s' : State} {a : Answer} {o : Object} (hi : Mapped s) (hpl : Places s o)
    (hc : a.created = some o) (hk : Kept s a) (h : (answered s0).step s a s') : Mapped s' := by
  have hmal : a.malloc = true := hk.malloc o hc
  rw [answered_step hi.unlocked h, hmal, objects_created hc]
  rcases hpl.placed with ⟨hdev, -⟩ | ⟨hsub, d, hd, hp, hdev⟩ | ⟨size, alignment, hmem⟩
  · obtain ⟨id, hkind⟩ := kind_of_isDevice hdev
    rw [effect_device _ hc hkind]
    refine note_mapped hi hpl (hk.id o hc) ?_
    intro id'
    simp only [HasDevice, hkind, Kind.device.injEq, reduceCtorEq, false_and, or_false]
    exact eq_comm
  · obtain ⟨id, hkind⟩ := kind_of_isDevice hdev
    -- the search for the parent finds the parent's id
    have hfind : findDeviceId o.parent s.dev.rmMemList = id := by
      rw [← hp]
      exact (resolves hi).right d hd id (Or.inl hkind)
    have hne : id ≠ -1 := by
      intro he
      subst he
      exact hi.id d hd hkind
    rw [effect_subdevice _ hc hsub, hfind, if_neg hne]
    refine note_mapped hi hpl (hk.id o hc) ?_
    intro id'
    simp only [HasDevice, hsub, reduceCtorEq, false_or, true_and]
    constructor
    · intro hid
      obtain ⟨d', hd', hp', hk'⟩ := hid
      rcases List.mem_cons.mp hd' with rfl | hd'
      · rw [hsub] at hk'
        cases hk'
      · have hsame : d' = d := List.inj_on_of_nodup_map hi.distinct hd' hd (hp'.trans hp.symm)
        rw [hsame, hkind] at hk'
        cases hk'
        rfl
    · intro he
      subst he
      exact ⟨d, List.mem_cons_of_mem _ hd, hp, hkind⟩
  · have hrm : (Effect.apply true s.dev (effect nvidiaCtlMinor a.cmd a.reply s.dev.rmMemList)).rmMemList
        = s.dev.rmMemList := by
      rw [effect_memory _ hc hmem]
      split <;> rfl
    refine create_mapped hi hpl (hk.id o hc) (by rw [apply_mu_malloc]; exact hi.unlocked) (by rw [hrm]; exact hi.once)
      fun e => ?_
    rw [hrm]
    simp [HasDevice, hmem]

/-! ## An object goes -/

/-- What goes, being no one's parent, does not change what the others stand for. -/
theorem hasDevice_filter {live : List Object} {x : Object} {k : UInt32} {id : Int32}
    (hleaf : ∀ y ∈ live, y.parent ≠ k) (hx : x ∈ live) :
    HasDevice (live.filter fun y => !(y.handle == k)) x id ↔ HasDevice live x id := by
  refine or_congr Iff.rfl (and_congr_right ?_)
  intro _
  constructor
  · intro hparent
    obtain ⟨d, hd, hp, hk⟩ := hparent
    exact ⟨d, (List.mem_filter.mp hd).1, hp, hk⟩
  · intro hparent
    obtain ⟨d, hd, hp, hk⟩ := hparent
    refine ⟨d, List.mem_filter.mpr ⟨hd, ?_⟩, hp, hk⟩
    simpa [hp] using hleaf x hx

theorem free_mapped {s : State} {x : Object} {dev : DeviceProp} (hi : Mapped s)
    (hleaf : ∀ y ∈ s.live, y.parent ≠ x.handle) (hm : dev.mu = false) (honce : (dev.rmMemList.map RmMem.object).Nodup)
    (hless : ∀ e, e ∈ dev.rmMemList ↔ e ∈ s.dev.rmMemList ∧ e.object ≠ x.handle) :
    Mapped ⟨dev, s.live.filter fun y => !(y.handle == x.handle)⟩ := by
  have hmem : ∀ y, y ∈ s.live.filter (fun y => !(y.handle == x.handle)) ↔ y ∈ s.live ∧ y.handle ≠ x.handle := by
    intro y
    simp
  refine ⟨hm, hi.distinct.sublist (List.filter_sublist.map _), ?_, ?_, ?_, ?_, honce, ?_⟩
  · exact fun y hy => hi.client y ((hmem y).mp hy).1
  · exact fun y hy => hi.device y ((hmem y).mp hy).1
  · exact fun y hy => hi.id y ((hmem y).mp hy).1
  · intro y hy hk
    obtain ⟨d, hd, hp, hdev⟩ := hi.subdevice y ((hmem y).mp hy).1 hk
    exact ⟨d, (hmem d).mpr ⟨hd, hp ▸ hleaf y ((hmem y).mp hy).1⟩, hp, hdev⟩
  · intro e
    rw [hless, hi.entries]
    constructor
    · intro hentry
      obtain ⟨⟨y, hy, id, hid, rfl⟩, hne⟩ := hentry
      exact ⟨y, (hmem y).mpr ⟨hy, hne⟩, id, (hasDevice_filter hleaf hy).mpr hid, rfl⟩
    · intro hentry
      obtain ⟨y, hy, id, hid, rfl⟩ := hentry
      obtain ⟨hy, hne⟩ := (hmem y).mp hy
      exact ⟨⟨y, hy, id, (hasDevice_filter hleaf hy).mp hid, rfl⟩, hne⟩

theorem no_entry {s : State} {x : Object} (hi : Mapped s) (hx : x ∈ s.live) (hdev : x.isDevice = false)
    (hsub : x.kind ≠ .subdevice) : ∀ e ∈ s.dev.rmMemList, e.object ≠ x.handle := by
  intro e he heq
  obtain ⟨y, hy, id, hid, rfl⟩ := (hi.entries e).mp he
  have hsame : y = x := List.inj_on_of_nodup_map hi.distinct hy hx heq
  subst hsame
  rcases hid with hk | ⟨hk, -⟩
  · rw [isDevice_of_kind hk] at hdev
    cases hdev
  · exact hsub hk

theorem freed_mapped {s0 s s' : State} {a : Answer} {f : NVOS00Parameters} {x : Object} (hi : Mapped s)
    (hf : a.freed = some f) (hx : FreesLeaf s a f x) (hk : Kept s a) (h : (answered s0).step s a s') : Mapped s' := by
  obtain ⟨hlive, ⟨hold, hroot, hparent⟩, hleaf, hgone⟩ := hx
  rw [step_freed hi.unlocked hf h, hold, hroot, hparent, if_neg (hi.client x hlive), hgone]
  by_cases hdev : x.isDevice = true
  · -- a device's free takes its entry
    obtain ⟨id, hkind⟩ := kind_of_isDevice hdev
    have hentry := (hi.entries _).mpr ⟨x, hlive, id, Or.inl hkind, rfl⟩
    rw [if_pos (hi.device x hlive hdev).symm, freeDevicePage_recorded (first_of_mem RmMem.object hi.once hentry)]
    exact free_mapped hi hleaf hi.unlocked (nodup_dropFirst _ hi.once) fun e => mem_dropFirst _ hi.once
  · have hdev : x.isDevice = false := by simpa using hdev
    have hno := no_entry hi hlive hdev (hk.subdevice f hf x hlive hold.symm)
    have hkeep : ∀ dev : DeviceProp, dev.mu = false → dev.rmMemList = s.dev.rmMemList →
        Mapped ⟨dev, s.live.filter fun y => !(y.handle == x.handle)⟩ := by
      intro dev hm hrm
      refine free_mapped hi hleaf hm (by rw [hrm]; exact hi.once) fun e => ?_
      rw [hrm]
      exact ⟨fun he => ⟨he, hno e he⟩, And.left⟩
    split
    · rename_i hp
      rcases hk.memory f hf x hlive hold.symm hdev with h | h
      · exact absurd hp.symm h
      · rw [freeDevicePage_nil h]
        exact hkeep _ hi.unlocked rfl
    · exact hkeep _ (by simpa using hi.unlocked) (by simp)

/-- In runs that keep the map, the search finds what is live. -/
theorem handles_resolve {d0 : DeviceProp} {s : State} (hm : d0.mu = false) (hrm : d0.rmMemList = [])
    (h : ((answered ⟨d0, []⟩).restrict fun s a => ComesOrGoes s a ∧ Kept s a).Reach s) : Resolves s := by
  refine resolves (System.Reach.inv (I := Mapped) ?_ ?_ h)
  · intro s hs
    rw [show s = ⟨d0, []⟩ from hs]
    refine ⟨hm, List.nodup_nil, ?_, ?_, ?_, ?_, by simp [hrm], ?_⟩ <;> simp [hrm]
  · intro s a s' hi hstep'
    obtain ⟨⟨hcg, hk⟩, hstep⟩ := hstep'
    rcases hcg with ⟨o, hc, hpl⟩ | ⟨f, x, hf, hx⟩
    · exact created_mapped hi hpl hc hk hstep
    · exact freed_mapped hi hf hx hk hstep

/-! ## Runs of client 1 -/

def newDevice (handle : UInt32) (id : Int32) : Answer :=
  .grant nvEscRmAlloc (.rmAlloc 1 1 handle .nv01Device0 ⟨id, ⟨0, 0, 0⟩⟩) fun _ => false

def newSubdevice (device handle : UInt32) : Answer :=
  .grant nvEscRmAlloc (.rmAlloc 1 device handle .nv20Subdevice0 .zero) fun _ => false

def newMemory (parent handle : UInt32) : Answer :=
  .grant nvEscRmVidHeapControl (.allocSize 1 parent handle 10 1) fun _ => false

def freeUnder (parent handle : UInt32) : Answer :=
  .grant nvEscRmFree (.rmFree 1 parent handle) fun x => x.handle == handle

/-- A device of id 3, a subdevice of it, and memory that comes and goes. -/
theorem handles_resolve_run : ∃ s : State, Resolves s ∧ findDeviceId 6 s.dev.rmMemList = 3 := by
  let ok : State → Answer → Prop := fun s a => ComesOrGoes s a ∧ Kept s a
  have h : ((answered ⟨firstProcess, []⟩).restrict ok).Reach ⟨firstProcess, []⟩ := .init rfl
  have h := h.step (e := newDevice 5 3)
    ⟨⟨Or.inl ⟨_, rfl, by decide, by decide, Or.inl (by decide)⟩, by decide⟩, _, rfl, rfl⟩
  have h := h.step (e := newSubdevice 5 6)
    ⟨⟨Or.inl ⟨_, rfl, by decide, by decide, Or.inr (Or.inl (by decide))⟩, by decide⟩, _, rfl, rfl⟩
  have h := h.step (e := newMemory 5 7)
    ⟨⟨Or.inl ⟨_, rfl, by decide, by decide, Or.inr (Or.inr ⟨10, 1, rfl⟩)⟩, by decide⟩, _, rfl, rfl⟩
  have h := h.step (e := freeUnder 5 7)
    ⟨⟨Or.inr ⟨_, ⟨1, 5, 7, .memory 10 1⟩, rfl, by decide, by decide, by decide, rfl⟩, by decide⟩, _, rfl, rfl⟩
  exact ⟨_, handles_resolve rfl rfl h, by decide⟩

/-- The free of the subdevice 6 leaves its entry, and the handle is still found; the
    free of memory that hangs under the client takes the entry of the device 5. -/
theorem subdevice_lingers :
    ∃ s1 s2, ((answered ⟨firstProcess, []⟩).restrict ComesOrGoes).Reach s1 ∧ ¬ Resolves s1 ∧
      ((answered ⟨firstProcess, []⟩).restrict ComesOrGoes).Reach s2 ∧ ¬ Resolves s2 := by
  have h : ((answered ⟨firstProcess, []⟩).restrict ComesOrGoes).Reach ⟨firstProcess, []⟩ := .init rfl
  have h := h.step (e := newDevice 5 0) ⟨Or.inl ⟨_, rfl, by decide, by decide, Or.inl (by decide)⟩, _, rfl, rfl⟩
  have h1 := h.step (e := newSubdevice 5 6)
    ⟨Or.inl ⟨_, rfl, by decide, by decide, Or.inr (Or.inl (by decide))⟩, _, rfl, rfl⟩
  have h1 := h1.step (e := freeUnder 5 6)
    ⟨Or.inr ⟨_, ⟨1, 5, 6, .subdevice⟩, rfl, by decide, by decide, by decide, rfl⟩, _, rfl, rfl⟩
  have h2 := h.step (e := newMemory 1 7)
    ⟨Or.inl ⟨_, rfl, by decide, by decide, Or.inr (Or.inr ⟨10, 1, rfl⟩)⟩, _, rfl, rfl⟩
  have h2 := h2.step (e := freeUnder 1 7)
    ⟨Or.inr ⟨_, ⟨1, 1, 7, .memory 10 1⟩, rfl, by decide, by decide, by decide, rfl⟩, _, rfl, rfl⟩
  refine ⟨_, _, h1, ?_, h2, ?_⟩
  · intro hr
    exact absurd ((hr.found 6).mp (by decide)) (by decide)
  · intro hr
    exact absurd ((hr.found 5).mpr (by decide)) (by decide)

end NvResourceController.Ioctl
