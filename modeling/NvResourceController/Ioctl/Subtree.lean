/-
  NvResourceController.Ioctl.Subtree — a free destroys what it names and everything
  below: a client all its objects, a device its children and theirs. `post_rm_free` gets
  one handle, keeps no parents, and returns early for a client.

  - `destroyed_forgotten`: where a free destroys at most the one object the hook has
    recorded and looks for it in the list that has it (`Alone`), no record of a destroyed
    object is left and the free memory is credited with what was destroyed.
  - `children_remembered`: a client freed with its memory, a device freed with its
    memory.
-/

import NvResourceController.Ioctl.Origin

namespace NvResourceController.Ioctl

open ListCursor Keyed

/-! ## What a free destroys -/

/-- The objects that go when client `root` frees `old`. -/
inductive Destroyed (live : List Object) (root old : UInt32) : Object → Prop
  | named {x : Object} : x ∈ live → x.root = root → x.handle = old → Destroyed live root old x
  /-- A client owns its objects. -/
  | owned {x : Object} : old = root → x ∈ live → x.root = root → Destroyed live root old x
  | child {x y : Object} : Destroyed live root old y → x ∈ live → x.root = root → x.parent = y.handle →
      Destroyed live root old x

theorem Destroyed.root_eq {live : List Object} {root old : UInt32} {x : Object} (h : Destroyed live root old x) :
    x.root = root := by
  cases h with
  | named _ h _ => exact h
  | owned _ _ h => exact h
  | child _ _ h _ => exact h

theorem destroyed_leaf {live : List Object} {root old : UInt32} {x : Object} (hne : old ≠ root)
    (hleaf : ∀ y ∈ live, y.parent ≠ old) (hx : x ∈ live) :
    (x.root == root && x.handle == old) = true ↔ Destroyed live root old x := by
  constructor
  · intro h
    simp only [Bool.and_eq_true, beq_iff_eq] at h
    exact .named hx h.1 h.2
  · intro h
    have hold : x.handle = old := by
      clear hx
      induction h with
      | named _ _ h => exact h
      | owned h _ _ => exact absurd h hne
      | child _ hx _ hp ih => exact absurd (hp.trans ih) (hleaf _ hx)
    simp [h.root_eq, hold]

/-- Objects the hook keeps a record of. -/
def Object.isTracked (o : Object) : Bool :=
  match o.kind with
  | .other => false
  | _ => true

/-- The objects a free destroys. -/
def Answer.destroyed (a : Answer) (live : List Object) : List Object := live.filter a.gone

/-- Objects are allocated, and go as the kernel has it. -/
def Grown (t : Traced) (a : Answer) : Prop :=
  (∃ o, a.created = some o) ∨ ∃ f, a.freed = some f ∧
    ∀ x ∈ t.state.live, a.gone x = true ↔ Destroyed t.state.live f.hRoot f.hObjectOld x

/-- The free left no record of what it destroyed, and gave its bytes back. -/
structure Forgets (t t' : Traced) (a : Answer) : Prop where
  heap : ∀ r ∈ t'.marked.heap, ∀ x ∈ a.destroyed t.state.live, r.maker ≠ some x
  rm : ∀ r ∈ t'.marked.rm, ∀ x ∈ a.destroyed t.state.live, r.maker ≠ some x
  credit : t'.state.dev.fbInfo.freeMem
    = t.state.dev.fbInfo.freeMem + ((a.destroyed t.state.live).map Object.size).sum

/-- What keeps the records in step with the objects: what is allocated has a handle of
    its own and is recorded under it; and a free destroys one recorded object, memory in
    the memory list or a device in the device list, or none, and then no list is searched
    or the searched one is empty. -/
structure Alone (t : Traced) (a : Answer) : Prop where
  fresh : ∀ o ∈ a.created, o.handle ≠ o.root ∧ ∀ x ∈ t.state.live, x.handle ≠ o.handle
  recorded : ∀ o ∈ a.created, a.malloc = true ∧ (o.isMemory = true → o.alignment ≠ 0 ∧ a.key = o.handle)
  one : ∀ f ∈ a.freed,
    ((a.destroyed t.state.live).filter Object.isTracked = [] ∧
      (f.hObjectOld = f.hRoot ∨ f.searched t.state.dev = [])) ∨
    ∃ x, (a.destroyed t.state.live).filter Object.isTracked = [x] ∧ x.handle = f.hObjectOld ∧
      ((x.isMemory = true ∧ f.hRoot ≠ f.hObjectParent) ∨ (x.isDevice = true ∧ f.hRoot = f.hObjectParent))

/-! ## The records are the live objects' -/

structure Matched (t : Traced) : Prop where
  unlocked : t.state.dev.mu = false
  distinct : (t.state.live.map Object.handle).Nodup
  client : ∀ x ∈ t.state.live, x.handle ≠ x.root
  copies : t.Copies
  heap : ∀ r, r ∈ t.marked.heap ↔ ∃ o ∈ t.state.live, o.isMemory = true ∧ r = o.origin
  heapOnce : (t.marked.heap.map (·.record.object)).Nodup
  rm : ∀ r ∈ t.marked.rm, ∃ o ∈ t.state.live, o.isMemory = false ∧ o.isTracked = true ∧ r.maker = some o ∧
    r.record.object = o.handle
  rmOnce : (t.marked.rm.map (·.record.object)).Nodup
  device : ∀ o ∈ t.state.live, o.isDevice = true → ∃ r ∈ t.marked.rm, r.record.object = o.handle

theorem isTracked_of_isMemory {o : Object} (h : o.isMemory = true) : o.isTracked = true := by
  simp [Object.isTracked, kind_of_isMemory h]

theorem isMemory_of_isDevice {o : Object} (h : o.isDevice = true) : o.isMemory = false := by
  obtain ⟨id, hk⟩ := kind_of_isDevice h
  simp [Object.isMemory, hk]

theorem size_of_not_isMemory {o : Object} (h : o.isMemory = false) : o.size = 0 := by
  unfold Object.isMemory at h
  unfold Object.size
  split at h
  · cases h
  · rfl

theorem sum_tracked (l : List Object) :
    (l.map Object.size).sum = ((l.filter Object.isTracked).map Object.size).sum := by
  induction l with
  | nil => rfl
  | cons o l ih =>
    by_cases ho : o.isTracked = true
    · rw [List.filter_cons_of_pos ho, List.map_cons, List.map_cons, List.sum_cons, List.sum_cons, ih]
    · have hmem : o.isMemory = false := by
        by_contra hm
        exact ho (isTracked_of_isMemory (by simpa using hm))
      rw [List.filter_cons_of_neg ho, List.map_cons, List.sum_cons, size_of_not_isMemory hmem, ih]
      exact UInt64.zero_add _

/-! ## An object comes -/

/-- What a creation does to the marked lists, by what it creates. -/
structure Adds (m m' : Marked) (o : Object) : Prop where
  heap : ∀ r, r ∈ m'.heap ↔ (o.isMemory = true ∧ r = o.origin) ∨ r ∈ m.heap
  heapOnce : (m.heap.map (·.record.object)).Nodup → (∀ r ∈ m.heap, r.record.object ≠ o.handle) →
    (m'.heap.map (·.record.object)).Nodup
  rm : ∀ r ∈ m'.rm,
    (o.isMemory = false ∧ o.isTracked = true ∧ r.maker = some o ∧ r.record.object = o.handle) ∨ r ∈ m.rm
  rmOnce : (m.rm.map (·.record.object)).Nodup → (∀ r ∈ m.rm, r.record.object ≠ o.handle) →
    (m'.rm.map (·.record.object)).Nodup
  device : o.isDevice = true → ∃ r ∈ m'.rm, r.record.object = o.handle
  keep : ∀ r ∈ m.rm, r ∈ m'.rm

theorem adds_nothing {m : Marked} {o : Object} (hmem : o.isMemory = false) (hdev : o.isDevice = false) :
    Adds m m o := by
  refine ⟨?_, fun h _ => h, fun r hr => Or.inr hr, fun h _ => h, ?_, fun r hr => hr⟩
  · intro r
    simp [hmem]
  · intro h
    rw [hdev] at h
    cases h

theorem adds_record {m : Marked} {o : Object} (hmem : o.isMemory = true) :
    Adds m { m with heap := o.origin :: m.heap } o := by
  refine ⟨?_, ?_, fun r hr => Or.inr hr, fun h _ => h, ?_, fun r hr => hr⟩
  · intro r
    simp [hmem]
  · intro h hne
    exact nodup_cons_of_fresh (fun r : Origin DeviceMem => r.record.object) h hne
  · intro h
    rw [isMemory_of_isDevice h] at hmem
    cases hmem

theorem adds_note {m : Marked} {o : Object} (id : UInt32) (hmem : o.isMemory = false) (htr : o.isTracked = true) :
    Adds m { m with rm := ⟨⟨o.handle, id⟩, some o⟩ :: m.rm } o := by
  refine ⟨?_, fun h _ => h, ?_, ?_, fun _ => ⟨_, List.mem_cons_self, rfl⟩,
    fun r hr => List.mem_cons_of_mem _ hr⟩
  · intro r
    simp [hmem]
  · intro r hr
    rcases List.mem_cons.mp hr with rfl | hr
    · exact Or.inl ⟨hmem, htr, rfl, rfl⟩
    · exact Or.inr hr
  · intro h hne
    exact nodup_cons_of_fresh (fun r : Origin RmMem => r.record.object) h hne

theorem created_adds {t : Traced} {a : Answer} {o : Object} (hc : a.created = some o)
    (hrec : o.isMemory = true → o.alignment ≠ 0 ∧ a.key = o.handle) :
    Adds t.marked ((a.effect t.state.dev).mark true (some o) t.marked) o := by
  cases hk : o.kind with
  | device id =>
    rw [Answer.effect, effect_device _ hc hk]
    exact adds_note _ (by simp [Object.isMemory, hk]) (by simp [Object.isTracked, hk])
  | subdevice =>
    rw [Answer.effect, effect_subdevice _ hc hk]
    split
    · exact adds_nothing (by simp [Object.isMemory, hk]) (by simp [Object.isDevice, hk])
    · exact adds_note _ (by simp [Object.isMemory, hk]) (by simp [Object.isTracked, hk])
  | memory size alignment =>
    have hmem : o.isMemory = true := by simp [Object.isMemory, hk]
    obtain ⟨halign, hkey⟩ := hrec hmem
    have heff : a.effect t.state.dev = .charge o.record := by
      rw [Answer.effect, effect_memory _ hc (kind_of_isMemory hmem), if_neg halign]
      exact congrArg (fun k => Effect.charge ⟨k, o.size⟩) hkey
    rw [heff]
    exact adds_record hmem
  | other =>
    rw [Answer.effect, effect_other _ hc hk]
    exact adds_nothing (by simp [Object.isMemory, hk]) (by simp [Object.isDevice, hk])

theorem created_matched {s0 : State} {t t' : Traced} {a : Answer} {o : Object} (hi : Matched t)
    (hc : a.created = some o) (ha : Alone t a) (h : (traced s0).step t a t') : Matched t' := by
  obtain ⟨hroot, hfresh⟩ := ha.fresh o hc
  obtain ⟨hmal, hrec⟩ := ha.recorded o hc
  have hadd := created_adds (t := t) hc hrec
  have hcopies := mark_copies a.malloc a.created hi.copies.heap hi.copies.rm (a.effect t.state.dev)
  rw [traced_step hi.unlocked h, objects_created hc]
  rw [hmal, hc] at hcopies ⊢
  have hheap : ∀ r ∈ t.marked.heap, r.record.object ≠ o.handle := by
    intro r hr
    obtain ⟨x, hx, -, rfl⟩ := (hi.heap r).mp hr
    exact hfresh x hx
  have hrm : ∀ r ∈ t.marked.rm, r.record.object ≠ o.handle := by
    intro r hr
    obtain ⟨x, hx, -, -, -, hobj⟩ := hi.rm r hr
    rw [hobj]
    exact hfresh x hx
  refine ⟨?_, nodup_cons_of_fresh Object.handle hi.distinct hfresh, ?_, ⟨hcopies.1, hcopies.2⟩, ?_,
    hadd.heapOnce hi.heapOnce hheap, ?_, hadd.rmOnce hi.rmOnce hrm, ?_⟩
  · rw [apply_mu_malloc]
    exact hi.unlocked
  · intro x hx
    rcases List.mem_cons.mp hx with rfl | hx
    · exact hroot
    · exact hi.client x hx
  · intro r
    rw [hadd.heap, hi.heap]
    constructor
    · intro hr
      rcases hr with ⟨hmem, rfl⟩ | ⟨x, hx, hmem, rfl⟩
      · exact ⟨o, List.mem_cons_self, hmem, rfl⟩
      · exact ⟨x, List.mem_cons_of_mem _ hx, hmem, rfl⟩
    · intro hr
      obtain ⟨x, hx, hmem, rfl⟩ := hr
      rcases List.mem_cons.mp hx with rfl | hx
      · exact Or.inl ⟨hmem, rfl⟩
      · exact Or.inr ⟨x, hx, hmem, rfl⟩
  · intro r hr
    rcases hadd.rm r hr with hnew | hold
    · exact ⟨o, List.mem_cons_self, hnew⟩
    · obtain ⟨x, hx, hrest⟩ := hi.rm r hold
      exact ⟨x, List.mem_cons_of_mem _ hx, hrest⟩
  · intro x hx hdev
    rcases List.mem_cons.mp hx with rfl | hx
    · exact hadd.device hdev
    · obtain ⟨r, hr, hobj⟩ := hi.device x hx hdev
      exact ⟨r, hadd.keep r hr, hobj⟩

/-! ## Objects go -/

/-- The marked lists lose exactly the entries of what goes. -/
structure Drops (m m' : Marked) (gone : Object → Bool) : Prop where
  heap : m'.heap.Sublist m.heap
  rm : m'.rm.Sublist m.rm
  heapGone : ∀ r ∈ m.heap, r ∈ m'.heap ↔ ∀ x ∈ r.maker, gone x = false
  rmGone : ∀ r ∈ m.rm, r ∈ m'.rm ↔ ∀ x ∈ r.maker, gone x = false

theorem drops_matched {t : Traced} {dev : DeviceProp} {m : Marked} {gone : Object → Bool} (hi : Matched t)
    (hm : dev.mu = false) (hd : Drops t.marked m gone)
    (hc : m.heap.map Origin.record = dev.heapMemList ∧ m.rm.map Origin.record = dev.rmMemList) :
    Matched ⟨⟨dev, t.state.live.filter (!gone ·)⟩, m⟩ := by
  have hmem : ∀ x, x ∈ t.state.live.filter (!gone ·) ↔ x ∈ t.state.live ∧ gone x = false := by
    intro x
    simp
  refine ⟨hm, hi.distinct.sublist (List.filter_sublist.map _), fun x hx => hi.client x ((hmem x).mp hx).1,
    ⟨hc.1, hc.2⟩, ?_, hi.heapOnce.sublist (hd.heap.map _), ?_,
    hi.rmOnce.sublist (hd.rm.map _), ?_⟩
  · intro r
    constructor
    · intro hr
      have hold := hd.heap.subset hr
      obtain ⟨x, hx, hxm, rfl⟩ := (hi.heap r).mp hold
      exact ⟨x, (hmem x).mpr ⟨hx, (hd.heapGone _ hold).mp hr x rfl⟩, hxm, rfl⟩
    · intro hr
      obtain ⟨x, hx, hxm, rfl⟩ := hr
      obtain ⟨hx, hkeep⟩ := (hmem x).mp hx
      refine (hd.heapGone _ ((hi.heap _).mpr ⟨x, hx, hxm, rfl⟩)).mpr fun y hy => ?_
      cases hy
      exact hkeep
  · intro r hr
    have hold := hd.rm.subset hr
    obtain ⟨x, hx, hxm, htr, hmaker, hobj⟩ := hi.rm r hold
    exact ⟨x, (hmem x).mpr ⟨hx, (hd.rmGone r hold).mp hr x hmaker⟩, hxm, htr, hmaker, hobj⟩
  · intro x hx hdev
    obtain ⟨hx, hkeep⟩ := (hmem x).mp hx
    obtain ⟨r, hr, hobj⟩ := hi.device x hx hdev
    obtain ⟨y, hy, -, -, hmaker, hyobj⟩ := hi.rm r hr
    have hsame : y = x := List.inj_on_of_nodup_map hi.distinct hy hx (hyobj.symm.trans hobj)
    refine ⟨r, (hd.rmGone r hr).mpr fun z hz => ?_, hobj⟩
    rw [hmaker] at hz
    cases hz
    rw [hsame]
    exact hkeep

/-- A recorded object that goes is the one the condition allows. -/
theorem gone_is_one {live : List Object} {gone : Object → Bool} {x y : Object}
    (hone : (live.filter gone).filter Object.isTracked = [x]) (hy : y ∈ live) (htr : y.isTracked = true) :
    gone y = true ↔ y = x := by
  constructor
  · intro hg
    have hin : y ∈ (live.filter gone).filter Object.isTracked :=
      List.mem_filter.mpr ⟨List.mem_filter.mpr ⟨hy, hg⟩, htr⟩
    rw [hone] at hin
    exact List.mem_singleton.mp hin
  · intro he
    subst he
    have hin : y ∈ (live.filter gone).filter Object.isTracked := by
      rw [hone]
      exact List.mem_cons_self
    exact (List.mem_filter.mp (List.mem_filter.mp hin).1).2

theorem gone_is_none {live : List Object} {gone : Object → Bool} {y : Object}
    (hnone : (live.filter gone).filter Object.isTracked = []) (hy : y ∈ live) (htr : y.isTracked = true) :
    gone y = false := by
  by_contra hg
  have hin : y ∈ (live.filter gone).filter Object.isTracked :=
    List.mem_filter.mpr ⟨List.mem_filter.mpr ⟨hy, by simpa using hg⟩, htr⟩
  rw [hnone] at hin
  cases hin

theorem drops_nothing {t : Traced} {gone : Object → Bool} (hi : Matched t)
    (hnone : (t.state.live.filter gone).filter Object.isTracked = []) : Drops t.marked t.marked gone := by
  refine ⟨List.Sublist.refl _, List.Sublist.refl _, fun r hr => iff_of_true hr ?_,
    fun r hr => iff_of_true hr ?_⟩
  · intro x hx
    obtain ⟨y, hy, hmem, rfl⟩ := (hi.heap r).mp hr
    cases hx
    exact gone_is_none hnone hy (isTracked_of_isMemory hmem)
  · intro x hx
    obtain ⟨y, hy, -, htr, hmaker, -⟩ := hi.rm r hr
    rw [hmaker] at hx
    cases hx
    exact gone_is_none hnone hy htr

theorem drops_memory {t : Traced} {gone : Object → Bool} {x : Object} (hi : Matched t) (hx : x ∈ t.state.live)
    (hmem : x.isMemory = true) (hone : (t.state.live.filter gone).filter Object.isTracked = [x]) :
    Drops t.marked { t.marked with heap := dropFirst (·.record.object) x.handle t.marked.heap } gone := by
  refine ⟨List.eraseP_sublist, List.Sublist.refl _, ?_, fun r hr => iff_of_true hr ?_⟩
  · intro r hr
    rw [mem_dropFirst _ hi.heapOnce]
    obtain ⟨y, hy, hym, rfl⟩ := (hi.heap r).mp hr
    have hgone := gone_is_one hone hy (isTracked_of_isMemory hym)
    constructor
    · intro hin z hz
      obtain ⟨-, hne⟩ := hin
      cases hz
      by_contra hg
      have hyx : y = x := hgone.mp (by simpa using hg)
      exact hne (congrArg Object.handle hyx)
    · intro hkeep
      refine ⟨hr, fun heq => ?_⟩
      have hyx : y = x := List.inj_on_of_nodup_map hi.distinct hy hx heq
      exact absurd (hgone.mpr hyx) (by simp [hkeep y rfl])
  · intro y hy
    obtain ⟨z, hz, hzm, htr, hmaker, -⟩ := hi.rm r hr
    rw [hmaker] at hy
    cases hy
    by_contra hg
    have hyx : y = x := (gone_is_one hone hz htr).mp (by simpa using hg)
    rw [hyx, hmem] at hzm
    cases hzm

theorem drops_device {t : Traced} {gone : Object → Bool} {x : Object} (hi : Matched t) (hx : x ∈ t.state.live)
    (hdev : x.isDevice = true) (hone : (t.state.live.filter gone).filter Object.isTracked = [x]) :
    Drops t.marked { t.marked with rm := dropFirst (·.record.object) x.handle t.marked.rm } gone := by
  refine ⟨List.Sublist.refl _, List.eraseP_sublist, fun r hr => iff_of_true hr ?_, ?_⟩
  · intro y hy
    obtain ⟨z, hz, hzm, rfl⟩ := (hi.heap r).mp hr
    cases hy
    by_contra hg
    have hyx : y = x := (gone_is_one hone hz (isTracked_of_isMemory hzm)).mp (by simpa using hg)
    rw [hyx, isMemory_of_isDevice hdev] at hzm
    cases hzm
  · intro r hr
    rw [mem_dropFirst _ hi.rmOnce]
    obtain ⟨y, hy, -, htr, hmaker, hobj⟩ := hi.rm r hr
    have hgone := gone_is_one hone hy htr
    constructor
    · intro hin z hz
      obtain ⟨-, hne⟩ := hin
      rw [hmaker] at hz
      cases hz
      by_contra hg
      have hyx : y = x := hgone.mp (by simpa using hg)
      exact hne (hobj.trans (congrArg Object.handle hyx))
    · intro hkeep
      refine ⟨hr, fun heq => ?_⟩
      have hyx : y = x := List.inj_on_of_nodup_map hi.distinct hy hx (hobj.symm.trans heq)
      exact absurd (hgone.mpr hyx) (by simp [hkeep y hmaker])

/-- Where everything recorded of what goes is dropped, nothing of it is left. -/
theorem drops_forgets {t : Traced} {a : Answer} {dev : DeviceProp} {m : Marked}
    (hd : Drops t.marked m a.gone) (hfree : dev.fbInfo.freeMem
      = t.state.dev.fbInfo.freeMem + (((a.destroyed t.state.live).filter Object.isTracked).map Object.size).sum) :
    Forgets t ⟨⟨dev, t.state.live.filter (!a.gone ·)⟩, m⟩ a := by
  refine ⟨fun r hr x hx hmaker => ?_, fun r hr x hx hmaker => ?_, by rw [sum_tracked]; exact hfree⟩
  · have hkeep := (hd.heapGone r (hd.heap.subset hr)).mp hr x hmaker
    rw [(List.mem_filter.mp hx).2] at hkeep
    cases hkeep
  · have hkeep := (hd.rmGone r (hd.rm.subset hr)).mp hr x hmaker
    rw [(List.mem_filter.mp hx).2] at hkeep
    cases hkeep

theorem searched_nothing {t : Traced} {a : Answer} {f : NVOS00Parameters} (hi : Matched t) (hf : a.freed = some f)
    (hlist : f.hObjectOld = f.hRoot ∨ f.searched t.state.dev = []) :
    (a.effect t.state.dev).apply a.malloc t.state.dev = t.state.dev ∧
      (a.effect t.state.dev).mark a.malloc a.created t.marked = t.marked := by
  rw [show a.effect t.state.dev = _ from effect_freed _ hf]
  split
  · exact ⟨rfl, rfl⟩
  · rename_i hne
    have hnil := hlist.resolve_left hne
    unfold NVOS00Parameters.searched at hnil
    split
    · rename_i hp
      rw [if_pos hp, List.map_eq_nil_iff] at hnil
      have hm : t.marked.rm = [] := List.map_eq_nil_iff.mp (hi.copies.rm.trans hnil)
      exact ⟨freeDevicePage_nil hnil, by simp only [Effect.mark, hm, scanDel, scan_nil]; rw [← hm]⟩
    · rename_i hp
      rw [if_neg hp, List.map_eq_nil_iff] at hnil
      have hm : t.marked.heap = [] := List.map_eq_nil_iff.mp (hi.copies.heap.trans hnil)
      exact ⟨freeHeapPage_nil hnil, by simp only [Effect.mark, hm, scanDel, scan_nil]; rw [← hm]⟩

theorem memory_found {t : Traced} {x : Object} (hi : Matched t) (hx : x ∈ t.state.live) (hmem : x.isMemory = true) :
    scanDel (·.record.object == x.handle) t.marked.heap = dropFirst (·.record.object) x.handle t.marked.heap ∧
      first DeviceMem.object x.handle t.state.dev.heapMemList = some x.record := by
  have horigin := (hi.heap _).mpr ⟨x, hx, hmem, rfl⟩
  constructor
  · exact scanDel_matched _ (first_of_mem (fun r : Origin DeviceMem => r.record.object) hi.heapOnce horigin)
  · rw [← hi.copies.heap]
    refine first_of_mem DeviceMem.object (a := x.record) ?_ (List.mem_map_of_mem horigin)
    rw [List.map_map]
    exact hi.heapOnce

theorem device_found {t : Traced} {x : Object} (hi : Matched t) (hx : x ∈ t.state.live) (hdev : x.isDevice = true) :
    scanDel (·.record.object == x.handle) t.marked.rm = dropFirst (·.record.object) x.handle t.marked.rm := by
  obtain ⟨r, hr, hobj⟩ := hi.device x hx hdev
  rw [← hobj]
  exact scanDel_matched _ (first_of_mem (fun r : Origin RmMem => r.record.object) hi.rmOnce hr)

theorem freed_matched {s0 : State} {t t' : Traced} {a : Answer} {f : NVOS00Parameters} (hi : Matched t)
    (hf : a.freed = some f)
    (hgone : ∀ x ∈ t.state.live, a.gone x = true ↔ Destroyed t.state.live f.hRoot f.hObjectOld x)
    (ha : Alone t a) (h : (traced s0).step t a t') : Matched t' ∧ Forgets t t' a := by
  have hcopies := mark_copies a.malloc a.created hi.copies.heap hi.copies.rm (a.effect t.state.dev)
  have ht' := traced_step hi.unlocked h
  rw [objects_freed hf] at ht'
  rcases ha.one f hf with ⟨hnone, hlist⟩ | ⟨x, hone, hold, hkind⟩
  · -- nothing recorded goes, and nothing is found to drop
    obtain ⟨happly, hmark⟩ := searched_nothing hi hf hlist
    rw [happly, hmark] at ht' hcopies
    subst ht'
    have hd := drops_nothing hi hnone
    refine ⟨drops_matched hi hi.unlocked hd hcopies, drops_forgets hd ?_⟩
    rw [hnone]
    exact (UInt64.add_zero _).symm
  · have hx : x ∈ (t.state.live.filter a.gone).filter Object.isTracked := by
      rw [show (t.state.live.filter a.gone).filter Object.isTracked = [x] from hone]
      exact List.mem_cons_self
    obtain ⟨hlive, hgx⟩ := List.mem_filter.mp (List.mem_filter.mp hx).1
    have hroot : x.root = f.hRoot := ((hgone x hlive).mp hgx).root_eq
    have hne : f.hObjectOld ≠ f.hRoot := by
      rw [← hold, ← hroot]
      exact hi.client x hlive
    have heff : a.effect t.state.dev = if f.hObjectOld = f.hRoot then .none
        else if f.hRoot = f.hObjectParent then .freeDevice f.hObjectOld else .freeHeap f.hObjectOld :=
      effect_freed _ hf
    rw [if_neg hne] at heff
    rcases hkind with ⟨hmem, hp⟩ | ⟨hdev, hp⟩
    · obtain ⟨hmark, hrec⟩ := memory_found hi hlive hmem
      rw [if_neg hp, ← hold] at heff
      rw [heff] at ht' hcopies
      simp only [Effect.mark, Effect.apply, hmark] at ht' hcopies
      subst ht'
      have hd := drops_memory hi hlive hmem hone
      refine ⟨drops_matched hi (by simpa using hi.unlocked) hd hcopies, drops_forgets hd ?_⟩
      rw [freeHeapPage_recorded hrec, hone]
      simp [Object.record]
    · have hmark := device_found hi hlive hdev
      rw [if_pos hp, ← hold] at heff
      rw [heff] at ht' hcopies
      simp only [Effect.mark, Effect.apply, hmark] at ht' hcopies
      subst ht'
      have hd := drops_device hi hlive hdev hone
      refine ⟨drops_matched hi (by simpa using hi.unlocked) hd hcopies, drops_forgets hd ?_⟩
      rw [freeDevicePage_fbInfo, hone, List.map_cons, List.map_nil, List.sum_cons, List.sum_nil,
        size_of_not_isMemory (isMemory_of_isDevice hdev)]
      exact (UInt64.add_zero _).symm

theorem matched {d0 : DeviceProp} {t : Traced} (hm : d0.mu = false) (hh : d0.heapMemList = [])
    (hr : d0.rmMemList = []) (h : ((traced ⟨d0, []⟩).restrict fun t a => Grown t a ∧ Alone t a).Reach t) :
    Matched t := by
  refine System.Reach.inv (I := Matched) ?_ ?_ h
  · intro t ht
    rw [show t = ⟨⟨d0, []⟩, [], []⟩ from ht]
    refine ⟨hm, List.nodup_nil, ?_, ⟨hh.symm, hr.symm⟩, ?_, List.nodup_nil, ?_, List.nodup_nil, ?_⟩ <;> simp
  · intro t a t' hi hstep
    obtain ⟨⟨hgrown, ha⟩, hs⟩ := hstep
    rcases hgrown with ⟨o, hc⟩ | ⟨f, hf, hgone⟩
    · exact created_matched hi hc ha hs
    · exact (freed_matched hi hf hgone ha hs).1

/-- No free leaves a record of what it destroyed, and the bytes come back. -/
theorem destroyed_forgotten {d0 : DeviceProp} {t t' : Traced} {a : Answer} {f : NVOS00Parameters}
    (hm : d0.mu = false) (hh : d0.heapMemList = []) (hr : d0.rmMemList = [])
    (h : ((traced ⟨d0, []⟩).restrict fun t a => Grown t a ∧ Alone t a).Reach t)
    (hs : ((traced ⟨d0, []⟩).restrict fun t a => Grown t a ∧ Alone t a).step t a t') (hf : a.freed = some f) :
    Forgets t t' a := by
  obtain ⟨⟨hgrown, ha⟩, hstep⟩ := hs
  rcases hgrown with ⟨o, hc⟩ | ⟨f', hf', hgone⟩
  · have hnone : a.created = none := created_of_freed hf
    rw [hc] at hnone
    cases hnone
  · exact (freed_matched (matched hm hh hr h) hf' hgone ha hstep).2

/-! ## Devices and memory of the client 1 -/

def allocDevice (root handle : UInt32) : Answer :=
  .grant nvEscRmAlloc (.rmAlloc root root handle .nv01Device0 .zero) fun _ => false

def allocMemory (root parent handle : UInt32) (size alignment : UInt64) : Answer :=
  .grant nvEscRmVidHeapControl (.allocSize root parent handle size alignment) fun _ => false

def freeOne (root parent old : UInt32) : Answer :=
  .grant nvEscRmFree (.rmFree root parent old) fun x => x.root == root && x.handle == old

def freeAll (root parent old : UInt32) : Answer := .grant nvEscRmFree (.rmFree root parent old) fun _ => true

/-- Memory of a device is freed, then the device. -/
theorem destroyed_forgotten_run : ∃ t t' : Traced, t.state.live.map Object.handle = [7, 5] ∧
    Forgets t t' (freeOne 1 5 7) := by
  let ok : Traced → Answer → Prop := fun t a => Grown t a ∧ Alone t a
  have h : ((traced ⟨firstProcess, []⟩).restrict ok).Reach ⟨⟨firstProcess, []⟩, [], []⟩ := .init rfl
  have h := h.step (traced_of_post (a := allocDevice 1 5)
    ⟨Or.inl ⟨_, rfl⟩, by decide, by decide, by intro f hf; cases hf⟩ rfl)
  have h := h.step (traced_of_post (a := allocMemory 1 5 7 10 1)
    ⟨Or.inl ⟨_, rfl⟩, by decide, by decide, by intro f hf; cases hf⟩ rfl)
  have hone : ∀ f ∈ (freeOne 1 5 7).freed, f = ⟨1, 5, 7, .ok⟩ := by decide
  refine ⟨_, _, by decide, destroyed_forgotten rfl rfl rfl h (traced_of_post
    ⟨Or.inr ⟨_, rfl, fun x hx => destroyed_leaf (by decide) (by decide) hx⟩, by decide, by decide, fun f hf => ?_⟩ rfl)
    rfl⟩
  rw [hone f hf]
  exact Or.inr ⟨⟨1, 5, 7, .memory 10 1⟩, by decide, rfl, Or.inl (by decide)⟩

/-- The client is freed with a device and its memory; the device is freed with its
    memory; two clients have memory under one handle, and the older frees its own; memory
    of alignment 0 is freed. -/
theorem children_remembered :
    ∃ t1 t2 t3, ((traced ⟨firstProcess, []⟩).restrict Grown).Reach t1 ∧
      ((traced ⟨firstProcess, []⟩).restrict Grown).Reach t2 ∧ ((traced ⟨firstProcess, []⟩).restrict Grown).Reach t3 ∧
      (∃ t', ((traced ⟨firstProcess, []⟩).restrict Grown).step t1 (freeAll 1 0 1) t' ∧ ¬ Forgets t1 t' (freeAll 1 0 1)) ∧
      (∃ t', ((traced ⟨firstProcess, []⟩).restrict Grown).step t1 (freeAll 1 1 5) t' ∧ ¬ Forgets t1 t' (freeAll 1 1 5)) ∧
      (∃ t', ((traced ⟨firstProcess, []⟩).restrict Grown).step t2 (freeOne 1 2 7) t' ∧ ¬ Forgets t2 t' (freeOne 1 2 7)) ∧
      ∃ t', ((traced ⟨firstProcess, []⟩).restrict Grown).step t3 (freeOne 1 2 7) t' ∧ ¬ Forgets t3 t' (freeOne 1 2 7) := by
  have h0 : ((traced ⟨firstProcess, []⟩).restrict Grown).Reach ⟨⟨firstProcess, []⟩, [], []⟩ := .init rfl
  have h := h0.step (traced_of_post (a := allocDevice 1 5) (Or.inl ⟨_, rfl⟩) rfl)
  have h1 := h.step (traced_of_post (a := allocMemory 1 5 7 10 1) (Or.inl ⟨_, rfl⟩) rfl)
  have h2 := h0.step (traced_of_post (a := allocMemory 1 2 7 10 1) (Or.inl ⟨_, rfl⟩) rfl)
  have h2 := h2.step (traced_of_post (a := allocMemory 3 2 7 20 1) (Or.inl ⟨_, rfl⟩) rfl)
  have h3 := h0.step (traced_of_post (a := allocMemory 1 2 7 10 0) (Or.inl ⟨_, rfl⟩) rfl)
  refine ⟨_, _, _, h1, h2, h3, ?_, ?_, ?_, ?_⟩
  · have hroot : ∀ x ∈ [(⟨1, 5, 7, .memory 10 1⟩ : Object), ⟨1, 1, 5, .device 0⟩], x.root = 1 := by decide
    exact ⟨_, traced_of_post (Or.inr ⟨_, rfl, fun x hx => iff_of_true rfl (.owned rfl hx (hroot x hx))⟩) rfl,
      fun hf => absurd hf.credit (by decide)⟩
  · have hdev : Destroyed [(⟨1, 5, 7, .memory 10 1⟩ : Object), ⟨1, 1, 5, .device 0⟩] 1 5 ⟨1, 1, 5, .device 0⟩ :=
      .named (by decide) rfl rfl
    have hmem : Destroyed [(⟨1, 5, 7, .memory 10 1⟩ : Object), ⟨1, 1, 5, .device 0⟩] 1 5 ⟨1, 5, 7, .memory 10 1⟩ :=
      .child hdev (by decide) rfl rfl
    refine ⟨_, traced_of_post (Or.inr ⟨_, rfl, fun x hx => iff_of_true rfl ?_⟩) rfl,
      fun hf => absurd hf.credit (by decide)⟩
    rcases List.mem_cons.mp hx with rfl | hx
    · exact hmem
    · rw [List.mem_singleton.mp hx]
      exact hdev
  · exact ⟨_, traced_of_post (Or.inr ⟨_, rfl, fun x hx => destroyed_leaf (by decide) (by decide) hx⟩) rfl,
      fun hf => absurd hf.credit (by decide)⟩
  · exact ⟨_, traced_of_post (Or.inr ⟨_, rfl, fun x hx => destroyed_leaf (by decide) (by decide) hx⟩) rfl,
      fun hf => absurd hf.credit (by decide)⟩

end NvResourceController.Ioctl
