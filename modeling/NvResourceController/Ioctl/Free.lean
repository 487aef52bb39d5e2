/-
  NvResourceController.Ioctl.Free — what `post_rm_free` takes out of the books.

  `free_device_page` and `free_heap_page` search a list for a handle and then ask
  whether the cursor is set, which it is unless the list was empty. So:
  - a recorded handle: its newest record goes, and its size goes back
    (`freeHeapPage_recorded`);
  - an unrecorded one: the last entry goes, whosever it is, and a heap record's size
    goes back with it (`freeHeapPage_unrecorded`, `freeDevicePage_unrecorded`).

  - `postRmFree_unrecorded`: a free of a handle with no record changes nothing exactly
    when no list is searched or the searched list is empty.
  - `free_undoes_alloc`: where memory objects are filed under their handles, a free
    gives back what the allocation of its handle took, whatever other objects came and
    went in between. `free_misses_owner`: `post_memory_rm_alloc` files under `owner`,
    and the free then takes another object's record.
-/

import NvResourceController.Lib.Keyed
import NvResourceController.Ioctl.Ledger

namespace NvResourceController.Ioctl

open ListCursor Keyed

/-! ## A recorded handle -/

theorem freeHeapPage_at {page : UInt32} {dev : DeviceProp} {before after : List DeviceMem} {e : DeviceMem}
    (hl : dev.heapMemList = before ++ e :: after) (hb : ∀ x ∈ before, x.object ≠ page) (he : e.object = page) :
    freeHeapPage page dev = { dev with heapMemList := before ++ after, allocMem := dev.allocMem - e.size,
                                       fbInfo := { dev.fbInfo with freeMem := dev.fbInfo.freeMem + e.size } } := by
  have hscan : scan (·.object == page) dev.heapMemList = some ⟨before, e, after⟩ := by
    rw [hl]
    exact scan_at _ (by simpa using hb) (by simpa using he)
  unfold freeHeapPage
  rw [hscan]
  rfl

theorem freeHeapPage_recorded {page : UInt32} {dev : DeviceProp} {e : DeviceMem}
    (hf : first DeviceMem.object page dev.heapMemList = some e) :
    freeHeapPage page dev = { dev with heapMemList := dropFirst DeviceMem.object page dev.heapMemList,
                                       allocMem := dev.allocMem - e.size,
                                       fbInfo := { dev.fbInfo with freeMem := dev.fbInfo.freeMem + e.size } } := by
  obtain ⟨c, hc, rfl, hd⟩ := scan_matched _ hf
  unfold freeHeapPage
  rw [hc]
  simp only [hd, dropFirst]

theorem freeDevicePage_recorded {page : UInt32} {dev : DeviceProp} {e : RmMem}
    (hf : first RmMem.object page dev.rmMemList = some e) :
    freeDevicePage page dev = { dev with rmMemList := dropFirst RmMem.object page dev.rmMemList } := by
  rw [freeDevicePage_eq, scanDel_matched _ hf, dropFirst]

/-! ## A handle with no record -/

theorem freeHeapPage_unrecorded {page : UInt32} {dev : DeviceProp} (hne : dev.heapMemList ≠ [])
    (hu : ∀ e ∈ dev.heapMemList, e.object ≠ page) :
    ∃ last, dev.heapMemList.getLast? = some last ∧
      freeHeapPage page dev = { dev with heapMemList := dev.heapMemList.dropLast,
                                         allocMem := dev.allocMem - last.size,
                                         fbInfo := { dev.fbInfo with freeMem := dev.fbInfo.freeMem + last.size } } := by
  obtain ⟨c, hc, hlast, hd⟩ := scan_exhausted (·.object == page) hne (by simpa using hu)
  refine ⟨c.entry, hlast, ?_⟩
  unfold freeHeapPage
  rw [hc]
  simp only [hd]

theorem freeDevicePage_unrecorded {page : UInt32} {dev : DeviceProp} (hne : dev.rmMemList ≠ [])
    (hu : ∀ e ∈ dev.rmMemList, e.object ≠ page) :
    freeDevicePage page dev = { dev with rmMemList := dev.rmMemList.dropLast } := by
  obtain ⟨c, hc, -, hd⟩ := scan_exhausted (·.object == page) hne (by simpa using hu)
  rw [freeDevicePage_eq, scanDel, hc]
  simp only [hd]

theorem dropLast_ne_self {α : Type} {l : List α} (h : l ≠ []) : l.dropLast ≠ l := by
  intro e
  have hlen := congrArg List.length e
  have hpos := List.length_pos_iff.mpr h
  rw [List.length_dropLast] at hlen
  omega

/-- The handles a free looks among: those of the list its parent field picks. -/
def NVOS00Parameters.searched (pApi : NVOS00Parameters) (dev : DeviceProp) : List UInt32 :=
  if pApi.hRoot = pApi.hObjectParent then dev.rmMemList.map (·.object) else dev.heapMemList.map (·.object)

theorem postRmFree_searches {args : Args} {dev : DeviceProp} (hm : dev.mu = false) (hs : args.nvos00.status = .ok)
    (hr : args.nvos00.hObjectOld ≠ args.nvos00.hRoot) :
    ∃ ret, postRmFree nvidiaCtlMinor args dev
      = some (ret, if args.nvos00.hRoot = args.nvos00.hObjectParent then freeDevicePage args.nvos00.hObjectOld dev
                   else freeHeapPage args.nvos00.hObjectOld dev) := by
  refine ⟨0, (postRmFree_free true nvidiaCtlMinor args hm).trans ?_⟩
  rw [if_pos rfl, if_pos rfl, rmFreeEffect, if_neg (by simp [hs, hr])]
  split <;> rfl

/-- A successful free of a handle with no record leaves the books alone exactly when it
    looks in no list, or gets the mutex and looks in an empty one. -/
theorem postRmFree_unrecorded {minor : UInt32} {args : Args} {dev : DeviceProp} (hs : args.nvos00.status = .ok)
    (hu : args.nvos00.hObjectOld ∉ args.nvos00.searched dev) :
    (∃ ret d, postRmFree minor args dev = some (ret, d) ∧ d.heapMemList = dev.heapMemList ∧
        d.rmMemList = dev.rmMemList ∧ d.allocMem = dev.allocMem ∧ d.fbInfo.freeMem = dev.fbInfo.freeMem) ↔
      minor ≠ nvidiaCtlMinor ∨ args.nvos00.hObjectOld = args.nvos00.hRoot ∨
        (dev.mu = false ∧ args.nvos00.searched dev = []) := by
  by_cases hn : minor = nvidiaCtlMinor
  swap
  · exact iff_of_true ⟨-einval, dev, by simp [postRmFree, hn], rfl, rfl, rfl, rfl⟩ (Or.inl hn)
  subst hn
  by_cases hr : args.nvos00.hObjectOld = args.nvos00.hRoot
  · exact iff_of_true ⟨0, dev, by simp [postRmFree, hs, hr], rfl, rfl, rfl, rfl⟩ (Or.inr (Or.inl hr))
  by_cases hm : dev.mu = false
  swap
  · have hlock : lock dev = none := lock_held (by simpa using hm)
    refine iff_of_false ?_ (by simp [hr, hm])
    intro hsame
    obtain ⟨ret, d, hd, -⟩ := hsame
    simp [postRmFree, hs, hr, hlock] at hd
  obtain ⟨ret, he⟩ := postRmFree_searches hm hs hr
  unfold NVOS00Parameters.searched at hu ⊢
  constructor
  · intro hsame
    obtain ⟨ret', d, hd, hheap, hrm, -⟩ := hsame
    rw [he] at hd
    cases hd
    refine Or.inr (Or.inr ⟨hm, ?_⟩)
    by_cases hp : args.nvos00.hRoot = args.nvos00.hObjectParent
    · rw [if_pos hp] at hu hrm ⊢
      by_contra hne
      rw [List.map_eq_nil_iff] at hne
      rw [freeDevicePage_unrecorded hne (by simpa using hu)] at hrm
      exact dropLast_ne_self hne hrm
    · rw [if_neg hp] at hu hheap ⊢
      by_contra hne
      rw [List.map_eq_nil_iff] at hne
      obtain ⟨last, -, hfree⟩ := freeHeapPage_unrecorded hne (by simpa using hu)
      rw [hfree] at hheap
      exact dropLast_ne_self hne hheap
  · intro h
    obtain ⟨-, hnil⟩ := (h.resolve_left (by simp)).resolve_left hr
    refine ⟨ret, dev, ?_, rfl, rfl, rfl, rfl⟩
    rw [he]
    by_cases hp : args.nvos00.hRoot = args.nvos00.hObjectParent
    · rw [if_pos hp, List.map_eq_nil_iff] at hnil
      rw [if_pos hp, freeDevicePage_nil hnil]
    · rw [if_neg hp, List.map_eq_nil_iff] at hnil
      rw [if_neg hp, freeHeapPage_nil hnil]

/-- Ten bytes are recorded under handle 7; a free of handle 9 takes them out. -/
theorem unrecorded_free_drops_the_last : ¬ ∀ (args : Args) (dev : DeviceProp), dev.mu = false →
    args.nvos00.status = .ok → args.nvos00.hObjectOld ∉ args.nvos00.searched dev →
    ∃ ret d, postRmFree nvidiaCtlMinor args dev = some (ret, d) ∧ d.heapMemList = dev.heapMemList ∧
      d.rmMemList = dev.rmMemList ∧ d.allocMem = dev.allocMem ∧ d.fbInfo.freeMem = dev.fbInfo.freeMem := by
  intro h
  have hfree : postRmFree nvidiaCtlMinor (.rmFree 1 2 9) (firstProcess.charge ⟨7, 10⟩) = some (0, firstProcess) := rfl
  obtain ⟨ret, d, hd, hheap, -⟩ := h (.rmFree 1 2 9) (firstProcess.charge ⟨7, 10⟩) rfl rfl (by decide)
  rw [hfree] at hd
  cases hd
  exact absurd hheap (by decide)

theorem unrecorded_free_of_nothing :
    ∃ ret d, postRmFree nvidiaCtlMinor (.rmFree 1 2 9) firstProcess = some (ret, d) ∧
      d.heapMemList = firstProcess.heapMemList ∧ d.rmMemList = firstProcess.rmMemList ∧
      d.allocMem = firstProcess.allocMem ∧ d.fbInfo.freeMem = firstProcess.fbInfo.freeMem :=
  (postRmFree_unrecorded rfl (by decide)).mpr (Or.inr (Or.inr ⟨rfl, rfl⟩))

/-! ## Free undoes alloc -/

/-- A memory allocation under a handle not in use, or a free of another live object,
    while `h` stays live. -/
def Elsewhere (h : UInt32) (s : State) (a : Answer) : Prop :=
  (∃ o size alignment, a.created = some o ∧ o.kind = .memory size alignment ∧ alignment ≠ 0 ∧ o.handle ≠ h ∧
      ∀ x ∈ s.live, x.handle ≠ o.handle) ∨
    (∃ f, a.freed = some f ∧ f.hObjectOld ≠ h ∧ (∃ x ∈ s.live, x.handle = f.hObjectOld) ∧
      a.gone = fun x => x.handle == f.hObjectOld)

/-- What the call creates, it files under the handle. -/
def Filed (a : Answer) : Prop := ∀ o, a.created = some o → a.malloc = true ∧ a.key = o.handle

/-- `h` has one record, of `size` bytes, and every live object has one. -/
structure Holds (h : UInt32) (size : UInt64) (s : State) : Prop where
  unlocked : s.dev.mu = false
  own : s.dev.heapMemList.filter (·.object == h) = [⟨h, size⟩]
  recorded : ∀ x ∈ s.live, ∃ e ∈ s.dev.heapMemList, e.object = x.handle

theorem recorded_cons {live : List Object} {heap : List DeviceMem} {o : Object} {size : UInt64}
    (hrec : ∀ x ∈ live, ∃ e ∈ heap, e.object = x.handle) :
    ∀ x ∈ o :: live, ∃ e ∈ (⟨o.handle, size⟩ : DeviceMem) :: heap, e.object = x.handle := by
  intro x hx
  rcases List.mem_cons.mp hx with rfl | hx
  · exact ⟨_, List.mem_cons_self, rfl⟩
  · obtain ⟨e, he, heq⟩ := hrec x hx
    exact ⟨e, List.mem_cons_of_mem _ he, heq⟩

theorem alloc_holds {s0 s s' : State} {a : Answer} {o : Object} {size alignment : UInt64} (hm : s.dev.mu = false)
    (hrec : ∀ x ∈ s.live, ∃ e ∈ s.dev.heapMemList, e.object = x.handle) (hc : a.created = some o)
    (hk : o.kind = .memory size alignment) (ha : alignment ≠ 0)
    (hnew : ∀ e ∈ s.dev.heapMemList, e.object ≠ o.handle) (hfiled : Filed a) (h : (answered s0).step s a s') :
    Holds o.handle size s' := by
  obtain ⟨hmal, hkey⟩ := hfiled o hc
  rw [step_memory hm hmal hc hk ha h, hkey]
  refine ⟨hm, ?_, ?_⟩
  · show List.filter _ (_ :: s.dev.heapMemList) = _
    rw [List.filter_cons_of_pos (by simp), List.filter_eq_nil_iff.mpr (by simpa using hnew)]
  · exact recorded_cons hrec

/-- What goes on elsewhere leaves `h`'s record alone. -/
theorem elsewhere_holds {h : UInt32} {size : UInt64} {s0 s s' : State} {a : Answer} (hi : Holds h size s)
    (he : Elsewhere h s a) (hfiled : Filed a) (hs : (answered s0).step s a s') : Holds h size s' := by
  obtain ⟨hm, hown, hrec⟩ := hi
  rcases he with ⟨o, sz, al, hc, hk, ha, hne, -⟩ | ⟨f, hf, hne, ⟨y, hy, hyf⟩, hgone⟩
  · obtain ⟨hmal, hkey⟩ := hfiled o hc
    rw [step_memory hm hmal hc hk ha hs, hkey]
    refine ⟨hm, ?_, ?_⟩
    · show List.filter _ (_ :: s.dev.heapMemList) = _
      rw [List.filter_cons_of_neg (by simpa using hne), hown]
    · exact recorded_cons hrec
  · have hlive : ∀ x ∈ s.live.filter (!a.gone ·), x ∈ s.live ∧ x.handle ≠ f.hObjectOld := by
      intro x hx
      simpa [hgone] using hx
    rw [step_freed hm hf hs]
    split
    · exact ⟨hm, hown, fun x hx => hrec x (hlive x hx).1⟩
    split
    · refine ⟨by simpa using hm, by simpa using hown, fun x hx => ?_⟩
      simpa using hrec x (hlive x hx).1
    · obtain ⟨e, he⟩ := (first_isSome DeviceMem.object).mpr (by simpa [hyf] using hrec y hy)
      rw [freeHeapPage_recorded he]
      refine ⟨hm, ?_, ?_⟩
      · show List.filter _ (dropFirst _ _ s.dev.heapMemList) = _
        rw [filter_dropFirst_ne DeviceMem.object (Ne.symm hne), hown]
      · intro x hx
        obtain ⟨hx, hxf⟩ := hlive x hx
        rw [← first_isSome DeviceMem.object, first_dropFirst_ne DeviceMem.object hxf, first_isSome]
        exact hrec x hx

theorem holds_freed (s0 : State) {h : UInt32} {size : UInt64} {s : State} {a : Answer} {f : NVOS00Parameters}
    (hi : Holds h size s) (hf : a.freed = some f) (hold : f.hObjectOld = h) (hp : f.hObjectParent ≠ f.hRoot)
    (hr : f.hRoot ≠ h) :
    ∃ s' before after, (answered s0).step s a s' ∧ s.dev.heapMemList = before ++ ⟨h, size⟩ :: after ∧
      (∀ e ∈ before ++ after, e.object ≠ h) ∧
      s'.dev = { s.dev with heapMemList := before ++ after, allocMem := s.dev.allocMem - size,
                            fbInfo := { s.dev.fbInfo with freeMem := s.dev.fbInfo.freeMem + size } } := by
  obtain ⟨s', hs⟩ := answered_returns s0 a hi.unlocked
  obtain ⟨before, after, hl, hb, -, ha⟩ := List.filter_eq_cons_iff.mp hi.own
  have hb' : ∀ e ∈ before, e.object ≠ h := by simpa using hb
  have ha' : ∀ e ∈ after, e.object ≠ h := by simpa [List.filter_eq_nil_iff] using ha
  refine ⟨s', before, after, hs, hl, ?_, ?_⟩
  · intro e he
    rcases List.mem_append.mp he with he | he
    · exact hb' e he
    · exact ha' e he
  · rw [step_freed hi.unlocked hf hs, hold, if_neg (Ne.symm hr), if_neg (Ne.symm hp), freeHeapPage_at hl hb' rfl]

/-- Free undoes alloc. A memory object is allocated under a handle with no record,
    others come and go, all filed under their handles; then its free removes the record
    its allocation made, and moves the size it was charged back. -/
theorem free_undoes_alloc {s0 s1 s2 : State} {a b : Answer} {as : List Answer} {o : Object} {f : NVOS00Parameters}
    {size alignment : UInt64} (hm : s0.dev.mu = false)
    (hrec : ∀ x ∈ s0.live, ∃ e ∈ s0.dev.heapMemList, e.object = x.handle)
    (hc : a.created = some o) (hk : o.kind = .memory size alignment) (ha : alignment ≠ 0)
    (hnew : ∀ e ∈ s0.dev.heapMemList, e.object ≠ o.handle) (hfiled : Filed a) (h01 : (answered s0).step s0 a s1)
    (h12 : ((answered s0).restrict fun s x => Elsewhere o.handle s x ∧ Filed x).Run s1 as s2)
    (hf : b.freed = some f) (hold : f.hObjectOld = o.handle) (hp : f.hObjectParent ≠ f.hRoot)
    (hr : f.hRoot ≠ o.handle) :
    s1.dev.heapMemList = ⟨o.handle, size⟩ :: s0.dev.heapMemList ∧
      s1.dev.fbInfo.freeMem = s0.dev.fbInfo.freeMem - size ∧ s1.dev.allocMem = s0.dev.allocMem + size ∧
      ∃ s3 before after, (answered s0).step s2 b s3 ∧
        s2.dev.heapMemList = before ++ ⟨o.handle, size⟩ :: after ∧ (∀ e ∈ before ++ after, e.object ≠ o.handle) ∧
        s3.dev.heapMemList = before ++ after ∧ s3.dev.rmMemList = s2.dev.rmMemList ∧
        s3.dev.fbInfo.freeMem = s2.dev.fbInfo.freeMem + size ∧ s3.dev.allocMem = s2.dev.allocMem - size := by
  obtain ⟨hmal, hkey⟩ := hfiled o hc
  have h1 := alloc_holds hm hrec hc hk ha hnew hfiled h01
  have h2 : Holds o.handle size s2 := by
    refine System.Run.inv ?_ h12 h1
    intro s x s' hs hstep'
    obtain ⟨⟨he, hx⟩, hstep⟩ := hstep'
    exact elsewhere_holds hs he hx hstep
  obtain ⟨s3, before, after, h23, hl, hne, h3⟩ := holds_freed s0 h2 hf hold hp hr
  rw [step_memory hm hmal hc hk ha h01, hkey]
  refine ⟨rfl, rfl, rfl, s3, before, after, h23, hl, hne, ?_, ?_, ?_, ?_⟩ <;> rw [h3]

def localUser (new owner : UInt32) (size : UInt64) : Answer :=
  .grant nvEscRmAlloc (.rmAlloc 1 2 new .nv01MemoryLocalUser ⟨0, ⟨owner, size, 1⟩⟩) fun _ => false

def freeOf (old : UInt32) : Answer := .grant nvEscRmFree (.rmFree 1 2 old) fun x => x.handle == old

/-- 20 bytes are held under handle 8; 10 more come under handle 7, filed under the owner
    5; the free of handle 7 gives 20 back and leaves the record of the 10. -/
theorem free_misses_owner :
    ∃ s0 s1 s3 : State, s0.dev.heapMemList = [⟨8, 20⟩] ∧
      (localUser 7 5 10).created = some ⟨1, 2, 7, .memory 10 1⟩ ∧ (answered s0).step s0 (localUser 7 5 10) s1 ∧
      (answered s0).step s1 (freeOf 7) s3 ∧ s3.dev.fbInfo.freeMem = s1.dev.fbInfo.freeMem + 20 ∧
      s3.dev.fbInfo.freeMem ≠ s1.dev.fbInfo.freeMem + 10 ∧ s3.dev.heapMemList = [⟨5, 10⟩] :=
  let s0 : State := ⟨firstProcess.charge ⟨8, 20⟩, [⟨1, 2, 8, .memory 20 1⟩]⟩
  ⟨s0, ⟨s0.dev.charge ⟨5, 10⟩, ⟨1, 2, 7, .memory 10 1⟩ :: s0.live⟩,
    ⟨firstProcess.charge ⟨5, 10⟩, [⟨1, 2, 8, .memory 20 1⟩]⟩,
    rfl, rfl, ⟨_, rfl, rfl⟩, ⟨_, rfl, by decide⟩, by decide, by decide, rfl⟩

theorem free_undoes_alloc_run :
    ∃ s2 s3 : State, s2.dev.fbInfo.freeMem = 70 ∧ s3.dev.fbInfo.freeMem = s2.dev.fbInfo.freeMem + 10 := by
  have hrun : ((answered ⟨firstProcess, []⟩).restrict fun s x => Elsewhere 7 s x ∧ Filed x).Run
      ⟨firstProcess.charge ⟨7, 10⟩, [⟨1, 2, 7, .memory 10 1⟩]⟩ [localUser 8 8 20]
      ⟨(firstProcess.charge ⟨7, 10⟩).charge ⟨8, 20⟩, [⟨1, 2, 8, .memory 20 1⟩, ⟨1, 2, 7, .memory 10 1⟩]⟩ := by
    refine .cons ⟨⟨Or.inl ⟨⟨1, 2, 8, .memory 20 1⟩, 20, 1, rfl, rfl, by decide, by decide, by decide⟩, ?_⟩,
      ⟨_, rfl, rfl⟩⟩ (.nil _)
    intro o ho
    cases ho
    exact ⟨rfl, rfl⟩
  have hfiled : Filed (localUser 7 7 10) := by
    intro o ho
    cases ho
    exact ⟨rfl, rfl⟩
  have h01 : (answered ⟨firstProcess, []⟩).step ⟨firstProcess, []⟩ (localUser 7 7 10)
      ⟨firstProcess.charge ⟨7, 10⟩, [⟨1, 2, 7, .memory 10 1⟩]⟩ := ⟨_, rfl, rfl⟩
  have hf : (freeOf 7).freed = some ⟨1, 2, 7, .ok⟩ := rfl
  obtain ⟨-, -, -, s3, -, -, -, -, -, -, -, hfree, -⟩ := free_undoes_alloc rfl (by simp) rfl rfl (by decide)
    (by decide) hfiled h01 hrun hf rfl (by decide) (by decide)
  exact ⟨_, s3, by decide, hfree⟩

end NvResourceController.Ioctl
