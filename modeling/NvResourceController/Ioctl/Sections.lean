/-
  NvResourceController.Ioctl.Sections — the code under the mutex does to the memory what
  `Ioctl.Hook` says it does to the lists.

  `Represents σ d`: the scalars of `σ` are those of `d`, its two lists hold the entries
  of `d`'s, and nothing else is allocated. A stage `Does` what a function on `d` says if
  its section, begun with the mutex just taken in a state that represents `d`, ends
  without a fault, with the mutex held until its last statement, in a state that
  represents what the function makes of `d`, and with what it returns.

  - `fileRm_ends`, `fileMem_ends`, `searchRm_ends`, `dropEntry_ends`: the pieces of the
    handlers.
  - `preStage_does`, `postStage_does`: the stages of the hooked call, by handler.
-/

import NvResourceController.Ioctl.Memory
import NvResourceController.Ioctl.Effect

namespace NvResourceController.Ioctl

open Command LinkedList ListCursor MaskRound

/-! ## Representation -/

def DeviceProp.entries (d : DeviceProp) : ListHead → List Entry
  | .heapMemList => d.heapMemList.map .deviceMem
  | .rmMemList => d.rmMemList.map .rmMem

/-- The scalars of `d` and the heap `m`. -/
def DeviceMemory.of (m : Memory ListHead ℕ Entry) (d : DeviceProp) : DeviceMemory :=
  ⟨d.mu, d.minor, d.fbInfo, d.allocMem, d.memLimited, m⟩

def Represents (σ : DeviceMemory) (d : DeviceProp) : Prop := ∃ m, σ = .of m d ∧ Holds m d.entries

/-- `pthread_mutex_lock(&gpu_device.mu)`, once it is free. -/
def DeviceMemory.lock (σ : DeviceMemory) : DeviceMemory := { σ with mu := true }

/-- The variables of a handler as they are declared. -/
def Frame.start (args : Args) : Frame := ⟨⟨.null, .null, .null, none⟩, args, false, 0, -1, 0, 0⟩

instance : Fintype ListHead := ⟨{.heapMemList, .rmMemList}, fun h => by cases h <;> simp⟩

/-- The stage, from `args`, does what `f` says. -/
def Stage.Does {ω : Type} (st : Stage) (args : Args) (out : Int32 × Args → Bool → DeviceProp → ω)
    (f : DeviceProp → Option ω) : Prop :=
  match st with
  | .unlocked ret => ∀ d, f d = some (out (ret, args) false d)
  | .locked body result => body.exit = none ∧ ∀ σ d, Represents σ d → d.mu = false →
      Ends (fun p => p.1.mu = true)
        (fun _ p => ∃ d', f d = some (out (result p.2) p.2.success d') ∧ Represents p.1 d') body (σ.lock, .start args)

/-! ## Statements -/

section
variable {I : Config → Prop} {Q : Cmd.Exit → Config → Prop} {c : Cmd Config} {σ : DeviceMemory} {x : Frame}
  {es : ListHead → List Entry} {a : ℕ}

theorem setRm_seq {f : Frame → RmMem → RmMem} {u : RmMem} (hb : Beside σ.heap es a (.rmMem u))
    (he : x.regs.entry = some a) (hi : I (σ, x))
    (h : ∀ m, Beside m es a (.rmMem (f x u)) → Ends I Q c ({ σ with heap := m }, x)) :
    Ends I Q (.seq (setRm f) c) (σ, x) := by
  obtain ⟨hset, hb'⟩ := setField_beside (r := x.regs) (f := Entry.onRmMem fun mem => .rmMem (f x mem)) hb he rfl
  refine .exec_seq hi ?_ (h _ hb')
  show (setField _ (σ.heap, x.regs)).map (lists.put (σ, x)) = _
  rw [hset]
  rfl

theorem setMem_seq {f : Frame → DeviceMem → DeviceMem} {u : DeviceMem} (hb : Beside σ.heap es a (.deviceMem u))
    (he : x.regs.entry = some a) (hi : I (σ, x))
    (h : ∀ m, Beside m es a (.deviceMem (f x u)) → Ends I Q c ({ σ with heap := m }, x)) :
    Ends I Q (.seq (setMem f) c) (σ, x) := by
  obtain ⟨hset, hb'⟩ := setField_beside (r := x.regs) (f := Entry.onDeviceMem fun mem => .deviceMem (f x mem)) hb he rfl
  refine .exec_seq hi ?_ (h _ hb')
  show (setField _ (σ.heap, x.regs)).map (lists.put (σ, x)) = _
  rw [hset]
  rfl

theorem field_eq {e : Entry} (hc : σ.heap.cell a = some e) (he : x.regs.entry = some a) :
    field (lists.get (σ, x)) = some e := by
  simp [field, lists, he, hc]

theorem loadSize_seq {mem : DeviceMem} (hc : σ.heap.cell a = some (.deviceMem mem)) (he : x.regs.entry = some a)
    (hi : I (σ, x)) (h : Ends I Q c (σ, { x with size := mem.size })) : Ends I Q (.seq loadSize c) (σ, x) := by
  refine .exec_seq hi ?_ h
  rw [field_eq hc he]
  rfl

theorem assignFreeMem_seq {op : UInt64 → UInt64 → UInt64} {mem : DeviceMem}
    (hc : σ.heap.cell a = some (.deviceMem mem)) (he : x.regs.entry = some a)
    (hI : ∀ s : Config, s.1.mu = σ.mu → I s)
    (h : Ends I Q c ({ σ with fbInfo := ⟨σ.fbInfo.pid, σ.fbInfo.totalMem, op σ.fbInfo.freeMem mem.size⟩ },
      { x with value := σ.fbInfo.freeMem, size := mem.size })) : Ends I Q (.seq (assignFreeMem op) c) (σ, x) := by
  refine .seq rfl (.exec_seq (hI _ rfl) rfl (loadSize_seq hc he (hI _ rfl) ?_))
  exact .exec (hI _ rfl) rfl h

theorem assignAllocMem_seq {op : UInt64 → UInt64 → UInt64} {mem : DeviceMem}
    (hc : σ.heap.cell a = some (.deviceMem mem)) (he : x.regs.entry = some a)
    (hI : ∀ s : Config, s.1.mu = σ.mu → I s)
    (h : Ends I Q c ({ σ with allocMem := op σ.allocMem mem.size }, { x with value := σ.allocMem, size := mem.size })) :
    Ends I Q (.seq (assignAllocMem op) c) (σ, x) := by
  refine .seq rfl (.exec_seq (hI _ rfl) rfl (loadSize_seq hc he (hI _ rfl) ?_))
  exact .exec (hI _ rfl) rfl h

/-! ## The pieces of the handlers -/

/-- What is filed is at the head of `rm_mem_list`; without memory the handler goes on to
    return `-ENOMEM`. -/
theorem fileRm_ends {malloc : Bool} {object deviceId : Frame → RmMem → RmMem} (mem : RmMem) (hm : Holds σ.heap es)
    (hI : ∀ s : Config, s.1.mu = σ.mu → I s)
    (hset : ∀ r u, deviceId { x with regs := r } (object { x with regs := r } u) = mem)
    (hnone : malloc = false → ∀ r, Q .fell (σ, { x with regs := r, ret := -enomem }))
    (hsome : malloc = true → ∀ m r, Holds m (Function.update es .rmMemList (.rmMem mem :: es .rmMemList)) →
      Q .fell ({ σ with heap := m }, { x with regs := r })) : Ends I Q (fileRm malloc object deviceId) (σ, x) := by
  have hi : ∀ t, I (lists.put (σ, x) t) := fun _ => hI _ rfl
  refine .seq rfl (.zoom lists (malloc_ends (.rmMem mem) hi hm (by trivial) ?_ ?_))
  · intro hf
    exact .test (hi _) (v := true) rfl (.exec (hi _) rfl (hnone hf _))
  · intro ht a v m htype hb
    refine .test (hi _) (v := false) rfl ?_
    cases v with
    | deviceMem u => exact htype.elim
    | rmMem u =>
      refine setRm_seq hb rfl (hi _) fun m₁ hb₁ => setRm_seq hb₁ rfl (hI _ rfl) fun m₂ hb₂ => ?_
      refine .zoom lists (listAdd_beside (fun _ => hI _ rfl) hb₂ rfl fun m₃ r' hm₃ _ _ => ?_)
      have hmem := hset { x.regs with entry := some a } u
      exact hsome ht m₃ r' (by rw [← hmem]; exact hm₃)

/-- What is filed is at the head of `heap_mem_list` and charged; without memory the
    section ends there. -/
theorem fileMem_ends {malloc : Bool} {object size : Frame → DeviceMem → DeviceMem} (mem : DeviceMem)
    {c : Cmd Config} {cs : List (Cmd Config)} (hm : Holds σ.heap es) (hI : ∀ s : Config, s.1.mu = σ.mu → I s)
    (hset : ∀ r u, size { x with regs := r } (object { x with regs := r } u) = mem)
    (hnone : malloc = false → ∀ r, Q .fell (σ, { x with regs := r, ret := -enomem }))
    (hsome : malloc = true → ∀ m r x₁ x₂,
      Holds m (Function.update es .heapMemList (.deviceMem mem :: es .heapMemList)) →
      Ends I Q (.block (c :: cs)) (⟨σ.mu, σ.minor, ⟨σ.fbInfo.pid, σ.fbInfo.totalMem, σ.fbInfo.freeMem - mem.size⟩,
        σ.allocMem + mem.size, σ.memLimited, m⟩, { x with regs := r, value := x₁, size := x₂ })) :
    Ends I Q (fileMem malloc object size (c :: cs)) (σ, x) := by
  have hi : ∀ t, I (lists.put (σ, x) t) := fun _ => hI _ rfl
  refine .seq rfl (.zoom lists (malloc_ends (.deviceMem mem) hi hm (by trivial) ?_ ?_))
  · intro hf
    exact .test (hi _) (v := true) rfl (.exec (hi _) rfl (hnone hf _))
  · intro ht a v m htype hb
    refine .test (hi _) (v := false) rfl ?_
    cases v with
    | rmMem u => exact htype.elim
    | deviceMem u =>
      refine setMem_seq hb rfl (hi _) fun m₁ hb₁ => setMem_seq hb₁ rfl (hI _ rfl) fun m₂ hb₂ => ?_
      have hmem := hset { x.regs with entry := some a } u
      rw [show size _ (object _ u) = mem from hmem] at hb₂
      refine .seq rfl (.zoom lists (listAdd_beside (fun _ => hI _ rfl) hb₂ rfl fun m₃ r' hm₃ hc₃ he => ?_))
      refine assignFreeMem_seq hc₃ he (fun _ h => hI _ h) (assignAllocMem_seq hc₃ he (fun _ h => hI _ h) ?_)
      exact hsome ht m₃ r' σ.allocMem mem.size hm₃

theorem dropEntry_ends {h : ListHead} {cur : Cursor Entry} (hc : At σ.heap es h a cur) (he : x.regs.entry = some a)
    (hI : ∀ s : Config, s.1.mu = σ.mu → I s)
    (hQ : ∀ m r, Holds m (Function.update es h cur.del) → Q .fell ({ σ with heap := m }, { x with regs := r })) :
    Ends I Q (.block dropEntry) (σ, x) := by
  refine .seq rfl (.zoom lists (listDel_at (fun _ => hI _ rfl) hc he fun m r hb hr => ?_))
  obtain ⟨m', hfree, hm'⟩ := free_beside hb hr
  exact zoom_exec lists (hI _ rfl) hfree (hQ m' _ hm')

/-- The device id the handle's entry says, or the one it was; `break` leaves the rest of
    the section to do. -/
theorem takeDeviceId_search {handle : UInt32} {rl : List RmMem} (hm : Holds σ.heap es)
    (hes : es .rmMemList = rl.map .rmMem) (hx : x.deviceId = -1) (hI : ∀ s : Config, s.1.mu = σ.mu → I s)
    (hQ : ∀ r, Q .fell (σ, { x with regs := r, deviceId := findDeviceId handle rl })) :
    Ends I Q (searchRm handle takeDeviceId) (σ, x) := by
  refine search_image lists hm hes (fun _ => rfl) (fun _ => hI _ rfl) ?_ ?_ rfl
  · intro cur b r hscan hmatch hat hr
    obtain ⟨hlist, hbefore, -⟩ := scan_spec _ hscan
    have hfind : findDeviceId handle rl = cur.entry.deviceId.toInt32 := by
      have hf : rl.find? (·.object == handle) = some cur.entry :=
        List.find?_eq_some_iff_append.mpr ⟨hmatch, cur.before, cur.after, hlist.symm, by simpa using hbefore⟩
      simp [findDeviceId, hf]
    have hset := hQ r
    rw [hfind] at hset
    refine .exec_seq (hI _ rfl) ?_ (.brk hset)
    rw [show field (lists.get (lists.put (σ, x) (σ.heap, r))) = some (.rmMem cur.entry) from field_eq hat.cell hr]
    rfl
  · intro r hnone _ _
    have hfind : findDeviceId handle rl = x.deviceId := by
      have hf : rl.find? (·.object == handle) = none := List.find?_eq_none.mpr fun y hy => by simp [hnone y hy]
      simp [findDeviceId, hf, hx]
    have := hQ r
    rw [hfind] at this
    exact this

theorem cursor_search {β : Type} {h : ListHead} {f : β → Entry} {test : Entry → Option Bool} {q : β → Bool} {xs : List β}
    (hm : Holds σ.heap es) (hes : es h = xs.map f) (htest : ∀ y, test (f y) = some (q y))
    (hx : x.regs.entry = none) (hI : ∀ s : Config, s.1.mu = σ.mu → I s)
    (hnone : scan q xs = none → ∀ r : Regs ListHead ℕ, r.entry = none → Q .fell (σ, { x with regs := r }))
    (hsome : ∀ cur b r, scan q xs = some cur → r.entry = some b →
      At σ.heap es h b ⟨cur.before.map f, f cur.entry, cur.after.map f⟩ → Q .fell (σ, { x with regs := r })) :
    Ends I Q (search lists h test .brk) (σ, x) := by
  refine search_image lists hm hes htest (fun _ => hI _ rfl) ?_ ?_ rfl
  · intro cur b r hscan _ hat hr
    exact .brk (hsome cur b r hscan hr hat)
  · intro r _ hnil hlast
    cases hscan : scan q xs with
    | none => exact hnone hscan r ((hnil ((scan_eq_none q).mp hscan)).trans hx)
    | some cur =>
      obtain ⟨b, hr, hat⟩ := hlast cur hscan
      exact hsome cur b r hscan hr hat

end

/-! ## The stage before the kernel -/

def PreOut.of (r : Int32 × Args) (success : Bool) (d : DeviceProp) : PreOut := ⟨r.1, success, r.2, d⟩

def PostOut.of (r : Int32 × Args) (_success : Bool) (d : DeviceProp) : PostOut := ⟨r.1, r.2, d⟩

section
variable {m : Memory ListHead ℕ Entry} {d : DeviceProp}

theorem represents_unlocked (hm : Holds m d.entries) (hmu : d.mu = false) :
    Represents ⟨false, d.minor, d.fbInfo, d.allocMem, d.memLimited, m⟩ d :=
  ⟨m, by simp [DeviceMemory.of, hmu], hm⟩

/-- A section is shown from a heap that holds the lists, with the mutex just taken. -/
theorem locked_does {ω : Type} {body : Cmd Config} {result : Frame → Int32 × Args} {args : Args}
    {out : Int32 × Args → Bool → DeviceProp → ω} {f : DeviceProp → Option ω} (hb : body.exit = none)
    (h : ∀ m d, Holds m d.entries → d.mu = false →
      Ends (fun p => p.1.mu = true)
        (fun _ p => ∃ d', f d = some (out (result p.2) p.2.success d') ∧ Represents p.1 d') body
        (⟨true, d.minor, d.fbInfo, d.allocMem, d.memLimited, m⟩, .start args)) :
    (Stage.locked body result).Does args out f := by
  refine ⟨hb, fun σ d hr hmu => ?_⟩
  obtain ⟨m, rfl, hm⟩ := hr
  exact h m d hm hmu

theorem preVidHeapAlloc_does (args : Args) : (preVidHeapAllocStage args).Does args PreOut.of (preVidHeapAlloc args) := by
  unfold preVidHeapAllocStage preVidHeapAlloc
  dsimp only
  cases hf : args.nvos32.function with
  | allocSize =>
    by_cases ha : args.nvos32.allocSize.alignment = 0
    · simp [ha, Stage.Does, PreOut.of]
    simp only [ne_eq, ha, not_false_eq_true, if_true]
    refine locked_does rfl fun m d hm hmu => ?_
    rw [lock_free hmu, Option.map_some, unlock_locked hmu]
    dsimp only
    by_cases hlt : d.fbInfo.freeMem < roundUp args.nvos32.allocSize.size args.nvos32.allocSize.alignment
    · refine .test_seq rfl (v := true) (congrArg some (decide_eq_true hlt)) ?_
      refine .exec_seq rfl rfl (.exec_seq rfl rfl (.exec_seq rfl rfl (.exec rfl rfl ?_)))
      exact .exec rfl rfl ⟨d, by rw [if_pos hlt, ← hf]; rfl, represents_unlocked hm hmu⟩
    · refine .test_seq rfl (v := false) (congrArg some (decide_eq_false hlt)) (.skip ?_)
      exact .exec rfl rfl ⟨d, by rw [if_neg hlt]; rfl, represents_unlocked hm hmu⟩
  | info =>
    refine locked_does rfl fun m d hm hmu => ?_
    dsimp only
    rw [lock_free hmu, Option.map_some, unlock_locked hmu]
    dsimp only
    have hlt : ¬ d.fbInfo.freeMem < 0 := not_lt_zero _
    refine .test_seq rfl (v := false) (congrArg some (decide_eq_false hlt)) (.skip ?_)
    exact .exec rfl rfl ⟨d, by rw [if_neg hlt]; rfl, represents_unlocked hm hmu⟩
  | other n => exact fun _ => rfl

theorem preRmAlloc_does (args : Args) : (preRmAllocStage args).Does args PreOut.of (preRmAlloc args) := by
  unfold preRmAllocStage preRmAlloc
  dsimp only
  cases hc : args.nvos21.hClass with
  | nv01MemoryLocalUser =>
    by_cases ha : args.nvos21.pAllocParms.memory.alignment = 0
    · simp [ha, Stage.Does, PreOut.of]
    simp only [ne_eq, ha, not_false_eq_true, if_true]
    refine locked_does rfl fun m d hm hmu => ?_
    rw [lock_free hmu, Option.map_some, unlock_locked hmu]
    dsimp only
    by_cases hlt : d.fbInfo.freeMem
        < roundUp args.nvos21.pAllocParms.memory.size args.nvos21.pAllocParms.memory.alignment
    · refine .test_seq rfl (v := true) (congrArg some (decide_eq_true hlt)) (.exec_seq rfl rfl (.exec rfl rfl ?_))
      exact .exec rfl rfl ⟨d, by rw [if_pos hlt, ← hc]; rfl, represents_unlocked hm hmu⟩
    · refine .test_seq rfl (v := false) (congrArg some (decide_eq_false hlt)) (.skip ?_)
      exact .exec rfl rfl ⟨d, by rw [if_neg hlt]; rfl, represents_unlocked hm hmu⟩
  | nv01Device0 => exact fun _ => rfl
  | nv20Subdevice0 => exact fun _ => rfl
  | other n => exact fun _ => rfl

theorem preStage_does (cmd : UInt32) (args : Args) :
    (preStage cmd args).Does args PreOut.of (preIoctl cmd args false) := by
  unfold preStage preIoctl
  dsimp only
  split
  · exact preVidHeapAlloc_does args
  split
  · exact preRmAlloc_does args
  · exact fun _ => rfl

/-! ## The stage after the kernel -/

theorem holds_rm {d' : DeviceProp} {es : List Entry} (hm : Holds m (Function.update d.entries .rmMemList es))
    (hr : es = d'.rmMemList.map .rmMem) (hh : d'.heapMemList = d.heapMemList) : Holds m d'.entries := by
  have he : Function.update d.entries .rmMemList es = d'.entries := by
    funext h
    cases h <;> simp [DeviceProp.entries, hr, hh]
  rwa [he] at hm

theorem holds_heap {d' : DeviceProp} {es : List Entry} (hm : Holds m (Function.update d.entries .heapMemList es))
    (hh : es = d'.heapMemList.map .deviceMem) (hr : d'.rmMemList = d.rmMemList) : Holds m d'.entries := by
  have he : Function.update d.entries .heapMemList es = d'.entries := by
    funext h
    cases h <;> simp [DeviceProp.entries, hr, hh]
  rwa [he] at hm

theorem postDeviceRmAlloc_does (malloc : Bool) (args : Args) :
    (postDeviceRmAllocStage malloc args.nvos21).Does args PostOut.of
      fun d => (postDeviceRmAlloc malloc args.nvos21 d).map fun r => ⟨r.1, args, r.2⟩ := by
  refine locked_does rfl fun m d hm hmu => ?_
  unfold postDeviceRmAlloc
  dsimp only
  rw [lock_free hmu, Option.map_some, Option.map_some]
  refine .seq rfl (fileRm_ends ⟨args.nvos21.hObjectNew, args.nvos21.pAllocParms.deviceId.toUInt32⟩ hm (fun _ h => h)
    (fun _ _ => rfl) ?_ ?_)
  · intro hf r
    refine .exec rfl rfl ⟨d, ?_, represents_unlocked hm hmu⟩
    rw [if_neg (by simp [hf]), unlock_locked hmu]
    rfl
  · intro ht m' r hm'
    rw [if_pos ht]
    exact .exec rfl rfl ⟨_, rfl, m', rfl, holds_rm hm' rfl rfl⟩

theorem postCtrlRmAlloc_does (malloc : Bool) (args : Args) :
    (postCtrlRmAllocStage malloc args.nvos21).Does args PostOut.of
      fun d => (postCtrlRmAlloc malloc args.nvos21 d).map fun r => ⟨r.1, args, r.2⟩ := by
  refine locked_does rfl fun m d hm hmu => ?_
  unfold postCtrlRmAlloc
  dsimp only
  rw [lock_free hmu, Option.map_some, Option.map_some]
  dsimp only
  refine .seq rfl (takeDeviceId_search hm rfl rfl (fun _ h => h) fun r => ?_)
  by_cases hid : findDeviceId args.nvos21.hObjectParent d.rmMemList = -1
  · refine .test_seq rfl (v := true) (by simp [hid]) (.skip (.exec rfl rfl ⟨d, ?_, represents_unlocked hm hmu⟩))
    rw [if_pos hid, unlock_locked hmu]
    rfl
  · rw [if_neg hid]
    refine .test_seq rfl (v := false) (by simp [hid]) (fileRm_ends ⟨args.nvos21.hObjectNew, (findDeviceId
      args.nvos21.hObjectParent d.rmMemList).toUInt32⟩ hm (fun _ h => h) (fun _ _ => rfl) ?_ ?_)
    · intro hf r'
      refine .exec rfl rfl ⟨d, ?_, represents_unlocked hm hmu⟩
      rw [if_neg (by simp [hf]), unlock_locked hmu]
      rfl
    · intro ht m' r' hm'
      rw [if_pos ht]
      exact .exec rfl rfl ⟨_, rfl, m', rfl, holds_rm hm' rfl rfl⟩

theorem postMemoryRmAlloc_does (malloc : Bool) (args : Args) :
    (postMemoryRmAllocStage malloc args.nvos21).Does args PostOut.of
      fun d => (postMemoryRmAlloc malloc args.nvos21 d).map fun r => ⟨r.1, args, r.2⟩ := by
  unfold postMemoryRmAllocStage postMemoryRmAlloc
  dsimp only
  split
  · exact fun _ => rfl
  split
  · exact fun _ => rfl
  refine locked_does rfl fun m d hm hmu => ?_
  rw [lock_free hmu, Option.map_some, Option.map_some]
  refine fileMem_ends ⟨args.nvos21.pAllocParms.memory.owner, args.nvos21.pAllocParms.memory.size⟩ hm (fun _ h => h) (fun _ _ => rfl) ?_ ?_
  · intro hf r
    rw [if_neg (by simp [hf])]
    exact ⟨_, rfl, m, rfl, hm⟩
  · intro ht m' r x₁ x₂ hm'
    rw [if_pos ht]
    exact .exec rfl rfl ⟨_, rfl, m', rfl, holds_heap hm' rfl rfl⟩

theorem postRmAlloc_does (malloc : Bool) (args : Args) :
    (postRmAllocStage malloc args).Does args PostOut.of
      fun d => (postRmAlloc malloc args d).map fun r => ⟨r.1, args, r.2⟩ := by
  unfold postRmAllocStage postRmAlloc
  dsimp only
  cases args.nvos21.hClass with
  | nv01Device0 => exact postDeviceRmAlloc_does malloc args
  | nv20Subdevice0 => exact postCtrlRmAlloc_does malloc args
  | nv01MemoryLocalUser => exact postMemoryRmAlloc_does malloc args
  | other n => exact fun _ => rfl

theorem postVidHeapAlloc_does (malloc : Bool) (args : Args) :
    (postVidHeapAllocStage malloc args).Does args PostOut.of (postVidHeapAlloc malloc args) := by
  unfold postVidHeapAllocStage postVidHeapAlloc
  dsimp only
  split
  · exact fun _ => rfl
  split
  · exact fun _ => rfl
  refine locked_does rfl fun m d hm hmu => ?_
  rw [lock_free hmu, Option.map_some]
  refine fileMem_ends ⟨args.nvos32.allocSize.hMemory, args.nvos32.allocSize.size⟩ hm (fun _ h => h)
    (fun _ _ => rfl) ?_ ?_
  · intro hf r
    rw [if_neg (by simp [hf])]
    exact ⟨_, rfl, m, rfl, hm⟩
  · intro ht m' r x₁ x₂ hm'
    rw [if_pos ht]
    refine .exec_seq rfl rfl (.exec_seq rfl rfl (.exec rfl rfl ⟨_, rfl, m', rfl, holds_heap hm' rfl rfl⟩))

theorem postRmVidHeapControl_does (malloc : Bool) (minor : UInt32) (args : Args) :
    (postRmVidHeapControlStage malloc minor args).Does args PostOut.of (postRmVidHeapControl malloc minor args) := by
  unfold postRmVidHeapControlStage postRmVidHeapControl
  split
  · exact fun _ => rfl
  cases args.nvos32.function with
  | allocSize => exact postVidHeapAlloc_does malloc args
  | info => exact fun _ => rfl
  | other n => exact fun _ => rfl

theorem fbGetInfo_does (os : Os) (handle : UInt32) (args : Args) :
    (fbGetInfoStage os handle args.nvos54.params
        fun args params => { args with nvos54 := { args.nvos54 with params := params } }).Does args PostOut.of
      fun d => (fbGetInfo os handle args.nvos54.params d).map fun r =>
        ⟨0, { args with nvos54 := { args.nvos54 with params := r.1 } }, r.2⟩ := by
  refine locked_does rfl fun m d hm hmu => ?_
  unfold fbGetInfo
  rw [lock_free hmu, Option.map_some, Option.map_some]
  dsimp only
  rw [unlock_locked hmu]
  refine .seq rfl (takeDeviceId_search hm rfl rfl (fun _ h => h) fun r => ?_)
  refine .exec rfl rfl ⟨d, ?_, represents_unlocked hm hmu⟩
  dsimp only
  split <;> rfl

theorem postRmControl_does (os : Os) (minor : UInt32) (args : Args) :
    (postRmControlStage os minor args).Does args PostOut.of (postRmControl os minor args) := by
  unfold postRmControlStage postRmControl
  dsimp only
  split
  · exact fun _ => rfl
  split
  · exact fun _ => rfl
  have hget := fbGetInfo_does os args.nvos54.hObject args
  cases hc : args.nvos54.cmd with
  | fbGetInfo =>
    simp only [hc] at hget
    exact hget
  | fbGetInfoV2 =>
    simp only [hc] at hget
    exact hget
  | other n => exact fun _ => rfl

theorem freeDevicePage_ends {Q : Cmd.Exit → Config → Prop} {page : UInt32} {args : Args} (hm : Holds m d.entries)
    (hQ : ∀ m' r, Holds m' (freeDevicePage page d).entries →
      Q .fell (⟨true, d.minor, d.fbInfo, d.allocMem, d.memLimited, m'⟩, { Frame.start args with regs := r })) :
    Ends (fun p => p.1.mu = true) Q (freeDevicePageCode page)
      (⟨true, d.minor, d.fbInfo, d.allocMem, d.memLimited, m⟩, .start args) := by
  unfold freeDevicePage at hQ
  refine .seq rfl (cursor_search hm rfl (fun _ => rfl) rfl (fun _ h => h) ?_ ?_)
  · intro hscan r hr
    refine .test rfl (v := false) (by simp [someEntry, hr]) (.skip (hQ m r ?_))
    rw [hscan]
    exact hm
  · intro cur b r hscan hr hat
    refine .test rfl (v := true) (by simp [someEntry, hr]) (dropEntry_ends hat hr (fun _ h => h) fun m' r' hm' => ?_)
    refine hQ m' r' ?_
    rw [hscan]
    exact holds_rm hm' (by simp [Cursor.del]) rfl

theorem freeHeapPage_ends {Q : Cmd.Exit → Config → Prop} {page : UInt32} {args : Args} (hm : Holds m d.entries)
    (hQ : ∀ m' r x₁ x₂, Holds m' (freeHeapPage page d).entries →
      Q .fell (⟨true, d.minor, (freeHeapPage page d).fbInfo, (freeHeapPage page d).allocMem, d.memLimited, m'⟩,
        { Frame.start args with regs := r, value := x₁, size := x₂ })) :
    Ends (fun p => p.1.mu = true) Q (freeHeapPageCode page)
      (⟨true, d.minor, d.fbInfo, d.allocMem, d.memLimited, m⟩, .start args) := by
  unfold freeHeapPage at hQ
  refine .seq rfl (cursor_search hm rfl (fun _ => rfl) rfl (fun _ h => h) ?_ ?_)
  · intro hscan r hr
    refine .test rfl (v := false) (by simp [someEntry, hr]) (.skip ?_)
    rw [hscan] at hQ
    exact hQ m r 0 0 hm
  · intro cur b r hscan hr hat
    refine .test rfl (v := true) (by simp [someEntry, hr]) ?_
    rw [hscan] at hQ
    refine assignFreeMem_seq hat.cell hr (fun _ h => h) (assignAllocMem_seq hat.cell hr (fun _ h => h) ?_)
    refine dropEntry_ends hat hr (fun _ h => h) fun m' r' hm' => ?_
    exact hQ m' r' _ _ (holds_heap hm' (by simp [Cursor.del]) rfl)

theorem postRmFree_does (minor : UInt32) (args : Args) :
    (postRmFreeStage minor args).Does args PostOut.of
      fun d => (postRmFree minor args d).map fun r => ⟨r.1, args, r.2⟩ := by
  unfold postRmFreeStage postRmFree
  dsimp only
  split
  · exact fun _ => rfl
  split
  · exact fun _ => rfl
  split
  · exact fun _ => rfl
  split
  · refine locked_does rfl fun m d hm hmu => ?_
    rw [lock_free hmu, Option.map_some, Option.map_some, freeDevicePage_locked _ hmu]
    refine .seq rfl (freeDevicePage_ends hm fun m' r hm' => .exec rfl rfl ⟨_, rfl, m', ?_, hm'⟩)
    simp [DeviceMemory.of, freeDevicePage_eq, hmu]
  · refine locked_does rfl fun m d hm hmu => ?_
    rw [lock_free hmu, Option.map_some, Option.map_some, freeHeapPage_locked _ hmu]
    refine .seq rfl (freeHeapPage_ends hm fun m' r x₁ x₂ hm' => .exec rfl rfl ⟨_, rfl, m', ?_, hm'⟩)
    unfold freeHeapPage
    split <;> simp [DeviceMemory.of, hmu]

theorem postStage_does (malloc : Bool) (os : Os) (major minor cmd : UInt32) (args : Args) :
    (postStage malloc os major minor cmd args).Does args PostOut.of (postIoctl malloc os major minor cmd args) := by
  unfold postStage postIoctl
  dsimp only
  split
  · exact fun _ => rfl
  split
  · exact postRmVidHeapControl_does malloc minor args
  split
  · exact postRmControl_does os minor args
  split
  · exact postRmFree_does minor args
  split
  · exact postRmAlloc_does malloc args
  · exact fun _ => rfl

end

end NvResourceController.Ioctl
