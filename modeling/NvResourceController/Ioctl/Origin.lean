/-
  NvResourceController.Ioctl.Origin — which object each record was made for.

  A `device_mem_t` has a handle and a size, an `rm_mem_t` a handle and a device id; the
  books do not say whose they are. `traced` runs the answered calls with the books
  copied out and each entry marked with the object whose allocation made it, and drops
  from the copy what the handlers drop from the lists.

  - `traced_lists`: the copy is the lists, in every state, whatever happens.
-/

import NvResourceController.Ioctl.Free

namespace NvResourceController.Ioctl

open ListCursor Keyed

/-- An entry and the object it was made for; none if the request was refused. -/
structure Origin (α : Type) where
  record : α
  maker : Option Object
  deriving DecidableEq, Repr

def Object.record (o : Object) : DeviceMem := ⟨o.handle, o.size⟩

def Object.origin (o : Object) : Origin DeviceMem := ⟨o.record, some o⟩

/-- The two lists of a process, marked. -/
structure Marked where
  heap : List (Origin DeviceMem)
  rm : List (Origin RmMem)
  deriving DecidableEq, Repr

def Effect.mark (malloc : Bool) (maker : Option Object) (m : Marked) : Effect → Marked
  | .none => m
  | .charge entry => if malloc then { m with heap := ⟨entry, maker⟩ :: m.heap } else m
  | .note entry => if malloc then { m with rm := ⟨entry, maker⟩ :: m.rm } else m
  | .freeHeap page => { m with heap := scanDel (·.record.object == page) m.heap }
  | .freeDevice page => { m with rm := scanDel (·.record.object == page) m.rm }

def Answer.effect (a : Answer) (dev : DeviceProp) : Effect := Ioctl.effect nvidiaCtlMinor a.cmd a.reply dev.rmMemList

structure Traced where
  state : State
  marked : Marked

/-- The answered calls of a process with both lists empty at first. A call that returns
    with the mutex held has changed nothing. -/
def traced (s0 : State) : System Traced Answer where
  init t := t = ⟨s0, [], []⟩
  step t a t' := (answered s0).step t.state a t'.state ∧
    t'.marked = if t.state.dev.mu then t.marked else (a.effect t.state.dev).mark a.malloc a.created t.marked

/-- The marked lists are the lists. -/
structure Traced.Copies (t : Traced) : Prop where
  heap : t.marked.heap.map Origin.record = t.state.dev.heapMemList
  rm : t.marked.rm.map Origin.record = t.state.dev.rmMemList

theorem mark_copies (malloc : Bool) (maker : Option Object) {dev : DeviceProp} {m : Marked}
    (hh : m.heap.map Origin.record = dev.heapMemList) (hr : m.rm.map Origin.record = dev.rmMemList) (e : Effect) :
    (e.mark malloc maker m).heap.map Origin.record = (e.apply malloc dev).heapMemList ∧
      (e.mark malloc maker m).rm.map Origin.record = (e.apply malloc dev).rmMemList := by
  cases e with
  | none => exact ⟨hh, hr⟩
  | charge entry =>
    cases malloc
    · exact ⟨hh, hr⟩
    · exact ⟨congrArg (entry :: ·) hh, hr⟩
  | note entry =>
    cases malloc
    · exact ⟨hh, hr⟩
    · exact ⟨hh, congrArg (entry :: ·) hr⟩
  | freeHeap page =>
    refine ⟨?_, by simpa [Effect.mark, Effect.apply] using hr⟩
    simp only [Effect.mark, Effect.apply, freeHeapPage_heap, ← hh]
    exact (scanDel_map (fun e : DeviceMem => e.object == page) Origin.record m.heap).symm
  | freeDevice page =>
    refine ⟨by simpa [Effect.mark, Effect.apply] using hh, ?_⟩
    simp only [Effect.mark, Effect.apply, freeDevicePage_rm, ← hr]
    exact (scanDel_map (fun e : RmMem => e.object == page) Origin.record m.rm).symm

theorem traced_step {s0 : State} {t t' : Traced} {a : Answer} (hm : t.state.dev.mu = false)
    (h : (traced s0).step t a t') :
    t' = ⟨⟨(a.effect t.state.dev).apply a.malloc t.state.dev, a.objects t.state.live⟩,
      (a.effect t.state.dev).mark a.malloc a.created t.marked⟩ := by
  obtain ⟨hs, hmark⟩ := h
  rw [if_neg (by simp [hm])] at hmark
  have hstate := answered_step hm hs
  cases t'
  simp only at hmark hstate
  rw [hmark, hstate, Answer.effect]

theorem traced_of_post {s0 : State} {t : Traced} {a : Answer} {o : PostOut} {ok : Traced → Answer → Prop}
    (hok : ok t a) (ho : a.post t.state.dev = some o) :
    ((traced s0).restrict ok).step t a ⟨⟨o.dev, a.objects t.state.live⟩,
      if t.state.dev.mu then t.marked else (a.effect t.state.dev).mark a.malloc a.created t.marked⟩ :=
  ⟨hok, ⟨o, ho, rfl⟩, rfl⟩

theorem traced_lists {d0 : DeviceProp} {t : Traced} (hh : d0.heapMemList = []) (hr : d0.rmMemList = [])
    (h : (traced ⟨d0, []⟩).Reach t) : t.Copies := by
  refine System.Reach.inv (I := Traced.Copies) ?_ ?_ h
  · intro t ht
    rw [show t = ⟨⟨d0, []⟩, [], []⟩ from ht]
    exact ⟨hh.symm, hr.symm⟩
  · intro t a t' hi hs
    by_cases hm : t.state.dev.mu = true
    · obtain ⟨⟨p, hp, hstate⟩, hmark⟩ := hs
      have hdev : t'.state.dev = t.state.dev := by
        rw [hstate]
        exact postIoctl_held hm hp
      rw [if_pos hm] at hmark
      exact ⟨by rw [hmark, hdev]; exact hi.heap, by rw [hmark, hdev]; exact hi.rm⟩
    · rw [traced_step (by simpa using hm) hs]
      obtain ⟨h1, h2⟩ := mark_copies a.malloc a.created hi.heap hi.rm (a.effect t.state.dev)
      exact ⟨h1, h2⟩

end NvResourceController.Ioctl
