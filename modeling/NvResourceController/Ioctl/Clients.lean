/-
  NvResourceController.Ioctl.Clients — several clients of the resource manager in one
  process. A handle means something within its client only; a record has a handle and no
  client, and all clients share the list.

  - `client_isolation`: a free takes a record that its own client's allocation made, if
    the newest live object of that handle, over all clients, is the client's own
    (`Newest`).
  - `clients_mix`: two clients with equal handles, and the older one frees first.
-/

import NvResourceController.Ioctl.Origin

namespace NvResourceController.Ioctl

open ListCursor Keyed

/-- The client and the handle, which together name an object. -/
def Object.name (o : Object) : UInt32 × UInt32 := (o.root, o.handle)

/-! ## The runs -/

/-- `NVOS32_FUNCTION_ALLOC_SIZE` under a handle its client does not use, granted, or the
    free of a live object by its own client. -/
def Serves (t : Traced) (a : Answer) : Prop :=
  (∃ o, iocNr a.cmd = nvEscRmVidHeapControl ∧ a.created = some o ∧ o.handle ≠ o.root ∧
      ∀ x ∈ t.state.live, x.name ≠ o.name) ∨
    ∃ f x, a.freed = some f ∧ x ∈ t.state.live ∧ x.name = (f.hRoot, f.hObjectOld) ∧
      a.gone = fun y => y.root == f.hRoot && y.handle == f.hObjectOld

/-- What keeps the clients apart: what is allocated is recorded, a free looks among the
    memory records, and the newest object of the freed handle is the freeing client's. -/
structure Newest (t : Traced) (a : Answer) : Prop where
  recorded : ∀ o ∈ a.created, a.malloc = true ∧ o.alignment ≠ 0
  parent : ∀ f ∈ a.freed, f.hObjectParent ≠ f.hRoot
  newest : ∀ f ∈ a.freed, ∀ x ∈ first Object.handle f.hObjectOld t.state.live, x.root = f.hRoot

instance (t : Traced) (a : Answer) : Decidable (Newest t a) :=
  decidable_of_iff
    ((∀ o ∈ a.created, a.malloc = true ∧ o.alignment ≠ 0) ∧ (∀ f ∈ a.freed, f.hObjectParent ≠ f.hRoot) ∧
      ∀ f ∈ a.freed, ∀ x ∈ first Object.handle f.hObjectOld t.state.live, x.root = f.hRoot)
    ⟨fun h => ⟨h.1, h.2.1, h.2.2⟩, fun h => ⟨h.recorded, h.parent, h.newest⟩⟩

/-- The free took a record made by an allocation of the same client, and moved its size
    back. -/
def TakesOwn (t t' : Traced) (f : NVOS00Parameters) : Prop :=
  ∃ before r after x, t.marked.heap = before ++ r :: after ∧ r.maker = some x ∧ x.root = f.hRoot ∧
    x.handle = f.hObjectOld ∧ t'.state.dev.heapMemList = (before ++ after).map Origin.record ∧
    t'.state.dev.fbInfo.freeMem = t.state.dev.fbInfo.freeMem + r.record.size ∧
    t'.state.dev.allocMem = t.state.dev.allocMem - r.record.size

/-! ## The records are the live objects' -/

structure InStep (t : Traced) : Prop where
  unlocked : t.state.dev.mu = false
  distinct : (t.state.live.map Object.name).Nodup
  client : ∀ x ∈ t.state.live, x.handle ≠ x.root
  marked : t.marked.heap = t.state.live.map Object.origin
  heap : t.state.dev.heapMemList = t.state.live.map Object.record

theorem created_vidHeap {a : Answer} {o : Object} (hc : iocNr a.cmd = nvEscRmVidHeapControl)
    (h : a.created = some o) : o.isMemory = true ∧ a.key = o.handle := by
  rcases created_cases h with ⟨-, -, -, rfl⟩ | ⟨hc', -, -⟩
  · exact ⟨rfl, by simp [Answer.key, recordKey, hc]⟩
  · exact absurd (hc'.symm.trans hc) nvEsc_ne.1

theorem alloc_inStep {s0 : State} {t t' : Traced} {a : Answer} {o : Object} (hi : InStep t)
    (hcmd : iocNr a.cmd = nvEscRmVidHeapControl) (hc : a.created = some o) (hroot : o.handle ≠ o.root)
    (hfresh : ∀ x ∈ t.state.live, x.name ≠ o.name) (hn : Newest t a) (h : (traced s0).step t a t') : InStep t' := by
  obtain ⟨hmem, hkey⟩ := created_vidHeap hcmd hc
  obtain ⟨hmal, halign⟩ := hn.recorded o hc
  have heff : a.effect t.state.dev = .charge o.record := by
    rw [Answer.effect, effect_memory _ hc (kind_of_isMemory hmem), if_neg halign]
    exact congrArg (fun k => Effect.charge ⟨k, o.size⟩) hkey
  rw [traced_step hi.unlocked h, heff, hmal, objects_created hc, hc]
  refine ⟨hi.unlocked, nodup_cons_of_fresh Object.name hi.distinct hfresh, ?_,
    congrArg (o.origin :: ·) hi.marked, congrArg (o.record :: ·) hi.heap⟩
  intro x hx
  rcases List.mem_cons.mp hx with rfl | hx
  · exact hroot
  · exact hi.client x hx

theorem scan_origins {live : List Object} {page : UInt32} {x : Object}
    (hf : first Object.handle page live = some x) :
    ∃ before after, live.map Object.origin = before ++ x.origin :: after ∧
      before ++ after = (dropFirst Object.handle page live).map Object.origin ∧
      scanDel (·.record.object == page) (live.map Object.origin) = before ++ after := by
  obtain ⟨c, hc, rfl, hd⟩ := scan_matched _ hf
  obtain ⟨hl, -, -⟩ := scan_spec _ hc
  refine ⟨c.before.map Object.origin, c.after.map Object.origin, ?_, ?_, ?_⟩
  · rw [← hl, Cursor.list, List.map_append, List.map_cons]
  · rw [← List.map_append, dropFirst, ← hd, Cursor.del]
  · have hdel : scanDel (·.handle == page) live = c.before ++ c.after := (scanDel_matched _ hf).trans hd.symm
    refine (scanDel_map _ Object.origin live).trans ?_
    rw [← List.map_append]
    exact congrArg (List.map Object.origin) hdel

theorem free_takesOwn {s0 : State} {t t' : Traced} {a : Answer} {f : NVOS00Parameters} {x : Object} (hi : InStep t)
    (hf : a.freed = some f) (hx : x ∈ t.state.live) (hname : x.name = (f.hRoot, f.hObjectOld))
    (hgone : a.gone = fun y => y.root == f.hRoot && y.handle == f.hObjectOld) (hn : Newest t a)
    (h : (traced s0).step t a t') : InStep t' ∧ TakesOwn t t' f := by
  obtain ⟨hroot, hold⟩ := Prod.mk.inj hname
  -- the newest object of the handle is the one that is freed
  obtain ⟨y, hy⟩ := (first_isSome Object.handle).mpr ⟨x, hx, hold⟩
  have hyr : y.root = f.hRoot := hn.newest f hf y hy
  obtain ⟨-, hyh⟩ := first_mem _ hy
  have hdrop : dropFirst Object.handle f.hObjectOld t.state.live
      = t.state.live.filter fun y => !(y.root == f.hRoot && y.handle == f.hObjectOld) := by
    have hfine : ∀ b ∈ t.state.live, b.name = (f.hRoot, f.hObjectOld) → b.handle = f.hObjectOld := by
      intro b _ hb
      exact congrArg Prod.snd hb
    rw [dropFirst_congr _ hy (Prod.ext hyr hyh) hfine, dropFirst_eq_filter _ hi.distinct]
    exact List.filter_congr fun b _ => congrArg (! ·) (by simp [Object.name, beq_eq_decide])
  have hne : f.hObjectOld ≠ f.hRoot := by
    rw [← hroot, ← hold]
    exact hi.client x hx
  have heff : a.effect t.state.dev = .freeHeap f.hObjectOld := by
    rw [Answer.effect, effect_freed _ hf, if_neg hne, if_neg (Ne.symm (hn.parent f hf))]
  obtain ⟨before, after, hsplit, hrest, hscan⟩ := scan_origins hy
  have hrec : first DeviceMem.object f.hObjectOld t.state.dev.heapMemList = some y.record := by
    rw [hi.heap, first, List.find?_map]
    exact congrArg (Option.map Object.record) hy
  have hheap : dropFirst DeviceMem.object f.hObjectOld t.state.dev.heapMemList
      = (dropFirst Object.handle f.hObjectOld t.state.live).map Object.record := by
    rw [hi.heap, dropFirst, List.eraseP_map]
    rfl
  have ht' := traced_step hi.unlocked h
  rw [heff, objects_freed hf, hgone, ← hdrop] at ht'
  simp only [Effect.apply, Effect.mark, freeHeapPage_recorded hrec, hheap, hi.marked, hscan] at ht'
  subst ht'
  refine ⟨⟨hi.unlocked, ?_, ?_, hrest, rfl⟩, before, y.origin, after, y, hi.marked.trans hsplit, rfl, hyr, hyh,
    ?_, rfl, rfl⟩
  · exact hi.distinct.sublist (List.eraseP_sublist.map _)
  · exact fun z hz => hi.client z (mem_of_mem_dropFirst _ hz)
  · rw [hrest, List.map_map]
    rfl

theorem inStep {d0 : DeviceProp} {t : Traced} (hm : d0.mu = false) (hh : d0.heapMemList = [])
    (h : ((traced ⟨d0, []⟩).restrict fun t a => Serves t a ∧ Newest t a).Reach t) : InStep t := by
  refine System.Reach.inv (I := InStep) ?_ ?_ h
  · intro t ht
    rw [show t = ⟨⟨d0, []⟩, [], []⟩ from ht]
    exact ⟨hm, List.nodup_nil, fun x hx => absurd hx List.not_mem_nil, rfl, hh⟩
  · intro t a t' hi hstep
    obtain ⟨⟨hserves, hn⟩, hs⟩ := hstep
    rcases hserves with ⟨o, hcmd, hc, hroot, hfresh⟩ | ⟨f, x, hf, hx, hname, hgone⟩
    · exact alloc_inStep hi hcmd hc hroot hfresh hn hs
    · exact (free_takesOwn hi hf hx hname hgone hn hs).1

/-- Every free takes a record of the freeing client. -/
theorem client_isolation {d0 : DeviceProp} {t t' : Traced} {a : Answer} {f : NVOS00Parameters}
    (hm : d0.mu = false) (hh : d0.heapMemList = [])
    (h : ((traced ⟨d0, []⟩).restrict fun t a => Serves t a ∧ Newest t a).Reach t)
    (hs : ((traced ⟨d0, []⟩).restrict fun t a => Serves t a ∧ Newest t a).step t a t') (hf : a.freed = some f) :
    TakesOwn t t' f := by
  obtain ⟨⟨hserves, hn⟩, hstep⟩ := hs
  rcases hserves with ⟨o, -, hc, -⟩ | ⟨f', x, hf', hx, hname, hgone⟩
  · have hnone : a.created = none := created_of_freed hf
    rw [hc] at hnone
    cases hnone
  · rw [hf] at hf'
    cases hf'
    exact (free_takesOwn (inStep hm hh h) hf hx hname hgone hn hstep).2

/-! ## The clients 1 and 3 -/

def clientAlloc (root parent handle : UInt32) (size alignment : UInt64) : Answer :=
  .grant nvEscRmVidHeapControl (.allocSize root parent handle size alignment) fun _ => false

def clientFree (root parent handle : UInt32) : Answer :=
  .grant nvEscRmFree (.rmFree root parent handle) fun y => y.root == root && y.handle == handle

theorem TakesOwn.share {t t' : Traced} {f : NVOS00Parameters} (h : TakesOwn t t' f) :
    ∃ r ∈ t.marked.heap, r.maker.map Object.root = some f.hRoot ∧
      t'.state.dev.fbInfo.freeMem = t.state.dev.fbInfo.freeMem + r.record.size := by
  obtain ⟨before, r, after, x, hsplit, hmaker, hroot, -, -, hfree, -⟩ := h
  exact ⟨r, by simp [hsplit], by simp [hmaker, hroot], hfree⟩

theorem client_isolation_run : ∃ t t' : Traced, t.state.live.map Object.root = [3, 1] ∧
    TakesOwn t t' ⟨3, 2, 7, .ok⟩ := by
  let ok : Traced → Answer → Prop := fun t a => Serves t a ∧ Newest t a
  have h : ((traced ⟨firstProcess, []⟩).restrict ok).Reach ⟨⟨firstProcess, []⟩, [], []⟩ := .init rfl
  have h := h.step (traced_of_post (a := clientAlloc 1 2 7 10 1)
    ⟨Or.inl ⟨_, rfl, rfl, by decide, by decide⟩, by decide⟩ rfl)
  have h := h.step (traced_of_post (a := clientAlloc 3 2 7 20 1)
    ⟨Or.inl ⟨_, rfl, rfl, by decide, by decide⟩, by decide⟩ rfl)
  exact ⟨_, _, by decide, client_isolation rfl rfl h (traced_of_post (a := clientFree 3 2 7)
    ⟨Or.inr ⟨_, ⟨3, 2, 7, .memory 20 1⟩, rfl, by decide, rfl, rfl⟩, by decide⟩ rfl) rfl⟩

/-- Client 1 frees its own 10 bytes: with 20 bytes of client 3 under the same handle;
    with alignment 0, next to 20 bytes of client 3; and where they hang under the client
    itself. -/
theorem clients_mix :
    ∃ t1 t1' t2 t2' t3 t3' : Traced,
      ((traced ⟨firstProcess, []⟩).restrict Serves).Reach t1 ∧
        ((traced ⟨firstProcess, []⟩).restrict Serves).step t1 (clientFree 1 2 7) t1' ∧
        ¬ TakesOwn t1 t1' ⟨1, 2, 7, .ok⟩ ∧
      ((traced ⟨firstProcess, []⟩).restrict Serves).Reach t2 ∧
        ((traced ⟨firstProcess, []⟩).restrict Serves).step t2 (clientFree 1 2 7) t2' ∧
        ¬ TakesOwn t2 t2' ⟨1, 2, 7, .ok⟩ ∧
      ((traced ⟨firstProcess, []⟩).restrict Serves).Reach t3 ∧
        ((traced ⟨firstProcess, []⟩).restrict Serves).step t3 (clientFree 1 1 7) t3' ∧
        ¬ TakesOwn t3 t3' ⟨1, 1, 7, .ok⟩ := by
  have h0 : ((traced ⟨firstProcess, []⟩).restrict Serves).Reach ⟨⟨firstProcess, []⟩, [], []⟩ := .init rfl
  have h := h0.step (traced_of_post (a := clientAlloc 1 2 7 10 1) (Or.inl ⟨_, rfl, rfl, by decide, by decide⟩) rfl)
  have h1 := h.step (traced_of_post (a := clientAlloc 3 2 7 20 1) (Or.inl ⟨_, rfl, rfl, by decide, by decide⟩) rfl)
  have h3 := h0.step (traced_of_post (a := clientAlloc 1 1 7 10 1) (Or.inl ⟨_, rfl, rfl, by decide, by decide⟩) rfl)
  have h2 := h0.step (traced_of_post (a := clientAlloc 1 2 7 10 0) (Or.inl ⟨_, rfl, rfl, by decide, by decide⟩) rfl)
  have h2 := h2.step (traced_of_post (a := clientAlloc 3 2 8 20 1) (Or.inl ⟨_, rfl, rfl, by decide, by decide⟩) rfl)
  refine ⟨_, _, _, _, _, _,
    h1, traced_of_post (Or.inr ⟨_, ⟨1, 2, 7, .memory 10 1⟩, rfl, by decide, rfl, rfl⟩) rfl, fun ht => ?_,
    h2, traced_of_post (Or.inr ⟨_, ⟨1, 2, 7, .memory 10 0⟩, rfl, by decide, rfl, rfl⟩) rfl, fun ht => ?_,
    h3, traced_of_post (Or.inr ⟨_, ⟨1, 1, 7, .memory 10 1⟩, rfl, by decide, rfl, rfl⟩) rfl, fun ht => ?_⟩
  · exact absurd ht.share (by decide)
  · exact absurd ht.share (by decide)
  · exact absurd ht.share (by decide)

end NvResourceController.Ioctl
