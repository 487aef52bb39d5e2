/-
  NvResourceController.Ioctl.Processes — the processes of one device: each has records
  of its own, all share the ledger, and a starting process sets the ledger up anew when
  it finds the process recorded there gone.

  An exit touches nothing of this: the charges of the dead stay in the ledger until a
  start sets it up, and setting it up forgets the charges of the living. `left` and
  `forgot` count these bytes.

  - `ledger_after_start`: with them the ledger adds up after every start, and at every
    moment from the first start on (`accounted`).
  - Without them it does not (`start_forgets_or_keeps`): a start forgets what a live
    process holds when the recorded one is gone, and keeps what a dead process held
    while the recorded one lives.
-/

import NvResourceController.Ioctl.Ledger

namespace NvResourceController.Ioctl

open System

/-! ## The machine -/

/-- The segment the processes of a device share, and what each has for itself; the
    `fbInfo` of a process is where its pointer leads, so always the segment.
    `left`: what the processes had on record that exited since the ledger was last set
    up. `forgot`: what live processes had on record when it was. -/
structure Machine where
  fb : FbInfo
  procs : List (Int32 × DeviceProp)
  left : ℕ
  forgot : ℕ
  deriving DecidableEq, Repr

inductive Event where
  | start (pid : Int32)
  | call (pid : Int32) (c : Call)
  | exit (pid : Int32)

def Machine.alive (m : Machine) : List Int32 := m.procs.map Prod.fst

def Machine.held (m : Machine) : ℕ := (m.procs.map fun p => p.2.booked).sum

def Machine.Idle (m : Machine) : Prop := m.fb.pid = 0 ∧ m.procs = []

/-- The process recorded in the ledger is alive, or has the number of the one that
    starts. -/
def Machine.Owned (m : Machine) (pid : Int32) : Prop := m.fb.pid ≠ 0 ∧ m.fb.pid ∈ pid :: m.alive

instance (m : Machine) (pid : Int32) : Decidable (m.Owned pid) := inferInstanceAs (Decidable (_ ∧ _))

/-- `/proc/<pid>` is there for as long as the process is. -/
def lstatOf (alive : List Int32) (pid : Int32) : Lstat := if pid ∈ alive then .found else .failed enoent

/-- Processes that start with the limit `total`, call and exit, on a segment that is
    fresh at first. -/
def machine (minor : UInt32) (total : UInt64) : System Machine Event where
  init := Machine.Idle
  step m
    | .start pid, m' => pid ∉ m.alive ∧ ∃ dev,
        initMemLimit (some (minor, total)) (fun id => if id = minor then some m.fb else none)
          (lstatOf (pid :: m.alive)) pid gpuDevice = some dev ∧
        m' = ⟨dev.fbInfo, (pid, dev) :: m.procs, if m.Owned pid then m.left else 0,
          if m.Owned pid then m.forgot else m.held⟩
    | .call pid c, m' => ∃ before dev after o, m.procs = before ++ (pid, dev) :: after ∧
        ioctl c { dev with fbInfo := m.fb } = some o ∧
        m' = { m with fb := o.dev.fbInfo, procs := before ++ (pid, o.dev) :: after }
    | .exit pid, m' => ∃ before dev after, m.procs = before ++ (pid, dev) :: after ∧
        m' = { m with procs := before ++ after, left := m.left + dev.booked }

/-- The kernel leaves the request for what it grants as it was, and the request is not
    near the top of a word. -/
def Event.Echoed : Event → Prop
  | .call _ c => ∀ o ∈ created c.cmd.toUInt32 c.reply.2,
      memRequest c.cmd.toUInt32 c.reply.2 = memRequest c.cmd.toUInt32 c.args ∧
        o.size.toNat + o.alignment.toNat - 1 < 2 ^ 64
  | _ => True

/-! ## What a call moves -/

/-- An effect moves bytes between the free memory and the records: none, those of a
    charge, or those of a record it drops. -/
theorem apply_moves (malloc : Bool) (dev : DeviceProp) (e : Effect) :
    ((e.apply malloc dev).fbInfo.freeMem = dev.fbInfo.freeMem ∧ (e.apply malloc dev).booked = dev.booked) ∨
      (∃ entry, e = .charge entry ∧ (e.apply malloc dev).fbInfo.freeMem = dev.fbInfo.freeMem - entry.size ∧
        (e.apply malloc dev).booked = entry.size.toNat + dev.booked) ∨
      (∃ size, (e.apply malloc dev).fbInfo.freeMem = dev.fbInfo.freeMem + size ∧
        dev.booked = size.toNat + (e.apply malloc dev).booked) := by
  cases e with
  | none => exact Or.inl ⟨rfl, rfl⟩
  | charge entry =>
    cases malloc with
    | true => exact Or.inr (Or.inl ⟨entry, rfl, rfl, booked_charge dev entry⟩)
    | false => exact Or.inl ⟨rfl, rfl⟩
  | note entry => cases malloc <;> exact Or.inl ⟨rfl, rfl⟩
  | freeHeap page =>
    obtain ⟨size, -, hfree, -, hbooked⟩ := freeHeapPage_sums page dev
    exact Or.inr (Or.inr ⟨size, hfree, hbooked⟩)
  | freeDevice page => exact Or.inl ⟨by simp [Effect.apply], by simp [Effect.apply, DeviceProp.booked]⟩

theorem charge_fits {c : Call} {pid : Int32} {dev : DeviceProp} {minor : UInt32} {rm : List RmMem} {entry : DeviceMem}
    (he : (Event.call pid c).Echoed) (hfit : ¬ Rejects c.cmd.toUInt32 c.args dev)
    (h : effect minor c.cmd.toUInt32 c.reply.2 rm = .charge entry) :
    entry.size.toNat ≤ dev.fbInfo.freeMem.toNat := by
  obtain ⟨o, hc, hk, ha⟩ := created_of_charge h
  obtain ⟨hsame, hsmall⟩ := he o hc
  have hsize : o.size = entry.size := by simp [Object.size, hk]
  have hreq : memRequest c.cmd.toUInt32 c.args = some (entry.size, o.alignment) := by
    rw [← hsame]
    exact memRequest_memory hc hk
  exact fits_of_not_rejects hfit hreq ha (by rw [← hsize]; exact hsmall)

/-! ## The steps -/

theorem held_append (before after : List (Int32 × DeviceProp)) (pid : Int32) (dev : DeviceProp) :
    ((before ++ (pid, dev) :: after).map fun p => p.2.booked).sum
      = dev.booked + ((before ++ after).map fun p => p.2.booked).sum := by
  simp only [List.map_append, List.map_cons, List.sum_append, List.sum_cons]
  omega

theorem start_step {minor : UInt32} {total : UInt64} {m m' : Machine} {pid : Int32}
    (h : (machine minor total).step m (.start pid) m') :
    m'.held = m.held ∧ ((m.Owned pid ∧ m'.fb = m.fb ∧ m'.left = m.left ∧ m'.forgot = m.forgot) ∨
      (m'.fb = ⟨pid, total, total⟩ ∧ m'.left = 0 ∧ m'.forgot = m.held)) := by
  obtain ⟨-, dev, hdev, rfl⟩ := h
  simp only [initMemLimit, if_true, Option.map_some, Option.some.injEq] at hdev
  subst hdev
  refine ⟨by simp [Machine.held, DeviceProp.booked], ?_⟩
  by_cases ho : m.Owned pid
  · refine Or.inl ⟨ho, ?_, if_pos ho, if_pos ho⟩
    simp [initFbInfo, lstatOf, ho.1, ho.2]
  · refine Or.inr ⟨?_, if_neg ho, if_neg ho⟩
    refine initFbInfo_fresh ?_
    by_cases h0 : m.fb.pid = 0
    · exact Or.inl h0
    · refine Or.inr (if_neg ?_)
      intro hmem
      exact ho ⟨h0, hmem⟩

theorem call_step {minor : UInt32} {total : UInt64} {m m' : Machine} {pid : Int32} {c : Call}
    (h : (machine minor total).step m (.call pid c) m') :
    m.procs ≠ [] ∧ m'.fb.totalMem = m.fb.totalMem ∧ m'.left = m.left ∧ m'.forgot = m.forgot ∧
      ((m'.fb.freeMem = m.fb.freeMem ∧ m'.held = m.held) ∨
        (∃ size, ((Event.call pid c).Echoed → size.toNat ≤ m.fb.freeMem.toNat) ∧
          m'.fb.freeMem = m.fb.freeMem - size ∧ m'.held = size.toNat + m.held) ∨
        (∃ size, m'.fb.freeMem = m.fb.freeMem + size ∧ m.held = size.toNat + m'.held)) := by
  obtain ⟨before, dev, after, o, hprocs, ho, rfl⟩ := h
  refine ⟨by simp [hprocs], ?_⟩
  simp only [Machine.held, hprocs, held_append]
  rcases ioctl_effect ho with e | ⟨hm, hfit, minor, e⟩
  · rw [e]
    exact ⟨rfl, trivial, trivial, Or.inl ⟨rfl, rfl⟩⟩
  · rw [e]
    refine ⟨apply_total _ _ _, trivial, trivial, ?_⟩
    rcases apply_moves c.malloc { dev with fbInfo := m.fb } (effect minor c.cmd.toUInt32 c.reply.2 dev.rmMemList) with
      ⟨hf, hb⟩ | ⟨entry, hc, hf, hb⟩ | ⟨size, hf, hb⟩
    · exact Or.inl ⟨hf, by rw [hb]; rfl⟩
    · refine Or.inr (Or.inl ⟨entry.size, fun he => charge_fits he hfit hc, hf, ?_⟩)
      rw [hb, Nat.add_assoc]
      rfl
    · refine Or.inr (Or.inr ⟨size, hf, ?_⟩)
      rw [← Nat.add_assoc, ← hb]
      rfl

theorem exit_step {minor : UInt32} {total : UInt64} {m m' : Machine} {pid : Int32}
    (h : (machine minor total).step m (.exit pid) m') :
    m.procs ≠ [] ∧ m'.fb = m.fb ∧ m'.forgot = m.forgot ∧ m'.held + m'.left = m.held + m.left := by
  obtain ⟨before, dev, after, hprocs, rfl⟩ := h
  refine ⟨by simp [hprocs], rfl, rfl, ?_⟩
  simp only [Machine.held, hprocs, held_append]
  omega

/-! ## The books -/

/-- The ledger adds up, in a `size_t`. -/
structure Accounted (total : UInt64) (m : Machine) : Prop where
  limit : m.fb.totalMem = total
  sum : (m.fb.freeMem.toNat + m.held + m.left) % 2 ^ 64 = (total.toNat + m.forgot) % 2 ^ 64

/-- The ledger adds up. -/
def Exact (total : UInt64) (m : Machine) : Prop :=
  total.toNat + m.forgot < 2 ^ 64 → m.fb.freeMem.toNat + m.held + m.left = total.toNat + m.forgot

theorem not_owned {m : Machine} {pid : Int32} (h : m.Idle) : ¬ m.Owned pid := fun ho => ho.1 h.1

theorem accounted_start {minor : UInt32} {total : UInt64} {m m' : Machine} {pid : Int32}
    (hi : m.Idle ∨ Accounted total m) (h : (machine minor total).step m (.start pid) m') : Accounted total m' := by
  obtain ⟨hheld, ⟨ho, hfb, hleft, hforgot⟩ | ⟨hfb, hleft, hforgot⟩⟩ := start_step h
  · have hacc := hi.resolve_left fun hidle => not_owned hidle ho
    exact ⟨by rw [hfb]; exact hacc.limit, by rw [hfb, hheld, hleft, hforgot]; exact hacc.sum⟩
  · refine ⟨by rw [hfb], ?_⟩
    rw [hfb, hheld, hleft, hforgot]
    rfl

theorem accounted {minor : UInt32} {total : UInt64} {m : Machine} (h : (machine minor total).Reach m) :
    m.Idle ∨ Accounted total m := by
  refine Reach.inv (I := fun m => m.Idle ∨ Accounted total m) (fun m hm => Or.inl hm) ?_ h
  intro m e m' hi hs
  cases e with
  | start pid => exact Or.inr (accounted_start hi hs)
  | call pid c =>
    obtain ⟨hne, htotal, hleft, hforgot, hmoves⟩ := call_step hs
    obtain ⟨htot, hsum⟩ := hi.resolve_left fun hidle => hne hidle.2
    refine Or.inr ⟨htotal.trans htot, ?_⟩
    rw [hleft, hforgot]
    rcases hmoves with ⟨hf, hh⟩ | ⟨size, -, hf, hh⟩ | ⟨size, hf, hh⟩
    · rw [hf, hh]
      exact hsum
    · have hlt := size.toNat_lt
      rw [hf, hh, UInt64.toNat_sub]
      omega
    · rw [hh] at hsum
      rw [hf, UInt64.toNat_add]
      omega
  | exit pid =>
    obtain ⟨hne, hfb, hforgot, hsame⟩ := exit_step hs
    obtain ⟨htot, hsum⟩ := hi.resolve_left fun hidle => hne hidle.2
    refine Or.inr ⟨by rw [hfb]; exact htot, ?_⟩
    rw [hfb, hforgot, Nat.add_assoc, hsame, ← Nat.add_assoc]
    exact hsum

theorem exact_start {minor : UInt32} {total : UInt64} {m m' : Machine} {pid : Int32} (hi : m.Idle ∨ Exact total m)
    (h : (machine minor total).step m (.start pid) m') : Exact total m' := by
  intro hlt
  obtain ⟨hheld, ⟨ho, hfb, hleft, hforgot⟩ | ⟨hfb, hleft, hforgot⟩⟩ := start_step h
  · have hex := hi.resolve_left fun hidle => not_owned hidle ho
    rw [hforgot] at hlt ⊢
    rw [hfb, hheld, hleft]
    exact hex hlt
  · rw [hfb, hheld, hleft, hforgot]
    rfl

/-- Where calls are echoed no debit wraps, and no credit as long as what is accounted
    for fits a word. -/
theorem exact_books {minor : UInt32} {total : UInt64} {m : Machine}
    (h : ((machine minor total).restrict fun _ e => e.Echoed).Reach m) : m.Idle ∨ Exact total m := by
  refine Reach.inv (I := fun m => m.Idle ∨ Exact total m) (fun m hm => Or.inl hm) ?_ h
  intro m e m' hi hs
  obtain ⟨he, hs⟩ := hs
  cases e with
  | start pid => exact Or.inr (exact_start hi hs)
  | call pid c =>
    obtain ⟨hne, -, hleft, hforgot, hmoves⟩ := call_step hs
    have hex := hi.resolve_left fun hidle => hne hidle.2
    refine Or.inr ?_
    intro hlt
    rw [hforgot] at hlt ⊢
    have hsum := hex hlt
    rw [hleft]
    rcases hmoves with ⟨hf, hh⟩ | ⟨size, hfit, hf, hh⟩ | ⟨size, hf, hh⟩
    · rw [hf, hh]
      exact hsum
    · have hle := hfit he
      rw [hf, hh, UInt64.toNat_sub_of_le _ _ (UInt64.le_iff_toNat_le.mpr hle)]
      omega
    · rw [hf, UInt64.toNat_add, Nat.mod_eq_of_lt (by omega)]
      omega
  | exit pid =>
    obtain ⟨hne, hfb, hforgot, hsame⟩ := exit_step hs
    have hex := hi.resolve_left fun hidle => hne hidle.2
    refine Or.inr ?_
    intro hlt
    rw [hforgot] at hlt ⊢
    have hsum := hex hlt
    rw [hfb]
    omega

/-- After every start, what is free, what the live have on record and what the dead left
    since the ledger was last set up make the limit and what was forgotten then; in a
    `size_t` always, and as numbers where the kernel does not change the requests. -/
theorem ledger_after_start {minor : UInt32} {total : UInt64} {m m' : Machine} {pid : Int32}
    (h : (machine minor total).Reach m) (hs : (machine minor total).step m (.start pid) m') :
    m'.fb.totalMem = total ∧
      (m'.fb.freeMem.toNat + m'.held + m'.left) % 2 ^ 64 = (total.toNat + m'.forgot) % 2 ^ 64 ∧
      (((machine minor total).restrict fun _ e => e.Echoed).Reach m → total.toNat + m'.forgot < 2 ^ 64 →
        m'.fb.freeMem.toNat + m'.held + m'.left = total.toNat + m'.forgot) := by
  obtain ⟨htotal, hsum⟩ := accounted_start (accounted h) hs
  exact ⟨htotal, hsum, fun hr hlt => exact_start (exact_books hr) hs hlt⟩

/-! ## Runs of three processes under a limit of 100 -/

def tenBytes : Call := .grant nvEscRmVidHeapControl (.allocSize 1 2 7 10 1)

/-- A process that has just started on a ledger it finds or leaves like this. -/
def started (fb : FbInfo) : DeviceProp := ⟨false, 0, fb, 0, true, [], []⟩

def noProcess : Machine := ⟨⟨0, 0, 0⟩, [], 0, 0⟩

def twoProcesses : Machine :=
  ⟨⟨1, 100, 90⟩, [(2, (started ⟨1, 100, 100⟩).charge ⟨7, 10⟩), (1, started ⟨1, 100, 100⟩)], 0, 0⟩

theorem twoProcesses_reached : ((machine 0 100).restrict fun _ e => e.Echoed).Reach twoProcesses := by
  have h0 : ((machine 0 100).restrict fun _ e => e.Echoed).Reach noProcess := .init ⟨rfl, rfl⟩
  have h1 : ((machine 0 100).restrict fun _ e => e.Echoed).Reach
      ⟨⟨1, 100, 100⟩, [(1, started ⟨1, 100, 100⟩)], 0, 0⟩ :=
    .step (e := Event.start 1) h0 ⟨trivial, by decide, started ⟨1, 100, 100⟩, rfl, rfl⟩
  have h2 : ((machine 0 100).restrict fun _ e => e.Echoed).Reach
      ⟨⟨1, 100, 100⟩, [(2, started ⟨1, 100, 100⟩), (1, started ⟨1, 100, 100⟩)], 0, 0⟩ :=
    .step (e := Event.start 2) h1 ⟨trivial, by decide, started ⟨1, 100, 100⟩, rfl, rfl⟩
  refine .step (e := Event.call 2 tenBytes) h2 ⟨?_, [], _, [(1, started ⟨1, 100, 100⟩)], _, rfl, rfl, rfl⟩
  show ∀ o ∈ created tenBytes.cmd.toUInt32 tenBytes.reply.2, _
  decide

/-- The owner exits and process 3 sets the ledger up: all is free, 10 bytes are held. -/
theorem ledger_after_start_run :
    ∃ m : Machine, m.fb.totalMem = 100 ∧ m.held = 10 ∧ m.forgot = 10 ∧
      m.fb.freeMem.toNat + m.held + m.left = (100 : UInt64).toNat + m.forgot := by
  have h : ((machine 0 100).restrict fun _ e => e.Echoed).Reach
      ⟨⟨1, 100, 90⟩, [(2, (started ⟨1, 100, 100⟩).charge ⟨7, 10⟩)], 0, 0⟩ :=
    .step (e := Event.exit 1) twoProcesses_reached ⟨trivial, [_], _, [], rfl, rfl⟩
  have hs : (machine 0 100).step ⟨⟨1, 100, 90⟩, [(2, (started ⟨1, 100, 100⟩).charge ⟨7, 10⟩)], 0, 0⟩ (.start 3)
      ⟨⟨3, 100, 100⟩, [(3, started ⟨3, 100, 100⟩), (2, (started ⟨1, 100, 100⟩).charge ⟨7, 10⟩)], 0, 10⟩ :=
    ⟨by decide, _, rfl, by decide⟩
  obtain ⟨htotal, -, hexact⟩ := ledger_after_start h.of_restrict hs
  exact ⟨_, htotal, by decide, rfl, hexact h (by decide)⟩

/-- Process 2 holds 10 bytes of 100. When process 1 exits, the start of process 3 makes
    all 100 free; when process 2 exits, it finds 90 free and nothing held. -/
theorem start_forgets_or_keeps :
    ∃ m1 m1' m2 m2', (machine 0 100).Reach m1 ∧ (machine 0 100).step m1 (.start 3) m1' ∧
        m1'.fb.freeMem.toNat + m1'.held = 110 ∧ m1'.fb.totalMem = 100 ∧
      (machine 0 100).Reach m2 ∧ (machine 0 100).step m2 (.start 3) m2' ∧
        m2'.fb.freeMem.toNat + m2'.held = 90 ∧ m2'.fb.totalMem = 100 := by
  have h := twoProcesses_reached.of_restrict
  have h1 : (machine 0 100).Reach ⟨⟨1, 100, 90⟩, [(2, (started ⟨1, 100, 100⟩).charge ⟨7, 10⟩)], 0, 0⟩ :=
    .step (e := Event.exit 1) h ⟨[_], _, [], rfl, rfl⟩
  have h2 : (machine 0 100).Reach ⟨⟨1, 100, 90⟩, [(1, started ⟨1, 100, 100⟩)], 10, 0⟩ :=
    .step (e := Event.exit 2) h ⟨[], _, [_], rfl, rfl⟩
  exact ⟨_, ⟨⟨3, 100, 100⟩, [(3, started ⟨3, 100, 100⟩), (2, (started ⟨1, 100, 100⟩).charge ⟨7, 10⟩)], 0, 10⟩,
    _, ⟨⟨1, 100, 90⟩, [(3, started ⟨1, 100, 90⟩), (1, started ⟨1, 100, 100⟩)], 10, 0⟩,
    h1, ⟨by decide, _, rfl, by decide⟩, by decide, rfl,
    h2, ⟨by decide, _, rfl, by decide⟩, by decide, rfl⟩

end NvResourceController.Ioctl
