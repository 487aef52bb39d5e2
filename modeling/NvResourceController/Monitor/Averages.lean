/-
  NvResourceController.Monitor.Averages — the two averages of the shared attribute: the
  one `token_post` publishes (`src/ioctl_hook.c`) and the two `delta_change` reads
  (`src/server_monitor.c`).

  The writer stores at the index and then advances it, so the index is at the older of
  the two; the reader takes what is there for the present one.

  - `reads_swapped`: what is read as the present average is the one before the last, and
    the other way round.
  - `reads_agree_iff`: so the reader is right exactly where they are the same.
-/

import NvResourceController.Lib.Transition
import NvResourceController.Monitor.Container

namespace NvResourceController.Monitor

open Limiter

variable {F : Type}

def published (s : Client F) : Limiter.Event F → List Int32
  | .publish => [avgLaunch s.post.launchTimes]
  | _ => []

/-- Nobody else writes the averages. -/
def OneWriter (s : Client F) : Limiter.Event F → Prop
  | .shared attr =>
    attr.params.avgLaunchs = s.attr.params.avgLaunchs ∧ attr.params.launchIdx = s.attr.params.launchIdx
  | _ => True

def publisher (F : Type) : System (Client F × List Int32) (Limiter.Event F) :=
  ((client F).restrict OneWriter).recording published

/-- The index, both averages: what `delta_change` reads of an attribute nobody writes. -/
structure Reads (attr : TokenAttr) (cur last : Int32) : Prop where
  steps : ∀ limit util, ∃ idx, (deltaStep limit util attr .idx).2 = .delta util (.cur idx) ∧
    (deltaStep limit util attr (.cur idx)).2 = .delta util (.last idx cur) ∧
    (deltaStep limit util attr (.last idx cur)).2 = .delta util (.old cur last)

theorem reads_iff {attr : TokenAttr} {cur last : Int32} :
    Reads attr cur last ↔ cur = attr.params.avgLaunchs (attr.params.launchIdx % 2) ∧
      last = attr.params.avgLaunchs ((attr.params.launchIdx + 1) % 2) := by
  constructor
  · intro h
    obtain ⟨idx, h₁, h₂, h₃⟩ := h.steps 0 0
    cases h₁
    cases h₂
    cases h₃
    exact ⟨rfl, rfl⟩
  · intro h
    obtain ⟨rfl, rfl⟩ := h
    exact ⟨fun limit util => ⟨_, rfl, rfl, rfl⟩⟩

/-! ## Slots -/

/-- Where the average of the `n`th cycle goes. -/
def slot (n : ℕ) : Int32 := if n % 2 = 0 then 0 else 1

theorem slot_succ_ne (n : ℕ) : slot (n + 1) ≠ slot n := by
  unfold slot
  split_ifs
  · omega
  · decide
  · decide
  · omega

theorem slot_add_two (n : ℕ) : slot (n + 2) = slot n := by
  unfold slot
  rw [Nat.add_mod_right]

theorem slot_toInt (n : ℕ) : (slot n).toInt = (n % 2 : ℕ) := by
  rcases Nat.mod_two_eq_zero_or_one n with h | h <;> rw [slot, h] <;> rfl

theorem mod_two {x : Int32} {n : ℕ} (h : x.toInt = n) : x % 2 = slot n := by
  have htwo : (2 : Int32).toInt = 2 := rfl
  rw [← Int32.toInt_inj, Int32.toInt_mod, slot_toInt, h, htwo, Int.tmod_eq_emod_of_nonneg (by omega)]
  omega

theorem succ_mod_two {x : Int32} {n : ℕ} (h : x.toInt = n) : (x + 1) % 2 = slot (n + 1) := by
  have hlt := x.toInt_lt
  by_cases hlast : n + 1 < 2 ^ 31
  · refine mod_two ?_
    rw [Int32.toInt_add, h, Int32.toInt_one, Int.bmod_eq_of_le (by omega) (by omega)]
    omega
  · -- the sum wraps around to an even number
    have hx : x = Int32.ofInt (2 ^ 31 - 1) := by
      rw [← Int32.toInt_inj, Int32.toInt_ofInt_of_le (by omega) (by omega)]
      omega
    have hn : n = 2 ^ 31 - 1 := by omega
    rw [hx, hn]
    decide

/-! ## What the buffer holds -/

def Pc.behind : Pc → ℕ
  | .next => 1
  | _ => 0

/-- After some averages, by a process that found the index at `n`. -/
structure Buffered (n : ℕ) (s : Client F) (avgs : List Int32) : Prop where
  index : s.attr.params.launchIdx.toInt + (Pc.behind s.post.pc : ℤ) = (n + avgs.length : ℕ)
  read : s.post.pc = .publish → s.post.launchIdx = s.attr.params.launchIdx
  latest : ∀ before a, avgs = before ++ [a] → s.attr.params.avgLaunchs (slot (n + before.length)) = a
  previous : ∀ before a b, avgs = before ++ [a, b] → s.attr.params.avgLaunchs (slot (n + before.length)) = a

theorem Buffered.keep {n : ℕ} {s s' : Client F} {avgs : List Int32} (hi : Buffered n s avgs)
    (havg : s'.attr.params.avgLaunchs = s.attr.params.avgLaunchs)
    (hidx : s'.attr.params.launchIdx = s.attr.params.launchIdx) (hbehind : Pc.behind s'.post.pc = Pc.behind s.post.pc)
    (hread : s'.post.pc = .publish → s'.post.launchIdx = s.attr.params.launchIdx) :
    Buffered n s' (avgs ++ []) := by
  rw [List.append_nil]
  refine ⟨?_, ?_, ?_, ?_⟩
  · rw [hidx, hbehind]
    exact hi.index
  · rw [hidx]
    exact hread
  · rw [havg]
    exact hi.latest
  · rw [havg]
    exact hi.previous

theorem Buffered.publish {n : ℕ} {s : Client F} {avgs : List Int32} (hi : Buffered n s avgs)
    (hpc : s.post.pc = .publish) (avg : Int32) :
    Buffered n { s with
      post := { s.post with pc := .next }
      attr := { s.attr with params := { s.attr.params with
        avgLaunchs := Function.update s.attr.params.avgLaunchs (s.post.launchIdx % 2) avg } } } (avgs ++ [avg]) := by
  have hindex := hi.index
  rw [hpc] at hindex
  have hslot : s.post.launchIdx % 2 = slot (n + avgs.length) := by
    refine mod_two ?_
    rw [hi.read hpc, ← hindex]
    exact (add_zero _).symm
  refine ⟨?_, nofun, ?_, ?_⟩
  · rw [List.length_append, List.length_singleton]
    simp only [Pc.behind] at hindex ⊢
    omega
  · intro before a h
    obtain ⟨rfl, ha⟩ := List.append_inj' h rfl
    rw [← (List.cons.inj ha).1]
    simp only [hslot, Function.update_self]
  · intro before a b h
    have hsplit : avgs ++ [avg] = (before ++ [a]) ++ [b] := by rw [h, List.append_assoc]; rfl
    obtain ⟨rfl, -⟩ := List.append_inj' hsplit rfl
    have hne : slot (n + before.length) ≠ slot (n + (before ++ [a]).length) := by
      rw [List.length_append, List.length_singleton, ← Nat.add_assoc]
      exact (slot_succ_ne _).symm
    simp only [hslot, Function.update_of_ne hne]
    exact hi.latest before a rfl

theorem buffered_step {n : ℕ} {s s' : Client F} {avgs avgs' : List Int32} {e : Limiter.Event F}
    (hi : Buffered n s avgs) (h : (publisher F).step (s, avgs) e (s', avgs')) (hlt : n + avgs'.length < 2 ^ 31) :
    Buffered n s' avgs' := by
  obtain ⟨⟨hone, -, h⟩, hout⟩ := h
  simp only at hone h hout
  subst hout
  cases h with
  | load hpc =>
    refine hi.keep rfl rfl ?_ ?_
    · simp only [hpc]
      split <;> rfl
    · intro hpub
      simp only at hpub
      split at hpub <;> cases hpub
  | copyWait hpc => exact hi.keep rfl rfl (by rw [hpc]; rfl) nofun
  | copyAdd hpc => exact hi.keep rfl rfl (by rw [hpc]; rfl) nofun
  | clear hpc => exact hi.keep rfl rfl (by rw [hpc]; rfl) nofun
  | reset hpc => exact hi.keep rfl rfl (by rw [hpc]; rfl) nofun
  | sleep hpc => exact hi.keep rfl rfl (by rw [hpc]; rfl) nofun
  | post hpc _ => exact hi.keep rfl rfl rfl hi.read
  | posted hpc _ => exact hi.keep rfl rfl (by rw [hpc]; rfl) nofun
  | sample hpc => exact hi.keep rfl rfl (by rw [hpc]; rfl) nofun
  | index hpc => exact hi.keep rfl rfl (by rw [hpc]; rfl) fun _ => rfl
  | publish hpc => exact hi.publish hpc _
  | next hpc =>
    have hindex := hi.index
    rw [hpc] at hindex
    have hsame : avgs ++ published s .next = avgs := List.append_nil _
    rw [hsame] at hlt ⊢
    refine ⟨?_, nofun, hi.latest, hi.previous⟩
    simp only [Pc.behind] at hindex ⊢
    rw [Int32.toInt_add, Int32.toInt_one, Int.bmod_eq_of_le (by omega) (by omega)]
    omega
  | shared attr =>
    obtain ⟨havg, hidx⟩ := hone
    exact hi.keep havg hidx rfl hi.read
  | _ => exact hi.keep rfl rfl rfl hi.read

theorem record_grows {s s' : Client F} {avgs avgs' : List Int32} {es : List (Limiter.Event F)}
    (h : (publisher F).Run (s, avgs) es (s', avgs')) : avgs.length ≤ avgs'.length := by
  generalize hx : (s, avgs) = x at h
  generalize hy : (s', avgs') = y at h
  induction h generalizing s avgs with
  | nil =>
    cases hx
    cases hy
    exact le_refl _
  | @cons _ t _ _ _ hstep _ ih =>
    cases hx
    have hle := @ih t.1 t.2 rfl hy
    rw [hstep.2, List.length_append] at hle
    exact le_trans (Nat.le_add_right _ _) hle

theorem buffered_run {n : ℕ} {s s' : Client F} {avgs avgs' : List Int32} {es : List (Limiter.Event F)}
    (hi : Buffered n s avgs) (h : (publisher F).Run (s, avgs) es (s', avgs')) (hlt : n + avgs'.length < 2 ^ 31) :
    Buffered n s' avgs' := by
  generalize hx : (s, avgs) = x at h
  generalize hy : (s', avgs') = y at h
  induction h generalizing s avgs with
  | nil =>
    cases hx
    cases hy
    exact hi
  | @cons _ t _ _ _ hstep hrest ih =>
    cases hx
    cases hy
    have hle : t.2.length ≤ avgs'.length := record_grows hrest
    exact ih (buffered_step hi hstep (by omega)) rfl rfl

theorem Buffered.start {s : Client F} {n : ℕ} (h : s.Starts) (hn : s.attr.params.launchIdx.toInt = n) :
    Buffered n s [] := by
  have hpc := h.post.pc
  refine ⟨?_, ?_, ?_, ?_⟩
  · rw [hn, hpc]
    rfl
  · rw [hpc]
    nofun
  · intro before a h
    exact absurd h.symm (by simp)
  · intro before a b h
    exact absurd h.symm (by simp)

/-! ## What is read -/

section

variable {s0 s : Client F} {n : ℕ} {es : List (Limiter.Event F)} {before : List Int32} {previous latest : Int32}

/-- Between two publications `delta_change` takes the average before the last for the
    present one, and the present one for the last. -/
theorem reads_swapped (h0 : s0.Starts) (hn : s0.attr.params.launchIdx.toInt = n)
    (h : (publisher F).Run (s0, []) es (s, before ++ [previous, latest])) (hlt : n + (before.length + 2) < 2 ^ 31)
    (hpc : s.post.pc ≠ .next) (cur last : Int32) : Reads s.attr cur last ↔ cur = previous ∧ last = latest := by
  have hi := buffered_run (Buffered.start h0 hn) h (by simpa using hlt)
  have hindex := hi.index
  have hbehind : Pc.behind s.post.pc = 0 := by
    cases hp : s.post.pc with
    | next => exact absurd hp hpc
    | _ => rfl
  rw [hbehind, Int.natCast_zero, add_zero, List.length_append, List.length_cons, List.length_singleton,
    ← Nat.add_assoc] at hindex
  have hprevious := hi.previous before previous latest rfl
  have hlatest := hi.latest (before ++ [previous]) latest (by simp)
  rw [List.length_append, List.length_singleton, ← Nat.add_assoc] at hlatest
  rw [reads_iff, mod_two hindex, succ_mod_two hindex, slot_add_two, hprevious]
  rw [show n + before.length + 2 + 1 = n + before.length + 1 + 2 by omega, slot_add_two, hlatest]

/-- The present average is read as such exactly where it is the one before. -/
theorem reads_agree_iff (h0 : s0.Starts) (hn : s0.attr.params.launchIdx.toInt = n)
    (h : (publisher F).Run (s0, []) es (s, before ++ [previous, latest])) (hlt : n + (before.length + 2) < 2 ^ 31)
    (hpc : s.post.pc ≠ .next) : Reads s.attr latest previous ↔ previous = latest := by
  rw [reads_swapped h0 hn h hlt hpc]
  exact ⟨fun h => h.2, fun h => ⟨h.symm, h⟩⟩

end

/-! ### Two cycles -/

theorem publisher_snoc {s0 s s' : Client F} {avgs : List Int32} {es : List (Limiter.Event F)} {e : Limiter.Event F}
    (h : (publisher F).Run (s0, []) es (s, avgs)) (hstep : Limiter.Step s e s') (hone : OneWriter s e)
    (hrun : s.exited = false) : (publisher F).Run (s0, []) (es ++ [e]) (s', avgs ++ published s e) :=
  h.snoc ⟨⟨hone, hrun, hstep⟩, rfl⟩

def cycled : Client Unit :=
  { joined announcedAttr with
    tokens := 11
    attr := { announcedAttr with
      changed := 0
      params := { announcedAttr.params with
        avgLaunchs := Function.update announcedAttr.params.avgLaunchs 0 1
        launchIdx := 1 } }
    post := ⟨.load, ⟨0, 100000000⟩, 1, 1, 1, Function.update (fun _ => 0) 1 0, 0⟩ }

theorem cycled_run : ∃ es, (publisher Unit).Run (joined announcedAttr, []) es (cycled, [1]) := by
  have h : (publisher Unit).Run (joined announcedAttr, []) [] (joined announcedAttr, []) := .nil _
  have h := publisher_snoc h (.load _ rfl) trivial rfl
  have h := publisher_snoc h (.copyWait _ rfl) trivial rfl
  have h := publisher_snoc h (.copyAdd _ rfl) trivial rfl
  have h := publisher_snoc h (.clear _ rfl) trivial rfl
  have h := publisher_snoc h (.reset _ rfl) trivial rfl
  have h := publisher_snoc h (.sleep _ rfl) trivial rfl
  have h := publisher_snoc h (.post _ rfl (by decide)) trivial rfl
  have h := publisher_snoc h (.posted _ rfl (by decide)) trivial rfl
  have h := publisher_snoc h (.sample _ rfl) trivial rfl
  have h := publisher_snoc h (.index _ rfl) trivial rfl
  have h := publisher_snoc h (.publish _ rfl) trivial rfl
  have h := publisher_snoc h (.next _ rfl) trivial rfl
  exact ⟨_, h⟩

theorem reads_agree_iff_run : ∃ es, ∃ s : Client Unit,
    (publisher Unit).Run (joined announcedAttr, []) es (s, [] ++ [1, 1]) ∧ Reads s.attr 1 1 := by
  obtain ⟨es, h⟩ := cycled_run
  have h := publisher_snoc h (.load _ rfl) trivial rfl
  have h := publisher_snoc h (.reset _ rfl) trivial rfl
  have h := publisher_snoc h (.sleep _ rfl) trivial rfl
  have h := publisher_snoc h (.post _ rfl (by decide)) trivial rfl
  have h := publisher_snoc h (.posted _ rfl (by decide)) trivial rfl
  have h := publisher_snoc h (.sample _ rfl) trivial rfl
  have h := publisher_snoc h (.index _ rfl) trivial rfl
  have h := publisher_snoc h (.publish _ rfl) trivial rfl
  have h := publisher_snoc h (.next _ rfl) trivial rfl
  exact ⟨_, _, h, (@reads_agree_iff _ _ _ _ _ [] 1 1 (joined_starts rfl) rfl h (by decide) nofun).mpr rfl⟩

/-- In a second cycle with four launches the average is 2; `delta_change` takes the 1 for
    it. -/
theorem reads_the_older : ∃ es, ∃ s : Client Unit, (joined announcedAttr).Starts ∧
    (publisher Unit).Run (joined announcedAttr, []) es (s, [1, 2]) ∧ s.post.pc = .load ∧ Reads s.attr 1 2 ∧
    ¬ Reads s.attr 2 1 := by
  obtain ⟨es, h⟩ := cycled_run
  have h := publisher_snoc h (.load _ rfl) trivial rfl
  have h := publisher_snoc h (.reset _ rfl) trivial rfl
  have h := publisher_snoc h (.sleep _ rfl) trivial rfl
  have h := publisher_snoc h (.enter _ 0 ⟨.cuLaunchKernel, rfl⟩ rfl) trivial rfl
  have h := publisher_snoc h (.wait _ 0 ⟨.cuLaunchKernel, rfl⟩ rfl (by decide)) trivial rfl
  have h := publisher_snoc h (.count _ 0 ⟨.cuLaunchKernel, rfl⟩ 0 rfl) trivial rfl
  have h := publisher_snoc h (.enter _ 1 ⟨.cuLaunchKernel, rfl⟩ rfl) trivial rfl
  have h := publisher_snoc h (.wait _ 1 ⟨.cuLaunchKernel, rfl⟩ rfl (by decide)) trivial rfl
  have h := publisher_snoc h (.count _ 1 ⟨.cuLaunchKernel, rfl⟩ 0 rfl) trivial rfl
  have h := publisher_snoc h (.enter _ 2 ⟨.cuLaunchKernel, rfl⟩ rfl) trivial rfl
  have h := publisher_snoc h (.wait _ 2 ⟨.cuLaunchKernel, rfl⟩ rfl (by decide)) trivial rfl
  have h := publisher_snoc h (.count _ 2 ⟨.cuLaunchKernel, rfl⟩ 0 rfl) trivial rfl
  have h := publisher_snoc h (.enter _ 3 ⟨.cuLaunchKernel, rfl⟩ rfl) trivial rfl
  have h := publisher_snoc h (.wait _ 3 ⟨.cuLaunchKernel, rfl⟩ rfl (by decide)) trivial rfl
  have h := publisher_snoc h (.count _ 3 ⟨.cuLaunchKernel, rfl⟩ 0 rfl) trivial rfl
  have h := publisher_snoc h (.post _ rfl (by decide)) trivial rfl
  have h := publisher_snoc h (.posted _ rfl (by decide)) trivial rfl
  have h := publisher_snoc h (.sample _ rfl) trivial rfl
  have h := publisher_snoc h (.index _ rfl) trivial rfl
  have h := publisher_snoc h (.publish _ rfl) trivial rfl
  have h := publisher_snoc h (.next _ rfl) trivial rfl
  have hstart : (joined announcedAttr).Starts := joined_starts rfl
  have hread := @reads_swapped _ _ _ _ _ [] 1 2 hstart rfl h (by decide) nofun
  exact ⟨_, _, hstart, h, rfl, (hread 1 2).mpr ⟨rfl, rfl⟩, fun hr => absurd ((hread 2 1).mp hr).1 (by decide)⟩

end NvResourceController.Monitor
