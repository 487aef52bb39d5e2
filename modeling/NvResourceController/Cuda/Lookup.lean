/-
  NvResourceController.Cuda.Lookup — an application that looks functions up through the
  hooks, in any order and through any chain of lookups, and calls what it was given.

  The state keeps, beside the table, what every successful lookup resolved to and what
  the application got for it, newest first.
  - `step_cases`: an event makes no answer, or one, and writes what that answer says.
  - `inv`: an entry is a register its lookups write: `dlsym` overwrites it,
    `cuGetProcAddress` fills it in.
-/

import NvResourceController.Lib.Register
import NvResourceController.Lib.Transition
import NvResourceController.Cuda.Entry

namespace NvResourceController.Cuda

variable {F : Type}

/-! ## The application -/

/-- How a lookup got to the function that resolved it. -/
inductive Route where
  /-- The hooked `dlsym`, with an ordinary handle. -/
  | dlsym
  /-- The hooked `dlsym`, with `RTLD_NEXT`. -/
  | next
  /-- A hooked `cuGetProcAddress`. -/
  | proc
  /-- A `cuGetProcAddress` called directly. -/
  | direct
  deriving DecidableEq, Repr

/-- A successful lookup. -/
structure Answer (F : Type) where
  symbol : String
  route : Route
  /-- What the linker or the driver answered. -/
  resolved : Option F
  /-- What the application got. -/
  given : Option (Ptr F)
  /-- No `RTLD_NEXT` was used on the way. -/
  ordinary : Bool
  deriving DecidableEq, Repr

/-- A launch that reached a real function, through the pointer of a lookup, with what
    `rate_limit` returned. -/
structure Launch (F : Type) where
  via : Answer F
  ret : Int32
  real : F
  deriving DecidableEq, Repr

structure App (F : Type) where
  table : Table F
  answers : List (Answer F)
  launches : List (Launch F)
  /-- A `BUG_ON` ended the process. -/
  bug : Bool

inductive Event (F : Type) where
  | dlsym (linker : Linker F) (returnAddr handle : UInt64) (symbol : String)
  /-- A call of a `cuGetProcAddress` that an earlier lookup gave. -/
  | getProcAddress (via : Answer F) (driver : F → Request → Found F) (request : Request)
  /-- A call of anything else that an earlier lookup gave, for which `rate_limit`, if it
      is asked, returns `ret`. -/
  | launch (via : Answer F) (ret : Int32)

def EntryEnum.isLookup : EntryEnum → Bool
  | cuGetProcAddress | cuGetProcAddressV2 => true
  | _ => false

/-- The lookup was for a `cuGetProcAddress`. -/
def Answer.isLookup (a : Answer F) : Bool := (findEntry a.symbol).any EntryEnum.isLookup

def Linker.resolve (linker : Linker F) (returnAddr handle : UInt64) (symbol : String) : Option F :=
  if handle = rtldNext then (getNextSymbol linker returnAddr symbol).join else linker.dlsym handle symbol

/-- A call of a pointer as a `cuGetProcAddress`. -/
def Ptr.lookup (driver : F → Request → Found F) (request : Request) (table : Table F) :
    Ptr F → Option (Found (Ptr F) × Table F)
  | .hook .cuGetProcAddress => hookCuGetProcAddress driver request table
  | .hook .cuGetProcAddressV2 => hookCuGetProcAddressV2 driver request table
  | .hook _ => none
  | .real f => some (⟨(driver f request).ret, (driver f request).pfn.map .real⟩, table)

/-- The function a call of a pointer ends in, if it gets there. -/
def Ptr.target (table : Table F) : Ptr F → Option F
  | .hook e => table e
  | .real f => some f

/-- A call of a pointer, where `rate_limit` returns `ret` if it is asked. -/
def Ptr.launch (ret : Int32) (table : Table F) : Ptr F → Launched F
  | .hook .cuLaunchKernel => hookCuLaunchKernel ret table
  | .hook .cuLaunchKernelEx => hookCuLaunchKernelEx ret table
  | .hook .cuLaunchKernelPtsz => hookCuLaunchKernelPtsz ret table
  | .hook .cuLaunchKernelExPtsz => hookCuLaunchKernelExPtsz ret table
  -- a lookup asks no rate limit
  | .hook e => match table e with
    | some entry => .calls entry
    | none => .exits
  | .real f => .calls f

def Ptr.route : Ptr F → Route
  | .hook _ => .proc
  | .real _ => .direct

def App.next (s : App F) : Event F → Option (App F)
  | .dlsym linker returnAddr handle symbol =>
    (Cuda.dlsym linker returnAddr handle symbol s.table).map fun (given, table) =>
      let resolved := linker.resolve returnAddr handle symbol
      let route := if handle = rtldNext then .next else .dlsym
      { s with table := table,
               answers := ⟨symbol, route, resolved, given, handle ≠ rtldNext⟩ :: s.answers }
  | .getProcAddress via driver request =>
    via.given.bind fun p =>
      match p.lookup driver request s.table with
      | none => some { s with bug := true }
      | some (found, table) =>
        if found.ret ≠ 0 then some { s with table := table }
        else
          let resolved := (p.target s.table).bind fun f => (driver f request).pfn
          some { s with table := table,
                        answers := ⟨request.symbol, p.route, resolved, found.pfn, via.ordinary⟩ :: s.answers }
  | .launch via ret =>
    via.given.map fun p =>
      match p.launch ret s.table with
      | .returns _ => s
      | .calls f => { s with launches := ⟨via, ret, f⟩ :: s.launches }
      | .exits => { s with bug := true }

/-- The application calls what it was given, for what it is. -/
def App.Allows (s : App F) : Event F → Prop
  | .dlsym .. => True
  | .getProcAddress via _ _ => via ∈ s.answers ∧ via.isLookup = true
  | .launch via _ => via ∈ s.answers ∧ via.isLookup = false

def app (F : Type) : System (App F) (Event F) where
  init s := s = ⟨fun _ => none, [], [], false⟩
  step s e s' := s.bug = false ∧ s.Allows e ∧ s.next e = some s'

/-! ## One lookup -/

def Answer.write (e : EntryEnum) (a : Answer F) : Option (Register.Write F) :=
  if findEntry a.symbol = some e then
    match a.route with
    | .dlsym => a.resolved.map .overwrite
    | .proc => a.resolved.map .fill
    | .next | .direct => none
  else none

/-- The lookup went through a hook. -/
def Answer.Hooked (a : Answer F) : Prop := a.route = .dlsym ∨ a.route = .proc

structure Answer.WellFormed (a : Answer F) : Prop where
  /-- A hook is given for its own name, by a hook. -/
  hook : ∀ e, a.given = some (.hook e) → findEntry a.symbol = some e ∧ a.Hooked
  /-- Any other pointer is what was resolved. -/
  real : ∀ f, a.given = some (.real f) → a.resolved = some f
  answered : a.resolved ≠ none → a.given ≠ none
  hooked : ∀ e, a.Hooked → findEntry a.symbol = some e → ∀ p, a.given = some p → p = .hook e

theorem wellFormed_map {a : Answer F} (hg : a.given = a.resolved.map .real)
    (hn : ∀ e, a.Hooked → findEntry a.symbol = some e → a.resolved = none) : a.WellFormed := by
  refine ⟨?_, ?_, ?_, ?_⟩
  · intro e he
    rw [hg] at he
    obtain ⟨f, -, hf⟩ := Option.map_eq_some_iff.mp he
    cases hf
  · intro f hf
    rw [hg] at hf
    obtain ⟨f', hr, he⟩ := Option.map_eq_some_iff.mp hf
    cases he
    exact hr
  · intro hr
    simpa [hg] using hr
  · intro e hh he p hp
    rw [hg, hn e hh he] at hp
    cases hp

theorem wellFormed_hook {a : Answer F} {e : EntryEnum} (hg : a.given = some (.hook e))
    (hs : findEntry a.symbol = some e) (hh : a.Hooked) : a.WellFormed := by
  refine ⟨?_, ?_, ?_, ?_⟩
  · intro e' he'
    rw [hg] at he'
    cases he'
    exact ⟨hs, hh⟩
  · intro f hf
    rw [hg] at hf
    cases hf
  · simp [hg]
  · intro e' _ he' p hp
    rw [hs] at he'
    rw [hg] at hp
    cases he'
    cases hp
    rfl

/-- What an answer does to the table. -/
def Answer.Wrote (a : Answer F) (table table' : Table F) : Prop :=
  ∀ e, table' e = match a.write e with
    | some w => w.apply (table e)
    | none => table e

theorem wrote_nothing {a : Answer F} (table : Table F) (h : ∀ e, a.write e = none) : a.Wrote table table := by
  intro e
  rw [h e]

theorem write_unhooked {a : Answer F} (h : ¬ a.Hooked) (e : EntryEnum) : a.write e = none := by
  simp only [Answer.Hooked, not_or] at h
  unfold Answer.write
  split
  · cases hr : a.route <;> simp_all
  · rfl

theorem write_unresolved {a : Answer F} (h : a.resolved = none) (e : EntryEnum) : a.write e = none := by
  unfold Answer.write
  split
  · cases a.route <;> simp [h]
  · rfl

theorem write_unlisted {a : Answer F} (h : findEntry a.symbol = none) (e : EntryEnum) : a.write e = none := by
  unfold Answer.write
  rw [if_neg (by simp [h])]

theorem dlsym_answer {linker : Linker F} {returnAddr handle : UInt64} {symbol : String} {table table' : Table F}
    {given : Option (Ptr F)} (h : dlsym linker returnAddr handle symbol table = some (given, table'))
    (ordinary : Bool) :
    let a : Answer F := ⟨symbol, if handle = rtldNext then .next else .dlsym,
      linker.resolve returnAddr handle symbol, given, ordinary⟩
    a.WellFormed ∧ a.Wrote table table' ∧ (a.resolved = none → a.given = none) := by
  intro a
  unfold dlsym at h
  split at h
  · rename_i hn
    obtain ⟨f, hf, he⟩ := Option.map_eq_some_iff.mp h
    cases he
    have hno : ¬ a.Hooked := by simp [a, Answer.Hooked, hn]
    have hg : a.given = a.resolved.map .real := by simp [a, Linker.resolve, hn, hf]
    refine ⟨wellFormed_map hg (fun e hh => absurd hh hno), wrote_nothing _ (write_unhooked hno), ?_⟩
    intro hr
    rw [hg, hr]
    rfl
  · rename_i hn
    split at h
    · rename_i e f he hf
      cases h
      refine ⟨wellFormed_hook rfl he (by simp [a, Answer.Hooked, hn]), fun e' => ?_,
        by simp [a, Linker.resolve, hn, hf]⟩
      by_cases hee : e' = e
      · subst hee
        simp [Answer.write, a, he, hn, Linker.resolve, hf, Register.Write.apply]
      · have hne : e ≠ e' := Ne.symm hee
        simp [Answer.write, a, he, hne, Function.update_of_ne hee]
    · rename_i hmiss
      cases h
      have hnone : ∀ e, findEntry symbol = some e → linker.dlsym handle symbol = none := by
        intro e he
        by_contra hf
        obtain ⟨f, hf⟩ := Option.ne_none_iff_exists'.mp hf
        exact hmiss e f he hf
      have hres : a.resolved = linker.dlsym handle symbol := by simp [a, Linker.resolve, hn]
      refine ⟨wellFormed_map (by rw [hres]) (fun e _ he => hres.trans (hnone e he)), wrote_nothing _ ?_,
        fun hr => by simpa [a] using hres.symm.trans hr⟩
      cases he : findEntry symbol with
      | none => exact write_unlisted he
      | some e => exact write_unresolved (hres.trans (hnone e he))

theorem getProcAddress_answer {self : EntryEnum} {driver : F → Request → Found F} {request : Request}
    {table table' : Table F} {found : Found (Ptr F)}
    (h : getProcAddress self driver request table = some (found, table')) (ordinary : Bool) :
    ∃ f, table self = some f ∧ found.ret = (driver f request).ret ∧ (found.ret ≠ 0 → table' = table) ∧
      (found.ret = 0 →
        let a : Answer F := ⟨request.symbol, .proc, (driver f request).pfn, found.pfn, ordinary⟩
        a.WellFormed ∧ a.Wrote table table' ∧
          ((a.resolved = none → a.given = none) ↔ (a.resolved = none → findEntry request.symbol = none))) := by
  obtain ⟨f, hf, he⟩ := Option.map_eq_some_iff.mp h
  refine ⟨f, hf, ?_⟩
  dsimp only at he
  split at he
  · rename_i hret
    cases he
    exact ⟨rfl, fun _ => rfl, fun h0 => absurd h0 hret⟩
  · split at he
    · rename_i hret _ e hs
      cases he
      refine ⟨rfl, fun h0 => absurd h0 hret, ?_⟩
      intro _ a
      refine ⟨wellFormed_hook rfl hs (Or.inr rfl), fun e' => ?_, by simp [a, hs]⟩
      by_cases hee : e' = e
      · subst hee
        cases ht : table e' <;> cases hp : (driver f request).pfn <;>
          simp [Answer.write, a, hs, ht, hp, Register.Write.apply]
      · have hne : e ≠ e' := Ne.symm hee
        cases ht : table e <;> simp [Answer.write, a, hs, hne, Function.update_of_ne hee]
    · rename_i hret _ hs
      cases he
      refine ⟨rfl, fun h0 => absurd h0 hret, ?_⟩
      intro _ a
      have hnone : findEntry a.symbol = none := hs
      exact ⟨wellFormed_map rfl (fun e _ he => absurd (hnone.symm.trans he) (by simp)),
        wrote_nothing _ (write_unlisted hnone), by simp [a, hs]⟩

/-! ## One step -/

/-- The lookup is not one through a hooked `cuGetProcAddress`, for a name of the table,
    to which the driver answers success and `NULL`. -/
def NullSpared (s : App F) : Event F → Prop
  | .getProcAddress via driver request =>
    ∀ e f, via.given = some (.hook e) → s.table e = some f → driver f request = ⟨0, none⟩ →
      findEntry request.symbol = none
  | _ => True

structure Inv (s : App F) : Prop where
  wellFormed : ∀ a ∈ s.answers, a.WellFormed
  /-- An entry is the register its lookups write. -/
  table : ∀ e, s.table e = Register.after (s.answers.filterMap (·.write e))
  /-- Without `RTLD_NEXT`, every lookup goes through a hook. -/
  ordinary : ∀ a ∈ s.answers, a.ordinary = true → a.Hooked

theorem lookup_hook {e : EntryEnum} (h : e.isLookup = true) (driver : F → Request → Found F) (request : Request)
    (table : Table F) : (Ptr.hook e).lookup driver request table = getProcAddress e driver request table := by
  cases e with
  | cuGetProcAddress => rfl
  | cuGetProcAddressV2 => rfl
  | _ => cases h

theorem listed_of_isLookup {a : Answer F} (h : a.isLookup = true) : ∃ e, findEntry a.symbol = some e := by
  unfold Answer.isLookup at h
  cases hs : findEntry a.symbol with
  | none => simp [hs] at h
  | some e => exact ⟨e, rfl⟩

theorem isLookup_given {a : Answer F} {e : EntryEnum} (hw : a.WellFormed) (hl : a.isLookup = true)
    (hg : a.given = some (.hook e)) : e.isLookup = true := by
  simpa [Answer.isLookup, (hw.hook e hg).1] using hl

/-- A step makes no answer, or one; which breaks the promise of `NullSpared` exactly when
    the application gets a pointer for a symbol that was not found. -/
def Stepped (s : App F) (ev : Event F) (s' : App F) : Prop :=
  (s'.answers = s.answers ∧ s'.table = s.table ∧ NullSpared s ev) ∨
    ∃ a, s'.answers = a :: s.answers ∧ a.WellFormed ∧ a.Wrote s.table s'.table ∧
      (a.ordinary = true → a.Hooked) ∧ s'.bug = false ∧ s'.launches = s.launches ∧
      (NullSpared s ev ↔ (a.resolved = none → a.given = none))

theorem nullSpared_hook {s : App F} {via : Answer F} {e : EntryEnum} {f : F} (hg : via.given = some (.hook e))
    (hf : s.table e = some f) (driver : F → Request → Found F) (request : Request) :
    NullSpared s (.getProcAddress via driver request) ↔
      (driver f request = ⟨0, none⟩ → findEntry request.symbol = none) := by
  constructor
  · intro hspare
    exact hspare e f hg hf
  · intro hspare e' f' hg' hf' hd
    rw [hg] at hg'
    cases hg'
    rw [hf] at hf'
    cases hf'
    exact hspare hd

theorem hook_step {s s' : App F} {via : Answer F} {driver : F → Request → Found F} {request : Request}
    {e : EntryEnum} (hl : e.isLookup = true) (hg : via.given = some (.hook e)) (hbug : s.bug = false)
    (hnext : s.next (.getProcAddress via driver request) = some s') :
    Stepped s (.getProcAddress via driver request) s' := by
  simp only [App.next, hg, Option.bind_some, lookup_hook hl] at hnext
  split at hnext
  · rename_i hnone
    cases hnext
    refine Or.inl ⟨rfl, rfl, ?_⟩
    intro e' f hg' ht _
    rw [hg] at hg'
    cases hg'
    simp [getProcAddress, ht] at hnone
  rename_i found table hfound
  obtain ⟨f, hf, hret, hsame, hans⟩ := getProcAddress_answer hfound via.ordinary
  have hspared := nullSpared_hook hg hf driver request
  split at hnext
  · rename_i hne
    cases hnext
    refine Or.inl ⟨rfl, hsame hne, hspared.mpr ?_⟩
    intro hd
    rw [hd] at hret
    exact absurd hret hne
  · rename_i hz
    cases hnext
    have hzero : found.ret = 0 := by simpa using hz
    have hr : (Ptr.target s.table (.hook e)).bind (fun f => (driver f request).pfn) = (driver f request).pfn := by
      simp [Ptr.target, hf]
    obtain ⟨hwf, hwrote, hnull⟩ := hans hzero
    refine Or.inr ⟨_, rfl, by rw [hr]; exact hwf, by rw [hr]; exact hwrote, fun _ => Or.inr rfl, hbug, rfl, ?_⟩
    rw [hr, hspared]
    refine Iff.trans ⟨fun hspare hnone => ?_, fun hmiss hd => hmiss (by rw [hd])⟩ hnull.symm
    exact hspare (by rw [← hnone, ← hzero, hret])

theorem real_step {s s' : App F} {via : Answer F} {driver : F → Request → Found F} {request : Request} {f : F}
    (hg : via.given = some (.real f)) (ho : via.ordinary ≠ true) (hbug : s.bug = false)
    (hnext : s.next (.getProcAddress via driver request) = some s') :
    Stepped s (.getProcAddress via driver request) s' := by
  have hspared : NullSpared s (.getProcAddress via driver request) := by
    intro e f hg'
    rw [hg] at hg'
    cases hg'
  simp only [App.next, hg, Option.bind_some, Ptr.lookup] at hnext
  split at hnext
  · cases hnext
    exact Or.inl ⟨rfl, rfl, hspared⟩
  · cases hnext
    have hun : ¬ Answer.Hooked (F := F) ⟨request.symbol, .direct, (driver f request).pfn,
      (driver f request).pfn.map .real, via.ordinary⟩ := by simp [Answer.Hooked]
    exact Or.inr ⟨_, rfl, wellFormed_map rfl (fun e hh => absurd hh hun), wrote_nothing _ (write_unhooked hun),
      fun h => absurd h ho, hbug, rfl, iff_of_true hspared (fun hr => by simpa [Ptr.target] using hr)⟩

theorem step_cases {s s' : App F} {ev : Event F} (hi : Inv s) (h : (app F).step s ev s') : Stepped s ev s' := by
  obtain ⟨hbug, hallow, hnext⟩ := h
  cases ev with
  | dlsym linker returnAddr handle symbol =>
    obtain ⟨⟨given, table⟩, hd, he⟩ := Option.map_eq_some_iff.mp hnext
    cases he
    obtain ⟨hw, hwrote, hnull⟩ := dlsym_answer hd (handle ≠ rtldNext)
    refine Or.inr ⟨_, rfl, hw, hwrote, ?_, hbug, rfl, iff_of_true trivial hnull⟩
    intro ho
    exact Or.inl (if_neg (by simpa using ho))
  | getProcAddress via driver request =>
    obtain ⟨p, hp, -⟩ := Option.bind_eq_some_iff.mp hnext
    have hw := hi.wellFormed via hallow.1
    cases p with
    | hook e => exact hook_step (isLookup_given hw hallow.2 hp) hp hbug hnext
    | real f =>
      refine real_step hp ?_ hbug hnext
      intro ho
      obtain ⟨e, he⟩ := listed_of_isLookup hallow.2
      cases hw.hooked e (hi.ordinary via hallow.1 ho) he _ hp
  | launch via ret =>
    obtain ⟨p, hp, he⟩ := Option.map_eq_some_iff.mp hnext
    refine Or.inl ?_
    subst he
    split
    · exact ⟨rfl, rfl, trivial⟩
    · exact ⟨rfl, rfl, trivial⟩
    · exact ⟨rfl, rfl, trivial⟩

theorem init_inv {s : App F} (h : (app F).init s) : Inv s := by
  subst h
  exact ⟨fun a ha => absurd ha (by simp), fun _ => rfl, fun a ha => absurd ha (by simp)⟩

theorem step_inv {s s' : App F} {ev : Event F} (hi : Inv s) (h : (app F).step s ev s') : Inv s' := by
  rcases step_cases hi h with ⟨ha, ht, -⟩ | ⟨a, ha, hw, hwrote, ho, -⟩
  · exact ⟨by rw [ha]; exact hi.wellFormed, by rw [ha, ht]; exact hi.table, by rw [ha]; exact hi.ordinary⟩
  · refine ⟨?_, ?_, ?_⟩
    · rw [ha]
      exact List.forall_mem_cons.mpr ⟨hw, hi.wellFormed⟩
    · intro e
      rw [hwrote e, ha, List.filterMap_cons]
      cases a.write e with
      | none => exact hi.table e
      | some w => simp [hi.table e]
    · rw [ha]
      exact List.forall_mem_cons.mpr ⟨ho, hi.ordinary⟩

theorem inv {s : App F} (h : (app F).Reach s) : Inv s :=
  System.Reach.inv (fun _ => init_inv) (fun _ _ _ => step_inv) h

theorem step_answers {s s' : App F} {ev : Event F} (hi : Inv s) (h : (app F).step s ev s') :
    s.answers ⊆ s'.answers := by
  rcases step_cases hi h with ⟨ha, -⟩ | ⟨a, ha, -⟩
  · rw [ha]
    exact List.Subset.refl _
  · rw [ha]
    exact List.subset_cons_self _ _

end NvResourceController.Cuda
