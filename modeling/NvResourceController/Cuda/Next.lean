/-
  NvResourceController.Cuda.Next — what the emulation of `RTLD_NEXT` (`src/dlfcn.c`,
  `get_next_symbol`) finds, for any layout of the loaded objects.

  The caller is looked for from this library on, by base addresses alone, and every
  object above the caller is passed over; `dlsym` on a handle also searches what the
  object depends on.

  - `getNextSymbol_eq`: which objects are searched, and in which order.
  - `next_iff`: so the answer is the next definition exactly where the first object
    searched that defines the symbol is the first one after the caller's; and it is for
    every symbol exactly where the objects searched are those after the caller's.
  - `null_for_program`: a program below its libraries is answered `NULL`.
-/

import NvResourceController.Lib.FirstFound
import NvResourceController.Cuda.Entry

namespace NvResourceController.Cuda

open FirstFound

/-! ## The loaded objects -/

section

variable {O : Type} [DecidableEq O]

structure Layout (O : Type) where
  /-- In the order of the link map. -/
  objects : List O
  lName : O → String
  lAddr : O → UInt64
  size : O → ℕ
  /-- What `dlsym` searches for a handle of the object. -/
  scope : O → List O
  /-- This library. -/
  self : O
  nodup : objects.Nodup
  named : ∀ o ∈ objects, ∀ o' ∈ objects, lName o = lName o' → o = o'
  sized : ∀ o ∈ objects, 1 < size o
  disjoint : ∀ o ∈ objects, ∀ o' ∈ objects, o ≠ o' →
    (lAddr o).toNat + size o ≤ (lAddr o').toNat ∨ (lAddr o').toNat + size o' ≤ (lAddr o).toNat
  /-- The object itself comes first. -/
  own : ∀ o ∈ objects, (scope o).head? = some o
  closed : ∀ o ∈ objects, ∀ d ∈ scope o, d ∈ objects
  self_mem : self ∈ objects

variable (L : Layout O)

def Layout.linkMap (o : O) : LinkMap := ⟨L.lAddr o, L.lName o⟩

def Layout.Within (o : O) (addr : UInt64) : Prop :=
  (L.lAddr o).toNat ≤ addr.toNat ∧ addr.toNat < (L.lAddr o).toNat + L.size o

def Layout.onwards (o : O) : List O := L.objects.dropWhile (· ≠ o)

def Layout.after (o : O) : List O := (L.onwards o).tail

/-- Which object defines which symbol, and where. -/
structure Layout.Exports (L : Layout O) (exports : O → String → Option UInt64) : Prop where
  inside : ∀ o ∈ L.objects, ∀ symbol addr, exports o symbol = some addr → L.Within o addr
  nonnull : ∀ o ∈ L.objects, ∀ symbol addr, exports o symbol = some addr → addr ≠ 0

/-- The dynamic linker, of these objects. -/
structure Layout.Serves (L : Layout O) (exports : O → String → Option UInt64) (linker : Linker UInt64) : Prop where
  self : linker.dladdr.getD libraryName = L.lName L.self
  handle : ∀ o ∈ L.objects, ∃ handle, linker.dlopen (L.lName o) = some handle ∧
    linker.linkMap handle = (L.onwards o).map L.linkMap ∧
    ∀ symbol, linker.dlsym handle symbol = (L.scope o).findSome? fun d => exports d symbol

/-- The objects the emulation searches for a caller. -/
def Layout.searched (caller : UInt64) : List O :=
  ((L.onwards L.self).filter fun o => decide (L.lAddr o ≤ caller)).tail.flatMap L.scope

/-- The definition in the first object after the caller's that has one. -/
def Layout.next (exports : O → String → Option UInt64) (caller : O) (symbol : String) : Option UInt64 :=
  (L.after caller).findSome? fun o => exports o symbol

variable {L} {exports : O → String → Option UInt64} {linker : Linker UInt64}

theorem onwards_subset {o d : O} (h : d ∈ L.onwards o) : d ∈ L.objects :=
  (List.dropWhile_sublist _).subset h

theorem after_subset {o d : O} (h : d ∈ L.after o) : d ∈ L.objects := onwards_subset (List.mem_of_mem_tail h)

theorem searched_subset {caller : UInt64} {d : O} (h : d ∈ L.searched caller) : d ∈ L.objects := by
  obtain ⟨o, ho, hd⟩ := List.mem_flatMap.mp h
  exact L.closed o (onwards_subset (List.mem_of_mem_filter (List.mem_of_mem_tail ho))) d hd

theorem Layout.Exports.unique (h : L.Exports exports) {o o' : O} (ho : o ∈ L.objects) (ho' : o' ∈ L.objects)
    {symbol : String} {addr : UInt64} (hs : exports o symbol = some addr) (hs' : exports o' symbol = some addr) :
    o = o' := by
  by_contra hne
  obtain ⟨hlow, hhigh⟩ := h.inside o ho symbol addr hs
  obtain ⟨hlow', hhigh'⟩ := h.inside o' ho' symbol addr hs'
  rcases L.disjoint o ho o' ho' hne with hd | hd <;> omega

/-! ## `get_next_symbol` -/

/-- Past the caller's object, every one at or below the caller is searched. -/
theorem nextSymbol_past (hs : L.Serves exports linker) (caller : UInt64) (symbol : String) {os : List O}
    (hos : ∀ o ∈ os, o ∈ L.objects) :
    nextSymbol linker caller symbol 1 (os.map L.linkMap) =
      some (((os.filter fun o => decide (L.lAddr o ≤ caller)).flatMap L.scope).findSome?
        fun d => exports d symbol) := by
  induction os with
  | nil => rfl
  | cons o os ih =>
    have ih := ih fun d hd => hos d (List.mem_cons_of_mem o hd)
    rw [List.map_cons, nextSymbol]
    by_cases hlt : caller < (L.linkMap o).lAddr
    · rw [if_pos hlt, List.filter_cons_of_neg (by simpa [Layout.linkMap] using hlt)]
      exact ih
    · obtain ⟨handle, hopen, -, hsym⟩ := hs.handle o (hos o List.mem_cons_self)
      rw [if_neg hlt, if_neg (by omega), List.filter_cons_of_pos (by simpa [Layout.linkMap] using hlt),
        List.flatMap_cons, List.findSome?_append, ← hsym symbol]
      simp only [Layout.linkMap, hopen]
      cases linker.dlsym handle symbol with
      | some addr => rfl
      | none => exact ih

theorem nextSymbol_eq (hs : L.Serves exports linker) (caller : UInt64) (symbol : String) {os : List O}
    (hos : ∀ o ∈ os, o ∈ L.objects) :
    nextSymbol linker caller symbol 0 (os.map L.linkMap) =
      some (((os.filter fun o => decide (L.lAddr o ≤ caller)).tail.flatMap L.scope).findSome?
        fun d => exports d symbol) := by
  induction os with
  | nil => rfl
  | cons o os ih =>
    have hos' : ∀ d ∈ os, d ∈ L.objects := fun d hd => hos d (List.mem_cons_of_mem o hd)
    rw [List.map_cons, nextSymbol]
    by_cases hlt : caller < (L.linkMap o).lAddr
    · rw [if_pos hlt, List.filter_cons_of_neg (by simpa [Layout.linkMap] using hlt)]
      exact ih hos'
    · rw [if_neg hlt, if_pos (by omega),
        List.filter_cons_of_pos (by simpa [Layout.linkMap] using hlt), List.tail_cons]
      exact nextSymbol_past hs caller symbol hos'

theorem getNextSymbol_eq (hs : L.Serves exports linker) (caller : UInt64) (symbol : String) :
    getNextSymbol linker caller symbol = some ((L.searched caller).findSome? fun d => exports d symbol) := by
  obtain ⟨handle, hopen, hmap, -⟩ := hs.handle L.self L.self_mem
  rw [getNextSymbol]
  simp only [hs.self, hopen, hmap]
  exact nextSymbol_eq hs caller symbol fun o => onwards_subset

/-- An answer is right exactly where the first of the objects searched that defines the
    symbol is the first of those after the caller's. -/
theorem next_symbol_iff (he : L.Exports exports) (hs : L.Serves exports linker) (c : O) (caller : UInt64)
    (symbol : String) :
    getNextSymbol linker caller symbol = some (L.next exports c symbol) ↔
      ((L.searched caller).find? fun o => (exports o symbol).isSome) =
        (L.after c).find? fun o => (exports o symbol).isSome := by
  rw [getNextSymbol_eq hs, Option.some_inj]
  refine findSome?_eq_iff ?_
  have hmem : ∀ o ∈ L.searched caller ++ L.after c, o ∈ L.objects := by
    intro o ho
    rcases List.mem_append.mp ho with ho | ho
    · exact searched_subset ho
    · exact after_subset ho
  intro o ho o' ho' addr hs hs'
  exact he.unique (hmem o ho) (hmem o' ho') hs hs'

def Layout.inner (L : Layout O) (o : O) : UInt64 := if L.lAddr o = 0 then 1 else L.lAddr o

omit [DecidableEq O] in
theorem exports_of (L : Layout O) (p : O → Bool) :
    L.Exports fun o _ => if p o then some (L.inner o) else none := by
  refine ⟨?_, ?_⟩
  · intro o ho symbol addr hs
    rw [Option.ite_none_right_eq_some] at hs
    rw [← Option.some.inj hs.2, Layout.inner]
    have hsize := L.sized o ho
    split
    · rename_i hzero
      rw [Layout.Within, hzero]
      exact ⟨Nat.zero_le _, by simpa using hsize⟩
    · exact ⟨Nat.le_refl _, by omega⟩
  · intro o ho symbol addr hs
    rw [Option.ite_none_right_eq_some] at hs
    rw [← Option.some.inj hs.2, Layout.inner]
    split
    · decide
    · assumption

theorem nodup_after (L : Layout O) (o : O) : (L.after o).Nodup :=
  (L.nodup.sublist (List.dropWhile_sublist _)).sublist (List.tail_sublist _)

/-- One answer is right exactly where the first of the objects searched that defines the
    symbol is the first of those after the caller's; and all answers are, whichever
    object defines which symbol, exactly where the objects searched, each where it comes
    first, are those after the caller's. -/
theorem next_iff {linker : (O → String → Option UInt64) → Linker UInt64}
    (hs : ∀ exports, L.Exports exports → L.Serves exports (linker exports)) (c : O) (caller : UInt64) :
    (∀ exports symbol, L.Exports exports →
      (getNextSymbol (linker exports) caller symbol = some (L.next exports c symbol) ↔
        ((L.searched caller).find? fun o => (exports o symbol).isSome) =
          (L.after c).find? fun o => (exports o symbol).isSome)) ∧
    ((∀ exports symbol, L.Exports exports →
      getNextSymbol (linker exports) caller symbol = some (L.next exports c symbol)) ↔
        (L.searched caller).eraseDups = L.after c) := by
  have hone : ∀ exports symbol, L.Exports exports →
      (getNextSymbol (linker exports) caller symbol = some (L.next exports c symbol) ↔
        ((L.searched caller).find? fun o => (exports o symbol).isSome) =
          (L.after c).find? fun o => (exports o symbol).isSome) :=
    fun exports symbol he => next_symbol_iff he (hs exports he) c caller symbol
  refine ⟨hone, ?_⟩
  rw [← eraseDups_of_nodup (nodup_after L c), ← find?_eq_iff]
  constructor
  · intro h p
    have he := exports_of L p
    have hfind := (hone _ "" he).mp (h _ "" he)
    have hsome : (fun o => (if p o then some (L.inner o) else none).isSome) = p := by
      funext o
      cases p o <;> rfl
    rwa [hsome] at hfind
  · intro h exports symbol he
    exact (hone exports symbol he).mpr (h _)

end

/-! ## A dynamic linker -/

section

variable {O : Type} [DecidableEq O]

/-- The base address is the handle. -/
def Layout.linker (L : Layout O) (exports : O → String → Option UInt64) : Linker UInt64 where
  dladdr := some (L.lName L.self)
  dlopen name := (L.objects.find? fun o => L.lName o == name).map L.lAddr
  linkMap handle :=
    match L.objects.find? fun o => L.lAddr o == handle with
    | some o => (L.onwards o).map L.linkMap
    | none => []
  dlsym handle symbol :=
    match L.objects.find? fun o => L.lAddr o == handle with
    | some o => (L.scope o).findSome? fun d => exports d symbol
    | none => none

theorem linker_serves (L : Layout O) (exports : O → String → Option UInt64) :
    L.Serves exports (L.linker exports) := by
  refine ⟨rfl, fun o ho => ?_⟩
  have hname : (L.objects.find? fun d => L.lName d == L.lName o) = some o :=
    find?_unique ho (beq_self_eq_true _) fun d hd he => L.named d hd o ho (eq_of_beq he)
  have haddr : (L.objects.find? fun d => L.lAddr d == L.lAddr o) = some o := by
    refine find?_unique ho (beq_self_eq_true _) fun d hd he => ?_
    have he := congrArg UInt64.toNat (eq_of_beq he)
    have hsize := L.sized d hd
    have hsize' := L.sized o ho
    by_contra hne
    rcases L.disjoint d hd o ho hne with h | h <;> omega
  refine ⟨L.lAddr o, ?_, ?_, fun symbol => ?_⟩
  · simp only [Layout.linker, hname, Option.map_some]
  · simp only [Layout.linker, haddr]
  · simp only [Layout.linker, haddr]

end

/-! ### A program, this library and another -/

/-- The library is above the program, and the other between them. -/
def threeObjects : Layout (Fin 3) where
  objects := [0, 1, 2]
  lName o := if o = 0 then "" else if o = 1 then libraryName else "libc.so.6"
  lAddr o := if o = 0 then 0x1000 else if o = 1 then 0x5000 else 0x3000
  size _ := 0x1000
  scope o := [o]
  self := 1
  nodup := by decide
  named := by decide
  sized := by decide
  disjoint := by decide
  own := by decide
  closed := by decide
  self_mem := by decide

def mallocOnly (o : Fin 3) (symbol : String) : Option UInt64 :=
  if o = 2 ∧ symbol = "malloc" then some 0x3500 else none

theorem mallocOnly_exports : threeObjects.Exports mallocOnly := by
  have haddr : ∀ o symbol addr, mallocOnly o symbol = some addr → o = 2 ∧ addr = 0x3500 := by
    intro o symbol addr hs
    rw [mallocOnly, Option.ite_none_right_eq_some] at hs
    exact ⟨hs.1.1, (Option.some.inj hs.2).symm⟩
  refine ⟨fun o _ symbol addr hs => ?_, fun o _ symbol addr hs => ?_⟩
  · obtain ⟨rfl, rfl⟩ := haddr o symbol addr hs
    exact ⟨by decide, by decide⟩
  · obtain ⟨rfl, rfl⟩ := haddr o symbol addr hs
    decide

/-- Called from this library, what is searched is what comes after it. -/
theorem next_iff_run : getNextSymbol (threeObjects.linker mallocOnly) 0x5000 "malloc" =
    some (threeObjects.next mallocOnly 1 "malloc") :=
  (next_iff (fun exports _ => linker_serves threeObjects exports) 1 0x5000).2.mpr (by decide) mallocOnly "malloc"
    mallocOnly_exports

/-- Called from the program, nothing is. -/
theorem null_for_program : threeObjects.Exports mallocOnly ∧
    threeObjects.Serves mallocOnly (threeObjects.linker mallocOnly) ∧ threeObjects.Within 0 0x1800 ∧
    getNextSymbol (threeObjects.linker mallocOnly) 0x1800 "malloc" = some none ∧
    threeObjects.next mallocOnly 0 "malloc" = some 0x3500 := by
  refine ⟨mallocOnly_exports, linker_serves threeObjects mallocOnly, ⟨by decide, by decide⟩, ?_, by decide⟩
  rw [getNextSymbol_eq (linker_serves threeObjects mallocOnly)]
  decide

end NvResourceController.Cuda
