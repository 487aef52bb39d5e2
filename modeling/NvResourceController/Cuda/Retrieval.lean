/-
  NvResourceController.Cuda.Retrieval — the pointers `retrieve_symbols` (`src/entry.c`)
  leaves in `__dlfcn_data`, over all loaded objects.

  - `initDlfcn_eq`: a pointer is the first definition of its name in the objects that are
    read.
  - `retrieves_iff`: so it is the first one in any object exactly where that object's
    dynamic section has its hash and its string table before its symbol table; and the
    order of the entries does not matter exactly where nothing is defined.
  - `avoids_self_iff`: the hooks do not call themselves exactly where this library is not
    read, or read after others that define both names.
-/

import Mathlib.Data.List.Forall2
import NvResourceController.Lib.FirstFound
import NvResourceController.Cuda.Symbols

namespace NvResourceController.Cuda

open CString FirstFound

/-- The objects do not define a name at one address. -/
def Apart (objects : List Image) : Prop :=
  objects.Pairwise fun i i' => ∀ f addr, i.defines f = some addr → i'.defines f ≠ some addr

/-- The first definition in the objects that are read. -/
def read (objects : List Image) (f : DlfcnField) : Option UInt64 :=
  (objects.filter fun i => decide i.Reads).findSome? fun i => i.defines f

theorem dlIteratePhdr_eq (objects : List Image) (data : Dlfcn) :
    dlIteratePhdr (objects.map Image.info) data =
      if ∃ i ∈ objects, i.Faults then none else some (data.keep (read objects)) := by
  induction objects generalizing data with
  | nil =>
    rw [if_neg (by simp)]
    exact congrArg some (Dlfcn.keep_none data).symm
  | cons i rest ih =>
    rw [List.map_cons, dlIteratePhdr, retrieveSymbols_eq]
    by_cases hfault : i.Faults
    · rw [if_pos hfault, if_pos ⟨i, List.mem_cons_self, hfault⟩]
      rfl
    · have hsome : (∃ d ∈ i :: rest, d.Faults) ↔ ∃ d ∈ rest, d.Faults := by simp [hfault]
      simp only [if_neg hfault, hsome]
      by_cases hreads : i.Reads
      · have hread : read (i :: rest) = fun f => (i.defines f).or (read rest f) := by
          funext f
          rw [read, List.filter_cons_of_pos (by simpa using hreads), List.findSome?_cons]
          cases i.defines f <;> rfl
        rw [if_pos hreads, Option.bind_some, ih, Dlfcn.keep_keep fun f addr => Image.defines_ne_zero, hread]
      · have hread : read (i :: rest) = read rest := by
          funext f
          rw [read, List.filter_cons_of_neg (by simpa using hreads)]
          rfl
        rw [if_neg hreads, Option.bind_some, ih, hread]

theorem initDlfcn_eq (objects : List Image) : initDlfcn (objects.map Image.info) =
    if ∃ i ∈ objects, i.Faults then none else some fun f => (read objects f).getD 0 := by
  rw [initDlfcn, dlIteratePhdr_eq]
  split
  · rfl
  · exact congrArg some (funext fun f => if_pos rfl)

/-! ## Other objects -/

theorem Apart.unique {objects : List Image} (h : Apart objects) {i i' : Image} (hi : i ∈ objects) (hi' : i' ∈ objects)
    {f : DlfcnField} {addr : UInt64} (hd : i.defines f = some addr) (hd' : i'.defines f = some addr) : i = i' := by
  induction objects with
  | nil => cases hi
  | cons d rest ih =>
    obtain ⟨hfirst, hrest⟩ := List.pairwise_cons.mp h
    rcases List.mem_cons.mp hi with rfl | hmem
    · rcases List.mem_cons.mp hi' with rfl | hmem'
      · rfl
      · exact absurd hd' (hfirst i' hmem' f addr hd)
    · rcases List.mem_cons.mp hi' with rfl | hmem'
      · exact absurd hd (hfirst i hmem f addr hd')
      · exact ih hrest hmem hmem'

/-- The first definition in the objects that are not passed over. -/
def first (objects : List Image) (f : DlfcnField) : Option UInt64 :=
  (objects.filter fun i => !decide i.Skipped).findSome? fun i => i.defines f

/-- Every pointer is the first definition of its name, or `NULL` where there is none. -/
def Retrieves (objects : List Image) : Prop :=
  ∃ data, initDlfcn (objects.map Image.info) = some data ∧ ∀ f, data f = (first objects f).getD 0

/-- The object that has the first definition. -/
def definer (objects : List Image) (f : DlfcnField) : Option Image :=
  objects.find? fun i => !decide i.Skipped && (i.defines f).isSome

/-- The same object, with the entries of its dynamic section in another order. -/
def Rearranged (i i' : Image) : Prop := ∃ dynamic perm, i' = { i with dynamic := dynamic, perm := perm }

/-- No order of the entries of any dynamic section makes a difference. -/
def OrderFree (objects : List Image) : Prop :=
  ∀ objects', List.Forall₂ Rearranged objects objects' →
    initDlfcn (objects'.map Image.info) = initDlfcn (objects.map Image.info)

/-- Nothing of the object is read in any order. -/
def Image.Inert (i : Image) : Prop := i.Skipped ∨ i.nbucket = none ∨ ∀ sym ∈ i.syms, sym.stValue = 0

theorem getD_inj {a b : Option UInt64} (ha : ∀ addr, a = some addr → addr ≠ 0)
    (hb : ∀ addr, b = some addr → addr ≠ 0) :
    a.getD 0 = b.getD 0 ↔ a = b := by
  cases a with
  | none =>
    cases b with
    | none => simp
    | some y => simpa using Ne.symm (hb y rfl)
  | some x =>
    cases b with
    | none => simpa using ha x rfl
    | some y => simp

theorem findSome?_ne_zero {objects : List Image} {f : DlfcnField} {addr : UInt64}
    (h : objects.findSome? (fun i => i.defines f) = some addr) : addr ≠ 0 := by
  obtain ⟨i, -, hi⟩ := List.exists_of_findSome?_eq_some h
  exact Image.defines_ne_zero hi

theorem read_eq_first_iff {objects : List Image} (hapart : Apart objects) (f : DlfcnField) :
    read objects f = first objects f ↔ ∀ i, definer objects f = some i → i.Reads := by
  have hmem : ∀ i ∈ (objects.filter fun i => decide i.Reads) ++ objects.filter fun i => !decide i.Skipped,
      i ∈ objects := by
    intro i hi
    rcases List.mem_append.mp hi with hi | hi
    · exact List.mem_of_mem_filter hi
    · exact List.mem_of_mem_filter hi
  rw [read, first, findSome?_eq_iff fun i hi i' hi' addr hd hd' => hapart.unique (hmem i hi) (hmem i' hi') hd hd',
    List.find?_filter, List.find?_filter, definer]
  simp only [Bool.decide_and, Bool.decide_eq_true]
  have himp : ∀ i : Image, (decide i.Reads && (i.defines f).isSome) = true →
      (!decide i.Skipped && (i.defines f).isSome) = true := by
    intro i hi
    obtain ⟨hreads, hdef⟩ := Bool.and_eq_true_iff.mp hi
    have hskip : ¬ i.Skipped := (of_decide_eq_true hreads).1
    simp [hskip, hdef]
  rw [find?_eq_of_imp himp]
  constructor
  · intro h i hi
    exact of_decide_eq_true (Bool.and_eq_true_iff.mp (h i hi)).1
  · intro h i hi
    obtain ⟨hfound, -⟩ := List.find?_eq_some_iff_append.mp hi
    have hdef := (Bool.and_eq_true_iff.mp hfound).2
    rw [decide_eq_true (h i hi), hdef]
    rfl

/-! ### The order of the entries -/

theorem Rearranged.inert {i i' : Image} (h : Rearranged i i') (hi : i.Inert) : i'.Inert := by
  obtain ⟨dynamic, perm, rfl⟩ := h
  exact hi

theorem Image.Counts.nbucket {i : Image} (h : i.Counts) : i.nbucket ≠ none := by
  intro hnone
  obtain ⟨e, he, hhash⟩ := List.any_eq_true.mp h
  have hmem : e ∈ i.dynamic := (List.takeWhile_sublist _).subset he
  have hmem := i.perm.mem_iff.mp hmem
  rw [hnone] at hmem
  simp only [hashEntry, Option.toList_none, List.map_nil, List.nil_append, List.mem_cons, List.mem_map] at hmem
  rcases hmem with rfl | rfl | ⟨tag, -, rfl⟩
  · cases hhash
  · cases hhash
  · cases hhash

def Image.stringsFirst (i : Image) : Image :=
  { i with
    dynamic := hashEntry i.nbucket i.syms.length ++ .strtab i.bytes :: .symtab i.syms :: i.others.map .other
    perm := List.Perm.refl _ }

def Image.symbolsFirst (i : Image) : Image :=
  { i with
    dynamic := hashEntry i.nbucket i.syms.length ++ .symtab i.syms :: .strtab i.bytes :: i.others.map .other
    perm := (List.Perm.swap _ _ _).append_left _ }

theorem stringsFirst_names (i : Image) : i.stringsFirst.Names := by
  have hnames : ∀ nbucket, ((hashEntry nbucket i.syms.length ++ Dyn.strtab i.bytes :: Dyn.symtab i.syms ::
      i.others.map Dyn.other).takeWhile fun e => !e.isSymtab).any Dyn.isStrtab = true := by
    intro nbucket
    cases nbucket with
    | none => simp [hashEntry, Dyn.isSymtab, Dyn.isStrtab]
    | some nbucket => simp [hashEntry, Dyn.isSymtab, Dyn.isStrtab]
  exact hnames i.nbucket

theorem symbolsFirst_faults {i : Image} (h : ¬ i.Inert) : i.symbolsFirst.Faults := by
  unfold Image.Inert at h
  rw [not_or, not_or] at h
  obtain ⟨hskip, hnbucket, hsyms⟩ := h
  obtain ⟨nbucket, hn⟩ := Option.ne_none_iff_exists'.mp hnbucket
  refine ⟨hskip, ?_, ?_, ?_⟩
  · simp [Image.Counts, Image.known, Image.symbolsFirst, hashEntry, hn, Dyn.isSymtab, Dyn.isHash]
  · simp [Image.Names, Image.known, Image.symbolsFirst, hashEntry, hn, Dyn.isSymtab, Dyn.isStrtab]
  · simpa [Image.symbolsFirst] using hsyms

theorem initDlfcn_inert {objects : List Image} (h : ∀ i ∈ objects, i.Inert) :
    initDlfcn (objects.map Image.info) = some fun _ => 0 := by
  have hfaults : ¬ ∃ i ∈ objects, i.Faults := by
    intro hf
    obtain ⟨i, hi, hskip, hcounts, -, sym, hsym, hval⟩ := hf
    rcases h i hi with hs | hn | hz
    · exact hskip hs
    · exact hcounts.nbucket hn
    · exact hval (hz sym hsym)
  rw [initDlfcn_eq, if_neg hfaults]
  have hread : ∀ f, read objects f = none := by
    intro f
    refine List.findSome?_eq_none_iff.mpr fun i hi => ?_
    obtain ⟨hmem, hreads⟩ := List.mem_filter.mp hi
    obtain ⟨hskip, hcounts, -⟩ := of_decide_eq_true hreads
    rcases h i hmem with hs | hn | hz
    · exact absurd hs hskip
    · exact absurd hn hcounts.nbucket
    · refine List.findSome?_eq_none_iff.mpr fun sym hsym => ?_
      exact if_neg fun hd => hd.1 (hz sym hsym)
  refine congrArg some (funext fun f => ?_)
  rw [hread, Option.getD_none]

theorem rearranged_inert {objects objects' : List Image} (hre : List.Forall₂ Rearranged objects objects')
    (h : ∀ i ∈ objects, i.Inert) : ∀ i ∈ objects', i.Inert := by
  induction hre with
  | nil => exact h
  | cons hr _ ih =>
    obtain ⟨hi, hrest⟩ := List.forall_mem_cons.mp h
    exact List.forall_mem_cons.mpr ⟨hr.inert hi, ih hrest⟩

theorem orderFree_iff (objects : List Image) : OrderFree objects ↔ ∀ i ∈ objects, i.Inert := by
  constructor
  · intro h i hi
    by_contra hnot
    have hgood : List.Forall₂ Rearranged objects (objects.map Image.stringsFirst) :=
      List.forall₂_map_right_iff.mpr (List.forall₂_same.mpr fun d _ => ⟨_, _, rfl⟩)
    have hbad : List.Forall₂ Rearranged objects (objects.map Image.symbolsFirst) :=
      List.forall₂_map_right_iff.mpr (List.forall₂_same.mpr fun d _ => ⟨_, _, rfl⟩)
    have hsame := (h _ hgood).trans (h _ hbad).symm
    have hnone : ¬ ∃ d ∈ objects.map Image.stringsFirst, d.Faults := by
      intro hf
      obtain ⟨d, hd, -, -, hnames, -⟩ := hf
      obtain ⟨d, -, rfl⟩ := List.mem_map.mp hd
      exact hnames (stringsFirst_names d)
    have hsome : ∃ d ∈ objects.map Image.symbolsFirst, d.Faults :=
      ⟨i.symbolsFirst, List.mem_map_of_mem hi, symbolsFirst_faults hnot⟩
    rw [initDlfcn_eq, initDlfcn_eq, if_neg hnone, if_pos hsome] at hsame
    cases hsame
  · intro h objects' hre
    rw [initDlfcn_inert h, initDlfcn_inert (rearranged_inert hre h)]

/-- The pointers are the first definitions exactly where no name is looked for at `NULL`
    and the object of each first definition has its hash and its strings before its
    symbols; the order never makes a difference exactly where nothing is read in any. -/
theorem retrieves_iff {objects : List Image} (hapart : Apart objects) :
    (Retrieves objects ↔ (∀ i ∈ objects, ¬ i.Faults) ∧ ∀ f i, definer objects f = some i → i.Reads) ∧
      (OrderFree objects ↔ ∀ i ∈ objects, i.Inert) := by
  refine ⟨?_, orderFree_iff objects⟩
  have hfirst : ∀ f, (read objects f).getD 0 = (first objects f).getD 0 ↔
      ∀ i, definer objects f = some i → i.Reads := fun f =>
    (getD_inj (fun addr => findSome?_ne_zero) fun addr => findSome?_ne_zero).trans (read_eq_first_iff hapart f)
  rw [Retrieves, initDlfcn_eq]
  constructor
  · intro h
    obtain ⟨data, hinit, hdata⟩ := h
    rw [Option.ite_none_left_eq_some] at hinit
    obtain ⟨hfaults, hinit⟩ := hinit
    refine ⟨fun i hi hf => hfaults ⟨i, hi, hf⟩, fun f => (hfirst f).mp ?_⟩
    rw [← hdata f, ← Option.some.inj hinit]
  · intro h
    have hfaults : ¬ ∃ i ∈ objects, i.Faults := by
      intro hf
      obtain ⟨i, hi, hf⟩ := hf
      exact h.1 i hi hf
    rw [if_neg hfaults]
    exact ⟨_, rfl, fun f => (hfirst f).mpr (h.2 f)⟩

/-! ## This library -/

/-- The names the library hooks by its own exports. -/
def hooked : List DlfcnField := [.dlsym, .ioctl]

/-- The hooks do not call themselves: the pointers are retrieved, and are not the
    library's own functions. -/
def AvoidsSelf (objects : List Image) (own : DlfcnField → UInt64) : Prop :=
  ∃ data, initDlfcn (objects.map Image.info) = some data ∧ ∀ f ∈ hooked, data f ≠ own f

theorem read_mem {objects : List Image} {f : DlfcnField} {addr : UInt64} (h : read objects f = some addr) :
    ∃ i ∈ objects, i.Reads ∧ i.defines f = some addr := by
  obtain ⟨i, hi, hd⟩ := List.exists_of_findSome?_eq_some h
  obtain ⟨hmem, hreads⟩ := List.mem_filter.mp hi
  exact ⟨i, hmem, of_decide_eq_true hreads, hd⟩

theorem read_eq_none_iff {objects : List Image} {f : DlfcnField} :
    read objects f = none ↔ ¬ ∃ i ∈ objects, i.Reads ∧ (i.defines f).isSome := by
  rw [read, List.findSome?_eq_none_iff]
  simp only [List.mem_filter, decide_eq_true_eq, Option.isSome_iff_ne_none]
  constructor
  · intro h hex
    obtain ⟨i, hi, hreads, hd⟩ := hex
    exact hd (h i ⟨hi, hreads⟩)
  · intro h i hi
    by_contra hd
    exact h ⟨i, hi.1, hi.2, hd⟩

theorem read_append (objects objects' : List Image) (f : DlfcnField) :
    read (objects ++ objects') f = (read objects f).or (read objects' f) := by
  rw [read, List.filter_append, List.findSome?_append]
  rfl

theorem read_ne_own_iff {before after : List Image} {me : Image} (hapart : Apart (before ++ me :: after))
    {f : DlfcnField} {own : UInt64} (hown : me.defines f = some own) :
    (read (before ++ me :: after) f).getD 0 ≠ own ↔
      (me.Reads → ∃ i ∈ before, i.Reads ∧ (i.defines f).isSome) := by
  obtain ⟨-, hrest, hbefore⟩ := List.pairwise_append.mp hapart
  obtain ⟨hafter, -⟩ := List.pairwise_cons.mp hrest
  rw [read_append]
  cases hread : read before f with
  | some addr =>
    obtain ⟨i, hi, hreads, hd⟩ := read_mem hread
    refine iff_of_true ?_ fun _ => ⟨i, hi, hreads, by rw [hd]; rfl⟩
    intro he
    have he : addr = own := he
    rw [← he] at hown
    exact hbefore i hi me List.mem_cons_self f addr hd hown
  | none =>
    have hnot := read_eq_none_iff.mp hread
    rw [Option.none_or]
    by_cases hreads : me.Reads
    · refine iff_of_false ?_ fun h => hnot (h hreads)
      rw [read, List.filter_cons_of_pos (by simpa using hreads), List.findSome?_cons, hown]
      exact not_not.mpr rfl
    · refine iff_of_true ?_ fun h => absurd h hreads
      have hskip : read (me :: after) f = read after f := by
        rw [read, List.filter_cons_of_neg (by simpa using hreads)]
        rfl
      rw [hskip]
      cases hlater : read after f with
      | none => exact (Image.defines_ne_zero hown).symm
      | some addr =>
        obtain ⟨i, hi, -, hd⟩ := read_mem hlater
        intro he
        have he : addr = own := he
        rw [he] at hd
        exact hafter i hi f own hown hd

/-- The hooks do not call themselves exactly where no name is looked for at `NULL`, and
    the library is not read, or each name was read in an object before it. -/
theorem avoids_self_iff {before after : List Image} {me : Image} (hapart : Apart (before ++ me :: after))
    {own : DlfcnField → UInt64} (hown : ∀ f ∈ hooked, me.defines f = some (own f)) :
    AvoidsSelf (before ++ me :: after) own ↔ (∀ i ∈ before ++ me :: after, ¬ i.Faults) ∧
      (¬ me.Reads ∨ ∀ f ∈ hooked, ∃ i ∈ before, i.Reads ∧ (i.defines f).isSome) := by
  have hname := fun f (hf : f ∈ hooked) => read_ne_own_iff hapart (hown f hf)
  rw [AvoidsSelf, initDlfcn_eq]
  constructor
  · intro h
    obtain ⟨data, hinit, hdata⟩ := h
    rw [Option.ite_none_left_eq_some] at hinit
    obtain ⟨hfaults, hinit⟩ := hinit
    refine ⟨fun i hi hf => hfaults ⟨i, hi, hf⟩, ?_⟩
    by_cases hreads : me.Reads
    · refine Or.inr fun f hf => (hname f hf).mp ?_ hreads
      have hne := hdata f hf
      rwa [← Option.some.inj hinit] at hne
    · exact Or.inl hreads
  · intro h
    have hfaults : ¬ ∃ i ∈ before ++ me :: after, i.Faults := by
      intro hf
      obtain ⟨i, hi, hf⟩ := hf
      exact h.1 i hi hf
    rw [if_neg hfaults]
    refine ⟨_, rfl, fun f hf => (hname f hf).mpr fun hreads => ?_⟩
    exact h.2.resolve_left (not_not.mpr hreads) f hf

/-! ### Two libraries that export `dlsym` and `ioctl` -/

def exportBytes : List UInt8 := 0 :: DlfcnField.dlsym.name ++ 0 :: DlfcnField.ioctl.name ++ [0]

def exportSyms : List Sym := [⟨0, 0⟩, ⟨1, 0x10⟩, ⟨7, 0x20⟩]

theorem exportSyms_valid {dlpiAddr : UInt64} (h : dlpiAddr.toNat < 2 ^ 63) :
    ∀ sym ∈ exportSyms, sym.Valid dlpiAddr exportBytes := by
  have hvalue : ∀ sym ∈ exportSyms,
      sym.stValue.toNat < 2 ^ 63 ∧ (str (exportBytes.drop sym.stName.toNat)).isSome := by
    decide
  intro sym hsym
  obtain ⟨hlt, hname⟩ := hvalue sym hsym
  exact ⟨Option.isSome_iff_exists.mp hname, by omega⟩

/-- A library at an address below 2^63, by its name, its hash and the order of its
    entries. -/
def exporter (dlpiAddr : UInt64) (dlpiName : List UInt8) (nbucket : Option UInt32) (dynamic : List Dyn)
    (perm : dynamic.Perm (hashEntry nbucket 3 ++ [.strtab exportBytes, .symtab exportSyms]))
    (h : dlpiAddr.toNat < 2 ^ 63) : Image where
  dlpiAddr := dlpiAddr
  dlpiName := dlpiName
  nbucket := nbucket
  bytes := exportBytes
  syms := exportSyms
  others := []
  dynamic := dynamic
  perm := perm
  counted := by decide
  valid := exportSyms_valid h
  before := []
  after := []
  single := nofun

def libcName : List UInt8 := ['/', 'l', 'i', 'b', 'c', '.', 's', 'o', '.', '6'].map Char.toUInt8

def hookName : List UInt8 :=
  ['/', 'l', 'i', 'b', 'c', 'u', 'd', 'a', '_', 'h', 'o', 'o', 'k', '.', 's', 'o'].map Char.toUInt8

/-- With its hash and its strings first. -/
def libc : Image := exporter 0x9000 libcName (some 1) [.hash 1 3, .strtab exportBytes, .symtab exportSyms]
  (List.Perm.refl _) (by decide)

/-- With its symbols before its hash. -/
def libcSymbolsFirst : Image := exporter 0x9000 libcName (some 1) [.symtab exportSyms, .hash 1 3, .strtab exportBytes]
  (by decide) (by decide)

def hookLibrary (nbucket : Option UInt32) : Image := exporter 0x1000 hookName nbucket
  (hashEntry nbucket 3 ++ [.strtab exportBytes, .symtab exportSyms]) (List.Perm.refl _) (by decide)

theorem retrieves_iff_run : Retrieves [libc] :=
  (retrieves_iff (List.pairwise_singleton _ _)).1.mpr ⟨by decide, fun f i hi => by
    cases List.mem_singleton.mp (List.mem_of_find?_eq_some hi)
    decide⟩

theorem symbols_first_missed : initDlfcn [libcSymbolsFirst.info] = some (fun _ => 0) ∧
    first [libcSymbolsFirst] .dlsym = some 0x9010 ∧ ¬ Retrieves [libcSymbolsFirst] ∧
    Rearranged libcSymbolsFirst libc ∧ ¬ OrderFree [libcSymbolsFirst] := by
  have hinit : initDlfcn [libcSymbolsFirst.info] = some fun _ => 0 := rfl
  have hfirst : first [libcSymbolsFirst] .dlsym = some 0x9010 := by decide
  refine ⟨hinit, hfirst, ?_, ⟨_, _, rfl⟩, ?_⟩
  · intro h
    obtain ⟨data, hdata, hall⟩ := h
    cases hinit.symm.trans hdata
    have hzero := hall .dlsym
    rw [hfirst] at hzero
    exact absurd hzero (by decide)
  · intro h
    rcases (orderFree_iff _).mp h libcSymbolsFirst (List.mem_singleton_self _) with hi | hi | hi
    · exact absurd hi (by decide)
    · cases hi
    · exact absurd hi (by decide)

theorem hook_apart (nbucket : Option UInt32) : ∀ f addr, (hookLibrary nbucket).defines f = some addr →
    libc.defines f ≠ some addr := by
  intro f addr h h'
  rw [← h'] at h
  cases f with
  | dlsym => exact absurd (show some (0x1010 : UInt64) = some 0x9010 from h) (by decide)
  | ioctl => exact absurd (show some (0x1020 : UInt64) = some 0x9020 from h) (by decide)
  | _ => cases h'

/-- Linked without `DT_HASH` the library passes itself over. -/
theorem avoids_self_iff_run : AvoidsSelf [hookLibrary none, libc] fun f => if f = .dlsym then 0x1010 else 0x1020 :=
  (@avoids_self_iff [] [libc] (hookLibrary none) (List.pairwise_pair.mpr (hook_apart none)) _ (by decide)).mpr
    ⟨by decide, Or.inl (by decide)⟩

/-- With it, and preloaded, it finds itself. -/
theorem finds_self : Apart [hookLibrary (some 1), libc] ∧ (hookLibrary (some 1)).defines .dlsym = some 0x1010 ∧
    (hookLibrary (some 1)).defines .ioctl = some 0x1020 ∧ libc.Reads ∧ libc.defines .dlsym = some 0x9010 ∧
    libc.defines .ioctl = some 0x9020 ∧
    (initDlfcn [(hookLibrary (some 1)).info, libc.info]).map (· .dlsym) = some 0x1010 ∧
    (initDlfcn [(hookLibrary (some 1)).info, libc.info]).map (· .ioctl) = some 0x1020 ∧
    ¬ AvoidsSelf [hookLibrary (some 1), libc] fun f => if f = .dlsym then 0x1010 else 0x1020 := by
  have hdlsym : (initDlfcn [(hookLibrary (some 1)).info, libc.info]).map (· .dlsym) = some 0x1010 := by decide
  refine ⟨List.pairwise_pair.mpr (hook_apart (some 1)), by decide, by decide, by decide, by decide, by decide, hdlsym,
    by decide, fun h => ?_⟩
  obtain ⟨data, hdata, hne⟩ := h
  have hdata : initDlfcn [(hookLibrary (some 1)).info, libc.info] = some data := hdata
  rw [hdata, Option.map_some, Option.some_inj] at hdlsym
  exact hne .dlsym (by decide) hdlsym

end NvResourceController.Cuda
