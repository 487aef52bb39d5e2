/-
  NvResourceController.Cuda.Symbols — how the library finds the functions it hooks
  (`src/entry.c`, `retrieve_symbols`): it walks the symbol tables of all loaded objects,
  as their dynamic sections give them, and keeps the first definition of each name.

  The entries of a dynamic section are read once, in their order: the hash gives the
  number of symbols and the string table their names, and the symbol table is walked when
  its entry is reached, with what is known by then.

  - `storeSymbol_eq`, `readSyms_eq`: what a walk of a symbol table stores.
  - `readEntries_eq`: what of a dynamic section is read.
-/

import Mathlib.Algebra.GroupWithZero.Nat
import Mathlib.Logic.Function.Basic
import NvResourceController.Lib.CString

namespace NvResourceController.Cuda

open CString

/-! ## `retrieve_symbols` -/

/-- The pointers of `dlfcn_t`. -/
inductive DlfcnField where
  | dlsym
  | dlopen
  | dlclose
  | dladdr
  | ioctl
  deriving DecidableEq, Repr

def DlfcnField.name : DlfcnField → List UInt8
  | dlsym => ['d', 'l', 's', 'y', 'm'].map Char.toUInt8
  | dlopen => ['d', 'l', 'o', 'p', 'e', 'n'].map Char.toUInt8
  | dlclose => ['d', 'l', 'c', 'l', 'o', 's', 'e'].map Char.toUInt8
  | dladdr => ['d', 'l', 'a', 'd', 'd', 'r'].map Char.toUInt8
  | ioctl => ['i', 'o', 'c', 't', 'l'].map Char.toUInt8

/-- In the order of the comparisons. -/
def dlfcnFields : List DlfcnField := [.dlsym, .dlopen, .dlclose, .dladdr, .ioctl]

/-- `dlfcn_t`; `NULL` is 0. -/
abbrev Dlfcn : Type := DlfcnField → UInt64

structure Sym where
  stName : UInt32
  stValue : UInt64
  deriving DecidableEq, Repr

/-- `ElfW(Dyn)`, with what its pointer points to. -/
inductive Dyn where
  /-- `DT_HASH`, by its first two words. -/
  | hash (nbucket nchain : UInt32)
  /-- `DT_STRTAB`. -/
  | strtab (bytes : List UInt8)
  /-- `DT_SYMTAB`. -/
  | symtab (syms : List Sym)
  /-- Any other tag but `DT_NULL`, which ends the section. -/
  | other (tag : Int64)
  deriving DecidableEq, Repr

/-- `ElfW(Phdr)`, with the section a header of type `PT_DYNAMIC` points to. -/
structure Phdr where
  pType : UInt32
  dynamic : List Dyn
  deriving DecidableEq, Repr

structure PhdrInfo where
  dlpiAddr : UInt64
  dlpiName : List UInt8
  dlpiPhdr : List Phdr
  deriving DecidableEq, Repr

def ptDynamic : UInt32 := 2

def linuxVdso : List UInt8 :=
  ['l', 'i', 'n', 'u', 'x', '-', 'v', 'd', 's', 'o', '.', 's', 'o', '.', '1'].map Char.toUInt8

/-- What follows the last slash. -/
def basename (name : List UInt8) : List UInt8 := (afterLast (Char.toUInt8 '/') name).getD name

/-- The variables of `retrieve_symbols`. -/
structure Walk where
  symCnt : UInt32
  /-- `NULL` at first. -/
  strtab : Option (List UInt8)
  data : Dlfcn

/-- The comparisons of a name with those of the pointers; `none` for a name that does not
    end. -/
def storeSymbol (symName : List UInt8) (symAddr : UInt64) (data : Dlfcn) : List DlfcnField → Option Dlfcn
  | [] => some data
  | f :: fs => (strcmp symName (f.name ++ [0])).bind fun same =>
    if same then some (if data f = 0 then Function.update data f symAddr else data)
    else storeSymbol symName symAddr data fs

/-- The loop over the symbol table; `none` for a name looked for at `NULL`. -/
def readSyms (dlpiAddr : UInt64) (strtab : Option (List UInt8)) : List Sym → Dlfcn → Option Dlfcn
  | [], data => some data
  | sym :: rest, data =>
    let symAddr := dlpiAddr + sym.stValue
    -- a needed symbol
    if symAddr = dlpiAddr then readSyms dlpiAddr strtab rest data
    else strtab.bind fun bytes =>
      (storeSymbol (bytes.drop sym.stName.toNat) symAddr data dlfcnFields).bind fun data =>
        readSyms dlpiAddr strtab rest data

/-- One entry of a dynamic section; `none` for symbols read past the table. -/
def readEntry (dlpiAddr : UInt64) (w : Walk) : Dyn → Option Walk
  | .hash _ nchain => some { w with symCnt := nchain }
  | .strtab bytes => some { w with strtab := some bytes }
  | .symtab syms =>
    if w.symCnt.toNat ≤ syms.length then
      (readSyms dlpiAddr w.strtab (syms.take w.symCnt.toNat) w.data).map fun data => { w with data := data }
    else none
  | .other _ => some w

def readEntries (dlpiAddr : UInt64) : List Dyn → Walk → Option Walk
  | [], w => some w
  | e :: rest, w => (readEntry dlpiAddr w e).bind (readEntries dlpiAddr rest)

def readHeaders (dlpiAddr : UInt64) : List Phdr → Walk → Option Walk
  | [], w => some w
  | p :: rest, w =>
    if p.pType ≠ ptDynamic then readHeaders dlpiAddr rest w
    else (readEntries dlpiAddr p.dynamic w).bind (readHeaders dlpiAddr rest)

def retrieveSymbols (info : PhdrInfo) (data : Dlfcn) : Option Dlfcn :=
  let libname := basename info.dlpiName
  if libname = [] ∨ libname = linuxVdso then some data
  else (readHeaders info.dlpiAddr info.dlpiPhdr ⟨0, none, data⟩).map Walk.data

/-- `dl_iterate_phdr` goes on while 0 is returned, which it always is. -/
def dlIteratePhdr : List PhdrInfo → Dlfcn → Option Dlfcn
  | [], data => some data
  | info :: rest, data => (retrieveSymbols info data).bind (dlIteratePhdr rest)

/-- What `init` leaves in `__dlfcn_data`. -/
def initDlfcn (objects : List PhdrInfo) : Option Dlfcn := dlIteratePhdr objects fun _ => 0

/-! ## A symbol table -/

theorem name_inj {f g : DlfcnField} : f.name = g.name ↔ f = g := by
  constructor
  · intro h
    cases f <;> cases g <;> first | rfl | exact absurd h (by decide)
  · intro h
    rw [h]

theorem mem_dlfcnFields (f : DlfcnField) : f ∈ dlfcnFields := by
  cases f <;> decide

theorem str_name (f : DlfcnField) : str (f.name ++ [0]) = some f.name := by
  refine str_append_zero ?_ []
  cases f <;> decide

/-- A pointer that is still `NULL` gets the address, if it has the name. -/
def Dlfcn.keep (data : Dlfcn) (found : DlfcnField → Option UInt64) : Dlfcn := fun f =>
  if data f = 0 then (found f).getD 0 else data f

theorem Dlfcn.keep_of_none {data : Dlfcn} {found : DlfcnField → Option UInt64} {f : DlfcnField}
    (h : found f = none) : data.keep found f = data f := by
  rw [Dlfcn.keep, h]
  split
  · rename_i hz
    exact hz.symm
  · rfl

theorem Dlfcn.keep_none (data : Dlfcn) : (data.keep fun _ => none) = data := funext fun _ => keep_of_none rfl

theorem Dlfcn.keep_keep {data : Dlfcn} {found : DlfcnField → Option UInt64}
    (h : ∀ f addr, found f = some addr → addr ≠ 0) (found' : DlfcnField → Option UInt64) :
    (data.keep found).keep found' = data.keep fun f => (found f).or (found' f) := by
  funext f
  cases hf : found f with
  | none =>
    have hsame : data.keep found f = data f := keep_of_none hf
    simp only [Dlfcn.keep, hf, Option.none_or] at hsame ⊢
    rw [hsame]
  | some addr =>
    have hne := h f addr hf
    by_cases hz : data f = 0
    · simp [Dlfcn.keep, hz, hf, hne]
    · simp [Dlfcn.keep, hz]

theorem storeSymbol_eq {symName name : List UInt8} (h : str symName = some name) (symAddr : UInt64) (data : Dlfcn)
    (fs : List DlfcnField) :
    storeSymbol symName symAddr data fs =
      some (data.keep fun f => if f ∈ fs ∧ f.name = name then some symAddr else none) := by
  induction fs with
  | nil =>
    rw [storeSymbol, Option.some_inj]
    funext f
    exact (Dlfcn.keep_of_none (if_neg fun hf => absurd hf.1 List.not_mem_nil)).symm
  | cons g fs ih =>
    rw [storeSymbol, strcmp_eq h (str_name g), Option.bind_some]
    by_cases hg : name = g.name
    · -- the first name that fits is `g`'s, and no other fits
      rw [decide_eq_true hg, if_pos rfl, Option.some_inj]
      funext f
      by_cases hf : f = g
      · subst hf
        by_cases hz : data f = 0
        · simp [Dlfcn.keep, hz, hg]
        · simp [Dlfcn.keep, hz]
      · have hne : f.name ≠ name := by
          rw [hg]
          exact mt name_inj.mp hf
        rw [Dlfcn.keep_of_none (if_neg fun h => hne h.2)]
        split
        · exact Function.update_of_ne hf _ _
        · rfl
    · rw [decide_eq_false hg, if_neg Bool.false_ne_true, ih, Option.some_inj]
      congr 1
      funext f
      have hmem : f ∈ g :: fs ∧ f.name = name ↔ f ∈ fs ∧ f.name = name := by
        constructor
        · intro hf
          refine ⟨(List.mem_cons.mp hf.1).resolve_left ?_, hf.2⟩
          intro he
          rw [he] at hf
          exact hg hf.2.symm
        · intro hf
          exact ⟨List.mem_cons_of_mem g hf.1, hf.2⟩
      simp only [hmem]

/-- The address the symbol gives to a pointer. -/
def Sym.defines (dlpiAddr : UInt64) (bytes : List UInt8) (f : DlfcnField) (sym : Sym) : Option UInt64 :=
  if sym.stValue ≠ 0 ∧ str (bytes.drop sym.stName.toNat) = some f.name then some (dlpiAddr + sym.stValue) else none

/-- The name ends, and the address is not past the last. -/
structure Sym.Valid (dlpiAddr : UInt64) (bytes : List UInt8) (sym : Sym) : Prop where
  name : ∃ name, str (bytes.drop sym.stName.toNat) = some name
  addr : dlpiAddr.toNat + sym.stValue.toNat < 2 ^ 64

theorem Sym.Valid.ne_zero {dlpiAddr : UInt64} {bytes : List UInt8} {sym : Sym} (h : sym.Valid dlpiAddr bytes)
    {f : DlfcnField} {addr : UInt64} (hd : sym.defines dlpiAddr bytes f = some addr) : addr ≠ 0 := by
  rw [Sym.defines, Option.ite_none_right_eq_some] at hd
  obtain ⟨⟨hval, -⟩, hd⟩ := hd
  rw [← Option.some.inj hd]
  intro hzero
  have hsum := h.addr
  have hzero := congrArg UInt64.toNat hzero
  rw [UInt64.toNat_add, Nat.mod_eq_of_lt hsum, UInt64.toNat_zero] at hzero
  exact hval (UInt64.toNat_inj.mp (by rw [UInt64.toNat_zero]; omega))

theorem needed_iff (dlpiAddr stValue : UInt64) : dlpiAddr + stValue = dlpiAddr ↔ stValue = 0 := by
  constructor
  · intro h
    have h := congrArg (fun x => x - dlpiAddr) h
    simpa [UInt64.add_comm dlpiAddr] using h
  · intro h
    rw [h, UInt64.add_zero]

theorem readSyms_eq {dlpiAddr : UInt64} {bytes : List UInt8} {syms : List Sym}
    (h : ∀ sym ∈ syms, sym.Valid dlpiAddr bytes) (data : Dlfcn) :
    readSyms dlpiAddr (some bytes) syms data =
      some (data.keep fun f => syms.findSome? (Sym.defines dlpiAddr bytes f)) := by
  induction syms generalizing data with
  | nil =>
    rw [readSyms]
    exact congrArg some (Dlfcn.keep_none data).symm
  | cons sym rest ih =>
    have hrest : ∀ s ∈ rest, s.Valid dlpiAddr bytes := fun s hs => h s (List.mem_cons_of_mem sym hs)
    have hvalid := h sym List.mem_cons_self
    obtain ⟨name, hname⟩ := hvalid.name
    rw [readSyms]
    by_cases hval : sym.stValue = 0
    · have hnone : ∀ f, sym.defines dlpiAddr bytes f = none := fun f => if_neg fun h => h.1 hval
      rw [if_pos ((needed_iff _ _).mpr hval), ih hrest]
      simp only [List.findSome?_cons, hnone]
    · have hstored : (fun f => if f ∈ dlfcnFields ∧ f.name = name then some (dlpiAddr + sym.stValue) else none) =
          fun f => sym.defines dlpiAddr bytes f := by
        funext f
        simp [Sym.defines, hname, hval, mem_dlfcnFields f, eq_comm (a := name)]
      rw [if_neg (mt (needed_iff _ _).mp hval), Option.bind_some, storeSymbol_eq hname, Option.bind_some, ih hrest,
        hstored, Dlfcn.keep_keep fun f addr => hvalid.ne_zero, Option.some_inj]
      congr 1
      funext f
      rw [List.findSome?_cons]
      cases sym.defines dlpiAddr bytes f <;> rfl

theorem readSyms_null (dlpiAddr : UInt64) (syms : List Sym) (data : Dlfcn) :
    readSyms dlpiAddr none syms data = if ∀ sym ∈ syms, sym.stValue = 0 then some data else none := by
  induction syms with
  | nil => simp [readSyms]
  | cons sym rest ih =>
    rw [readSyms]
    by_cases hval : sym.stValue = 0
    · rw [if_pos ((needed_iff _ _).mpr hval), ih]
      simp [hval]
    · rw [if_neg (mt (needed_iff _ _).mp hval), Option.bind_none]
      simp [hval]

/-! ## An object -/

/-- The entry for a hash of `count` symbols, if there is one. -/
def hashEntry (nbucket : Option UInt32) (count : ℕ) : List Dyn := nbucket.toList.map (.hash · (UInt32.ofNat count))

/-- A loaded object: what its dynamic section points to, and the order of the entries. -/
structure Image where
  dlpiAddr : UInt64
  dlpiName : List UInt8
  /-- The first word of `DT_HASH`, for objects that have one. -/
  nbucket : Option UInt32
  bytes : List UInt8
  syms : List Sym
  others : List Int64
  dynamic : List Dyn
  perm : dynamic.Perm (hashEntry nbucket syms.length ++ .strtab bytes :: .symtab syms :: others.map .other)
  counted : syms.length < 2 ^ 32
  valid : ∀ sym ∈ syms, sym.Valid dlpiAddr bytes
  before : List Phdr
  after : List Phdr
  single : ∀ p ∈ before ++ after, p.pType ≠ ptDynamic

def Image.info (i : Image) : PhdrInfo := ⟨i.dlpiAddr, i.dlpiName, i.before ++ ⟨ptDynamic, i.dynamic⟩ :: i.after⟩

/-- The object is passed over for its name. -/
def Image.Skipped (i : Image) : Prop := basename i.dlpiName = [] ∨ basename i.dlpiName = linuxVdso

instance (i : Image) : Decidable i.Skipped := inferInstanceAs (Decidable (_ ∨ _))

def Dyn.isHash : Dyn → Bool
  | .hash _ _ => true
  | _ => false

def Dyn.isStrtab : Dyn → Bool
  | .strtab _ => true
  | _ => false

def Dyn.isSymtab : Dyn → Bool
  | .symtab _ => true
  | _ => false

/-- The entries before the symbol table. -/
def Image.known (i : Image) : List Dyn := i.dynamic.takeWhile fun e => !e.isSymtab

/-- The symbols are counted when the table is reached. -/
def Image.Counts (i : Image) : Prop := i.known.any Dyn.isHash

/-- Their names are known. -/
def Image.Names (i : Image) : Prop := i.known.any Dyn.isStrtab

instance (i : Image) : Decidable i.Counts := inferInstanceAs (Decidable (_ = true))

instance (i : Image) : Decidable i.Names := inferInstanceAs (Decidable (_ = true))

def Image.Reads (i : Image) : Prop := ¬ i.Skipped ∧ i.Counts ∧ i.Names

/-- It has a symbol whose name is looked for at `NULL`. -/
def Image.Faults (i : Image) : Prop := ¬ i.Skipped ∧ i.Counts ∧ ¬ i.Names ∧ ∃ sym ∈ i.syms, sym.stValue ≠ 0

instance (i : Image) : Decidable i.Reads := inferInstanceAs (Decidable (_ ∧ _))

instance (i : Image) : Decidable i.Faults := inferInstanceAs (Decidable (_ ∧ _))

/-- The address of the first definition in the object. -/
def Image.defines (i : Image) (f : DlfcnField) : Option UInt64 := i.syms.findSome? (Sym.defines i.dlpiAddr i.bytes f)

theorem Image.defines_ne_zero {i : Image} {f : DlfcnField} {addr : UInt64} (h : i.defines f = some addr) :
    addr ≠ 0 := by
  obtain ⟨before, sym, after, hsyms, hdef, -⟩ := List.findSome?_eq_some_iff.mp h
  exact (i.valid sym (by simp [hsyms])).ne_zero hdef

/-- Entries of the object other than its symbol table. -/
def Dyn.Of (i : Image) : Dyn → Prop
  | .hash _ nchain => nchain = UInt32.ofNat i.syms.length
  | .strtab bytes => bytes = i.bytes
  | .symtab _ => False
  | .other _ => True

theorem readEntries_of {i : Image} {es : List Dyn} (h : ∀ e ∈ es, e.Of i) (w : Walk) :
    readEntries i.dlpiAddr es w = some ⟨if es.any Dyn.isHash then UInt32.ofNat i.syms.length else w.symCnt,
      if es.any Dyn.isStrtab then some i.bytes else w.strtab, w.data⟩ := by
  induction es generalizing w with
  | nil => rfl
  | cons e es ih =>
    have hes : ∀ e ∈ es, e.Of i := fun d hd => h d (List.mem_cons_of_mem e hd)
    have he := h e List.mem_cons_self
    cases e with
    | hash nbucket nchain =>
      obtain rfl : nchain = UInt32.ofNat i.syms.length := he
      simp [readEntries, readEntry, ih hes, Dyn.isHash, Dyn.isStrtab]
    | strtab bytes =>
      obtain rfl : bytes = i.bytes := he
      simp [readEntries, readEntry, ih hes, Dyn.isHash, Dyn.isStrtab]
    | symtab syms => exact absurd he id
    | other tag => simp [readEntries, readEntry, ih hes, Dyn.isHash, Dyn.isStrtab]

theorem readEntries_append (dlpiAddr : UInt64) (es es' : List Dyn) (w : Walk) :
    readEntries dlpiAddr (es ++ es') w = (readEntries dlpiAddr es w).bind (readEntries dlpiAddr es') := by
  induction es generalizing w with
  | nil => rfl
  | cons e es ih =>
    rw [List.cons_append, readEntries, readEntries]
    cases readEntry dlpiAddr w e with
    | none => rfl
    | some w' => exact ih w'

theorem Image.mem_dynamic {i : Image} {e : Dyn} (h : e ∈ i.dynamic) : e.Of i ∨ e = .symtab i.syms := by
  have h := i.perm.mem_iff.mp h
  rcases List.mem_append.mp h with h | h
  · obtain ⟨nbucket, -, rfl⟩ := List.mem_map.mp h
    exact Or.inl rfl
  · rcases List.mem_cons.mp h with rfl | h
    · exact Or.inl rfl
    · rcases List.mem_cons.mp h with rfl | h
      · exact Or.inr rfl
      · obtain ⟨tag, -, rfl⟩ := List.mem_map.mp h
        exact Or.inl trivial

theorem Image.filter_dynamic (i : Image) : i.dynamic.filter Dyn.isSymtab = [.symtab i.syms] := by
  refine List.perm_singleton.mp ((i.perm.filter Dyn.isSymtab).trans ?_)
  have hothers : (i.others.map Dyn.other).filter Dyn.isSymtab = [] := by
    refine List.filter_eq_nil_iff.mpr fun e he => ?_
    obtain ⟨tag, -, rfl⟩ := List.mem_map.mp he
    exact Bool.false_ne_true
  have hhash : (hashEntry i.nbucket i.syms.length).filter Dyn.isSymtab = [] := by
    refine List.filter_eq_nil_iff.mpr fun e he => ?_
    obtain ⟨nbucket, -, rfl⟩ := List.mem_map.mp he
    exact Bool.false_ne_true
  rw [List.filter_append, hhash, List.filter_cons_of_neg Bool.false_ne_true, List.filter_cons_of_pos rfl, hothers,
    List.nil_append]

theorem Image.split (i : Image) : ∃ rest, i.dynamic = i.known ++ .symtab i.syms :: rest ∧
    (∀ e ∈ i.known, e.Of i) ∧ ∀ e ∈ rest, e.Of i := by
  have hof : ∀ e ∈ i.dynamic, e.isSymtab = false → e.Of i := by
    intro e he hnot
    refine (Image.mem_dynamic he).resolve_right fun h => ?_
    rw [h] at hnot
    cases hnot
  have hknown : ∀ e ∈ i.known, e.isSymtab = false := by
    intro e he
    simpa using List.mem_takeWhile_imp he
  have hsplit : i.known ++ i.dynamic.dropWhile (fun e => !e.isSymtab) = i.dynamic := List.takeWhile_append_dropWhile
  have hfilter := i.filter_dynamic
  rw [← hsplit, List.filter_append,
    List.filter_eq_nil_iff.mpr (fun e he => by rw [hknown e he]; exact Bool.false_ne_true),
    List.nil_append] at hfilter
  cases hdrop : i.dynamic.dropWhile fun e => !e.isSymtab with
  | nil =>
    rw [hdrop] at hfilter
    cases hfilter
  | cons e rest =>
    have hhead : e.isSymtab = true := by
      have := List.head?_dropWhile_not (fun e => !e.isSymtab) i.dynamic
      rw [hdrop] at this
      simpa using this
    rw [hdrop, List.filter_cons_of_pos hhead] at hfilter
    obtain ⟨rfl, hrest⟩ := List.cons.inj hfilter
    rw [hdrop] at hsplit
    refine ⟨rest, hsplit.symm, ?_, ?_⟩
    · intro e he
      exact hof e (by rw [← hsplit]; exact List.mem_append_left _ he) (hknown e he)
    · intro e he
      exact hof e (by rw [← hsplit]; simp [he]) (by simpa using List.filter_eq_nil_iff.mp hrest e he)

/-- What the walk of an object leaves. -/
theorem readEntries_eq (i : Image) (data : Dlfcn) :
    (readEntries i.dlpiAddr i.dynamic ⟨0, none, data⟩).map Walk.data =
      if i.Counts then
        if i.Names then some (data.keep i.defines)
        else if ∀ sym ∈ i.syms, sym.stValue = 0 then some data else none
      else some data := by
  obtain ⟨rest, hsplit, hknown, hrest⟩ := i.split
  have hcount : (UInt32.ofNat i.syms.length).toNat = i.syms.length :=
    UInt32.toNat_ofNat_of_lt i.counted
  rw [hsplit, readEntries_append, readEntries_of hknown, Option.bind_some, readEntries, readEntry]
  by_cases hc : i.Counts
  · have hc' : i.known.any Dyn.isHash = true := hc
    rw [if_pos hc', if_pos hc, if_pos (by rw [hcount]), hcount, List.take_length]
    by_cases hn : i.Names
    · have hn' : i.known.any Dyn.isStrtab = true := hn
      rw [if_pos hn', if_pos hn, readSyms_eq i.valid, Option.map_some, Option.bind_some, readEntries_of hrest]
      rfl
    · have hn' : ¬ i.known.any Dyn.isStrtab = true := hn
      rw [if_neg hn', if_neg hn, readSyms_null]
      split
      · rw [Option.map_some, Option.bind_some, readEntries_of hrest]
        rfl
      · rfl
  · have hc' : ¬ i.known.any Dyn.isHash = true := hc
    rw [if_neg hc', if_neg hc, if_pos (by exact Nat.zero_le _)]
    show (((readSyms i.dlpiAddr _ (i.syms.take 0) data).map _).bind _).map _ = _
    rw [List.take_zero, readSyms, Option.map_some, Option.bind_some, readEntries_of hrest]
    rfl

theorem readHeaders_other {dlpiAddr : UInt64} {ps : List Phdr} (h : ∀ p ∈ ps, p.pType ≠ ptDynamic) (rest : List Phdr)
    (w : Walk) : readHeaders dlpiAddr (ps ++ rest) w = readHeaders dlpiAddr rest w := by
  induction ps with
  | nil => rfl
  | cons p ps ih =>
    rw [List.cons_append, readHeaders, if_pos (h p List.mem_cons_self)]
    exact ih fun d hd => h d (List.mem_cons_of_mem p hd)

theorem retrieveSymbols_eq (i : Image) (data : Dlfcn) :
    retrieveSymbols i.info data =
      if i.Faults then none else if i.Reads then some (data.keep i.defines) else some data := by
  have hbefore : ∀ p ∈ i.before, p.pType ≠ ptDynamic := fun p hp => i.single p (List.mem_append_left _ hp)
  have hafter : ∀ p ∈ i.after, p.pType ≠ ptDynamic := fun p hp => i.single p (List.mem_append_right _ hp)
  rw [retrieveSymbols]
  by_cases hskip : i.Skipped
  · have hname : basename i.info.dlpiName = [] ∨ basename i.info.dlpiName = linuxVdso := hskip
    rw [if_pos hname, if_neg fun h => h.1 hskip, if_neg fun h => h.1 hskip]
  · have hheaders : (readHeaders i.dlpiAddr i.info.dlpiPhdr ⟨0, none, data⟩).map Walk.data =
        (readEntries i.dlpiAddr i.dynamic ⟨0, none, data⟩).map Walk.data := by
      rw [Image.info, readHeaders_other hbefore, readHeaders, if_neg (not_not.mpr rfl)]
      cases readEntries i.dlpiAddr i.dynamic ⟨0, none, data⟩ with
      | none => rfl
      | some w =>
        have hrest := @readHeaders_other i.dlpiAddr _ hafter [] w
        rw [List.append_nil] at hrest
        rw [Option.bind_some, hrest]
        rfl
    have hfaults : i.Faults ↔ i.Counts ∧ ¬ i.Names ∧ ¬ ∀ sym ∈ i.syms, sym.stValue = 0 := by
      simp [Image.Faults, hskip]
    have hreads : i.Reads ↔ i.Counts ∧ i.Names := by simp [Image.Reads, hskip]
    have hname : ¬ (basename i.info.dlpiName = [] ∨ basename i.info.dlpiName = linuxVdso) := hskip
    rw [if_neg hname]
    refine hheaders.trans ((readEntries_eq i data).trans ?_)
    simp only [hfaults, hreads]
    by_cases hc : i.Counts
    · by_cases hn : i.Names
      · simp [hc, hn]
      · by_cases hz : ∀ sym ∈ i.syms, sym.stValue = 0
        · rw [if_pos hc, if_neg hn, if_pos hz, if_neg fun h => h.2.2 hz, if_neg fun h => hn h.2]
        · rw [if_pos hc, if_neg hn, if_neg hz, if_pos ⟨hc, hn, hz⟩]
    · simp [hc]

end NvResourceController.Cuda
