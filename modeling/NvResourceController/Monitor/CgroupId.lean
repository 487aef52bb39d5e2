/-
  NvResourceController.Monitor.CgroupId — the name of a container, as its processes read
  it from `/proc/<pid>/cgroup` (`src/util.c`, `get_cgroup_id`) and as the monitor is
  given it (`src/server_monitor.c`): in the path of the segment they share, and in the
  monitor's choice of a sample.

  `get_cgroup_id` searches the whole buffer of `getline` for the last slash, and what it
  copies from there ends with the line's newline. The monitor has room for 15 bytes of
  its argument, and no NUL after 16.

  - `name_agrees_iff`: so the two names agree only where what is left in the buffer from
    longer lines before reads as the id.
  - `without_leftover`: where nothing is left that has a slash, the paths never agree,
    and a sample is accepted when the id has 15 bytes.
-/

import NvResourceController.Lib.CString

namespace NvResourceController.Monitor

open CString

/-! ## `get_cgroup_id` -/

def slash : UInt8 := Char.toUInt8 '/'

def newline : UInt8 := Char.toUInt8 '\n'

def devices : List UInt8 := ['d', 'e', 'v', 'i', 'c', 'e', 's'].map Char.toUInt8

def pathMax : ℕ := 4096

def maxCgroupIdLen : ℕ := 16

/-- What `getline` leaves in its buffer: a line, and behind its NUL what was there. -/
structure Line where
  text : List UInt8
  leftover : List UInt8
  deriving DecidableEq, Repr

def Line.buffer (l : Line) : List UInt8 := l.text ++ 0 :: l.leftover

/-- The return value, and the buffer of the caller; `none` for a write before it. -/
def getCgroupId : List Line → List UInt8 → Option (Int32 × List UInt8)
  | [], shortId => some (-1, shortId)
  | line :: rest, shortId =>
    if strstr devices line.buffer then
      match afterLast slash line.buffer with
      | some tail =>
        let maxCopy := min tail.length shortId.length
        if maxCopy = 0 then none else some (0, (strncpy shortId tail maxCopy).set (maxCopy - 1) 0)
      | none => getCgroupId rest shortId
    else getCgroupId rest shortId

def Line.Ends (l : Line) : Bool := strstr devices l.buffer && (afterLast slash l.buffer).isSome

theorem getCgroupId_skips {line : Line} (h : line.Ends = false) (rest : List Line) (shortId : List UInt8) :
    getCgroupId (line :: rest) shortId = getCgroupId rest shortId := by
  rw [getCgroupId]
  split
  · rename_i hdev
    cases hlast : afterLast slash line.buffer with
    | some tail => simp [Line.Ends, hdev, hlast] at h
    | none => rfl
  · rfl

theorem getCgroupId_none {cgroup : List Line} (h : cgroup.find? Line.Ends = none) (shortId : List UInt8) :
    getCgroupId cgroup shortId = some (-1, shortId) := by
  induction cgroup with
  | nil => rfl
  | cons line rest ih =>
    rw [List.find?_cons] at h
    cases hends : line.Ends with
    | true =>
      rw [hends] at h
      cases h
    | false =>
      rw [hends] at h
      rw [getCgroupId_skips hends, ih h]

theorem getCgroupId_some {cgroup : List Line} {l : Line} {tail : List UInt8} (h : cgroup.find? Line.Ends = some l)
    (htail : afterLast slash l.buffer = some tail) (shortId : List UInt8) :
    getCgroupId cgroup shortId =
      if min tail.length shortId.length = 0 then none
      else some (0, (strncpy shortId tail (min tail.length shortId.length)).set
        (min tail.length shortId.length - 1) 0) := by
  induction cgroup with
  | nil => cases h
  | cons line rest ih =>
    rw [List.find?_cons] at h
    cases hends : line.Ends with
    | true =>
      rw [hends] at h
      cases h
      have hdev : strstr devices l.buffer = true := (Bool.and_eq_true_iff.mp hends).1
      rw [getCgroupId, if_pos hdev, htail]
    | false =>
      rw [hends] at h
      rw [getCgroupId_skips hends, ih h]

theorem getCgroupId_length {cgroup : List Line} {shortId buf : List UInt8} {ret : Int32}
    (h : getCgroupId cgroup shortId = some (ret, buf)) : buf.length = shortId.length := by
  induction cgroup with
  | nil =>
    cases h
    rfl
  | cons line rest ih =>
    rw [getCgroupId] at h
    split at h
    · split at h
      · dsimp only at h
        rw [Option.ite_none_left_eq_some] at h
        cases h.2
        rw [List.length_set, length_strncpy (Nat.min_le_right _ _)]
      · exact ih h
    · exact ih h

/-! ## The path of the segment -/

/-- `sprintf(path, HOOK_SHM_PATH_PATTERN, minor, cgroup_id)`, into `PATH_MAX` bytes. -/
def shmPath (minor : UInt32) (cgroupId : List UInt8) : Option (List UInt8) :=
  (str cgroupId).bind fun name =>
    let path := ['/', 'c', 'u', 'd', 'a', '_', 'h', 'o', 'o', 'k', '.'].map Char.toUInt8 ++
      (Nat.toDigits 16 minor.toNat).map Char.toUInt8 ++ [Char.toUInt8 '.'] ++ name
    if path.length < pathMax then some path else none

/-- The path in `_init_device_prop`; a process that finds no id exits. -/
def clientPath (cgroup : List Line) (minor : UInt32) : Option (List UInt8) :=
  (getCgroupId cgroup (List.replicate pathMax 0)).bind fun (ret, cgroupId) =>
    if ret < 0 then none else shmPath minor cgroupId

def mainCgroupId (arg : List UInt8) : List UInt8 :=
  strncpy (List.replicate maxCgroupIdLen 0) (arg ++ [0]) maxCgroupIdLen

def watchDogPath (arg : List UInt8) (minor : UInt32) : Option (List UInt8) := shmPath minor (mainCgroupId arg)

/-- The test of a sample in `get_gpu_util`; `target` is the buffer as earlier samples
    left it. -/
def acceptsSample (cgroup : List Line) (arg target : List UInt8) : Option Bool :=
  (getCgroupId cgroup target).bind fun (ret, target) =>
    if ret = 0 then strcmp target (mainCgroupId arg) else some false

/-! ## Agreement -/

/-- The process and the monitor map one segment. -/
def SamePath (cgroup : List Line) (arg : List UInt8) (minor : UInt32) : Prop :=
  ∃ path, clientPath cgroup minor = some path ∧ watchDogPath arg minor = some path

structure IsId (id : List UInt8) : Prop where
  nonempty : id ≠ []
  slash : slash ∉ id
  newline : newline ∉ id
  nul : 0 ∉ id

/-- The process is found by a monitor of its container, and by no other. -/
structure Agrees (cgroup : List Line) (id : List UInt8) : Prop where
  path : ∀ minor, SamePath cgroup id minor
  sample : ∀ target, target.length = maxCgroupIdLen → acceptsSample cgroup id target = some true
  others : ∀ id', IsId id' → id'.length = id.length → id' ≠ id →
    (∀ minor, ¬ SamePath cgroup id' minor) ∧
      ∀ target, target.length = maxCgroupIdLen → acceptsSample cgroup id' target ≠ some true

/-- The lines of a process of the container: the first that has `devices` ends in the
    id. -/
structure InContainer (cgroup : List Line) (id leftover : List UInt8) : Prop where
  isId : IsId id
  line : ∃ before start after, cgroup = before ++ ⟨start ++ slash :: id ++ [newline], leftover⟩ :: after ∧
    (∀ l ∈ before, strstr devices l.buffer = false) ∧
    strstr devices (Line.buffer ⟨start ++ slash :: id ++ [newline], leftover⟩) = true

/-- What is found is the part of the buffer behind the last slash. -/
def tailOf (id leftover : List UInt8) : List UInt8 := (afterLast slash leftover).getD (id ++ newline :: 0 :: leftover)

theorem afterLast_buffer {id : List UInt8} (hid : IsId id) (start leftover : List UInt8) :
    afterLast slash (Line.buffer ⟨start ++ slash :: id ++ [newline], leftover⟩) = some (tailOf id leftover) := by
  have hshape : Line.buffer ⟨start ++ slash :: id ++ [newline], leftover⟩
      = start ++ slash :: (id ++ newline :: 0 :: leftover) := by
    simp [Line.buffer]
  rw [hshape]
  refine afterLast_append ?_ start
  cases h : afterLast slash leftover with
  | some tail =>
    rw [tailOf, h, show slash :: (id ++ newline :: 0 :: leftover) = (slash :: id ++ [newline, 0]) ++ leftover by simp]
    exact afterLast_append h _
  | none =>
    rw [tailOf, h]
    refine afterLast_cons_self ?_
    have hnone := afterLast_eq_none.mp h
    have hne : slash ≠ newline ∧ slash ≠ 0 := by decide
    simp [hid.slash, hne, hnone]

theorem getCgroupId_found {cgroup : List Line} {id leftover shortId : List UInt8} (h : InContainer cgroup id leftover) :
    getCgroupId cgroup shortId =
      if min (tailOf id leftover).length shortId.length = 0 then none
      else some (0, (strncpy shortId (tailOf id leftover) (min (tailOf id leftover).length shortId.length)).set
        (min (tailOf id leftover).length shortId.length - 1) 0) := by
  obtain ⟨before, start, after, rfl, hbefore, hline⟩ := h.line
  have hlast := afterLast_buffer h.isId start leftover
  refine getCgroupId_some ?_ hlast shortId
  have hnone : before.find? Line.Ends = none := by
    refine List.find?_eq_none.mpr fun l hl => ?_
    rw [Line.Ends, hbefore l hl]
    exact Bool.false_ne_true
  have hends : Line.Ends ⟨start ++ slash :: id ++ [newline], leftover⟩ = true := by
    rw [Line.Ends, hline, hlast]
    rfl
  rw [List.find?_append, hnone, Option.none_or, List.find?_cons_of_pos hends]

/-- What the buffer of `get_cgroup_id` reads as. -/
def foundName (id leftover : List UInt8) (idLen : ℕ) : Option (List UInt8) :=
  if min (tailOf id leftover).length idLen = 0 then none
  else some ((content (tailOf id leftover)).take (min (tailOf id leftover).length idLen - 1))

theorem getCgroupId_name {cgroup : List Line} {id leftover : List UInt8} (h : InContainer cgroup id leftover)
    (shortId : List UInt8) :
    (∃ buf, getCgroupId cgroup shortId = some (0, buf) ∧ str buf = foundName id leftover shortId.length) ∨
      (getCgroupId cgroup shortId = none ∧ foundName id leftover shortId.length = none) := by
  rw [getCgroupId_found h, foundName]
  split
  · exact Or.inr ⟨rfl, rfl⟩
  · exact Or.inl ⟨_, rfl, str_terminated (by omega)⟩

theorem str_mainCgroupId {arg : List UInt8} (h : 0 ∉ arg) :
    str (mainCgroupId arg) = if arg.length < maxCgroupIdLen then some arg else none := by
  have hcontent : content (arg ++ [0]) = arg := by rw [content_append h, content_zero, List.append_nil]
  split
  · rw [mainCgroupId, str_strncpy (by rwa [hcontent]), hcontent]
  · refine str_strncpy_full (by rw [hcontent]; omega) (by simp)

theorem shares_mainCgroupId {arg buf : List UInt8} (h : 0 ∉ arg) :
    (∃ name, str buf = some name ∧ str (mainCgroupId arg) = some name) ↔
      arg.length < maxCgroupIdLen ∧ str buf = some arg := by
  rw [str_mainCgroupId h]
  constructor
  · intro hs
    obtain ⟨name, h1, h2⟩ := hs
    obtain ⟨hlt, he⟩ := Option.ite_none_right_eq_some.mp h2
    exact ⟨hlt, h1.trans he.symm⟩
  · intro hs
    exact ⟨arg, hs.2, if_pos hs.1⟩

theorem shmPath_iff {minor : UInt32} {a b : List UInt8} (hfit : ∀ name, str b = some name → name.length < maxCgroupIdLen) :
    (∃ path, shmPath minor a = some path ∧ shmPath minor b = some path) ↔
      ∃ name, str a = some name ∧ str b = some name := by
  constructor
  · intro hp
    obtain ⟨path, ha, hb⟩ := hp
    obtain ⟨name₁, hname₁, h₁⟩ := Option.bind_eq_some_iff.mp ha
    obtain ⟨name₂, hname₂, h₂⟩ := Option.bind_eq_some_iff.mp hb
    obtain ⟨-, hpath₁⟩ := Option.ite_none_right_eq_some.mp h₁
    obtain ⟨-, hpath₂⟩ := Option.ite_none_right_eq_some.mp h₂
    obtain rfl : name₁ = name₂ := List.append_cancel_left (Option.some.inj (hpath₁.trans hpath₂.symm))
    exact ⟨name₁, hname₁, hname₂⟩
  · intro hn
    obtain ⟨name, ha, hb⟩ := hn
    have hshort := hfit name hb
    have hhex : (Nat.toDigits 16 minor.toNat).length ≤ 8 :=
      (Nat.length_toDigits_le_iff (by omega) (by omega)).mpr minor.toNat_lt
    have hroom : (['/', 'c', 'u', 'd', 'a', '_', 'h', 'o', 'o', 'k', '.'].map Char.toUInt8 ++
        (Nat.toDigits 16 minor.toNat).map Char.toUInt8 ++ [Char.toUInt8 '.'] ++ name).length < pathMax := by
      simp only [List.length_append, List.length_map, List.length_cons, List.length_nil, pathMax, maxCgroupIdLen] at *
      omega
    have hpath : ∃ path, ∀ buf, str buf = some name → shmPath minor buf = some path :=
      ⟨_, fun buf hbuf => by rw [shmPath, hbuf, Option.bind_some]; exact if_pos hroom⟩
    obtain ⟨path, hpath⟩ := hpath
    exact ⟨path, hpath a ha, hpath b hb⟩

/-- What a monitor told `arg` finds in a process of the container `id`. -/
theorem samePath_iff {cgroup : List Line} {id leftover arg : List UInt8} (h : InContainer cgroup id leftover)
    (harg : 0 ∉ arg) (minor : UInt32) :
    SamePath cgroup arg minor ↔ arg.length < maxCgroupIdLen ∧ foundName id leftover pathMax = some arg := by
  have hfit : ∀ name, str (mainCgroupId arg) = some name → name.length < maxCgroupIdLen := by
    intro name hname
    rw [str_mainCgroupId harg, Option.ite_none_right_eq_some] at hname
    rw [← Option.some.inj hname.2]
    exact hname.1
  have hlen : (List.replicate pathMax (0 : UInt8)).length = pathMax := List.length_replicate
  rcases getCgroupId_name h (List.replicate pathMax 0) with ⟨buf, hget, hname⟩ | ⟨hget, hname⟩
  · rw [hlen] at hname
    have hclient : clientPath cgroup minor = shmPath minor buf := by rw [clientPath, hget]; rfl
    rw [SamePath, hclient, watchDogPath, shmPath_iff hfit, shares_mainCgroupId harg, hname]
  · rw [hlen] at hname
    refine iff_of_false (fun hs => ?_) (fun hs => by simp [hname] at hs)
    obtain ⟨path, hclient, -⟩ := hs
    simp [clientPath, hget] at hclient

theorem acceptsSample_iff {cgroup : List Line} {id leftover arg target : List UInt8} (h : InContainer cgroup id leftover)
    (harg : 0 ∉ arg) (ht : target.length = maxCgroupIdLen) :
    acceptsSample cgroup arg target = some true ↔
      arg.length < maxCgroupIdLen ∧ foundName id leftover maxCgroupIdLen = some arg := by
  rcases getCgroupId_name h target with ⟨buf, hget, hname⟩ | ⟨hget, hname⟩
  · rw [ht] at hname
    have haccepts : acceptsSample cgroup arg target = strcmp buf (mainCgroupId arg) := by
      rw [acceptsSample, hget]
      rfl
    rw [haccepts, strcmp_iff, shares_mainCgroupId harg, hname]
  · rw [ht] at hname
    exact iff_of_false (by simp [acceptsSample, hget]) (fun hs => by simp [hname] at hs)

/-- The bytes read as the string: it ends at a NUL, or one byte before the last. -/
def ReadsAs (tail id : List UInt8) : Prop := ∃ b rest, tail = id ++ b :: rest ∧ (b = 0 ∨ rest = [])

theorem foundName_of_reads {id leftover : List UInt8} {idLen : ℕ} (hid : 0 ∉ id) (hlen : id.length < idLen)
    (h : ReadsAs (tailOf id leftover) id) : foundName id leftover idLen = some id := by
  obtain ⟨b, rest, htail, hend⟩ := h
  have hmin : ¬ min (tailOf id leftover).length idLen = 0 := by rw [htail]; simp; omega
  rw [foundName, if_neg hmin, htail, content_append hid]
  rcases hend with rfl | rfl
  · rw [content_zero, List.append_nil, List.take_of_length_le]
    simp
    omega
  · rw [show min (id ++ [b]).length idLen - 1 = id.length by simp; omega,
      List.take_append_of_le_length (Nat.le_refl _), List.take_length]

theorem reads_of_foundName {id leftover : List UInt8} {idLen : ℕ} (hlen : id.length + 1 < idLen)
    (h : foundName id leftover idLen = some id) : ReadsAs (tailOf id leftover) id := by
  rw [foundName, Option.ite_none_left_eq_some] at h
  obtain ⟨hpos, htake⟩ := h
  have htake := Option.some.inj htake
  have hcut := congrArg List.length htake
  rw [List.length_take] at hcut
  rcases content_spec (tailOf id leftover) with hall | ⟨rest, hrest⟩
  · -- no NUL: the last byte is the one cut off
    rw [← hall] at htake hcut
    have hshort : (tailOf id leftover).length = id.length + 1 := by omega
    rw [show min (tailOf id leftover).length idLen - 1 = id.length by omega] at htake
    obtain ⟨b, hb⟩ := List.length_eq_one_iff.mp (show ((tailOf id leftover).drop id.length).length = 1 by
      rw [List.length_drop]; omega)
    have hsplit := List.take_append_drop id.length (tailOf id leftover)
    rw [htake, hb] at hsplit
    exact ⟨b, [], hsplit.symm, Or.inr rfl⟩
  · have hcontent : content (tailOf id leftover) = id := by
      have hlong : (content (tailOf id leftover)).length ≤ min (tailOf id leftover).length idLen - 1 := by
        have := congrArg List.length hrest
        rw [List.length_append, List.length_cons] at this
        omega
      rwa [List.take_of_length_le hlong] at htake
    rw [hcontent] at hrest
    exact ⟨0, rest, hrest, Or.inl rfl⟩

theorem tailOf_of_none {id leftover : List UInt8} (h : slash ∉ leftover) :
    tailOf id leftover = id ++ newline :: 0 :: leftover := by
  rw [tailOf, afterLast_eq_none.mpr h, Option.getD_none]

theorem not_reads_newline {id leftover : List UInt8} : ¬ ReadsAs (id ++ newline :: 0 :: leftover) id := by
  intro h
  obtain ⟨b, rest, htail, hend⟩ := h
  obtain ⟨rfl, rfl⟩ := List.cons.inj (List.append_cancel_left htail)
  rcases hend with hb | hrest
  · exact absurd hb (by decide)
  · cases hrest

/-- The two names agree exactly when the id fits the monitor's buffer and what follows
    the last slash of the leftover bytes reads as it. -/
theorem name_agrees_iff {cgroup : List Line} {id leftover : List UInt8} (h : InContainer cgroup id leftover) :
    Agrees cgroup id ↔
      id.length < maxCgroupIdLen ∧ ∃ tail, afterLast slash leftover = some tail ∧ ReadsAs tail id := by
  have hnul := h.isId.nul
  constructor
  · intro hagrees
    obtain ⟨hlen, hname⟩ := (samePath_iff h hnul 0).mp (hagrees.path 0)
    have hreads := reads_of_foundName (by simp only [pathMax, maxCgroupIdLen] at *; omega) hname
    refine ⟨hlen, ?_⟩
    cases hlast : afterLast slash leftover with
    | some tail => exact ⟨tail, rfl, by rwa [tailOf, hlast, Option.getD_some] at hreads⟩
    | none =>
      rw [tailOf_of_none (afterLast_eq_none.mp hlast)] at hreads
      exact absurd hreads not_reads_newline
  · intro hcond
    obtain ⟨hlen, tail, hlast, hreads⟩ := hcond
    have htail : tailOf id leftover = tail := by rw [tailOf, hlast, Option.getD_some]
    rw [← htail] at hreads
    have hclient : foundName id leftover pathMax = some id :=
      foundName_of_reads hnul (by simp only [pathMax, maxCgroupIdLen] at *; omega) hreads
    have hsample : foundName id leftover maxCgroupIdLen = some id := foundName_of_reads hnul hlen hreads
    refine ⟨fun minor => (samePath_iff h hnul minor).mpr ⟨hlen, hclient⟩,
      fun target ht => (acceptsSample_iff h hnul ht).mpr ⟨hlen, hsample⟩, fun id' hid' _ hne => ⟨?_, ?_⟩⟩
    · intro minor hpath
      have hname := ((samePath_iff h hid'.nul minor).mp hpath).2
      exact hne (Option.some.inj (hname.symm.trans hclient))
    · intro target ht haccepts
      have hname := ((acceptsSample_iff h hid'.nul ht).mp haccepts).2
      exact hne (Option.some.inj (hname.symm.trans hsample))

/-- Of an id and a newline, a string of the id's length is found only when the buffer
    cuts the newline off, and it is the id. -/
theorem foundName_newline {id leftover arg : List UInt8} {idLen : ℕ} (hid : 0 ∉ id) (hl : slash ∉ leftover)
    (hlen : arg.length = id.length) :
    foundName id leftover idLen = some arg ↔ arg = id ∧ idLen = id.length + 1 := by
  have hcontent : content (tailOf id leftover) = id ++ [newline] := by
    rw [tailOf_of_none hl, content_append hid, content_cons (by decide), content_zero]
  have htail : (tailOf id leftover).length = id.length + leftover.length + 2 := by
    rw [tailOf_of_none hl, List.length_append, List.length_cons, List.length_cons]
    omega
  rw [foundName, Option.ite_none_left_eq_some, hcontent, htail, Option.some_inj]
  constructor
  · intro hf
    obtain ⟨hpos, htake⟩ := hf
    have hcut := congrArg List.length htake
    rw [List.length_take, List.length_append, List.length_singleton] at hcut
    have hat : min (id.length + leftover.length + 2) idLen - 1 = id.length := by omega
    rw [hat, List.take_append_of_le_length (Nat.le_refl _), List.take_length] at htake
    exact ⟨htake.symm, by omega⟩
  · intro hf
    obtain ⟨rfl, hat⟩ := hf
    refine ⟨by omega, ?_⟩
    rw [show min (arg.length + leftover.length + 2) idLen - 1 = arg.length by omega,
      List.take_append_of_le_length (Nat.le_refl _), List.take_length]

/-- With no slash left over the paths never agree, a sample is accepted when the id has
    15 bytes, and no other monitor of such an id takes the process for its own. -/
theorem without_leftover {cgroup : List Line} {id leftover : List UInt8} (h : InContainer cgroup id leftover)
    (hl : slash ∉ leftover) :
    (∀ minor, ¬ SamePath cgroup id minor) ∧
      (∀ target, target.length = maxCgroupIdLen → (acceptsSample cgroup id target = some true ↔ id.length = 15)) ∧
      ∀ id', IsId id' → id'.length = id.length → id' ≠ id → (∀ minor, ¬ SamePath cgroup id' minor) ∧
        ∀ target, target.length = maxCgroupIdLen → acceptsSample cgroup id' target ≠ some true := by
  have hnul := h.isId.nul
  have hpath : ∀ arg, 0 ∉ arg → arg.length = id.length → ∀ minor, ¬ SamePath cgroup arg minor := by
    intro arg harg hlen minor hsame
    obtain ⟨hshort, hname⟩ := (samePath_iff h harg minor).mp hsame
    have hat := ((foundName_newline hnul hl hlen).mp hname).2
    simp only [pathMax, maxCgroupIdLen] at hat hshort
    omega
  refine ⟨hpath id hnul rfl, ?_, fun id' hid' hlen hne => ⟨hpath id' hid'.nul hlen, ?_⟩⟩
  · intro target ht
    rw [acceptsSample_iff h hnul ht, foundName_newline hnul hl rfl]
    simp only [maxCgroupIdLen, true_and]
    omega
  · intro target ht haccepts
    exact hne ((foundName_newline hnul hl hlen).mp ((acceptsSample_iff h hid'.nul ht).mp haccepts).2).1

/-! ### A container of one letter -/

def letter : List UInt8 := [Char.toUInt8 'a']

/-- `4:devices:/a`, with the given bytes left over. -/
def oneLine (leftover : List UInt8) : List Line :=
  [⟨['4', ':', 'd', 'e', 'v', 'i', 'c', 'e', 's', ':'].map Char.toUInt8 ++ slash :: letter ++ [newline], leftover⟩]

theorem oneLine_inContainer (leftover : List UInt8) : InContainer (oneLine leftover) letter leftover :=
  ⟨⟨by decide, by decide, by decide, by decide⟩, [], _, [], rfl, fun _ hl => absurd hl List.not_mem_nil, rfl⟩

/-- Left over is a path of the same name, cut off before its newline. -/
theorem name_agrees_iff_run : Agrees (oneLine [slash, Char.toUInt8 'a', 0]) letter :=
  (name_agrees_iff (oneLine_inContainer _)).mpr
    ⟨by decide, [Char.toUInt8 'a', 0], by decide, 0, [], by decide, Or.inl rfl⟩

/-- With zeroes left over, the process is in another segment than its monitor, and its
    samples are passed over. -/
theorem name_differs : InContainer (oneLine [0]) letter [0] ∧ ¬ Agrees (oneLine [0]) letter ∧
    (∀ minor, ¬ SamePath (oneLine [0]) letter minor) ∧
    acceptsSample (oneLine [0]) letter (List.replicate 16 0) = some false := by
  have hpath : ∀ minor, ¬ SamePath (oneLine [0]) letter minor :=
    (without_leftover (oneLine_inContainer [0]) (by decide)).1
  exact ⟨oneLine_inContainer [0], fun hagrees => hpath 0 (hagrees.path 0), hpath, by decide⟩

end NvResourceController.Monitor
