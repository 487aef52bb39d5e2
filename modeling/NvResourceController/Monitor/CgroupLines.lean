/-
  NvResourceController.Monitor.CgroupLines — `get_cgroup_id` (`src/util.c`) on the lines
  `hierarchy:controllers:path` of `/proc/<pid>/cgroup`.

  - `names_iff`: for which lines and which bytes left over in the buffer of `getline` the
    name of the devices cgroup is found, -1 returned where there is none, and nothing
    written outside the caller's buffer.
-/

import NvResourceController.Monitor.CgroupId

namespace NvResourceController.Monitor

open CString

/-! ## Lines -/

def colon : UInt8 := Char.toUInt8 ':'

def comma : UInt8 := Char.toUInt8 ','

structure IsField (field : List UInt8) : Prop where
  colon : colon ∉ field
  newline : newline ∉ field
  nul : 0 ∉ field

/-- A line, and what is left over behind its NUL when it is read. -/
structure CgroupLine where
  hierarchy : List UInt8
  controllers : List UInt8
  path : List UInt8
  leftover : List UInt8
  isHierarchy : IsField hierarchy
  isControllers : IsField controllers
  newline : newline ∉ path
  nul : 0 ∉ path

def CgroupLine.body (l : CgroupLine) : List UInt8 := l.hierarchy ++ colon :: l.controllers ++ colon :: l.path

def CgroupLine.line (l : CgroupLine) : Line := ⟨l.body ++ [Monitor.newline], l.leftover⟩

/-- The controllers are separated by commas. -/
def CgroupLine.ListsDevices (l : CgroupLine) : Bool := decide (devices ∈ l.controllers.splitOn comma)

def CgroupLine.Ends (l : CgroupLine) : Bool := l.line.Ends

/-! ## The name of a container -/

/-- What the name should be, and -1 where no line has it. -/
structure Names (cgroup : List CgroupLine) (shortId : List UInt8) : Prop where
  found : ∀ l name, cgroup.find? CgroupLine.ListsDevices = some l → afterLast slash l.path = some name →
    ∃ buf, getCgroupId (cgroup.map CgroupLine.line) shortId = some (0, buf) ∧
      str buf = some (name.take (shortId.length - 1))
  missing : cgroup.find? CgroupLine.ListsDevices = none →
    ∃ buf, getCgroupId (cgroup.map CgroupLine.line) shortId = some (-1, buf)
  inside : ∃ ret buf, getCgroupId (cgroup.map CgroupLine.line) shortId = some (ret, buf) ∧ buf.length = shortId.length

/-- What is read behind the last slash of the buffer, up to `idLen`, is the name: of what
    is left over, if it has a slash, else of the line, whose newline is to be cut off. -/
def CgroupLine.Reads (l : CgroupLine) (name : List UInt8) (idLen : ℕ) : Prop :=
  match afterLast slash l.leftover with
  | some tail => (content tail).take (min tail.length idLen - 1) = name.take (idLen - 1)
  | none => ∃ last, afterLast slash l.body = some last ∧
    idLen ≤ last.length + 1 ∧ last.take (idLen - 1) = name.take (idLen - 1)

theorem CgroupLine.body_nul (l : CgroupLine) : 0 ∉ l.body := by
  have hne : 0 ≠ Monitor.colon := by decide
  simp [CgroupLine.body, hne, l.isHierarchy.nul, l.isControllers.nul, l.nul]

theorem CgroupLine.line_buffer (l : CgroupLine) :
    l.line.buffer = l.body ++ Monitor.newline :: 0 :: l.leftover := by
  simp [CgroupLine.line, Line.buffer]

theorem afterLast_line (l : CgroupLine) :
    afterLast slash l.line.buffer =
      match afterLast slash l.leftover with
      | some tail => some tail
      | none => (afterLast slash l.body).map (· ++ Monitor.newline :: 0 :: l.leftover) := by
  rw [l.line_buffer]
  cases h : afterLast slash l.leftover with
  | some tail =>
    have hshape : l.body ++ Monitor.newline :: 0 :: l.leftover =
        (l.body ++ [Monitor.newline, 0]) ++ l.leftover := by simp
    rw [hshape]
    exact afterLast_append h _
  | none =>
    refine afterLast_append_of_notMem ?_ _
    have hne : slash ≠ newline ∧ slash ≠ 0 := by decide
    simp [hne, afterLast_eq_none.mp h]

theorem infix_of_mem_intercalate {sep s : List UInt8} {ls : List (List UInt8)} (h : s ∈ ls) :
    s <:+: sep.intercalate ls := by
  induction ls with
  | nil => cases h
  | cons x xs ih =>
    cases xs with
    | nil =>
      rw [List.mem_singleton.mp h]
      simp
    | cons y ys =>
      rw [List.intercalate_cons_cons]
      rcases List.mem_cons.mp h with rfl | h
      · exact ⟨[], sep ++ sep.intercalate (y :: ys), by simp⟩
      · exact (ih h).trans ⟨x ++ sep, [], by simp⟩

/-- A line that lists the controller has its name as a part, so the loop does not pass it
    by for that. -/
theorem CgroupLine.strstr_of_lists {l : CgroupLine} (h : l.ListsDevices = true) :
    strstr devices l.line.buffer = true := by
  have hmem : devices ∈ l.controllers.splitOn comma := of_decide_eq_true h
  have hpart : devices <:+: l.controllers := by
    have hin : devices <:+: [comma].intercalate (l.controllers.splitOn comma) := infix_of_mem_intercalate hmem
    rwa [List.intercalate_splitOn] at hin
  rw [strstr_iff, l.line_buffer, content_append l.body_nul]
  refine hpart.trans ⟨l.hierarchy ++ [Monitor.colon],
    Monitor.colon :: l.path ++ content (Monitor.newline :: 0 :: l.leftover), ?_⟩
  simp [CgroupLine.body]

theorem CgroupLine.ends_of_lists {l : CgroupLine} {name : List UInt8} (h : l.ListsDevices = true)
    (hname : afterLast slash l.path = some name) : l.Ends = true := by
  have hbody : afterLast slash l.body = some name := by
    rw [show l.body = (l.hierarchy ++ Monitor.colon :: l.controllers ++ [Monitor.colon]) ++ l.path by
      simp [CgroupLine.body]]
    exact afterLast_append hname _
  have hlast : (afterLast slash l.line.buffer).isSome := by
    rw [afterLast_line]
    split
    · rfl
    · rw [hbody]
      rfl
  rw [CgroupLine.Ends, Line.Ends, CgroupLine.strstr_of_lists h, hlast]
  rfl

theorem take_newline_iff {last name : List UInt8} {n : ℕ} (hname : Monitor.newline ∉ name) :
    (last ++ [Monitor.newline]).take n = name.take n ↔ n ≤ last.length ∧ last.take n = name.take n := by
  by_cases hn : n ≤ last.length
  · rw [List.take_append_of_le_length hn]
    simp [hn]
  · refine iff_of_false (fun h => hname ?_) fun h => hn h.1
    rw [List.take_of_length_le (by simp; omega)] at h
    refine List.mem_of_mem_take (i := n) ?_
    rw [← h]
    simp

theorem find?_line {cgroup : List CgroupLine} {l : CgroupLine} (h : cgroup.find? CgroupLine.Ends = some l) :
    (cgroup.map CgroupLine.line).find? Line.Ends = some l.line := by
  rw [List.find?_map, show Line.Ends ∘ CgroupLine.line = CgroupLine.Ends from rfl, h, Option.map_some]

theorem find?_line_none {cgroup : List CgroupLine} (h : cgroup.find? CgroupLine.Ends = none) :
    (cgroup.map CgroupLine.line).find? Line.Ends = none := by
  rw [List.find?_map, show Line.Ends ∘ CgroupLine.line = CgroupLine.Ends from rfl, h, Option.map_none]

theorem CgroupLine.name_newline {name : List UInt8} (l : CgroupLine) (h : afterLast slash l.path = some name) :
    Monitor.newline ∉ name := fun hmem => l.newline ((afterLast_suffix h).subset hmem)

theorem getCgroupId_reads {cgroup : List CgroupLine} {l : CgroupLine} {shortId : List UInt8}
    (h : cgroup.find? CgroupLine.Ends = some l) (hlen : 1 ≤ shortId.length)
    (hend : afterLast slash l.leftover ≠ some []) :
    ∃ buf, getCgroupId (cgroup.map CgroupLine.line) shortId = some (0, buf) ∧ ∀ name, Monitor.newline ∉ name →
      (str buf = some (name.take (shortId.length - 1)) ↔ l.Reads name shortId.length) := by
  have hends : l.Ends = true := List.find?_some h
  have hends : (afterLast slash l.line.buffer).isSome = true := (Bool.and_eq_true_iff.mp hends).2
  obtain ⟨tail, htail⟩ := Option.isSome_iff_exists.mp hends
  have hget := getCgroupId_some (find?_line h) htail shortId
  rw [afterLast_line] at htail
  unfold CgroupLine.Reads
  cases hleft : afterLast slash l.leftover with
  | some stale =>
    rw [hleft] at htail hend
    cases htail
    have hne : tail.length ≠ 0 := fun h0 => hend (by rw [List.length_eq_zero_iff.mp h0])
    rw [if_neg (by omega)] at hget
    refine ⟨_, hget, fun name _ => ?_⟩
    rw [str_terminated (by omega), Option.some_inj]
  | none =>
    rw [hleft] at htail
    obtain ⟨last, hlast, rfl⟩ := Option.map_eq_some_iff.mp htail
    have hlong : (last ++ Monitor.newline :: 0 :: l.leftover).length = last.length + l.leftover.length + 2 := by
      rw [List.length_append, List.length_cons, List.length_cons]
      omega
    rw [if_neg (by omega)] at hget
    refine ⟨_, hget, fun name hname => ?_⟩
    have hnul : 0 ∉ last := fun h0 => l.body_nul ((afterLast_suffix hlast).subset h0)
    have hcontent : content (last ++ Monitor.newline :: 0 :: l.leftover) = last ++ [Monitor.newline] := by
      rw [content_append hnul, content_cons (by decide), content_zero]
    rw [str_terminated (by omega), hcontent, Option.some_inj]
    rw [hlong]
    have hcut : (last ++ [Monitor.newline]).take (min (last.length + l.leftover.length + 2) shortId.length - 1)
        = (last ++ [Monitor.newline]).take (shortId.length - 1) := by
      rw [List.take_eq_take_iff, List.length_append, List.length_singleton]
      omega
    rw [hcut, take_newline_iff hname]
    constructor
    · intro hread
      exact ⟨last, hlast, by omega, hread.2⟩
    · intro hread
      obtain ⟨last', hlast', hle, hread⟩ := hread
      cases hlast.symm.trans hlast'
      exact ⟨by omega, hread⟩

/-- The name is right exactly where, if the loop ends at a line, what is left over behind
    it does not end in a slash, the controller is listed, and what is found reads as the
    name. -/
theorem names_iff {cgroup : List CgroupLine} {shortId : List UInt8} (hlen : 1 ≤ shortId.length) :
    Names cgroup shortId ↔ ∀ l, cgroup.find? CgroupLine.Ends = some l →
      afterLast slash l.leftover ≠ some [] ∧ ∃ l0, cgroup.find? CgroupLine.ListsDevices = some l0 ∧
        ∀ name, afterLast slash l0.path = some name → l.Reads name shortId.length := by
  constructor
  · intro h l hl
    have hend : afterLast slash l.leftover ≠ some [] := by
      intro hempty
      obtain ⟨ret, buf, hget, -⟩ := h.inside
      have htail : afterLast slash l.line.buffer = some [] := by rw [afterLast_line, hempty]
      rw [getCgroupId_some (find?_line hl) htail, List.length_nil, Nat.zero_min, if_pos rfl] at hget
      cases hget
    obtain ⟨buf, hget, hreads⟩ := getCgroupId_reads hl hlen hend
    refine ⟨hend, ?_⟩
    cases hdev : cgroup.find? CgroupLine.ListsDevices with
    | none =>
      obtain ⟨buf', hmissing⟩ := h.missing hdev
      rw [hget] at hmissing
      exact absurd (congrArg Prod.fst (Option.some.inj hmissing)) (by decide : (0 : Int32) ≠ -1)
    | some l0 =>
      refine ⟨l0, rfl, fun name hname => ?_⟩
      obtain ⟨buf', hfound, hstr⟩ := h.found l0 name hdev hname
      rw [hget] at hfound
      cases hfound
      exact (hreads name (l0.name_newline hname)).mp hstr
  · intro h
    cases hl : cgroup.find? CgroupLine.Ends with
    | none =>
      have hget := getCgroupId_none (find?_line_none hl) shortId
      refine ⟨fun l0 name hdev hname => ?_, fun _ => ⟨_, hget⟩, _, _, hget, rfl⟩
      exact absurd (CgroupLine.ends_of_lists (List.find?_some hdev) hname)
        (List.find?_eq_none.mp hl l0 (List.mem_of_find?_eq_some hdev))
    | some l =>
      obtain ⟨hend, l0, hdev, hread⟩ := h l hl
      obtain ⟨buf, hget, hreads⟩ := getCgroupId_reads hl hlen hend
      refine ⟨?_, ?_, _, _, hget, getCgroupId_length hget⟩
      · intro l1 name hdev' hname
        cases hdev.symm.trans hdev'
        exact ⟨buf, hget, (hreads name (l0.name_newline hname)).mpr (hread name hname)⟩
      · intro hnone
        rw [hdev] at hnone
        cases hnone

/-! ### `4:devices:/a` -/

def devicesLine (leftover : List UInt8) : CgroupLine where
  hierarchy := [Char.toUInt8 '4']
  controllers := devices
  path := slash :: letter
  leftover := leftover
  isHierarchy := ⟨by decide, by decide, by decide⟩
  isControllers := ⟨by decide, by decide, by decide⟩
  newline := by decide
  nul := by decide

/-- Where there is room for the letter only, the newline is cut off. -/
theorem names_iff_run : Names [devicesLine [0]] [0, 0] :=
  (names_iff (by decide)).mpr fun l hl => by
    cases hl
    refine ⟨by decide, _, rfl, fun name hname => ?_⟩
    cases hname
    exact ⟨letter, by decide, by decide, by decide⟩

/-- With more room it is part of the name. -/
theorem newline_in_name : [devicesLine [0]].find? CgroupLine.ListsDevices = some (devicesLine [0]) ∧
    afterLast slash (devicesLine [0]).path = some letter ∧
    getCgroupId [(devicesLine [0]).line] [0, 0, 0, 0] = some (0, [Char.toUInt8 'a', newline, 0, 0]) ∧
    ¬ Names [devicesLine [0]] [0, 0, 0, 0] := by
  have hget : getCgroupId [(devicesLine [0]).line] [0, 0, 0, 0] = some (0, [Char.toUInt8 'a', newline, 0, 0]) := by
    decide
  refine ⟨rfl, by decide, hget, fun h => ?_⟩
  obtain ⟨buf, hfound, hstr⟩ := h.found (devicesLine [0]) letter rfl (by decide)
  rw [List.map_singleton, hget] at hfound
  cases hfound
  exact absurd hstr (by decide)

end NvResourceController.Monitor
