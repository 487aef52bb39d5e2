/-
  NvResourceController.Ioctl.Env — the limits of a process, as its environment gives them:
  `get_limit`, `get_mem_limit` and `get_core_limit` (`src/env.c`) and `iec_to_bytes`
  (`src/util.c`).

  `sscanf` wants digits, an equals sign and a word, of which it takes 15 characters;
  `strtod` takes what it can of these; and a suffix that is no unit is passed over.

  - `getMemLimit_denotes`: a device index and a number of bytes are read as they are
    written.
  - `mem_limit_lawful_iff`: everything else should be refused, and is exactly if `sscanf`
    does not match it.
-/

import NvResourceController.Lib.Scan

namespace NvResourceController.Ioctl

open Scan Binary64

/-! ## `iec_to_bytes` -/

/-- The power of 1024 a suffix stands for. -/
def unitOf (c : UInt8) : Option ℕ :=
  if c = Char.toUInt8 'K' ∨ c = Char.toUInt8 'k' then some 1
  else if c = Char.toUInt8 'M' ∨ c = Char.toUInt8 'm' then some 2
  else if c = Char.toUInt8 'G' ∨ c = Char.toUInt8 'g' then some 3
  else if c = Char.toUInt8 'T' ∨ c = Char.toUInt8 't' then some 4
  else none

def iecToBytes (conv : Conversion) (iecValue : List UInt8) : UInt64 :=
  let (value, endptr) := strtod iecValue
  match endptr.head?.bind unitOf with
  | some k => conv.toUInt64 (value.mul (.finite (1024 ^ k)))
  | none => conv.toUInt64 value

/-! ## `env.c` -/

def equals : UInt8 := Char.toUInt8 '='

/-- `sscanf(str, "%u=%15s", &_minor, data)`. -/
def sscanf (str : List UInt8) (minor : UInt32) (data : List UInt8) : Int32 × UInt32 × List UInt8 :=
  match scanUnsigned str with
  | none => (if str.dropWhile isSpace = [] then -1 else 0, minor, data)
  | some (minor, []) => (1, minor, data)
  | some (minor, c :: rest) =>
    if c = equals then
      match scanWord 15 rest with
      | none => (1, minor, data)
      | some data => (2, minor, data)
    else (1, minor, data)

/-- `get_limit`, from what `getenv` found; `minor` is what the argument points to, if it is
    not null. -/
def getLimit (str : Option (List UInt8)) (minor : Option UInt32) (data : List UInt8) :
    Int32 × Option UInt32 × List UInt8 :=
  match str with
  | none => (-1, minor, data)
  | some str =>
    let (n, _minor, data) := sscanf str 0 data
    if n ≠ 2 ∨ data.length = 0 then (-1, minor, data) else (0, minor.map fun _ => _minor, data)

def getMemLimit (conv : Conversion) (str : Option (List UInt8)) (minor : Option UInt32) (limit : UInt64) :
    Int32 × Option UInt32 × UInt64 :=
  let (ret, minor, tmp) := getLimit str minor []
  if ret ≠ 0 then (ret, minor, limit) else (0, minor, iecToBytes conv tmp)

def getCoreLimit (str : Option (List UInt8)) (minor : Option UInt32) (limit : UInt64) :
    Int32 × Option UInt32 × UInt64 :=
  let (ret, minor, tmp) := getLimit str minor []
  if ret ≠ 0 then (ret, minor, limit) else (0, minor, (atoi tmp).toInt64.toUInt64)

/-! ## What is written -/

def Digits (l : List UInt8) : Prop := l ≠ [] ∧ ∀ c ∈ l, isDigit c = true

/-- A unit, or nothing. -/
def unitPower : List UInt8 → Option ℕ
  | [] => some 0
  | [c] => unitOf c
  | _ => none

/-- The string is an index, an equals sign and a whole number of bytes with or without a
    unit, of at most 15 characters. -/
def Denotes (s : List UInt8) (index : UInt32) (bytes : UInt64) : Prop :=
  ∃ ds ns unit k, s = ds ++ equals :: (ns ++ unit) ∧ Digits ds ∧ Digits ns ∧ unitPower unit = some k ∧
    (ns ++ unit).length ≤ 15 ∧ number 10 ds = index.toNat ∧ number 10 ns * 1024 ^ k = bytes.toNat

/-- A decimal fraction instead of a whole number. -/
def Fraction (s : List UInt8) : Prop :=
  ∃ ds int frac unit k, s = ds ++ equals :: (int ++ Char.toUInt8 '.' :: (frac ++ unit)) ∧ Digits ds ∧
    (∀ c ∈ int ++ frac, isDigit c = true) ∧ int ++ frac ≠ [] ∧ unitPower unit = some k

/-- What `sscanf` is content with. -/
def Matches (s : List UInt8) : Prop :=
  ∃ blanks sgn ds blanks' c rest, s = blanks ++ (sgn ++ (ds ++ equals :: (blanks' ++ c :: rest))) ∧
    (∀ d ∈ blanks ++ blanks', isSpace d = true) ∧ IsSign sgn ∧ Digits ds ∧ isSpace c = false

/-- What is written is read as it is, and nothing else is accepted. Fractions are left
    open. -/
def Lawful (conv : Conversion) (s : List UInt8) : Prop :=
  ∀ minor limit, (∀ index bytes, Denotes s index bytes →
      getMemLimit conv (some s) (some minor) limit = (0, some index, bytes)) ∧
    ((∀ index bytes, ¬ Denotes s index bytes) → ¬ Fraction s →
      getMemLimit conv (some s) (some minor) limit = (-1, some minor, limit))

/-! ## `sscanf` -/

theorem equals_not_digit (rest : List UInt8) : ∀ c ∈ (equals :: rest).head?, isDigit c = false := by
  intro c hc
  cases hc
  decide

theorem sscanf_two {s : List UInt8} {minor : UInt32} {data : List UInt8} (h : (sscanf s minor data).1 = 2) :
    ∃ v rest w, scanUnsigned s = some (v, equals :: rest) ∧ scanWord 15 rest = some w ∧
      sscanf s minor data = (2, v, w) := by
  rw [sscanf] at h ⊢
  split at h
  · split at h
    · exact absurd h (by decide : (-1 : Int32) ≠ 2)
    · exact absurd h (by decide : (0 : Int32) ≠ 2)
  · exact absurd h (by decide : (1 : Int32) ≠ 2)
  · rename_i v c rest hscan
    split at h
    · rename_i hc
      split at h
      · exact absurd h (by decide : (1 : Int32) ≠ 2)
      · rename_i w hword
        exact ⟨v, rest, w, by rw [hscan, hc], hword, if_pos hc⟩
    · exact absurd h (by decide : (1 : Int32) ≠ 2)

theorem sscanf_eq {s rest w : List UInt8} {v : UInt32} (hscan : scanUnsigned s = some (v, equals :: rest))
    (hword : scanWord 15 rest = some w) (minor : UInt32) (data : List UInt8) : sscanf s minor data = (2, v, w) := by
  rw [sscanf, hscan]
  dsimp only
  rw [if_pos rfl, hword]

theorem sscanf_two_iff (s : List UInt8) (minor : UInt32) (data : List UInt8) :
    (sscanf s minor data).1 = 2 ↔ Matches s := by
  constructor
  · intro h
    obtain ⟨v, rest, w, hscan, hword, -⟩ := sscanf_two h
    obtain ⟨blanks, sgn, ds, hs, hblanks, hsgn, hne, hds, -⟩ := scanUnsigned_iff.mp ⟨v, hscan⟩
    obtain ⟨blanks', c, rest', hrest, hblanks', hc⟩ := (scanWord_iff (by decide)).mp ⟨w, hword⟩
    refine ⟨blanks, sgn, ds, blanks', c, rest', by rw [hs, hrest], ?_, hsgn, ⟨hne, hds⟩, hc⟩
    intro x hx
    rcases List.mem_append.mp hx with hx | hx
    · exact hblanks x hx
    · exact hblanks' x hx
  · intro h
    obtain ⟨blanks, sgn, ds, blanks', c, rest, hs, hspace, hsgn, hds, hc⟩ := h
    obtain ⟨v, hv⟩ := scanUnsigned_iff.mpr ⟨blanks, sgn, ds, hs, fun d hd => hspace d (List.mem_append_left _ hd),
      hsgn, hds.1, hds.2, equals_not_digit _⟩
    obtain ⟨w, hw⟩ := (scanWord_iff (by decide : 0 < 15)).mpr
      ⟨blanks', c, rest, rfl, fun d hd => hspace d (List.mem_append_right _ hd), hc⟩
    rw [sscanf_eq hv hw]

theorem scanWord_ne_nil {width : ℕ} {s w : List UInt8} (h : scanWord width s = some w) : w ≠ [] := by
  rw [scanWord, Option.ite_none_left_eq_some] at h
  obtain ⟨hne, h⟩ := h
  cases h
  exact hne

/-! ## `get_limit` -/

theorem getLimit_matches {s : List UInt8} (h : Matches s) (minor : Option UInt32) :
    getLimit (some s) minor [] = (0, minor.map fun _ => (sscanf s 0 []).2.1, (sscanf s 0 []).2.2) := by
  have htwo := (sscanf_two_iff s 0 []).mpr h
  obtain ⟨v, rest, w, -, hword, heq⟩ := sscanf_two htwo
  rw [getLimit, heq]
  dsimp only
  rw [if_neg]
  intro hbad
  rcases hbad with hbad | hbad
  · exact hbad rfl
  · exact scanWord_ne_nil hword (List.eq_nil_of_length_eq_zero hbad)

theorem getLimit_not_matches {s : List UInt8} (h : ¬ Matches s) (minor : Option UInt32) :
    getLimit (some s) minor [] = (-1, minor, (sscanf s 0 []).2.2) := by
  rw [getLimit]
  dsimp only
  exact if_pos (Or.inl fun htwo => h ((sscanf_two_iff s 0 []).mp htwo))

theorem getMemLimit_matches (conv : Conversion) {s : List UInt8} (h : Matches s) (minor : Option UInt32)
    (limit : UInt64) : getMemLimit conv (some s) minor limit =
      (0, minor.map fun _ => (sscanf s 0 []).2.1, iecToBytes conv (sscanf s 0 []).2.2) := by
  rw [getMemLimit, getLimit_matches h]
  rfl

theorem getMemLimit_not_matches (conv : Conversion) {s : List UInt8} (h : ¬ Matches s) (minor : Option UInt32)
    (limit : UInt64) : getMemLimit conv (some s) minor limit = (-1, minor, limit) := by
  rw [getMemLimit, getLimit_not_matches h]
  rfl

/-! ## A whole number of bytes -/

theorem unit_ends {c : UInt8} {k : ℕ} (h : unitOf c = some k) : Ends c ∧ isSpace c = false := by
  have hletter : (isDigit c = false ∧ c ≠ Char.toUInt8 '.' ∧ lower c ≠ Char.toUInt8 'e' ∧
      lower c ≠ Char.toUInt8 'x') ∧ isSpace c = false := by
    unfold unitOf at h
    split_ifs at h with h₁ h₂ h₃ h₄
    · rcases h₁ with rfl | rfl <;> decide
    · rcases h₂ with rfl | rfl <;> decide
    · rcases h₃ with rfl | rfl <;> decide
    · rcases h₄ with rfl | rfl <;> decide
  obtain ⟨⟨h₁, h₂, h₃, h₄⟩, hspace⟩ := hletter
  exact ⟨⟨h₁, h₂, h₃, h₄⟩, hspace⟩

theorem unitPower_cases {unit : List UInt8} {k : ℕ} (h : unitPower unit = some k) :
    (unit = [] ∧ k = 0) ∨ ∃ c, unit = [c] ∧ unitOf c = some k := by
  match unit, h with
  | [], h =>
    cases h
    exact Or.inl ⟨rfl, rfl⟩
  | [c], h => exact Or.inr ⟨c, rfl, h⟩

theorem denotes_sscanf {s : List UInt8} {index : UInt32} {bytes : UInt64} (h : Denotes s index bytes) :
    ∃ ns unit k, sscanf s 0 [] = (2, index, ns ++ unit) ∧ Digits ns ∧ unitPower unit = some k ∧
      (ns ++ unit).length ≤ 15 ∧ number 10 ns * 1024 ^ k = bytes.toNat := by
  obtain ⟨ds, ns, unit, k, hs, hds, hns, hunit, hlen, hindex, hbytes⟩ := h
  refine ⟨ns, unit, k, ?_, hns, hunit, hlen, hbytes⟩
  have hscan : scanUnsigned s = some (index, equals :: (ns ++ unit)) := by
    rw [hs]
    exact scanUnsigned_digits hds.1 hds.2 (equals_not_digit _) hindex
  refine sscanf_eq hscan (scanWord_of_le ?_ ?_ hlen) 0 []
  · exact List.append_ne_nil_of_left_ne_nil hns.1 unit
  · intro c hc
    rcases List.mem_append.mp hc with hc | hc
    · exact digit_not_space (hns.2 c hc)
    · rcases unitPower_cases hunit with ⟨rfl, -⟩ | ⟨u, rfl, hu⟩
      · cases hc
      · rw [List.mem_singleton.mp hc]
        exact (unit_ends hu).2

/-- Up to 15 digits are exact, with any unit. -/
theorem iecToBytes_eq (conv : Conversion) {ns unit : List UInt8} {k : ℕ} (hns : Digits ns)
    (hunit : unitPower unit = some k) (hlen : (ns ++ unit).length ≤ 15) {bytes : UInt64}
    (hbytes : number 10 ns * 1024 ^ k = bytes.toNat) : iecToBytes conv (ns ++ unit) = bytes := by
  have hlt : number 10 ns < 2 ^ 53 := by
    rw [List.length_append] at hlen
    calc number 10 ns < 10 ^ ns.length := number_lt hns.2
      _ ≤ 10 ^ 15 := Nat.pow_le_pow_right (by decide) (by omega)
      _ < 2 ^ 53 := by decide
  have hround := round_natCast hlt
  rcases unitPower_cases hunit with ⟨rfl, rfl⟩ | ⟨c, rfl, hc⟩
  · have hstrtod : strtod (ns ++ []) = (Binary64.round (number 10 ns), []) := strtod_digits hns.1 hns.2 nofun
    rw [Nat.pow_zero, Nat.mul_one] at hbytes
    rw [iecToBytes, hstrtod, hround, hbytes]
    exact conv.natCast bytes
  · have hstrtod : strtod (ns ++ [c]) = (Binary64.round (number 10 ns), [c]) := by
      refine strtod_digits hns.1 hns.2 fun d hd => ?_
      cases hd
      exact (unit_ends hc).1
    have hpow : 1024 ^ k = 2 ^ (10 * k) := by rw [Nat.pow_mul]
    have hcast : (1024 : ℚ) ^ k = 2 ^ (10 * k) := by exact_mod_cast hpow
    have hrange : number 10 ns * 2 ^ (10 * k) < 2 ^ 1024 := by
      rw [← hpow, hbytes]
      exact bytes.toNat_lt.trans (pow_lt_pow_right₀ one_lt_two (by norm_num))
    rw [iecToBytes, hstrtod, hround]
    dsimp only [List.head?_cons, Option.bind_some]
    rw [hc]
    dsimp only
    rw [hcast, mul_pow hlt hrange, ← hpow, hbytes]
    exact conv.natCast bytes

theorem getMemLimit_denotes (conv : Conversion) {s : List UInt8} {index : UInt32} {bytes : UInt64}
    (h : Denotes s index bytes) (minor : UInt32) (limit : UInt64) :
    getMemLimit conv (some s) (some minor) limit = (0, some index, bytes) := by
  obtain ⟨ns, unit, k, heq, hns, hunit, hlen, hbytes⟩ := denotes_sscanf h
  have hmatches := (sscanf_two_iff s 0 []).mp (by rw [heq])
  rw [getMemLimit_matches conv hmatches, heq]
  dsimp only
  rw [iecToBytes_eq conv hns hunit hlen hbytes]
  rfl

/-- For every string: the law holds of it exactly if it is a device index and a number of
    bytes (or of a fraction), or `sscanf` does not match it. -/
theorem mem_limit_lawful_iff (conv : Conversion) (s : List UInt8) :
    Lawful conv s ↔ (∃ index bytes, Denotes s index bytes) ∨ Fraction s ∨ ¬ Matches s := by
  constructor
  · intro hlaw
    by_cases hdenotes : ∃ index bytes, Denotes s index bytes
    · exact Or.inl hdenotes
    · refine Or.inr (or_iff_not_imp_left.mpr fun hfraction hmatches => ?_)
      -- it is accepted, and should not be
      have hrefused := (hlaw 0 0).2 (fun index bytes h => hdenotes ⟨index, bytes, h⟩) hfraction
      rw [getMemLimit_matches conv hmatches] at hrefused
      exact absurd (congrArg Prod.fst hrefused) (by decide : (0 : Int32) ≠ -1)
  · intro h minor limit
    refine ⟨fun index bytes hdenotes => getMemLimit_denotes conv hdenotes minor limit, ?_⟩
    intro hnone hfraction
    rcases h with hdenotes | h | h
    · obtain ⟨index, bytes, hdenotes⟩ := hdenotes
      exact absurd hdenotes (hnone index bytes)
    · exact absurd h hfraction
    · exact getMemLimit_not_matches conv h (some minor) limit

def noNumber : List UInt8 := ['0', '=', 'a', 'b', 'c'].map Char.toUInt8

/-- A value without a number is a limit of 0 bytes. -/
theorem no_number_is_zero : getMemLimit towardsZero (some noNumber) (some 7) 9 = (0, some 0, 0) ∧
    (∀ index bytes, ¬ Denotes noNumber index bytes) ∧ ¬ Fraction noNumber ∧ ¬ Lawful towardsZero noNumber := by
  have hread : getMemLimit towardsZero (some noNumber) (some 7) 9 = (0, some 0, 0) := by decide
  have hdenotes : ∀ index bytes, ¬ Denotes noNumber index bytes := by
    intro index bytes h
    obtain ⟨ns, unit, k, heq, hns, -⟩ := denotes_sscanf h
    have hword : ['a', 'b', 'c'].map Char.toUInt8 = ns ++ unit := congrArg (fun r => r.2.2) heq
    obtain ⟨c, ns', rfl⟩ := List.exists_cons_of_ne_nil hns.1
    have hc := hns.2 c (List.mem_cons_self ..)
    rw [← (List.cons.inj hword).1] at hc
    exact absurd hc (by decide)
  have hfraction : ¬ Fraction noNumber := by
    intro h
    obtain ⟨ds, int, frac, unit, k, hs, -⟩ := h
    have hpoint : Char.toUInt8 '.' ∈ noNumber := by
      rw [hs]
      simp
    exact absurd hpoint (by decide)
  refine ⟨hread, hdenotes, hfraction, fun hlaw => ?_⟩
  have hrefused := (hlaw 7 9).2 hdenotes hfraction
  rw [hread] at hrefused
  exact absurd (congrArg Prod.fst hrefused) (by decide : (0 : Int32) ≠ -1)

end NvResourceController.Ioctl
