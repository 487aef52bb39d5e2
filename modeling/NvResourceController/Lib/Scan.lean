/-
  NvResourceController.Lib.Scan — numbers and words read from a string as the C library
  reads them, in the C locale: the conversions `%u` and `%<width>s` of `scanf`, `strtod`
  and `atoi`. A string is the bytes before its NUL.

  - `span_append`: where a run of characters of one kind ends.
  - `scanUnsigned_iff`: what `%u` accepts; `scanUnsigned_digits`: its value, of digits.
  - `scanWord_iff`: what a word is found in; `scanWord_of_le`: all of one that has room.
  - `strtod_digits`: a whole number is read to its end, and rounded.
-/

import Mathlib.Algebra.Order.BigOperators.Group.List
import Mathlib.Data.List.TakeWhile
import NvResourceController.Lib.Binary64

namespace Scan

open Binary64

/-! ## Characters -/

def isSpace (c : UInt8) : Bool := c = 32 || (9 ≤ c && c ≤ 13)

def isDigit (c : UInt8) : Bool := 48 ≤ c && c ≤ 57

def lower (c : UInt8) : UInt8 := if 65 ≤ c && c ≤ 90 then c + 32 else c

def isHexDigit (c : UInt8) : Bool := isDigit c || (97 ≤ lower c && lower c ≤ 102)

def digitVal (c : UInt8) : ℕ := if isDigit c then c.toNat - 48 else (lower c).toNat - 87

def number (base : ℕ) (ds : List UInt8) : ℕ := ds.foldl (fun n c => base * n + digitVal c) 0

def minus : UInt8 := Char.toUInt8 '-'

def plus : UInt8 := Char.toUInt8 '+'

/-- Whether there is a minus sign, and what comes after the sign. -/
def sign : List UInt8 → Bool × List UInt8
  | [] => (false, [])
  | c :: rest => if c = minus then (true, rest) else if c = plus then (false, rest) else (false, c :: rest)

/-! ## Conversions -/

/-- `strtoul` of a numeral. -/
def strtoul (neg : Bool) (n : ℕ) : UInt64 :=
  if 2 ^ 64 ≤ n then UInt64.ofNat (2 ^ 64 - 1) else if neg then -UInt64.ofNat n else UInt64.ofNat n

/-- `%u`: the value that is stored, and what comes after it. -/
def scanUnsigned (s : List UInt8) : Option (UInt32 × List UInt8) :=
  let (neg, t) := sign (s.dropWhile isSpace)
  let ds := t.takeWhile isDigit
  if ds = [] then none else some ((strtoul neg (number 10 ds)).toUInt32, t.dropWhile isDigit)

/-- `%<width>s`. -/
def scanWord (width : ℕ) (s : List UInt8) : Option (List UInt8) :=
  let word := ((s.dropWhile isSpace).takeWhile fun c => !isSpace c).take width
  if word = [] then none else some word

/-- `atoi`, by `strtol`. -/
def atoi (s : List UInt8) : Int32 :=
  let (neg, t) := sign (s.dropWhile isSpace)
  let n := number 10 (t.takeWhile isDigit)
  Int32.ofInt (if neg then max (-n) (-2 ^ 63) else min n (2 ^ 63 - 1))

/-! ### `strtod` -/

/-- A word, in either case, and what comes after it. -/
def keyword (word : List Char) (t : List UInt8) : Option (List UInt8) :=
  if (t.take word.length).map lower = word.map Char.toUInt8 then some (t.drop word.length) else none

/-- The characters in brackets after `nan`, if they are closed. -/
def nanChars : List UInt8 → List UInt8
  | [] => []
  | c :: rest =>
    let tail := rest.dropWhile fun d => isDigit d || (97 ≤ lower d && lower d ≤ 122) || d = 95
    if c = Char.toUInt8 '(' ∧ tail.head? = some (Char.toUInt8 ')') then tail.tail else c :: rest

/-- Digits with at most one point: the integer part, the fraction, and what comes
    after. -/
def digitsPoint (p : UInt8 → Bool) (t : List UInt8) : List UInt8 × List UInt8 × List UInt8 :=
  let int := t.takeWhile p
  match t.dropWhile p with
  | [] => (int, [], [])
  | c :: rest =>
    if c = Char.toUInt8 '.' ∧ (int ≠ [] ∨ rest.takeWhile p ≠ []) then (int, rest.takeWhile p, rest.dropWhile p)
    else (int, [], c :: rest)

/-- An exponent after the letter `e`, or none if it has no digits. -/
def exponent (e : Char) (t : List UInt8) : ℤ × List UInt8 :=
  match t with
  | [] => (0, [])
  | c :: rest =>
    let (neg, ds) := sign rest
    let n : ℤ := number 10 (ds.takeWhile isDigit)
    if lower c = e.toUInt8 ∧ ds.takeWhile isDigit ≠ [] then (if neg then -n else n, ds.dropWhile isDigit) else (0, t)

/-- A numeral in base 10, or in base 16 with an exponent of 2. -/
def numeral (hex : Bool) (t : List UInt8) : Option (Double × List UInt8) :=
  let (int, frac, rest) := digitsPoint (if hex then isHexDigit else isDigit) t
  if int = [] ∧ frac = [] then none
  else
    let (e, rest) := exponent (if hex then 'p' else 'e') rest
    let base : ℚ := if hex then 2 else 10
    let places : ℤ := if hex then 4 * frac.length else frac.length
    some (round (number (if hex then 16 else 10) (int ++ frac) * base ^ (e - places)), rest)

/-- A hexadecimal numeral, with its prefix. -/
def hexNumeral : List UInt8 → Option (Double × List UInt8)
  | zero :: x :: rest => if zero = 48 ∧ lower x = Char.toUInt8 'x' then numeral true rest else none
  | _ => none

/-- What comes after the sign. -/
def magnitude (t : List UInt8) : Option (Double × List UInt8) :=
  match keyword ['i', 'n', 'f', 'i', 'n', 'i', 't', 'y'] t <|> keyword ['i', 'n', 'f'] t with
  | some rest => some (.inf false, rest)
  | none =>
    match keyword ['n', 'a', 'n'] t with
    | some rest => some (.nan, nanChars rest)
    | none => hexNumeral t <|> numeral false t

/-- `strtod`: the value, and where `endptr` points to. -/
def strtod (s : List UInt8) : Double × List UInt8 :=
  let (neg, t) := sign (s.dropWhile isSpace)
  match magnitude t with
  | none => (.finite 0, s)
  | some (value, rest) => (if neg then value.neg else value, rest)

/-! ## Runs of characters -/

section

variable {p : UInt8 → Bool} {l rest : List UInt8}

theorem span_append (h : ∀ c ∈ l, p c = true) (hrest : ∀ c ∈ rest.head?, p c = false) :
    (l ++ rest).takeWhile p = l ∧ (l ++ rest).dropWhile p = rest := by
  rw [List.takeWhile_append_of_pos h, List.dropWhile_append_of_pos h]
  cases rest with
  | nil => simp
  | cons c rest =>
    have hc : p c = false := hrest c rfl
    simp [hc]

theorem head_dropWhile (l : List UInt8) : ∀ c ∈ (l.dropWhile p).head?, p c = false := by
  intro c hc
  have h := List.head?_dropWhile_not p l
  rw [Option.mem_def.mp hc] at h
  exact h

end

/-! ## Numerals -/

theorem digit_bounds {c : UInt8} (h : isDigit c = true) : 48 ≤ c.toNat ∧ c.toNat ≤ 57 := by
  rw [isDigit, Bool.and_eq_true, decide_eq_true_eq, decide_eq_true_eq, UInt8.le_iff_toNat_le, UInt8.le_iff_toNat_le] at h
  exact h

theorem number_lt {ds : List UInt8} (h : ∀ c ∈ ds, isDigit c = true) : number 10 ds < 10 ^ ds.length := by
  have hfold : ∀ n, ds.foldl (fun n c => 10 * n + digitVal c) n < (n + 1) * 10 ^ ds.length := by
    induction ds with
    | nil => simp
    | cons c ds ih =>
      intro n
      have hc := digit_bounds (h c (List.mem_cons_self ..))
      have hval : digitVal c ≤ 9 := by
        rw [digitVal, if_pos (h c (List.mem_cons_self ..))]
        omega
      have hrest := ih (fun d hd => h d (List.mem_cons_of_mem _ hd)) (10 * n + digitVal c)
      rw [List.foldl_cons, List.length_cons, Nat.pow_succ]
      calc _ < (10 * n + digitVal c + 1) * 10 ^ ds.length := hrest
        _ ≤ ((n + 1) * 10) * 10 ^ ds.length := Nat.mul_le_mul_right _ (by omega)
        _ = (n + 1) * (10 ^ ds.length * 10) := by ring
  have := hfold 0
  rwa [Nat.zero_add, Nat.one_mul] at this

/-- What may stand before a numeral. -/
def IsSign (sgn : List UInt8) : Prop := sgn = [] ∨ sgn = [plus] ∨ sgn = [minus]

theorem sign_spec (t : List UInt8) : ∃ sgn, IsSign sgn ∧ t = sgn ++ (sign t).2 := by
  cases t with
  | nil => exact ⟨[], Or.inl rfl, rfl⟩
  | cons c rest =>
    rw [sign]
    split
    · rename_i h
      exact ⟨[minus], Or.inr (Or.inr rfl), by rw [h]; rfl⟩
    · split
      · rename_i h
        exact ⟨[plus], Or.inr (Or.inl rfl), by rw [h]; rfl⟩
      · exact ⟨[], Or.inl rfl, rfl⟩

theorem sign_digit {c : UInt8} (h : isDigit c = true) (rest : List UInt8) :
    sign (c :: rest) = (false, c :: rest) := by
  have hminus : c ≠ minus := by
    intro he
    rw [he] at h
    exact absurd h (by decide)
  have hplus : c ≠ plus := by
    intro he
    rw [he] at h
    exact absurd h (by decide)
  rw [sign, if_neg hminus, if_neg hplus]

theorem sign_append {sgn : List UInt8} (hsgn : IsSign sgn) {c : UInt8} (h : isDigit c = true) (rest : List UInt8) :
    (sign (sgn ++ c :: rest)).2 = c :: rest := by
  rcases hsgn with rfl | rfl | rfl
  · rw [List.nil_append, sign_digit h]
  · rfl
  · rfl

theorem digit_not_space {c : UInt8} (h : isDigit c = true) : isSpace c = false := by
  have hc := digit_bounds h
  rw [isSpace, Bool.or_eq_false_iff, Bool.and_eq_false_iff, decide_eq_false_iff_not, decide_eq_false_iff_not,
    decide_eq_false_iff_not, UInt8.le_iff_toNat_le, UInt8.le_iff_toNat_le]
  refine ⟨?_, Or.inr ?_⟩
  · intro he
    rw [he] at hc
    exact absurd hc.1 (by decide)
  · intro hle
    exact absurd (hc.1.trans hle) (by decide)

theorem sign_not_space {sgn : List UInt8} (hsgn : IsSign sgn) {c : UInt8} (h : isDigit c = true) (rest : List UInt8) :
    ∀ d ∈ (sgn ++ c :: rest).head?, isSpace d = false := by
  intro d hd
  rcases hsgn with rfl | rfl | rfl
  · cases hd
    exact digit_not_space h
  · cases hd
    decide
  · cases hd
    decide

theorem digits_start {c : UInt8} (h : isDigit c = true) (rest : List UInt8) :
    sign ((c :: rest).dropWhile isSpace) = (false, c :: rest) := by
  have hspace : (c :: rest).dropWhile isSpace = c :: rest := by
    rw [List.dropWhile_cons_of_neg]
    rw [digit_not_space h]
    decide
  rw [hspace, sign_digit h]

/-! ## `%u` -/

/-- What `%u` reads: blanks, a sign and digits, up to what is no digit. -/
theorem scanUnsigned_iff {s rest : List UInt8} : (∃ v, scanUnsigned s = some (v, rest)) ↔
    ∃ blanks sgn ds, s = blanks ++ (sgn ++ (ds ++ rest)) ∧ (∀ c ∈ blanks, isSpace c = true) ∧ IsSign sgn ∧ ds ≠ [] ∧
      (∀ c ∈ ds, isDigit c = true) ∧ ∀ c ∈ rest.head?, isDigit c = false := by
  constructor
  · intro h
    obtain ⟨v, h⟩ := h
    rw [scanUnsigned] at h
    dsimp only at h
    rw [Option.ite_none_left_eq_some] at h
    obtain ⟨hne, h⟩ := h
    obtain ⟨sgn, hsgn, hsplit⟩ := sign_spec (s.dropWhile isSpace)
    cases h
    refine ⟨s.takeWhile isSpace, sgn, _, ?_, ?_, hsgn, hne, ?_, head_dropWhile _⟩
    · rw [List.takeWhile_append_dropWhile, ← hsplit, List.takeWhile_append_dropWhile]
    · exact fun c hc => List.mem_takeWhile_imp hc
    · exact fun c hc => List.mem_takeWhile_imp hc
  · intro h
    obtain ⟨blanks, sgn, ds, hs, hblanks, hsgn, hne, hds, hrest⟩ := h
    obtain ⟨htake, hdrop⟩ := span_append hds hrest
    obtain ⟨c, ds', rfl⟩ := List.exists_cons_of_ne_nil hne
    have hc := hds c (List.mem_cons_self ..)
    have hbody := (span_append hblanks (sign_not_space hsgn hc (ds' ++ rest))).2
    have hsign := sign_append hsgn hc (ds' ++ rest)
    rw [← List.cons_append] at hbody hsign
    rw [scanUnsigned, hs, hbody]
    dsimp only
    rw [hsign, htake, hdrop, if_neg hne]
    exact ⟨_, rfl⟩

theorem scanUnsigned_digits {ds rest : List UInt8} (hne : ds ≠ []) (hds : ∀ c ∈ ds, isDigit c = true)
    (hrest : ∀ c ∈ rest.head?, isDigit c = false) {v : UInt32} (hv : number 10 ds = v.toNat) :
    scanUnsigned (ds ++ rest) = some (v, rest) := by
  obtain ⟨htake, hdrop⟩ := span_append hds hrest
  obtain ⟨c, ds', rfl⟩ := List.exists_cons_of_ne_nil hne
  have hsign := digits_start (hds c (List.mem_cons_self ..)) (ds' ++ rest)
  rw [← List.cons_append] at hsign
  have hlt : ¬ 2 ^ 64 ≤ v.toNat := by
    have := v.toNat_lt
    omega
  rw [scanUnsigned, hsign]
  dsimp only
  rw [htake, hdrop, if_neg hne, hv, strtoul, if_neg hlt]
  simp

/-! ## `%s` -/

theorem scanWord_iff {width : ℕ} (hwidth : 0 < width) {s : List UInt8} : (∃ w, scanWord width s = some w) ↔
    ∃ blanks c rest, s = blanks ++ c :: rest ∧ (∀ d ∈ blanks, isSpace d = true) ∧ isSpace c = false := by
  constructor
  · intro h
    obtain ⟨w, h⟩ := h
    rw [scanWord, Option.ite_none_left_eq_some] at h
    cases hdrop : s.dropWhile isSpace with
    | nil =>
      rw [hdrop] at h
      exact absurd List.take_nil h.1
    | cons c rest =>
      refine ⟨s.takeWhile isSpace, c, rest, ?_, fun d hd => List.mem_takeWhile_imp hd, ?_⟩
      · rw [← hdrop, List.takeWhile_append_dropWhile]
      · exact head_dropWhile s c (by rw [hdrop]; rfl)
  · intro h
    obtain ⟨blanks, c, rest, hs, hblanks, hc⟩ := h
    have hdrop : s.dropWhile isSpace = c :: rest := by
      rw [hs]
      refine (span_append hblanks fun d hd => ?_).2
      cases hd
      exact hc
    obtain ⟨n, rfl⟩ := Nat.exists_eq_add_of_lt hwidth
    rw [scanWord, hdrop, List.takeWhile_cons_of_pos (by rw [hc]; rfl), Nat.zero_add, List.take_succ_cons]
    exact ⟨_, rfl⟩

theorem scanWord_of_le {width : ℕ} {w : List UInt8} (hne : w ≠ []) (hw : ∀ c ∈ w, isSpace c = false)
    (hle : w.length ≤ width) : scanWord width w = some w := by
  have hdrop : w.dropWhile isSpace = w := by
    obtain ⟨c, rest, rfl⟩ := List.exists_cons_of_ne_nil hne
    rw [List.dropWhile_cons_of_neg]
    rw [hw c (List.mem_cons_self ..)]
    decide
  have htake : (w.takeWhile fun c => !isSpace c) = w := by
    rw [List.takeWhile_eq_self_iff]
    intro c hc
    rw [hw c hc]
    rfl
  rw [scanWord, hdrop, htake, List.take_of_length_le hle]
  exact if_neg hne

/-! ## `strtod` -/

theorem lower_digit {c : UInt8} (h : isDigit c = true) : lower c = c := by
  have hbounds := digit_bounds h
  rw [lower, if_neg]
  rw [Bool.and_eq_true, decide_eq_true_eq, UInt8.le_iff_toNat_le]
  intro hle
  exact absurd (hle.1.trans hbounds.2) (by decide)

theorem keyword_digit {w : Char} (hw : 57 < w.toUInt8.toNat) (ws : List Char) {c : UInt8} (hc : isDigit c = true)
    (t : List UInt8) : keyword (w :: ws) (c :: t) = none := by
  have hbounds := digit_bounds hc
  refine if_neg ?_
  rw [List.length_cons, List.take_succ_cons, List.map_cons, List.map_cons, lower_digit hc]
  intro h
  have := congrArg UInt8.toNat (List.cons.inj h).1
  omega

/-- A character that ends a whole number. -/
structure Ends (c : UInt8) : Prop where
  digit : isDigit c = false
  point : c ≠ Char.toUInt8 '.'
  exponent : lower c ≠ Char.toUInt8 'e'
  hex : lower c ≠ Char.toUInt8 'x'

theorem hexNumeral_digits {c : UInt8} {t : List UInt8} (h : ∀ x ∈ t.head?, lower x ≠ Char.toUInt8 'x') :
    hexNumeral (c :: t) = none := by
  cases t with
  | nil => rfl
  | cons x t =>
    rw [hexNumeral]
    exact if_neg fun he => h x rfl he.2

theorem numeral_digits {ds rest : List UInt8} (hne : ds ≠ []) (hds : ∀ c ∈ ds, isDigit c = true)
    (hrest : ∀ c ∈ rest.head?, Ends c) : numeral false (ds ++ rest) = some (round (number 10 ds), rest) := by
  obtain ⟨htake, hdrop⟩ := span_append hds fun c hc => (hrest c hc).digit
  have hpoint : digitsPoint isDigit (ds ++ rest) = (ds, [], rest) := by
    rw [digitsPoint, htake, hdrop]
    cases rest with
    | nil => rfl
    | cons c rest =>
      dsimp only
      rw [if_neg fun h => (hrest c rfl).point h.1]
  have hexp : exponent 'e' rest = (0, rest) := by
    cases rest with
    | nil => rfl
    | cons c rest => exact if_neg fun h => (hrest c rfl).exponent h.1
  rw [numeral, if_neg Bool.false_ne_true, hpoint]
  dsimp only
  simp only [Bool.false_eq_true, if_false]
  rw [if_neg fun h => hne h.1, hexp, List.append_nil]
  simp

theorem strtod_digits {ds rest : List UInt8} (hne : ds ≠ []) (hds : ∀ c ∈ ds, isDigit c = true)
    (hrest : ∀ c ∈ rest.head?, Ends c) : strtod (ds ++ rest) = (round (number 10 ds), rest) := by
  have hnumeral := numeral_digits hne hds hrest
  obtain ⟨c, ds', rfl⟩ := List.exists_cons_of_ne_nil hne
  have hc := hds c (List.mem_cons_self ..)
  have hnext : ∀ x ∈ (ds' ++ rest).head?, lower x ≠ Char.toUInt8 'x' := by
    intro x hx
    cases ds' with
    | nil => exact (hrest x hx).hex
    | cons _ ds'' =>
      cases hx
      have hx : isDigit x = true := hds x (by simp)
      rw [lower_digit hx]
      intro he
      rw [he] at hx
      exact absurd hx (by decide)
  have hmagnitude : magnitude (c :: ds' ++ rest) = some (round (number 10 (c :: ds')), rest) := by
    rw [List.cons_append] at hnumeral ⊢
    rw [magnitude, keyword_digit (by decide) _ hc, keyword_digit (by decide) _ hc, keyword_digit (by decide) _ hc,
      hexNumeral_digits hnext, hnumeral]
    rfl
  rw [strtod, List.cons_append, digits_start hc, ← List.cons_append]
  dsimp only
  rw [hmagnitude]
  rfl

end Scan
