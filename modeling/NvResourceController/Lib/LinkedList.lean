/-
  NvResourceController.Lib.LinkedList — circular doubly linked lists whose links lie in
  the entries, in a heap that allocates and frees, one access a statement.

  A list is threaded through its entries and a head of its own. An access through a
  pointer that points to no head and to no allocated entry faults.

  - `Lists m ls`: the lists of the heap `m` hold what `ls` says, and share no entry.
  - `listAdd_ends`, `listDel_ends`: adding at the head and deleting fault nowhere, and
    leave the lists as they were but for that entry.
  - `forEach_ends`: the rule of a walk along a list, by an invariant over what was
    visited; `search_ends`: the walk that stops at the first match ends where
    `ListCursor.scan` does.
  - `malloc_fresh`: there is always an entry to allocate.
-/

import NvResourceController.Lib.Command
import NvResourceController.Lib.Cursor
import Mathlib.Logic.Function.Basic
import Mathlib.Data.Finset.Union
import Mathlib.Data.Fintype.EquivFin

namespace LinkedList

open Command

/-! ## Memory -/

/-- Where links lie: in a list's head or in an entry. -/
inductive Loc (H A : Type) where
  | head (h : H)
  | node (a : A)
  deriving DecidableEq

inductive Ptr (H A : Type) where
  | loc (l : Loc H A)
  | null
  | poison1
  | poison2
  deriving DecidableEq

/-- The heap: the entries that are allocated, with what they hold beside their links. -/
structure Memory (H A α : Type) where
  next : Loc H A → Ptr H A
  prev : Loc H A → Ptr H A
  cell : A → Option α

variable {H A α : Type} [DecidableEq H] [DecidableEq A]

namespace Memory

def valid (m : Memory H A α) : Loc H A → Bool
  | .head _ => true
  | .node a => (m.cell a).isSome

/-- What a pointer points to. -/
def deref (m : Memory H A α) : Ptr H A → Option (Loc H A)
  | .loc l => if m.valid l then some l else none
  | _ => none

def setNext (m : Memory H A α) (l : Loc H A) (q : Ptr H A) : Memory H A α :=
  { m with next := Function.update m.next l q }

def setPrev (m : Memory H A α) (l : Loc H A) (q : Ptr H A) : Memory H A α :=
  { m with prev := Function.update m.prev l q }

def setCell (m : Memory H A α) (a : A) (v : Option α) : Memory H A α :=
  { m with cell := Function.update m.cell a v }

@[simp] theorem setNext_next (m : Memory H A α) (l : Loc H A) (q : Ptr H A) :
    (m.setNext l q).next = Function.update m.next l q := rfl
@[simp] theorem setNext_prev (m : Memory H A α) (l : Loc H A) (q : Ptr H A) : (m.setNext l q).prev = m.prev := rfl
@[simp] theorem setNext_cell (m : Memory H A α) (l : Loc H A) (q : Ptr H A) : (m.setNext l q).cell = m.cell := rfl
@[simp] theorem setPrev_next (m : Memory H A α) (l : Loc H A) (q : Ptr H A) : (m.setPrev l q).next = m.next := rfl
@[simp] theorem setPrev_prev (m : Memory H A α) (l : Loc H A) (q : Ptr H A) :
    (m.setPrev l q).prev = Function.update m.prev l q := rfl
@[simp] theorem setPrev_cell (m : Memory H A α) (l : Loc H A) (q : Ptr H A) : (m.setPrev l q).cell = m.cell := rfl
omit [DecidableEq H] in
@[simp] theorem setCell_next (m : Memory H A α) (a : A) (v : Option α) : (m.setCell a v).next = m.next := rfl
omit [DecidableEq H] in
@[simp] theorem setCell_prev (m : Memory H A α) (a : A) (v : Option α) : (m.setCell a v).prev = m.prev := rfl
omit [DecidableEq H] in
@[simp] theorem setCell_cell (m : Memory H A α) (a : A) (v : Option α) :
    (m.setCell a v).cell = Function.update m.cell a v := rfl

omit [DecidableEq H] [DecidableEq A] in
theorem deref_valid {m : Memory H A α} {l : Loc H A} (h : m.valid l = true) : m.deref (.loc l) = some l := by
  simp [deref, h]

@[simp] theorem setNext_deref (m : Memory H A α) (l : Loc H A) (q : Ptr H A) : (m.setNext l q).deref = m.deref := rfl
@[simp] theorem setPrev_deref (m : Memory H A α) (l : Loc H A) (q : Ptr H A) : (m.setPrev l q).deref = m.deref := rfl

end Memory

/-! ## Chains -/

/-- `p` and `q` point at each other. -/
def Edge (m : Memory H A α) (p q : Loc H A) : Prop := m.next p = .loc q ∧ m.prev q = .loc p

/-- From `p` through the entries `as` to `q`. -/
def Chain (m : Memory H A α) : Loc H A → List A → Loc H A → Prop
  | p, [], q => Edge m p q
  | p, a :: as, q => Edge m p (.node a) ∧ Chain m (.node a) as q

def lastOf (p : Loc H A) : List A → Loc H A
  | [] => p
  | a :: as => lastOf (.node a) as

def firstOf (q : Loc H A) : List A → Loc H A
  | [] => q
  | a :: _ => .node a

section
variable {m m' : Memory H A α} {p q : Loc H A} {as bs : List A} {a : A}

omit [DecidableEq H] [DecidableEq A]

theorem lastOf_mem (p : Loc H A) (as : List A) : lastOf p as = p ∨ ∃ a ∈ as, lastOf p as = .node a := by
  induction as generalizing p with
  | nil => exact .inl rfl
  | cons b bs ih =>
    rcases ih (.node b) with h | ⟨c, hc, h⟩
    · exact .inr ⟨b, by simp, h⟩
    · exact .inr ⟨c, by simp [hc], h⟩

theorem chain_append : Chain m p (as ++ a :: bs) q ↔ Chain m p as (.node a) ∧ Chain m (.node a) bs q := by
  induction as generalizing p with
  | nil => rfl
  | cons b as ih => simp only [List.cons_append, Chain, ih, and_assoc]

theorem chain_next (h : Chain m p as q) : m.next p = .loc (firstOf q as) := by
  cases as with
  | nil => exact h.1
  | cons a as => exact h.1.1

theorem chain_prev (h : Chain m p as q) : m.prev q = .loc (lastOf p as) := by
  induction as generalizing p with
  | nil => exact h.2
  | cons a as ih => exact ih h.2

/-- A chain rests on the links out of what comes before its end and the links back
    from what comes after its start. -/
theorem chain_congr (h : Chain m p as q) (hp : m'.next p = m.next p) (hq : m'.prev q = m.prev q)
    (hn : ∀ a ∈ as, m'.next (.node a) = m.next (.node a)) (hb : ∀ a ∈ as, m'.prev (.node a) = m.prev (.node a)) :
    Chain m' p as q := by
  induction as generalizing p with
  | nil => exact ⟨hp.trans h.1, hq.trans h.2⟩
  | cons a as ih =>
    have hedge : Edge m' p (.node a) := ⟨hp.trans h.1.1, (hb a (by simp)).trans h.1.2⟩
    exact ⟨hedge, ih h.2 (hn a (by simp)) (fun b hm => hn b (by simp [hm])) fun b hm => hb b (by simp [hm])⟩

end

section
variable {m : Memory H A α} {p q r : Loc H A} {as bs : List A} {a : A}

theorem chain_retarget (h : Chain m p as q) (hp : ∀ a ∈ as, p ≠ .node a) (hnd : as.Nodup)
    (hr : ∀ a ∈ as, r ≠ .node a) :
    Chain ((m.setPrev r (.loc (lastOf p as))).setNext (lastOf p as) (.loc r)) p as r := by
  induction as generalizing p with
  | nil => simp [Chain, Edge, lastOf]
  | cons b bs ih =>
    have hb := List.nodup_cons.mp hnd
    have hrest := ih h.2 (fun c hc e => hb.1 (by cases e; exact hc)) hb.2 fun c hc => hr c (by simp [hc])
    have hlast : p ≠ lastOf (.node b) bs := by
      rcases lastOf_mem (.node b : Loc H A) bs with he | ⟨c, hc, he⟩
      · rw [he]
        exact hp b (by simp)
      · rw [he]
        exact hp c (by simp [hc])
    refine ⟨⟨?_, ?_⟩, hrest⟩
    · simp [lastOf, Function.update_of_ne hlast, h.1.1]
    · simp [Function.update_of_ne (hr b (by simp)).symm, h.1.2]

/-- Two chains that meet at an entry, without it. -/
theorem chain_unlink (hbefore : Chain m p as (.node a)) (hafter : Chain m (.node a) bs q)
    (hnd : (as ++ a :: bs).Nodup) (hp : ∀ b ∈ as ++ a :: bs, p ≠ .node b) (hq : ∀ b ∈ as ++ a :: bs, q ≠ .node b) :
    Chain ((m.setPrev (firstOf q bs) (.loc (lastOf p as))).setNext (lastOf p as) (.loc (firstOf q bs)))
      p (as ++ bs) q := by
  have hndas : as.Nodup := (List.nodup_append.mp hnd).1
  have hnot : ∀ b ∈ bs, b ∉ as := by
    intro b hb hba
    exact (List.nodup_append.mp hnd).2.2 b hba b (by simp [hb]) rfl
  have hpas : ∀ b ∈ as, p ≠ .node b := fun b hb => hp b (by simp [hb])
  cases bs with
  | nil =>
    rw [List.append_nil]
    exact chain_retarget hbefore hpas hndas fun b hb => hq b (by simp [hb])
  | cons b bs =>
    have hndbs : b ∉ bs := by
      have := (List.nodup_append.mp hnd).2.1
      simp only [List.nodup_cons, List.mem_cons, not_or] at this
      exact this.2.1
    have hb : b ∉ as := hnot b (by simp)
    rw [chain_append]
    refine ⟨chain_retarget hbefore hpas hndas fun c hc e => hb (by cases e; exact hc), ?_⟩
    -- past the entry only the way back into `b` and the way out of what led to it have changed
    have hlast : ∀ c ∈ b :: bs, (.node c : Loc H A) ≠ lastOf p as := by
      intro c hc e
      rcases lastOf_mem p as with he | ⟨d, hd, he⟩
      · exact hp c (by rcases List.mem_cons.mp hc with rfl | hc <;> simp [*]) (he.symm.trans e.symm)
      · rw [he] at e
        cases e
        exact hnot c hc hd
    have hfirst : ∀ c ∈ bs, (.node c : Loc H A) ≠ .node b := by
      intro c hc e
      cases e
      exact hndbs hc
    have hend : q ≠ .node b := hq b (by simp)
    refine chain_congr hafter.2 ?_ ?_ ?_ ?_
    · simp [Function.update_of_ne (hlast b (by simp))]
    · simp [firstOf, Function.update_of_ne hend]
    · intro c hc
      simp [Function.update_of_ne (hlast c (by simp [hc]))]
    · intro c hc
      simp [firstOf, Function.update_of_ne (hfirst c hc)]

theorem chain_link (h : Chain m p as q) (ha : a ∉ as) (hp : ∀ b ∈ as, p ≠ .node b) (hnd : as.Nodup)
    (hpa : p ≠ .node a) (hqa : q ≠ .node a) (hq : ∀ b ∈ as, q ≠ .node b) :
    Chain ((((m.setPrev (firstOf q as) (.loc (.node a))).setNext (.node a) (.loc (firstOf q as))).setPrev
      (.node a) (.loc p)).setNext p (.loc (.node a))) p (a :: as) q := by
  have hfirst : firstOf q as ≠ .node a := by
    cases as with
    | nil => exact hqa
    | cons b bs => simpa [firstOf] using fun e : b = a => ha (by simp [e])
  refine ⟨⟨by simp, by simp⟩, ?_⟩
  cases as with
  | nil => exact ⟨by simp [Function.update_of_ne hpa.symm, firstOf], by simp [Function.update_of_ne hqa, firstOf]⟩
  | cons b bs =>
    have hab : a ≠ b := fun e => ha (by simp [e])
    have hb := (List.nodup_cons.mp hnd).1
    refine ⟨⟨by simp [Function.update_of_ne hpa.symm, firstOf], by simp [hab.symm, firstOf]⟩,
      chain_congr h.2 ?_ ?_ ?_ ?_⟩
    · simp [Function.update_of_ne (hp b (by simp)).symm, hab.symm]
    · simp [Function.update_of_ne hqa, Function.update_of_ne (hq b (by simp)), firstOf]
    · intro c hc
      have hac : c ≠ a := fun e => ha (by simp [← e, hc])
      simp [Function.update_of_ne (hp c (by simp [hc])).symm, hac]
    · intro c hc
      have hac : c ≠ a := fun e => ha (by simp [← e, hc])
      have hcb : c ≠ b := fun e => hb (e ▸ hc)
      simp [hac, hcb, firstOf]

end

/-! ## What the lists hold -/

/-- Each list holds the entries `ls` says, in that order, and no two share one. -/
structure Lists (m : Memory H A α) (ls : H → List (A × α)) : Prop where
  chain : ∀ h, Chain m (.head h) ((ls h).map Prod.fst) (.head h)
  cell : ∀ h, ∀ x ∈ ls h, m.cell x.1 = some x.2
  nodup : ∀ h, ((ls h).map Prod.fst).Nodup
  apart : ∀ h k, ∀ a ∈ (ls h).map Prod.fst, a ∈ (ls k).map Prod.fst → h = k

/-- An entry of no list. -/
def Loose (ls : H → List (A × α)) (a : A) : Prop := ∀ h, a ∉ (ls h).map Prod.fst

section
variable {m m' : Memory H A α} {ls : H → List (A × α)} {h : H} {a : A} {v : α}

omit [DecidableEq H] [DecidableEq A] in
theorem head_ne (h : H) (as : List A) : ∀ a ∈ as, (.head h : Loc H A) ≠ .node a := by
  intro a _ e
  cases e

omit [DecidableEq H] [DecidableEq A] in
/-- The other lists are as they were if the links of their entries are. -/
theorem lists_frame (hl : Lists m ls) {k : H} (hn : m'.next (.head k) = m.next (.head k))
    (hb : m'.prev (.head k) = m.prev (.head k))
    (hnext : ∀ b ∈ (ls k).map Prod.fst, m'.next (.node b) = m.next (.node b))
    (hprev : ∀ b ∈ (ls k).map Prod.fst, m'.prev (.node b) = m.prev (.node b)) :
    Chain m' (.head k) ((ls k).map Prod.fst) (.head k) := chain_congr (hl.chain k) hn hb hnext hprev

omit [DecidableEq H] [DecidableEq A] in
theorem firstOf_valid (hl : Lists m ls) (h : H) {xs : List (A × α)} (hxs : ∀ x ∈ xs, x ∈ ls h) :
    m.valid (firstOf (.head h) (xs.map Prod.fst)) = true := by
  cases xs with
  | nil => rfl
  | cons x xs => simp [firstOf, Memory.valid, hl.cell h x (hxs x (by simp))]

omit [DecidableEq H] [DecidableEq A] in
theorem lastOf_valid (hl : Lists m ls) (h : H) {xs : List (A × α)} (hxs : ∀ x ∈ xs, x ∈ ls h) :
    m.valid (lastOf (.head h) (xs.map Prod.fst)) = true := by
  rcases lastOf_mem (.head h : Loc H A) (xs.map Prod.fst) with he | ⟨b, hb, he⟩
  · rw [he]
    rfl
  · obtain ⟨x, hx, rfl⟩ := List.mem_map.mp hb
    rw [he]
    simp [Memory.valid, hl.cell h x (hxs x hx)]

/-- `m` with `a` linked in at the head of `h`. -/
def linked (m : Memory H A α) (h : H) (a : A) (as : List A) : Memory H A α :=
  (((m.setPrev (firstOf (.head h) as) (.loc (.node a))).setNext (.node a) (.loc (firstOf (.head h) as))).setPrev
    (.node a) (.loc (.head h))).setNext (.head h) (.loc (.node a))

theorem lists_linked (hl : Lists m ls) (ha : Loose ls a) (hv : m.cell a = some v) :
    Lists (linked m h a ((ls h).map Prod.fst)) (Function.update ls h ((a, v) :: ls h)) := by
  have hchain : ∀ k, Chain (linked m h a ((ls h).map Prod.fst)) (.head k)
      ((Function.update ls h ((a, v) :: ls h) k).map Prod.fst) (.head k) := by
    intro k
    by_cases hk : k = h
    · subst hk
      rw [Function.update_self]
      exact chain_link (hl.chain k) (ha k) (head_ne k _) (hl.nodup k) (by simp) (by simp) (head_ne k _)
    · rw [Function.update_of_ne hk]
      have hfirst : ∀ b ∈ (ls k).map Prod.fst, (.node b : Loc H A) ≠ firstOf (.head h) ((ls h).map Prod.fst) := by
        intro b hb e
        cases hls : ls h with
        | nil => simp [hls, firstOf] at e
        | cons x xs =>
          simp only [hls, List.map_cons, firstOf, Loc.node.injEq] at e
          exact hk (hl.apart k h b hb (by simp [hls, e]))
      have hhead : (.head k : Loc H A) ≠ firstOf (.head h) ((ls h).map Prod.fst) := by
        cases ls h with
        | nil => simpa [firstOf] using hk
        | cons x xs => simp [firstOf]
      refine lists_frame hl ?_ ?_ ?_ ?_
      · simp [linked, hk]
      · simp [linked, Function.update_of_ne hhead]
      · intro b hb
        have hba : b ≠ a := fun e => ha k (e ▸ hb)
        simp [linked, hba]
      · intro b hb
        have hba : b ≠ a := fun e => ha k (e ▸ hb)
        simp [linked, hba, Function.update_of_ne (hfirst b hb)]
  refine ⟨hchain, ?_, ?_, ?_⟩
  · intro k x hx
    show m.cell x.1 = some x.2
    by_cases hk : k = h
    · subst hk
      rw [Function.update_self] at hx
      rcases List.mem_cons.mp hx with rfl | hx
      · exact hv
      · exact hl.cell k x hx
    · rw [Function.update_of_ne hk] at hx
      exact hl.cell k x hx
  · intro k
    by_cases hk : k = h
    · subst hk
      rw [Function.update_self]
      exact List.nodup_cons.mpr ⟨ha k, hl.nodup k⟩
    · rw [Function.update_of_ne hk]
      exact hl.nodup k
  · intro k k' b hb hb'
    by_cases hk : k = h <;> by_cases hk' : k' = h
    · rw [hk, hk']
    · subst hk
      rw [Function.update_self] at hb
      rw [Function.update_of_ne hk'] at hb'
      rcases List.mem_cons.mp hb with rfl | hb
      · exact absurd hb' (ha k')
      · exact hl.apart k k' b hb hb'
    · subst hk'
      rw [Function.update_of_ne hk] at hb
      rw [Function.update_self] at hb'
      rcases List.mem_cons.mp hb' with rfl | hb'
      · exact absurd hb (ha k)
      · exact hl.apart k k' b hb hb'
    · rw [Function.update_of_ne hk] at hb
      rw [Function.update_of_ne hk'] at hb'
      exact hl.apart k k' b hb hb'

/-- `m` with the entry `a` taken out from between `before` and `after`. -/
def unlinked (m : Memory H A α) (h : H) (before : List A) (a : A) (after : List A) : Memory H A α :=
  (((m.setPrev (firstOf (.head h) after) (.loc (lastOf (.head h) before))).setNext (lastOf (.head h) before)
    (.loc (firstOf (.head h) after))).setNext (.node a) .poison1).setPrev (.node a) .poison2

theorem lists_unlinked (hl : Lists m ls) {before after : List (A × α)} (hls : ls h = before ++ (a, v) :: after) :
    Lists (unlinked m h (before.map Prod.fst) a (after.map Prod.fst)) (Function.update ls h (before ++ after)) ∧
      Loose (Function.update ls h (before ++ after)) a := by
  have hfst : (ls h).map Prod.fst = before.map Prod.fst ++ a :: after.map Prod.fst := by simp [hls]
  have hsub : (before ++ after).Sublist (ls h) := by
    rw [hls]
    exact List.Sublist.append_left (List.sublist_cons_self _ _) _
  have hnd := hl.nodup h
  rw [hfst] at hnd
  have hrest : a ∉ (before ++ after).map Prod.fst := by
    intro hm
    have := List.nodup_append.mp hnd
    rw [List.map_append, List.mem_append] at hm
    rcases hm with hm | hm
    · exact this.2.2 a hm a (by simp) rfl
    · exact (List.nodup_cons.mp this.2.1).1 hm
  have hin : a ∈ (ls h).map Prod.fst := by simp [hfst]
  have hmem : ∀ k, ∀ b ∈ (Function.update ls h (before ++ after) k).map Prod.fst, b ∈ (ls k).map Prod.fst := by
    intro k b hb
    by_cases hk : k = h
    · subst hk
      rw [Function.update_self] at hb
      exact (hsub.map Prod.fst).subset hb
    · rwa [Function.update_of_ne hk] at hb
  have hchain : ∀ k, Chain (unlinked m h (before.map Prod.fst) a (after.map Prod.fst)) (.head k)
      ((Function.update ls h (before ++ after) k).map Prod.fst) (.head k) := by
    intro k
    by_cases hk : k = h
    · subst hk
      rw [Function.update_self, List.map_append]
      have hch := hl.chain k
      rw [hfst, chain_append] at hch
      have hun := chain_unlink hch.1 hch.2 hnd (head_ne k _) (head_ne k _)
      rw [List.map_append] at hrest
      refine chain_congr hun (by simp [unlinked]) (by simp [unlinked]) ?_ ?_
      · intro b hb
        have hba : b ≠ a := fun e => hrest (e ▸ hb)
        simp [unlinked, hba]
      · intro b hb
        have hba : b ≠ a := fun e => hrest (e ▸ hb)
        simp [unlinked, hba]
    · rw [Function.update_of_ne hk]
      -- the entry's neighbours are in its own list
      have hother : ∀ b ∈ (ls k).map Prod.fst, b ∉ (ls h).map Prod.fst := fun b hb hb' => hk (hl.apart k h b hb hb')
      have hlast : ∀ b ∈ (ls k).map Prod.fst, (.node b : Loc H A) ≠ lastOf (.head h) (before.map Prod.fst) := by
        intro b hb e
        rcases lastOf_mem (.head h : Loc H A) (before.map Prod.fst) with he | ⟨c, hc, he⟩ <;> rw [he] at e
        · cases e
        · cases e
          exact hother b hb (by simp [hfst, hc])
      have hfirst : ∀ b ∈ (ls k).map Prod.fst, (.node b : Loc H A) ≠ firstOf (.head h) (after.map Prod.fst) := by
        intro b hb e
        cases after with
        | nil => simp [firstOf] at e
        | cons x xs =>
          cases e
          exact hother _ hb (by simp [hfst])
      have hheadl : (.head k : Loc H A) ≠ lastOf (.head h) (before.map Prod.fst) := by
        rcases lastOf_mem (.head h : Loc H A) (before.map Prod.fst) with he | ⟨c, -, he⟩ <;> rw [he]
        · simpa using hk
        · simp
      have hheadf : (.head k : Loc H A) ≠ firstOf (.head h) (after.map Prod.fst) := by
        cases after with
        | nil => simpa [firstOf] using hk
        | cons x xs => simp [firstOf]
      refine lists_frame hl ?_ ?_ ?_ ?_
      · simp [unlinked, Function.update_of_ne hheadl]
      · simp [unlinked, Function.update_of_ne hheadf]
      · intro b hb
        have hba : b ≠ a := fun e => hother b hb (e ▸ hin)
        simp [unlinked, hba, Function.update_of_ne (hlast b hb)]
      · intro b hb
        have hba : b ≠ a := fun e => hother b hb (e ▸ hin)
        simp [unlinked, hba, Function.update_of_ne (hfirst b hb)]
  refine ⟨⟨hchain, ?_, ?_, ?_⟩, ?_⟩
  · intro k x hx
    show m.cell x.1 = some x.2
    by_cases hk : k = h
    · subst hk
      rw [Function.update_self] at hx
      exact hl.cell k x (hsub.subset hx)
    · rw [Function.update_of_ne hk] at hx
      exact hl.cell k x hx
  · intro k
    by_cases hk : k = h
    · subst hk
      rw [Function.update_self]
      exact (hl.nodup k).sublist (hsub.map Prod.fst)
    · rw [Function.update_of_ne hk]
      exact hl.nodup k
  · intro k k' b hb hb'
    exact hl.apart k k' b (hmem k b hb) (hmem k' b hb')
  · intro k hm
    have hk : k = h := hl.apart k h a (hmem k a hm) hin
    subst hk
    rw [Function.update_self] at hm
    exact hrest hm

omit [DecidableEq H] in
theorem lists_setCell (hl : Lists m ls) (ha : Loose ls a) (c : Option α) : Lists (m.setCell a c) ls := by
  refine ⟨fun k => chain_congr (hl.chain k) rfl rfl (fun _ _ => rfl) fun _ _ => rfl, ?_, hl.nodup, hl.apart⟩
  intro k x hx
  have hne : x.1 ≠ a := fun e => ha k (e ▸ List.mem_map_of_mem hx)
  rw [Memory.setCell_cell, Function.update_of_ne hne]
  exact hl.cell k x hx

end

/-! ## Statements -/

/-- The pointer variables of the code that works on the lists. -/
structure Regs (H A : Type) where
  iter : Ptr H A
  next : Ptr H A
  prev : Ptr H A
  entry : Option A

def Regs.node (r : Regs H A) : Ptr H A :=
  match r.entry with
  | some a => .loc (.node a)
  | none => .null

abbrev State (H A α : Type) := Memory H A α × Regs H A

def loadNext (p : Regs H A → Ptr H A) (into : Regs H A → Ptr H A → Regs H A) (s : State H A α) :
    Option (State H A α) :=
  (s.1.deref (p s.2)).map fun l => (s.1, into s.2 (s.1.next l))

def loadPrev (p : Regs H A → Ptr H A) (into : Regs H A → Ptr H A → Regs H A) (s : State H A α) :
    Option (State H A α) :=
  (s.1.deref (p s.2)).map fun l => (s.1, into s.2 (s.1.prev l))

def storeNext (p q : Regs H A → Ptr H A) (s : State H A α) : Option (State H A α) :=
  (s.1.deref (p s.2)).map fun l => (s.1.setNext l (q s.2), s.2)

def storePrev (p q : Regs H A → Ptr H A) (s : State H A α) : Option (State H A α) :=
  (s.1.deref (p s.2)).map fun l => (s.1.setPrev l (q s.2), s.2)

section
variable {p q : Regs H A → Ptr H A} {into : Regs H A → Ptr H A → Regs H A} {m : Memory H A α} {r : Regs H A}
  {l : Loc H A}

omit [DecidableEq H] [DecidableEq A] in
theorem loadNext_eq (hp : p r = .loc l) (hv : m.valid l = true) :
    loadNext p into (m, r) = some (m, into r (m.next l)) := by
  simp [loadNext, hp, Memory.deref_valid hv]

omit [DecidableEq H] [DecidableEq A] in
theorem loadPrev_eq (hp : p r = .loc l) (hv : m.valid l = true) :
    loadPrev p into (m, r) = some (m, into r (m.prev l)) := by
  simp [loadPrev, hp, Memory.deref_valid hv]

theorem storeNext_eq (hp : p r = .loc l) (hv : m.valid l = true) :
    storeNext p q (m, r) = some (m.setNext l (q r), r) := by
  simp [storeNext, hp, Memory.deref_valid hv]

theorem storePrev_eq (hp : p r = .loc l) (hv : m.valid l = true) :
    storePrev p q (m, r) = some (m.setPrev l (q r), r) := by
  simp [storePrev, hp, Memory.deref_valid hv]

omit [DecidableEq H] [DecidableEq A] in
theorem node_eq {a : A} (he : r.entry = some a) : r.node = .loc (.node a) := by
  simp [Regs.node, he]

end

/-- What `entry` points to. -/
def field (s : State H A α) : Option α := s.2.entry.bind s.1.cell

def setField (f : α → Option α) (s : State H A α) : Option (State H A α) :=
  s.2.entry.bind fun a => ((s.1.cell a).bind f).map fun v => (s.1.setCell a (some v), s.2)

/-- `entry = malloc(..)`: any entry that is not allocated, its links and its content
    anything of the type asked for; or `NULL`. -/
def malloc (ok : Bool) (type : α → Prop) (s s' : State H A α) : Prop :=
  if ok then ∃ a v p q, s.1.cell a = none ∧ type v ∧
    s' = (((s.1.setCell a (some v)).setNext (.node a) p).setPrev (.node a) q, { s.2 with entry := some a })
  else s' = (s.1, { s.2 with entry := none })

/-- `free(entry); entry = NULL`: an entry that is not allocated cannot be freed. -/
def free (s : State H A α) : Option (State H A α) :=
  s.2.entry.bind fun a => (s.1.cell a).map fun _ => (s.1.setCell a none, { s.2 with entry := none })

/-- `entry = container_of(iter, .., node)`. -/
def containerOf (s : State H A α) : Option (State H A α) :=
  match s.2.iter with
  | .loc (.node a) => some (s.1, { s.2 with entry := some a })
  | _ => none

/-- `list_add(&entry->node, head)`. -/
def listAdd (h : H) : Cmd (State H A α) := .block [
  .exec (loadNext (fun _ => .loc (.head h)) fun r q => { r with next := q }),
  .exec (storePrev Regs.next Regs.node),
  .exec (storeNext Regs.node Regs.next),
  .exec (storePrev Regs.node fun _ => .loc (.head h)),
  .exec (storeNext (fun _ => .loc (.head h)) Regs.node)]

/-- `list_del(&entry->node)`. -/
def listDel : Cmd (State H A α) := .block [
  .exec (loadPrev Regs.node fun r q => { r with prev := q }),
  .exec (loadNext Regs.node fun r q => { r with next := q }),
  .exec (storePrev Regs.next Regs.prev),
  .exec (storeNext Regs.prev Regs.next),
  .exec (storeNext Regs.node fun _ => .poison1),
  .exec (storePrev Regs.node fun _ => .poison2)]

section
variable {S : Type} (P : Part S (State H A α))

/-- `list_for_each(iter, head) { entry = container_of(iter, .., node); body }`. -/
def forEach (h : H) (body : Cmd S) : Cmd S :=
  .seq (P.zoom (.exec (loadNext (fun _ => .loc (.head h)) fun r q => { r with iter := q })))
    (.loop (.ite (fun s => some ((P.get s).2.iter ≠ .loc (.head h)))
      (.block [
        P.zoom (.exec containerOf),
        body,
        P.zoom (.exec (loadNext Regs.iter fun r q => { r with iter := q }))])
      .brk))

/-- A walk that does `found` at an entry that passes the test. -/
def search (h : H) (test : α → Option Bool) (found : Cmd S) : Cmd S :=
  forEach P h (.when (fun s => (field (P.get s)).bind test) found)

end

/-! ## What they do -/

section
variable {ls : H → List (A × α)} {h : H} {a : A} {v : α} {m : Memory H A α} {r : Regs H A}
  {I : State H A α → Prop} {Q : Cmd.Exit → State H A α → Prop}

theorem listAdd_ends (hI : ∀ s, I s) (hl : Lists m ls) (he : r.entry = some a) (hv : m.cell a = some v)
    (hQ : ∀ r', r'.entry = some a → Q .fell (linked m h a ((ls h).map Prod.fst), r')) :
    Ends I Q (listAdd h) (m, r) := by
  have hnext := chain_next (hl.chain h)
  have hfirst : m.valid (firstOf (.head h) ((ls h).map Prod.fst)) = true := firstOf_valid hl h fun _ hx => hx
  have hnode : m.valid (.node a) = true := by simp [Memory.valid, hv]
  have hhead : m.valid (.head h) = true := rfl
  have hat : ∀ q, (⟨r.iter, q, r.prev, r.entry⟩ : Regs H A).node = .loc (.node a) := fun q => node_eq he
  unfold listAdd
  refine .exec_seq (hI _) (loadNext_eq rfl hhead) ?_
  rw [hnext]
  refine .exec_seq (hI _) (storePrev_eq rfl hfirst) ?_
  refine .exec_seq (hI _) (storeNext_eq (hat _) hnode) ?_
  refine .exec_seq (hI _) (storePrev_eq (hat _) hnode) ?_
  refine .exec (hI _) (storeNext_eq rfl hhead) ?_
  rw [hat]
  exact hQ _ he

theorem listDel_ends {before after : List (A × α)} (hI : ∀ s, I s) (hl : Lists m ls)
    (hls : ls h = before ++ (a, v) :: after) (he : r.entry = some a)
    (hQ : ∀ r', r'.entry = some a → Q .fell (unlinked m h (before.map Prod.fst) a (after.map Prod.fst), r')) :
    Ends I Q listDel (m, r) := by
  have hch := hl.chain h
  rw [show (ls h).map Prod.fst = before.map Prod.fst ++ a :: after.map Prod.fst by simp [hls], chain_append] at hch
  have hprev := chain_prev hch.1
  have hnext := chain_next hch.2
  have hnode : m.valid (.node a) = true := by simp [Memory.valid, hl.cell h (a, v) (by simp [hls])]
  have hfirst : m.valid (firstOf (.head h) (after.map Prod.fst)) = true :=
    firstOf_valid hl h fun x hx => by simp [hls, hx]
  have hlast : m.valid (lastOf (.head h) (before.map Prod.fst)) = true :=
    lastOf_valid hl h fun x hx => by simp [hls, hx]
  have hat : ∀ p q, (⟨r.iter, q, p, r.entry⟩ : Regs H A).node = .loc (.node a) := fun p q => node_eq he
  unfold listDel
  refine .exec_seq (hI _) (loadPrev_eq (node_eq he) hnode) ?_
  rw [hprev]
  refine .exec_seq (hI _) (loadNext_eq (hat _ _) hnode) ?_
  rw [hnext]
  refine .exec_seq (hI _) (storePrev_eq rfl hfirst) ?_
  refine .exec_seq (hI _) (storeNext_eq rfl hlast) ?_
  refine .exec_seq (hI _) (storeNext_eq (hat _ _) hnode) ?_
  exact .exec (hI _) (storePrev_eq (hat _ _) hnode) (hQ _ he)

omit [DecidableEq H] [DecidableEq A] in
theorem malloc_fresh [Infinite A] {used : Finset A} (hu : ∀ a, m.cell a ≠ none → a ∈ used) : ∃ a, m.cell a = none := by
  obtain ⟨a, ha⟩ := Infinite.exists_notMem_finset used
  exact ⟨a, by_contra fun hc => ha (hu a hc)⟩

end

section
variable {S : Type} (P : Part S (State H A α)) {I : S → Prop} {Q : Cmd.Exit → S → Prop} {d : Cmd S} {s : S}

omit [DecidableEq H] [DecidableEq A] in
theorem zoom_exec_seq {f : State H A α → Option (State H A α)} {t : State H A α} (hi : I s) (hf : f (P.get s) = some t)
    (h : Ends I Q d (P.put s t)) : Ends I Q (.seq (P.zoom (.exec f)) d) s := by
  refine .act_seq hi ⟨_, t, hf, rfl⟩ fun s' hs' => ?_
  obtain ⟨t', ht', rfl⟩ := hs'
  rw [hf] at ht'
  cases ht'
  exact h

omit [DecidableEq H] [DecidableEq A] in
theorem zoom_exec {f : State H A α → Option (State H A α)} {t : State H A α} (hi : I s) (hf : f (P.get s) = some t)
    (h : Q .fell (P.put s t)) : Ends I Q (P.zoom (.exec f)) s := by
  refine .act hi ⟨_, t, hf, rfl⟩ fun s' hs' => ?_
  obtain ⟨t', ht', rfl⟩ := hs'
  rw [hf] at ht'
  cases ht'
  exact h

/-- The walk stops where `ListCursor.scan` does: at the first match, or with `entry` at
    the last entry it visited. -/
theorem search_ends {ls : H → List (A × α)} {h : H} {test : α → Option Bool} {p : α → Bool} {found : Cmd S}
    {m : Memory H A α} {r : Regs H A} (hl : Lists m ls) (htest : ∀ x ∈ ls h, test x.2 = some (p x.2))
    (hI : ∀ t, I (P.put s t))
    (hfound : ∀ c r', ListCursor.scan (p ∘ Prod.snd) (ls h) = some c → p c.entry.2 = true →
      r'.entry = some c.entry.1 → Ends I (Then (fun _ => False) (Q .fell)) found (P.put s (m, r')))
    (hend : ∀ r', (∀ x ∈ ls h, p x.2 = false) →
      r'.entry = ((ls h).getLast?.map Prod.fst).or r.entry → Q .fell (P.put s (m, r')))
    (hget : P.get s = (m, r)) : Ends I Q (search P h test found) s := by
  have hhead : m.valid (.head h) = true := rfl
  -- the rest of the walk, once `visited` has no match
  have key : ∀ (rest visited : List (A × α)) (r' : Regs H A), ls h = visited ++ rest →
      (∀ x ∈ visited, p x.2 = false) → r'.iter = .loc (firstOf (.head h) (rest.map Prod.fst)) →
      r'.entry = (visited.getLast?.map Prod.fst).or r.entry →
      Ends I Q (.loop (.ite (fun s => some ((P.get s).2.iter ≠ .loc (.head h)))
        (.block [P.zoom (.exec containerOf), .when (fun s => (field (P.get s)).bind test) found,
          P.zoom (.exec (loadNext Regs.iter fun r q => { r with iter := q }))]) .brk)) (P.put s (m, r')) := by
    intro rest
    induction rest with
    | nil =>
      intro visited r' hls hnone hiter hentry
      rw [List.append_nil] at hls
      refine .loop rfl (.test (hI _) rfl ?_)
      rw [P.get_put, hiter]
      simp only [List.map_nil, firstOf, ne_eq, not_true_eq_false, decide_false, Bool.false_eq_true, if_false]
      exact .brk (hend r' (by rw [hls]; exact hnone) (by rw [hls]; exact hentry))
    | cons x rest ih =>
      intro visited r' hls hnone hiter hentry
      have hcell : m.cell x.1 = some x.2 := hl.cell h x (by simp [hls])
      have hvalid : m.valid (.node x.1) = true := by simp [Memory.valid, hcell]
      have hnext : m.next (.node x.1) = .loc (firstOf (.head h) (rest.map Prod.fst)) := by
        have hch := hl.chain h
        rw [hls, List.map_append, List.map_cons, chain_append] at hch
        exact chain_next hch.2
      refine .loop rfl (.test (hI _) rfl ?_)
      rw [P.get_put, hiter]
      simp only [List.map_cons, firstOf, ne_eq, Ptr.loc.injEq, reduceCtorEq, not_false_eq_true, decide_true, if_true]
      refine zoom_exec_seq P (hI _) (t := (m, { r' with entry := some x.1 })) ?_ ?_
      · simp [P.get_put, containerOf, hiter, firstOf]
      rw [P.put_put]
      refine .test_seq (hI _) (v := p x.2) ?_ ?_
      · simp [P.get_put, field, hcell, htest x (by simp [hls])]
      cases hp : p x.2 with
      | true =>
        have hscan : ListCursor.scan (p ∘ Prod.snd) (ls h) = some ⟨visited, x, rest⟩ := by
          rw [hls]
          exact ListCursor.scan_at _ hnone hp
        rw [if_pos rfl]
        refine (hfound _ _ hscan hp rfl).mono (fun _ hi => hi) fun e t ht => ?_
        cases e with
        | fell => exact ht.elim
        | broke => exact ht
      | false =>
        rw [if_neg (by simp)]
        refine .skip (zoom_exec P (hI _) (t := (m, { r' with entry := some x.1, iter := m.next (.node x.1) })) ?_ ?_)
        · rw [P.get_put]
          exact loadNext_eq (by simp [hiter, firstOf]) hvalid
        rw [P.put_put]
        refine ih (visited ++ [x]) _ (by simp [hls]) ?_ hnext (by simp)
        intro y hy
        rcases List.mem_append.mp hy with hy | hy
        · exact hnone y hy
        · rw [List.mem_singleton.mp hy, hp]
  have hs : I s := by
    have := hI (P.get s)
    rwa [P.put_get] at this
  refine zoom_exec_seq P hs (t := (m, { r with iter := m.next (.head h) })) ?_ ?_
  · rw [hget]
    exact loadNext_eq rfl hhead
  rw [chain_next (hl.chain h)]
  exact key (ls h) [] _ rfl (by simp) rfl (by simp)

end

/-! ## A heap and what its lists hold

`es` is what the lists hold, whatever the entries' addresses. -/

/-- The lists hold `es`, and every entry that is allocated is in one. -/
def Holds (m : Memory H A α) (es : H → List α) : Prop :=
  ∃ ls, Lists m ls ∧ (∀ h, (ls h).map Prod.snd = es h) ∧ ∀ a, m.cell a ≠ none → ¬ Loose ls a

/-- The same, but for one entry that holds `v` and is in no list. -/
def Beside (m : Memory H A α) (es : H → List α) (a : A) (v : α) : Prop :=
  ∃ ls, Lists m ls ∧ (∀ h, (ls h).map Prod.snd = es h) ∧ (∀ b, m.cell b ≠ none → b ≠ a → ¬ Loose ls b) ∧
    Loose ls a ∧ m.cell a = some v

/-- The entry is the one the cursor stands at. -/
def At (m : Memory H A α) (es : H → List α) (h : H) (a : A) (c : ListCursor.Cursor α) : Prop :=
  ∃ ls before after, Lists m ls ∧ (∀ k, (ls k).map Prod.snd = es k) ∧ (∀ b, m.cell b ≠ none → ¬ Loose ls b) ∧
    ls h = before ++ (a, c.entry) :: after ∧ before.map Prod.snd = c.before ∧ after.map Prod.snd = c.after

/-- After `INIT_LIST_HEAD` of every head, with nothing allocated. -/
def initial (H A α : Type) : Memory H A α := ⟨.loc, .loc, fun _ => none⟩

omit [DecidableEq H] [DecidableEq A] in
theorem initial_holds : Holds (initial H A α) fun _ => [] := by
  refine ⟨fun _ => [], ⟨fun h => ⟨rfl, rfl⟩, ?_, fun _ => List.nodup_nil, ?_⟩, fun _ => rfl, ?_⟩
  · intro h x hx
    cases hx
  · intro h k a ha
    cases ha
  · intro a ha
    exact absurd rfl ha

section
variable {m : Memory H A α} {es : H → List α} {h : H} {a : A} {v w : α} {c : ListCursor.Cursor α} {r : Regs H A}
  {I : State H A α → Prop} {Q : Cmd.Exit → State H A α → Prop}

omit [DecidableEq H] [DecidableEq A] in
theorem At.cell (h' : At m es h a c) : m.cell a = some c.entry := by
  obtain ⟨ls, before, after, hl, -, -, hls, -⟩ := h'
  exact hl.cell h (a, c.entry) (by simp [hls])

omit [DecidableEq H] [DecidableEq A] in
theorem allocated_finite [Fintype H] (hm : Holds m es) : ∃ used : Finset A, ∀ a, m.cell a ≠ none → a ∈ used := by
  classical
  obtain ⟨ls, -, -, hall⟩ := hm
  refine ⟨Finset.univ.biUnion fun h => ((ls h).map Prod.fst).toFinset, fun a ha => ?_⟩
  obtain ⟨h, hh⟩ := not_forall.mp (hall a ha)
  exact Finset.mem_biUnion.mpr ⟨h, Finset.mem_univ h, List.mem_toFinset.mpr (not_not.mp hh)⟩

theorem malloc_ends [Infinite A] [Fintype H] {ok : Bool} {type : α → Prop} (v : α) (hI : ∀ s, I s) (hm : Holds m es)
    (hv : type v) (hnone : ok = false → Q .fell (m, { r with entry := none }))
    (hsome : ok = true → ∀ a v m', type v → Beside m' es a v → Q .fell (m', { r with entry := some a })) :
    Ends I Q (.act (malloc ok type)) (m, r) := by
  cases ok with
  | false =>
    refine .act (hI _) ⟨_, by rw [malloc, if_neg (by simp)]⟩ fun s' hs' => ?_
    rw [malloc, if_neg (by simp)] at hs'
    subst hs'
    exact hnone rfl
  | true =>
    obtain ⟨used, hused⟩ := allocated_finite hm
    obtain ⟨a, ha⟩ := malloc_fresh hused
    refine .act (hI _) ⟨_, by rw [malloc, if_pos rfl]; exact ⟨a, v, .null, .null, ha, hv, rfl⟩⟩ fun s' hs' => ?_
    rw [malloc, if_pos rfl] at hs'
    obtain ⟨b, w, p, q, hb, hw, rfl⟩ := hs'
    obtain ⟨ls, hl, hes, hall⟩ := hm
    have hloose : Loose ls b := by
      intro h hmem
      obtain ⟨x, hx, rfl⟩ := List.mem_map.mp hmem
      rw [hl.cell h x hx] at hb
      cases hb
    have hl' : Lists (((m.setCell b (some w)).setNext (.node b) p).setPrev (.node b) q) ls := by
      have hlc := lists_setCell hl hloose (some w)
      refine ⟨fun k => chain_congr (hlc.chain k) (by simp) (by simp) ?_ ?_, hlc.cell, hlc.nodup, hlc.apart⟩
      · intro c hc
        have hcb : c ≠ b := fun e => hloose k (e ▸ hc)
        simp [hcb]
      · intro c hc
        have hcb : c ≠ b := fun e => hloose k (e ▸ hc)
        simp [hcb]
    refine hsome rfl b w _ hw ⟨ls, hl', hes, fun c hc hcb => hall c ?_, hloose, by simp⟩
    simpa [Function.update_of_ne hcb] using hc

omit [DecidableEq H] in
theorem setField_beside {f : α → Option α} (hb : Beside m es a v) (he : r.entry = some a) (hf : f v = some w) :
    setField f (m, r) = some (m.setCell a (some w), r) ∧ Beside (m.setCell a (some w)) es a w := by
  obtain ⟨ls, hl, hes, hall, hloose, hcell⟩ := hb
  refine ⟨by simp [setField, he, hcell, hf], ls, lists_setCell hl hloose _, hes, fun b hb hba => hall b ?_ hba, hloose,
    by simp⟩
  simpa [Function.update_of_ne hba] using hb

theorem listAdd_beside (hI : ∀ s, I s) (hb : Beside m es a v) (he : r.entry = some a)
    (hQ : ∀ m' r', Holds m' (Function.update es h (v :: es h)) → m'.cell a = some v → r'.entry = some a →
      Q .fell (m', r')) : Ends I Q (listAdd h) (m, r) := by
  obtain ⟨ls, hl, hes, hall, hloose, hcell⟩ := hb
  refine listAdd_ends hI hl he hcell fun r' hr' => hQ _ r' ⟨_, lists_linked hl hloose hcell, ?_, ?_⟩ hcell hr'
  · intro k
    by_cases hk : k = h
    · subst hk
      simp [hes]
    · simp [Function.update_of_ne hk, hes]
  · intro b hb hloose'
    by_cases hba : b = a
    · exact hloose' h (by simp [hba])
    · refine hall b hb hba fun k hmem => hloose' k ?_
      by_cases hk : k = h
      · subst hk
        simp [List.mem_map.mp hmem]
      · rwa [Function.update_of_ne hk]

theorem listDel_at (hI : ∀ s, I s) (hc : At m es h a c) (he : r.entry = some a)
    (hQ : ∀ m' r', Beside m' (Function.update es h c.del) a c.entry → r'.entry = some a → Q .fell (m', r')) :
    Ends I Q listDel (m, r) := by
  obtain ⟨ls, before, after, hl, hes, hall, hls, hbefore, hafter⟩ := hc
  have hcell : m.cell a = some c.entry := hl.cell h (a, c.entry) (by simp [hls])
  obtain ⟨hl', hloose⟩ := lists_unlinked hl hls
  refine listDel_ends hI hl hls he fun r' hr' => hQ _ r' ⟨_, hl', ?_, ?_, hloose, hcell⟩ hr'
  · intro k
    by_cases hk : k = h
    · subst hk
      simp [ListCursor.Cursor.del, hbefore, hafter]
    · simp [Function.update_of_ne hk, hes]
  · intro b hb hba hloose'
    refine hall b hb fun k hmem => hloose' k ?_
    by_cases hk : k = h
    · subst hk
      rw [Function.update_self]
      simpa [hls, hba] using hmem
    · rwa [Function.update_of_ne hk]

omit [DecidableEq H] in
theorem free_beside (hb : Beside m es a v) (he : r.entry = some a) :
    ∃ m', free (m, r) = some (m', { r with entry := none }) ∧ Holds m' es := by
  obtain ⟨ls, hl, hes, hall, hloose, hcell⟩ := hb
  refine ⟨m.setCell a none, by simp [free, he, hcell], ls, lists_setCell hl hloose none, hes, fun b hb => ?_⟩
  have hba : b ≠ a := by
    intro e
    subst e
    simp at hb
  exact hall b (by simpa [Function.update_of_ne hba] using hb) hba

end

section
variable {S : Type} (P : Part S (State H A α)) {I : S → Prop} {Q : Cmd.Exit → S → Prop} {s : S} {m : Memory H A α}
  {r : Regs H A} {es : H → List α} {h : H} {test : α → Option Bool} {p : α → Bool} {found : Cmd S}

omit [DecidableEq H] [DecidableEq A] in
/-- Where a walk along entries stands is where the same walk along what they hold does. -/
theorem at_of_scan {ls : H → List (A × α)} {x : ListCursor.Cursor (A × α)} (hl : Lists m ls)
    (hes : ∀ k, (ls k).map Prod.snd = es k) (hall : ∀ b, m.cell b ≠ none → ¬ Loose ls b)
    (hx : ListCursor.scan (p ∘ Prod.snd) (ls h) = some x) :
    ∃ c, ListCursor.scan p (es h) = some c ∧ c.entry = x.entry.2 ∧ At m es h x.entry.1 c := by
  have hscan := ListCursor.scan_map p Prod.snd (ls h)
  rw [hes h, hx, Option.map_some] at hscan
  obtain ⟨hlist, -⟩ := ListCursor.scan_spec _ hx
  exact ⟨_, hscan, rfl, ls, x.before, x.after, hl, hes, hall, hlist.symm, rfl, rfl⟩

theorem search_holds (hm : Holds m es) (htest : ∀ e ∈ es h, test e = some (p e)) (hI : ∀ t, I (P.put s t))
    (hfound : ∀ c a r', ListCursor.scan p (es h) = some c → p c.entry = true → At m es h a c → r'.entry = some a →
      Ends I (Then (fun _ => False) (Q .fell)) found (P.put s (m, r')))
    (hend : ∀ r', (∀ e ∈ es h, p e = false) → (es h = [] → r'.entry = r.entry) →
      (∀ c, ListCursor.scan p (es h) = some c → ∃ a, r'.entry = some a ∧ At m es h a c) → Q .fell (P.put s (m, r')))
    (hget : P.get s = (m, r)) : Ends I Q (search P h test found) s := by
  obtain ⟨ls, hl, hes, hall⟩ := hm
  have hin : ∀ x ∈ ls h, x.2 ∈ es h := fun x hx => hes h ▸ List.mem_map_of_mem hx
  refine search_ends P hl (fun x hx => htest x.2 (hin x hx)) hI ?_ ?_ hget
  · intro x r' hx hp hr'
    obtain ⟨c, hc, he, hat⟩ := at_of_scan hl hes hall hx
    exact hfound c _ r' hc (by rw [he]; exact hp) hat hr'
  · intro r' hnone hr'
    refine hend r' ?_ ?_ ?_
    · intro e he
      rw [← hes h] at he
      obtain ⟨x, hx, rfl⟩ := List.mem_map.mp he
      exact hnone x hx
    · intro he
      rw [← hes h, List.map_eq_nil_iff] at he
      simpa [he] using hr'
    · intro c hc
      have hne : ls h ≠ [] := by
        intro e
        rw [← hes h, e] at hc
        cases hc
      obtain ⟨x, hx, hlast, -⟩ := ListCursor.scan_exhausted (p ∘ Prod.snd) hne hnone
      obtain ⟨c', hc', -, hat⟩ := at_of_scan hl hes hall hx
      rw [hc] at hc'
      cases hc'
      exact ⟨x.entry.1, by simpa [hlast] using hr', hat⟩

theorem search_image {β : Type} {f : β → α} {xs : List β} {q : β → Bool} (hm : Holds m es) (hes : es h = xs.map f)
    (htest : ∀ x, test (f x) = some (q x)) (hI : ∀ t, I (P.put s t))
    (hfound : ∀ c a r', ListCursor.scan q xs = some c → q c.entry = true →
      At m es h a ⟨c.before.map f, f c.entry, c.after.map f⟩ → r'.entry = some a →
      Ends I (Then (fun _ => False) (Q .fell)) found (P.put s (m, r')))
    (hend : ∀ r', (∀ x ∈ xs, q x = false) → (xs = [] → r'.entry = r.entry) →
      (∀ c, ListCursor.scan q xs = some c →
        ∃ a, r'.entry = some a ∧ At m es h a ⟨c.before.map f, f c.entry, c.after.map f⟩) → Q .fell (P.put s (m, r')))
    (hget : P.get s = (m, r)) : Ends I Q (search P h test found) s := by
  let p : α → Bool := fun e => (test e).getD false
  have hpf : p ∘ f = q := by
    funext x
    simp [p, htest]
  have hscan : ListCursor.scan p (es h) =
      (ListCursor.scan q xs).map fun c => ⟨c.before.map f, f c.entry, c.after.map f⟩ := by
    rw [hes, ListCursor.scan_map, hpf]
  refine search_holds P (p := p) hm ?_ hI ?_ ?_ hget
  · intro e he
    rw [hes] at he
    obtain ⟨x, -, rfl⟩ := List.mem_map.mp he
    simp [p, htest]
  · intro c a r' hc hp hat hr'
    rw [hscan] at hc
    obtain ⟨c', hc', rfl⟩ := Option.map_eq_some_iff.mp hc
    exact hfound c' a r' hc' (by simpa [p, htest] using hp) hat hr'
  · intro r' hnone hnil hlast
    refine hend r' (fun x hx => ?_) (fun e => hnil (by simp [hes, e])) fun c hc => hlast _ (by rw [hscan, hc]; rfl)
    have := hnone (f x) (by rw [hes]; exact List.mem_map_of_mem hx)
    simpa [p, htest] using this

end

end LinkedList
