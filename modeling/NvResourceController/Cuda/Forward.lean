/-
  NvResourceController.Cuda.Forward — where the pointers an application looks up lead.

  A name has one entry, shared by all its lookups: `dlsym` overwrites it, a hooked
  `cuGetProcAddress` fills it in if it is empty.
  - `forwards`: so a hook calls what the newest `dlsym` of its name resolved, or what the
    first `cuGetProcAddress` did, which need not be what its own lookup resolved
    (`stream_variant_is_lost`) unless all lookups agree (`forwards_agreed`).
  - `sound_iff`: `hook_cuGetProcAddress` and its `_v2` hand their hook out for a symbol
    the driver did not find, where `dlsym` does not; no run reaches a `BUG_ON`, and every
    `NULL` is passed on, exactly when no lookup is of that kind (`hook_for_null`).
  - `mediates`: without `RTLD_NEXT` in the chain, the application gets the hook of every
    name in the table; with it, what `get_next_symbol` finds (`next_is_not_hooked`).
-/

import NvResourceController.Cuda.Lookup

namespace NvResourceController.Cuda

open Register

variable {F : Type}

/-! ## What a hook calls -/

/-- What the newest hooked `dlsym` of a symbol resolved. -/
def lastDlsym (symbol : String) (answers : List (Answer F)) : Option F :=
  answers.findSome? fun a => if a.symbol = symbol ∧ a.route = .dlsym then a.resolved else none

/-- What the oldest hooked `cuGetProcAddress` of a symbol resolved. -/
def firstProc (symbol : String) (answers : List (Answer F)) : Option F :=
  answers.reverse.findSome? fun a => if a.symbol = symbol ∧ a.route = .proc then a.resolved else none

theorem findEntry_eq {symbol : String} {e : EntryEnum} : findEntry symbol = some e ↔ symbol = e.name := by
  constructor
  · intro h
    exact (name_of_findEntry h).symm
  · intro h
    rw [h, findEntry_name]

theorem lastOverwrite_write (e : EntryEnum) (answers : List (Answer F)) :
    lastOverwrite (answers.filterMap (·.write e)) = lastDlsym e.name answers := by
  induction answers with
  | nil => rfl
  | cons a answers ih =>
    rw [List.filterMap_cons, lastDlsym, List.findSome?_cons, ← lastDlsym, ← ih]
    by_cases hs : a.symbol = e.name
    · cases hr : a.route <;> cases hv : a.resolved <;> simp [Answer.write, hs, hr, hv, lastOverwrite]
    · simp [Answer.write, mt findEntry_eq.mp hs, hs]

theorem firstFill_write (e : EntryEnum) (answers : List (Answer F)) :
    firstFill (answers.filterMap (·.write e)) = firstProc e.name answers := by
  induction answers with
  | nil => rfl
  | cons a answers ih =>
    rw [List.filterMap_cons, firstProc, List.reverse_cons, List.findSome?_append, ← firstProc, ← ih]
    by_cases hs : a.symbol = e.name
    · cases hr : a.route <;> cases hv : a.resolved <;> simp [Answer.write, hs, hr, hv, firstFill]
    · simp [Answer.write, mt findEntry_eq.mp hs, hs]

theorem launch_admitted {p : Ptr F} {table : Table F} {f : F} (h : p.target table = some f) :
    p.launch 0 table = .calls f := by
  cases p with
  | hook e =>
    have he : table e = some f := h
    cases e <;> simp [Ptr.launch, hookCuLaunchKernel, hookCuLaunchKernelEx, hookCuLaunchKernelPtsz,
      hookCuLaunchKernelExPtsz, hookLaunch, he]
  | real g =>
    cases h
    rfl

theorem launch_exits {e : EntryEnum} {ret : Int32} {table : Table F} (h : (Ptr.hook e).launch ret table = .exits) :
    table e = none := by
  cases ht : table e with
  | none => rfl
  | some f =>
    by_cases hr : ret = 0
    · rw [hr, launch_admitted (p := .hook e) ht] at h
      cases h
    · cases e <;> simp [Ptr.launch, hookCuLaunchKernel, hookCuLaunchKernelEx, hookCuLaunchKernelPtsz,
        hookCuLaunchKernelExPtsz, hookLaunch, ht, hr] at h

theorem launch_calls {e : EntryEnum} {ret : Int32} {table : Table F} {f : F} (hl : e.isLookup = false)
    (h : (Ptr.hook e).launch ret table = .calls f) : ret = 0 := by
  by_contra hr
  cases e with
  | cuGetProcAddress => cases hl
  | cuGetProcAddressV2 => cases hl
  | _ => simp [Ptr.launch, hookCuLaunchKernel, hookCuLaunchKernelEx, hookCuLaunchKernelPtsz,
      hookCuLaunchKernelExPtsz, hookLaunch, hr] at h

theorem write_resolved {a : Answer F} {e : EntryEnum} (hh : a.Hooked) (hs : findEntry a.symbol = some e)
    (hr : a.resolved ≠ none) : ∃ w, a.write e = some w := by
  obtain ⟨f, hf⟩ := Option.ne_none_iff_exists'.mp hr
  unfold Answer.write
  rw [if_pos hs]
  rcases hh with h | h
  · exact ⟨_, by rw [h, hf]; rfl⟩
  · exact ⟨_, by rw [h, hf]; rfl⟩

theorem write_value {a : Answer F} {e : EntryEnum} {w : Write F} (h : a.write e = some w) :
    findEntry a.symbol = some e ∧ a.Hooked ∧ a.resolved = some w.value := by
  unfold Answer.write at h
  split at h
  · rename_i hs
    cases hr : a.route with
    | dlsym =>
      rw [hr] at h
      obtain ⟨f, hf, rfl⟩ := Option.map_eq_some_iff.mp h
      exact ⟨hs, Or.inl hr, hf⟩
    | proc =>
      rw [hr] at h
      obtain ⟨f, hf, rfl⟩ := Option.map_eq_some_iff.mp h
      exact ⟨hs, Or.inr hr, hf⟩
    | next => simp [hr] at h
    | direct => simp [hr] at h
  · cases h

theorem hooked_given {s : App F} (h : (app F).Reach s) {a : Answer F} (ha : a ∈ s.answers) (hh : a.Hooked)
    (hr : a.resolved ≠ none) {e : EntryEnum} (hs : findEntry a.symbol = some e) :
    a.given = some (.hook e) ∧ ∃ w, w ∈ s.answers.filterMap (·.write e) := by
  have hw := (inv h).wellFormed a ha
  obtain ⟨p, hp⟩ := Option.ne_none_iff_exists'.mp (hw.answered hr)
  obtain rfl := hw.hooked e hh hs p hp
  obtain ⟨w, hwr⟩ := write_resolved hh hs hr
  exact ⟨hp, w, List.mem_filterMap.mpr ⟨a, ha, hwr⟩⟩

theorem unlisted_given {s : App F} (h : (app F).Reach s) {a : Answer F} (ha : a ∈ s.answers)
    (hr : a.resolved ≠ none) (hs : findEntry a.symbol = none) : a.given = a.resolved.map .real := by
  have hw := (inv h).wellFormed a ha
  obtain ⟨p, hp⟩ := Option.ne_none_iff_exists'.mp (hw.answered hr)
  cases p with
  | hook e =>
    rw [(hw.hook e hp).1] at hs
    cases hs
  | real f =>
    rw [hp, hw.real f hp]
    rfl

/-- After any lookups, the pointer that one of them gave through a hook calls what the
    newest `dlsym` of the name resolved, or else its first `cuGetProcAddress`; for a name
    with no entry, what the lookup itself resolved. -/
theorem forwards {s : App F} (h : (app F).Reach s) {a : Answer F} (ha : a ∈ s.answers) (hh : a.Hooked)
    (hr : a.resolved ≠ none) :
    ∃ p f, a.given = some p ∧ p.launch 0 s.table = .calls f ∧
      some f = if (findEntry a.symbol).isSome then (lastDlsym a.symbol s.answers).or (firstProc a.symbol s.answers)
        else a.resolved := by
  cases hs : findEntry a.symbol with
  | none =>
    obtain ⟨f, hf⟩ := Option.ne_none_iff_exists'.mp hr
    have hg := unlisted_given h ha hr hs
    rw [hf] at hg
    exact ⟨_, f, hg, rfl, hf.symm⟩
  | some e =>
    obtain ⟨hg, w, hw⟩ := hooked_given h ha hh hr hs
    obtain ⟨f, hf⟩ := Option.ne_none_iff_exists'.mp (after_ne_none hw)
    refine ⟨_, f, hg, launch_admitted (((inv h).table e).trans hf), ?_⟩
    rw [← hf, after_eq, lastOverwrite_write, firstFill_write, name_of_findEntry hs]
    rfl

theorem forwards_agreed {s : App F} (h : (app F).Reach s) {a : Answer F} (ha : a ∈ s.answers) (hh : a.Hooked) {f : F}
    (hr : a.resolved = some f)
    (hall : ∀ b ∈ s.answers, b.Hooked → b.symbol = a.symbol → ∀ g, b.resolved = some g → g = f) :
    ∃ p, a.given = some p ∧ p.launch 0 s.table = .calls f := by
  have hne : a.resolved ≠ none := by simp [hr]
  cases hs : findEntry a.symbol with
  | none =>
    have hg := unlisted_given h ha hne hs
    rw [hr] at hg
    exact ⟨_, hg, rfl⟩
  | some e =>
    obtain ⟨hg, w, hw⟩ := hooked_given h ha hh hne hs
    have hafter : after (s.answers.filterMap (·.write e)) = some f := by
      refine after_agree (List.ne_nil_of_mem hw) ?_
      intro v hv
      obtain ⟨b, hb, hwr⟩ := List.mem_filterMap.mp hv
      obtain ⟨hbs, hbh, hbr⟩ := write_value hwr
      exact hall b hb hbh ((name_of_findEntry hbs).symm.trans (name_of_findEntry hs)) _ hbr
    exact ⟨_, hg, launch_admitted (((inv h).table e).trans hafter)⟩

/-! ### A driver with two variants of a launch -/

/-- A library that exports everything under its own name. -/
def libcuda : Linker String := ⟨none, fun _ => some 2, fun _ => [], fun _ symbol => some symbol⟩

/-- The flag 2 asks for the variant of the per-thread default stream. -/
def driver (_ : String) (request : Request) : Found String :=
  ⟨0, some (if request.flags = 2 then request.symbol ++ "_ptsz" else request.symbol)⟩

def procV2 : Answer String :=
  ⟨"cuGetProcAddress_v2", .dlsym, some "cuGetProcAddress_v2", some (.hook .cuGetProcAddressV2), true⟩

def launchOf (real : String) : Answer String :=
  ⟨"cuLaunchKernel", .proc, some real, some (.hook .cuLaunchKernel), true⟩

/-- The application looks the launch up twice, with the flag and without. -/
def twoVariants : List (Event String) :=
  [.dlsym libcuda 0 1 "cuGetProcAddress_v2", .getProcAddress procV2 driver ⟨"cuLaunchKernel", 12000, 2⟩,
    .getProcAddress procV2 driver ⟨"cuLaunchKernel", 12000, 0⟩]

def bothLookedUp : App String :=
  ⟨Function.update (Function.update (fun _ => none) .cuGetProcAddressV2 (some "cuGetProcAddress_v2"))
      .cuLaunchKernel (some "cuLaunchKernel_ptsz"),
    [launchOf "cuLaunchKernel", launchOf "cuLaunchKernel_ptsz", procV2], [], false⟩

theorem bothLookedUp_run : (app String).Run ⟨fun _ => none, [], [], false⟩ twoVariants bothLookedUp :=
  .cons ⟨rfl, trivial, rfl⟩ (.cons ⟨rfl, ⟨List.mem_singleton.mpr rfl, by decide⟩, rfl⟩
    (.cons ⟨rfl, ⟨List.mem_cons_of_mem _ (List.mem_singleton.mpr rfl), by decide⟩, rfl⟩ (.nil _)))

theorem bothLookedUp_reached : (app String).Reach bothLookedUp := (System.Reach.init rfl).run bothLookedUp_run

/-- The lookup without the flag resolved one variant, and its pointer calls the other. -/
theorem stream_variant_is_lost : (app String).Run ⟨fun _ => none, [], [], false⟩ twoVariants bothLookedUp ∧
    ∃ a ∈ bothLookedUp.answers, a.Hooked ∧ a.resolved = some "cuLaunchKernel" ∧
      ∃ p, a.given = some p ∧ p.launch 0 bothLookedUp.table = .calls "cuLaunchKernel_ptsz" :=
  ⟨bothLookedUp_run, launchOf "cuLaunchKernel", List.mem_cons_self, Or.inr rfl, rfl, _, rfl, rfl⟩

theorem forwards_run : ∃ p, (launchOf "cuLaunchKernel_ptsz").given = some p ∧
    p.launch 0 bothLookedUp.table = .calls "cuLaunchKernel_ptsz" := by
  obtain ⟨p, f, hp, hl, hf⟩ := forwards bothLookedUp_reached (a := launchOf "cuLaunchKernel_ptsz")
    (List.mem_cons_of_mem _ List.mem_cons_self) (Or.inr rfl) (by simp [launchOf])
  have hval : some f = some "cuLaunchKernel_ptsz" := hf.trans (by decide)
  cases hval
  exact ⟨p, hp, hl⟩

/-! ## No `BUG_ON` -/

/-- No `BUG_ON` was hit; a symbol that was not found is answered with `NULL`, and a hook
    is given only where its entry is set. -/
def Sound (s : App F) : Prop :=
  s.bug = false ∧ ∀ a ∈ s.answers, (a.resolved = none → a.given = none) ∧
    ∀ e, a.given = some (.hook e) → s.table e ≠ none

/-- A `BUG_ON` is hit through a hook that was given with its entry unset. -/
theorem step_bug {s s' : App F} {ev : Event F} (hi : Inv s) (h : (app F).step s ev s') (hb : s'.bug = true) :
    ∃ a ∈ s.answers, ∃ e, a.given = some (.hook e) ∧ s.table e = none := by
  obtain ⟨hbug, hallow, hnext⟩ := h
  cases ev with
  | dlsym linker returnAddr handle symbol =>
    obtain ⟨out, -, he⟩ := Option.map_eq_some_iff.mp hnext
    subst he
    exact absurd (hbug.symm.trans hb) (by simp)
  | getProcAddress via driver request =>
    obtain ⟨p, hp, hnext⟩ := Option.bind_eq_some_iff.mp hnext
    split at hnext
    · rename_i hnone
      cases p with
      | hook e =>
        refine ⟨via, hallow.1, e, hp, ?_⟩
        rw [lookup_hook (isLookup_given (hi.wellFormed via hallow.1) hallow.2 hp)] at hnone
        simpa [getProcAddress] using hnone
      | real f => cases hnone
    · split at hnext
      · cases hnext
        exact absurd (hbug.symm.trans hb) (by simp)
      · cases hnext
        exact absurd (hbug.symm.trans hb) (by simp)
  | launch via ret =>
    obtain ⟨p, hp, he⟩ := Option.map_eq_some_iff.mp hnext
    split at he
    · subst he
      exact absurd (hbug.symm.trans hb) (by simp)
    · subst he
      exact absurd (hbug.symm.trans hb) (by simp)
    · rename_i hexit
      refine ⟨via, hallow.1, ?_⟩
      cases p with
      | hook e =>
        exact ⟨e, hp, launch_exits hexit⟩
      | real f => cases hexit

theorem step_sound {s s' : App F} {ev : Event F} (hi : Inv s) (hs : Sound s) (hok : NullSpared s ev)
    (h : (app F).step s ev s') : Sound s' := by
  have hbug : s'.bug = false := by
    by_contra hb
    obtain ⟨a, ha, e, hg, ht⟩ := step_bug hi h (by simpa using hb)
    exact (hs.2 a ha).2 e hg ht
  refine ⟨hbug, ?_⟩
  rcases step_cases hi h with ⟨ha, ht, -⟩ | ⟨a, ha, hw, hwrote, -, -, -, hnull⟩
  · rw [ha, ht]
    exact hs.2
  · have hkept : ∀ e, s.table e ≠ none → s'.table e ≠ none := by
      intro e he
      rw [hwrote e]
      cases a.write e with
      | none => exact he
      | some w => exact apply_ne_none _ w
    rw [ha]
    refine List.forall_mem_cons.mpr ⟨⟨hnull.mp hok, ?_⟩, ?_⟩
    · intro e hg
      obtain ⟨hsym, hh⟩ := hw.hook e hg
      have hr : a.resolved ≠ none := fun hr => by simp [hnull.mp hok hr] at hg
      obtain ⟨w, hwr⟩ := write_resolved hh hsym hr
      rw [hwrote e, hwr]
      exact apply_ne_none _ w
    · intro b hb
      exact ⟨(hs.2 b hb).1, fun e hg => hkept e ((hs.2 b hb).2 e hg)⟩

theorem run_answers {s t : App F} {es : List (Event F)} (hi : Inv s) (h : (app F).Run s es t) :
    s.answers ⊆ t.answers := by
  induction h with
  | nil => exact List.Subset.refl _
  | cons hstep _ ih => exact List.Subset.trans (step_answers hi hstep) (ih (step_inv hi hstep))

theorem spared_of_sound {s t : App F} {es : List (Event F)} (hi : Inv s) (h : (app F).Run s es t) (ht : Sound t) :
    ((app F).restrict NullSpared).Run s es t := by
  induction h with
  | nil => exact .nil _
  | cons hstep hrun ih =>
    refine .cons ⟨?_, hstep⟩ (ih (step_inv hi hstep) ht)
    rcases step_cases hi hstep with ⟨-, -, hok⟩ | ⟨a, ha, -, -, -, -, -, hnull⟩
    · exact hok
    · have hmem := run_answers (step_inv hi hstep) hrun (ha ▸ List.mem_cons_self)
      exact hnull.mpr (ht.2 a hmem).1

theorem sound_of_spared {s t : App F} {es : List (Event F)} (hi : Inv s) (hs : Sound s)
    (h : ((app F).restrict NullSpared).Run s es t) : Sound t := by
  have hboth : Inv t ∧ Sound t := by
    refine System.Run.inv (I := fun s => Inv s ∧ Sound s) ?_ h ⟨hi, hs⟩
    intro s ev s' hs hstep
    exact ⟨step_inv hs.1 hstep.2, step_sound hs.1 hs.2 hstep.1 hstep.2⟩
  exact hboth.2

/-- A run from the start is sound in the end exactly when none of its lookups is one
    through a hooked `cuGetProcAddress`, for a name of the table, that the driver answers
    with success and `NULL`. -/
theorem sound_iff {s0 s : App F} {es : List (Event F)} (h0 : (app F).init s0) (h : (app F).Run s0 es s) :
    Sound s ↔ ((app F).restrict NullSpared).Run s0 es s := by
  have hi := init_inv h0
  have hs : Sound s0 := by
    cases h0
    exact ⟨rfl, fun a ha => absurd ha (by simp)⟩
  exact ⟨spared_of_sound hi h, sound_of_spared hi hs⟩

/-- The driver knows no `cuLaunchKernel`, and says so with success and `NULL`. -/
def oldDriver (_ : String) (_ : Request) : Found String := ⟨0, none⟩

def notFound : Answer String := ⟨"cuLaunchKernel", .proc, none, some (.hook .cuLaunchKernel), true⟩

/-- The application gets the hook, and its launch hits the `BUG_ON`. -/
theorem hook_for_null : ∃ s, (app String).Run ⟨fun _ => none, [], [], false⟩
      [.dlsym libcuda 0 1 "cuGetProcAddress_v2", .getProcAddress procV2 oldDriver ⟨"cuLaunchKernel", 12000, 0⟩,
        .launch notFound 0] s ∧
    s.bug = true ∧ notFound ∈ s.answers ∧ notFound.resolved = none ∧ notFound.given = some (.hook .cuLaunchKernel) :=
  ⟨_, .cons ⟨rfl, trivial, rfl⟩ (.cons ⟨rfl, ⟨List.mem_singleton.mpr rfl, by decide⟩, rfl⟩
    (.cons ⟨rfl, ⟨List.mem_cons_self, by decide⟩, rfl⟩ (.nil _))), rfl, List.mem_cons_self, rfl, rfl⟩

theorem sound_iff_run : Sound bothLookedUp := by
  refine (sound_iff rfl bothLookedUp_run).mpr (.cons ⟨trivial, rfl, trivial, rfl⟩ (.cons ⟨?_, rfl,
    ⟨List.mem_singleton.mpr rfl, by decide⟩, rfl⟩ (.cons ⟨?_, rfl,
      ⟨List.mem_cons_of_mem _ (List.mem_singleton.mpr rfl), by decide⟩, rfl⟩ (.nil _))))
  · intro e f _ _ hd
    cases hd
  · intro e f _ _ hd
    cases hd

/-! ## Mediation -/

/-- Every launch went through what a lookup gave, and through a hook only when
    `rate_limit` admitted it. -/
def Limited (s : App F) : Prop :=
  ∀ l ∈ s.launches, l.via ∈ s.answers ∧ l.via.given ≠ none ∧ ∀ e, l.via.given = some (.hook e) → l.ret = 0

theorem step_limited {s s' : App F} {ev : Event F} (hi : Inv s) (hl : Limited s) (h : (app F).step s ev s') :
    Limited s' := by
  have hold : ∀ l ∈ s.launches, l.via ∈ s'.answers ∧ l.via.given ≠ none ∧
      ∀ e, l.via.given = some (.hook e) → l.ret = 0 :=
    fun l hmem => ⟨step_answers hi h (hl l hmem).1, (hl l hmem).2⟩
  have hstep := h
  obtain ⟨-, hallow, hnext⟩ := h
  cases ev with
  | dlsym linker returnAddr handle symbol =>
    obtain ⟨out, -, he⟩ := Option.map_eq_some_iff.mp hnext
    subst he
    exact hold
  | getProcAddress via driver request =>
    obtain ⟨p, -, hnext⟩ := Option.bind_eq_some_iff.mp hnext
    split at hnext
    · cases hnext
      exact hold
    · split at hnext
      · cases hnext
        exact hold
      · cases hnext
        exact hold
  | launch via ret =>
    obtain ⟨p, hp, he⟩ := Option.map_eq_some_iff.mp hnext
    split at he
    · subst he
      exact hold
    · rename_i f hcalls
      subst he
      refine List.forall_mem_cons.mpr ⟨⟨hallow.1, by simp [hp], fun e hg => ?_⟩, hold⟩
      rw [hp] at hg
      cases hg
      have hsym := ((hi.wellFormed via hallow.1).hook e hp).1
      have hnot : e.isLookup = false := by simpa [Answer.isLookup, hsym] using hallow.2
      exact launch_calls hnot hcalls
    · subst he
      exact hold

theorem limited {s : App F} (h : (app F).Reach s) : Limited s := by
  have hboth : Inv s ∧ Limited s := by
    refine System.Reach.inv (I := fun s => Inv s ∧ Limited s) ?_ ?_ h
    · intro s h0
      refine ⟨init_inv h0, ?_⟩
      intro l hl
      cases h0
      cases hl
    · intro s ev s' hs hstep
      exact ⟨step_inv hs.1 hstep, step_limited hs.1 hs.2 hstep⟩
  exact hboth.2

/-- Where no `RTLD_NEXT` was used on the way, a lookup of a name of the table that found
    it gives the hook of that name, and a launch through what it gave was admitted. -/
theorem mediates {s : App F} (h : (app F).Reach s) :
    (∀ a ∈ s.answers, a.ordinary = true → a.resolved ≠ none → ∀ e, findEntry a.symbol = some e →
        a.given = some (.hook e)) ∧
      ∀ l ∈ s.launches, l.via.ordinary = true → ∀ e, findEntry l.via.symbol = some e →
        l.via.given = some (.hook e) ∧ l.ret = 0 := by
  have hi := inv h
  have hhook : ∀ a ∈ s.answers, a.ordinary = true → ∀ e, findEntry a.symbol = some e →
      ∀ p, a.given = some p → p = .hook e :=
    fun a ha ho e he p hp => (hi.wellFormed a ha).hooked e (hi.ordinary a ha ho) he p hp
  constructor
  · intro a ha ho hr e he
    obtain ⟨p, hp⟩ := Option.ne_none_iff_exists'.mp ((hi.wellFormed a ha).answered hr)
    rw [hp, hhook a ha ho e he p hp]
  · intro l hl ho e he
    obtain ⟨ha, hg, hret⟩ := limited h l hl
    obtain ⟨p, hp⟩ := Option.ne_none_iff_exists'.mp hg
    obtain rfl := hhook l.via ha ho e he p hp
    exact ⟨hp, hret e hp⟩

/-- This library comes first in the order of the link maps, then the driver's. -/
def afterUs : Linker String :=
  ⟨none, fun _ => some 2, fun _ => [⟨0x1000, libraryName⟩, ⟨0x2000, "libcuda.so.1"⟩], fun _ symbol => some symbol⟩

def nextLaunch : Answer String :=
  ⟨"cuLaunchKernel", .next, some "cuLaunchKernel", some (.real "cuLaunchKernel"), false⟩

/-- With `RTLD_NEXT` the application gets the driver's function, and a launch through it
    reaches the driver whatever the limit. -/
theorem next_is_not_hooked : ∃ s, (app String).Run ⟨fun _ => none, [], [], false⟩
      [.dlsym afterUs 0x3000 rtldNext "cuLaunchKernel", .launch nextLaunch 999] s ∧
    nextLaunch ∈ s.answers ∧ findEntry nextLaunch.symbol = some .cuLaunchKernel ∧
    nextLaunch.given ≠ some (.hook .cuLaunchKernel) ∧ s.launches = [⟨nextLaunch, 999, "cuLaunchKernel"⟩] :=
  ⟨_, .cons ⟨rfl, trivial, rfl⟩ (.cons ⟨rfl, ⟨List.mem_singleton.mpr rfl, by decide⟩, rfl⟩ (.nil _)),
    List.mem_singleton.mpr rfl, by decide, by decide, rfl⟩

theorem mediates_run : (launchOf "cuLaunchKernel").given = some (.hook .cuLaunchKernel) :=
  (mediates bothLookedUp_reached).1 _ List.mem_cons_self rfl (by simp [launchOf]) _ (by decide)

end NvResourceController.Cuda
