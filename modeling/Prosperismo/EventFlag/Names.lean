import Mathlib.Data.List.Find
import Mathlib.Data.List.Nodup
import Prosperismo.EventFlag.Registry

/-!
# Names resolve to event flags that are there

Whatever the calls are, the registries stay consistent (`Consistent`): they have the flags that
there are, and a name is resolved to one that carries it, so that no call follows a pointer to a
flag that is gone. What a call can do is said once (`Change`).

That a name is resolved to the oldest flag that carries it, and to some flag as long as there is
one (`Resolves`), does not survive the end of that flag: `RemovePublishedName` takes the name out,
and a younger flag with the same name is never found again (`name_lost`). It is exactly those calls
that break it (`names_resolve`).
-/

namespace Prosperismo.EventFlag.Names

variable {π : Type} [DecidableEq π]

/-! ### The registries -/

/-- Between two calls. -/
structure Consistent (r : Registry π) : Prop where
  nodup : r.flags.Nodup
  /-- The set has the flags that there are. -/
  live : ∀ p, p ∈ r.flags ↔ r.heap p ≠ none
  /-- A name is resolved to a flag of the set that carries it. -/
  entries : ∀ name p, r.named name = some p → p ∈ r.flags ∧ r.nameOf p = some name

/-- Every name is resolved to the oldest flag that carries it. -/
def Resolves (r : Registry π) : Prop := ∀ name, r.named name = r.oldest name

/-- The registries with a new flag at the address. -/
def Registry.created (r : Registry π) (p : π) (name : String) (flag : KernelEventFlag) :
    Registry π where
  heap := Function.update r.heap p (some ⟨name, 1, flag⟩)
  named := if r.named name = none then Function.update r.named name (some p) else r.named
  flags := r.flags ++ [p]

/-- The registries after the end of the flag at the address. -/
def Registry.retired (r : Registry π) (p : π) (name : String) : Registry π where
  heap := Function.update r.heap p none
  named := if r.named name = some p then Function.update r.named name none else r.named
  flags := r.flags.erase p

/-- What a call can do. -/
inductive Change (r : Registry π) : Action π → Registry π → Prop
  | refused {a : Action π} (hcount : ∀ p count, a.count p count = count)
      (hretires : ∀ p, ¬ r.Retires p a) : Change r a r
  | created {p : π} {name : String} (hfresh : r.heap p = none) (flag : KernelEventFlag) :
      Change r (.createFlag .ok (some p)) (r.created p name flag)
  | opened {p : π} {name : String} {object : Object} (hnamed : r.named name = some p)
      (hmem : p ∈ r.flags) (hobject : r.heap p = some object) :
      Change r (.openFlag true (some name) .ok (some p))
        (r.write p (some { object with openReferences := object.openReferences + 1 }))
  | released {p : π} {object : Object} (hmem : p ∈ r.flags) (hobject : r.heap p = some object)
      (hmore : object.openReferences ≠ 1) :
      Change r (.closeFlag (some p) .ok)
        (r.write p (some { object with openReferences := object.openReferences - 1 }))
  | closed {p : π} {object : Object} (hmem : p ∈ r.flags) (hobject : r.heap p = some object)
      (hlast : object.openReferences = 1) :
      Change r (.closeFlag (some p) .ok) (r.retired p object.name)
  | deleted {p : π} {object : Object} (hmem : p ∈ r.flags) (hobject : r.heap p = some object) :
      Change r (.deleteFlag (some p) .ok) (r.retired p object.name)

section Change

variable {r r' : Registry π} {a : Action π}

omit [DecidableEq π] in
theorem Consistent.exists_object (h : Consistent r) {p : π} (hp : p ∈ r.flags) :
    ∃ object, r.heap p = some object :=
  Option.ne_none_iff_exists'.1 ((h.live p).1 hp)

@[simp] theorem write_heap_self (p : π) (object : Option Object) :
    (r.write p object).heap p = object := by simp [Registry.write]

theorem write_heap_of_ne {p q : π} (hne : q ≠ p) (object : Option Object) :
    (r.write p object).heap q = r.heap q := by simp [Registry.write, hne]

@[simp] theorem created_heap_self (p : π) (name : String) (flag : KernelEventFlag) :
    (r.created p name flag).heap p = some ⟨name, 1, flag⟩ := by simp [Registry.created]

theorem created_heap_of_ne {p q : π} (hne : q ≠ p) (name : String) (flag : KernelEventFlag) :
    (r.created p name flag).heap q = r.heap q := by simp [Registry.created, hne]

@[simp] theorem retired_heap_self (p : π) (name : String) :
    (r.retired p name).heap p = none := by simp [Registry.retired]

theorem retired_heap_of_ne {p q : π} (hne : q ≠ p) (name : String) :
    (r.retired p name).heap q = r.heap q := by simp [Registry.retired, hne]

theorem mem_created_flags {p q : π} {name : String} {flag : KernelEventFlag} :
    q ∈ (r.created p name flag).flags ↔ q ∈ r.flags ∨ q = p := by simp [Registry.created]

theorem mem_retired_flags (h : Consistent r) {p q : π} {name : String} :
    q ∈ (r.retired p name).flags ↔ q ≠ p ∧ q ∈ r.flags := h.nodup.mem_erase_iff

/-- A flag that is there can be taken out and freed. -/
theorem retire_eq {p : π} {object : Object} (hobject : r.heap p = some object) :
    r.retire p = some (r.retired p object.name) := by
  unfold Registry.retire Registry.removePublishedName Registry.delete Registry.retired
  rw [hobject]
  by_cases hnamed : r.named object.name = some p
  · simp [hnamed, hobject, Registry.write]
  · simp [hnamed, hobject, Registry.write]

theorem sub_one_eq_zero_iff (x : Int32) : x - 1 = 0 ↔ x = 1 := by
  grind

/-- `KernelCloseEventFlag` of a flag that is there. -/
theorem kernelCloseEventFlag_eq {p : π} {object : Object} (hmem : p ∈ r.flags)
    (hobject : r.heap p = some object) :
    kernelCloseEventFlag r (some p) = some
      (if object.openReferences = 1 then ⟨.ok, none, r.retired p object.name⟩
        else ⟨.ok, none,
          r.write p (some { object with openReferences := object.openReferences - 1 })⟩) := by
  unfold kernelCloseEventFlag
  dsimp only
  rw [if_neg (not_not.2 hmem), hobject, Option.bind_eq_bind, Option.bind_some]
  by_cases hlast : object.openReferences = 1
  · -- the write before the end leaves nothing behind
    have hsame (object' : Object) :
        (r.write p (some object')).retired p object.name = r.retired p object.name := by
      unfold Registry.retired Registry.write
      rw [Function.update_idem]
    rw [if_pos ((sub_one_eq_zero_iff _).2 hlast), if_pos hlast,
      retire_eq (Function.update_self p _ r.heap), ← hsame]
    rfl
  · rw [if_neg (mt (sub_one_eq_zero_iff _).1 hlast), if_neg hlast]
    rfl

/-- `KernelDeleteEventFlag` of a flag that is there. -/
theorem kernelDeleteEventFlag_eq {p : π} {object : Object} (hmem : p ∈ r.flags)
    (hobject : r.heap p = some object) :
    kernelDeleteEventFlag r (some p) = some ⟨.ok, none, r.retired p object.name⟩ := by
  unfold kernelDeleteEventFlag
  dsimp only
  rw [if_neg (not_not.2 hmem), retire_eq hobject]
  rfl

/-- `KernelOpenEventFlag` finds what the name is resolved to. -/
theorem Consistent.kernelOpenEventFlag_eq (h : Consistent r) (name : String) :
    r.named name = none ∧ kernelOpenEventFlag r true (some name) = some ⟨.esrch, none, r⟩ ∨
      ∃ p object, r.named name = some p ∧ p ∈ r.flags ∧ r.heap p = some object ∧
        kernelOpenEventFlag r true (some name) = some ⟨.ok, some p,
          r.write p (some { object with openReferences := object.openReferences + 1 })⟩ := by
  unfold kernelOpenEventFlag
  cases hnamed : r.named name with
  | none =>
    refine .inl ⟨rfl, ?_⟩
    dsimp only
    rw [hnamed]
  | some p =>
    obtain ⟨hmem, -⟩ := h.entries name p hnamed
    obtain ⟨object, hobject⟩ := h.exists_object hmem
    refine .inr ⟨p, object, rfl, hmem, hobject, ?_⟩
    dsimp only
    rw [hnamed]
    dsimp only
    rw [if_neg (not_not.2 hmem), hobject]
    rfl

/-- **What a call can do**, from consistent registries. -/
theorem Consistent.change (h : Consistent r) (hstep : Step r a r') : Change r a r' := by
  cases hstep with
  | @createFlag p hfresh ef name attr initPattern param =>
    have hnew : p ∉ r.flags := fun hmem => (h.live p).1 hmem hfresh
    unfold kernelCreateEventFlag
    split
    · rw [if_neg hnew]
      by_cases hrefused : ef = false ∨ param = true
      · rw [if_pos hrefused]
        exact .refused (fun _ _ => rfl) fun _ => id
      · rw [if_neg hrefused]
        exact .created hfresh _
    · exact .refused (fun _ _ => rfl) fun _ => id
  | @openFlag ef name outcome houtcome =>
    cases ef with
    | false =>
      cases houtcome
      exact .refused (fun _ _ => rfl) fun _ => id
    | true =>
      cases name with
      | none =>
        cases houtcome
        exact .refused (fun _ _ => rfl) fun _ => id
      | some name =>
        rcases h.kernelOpenEventFlag_eq name with ⟨-, heq⟩ | ⟨p, object, hnamed, hmem, hobject, heq⟩
        · rw [heq] at houtcome
          cases houtcome
          exact .refused (fun _ _ => rfl) fun _ => id
        · rw [heq] at houtcome
          cases houtcome
          exact .opened hnamed hmem hobject
  | @closeFlag ef outcome houtcome =>
    cases ef with
    | none =>
      cases houtcome
      exact .refused (fun _ _ => rfl) fun _ hretires => nomatch hretires.1
    | some p =>
      by_cases hmem : p ∈ r.flags
      · obtain ⟨object, hobject⟩ := h.exists_object hmem
        rw [kernelCloseEventFlag_eq hmem hobject] at houtcome
        split_ifs at houtcome with hlast
        · cases houtcome
          exact .closed hmem hobject hlast
        · cases houtcome
          exact .released hmem hobject hlast
      · unfold kernelCloseEventFlag at houtcome
        dsimp only at houtcome
        rw [if_pos hmem] at houtcome
        cases houtcome
        refine .refused (fun _ _ => rfl) fun q hretires => ?_
        cases hretires.1
        exact hmem hretires.2.1
  | @deleteFlag ef outcome houtcome =>
    cases ef with
    | none =>
      cases houtcome
      exact .refused (fun _ _ => rfl) fun _ hretires => nomatch hretires.1
    | some p =>
      by_cases hmem : p ∈ r.flags
      · obtain ⟨object, hobject⟩ := h.exists_object hmem
        rw [kernelDeleteEventFlag_eq hmem hobject] at houtcome
        cases houtcome
        exact .deleted hmem hobject
      · unfold kernelDeleteEventFlag at houtcome
        dsimp only at houtcome
        rw [if_pos hmem] at houtcome
        cases houtcome
        refine .refused (fun _ _ => rfl) fun q hretires => ?_
        cases hretires.1
        exact hmem hretires.2

/-! ### The registries stay consistent -/

/-- A write that keeps the name keeps the names. -/
theorem nameOf_write {p : π} {object object' : Object} (hobject : r.heap p = some object)
    (hname : object'.name = object.name) (q : π) :
    (r.write p (some object')).nameOf q = r.nameOf q := by
  unfold Registry.nameOf
  rcases eq_or_ne q p with rfl | hne
  · rw [write_heap_self, hobject]
    exact congrArg some hname
  · rw [write_heap_of_ne hne]

theorem Consistent.write (h : Consistent r) {p : π} {object object' : Object}
    (hobject : r.heap p = some object) (hname : object'.name = object.name) :
    Consistent (r.write p (some object')) where
  nodup := h.nodup
  live q := by
    rcases eq_or_ne q p with rfl | hne
    · refine iff_of_true ((h.live q).2 ?_) ?_
      · rw [hobject]
        exact nofun
      · rw [write_heap_self]
        exact nofun
    · rw [write_heap_of_ne hne]
      exact h.live q
  entries name q hnamed := by
    rw [nameOf_write hobject hname]
    exact h.entries name q hnamed

omit [DecidableEq π] in
theorem Consistent.nameOf_eq (h : Consistent r) {p : π} {name : String} {object : Object}
    (hnamed : r.named name = some p) (hobject : r.heap p = some object) : name = object.name := by
  have hname := (h.entries name p hnamed).2
  unfold Registry.nameOf at hname
  rw [hobject] at hname
  exact (Option.some.inj hname).symm

/-- The end of a flag takes it out of everything. -/
theorem Consistent.retired (h : Consistent r) {p : π} {object : Object}
    (hobject : r.heap p = some object) : Consistent (r.retired p object.name) where
  nodup := h.nodup.erase p
  live q := by
    rw [mem_retired_flags h]
    rcases eq_or_ne q p with rfl | hne
    · rw [retired_heap_self]
      exact iff_of_false (fun hmem => hmem.1 rfl) fun hne => hne rfl
    · rw [retired_heap_of_ne hne, ← h.live q]
      exact and_iff_right hne
  entries name q hnamed := by
    have hold : r.named name = some q ∧ q ≠ p := by
      unfold Registry.retired at hnamed
      dsimp only at hnamed
      split_ifs at hnamed with hpublished
      · rcases eq_or_ne name object.name with rfl | hne
        · rw [Function.update_self] at hnamed
          cases hnamed
        · rw [Function.update_of_ne hne] at hnamed
          refine ⟨hnamed, ?_⟩
          rintro rfl
          exact hne (h.nameOf_eq hnamed hobject)
      · refine ⟨hnamed, ?_⟩
        rintro rfl
        exact hpublished (h.nameOf_eq hnamed hobject ▸ hnamed)
    obtain ⟨hmem, hname⟩ := h.entries name q hold.1
    refine ⟨(mem_retired_flags h).2 ⟨hold.2, hmem⟩, ?_⟩
    unfold Registry.nameOf
    rw [retired_heap_of_ne hold.2]
    exact hname

/-- **A call keeps the registries consistent.** -/
theorem Consistent.step (h : Consistent r) (hstep : Step r a r') : Consistent r' := by
  cases h.change hstep with
  | refused => exact h
  | @created p name hfresh flag =>
    have hnew : p ∉ r.flags := fun hmem => (h.live p).1 hmem hfresh
    refine ⟨?_, fun q => ?_, fun name' q hnamed => ?_⟩
    · exact List.nodup_append.2 ⟨h.nodup, List.nodup_singleton p, fun q hq q' hq' hsame => by
        cases List.mem_singleton.1 hq'
        exact hnew (hsame ▸ hq)⟩
    · rw [mem_created_flags]
      rcases eq_or_ne q p with rfl | hne
      · refine iff_of_true (.inr rfl) ?_
        rw [created_heap_self]
        exact nofun
      · rw [created_heap_of_ne hne, ← h.live q]
        exact or_iff_left hne
    · have hold : r.named name' = some q ∨ name' = name ∧ q = p := by
        unfold Registry.created at hnamed
        dsimp only at hnamed
        split_ifs at hnamed
        · rcases eq_or_ne name' name with rfl | hne
          · rw [Function.update_self] at hnamed
            exact .inr ⟨rfl, (Option.some.inj hnamed).symm⟩
          · rw [Function.update_of_ne hne] at hnamed
            exact .inl hnamed
        · exact .inl hnamed
      unfold Registry.nameOf
      rcases hold with hold | ⟨rfl, rfl⟩
      · obtain ⟨hmem, hname⟩ := h.entries name' q hold
        refine ⟨mem_created_flags.2 (.inl hmem), ?_⟩
        have hne : q ≠ p := by
          rintro rfl
          exact hnew hmem
        rw [created_heap_of_ne hne]
        exact hname
      · refine ⟨mem_created_flags.2 (.inr rfl), ?_⟩
        rw [created_heap_self]
        rfl
  | opened _ _ hobject => exact h.write hobject rfl
  | released _ hobject => exact h.write hobject rfl
  | closed _ hobject => exact h.retired hobject
  | deleted _ hobject => exact h.retired hobject

/-! ### What the names are resolved to -/

/-- What is found first is still found first without another element. -/
theorem find?_erase {l : List π} {P : π → Bool} {p : π} (h : l.find? P ≠ some p) :
    (l.erase p).find? P = l.find? P := by
  induction l with
  | nil => rfl
  | cons q l ih =>
    rcases eq_or_ne q p with rfl | hne
    · rw [List.erase_cons_head]
      by_cases hq : P q = true
      · rw [List.find?_cons_of_pos hq] at h
        exact absurd rfl h
      · rw [List.find?_cons_of_neg hq]
    · rw [List.erase_cons_tail (by simpa using hne)]
      by_cases hq : P q = true
      · rw [List.find?_cons_of_pos hq, List.find?_cons_of_pos hq]
      · rw [List.find?_cons_of_neg hq] at h ⊢
        rw [List.find?_cons_of_neg hq]
        exact ih h

omit [DecidableEq π] in
/-- The flags in the order of their creation are what matters for the oldest ones. -/
theorem oldest_congr (hflags : r'.flags = r.flags) (hname : ∀ q ∈ r.flags, r'.nameOf q = r.nameOf q)
    (name : String) : r'.oldest name = r.oldest name := by
  unfold Registry.oldest
  rw [hflags]
  exact List.find?_congr fun q hq => by rw [hname q hq]

theorem Consistent.oldest_created (h : Consistent r) {p : π} (hfresh : r.heap p = none)
    (name : String) (flag : KernelEventFlag) (name' : String) :
    (r.created p name flag).oldest name' =
      (r.oldest name').or (if name = name' then some p else none) := by
  have hold : ∀ q ∈ r.flags, (r.created p name flag).nameOf q = r.nameOf q := by
    intro q hq
    have hne : q ≠ p := by
      rintro rfl
      exact (h.live q).1 hq hfresh
    unfold Registry.nameOf
    rw [created_heap_of_ne hne]
  have hnew : (r.created p name flag).nameOf p = some name := by
    unfold Registry.nameOf
    rw [created_heap_self]
    rfl
  calc (r.created p name flag).oldest name'
      = (r.flags.find? fun q => (r.created p name flag).nameOf q = some name').or
          ([p].find? fun q => (r.created p name flag).nameOf q = some name') := List.find?_append
    _ = (r.oldest name').or (if name = name' then some p else none) := by
        rw [List.find?_singleton, hnew, List.find?_congr fun q hq => by rw [hold q hq]]
        simp [Registry.oldest]

theorem Resolves.created (h : Consistent r) (hresolves : Resolves r) {p : π}
    (hfresh : r.heap p = none) (name : String) (flag : KernelEventFlag) :
    Resolves (r.created p name flag) := by
  intro name'
  rw [h.oldest_created hfresh, ← hresolves]
  unfold Registry.created
  dsimp only
  rcases eq_or_ne name name' with rfl | hne
  · rw [if_pos rfl]
    split_ifs with hnone
    · rw [Function.update_self, hnone]
      rfl
    · obtain ⟨q, hq⟩ := Option.ne_none_iff_exists'.1 hnone
      rw [hq]
      rfl
  · rw [if_neg hne, Option.or_none]
    split_ifs
    · rw [Function.update_of_ne hne.symm]
    · rfl

/-- **The end of a flag** leaves the others resolved, unless it had the name of another one. -/
theorem Resolves.retired_iff (h : Consistent r) (hresolves : Resolves r) {p : π} {object : Object}
    (hobject : r.heap p = some object) :
    Resolves (r.retired p object.name) ↔ ¬ (r.named object.name = some p ∧
      ∃ q ∈ r.flags, q ≠ p ∧ r.nameOf q = some object.name) := by
  have hname : ∀ q, q ≠ p → (r.retired p object.name).nameOf q = r.nameOf q := by
    intro q hne
    unfold Registry.nameOf
    rw [retired_heap_of_ne hne]
  have holdest (name : String) : (r.retired p object.name).oldest name =
      (r.flags.erase p).find? fun q => r.nameOf q = some name := by
    refine List.find?_congr fun q hq => ?_
    rw [hname q (h.nodup.mem_erase_iff.1 hq).1]
  constructor
  · rintro hafter ⟨hpublished, q, hq, hne, hsame⟩
    have hnone := hafter object.name
    unfold Registry.retired at hnone
    dsimp only at hnone
    rw [if_pos hpublished, Function.update_self] at hnone
    have hnot := List.find?_eq_none.1 ((holdest object.name).symm.trans hnone.symm) q
      (h.nodup.mem_erase_iff.2 ⟨hne, hq⟩)
    simp [hsame] at hnot
  · intro hkept name
    rw [holdest]
    by_cases hpublished : r.named name = some p
    · -- the name goes with the flag, and nobody else has it
      obtain rfl := h.nameOf_eq hpublished hobject
      have hnone : (r.retired p object.name).named object.name = none := by
        unfold Registry.retired
        dsimp only
        rw [if_pos hpublished, Function.update_self]
      rw [hnone]
      refine (List.find?_eq_none.2 fun q hq => ?_).symm
      obtain ⟨hne, hq⟩ := h.nodup.mem_erase_iff.1 hq
      have hother : r.nameOf q ≠ some object.name := fun hsame =>
        hkept ⟨hpublished, q, hq, hne, hsame⟩
      simpa using hother
    · have hsame : (r.retired p object.name).named name = r.named name := by
        unfold Registry.retired
        dsimp only
        split_ifs with hp
        · have hne : name ≠ object.name := by
            rintro rfl
            exact hpublished hp
          rw [Function.update_of_ne hne]
        · rfl
      rw [hsame, hresolves name]
      rw [hresolves name] at hpublished
      exact (find?_erase hpublished).symm

/-- **One call**: names stay resolved exactly when it leaves no flag without its name. -/
theorem Resolves.step_iff (h : Consistent r) (hresolves : Resolves r) (hstep : Step r a r') :
    Resolves r' ↔ ¬ r.Orphans a := by
  have hwrite {p : π} {object object' : Object} (hobject : r.heap p = some object)
      (hname : object'.name = object.name) : Resolves (r.write p (some object')) := by
    intro name
    have hsame := nameOf_write hobject hname
    have hold : (r.write p (some object')).oldest name = r.oldest name :=
      @oldest_congr π r (r.write p (some object')) rfl (fun q _ => hsame q) name
    exact (hresolves name).trans hold.symm
  have hretired {p : π} {object : Object} (hobject : r.heap p = some object)
      (hretires : ∀ q, r.Retires q a ↔ q = p) :
      Resolves (r.retired p object.name) ↔ ¬ r.Orphans a := by
    refine (hresolves.retired_iff h hobject).trans (not_congr ⟨?_, ?_⟩)
    · rintro ⟨hpublished, hother⟩
      exact ⟨p, object.name, (hretires p).2 rfl, hpublished, hother⟩
    · rintro ⟨q, name, hq, hpublished, hother⟩
      obtain rfl := (hretires q).1 hq
      obtain rfl := h.nameOf_eq hpublished hobject
      exact ⟨hpublished, hother⟩
  cases h.change hstep with
  | refused _ hretires => exact iff_of_true hresolves fun ⟨p, _, hp, _⟩ => hretires p hp
  | created hfresh flag =>
    exact iff_of_true (hresolves.created h hfresh _ flag) fun ⟨_, _, hp, _⟩ => hp
  | opened _ _ hobject => exact iff_of_true (hwrite hobject rfl) fun ⟨_, _, hp, _⟩ => hp
  | released _ hobject hmore =>
    refine iff_of_true (hwrite hobject rfl) ?_
    rintro ⟨q, _, ⟨hq, -, hlast⟩, -⟩
    cases hq
    rw [hobject] at hlast
    exact hmore (Option.some.inj hlast)
  | @closed p object hmem hobject hlast =>
    refine hretired hobject fun q => ⟨fun hq => (Option.some.inj hq.1).symm, ?_⟩
    rintro rfl
    refine ⟨rfl, hmem, ?_⟩
    rw [hobject, Option.map_some, hlast]
  | @deleted p object hmem hobject =>
    refine hretired hobject fun q => ⟨fun hq => (Option.some.inj hq.1).symm, ?_⟩
    rintro rfl
    exact ⟨rfl, hmem⟩

/-! ### References -/

/-- Every flag counts its references, and has one at least. -/
def Counted (actions : List (Action π)) (r : Registry π) : Prop :=
  ∀ p object, r.heap p = some object →
    object.openReferences.toInt = references p actions ∧ 1 ≤ references p actions

theorem references_append (p : π) (actions : List (Action π)) (a : Action π) :
    references p (actions ++ [a]) = a.count p (references p actions) := by
  simp [references]

/-- **One call**: the references stay counted, unless there are too many for an `int`. -/
theorem Counted.step {actions : List (Action π)} (h : Consistent r) (hcounted : Counted actions r)
    (hstep : Step r a r') (hoverflows : ¬ r.Overflows a) : Counted (actions ++ [a]) r' := by
  intro q object' hobject'
  rw [references_append]
  cases h.change hstep with
  | refused hcount =>
    rw [hcount]
    exact hcounted q object' hobject'
  | @created p name hfresh flag =>
    rcases eq_or_ne q p with rfl | hne
    · rw [created_heap_self] at hobject'
      cases hobject'
      simp [Action.count]
    · rw [created_heap_of_ne hne] at hobject'
      simpa [Action.count, hne.symm] using hcounted q object' hobject'
  | @opened p name object hnamed hmem hobject =>
    rcases eq_or_ne q p with rfl | hne
    · rw [write_heap_self] at hobject'
      cases hobject'
      obtain ⟨hcount, hpos⟩ := hcounted q object hobject
      have hmax : object.openReferences ≠ Int32.maxValue := by
        intro hmax
        refine hoverflows ⟨name, _, _, q, rfl, hnamed, ?_⟩
        rw [hobject, Option.map_some, hmax]
      have hlt : object.openReferences.toInt ≠ 2 ^ 31 - 1 :=
        fun hsame => hmax (Int32.toInt_inj.1 hsame)
      have hle := object.openReferences.toInt_lt
      simp only [Action.count, if_pos, Int32.toInt_add, Int32.toInt_one]
      rw [Int.bmod_eq_of_le (by omega) (by omega)]
      omega
    · rw [write_heap_of_ne hne] at hobject'
      simpa [Action.count, hne.symm] using hcounted q object' hobject'
  | @released p object hmem hobject hmore =>
    rcases eq_or_ne q p with rfl | hne
    · rw [write_heap_self] at hobject'
      cases hobject'
      obtain ⟨hcount, hpos⟩ := hcounted q object hobject
      have hne : object.openReferences.toInt ≠ 1 := fun hsame => hmore (Int32.toInt_inj.1 hsame)
      have hle := object.openReferences.toInt_lt
      simp only [Action.count, if_pos, Int32.toInt_sub, Int32.toInt_one]
      rw [Int.bmod_eq_of_le (by omega) (by omega)]
      omega
    · rw [write_heap_of_ne hne] at hobject'
      simpa [Action.count, hne.symm] using hcounted q object' hobject'
  | @closed p object hmem hobject hlast =>
    rcases eq_or_ne q p with rfl | hne
    · rw [retired_heap_self] at hobject'
      cases hobject'
    · rw [retired_heap_of_ne hne] at hobject'
      simpa [Action.count, hne.symm] using hcounted q object' hobject'
  | @deleted p object hmem hobject =>
    rcases eq_or_ne q p with rfl | hne
    · rw [retired_heap_self] at hobject'
      cases hobject'
    · rw [retired_heap_of_ne hne] at hobject'
      exact hcounted q object' hobject'

/-- **A flag is freed** when its last reference is closed, or when it is deleted. -/
theorem Counted.freed_iff {actions : List (Action π)} (h : Consistent r)
    (hcounted : Counted actions r) (hstep : Step r a r') {p : π} (hp : r.heap p ≠ none) :
    r'.heap p = none ↔ a = .deleteFlag (some p) .ok ∨
      a = .closeFlag (some p) .ok ∧ references p (actions ++ [a]) = 0 := by
  rw [references_append]
  cases h.change hstep with
  | refused hcount hretires =>
    refine iff_of_false hp ?_
    rintro (rfl | ⟨rfl, -⟩)
    · exact hretires p ⟨rfl, (h.live p).2 hp⟩
    · have hless := hcount p 0
      simp [Action.count] at hless
  | @created q name hfresh flag =>
    refine iff_of_false ?_ (by rintro (hsame | ⟨hsame, -⟩) <;> cases hsame)
    have hne : p ≠ q := by
      rintro rfl
      exact hp hfresh
    rw [created_heap_of_ne hne]
    exact hp
  | @opened q name object hnamed hmem hobject =>
    refine iff_of_false ?_ (by rintro (hsame | ⟨hsame, -⟩) <;> cases hsame)
    rcases eq_or_ne p q with rfl | hne
    · rw [write_heap_self]
      exact nofun
    · rw [write_heap_of_ne hne]
      exact hp
  | @released q object hmem hobject hmore =>
    rcases eq_or_ne p q with rfl | hne
    · refine iff_of_false (by rw [write_heap_self]; exact nofun) ?_
      rintro (hsame | ⟨-, hzero⟩)
      · cases hsame
      · have hcount := (hcounted p object hobject).1
        simp only [Action.count, if_pos] at hzero
        refine hmore (Int32.toInt_inj.1 ?_)
        rw [hcount, Int32.toInt_one]
        omega
    · rw [write_heap_of_ne hne]
      refine iff_of_false hp ?_
      rintro (hsame | ⟨hsame, -⟩)
      · cases hsame
      · cases hsame
        exact hne rfl
  | @closed q object hmem hobject hlast =>
    rcases eq_or_ne p q with rfl | hne
    · refine iff_of_true (retired_heap_self p _) (.inr ⟨rfl, ?_⟩)
      have hcount := (hcounted p object hobject).1
      rw [hlast, Int32.toInt_one] at hcount
      simp only [Action.count, if_pos]
      omega
    · rw [retired_heap_of_ne hne]
      refine iff_of_false hp ?_
      rintro (hsame | ⟨hsame, -⟩)
      · cases hsame
      · cases hsame
        exact hne rfl
  | @deleted q object hmem hobject =>
    rcases eq_or_ne p q with rfl | hne
    · exact iff_of_true (retired_heap_self p _) (.inl rfl)
    · rw [retired_heap_of_ne hne]
      refine iff_of_false hp ?_
      rintro (hsame | ⟨hsame, -⟩)
      · cases hsame
        exact hne rfl
      · cases hsame

end Change

/-! ### Runs -/

/-- What the names promise after a run. -/
structure Kept (actions : List (Action π)) (r : Registry π) : Prop where
  /-- A name is resolved to a flag of the set that carries it. -/
  entries : ∀ name p, r.named name = some p → p ∈ r.flags ∧ r.nameOf p = some name
  /-- The set has the flags that there are. -/
  live : ∀ p, p ∈ r.flags ↔ r.heap p ≠ none
  /-- No call follows a pointer to a flag that is gone, or frees one again. -/
  openFlag : ∀ ef name, kernelOpenEventFlag r ef name ≠ none
  closeFlag : ∀ ef, kernelCloseEventFlag r ef ≠ none
  deleteFlag : ∀ ef, kernelDeleteEventFlag r ef ≠ none
  /-- A flag is freed by the call that deletes it or closes its last reference. -/
  freed : ∀ a r', Step r a r' → ∀ p, r.heap p ≠ none →
    (r'.heap p = none ↔ a = .deleteFlag (some p) .ok ∨
      a = .closeFlag (some p) .ok ∧ references p (actions ++ [a]) = 0)
  /-- A name is found exactly when there is a flag that carries it, and it is the oldest one. -/
  opens : ∀ name, ∃ outcome, kernelOpenEventFlag r true (some name) = some outcome ∧
    (outcome.code = .ok ↔ ∃ p ∈ r.flags, r.nameOf p = some name) ∧ outcome.stored = r.oldest name

theorem Consistent.kernelOpenEventFlag_ne_none {r : Registry π} (h : Consistent r) (ef : Bool)
    (name : Option String) : kernelOpenEventFlag r ef name ≠ none := by
  cases ef with
  | false => exact nofun
  | true =>
    cases name with
    | none => exact nofun
    | some name =>
      rcases h.kernelOpenEventFlag_eq name with ⟨-, heq⟩ | ⟨p, object, -, -, -, heq⟩
      · rw [heq]
        exact nofun
      · rw [heq]
        exact nofun

theorem Consistent.kernelCloseEventFlag_ne_none {r : Registry π} (h : Consistent r)
    (ef : Option π) : kernelCloseEventFlag r ef ≠ none := by
  cases ef with
  | none => exact nofun
  | some p =>
    by_cases hmem : p ∈ r.flags
    · obtain ⟨object, hobject⟩ := h.exists_object hmem
      rw [kernelCloseEventFlag_eq hmem hobject]
      exact nofun
    · unfold kernelCloseEventFlag
      dsimp only
      rw [if_pos hmem]
      exact nofun

theorem Consistent.kernelDeleteEventFlag_ne_none {r : Registry π} (h : Consistent r)
    (ef : Option π) : kernelDeleteEventFlag r ef ≠ none := by
  cases ef with
  | none => exact nofun
  | some p =>
    by_cases hmem : p ∈ r.flags
    · obtain ⟨object, hobject⟩ := h.exists_object hmem
      rw [kernelDeleteEventFlag_eq hmem hobject]
      exact nofun
    · unfold kernelDeleteEventFlag
      dsimp only
      rw [if_pos hmem]
      exact nofun

/-- Where names are resolved to the oldest flags, they are found when there is one. -/
theorem Resolves.opens {r : Registry π} (h : Consistent r) (hresolves : Resolves r)
    (name : String) : ∃ outcome, kernelOpenEventFlag r true (some name) = some outcome ∧
      (outcome.code = .ok ↔ ∃ p ∈ r.flags, r.nameOf p = some name) ∧
        outcome.stored = r.oldest name := by
  rcases h.kernelOpenEventFlag_eq name with ⟨hnamed, heq⟩ | ⟨p, object, hnamed, hmem, -, heq⟩
  · refine ⟨_, heq, iff_of_false nofun ?_, hnamed.symm.trans (hresolves name)⟩
    rintro ⟨p, hmem, hname⟩
    rw [hresolves name] at hnamed
    have hnot := List.find?_eq_none.1 hnamed p hmem
    simp [hname] at hnot
  · refine ⟨_, heq, iff_of_true rfl ⟨p, hmem, (h.entries name p hnamed).2⟩, ?_⟩
    exact hnamed.symm.trans (hresolves name)

/-- **Names resolve to flags that are there, as long as no call leaves a flag without its name.**
In every run whose calls retire no flag that its name is resolved to while another one has the name,
and open none with as many references as an `int` can count, the promise of the names is kept; and
the first call that leaves a flag without its name breaks it. -/
theorem names_resolve {actions : List (Action π)} {r : Registry π}
    (hrun : Run StepKept Registry.empty actions r) :
    Kept actions r ∧ ∀ a r', Step r a r' → (Resolves r' ↔ ¬ r.Orphans a) := by
  have hinvariant : Consistent r ∧ Resolves r ∧ Counted actions r := by
    refine hrun.history (I := fun actions r => Consistent r ∧ Resolves r ∧ Counted actions r) ?_ ?_
    · refine ⟨⟨List.nodup_nil, fun p => ?_, fun _ _ h => ?_⟩, fun _ => rfl, fun _ _ h => ?_⟩
      · exact iff_of_false List.not_mem_nil fun h => h rfl
      · cases h
      · cases h
    · rintro actions r a r' ⟨h, hresolves, hcounted⟩ ⟨hstep, horphans, hoverflows⟩
      exact ⟨h.step hstep, (hresolves.step_iff h hstep).2 horphans,
        hcounted.step h hstep hoverflows⟩
  obtain ⟨h, hresolves, hcounted⟩ := hinvariant
  exact ⟨
    { entries := h.entries
      live := h.live
      openFlag := h.kernelOpenEventFlag_ne_none
      closeFlag := h.kernelCloseEventFlag_ne_none
      deleteFlag := h.kernelDeleteEventFlag_ne_none
      freed := fun _ _ hstep _ hp => hcounted.freed_iff h hstep hp
      opens := hresolves.opens h },
    fun _ _ hstep => hresolves.step_iff h hstep⟩

/-- A flag is created, with the attributes of a firmware module. -/
theorem names_resolve_created : ∃ r : Registry ℕ, r.oldest "flag" = some 0 ∧
    Kept [.createFlag .ok (some 0)] r := by
  have hstep := @Step.createFlag ℕ _ Registry.empty 0 rfl true (some "flag") 0x120 0 false
  have hkept : StepKept (Registry.empty : Registry ℕ) (.createFlag .ok (some 0)) _ :=
    ⟨hstep, fun ⟨_, _, h, _⟩ => h, fun ⟨_, _, _, _, h, _⟩ => nomatch h⟩
  exact ⟨_, rfl, (names_resolve (.single hkept)).1⟩

/-- **A name is lost**: of two flags with one name the first is deleted, and the name is not found
any more, although the second is there. -/
theorem name_lost :
    ¬∀ (actions : List (Action ℕ)) (r : Registry ℕ), Run Step Registry.empty actions r →
      ∀ name, ∃ outcome, kernelOpenEventFlag r true (some name) = some outcome ∧
        (outcome.code = .ok ↔ ∃ p ∈ r.flags, r.nameOf p = some name) ∧
          outcome.stored = r.oldest name := by
  intro h
  let empty : Registry ℕ := Registry.empty
  let first := (kernelCreateEventFlag empty 0 true (some "flag") 0x120 0 false).registry
  let second := (kernelCreateEventFlag first 1 true (some "flag") 0x120 0 false).registry
  have hfirst := @Step.createFlag ℕ _ empty 0 rfl true (some "flag") 0x120 0 false
  have hsecond := @Step.createFlag ℕ _ first 1 rfl true (some "flag") 0x120 0 false
  have hdelete := @Step.deleteFlag ℕ _ second (some 0) _ rfl
  obtain ⟨outcome, houtcome, hiff, -⟩ :=
    h _ _ (((Run.single hfirst).snoc hsecond).snoc hdelete) "flag"
  cases houtcome
  exact absurd (hiff.2 ⟨1, by decide, rfl⟩) (by decide)

end Prosperismo.EventFlag.Names
