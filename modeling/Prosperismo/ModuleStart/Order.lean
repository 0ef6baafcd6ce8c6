import Prosperismo.ModuleStart.Model
import Mathlib.Data.Fintype.EquivFin
import Mathlib.Data.List.ReduceOption

/-!
# The order in which modules start

`StartAllModules` starts a module in its passes once everything that it needs has been started. A
module without an init function is never started, so that what needs one, directly or through
others, is left to the last loop, which starts it in the order of `m_programs`.

`startsInOrder_iff` says when that is no harm: a module that the last loop starts has to stand
before those that need it. -/

namespace Prosperismo.RuntimeLinker

open Relation

variable (programs : List Program)

/-- The modules that a shared module needs. -/
def neededModules (program : Fin programs.length) : List (Fin programs.length) :=
  if (programs.get program).isShared then
    (((programs.get program).needed.reduceOption.filter fun name => !name.isEmpty).filterMap
      (dependency programs program))
  else []

/-- One module needs another. -/
def Needs (p q : Fin programs.length) : Prop := q ∈ neededModules programs p

/-- No module needs itself, directly or through others. -/
def Acyclic : Prop := ∀ p, ¬ TransGen (Needs programs) p p

/-- What `StartAllModules` is for: it ends, calls every init function once, and calls it after the
init functions of everything that the module needs, directly or through others. -/
def StartsInOrder : Prop :=
  ∃ calls, startAllModules programs = some calls ∧
    (∀ p, calls.count p = if hasInit programs p then 1 else 0) ∧
    ∀ p q, hasInit programs p → hasInit programs q → TransGen (Needs programs) p q →
      calls.idxOf q < calls.idxOf p

variable {programs}

/-- A module is ready when what it needs has been started. -/
theorem moduleStartDependenciesSatisfied_iff {program : Fin programs.length}
    {started : List (Fin programs.length)} (hshared : (programs.get program).isShared = true) :
    moduleStartDependenciesSatisfied programs program started = true ↔
      ∀ q, Needs programs program q → q ∈ started := by
  unfold moduleStartDependenciesSatisfied Needs neededModules
  rw [if_pos hshared, List.all_eq_true]
  constructor
  · intro hall q hq
    obtain ⟨name, hname, hfound⟩ := List.mem_filterMap.1 hq
    obtain ⟨hname, hnonempty⟩ := List.mem_filter.1 hname
    have hsome := hall _ (List.reduceOption_mem_iff.1 hname)
    rw [Option.all_some, hfound, Option.all_some] at hsome
    rcases Bool.or_eq_true_iff.1 hsome with hempty | hcontains
    · rw [hempty] at hnonempty
      exact absurd hnonempty Bool.false_ne_true
    · exact List.contains_iff_mem.1 hcontains
  · intro hneeds needed hneeded
    rcases needed with _ | name
    · rfl
    · rw [Option.all_some, Bool.or_eq_true_iff]
      rcases hempty : name.isEmpty with _ | _
      · refine .inr (Option.all_eq_true _ _ |>.2 fun q hq => List.contains_iff_mem.2 (hneeds q ?_))
        refine List.mem_filterMap.2 ⟨name, List.mem_filter.2 ⟨?_, ?_⟩, hq⟩
        · exact List.reduceOption_mem_iff.2 hneeded
        · rw [hempty]
          rfl
      · exact .inl rfl

/-- What the passes of `StartAllModules` have started. -/
def Started (programs : List Program) : List (Fin programs.length) → Prop :=
  StartedInOrder (Needs programs) fun p => hasInit programs p = true

/-- A module with an init function is shared. -/
theorem isShared_of_hasInit {p : Fin programs.length} (h : hasInit programs p = true) :
    (programs.get p).isShared = true := (Bool.and_eq_true_iff.1 h).1

/-- When a module is ready to start. -/
theorem readyToStart_iff {started : List (Fin programs.length)} {p : Fin programs.length} :
    readyToStart programs started p = true ↔
      hasInit programs p = true ∧ p ∉ started ∧ ∀ q, Needs programs p q → q ∈ started := by
  unfold readyToStart
  rw [Bool.and_eq_true_iff, Bool.and_eq_true_iff, and_assoc]
  refine and_congr_right fun hinit => and_congr ?_ ?_
  · rw [Bool.not_eq_true', ← Bool.not_eq_true, List.contains_iff_mem]
  · exact moduleStartDependenciesSatisfied_iff (isShared_of_hasInit hinit)

/-- **One start.** -/
theorem Started.start {started : List (Fin programs.length)} (h : Started programs started)
    {p : Fin programs.length} (hready : readyToStart programs started p = true) :
    Started programs (started ++ [p]) := by
  obtain ⟨hinit, hnew, hneeds⟩ := readyToStart_iff.1 hready
  exact h.append hnew hinit hneeds

/-- **The passes** of `StartAllModules` end, with what needs nothing that has no init function. -/
theorem exists_started (hacyclic : Acyclic programs) :
    ∃ started, Started programs started ∧
      (∀ p, p ∈ started ↔ hasInit programs p = true ∧
        ∀ q, TransGen (Needs programs) p q → hasInit programs q = true) ∧
      startAllModules programs = some (started ++ (List.finRange programs.length).filter
        fun p => hasInit programs p && !started.contains p) := by
  have hstep : ∀ started p, p ∈ List.finRange programs.length → Started programs started →
      readyToStart programs started p = true → Started programs (started ++ [p]) :=
    fun _ _ _ h hready => h.start hready
  have hbound : ∀ started, Started programs started → started.length ≤ programs.length := by
    intro started h
    calc started.length ≤ Fintype.card (Fin programs.length) := h.nodup.length_le_card
      _ = programs.length := Fintype.card_fin _
  obtain ⟨started, hpasses⟩ := Option.isSome_iff_exists.1 <|
    passes_isSome .nil hstep hbound (Nat.lt_succ_self programs.length)
  obtain ⟨hstarted, hsettled⟩ := passes_spec .nil hstep hpasses
  refine ⟨started, hstarted, fun p => hstarted.mem_iff hacyclic fun p hinit hnew => ?_, ?_⟩
  · by_contra hneeds
    have hready : readyToStart programs started p = true := by
      refine readyToStart_iff.2 ⟨hinit, hnew, fun q hq => ?_⟩
      by_contra hnot
      exact hneeds ⟨q, hq, hnot⟩
    rw [hsettled p (List.mem_finRange p)] at hready
    exact Bool.false_ne_true hready
  · unfold startAllModules
    rw [hpasses, Option.map_some, pass_unstarted _ (List.nodup_finRange _)]

/-- **When modules start in order.** No module needs itself. Then `StartAllModules` is right exactly
when a module that needs one without an init function stands, in `m_programs`, before every module
that needs it. -/
theorem startsInOrder_iff (hacyclic : Acyclic programs) :
    StartsInOrder programs ↔ ∀ p q, hasInit programs p → hasInit programs q →
      TransGen (Needs programs) p q →
      (∃ r, TransGen (Needs programs) q r ∧ ¬ hasInit programs r) → q < p := by
  obtain ⟨started, hstarted, hmem, hcalls⟩ := exists_started hacyclic
  set rest := (List.finRange programs.length).filter
    fun p => hasInit programs p && !started.contains p with hrest
  have hmemRest : ∀ p, p ∈ rest ↔ hasInit programs p = true ∧ p ∉ started := by
    intro p
    rw [hrest, List.mem_filter, Bool.and_eq_true_iff, Bool.not_eq_true', ← Bool.not_eq_true,
      List.contains_iff_mem]
    exact and_iff_right (List.mem_finRange p)
  have hsorted : rest.Pairwise (· < ·) := (List.pairwise_lt_finRange _).filter _
  have hnodup : (started ++ rest).Nodup :=
    List.nodup_append.2 ⟨hstarted.nodup, hsorted.imp fun hlt => hlt.ne,
      fun p hp q hq heq => ((hmemRest q).1 hq).2 (heq ▸ hp)⟩
  have hall : ∀ p, p ∈ started ++ rest ↔ hasInit programs p = true := by
    intro p
    rw [List.mem_append, hmemRest]
    exact ⟨fun h => h.elim (hstarted.starts p) And.left,
      fun hinit => (em (p ∈ started)).imp_right fun hnot => ⟨hinit, hnot⟩⟩
  have honce : ∀ p, (started ++ rest).count p = if hasInit programs p then 1 else 0 := by
    intro p
    rw [hnodup.count]
    simp only [hall p]
  -- the claim is about the pairs of the list
  have hpairs : StartsInOrder programs ↔
      (started ++ rest).Pairwise fun p q => ¬ TransGen (Needs programs) p q := by
    rw [pairwise_not_iff_idxOf hnodup hacyclic]
    constructor
    · rintro ⟨calls, hcalls', -, horder⟩ p hp q hq hneeds
      obtain rfl := Option.some.inj (hcalls.symm.trans hcalls')
      exact horder p q ((hall p).1 hp) ((hall q).1 hq) hneeds
    · intro horder
      exact ⟨_, hcalls, honce, fun p q hp hq => horder p ((hall p).2 hp) q ((hall q).2 hq)⟩
  -- a module that is not reached by the passes needs one without an init function
  have hblocked : ∀ q, hasInit programs q = true →
      (q ∉ started ↔ ∃ r, TransGen (Needs programs) q r ∧ ¬ hasInit programs r = true) := by
    intro q hq
    rw [hmem q, not_and]
    constructor
    · intro hnot
      by_contra hno
      exact hnot hq fun r hr => by_contra fun hr' => hno ⟨r, hr, hr'⟩
    · rintro ⟨r, hr, hr'⟩ - hall
      exact hr' (hall r hr)
  rw [hpairs, List.pairwise_append]
  constructor
  · rintro ⟨-, hlast, -⟩ p q hp hq hneeds hblocks
    have hq' := (hblocked q hq).2 hblocks
    have hp' : p ∉ started := fun hp => hq' (hstarted.mem_of_transGen hp hneeds)
    have hbefore := (pairwise_not_iff_idxOf (hsorted.imp fun hlt => hlt.ne) hacyclic).1 hlast p
      ((hmemRest p).2 ⟨hp, hp'⟩) q ((hmemRest q).2 ⟨hq, hq'⟩) hneeds
    by_contra hnot
    have hlt : p < q := by
      refine lt_of_le_of_ne (not_lt.1 hnot) ?_
      rintro rfl
      exact hacyclic p hneeds
    -- the last loop has the order of the list
    have hplaces := (pairwise_not_iff_idxOf (R := fun a b => b < a)
      (hsorted.imp fun hlt => hlt.ne) fun a => lt_irrefl a).1
      (hsorted.imp fun hlt => hlt.asymm) q ((hmemRest q).2 ⟨hq, hq'⟩) p ((hmemRest p).2 ⟨hp, hp'⟩)
      hlt
    exact lt_asymm hbefore hplaces
  · intro hcondition
    refine ⟨hstarted.ordered, ?_, ?_⟩
    · refine hsorted.imp_of_mem fun {p q} hp hq hlt hneeds => ?_
      obtain ⟨hp, -⟩ := (hmemRest p).1 hp
      obtain ⟨hq, hq'⟩ := (hmemRest q).1 hq
      exact lt_asymm hlt (hcondition p q hp hq hneeds ((hblocked q hq).1 hq'))
    · intro p hp q hq hneeds
      exact ((hmemRest q).1 hq).2 (hstarted.mem_of_transGen hp hneeds)

/-- A list in which every module needs later ones only has no cycle. -/
theorem acyclic_of_forward (h : ∀ p q, q ∈ neededModules programs p → p < q) :
    Acyclic programs := by
  have hlt : ∀ {p q}, TransGen (Needs programs) p q → p < q := by
    intro p q hneeds
    induction hneeds with
    | single hneeds => exact h _ _ hneeds
    | tail _ hneeds ih => exact ih.trans (h _ _ hneeds)
  exact fun p hneeds => lt_irrefl p (hlt hneeds)

/-- Three shared modules: the first one needs the second one, which needs the third one. -/
def threeModules (lastHasInit : Bool) : List Program :=
  [⟨[0x61], none, true, 1, [some [0x62]]⟩, ⟨[0x62], none, true, 1, [some [0x63]]⟩,
    ⟨[0x63], none, true, lastHasInit.toNat, []⟩]

/-- The three modules need one another in the order of the list. -/
theorem threeModules_acyclic (lastHasInit : Bool) : Acyclic (threeModules lastHasInit) := by
  refine acyclic_of_forward ?_
  revert lastHasInit
  decide

/-- `startsInOrder_iff` where all the modules have an init function. -/
theorem startsInOrder_threeModules : StartsInOrder (threeModules true) ↔
    ∀ p q, hasInit (threeModules true) p → hasInit (threeModules true) q →
      TransGen (Needs (threeModules true)) p q →
      (∃ r, TransGen (Needs (threeModules true)) q r ∧ ¬ hasInit (threeModules true) r) → q < p :=
  startsInOrder_iff (threeModules_acyclic true)

/-- **A module starts before one that it needs**, when that one needs a module without an init
function and stands behind it. -/
theorem not_startsInOrder :
    ¬ ∀ programs : List Program, Acyclic programs → StartsInOrder programs := by
  intro hall
  obtain ⟨calls, hcalls, -, horder⟩ := hall _ (threeModules_acyclic false)
  have hfirst : startAllModules (threeModules false) =
      some [⟨0, by decide⟩, ⟨1, by decide⟩] := by decide
  obtain rfl := Option.some.inj (hfirst.symm.trans hcalls)
  have hneeds : Needs (threeModules false) ⟨0, by decide⟩ ⟨1, by decide⟩ :=
    show _ ∈ neededModules _ _ by decide
  exact absurd (horder _ _ (by decide) (by decide) (.single hneeds)) (by decide)

end Prosperismo.RuntimeLinker
