import Mathlib.Tactic.Ring

/-!
# Replaying classic geometry shaders

A draw with a classic geometry shader is replayed as compute work: the registers say whether the
launch can be replayed and what its groups can hold (`tryCreateClassicGeometryReplayLaunch`), and a
point list is cut into subgroups that fit (`tryPlanPointListGsSubgroups`).

A function of the source that returns `false`, its result being reset, has no result here.
-/

namespace Prosperismo.NativePrimitives

/-- `NativePrimitiveOutput`. -/
inductive NativePrimitiveOutput
  | points
  | lines
  | triangles
  deriving DecidableEq

/-- `NativePrimitiveLaunchState`. -/
structure NativePrimitiveLaunchState where
  shaderStages : UInt32 := 0
  primitiveGroupSize : UInt32 := 0
  vertexGroupSize : UInt32 := 0
  primitiveAmplification : UInt32 := 0
  maxOutputPerSubgroup : UInt32 := 0
  gsMaxVerticesPerInput : UInt32 := 0
  gsOutputPrimitive : UInt32 := 0
  gsInstanceCount : UInt32 := 0
  esgsRingItemSize : UInt32 := 0
  geUserVgprEnable : UInt32 := 0

/-- `ClassicGeometryReplayLaunch`. -/
structure ClassicGeometryReplayLaunch where
  waveLaneCount : UInt32
  primitiveGroupLimit : UInt32
  vertexGroupLimit : UInt32
  outputVertexSlots : UInt32
  outputPrimitiveSlots : UInt32
  outputPrimitive : NativePrimitiveOutput
  deriving DecidableEq

/-- `GsSubgroupLaunchPlan`. -/
structure GsSubgroupLaunchPlan where
  subgroupCount : UInt32
  primitivesPerFullSubgroup : UInt32
  tailSubgroupPrimitives : UInt32
  wavesPerSubgroup : UInt32
  deriving DecidableEq

/-- `TryPackGsWaveLaunch`. -/
def tryPackGsWaveLaunch (vertexCount primitiveCount waveIndex workgroupWaveCount : UInt32) :
    Option UInt32 :=
  if 0xff < vertexCount ∨ 0xff < primitiveCount ∨ 0x0f < waveIndex ∨ workgroupWaveCount = 0 ∨
      0x0f < workgroupWaveCount ∨ workgroupWaveCount ≤ waveIndex then none
  else
    some (vertexCount ||| primitiveCount <<< 8 ||| waveIndex <<< 24 ||| workgroupWaveCount <<< 28)

/-! ### The launch -/

/-- `static_cast<NativePrimitiveOutput>`, of a value that has been checked. -/
def NativePrimitiveOutput.ofWord (word : UInt32) : NativePrimitiveOutput :=
  if word = 0 then .points else if word = 1 then .lines else .triangles

/-- The registers that `TryCreateClassicGeometryReplayLaunch` refuses at once. -/
def NativePrimitiveLaunchState.Refused (state : NativePrimitiveLaunchState) : Prop :=
  state.shaderStages &&& 0x00000020 = 0 ∨
  state.shaderStages &&& (0x00000004 ||| 0x02000000) ≠ 0 ∨
  state.shaderStages &&& 0x00400000 ≠ 0 ∨
  state.primitiveGroupSize = 0 ∨ 0x100 < state.primitiveGroupSize ∨
  state.vertexGroupSize = 0 ∨ 0x100 < state.vertexGroupSize ∨
  state.primitiveAmplification = 0 ∨
  state.maxOutputPerSubgroup = 0 ∨ 0x3ff < state.maxOutputPerSubgroup ∨
  state.gsMaxVerticesPerInput = 0 ∨ 0x7ff < state.gsMaxVerticesPerInput ∨
  state.gsInstanceCount ≠ 0 ∨ state.esgsRingItemSize = 0 ∨ state.geUserVgprEnable ≠ 0 ∨
  2 < state.gsOutputPrimitive

instance (state : NativePrimitiveLaunchState) : Decidable state.Refused := by
  unfold NativePrimitiveLaunchState.Refused
  infer_instance

/-- `primitive_limit_per_input`: the primitives that the vertices of an input can make. -/
def primitiveLimitPerInput (output : NativePrimitiveOutput) (maxVertices : UInt32) : Option UInt32 :=
  match output with
  | .points => some maxVertices
  | .lines => if maxVertices < 2 then none else some (maxVertices - 1)
  | .triangles => if maxVertices < 3 then none else some (maxVertices - 2)

/-- `TryCreateClassicGeometryReplayLaunch`. -/
def tryCreateClassicGeometryReplayLaunch (state : NativePrimitiveLaunchState) :
    Option ClassicGeometryReplayLaunch :=
  if state.Refused then none
  else
    let vertexSlots := state.primitiveGroupSize.toUInt64 * state.gsMaxVerticesPerInput.toUInt64
    if vertexSlots ≠ state.maxOutputPerSubgroup.toUInt64 then none
    else
      let output := NativePrimitiveOutput.ofWord state.gsOutputPrimitive
      match primitiveLimitPerInput output state.gsMaxVerticesPerInput with
      | none => none
      | some limit =>
        if limit < state.primitiveAmplification then none
        else
          let primitiveSlots :=
            state.primitiveGroupSize.toUInt64 * state.primitiveAmplification.toUInt64
          if 0xffffffff < primitiveSlots then none
          else some {
            waveLaneCount := 64
            primitiveGroupLimit := state.primitiveGroupSize
            vertexGroupLimit := state.vertexGroupSize
            outputVertexSlots := state.maxOutputPerSubgroup
            outputPrimitiveSlots := primitiveSlots.toUInt32
            outputPrimitive := output }

/-! ### The plan -/

/-- The subgroups of `TryPlanPointListGsSubgroups`: how many there are, and the primitives of the
full ones and of the last one. -/
def splitSubgroups (limit indexCount instanceCount : UInt32) (multipleInstancesPerWave : Bool) :
    Option (UInt64 × UInt32 × UInt32) :=
  if multipleInstancesPerWave = false ∧ 1 < instanceCount then
    -- no subgroup crosses the boundary of an instance
    if limit < indexCount then none
    else some (instanceCount.toUInt64, indexCount, indexCount)
  else
    let totalPrimitives := indexCount.toUInt64 * instanceCount.toUInt64
    if totalPrimitives ≤ limit.toUInt64 then
      some (1, totalPrimitives.toUInt32, totalPrimitives.toUInt32)
    else
      let remainder := (totalPrimitives % limit.toUInt64).toUInt32
      some ((totalPrimitives + limit.toUInt64 - 1) / limit.toUInt64, limit,
        if remainder = 0 then limit else remainder)

/-- `TryPlanPointListGsSubgroups`. -/
def tryPlanPointListGsSubgroups (launch : ClassicGeometryReplayLaunch)
    (indexCount instanceCount : UInt32) (multipleInstancesPerWave : Bool) :
    Option GsSubgroupLaunchPlan :=
  if indexCount = 0 ∨ instanceCount = 0 ∨ launch.waveLaneCount = 0 ∨
      launch.primitiveGroupLimit = 0 ∨ launch.vertexGroupLimit = 0 then none
  else
    let limit :=
      if launch.primitiveGroupLimit < launch.vertexGroupLimit then launch.primitiveGroupLimit
      else launch.vertexGroupLimit
    match splitSubgroups limit indexCount instanceCount multipleInstancesPerWave with
    | none => none
    | some (subgroupCount, full, tail) =>
      if subgroupCount = 0 ∨ 0xffffffff < subgroupCount then none
      else
        let waves := (full + launch.waveLaneCount - 1) / launch.waveLaneCount
        if tryPackGsWaveLaunch full full 0 waves = none ∨
            tryPackGsWaveLaunch tail tail 0 waves = none then none
        else some {
          subgroupCount := subgroupCount.toUInt32
          primitivesPerFullSubgroup := full
          tailSubgroupPrimitives := tail
          wavesPerSubgroup := waves }

end Prosperismo.NativePrimitives

/-!
# The subgroups of a plan cover the draw

A plan cuts the primitives of a draw, in their order, into subgroups that are full, up to the last
one (`Covers`): together they have all the primitives, each of them fits into the limits of the
launch and into its packed launch words, and where instances may not share a wave, an instance
begins with a subgroup (`tryPlanPointListGsSubgroups_covers`).
-/

namespace Prosperismo.NativePrimitives

/-- The primitives of the `k`-th subgroup. -/
def GsSubgroupLaunchPlan.primitives (plan : GsSubgroupLaunchPlan) (k : ℕ) : UInt32 :=
  if k + 1 < plan.subgroupCount.toNat then plan.primitivesPerFullSubgroup
  else plan.tailSubgroupPrimitives

/-- The plan has all the primitives of the draw, in subgroups that fit. -/
structure Covers (launch : ClassicGeometryReplayLaunch) (indexCount instanceCount : UInt32)
    (multipleInstancesPerWave : Bool) (plan : GsSubgroupLaunchPlan) : Prop where
  nonempty : 1 ≤ plan.subgroupCount.toNat
  total : (plan.subgroupCount.toNat - 1) * plan.primitivesPerFullSubgroup.toNat +
    plan.tailSubgroupPrimitives.toNat = indexCount.toNat * instanceCount.toNat
  tail_pos : 1 ≤ plan.tailSubgroupPrimitives.toNat
  /-- A point is a primitive and a vertex. -/
  limits : ∀ k < plan.subgroupCount.toNat,
    (plan.primitives k).toNat ≤ launch.primitiveGroupLimit.toNat ∧
      (plan.primitives k).toNat ≤ launch.vertexGroupLimit.toNat
  /-- The waves of a subgroup have a lane for each of its primitives. -/
  lanes : ∀ k < plan.subgroupCount.toNat, (plan.primitives k).toNat ≤
    plan.wavesPerSubgroup.toNat * launch.waveLaneCount.toNat
  /-- The launch word of each wave can be packed. -/
  packs : ∀ k < plan.subgroupCount.toNat, ∀ wave < plan.wavesPerSubgroup,
    tryPackGsWaveLaunch (plan.primitives k) (plan.primitives k) wave plan.wavesPerSubgroup ≠ none
  /-- Where instances may not share a wave, an instance begins with a subgroup. -/
  boundaries : multipleInstancesPerWave = false → ∀ i < instanceCount.toNat,
    ∃ k < plan.subgroupCount.toNat,
      k * plan.primitivesPerFullSubgroup.toNat = i * indexCount.toNat

/-! ### Launches and launch words -/

/-- A launch has groups of at most 256 vertices, and waves of 64 lanes. -/
theorem launch_limits {state : NativePrimitiveLaunchState} {launch : ClassicGeometryReplayLaunch}
    (h : tryCreateClassicGeometryReplayLaunch state = some launch) :
    launch.waveLaneCount = 64 ∧ launch.vertexGroupLimit.toNat ≤ 256 := by
  unfold tryCreateClassicGeometryReplayLaunch at h
  by_cases hrefused : state.Refused
  · rw [if_pos hrefused] at h
    cases h
  · rw [if_neg hrefused] at h
    have hvertices : ¬ 0x100 < state.vertexGroupSize := fun hlt => hrefused (by
      simp only [NativePrimitiveLaunchState.Refused, hlt, true_or, or_true])
    dsimp only at h
    split at h
    · cases h
    · split at h
      · cases h
      · split_ifs at h
        cases h
        refine ⟨rfl, ?_⟩
        simpa [UInt32.lt_iff_toNat_lt] using hvertices

/-- When the word of the first wave can be packed, so can those of the others. -/
theorem tryPackGsWaveLaunch_wave {vertices primitives waves wave : UInt32}
    (h : tryPackGsWaveLaunch vertices primitives 0 waves ≠ none) (hwave : wave < waves) :
    tryPackGsWaveLaunch vertices primitives wave waves ≠ none := by
  unfold tryPackGsWaveLaunch at h ⊢
  split_ifs at h with hbad
  · exact absurd rfl h
  · simp only [not_or, UInt32.not_lt, UInt32.not_le] at hbad
    obtain ⟨hvertices, hprimitives, -, hzero, hwaves, -⟩ := hbad
    have hle : wave ≤ 0x0f := UInt32.le_trans (UInt32.le_of_lt hwave) hwaves
    rw [if_neg]
    · exact nofun
    · simp only [not_or, UInt32.not_lt, UInt32.not_le]
      exact ⟨hvertices, hprimitives, hle, hzero, hwaves, hwave⟩

/-! ### The division of the draw -/

/-- **Rounded division**: the full parts and what is left make the whole. -/
theorem ceil_parts {total limit : ℕ} (hlimit : 0 < limit) (hlt : limit < total) :
    ((total + limit - 1) / limit - 1) * limit +
      (if total % limit = 0 then limit else total % limit) = total := by
  have hdiv := Nat.div_add_mod total limit
  have hmod := Nat.mod_lt total hlimit
  set q := total / limit
  set r := total % limit
  have hq : 0 < q := Nat.div_pos hlt.le hlimit
  split_ifs with hr
  · -- the division is exact
    have hceil : (total + limit - 1) / limit = q := by
      rw [← hdiv, hr, add_zero, Nat.add_sub_assoc hlimit, Nat.mul_add_div hlimit,
        Nat.div_eq_of_lt (Nat.sub_lt hlimit Nat.one_pos), add_zero]
    calc ((total + limit - 1) / limit - 1) * limit + limit
        = (q - 1 + 1) * limit := by rw [hceil]; ring
      _ = limit * q + r := by rw [Nat.sub_add_cancel hq, hr]; ring
      _ = total := hdiv
  · have hceil : (total + limit - 1) / limit = q + 1 := by
      have hsum : total + limit - 1 = limit * (q + 1) + (r - 1) := by
        rw [mul_add]
        omega
      rw [hsum, Nat.mul_add_div hlimit, Nat.div_eq_of_lt (by omega), add_zero]
    calc ((total + limit - 1) / limit - 1) * limit + r
        = limit * q + r := by rw [hceil, Nat.add_sub_cancel, mul_comm]
      _ = total := hdiv

/-- What `splitSubgroups` cuts a draw into. -/
structure Split (limit indexCount instanceCount : ℕ) (multipleInstancesPerWave : Bool)
    (count full tail : ℕ) : Prop where
  nonempty : 1 ≤ count
  full_le : full ≤ limit
  tail_pos : 1 ≤ tail
  tail_le : tail ≤ full
  total : (count - 1) * full + tail = indexCount * instanceCount
  boundaries : multipleInstancesPerWave = false → ∀ i < instanceCount,
    ∃ k < count, k * full = i * indexCount

/-- **The draw is split into all its primitives**, without a wrap of the 64-bit products. -/
theorem splitSubgroups_split {limit indexCount instanceCount : UInt32}
    {multipleInstancesPerWave : Bool} {count : UInt64} {full tail : UInt32}
    (hlimit : limit ≠ 0) (hindices : indexCount ≠ 0) (hinstances : instanceCount ≠ 0)
    (h : splitSubgroups limit indexCount instanceCount multipleInstancesPerWave =
      some (count, full, tail)) :
    Split limit.toNat indexCount.toNat instanceCount.toNat multipleInstancesPerWave count.toNat
      full.toNat tail.toNat := by
  have hpos {x : UInt32} (hx : x ≠ 0) : 0 < x.toNat :=
    Nat.pos_of_ne_zero fun hzero => hx (UInt32.toNat_inj.1 hzero)
  have hlt := limit.toNat_lt
  -- the product of two 32-bit counts, and a limit more, fit into 64 bits
  have hproduct : indexCount.toNat * instanceCount.toNat ≤ (2 ^ 32 - 1) * (2 ^ 32 - 1) :=
    Nat.mul_le_mul (Nat.le_sub_one_of_lt indexCount.toNat_lt)
      (Nat.le_sub_one_of_lt instanceCount.toNat_lt)
  have htotal : (indexCount.toUInt64 * instanceCount.toUInt64).toNat =
      indexCount.toNat * instanceCount.toNat := by
    rw [UInt64.toNat_mul, UInt32.toNat_toUInt64, UInt32.toNat_toUInt64]
    exact Nat.mod_eq_of_lt (by omega)
  have hproduct_pos := Nat.mul_pos (hpos hindices) (hpos hinstances)
  unfold splitSubgroups at h
  by_cases hshared : multipleInstancesPerWave = false ∧ 1 < instanceCount
  · -- an instance is a subgroup
    rw [if_pos hshared] at h
    split_ifs at h with hlong
    cases h
    have hone := UInt32.lt_iff_toNat_lt.1 hshared.2
    refine ⟨?_, ?_, hpos hindices, le_rfl, ?_, fun _ i hi => ⟨i, ?_, rfl⟩⟩
    · rw [UInt32.toNat_toUInt64]
      exact hpos hinstances
    · simpa [UInt32.lt_iff_toNat_lt] using hlong
    · rw [UInt32.toNat_toUInt64, ← Nat.succ_mul, Nat.succ_eq_add_one,
        Nat.sub_add_cancel (hpos hinstances), mul_comm]
    · rwa [UInt32.toNat_toUInt64]
  · -- instances may share a wave, or there is only one
    rw [if_neg hshared] at h
    have hsingle : multipleInstancesPerWave = false → instanceCount.toNat = 1 := by
      intro hfalse
      have hle := UInt32.not_lt.1 fun hlt => hshared ⟨hfalse, hlt⟩
      have hle := UInt32.le_iff_toNat_le.1 hle
      have := hpos hinstances
      exact le_antisymm hle this
    have hfirst {count full : ℕ} (hcount : 1 ≤ count) : multipleInstancesPerWave = false →
        ∀ i < instanceCount.toNat, ∃ k < count, k * full = i * indexCount.toNat := by
      intro hfalse i hi
      rw [hsingle hfalse, Nat.lt_one_iff] at hi
      exact ⟨0, hcount, by rw [hi, Nat.zero_mul, Nat.zero_mul]⟩
    dsimp only at h
    split at h
    · -- one subgroup has them all
      next hfits =>
      cases h
      rw [UInt64.le_iff_toNat_le, htotal, UInt32.toNat_toUInt64] at hfits
      have hsame : (indexCount.toUInt64 * instanceCount.toUInt64).toUInt32.toNat =
          indexCount.toNat * instanceCount.toNat := by
        rw [UInt64.toNat_toUInt32, htotal]
        exact Nat.mod_eq_of_lt (hfits.trans_lt hlt)
      rw [hsame]
      refine ⟨le_rfl, hfits, hproduct_pos, le_rfl, ?_, hfirst le_rfl⟩
      rw [UInt64.toNat_one, Nat.sub_self, Nat.zero_mul, Nat.zero_add]
    · next hfits =>
      cases h
      have hmany : limit.toNat < indexCount.toNat * instanceCount.toNat := by
        rw [UInt64.le_iff_toNat_le, htotal, UInt32.toNat_toUInt64] at hfits
        exact not_le.1 hfits
      have hparts := ceil_parts (hpos hlimit) hmany
      have hremainder : ((indexCount.toUInt64 * instanceCount.toUInt64) % limit.toUInt64).toUInt32.toNat
          = indexCount.toNat * instanceCount.toNat % limit.toNat := by
        rw [UInt64.toNat_toUInt32, UInt64.toNat_mod, htotal, UInt32.toNat_toUInt64]
        exact Nat.mod_eq_of_lt ((Nat.mod_lt _ (hpos hlimit)).trans hlt)
      have hceil : ((indexCount.toUInt64 * instanceCount.toUInt64 + limit.toUInt64 - 1) /
          limit.toUInt64).toNat =
            (indexCount.toNat * instanceCount.toNat + limit.toNat - 1) / limit.toNat := by
        have hsum : (indexCount.toUInt64 * instanceCount.toUInt64 + limit.toUInt64).toNat =
            indexCount.toNat * instanceCount.toNat + limit.toNat := by
          rw [UInt64.toNat_add, htotal, UInt32.toNat_toUInt64]
          exact Nat.mod_eq_of_lt (by omega)
        rw [UInt64.toNat_div, UInt64.toNat_sub_of_le, hsum, UInt32.toNat_toUInt64, UInt64.toNat_one]
        rw [UInt64.le_iff_toNat_le, hsum, UInt64.toNat_one]
        omega
      have hcount : 1 ≤ (indexCount.toNat * instanceCount.toNat + limit.toNat - 1) / limit.toNat :=
        Nat.div_pos (by omega) (hpos hlimit)
      rw [hceil]
      split
      · next hzero =>
        -- the last subgroup is full
        have hexact : indexCount.toNat * instanceCount.toNat % limit.toNat = 0 := by
          rw [← hremainder, hzero]
          rfl
        rw [if_pos hexact] at hparts
        exact ⟨hcount, le_rfl, hpos hlimit, le_rfl, hparts, hfirst hcount⟩
      · next hzero =>
        -- the last subgroup has the remainder
        have hrest : indexCount.toNat * instanceCount.toNat % limit.toNat ≠ 0 := by
          rw [← hremainder]
          exact fun hsame => hzero (UInt32.toNat_inj.1 hsame)
        rw [if_neg hrest] at hparts
        rw [hremainder]
        exact ⟨hcount, le_rfl, Nat.pos_of_ne_zero hrest, (Nat.mod_lt _ (hpos hlimit)).le, hparts,
          hfirst hcount⟩

/-! ### The plan -/

/-- `waves`: the lanes of the waves are enough. -/
theorem le_waves {full lanes : UInt32} (hfull : full.toNat ≤ 256) (hlanes : lanes = 64) :
    full.toNat ≤ ((full + lanes - 1) / lanes).toNat * lanes.toNat := by
  subst hlanes
  have hsum : (full + 64).toNat = full.toNat + 64 := by
    rw [UInt32.toNat_add]
    exact Nat.mod_eq_of_lt (by change full.toNat + 64 < 2 ^ 32; omega)
  have hdifference : (full + 64 - 1).toNat = full.toNat + 63 := by
    rw [UInt32.toNat_sub_of_le, hsum]
    · rfl
    · rw [UInt32.le_iff_toNat_le, hsum]
      change 1 ≤ full.toNat + 64
      omega
  rw [UInt32.toNat_div, hdifference]
  change full.toNat ≤ (full.toNat + 63) / 64 * 64
  omega

/-- **A plan covers the draw**: whatever the launch and the draw, the subgroups of a plan have all
the primitives, fit into the limits and the launch words, and respect the instances. -/
theorem tryPlanPointListGsSubgroups_covers {state : NativePrimitiveLaunchState}
    {launch : ClassicGeometryReplayLaunch} {indexCount instanceCount : UInt32}
    {multipleInstancesPerWave : Bool} {plan : GsSubgroupLaunchPlan}
    (hlaunch : tryCreateClassicGeometryReplayLaunch state = some launch)
    (hplan : tryPlanPointListGsSubgroups launch indexCount instanceCount multipleInstancesPerWave =
      some plan) :
    Covers launch indexCount instanceCount multipleInstancesPerWave plan := by
  obtain ⟨hlanes, hvertices⟩ := launch_limits hlaunch
  unfold tryPlanPointListGsSubgroups at hplan
  by_cases hempty : indexCount = 0 ∨ instanceCount = 0 ∨ launch.waveLaneCount = 0 ∨
      launch.primitiveGroupLimit = 0 ∨ launch.vertexGroupLimit = 0
  · rw [if_pos hempty] at hplan
    cases hplan
  rw [if_neg hempty] at hplan
  simp only [not_or] at hempty
  obtain ⟨hindices, hinstances, -, hprimitives, hvertexLimit⟩ := hempty
  dsimp only at hplan
  -- the limit is the smaller one of the two
  have hlimit : ∀ limit, limit = (if launch.primitiveGroupLimit < launch.vertexGroupLimit then
      launch.primitiveGroupLimit else launch.vertexGroupLimit) → limit ≠ 0 ∧
        limit.toNat ≤ launch.primitiveGroupLimit.toNat ∧
          limit.toNat ≤ launch.vertexGroupLimit.toNat := by
    rintro limit rfl
    split_ifs with hlt
    · exact ⟨hprimitives, le_rfl, (UInt32.lt_iff_toNat_lt.1 hlt).le⟩
    · exact ⟨hvertexLimit, UInt32.le_iff_toNat_le.1 (UInt32.not_lt.1 hlt), le_rfl⟩
  generalize hvalue : (if launch.primitiveGroupLimit < launch.vertexGroupLimit then
    launch.primitiveGroupLimit else launch.vertexGroupLimit) = limit at hplan
  obtain ⟨hnonzero, hprimitiveLimit, hvertexLimit⟩ := hlimit limit hvalue.symm
  split at hplan
  · cases hplan
  next count full tail hsplit =>
  have hparts := splitSubgroups_split hnonzero hindices hinstances hsplit
  split_ifs at hplan with hcount hpack
  cases hplan
  obtain ⟨hfullPack, htailPack⟩ := not_or.1 hpack
  -- the count of the subgroups fits into 32 bits
  have hfits : count.toUInt32.toNat = count.toNat := by
    rw [UInt64.toNat_toUInt32]
    have hle := UInt64.le_iff_toNat_le.1 (UInt64.not_lt.1 (not_or.1 hcount).2)
    exact Nat.mod_eq_of_lt (Nat.lt_of_le_of_lt hle (by decide))
  have hsize : ∀ k, (if k + 1 < count.toUInt32.toNat then full else tail).toNat ≤ full.toNat := by
    intro k
    split_ifs
    · exact le_rfl
    · exact hparts.tail_le
  have hfull := hparts.full_le
  exact
    { nonempty := hfits ▸ hparts.nonempty
      total := hfits ▸ hparts.total
      tail_pos := hparts.tail_pos
      limits := fun k _ => ⟨(hsize k).trans (hfull.trans hprimitiveLimit),
        (hsize k).trans (hfull.trans hvertexLimit)⟩
      lanes := fun k _ =>
        (hsize k).trans (le_waves (hfull.trans (hvertexLimit.trans hvertices)) hlanes)
      packs := fun k _ wave hwave => by
        unfold GsSubgroupLaunchPlan.primitives
        split_ifs
        · exact tryPackGsWaveLaunch_wave hfullPack hwave
        · exact tryPackGsWaveLaunch_wave htailPack hwave
      boundaries := fun hfalse i hi => hfits ▸ hparts.boundaries hfalse i hi }

/-- A draw of 100 points twice, in groups of up to 64: four subgroups, the last one of 8 points. -/
theorem tryPlanPointListGsSubgroups_covers_tail :
    ∃ state launch plan, tryCreateClassicGeometryReplayLaunch state = some launch ∧
      tryPlanPointListGsSubgroups launch 100 2 true = some plan ∧
      plan.subgroupCount = 4 ∧ plan.tailSubgroupPrimitives = 8 ∧ Covers launch 100 2 true plan := by
  let state : NativePrimitiveLaunchState :=
    { shaderStages := 0x20, primitiveGroupSize := 64, vertexGroupSize := 64,
      primitiveAmplification := 1, maxOutputPerSubgroup := 256, gsMaxVerticesPerInput := 4,
      esgsRingItemSize := 4 }
  have hlaunch : tryCreateClassicGeometryReplayLaunch state =
    some ⟨64, 64, 64, 256, 64, .points⟩ := by decide +kernel
  have hplan : tryPlanPointListGsSubgroups ⟨64, 64, 64, 256, 64, .points⟩ 100 2 true =
    some ⟨4, 64, 8, 1⟩ := by decide +kernel
  exact ⟨state, _, _, hlaunch, hplan, rfl, rfl, tryPlanPointListGsSubgroups_covers hlaunch hplan⟩

end Prosperismo.NativePrimitives
