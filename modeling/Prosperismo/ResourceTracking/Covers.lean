import Prosperismo.ResourceTracking.Coverage

/-!
# Tracking covers every access

What a run that succeeds leaves behind is stated on the program and the tracked program
alone (`Covers`): an instruction of the one stands at the place of its patched copy in the
other (`steps`), and the users of an entry are the instructions whose copy has its index
(`Uses`).

Two kinds of access use an entry that they have not been merged into by their own source: a
scalar load whose base is computed on the GPU takes the entry of an earlier load, and a
scalar buffer load with a computed descriptor takes the last entry of its registers.
-/

namespace Prosperismo.ResourceTracking

open KeyedTable (Tracks usesOf mem_usesOf)

/-! ### What is covered -/

/-- The buffer and image stores. -/
def isStore : Opcode → Bool
  | .bufferStoreByte | .bufferStoreShort | .bufferStoreDword | .imageStore => true
  | _ => false

/-- The flat stores. -/
def isFlatStore : Opcode → Bool
  | .flatStoreByte | .flatStoreShort | .flatStoreDword => true
  | _ => false

section Spec

variable (program program' : Program)

/-- The instructions of the program, each with its patched copy. -/
def steps : List (Instruction × Instruction) := program.blocks.flatten.zip program'.blocks.flatten

/-- The instruction accesses a resource in one of the ways, by the index. -/
def Uses (accesses : List Access) (i : ℕ) (inst : Instruction) : Prop :=
  accessOf program inst ∈ accesses ∧
    ∃ patched, (inst, patched) ∈ steps program program' ∧ patched.memory.resource = i

/-- The instruction samples by the index. -/
def UsesSampler (i : ℕ) (inst : Instruction) : Prop :=
  Samples program inst ∧
    ∃ patched, (inst, patched) ∈ steps program program' ∧ patched.memory.sampler = i

/-- The flags of an entry cover its users. Of a flat store nothing is said: it may or may not be
taken for a write. -/
structure FlagsCover (read written atomic : Bool) (uses : Instruction → Prop) : Prop where
  read_of_use : ∀ inst, uses inst → isStore inst.op = false → isFlatStore inst.op = false →
    read = true
  use_of_read : read = true → ∃ inst, uses inst ∧ isStore inst.op = false
  written_of_use : ∀ inst, uses inst → isStore inst.op = true ∨ isAtomic inst.op = true →
    written = true
  use_of_written : written = true → ∃ inst, uses inst ∧
    (isStore inst.op = true ∨ isFlatStore inst.op = true ∨ isAtomic inst.op = true)
  atomic_iff : atomic = true ↔ ∃ inst, uses inst ∧ isAtomic inst.op = true

/-- The entry of a load without a base of its own is that of an earlier load, which has been made
through the same registers, or whose base the load has its own from. -/
structure Inherits (earlier : List (Instruction × Instruction)) (inst : Instruction)
    (address : AddressResource) : Prop where
  baseless : Baseless program inst
  runtime : address.runtimeAddress = true
  load : ∃ step ∈ earlier, accessOf program step.1 = .address ∧
    step.1.memory.kind = .scalarBuffer ∧
    (step.1.memory.resource = inst.memory.resource ∨ IsParent program inst address.source) ∧
    ∃ address', program'.info.addresses[step.2.memory.resource]? = some address' ∧
      address'.source = address.source

/-- **The tables of the tracked program cover the accesses of the program.** -/
structure Covers : Prop where
  shape : program'.blocks.map List.length = program.blocks.map List.length
  -- the entry of an access
  buffer : ∀ i inst, Uses program program' [.buffer] i inst →
    ∃ e, program'.info.buffers[i]? = some e ∧ e.source = inst.memory.resourceSource ∧
      min inst.accessEnd (2 ^ 32 - 1) ≤ e.maxByteExtent
  image : ∀ i inst, Uses program program' [.image] i inst →
    ∃ e, program'.info.images[i]? = some e ∧ e.key = ImageResource.keyOf inst
  sampler : ∀ i inst, UsesSampler program program' i inst →
    ∃ e, program'.info.samplers[i]? = some e ∧ e.source = inst.memory.samplerSource
  sampled : ∀ inst patched, (inst, patched) ∈ steps program program' → Samples program inst →
    (patched.memory.resource, patched.memory.sampler) ∈
      program'.info.sampledPairs.map SampledResourcePair.key
  address : ∀ pre inst patched post, steps program program' = pre ++ (inst, patched) :: post →
    accessOf program inst = .address →
    ∃ e, program'.info.addresses[patched.memory.resource]? = some e ∧ e.kind = inst.memory.kind ∧
      e.baseRegister = inst.memory.resource ∧
      (e.source = inst.memory.resourceSource ∧ e.runtimeAddress = inst.memory.runtimeAddress ∨
        Inherits program program' pre inst e)
  dynamicBuffer : ∀ i inst, Uses program program' [.dynamicBuffer] i inst →
    ∃ e, program'.info.addresses[i]? = some e ∧ e.kind = .scalarBuffer ∧
      e.baseRegister = inst.memory.resource * 4 % 2 ^ 32 ∧ e.runtimeAddress = true
  -- the keys are distinct
  buffers_distinct : (program'.info.buffers.map BufferResource.key).Nodup
  images_distinct : (program'.info.images.map ImageResource.key).Nodup
  addresses_distinct : (program'.info.addresses.map AddressResource.key).Nodup
  samplers_distinct : (program'.info.samplers.map SamplerResource.key).Nodup
  pairs_distinct : (program'.info.sampledPairs.map SampledResourcePair.key).Nodup
  -- every index is in use
  buffers_dense : ∀ i e, program'.info.buffers[i]? = some e →
    ∃ inst, Uses program program' [.buffer] i inst
  images_dense : ∀ i e, program'.info.images[i]? = some e →
    ∃ inst, Uses program program' [.image] i inst
  addresses_dense : ∀ i e, program'.info.addresses[i]? = some e →
    ∃ inst, Uses program program' [.address] i inst
  samplers_dense : ∀ i e, program'.info.samplers[i]? = some e →
    ∃ inst, UsesSampler program program' i inst
  -- the flags cover the users
  buffers_flags : ∀ i e, program'.info.buffers[i]? = some e →
    FlagsCover e.read e.written e.atomic (Uses program program' [.buffer] i)
  buffers_formatted : ∀ i e, program'.info.buffers[i]? = some e →
    (e.formatted = true ↔
      ∃ inst, Uses program program' [.buffer] i inst ∧ inst.memory.formatted = true)
  images_flags : ∀ i e, program'.info.images[i]? = some e →
    FlagsCover e.read e.written e.atomic (Uses program program' [.image] i)
  addresses_flags : ∀ i e, program'.info.addresses[i]? = some e →
    FlagsCover e.read e.written e.atomic (Uses program program' [.address, .dynamicBuffer] i)

end Spec

/-! ### Flags -/

theorem isWrite_eq (op : Opcode) : isWrite op = (isStore op || isAtomic op) := by
  cases op <;> rfl

theorem isAtomic_of_isStore {op : Opcode} (h : isStore op = true) : isAtomic op = false := by
  cases op <;> first | rfl | cases h

/-- The flags that are merged from a list of users cover those of whom they are the opcodes. -/
theorem flagsCover_of_any {users : List Instruction} {uses : Instruction → Prop}
    (huses : ∀ p : Opcode → Bool, (users.any fun inst => p inst.op) = true ↔
      ∃ inst, uses inst ∧ p inst.op = true)
    {read written atomic : Bool} (hread : read = users.any Instruction.reads)
    (hwritten : written = users.any fun inst => isWrite inst.op)
    (hatomic : atomic = users.any fun inst => isAtomic inst.op) :
    FlagsCover read written atomic uses where
  read_of_use inst hinst hstore _ := by
    rw [hread]
    refine (huses fun op => !isWrite op || isAtomic op).2 ⟨inst, hinst, ?_⟩
    rw [isWrite_eq, hstore, Bool.false_or]
    exact Bool.not_or_self _
  use_of_read h := by
    obtain ⟨inst, hinst, hop⟩ := (huses fun op => !isWrite op || isAtomic op).1 (hread ▸ h)
    refine ⟨inst, hinst, Bool.eq_false_of_not_eq_true fun hstore => ?_⟩
    rw [isWrite_eq, hstore, isAtomic_of_isStore hstore] at hop
    cases hop
  written_of_use inst hinst hop := by
    rw [hwritten]
    refine (huses isWrite).2 ⟨inst, hinst, ?_⟩
    rw [isWrite_eq, Bool.or_eq_true]
    exact hop
  use_of_written h := by
    obtain ⟨inst, hinst, hop⟩ := (huses isWrite).1 (hwritten ▸ h)
    rw [isWrite_eq, Bool.or_eq_true] at hop
    exact ⟨inst, hinst, hop.imp_right .inr⟩
  atomic_iff := by
    rw [hatomic]
    exact huses isAtomic

/-! ### The run and its log -/

section Run

variable {program program' : Program} {info : ShaderInfo} {done : List Done} {i : ℕ}
  {inst : Instruction}

/-- A run that succeeds has a log that belongs to its tables. -/
theorem trackResources_ok (h : trackResources program = .ok program') :
    ∃ info done, Invariant program info done ∧ program'.info = linkImageAliases program info ∧
      steps program program' = done.map (fun u => (u.1, u.2.patched)) ∧
      program'.blocks.map List.length = program.blocks.map List.length := by
  unfold trackResources at h
  split_ifs at h
  obtain ⟨⟨info, blocks⟩, hblocks, h⟩ := bind_ok.1 h
  cases h
  obtain ⟨hlens, hinv⟩ := (Invariant.nil program).collectBlocks hblocks
  refine ⟨info, _, hinv, rfl, ?_, ?_⟩
  · rw [List.nil_append, steps, ← List.map_flatten, List.zip_map_right]
    rfl
  · rw [List.map_map, ← hlens]
    exact List.map_congr_left fun block _ => List.length_map _

/-- The indices of a patched copy are those in the log. -/
theorem patched_memory {u : Done} {patch : Patch} (h : u.2.patch = some patch) :
    u.2.patched.memory.resource = patch.resource ∧ u.2.patched.memory.sampler = patch.sampler := by
  rw [Collected.patched, h]
  exact ⟨rfl, rfl⟩

section Log

variable (hi : Invariant program info done)
  (hsteps : steps program program' = done.map fun u => (u.1, u.2.patched))
include hi hsteps

/-- The users of an index are in the log. -/
theorem uses_iff {accesses : List Access} (hnone : Access.none ∉ accesses) :
    Uses program program' accesses i inst ↔ ∃ u ∈ done, u.1 = inst ∧
      accessOf program u.1 ∈ accesses ∧ ∃ patch, u.2.patch = some patch ∧ patch.resource = i := by
  constructor
  · rintro ⟨haccess, patched, hmem, rfl⟩
    rw [hsteps] at hmem
    obtain ⟨u, hu, heq⟩ := List.mem_map.1 hmem
    cases heq
    obtain ⟨patch, hpatch⟩ := hi.patched u hu fun h => hnone (h ▸ haccess)
    exact ⟨u, hu, rfl, haccess, patch, hpatch, (patched_memory hpatch).1.symm⟩
  · rintro ⟨u, hu, rfl, haccess, patch, hpatch, rfl⟩
    refine ⟨haccess, u.2.patched, ?_, (patched_memory hpatch).1⟩
    rw [hsteps]
    exact List.mem_map_of_mem hu

/-- The users of a buffer or an image. -/
theorem mem_resourceUses {access : Access} (hnone : Access.none ≠ access) :
    inst ∈ usesOf (done.filterMap (resourceUse program access)) i ↔
      Uses program program' [access] i inst := by
  rw [mem_usesOf, List.mem_filterMap, uses_iff hi hsteps (by simpa using hnone)]
  refine exists_congr fun u => and_congr_right fun hu => ?_
  simp only [resourceUse, List.mem_singleton]
  constructor
  · intro h
    split_ifs at h with haccess
    obtain ⟨patch, hpatch, heq⟩ := Option.map_eq_some_iff.1 h
    cases heq
    exact ⟨rfl, haccess, patch, hpatch, rfl⟩
  · rintro ⟨rfl, haccess, patch, hpatch, rfl⟩
    rw [if_pos haccess, hpatch]
    rfl

omit hi hsteps in
/-- The users of an address; the log has them as they have been rewritten. -/
theorem mem_addressUses :
    inst ∈ usesOf (done.filterMap (addressUse program)) i ↔ ∃ u ∈ done, u.2.inst = inst ∧
      accessOf program u.1 ∈ [Access.address, Access.dynamicBuffer] ∧
      ∃ patch, u.2.patch = some patch ∧ patch.resource = i := by
  rw [mem_usesOf, List.mem_filterMap]
  refine exists_congr fun u => and_congr_right fun _ => ?_
  rw [List.mem_pair]
  constructor
  · intro h
    obtain ⟨haccess, hpatch, hinst⟩ := addressUse_eq_some h
    exact ⟨hinst, haccess, hpatch⟩
  · rintro ⟨rfl, haccess, patch, hpatch, rfl⟩
    rw [addressUse, if_pos haccess, hpatch]
    rfl

/-- The opcodes of the users of an address. -/
theorem any_addressUses (p : Opcode → Bool) :
    ((usesOf (done.filterMap (addressUse program)) i).any fun inst => p inst.op) = true ↔
      ∃ inst, Uses program program' [.address, .dynamicBuffer] i inst ∧ p inst.op = true := by
  rw [List.any_eq_true]
  constructor
  · rintro ⟨x, hx, hop⟩
    obtain ⟨u, hu, rfl, haccess, hpatch⟩ := mem_addressUses.1 hx
    rw [(hi.kept u hu).op] at hop
    exact ⟨u.1, (uses_iff hi hsteps (by decide)).2 ⟨u, hu, rfl, haccess, hpatch⟩, hop⟩
  · rintro ⟨inst, huses, hop⟩
    obtain ⟨u, hu, rfl, haccess, hpatch⟩ := (uses_iff hi hsteps (by decide)).1 huses
    rw [← (hi.kept u hu).op] at hop
    exact ⟨u.2.inst, mem_addressUses.2 ⟨u, hu, rfl, haccess, hpatch⟩, hop⟩

/-- What the buffers and images in use have in common. -/
theorem any_resourceUses {access : Access} (hnone : Access.none ≠ access) (p : Instruction → Bool) :
    (usesOf (done.filterMap (resourceUse program access)) i).any p = true ↔
      ∃ inst, Uses program program' [access] i inst ∧ p inst = true := by
  rw [List.any_eq_true]
  exact exists_congr fun inst => and_congr_left fun _ => mem_resourceUses hi hsteps hnone

/-- The users of a sampler. -/
theorem mem_samplerUses :
    inst ∈ usesOf (done.filterMap (samplerUse program)) i ↔
      UsesSampler program program' i inst := by
  rw [mem_usesOf, List.mem_filterMap]
  constructor
  · rintro ⟨u, hu, h⟩
    unfold samplerUse at h
    split_ifs at h with hsamples
    obtain ⟨patch, hpatch, heq⟩ := Option.map_eq_some_iff.1 h
    cases heq
    refine ⟨hsamples, u.2.patched, ?_, (patched_memory hpatch).2⟩
    rw [hsteps]
    exact List.mem_map_of_mem hu
  · rintro ⟨hsamples, patched, hmem, rfl⟩
    rw [hsteps] at hmem
    obtain ⟨u, hu, heq⟩ := List.mem_map.1 hmem
    cases heq
    obtain ⟨patch, hpatch⟩ := hi.patched u hu fun h => by
      obtain h' | h' := hsamples.1 <;> rw [h] at h' <;> cases h'
    refine ⟨u, hu, ?_⟩
    rw [samplerUse, if_pos hsamples, hpatch, (patched_memory hpatch).2]
    rfl

/-! ### The entries -/

/-- An access of a buffer or an image has an entry that it has been merged into. -/
theorem exists_resource {E K : Type*} {key : E → K} {P : E → List Instruction → Prop}
    {table : List E} {access : Access} (hnone : Access.none ≠ access)
    (ht : Tracks key P table (done.filterMap (resourceUse program access)))
    (huses : Uses program program' [access] i inst) :
    ∃ e, table[i]? = some e ∧ ∃ users, P e users ∧ inst ∈ users := by
  have hmem := (mem_resourceUses hi hsteps hnone).2 huses
  obtain ⟨e, he, hP, hused⟩ := ht.exists_entry (mem_usesOf.1 hmem)
  exact ⟨e, he, _, hP, hused⟩

omit hsteps in
/-- An access of an address has an entry with the key of its copy. -/
theorem exists_address {u : Done} (hu : u ∈ done) (haccess : accessOf program u.1 = .address) :
    ∃ e, info.addresses[u.2.patched.memory.resource]? = some e ∧
      AddressResource.keyOf u.2.inst = e.key := by
  obtain ⟨patch, hpatch⟩ := hi.patched u hu (by simp [haccess])
  have hmem : u.2.inst ∈ usesOf (done.filterMap (addressUse program)) patch.resource :=
    mem_addressUses.2 ⟨u, hu, rfl, by simp [haccess], patch, hpatch, rfl⟩
  obtain ⟨e, he, hmerged, hused⟩ := hi.addresses.exists_entry (mem_usesOf.1 hmem)
  rw [(patched_memory hpatch).1]
  exact ⟨e, he, hmerged.source _ hused ((hi.kept u hu).isAddress.trans (accessOf_address haccess))⟩

/-- The entry of an address is its own, or that of an earlier load. -/
theorem address_covered {pre post : List (Instruction × Instruction)} {patched : Instruction}
    (hinfo : program'.info.addresses = info.addresses)
    (hsplit : steps program program' = pre ++ (inst, patched) :: post)
    (haccess : accessOf program inst = .address) :
    ∃ e, program'.info.addresses[patched.memory.resource]? = some e ∧ e.kind = inst.memory.kind ∧
      e.baseRegister = inst.memory.resource ∧
      (e.source = inst.memory.resourceSource ∧ e.runtimeAddress = inst.memory.runtimeAddress ∨
        Inherits program program' pre inst e) := by
  rw [hsteps] at hsplit
  obtain ⟨earlier, rest, rfl, rfl, hrest⟩ := List.map_eq_append_iff.1 hsplit
  obtain ⟨u, later, rfl, heq, rfl⟩ := List.map_eq_cons_iff.1 hrest
  cases heq
  have hu : u ∈ earlier ++ u :: later := by simp
  obtain ⟨e, he, hkey⟩ := exists_address hi hu haccess
  have hkept := hi.kept u hu
  have hsource : u.2.inst.memory.resourceSource = e.source := congrArg (·.1) hkey
  have hkind : u.2.inst.memory.kind = e.kind := congrArg (·.2.1) hkey
  have hregister : u.2.inst.memory.resource = e.baseRegister := congrArg (·.2.2.1) hkey
  have hruntime : u.2.inst.memory.runtimeAddress = e.runtimeAddress := congrArg (·.2.2.2) hkey
  refine ⟨e, hinfo ▸ he, hkind ▸ hkept.kind, hregister ▸ hkept.resource, ?_⟩
  obtain hown | ⟨first, hfirst, hreanchored⟩ := hi.bases earlier u later rfl haccess
  · rw [← hsource, ← hruntime, hown]
    exact .inl ⟨rfl, rfl⟩
  · -- the source is that of the entry of the earlier load
    obtain ⟨e', he', hkey'⟩ := exists_address hi (List.mem_append_left _ hfirst) hreanchored.access
    have hsource' : first.2.inst.memory.resourceSource = e'.source := congrArg (·.1) hkey'
    have hshared : e.source = e'.source := by
      rw [← hsource, hreanchored.rewritten_eq, ← hsource']
      rfl
    refine .inr ⟨hreanchored.baseless, ?_, (first.1, first.2.patched), List.mem_map_of_mem hfirst,
      hreanchored.access, hreanchored.kind, ?_, e', hinfo ▸ he', hshared.symm⟩
    · rw [← hruntime, hreanchored.rewritten_eq]
      rfl
    · rw [hshared, ← hsource']
      exact hreanchored.base

/-- The entry of a scalar buffer load with a computed descriptor is one of its registers. -/
theorem dynamicBuffer_covered (hinfo : program'.info.addresses = info.addresses)
    (huses : Uses program program' [.dynamicBuffer] i inst) :
    ∃ e, program'.info.addresses[i]? = some e ∧ e.kind = .scalarBuffer ∧
      e.baseRegister = inst.memory.resource * 4 % 2 ^ 32 ∧ e.runtimeAddress = true := by
  obtain ⟨u, hu, rfl, haccess, hpatch⟩ := (uses_iff hi hsteps (by decide)).1 huses
  have hdynamic := List.mem_singleton.1 haccess
  have hmem : u.2.inst ∈ usesOf (done.filterMap (addressUse program)) i :=
    mem_addressUses.2 ⟨u, hu, rfl, by simp [hdynamic], hpatch⟩
  obtain ⟨e, he, hmerged, hused⟩ := hi.addresses.exists_entry (mem_usesOf.1 hmem)
  have hkept := hi.kept u hu
  have hserves := hmerged.serves _ hused
    (hkept.isAddress.trans (accessOf_dynamicBuffer hdynamic).1)
  refine ⟨e, hinfo ▸ he, hserves.kind, ?_, hserves.runtime⟩
  rw [← hkept.resource]
  exact hserves.register

end Log

/-- The link of the buffers with the images changes nothing else of a buffer. -/
theorem linkImageAliases_get {e : BufferResource}
    (h : (linkImageAliases program info).buffers[i]? = some e) :
    ∃ buffer image, info.buffers[i]? = some buffer ∧ e = { buffer with imageAlias := image } := by
  obtain ⟨buffer, hbuffer, rfl⟩ := Option.map_eq_some_iff.1 ((List.getElem?_map ..).symm.trans h)
  exact ⟨buffer, _, hbuffer, rfl⟩

theorem get_linkImageAliases (program : Program) {buffer : BufferResource}
    (h : info.buffers[i]? = some buffer) :
    ∃ image, (linkImageAliases program info).buffers[i]? =
      some { buffer with imageAlias := image } := by
  refine ⟨imageAlias program info.images buffer <|> buffer.imageAlias, ?_⟩
  rw [linkImageAliases, List.getElem?_map, h]
  rfl

theorem linkImageAliases_keys (program : Program) (info : ShaderInfo) :
    (linkImageAliases program info).buffers.map BufferResource.key =
      info.buffers.map BufferResource.key := by
  rw [linkImageAliases, List.map_map]
  rfl

/-- The saturated end of an access. -/
theorem Instruction.byteExtent_eq (inst : Instruction) :
    inst.byteExtent = min inst.accessEnd (2 ^ 32 - 1) := by
  unfold Instruction.byteExtent
  split_ifs with h
  · exact (min_eq_right h.le).symm
  · exact (min_eq_left (not_lt.1 h)).symm

/-- **A run that succeeds covers every access.** -/
theorem trackResources_covers (h : trackResources program = .ok program') :
    Covers program program' := by
  obtain ⟨info, done, hi, hinfo, hsteps, hshape⟩ := trackResources_ok h
  have hbuffers : program'.info.buffers = (linkImageAliases program info).buffers := by rw [hinfo]
  have himages : program'.info.images = info.images := by rw [hinfo]; rfl
  have haddresses : program'.info.addresses = info.addresses := by rw [hinfo]; rfl
  have hsamplers : program'.info.samplers = info.samplers := by rw [hinfo]; rfl
  have hpairs : program'.info.sampledPairs = info.sampledPairs := by rw [hinfo]; rfl
  exact {
    shape := hshape
    buffer := fun i inst huses => by
      obtain ⟨e, he, users, ⟨-, hmerged⟩, hmem⟩ :=
        exists_resource hi hsteps (by decide) hi.buffers huses
      obtain ⟨image, hget⟩ := get_linkImageAliases program he
      refine ⟨_, (congrArg (·[i]?) hbuffers).trans hget, (hmerged.source inst hmem).symm, ?_⟩
      rw [← Instruction.byteExtent_eq]
      exact hmerged.extent inst hmem
    image := fun i inst huses => by
      obtain ⟨e, he, users, ⟨-, hmerged⟩, hmem⟩ :=
        exists_resource hi hsteps (by decide) hi.images huses
      exact ⟨e, himages ▸ he, (hmerged.source inst hmem).symm⟩
    sampler := fun i inst huses => by
      have hmem := (mem_samplerUses hi hsteps).2 huses
      obtain ⟨e, he, ⟨-, hsource⟩, hused⟩ := hi.samplers.exists_entry (mem_usesOf.1 hmem)
      exact ⟨e, hsamplers ▸ he, (hsource inst hused).symm⟩
    sampled := fun inst patched hmem hs => by
      rw [hsteps] at hmem
      obtain ⟨u, hu, heq⟩ := List.mem_map.1 hmem
      cases heq
      obtain ⟨patch, hpatch⟩ := hi.patched u hu fun h => by
        obtain h' | h' := hs.1 <;> rw [h] at h' <;> cases h'
      rw [(patched_memory hpatch).1, (patched_memory hpatch).2, hpairs]
      exact hi.paired u hu hs patch hpatch
    address := fun pre inst patched post hsplit haccess =>
      address_covered hi hsteps haddresses hsplit haccess
    dynamicBuffer := fun i inst huses => dynamicBuffer_covered hi hsteps haddresses huses
    buffers_distinct := by
      rw [hbuffers, linkImageAliases_keys]
      exact hi.buffers.distinct
    images_distinct := himages ▸ hi.images.distinct
    addresses_distinct := haddresses ▸ hi.addresses.distinct
    samplers_distinct := hsamplers ▸ hi.samplers.distinct
    pairs_distinct := hpairs ▸ hi.pairs
    buffers_dense := fun i e he => by
      obtain ⟨buffer, image, hget, -⟩ := linkImageAliases_get (hbuffers ▸ he)
      obtain ⟨inst, hmem⟩ := List.exists_mem_of_ne_nil _ (hi.buffers.entry i buffer hget).1
      exact ⟨inst, (mem_resourceUses hi hsteps (by decide)).1 hmem⟩
    images_dense := fun i e he => by
      obtain ⟨inst, hmem⟩ := List.exists_mem_of_ne_nil _ (hi.images.entry i e (himages ▸ he)).1
      exact ⟨inst, (mem_resourceUses hi hsteps (by decide)).1 hmem⟩
    addresses_dense := fun i e he => by
      obtain ⟨x, hx, haddress⟩ := (hi.addresses.entry i e (haddresses ▸ he)).used
      obtain ⟨u, hu, rfl, haccess, hpatch⟩ := mem_addressUses.1 hx
      refine ⟨u.1, (uses_iff hi hsteps (by decide)).2 ⟨u, hu, rfl, ?_, hpatch⟩⟩
      refine List.mem_singleton.2 ((List.mem_pair.1 haccess).resolve_right fun hdynamic => ?_)
      rw [(hi.kept u hu).isAddress, (accessOf_dynamicBuffer hdynamic).1] at haddress
      cases haddress
    samplers_dense := fun i e he => by
      obtain ⟨inst, hmem⟩ := List.exists_mem_of_ne_nil _
        (hi.samplers.entry i e (hsamplers ▸ he)).1
      exact ⟨inst, (mem_samplerUses hi hsteps).1 hmem⟩
    buffers_flags := fun i e he => by
      obtain ⟨buffer, image, hget, rfl⟩ := linkImageAliases_get (hbuffers ▸ he)
      obtain ⟨-, hmerged⟩ := hi.buffers.entry i buffer hget
      exact flagsCover_of_any
        (fun p => any_resourceUses hi hsteps (by decide) fun inst => p inst.op)
        hmerged.read hmerged.written hmerged.atomic
    buffers_formatted := fun i e he => by
      obtain ⟨buffer, image, hget, rfl⟩ := linkImageAliases_get (hbuffers ▸ he)
      obtain ⟨-, hmerged⟩ := hi.buffers.entry i buffer hget
      rw [hmerged.formatted]
      exact any_resourceUses hi hsteps (by decide) fun inst => inst.memory.formatted
    images_flags := fun i e he => by
      obtain ⟨-, hmerged⟩ := hi.images.entry i e (himages ▸ he)
      exact flagsCover_of_any
        (fun p => any_resourceUses hi hsteps (by decide) fun inst => p inst.op)
        hmerged.read hmerged.written hmerged.atomic
    addresses_flags := fun i e he => by
      have hmerged := hi.addresses.entry i e (haddresses ▸ he)
      exact flagsCover_of_any (any_addressUses hi hsteps)
        hmerged.read hmerged.written hmerged.atomic }

end Run

section NodeTraversal

/-- A load through a pair of registers. -/
def baseLoad : Instruction where
  pc := 0
  op := .sLoadDword
  memory := { kind := .scalarBuffer, resource := 4, resourceSource := 2 }

/-- A load through the same pair, behind its computation on the GPU. -/
def nodeLoad : Instruction where
  pc := 8
  op := .sLoadDword
  memory := { kind := .scalarBuffer, resource := 4, resourceSource := ScalarProvenance.unknown }

/-- A flat store. -/
def nodeStore : Instruction where
  pc := 16
  op := .flatStoreDword
  memory := { kind := .flat, resource := 8, resourceSource := ScalarProvenance.unknown }

/-- A buffer load of the last dword that has an offset. -/
def lastLoad : Instruction where
  pc := 24
  op := .other 0
  memory := { kind := .buffer, resourceSource := 3, offset := 2 ^ 32 - 4 }

/-- A program that goes through nodes. -/
def nodeTraversal : Program where
  blocks := [[baseLoad, nodeLoad, nodeStore, lastLoad]]
  provenance := {
    values := [{}, { op := .unknown }, { op := .constant }]
    descriptors := [⟨[2, 2], 2⟩, ⟨[2, 2, 2, 2], 4⟩] }

/-- The program behind tracking. -/
def nodeTracked : Program where
  blocks := [[
    { baseLoad with memory := { kind := .scalarBuffer } },
    { nodeLoad with memory := {
        kind := .scalarBuffer, resource := 1, runtimeAddress := true,
        runtimeAddressRegister := 4 } },
    { nodeStore with memory := { kind := .flat, resource := 2 } },
    { lastLoad with memory := { kind := .buffer, offset := 2 ^ 32 - 4 } }]]
  provenance := nodeTraversal.provenance
  info := {
    buffers := [{ source := 3, firstUsePc := 24, maxByteExtent := 2 ^ 32 - 1, read := true }]
    addresses := [
      { source := 2, firstUsePc := 0, kind := .scalarBuffer, baseRegister := 4, minOffset := 0,
        runtimeAddress := false, read := true, written := false, atomic := false },
      { source := 2, firstUsePc := 8, kind := .scalarBuffer, baseRegister := 4, minOffset := 0,
        runtimeAddress := true, read := true, written := false, atomic := false },
      { source := 1, firstUsePc := 16, kind := .flat, baseRegister := 8, minOffset := 0,
        runtimeAddress := false, read := true, written := false, atomic := false }] }
  resourceTrackingComplete := true

theorem trackResources_covers_nodeTraversal : Covers nodeTraversal nodeTracked :=
  trackResources_covers rfl

/-- The second load has the source of the first, the flat store is not taken for a write, and the
last access ends behind the saturated extent. -/
theorem nodeTraversal_not_covered :
    trackResources nodeTraversal = .ok nodeTracked ∧
      (∃ i e, Uses nodeTraversal nodeTracked [.address] i nodeLoad ∧
        nodeTracked.info.addresses[i]? = some e ∧ e.source ≠ nodeLoad.memory.resourceSource) ∧
      (∃ i e, Uses nodeTraversal nodeTracked [.address] i nodeStore ∧
        nodeTracked.info.addresses[i]? = some e ∧ isFlatStore nodeStore.op = true ∧
        e.written = false) ∧
      ∃ i e, Uses nodeTraversal nodeTracked [.buffer] i lastLoad ∧
        nodeTracked.info.buffers[i]? = some e ∧ e.maxByteExtent < lastLoad.accessEnd := by
  refine ⟨rfl, ⟨1, _, ⟨by decide, _, List.mem_of_getElem? (i := 1) rfl, rfl⟩, rfl, by decide⟩,
    ⟨2, _, ⟨by decide, _, List.mem_of_getElem? (i := 2) rfl, rfl⟩, rfl, rfl, rfl⟩,
    ⟨0, _, ⟨by decide, _, List.mem_of_getElem? (i := 3) rfl, rfl⟩, rfl, by decide⟩⟩

end NodeTraversal

end Prosperismo.ResourceTracking
