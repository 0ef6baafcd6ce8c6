import Prosperismo.Base.Except
import Prosperismo.ResourceTracking.Tracker
import Mathlib.Data.Option.Basic

/-!
# What the tables cover

Each table belongs to the log of the instructions that have been given one of its indices
(`KeyedTable.Tracks`), and an entry is what its users have been merged to (`Merged`). One
`collect` keeps this for all tables (`Invariant.collect`), a whole run builds it up from
empty tables, and the theorem about the run reads it off (`trackResources_covers`).
-/

namespace Prosperismo.ResourceTracking

open Prosperismo.Resources (ResourceKind ImageDimension)
open KeyedTable (Tracks usesOf mem_usesOf)

/-! ### What an entry is merged from -/

theorem any_append_singleton {α : Type*} (p : α → Bool) (l : List α) (a : α) :
    (l ++ [a]).any p = (l.any p || p a) := by
  rw [List.any_append, List.any_cons, List.any_nil, Bool.or_false]

theorem forall_mem_append_singleton {α : Type*} {p : α → Prop} {l : List α} {a : α} :
    (∀ x ∈ l ++ [a], p x) ↔ (∀ x ∈ l, p x) ∧ p a := by
  simp only [List.mem_append, List.mem_singleton, or_imp, forall_and, forall_eq]

/-- A buffer is merged from the instructions. -/
structure BufferResource.Merged (buffer : BufferResource) (users : List Instruction) : Prop where
  source : ∀ inst ∈ users, inst.memory.resourceSource = buffer.source
  extent : ∀ inst ∈ users, inst.byteExtent ≤ buffer.maxByteExtent
  read : buffer.read = users.any Instruction.reads
  written : buffer.written = users.any fun inst => isWrite inst.op
  atomic : buffer.atomic = users.any fun inst => isAtomic inst.op
  formatted : buffer.formatted = users.any fun inst => inst.memory.formatted

theorem BufferResource.Merged.merge {buffer : BufferResource} {users : List Instruction}
    (h : buffer.Merged users) {inst : Instruction}
    (hkey : buffer.key = inst.memory.resourceSource) :
    (buffer.merge inst).Merged (users ++ [inst]) where
  source := forall_mem_append_singleton.2 ⟨h.source, hkey.symm⟩
  extent := forall_mem_append_singleton.2
    ⟨fun x hx => (h.extent x hx).trans (le_max_left _ _), le_max_right _ _⟩
  read := by rw [any_append_singleton, ← h.read]; rfl
  written := by rw [any_append_singleton, ← h.written]; rfl
  atomic := by rw [any_append_singleton, ← h.atomic]; rfl
  formatted := by rw [any_append_singleton, ← h.formatted]; rfl

/-- An image is merged from the instructions. -/
structure ImageResource.Merged (image : ImageResource) (users : List Instruction) : Prop where
  source : ∀ inst ∈ users, ImageResource.keyOf inst = image.key
  read : image.read = users.any Instruction.reads
  written : image.written = users.any fun inst => isWrite inst.op
  atomic : image.atomic = users.any fun inst => isAtomic inst.op

theorem ImageResource.Merged.merge {image : ImageResource} {users : List Instruction}
    (h : image.Merged users) {inst : Instruction} (hkey : image.key = ImageResource.keyOf inst) :
    (image.merge inst).Merged (users ++ [inst]) where
  source := forall_mem_append_singleton.2 ⟨h.source, hkey.symm⟩
  read := by rw [any_append_singleton, ← h.read]; rfl
  written := by rw [any_append_singleton, ← h.written]; rfl
  atomic := by rw [any_append_singleton, ← h.atomic]; rfl

/-- The scalar buffer load uses the address without being merged into it. -/
structure AddressResource.ServesBuffer (address : AddressResource) (inst : Instruction) : Prop where
  op : inst.op = .sBufferLoadDword
  kind : address.kind = .scalarBuffer
  register : address.baseRegister = inst.memory.resource * 4 % 2 ^ 32
  runtime : address.runtimeAddress = true

/-- An address is merged from the raw accesses among the instructions, and serves the others. -/
structure AddressResource.Merged (address : AddressResource) (users : List Instruction) : Prop where
  used : ∃ inst ∈ users, inst.isAddress = true
  source : ∀ inst ∈ users, inst.isAddress = true → AddressResource.keyOf inst = address.key
  serves : ∀ inst ∈ users, inst.isAddress = false → address.ServesBuffer inst
  read : address.read = users.any Instruction.reads
  written : address.written = users.any fun inst => isWrite inst.op
  atomic : address.atomic = users.any fun inst => isAtomic inst.op

namespace AddressResource.Merged

variable {address : AddressResource} {users : List Instruction} {inst : Instruction}

theorem merge (h : address.Merged users) (hinst : inst.isAddress = true)
    (hkey : address.key = AddressResource.keyOf inst) :
    (address.merge inst).Merged (users ++ [inst]) where
  used := ⟨inst, by simp, hinst⟩
  source := forall_mem_append_singleton.2 ⟨h.source, fun _ => hkey.symm⟩
  serves := forall_mem_append_singleton.2
    ⟨fun x hx hne => ⟨(h.serves x hx hne).op, (h.serves x hx hne).kind,
      (h.serves x hx hne).register, (h.serves x hx hne).runtime⟩, fun hne => by rw [hinst] at hne; cases hne⟩
  read := by rw [any_append_singleton, ← h.read]; rfl
  written := by rw [any_append_singleton, ← h.written]; rfl
  atomic := by rw [any_append_singleton, ← h.atomic]; rfl

/-- The address of a scalar load is read. -/
theorem read_of_scalar (h : address.Merged users) (hkind : address.kind = .scalarBuffer) :
    address.read = true := by
  obtain ⟨inst, hmem, hinst⟩ := h.used
  have hscalar : inst.memory.kind = .scalarBuffer := by
    rw [← hkind]
    exact congrArg (·.2.1) (h.source inst hmem hinst)
  have hop : inst.op = .sLoadDword := by
    simpa [Instruction.isAddress, hscalar] using hinst
  rw [h.read, List.any_eq_true]
  exact ⟨inst, hmem, by rw [Instruction.reads, hop]; rfl⟩

/-- An address that serves a scalar buffer load needs no flag for it. -/
theorem note (h : address.Merged users) (hinst : inst.isAddress = false)
    (hserves : address.ServesBuffer inst) : address.Merged (users ++ [inst]) where
  used := by
    obtain ⟨x, hx, hax⟩ := h.used
    exact ⟨x, List.mem_append_left _ hx, hax⟩
  source := forall_mem_append_singleton.2 ⟨h.source, fun ha => by rw [hinst] at ha; cases ha⟩
  serves := forall_mem_append_singleton.2 ⟨h.serves, fun _ => hserves⟩
  read := by
    rw [any_append_singleton, ← h.read, h.read_of_scalar hserves.kind, Bool.true_or]
  written := by
    rw [any_append_singleton, ← h.written, hserves.op]
    exact (Bool.or_false _).symm
  atomic := by
    rw [any_append_singleton, ← h.atomic, hserves.op]
    exact (Bool.or_false _).symm

end AddressResource.Merged

/-! ### The logs -/

/-- An instruction, and what `collect` has made of it. -/
abbrev Done := Instruction × Collected

section Uses

variable (program : Program)

/-- The instruction samples an image. -/
def Samples (inst : Instruction) : Prop :=
  (accessOf program inst = .buffer ∨ accessOf program inst = .image) ∧ needsSampler inst.op = true

instance (inst : Instruction) : Decidable (Samples program inst) :=
  inferInstanceAs (Decidable (_ ∧ _))

/-- The use of a buffer or an image. -/
def resourceUse (access : Access) (u : Done) : Option (ℕ × Instruction) :=
  if accessOf program u.1 = access then u.2.patch.map fun patch => (patch.resource, u.1) else none

/-- The use of an address, by the instruction as it has been rewritten. -/
def addressUse (u : Done) : Option (ℕ × Instruction) :=
  if accessOf program u.1 = .address ∨ accessOf program u.1 = .dynamicBuffer then
    u.2.patch.map fun patch => (patch.resource, u.2.inst)
  else none

/-- The use of a sampler. -/
def samplerUse (u : Done) : Option (ℕ × Instruction) :=
  if Samples program u.1 then u.2.patch.map fun patch => (patch.sampler, u.1) else none

/-- The base that the descriptor of the instruction has been read from is that of the source. -/
def IsParent (inst : Instruction) (source : ℕ) : Prop :=
  ∃ descriptor base anchor,
    getDescriptorSource program inst.memory.resourceSource = some descriptor ∧
    descriptor.values.findSome? program.provenance.findMemoryReadBase = some base ∧
    getDescriptorSource program source = some anchor ∧
    anchor.dwords[0]? = some base.1 ∧ anchor.dwords[1]? = some base.2

/-- A scalar load whose base is computed on the GPU. -/
structure Baseless (inst : Instruction) : Prop where
  unbased : unbased program inst = true
  op : inst.op = .sLoadDword
  kind : inst.memory.kind = .scalarBuffer

/-- The instruction has been given the source of an earlier one. -/
structure Reanchored (earlier : Done) (inst rewritten : Instruction) : Prop where
  baseless : Baseless program inst
  access : accessOf program earlier.1 = .address
  kind : earlier.1.memory.kind = .scalarBuffer
  base : earlier.1.memory.resource = inst.memory.resource ∨
    IsParent program inst earlier.2.inst.memory.resourceSource
  rewritten_eq : rewritten = inst.anchored earlier.2.inst.memory.resourceSource

/-- What no call rewrites. -/
structure Kept (inst rewritten : Instruction) : Prop where
  op : rewritten.op = inst.op
  kind : rewritten.memory.kind = inst.memory.kind
  resource : rewritten.memory.resource = inst.memory.resource

theorem Kept.refl (inst : Instruction) : Kept inst inst := ⟨rfl, rfl, rfl⟩

/-- **The tables and the instructions that have been collected belong together.** -/
structure Invariant (info : ShaderInfo) (done : List Done) : Prop where
  buffers : Tracks BufferResource.key (fun e users => users ≠ [] ∧ e.Merged users) info.buffers
    (done.filterMap (resourceUse program .buffer))
  images : Tracks ImageResource.key (fun e users => users ≠ [] ∧ e.Merged users) info.images
    (done.filterMap (resourceUse program .image))
  addresses : Tracks AddressResource.key AddressResource.Merged info.addresses
    (done.filterMap (addressUse program))
  samplers : Tracks SamplerResource.key
    (fun e users => users ≠ [] ∧ ∀ inst ∈ users, inst.memory.samplerSource = e.source) info.samplers
    (done.filterMap (samplerUse program))
  pairs : (info.sampledPairs.map SampledResourcePair.key).Nodup
  paired : ∀ u ∈ done, Samples program u.1 → ∀ patch, u.2.patch = some patch →
    (patch.resource, patch.sampler) ∈ info.sampledPairs.map SampledResourcePair.key
  bases : ∀ pre u post, done = pre ++ u :: post → accessOf program u.1 = .address →
    u.2.inst = u.1 ∨ ∃ earlier ∈ pre, Reanchored program earlier u.1 u.2.inst
  patched : ∀ u ∈ done, accessOf program u.1 ≠ .none → ∃ patch, u.2.patch = some patch
  kept : ∀ u ∈ done, Kept u.1 u.2.inst

theorem Invariant.nil : Invariant program {} [] where
  buffers := .nil _ _
  images := .nil _ _
  addresses := .nil _ _
  samplers := .nil _ _
  pairs := List.nodup_nil
  paired := fun _ hu => absurd hu List.not_mem_nil
  bases := fun pre u post h =>
    absurd h.symm (List.append_ne_nil_of_right_ne_nil pre (List.cons_ne_nil u post))
  patched := fun _ hu => absurd hu List.not_mem_nil
  kept := fun _ hu => absurd hu List.not_mem_nil

end Uses

variable {program : Program} {info info' : ShaderInfo} {inst : Instruction} {collected : Collected}

/-! ### What a call to collect does -/

section Log

variable {D I : Type*} {use : D → Option I} {done : List D} {d : D}

theorem filterMap_concat_none (h : use d = none) :
    (done ++ [d]).filterMap use = done.filterMap use := by
  rw [List.filterMap_append, List.filterMap_cons_none h, List.filterMap_nil, List.append_nil]

theorem filterMap_concat_some {i : I} (h : use d = some i) :
    (done ++ [d]).filterMap use = done.filterMap use ++ [i] := by
  rw [List.filterMap_append, List.filterMap_cons_some h, List.filterMap_nil]

end Log

/-- What holds of every element of a list and the ones before it. -/
theorem forall_split_append_singleton {α : Type*} {p : List α → α → Prop} {l : List α} {a : α} :
    (∀ pre x post, l ++ [a] = pre ++ x :: post → p pre x) ↔
      (∀ pre x post, l = pre ++ x :: post → p pre x) ∧ p l a := by
  constructor
  · refine fun h => ⟨fun pre x post heq => h pre x (post ++ [a]) ?_, h l a [] rfl⟩
    rw [heq, List.append_assoc, List.cons_append]
  · rintro ⟨hl, ha⟩ pre x post heq
    obtain rfl | ⟨last, others, rfl⟩ := post.eq_nil_or_concat'
    · obtain ⟨rfl, hx⟩ := List.append_inj' heq rfl
      obtain rfl := List.singleton_inj.1 hx
      exact ha
    · rw [← List.cons_append, ← List.append_assoc] at heq
      exact hl pre x last (List.append_inj' heq rfl).1

theorem anchorOfRegister_spec {anchor : AddressResource}
    (h : anchorOfRegister info inst = some anchor) :
    anchor ∈ info.addresses ∧ anchor.kind = .scalarBuffer ∧
      anchor.baseRegister = inst.memory.resource := by
  have hmem := List.mem_reverse.1 (List.mem_of_find?_eq_some h)
  have hpred := List.find?_some h
  rw [Bool.and_eq_true, Bool.and_eq_true, decide_eq_true_eq, decide_eq_true_eq] at hpred
  exact ⟨hmem, hpred.1.1, hpred.1.2⟩

theorem anchorOfParent_spec {anchor : AddressResource}
    (h : anchorOfParent program info inst = some anchor) :
    anchor ∈ info.addresses ∧ anchor.kind = .scalarBuffer ∧
      IsParent program inst anchor.source := by
  obtain ⟨descriptor, hdescriptor, h⟩ := Option.bind_eq_some_iff.1 h
  obtain ⟨base, hbase, h⟩ := Option.bind_eq_some_iff.1 h
  have hmem := List.mem_reverse.1 (List.mem_of_find?_eq_some h)
  have hpred := List.find?_some h
  split at hpred
  · cases hpred
  · rename_i source hsource
    simp only [Bool.and_eq_true, decide_eq_true_eq] at hpred
    exact ⟨hmem, hpred.1.1.1, descriptor, base, source, hdescriptor, hbase, hsource, hpred.1.2,
      hpred.2⟩

/-- The base of an address is its own, or that of an address in the table. -/
theorem resolveBase_ok {rewritten : Instruction} {unbased : Bool}
    (h : resolveBase program info inst = .ok (rewritten, unbased)) :
    rewritten = inst ∨ Baseless program inst ∧ ∃ anchor ∈ info.addresses,
      anchor.kind = .scalarBuffer ∧
      (anchor.baseRegister = inst.memory.resource ∨ IsParent program inst anchor.source) ∧
      rewritten = inst.anchored anchor.source := by
  unfold resolveBase at h
  split_ifs at h with hcond
  · rw [Bool.and_eq_true, Bool.and_eq_true, decide_eq_true_eq, decide_eq_true_eq] at hcond
    obtain ⟨⟨hunbased, hop⟩, hkind⟩ := hcond
    split at h
    · rename_i anchor hanchor
      cases h
      refine .inr ⟨⟨hunbased, hop, hkind⟩, anchor, ?_⟩
      obtain hanchor | ⟨-, hanchor⟩ := (Option.orElse_eq_some _ _ _).1 hanchor
      · obtain ⟨hmem, hscalar, hregister⟩ := anchorOfRegister_spec hanchor
        exact ⟨hmem, hscalar, .inl hregister, rfl⟩
      · obtain ⟨hmem, hscalar, hparent⟩ := anchorOfParent_spec hanchor
        exact ⟨hmem, hscalar, .inr hparent, rfl⟩
    · cases h
  · cases h
    exact .inl rfl

/-- `Collect` of a raw address is an addition to the addresses. -/
theorem collectAddress_ok (h : collectAddress program info inst = .ok collected) :
    ∃ rewritten addresses i,
      (rewritten = inst ∨ Baseless program inst ∧ ∃ anchor ∈ info.addresses,
        anchor.kind = .scalarBuffer ∧
        (anchor.baseRegister = inst.memory.resource ∨ IsParent program inst anchor.source) ∧
        rewritten = inst.anchored anchor.source) ∧
      KeyedTable.add AddressResource.key ShaderInfo.maxAddresses (AddressResource.keyOf rewritten)
          (AddressResource.merge rewritten) (AddressResource.fresh rewritten) info.addresses =
        some (addresses, i) ∧
      collected = ⟨{ info with addresses }, rewritten, some ⟨i, 0⟩⟩ := by
  obtain ⟨⟨rewritten, unbased⟩, hbase, h⟩ := bind_ok.1 h
  have hadd : ∃ info' i, AddressResource.addAddress info rewritten = some (info', i) ∧
      collected = ⟨info', rewritten, some ⟨i, 0⟩⟩ := by
    dsimp only at h
    split_ifs at h with hunbased hkind
    · obtain ⟨_, -, h⟩ := bind_ok.1 h
      split at h
      · cases h
      · rename_i info' i hadd
        cases h
        exact ⟨info', i, hadd, rfl⟩
    · obtain ⟨_, h', -⟩ := bind_ok.1 h
      cases h'
    · split at h
      · cases h
      · rename_i info' i hadd
        cases h
        exact ⟨info', i, hadd, rfl⟩
  obtain ⟨info', i, hadd, rfl⟩ := hadd
  obtain ⟨⟨addresses, j⟩, htable, heq⟩ := Option.map_eq_some_iff.1 hadd
  cases heq
  exact ⟨rewritten, addresses, i, resolveBase_ok hbase, htable, rfl⟩

/-- `Collect` of a dynamic scalar buffer load finds an address. -/
theorem collectDynamicBuffer_ok (h : collectDynamicBuffer info inst = .ok collected) :
    ∃ (i : ℕ) (address : AddressResource), info.addresses[i]? = some address ∧
      address.kind = .scalarBuffer ∧ address.baseRegister = inst.memory.resource * 4 % 2 ^ 32 ∧
      address.runtimeAddress = true ∧ collected.info = info ∧ Kept inst collected.inst ∧
      collected.patch = some ⟨i, 0⟩ := by
  unfold collectDynamicBuffer at h
  split at h
  · cases h
  · rename_i i hi
    cases h
    have hpred := List.find?_some hi
    split at hpred
    · cases hpred
    · rename_i address haddress
      simp only [Bool.and_eq_true, decide_eq_true_eq] at hpred
      exact ⟨i, address, haddress, hpred.1.1, hpred.1.2, hpred.2, rfl, ⟨rfl, rfl, rfl⟩, rfl⟩

/-- `Collect` of a sampler is an addition to the samplers and to the pairs. -/
theorem collectSampler_ok {resource sampler : ℕ}
    (h : collectSampler program info inst resource = .ok (info', sampler)) :
    needsSampler inst.op = false ∧ info' = info ∨
      needsSampler inst.op = true ∧ ∃ samplers pairs j,
        KeyedTable.add SamplerResource.key ShaderInfo.maxSamplers inst.memory.samplerSource
            (SamplerResource.merge inst) (SamplerResource.fresh inst) info.samplers =
          some (samplers, sampler) ∧
        KeyedTable.add SampledResourcePair.key ShaderInfo.maxSampledPairs (resource, sampler)
            (SampledResourcePair.merge inst.pc) ⟨resource, sampler, inst.pc⟩ info.sampledPairs =
          some (pairs, j) ∧
        info' = { info with samplers, sampledPairs := pairs } := by
  unfold collectSampler at h
  split_ifs at h with hneeds
  · obtain ⟨_, -, h⟩ := bind_ok.1 h
    split at h
    · cases h
    rename_i info₁ found hadd
    split at h
    · cases h
    rename_i info₂ hpair
    cases h
    obtain ⟨⟨samplers, j⟩, htable, heq⟩ := Option.map_eq_some_iff.1 hadd
    cases heq
    obtain ⟨⟨pairs, j⟩, hpairs, heq⟩ := Option.map_eq_some_iff.1 hpair
    cases heq
    exact .inr ⟨hneeds, samplers, pairs, j, htable, hpairs, rfl⟩
  · cases h
    exact .inl ⟨Bool.eq_false_of_not_eq_true hneeds, rfl⟩

/-- `Collect` of a buffer is an addition to the buffers, and one of its sampler. -/
theorem collectBuffer_ok (h : collectBuffer program info inst = .ok collected) :
    ∃ buffers i sampler,
      KeyedTable.add BufferResource.key ShaderInfo.maxBuffers inst.memory.resourceSource
          (BufferResource.merge inst) (BufferResource.merge inst (BufferResource.blank inst))
          info.buffers = some (buffers, i) ∧
      collectSampler program { info with buffers } inst i = .ok (collected.info, sampler) ∧
      collected.inst = inst ∧ collected.patch = some ⟨i, sampler⟩ := by
  obtain ⟨_, -, h⟩ := bind_ok.1 h
  split at h
  · cases h
  rename_i info₁ i hadd
  obtain ⟨⟨info₂, sampler⟩, hsampler, h⟩ := bind_ok.1 h
  cases h
  obtain ⟨⟨buffers, j⟩, htable, heq⟩ := Option.map_eq_some_iff.1 hadd
  cases heq
  exact ⟨buffers, i, sampler, htable, hsampler, rfl, rfl⟩

/-- `Collect` of an image is an addition to the images, and one of its sampler. -/
theorem collectImage_ok (h : collectImage program info inst = .ok collected) :
    ∃ images i sampler,
      KeyedTable.add ImageResource.key ShaderInfo.maxImages (ImageResource.keyOf inst)
          (ImageResource.merge inst) (ImageResource.merge inst (ImageResource.blank inst))
          info.images = some (images, i) ∧
      collectSampler program { info with images } inst i = .ok (collected.info, sampler) ∧
      collected.inst = inst ∧ collected.patch = some ⟨i, sampler⟩ := by
  obtain ⟨_, -, h⟩ := bind_ok.1 h
  split at h
  · cases h
  rename_i info₁ i hadd
  obtain ⟨⟨info₂, sampler⟩, hsampler, h⟩ := bind_ok.1 h
  cases h
  obtain ⟨⟨images, j⟩, htable, heq⟩ := Option.map_eq_some_iff.1 hadd
  cases heq
  exact ⟨images, i, sampler, htable, hsampler, rfl, rfl⟩

/-! ### One call keeps the invariant -/

theorem accessOf_address (h : accessOf program inst = .address) : inst.isAddress = true := by
  unfold accessOf at h
  split_ifs at h with haddress
  exact haddress

theorem accessOf_dynamicBuffer (h : accessOf program inst = .dynamicBuffer) :
    inst.isAddress = false ∧ inst.op = .sBufferLoadDword ∧ inst.memory.kind = .scalarBuffer := by
  unfold accessOf at h
  split_ifs at h with haddress hdynamic
  exact ⟨Bool.eq_false_of_not_eq_true haddress, hdynamic.1, hdynamic.2.1⟩

/-- Whether an address is used depends on the opcode and the kind only. -/
theorem Kept.isAddress {rewritten : Instruction} (h : Kept inst rewritten) :
    rewritten.isAddress = inst.isAddress := by
  unfold Instruction.isAddress
  rw [h.op, h.kind]

theorem Instruction.kept_anchored (inst : Instruction) (source : ℕ) :
    Kept inst (inst.anchored source) := ⟨rfl, rfl, rfl⟩

theorem not_samples (h : accessOf program inst ≠ .buffer) (h' : accessOf program inst ≠ .image) :
    ¬Samples program inst := by
  rintro ⟨hbuffer | himage, -⟩
  · exact h hbuffer
  · exact h' himage

section Unused

variable (collected)

theorem resourceUse_of_ne {access : Access} (h : accessOf program inst ≠ access) :
    resourceUse program access (inst, collected) = none := if_neg h

theorem addressUse_of_ne (h : accessOf program inst ≠ .address)
    (h' : accessOf program inst ≠ .dynamicBuffer) : addressUse program (inst, collected) = none :=
  if_neg (not_or_intro h h')

theorem samplerUse_of_not (h : ¬Samples program inst) :
    samplerUse program (inst, collected) = none := if_neg h

end Unused

/-- The use of an address is that of an instruction that has been collected. -/
theorem addressUse_eq_some {u : Done} {i : ℕ} (h : addressUse program u = some (i, inst)) :
    (accessOf program u.1 = .address ∨ accessOf program u.1 = .dynamicBuffer) ∧
      (∃ patch, u.2.patch = some patch ∧ patch.resource = i) ∧ u.2.inst = inst := by
  unfold addressUse at h
  split_ifs at h with haccess
  obtain ⟨patch, hpatch, heq⟩ := Option.map_eq_some_iff.1 h
  cases heq
  exact ⟨haccess, ⟨patch, hpatch, rfl⟩, rfl⟩

variable {done : List Done}

namespace Invariant

/-- Every address in the table has been entered by a load that has its source. -/
theorem exists_load (hi : Invariant program info done) {address : AddressResource}
    (hmem : address ∈ info.addresses) :
    ∃ u ∈ done, accessOf program u.1 = .address ∧ AddressResource.keyOf u.2.inst = address.key := by
  obtain ⟨i, hlt, hget⟩ := List.getElem_of_mem hmem
  have hmerged := hi.addresses.entry i address (List.getElem?_eq_some_iff.2 ⟨hlt, hget⟩)
  obtain ⟨inst, hused, haddress⟩ := hmerged.used
  obtain ⟨u, hu, huse⟩ := List.mem_filterMap.1 (mem_usesOf.1 hused)
  obtain ⟨haccess, -, rfl⟩ := addressUse_eq_some huse
  refine ⟨u, hu, haccess.resolve_right fun hdynamic => ?_, hmerged.source _ hused haddress⟩
  rw [(hi.kept u hu).isAddress, (accessOf_dynamicBuffer hdynamic).1] at haddress
  cases haddress

/-- A load that has been given the source of an address has been given that of an earlier load. -/
theorem reanchored (hi : Invariant program info done) (hbaseless : Baseless program inst)
    {anchor : AddressResource} (hmem : anchor ∈ info.addresses)
    (hkind : anchor.kind = .scalarBuffer)
    (hbase : anchor.baseRegister = inst.memory.resource ∨ IsParent program inst anchor.source) :
    ∃ earlier ∈ done, Reanchored program earlier inst (inst.anchored anchor.source) := by
  obtain ⟨u, hu, haccess, heq⟩ := hi.exists_load hmem
  have hsource : u.2.inst.memory.resourceSource = anchor.source := congrArg (·.1) heq
  have hkind' : u.2.inst.memory.kind = anchor.kind := congrArg (·.2.1) heq
  have hregister : u.2.inst.memory.resource = anchor.baseRegister := congrArg (·.2.2.1) heq
  have hkept := hi.kept u hu
  refine ⟨u, hu, ⟨hbaseless, haccess, ?_, ?_, by rw [hsource]⟩⟩
  · rw [← hkept.kind, hkind', hkind]
  · rw [← hkept.resource, hregister, hsource]
    exact hbase

/-- A raw address. -/
theorem address (hi : Invariant program info done) (ha : accessOf program inst = .address)
    (h : collectAddress program info inst = .ok collected) :
    Invariant program collected.info (done ++ [(inst, collected)]) := by
  obtain ⟨rewritten, addresses, i, hbase, hadd, rfl⟩ := collectAddress_ok h
  have hkept : Kept inst rewritten := by
    obtain rfl | ⟨-, anchor, -, -, -, rfl⟩ := hbase
    · exact .refl _
    · exact inst.kept_anchored _
  have hrewritten : rewritten.isAddress = true := hkept.isAddress.trans (accessOf_address ha)
  obtain ⟨hnew, -⟩ := hi.addresses.add (x := rewritten) hadd
    (fun e users he hmerged => hmerged.merge hrewritten he) (fun e he => he)
    { used := ⟨rewritten, by simp, hrewritten⟩
      source := fun x hx _ => by rw [List.mem_singleton.1 hx]; rfl
      serves := fun x hx hne => by
        rw [List.mem_singleton.1 hx, hrewritten] at hne
        cases hne
      read := by simp [AddressResource.fresh]
      written := by simp [AddressResource.fresh]
      atomic := by simp [AddressResource.fresh] } rfl
  have hnot : ¬Samples program inst := not_samples (by simp [ha]) (by simp [ha])
  refine ⟨?_, ?_, ?_, ?_, hi.pairs, ?_, ?_, ?_, forall_mem_append_singleton.2 ⟨hi.kept, hkept⟩⟩
  · rw [filterMap_concat_none (resourceUse_of_ne _ (by simp [ha]))]
    exact hi.buffers
  · rw [filterMap_concat_none (resourceUse_of_ne _ (by simp [ha]))]
    exact hi.images
  · rw [filterMap_concat_some (i := (i, rewritten)) (by rw [addressUse, if_pos (.inl ha)]; rfl)]
    exact hnew
  · rw [filterMap_concat_none (samplerUse_of_not _ hnot)]
    exact hi.samplers
  · exact forall_mem_append_singleton.2 ⟨hi.paired, fun hs => absurd hs hnot⟩
  · refine forall_split_append_singleton.2 ⟨hi.bases, fun _ => hbase.imp_right ?_⟩
    rintro ⟨hbaseless, anchor, hmem, hkind, hregister, rfl⟩
    exact hi.reanchored hbaseless hmem hkind hregister
  · exact forall_mem_append_singleton.2 ⟨hi.patched, fun _ => ⟨_, rfl⟩⟩

/-- A scalar buffer load that uses an address. -/
theorem dynamicBuffer (hi : Invariant program info done)
    (ha : accessOf program inst = .dynamicBuffer)
    (h : collectDynamicBuffer info inst = .ok collected) :
    Invariant program collected.info (done ++ [(inst, collected)]) := by
  obtain ⟨i, address, hget, hkind, hregister, hruntime, hinfo, hkept, hpatch⟩ :=
    collectDynamicBuffer_ok h
  obtain ⟨haddress, hload, hscalar⟩ := accessOf_dynamicBuffer ha
  have hserves : address.ServesBuffer collected.inst :=
    ⟨hkept.op.trans hload, hkind, by rw [hregister, hkept.resource], hruntime⟩
  have hnew := hi.addresses.note (x := collected.inst) hget fun users hmerged =>
    hmerged.note (hkept.isAddress.trans haddress) hserves
  have hnot : ¬Samples program inst := not_samples (by simp [ha]) (by simp [ha])
  rw [hinfo]
  refine ⟨?_, ?_, ?_, ?_, hi.pairs, ?_, ?_, ?_, forall_mem_append_singleton.2 ⟨hi.kept, hkept⟩⟩
  · rw [filterMap_concat_none (resourceUse_of_ne _ (by simp [ha]))]
    exact hi.buffers
  · rw [filterMap_concat_none (resourceUse_of_ne _ (by simp [ha]))]
    exact hi.images
  · rw [filterMap_concat_some (i := (i, collected.inst))
      (by rw [addressUse, if_pos (.inr ha), hpatch]; rfl)]
    exact hnew
  · rw [filterMap_concat_none (samplerUse_of_not _ hnot)]
    exact hi.samplers
  · exact forall_mem_append_singleton.2 ⟨hi.paired, fun hs => absurd hs hnot⟩
  · refine forall_split_append_singleton.2 ⟨hi.bases, fun haddress => ?_⟩
    rw [ha] at haddress
    cases haddress
  · exact forall_mem_append_singleton.2 ⟨hi.patched, fun _ => ⟨_, hpatch⟩⟩

/-- What is left of a call when a buffer or an image has been entered: its sampler. -/
theorem of_sampler (hi : Invariant program info done)
    (ha : accessOf program inst = .buffer ∨ accessOf program inst = .image) {tables : ShaderInfo}
    {i sampler : ℕ}
    (h : collectSampler program tables inst i = .ok (collected.info, sampler))
    (hinst : collected.inst = inst) (hpatch : collected.patch = some ⟨i, sampler⟩)
    (hbuffers : Tracks BufferResource.key (fun e users => users ≠ [] ∧ e.Merged users)
      tables.buffers ((done ++ [(inst, collected)]).filterMap (resourceUse program .buffer)))
    (himages : Tracks ImageResource.key (fun e users => users ≠ [] ∧ e.Merged users) tables.images
      ((done ++ [(inst, collected)]).filterMap (resourceUse program .image)))
    (haddresses : tables.addresses = info.addresses) (hsamplers : tables.samplers = info.samplers)
    (hpairs : tables.sampledPairs = info.sampledPairs) :
    Invariant program collected.info (done ++ [(inst, collected)]) := by
  have hkept : ∀ u ∈ done ++ [(inst, collected)], Kept u.1 u.2.inst :=
    forall_mem_append_singleton.2 ⟨hi.kept, hinst.symm ▸ .refl inst⟩
  have haddress : accessOf program inst ≠ .address := by
    obtain ha | ha := ha <;> simp [ha]
  have hdynamic : accessOf program inst ≠ .dynamicBuffer := by
    obtain ha | ha := ha <;> simp [ha]
  have hbases := (forall_split_append_singleton (a := (inst, collected))).2
    ⟨hi.bases, fun h => absurd h haddress⟩
  have hpatched := (forall_mem_append_singleton (a := (inst, collected))).2
    ⟨hi.patched, fun _ => ⟨_, hpatch⟩⟩
  have hnone := addressUse_of_ne collected haddress hdynamic
  obtain ⟨hneeds, heq⟩ | ⟨hneeds, samplers, pairs, j, hadd, haddPair, heq⟩ := collectSampler_ok h
  · -- nothing is sampled
    have hnot : ¬Samples program inst := fun hs => by
      rw [hs.2] at hneeds
      cases hneeds
    rw [heq]
    refine ⟨hbuffers, himages, ?_, ?_, hpairs ▸ hi.pairs, ?_, hbases, hpatched, hkept⟩
    · rw [filterMap_concat_none hnone, haddresses]
      exact hi.addresses
    · rw [filterMap_concat_none (samplerUse_of_not _ hnot), hsamplers]
      exact hi.samplers
    · rw [hpairs]
      exact forall_mem_append_singleton.2 ⟨hi.paired, fun hs => absurd hs hnot⟩
  · have hs : Samples program inst := ⟨ha, hneeds⟩
    rw [hsamplers] at hadd
    rw [hpairs] at haddPair
    obtain ⟨hnew, -⟩ := hi.samplers.add (x := inst) hadd
      (fun e users he hmerged => ⟨by simp, forall_mem_append_singleton.2 ⟨hmerged.2, he.symm⟩⟩)
      (fun e he => he) ⟨by simp, fun x hx => by rw [List.mem_singleton.1 hx]; rfl⟩ rfl
    obtain ⟨hdistinct, hprefix, hmem⟩ :=
      Tracks.add_distinct hi.pairs haddPair (fun e he => he) rfl
    rw [heq]
    refine ⟨hbuffers, himages, ?_, ?_, hdistinct, ?_, hbases, hpatched, hkept⟩
    · rw [filterMap_concat_none hnone, haddresses]
      exact hi.addresses
    · rw [filterMap_concat_some (i := (sampler, inst))
        (by rw [samplerUse, if_pos hs, hpatch]; rfl)]
      exact hnew
    · refine forall_mem_append_singleton.2
        ⟨fun u hu hs patch hp => hprefix.subset (hi.paired u hu hs patch hp), fun _ patch hp => ?_⟩
      obtain rfl := Option.some_inj.1 (hpatch.symm.trans hp)
      exact hmem

/-- A buffer. -/
theorem buffer (hi : Invariant program info done) (ha : accessOf program inst = .buffer)
    (h : collectBuffer program info inst = .ok collected) :
    Invariant program collected.info (done ++ [(inst, collected)]) := by
  obtain ⟨buffers, i, sampler, hadd, hsampler, hinst, hpatch⟩ := collectBuffer_ok h
  have hblank : (BufferResource.blank inst).Merged [] := {
    source := fun _ hx => absurd hx List.not_mem_nil
    extent := fun _ hx => absurd hx List.not_mem_nil
    read := rfl
    written := rfl
    atomic := rfl
    formatted := rfl }
  have hfresh : ((BufferResource.blank inst).merge inst).Merged [inst] := hblank.merge rfl
  obtain ⟨hnew, -⟩ := hi.buffers.add (x := inst) hadd
    (fun e users he hmerged => ⟨by simp, hmerged.2.merge he⟩) (fun e he => he)
    ⟨List.cons_ne_nil _ _, hfresh⟩ rfl
  refine of_sampler hi (.inl ha) hsampler hinst hpatch ?_ ?_ rfl rfl rfl
  · rw [filterMap_concat_some (i := (i, inst)) (by rw [resourceUse, if_pos ha, hpatch]; rfl)]
    exact hnew
  · rw [filterMap_concat_none (resourceUse_of_ne _ (by simp [ha]))]
    exact hi.images

/-- An image. -/
theorem image (hi : Invariant program info done) (ha : accessOf program inst = .image)
    (h : collectImage program info inst = .ok collected) :
    Invariant program collected.info (done ++ [(inst, collected)]) := by
  obtain ⟨images, i, sampler, hadd, hsampler, hinst, hpatch⟩ := collectImage_ok h
  have hblank : (ImageResource.blank inst).Merged [] := {
    source := fun _ hx => absurd hx List.not_mem_nil
    read := rfl
    written := rfl
    atomic := rfl }
  have hfresh : ((ImageResource.blank inst).merge inst).Merged [inst] := hblank.merge rfl
  obtain ⟨hnew, -⟩ := hi.images.add (x := inst) hadd
    (fun e users he hmerged => ⟨by simp, hmerged.2.merge he⟩) (fun e he => he)
    ⟨List.cons_ne_nil _ _, hfresh⟩ rfl
  refine of_sampler hi (.inr ha) hsampler hinst hpatch ?_ ?_ rfl rfl rfl
  · rw [filterMap_concat_none (resourceUse_of_ne _ (by simp [ha]))]
    exact hi.buffers
  · rw [filterMap_concat_some (i := (i, inst)) (by rw [resourceUse, if_pos ha, hpatch]; rfl)]
    exact hnew

/-- An instruction that accesses no resource. -/
theorem none (hi : Invariant program info done) (ha : accessOf program inst = .none) :
    Invariant program info (done ++ [(inst, ⟨info, inst, .none⟩)]) := by
  have hnot : ¬Samples program inst := not_samples (by simp [ha]) (by simp [ha])
  refine ⟨?_, ?_, ?_, ?_, hi.pairs, ?_, ?_, ?_,
    forall_mem_append_singleton.2 ⟨hi.kept, .refl inst⟩⟩
  · rw [filterMap_concat_none (resourceUse_of_ne _ (by simp [ha]))]
    exact hi.buffers
  · rw [filterMap_concat_none (resourceUse_of_ne _ (by simp [ha]))]
    exact hi.images
  · rw [filterMap_concat_none (addressUse_of_ne _ (by simp [ha]) (by simp [ha]))]
    exact hi.addresses
  · rw [filterMap_concat_none (samplerUse_of_not _ hnot)]
    exact hi.samplers
  · exact forall_mem_append_singleton.2 ⟨hi.paired, fun hs => absurd hs hnot⟩
  · refine forall_split_append_singleton.2 ⟨hi.bases, fun haddress => ?_⟩
    rw [ha] at haddress
    cases haddress
  · exact forall_mem_append_singleton.2 ⟨hi.patched, fun h => absurd ha h⟩

/-- **Step.** A call keeps the tables and the instructions together. -/
theorem collect (hi : Invariant program info done)
    (h : ResourceTracking.collect program info inst = .ok collected) :
    Invariant program collected.info (done ++ [(inst, collected)]) := by
  unfold ResourceTracking.collect at h
  split at h
  · rename_i ha
    exact hi.address ha h
  · rename_i ha
    exact hi.dynamicBuffer ha h
  · rename_i ha
    exact hi.buffer ha h
  · rename_i ha
    exact hi.image ha h
  · rename_i ha
    cases h
    exact hi.none ha

/-- **Run**, over a block. -/
theorem collectInstructions {block : List Instruction} {collecteds : List Collected}
    (hi : Invariant program info done)
    (h : ResourceTracking.collectInstructions program info block = .ok (info', collecteds)) :
    collecteds.length = block.length ∧ Invariant program info' (done ++ block.zip collecteds) := by
  induction block generalizing info done collecteds with
  | nil =>
    cases h
    exact ⟨rfl, by rwa [List.zip_nil_left, List.append_nil]⟩
  | cons inst rest ih =>
    obtain ⟨collected, hcollected, h⟩ := bind_ok.1 h
    obtain ⟨⟨last, others⟩, hrest, h⟩ := bind_ok.1 h
    cases h
    obtain ⟨hlen, hinv⟩ := ih (hi.collect hcollected) hrest
    rw [List.append_assoc] at hinv
    exact ⟨congrArg Nat.succ hlen, hinv⟩

/-- **Run**, over the blocks. -/
theorem collectBlocks {blocks : List (List Instruction)} {collecteds : List (List Collected)}
    (hi : Invariant program info done)
    (h : ResourceTracking.collectBlocks program info blocks = .ok (info', collecteds)) :
    collecteds.map List.length = blocks.map List.length ∧
      Invariant program info' (done ++ blocks.flatten.zip collecteds.flatten) := by
  induction blocks generalizing info done collecteds with
  | nil =>
    cases h
    exact ⟨rfl, by rwa [List.flatten_nil, List.zip_nil_left, List.append_nil]⟩
  | cons block rest ih =>
    obtain ⟨⟨middle, collected⟩, hcollected, h⟩ := bind_ok.1 h
    obtain ⟨⟨last, others⟩, hrest, h⟩ := bind_ok.1 h
    cases h
    obtain ⟨hlen, hinv⟩ := hi.collectInstructions hcollected
    obtain ⟨hlens, hinv⟩ := ih hinv hrest
    rw [List.append_assoc, ← List.zip_append hlen.symm, ← List.flatten_cons, ← List.flatten_cons]
      at hinv
    exact ⟨by rw [List.map_cons, List.map_cons, hlen, hlens], hinv⟩

end Invariant

end Prosperismo.ResourceTracking
