import Mathlib.Logic.Function.Basic
import Prosperismo.Base.Run
import Prosperismo.Base.Sorted

/-!
# The index of page owners

`MultiRangePageOwnerIndex` of the texture cache says which images have bytes in a range of guest
memory. An owner registers with a list of byte ranges. The index keeps the ranges, sorted and
without overlaps, and the owner is a member of every page that the ranges touch: of coarse pages
of 1 MiB, which a query looks through, and of tracking pages of 4 KiB, which say when the last
owner of a page is gone.

A membership is a pointer to the registration, a node of a `std::list`. A node is a number here;
the node of a new registration is any that no registration has, so one that was freed may come
back. What the index does not use of an owner is left to a type `τ` with equality.

`none` stands for the end of the program where `GetOrCreate` is given a page outside of the
address space.
-/

namespace Prosperismo.PageOwnerIndex

/-! ### `MultiLevelPageTable` -/

/-- `kAddressSpaceSize`, with 40 for `AddressSpaceBits`. -/
def addressSpaceSize : ℕ := 0x10000000000

/-- The address of a registration. -/
abbrev Node := ℕ

/-- A `MultiLevelPageTable` of membership lists, for pages of `pageSize pageBits` bytes. Both
tables of the index have buckets of 1024 entries. -/
structure MultiLevelPageTable (pageBits : ℕ) where
  firstLevel : ℕ → Option (ℕ → List Node)

/-- `kBucketEntries`. -/
def bucketEntries : ℕ := 1024

/-- The size of a page. -/
def pageSize (pageBits : ℕ) : ℕ := 1 <<< pageBits

/-- `IsValidPage`. -/
def isValidPage (pageBits page : ℕ) : Bool := decide (page < addressSpaceSize / pageSize pageBits)

namespace MultiLevelPageTable

variable {pageBits : ℕ}

/-- A table without buckets. -/
def empty : MultiLevelPageTable pageBits := ⟨fun _ => none⟩

/-- `Find`. -/
def find (table : MultiLevelPageTable pageBits) (page : ℕ) : Option (List Node) :=
  if isValidPage pageBits page then
    (table.firstLevel (page / bucketEntries)).map fun bucket => bucket (page % bucketEntries)
  else none

/-- Write the entry of a page that is in a bucket. -/
def write (table : MultiLevelPageTable pageBits) (bucket : ℕ → List Node) (page : ℕ)
    (members : List Node) : MultiLevelPageTable pageBits :=
  ⟨Function.update table.firstLevel (page / bucketEntries)
    (some (Function.update bucket (page % bucketEntries) members))⟩

/-- `GetOrCreate` and `push_back`. -/
def pushBack (table : MultiLevelPageTable pageBits) (page : ℕ) (node : Node) :
    Option (MultiLevelPageTable pageBits) :=
  if isValidPage pageBits page then
    let bucket := (table.firstLevel (page / bucketEntries)).getD fun _ => []
    some (table.write bucket page (bucket (page % bucketEntries) ++ [node]))
  else none

/-- `EraseExact` on the entry of a page. -/
def eraseExact (table : MultiLevelPageTable pageBits) (page : ℕ) (node : Node) :
    MultiLevelPageTable pageBits :=
  match table.firstLevel (page / bucketEntries) with
  | none => table
  | some bucket => table.write bucket page ((bucket (page % bucketEntries)).erase node)

/-- The loops of `Register`. -/
def pushAll (table : MultiLevelPageTable pageBits) (node : Node) :
    List ℕ → Option (MultiLevelPageTable pageBits)
  | [] => some table
  | page :: pages => (table.pushBack page node).bind fun table => table.pushAll node pages

/-- `HasAllMemberships`. -/
def hasAllMemberships (table : MultiLevelPageTable pageBits) (pages : List ℕ) (node : Node) :
    Bool :=
  pages.all fun page => (table.find page).any fun owners => owners.contains node

/-- The loops of `Unregister`, with the pages whose only member is erased. -/
def eraseAll (table : MultiLevelPageTable pageBits) (node : Node) :
    List ℕ → MultiLevelPageTable pageBits × List ℕ
  | [] => (table, [])
  | page :: pages =>
    let owners := (table.find page).getD []
    let (table', finalPages) := (table.eraseExact page node).eraseAll node pages
    (table', if owners.length = 1 then page :: finalPages else finalPages)

end MultiLevelPageTable

/-- `TryGetPageRange`: the first page and the one behind the last. -/
def tryGetPageRange (pageBits address size : ℕ) : Option (ℕ × ℕ) :=
  if size = 0 ∨ addressSpaceSize ≤ address ∨ addressSpaceSize - address < size then none
  else some (address / pageSize pageBits, (address + size - 1) / pageSize pageBits + 1)

/-! ### Ranges -/

/-- `ByteRange`. -/
structure ByteRange where
  address : ℕ
  size : ℕ
  deriving DecidableEq

/-- A range as an interval. -/
def extent : Extent ByteRange ℕ := ⟨ByteRange.address, fun range => range.address + range.size⟩

/-- A range that begins with `left` and ends with the later of both. -/
def join (left right : ByteRange) : ByteRange :=
  ⟨left.address, max (left.address + left.size) (right.address + right.size) - left.address⟩

/-- `Normalize`. The order that `std::sort` gives to ranges with one address is not seen, as they
are joined. -/
def normalize (ranges : List ByteRange) : List ByteRange :=
  if ranges.all fun range => (tryGetPageRange 20 range.address range.size).isSome then
    Extent.joinAll extent join
      (ranges.insertionSort fun left right => left.address ≤ right.address)
  else []

/-- `CollectPages`. -/
def collectPages (pageBits : ℕ) (ranges : List ByteRange) : List ℕ :=
  dropRepeats ((ranges.flatMap fun range =>
    let first := range.address / pageSize pageBits
    let last := (range.address + range.size - 1) / pageSize pageBits
    List.range' first (last + 1 - first)).insertionSort (· ≤ ·))

/-- `Overlaps`. -/
def overlaps (ranges : List ByteRange) (address size : ℕ) : Bool :=
  ranges.any fun range =>
    decide (range.address < address + size ∧ address < range.address + range.size)

/-- The loop of `CoalesceTrackingPages`, from the last range of the result on. -/
def coalesceFrom (last : ByteRange) : List ℕ → List ByteRange
  | [] => [last]
  | page :: pages =>
    let address := page * pageSize 12
    if last.address + last.size = address then
      coalesceFrom ⟨last.address, last.size + pageSize 12⟩ pages
    else last :: coalesceFrom ⟨address, pageSize 12⟩ pages

/-- `CoalesceTrackingPages`. -/
def coalesceTrackingPages : List ℕ → List ByteRange
  | [] => []
  | page :: pages => coalesceFrom ⟨page * pageSize 12, pageSize 12⟩ pages

/-! ### The index -/

section Index

variable {τ : Type*} [DecidableEq τ]

/-- `Registration`. -/
structure Registration (τ : Type*) where
  owner : τ
  ranges : List ByteRange

/-- A `MultiRangePageOwnerIndex`. -/
structure Index (τ : Type*) where
  coarsePages : MultiLevelPageTable 20
  trackingPages : MultiLevelPageTable 12
  registrations : List (Node × Registration τ)

/-- An index without owners. -/
def Index.new : Index τ := ⟨.empty, .empty, []⟩

namespace Index

/-- `FindRegistration`. -/
def findRegistration (index : Index τ) (owner : τ) : Option (Node × Registration τ) :=
  index.registrations.find? fun item => item.2.owner = owner

/-- `Register`, with the node of the new registration. -/
def register (index : Index τ) (node : Node) (owner : τ) (ranges : List ByteRange) :
    Option (Index τ × Bool) :=
  if (index.findRegistration owner).isSome then some (index, false)
  else
    let normalized := normalize ranges
    if normalized.isEmpty then some (index, false)
    else
      (index.coarsePages.pushAll node (collectPages 20 normalized)).bind fun coarsePages =>
        (index.trackingPages.pushAll node (collectPages 12 normalized)).map fun trackingPages =>
          (⟨coarsePages, trackingPages, index.registrations ++ [(node, ⟨owner, normalized⟩)]⟩, true)

/-- `Unregister`: the index, what it returns, and `final_releases`. -/
def unregister (index : Index τ) (owner : τ) : Index τ × Bool × List ByteRange :=
  match index.findRegistration owner with
  | none => (index, false, [])
  | some (node, registration) =>
    let coarsePages := collectPages 20 registration.ranges
    let trackingPages := collectPages 12 registration.ranges
    if index.coarsePages.hasAllMemberships coarsePages node ∧
        index.trackingPages.hasAllMemberships trackingPages node then
      let (coarse, _) := index.coarsePages.eraseAll node coarsePages
      let (tracking, finalPages) := index.trackingPages.eraseAll node trackingPages
      (⟨coarse, tracking, index.registrations.filter fun item => item.1 ≠ node⟩, true,
        coalesceTrackingPages finalPages)
    else (index, false, [])

/-- `AppendUnique`. -/
def appendUnique (destination source : List Node) : List Node :=
  source.foldl (fun destination node =>
    if destination.contains node then destination else destination ++ [node]) destination

/-- The candidates of a query, from the members of its coarse pages. -/
def candidates (index : Index τ) (first count : ℕ) : List Node :=
  (List.range' first count).foldl (fun candidates page =>
    appendUnique candidates ((index.coarsePages.find page).getD [])) []

/-- `HasTrackingMembership`. -/
def hasTrackingMembership (index : Index τ) (node : Node) (range : ℕ × ℕ) : Bool :=
  (List.range' range.1 (range.2 - range.1)).any fun page =>
    (index.trackingPages.find page).any fun owners => owners.contains node

/-- What a candidate points to. -/
def registration (index : Index τ) (node : Node) : Option (Registration τ) :=
  (index.registrations.find? fun item => item.1 = node).map Prod.snd

/-- `QueryImpl`; the two page ranges are there for the same addresses. -/
def queryImpl (index : Index τ) (address size : ℕ) (strictBytes : Bool) (predicate : τ → Bool) :
    List τ :=
  match tryGetPageRange 20 address size, tryGetPageRange 12 address size with
  | some coarseRange, some trackingRange =>
    (index.candidates coarseRange.1 (coarseRange.2 - coarseRange.1)).filterMap fun node =>
      (index.registration node).bind fun registration =>
        if (if strictBytes then overlaps registration.ranges address size
            else index.hasTrackingMembership node trackingRange) ∧
          predicate registration.owner then some registration.owner
        else none
  | _, _ => []

/-- `Query`. -/
def query (index : Index τ) (address size : ℕ) (predicate : τ → Bool) : List τ :=
  index.queryImpl address size true predicate

/-- `QueryCandidates`. -/
def queryCandidates (index : Index τ) (address size : ℕ) (predicate : τ → Bool) : List τ :=
  index.queryImpl address size false predicate

end Index

end Index

end Prosperismo.PageOwnerIndex
