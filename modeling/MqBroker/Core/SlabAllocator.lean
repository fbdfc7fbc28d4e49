import MqBroker.Lib.Runs
import Mathlib.Logic.Function.Basic

/-!
# The Slab Allocator

`SlabAllocator` hands out blocks of nine sizes, from 16 to 4096 bytes. Each size
has a bucket with a free list and the pools its blocks are cut from. A block comes
from the free list, from the last pool or from a new one.

A block is named by its bucket, its pool and its offset in the pool. The free list
is threaded through the free blocks themselves: `next` is the first word of every
block, which belongs to the program while the block is allocated.

Whether the system has memory for a new pool is part of the event. The calls here
are those of the owner thread. `live` is not a field of the source: it records the
blocks that are allocated, with the sizes they were asked for.

## Main definitions

* `MemoryPool.allocate`: Cutting a piece off a pool.
* `SlabAllocator.sizeClassIndex`: The bucket for a size.
* `SlabAllocator.allocate`, `SlabAllocator.deallocate`: The two calls.
* `SlabAllocator.exec`: What a call or a write of the program does.
-/

namespace MqBroker

/-! ## Memory pools -/

/-- `MemoryPool`: how large it is and how much of it has been cut off. -/
structure MemoryPool where
  capacityBytes : UInt64
  usedBytes : UInt64

namespace MemoryPool

/-- The constructor. It throws for no capacity, and if there is no memory. -/
def create (capacityBytes : UInt64) (memory : Bool) : Option MemoryPool :=
  if capacityBytes = 0 ∨ memory = false then none else some ⟨capacityBytes, 0⟩

/-- `Allocate` on the owner thread: the offset of the piece, if there is room. -/
def allocate (pool : MemoryPool) (size alignment : UInt64) : Option (UInt64 × MemoryPool) :=
  if size = 0 ∨ alignment = 0 ∨ alignment &&& (alignment - 1) ≠ 0 then none
  else
    let remainder := pool.usedBytes &&& (alignment - 1)
    let padding := if remainder = 0 then 0 else alignment - remainder
    if padding > pool.capacityBytes - pool.usedBytes ∨
        size > pool.capacityBytes - pool.usedBytes - padding then none
    else
      some (pool.usedBytes + padding, { pool with usedBytes := pool.usedBytes + (padding + size) })

end MemoryPool

/-! ## Slab allocator -/

/-- A block: where it was cut off. -/
structure SlabBlock where
  bucket : Nat
  pool : Nat
  offset : UInt64
deriving DecidableEq

/-- `SlabAllocator::Bucket`. The blocks it counts lie in one address space, so their
    number does not overflow. -/
structure Bucket where
  freeList : Option SlabBlock
  pools : List MemoryPool
  blockSize : UInt64
  nextPoolCapacity : UInt64
  freeCount : Nat

/-- `SlabAllocator`. -/
structure SlabAllocator where
  /-- The array of buckets, one for each of the nine size classes. -/
  buckets : Nat → Bucket
  totalAllocated : UInt64
  /-- The first word of every block, read as the link of a free node. -/
  next : SlabBlock → Option SlabBlock
  /-- The blocks that are allocated, with the sizes they were asked for. -/
  live : List (SlabBlock × UInt64)

/-- What `Allocate` returns. -/
inductive Allocation
  | block (block : SlabBlock)
  /-- Memory from `malloc`, for sizes above the largest class. -/
  | malloc
  | null
  /-- No pool could be created, and the constructor's exception passes on. -/
  | thrown

/-- What happens to the allocator. `memory` says whether there is memory for a new
    pool, and for a smaller one if the first is too small for a block. -/
inductive SlabEvent
  | allocate (size : UInt64) (memory : Bool × Bool)
  | deallocate (block : SlabBlock) (size : UInt64)
  /-- The program writes the first word of a block. -/
  | write (block : SlabBlock) (word : Option SlabBlock)

namespace SlabAllocator

def numSizeClasses : Nat := 9

def minSizeClass : UInt64 := 16

def maxSizeClass : UInt64 := 4096

/-- `alignof(std::max_align_t)`. -/
def maxAlign : UInt64 := 16

/-- `SizeClassBytes`. -/
def sizeClassBytes (index : Nat) : UInt64 := minSizeClass <<< UInt64.ofNat index

/-- The loop of `SizeClassIndex` that doubles `aligned` until it reaches the size. -/
def alignUp : Nat → UInt64 → UInt64 → UInt64
  | 0, aligned, _ => aligned
  | fuel + 1, aligned, size =>
      if aligned < size then alignUp fuel (aligned <<< 1) size else aligned

/-- The loop of `SizeClassIndex` that counts the halvings of `temp` down to 1. -/
def countHalvings : Nat → UInt64 → Nat → Nat
  | 0, _, index => index
  | fuel + 1, temp, index => if temp > 1 then countHalvings fuel (temp >>> 1) (index + 1) else index

/-- `SizeClassIndex`. -/
def sizeClassIndex (size : UInt64) : Nat :=
  if size = 0 then 0
  else if size > maxSizeClass then numSizeClasses
  else countHalvings 64 (alignUp 64 minSizeClass size / minSizeClass) 0

/-- The constructor, which throws for no capacity. -/
def create (initialCapacityPerClass : UInt64) : Option SlabAllocator :=
  if initialCapacityPerClass = 0 then none
  else some
    { buckets := fun index =>
        { freeList := none
          pools := []
          blockSize := sizeClassBytes index
          nextPoolCapacity := max initialCapacityPerClass (sizeClassBytes index * 64)
          freeCount := 0 }
      totalAllocated := 0
      next := fun _ => none
      live := [] }

def setBucket (s : SlabAllocator) (index : Nat) (bucket : Bucket) : SlabAllocator :=
  { s with buckets := Function.update s.buckets index bucket }

/-- A block from the last pool of a bucket. -/
def allocateLast (bucket : Bucket) : Option (UInt64 × List MemoryPool) :=
  match bucket.pools.getLast? with
  | none => none
  | some pool =>
      match pool.allocate bucket.blockSize maxAlign with
      | none => none
      | some (offset, pool) => some (offset, bucket.pools.dropLast ++ [pool])

/-- A new pool with its first block. If a pool of the next capacity is too small for
    a block, one for 64 blocks takes its place. -/
def newPool (bucket : Bucket) (memory : Bool × Bool) : Except Allocation (UInt64 × MemoryPool) :=
  match MemoryPool.create bucket.nextPoolCapacity memory.1 with
  | none => .error .thrown
  | some pool =>
      match pool.allocate bucket.blockSize maxAlign with
      | some piece => .ok piece
      | none =>
          match MemoryPool.create (bucket.blockSize * 64) memory.2 with
          | none => .error .thrown
          | some pool =>
              match pool.allocate bucket.blockSize maxAlign with
              | some piece => .ok piece
              | none => .error .null

/-- `AllocateFromBucket`. -/
def allocateFromBucket (s : SlabAllocator) (index : Nat) (memory : Bool × Bool) :
    SlabAllocator × Allocation :=
  let bucket := s.buckets index
  match bucket.freeList with
  | some node =>
      -- The first word of the node is the head of the rest.
      (s.setBucket index
        { bucket with freeList := s.next node, freeCount := bucket.freeCount - 1 }, .block node)
  | none =>
      match allocateLast bucket with
      | some (offset, pools) =>
          -- What is left in the pools before the last one is not used again.
          (s.setBucket index { bucket with pools := pools },
            .block ⟨index, bucket.pools.length - 1, offset⟩)
      | none =>
          match newPool bucket memory with
          | .error result => (s, result)
          | .ok (offset, pool) =>
              ({ s with totalAllocated := s.totalAllocated + pool.capacityBytes }.setBucket index
                { bucket with
                  pools := bucket.pools ++ [pool]
                  nextPoolCapacity := bucket.nextPoolCapacity * 2 },
                .block ⟨index, bucket.pools.length, offset⟩)

/-- `Allocate`. -/
def allocate (s : SlabAllocator) (size : UInt64) (memory : Bool × Bool) :
    SlabAllocator × Allocation :=
  if size = 0 then (s, .null)
  else if size > maxSizeClass then (s, .malloc)
  else s.allocateFromBucket (sizeClassIndex size) memory

/-- `Deallocate`, for a pointer that is not null. -/
def deallocate (s : SlabAllocator) (block : SlabBlock) (size : UInt64) : SlabAllocator :=
  if size = 0 then s
  else if size > maxSizeClass then s
  else
    let index := sizeClassIndex size
    let bucket := s.buckets index
    { s with next := Function.update s.next block bucket.freeList }.setBucket index
      { bucket with freeList := some block, freeCount := bucket.freeCount + 1 }

/-- What an event does. -/
def exec (s : SlabAllocator) : SlabEvent → SlabAllocator
  | .allocate size memory =>
      match s.allocate size memory with
      | (s', .block block) => { s' with live := (block, size) :: s'.live }
      | (s', _) => s'
  | .deallocate block size =>
      { s.deallocate block size with live := s.live.erase (block, size) }
  | .write block word => { s with next := Function.update s.next block word }

end SlabAllocator

end MqBroker
