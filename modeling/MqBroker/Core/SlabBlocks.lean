import MqBroker.Core.SlabAllocator
import MqBroker.Core.MpmcQueue
import MqBroker.Lib.FreeList

/-!
# Slab Blocks Do Not Overlap

Every block the allocator knows of was cut off one of its pools, and in the pools
of one bucket all blocks have one size and start at multiples of it. So two blocks
with different names have no byte in common, and what is left is to see that the
allocated blocks have different names.

A block is allocated or in the free list of its bucket, never both and never twice.
A block from a free list leaves it. A block from a pool starts where everything
that was cut off before ends. A block that comes back goes to the bucket it came
from, since both are found from the same size.

## Main definitions

* `SlabBlock.Apart`: Two blocks have no byte in common.
* `SlabAllocator.Separate`: What the users of the blocks rely on.
* `SlabAllocator.Inv`: What holds between the calls.

## Theorems

* `SlabAllocator.sizeClassIndex_spec`: The class of a size.
* `SlabAllocator.Inv.exec`: One call.
* `SlabAllocator.always_separate`: All runs.
-/

namespace MqBroker

/-- How many bytes a block has. -/
def SlabBlock.extent (block : SlabBlock) : Nat := (SlabAllocator.sizeClassBytes block.bucket).toNat

/-- Two blocks have no byte in common. -/
def SlabBlock.Apart (block block' : SlabBlock) : Prop :=
  block.bucket ≠ block'.bucket ∨ block.pool ≠ block'.pool ∨
    block.offset.toNat + block.extent ≤ block'.offset.toNat ∨
    block'.offset.toNat + block'.extent ≤ block.offset.toNat

namespace SlabAllocator

/-- The pool a block was cut off. -/
def poolOf (buckets : Nat → Bucket) (block : SlabBlock) : Option MemoryPool :=
  (buckets block.bucket).pools[block.pool]?

/-- What the users of the blocks rely on, and what the counters say. -/
structure Separate (s : SlabAllocator) : Prop where
  inside : ∀ block size, (block, size) ∈ s.live → ∃ pool, poolOf s.buckets block = some pool ∧
    block.offset.toNat + block.extent ≤ pool.capacityBytes.toNat
  aligned : ∀ block size, (block, size) ∈ s.live → block.offset.toNat % 16 = 0
  large : ∀ block size, (block, size) ∈ s.live → size.toNat ≤ block.extent
  apart : (s.live.map Prod.fst).Pairwise SlabBlock.Apart
  counted : ∀ index < numSizeClasses, ∃ blocks,
    Threaded s.next (s.buckets index).freeList blocks ∧ (s.buckets index).freeCount = blocks.length

/-- The program gives back only what it has, with the size it asked for, and writes
    only to blocks it has. -/
def Matching (s : SlabAllocator) : SlabEvent → Prop
  | .allocate _ _ => True
  | .deallocate block size => (block, size) ∈ s.live
  | .write block _ => ∃ size, (block, size) ∈ s.live

/-! ## Size classes -/

theorem sizeClassBytes_toNat {index : Nat} (h : index < numSizeClasses) :
    (sizeClassBytes index).toNat = 16 * 2 ^ index := by
  have hcases : ∀ i : Fin 9, (sizeClassBytes i.val).toNat = 16 * 2 ^ i.val := by decide
  exact hcases ⟨index, h⟩

/-- Doubling stops at the first class that is large enough. -/
theorem alignUp_toNat {size : UInt64} (hsize : size.toNat ≤ 4096) (fuel : Nat) {k : Nat}
    {aligned : UInt64} (hk : k < numSizeClasses) (hfuel : numSizeClasses ≤ fuel + k)
    (haligned : aligned.toNat = 16 * 2 ^ k) :
    ∃ j < numSizeClasses, (alignUp fuel aligned size).toNat = 16 * 2 ^ j ∧
      size.toNat ≤ 16 * 2 ^ j := by
  induction fuel generalizing k aligned with
  | zero => exact absurd hfuel (by omega)
  | succ fuel ih =>
      rw [alignUp]
      by_cases hlt : aligned < size
      · rw [if_pos hlt]
        rw [UInt64.lt_iff_toNat_lt, haligned] at hlt
        -- The largest class is large enough for every size.
        have hk8 : k + 1 < numSizeClasses := by
          by_contra hlast
          obtain rfl : k = 8 := by simp only [numSizeClasses] at hk hlast; omega
          omega
        have hle : 2 ^ k ≤ 2 ^ 8 := Nat.pow_le_pow_right (by omega) (by
          simp only [numSizeClasses] at hk; omega)
        refine ih hk8 (by omega) ?_
        rw [UInt64.toNat_shiftLeft, haligned, Nat.shiftLeft_eq]
        simp only [UInt64.reduceToNat, Nat.reduceMod, pow_one]
        rw [Nat.mod_eq_of_lt (by omega), pow_succ, mul_assoc]
      · rw [if_neg hlt]
        rw [UInt64.lt_iff_toNat_lt, haligned, not_lt] at hlt
        exact ⟨k, hk, haligned, hlt⟩

/-- The halvings of a power of two. -/
theorem countHalvings_two_pow (fuel : Nat) {j index : Nat} {temp : UInt64} (hfuel : j ≤ fuel)
    (htemp : temp.toNat = 2 ^ j) : countHalvings fuel temp index = index + j := by
  induction fuel generalizing j index temp with
  | zero =>
      obtain rfl : j = 0 := by omega
      rfl
  | succ fuel ih =>
      rw [countHalvings]
      have hone : (1 : UInt64).toNat = 1 := rfl
      cases j with
      | zero =>
          rw [if_neg (by rw [gt_iff_lt, UInt64.lt_iff_toNat_lt, htemp, hone, pow_zero]; omega)]
          rfl
      | succ j =>
          have hpos := Nat.two_pow_pos j
          rw [if_pos (by rw [gt_iff_lt, UInt64.lt_iff_toNat_lt, htemp, hone, pow_succ]; omega),
            @ih j (index + 1) _ (by omega) ?_]
          · omega
          · rw [UInt64.toNat_shiftRight, htemp, Nat.shiftRight_eq_div_pow]
            simp only [UInt64.reduceToNat, Nat.reduceMod, pow_one]
            rw [pow_succ, Nat.mul_div_cancel _ (by omega)]

/-- The class of a size is one of the nine, and its blocks are large enough. -/
theorem sizeClassIndex_spec {size : UInt64} (hpos : size ≠ 0) (hle : ¬size > maxSizeClass) :
    sizeClassIndex size < numSizeClasses ∧
      size.toNat ≤ (sizeClassBytes (sizeClassIndex size)).toNat := by
  have hsize : size.toNat ≤ 4096 := by
    rw [gt_iff_lt, UInt64.lt_iff_toNat_lt, not_lt] at hle
    exact hle
  obtain ⟨j, hj, haligned, hlarge⟩ :=
    @alignUp_toNat size hsize 64 0 minSizeClass (by decide) (by decide) rfl
  have htemp : (alignUp 64 minSizeClass size / minSizeClass).toNat = 2 ^ j := by
    rw [UInt64.toNat_div, haligned]
    exact Nat.mul_div_cancel_left _ (by decide)
  have hindex : sizeClassIndex size = j := by
    rw [sizeClassIndex, if_neg hpos, if_neg hle,
      countHalvings_two_pow 64 (by simp only [numSizeClasses] at hj; omega) htemp, Nat.zero_add]
  rw [hindex, sizeClassBytes_toNat hj]
  exact ⟨hj, hlarge⟩

/-! ## Cutting -/

/-- A pool that has been cut into blocks of one size. -/
def CutInto (extent : Nat) (pool : MemoryPool) : Prop :=
  extent ∣ pool.usedBytes.toNat ∧ pool.usedBytes.toNat ≤ pool.capacityBytes.toNat

/-- A block is cut off right behind the others. No padding is needed, since all
    sizes are multiples of the alignment. -/
theorem allocate_spec {pool pool' : MemoryPool} {index : Nat} {offset : UInt64}
    (hindex : index < numSizeClasses) (hpool : CutInto (sizeClassBytes index).toNat pool)
    (h : pool.allocate (sizeClassBytes index) maxAlign = some (offset, pool')) :
    offset = pool.usedBytes ∧ CutInto (sizeClassBytes index).toNat pool' ∧
      pool'.usedBytes.toNat = pool.usedBytes.toNat + (sizeClassBytes index).toNat := by
  obtain ⟨⟨count, hcount⟩, hle⟩ := hpool
  have hextent := sizeClassBytes_toNat hindex
  have hremainder : pool.usedBytes &&& (maxAlign - 1) = 0 := by
    apply UInt64.toNat_inj.mp
    rw [@and_mask_toNat maxAlign 4 (by decide), hcount, hextent, Nat.mul_assoc]
    exact Nat.mul_mod_right 16 _
  rw [MemoryPool.allocate] at h
  split at h
  · exact nomatch h
  simp only [hremainder, if_true, UInt64.sub_zero, UInt64.zero_add, UInt64.add_zero] at h
  split at h
  · exact nomatch h
  rename_i hroom
  rw [not_or] at hroom
  obtain ⟨-, hroom⟩ := hroom
  -- The piece fits into what is left, so the sum does not wrap.
  rw [gt_iff_lt, UInt64.lt_iff_toNat_lt, UInt64.toNat_sub_of_le _ _
    (UInt64.le_iff_toNat_le.mpr hle), not_lt] at hroom
  have hcap := pool.capacityBytes.toNat_lt
  rw [Option.some.injEq, Prod.mk.injEq] at h
  obtain ⟨hoffset, hpool'⟩ := h
  have hused : pool'.usedBytes.toNat = pool.usedBytes.toNat + (sizeClassBytes index).toNat := by
    rw [← hpool', UInt64.toNat_add]
    exact Nat.mod_eq_of_lt (by omega)
  have hcapacity : pool'.capacityBytes = pool.capacityBytes := by rw [← hpool']
  refine ⟨?_, ⟨?_, ?_⟩, hused⟩
  · exact hoffset.symm
  · rw [hused, hcount]
    exact Nat.dvd_add (Nat.dvd_mul_right _ _) (Nat.dvd_refl _)
  · rw [hused, hcapacity]
    omega

/-- The pools of a bucket after a block was cut off the one at `place`: no pool has
    shrunk, the block is behind everything that was used and in front of what is
    unused. -/
structure Cut (extent : Nat) (pools pools' : List MemoryPool) (place : Nat) (offset : UInt64) :
    Prop where
  grown : ∀ (i : Nat) (pool : MemoryPool), pools[i]? = some pool →
    ∃ pool' : MemoryPool, pools'[i]? = some pool' ∧ pool.usedBytes.toNat ≤ pool'.usedBytes.toNat
  fresh : ∀ pool : MemoryPool, pools[place]? = some pool → pool.usedBytes.toNat ≤ offset.toNat
  used : ∃ pool' : MemoryPool, pools'[place]? = some pool' ∧
    offset.toNat + extent ≤ pool'.usedBytes.toNat
  multiple : extent ∣ offset.toNat
  sound : ∀ pool' ∈ pools', CutInto extent pool'

/-- A block from the last pool. -/
theorem allocateLast_cut {bucket : Bucket} {pools' : List MemoryPool} {index : Nat}
    {offset : UInt64} (hindex : index < numSizeClasses)
    (hsize : bucket.blockSize = sizeClassBytes index)
    (hpools : ∀ pool ∈ bucket.pools, CutInto (sizeClassBytes index).toNat pool)
    (h : allocateLast bucket = some (offset, pools')) :
    Cut (sizeClassBytes index).toNat bucket.pools pools' (bucket.pools.length - 1) offset := by
  rw [allocateLast] at h
  cases hlast : bucket.pools.getLast? with
  | none =>
      rw [hlast] at h
      exact nomatch h
  | some pool =>
      rw [hlast] at h
      obtain ⟨front, hfront⟩ := List.getLast?_eq_some_iff.mp hlast
      simp only [hsize] at h
      cases hallocate : pool.allocate (sizeClassBytes index) maxAlign with
      | none =>
          rw [hallocate] at h
          exact nomatch h
      | some piece =>
          obtain ⟨start, pool'⟩ := piece
          rw [hallocate, hfront, List.dropLast_concat] at h
          obtain ⟨rfl, rfl⟩ := Prod.mk.inj (Option.some.inj h)
          have hpool : CutInto (sizeClassBytes index).toNat pool :=
            hpools pool (hfront ▸ List.mem_append_right _ (List.mem_singleton.mpr rfl))
          obtain ⟨rfl, hpool', hused⟩ := allocate_spec hindex hpool hallocate
          have hplace : (front ++ [pool]).length - 1 = front.length := by
            rw [List.length_append, List.length_singleton, Nat.add_sub_cancel]
          rw [hfront, hplace]
          refine ⟨?_, ?_, ?_, hpool.1, ?_⟩
          · intro i other hi
            -- Only the last pool has changed.
            rcases Nat.lt_or_ge i front.length with hlt | hge
            · rw [List.getElem?_append_left hlt] at hi ⊢
              exact ⟨other, hi, Nat.le_refl _⟩
            · have hilt : i < (front ++ [pool]).length := (List.getElem?_eq_some_iff.mp hi).1
              rw [List.length_append, List.length_singleton] at hilt
              obtain rfl : i = front.length := by omega
              rw [List.getElem?_concat_length] at hi ⊢
              obtain rfl := Option.some.inj hi
              exact ⟨pool', rfl, by omega⟩
          · intro other hother
            rw [List.getElem?_concat_length] at hother
            rw [Option.some.inj hother]
          · exact ⟨pool', List.getElem?_concat_length, Nat.le_of_eq hused.symm⟩
          · intro other hother
            rcases List.mem_append.mp hother with hother | hother
            · exact hpools other (hfront ▸ List.mem_append_left _ hother)
            · rw [List.mem_singleton.mp hother]
              exact hpool'

/-- The first block of a pool starts at its beginning. -/
theorem allocate_create {capacity : UInt64} {memory : Bool} {pool pool' : MemoryPool}
    {index : Nat} {offset : UInt64} (hindex : index < numSizeClasses)
    (hcreate : MemoryPool.create capacity memory = some pool)
    (h : pool.allocate (sizeClassBytes index) maxAlign = some (offset, pool')) :
    offset = 0 ∧ CutInto (sizeClassBytes index).toNat pool' ∧
      pool'.usedBytes.toNat = (sizeClassBytes index).toNat := by
  rw [MemoryPool.create] at hcreate
  split_ifs at hcreate
  obtain rfl := Option.some.inj hcreate
  have hempty : CutInto (sizeClassBytes index).toNat ⟨capacity, 0⟩ :=
    ⟨Nat.dvd_zero _, Nat.zero_le _⟩
  obtain ⟨hoffset, hpool', hused⟩ := allocate_spec hindex hempty h
  exact ⟨hoffset, hpool', hused.trans (Nat.zero_add _)⟩

/-- A new pool comes with its first block, whichever of the two it is, or the exception
    passes on, or there is no block. -/
theorem newPool_cases (bucket : Bucket) (memory : Bool × Bool) :
    newPool bucket memory = .error .thrown ∨ newPool bucket memory = .error .null ∨
      ∃ capacity memory' pool piece, MemoryPool.create capacity memory' = some pool ∧
        pool.allocate bucket.blockSize maxAlign = some piece ∧
        newPool bucket memory = .ok piece := by
  rw [newPool]
  cases hcreate : MemoryPool.create bucket.nextPoolCapacity memory.1 with
  | none => exact .inl rfl
  | some first =>
      simp only
      cases hfirst : first.allocate bucket.blockSize maxAlign with
      | some piece => exact .inr (.inr ⟨_, _, first, piece, hcreate, hfirst, rfl⟩)
      | none =>
          simp only
          cases hagain : MemoryPool.create (bucket.blockSize * 64) memory.2 with
          | none => exact .inl rfl
          | some second =>
              simp only
              cases hsecond : second.allocate bucket.blockSize maxAlign with
              | some piece => exact .inr (.inr ⟨_, _, second, piece, hagain, hsecond, rfl⟩)
              | none => exact .inr (.inl rfl)

theorem newPool_error {bucket : Bucket} {memory : Bool × Bool} {result : Allocation}
    (h : newPool bucket memory = .error result) : result = .thrown ∨ result = .null := by
  rcases newPool_cases bucket memory with hnew | hnew | ⟨_, _, _, _, -, -, hnew⟩
  · exact .inl (Except.error.inj (h.symm.trans hnew))
  · exact .inr (Except.error.inj (h.symm.trans hnew))
  · exact nomatch h.symm.trans hnew

theorem newPool_cut {bucket : Bucket} {memory : Bool × Bool} {pool : MemoryPool} {index : Nat}
    {offset : UInt64} (hindex : index < numSizeClasses)
    (hsize : bucket.blockSize = sizeClassBytes index)
    (hpools : ∀ pool ∈ bucket.pools, CutInto (sizeClassBytes index).toNat pool)
    (h : newPool bucket memory = .ok (offset, pool)) :
    Cut (sizeClassBytes index).toNat bucket.pools (bucket.pools ++ [pool])
      bucket.pools.length offset := by
  obtain ⟨rfl, hpool, hused⟩ : offset = 0 ∧ CutInto (sizeClassBytes index).toNat pool ∧
      pool.usedBytes.toNat = (sizeClassBytes index).toNat := by
    rcases newPool_cases bucket memory with hnew | hnew | ⟨_, _, _, _, hcreate, hallocate, hnew⟩
    · exact nomatch h.symm.trans hnew
    · exact nomatch h.symm.trans hnew
    · obtain rfl := Except.ok.inj (h.symm.trans hnew)
      rw [hsize] at hallocate
      exact allocate_create hindex hcreate hallocate
  refine ⟨?_, ?_, ?_, Nat.dvd_zero _, ?_⟩
  · intro i other hi
    have hlt : i < bucket.pools.length := (List.getElem?_eq_some_iff.mp hi).1
    rw [List.getElem?_append_left hlt]
    exact ⟨other, hi, Nat.le_refl _⟩
  · intro other hother
    rw [List.getElem?_eq_none (Nat.le_refl _)] at hother
    exact nomatch hother
  · exact ⟨pool, List.getElem?_concat_length, Nat.le_of_eq ((Nat.zero_add _).trans hused.symm)⟩
  · intro other hother
    rcases List.mem_append.mp hother with hother | hother
    · exact hpools other hother
    · rw [List.mem_singleton.mp hother]
      exact hpool

/-! ## Blocks -/

/-- A block that was cut off one of the pools. -/
structure Carved (buckets : Nat → Bucket) (block : SlabBlock) : Prop where
  bucket_lt : block.bucket < numSizeClasses
  multiple : block.extent ∣ block.offset.toNat
  used : ∃ pool, poolOf buckets block = some pool ∧
    block.offset.toNat + block.extent ≤ pool.usedBytes.toNat

/-- Blocks that were cut off the pools have no byte in common. -/
theorem Carved.apart {buckets : Nat → Bucket} {block block' : SlabBlock} (h : Carved buckets block)
    (h' : Carved buckets block') (hne : block ≠ block') : block.Apart block' := by
  by_cases hbucket : block.bucket = block'.bucket
  · by_cases hpool : block.pool = block'.pool
    · -- In one pool the starts are different multiples of one size.
      have hextent : block.extent = block'.extent := by
        rw [SlabBlock.extent, SlabBlock.extent, hbucket]
      have hoffset : block.offset.toNat ≠ block'.offset.toNat := by
        intro heq
        apply hne
        cases block
        cases block'
        rw [SlabBlock.mk.injEq]
        exact ⟨hbucket, hpool, UInt64.toNat_inj.mp heq⟩
      obtain ⟨m, hm⟩ := h.multiple
      obtain ⟨n, hn⟩ := h'.multiple
      rw [← hextent] at hn
      refine .inr (.inr ?_)
      rw [← hextent, hm, hn, ← Nat.mul_succ, ← Nat.mul_succ]
      rcases Nat.lt_trichotomy m n with hlt | heq | hlt
      · exact .inl (Nat.mul_le_mul_left _ hlt)
      · exact absurd (by rw [hm, hn, heq]) hoffset
      · exact .inr (Nat.mul_le_mul_left _ hlt)
    · exact .inr (.inl hpool)
  · exact .inl hbucket

/-- Pools that only grow keep the blocks that were cut off them. -/
theorem Carved.grow {buckets : Nat → Bucket} {block : SlabBlock} (h : Carved buckets block)
    {index : Nat} {bucket : Bucket} (hgrown : ∀ (i : Nat) (pool : MemoryPool),
      (buckets index).pools[i]? = some pool → ∃ pool' : MemoryPool,
        bucket.pools[i]? = some pool' ∧ pool.usedBytes.toNat ≤ pool'.usedBytes.toNat) :
    Carved (Function.update buckets index bucket) block := by
  refine ⟨h.bucket_lt, h.multiple, ?_⟩
  obtain ⟨pool, hpool, hused⟩ := h.used
  rw [poolOf] at hpool ⊢
  by_cases hindex : block.bucket = index
  · rw [hindex] at hpool ⊢
    rw [Function.update_self]
    obtain ⟨pool', hpool', hle⟩ := hgrown _ _ hpool
    exact ⟨pool', hpool', hused.trans hle⟩
  · rw [Function.update_of_ne hindex]
    exact ⟨pool, hpool, hused⟩

theorem Carved.of_pools {buckets : Nat → Bucket} {block : SlabBlock} (h : Carved buckets block)
    {index : Nat} {bucket : Bucket} (hpools : bucket.pools = (buckets index).pools) :
    Carved (Function.update buckets index bucket) block :=
  h.grow fun _ pool hpool => ⟨pool, hpools ▸ hpool, Nat.le_refl _⟩

/-- What holds of one bucket between the calls, where `free` are its free blocks. -/
structure BucketInv (next : SlabBlock → Option SlabBlock) (index : Nat) (bucket : Bucket)
    (free : List SlabBlock) : Prop where
  blockSize : bucket.blockSize = sizeClassBytes index
  pools : ∀ pool ∈ bucket.pools, CutInto (sizeClassBytes index).toNat pool
  threaded : Threaded next bucket.freeList free
  counted : bucket.freeCount = free.length
  nodup : free.Nodup
  home : ∀ block ∈ free, block.bucket = index

/-- What holds between the calls, where `free` are the free blocks of each bucket. -/
structure Inv (s : SlabAllocator) (free : Nat → List SlabBlock) : Prop where
  bucket : ∀ index, BucketInv s.next index (s.buckets index) (free index)
  free_carved : ∀ index, ∀ block ∈ free index, Carved s.buckets block
  live_nodup : (s.live.map Prod.fst).Nodup
  live_carved : ∀ block size, (block, size) ∈ s.live → Carved s.buckets block ∧
    size ≠ 0 ∧ ¬size > maxSizeClass ∧ block.bucket = sizeClassIndex size
  live_not_free : ∀ block ∈ s.live.map Prod.fst, ∀ index, block ∉ free index

theorem Inv.separate {s : SlabAllocator} {free : Nat → List SlabBlock} (h : s.Inv free) :
    s.Separate where
  inside := by
    intro block size hlive
    obtain ⟨pool, hpool, hused⟩ := (h.live_carved block size hlive).1.used
    have hle := ((h.bucket block.bucket).pools pool (List.mem_of_getElem? hpool)).2
    exact ⟨pool, hpool, hused.trans hle⟩
  aligned := by
    intro block size hlive
    have hcarved := (h.live_carved block size hlive).1
    apply Nat.mod_eq_zero_of_dvd
    refine Nat.dvd_trans ?_ hcarved.multiple
    rw [SlabBlock.extent, sizeClassBytes_toNat hcarved.bucket_lt]
    exact Nat.dvd_mul_right _ _
  large := by
    intro block size hlive
    obtain ⟨-, hpos, hle, hbucket⟩ := h.live_carved block size hlive
    rw [SlabBlock.extent, hbucket]
    exact (sizeClassIndex_spec hpos hle).2
  apart := by
    refine List.Pairwise.imp_of_mem ?_ h.live_nodup
    intro block block' hblock hblock' hne
    obtain ⟨⟨_, size⟩, hlive, rfl⟩ := List.mem_map.mp hblock
    obtain ⟨⟨_, size'⟩, hlive', rfl⟩ := List.mem_map.mp hblock'
    exact (h.live_carved _ size hlive).1.apart (h.live_carved _ size' hlive').1 hne
  counted := fun index _ => ⟨free index, (h.bucket index).threaded, (h.bucket index).counted⟩

/-! ## Calls -/

/-- The constructor leaves nothing free and nothing allocated. -/
theorem Inv.create {initialCapacityPerClass : UInt64} {s : SlabAllocator}
    (h : create initialCapacityPerClass = some s) : s.Inv (fun _ => []) := by
  rw [SlabAllocator.create] at h
  split_ifs at h
  obtain rfl := Option.some.inj h
  refine ⟨fun index => ⟨rfl, ?_, rfl, rfl, List.nodup_nil, ?_⟩, ?_, List.nodup_nil, ?_, ?_⟩
  · exact fun pool hpool => nomatch hpool
  · exact fun block hblock => nomatch hblock
  · exact fun index block hblock => nomatch hblock
  · exact fun block size hlive => nomatch hlive
  · exact fun block hlive => nomatch hlive

variable {s : SlabAllocator} {free : Nat → List SlabBlock}

/-- What holds of every bucket holds after one of them was replaced. -/
theorem forall_update {P : Nat → Bucket → List SlabBlock → Prop} {buckets : Nat → Bucket}
    {index : Nat} {bucket : Bucket} {rest : List SlabBlock}
    (h : ∀ i, i ≠ index → P i (buckets i) (free i)) (hnew : P index bucket rest) (i : Nat) :
    P i (Function.update buckets index bucket i) (Function.update free index rest i) := by
  by_cases hi : i = index
  · subst hi
    rw [Function.update_self, Function.update_self]
    exact hnew
  · rw [Function.update_of_ne hi, Function.update_of_ne hi]
    exact h i hi

/-- Writing a block that is not free leaves the free lists alone. -/
theorem BucketInv.write {next : SlabBlock → Option SlabBlock} {index : Nat} {bucket : Bucket}
    {blocks : List SlabBlock} (h : BucketInv next index bucket blocks) {block : SlabBlock}
    (hblock : block ∉ blocks) (word : Option SlabBlock) :
    BucketInv (Function.update next block word) index bucket blocks :=
  { h with threaded := h.threaded.frame hblock word }

theorem Inv.write (h : s.Inv free) {block : SlabBlock} (hlive : block ∈ s.live.map Prod.fst)
    (word : Option SlabBlock) : { s with next := Function.update s.next block word }.Inv free :=
  { h with bucket := fun index => (h.bucket index).write (h.live_not_free block hlive index) word }

/-- A block from the free list. -/
theorem Inv.pop (h : s.Inv free) {index : Nat} {node : SlabBlock} {size : UInt64}
    (hhead : (s.buckets index).freeList = some node) (hpos : size ≠ 0)
    (hle : ¬size > maxSizeClass) (hindex : sizeClassIndex size = index) :
    ∃ free', ({ s.setBucket index { s.buckets index with
          freeList := s.next node
          freeCount := (s.buckets index).freeCount - 1 } with
        live := (node, size) :: s.live } : SlabAllocator).Inv free' := by
  have hbucket := h.bucket index
  obtain ⟨rest, hfree, hrest⟩ := (hhead ▸ hbucket.threaded).pop
  rw [hfree] at hbucket
  have hnode : node ∈ free index := hfree ▸ List.mem_cons_self
  obtain ⟨hfirst, hnodup⟩ := List.nodup_cons.mp hbucket.nodup
  -- The other buckets keep their free lists, and this one loses its first block.
  have hsub : ∀ i, ∀ block ∈ Function.update free index rest i, block ∈ free i ∧ block ≠ node := by
    intro i block hblock
    by_cases hi : i = index
    · subst hi
      rw [Function.update_self] at hblock
      exact ⟨hfree ▸ List.mem_cons_of_mem _ hblock, fun heq => hfirst (heq ▸ hblock)⟩
    · rw [Function.update_of_ne hi] at hblock
      refine ⟨hblock, fun heq => hi ?_⟩
      rw [← (h.bucket i).home block hblock, heq, (h.bucket index).home node hnode]
  refine ⟨Function.update free index rest, ?_⟩
  constructor
  case bucket =>
      refine forall_update (fun i _ => h.bucket i)
        ⟨hbucket.blockSize, hbucket.pools, hrest, ?_, hnodup, ?_⟩
      · rw [hbucket.counted, List.length_cons, Nat.add_sub_cancel]
      · exact fun block hblock => hbucket.home block (List.mem_cons_of_mem _ hblock)
  case free_carved =>
      exact fun i block hblock => (h.free_carved i block (hsub i block hblock).1).of_pools rfl
  case live_nodup =>
      rw [List.map_cons, List.nodup_cons]
      exact ⟨fun hlive => h.live_not_free node hlive index hnode, h.live_nodup⟩
  case live_carved =>
      intro block size' hlive
      rcases List.mem_cons.mp hlive with heq | hlive
      · obtain ⟨rfl, rfl⟩ := Prod.mk.inj heq
        have hhome := (h.bucket index).home block hnode
        exact ⟨(h.free_carved index block hnode).of_pools rfl, hpos, hle, hhome.trans hindex.symm⟩
      · obtain ⟨hcarved, hrest⟩ := h.live_carved block size' hlive
        exact ⟨hcarved.of_pools rfl, hrest⟩
  case live_not_free =>
      intro block hlive i hblock
      obtain ⟨hfree, hne⟩ := hsub i block hblock
      rw [List.map_cons, List.mem_cons] at hlive
      rcases hlive with heq | hlive
      · exact hne heq
      · exact h.live_not_free block hlive i hfree

/-- A block that was cut off a pool just now. No block from before starts where it
    does, since those end before. -/
theorem Inv.carve (h : s.Inv free) {index place : Nat} {offset size total : UInt64}
    {bucket : Bucket} (hfreeList : bucket.freeList = (s.buckets index).freeList)
    (hcount : bucket.freeCount = (s.buckets index).freeCount)
    (hblockSize : bucket.blockSize = (s.buckets index).blockSize)
    (hcut : Cut (sizeClassBytes index).toNat (s.buckets index).pools bucket.pools place offset)
    (hpos : size ≠ 0) (hle : ¬size > maxSizeClass) (hindex : sizeClassIndex size = index) :
    ∃ free', ({ s.setBucket index bucket with
        totalAllocated := total
        live := (⟨index, place, offset⟩, size) :: s.live } : SlabAllocator).Inv free' := by
  have hbucket := h.bucket index
  have hlt := (sizeClassIndex_spec hpos hle).1
  rw [hindex] at hlt
  have hfresh : ¬Carved s.buckets ⟨index, place, offset⟩ := by
    intro hcarved
    obtain ⟨pool, hpool, hused⟩ := hcarved.used
    have hbefore := hcut.fresh pool hpool
    have hextent := sizeClassBytes_toNat hlt
    have hpos := Nat.two_pow_pos index
    simp only [SlabBlock.extent] at hused
    omega
  have hgrow : ∀ block, Carved s.buckets block →
      Carved (Function.update s.buckets index bucket) block :=
    fun block hcarved => hcarved.grow hcut.grown
  refine ⟨Function.update free index (free index), ?_⟩
  constructor
  case bucket =>
      refine forall_update (fun i _ => h.bucket i) ⟨?_, hcut.sound, ?_, ?_, hbucket.nodup,
        hbucket.home⟩
      · rw [hblockSize]
        exact hbucket.blockSize
      · rw [hfreeList]
        exact hbucket.threaded
      · rw [hcount]
        exact hbucket.counted
  case free_carved =>
      rw [Function.update_eq_self]
      exact fun i block hblock => hgrow block (h.free_carved i block hblock)
  case live_nodup =>
      rw [List.map_cons, List.nodup_cons]
      refine ⟨fun hlive => ?_, h.live_nodup⟩
      obtain ⟨⟨block, size'⟩, hmem, rfl⟩ := List.mem_map.mp hlive
      exact hfresh (h.live_carved _ size' hmem).1
  case live_carved =>
      intro block size' hlive
      rcases List.mem_cons.mp hlive with heq | hlive
      · obtain ⟨rfl, rfl⟩ := Prod.mk.inj heq
        refine ⟨⟨hlt, hcut.multiple, ?_⟩, hpos, hle, hindex.symm⟩
        obtain ⟨pool', hpool', hused⟩ := hcut.used
        refine ⟨pool', ?_, hused⟩
        simp only [poolOf, setBucket, Function.update_self]
        exact hpool'
      · obtain ⟨hcarved, hrest⟩ := h.live_carved block size' hlive
        exact ⟨hgrow block hcarved, hrest⟩
  case live_not_free =>
      rw [Function.update_eq_self]
      intro block hlive i hblock
      rw [List.map_cons, List.mem_cons] at hlive
      rcases hlive with rfl | hlive
      · exact hfresh (h.free_carved i _ hblock)
      · exact h.live_not_free block hlive i hblock

/-- A block that comes back. Its size leads to the bucket it came from. -/
theorem Inv.deallocate (h : s.Inv free) {block : SlabBlock} {size : UInt64}
    (hlive : (block, size) ∈ s.live) :
    ∃ free', ({ s.deallocate block size with
      live := s.live.erase (block, size) } : SlabAllocator).Inv free' := by
  obtain ⟨hcarved, hpos, hle, hhome⟩ := h.live_carved block size hlive
  have hmem : block ∈ s.live.map Prod.fst := List.mem_map.mpr ⟨_, hlive, rfl⟩
  have hfree : ∀ i, block ∉ free i := h.live_not_free block hmem
  have hperm := List.perm_cons_erase hlive
  have hnodup := ((hperm.map Prod.fst).nodup_iff).mp h.live_nodup
  rw [List.map_cons, List.nodup_cons] at hnodup
  obtain ⟨hgone, hnodup⟩ := hnodup
  have hbucket := h.bucket (sizeClassIndex size)
  refine ⟨Function.update free (sizeClassIndex size) (block :: free (sizeClassIndex size)), ?_⟩
  rw [SlabAllocator.deallocate, if_neg hpos, if_neg hle]
  have hsub : ∀ i, ∀ other ∈ Function.update free (sizeClassIndex size)
      (block :: free (sizeClassIndex size)) i, other = block ∨ other ∈ free i := by
    intro i other hother
    by_cases hi : i = sizeClassIndex size
    · rw [hi, Function.update_self] at hother
      rw [hi]
      exact List.mem_cons.mp hother
    · rw [Function.update_of_ne hi] at hother
      exact .inr hother
  constructor
  case bucket =>
      refine forall_update (fun i _ => (h.bucket i).write (hfree i) _) ?_
      refine ⟨hbucket.blockSize, hbucket.pools, hbucket.threaded.push (hfree _), ?_, ?_, ?_⟩
      · simp only [hbucket.counted, List.length_cons]
      · exact List.nodup_cons.mpr ⟨hfree _, hbucket.nodup⟩
      · intro other hother
        rcases List.mem_cons.mp hother with rfl | hother
        · exact hhome
        · exact hbucket.home other hother
  case free_carved =>
      intro i other hother
      rcases hsub i other hother with rfl | hother
      · exact hcarved.of_pools rfl
      · exact (h.free_carved i other hother).of_pools rfl
  case live_nodup => exact hnodup
  case live_carved =>
      intro other size' hother
      obtain ⟨hcarved, hrest⟩ := h.live_carved other size' (List.mem_of_mem_erase hother)
      exact ⟨hcarved.of_pools rfl, hrest⟩
  case live_not_free =>
      intro other hother i hin
      rcases hsub i other hin with rfl | hin
      · exact hgone hother
      · refine h.live_not_free other ?_ i hin
        exact ((hperm.map Prod.fst).mem_iff).mpr (List.mem_cons_of_mem _ hother)

/-- An allocation. What comes back is from the free list, the last pool or a new
    one, or it is no block and nothing happened. -/
theorem Inv.allocate (h : s.Inv free) (size : UInt64) (memory : Bool × Bool) :
    ∃ free', (s.exec (.allocate size memory)).Inv free' := by
  rw [exec, SlabAllocator.allocate]
  by_cases hpos : size = 0
  · rw [if_pos hpos]
    exact ⟨free, h⟩
  by_cases hle : size > maxSizeClass
  · rw [if_neg hpos, if_pos hle]
    exact ⟨free, h⟩
  rw [if_neg hpos, if_neg hle]
  obtain ⟨index, hindex⟩ : ∃ index, sizeClassIndex size = index := ⟨_, rfl⟩
  have hlt := (sizeClassIndex_spec hpos hle).1
  rw [hindex] at hlt ⊢
  have hbucket := h.bucket index
  simp only [allocateFromBucket]
  cases hhead : (s.buckets index).freeList with
  | some node => exact h.pop hhead hpos hle hindex
  | none =>
      cases hlast : allocateLast (s.buckets index) with
      | some piece =>
          exact h.carve hhead.symm rfl rfl
            (allocateLast_cut hlt hbucket.blockSize hbucket.pools hlast) hpos hle hindex
      | none =>
          cases hnew : newPool (s.buckets index) memory with
          | ok piece =>
              exact h.carve hhead.symm rfl rfl
                (newPool_cut hlt hbucket.blockSize hbucket.pools hnew) hpos hle hindex
          | error result =>
              rcases newPool_error hnew with rfl | rfl
              · exact ⟨free, h⟩
              · exact ⟨free, h⟩

/-- One call of a program that gives back only what it has. -/
theorem Inv.exec (h : s.Inv free) {event : SlabEvent} (hmatching : s.Matching event) :
    ∃ free', (s.exec event).Inv free' := by
  cases event with
  | allocate size memory => exact h.allocate size memory
  | deallocate block size => exact h.deallocate hmatching
  | write block word =>
      obtain ⟨size, hlive⟩ := hmatching
      exact ⟨free, h.write (List.mem_map.mpr ⟨_, hlive, rfl⟩) word⟩

/-- In every run of a program that gives back only what it has, the allocated blocks
    lie in their pools, are aligned and large enough, and have no byte in common, and
    every bucket counts its free blocks. -/
theorem always_separate {initialCapacityPerClass : UInt64} {s : SlabAllocator}
    (hcreate : SlabAllocator.create initialCapacityPerClass = some s) (events : List SlabEvent)
    (hmatching : Along SlabAllocator.exec Matching s events) :
    Always SlabAllocator.exec Separate s events := by
  have hstart : ∃ free, s.Inv free := ⟨_, Inv.create hcreate⟩
  have hrun : Always SlabAllocator.exec (fun s => ∃ free, s.Inv free) s events := by
    refine Always.of_along ?_ hstart hmatching
    rintro s event ⟨free, h⟩ hmatching
    exact h.exec hmatching
  refine hrun.mono ?_
  rintro s ⟨free, h⟩
  exact h.separate

/-- Two blocks of one class, of which one is given back after the program wrote to
    it, and is handed out again, and a block of the largest class. -/
def reusedBlock : List SlabEvent :=
  [.allocate 17 (true, true), .allocate 32 (true, true), .write ⟨1, 0, 32⟩ none,
    .deallocate ⟨1, 0, 32⟩ 32, .allocate 20 (true, true), .allocate 4096 (true, true)]

theorem reusedBlock_separate :
    ∃ s, SlabAllocator.create 1 = some s ∧
      (reusedBlock.foldl SlabAllocator.exec s).live =
        [(⟨8, 0, 0⟩, 4096), (⟨1, 0, 32⟩, 20), (⟨1, 0, 0⟩, 17)] ∧
      Always SlabAllocator.exec Separate s reusedBlock := by
  refine ⟨_, rfl, by decide +kernel, @always_separate 1 _ rfl reusedBlock ?_⟩
  refine ⟨trivial, trivial, ⟨32, ?_⟩, ?_, trivial, trivial, trivial⟩
  · decide +kernel
  · change (_, _) ∈ _
    decide +kernel

end SlabAllocator

end MqBroker
