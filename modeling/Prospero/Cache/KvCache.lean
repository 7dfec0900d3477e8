import Prospero.Memory.BuddyRuns

/-!
# KV cache

The block cache of a session (`cache/kv_cache.c`): one suballocated block for each reservation, and a
capacity in token positions that `pai_kv_cache_init` computes from a rounding rule of its own.  The
suballocator charges a block for header and alignment as well, so that the rule promises too much for most
block sizes; `capacityReal_iff` says for which it does not.

Buffers from `calloc` are lists.  `none` is an access outside them, or outside the suballocator's arrays.

### Outline

* The cache and its operations.
* The state of a cache that has only reserved single tokens.
* Main result: `capacityReal_iff`.
-/

namespace Prospero

open Words Chains Dyadic

/-! ## The cache -/

/-- `PAI_KV_MAX_LAYERS`. -/
def paiKvMaxLayers : UInt32 := 64
/-- `PAI_KV_BLOCK_TOKENS`. -/
def paiKvBlockTokens : UInt64 := 128

/-- `pai_kv_cache_t`. -/
structure KvCache where
  /-- `buddy`. -/
  buddy : Buddy
  /-- `region`. -/
  region : ℕ
  /-- `region_size`. -/
  regionSize : UInt64
  /-- `num_layers`. -/
  numLayers : UInt32
  /-- `kv_bytes_per_token`. -/
  kvBytesPerToken : UInt32
  /-- `capacity_tokens`. -/
  capacityTokens : UInt32
  /-- `block_ptrs`. -/
  blockPtrs : List UInt64
  /-- `prefix_hashes`. -/
  prefixHashes : List UInt64
  /-- `block_bytes_used`. -/
  blockBytesUsed : List UInt32
  /-- `positions`. -/
  positions : UInt32
  /-- `last_touched`. -/
  lastTouched : UInt64
  /-- `tick`. -/
  tick : UInt64
  /-- `stats_blocks`. -/
  statsBlocks : UInt64
  /-- `stats_prefix_hits`. -/
  statsPrefixHits : UInt64
  /-- `stats_prefix_miss`. -/
  statsPrefixMiss : UInt64

/-- The rounding loop of `pai_kv_cache_init`, `n` doublings below `1 << 30`. -/
def roundedLoop (blockBytes : UInt64) : ℕ → UInt64 → UInt64
  | 0, rounded => rounded
  | n + 1, rounded =>
    if rounded < blockBytes ∧ rounded < 0x40000000 then roundedLoop blockBytes n (rounded <<< 1)
    else rounded

/-- `block_bytes`. -/
def blockBytes (numLayers kvBytesPerToken : UInt32) : UInt64 :=
  numLayers.toUInt64 * kvBytesPerToken.toUInt64

/-- `block_tokens_cap`: how many rounded blocks the region has, at most a block of tokens. -/
def blockTokensCap (regionSize : UInt64) (numLayers kvBytesPerToken : UInt32) : UInt64 :=
  let rounded := roundedLoop (blockBytes numLayers kvBytesPerToken) 24 64
  let cap := regionSize / rounded
  if paiKvBlockTokens < cap then paiKvBlockTokens else cap

/-- `pai_kv_cache_init` over the memory at `memory`; the three `calloc` succeed. -/
def paiKvCacheInit (mem : Mem) (memory : ℕ) (regionSize : UInt64)
    (numLayers kvBytesPerToken : UInt32) : Option (Except PaiStatus KvCache) :=
  if memory = 0 ∨ numLayers = 0 ∨ paiKvMaxLayers < numLayers ∨ kvBytesPerToken = 0 ∨
      regionSize < paiBuddyMinSize ∨ regionSize &&& (regionSize - 1) ≠ 0 then
    some (.error paiErrInvalidArg)
  else
    (paiBuddyInit mem memory regionSize).bind fun r =>
      match r with
      | .error st => some (.error st)
      | .ok buddy =>
        let cap := blockTokensCap regionSize numLayers kvBytesPerToken
        if cap = 0 then some (.error paiErrInvalidArg)
        else
          some (.ok
            { buddy := buddy
              region := memory
              regionSize := regionSize
              numLayers := numLayers
              kvBytesPerToken := kvBytesPerToken
              capacityTokens := cap.toUInt32
              blockPtrs := List.replicate cap.toNat 0
              prefixHashes := List.replicate cap.toNat 0
              blockBytesUsed := List.replicate cap.toNat 0
              positions := 0
              lastTouched := 0
              tick := 0
              statsBlocks := 0
              statsPrefixHits := 0
              statsPrefixMiss := 0 })

/-- `pai_kv_cache_reserve`: the cache, and the position or the status. -/
def paiKvCacheReserve (c : KvCache) (tokens : UInt32) :
    Option (KvCache × Except PaiStatus UInt32) :=
  if tokens = 0 then some (c, .error paiErrInvalidArg)
  else if c.capacityTokens < c.positions + tokens then some (c, .error paiErrNomem)
  else
    let need := blockBytes c.numLayers c.kvBytesPerToken * tokens.toUInt64
    (paiBuddyAlloc c.buddy need 64).bind fun r =>
      if r.2 = 0 then some ({ c with buddy := r.1 }, .error paiErrNomem)
      else if c.blockPtrs.length ≤ c.positions.toNat then none
      else
        some ({ c with
          buddy := r.1
          blockPtrs := c.blockPtrs.set c.positions.toNat (UInt64.ofNat (r.2 - c.region))
          blockBytesUsed := c.blockBytesUsed.set c.positions.toNat need.toUInt32
          positions := c.positions + tokens
          statsBlocks := c.statsBlocks + 1 }, .ok c.positions)

/-- `pai_kv_cache_touch`: the cache, and whether the prefix is known. -/
def paiKvCacheTouch (c : KvCache) (pos : UInt32) (hash : UInt64) : Option (KvCache × Bool) :=
  if c.positions ≤ pos then some (c, false)
  else
    match c.prefixHashes[pos.toNat]? with
    | none => none
    | some known =>
      let c := { c with tick := c.tick + 1, lastTouched := c.tick + 1 }
      if known = hash then some ({ c with statsPrefixHits := c.statsPrefixHits + 1 }, true)
      else
        some ({ c with
          prefixHashes := c.prefixHashes.set pos.toNat hash
          statsPrefixMiss := c.statsPrefixMiss + 1 }, false)

/-- `pai_kv_cache_reset`; an error of `pai_buddy_init` leaves the allocator as it is. -/
def paiKvCacheReset (c : KvCache) : Option KvCache :=
  let c' := { c with
    positions := 0
    tick := 0
    lastTouched := 0
    statsBlocks := 0
    statsPrefixHits := 0
    statsPrefixMiss := 0
    blockPtrs := List.replicate c.capacityTokens.toNat 0
    prefixHashes := List.replicate c.capacityTokens.toNat 0
    blockBytesUsed := List.replicate c.capacityTokens.toNat 0 }
  if c.region = 0 then some c'
  else
    (paiBuddyInit c.buddy.mem c.region c.regionSize).map fun r =>
      match r with
      | .ok buddy => { c' with buddy := buddy }
      | .error _ => c'

/-! ## The claim -/

/-- The caches that a session reaches: any operations, and any bytes written to memory by the owner of the
blocks. -/
inductive KvReachable (mem : Mem) (memory : ℕ) (regionSize : UInt64)
    (numLayers kvBytesPerToken : UInt32) : KvCache → Prop
  | init {c} : paiKvCacheInit mem memory regionSize numLayers kvBytesPerToken = some (.ok c) →
      KvReachable mem memory regionSize numLayers kvBytesPerToken c
  | reserve {c c' tokens r} : KvReachable mem memory regionSize numLayers kvBytesPerToken c →
      paiKvCacheReserve c tokens = some (c', r) →
      KvReachable mem memory regionSize numLayers kvBytesPerToken c'
  | touch {c c' pos hash r} : KvReachable mem memory regionSize numLayers kvBytesPerToken c →
      paiKvCacheTouch c pos hash = some (c', r) →
      KvReachable mem memory regionSize numLayers kvBytesPerToken c'
  | reset {c c'} : KvReachable mem memory regionSize numLayers kvBytesPerToken c →
      paiKvCacheReset c = some c' → KvReachable mem memory regionSize numLayers kvBytesPerToken c'
  | write {c mem'} : KvReachable mem memory regionSize numLayers kvBytesPerToken c →
      KvReachable mem memory regionSize numLayers kvBytesPerToken
        { c with buddy := { c.buddy with mem := mem' } }

/-- Consecutive one-token reservations, and what they return. -/
def reserveTokens (c : KvCache) : ℕ → Option (KvCache × List (Except PaiStatus UInt32))
  | 0 => some (c, [])
  | n + 1 => (reserveTokens c n).bind fun r =>
      (paiKvCacheReserve r.1 1).map fun q => (q.1, r.2 ++ [q.2])

/-- The offset of a block in the region. -/
def KvCache.blockOff (c : KvCache) (i : ℕ) : ℕ := (c.blockPtrs.getD i 0).toNat

/-- The bytes of a block. -/
def KvCache.blockLen (c : KvCache) (i : ℕ) : ℕ := (c.blockBytesUsed.getD i 0).toNat

/-- The blocks of the first `n` positions hold a token each, lie in the region and are disjoint. -/
structure BlocksSound (c : KvCache) (n : ℕ) : Prop where
  /-- Each has room for a token. -/
  len : ∀ i < n, c.blockLen i = c.numLayers.toNat * c.kvBytesPerToken.toNat
  /-- Each lies in the region. -/
  inside : ∀ i < n, c.blockOff i + c.blockLen i ≤ c.regionSize.toNat
  /-- They are disjoint. -/
  apart : ∀ i < n, ∀ j < n, i ≠ j →
    RunsApart (c.blockOff i) (c.blockLen i) (c.blockOff j) (c.blockLen j)

/-- Exactly `capacity_tokens` one-token reservations succeed. -/
def CapacityReal (c : KvCache) : Prop :=
  ∃ c', reserveTokens c c.capacityTokens.toNat =
      some (c', (List.range c.capacityTokens.toNat).map fun i => .ok (UInt32.ofNat i)) ∧
    BlocksSound c' c.capacityTokens.toNat ∧ paiKvCacheReserve c' 1 = some (c', .error paiErrNomem)

/-- The capacity is real for the empty cache and for every cache just reset. -/
def CapacitySound (mem : Mem) (memory : ℕ) (regionSize : UInt64)
    (numLayers kvBytesPerToken : UInt32) : Prop :=
  (∃ c, paiKvCacheInit mem memory regionSize numLayers kvBytesPerToken = some (.ok c) ∧
    CapacityReal c) ∧
  ∀ c, KvReachable mem memory regionSize numLayers kvBytesPerToken c →
    ∃ c', paiKvCacheReset c = some c' ∧ CapacityReal c'

/-- The bytes of a token over all layers leave 96 bytes to the next power of two, which fits the region;
or the region has room for 128 blocks as the suballocator charges them. -/
def ChargeFits (regionSize : UInt64) (numLayers kvBytesPerToken : UInt32) : Prop :=
  regionSize.toNat ≤ 0x40000000 ∧
    ((numLayers.toNat * kvBytesPerToken.toNat + 96 ≤
          2 ^ Nat.clog 2 (numLayers.toNat * kvBytesPerToken.toNat) ∧
        2 ^ Nat.clog 2 (numLayers.toNat * kvBytesPerToken.toNat + 96) ≤ regionSize.toNat) ∨
      128 * 2 ^ Nat.clog 2 (numLayers.toNat * kvBytesPerToken.toNat + 96) ≤ regionSize.toNat)

instance (regionSize : UInt64) (numLayers kvBytesPerToken : UInt32) :
    Decidable (ChargeFits regionSize numLayers kvBytesPerToken) :=
  inferInstanceAs (Decidable (_ ∧ (_ ∨ _)))

/-! ## Single tokens -/

variable {c c' : KvCache} {free : List Block} {live : List Live} {mem : Mem} {memory : ℕ}
  {regionSize : UInt64} {numLayers kvBytesPerToken : UInt32}

/-- The bytes of a token over all layers. -/
def KvCache.bytes (c : KvCache) : ℕ := c.numLayers.toNat * c.kvBytesPerToken.toNat

/-- The order of the block that the suballocator gives to a token. -/
def KvCache.order (c : KvCache) : ℕ := Nat.clog 2 (c.bytes + 96)

/-- A cache whose blocks are single tokens. -/
structure KvHeld (c : KvCache) (free : List Block) (live : List Live) : Prop where
  /-- There is a layer. -/
  layers : 0 < c.numLayers.toNat ∧ c.numLayers.toNat ≤ 64
  /-- A token takes bytes. -/
  token : 0 < c.kvBytesPerToken.toNat
  /-- The suballocator works on the region. -/
  region : c.buddy.base = c.region ∧ c.buddy.size = c.regionSize
  /-- The capacity is one block of tokens at most. -/
  capacity : c.capacityTokens.toNat ≤ 128
  /-- The tables are as long as the capacity. -/
  ptrs_length : c.blockPtrs.length = c.capacityTokens.toNat
  used_length : c.blockBytesUsed.length = c.capacityTokens.toNat
  /-- The suballocator holds the blocks. -/
  holds : c.buddy.Holds [] free live
  canon : Canon free
  /-- Every token has a block of its order. -/
  uniform : ∀ a ∈ live, a.block.order = c.order ∧ a.size.toNat = c.bytes
  /-- No free block is too small for a token. -/
  free_ge : c.order ≤ c.buddy.maxOrder → ∀ b ∈ free, c.order ≤ b.order
  /-- There are as many blocks as positions. -/
  positions : c.positions.toNat = live.length
  /-- The tables say where the blocks are. -/
  ptrs : c.blockPtrs.take live.length = live.reverse.map fun a => UInt64.ofNat (a.ptr - c.region)
  used : c.blockBytesUsed.take live.length = live.reverse.map fun a => a.size.toUInt32

lemma toNat_blockBytes (numLayers kvBytesPerToken : UInt32) (h : numLayers.toNat ≤ 64) :
    (blockBytes numLayers kvBytesPerToken).toNat = numLayers.toNat * kvBytesPerToken.toNat ∧
      numLayers.toNat * kvBytesPerToken.toNat < 0x4000000000 := by
  have hkv := kvBytesPerToken.toNat_lt
  have hle : numLayers.toNat * kvBytesPerToken.toNat ≤ 64 * 0xFFFFFFFF :=
    Nat.mul_le_mul h (Nat.le_of_lt_succ hkv)
  refine ⟨?_, by omega⟩
  rw [blockBytes, UInt64.toNat_mul, UInt32.toNat_toUInt64, UInt32.toNat_toUInt64]
  exact Nat.mod_eq_of_lt (by omega)

/-- Setting the entry after the first `n`. -/
lemma take_succ_set {α : Type*} {l : List α} {n : ℕ} (v : α) (h : n < l.length) :
    (l.set n v).take (n + 1) = l.take n ++ [v] := by
  rw [List.take_add_one, List.take_set_of_le (le_refl n), List.getElem?_set_self h]
  rfl

lemma KvHeld.need (h : KvHeld c free live) :
    blockBytes c.numLayers c.kvBytesPerToken * (1 : UInt32).toUInt64 =
      blockBytes c.numLayers c.kvBytesPerToken ∧
    (blockBytes c.numLayers c.kvBytesPerToken).toNat = c.bytes ∧ 0 < c.bytes ∧
      c.bytes < 0x4000000000 := by
  obtain ⟨heq, hlt⟩ := toNat_blockBytes c.numLayers c.kvBytesPerToken h.layers.2
  refine ⟨?_, heq, Nat.mul_pos h.layers.1 h.token, hlt⟩
  exact mul_one _

/-- The request for a token is valid, and the suballocator gives it the order `c.order`. -/
lemma KvHeld.request (h : KvHeld c free live) :
    RequestValid (blockBytes c.numLayers c.kvBytesPerToken) 64 ∧
      requestOrder (blockBytes c.numLayers c.kvBytesPerToken) 64 = c.order := by
  obtain ⟨-, hbytes, hpos, hlt⟩ := h.need
  have hvalid : RequestValid (blockBytes c.numLayers c.kvBytesPerToken) 64 := by
    refine ⟨fun hzero => ?_, by decide, ?_⟩
    · rw [hzero] at hbytes
      change 0 = c.bytes at hbytes
      omega
    · rw [hbytes]
      change c.bytes + 64 + 32 < _
      omega
  have h6 : 6 < Nat.clog 2 (c.bytes + 96) := (Nat.lt_clog_iff_pow_lt (by decide)).mpr (by omega)
  have h39 : Nat.clog 2 (c.bytes + 96) ≤ 39 := (Nat.clog_le_iff_le_pow (by decide)).mpr (by omega)
  refine ⟨hvalid, ?_⟩
  rw [requestOrder_eq hvalid, hbytes]
  change max 6 (min 63 (Nat.clog 2 (c.bytes + 96))) = Nat.clog 2 (c.bytes + 96)
  omega

/-- The live blocks of a cache of single tokens take their number times the size of a block. -/
lemma KvHeld.sum_free (h : KvHeld c free live) :
    (free.map Block.size).sum + live.length * 2 ^ c.order = 2 ^ c.buddy.maxOrder := by
  have htotal := h.holds.tiling.total
  rw [List.map_append, List.sum_append, List.nil_append, List.map_map] at htotal
  have hlive : (live.map (Block.size ∘ Live.block)).sum = live.length * 2 ^ c.order := by
    rw [List.map_congr_left (g := fun _ => 2 ^ c.order), List.map_const', List.sum_replicate]
    · rfl
    · intro a ha
      change 2 ^ a.block.order = _
      rw [(h.uniform a ha).1]
  rw [hlive] at htotal
  exact htotal

/-- At capacity, a reservation fails. -/
lemma KvHeld.reserve_full (h : KvHeld c free live) (hfull : live.length = c.capacityTokens.toNat) :
    paiKvCacheReserve c 1 = some (c, .error paiErrNomem) := by
  have hcap := h.capacity
  have hpos := h.positions
  rw [paiKvCacheReserve, if_neg (by decide), if_pos]
  rw [UInt32.lt_iff_toNat_lt, UInt32.toNat_add]
  change _ < (c.positions.toNat + 1) % 2 ^ 32
  omega

/-- Below capacity, a reservation succeeds exactly while the region has room for another block. -/
lemma KvHeld.reserve (h : KvHeld c free live) (hlt : live.length < c.capacityTokens.toNat) :
    (2 ^ c.buddy.maxOrder / 2 ^ c.order ≤ live.length →
        paiKvCacheReserve c 1 = some (c, .error paiErrNomem)) ∧
      (live.length < 2 ^ c.buddy.maxOrder / 2 ^ c.order →
        ∃ c' free' a, paiKvCacheReserve c 1 = some (c', .ok (UInt32.ofNat live.length)) ∧
          KvHeld c' free' (a :: live) ∧ c'.capacityTokens = c.capacityTokens ∧
          c'.order = c.order ∧ c'.buddy.maxOrder = c.buddy.maxOrder) := by
  have hcap := h.capacity
  have hpos := h.positions
  obtain ⟨hneed, hbytes, hbpos, hblt⟩ := h.need
  obtain ⟨hvalid, hord⟩ := h.request
  have hsum := h.sum_free
  have hsize : 0 < 2 ^ c.order := Nat.two_pow_pos _
  have hinside : ¬ c.capacityTokens < c.positions + 1 := by
    rw [UInt32.lt_iff_toNat_lt, UInt32.toNat_add]
    change ¬ _ < (c.positions.toNat + 1) % 2 ^ 32
    omega
  have hreserve : paiKvCacheReserve c 1 =
      (paiBuddyAlloc c.buddy (blockBytes c.numLayers c.kvBytesPerToken) 64).bind fun r =>
        if r.2 = 0 then some ({ c with buddy := r.1 }, .error paiErrNomem)
        else if c.blockPtrs.length ≤ c.positions.toNat then none
        else
          some ({ c with
            buddy := r.1
            blockPtrs := c.blockPtrs.set c.positions.toNat (UInt64.ofNat (r.2 - c.region))
            blockBytesUsed := c.blockBytesUsed.set c.positions.toNat
              (blockBytes c.numLayers c.kvBytesPerToken).toUInt32
            positions := c.positions + 1
            statsBlocks := c.statsBlocks + 1 }, .ok c.positions) := by
    rw [paiKvCacheReserve, if_neg (by decide), if_neg hinside]
    simp only [hneed]
  obtain ⟨hcall, hsmall⟩ | ⟨s', b, ptr, free', hcall, hptr, -, hb, hholds, hcanon, hregion, hge⟩ :=
    h.holds.alloc h.canon (blockBytes c.numLayers c.kvBytesPerToken) 64
  · -- no free block is large enough
    rw [hcall, Option.bind_some, if_pos rfl] at hreserve
    refine ⟨fun _ => hreserve, fun hroom => ?_⟩
    exfalso
    have hmul := Nat.mul_le_of_le_div _ _ _ hroom
    have hle : c.order ≤ c.buddy.maxOrder := by
      have hone : 1 ≤ live.length + 1 := Nat.le_add_left 1 _
      have hpow : 2 ^ c.order ≤ 2 ^ c.buddy.maxOrder :=
        (Nat.le_mul_of_pos_left _ (Nat.succ_pos live.length)).trans hmul
      exact (Nat.pow_le_pow_iff_right (by decide)).mp hpow
    have hempty : free = [] := by
      rcases hfree : free with _ | ⟨b, rest⟩
      · rfl
      · have hmem : b ∈ free := hfree ▸ List.mem_cons_self
        have hbsmall := hsmall hvalid b hmem
        have hblarge := h.free_ge hle b hmem
        rw [hord] at hbsmall
        omega
    rw [hempty] at hsum
    rw [Nat.succ_mul] at hmul
    simp only [List.map_nil, List.sum_nil] at hsum
    omega
  · -- a block of the token's order becomes live
    rw [hcall, Option.bind_some, if_neg hptr, if_neg (by rw [h.ptrs_length]; omega)] at hreserve
    rw [hord] at hb hge
    have hheld : KvHeld
        { c with
          buddy := s'
          blockPtrs := c.blockPtrs.set c.positions.toNat (UInt64.ofNat (ptr - c.region))
          blockBytesUsed := c.blockBytesUsed.set c.positions.toNat
            (blockBytes c.numLayers c.kvBytesPerToken).toUInt32
          positions := c.positions + 1
          statsBlocks := c.statsBlocks + 1 }
        free' (⟨b, ptr, blockBytes c.numLayers c.kvBytesPerToken, 64⟩ :: live) :=
      { layers := h.layers
        token := h.token
        region := ⟨hregion.1.trans h.region.1, hregion.2.1.trans h.region.2⟩
        capacity := h.capacity
        ptrs_length := by
          change (List.set _ _ _).length = _
          rw [List.length_set]
          exact h.ptrs_length
        used_length := by
          change (List.set _ _ _).length = _
          rw [List.length_set]
          exact h.used_length
        holds := hholds
        canon := hcanon
        uniform := List.forall_mem_cons.mpr ⟨⟨hb, hbytes⟩, h.uniform⟩
        free_ge := fun hle e he => by
          have hle' : c.order ≤ c.buddy.maxOrder := hregion.2.2 ▸ hle
          rcases hge e he with he | he
          · exact h.free_ge hle' e he
          · exact he
        positions := by
          change (c.positions + 1).toNat = live.length + 1
          rw [UInt32.toNat_add]
          change (c.positions.toNat + 1) % 2 ^ 32 = _
          omega
        ptrs := by
          have hlen := h.ptrs_length
          change (c.blockPtrs.set c.positions.toNat _).take (live.length + 1) = _
          rw [hpos, take_succ_set _ (by omega), h.ptrs, List.reverse_cons, List.map_append,
            List.map_singleton]
        used := by
          have hlen := h.used_length
          change (c.blockBytesUsed.set c.positions.toNat _).take (live.length + 1) = _
          rw [hpos, take_succ_set _ (by omega), h.used, List.reverse_cons, List.map_append,
            List.map_singleton] }
    have hcount : (live.length + 1) * 2 ^ c.order ≤ 2 ^ c.buddy.maxOrder := by
      have hsum' := hheld.sum_free
      change _ + (live.length + 1) * 2 ^ c.order = 2 ^ s'.maxOrder at hsum'
      rw [hregion.2.2] at hsum'
      omega
    refine ⟨fun hfull => ?_, fun _ => ⟨_, free', _, ?_, hheld, rfl, rfl, hregion.2.2⟩⟩
    · have hle := (Nat.le_div_iff_mul_le hsize).mpr hcount
      omega
    · rw [hreserve, ← hpos, UInt32.ofNat_toNat]

/-- As many one-token reservations as the capacity and the region allow succeed. -/
lemma KvHeld.reserveTokens (h : KvHeld c free []) {n : ℕ} (hcap : n ≤ c.capacityTokens.toNat)
    (hroom : n ≤ 2 ^ c.buddy.maxOrder / 2 ^ c.order) :
    ∃ c' free' live, Prospero.reserveTokens c n =
        some (c', (List.range n).map fun i => .ok (UInt32.ofNat i)) ∧
      KvHeld c' free' live ∧ live.length = n ∧ c'.capacityTokens = c.capacityTokens ∧
      c'.order = c.order ∧ c'.buddy.maxOrder = c.buddy.maxOrder := by
  induction n with
  | zero => exact ⟨c, free, [], rfl, h, rfl, rfl, rfl, rfl⟩
  | succ n ih =>
    obtain ⟨c₁, free₁, live₁, hrun, hheld, hlen, hcap₁, hord₁, hmax₁⟩ :=
      ih (Nat.le_of_succ_le hcap) (Nat.le_of_succ_le hroom)
    have hstep := (hheld.reserve (by rw [hcap₁]; omega)).2 (by rw [hord₁, hmax₁]; omega)
    obtain ⟨c₂, free₂, a, hreserve, hheld₂, hcap₂, hord₂, hmax₂⟩ := hstep
    refine ⟨c₂, free₂, a :: live₁, ?_, hheld₂, by rw [List.length_cons, hlen],
      hcap₂.trans hcap₁, hord₂.trans hord₁, hmax₂.trans hmax₁⟩
    rw [Prospero.reserveTokens, hrun, Option.bind_some]
    simp only [hreserve, Option.map_some, hlen, List.range_succ, List.map_append, List.map_cons,
      List.map_nil]

/-- The table entries of a position. -/
lemma KvHeld.entry (h : KvHeld c free live) {i : ℕ} (hi : i < live.length) :
    ∃ a ∈ live, live.reverse[i]? = some a ∧ c.blockOff i = a.ptr - c.region ∧
      c.blockLen i = a.size.toNat := by
  have hrev : i < live.reverse.length := by rwa [List.length_reverse]
  obtain ⟨a, ha⟩ : ∃ a, live.reverse[i]? = some a := ⟨_, List.getElem?_eq_getElem hrev⟩
  have hmem : a ∈ live := List.mem_reverse.mp (List.mem_of_getElem? ha)
  have hend := h.holds.addr_end (h.holds.tile_mem.2.2 a hmem)
  have hspace := h.holds.base_end
  have hge := h.holds.payload_ge a hmem
  have hle := h.holds.payload_le a hmem
  have h30 : 2 ^ c.buddy.maxOrder ≤ 2 ^ 30 := Nat.pow_le_pow_right (by decide) h.holds.order_le
  have hbase : c.buddy.base ≤ c.buddy.addr a.block := Nat.le_add_right _ _
  have hregion := h.region.1
  refine ⟨a, hmem, ha, ?_, ?_⟩
  · have hentry : c.blockPtrs[i]? = some (UInt64.ofNat (a.ptr - c.region)) := by
      rw [← List.getElem?_take_of_lt hi, h.ptrs, List.getElem?_map, ha]
      rfl
    rw [KvCache.blockOff, List.getD_eq_getElem?_getD, hentry]
    change (UInt64.ofNat (a.ptr - c.region)).toNat = _
    rw [UInt64.toNat_ofNat']
    exact Nat.mod_eq_of_lt (by omega)
  · have hentry : c.blockBytesUsed[i]? = some a.size.toUInt32 := by
      rw [← List.getElem?_take_of_lt hi, h.used, List.getElem?_map, ha]
      rfl
    rw [KvCache.blockLen, List.getD_eq_getElem?_getD, hentry]
    change a.size.toUInt32.toNat = _
    rw [UInt64.toNat_toUInt32]
    exact Nat.mod_eq_of_lt (by omega)

/-- The blocks of a cache of single tokens are sound. -/
lemma KvHeld.blocksSound (h : KvHeld c free live) : BlocksSound c live.length where
  len := fun i hi => by
    obtain ⟨a, ha, -, -, hlen⟩ := h.entry hi
    rw [hlen]
    exact (h.uniform a ha).2
  inside := fun i hi => by
    obtain ⟨a, ha, -, hoff, hlen⟩ := h.entry hi
    have hend := h.holds.addr_end (h.holds.tile_mem.2.2 a ha)
    have hge := h.holds.payload_ge a ha
    have hle := h.holds.payload_le a ha
    have hbase : c.buddy.base ≤ c.buddy.addr a.block := Nat.le_add_right _ _
    rw [hoff, hlen, ← h.region.1, ← h.region.2, h.holds.size_eq]
    omega
  apart := fun i hi j hj hne => by
    obtain ⟨a, ha, hia, hoff, hlen⟩ := h.entry hi
    obtain ⟨e, he, hje, hoff', hlen'⟩ := h.entry hj
    have hnodup : live.Nodup :=
      List.Nodup.of_map _ (List.nodup_append.mp h.holds.tiling.nodup).2.1
    have hae : a ≠ e := by
      rintro rfl
      have hrev : i < live.reverse.length := by rwa [List.length_reverse]
      exact hne ((List.getElem?_inj hrev (List.nodup_reverse.mpr hnodup)).mp (hia.trans hje.symm))
    have hsymm : Std.Symm fun a e : Live => RunsApart a.ptr a.size.toNat e.ptr e.size.toNat :=
      ⟨fun _ _ hr => hr.symm⟩
    have hapart := (h.holds.invariant h.canon).payloads.forall ha he hae
    have hage := h.holds.payload_ge a ha
    have hege := h.holds.payload_ge e he
    have hbase : c.buddy.base ≤ c.buddy.addr a.block := Nat.le_add_right _ _
    have hbase' : c.buddy.base ≤ c.buddy.addr e.block := Nat.le_add_right _ _
    have hregion := h.region.1
    unfold RunsApart at hapart ⊢
    omega

/-- Reservations only add to what was returned. -/
lemma reserveTokens_prefix {n d : ℕ} {outs : List (Except PaiStatus UInt32)}
    (h : Prospero.reserveTokens c (n + d) = some (c', outs)) :
    ∃ c₁ outs₁, Prospero.reserveTokens c n = some (c₁, outs₁) ∧ outs₁ <+: outs := by
  induction d generalizing c' outs with
  | zero => exact ⟨c', outs, h, List.prefix_rfl⟩
  | succ d ih =>
    rw [← Nat.add_assoc, Prospero.reserveTokens] at h
    obtain ⟨⟨c₂, outs₂⟩, hrun, hlast⟩ := Option.bind_eq_some_iff.mp h
    obtain ⟨q, -, hq⟩ := Option.map_eq_some_iff.mp hlast
    obtain ⟨c₁, outs₁, hfirst, hprefix⟩ := ih hrun
    refine ⟨c₁, outs₁, hfirst, hprefix.trans ?_⟩
    rw [← (Prod.mk.inj hq).2]
    exact List.prefix_append _ _

/-- From an empty cache, the capacity is real exactly when the region has room for its blocks. -/
lemma KvHeld.real_iff (h : KvHeld c free []) :
    CapacityReal c ↔ c.capacityTokens.toNat ≤ 2 ^ c.buddy.maxOrder / 2 ^ c.order := by
  constructor
  · rintro ⟨c', hrun, -, -⟩
    by_contra hroom
    rw [not_le] at hroom
    obtain ⟨c₁, free₁, live₁, hrun₁, hheld₁, hlen₁, hcap₁, hord₁, hmax₁⟩ :=
      h.reserveTokens hroom.le le_rfl
    have hfail := (hheld₁.reserve (by rw [hcap₁, hlen₁]; exact hroom)).1
      (by rw [hord₁, hmax₁, hlen₁])
    have hnext : Prospero.reserveTokens c (2 ^ c.buddy.maxOrder / 2 ^ c.order + 1) =
        some (c₁, ((List.range (2 ^ c.buddy.maxOrder / 2 ^ c.order)).map
          fun i => .ok (UInt32.ofNat i)) ++ [.error paiErrNomem]) := by
      rw [Prospero.reserveTokens, hrun₁, Option.bind_some]
      simp only [hfail, Option.map_some]
    obtain ⟨d, hd⟩ := Nat.exists_eq_add_of_lt hroom
    rw [Nat.add_assoc, Nat.add_comm d 1, ← Nat.add_assoc] at hd
    rw [hd] at hrun
    obtain ⟨c₂, outs₂, hrun₂, hprefix⟩ := reserveTokens_prefix hrun
    rw [hnext] at hrun₂
    obtain ⟨-, rfl⟩ := Prod.mk.inj (Option.some.inj hrun₂)
    have hmem : (.error paiErrNomem : Except PaiStatus UInt32) ∈
        (List.range (2 ^ c.buddy.maxOrder / 2 ^ c.order + 1 + d)).map
          fun i => .ok (UInt32.ofNat i) :=
      hprefix.subset (List.mem_append_right _ List.mem_cons_self)
    obtain ⟨i, -, hi⟩ := List.mem_map.mp hmem
    exact absurd hi (by simp)
  · intro hroom
    obtain ⟨c', free', live, hrun, hheld, hlen, hcap, -, -⟩ := h.reserveTokens le_rfl hroom
    refine ⟨c', hrun, ?_, hheld.reserve_full (by rw [hlen, hcap])⟩
    rw [← hlen]
    exact hheld.blocksSound

/-! ## Init and reset -/

/-- The rounding loop gives the least power of two from `2 ^ o` on with room for a token, at most 2^30. -/
lemma roundedLoop_eq (v : UInt64) {n o : ℕ} {p : UInt64} (hp : p.toNat = 2 ^ o) (hn : o + n = 30) :
    (roundedLoop v n p).toNat = 2 ^ min 30 (max o (Nat.clog 2 v.toNat)) := by
  induction n generalizing o p with
  | zero =>
    rw [roundedLoop, hp]
    congr 1
    omega
  | succ n ih =>
    have hcap : p < 0x40000000 := by
      rw [UInt64.lt_iff_toNat_lt, hp]
      exact Nat.pow_lt_pow_right (by decide) (by omega : o < 30)
    rw [roundedLoop]
    by_cases hlt : p < v
    · have hlog : o < Nat.clog 2 v.toNat := by
        rw [UInt64.lt_iff_toNat_lt, hp] at hlt
        exact (Nat.lt_clog_iff_pow_lt (by decide)).mpr hlt
      rw [if_pos ⟨hlt, hcap⟩, ih (toNat_shiftLeft_one hp (by omega)) (by omega)]
      congr 1
      omega
    · have hlog : Nat.clog 2 v.toNat ≤ o := by
        rw [UInt64.lt_iff_toNat_lt, hp, not_lt] at hlt
        exact (Nat.clog_le_iff_le_pow (by decide)).mpr hlt
      rw [if_neg fun hboth => hlt hboth.1, hp]
      congr 1
      omega

/-- The capacity that `pai_kv_cache_init` computes. -/
def kvCapacity (regionSize : UInt64) (numLayers kvBytesPerToken : UInt32) : ℕ :=
  min 128 (regionSize.toNat /
    2 ^ min 30 (max 6 (Nat.clog 2 (numLayers.toNat * kvBytesPerToken.toNat))))

lemma toNat_blockTokensCap (regionSize : UInt64) (kvBytesPerToken : UInt32)
    (h : numLayers.toNat ≤ 64) :
    (blockTokensCap regionSize numLayers kvBytesPerToken).toNat =
      kvCapacity regionSize numLayers kvBytesPerToken := by
  have hrounded := roundedLoop_eq (blockBytes numLayers kvBytesPerToken) (n := 24) (o := 6)
    (p := 64) rfl rfl
  rw [(toNat_blockBytes numLayers kvBytesPerToken h).1] at hrounded
  have hdiv := UInt64.toNat_div regionSize (roundedLoop (blockBytes numLayers kvBytesPerToken) 24 64)
  rw [hrounded] at hdiv
  rw [blockTokensCap, kvCapacity, ← hdiv]
  split_ifs with hlt
  · rw [UInt64.lt_iff_toNat_lt] at hlt
    change 128 < _ at hlt
    change 128 = _
    omega
  · rw [UInt64.lt_iff_toNat_lt, not_lt] at hlt
    change _ ≤ 128 at hlt
    omega

/-- The acceptance of a region by `pai_buddy_init` does not depend on what is in it. -/
lemma paiBuddyInit_accept_mem (mem' : Mem)
    (h : paiBuddyInit mem memory regionSize ≠ some (.error paiErrInvalidArg)) :
    paiBuddyInit mem' memory regionSize ≠ some (.error paiErrInvalidArg) := by
  rw [paiBuddyInit] at h ⊢
  split_ifs at h ⊢ with hcheck
  · exact absurd rfl h
  · simp [Option.map_eq_some_iff]

/-- The configuration of a session's cache. -/
structure KvConfig (memory : ℕ) (regionSize : UInt64) (numLayers kvBytesPerToken : UInt32)
    (c : KvCache) : Prop where
  region_eq : c.region = memory
  size_eq : c.regionSize = regionSize
  layers_eq : c.numLayers = numLayers
  token_eq : c.kvBytesPerToken = kvBytesPerToken
  capacity : c.capacityTokens.toNat = kvCapacity regionSize numLayers kvBytesPerToken

/-- What it takes for `pai_kv_cache_init` to accept its arguments. -/
structure KvAccepts (mem : Mem) (memory : ℕ) (regionSize : UInt64)
    (numLayers kvBytesPerToken : UInt32) : Prop where
  layers : 0 < numLayers.toNat ∧ numLayers.toNat ≤ 64
  token : 0 < kvBytesPerToken.toNat
  buddy : paiBuddyInit mem memory regionSize ≠ some (.error paiErrInvalidArg)

/-- An empty cache over a fresh region of at most 2^30 bytes. -/
lemma kvHeld_of_fresh {memory : UInt64}
    (ha : KvAccepts mem memory.toNat regionSize numLayers kvBytesPerToken)
    (hc : KvConfig memory.toNat regionSize numLayers kvBytesPerToken c)
    (hpos : c.positions = 0) (hptrs : c.blockPtrs.length = c.capacityTokens.toNat)
    (hused : c.blockBytesUsed.length = c.capacityTokens.toNat) {mem' : Mem}
    (hbuddy : paiBuddyInit mem' memory.toNat regionSize = some (.ok c.buddy))
    (hsize : regionSize.toNat ≤ 0x40000000) :
    KvHeld c [⟨c.buddy.maxOrder, 0⟩] [] := by
  obtain ⟨s, hinit, hholds, hbase, hsz⟩ :=
    paiBuddyInit_held (paiBuddyInit_accept_mem mem' ha.buddy) hsize
  have hs : s = c.buddy := by
    rw [hbuddy] at hinit
    exact (Except.ok.inj (Option.some.inj hinit)).symm
  subst hs
  exact
    { layers := hc.layers_eq ▸ ha.layers
      token := hc.token_eq ▸ ha.token
      region := ⟨hbase.trans hc.region_eq.symm, hsz.trans hc.size_eq.symm⟩
      capacity := hc.capacity.trans_le (min_le_left _ _)
      ptrs_length := hptrs
      used_length := hused
      holds := hholds
      canon := fun b hb hin => by
        rw [List.mem_singleton] at hb hin
        subst hb
        exact Block.sibling_ne _ hin
      uniform := fun a ha => by cases ha
      free_ge := fun hle b hb => by
        rw [List.mem_singleton.mp hb]
        exact hle
      positions := by
        rw [hpos]
        rfl
      ptrs := rfl
      used := rfl }

/-- **`pai_kv_cache_init`.**  A region of at most 2^30 bytes gives an empty cache with a capacity; a larger
one is lost in `pai_buddy_init`. -/
lemma paiKvCacheInit_spec (mem : Mem) (memory : UInt64)
    (h : ∀ st, paiKvCacheInit mem memory.toNat regionSize numLayers kvBytesPerToken ≠
      some (.error st)) :
    KvAccepts mem memory.toNat regionSize numLayers kvBytesPerToken ∧
      (0x40000000 < regionSize.toNat →
        paiKvCacheInit mem memory.toNat regionSize numLayers kvBytesPerToken = none) ∧
      (regionSize.toNat ≤ 0x40000000 →
        0 < kvCapacity regionSize numLayers kvBytesPerToken ∧
        ∃ c, paiKvCacheInit mem memory.toNat regionSize numLayers kvBytesPerToken = some (.ok c) ∧
          KvConfig memory.toNat regionSize numLayers kvBytesPerToken c ∧
          KvHeld c [⟨c.buddy.maxOrder, 0⟩] []) := by
  have hcheck : ¬ (memory.toNat = 0 ∨ numLayers = 0 ∨ paiKvMaxLayers < numLayers ∨
      kvBytesPerToken = 0 ∨ regionSize < paiBuddyMinSize ∨
      regionSize &&& (regionSize - 1) ≠ 0) := fun hin => by
    refine h paiErrInvalidArg ?_
    rw [paiKvCacheInit, if_pos hin]
  have hbuddy : paiBuddyInit mem memory.toNat regionSize ≠ some (.error paiErrInvalidArg) := by
    intro hbad
    refine h paiErrInvalidArg ?_
    rw [paiKvCacheInit, if_neg hcheck, hbad]
    rfl
  have hfields := hcheck
  push Not at hfields
  obtain ⟨-, hlayers, hmax, htoken, -, -⟩ := hfields
  have hlayers64 : numLayers.toNat ≤ 64 := by
    rw [UInt32.lt_iff_toNat_lt, not_lt] at hmax
    exact hmax
  have haccept : KvAccepts mem memory.toNat regionSize numLayers kvBytesPerToken :=
    { layers := ⟨Nat.pos_of_ne_zero fun hzero => hlayers (UInt32.toNat_inj.mp hzero), hlayers64⟩
      token := Nat.pos_of_ne_zero fun hzero => htoken (UInt32.toNat_inj.mp hzero)
      buddy := hbuddy }
  refine ⟨haccept, fun hlarge => ?_, fun hsmall => ?_⟩
  · rw [paiKvCacheInit, if_neg hcheck, paiBuddyInit_large hbuddy hlarge]
    rfl
  · obtain ⟨s, hs, -⟩ := paiBuddyInit_held hbuddy hsmall
    have hcap := toNat_blockTokensCap regionSize kvBytesPerToken hlayers64
    have hle : kvCapacity regionSize numLayers kvBytesPerToken ≤ 128 := min_le_left _ _
    have hcap32 : (blockTokensCap regionSize numLayers kvBytesPerToken).toUInt32.toNat =
        kvCapacity regionSize numLayers kvBytesPerToken := by
      rw [UInt64.toNat_toUInt32, hcap]
      exact Nat.mod_eq_of_lt (by omega)
    have hpos : blockTokensCap regionSize numLayers kvBytesPerToken ≠ 0 := by
      intro hzero
      refine h paiErrInvalidArg ?_
      rw [paiKvCacheInit, if_neg hcheck, hs, Option.bind_some]
      simp only [hzero, if_true]
    refine ⟨?_, ?_⟩
    · rw [← hcap]
      exact Nat.pos_of_ne_zero fun hzero => hpos (UInt64.toNat_inj.mp hzero)
    · have hinit : ∃ c, paiKvCacheInit mem memory.toNat regionSize numLayers kvBytesPerToken =
          some (.ok c) ∧ c.buddy = s ∧ c.positions = 0 ∧
          c.blockPtrs.length = kvCapacity regionSize numLayers kvBytesPerToken ∧
          c.blockBytesUsed.length = kvCapacity regionSize numLayers kvBytesPerToken ∧
          KvConfig memory.toNat regionSize numLayers kvBytesPerToken c := by
        rw [paiKvCacheInit, if_neg hcheck, hs, Option.bind_some]
        simp only [if_neg hpos]
        refine ⟨_, rfl, rfl, rfl, ?_, ?_, ⟨rfl, rfl, rfl, rfl, hcap32⟩⟩
        · rw [List.length_replicate, hcap]
        · rw [List.length_replicate, hcap]
      obtain ⟨c, hc, rfl, hpositions, hptrs, hused, hconfig⟩ := hinit
      refine ⟨c, hc, hconfig, ?_⟩
      exact kvHeld_of_fresh haccept hconfig hpositions (hptrs.trans hconfig.capacity.symm)
        (hused.trans hconfig.capacity.symm) hs hsmall

/-- Operations keep the configuration. -/
lemma KvReachable.config {memory : UInt64}
    (h : ∀ st, paiKvCacheInit mem memory.toNat regionSize numLayers kvBytesPerToken ≠
      some (.error st)) (hsmall : regionSize.toNat ≤ 0x40000000)
    (hc : KvReachable mem memory.toNat regionSize numLayers kvBytesPerToken c) :
    KvConfig memory.toNat regionSize numLayers kvBytesPerToken c := by
  induction hc with
  | init hok =>
    obtain ⟨-, c, hinit, hconfig, -⟩ := (paiKvCacheInit_spec _ _ h).2.2 hsmall
    rw [hinit] at hok
    rw [← Except.ok.inj (Option.some.inj hok)]
    exact hconfig
  | reserve _ hstep ih =>
    rw [paiKvCacheReserve] at hstep
    split at hstep
    · rw [← (Prod.mk.inj (Option.some.inj hstep)).1]
      exact ih
    split at hstep
    · rw [← (Prod.mk.inj (Option.some.inj hstep)).1]
      exact ih
    obtain ⟨r, -, hr⟩ := Option.bind_eq_some_iff.mp hstep
    split_ifs at hr
    · rw [← (Prod.mk.inj (Option.some.inj hr)).1]
      exact ⟨ih.region_eq, ih.size_eq, ih.layers_eq, ih.token_eq, ih.capacity⟩
    · rw [← (Prod.mk.inj (Option.some.inj hr)).1]
      exact ⟨ih.region_eq, ih.size_eq, ih.layers_eq, ih.token_eq, ih.capacity⟩
  | touch _ hstep ih =>
    rw [paiKvCacheTouch] at hstep
    split_ifs at hstep
    · rw [← (Prod.mk.inj (Option.some.inj hstep)).1]
      exact ih
    · split at hstep
      · exact absurd hstep (by simp)
      · simp only at hstep
        split_ifs at hstep
        · rw [← (Prod.mk.inj (Option.some.inj hstep)).1]
          exact ⟨ih.region_eq, ih.size_eq, ih.layers_eq, ih.token_eq, ih.capacity⟩
        · rw [← (Prod.mk.inj (Option.some.inj hstep)).1]
          exact ⟨ih.region_eq, ih.size_eq, ih.layers_eq, ih.token_eq, ih.capacity⟩
  | reset _ hstep ih =>
    rw [paiKvCacheReset] at hstep
    simp only at hstep
    split_ifs at hstep
    · rw [← Option.some.inj hstep]
      exact ⟨ih.region_eq, ih.size_eq, ih.layers_eq, ih.token_eq, ih.capacity⟩
    · obtain ⟨r, -, rfl⟩ := Option.map_eq_some_iff.mp hstep
      cases r
      · exact ⟨ih.region_eq, ih.size_eq, ih.layers_eq, ih.token_eq, ih.capacity⟩
      · exact ⟨ih.region_eq, ih.size_eq, ih.layers_eq, ih.token_eq, ih.capacity⟩
  | write _ ih => exact ⟨ih.region_eq, ih.size_eq, ih.layers_eq, ih.token_eq, ih.capacity⟩

/-- **`pai_kv_cache_reset`.**  A cache that has been used is empty again. -/
lemma paiKvCacheReset_spec {memory : UInt64}
    (ha : KvAccepts mem memory.toNat regionSize numLayers kvBytesPerToken)
    (hc : KvConfig memory.toNat regionSize numLayers kvBytesPerToken c)
    (hsmall : regionSize.toNat ≤ 0x40000000) :
    ∃ c', paiKvCacheReset c = some c' ∧
      KvConfig memory.toNat regionSize numLayers kvBytesPerToken c' ∧
      KvHeld c' [⟨c'.buddy.maxOrder, 0⟩] [] := by
  have haccept := paiBuddyInit_accept_mem c.buddy.mem ha.buddy
  obtain ⟨s, hs, -⟩ := paiBuddyInit_held haccept hsmall
  have hregion : c.region ≠ 0 := by
    rw [hc.region_eq]
    exact ((paiBuddyInit_accepts ha.buddy).1).ne'
  have hreset : ∃ c', paiKvCacheReset c = some c' ∧ c'.buddy = s ∧ c'.positions = 0 ∧
      c'.blockPtrs.length = c.capacityTokens.toNat ∧
      c'.blockBytesUsed.length = c.capacityTokens.toNat ∧
      KvConfig memory.toNat regionSize numLayers kvBytesPerToken c' := by
    rw [paiKvCacheReset]
    simp only [if_neg hregion]
    rw [hc.region_eq, hc.size_eq, hs, Option.map_some]
    exact ⟨_, rfl, rfl, rfl, List.length_replicate, List.length_replicate,
      ⟨rfl, rfl, hc.layers_eq, hc.token_eq, hc.capacity⟩⟩
  obtain ⟨c', heq, rfl, hpositions, hptrs, hused, hconfig⟩ := hreset
  have hcap : c.capacityTokens.toNat = c'.capacityTokens.toNat :=
    hc.capacity.trans hconfig.capacity.symm
  exact ⟨c', heq, hconfig, kvHeld_of_fresh ha hconfig hpositions (hptrs.trans hcap)
    (hused.trans hcap) hs hsmall⟩

/-! ## Main result -/

/-- The capacity counts no more blocks than the region has room for exactly when the charge fits. -/
lemma kvCapacity_le_iff {m : ℕ} (hm : regionSize.toNat = 2 ^ m) (h30 : m ≤ 30)
    (hpos : 0 < kvCapacity regionSize numLayers kvBytesPerToken)
    (hbytes : 0 < numLayers.toNat * kvBytesPerToken.toNat) :
    kvCapacity regionSize numLayers kvBytesPerToken ≤
        2 ^ m / 2 ^ Nat.clog 2 (numLayers.toNat * kvBytesPerToken.toNat + 96) ↔
      ChargeFits regionSize numLayers kvBytesPerToken := by
  unfold ChargeFits
  unfold kvCapacity at hpos ⊢
  rw [hm] at hpos ⊢
  generalize numLayers.toNat * kvBytesPerToken.toNat = bytes at hpos hbytes ⊢
  have hk7 : 6 < Nat.clog 2 (bytes + 96) := (Nat.lt_clog_iff_pow_lt (by decide)).mpr (by omega)
  have hslack : bytes + 96 ≤ 2 ^ Nat.clog 2 bytes ↔ Nat.clog 2 (bytes + 96) ≤ Nat.clog 2 bytes :=
    (Nat.clog_le_iff_le_pow (by decide)).symm
  have hsmall : 2 ^ m ≤ 0x40000000 := Nat.pow_le_pow_right (by decide : 0 < 2) h30
  rw [hslack]
  generalize Nat.clog 2 (bytes + 96) = k at hk7 ⊢
  generalize Nat.clog 2 bytes = l at hpos ⊢
  have h128 : 128 * 2 ^ k = 2 ^ (7 + k) := (pow_add 2 7 k).symm
  have hpow {x y : ℕ} : 2 ^ x ≤ 2 ^ y ↔ x ≤ y := Nat.pow_le_pow_iff_right (by decide)
  have hr : min 30 (max 6 l) ≤ m := by
    by_contra hlt
    rw [not_le] at hlt
    rw [Nat.div_eq_of_lt (Nat.pow_lt_pow_right (by decide) hlt)] at hpos
    exact absurd hpos (by simp)
  rw [h128, hpow, hpow, Nat.pow_div hr (by decide)] at *
  by_cases hk : k ≤ m
  · have h7 : 128 ≤ 2 ^ (m - k) ↔ 7 ≤ m - k := hpow (x := 7)
    rw [Nat.pow_div hk (by decide), min_le_iff, h7, hpow]
    omega
  · rw [Nat.div_eq_of_lt (Nat.pow_lt_pow_right (by decide) (not_le.mp hk))]
    omega

/-- **KV capacity.**  For every region, layer count and bytes per token that `pai_kv_cache_init` accepts, the
capacity is real, for the empty cache and after every reset, exactly when the charge of the suballocator
fits the rounding rule. -/
theorem capacityReal_iff (mem : Mem) (memory regionSize : UInt64)
    (numLayers kvBytesPerToken : UInt32)
    (h : ∀ st, paiKvCacheInit mem memory.toNat regionSize numLayers kvBytesPerToken ≠
      some (.error st)) :
    CapacitySound mem memory.toNat regionSize numLayers kvBytesPerToken ↔
      ChargeFits regionSize numLayers kvBytesPerToken := by
  obtain ⟨haccept, hlarge, hsmall⟩ := paiKvCacheInit_spec mem memory h
  obtain ⟨-, ⟨m, -, -, hm⟩, -, -⟩ := paiBuddyInit_accepts haccept.buddy
  by_cases hsize : regionSize.toNat ≤ 0x40000000
  · have h30 : m ≤ 30 := by
      rw [hm] at hsize
      exact (Nat.pow_le_pow_iff_right (by decide : 1 < 2)).mp hsize
    obtain ⟨hpos, c, hinit, hconfig, hheld⟩ := hsmall hsize
    have hfits := kvCapacity_le_iff hm h30 hpos (Nat.mul_pos haccept.layers.1 haccept.token)
    -- what the capacity of a cache with this configuration means
    have hreal {c : KvCache} (hc : KvConfig memory.toNat regionSize numLayers kvBytesPerToken c)
        (hk : KvHeld c [⟨c.buddy.maxOrder, 0⟩] []) :
        CapacityReal c ↔ ChargeFits regionSize numLayers kvBytesPerToken := by
      have hregion : 2 ^ c.buddy.maxOrder = 2 ^ m := by
        rw [← hm, ← hc.size_eq, ← hk.region.2, hk.holds.size_eq]
      rw [hk.real_iff, hc.capacity, hregion, ← hfits, KvCache.order, KvCache.bytes,
        hc.layers_eq, hc.token_eq]
    constructor
    · rintro ⟨⟨c', hinit', hcap⟩, -⟩
      rw [hinit] at hinit'
      rw [← Except.ok.inj (Option.some.inj hinit')] at hcap
      exact (hreal hconfig hheld).mp hcap
    · intro hcharge
      refine ⟨⟨c, hinit, (hreal hconfig hheld).mpr hcharge⟩, fun c₁ hc₁ => ?_⟩
      obtain ⟨c₂, hreset, hconfig₂, hheld₂⟩ :=
        paiKvCacheReset_spec haccept (hc₁.config h hsize) hsize
      exact ⟨c₂, hreset, (hreal hconfig₂ hheld₂).mpr hcharge⟩
  · constructor
    · rintro ⟨⟨c, hinit, -⟩, -⟩
      rw [hlarge (not_le.mp hsize)] at hinit
      exact absurd hinit (by simp)
    · exact fun hcharge => absurd hcharge.1 hsize

/-- A region of 4096 bytes is accepted for two layers of 8 bytes and for two of 72. -/
lemma kvAccepts_4096 {kvBytesPerToken : UInt32} (h : kvBytesPerToken = 8 ∨ kvBytesPerToken = 72)
    (st : PaiStatus) :
    paiKvCacheInit (fun _ => 0) 4096 4096 2 kvBytesPerToken ≠ some (.error st) := by
  have hinit : ∃ c, paiKvCacheInit (fun _ => 0) 4096 4096 2 kvBytesPerToken = some (.ok c) := by
    rcases h with rfl | rfl
    · exact ⟨_, rfl⟩
    · exact ⟨_, rfl⟩
  obtain ⟨c, hc⟩ := hinit
  rw [hc]
  simp

/-- Two layers of 72 bytes: 144 bytes with 96 more are charged the 256 bytes that the rule rounds to. -/
theorem capacityReal_iff_slack : CapacitySound (fun _ => 0) 4096 4096 2 72 :=
  (capacityReal_iff (fun _ => 0) 4096 4096 2 72 (kvAccepts_4096 (Or.inr rfl))).mpr (by decide)

/-- Two layers of 8 bytes in a region of 4096: the capacity is 64, and the 33rd reservation fails. -/
theorem capacityReal_fails :
    (∀ st, paiKvCacheInit (fun _ => 0) 4096 4096 2 8 ≠ some (.error st)) ∧
      ¬ CapacitySound (fun _ => 0) 4096 4096 2 8 := by
  refine ⟨kvAccepts_4096 (Or.inl rfl), ?_⟩
  rintro ⟨⟨c, hinit, hreal⟩, -⟩
  obtain ⟨haccept, -, hsmall⟩ := paiKvCacheInit_spec (fun _ => 0) 4096
    (kvAccepts_4096 (Or.inl rfl))
  obtain ⟨-, c', hinit', hconfig, hheld⟩ := hsmall (by decide)
  rw [show paiKvCacheInit (fun _ => 0) 4096 4096 2 8 = some (.ok c') from hinit'] at hinit
  rw [← Except.ok.inj (Option.some.inj hinit), hheld.real_iff] at hreal
  have hregion : 2 ^ c'.buddy.maxOrder = 4096 := by
    rw [← hheld.holds.size_eq, hheld.region.2, hconfig.size_eq]
    rfl
  rw [hconfig.capacity, hregion, KvCache.order, KvCache.bytes, hconfig.layers_eq,
    hconfig.token_eq] at hreal
  revert hreal
  decide

end Prospero
