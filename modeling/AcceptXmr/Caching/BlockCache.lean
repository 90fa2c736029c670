import AcceptXmr.MonerodClient
import Mathlib.Data.List.Chain

/-! # The block cache

`library/src/caching/block_cache.rs`: the newest blocks, newest first, advanced by one block at a
time and repaired after a reorg. `BlockCache.update` returns what it left in the cache also when it
fails, since the caller keeps using the cache.

* **`update_spec`** — answered from one consistent chain, an update of a linked cache either does
  nothing or advances the cache by one block, and every position from the reported count on holds
  the block it held before at that height. -/

namespace AcceptXmr

/-- A cached block. -/
structure Block where
  hash : Hash
  height : ℕ
  inner : MoneroBlock
  transactions : List Transaction
  deriving DecidableEq, Repr

/-- The block cache: `blocks[i]` is the cached block at height `height - i`. -/
structure BlockCache where
  height : ℕ
  daemonHeight : ℕ
  blocks : List Block
  deriving DecidableEq, Repr

/-- Request a block and its transactions: the pair of calls with which every block is fetched. -/
def MonerodClient.fetch (client : MonerodClient) (height : ℕ) : Except RpcError Block :=
  match client.block height with
  | .error e => .error e
  | .ok (blockId, block) =>
      match client.blockTransactions block with
      | .error e => .error e
      | .ok transactions => .ok ⟨blockId, height, block, transactions⟩

namespace BlockCache

/-- The loop of `init`: fetch `count` blocks downwards from `height`. -/
def fetchDown (client : MonerodClient) : ℕ → ℕ → Except RpcError (List Block)
  | 0, _ => .ok []
  | count + 1, height =>
      match client.fetch height with
      | .error e => .error e
      | .ok block =>
          match fetchDown client count (height - 1) with
          | .error e => .error e
          | .ok blocks => .ok (block :: blocks)

/-- `BlockCache::init`. -/
def init (client : MonerodClient) (cacheSize initialHeight daemonHeight : ℕ) :
    Except RpcError BlockCache :=
  match fetchDown client cacheSize initialHeight with
  | .error e => .error e
  | .ok blocks => .ok ⟨initialHeight, daemonHeight, blocks⟩

/-- The loop of `check_and_fix_reorg` at position `i`, where `block` is `blocks[i]` and `rest` the
deeper blocks. Returns the blocks below `block` as the loop leaves them. -/
def fixReorgFrom (client : MonerodClient) (cacheHeight : ℕ) :
    ℕ → Block → List Block → ℕ → Except RpcError ℕ × List Block
  | _, _, [], updated => (.ok updated, [])
  | i, block, next :: rest, updated =>
      if block.inner.prevId ≠ next.hash then
        -- `blocks[i + 1]` is replaced by the daemon's block at its height, and compared with the
        -- next one.
        match client.fetch (cacheHeight - 1 - i) with
        | .error e => (.error e, next :: rest)
        | .ok repaired =>
            let (result, rest') :=
              -- The first repair counts the block above it as well.
              fixReorgFrom client cacheHeight (i + 1) repaired rest (max updated 1 + 1)
            (result, repaired :: rest')
      else
        let (result, rest') := fixReorgFrom client cacheHeight (i + 1) next rest updated
        (result, next :: rest')

/-- `check_and_fix_reorg`: replace cached blocks that are not linked to the block above. -/
def checkAndFixReorg (client : MonerodClient) (self : BlockCache) :
    Except RpcError ℕ × BlockCache :=
  match self.blocks with
  | [] => (.ok 0, self)
  | block :: rest =>
      let (result, rest') := fixReorgFrom client self.height 0 block rest 0
      (result, { self with blocks := block :: rest' })

/-- The first half of `update`: fetch the next block if the daemon has one. -/
def advance (client : MonerodClient) (self : BlockCache) : Except RpcError ℕ × BlockCache :=
  if self.height < self.daemonHeight - 1 then
    match client.fetch (self.height + 1) with
    | .error e => (.error e, self)
    | .ok block =>
        (.ok 1, { self with height := self.height + 1, blocks := (block :: self.blocks).dropLast })
  else (.ok 0, self)

/-- `BlockCache::update`: advance by one block if there is one, then repair reorgs. Returns the
number of blocks updated. -/
def update (client : MonerodClient) (self : BlockCache) : Except RpcError ℕ × BlockCache :=
  match client.daemonHeight with
  | .error e => (.error e, self)
  | .ok blockchainHeight =>
      -- The new daemon height is stored even if what follows fails.
      match advance client { self with daemonHeight := blockchainHeight } with
      | (.error e, self) => (.error e, self)
      | (.ok updated, self) =>
          match checkAndFixReorg client self with
          | (.error e, self) => (.error e, self)
          | (.ok fixed, self) => (.ok (max updated fixed), self)

end BlockCache

/-! ## Linked caches and consistent chains -/

/-- The daemon answers from **one chain**: consecutive blocks it serves are linked. -/
def MonerodClient.Consistent (client : MonerodClient) : Prop :=
  ∀ h below above, client.fetch h = .ok below → client.fetch (h + 1) = .ok above →
    above.inner.prevId = below.hash

/-- Every block is linked to the next deeper one. -/
abbrev Linked (blocks : List Block) : Prop :=
  blocks.IsChain fun above below => above.inner.prevId = below.hash

/-- A daemon's blocks are linked. -/
theorem Daemon.client_consistent (daemon : Daemon) : daemon.client.Consistent := by
  intro h below above hbelow habove
  simp only [MonerodClient.fetch, Daemon.client] at hbelow habove
  cases hb : daemon.chain[h]? with
  | none => simp [hb] at hbelow
  | some lower =>
      cases ha : daemon.chain[h + 1]? with
      | none => simp [ha] at habove
      | some upper =>
          simp only [hb, ha, Except.ok.injEq] at hbelow habove
          rw [← hbelow, ← habove]
          simp [Daemon.hashAt, hb]

namespace BlockCache

/-- A **valid cache** of size `n`: full, linked, and deep enough below its height. -/
structure Valid (n : ℕ) (cache : BlockCache) : Prop where
  length : cache.blocks.length = n
  linked : Linked cache.blocks
  height : n ≤ cache.height + 1

/-- The cached block at height `b`, if `b` is in the cached window. -/
def blockAt (self : BlockCache) (b : ℕ) : Option Block :=
  if b ≤ self.height then self.blocks[self.height - b]? else none

/-- The downward loop of `init` fetches a linked run of blocks. -/
theorem fetchDown_spec {client : MonerodClient} (hc : client.Consistent) {n h : ℕ}
    {blocks : List Block} (hn : n ≤ h + 1) (hf : fetchDown client n h = .ok blocks) :
    blocks.length = n ∧ Linked blocks ∧
      ∀ i block, blocks[i]? = some block → client.fetch (h - i) = .ok block := by
  induction n generalizing h blocks with
  | zero =>
      cases hf
      exact ⟨rfl, .nil, by simp⟩
  | succ n ih =>
      rw [fetchDown] at hf
      split at hf
      · cases hf
      · rename_i block hblock
        split at hf
        · cases hf
        · rename_i rest hrest
          cases hf
          obtain ⟨hlen, hlinked, hget⟩ := ih (by omega) hrest
          refine ⟨by rw [List.length_cons, hlen], ?_, ?_⟩
          · cases rest with
            | nil => exact .singleton _
            | cons next rest =>
                -- There is a block below, and so `h - 1` is not cut off at zero.
                have hnext := hget 0 next rfl
                have hh : h = h - 1 + 1 := by
                  rw [List.length_cons] at hlen
                  omega
                rw [hh] at hblock
                exact .cons_cons (hc _ _ _ hnext hblock) hlinked
          · intro i b hb
            cases i with
            | zero => cases hb; exact hblock
            | succ i =>
                have := hget i b hb
                rwa [Nat.sub_sub, Nat.add_comm 1 i] at this

/-- `init` from a consistent chain gives a valid cache. -/
theorem init_valid {client : MonerodClient} (hc : client.Consistent) {n h d : ℕ}
    {cache : BlockCache} (hn : n ≤ h + 1) (hi : init client n h d = .ok cache) :
    cache.Valid n ∧ cache.height = h ∧ cache.daemonHeight = d := by
  unfold init at hi
  split at hi
  · cases hi
  · rename_i blocks hblocks
    cases hi
    obtain ⟨hlen, hlinked, -⟩ := fetchDown_spec hc hn hblocks
    exact ⟨⟨hlen, hlinked, hn⟩, rfl, rfl⟩

/-- A linked run of blocks is left alone. -/
theorem fixReorgFrom_linked (client : MonerodClient) (cacheHeight i : ℕ) {block : Block}
    {rest : List Block} (updated : ℕ) (h : Linked (block :: rest)) :
    fixReorgFrom client cacheHeight i block rest updated = (.ok updated, rest) := by
  induction rest generalizing i block with
  | nil => rfl
  | cons next rest ih =>
      obtain ⟨hlink, hrest⟩ := List.isChain_cons_cons.mp h
      rw [fixReorgFrom, if_neg (not_not.mpr hlink), ih (i + 1) hrest]

/-- **The repair loop.** Below a block of the daemon's chain, the loop replaces the first `j`
blocks and stops at the first one that is linked; the count goes up by one more than the number of
replaced blocks. -/
theorem fixReorgFrom_spec {client : MonerodClient} (hc : client.Consistent)
    {cacheHeight i updated updated' : ℕ} {block : Block} {rest rest' : List Block}
    (hblock : client.fetch (cacheHeight - i) = .ok block) (hdeep : i + rest.length ≤ cacheHeight)
    (hrest : Linked rest)
    (h : fixReorgFrom client cacheHeight i block rest updated = (.ok updated', rest')) :
    ∃ j ≤ rest.length, Linked (block :: rest') ∧ rest'.length = rest.length ∧
      rest'.drop j = rest.drop j ∧ updated' = if j = 0 then updated else max updated 1 + j := by
  induction rest generalizing i block updated rest' with
  | nil =>
      rw [fixReorgFrom] at h
      cases h
      exact ⟨0, le_rfl, .singleton _, rfl, rfl, rfl⟩
  | cons next rest ih =>
      rw [List.length_cons] at hdeep
      by_cases hlink : block.inner.prevId = next.hash
      · have hall : Linked (block :: next :: rest) := .cons_cons hlink hrest
        rw [fixReorgFrom_linked client cacheHeight i updated hall] at h
        cases h
        exact ⟨0, Nat.zero_le _, hall, rfl, rfl, rfl⟩
      · rw [fixReorgFrom, if_pos hlink] at h
        split at h
        · cases h
        · rename_i repaired hrepaired
          obtain ⟨hres, rfl⟩ := Prod.mk.inj h
          rw [show cacheHeight - 1 - i = cacheHeight - (i + 1) by omega] at hrepaired
          obtain ⟨j, hj, hlinked, hlen, hdrop, hcount⟩ := ih hrepaired (by omega)
            (List.isChain_of_isChain_cons hrest) (Prod.ext hres rfl)
          -- Both blocks are of the daemon's chain now.
          have habove : block.inner.prevId = repaired.hash := by
            refine hc _ _ _ hrepaired ?_
            rwa [show cacheHeight - (i + 1) + 1 = cacheHeight - i by omega]
          refine ⟨j + 1, Nat.succ_le_succ hj, .cons_cons habove hlinked, ?_, ?_, ?_⟩
          · rw [List.length_cons, hlen, List.length_cons]
          · rw [List.drop_succ_cons, List.drop_succ_cons, hdrop]
          · rw [hcount, if_neg (Nat.succ_ne_zero j)]
            split <;> omega

/-- What an update of a valid cache of size `n` may do when it reports `count` updated blocks. -/
structure Updated (n : ℕ) (before : BlockCache) (count : ℕ) (after : BlockCache) : Prop where
  valid : after.Valid n
  /-- The height moves by one block, and only if some block is reported. -/
  height : after.height = before.height + if count = 0 then 0 else 1
  count_le : count ≤ n
  /-- Heights below the reported blocks keep the block they had. -/
  kept : ∀ b, b + count ≤ after.height → after.height < b + n → after.blockAt b = before.blockAt b

/-- The reported blocks do not reach below height zero. -/
theorem Updated.count_le_height {n count : ℕ} {before after : BlockCache}
    (h : Updated n before count after) (hv : before.Valid n) : count ≤ after.height := by
  have hh := h.height
  have hn := h.count_le
  have hd := hv.height
  split at hh <;> omega

/-- A linked cache needs no repair. -/
theorem checkAndFixReorg_linked (client : MonerodClient) {self : BlockCache}
    (h : Linked self.blocks) : checkAndFixReorg client self = (.ok 0, self) := by
  unfold checkAndFixReorg
  split
  · rfl
  · rename_i block rest hblocks
    rw [hblocks] at h
    rw [fixReorgFrom_linked client self.height 0 0 h]
    simp [← hblocks]

/-- Repairing a cache leaves its heights alone. -/
theorem checkAndFixReorg_height {client : MonerodClient} {self after : BlockCache}
    {result : Except RpcError ℕ} (h : checkAndFixReorg client self = (result, after)) :
    after.height = self.height ∧ after.daemonHeight = self.daemonHeight := by
  unfold checkAndFixReorg at h
  split at h
  all_goals
    cases h
    exact ⟨rfl, rfl⟩

/-- Repairing a cache whose top block has just been fetched. -/
theorem checkAndFixReorg_top {client : MonerodClient} (hc : client.Consistent) {n : ℕ}
    {self after : BlockCache} {block : Block} {rest : List Block} {fixed : ℕ}
    (hblocks : self.blocks = block :: rest) (hlen : self.blocks.length = n)
    (hblock : client.fetch self.height = .ok block) (hrest : Linked rest) (hn : n ≤ self.height)
    (h : checkAndFixReorg client self = (.ok fixed, after)) :
    after.Valid n ∧ after.height = self.height ∧ ∃ j, j + 1 ≤ n ∧ max 1 fixed = j + 1 ∧
      ∀ m, j ≤ m → after.blocks[m + 1]? = rest[m]? := by
  unfold checkAndFixReorg at h
  rw [hblocks] at h
  obtain ⟨hres, rfl⟩ := Prod.mk.inj h
  rw [hblocks, List.length_cons] at hlen
  have htop : client.fetch (self.height - 0) = .ok block := hblock
  have hdeep : 0 + rest.length ≤ self.height := by omega
  obtain ⟨j, hj, hlinked, hlen', hdrop, hcount⟩ :=
    fixReorgFrom_spec hc htop hdeep hrest (Prod.ext hres rfl)
  refine ⟨⟨?_, hlinked, ?_⟩, rfl, j, by omega, ?_, fun m hm => ?_⟩
  · simpa only [List.length_cons, hlen'] using hlen
  · exact Nat.le_succ_of_le hn
  · rw [hcount]
    split <;> omega
  · have := congrArg (fun l => l[m - j]?) hdrop
    simp only [List.getElem?_drop, show j + (m - j) = m by omega] at this
    simpa using this

/-- The ways in which an update succeeds: nothing to fetch, or the next block fetched; then the
repair loop. -/
theorem update_cases {client : MonerodClient} {self after : BlockCache} {count : ℕ}
    (h : update client self = (.ok count, after)) :
    ∃ d, client.daemonHeight = .ok d ∧
      ((d - 1 ≤ self.height ∧
          checkAndFixReorg client { self with daemonHeight := d } = (.ok count, after)) ∨
        (self.height < d - 1 ∧ ∃ block fixed, client.fetch (self.height + 1) = .ok block ∧
          checkAndFixReorg client ⟨self.height + 1, d, (block :: self.blocks).dropLast⟩
            = (.ok fixed, after) ∧ count = max 1 fixed)) := by
  unfold update at h
  split at h
  · cases h
  · rename_i d hd
    refine ⟨d, hd, ?_⟩
    by_cases hadv : self.height < d - 1
    · refine .inr ⟨hadv, ?_⟩
      unfold advance at h
      rw [if_pos hadv] at h
      cases hblock : client.fetch (self.height + 1) with
      | error e =>
          rw [hblock] at h
          cases h
      | ok block =>
          rw [hblock] at h
          dsimp only at h
          split at h
          · cases h
          · rename_i fixed self' hfix
            cases h
            exact ⟨block, fixed, rfl, hfix, rfl⟩
    · refine .inl ⟨Nat.le_of_not_lt hadv, ?_⟩
      unfold advance at h
      rw [if_neg hadv] at h
      dsimp only at h
      split at h
      · cases h
      · rename_i fixed self' hfix
        cases h
        rw [Nat.zero_max]
        exact hfix

/-- **An update is fully reported.** Answered from one consistent chain, an update of a valid cache
either does nothing or advances it by one block; every height whose block it changes is among the
blocks it reports. -/
theorem update_spec {client : MonerodClient} (hc : client.Consistent) {n : ℕ} (hn : 1 ≤ n)
    {self after : BlockCache} {count : ℕ} (hv : self.Valid n)
    (h : update client self = (.ok count, after)) : Updated n self count after := by
  obtain ⟨d, -, ⟨-, hfix⟩ | ⟨-, block, fixed, hblock, hfix, rfl⟩⟩ := update_cases h
  · have hlinked : Linked { self with daemonHeight := d }.blocks := hv.linked
    rw [checkAndFixReorg_linked client hlinked] at hfix
    cases hfix
    exact ⟨⟨hv.length, hv.linked, hv.height⟩, rfl, Nat.zero_le _, fun _ _ _ => rfl⟩
  · obtain ⟨hd, tl, hblocks⟩ := List.exists_cons_of_length_pos
      (by rw [hv.length]; omega : 0 < self.blocks.length)
    have hrest : (block :: self.blocks).dropLast = block :: self.blocks.dropLast := by
      rw [hblocks]; rfl
    have hlen : self.blocks.dropLast.length + 1 = n := by
      rw [List.length_dropLast, hv.length]; omega
    obtain ⟨hvalid, hheight, j, hjn, hcount, hkept⟩ :=
      checkAndFixReorg_top hc hrest (by rw [hrest, List.length_cons, hlen]) hblock
        hv.linked.dropLast hv.height hfix
    refine ⟨hvalid, ?_, by omega, fun b hb hw => ?_⟩
    · rw [hheight, hcount, if_neg (Nat.succ_ne_zero j)]
    · -- Position `i + 1` of the new cache is position `i` of the old one.
      dsimp only at hheight
      have hi : after.height - b = self.height - b + 1 := by omega
      have hlt : self.height - b < self.blocks.length - 1 := by rw [hv.length]; omega
      rw [blockAt, blockAt, if_pos (by omega), if_pos (by omega), hi,
        hkept (self.height - b) (by omega), List.getElem?_dropLast, if_pos hlt]

/-! ## The heights of the cached blocks -/

/-- A fetched block is of the height it was asked for. -/
theorem fetch_height {client : MonerodClient} {h : ℕ} {block : Block}
    (hf : client.fetch h = .ok block) : block.height = h := by
  unfold MonerodClient.fetch at hf
  split at hf
  · cases hf
  · split at hf
    · cases hf
    · cases hf
      rfl

/-- **Every cached block is in its place**, whatever the daemon answers: `blocks[i]` is a block of
height `height - i`. -/
structure Placed (n : ℕ) (cache : BlockCache) : Prop where
  length : cache.blocks.length = n
  height : n ≤ cache.height + 1
  place : ∀ i block, cache.blocks[i]? = some block → block.height = cache.height - i

theorem fetchDown_place {client : MonerodClient} {n h : ℕ} {blocks : List Block}
    (hf : fetchDown client n h = .ok blocks) :
    blocks.length = n ∧ ∀ i block, blocks[i]? = some block → block.height = h - i := by
  induction n generalizing h blocks with
  | zero =>
      cases hf
      exact ⟨rfl, by simp⟩
  | succ n ih =>
      rw [fetchDown] at hf
      split at hf
      · cases hf
      · rename_i block hblock
        split at hf
        · cases hf
        · rename_i rest hrest
          cases hf
          obtain ⟨hlen, hplace⟩ := ih hrest
          refine ⟨by rw [List.length_cons, hlen], ?_⟩
          intro i b hb
          cases i with
          | zero =>
              cases hb
              exact fetch_height hblock
          | succ i =>
              rw [hplace i b hb]
              omega

/-- A new cache has every block in its place. -/
theorem init_placed {client : MonerodClient} {n h d : ℕ} {cache : BlockCache} (hn : n ≤ h + 1)
    (hi : init client n h d = .ok cache) :
    cache.Placed n ∧ cache.height = h ∧ cache.daemonHeight = d := by
  unfold init at hi
  split at hi
  · cases hi
  · rename_i blocks hblocks
    cases hi
    obtain ⟨hlen, hplace⟩ := fetchDown_place hblocks
    exact ⟨⟨hlen, hn, hplace⟩, rfl, rfl⟩

/-- The repair loop puts every block it fetches in the place of the block it replaces. -/
theorem fixReorgFrom_place {client : MonerodClient} {cacheHeight i updated : ℕ} {block : Block}
    {rest rest' : List Block} {result : Except RpcError ℕ}
    (h : fixReorgFrom client cacheHeight i block rest updated = (result, rest'))
    (hplace : ∀ j b, rest[j]? = some b → b.height = cacheHeight - (i + 1 + j)) :
    rest'.length = rest.length ∧
      ∀ j b, rest'[j]? = some b → b.height = cacheHeight - (i + 1 + j) := by
  induction rest generalizing i block updated rest' with
  | nil =>
      cases h
      exact ⟨rfl, hplace⟩
  | cons next rest ih =>
      have hrest : ∀ j b, rest[j]? = some b → b.height = cacheHeight - (i + 1 + 1 + j) := by
        intro j b hb
        rw [hplace (j + 1) b hb]
        omega
      -- The block in front is `next` or the one that was fetched for its height.
      have hcons : ∀ (front : Block) (tail : List Block), front.height = cacheHeight - (i + 1) →
          tail.length = rest.length ∧
            (∀ j b, tail[j]? = some b → b.height = cacheHeight - (i + 1 + 1 + j)) →
          (front :: tail).length = (next :: rest).length ∧
            ∀ j b, (front :: tail)[j]? = some b → b.height = cacheHeight - (i + 1 + j) := by
        rintro front tail hfront ⟨hlen, htail⟩
        refine ⟨by rw [List.length_cons, List.length_cons, hlen], ?_⟩
        intro j b hb
        cases j with
        | zero =>
            cases hb
            exact hfront
        | succ j =>
            rw [htail j b hb]
            omega
      rw [fixReorgFrom] at h
      split at h
      · split at h
        · cases h
          exact ⟨rfl, hplace⟩
        · rename_i repaired hrepaired
          obtain ⟨hres, rfl⟩ := Prod.mk.inj h
          refine hcons _ _ ?_ (ih (Prod.ext hres rfl) hrest)
          rw [fetch_height hrepaired]
          omega
      · obtain ⟨hres, rfl⟩ := Prod.mk.inj h
        exact hcons _ _ (hplace 0 next rfl) (ih (Prod.ext hres rfl) hrest)

/-- Repairing a cache leaves its height and keeps every block in its place. -/
theorem checkAndFixReorg_placed {client : MonerodClient} {n : ℕ} {self after : BlockCache}
    {result : Except RpcError ℕ} (hp : self.Placed n)
    (h : checkAndFixReorg client self = (result, after)) :
    after.Placed n ∧ after.height = self.height ∧ after.daemonHeight = self.daemonHeight := by
  unfold checkAndFixReorg at h
  split at h
  · cases h
    exact ⟨hp, rfl, rfl⟩
  · rename_i block rest hblocks
    obtain ⟨-, rfl⟩ := Prod.mk.inj h
    have hplace : ∀ j b, rest[j]? = some b → b.height = self.height - (0 + 1 + j) := by
      intro j b hb
      rw [Nat.zero_add, Nat.add_comm 1 j]
      exact hp.place (j + 1) b (by rw [hblocks]; exact hb)
    obtain ⟨hlen, hplace'⟩ := fixReorgFrom_place rfl hplace
    refine ⟨⟨?_, hp.height, ?_⟩, rfl, rfl⟩
    · rw [← hp.length, hblocks, List.length_cons, List.length_cons, hlen]
    · intro i b hb
      cases i with
      | zero =>
          cases hb
          exact hp.place 0 _ (by rw [hblocks]; rfl)
      | succ i =>
          rw [hplace' i b hb, Nat.zero_add, Nat.add_comm 1 i]

/-- **An update** keeps every block in its place, and stays below the height of the daemon. If it
advances, it reports a block. -/
theorem update_placed {client : MonerodClient} {n d count : ℕ} {self after : BlockCache}
    (hn : 1 ≤ n) (hp : self.Placed n) (hd : client.daemonHeight = .ok d)
    (h : update client self = (.ok count, after)) :
    after.Placed n ∧ after.daemonHeight = d ∧
      (d - 1 ≤ self.height ∧ after.height = self.height ∨
        self.height < d - 1 ∧ after.height = self.height + 1 ∧ 1 ≤ count) := by
  obtain ⟨d', hd', hcases⟩ := update_cases h
  obtain rfl : d' = d := by
    rw [hd] at hd'
    exact (Except.ok.inj hd').symm
  rcases hcases with ⟨hcaught, hfix⟩ | ⟨hbehind, block, fixed, hblock, hfix, rfl⟩
  · have hsame : ({ self with daemonHeight := d' } : BlockCache).Placed n :=
      ⟨hp.length, hp.height, hp.place⟩
    obtain ⟨hplaced, hheight, hdaemon⟩ := checkAndFixReorg_placed hsame hfix
    exact ⟨hplaced, hdaemon, .inl ⟨hcaught, hheight⟩⟩
  · have hpushed : (⟨self.height + 1, d', (block :: self.blocks).dropLast⟩ : BlockCache).Placed n := by
      refine ⟨?_, ?_, ?_⟩
      · simp only [List.length_dropLast, List.length_cons, hp.length]
        omega
      · have := hp.height
        simp only
        omega
      · intro i b hb
        simp only [List.getElem?_dropLast] at hb
        split at hb
        · cases i with
          | zero =>
              cases hb
              exact fetch_height hblock
          | succ i =>
              rw [hp.place i b hb]
              simp only
              omega
        · cases hb
    obtain ⟨hplaced, hheight, hdaemon⟩ := checkAndFixReorg_placed hpushed hfix
    exact ⟨hplaced, hdaemon, .inr ⟨hbehind, hheight, le_max_left _ _⟩⟩

/-- A height is among those of the newest `count` blocks. -/
theorem Placed.mem_take {n count b : ℕ} {cache : BlockCache} (hp : cache.Placed n)
    (hcount : cache.height < b + count) (hwindow : cache.height < b + n) (hb : b ≤ cache.height) :
    b ∈ (cache.blocks.take count).map Block.height := by
  have hlt : cache.height - b < cache.blocks.length := by
    rw [hp.length]
    omega
  have hget := List.getElem?_eq_getElem hlt
  refine List.mem_map.mpr ⟨cache.blocks[cache.height - b], ?_, ?_⟩
  · refine List.mem_of_getElem? (i := cache.height - b) ?_
    rw [List.getElem?_take, if_pos (by omega), hget]
  · rw [hp.place _ _ hget]
    omega

/-! ## Where the cached blocks are from -/

/-- `block` is what the daemon answers to the requests for some height. -/
def FetchedFrom (client : MonerodClient) (block : Block) : Prop :=
  ∃ height, client.fetch height = .ok block

theorem fetchDown_fetched {client : MonerodClient} {n h : ℕ} {blocks : List Block}
    (hf : fetchDown client n h = .ok blocks) : ∀ block ∈ blocks, FetchedFrom client block := by
  induction n generalizing h blocks with
  | zero =>
      cases hf
      nofun
  | succ n ih =>
      rw [fetchDown] at hf
      split at hf
      · cases hf
      · rename_i top htop
        split at hf
        · cases hf
        · rename_i rest hrest
          cases hf
          intro block hblock
          rcases List.mem_cons.mp hblock with rfl | hblock
          · exact ⟨h, htop⟩
          · exact ih hrest block hblock

/-- The repair loop leaves blocks that were there and blocks that it has fetched. -/
theorem fixReorgFrom_fetched (client : MonerodClient) (cacheHeight i updated : ℕ) (above : Block)
    (rest : List Block) :
    ∀ block ∈ (fixReorgFrom client cacheHeight i above rest updated).2,
      block ∈ rest ∨ FetchedFrom client block := by
  induction rest generalizing i above updated with
  | nil => nofun
  | cons next rest ih =>
      intro block hblock
      rw [fixReorgFrom] at hblock
      split at hblock
      · split at hblock
        · exact .inl hblock
        · rename_i repaired hrepaired
          rcases List.mem_cons.mp hblock with rfl | hblock
          · exact .inr ⟨_, hrepaired⟩
          · exact (ih _ _ _ block hblock).imp_left (List.mem_cons_of_mem _)
      · rcases List.mem_cons.mp hblock with rfl | hblock
        · exact .inl List.mem_cons_self
        · exact (ih _ _ _ block hblock).imp_left (List.mem_cons_of_mem _)

theorem checkAndFixReorg_fetched (client : MonerodClient) (self : BlockCache) :
    ∀ block ∈ (checkAndFixReorg client self).2.blocks,
      block ∈ self.blocks ∨ FetchedFrom client block := by
  intro block hblock
  unfold checkAndFixReorg at hblock
  split at hblock
  · exact .inl hblock
  · rename_i top rest hblocks
    rw [hblocks]
    rcases List.mem_cons.mp hblock with rfl | hblock
    · exact .inl List.mem_cons_self
    · exact (fixReorgFrom_fetched client _ _ _ _ _ block hblock).imp_left (List.mem_cons_of_mem _)

theorem advance_fetched (client : MonerodClient) (self : BlockCache) :
    ∀ block ∈ (advance client self).2.blocks, block ∈ self.blocks ∨ FetchedFrom client block := by
  intro block hblock
  unfold advance at hblock
  split at hblock
  · split at hblock
    · exact .inl hblock
    · rename_i top htop
      rcases List.mem_cons.mp (List.dropLast_subset _ hblock) with rfl | hblock
      · exact .inr ⟨_, htop⟩
      · exact .inl hblock
  · exact .inl hblock

/-- **An update**, failed or not, leaves blocks that were cached and blocks that it has fetched. -/
theorem update_fetched (client : MonerodClient) (self : BlockCache) :
    ∀ block ∈ (update client self).2.blocks, block ∈ self.blocks ∨ FetchedFrom client block := by
  intro block hblock
  unfold update at hblock
  split at hblock
  · exact .inl hblock
  · rename_i d hd
    have hadvance := advance_fetched client { self with daemonHeight := d }
    split at hblock
    · rename_i e advanced hadvanced
      rw [hadvanced] at hadvance
      exact hadvance block hblock
    · rename_i updated advanced hadvanced
      rw [hadvanced] at hadvance
      have hfix := checkAndFixReorg_fetched client advanced
      split at hblock
      all_goals
        rename_i fixed hfixed
        rw [hfixed] at hfix
        exact (hfix block hblock).elim (hadvance block) .inr

end BlockCache

end AcceptXmr
