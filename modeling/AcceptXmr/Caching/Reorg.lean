import AcceptXmr.Caching.BlockCache
import Mathlib.Data.Set.Basic
import Mathlib.Logic.Relation

/-! # Reorg repair

What `BlockCache::update` makes of a cache when the daemon's chain has changed below the cached
blocks. Answered from one chain, an update that advances brings the whole cache onto that chain, and
the count it returns covers every block that it has replaced.

An update that fails leaves its new and repaired blocks in the cache and reports none of them. The
count of a later update is that of its own repairs, wherever it makes them.

* **`fixReorgFrom_chain`** — below a block of the daemon's chain, the loop leaves blocks of that
  chain.
* **`reorg_repair_complete`** — what an update does, if the daemon answers from one chain.
* **`Known.step`** — what a reader of the updates knows about the cache, kept by failed updates too.
* **`interrupted_repair_reported`** — runs in which every change is reported in the end.
* **`covers_of_whole`** — among them those in which no failed update changes the cache. -/

namespace AcceptXmr

/-! ## Answers from one chain -/

/-- A chain of blocks, genesis block first: every block is linked to the one below. -/
def LinkedUp (chain : List Block) : Prop :=
  ∀ h below above, chain[h]? = some below → chain[h + 1]? = some above →
    above.inner.prevId = below.hash

/-- **The daemon answers from a chain**, as far as it answers. -/
structure MonerodClient.AnswersFrom (client : MonerodClient) (chain : List Block) : Prop where
  height : ∀ d, client.daemonHeight = .ok d → d = chain.length
  block : ∀ h block, client.fetch h = .ok block → chain[h]? = some block

/-- A daemon that answers from one linked chain is consistent. -/
theorem MonerodClient.AnswersFrom.consistent {client : MonerodClient} {chain : List Block}
    (h : client.AnswersFrom chain) (hchain : LinkedUp chain) : client.Consistent :=
  fun b below above hbelow habove =>
    hchain b below above (h.block b below hbelow) (h.block (b + 1) above habove)

/-- **Hashes are free of collisions**: a cached block with the hash of a block of the chain is that
block. -/
def CollisionFree (blocks chain : List Block) : Prop :=
  ∀ block ∈ blocks, ∀ other ∈ chain, block.hash = other.hash → block = other

namespace BlockCache

/-- **The repair loop on a chain.** Below a block of the daemon's chain, every position holds the
block of that chain in the end: a block that is linked to the one above is of the chain, and one that
is not is replaced. -/
theorem fixReorgFrom_chain {client : MonerodClient} {chain : List Block} (hchain : LinkedUp chain)
    (hanswers : client.AnswersFrom chain) {cacheHeight i updated updated' : ℕ} {block : Block}
    {rest rest' : List Block} (hfree : CollisionFree rest chain)
    (hblock : chain[cacheHeight - i]? = some block) (hdeep : i + rest.length ≤ cacheHeight)
    (h : fixReorgFrom client cacheHeight i block rest updated = (.ok updated', rest')) :
    ∀ j < rest.length, rest'[j]? = chain[cacheHeight - (i + 1 + j)]? := by
  induction rest generalizing i block updated rest' with
  | nil => exact fun j hj => absurd hj (Nat.not_lt_zero j)
  | cons next rest ih =>
      rw [List.length_cons] at hdeep
      have hfree' : CollisionFree rest chain :=
        fun b hb => hfree b (List.mem_cons_of_mem _ hb)
      -- Both branches go on below a block of the chain at the next height.
      have hgo : ∀ {updated : ℕ} {front : Block} {tail : List Block},
          chain[cacheHeight - (i + 1)]? = some front →
          fixReorgFrom client cacheHeight (i + 1) front rest updated = (.ok updated', tail) →
          ∀ j < (next :: rest).length,
            (front :: tail)[j]? = chain[cacheHeight - (i + 1 + j)]? := by
        intro updated front tail hfront htail j hj
        cases j with
        | zero => exact hfront.symm
        | succ j =>
            rw [List.getElem?_cons_succ, ih hfree' hfront (by omega) htail j (by simpa using hj)]
            congr 1
            omega
      rw [fixReorgFrom] at h
      split at h
      · split at h
        · cases h
        · rename_i repaired hrepaired
          obtain ⟨hres, rfl⟩ := Prod.mk.inj h
          rw [show cacheHeight - 1 - i = cacheHeight - (i + 1) by omega] at hrepaired
          exact hgo (hanswers.block _ _ hrepaired) (Prod.ext hres rfl)
      · rename_i hlink
        obtain ⟨hres, rfl⟩ := Prod.mk.inj h
        refine hgo ?_ (Prod.ext hres rfl)
        -- The chain has a block below, which has the hash of the cached one.
        have hlt : cacheHeight - (i + 1) < chain.length := by
          have := (List.getElem?_eq_some_iff.mp hblock).1
          omega
        obtain ⟨below, hbelow⟩ : ∃ below, chain[cacheHeight - (i + 1)]? = some below :=
          ⟨_, List.getElem?_eq_getElem hlt⟩
        have hhash : block.inner.prevId = below.hash := by
          refine hchain _ _ _ hbelow ?_
          rwa [show cacheHeight - (i + 1) + 1 = cacheHeight - i by omega]
        have hsame : next = below := by
          refine hfree next List.mem_cons_self below (List.mem_of_getElem? hbelow) ?_
          rw [← not_not.mp hlink, hhash]
        rw [hsame, hbelow]

/-- Every position holds a block of its height. -/
def Consecutive (cache : BlockCache) : Prop :=
  ∀ i block, cache.blocks[i]? = some block → block.height + i = cache.height

/-- Consecutive heights put every block in its place. -/
theorem Consecutive.placed {cache : BlockCache} (h : cache.Consecutive) :
    cache.Placed cache.blocks.length := by
  refine ⟨rfl, ?_, fun i block hblock => ?_⟩
  · cases hlast : cache.blocks[cache.blocks.length - 1]? with
    | none =>
        rw [List.getElem?_eq_none_iff] at hlast
        omega
    | some block =>
        have := h _ _ hlast
        omega
  · have := h i block hblock
    omega

/-- Blocks that are all in their places have consecutive heights. -/
theorem Placed.consecutive {n : ℕ} {cache : BlockCache} (h : cache.Placed n) :
    cache.Consecutive := by
  intro i block hblock
  have hi := (List.getElem?_eq_some_iff.mp hblock).1
  have hheight := h.height
  rw [h.length] at hi
  rw [h.place i block hblock]
  omega

/-- **An update that advances** brings the whole cache onto the daemon's chain. -/
theorem update_on_chain {client : MonerodClient} {chain : List Block} (hchain : LinkedUp chain)
    (hanswers : client.AnswersFrom chain) {n count : ℕ} {self after : BlockCache} (hn : 1 ≤ n)
    (hp : self.Placed n) (hfree : CollisionFree self.blocks chain)
    (h : update client self = (.ok count, after)) (hbehind : self.height < chain.length - 1) :
    ∀ i < n, after.blocks[i]? = chain[after.height - i]? := by
  obtain ⟨d, hd, ⟨hcaught, -⟩ | ⟨-, block, fixed, hblock, hfix, -⟩⟩ := update_cases h
  · -- There is a next block, so the update does not stop here.
    have := hanswers.height d hd
    omega
  · obtain ⟨top, tl, hblocks⟩ := List.exists_cons_of_length_pos
      (by rw [hp.length]; omega : 0 < self.blocks.length)
    have hrest : (block :: self.blocks).dropLast = block :: self.blocks.dropLast := by
      rw [hblocks]
      rfl
    have hlen : self.blocks.dropLast.length + 1 = n := by
      rw [List.length_dropLast, hp.length]
      omega
    -- The fetched block is on the chain, and the repair loop starts below it.
    unfold checkAndFixReorg at hfix
    rw [hrest] at hfix
    obtain ⟨hres, rfl⟩ := Prod.mk.inj hfix
    have hfree' : CollisionFree self.blocks.dropLast chain :=
      fun b hb => hfree b (List.dropLast_subset _ hb)
    have htop : chain[self.height + 1 - 0]? = some block := hanswers.block _ _ hblock
    have hdeep : 0 + self.blocks.dropLast.length ≤ self.height + 1 := by
      have := hp.height
      omega
    have hbelow := fixReorgFrom_chain hchain hanswers hfree' htop hdeep (Prod.ext hres rfl)
    intro i hi
    cases i with
    | zero => exact htop.symm
    | succ i =>
        rw [List.getElem?_cons_succ, hbelow i (by omega), Nat.zero_add, Nat.add_comm 1 i]

/-- **Reorg repair is complete and fully reported.** Let a cache of consecutive, linked blocks be
updated by a daemon that answers from one chain. Its size stays, it is linked and consecutive again;
if the daemon has a next block the height grows by one and every position holds the block of the
daemon's chain, and otherwise nothing changes and nothing is reported; every position from the
reported count on holds the block that was cached at its height before; and no subtraction in the
repair loop goes below zero. -/
theorem reorg_repair_complete {client : MonerodClient} {chain : List Block}
    (hchain : LinkedUp chain) (hanswers : client.AnswersFrom chain) {self after : BlockCache}
    {count : ℕ} (hsize : 1 ≤ self.blocks.length) (hlinked : Linked self.blocks)
    (hheights : self.Consecutive) (hfree : CollisionFree self.blocks chain)
    (h : update client self = (.ok count, after)) :
    (after.blocks.length = self.blocks.length ∧ Linked after.blocks ∧ after.Consecutive) ∧
    (if self.height < chain.length - 1 then
        after.height = self.height + 1 ∧
          ∀ i < self.blocks.length, after.blocks[i]? = chain[after.height - i]?
      else after.height = self.height ∧ after.blocks = self.blocks ∧ count = 0) ∧
    (∀ i block, count ≤ i → after.blocks[i]? = some block →
      self.blockAt block.height = some block) ∧
    ∀ i, i + 1 < after.blocks.length → i + 1 ≤ after.height := by
  have hc := hanswers.consistent hchain
  have hp := hheights.placed
  have hv : self.Valid self.blocks.length := ⟨rfl, hlinked, hp.height⟩
  obtain ⟨d, hd, hcases⟩ := update_cases h
  have hupdated := update_spec hc hsize hv h
  obtain ⟨hplaced, -, hmoved⟩ := update_placed hsize hp hd h
  have hlength := hanswers.height d hd
  refine ⟨⟨hupdated.valid.length, hupdated.valid.linked, hplaced.consecutive⟩, ?_, ?_, ?_⟩
  · -- With a next block the whole cache is brought onto the chain; without one nothing changes.
    split
    · rename_i hbehind
      refine ⟨?_, update_on_chain hchain hanswers hsize hp hfree h hbehind⟩
      rcases hmoved with ⟨hcaught, -⟩ | ⟨-, hheight, -⟩
      · omega
      · exact hheight
    · rename_i hcaught
      rcases hcases with ⟨-, hfix⟩ | ⟨hbehind, -⟩
      · have hlinked' : Linked { self with daemonHeight := d }.blocks := hlinked
        rw [checkAndFixReorg_linked client hlinked'] at hfix
        cases hfix
        exact ⟨rfl, rfl, rfl⟩
      · omega
  · intro i block hi hblock
    -- A block that is not among the reported ones has kept its height.
    have hheight := hplaced.consecutive i block hblock
    have hlt := (List.getElem?_eq_some_iff.mp hblock).1
    rw [hplaced.length] at hlt
    rw [← hupdated.kept block.height (by omega) (by omega), blockAt, if_pos (by omega),
      show after.height - block.height = i by omega]
    exact hblock
  · intro i hi
    have := hplaced.height
    rw [hplaced.length] at hi
    omega

/-- A daemon that answers from a chain of blocks without transactions, except at some heights. -/
def chainClient (chain : List Block) (fails : ℕ → Bool) : MonerodClient where
  block h :=
    if fails h then .error .timeout
    else
      match chain[h]? with
      | some block => .ok (block.hash, block.inner)
      | none => .error .request
  blockTransactions _ := .ok []
  txpool := .ok []
  txpoolHashes := .ok []
  transactionsByHashes _ := .ok []
  daemonHeight := .ok chain.length

/-- Blocks without transactions at consecutive heights, given by their hashes. -/
def emptyBlocks : ℕ → Hash → List Hash → List Block
  | _, _, [] => []
  | height, prevId, hash :: hashes =>
      ⟨hash, height, ⟨prevId, []⟩, []⟩ :: emptyBlocks (height + 1) hash hashes

/-- The blocks of a chain of empty blocks, by their place. -/
theorem getElem?_emptyBlocks {height h : ℕ} {prevId : Hash} {hashes : List Hash} {block : Block}
    (hblock : (emptyBlocks height prevId hashes)[h]? = some block) :
    hashes[h]? = some block.hash ∧ block.height = height + h ∧ block.transactions = [] := by
  induction hashes generalizing height h prevId with
  | nil => cases hblock
  | cons hash hashes ih =>
      cases h with
      | zero =>
          cases hblock
          exact ⟨rfl, rfl, rfl⟩
      | succ h =>
          obtain ⟨hhash, hheight, htransactions⟩ := ih hblock
          exact ⟨hhash, by omega, htransactions⟩

/-- Each of them is linked to the one before. -/
theorem linkedUp_emptyBlocks (height : ℕ) (prevId : Hash) (hashes : List Hash) :
    LinkedUp (emptyBlocks height prevId hashes) := by
  induction hashes generalizing height prevId with
  | nil => exact fun h below above hbelow => by cases hbelow
  | cons hash hashes ih =>
      intro h below above hbelow habove
      cases h with
      | zero =>
          cases hbelow
          cases hashes with
          | nil => cases habove
          | cons next hashes =>
              cases habove
              rfl
      | succ h => exact ih (height + 1) hash h below above hbelow habove

/-- A daemon with that chain answers from it, where it does not fail. -/
theorem chainClient_answersFrom (hashes : List Hash) (fails : ℕ → Bool) :
    (chainClient (emptyBlocks 0 0 hashes) fails).AnswersFrom (emptyBlocks 0 0 hashes) := by
  constructor
  · intro d hd
    exact (Except.ok.inj hd).symm
  · intro h block hblock
    simp only [MonerodClient.fetch, chainClient] at hblock
    split at hblock
    · cases hblock
    · rename_i blockId inner hserved
      split at hserved
      · cases hserved
      · split at hserved
        · rename_i served hget
          cases hserved
          cases hblock
          obtain ⟨-, hheight, htransactions⟩ := getElem?_emptyBlocks hget
          rw [hget, Option.some.injEq]
          cases served
          simp_all
        · cases hserved

/-- A cache of size two at height 1, whose top block is not of the chain `1, 2, 3`. -/
def forkedCache : BlockCache := ⟨1, 2, (emptyBlocks 0 0 [1, 12]).reverse⟩

/-- A reorg of one block: both blocks are new, and both are reported. -/
theorem reorg_repair_complete_one :
    (update (chainClient (emptyBlocks 0 0 [1, 2, 3]) fun _ => false) forkedCache).1 = .ok 2 ∧
      ∀ i < 2, (update (chainClient (emptyBlocks 0 0 [1, 2, 3]) fun _ => false)
          forkedCache).2.blocks[i]? = (emptyBlocks 0 0 [1, 2, 3])[2 - i]? := by
  have hupdate : update (chainClient (emptyBlocks 0 0 [1, 2, 3]) fun _ => false) forkedCache
      = (.ok 2, ⟨2, 3, ((emptyBlocks 0 0 [1, 2, 3]).drop 1).reverse⟩) := by decide
  have hheights : forkedCache.Consecutive := by
    rintro (_ | _ | i) block hblock
    · cases hblock
      rfl
    · cases hblock
      rfl
    · cases hblock
  have hfree : CollisionFree forkedCache.blocks (emptyBlocks 0 0 [1, 2, 3]) := by
    unfold CollisionFree
    decide
  have hcomplete := reorg_repair_complete (linkedUp_emptyBlocks 0 0 [1, 2, 3])
    (chainClient_answersFrom [1, 2, 3] fun _ => false) (by decide) (by decide) hheights hfree hupdate
  rw [hupdate]
  exact ⟨rfl, hcomplete.2.1.2⟩

/-! ## Updates that fail -/

/-- **The loop replaces the first `m` blocks** below the one at position `i`, and finds the blocks
below these linked. -/
def RepairsFirst (client : MonerodClient) (cacheHeight : ℕ) : ℕ → ℕ → Block → List Block → Prop
  | 0, _, block, rest => Linked (block :: rest)
  | _ + 1, _, _, [] => False
  | m + 1, i, block, next :: rest =>
      block.inner.prevId ≠ next.hash ∧
        ∀ repaired, client.fetch (cacheHeight - 1 - i) = .ok repaired →
          RepairsFirst client cacheHeight m (i + 1) repaired rest

/-- **The count of repairs that start at the top** is one more than their number. -/
theorem fixReorgFrom_repairsFirst {client : MonerodClient} {cacheHeight m i updated updated' : ℕ}
    {block : Block} {rest rest' : List Block}
    (hm : RepairsFirst client cacheHeight m i block rest)
    (h : fixReorgFrom client cacheHeight i block rest updated = (.ok updated', rest')) :
    rest'.drop m = rest.drop m ∧ updated' = if m = 0 then updated else max updated 1 + m := by
  induction m generalizing i block rest rest' updated with
  | zero =>
      rw [fixReorgFrom_linked client cacheHeight i updated hm] at h
      cases h
      exact ⟨rfl, rfl⟩
  | succ m ih =>
      cases rest with
      | nil => exact hm.elim
      | cons next rest =>
          obtain ⟨hbreak, hm⟩ := hm
          rw [fixReorgFrom, if_pos hbreak] at h
          split at h
          · cases h
          · rename_i repaired hrepaired
            obtain ⟨hres, rfl⟩ := Prod.mk.inj h
            obtain ⟨hdrop, hcount⟩ := ih (hm repaired hrepaired) (Prod.ext hres rfl)
            refine ⟨by rw [List.drop_succ_cons, List.drop_succ_cons, hdrop], ?_⟩
            rw [hcount, if_neg (Nat.succ_ne_zero m)]
            split <;> omega

/-- A cache with what a reader of its updates has to know: the cache when an update last succeeded,
and the heights at which updates that have failed since have put a block. -/
structure Watched where
  cache : BlockCache
  reported : BlockCache
  touched : Set ℕ

namespace Watched

/-- A cache about which everything is known. -/
def settled (cache : BlockCache) : Watched := ⟨cache, cache, ∅⟩

/-- Watching a cache leaves it as it is. -/
@[simp] theorem cache_settled (cache : BlockCache) : (settled cache).cache = cache := rfl

/-- An update, and what it tells. -/
def step (client : MonerodClient) (w : Watched) : Watched :=
  match update client w.cache with
  | (.ok _, after) => settled after
  | (.error _, after) =>
      ⟨after, w.reported,
        w.touched ∪ {b | ∃ block, after.blockAt b = some block ∧ w.cache.blockAt b ≠ some block}⟩

/-- **The condition on an update that succeeds**: the cached blocks that do not continue the daemon's
blocks are the first `m` below the top, and whatever failed updates have put into the cache is the
top block or among these. -/
def Covers (client : MonerodClient) (w : Watched) : Prop :=
  ∀ count after, update client w.cache = (.ok count, after) →
    ∀ d advanced pushed block rest, client.daemonHeight = .ok d →
      advance client { w.cache with daemonHeight := d } = (.ok advanced, pushed) →
      pushed.blocks = block :: rest →
      ∃ m, RepairsFirst client pushed.height m 0 block rest ∧
        ∀ b ∈ w.touched, 0 < m ∧ pushed.height ≤ b + m

/-- A step of a run whose updates meet the condition. -/
def Step (w w' : Watched) : Prop := ∃ client, w.Covers client ∧ w' = w.step client

end Watched

/-! ### What every update does -/

/-- Repairing blocks keeps their number. -/
theorem fixReorgFrom_length (client : MonerodClient) (cacheHeight i updated : ℕ) (block : Block)
    (rest : List Block) :
    (fixReorgFrom client cacheHeight i block rest updated).2.length = rest.length := by
  induction rest generalizing i block updated with
  | nil => rfl
  | cons next rest ih =>
      rw [fixReorgFrom]
      split
      · split
        · rfl
        · exact congrArg (· + 1) (ih _ _ _)
      · exact congrArg (· + 1) (ih _ _ _)

/-- The repair loop counts no more blocks than it goes over. -/
theorem fixReorgFrom_count_le {client : MonerodClient} {cacheHeight i updated updated' : ℕ}
    {block : Block} {rest rest' : List Block}
    (h : fixReorgFrom client cacheHeight i block rest updated = (.ok updated', rest')) :
    updated' ≤ max updated 1 + rest.length := by
  induction rest generalizing i block updated rest' with
  | nil =>
      cases h
      omega
  | cons next rest ih =>
      rw [fixReorgFrom] at h
      rw [List.length_cons]
      split at h
      · split at h
        · cases h
        · have := ih (Prod.ext (Prod.mk.inj h).1 rfl)
          omega
      · have := ih (Prod.ext (Prod.mk.inj h).1 rfl)
        omega

/-- `check_and_fix_reorg` changes neither the number of the blocks nor the height. -/
theorem checkAndFixReorg_frame (client : MonerodClient) (self : BlockCache) :
    (checkAndFixReorg client self).2.blocks.length = self.blocks.length ∧
      (checkAndFixReorg client self).2.height = self.height := by
  unfold checkAndFixReorg
  split
  · exact ⟨rfl, rfl⟩
  · rename_i block rest hblocks
    refine ⟨?_, rfl⟩
    rw [hblocks, List.length_cons, List.length_cons, fixReorgFrom_length]

/-- The first half of an update changes nothing, or puts a block on top. -/
theorem advance_cases (client : MonerodClient) (self : BlockCache) :
    ((∃ e, (advance client self).1 = .error e) ∨ (advance client self).1 = .ok 0) ∧
        (advance client self).2 = self ∨
      ∃ block, advance client self = (.ok 1,
        { self with height := self.height + 1, blocks := (block :: self.blocks).dropLast }) := by
  unfold advance
  split
  · cases client.fetch (self.height + 1) with
    | error e => exact .inl ⟨.inl ⟨e, rfl⟩, rfl⟩
    | ok block => exact .inr ⟨block, rfl⟩
  · exact .inl ⟨.inr rfl, rfl⟩

/-- The advance keeps the number of the blocks, and never lowers the height. -/
theorem advance_frame (client : MonerodClient) (self : BlockCache) :
    (advance client self).2.blocks.length = self.blocks.length ∧
      self.height ≤ (advance client self).2.height := by
  rcases advance_cases client self with ⟨-, heq⟩ | ⟨block, heq⟩
  · rw [heq]
    exact ⟨rfl, Nat.le_refl _⟩
  · rw [heq]
    exact ⟨by rw [List.length_dropLast, List.length_cons, Nat.add_sub_cancel], Nat.le_succ _⟩

/-- **Whatever the daemon answers**, the size stays and the height does not fall. -/
theorem update_frame (client : MonerodClient) (self : BlockCache) :
    (update client self).2.blocks.length = self.blocks.length ∧
      self.height ≤ (update client self).2.height := by
  unfold update
  cases client.daemonHeight with
  | error e => exact ⟨rfl, Nat.le_refl _⟩
  | ok d =>
      obtain ⟨hlen, hheight⟩ := advance_frame client { self with daemonHeight := d }
      dsimp only
      generalize advance client { self with daemonHeight := d } = pushed at hlen hheight
      obtain ⟨result, pushed⟩ := pushed
      cases result with
      | error e => exact ⟨hlen, hheight⟩
      | ok advanced =>
          obtain ⟨hlen', hheight'⟩ := checkAndFixReorg_frame client pushed
          dsimp only at hlen hheight ⊢
          generalize checkAndFixReorg client pushed = fixed at hlen' hheight'
          obtain ⟨result, after⟩ := fixed
          cases result with
          | error e => exact ⟨hlen'.trans hlen, by rw [hheight']; exact hheight⟩
          | ok count => exact ⟨hlen'.trans hlen, by rw [hheight']; exact hheight⟩

/-- The two halves of an update that succeeds. -/
theorem update_ok {client : MonerodClient} {self after : BlockCache} {count : ℕ}
    (h : update client self = (.ok count, after)) :
    ∃ d advanced pushed fixed, client.daemonHeight = .ok d ∧
      advance client { self with daemonHeight := d } = (.ok advanced, pushed) ∧
      checkAndFixReorg client pushed = (.ok fixed, after) ∧ count = max advanced fixed := by
  unfold update at h
  split at h
  · cases h
  · rename_i d hd
    split at h
    · cases h
    · rename_i advanced pushed hadvance
      split at h
      · cases h
      · rename_i fixed after' hfix
        cases h
        exact ⟨d, advanced, pushed, fixed, hd, hadvance, hfix, rfl⟩

/-- No more blocks are counted as repaired than there are. -/
theorem checkAndFixReorg_count_le {client : MonerodClient} {self after : BlockCache} {fixed : ℕ}
    (h : checkAndFixReorg client self = (.ok fixed, after)) : fixed ≤ self.blocks.length := by
  unfold checkAndFixReorg at h
  split at h
  · cases h
    exact Nat.zero_le _
  · rename_i block rest hblocks
    have hcount := fixReorgFrom_count_le (Prod.ext (Prod.mk.inj h).1 rfl)
    rw [hblocks, List.length_cons]
    omega

/-- **Whatever the daemon answers**, the updated blocks do not reach below height zero. -/
theorem update_count_le {client : MonerodClient} {self after : BlockCache} {count : ℕ}
    (h : update client self = (.ok count, after))
    (hdeep : self.blocks.length ≤ self.height + 1) : count ≤ after.height + 1 := by
  obtain ⟨d, -, ⟨-, hfix⟩ | ⟨-, block, fixed, -, hfix, rfl⟩⟩ := update_cases h
  · have hframe := checkAndFixReorg_frame client { self with daemonHeight := d }
    have hcount := checkAndFixReorg_count_le hfix
    rw [hfix] at hframe
    dsimp only at hframe hcount
    omega
  · have hframe := checkAndFixReorg_frame client
      ⟨self.height + 1, d, (block :: self.blocks).dropLast⟩
    have hcount := checkAndFixReorg_count_le hfix
    rw [List.length_dropLast, List.length_cons] at hcount
    rw [hfix] at hframe
    dsimp only at hframe
    omega

/-! ### Runs -/

namespace Watched

/-- **What a reader knows**: at a height that no failed update has touched, the cache holds the block
it held when an update last succeeded. -/
structure Known (w : Watched) : Prop where
  depth : w.cache.blocks.length ≤ w.cache.height + 1
  kept : ∀ b block, b ∉ w.touched → w.cache.blockAt b = some block →
    w.reported.blockAt b = some block

/-- At the beginning the cache holds what it held when it was filled. -/
theorem known_settled {cache : BlockCache} (h : cache.blocks.length ≤ cache.height + 1) :
    (settled cache).Known := ⟨h, fun _ _ _ hblock => hblock⟩

/-- An update keeps what a reader knows: a block that it replaces is counted, or its height touched. -/
theorem Known.step {w : Watched} (h : w.Known) (client : MonerodClient) : (w.step client).Known := by
  have hdepth : (update client w.cache).2.blocks.length ≤ (update client w.cache).2.height + 1 := by
    obtain ⟨hlen, hheight⟩ := update_frame client w.cache
    have := h.depth
    omega
  unfold Watched.step
  split
  · rename_i count after hupdate
    rw [hupdate] at hdepth
    exact known_settled hdepth
  · rename_i e after hupdate
    rw [hupdate] at hdepth
    refine ⟨hdepth, fun b block hnot hblock => ?_⟩
    rw [Set.mem_union, not_or] at hnot
    -- A height that this update has not touched has kept its block.
    refine h.kept b block hnot.1 (not_not.mp fun hne => hnot.2 ⟨block, hblock, hne⟩)

/-- **The top of the cache after the first half** is new, and the other blocks were there before. -/
theorem blockAt_of_advance {client : MonerodClient} {self pushed : BlockCache} {advanced i : ℕ}
    {block : Block} (hdepth : self.blocks.length ≤ self.height + 1)
    (h : advance client self = (.ok advanced, pushed)) (hi : advanced ≤ i)
    (hblock : pushed.blocks[i]? = some block) :
    i ≤ pushed.height ∧ self.blockAt (pushed.height - i) = some block := by
  have hlt := (List.getElem?_eq_some_iff.mp hblock).1
  rcases advance_cases client self with ⟨-, heq⟩ | ⟨top, heq⟩
  · rw [h] at heq
    obtain rfl : pushed = self := heq
    refine ⟨by omega, ?_⟩
    rw [blockAt, if_pos (Nat.sub_le _ _), show pushed.height - (pushed.height - i) = i by omega]
    exact hblock
  · rw [h] at heq
    cases heq
    obtain ⟨i, rfl⟩ := Nat.exists_eq_add_of_le hi
    simp only [List.length_dropLast, List.length_cons, Nat.add_sub_cancel] at hlt
    refine ⟨by simp only; omega, ?_⟩
    simp only [List.getElem?_dropLast, List.length_cons, Nat.add_comm 1 i,
      List.getElem?_cons_succ] at hblock
    rw [if_pos (by omega)] at hblock
    show self.blockAt (self.height + 1 - (1 + i)) = some block
    rw [blockAt, if_pos (by omega),
      show self.height - (self.height + 1 - (1 + i)) = i by omega]
    exact hblock

/-- **One update**: what it does not report was cached when an update last succeeded. -/
theorem Known.reports {w : Watched} (h : w.Known) {client : MonerodClient}
    (hcovers : w.Covers client) {count : ℕ} {after : BlockCache}
    (hupdate : update client w.cache = (.ok count, after)) {i : ℕ} {block : Block}
    (hi : count ≤ i) (hblock : after.blocks[i]? = some block) :
    w.reported.blockAt (after.height - i) = some block := by
  obtain ⟨d, advanced, pushed, fixed, hd, hadvance, hfix, rfl⟩ := update_ok hupdate
  cases hblocks : pushed.blocks with
  | nil =>
      rw [checkAndFixReorg, hblocks] at hfix
      cases hfix
      rw [hblocks] at hblock
      cases hblock
  | cons top rest =>
      obtain ⟨m, hm, htouched⟩ := hcovers _ _ hupdate d advanced pushed top rest hd hadvance hblocks
      rw [checkAndFixReorg, hblocks] at hfix
      obtain ⟨hres, rfl⟩ := Prod.mk.inj hfix
      obtain ⟨hdrop, hcount⟩ := fixReorgFrom_repairsFirst hm (Prod.ext hres rfl)
      -- The position is below all repairs, and so the repairs have left its block.
      have hpushed : pushed.blocks[i]? = some block := by
        rw [hblocks]
        cases i with
        | zero => exact hblock
        | succ j =>
            have hmj : m ≤ j := by
              split at hcount <;> omega
            have hsame := congrArg (fun l => l[j - m]?) hdrop
            simp only [List.getElem?_drop, show m + (j - m) = j by omega] at hsame
            rw [List.getElem?_cons_succ, ← hsame]
            exact hblock
      have hdepth : ({ w.cache with daemonHeight := d } : BlockCache).blocks.length
          ≤ w.cache.height + 1 := h.depth
      obtain ⟨hdeep, hcached⟩ := blockAt_of_advance hdepth hadvance
        (Nat.le_trans (Nat.le_max_left ..) hi) hpushed
      refine h.kept _ _ (fun hmem => ?_) hcached
      obtain ⟨hpos, hle⟩ := htouched _ hmem
      rw [if_neg (by omega)] at hcount
      dsimp only at hle
      omega

/-- Every run keeps the reader's knowledge, whether its updates meet the condition or not. -/
theorem known_of_run {start : BlockCache} (hstart : start.Consecutive) {w : Watched}
    (hrun : Relation.ReflTransGen Step (settled start) w) : w.Known := by
  induction hrun with
  | refl => exact known_settled hstart.placed.height
  | tail _ hstep ih =>
      obtain ⟨client, -, rfl⟩ := hstep
      exact ih.step client

/-- **Interrupted repairs are reported later, where the repairs start at the top.** In a run whose
successful updates find unlinked exactly the first blocks below the top, and among them whatever
failed updates have left, every position whose block was not cached at its height when an update last
succeeded is below the count that is returned. -/
theorem interrupted_repair_reported {start : BlockCache} (hstart : start.Consecutive) {w : Watched}
    (hrun : Relation.ReflTransGen Step (settled start) w) {client : MonerodClient}
    (hcovers : w.Covers client) {count : ℕ} {after : BlockCache}
    (hupdate : update client w.cache = (.ok count, after)) {i : ℕ} {block : Block}
    (hblock : after.blocks[i]? = some block)
    (hchanged : w.reported.blockAt (after.height - i) ≠ some block) : i < count := by
  by_contra hge
  exact hchanged ((known_of_run hstart hrun).reports hcovers hupdate (Nat.le_of_not_lt hge) hblock)

/-! ### Runs without interrupted repairs -/

/-- Below linked blocks the repairs start at the top. -/
theorem exists_repairsFirst {client : MonerodClient} {cacheHeight i updated updated' : ℕ}
    {block : Block} {rest rest' : List Block} (hrest : Linked rest)
    (h : fixReorgFrom client cacheHeight i block rest updated = (.ok updated', rest')) :
    ∃ m, RepairsFirst client cacheHeight m i block rest := by
  induction rest generalizing i block updated rest' with
  | nil => exact ⟨0, .singleton _⟩
  | cons next rest ih =>
      by_cases hlink : block.inner.prevId = next.hash
      · exact ⟨0, .cons_cons hlink hrest⟩
      · rw [fixReorgFrom, if_pos hlink] at h
        split at h
        · cases h
        · rename_i repaired hrepaired
          obtain ⟨hres, -⟩ := Prod.mk.inj h
          obtain ⟨m, hm⟩ := ih (List.isChain_of_isChain_cons hrest) (Prod.ext hres rfl)
          refine ⟨m + 1, hlink, fun other hother => ?_⟩
          rw [hrepaired] at hother
          cases hother
          exact hm

/-- **A linked cache that no failed update has touched** meets the condition. -/
theorem covers_of_linked {w : Watched} (hlinked : Linked w.cache.blocks) (htouched : w.touched = ∅)
    (client : MonerodClient) : w.Covers client := by
  intro count after hupdate d advanced pushed block rest hd hadvance hblocks
  obtain ⟨d', advanced', pushed', fixed, hd', hadvance', hfix, -⟩ := update_ok hupdate
  obtain rfl : d' = d := Except.ok.inj (hd'.symm.trans hd)
  obtain ⟨-, rfl⟩ := Prod.mk.inj (hadvance'.symm.trans hadvance)
  have hrest : Linked rest := by
    rcases advance_cases client { w.cache with daemonHeight := d' } with ⟨-, heq⟩ | ⟨top, heq⟩
    · rw [hadvance] at heq
      rw [show pushed' = { w.cache with daemonHeight := d' } from heq] at hblocks
      dsimp only at hblocks
      rw [hblocks] at hlinked
      exact List.isChain_of_isChain_cons hlinked
    · rw [hadvance] at heq
      cases heq
      cases hcache : w.cache.blocks with
      | nil => simp [hcache] at hblocks
      | cons first tail =>
          rw [hcache, List.dropLast_cons_cons] at hblocks
          rw [← (List.cons.inj hblocks).2, ← hcache]
          exact hlinked.dropLast
  rw [checkAndFixReorg, hblocks] at hfix
  obtain ⟨hres, -⟩ := Prod.mk.inj hfix
  obtain ⟨m, hm⟩ := exists_repairsFirst hrest (Prod.ext hres rfl)
  refine ⟨m, hm, fun b hb => ?_⟩
  rw [htouched] at hb
  exact hb.elim

/-- An update that is answered from one chain and leaves the cache alone if it fails. -/
def Whole (client : MonerodClient) (w : Watched) : Prop :=
  client.Consistent ∧ ∀ e after, update client w.cache = (.error e, after) →
    after.height = w.cache.height ∧ after.blocks = w.cache.blocks

/-- **The condition is met by itself** as long as no failed update changes the cache. -/
theorem covers_of_whole {n : ℕ} (hn : 1 ≤ n) {start : BlockCache} (hstart : start.Valid n)
    {w : Watched} (hrun : Relation.ReflTransGen
      (fun w w' => ∃ client, Whole client w ∧ w' = w.step client) (settled start) w)
    (client : MonerodClient) : w.Covers client := by
  have hinv : w.cache.Valid n ∧ w.touched = ∅ := by
    induction hrun with
    | refl => exact ⟨hstart, rfl⟩
    | tail _ hstep ih =>
        obtain ⟨client, ⟨hconsistent, hwhole⟩, rfl⟩ := hstep
        obtain ⟨hvalid, htouched⟩ := ih
        unfold step
        split
        · rename_i count after hupdate
          exact ⟨(update_spec hconsistent hn hvalid hupdate).valid, rfl⟩
        · rename_i e after hupdate
          obtain ⟨hheight, hblocks⟩ := hwhole e after hupdate
          refine ⟨⟨?_, ?_, ?_⟩, ?_⟩
          · rw [hblocks]
            exact hvalid.length
          · rw [hblocks]
            exact hvalid.linked
          · rw [hheight]
            exact hvalid.height
          · have hsame : ∀ b, after.blockAt b = _ :=
              fun b => by rw [blockAt, hheight, hblocks, ← blockAt]
            simp only [hsame, htouched, Set.empty_union]
            refine Set.eq_empty_of_forall_notMem fun b hb => ?_
            obtain ⟨block, hblock, hne⟩ := hb
            exact hne hblock
  exact covers_of_linked hinv.1.linked hinv.2 client

/-! ### An interrupted repair -/

/-- The cache of a chain that is replaced from its first block on. -/
def oldCache : BlockCache := ⟨2, 3, (emptyBlocks 0 0 [1, 2, 3]).reverse⟩

/-- The daemon with the new chain. Requests for the blocks at some heights fail. -/
def newChain (fails : ℕ → Bool) : MonerodClient := chainClient (emptyBlocks 0 0 [11, 12, 13, 14]) fails

/-- The cache of the example has consecutive heights. -/
theorem consecutive_oldCache : oldCache.Consecutive := by
  rintro (_ | _ | _ | i) block hblock <;> cases hblock <;> rfl

/-- **A change that is never reported.** The first update advances, replaces the block at height 2
and fails at height 1. The second one repairs that block and reports two, but three have changed. -/
theorem interrupted_repair_unreported :
    Linked oldCache.blocks ∧ oldCache.Consecutive ∧
    ∃ after block,
      update (newChain fun _ => false) ((settled oldCache).step (newChain (· == 1))).cache
        = (.ok 2, after) ∧
      after.blocks[2]? = some block ∧
      ((settled oldCache).step (newChain (· == 1))).reported.blockAt (after.height - 2)
        ≠ some block := by
  refine ⟨by decide, consecutive_oldCache,
    ⟨3, 4, ((emptyBlocks 0 0 [11, 12, 13, 14]).drop 1).reverse⟩, ⟨12, 1, ⟨11, []⟩, []⟩, ?_, ?_, ?_⟩
  · decide
  · decide
  · decide

/-- The first update advances and fails at once: the second one replaces all that is below the new
block, and reports it. -/
theorem interrupted_repair_reported_top :
    (update (newChain fun _ => false)
      ((settled oldCache).step (newChain (· == 2))).cache).1 = .ok 3 ∧
    ∀ i block, (update (newChain fun _ => false)
        ((settled oldCache).step (newChain (· == 2))).cache).2.blocks[i]? = some block →
      oldCache.blockAt (3 - i) ≠ some block → i < 3 := by
  have hfirst : update (newChain (· == 2)) oldCache = (.error .timeout,
      ⟨3, 4, ⟨14, 3, ⟨13, []⟩, []⟩ :: ((emptyBlocks 0 0 [1, 2, 3]).drop 1).reverse⟩) := by decide
  have hsecond : update (newChain fun _ => false)
      ((settled oldCache).step (newChain (· == 2))).cache
        = (.ok 3, ⟨3, 4, ((emptyBlocks 0 0 [11, 12, 13, 14]).drop 1).reverse⟩) := by decide
  have hrun : Relation.ReflTransGen Step (settled oldCache)
      ((settled oldCache).step (newChain (· == 2))) := by
    refine .single ⟨_, fun count after hupdate => ?_, rfl⟩
    rw [cache_settled, hfirst] at hupdate
    cases hupdate
  have hcovers : ((settled oldCache).step (newChain (· == 2))).Covers (newChain fun _ => false) := by
    intro count after _ d advanced pushed block rest hd hadvance hblocks
    cases hd
    have hnone : advance (newChain fun _ => false)
        { ((settled oldCache).step (newChain (· == 2))).cache with daemonHeight := 4 } = (.ok 0,
          ⟨3, 4, ⟨14, 3, ⟨13, []⟩, []⟩ :: ((emptyBlocks 0 0 [1, 2, 3]).drop 1).reverse⟩) := by
      decide
    obtain ⟨-, rfl⟩ := Prod.mk.inj (hnone.symm.trans hadvance)
    cases hblocks
    -- Both blocks below the new one are replaced, and only the new one has been touched.
    refine ⟨2, ⟨by decide, fun repaired hrepaired => ?_⟩, fun b hb => ⟨by decide, ?_⟩⟩
    · cases hrepaired
      exact ⟨by decide, fun repaired hrepaired => .singleton _⟩
    · rw [step, cache_settled, hfirst] at hb
      rcases hb with hb | ⟨block, hblock, -⟩
      · exact hb.elim
      · cases b with
        | zero => cases hblock
        | succ b => simp only; omega
  refine ⟨by rw [hsecond], fun i block hblock hchanged => ?_⟩
  rw [hsecond] at hblock
  refine interrupted_repair_reported consecutive_oldCache hrun hcovers hsecond hblock ?_
  rw [step, cache_settled, hfirst]
  exact hchanged

end Watched

end BlockCache

end AcceptXmr
