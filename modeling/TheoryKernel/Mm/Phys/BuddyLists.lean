import TheoryKernel.Lib.Chain
import TheoryKernel.Mm.Phys.Buddy
import Mathlib.Data.List.Perm.Subperm
import Mathlib.Data.List.ProdSigma

/-! The free lists of the buddy allocator as sequences of blocks, and what each list operation does. -/

namespace TheoryKernel.Mm.Phys

open Function List
open AlignedBlocks (Block)
open LinkedList (Family Chain chain_cons chain_nil)

/-- The node and order of every free list. -/
def listKeys : List (Nat × Nat) := List.range maxNodes ×ˢ List.range (maxOrder + 1)

theorem listKeys_nodup : listKeys.Nodup := by decide

/-- The names of the lists are the valid indices of the table. -/
theorem mem_listKeys {key : Nat × Nat} : key ∈ listKeys ↔ key.1 < maxNodes ∧ key.2 ≤ maxOrder := by
  obtain ⟨node, order⟩ := key
  rw [listKeys, mem_product, mem_range, mem_range, Nat.lt_succ_iff]

/-- The block described by a pool node. -/
def FreeBlock.toBlock (block : FreeBlock) : Block := ⟨block.frame, block.order⟩

namespace BuddyAllocator

variable {buddy changed : BuddyAllocator} {lists : Nat × Nat → List Nat} {key : Nat × Nat}
  {index node frame order : Nat}

/-- The pool nodes met by following links, up to a bound on their number. -/
def walk (buddy : BuddyAllocator) : Nat → Option Nat → List FreeBlock
  | _, none => []
  | 0, some _ => []
  | fuel + 1, some index =>
    match buddy.blocks[index]? with
    | some block => block :: buddy.walk fuel block.next
    | none => []

/-- The blocks on one free list; the bound leaves room to notice a cycle. -/
def freeList (buddy : BuddyAllocator) (key : Nat × Nat) : List Block :=
  (buddy.walk (buddy.blocks.length + 1) (buddy.freeLists key.1 key.2)).map FreeBlock.toBlock

/-- The blocks on all free lists. -/
def freeBlocks (buddy : BuddyAllocator) : List Block := listKeys.flatMap buddy.freeList

/-- The head of the list with a given name. -/
def headOf (buddy : BuddyAllocator) (key : Nat × Nat) : Option Nat := buddy.freeLists key.1 key.2

/-- The lists are chains of pool nodes that share no node, and each holds blocks of its own order. -/
structure Linked (buddy : BuddyAllocator) (lists : Nat × Nat → List Nat) : Prop where
  family : Family (buddy.blocks[·]?) FreeBlock.next buddy.headOf listKeys lists
  order : ∀ key ∈ listKeys, ∀ index ∈ lists key,
    (buddy.blocks[index]?).map FreeBlock.order = some key.2

/-- The free lists are well formed. -/
def WellLinked (buddy : BuddyAllocator) : Prop := ∃ lists, buddy.Linked lists

/-- The block described by the pool node with a given index. -/
def blockAt (buddy : BuddyAllocator) (index : Nat) : Block :=
  ((buddy.blocks[index]?).map FreeBlock.toBlock).getD ⟨0, 0⟩

/-- A new allocator has well-formed, empty lists. -/
theorem linked_new (blockCount : Nat) : (new blockCount).Linked fun _ => [] where
  family :=
    { chain := fun _ _ => chain_nil.mpr rfl
      distinct := by decide }
  order := fun _ _ _ inside => absurd inside not_mem_nil

theorem Linked.exists_block (linked : buddy.Linked lists) (member : key ∈ listKeys)
    (inside : index ∈ lists key) :
    ∃ block, buddy.blocks[index]? = some block ∧ block.order = key.2 :=
  Option.map_eq_some_iff.mp (linked.order key member index inside)

theorem Linked.index_lt (linked : buddy.Linked lists) (member : key ∈ listKeys)
    (inside : index ∈ lists key) : index < buddy.blocks.length := by
  obtain ⟨block, found, -⟩ := linked.exists_block member inside
  exact (List.getElem?_eq_some_iff.mp found).1

theorem blockAt_eq {block : FreeBlock} (found : buddy.blocks[index]? = some block) :
    buddy.blockAt index = block.toBlock := by
  rw [blockAt, found]
  rfl

variable {fuel : Nat} {first : Option Nat} {indices before rest : List Nat} {list : List Block}
  {block : Block}

theorem walk_of_chain (chain : Chain (buddy.blocks[·]?) FreeBlock.next first indices)
    (enough : indices.length ≤ fuel) :
    (buddy.walk fuel first).map FreeBlock.toBlock = indices.map buddy.blockAt := by
  induction indices generalizing fuel first with
  | nil =>
    rw [chain_nil.mp chain]
    cases fuel <;> rfl
  | cons index rest ih =>
    obtain ⟨rfl, block, found, below⟩ := chain_cons.mp chain
    cases fuel with
    | zero => simp at enough
    | succ fuel =>
      simp only [length_cons, Nat.add_le_add_iff_right] at enough
      simp only [walk, found, map_cons, ih below enough]
      simp [blockAt, found]

theorem Linked.length_le (linked : buddy.Linked lists) (member : key ∈ listKeys) :
    (lists key).length ≤ buddy.blocks.length := by
  have nodup := (nodup_flatMap.mp linked.family.distinct).1 key member
  have within : lists key ⊆ List.range buddy.blocks.length :=
    fun _ inside => mem_range.mpr (linked.index_lt member inside)
  simpa using (subperm_of_subset nodup within).length_le

theorem Linked.freeList_eq (linked : buddy.Linked lists) (member : key ∈ listKeys) :
    buddy.freeList key = (lists key).map buddy.blockAt :=
  walk_of_chain (linked.family.chain key member) (Nat.le_succ_of_le (linked.length_le member))

/-- One list has been replaced and the others are as before. -/
structure Relisted (buddy changed : BuddyAllocator) (key : Nat × Nat) (list : List Block) :
    Prop where
  linked : changed.WellLinked
  blockCount : changed.blockCount = buddy.blockCount
  here : changed.freeList key = list
  others : ∀ other ∈ listKeys, other ≠ key → changed.freeList other = buddy.freeList other

theorem Relisted.freeBlocks_eq (relisted : Relisted buddy changed key list) :
    changed.freeBlocks = listKeys.flatMap (update buddy.freeList key list) := by
  refine flatMap_congr fun other member => ?_
  by_cases same : other = key
  · rw [same, relisted.here, update_self]
  · rw [update_of_ne same, relisted.others other member same]

/-- A list with one more block adds it to the free blocks. -/
theorem Relisted.grow (member : key ∈ listKeys)
    (relisted : Relisted buddy changed key (block :: buddy.freeList key)) :
    changed.freeBlocks.Perm (block :: buddy.freeBlocks) := by
  rw [relisted.freeBlocks_eq]
  exact LinkedList.flatMap_update_perm listKeys_nodup member (List.Perm.refl _)

/-- A list with one block less takes it from the free blocks. -/
theorem Relisted.shrink (member : key ∈ listKeys)
    (shorter : (buddy.freeList key).Perm (block :: list))
    (relisted : Relisted buddy changed key list) :
    buddy.freeBlocks.Perm (block :: changed.freeBlocks) := by
  rw [relisted.freeBlocks_eq]
  exact LinkedList.flatMap_perm_update listKeys_nodup member shorter

theorem setHead_eq (buddy : BuddyAllocator) (member : key ∈ listKeys) (first : Option Nat) :
    ∃ changed, buddy.setHead key.1 key.2 first = .ok changed ∧
      changed.headOf = update buddy.headOf key first ∧
      changed.blocks = buddy.blocks ∧ changed.blockCount = buddy.blockCount := by
  refine ⟨_, if_pos (mem_listKeys.mp member), ?_, rfl, rfl⟩
  -- A list is named by its node and its order together.
  funext other
  by_cases same : other = key
  · simp [headOf, same]
  · rw [update_of_ne same]
    unfold headOf
    by_cases sameNode : other.1 = key.1
    · have apart : other.2 ≠ key.2 := fun sameOrder => same (Prod.ext sameNode sameOrder)
      simp [sameNode, apart]
    · simp [sameNode]

/-- Reading a head returns exactly for the names of lists. -/
theorem head_eq_ok :
    buddy.head node order = .ok first ↔
      (node, order) ∈ listKeys ∧ buddy.headOf (node, order) = first := by
  unfold head
  by_cases valid : node < maxNodes ∧ order ≤ maxOrder
  · simp [mem_listKeys, valid, headOf]
  · simp [mem_listKeys, valid]

/-- Reading a pool node returns exactly for the nodes that were written. -/
theorem block_eq_ok {block : FreeBlock} :
    buddy.block index = .ok block ↔ buddy.blocks[index]? = some block := by
  unfold BuddyAllocator.block
  cases buddy.blocks[index]? <;> simp

theorem Linked.relisted (linked : buddy.Linked lists)
    (after : changed.Linked (update lists key indices)) (member : key ∈ listKeys)
    (same : ∀ other ∈ listKeys, ∀ index ∈ lists other, changed.blockAt index = buddy.blockAt index)
    (blockCount : changed.blockCount = buddy.blockCount) :
    Relisted buddy changed key (indices.map changed.blockAt) where
  linked := ⟨_, after⟩
  blockCount := blockCount
  here := by rw [after.freeList_eq member, update_self]
  others := by
    intro other otherKey apart
    rw [after.freeList_eq otherKey, update_of_ne apart, linked.freeList_eq otherKey]
    exact map_congr_left (same other otherKey)

/-- A block that was pushed is now the first of its list. -/
theorem Linked.push (linked : buddy.Linked lists) (frame : Nat)
    (member : (node, order) ∈ listKeys) (room : buddy.blocks.length < buddy.blockCount) :
    ∃ changed, buddy.pushBlock node frame order = .ok changed ∧
      changed.blocks.length = buddy.blocks.length + 1 ∧
      Relisted buddy changed (node, order) (⟨frame, order⟩ :: buddy.freeList (node, order)) := by
  let block : FreeBlock := ⟨frame, order, buddy.headOf (node, order)⟩
  let written : BuddyAllocator := { buddy with blocks := buddy.blocks ++ [block] }
  let index := buddy.blocks.length
  obtain ⟨changed, run, heads, blocks, blockCount⟩ := setHead_eq written member (some index)
  -- The nodes written before keep their contents, and the new one lies behind them.
  have old : ∀ key ∈ listKeys, ∀ other ∈ lists key,
      changed.blocks[other]? = buddy.blocks[other]? := by
    intro key keyMember other inside
    rw [blocks]
    exact List.getElem?_append_left (linked.index_lt keyMember inside)
  have here : changed.blocks[index]? = some block := by
    rw [blocks]
    exact List.getElem?_concat_length
  have after : changed.Linked (update lists (node, order) (index :: lists (node, order))) := {
    family := by
      have same : changed.headOf = update buddy.headOf (node, order) (some index) := heads
      rw [same]
      refine linked.family.push listKeys_nodup member ?_ here rfl ?_
      · intro listed
        obtain ⟨key, keyMember, inside⟩ := mem_flatMap.mp listed
        exact Nat.lt_irrefl _ (linked.index_lt keyMember inside)
      · intro other listed
        obtain ⟨key, keyMember, inside⟩ := mem_flatMap.mp listed
        rw [old key keyMember other inside]
    order := by
      intro key keyMember other inside
      by_cases same : key = (node, order)
      · subst same
        rw [update_self, mem_cons] at inside
        rcases inside with rfl | inside
        · rw [here]
          rfl
        · rw [old _ keyMember other inside]
          exact linked.order _ keyMember other inside
      · rw [update_of_ne same] at inside
        rw [old key keyMember other inside]
        exact linked.order key keyMember other inside }
  have sameBlocks : ∀ key ∈ listKeys, ∀ other ∈ lists key,
      changed.blockAt other = buddy.blockAt other := by
    intro key keyMember other inside
    unfold blockAt
    rw [old key keyMember other inside]
  have relisted := linked.relisted after member sameBlocks blockCount
  refine ⟨changed, ?_, ?_, ?_⟩
  · rw [pushBlock, if_pos room, head_eq_ok.mpr ⟨member, rfl⟩]
    exact run
  · rw [blocks]
    exact length_append
  · rw [map_cons, map_congr_left (sameBlocks _ member),
      ← linked.freeList_eq member] at relisted
    rwa [blockAt_eq here] at relisted

/-- A push that returns found room in the pool and a list for its block. -/
theorem pushBlock_ok (returned : buddy.pushBlock node frame order = .ok changed) :
    buddy.blocks.length < buddy.blockCount ∧ (node, order) ∈ listKeys := by
  unfold pushBlock at returned
  split at returned
  · rename_i room
    obtain ⟨first, read, -⟩ := Exec.bind_eq_ok.mp returned
    exact ⟨room, (head_eq_ok.mp read).1⟩
  · cases returned

theorem unlink_eq (buddy : BuddyAllocator) (member : key ∈ listKeys) (prev next : Option Nat)
    (written : ∀ index, prev = some index → index < buddy.blocks.length) :
    ∃ changed, buddy.unlink key.1 key.2 prev next = .ok changed ∧
      changed.headOf = update buddy.headOf key
        (if prev = none then next else buddy.headOf key) ∧
      (∀ other, (changed.blocks[other]?).map FreeBlock.next =
        if prev = some other then some next else (buddy.blocks[other]?).map FreeBlock.next) ∧
      (∀ other : Nat, (changed.blocks[other]?).map FreeBlock.toBlock =
        (buddy.blocks[other]?).map FreeBlock.toBlock) ∧
      changed.blocks.length = buddy.blocks.length ∧ changed.blockCount = buddy.blockCount := by
  cases prev with
  | none =>
    obtain ⟨changed, run, heads, blocks, blockCount⟩ := setHead_eq buddy member next
    refine ⟨changed, run, heads, ?_, ?_, ?_, blockCount⟩
    · intro other
      rw [blocks, if_neg (by simp)]
    · intro other
      rw [blocks]
    · rw [blocks]
  | some prev =>
    have small := written prev rfl
    let held := buddy.blocks.get ⟨prev, small⟩
    have found : buddy.blocks[prev]? = some held := List.getElem?_eq_getElem small
    refine ⟨{ buddy with blocks := buddy.blocks.set prev { held with next } }, ?_, ?_, ?_, ?_,
      length_set, rfl⟩
    · simp only [unlink, setNext, block, found, Exec.ok_bind, Exec.pure_eq]
    · rw [if_neg (by simp), update_eq_self]
      rfl
    · intro other
      by_cases same : prev = other
      · rw [← same, List.getElem?_set_self small, if_pos rfl]
        rfl
      · rw [List.getElem?_set_ne same, if_neg (fun equal => same (Option.some.inj equal))]
    · intro other
      by_cases same : prev = other
      · rw [← same, List.getElem?_set_self small, found]
        rfl
      · rw [List.getElem?_set_ne same]

theorem Linked.unlink {block : FreeBlock} (linked : buddy.Linked lists) (member : key ∈ listKeys)
    (split : lists key = before ++ index :: rest) (found : buddy.blocks[index]? = some block) :
    ∃ changed, buddy.unlink key.1 key.2 before.getLast? block.next = .ok changed ∧
      changed.blocks.length = buddy.blocks.length ∧
      Relisted buddy changed key ((before ++ rest).map buddy.blockAt) := by
  have written : ∀ prev, before.getLast? = some prev → prev < buddy.blocks.length := by
    intro prev isLast
    have inside : prev ∈ lists key := by
      rw [split]
      exact mem_append_left _ (mem_of_getLast? isLast)
    exact linked.index_lt member inside
  obtain ⟨changed, run, heads, links, contents, length, blockCount⟩ :=
    unlink_eq buddy member before.getLast? block.next written
  have sameBlocks : ∀ other, changed.blockAt other = buddy.blockAt other := by
    intro other
    unfold blockAt
    rw [contents other]
  have after : changed.Linked (update lists key (before ++ rest)) := {
    family := by
      rw [heads]
      simp only [List.getLast?_eq_none_iff]
      exact linked.family.remove listKeys_nodup member split found fun other _ => links other
    order := by
      intro other otherKey inner inside
      have kept : (changed.blocks[inner]?).map FreeBlock.order =
          (buddy.blocks[inner]?).map FreeBlock.order := by
        have both := congrArg (Option.map Block.order) (contents inner)
        rwa [Option.map_map, Option.map_map] at both
      rw [kept]
      refine linked.order other otherKey inner ?_
      by_cases same : other = key
      · subst same
        rw [update_self, mem_append] at inside
        rw [split, mem_append, mem_cons]
        exact inside.imp_right Or.inr
      · rwa [update_of_ne same] at inside }
  have relisted := linked.relisted after member (fun _ _ other _ => sameBlocks other) blockCount
  rw [map_congr_left fun other _ => sameBlocks other] at relisted
  exact ⟨changed, run, length, relisted⟩

/-- Taking the first block of a list leaves the rest of it. -/
theorem Linked.pop (linked : buddy.Linked lists) (member : key ∈ listKeys)
    (first : buddy.headOf key = some index) :
    ∃ block changed, buddy.blocks[index]? = some block ∧ block.order = key.2 ∧
      buddy.setHead key.1 key.2 block.next = .ok changed ∧
      changed.blocks.length = buddy.blocks.length ∧
      ∃ rest, buddy.freeList key = block.toBlock :: rest ∧ Relisted buddy changed key rest := by
  -- The head of a list is the first node of its chain.
  have chain := linked.family.chain key member
  cases nodes : lists key with
  | nil =>
    rw [nodes, chain_nil, first] at chain
    cases chain
  | cons head rest =>
    rw [nodes] at chain
    obtain ⟨same, block, found, -⟩ := chain_cons.mp chain
    cases first.symm.trans same
    have inside : index ∈ lists key := by rw [nodes]; exact mem_cons_self
    obtain ⟨block', found', order⟩ := linked.exists_block member inside
    cases found.symm.trans found'
    obtain ⟨changed, run, length, relisted⟩ := linked.unlink member
      (show lists key = [] ++ index :: rest from nodes) found
    refine ⟨block, changed, found, order, run, length, _, ?_, relisted⟩
    rw [linked.freeList_eq member, nodes, map_cons, blockAt_eq found, nil_append]

/-- What a walk along a list reports: the block is not on the list, or it has been taken off. -/
def Taken (buddy : BuddyAllocator) (key : Nat × Nat) (block : Block) :
    Option BuddyAllocator → Prop
  | none => block ∉ buddy.freeList key
  | some changed => changed.blocks.length = buddy.blocks.length ∧
      ∃ list, (buddy.freeList key).Perm (block :: list) ∧ Relisted buddy changed key list

theorem Linked.takeLoop {target : Nat} {current : Option Nat} (linked : buddy.Linked lists)
    (member : (node, order) ∈ listKeys) (split : lists (node, order) = before ++ rest)
    (chain : Chain (buddy.blocks[·]?) FreeBlock.next current rest)
    (passed : ∀ index ∈ before, buddy.blockAt index ≠ ⟨target, order⟩)
    (enough : rest.length ≤ fuel) :
    ∃ result, buddy.takeLoop node target order fuel before.getLast? current = .ok result ∧
      buddy.Taken (node, order) ⟨target, order⟩ result := by
  -- The walk moves one node at a time from the rest of the chain to the part behind it.
  induction rest generalizing fuel before current with
  | nil =>
    rw [chain_nil.mp chain]
    refine ⟨none, by cases fuel <;> rfl, ?_⟩
    intro listed
    rw [linked.freeList_eq member, split, append_nil, mem_map] at listed
    obtain ⟨index, inside, same⟩ := listed
    exact passed index inside same
  | cons index rest ih =>
    obtain ⟨rfl, block, found, below⟩ := chain_cons.mp chain
    have described := blockAt_eq found
    cases fuel with
    | zero => simp at enough
    | succ fuel =>
      simp only [BuddyAllocator.takeLoop, BuddyAllocator.block, found, Exec.ok_bind]
      by_cases hit : block.frame = target ∧ block.order = order
      · rw [if_pos hit]
        obtain ⟨changed, run, length, relisted⟩ := linked.unlink member split found
        refine ⟨some changed, ?_, length, _, ?_, relisted⟩
        · rw [run]
          rfl
        · have here : buddy.blockAt index = ⟨target, order⟩ := by
            rw [described, FreeBlock.toBlock, hit.1, hit.2]
          rw [linked.freeList_eq member, split, map_append, map_cons, here,
            map_append]
          exact perm_middle
      · rw [if_neg hit]
        have miss : buddy.blockAt index ≠ ⟨target, order⟩ := by
          rw [described]
          intro same
          exact hit ⟨congrArg Block.start same, congrArg Block.order same⟩
        have moved : lists (node, order) = (before ++ [index]) ++ rest := by simp [split]
        have further : ∀ other ∈ before ++ [index], buddy.blockAt other ≠ ⟨target, order⟩ := by
          intro other inside
          rcases mem_append.mp inside with inside | last
          · exact passed other inside
          · rwa [mem_singleton.mp last]
        have step := ih moved below further (Nat.le_of_succ_le_succ enough)
        rwa [List.getLast?_concat] at step

end BuddyAllocator

namespace Pool

open BuddyAllocator

variable {pool : Pool} {changed : BuddyAllocator} {node target order : Nat}

theorem takeLoop_of_linked (target : Nat) (linked : pool.buddy.WellLinked)
    (member : (node, order) ∈ listKeys) :
    ∃ result, pool.buddy.takeLoop node target order (pool.buddy.blocks.length + 1) none
        (pool.buddy.headOf (node, order)) = .ok result ∧
      pool.buddy.Taken (node, order) ⟨target, order⟩ result := by
  obtain ⟨lists, linked⟩ := linked
  exact linked.takeLoop member (nil_append _).symm (linked.family.chain _ member)
    (fun _ inside => absurd inside not_mem_nil) (Nat.le_succ_of_le (linked.length_le member))

/-- A buddy that was taken had a clear bit and was on the list. -/
theorem taken_of_takeBuddy (linked : pool.buddy.WellLinked)
    (returned : pool.takeBuddy node target order = .ok (some changed)) :
    pool.bitmap.isFree target = .ok true ∧ (node, order) ∈ listKeys ∧
      pool.buddy.Taken (node, order) ⟨target, order⟩ (some changed) := by
  unfold takeBuddy at returned
  obtain ⟨free, asked, returned⟩ := Exec.bind_eq_ok.mp returned
  cases free with
  | false => cases returned
  | true =>
    obtain ⟨first, read, returned⟩ := Exec.bind_eq_ok.mp returned
    obtain ⟨member, rfl⟩ := head_eq_ok.mp read
    obtain ⟨result, run, taken⟩ := takeLoop_of_linked target linked member
    cases returned.symm.trans run
    exact ⟨asked, member, taken⟩

/-- Looking for a buddy on a valid list returns. -/
theorem takeBuddy_returns (target : Nat) (linked : pool.buddy.WellLinked)
    (sized : pool.bitmap.Sized) (member : (node, order) ∈ listKeys) :
    ∃ result, pool.takeBuddy node target order = .ok result := by
  obtain ⟨free, asked⟩ := sized.isFree_returns target
  unfold takeBuddy
  rw [asked]
  cases free with
  | false => exact ⟨none, rfl⟩
  | true =>
    obtain ⟨result, run, -⟩ := takeLoop_of_linked target linked member
    refine ⟨result, ?_⟩
    rw [Exec.ok_bind, if_pos rfl, head_eq_ok.mpr ⟨member, rfl⟩]
    exact run

end Pool

end TheoryKernel.Mm.Phys
