import TheoryKernel.Lib.Chain
import TheoryKernel.Lib.Extents
import TheoryKernel.Mm.Heap.Slab

/-! Who owns which part of the frames of the heap. -/

namespace TheoryKernel.Mm.Heap

open Function
open ByteMemory LinkedList Extent

/-- The number of classes. -/
def classCount : Nat := 12

/-- The size of the objects of a class. -/
def classSize (index : Nat) : Nat := 2 ^ (index + 3)

theorem sizeClasses_eq : sizeClasses = (List.range classCount).map classSize := by decide

/-- Objects have room for a link. -/
theorem eight_le_classSize (index : Nat) : 8 ≤ classSize index := by
  have small : 2 ^ 3 ≤ 2 ^ (index + 3) := Nat.pow_le_pow_right (by decide) (Nat.le_add_left 3 index)
  exact small

section Classes

variable {size index : Nat}

/-- The first class that is large enough. -/
theorem classIndex_eq_some : classIndex size = some index ↔
    index < classCount ∧ size ≤ classSize index ∧ ∀ smaller < index, classSize smaller < size := by
  rw [classIndex, List.findIdx?_eq_some_iff_getElem]
  simp only [sizeClasses_eq, List.length_map, List.length_range, List.getElem_map,
    List.getElem_range, decide_eq_true_eq, Nat.not_le]
  exact exists_prop

/-- If some class is large enough, the first such class is not behind it. -/
theorem classIndex_le (valid : index < classCount) (fits : size ≤ classSize index) :
    ∃ first ≤ index, classIndex size = some first := by
  cases found : classIndex size with
  | none =>
    rw [classIndex, List.findIdx?_eq_none_iff, sizeClasses_eq] at found
    have tooSmall := found (classSize index)
      (List.mem_map_of_mem (List.mem_range.mpr valid))
    rw [decide_eq_false_iff_not] at tooSmall
    exact absurd fits tooSmall
  | some first =>
    refine ⟨first, ?_, rfl⟩
    by_contra behind
    have larger := (classIndex_eq_some.mp found).2.2 index (by omega)
    omega

/-- A smaller class divides a larger one. -/
theorem classSize_dvd {smaller : Nat} (below : smaller ≤ index) :
    classSize smaller ∣ classSize index := Nat.pow_dvd_pow 2 (by omega)

end Classes

theorem decodeLink_encodeLink {link : Option Nat}
    (valid : ∀ node, link = some node → 0 < node ∧ node < 2 ^ 64) :
    decodeLink (encodeLink link) = link := by
  cases link with
  | none => rfl
  | some node =>
    obtain ⟨positive, small⟩ := valid node rfl
    have value : (BitVec.ofNat 64 node).toNat = node := by
      rw [BitVec.toNat_ofNat]
      omega
    have occupied : BitVec.ofNat 64 node ≠ 0 := by
      intro zero
      rw [zero] at value
      exact absurd value (by simp; omega)
    rw [encodeLink, decodeLink, if_neg occupied, value]

/-- The link in each object. -/
def linkCell (memory : Memory) (node : Nat) : Option (Option Nat) :=
  some (decodeLink (loadWord memory node))

/-- The free objects of one class, as ranges. -/
def freeOf (lists : Nat → List Nat) (index : Nat) : List Extent :=
  (lists index).map fun node => ⟨node, classSize index⟩

/-- The free objects of all classes, as ranges. -/
def freeExtents (lists : Nat → List Nat) : List Extent :=
  (List.range classCount).flatMap (freeOf lists)

/-- An address at which a frame may be. -/
structure IsPage (page : Nat) : Prop where
  aligned : page % pageSize = 0
  positive : 0 < page
  fits : page + pageSize ≤ 2 ^ 64

/--
The frames of the heap are divided into ranges that are taken and free objects.

The free objects of each class are linked, are as large as the class says, and are aligned to that.
-/
structure Pooled (caches : Nat → SlabCache) (memory : Memory) (taken : List Extent)
    (lists : Nat → List Nat) (pages : List Nat) : Prop where
  sizes : ∀ index < classCount,
    (caches index).objectSize = classSize index ∧ (caches index).slabSize = pageSize
  chain : ∀ index < classCount, Chain (linkCell memory) id (caches index).freeList (lists index)
  separate : Separate (taken ++ freeExtents lists)
  placed : ∀ extent ∈ taken ++ freeExtents lists, ∃ page ∈ pages, extent.Inside ⟨page, pageSize⟩
  aligned : ∀ index < classCount, ∀ node ∈ lists index, classSize index ∣ node
  isPage : ∀ page ∈ pages, IsPage page

section Lists

variable {lists : Nat → List Nat} {index node : Nat}

/-- A free object is among the free ranges. -/
theorem mem_freeExtents (valid : index < classCount) (member : node ∈ lists index) :
    ⟨node, classSize index⟩ ∈ freeExtents lists :=
  List.mem_flatMap.mpr ⟨index, List.mem_range.mpr valid,
    List.mem_map_of_mem (f := fun node => (⟨node, classSize index⟩ : Extent)) member⟩

theorem freeOf_update (nodes : List Nat) :
    freeOf (update lists index nodes) =
      update (freeOf lists) index (nodes.map fun node => ⟨node, classSize index⟩) := by
  funext other
  by_cases same : other = index
  · subst same
    rw [freeOf, update_self, update_self]
  · rw [freeOf, update_of_ne same, update_of_ne same, freeOf]

theorem freeExtents_push (valid : index < classCount) :
    (freeExtents (update lists index (node :: lists index))).Perm
      (⟨node, classSize index⟩ :: freeExtents lists) := by
  rw [freeExtents, freeOf_update]
  exact flatMap_update_perm List.nodup_range (List.mem_range.mpr valid) (List.Perm.refl _)

theorem freeExtents_pop {rest : List Nat} (valid : index < classCount)
    (first : lists index = node :: rest) :
    (freeExtents lists).Perm
      (⟨node, classSize index⟩ :: freeExtents (update lists index rest)) := by
  rw [freeExtents, freeExtents, freeOf_update]
  apply flatMap_perm_update List.nodup_range (List.mem_range.mpr valid)
  rw [freeOf, first]
  exact List.Perm.refl _

end Lists

namespace Pooled

variable {caches : Nat → SlabCache} {memory memory' : Memory} {taken taken' : List Extent}
  {lists : Nat → List Nat} {pages : List Nat} {extent inner : Extent} {index node page : Nat}

theorem retake (pooled : Pooled caches memory taken lists pages)
    (separate : Separate (taken' ++ freeExtents lists))
    (placed : ∀ extent ∈ taken', ∃ page ∈ pages, extent.Inside ⟨page, pageSize⟩) :
    Pooled caches memory taken' lists pages where
  __ := pooled
  separate := separate
  placed := by
    intro extent member
    rcases List.mem_append.mp member with isTaken | isFree
    · exact placed extent isTaken
    · exact pooled.placed extent (List.mem_append_right taken isFree)

/-- The order of the ranges that are taken does not matter. -/
theorem perm (pooled : Pooled caches memory taken lists pages) (same : taken.Perm taken') :
    Pooled caches memory taken' lists pages := by
  refine pooled.retake (pooled.separate.perm (same.append_right _)) ?_
  intro extent member
  exact pooled.placed extent (List.mem_append_left _ (same.mem_iff.mpr member))

/-- A range that is taken may be replaced by a part of it. -/
theorem shrink (pooled : Pooled caches memory (extent :: taken) lists pages)
    (inside : inner.Inside extent) : Pooled caches memory (inner :: taken) lists pages := by
  refine pooled.retake (pooled.separate.shrink inside) ?_
  intro other member
  rcases List.mem_cons.mp member with rfl | later
  · obtain ⟨page, granted, within⟩ := pooled.placed extent (by simp)
    refine ⟨page, granted, ?_⟩
    unfold Inside at *
    omega
  · exact pooled.placed other (by simp [later])

theorem drop (pooled : Pooled caches memory (extent :: taken) lists pages) :
    Pooled caches memory taken lists pages :=
  pooled.retake (separate_cons.mp pooled.separate).2
    fun other member => pooled.placed other (by simp [member])

theorem cut {start size part : Nat}
    (pooled : Pooled caches memory (⟨start, size⟩ :: taken) lists pages) (fits : part ≤ size) :
    Pooled caches memory (⟨start, part⟩ :: ⟨start + part, size - part⟩ :: taken) lists pages := by
  refine pooled.retake (pooled.separate.cut fits) ?_
  obtain ⟨page, granted, low, high⟩ := pooled.placed ⟨start, size⟩ (by simp)
  simp only at low high
  intro other member
  rcases List.mem_cons.mp member with rfl | member
  · exact ⟨page, granted, low, by simp only; omega⟩
  · rcases List.mem_cons.mp member with rfl | member
    · exact ⟨page, granted, by simp only; omega, by simp only; omega⟩
    · exact pooled.placed other (by simp [member])

/-- A frame may be added. -/
theorem grant (pooled : Pooled caches memory taken lists pages) (isPage : IsPage page)
    (fresh : page ∉ pages) :
    Pooled caches memory (⟨page, pageSize⟩ :: taken) lists (page :: pages) where
  __ := pooled
  separate := by
    refine separate_cons.mpr ⟨?_, pooled.separate⟩
    intro other member
    obtain ⟨base, granted, low, high⟩ := pooled.placed other member
    -- Two frames are the same or apart.
    have distinct : base ≠ page := fun same => fresh (same ▸ granted)
    have aligned := (pooled.isPage base granted).aligned
    have aligned' := isPage.aligned
    simp only [Apart] at *
    unfold pageSize at *
    omega
  placed := by
    intro other member
    rcases List.mem_cons.mp member with rfl | later
    · exact ⟨page, List.mem_cons_self, Nat.le_refl _, Nat.le_refl _⟩
    · obtain ⟨base, granted, inside⟩ := pooled.placed other later
      exact ⟨base, List.mem_cons_of_mem page granted, inside⟩
  isPage := List.forall_mem_cons.mpr ⟨isPage, pooled.isPage⟩

theorem node_valid (pooled : Pooled caches memory taken lists pages)
    (member : ⟨node, classSize index⟩ ∈ taken ++ freeExtents lists) : 0 < node ∧ node < 2 ^ 64 := by
  obtain ⟨page, granted, low, high⟩ := pooled.placed _ member
  have isPage := pooled.isPage page granted
  have positive := isPage.positive
  have fits := isPage.fits
  have large := eight_le_classSize index
  simp only at low high
  omega

theorem loadWord_eq (pooled : Pooled caches memory (extent :: taken) lists pages)
    (outside : ∀ other, other < extent.start ∨ extent.start + extent.size ≤ other →
      memory' other = memory other)
    (valid : index < classCount) (member : node ∈ lists index) :
    loadWord memory' node = loadWord memory node := by
  have apart := (separate_cons.mp pooled.separate).1 _
    (List.mem_append_right taken (mem_freeExtents valid member))
  have large := eight_le_classSize index
  simp only [Apart] at apart
  apply loadWord_congr
  intro position small
  exact outside _ (by omega)

/-- Lists stay linked if no link in them changes. -/
theorem chain_congr (pooled : Pooled caches memory taken lists pages) (valid : index < classCount)
    (same : ∀ node ∈ lists index, loadWord memory' node = loadWord memory node) :
    Chain (linkCell memory') id (caches index).freeList (lists index) := by
  apply (pooled.chain index valid).congr
  intro node member
  rw [linkCell, linkCell, same node member]

/-- A range that is taken may be written. -/
theorem write (pooled : Pooled caches memory (extent :: taken) lists pages)
    (outside : ∀ other, other < extent.start ∨ extent.start + extent.size ≤ other →
      memory' other = memory other) :
    Pooled caches memory' (extent :: taken) lists pages where
  __ := pooled
  chain := fun _ valid => pooled.chain_congr valid fun _ member =>
    pooled.loadWord_eq outside valid member

theorem relist {cache : SlabCache} {nodes : List Nat}
    (pooled : Pooled caches memory taken lists pages)
    (sizes : cache.objectSize = (caches index).objectSize ∧ cache.slabSize = (caches index).slabSize)
    (chain : index < classCount → Chain (linkCell memory') id cache.freeList nodes)
    (others : ∀ other < classCount,
      Chain (linkCell memory') id (caches other).freeList (lists other))
    (same : (taken' ++ freeExtents (update lists index nodes)).Perm
      (taken ++ freeExtents lists))
    (aligned : ∀ node ∈ nodes, classSize index ∣ node) :
    Pooled (update caches index cache) memory' taken'
      (update lists index nodes) pages where
  sizes := by
    refine (Function.forall_update_iff caches fun other cache => other < classCount →
      cache.objectSize = classSize other ∧ cache.slabSize = pageSize).mpr
      ⟨fun valid => ?_, fun other _ => pooled.sizes other⟩
    rw [sizes.1, sizes.2]
    exact pooled.sizes index valid
  chain := by
    intro other valid
    by_cases here : other = index
    · subst here
      rw [update_self, update_self]
      exact chain valid
    · rw [update_of_ne here, update_of_ne here]
      exact others other valid
  separate := pooled.separate.perm same.symm
  placed := fun extent member => pooled.placed extent (same.mem_iff.mp member)
  aligned := (Function.forall_update_iff lists fun other nodes => other < classCount →
    ∀ node ∈ nodes, classSize other ∣ node).mpr
    ⟨fun _ => aligned, fun other _ => pooled.aligned other⟩
  isPage := pooled.isPage

theorem first_free (pooled : Pooled caches memory taken lists pages) (valid : index < classCount)
    (first : (caches index).freeList = some node) :
    ∃ rest, lists index = node :: rest ∧
      Chain (linkCell memory) id (decodeLink (loadWord memory node)) rest := by
  have whole := pooled.chain index valid
  cases nodes : lists index with
  | nil =>
    rw [nodes, chain_nil, first] at whole
    cases whole
  | cons head rest =>
    rw [nodes, chain_cons, first] at whole
    obtain ⟨isHead, held, found, below⟩ := whole
    cases isHead
    cases found
    exact ⟨rest, rfl, below⟩

/-- An object that is taken may become a free one. -/
theorem push (pooled : Pooled caches memory (⟨node, classSize index⟩ :: taken) lists pages)
    (valid : index < classCount) (aligned : classSize index ∣ node) :
    Pooled (update caches index ((caches index).push node memory).1)
      ((caches index).push node memory).2 taken
      (update lists index (node :: lists index)) pages := by
  have large := eight_le_classSize index
  -- Only the link in the object itself is written.
  have outside : ∀ other, other < node ∨ node + classSize index ≤ other →
      storeWord memory node (encodeLink (caches index).freeList) other = memory other := by
    intro other apart
    exact store_outside (by omega)
  have rest : ∀ other < classCount, Chain (linkCell ((caches index).push node memory).2) id
      (caches other).freeList (lists other) := fun other valid' =>
    pooled.chain_congr valid' fun _ member => pooled.loadWord_eq outside valid' member
  refine pooled.relist ⟨rfl, rfl⟩ (fun _ => chain_cons.mpr ⟨rfl, _, rfl, ?_⟩) rest
    (((freeExtents_push valid).append_left taken).trans List.perm_middle)
    (List.forall_mem_cons.mpr ⟨aligned, pooled.aligned index valid⟩)
  have linked : ∀ first, (caches index).freeList = some first → 0 < first ∧ first < 2 ^ 64 := by
    intro first isFirst
    obtain ⟨below, nodes, -⟩ := pooled.first_free valid isFirst
    exact pooled.node_valid (List.mem_append_right _
      (mem_freeExtents valid (by rw [nodes]; exact List.mem_cons_self)))
  have word : loadWord ((caches index).push node memory).2 node =
      encodeLink (caches index).freeList := loadWord_storeWord
  rw [word, decodeLink_encodeLink linked]
  exact rest index valid

theorem refillLoop_returns {base done left : Nat} (valid : index < classCount)
    (pooled : Pooled caches memory (⟨base + done * classSize index,
      left * classSize index⟩ :: taken) lists pages)
    (aligned : 0 < left → classSize index ∣ base) :
    ∃ cache memory' lists',
      (caches index).refillLoop base (List.range' done left) memory = .ok (cache, memory') ∧
      Pooled (update caches index cache) memory' taken lists' pages ∧
      lists' index = ((List.range' done left).map fun position =>
        base + position * classSize index).reverse ++ lists index ∧
      ∀ other, other < base + done * classSize index ∨
        base + (done + left) * classSize index ≤ other → memory' other = memory other := by
  induction left generalizing caches memory lists done with
  | zero =>
    refine ⟨caches index, memory, lists, rfl, ?_, rfl, fun _ _ => rfl⟩
    rw [update_eq_self]
    exact pooled.drop
  | succ left ih =>
    have large := eight_le_classSize index
    have sizes := pooled.sizes index valid
    -- The next object is cut off, and what is behind it is left to the other rounds.
    have first : classSize index ≤ (left + 1) * classSize index :=
      Nat.le_mul_of_pos_left _ (Nat.succ_pos left)
    have parts := pooled.cut first
    have behind : base + done * classSize index + classSize index =
        base + (done + 1) * classSize index := by
      rw [Nat.add_mul, Nat.one_mul, Nat.add_assoc]
    have remains : (left + 1) * classSize index - classSize index = left * classSize index := by
      rw [Nat.add_mul, Nat.one_mul, Nat.add_sub_cancel]
    rw [behind, remains] at parts
    have place : 0 < base + done * classSize index ∧
        base + done * classSize index < 2 ^ 64 := parts.node_valid List.mem_cons_self
    have here : wrapAdd base (done * (caches index).objectSize) =
        base + done * classSize index := by
      rw [sizes.1]
      exact wrapAdd_eq place.2
    have divides : classSize index ∣ base + done * classSize index :=
      Nat.dvd_add (aligned (Nat.succ_pos left)) (Nat.dvd_mul_left _ _)
    have pushed := parts.push valid divides
    have pushedCache : update caches index
        ((caches index).push (base + done * classSize index) memory).1 index =
        ((caches index).push (base + done * classSize index) memory).1 := update_self ..
    obtain ⟨cache, memory', lists', run, final, nodes, outside⟩ := ih pushed
      fun more => aligned (Nat.lt_succ_of_lt more)
    rw [pushedCache] at run
    refine ⟨cache, memory', lists', ?_, ?_, ?_, ?_⟩
    · rw [List.range'_succ, SlabCache.refillLoop]
      simp only [here]
      rw [if_neg (by omega)]
      exact run
    · rwa [update_idem] at final
    · rw [nodes, update_self, List.range'_succ]
      simp
    · intro other apart
      have end_ : base + (done + 1 + left) * classSize index =
          base + (done + (left + 1)) * classSize index := by
        rw [Nat.add_assoc done, Nat.add_comm 1 left]
      have wide : base + (done + 1) * classSize index ≤
          base + (done + (left + 1)) * classSize index := by
        apply Nat.add_le_add_left
        exact Nat.mul_le_mul_right _ (by omega)
      rw [outside other (by omega)]
      exact store_outside (by omega)

/-- At the beginning there are neither frames nor objects. -/
theorem new (memory : Memory) : Pooled SlabAllocator.new.caches memory [] (fun _ => []) [] where
  sizes := by decide
  chain := fun _ _ => chain_nil.mpr rfl
  separate := List.Pairwise.nil
  placed := nofun
  aligned := nofun
  isPage := nofun

/-- A frame is divided into objects; a class with larger objects gets none. -/
theorem divide {base : Nat}
    (pooled : Pooled caches memory (⟨base, pageSize⟩ :: taken) lists pages)
    (valid : index < classCount) (isPage : IsPage base) :
    ∃ cache memory' lists', (caches index).refillLoop base
        (List.range ((caches index).slabSize / (caches index).objectSize)) memory =
          .ok (cache, memory') ∧
      Pooled (update caches index cache) memory' taken lists' pages ∧
      lists' index = ((List.range (pageSize / classSize index)).map fun position =>
        base + position * classSize index).reverse ++ lists index ∧
      ∀ other, other < base ∨ base + pageSize ≤ other → memory' other = memory other := by
  have whole : pageSize / classSize index * classSize index ≤ pageSize := Nat.div_mul_le_self _ _
  have sizes := pooled.sizes index valid
  have start : base + 0 * classSize index = base := by rw [Nat.zero_mul, Nat.add_zero]
  have whole' : (⟨base + 0 * classSize index,
      pageSize / classSize index * classSize index⟩ : Extent).Inside ⟨base, pageSize⟩ := by
    rw [start]
    exact ⟨Nat.le_refl _, Nat.add_le_add_left whole base⟩
  have aligned : 0 < pageSize / classSize index → classSize index ∣ base := by
    intro some_
    have fits : classSize index ≤ pageSize := Nat.le_of_not_lt fun larger => by
      rw [Nat.div_eq_of_lt larger] at some_
      exact absurd some_ (Nat.lt_irrefl 0)
    have divides : classSize index ∣ pageSize := by
      have exponent : index + 3 ≤ 12 := by
        by_contra large
        have more : 2 ^ 13 ≤ 2 ^ (index + 3) := Nat.pow_le_pow_right (by decide) (by omega)
        unfold classSize pageSize at fits
        omega
      exact Nat.pow_dvd_pow 2 exponent
    exact divides.trans (Nat.dvd_of_mod_eq_zero isPage.aligned)
  obtain ⟨cache, memory', lists', run, final, nodes, outside⟩ :=
    (pooled.shrink whole').refillLoop_returns valid aligned
  rw [sizes.1, sizes.2, List.range_eq_range']
  refine ⟨cache, memory', lists', run, final, nodes, fun other far => outside other ?_⟩
  simp only [Nat.zero_add]
  omega

end Pooled

/-- The addresses of the frames that were taken for the heap. -/
def pagesOf (map : DirectMap) (world : HeapWorld) : List Nat :=
  world.granted.map fun granted => wrapAdd granted.1 map.hhdmOffset

/-- What the frame allocator answers is the address of a frame that the heap does not have. -/
def Fresh (map : DirectMap) (answers : Answers) (world : HeapWorld) : Prop :=
  ∀ phys, answers 0 = some phys →
    IsPage (wrapAdd phys map.hhdmOffset) ∧ wrapAdd phys map.hhdmOffset ∉ pagesOf map world

/-- The bytes of some ranges have not changed. -/
def SameOn (extents : List Extent) (memory memory' : Memory) : Prop :=
  ∀ extent ∈ extents, ∀ addr, extent.start ≤ addr → addr < extent.start + extent.size →
    memory' addr = memory addr

/-- What is outside a range is the same on the ranges that are apart from it. -/
theorem sameOn_of_outside {extent : Extent} {extents : List Extent} {memory memory' : Memory}
    (apart : ∀ other ∈ extents, extent.Apart other)
    (outside : ∀ other, other < extent.start ∨ extent.start + extent.size ≤ other →
      memory' other = memory other) : SameOn extents memory memory' := by
  intro other member addr low high
  have separate := apart other member
  unfold Apart at separate
  exact outside addr (by omega)

namespace Pooled

variable {caches : Nat → SlabCache} {taken : List Extent} {lists : Nat → List Nat}
  {map : DirectMap} {answers : Answers} {world : HeapWorld} {index : Nat}

theorem refill_returns (pooled : Pooled caches world.memory taken lists (pagesOf map world))
    (valid : index < classCount) (fresh : Fresh map answers world) :
    ∃ outcome cache world' lists',
      (caches index).refill map answers world = .ok (outcome, cache, world') ∧
      Pooled (update caches index cache) world'.memory taken lists' (pagesOf map world') ∧
      SameOn taken world.memory world'.memory := by
  unfold SlabCache.refill HeapWorld.allocFrames
  cases answer : answers 0 with
  | none =>
    refine ⟨none, caches index, world, lists, rfl, ?_, fun _ _ _ _ _ => rfl⟩
    rwa [update_eq_self]
  | some phys =>
    obtain ⟨isPage, isNew⟩ := fresh phys answer
    obtain ⟨base, baseEq⟩ : ∃ base, wrapAdd phys map.hhdmOffset = base := ⟨_, rfl⟩
    rw [baseEq] at isPage isNew
    have granted := pooled.grant isPage isNew
    have apart := (separate_cons.mp granted.separate).1
    obtain ⟨cache, memory', lists', run, final, -, outside⟩ := granted.divide valid isPage
    refine ⟨some (), cache, ⟨memory', (phys, 0) :: world.granted⟩, lists', ?_, ?_, ?_⟩
    · simp only [Option.map_some, baseEq, run, Exec.ok_bind]
    · have pages : pagesOf map ⟨memory', (phys, 0) :: world.granted⟩ =
          base :: pagesOf map world := by
        rw [← baseEq]
        rfl
      rw [pages]
      exact final
    · exact sameOn_of_outside (fun other member => apart other (List.mem_append_left _ member))
        outside

/-- An object of a class is taken, if there is one or a frame can be taken. -/
theorem alloc_returns (pooled : Pooled caches world.memory taken lists (pagesOf map world))
    (valid : index < classCount) (fresh : Fresh map answers world) :
    ∃ result cache world' lists',
      (caches index).alloc map answers world = .ok (result, cache, world') ∧
      Pooled (update caches index cache) world'.memory
        (result.toList.map (fun node => ⟨node, classSize index⟩) ++ taken) lists'
        (pagesOf map world') ∧
      (∀ node, result = some node → classSize index ∣ node) ∧
      SameOn taken world.memory world'.memory := by
  -- Either an object is free, or the class is refilled first.
  obtain ⟨outcome, cache, world', lists', run, pooled', same⟩ : ∃ outcome cache world' lists',
      (caches index).refillIfEmpty map answers world = .ok (outcome, cache, world') ∧
      Pooled (update caches index cache) world'.memory taken lists' (pagesOf map world') ∧
      SameOn taken world.memory world'.memory := by
    unfold SlabCache.refillIfEmpty
    split
    · exact pooled.refill_returns valid fresh
    · refine ⟨some (), caches index, world, lists, rfl, ?_, fun _ _ _ _ _ => rfl⟩
      rwa [update_eq_self]
  rw [SlabCache.alloc, run, Exec.ok_bind]
  cases outcome with
  | none => exact ⟨none, cache, world', lists', rfl, pooled', fun _ => (nomatch ·), same⟩
  | some _ =>
    cases first : cache.freeList with
    | none =>
      refine ⟨none, cache, world', lists', ?_, pooled', fun _ => (nomatch ·), same⟩
      simp only [first]
    | some node =>
      have self : update caches index cache index = cache := update_self ..
      have isFirst : (update caches index cache index).freeList = some node := by
        rw [self, first]
      obtain ⟨rest, nodes, below⟩ := pooled'.first_free valid isFirst
      have aligned : ∀ other ∈ node :: rest, classSize index ∣ other :=
        nodes ▸ pooled'.aligned index valid
      refine ⟨some node, { cache with freeList := decodeLink (loadWord world'.memory node) },
        world', update lists' index rest, ?_, ?_, ?_, same⟩
      · simp only [first]
      · rw [← update_idem cache]
        exact pooled'.relist (by rw [self]; exact ⟨rfl, rfl⟩) (fun _ => below) pooled'.chain
          (((freeExtents_pop valid nodes).append_left taken).trans List.perm_middle).symm
          fun other member => aligned other (List.mem_cons_of_mem _ member)
      · rintro other isNode
        cases isNode
        exact aligned node List.mem_cons_self

end Pooled

end TheoryKernel.Mm.Heap
