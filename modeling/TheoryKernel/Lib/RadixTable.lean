import Mathlib.Data.List.Induction
import Mathlib.Data.Set.Insert
import Mathlib.Logic.Function.Basic

/-! Tables of several levels in one memory, and the finite maps that they stand for. -/

namespace RadixTable

open Option

variable {ν ι W : Type}

/-- How a word of a table refers to a table of the next level, and the word of an unused slot. -/
structure Format (ν W : Type) where
  present : W → Bool
  child : W → ν
  empty : W
  empty_absent : present empty = false

/-- A memory of tables, each with its slots. -/
abbrev Memory (ν ι W : Type) : Type := ν → ι → W

section Walk

variable (format : Format ν W)

/-- The table reached from another one along a path of slots. -/
def descend (memory : Memory ν ι W) : ν → List ι → Option ν
  | table, [] => some table
  | table, index :: rest =>
    if format.present (memory table index) then descend memory (format.child (memory table index)) rest
    else none

/-- The word at the end of a path, and the unused word if the path breaks off. -/
def lookup (memory : Memory ν ι W) (root : ν) (path : List ι) (index : ι) : W :=
  ((descend format memory root path).map fun table => memory table index).getD format.empty

/-- The tables reached from a set of roots along paths of bounded length. -/
def Tables (memory : Memory ν ι W) (roots : Set ν) (depth : Nat) : Set ν :=
  {table | ∃ root ∈ roots, ∃ path : List ι, path.length ≤ depth ∧
    descend format memory root path = some table}

/-- Every table is reached from one root along one path. -/
def Forest (memory : Memory ν ι W) (roots : Set ν) (depth : Nat) : Prop :=
  ∀ root ∈ roots, ∀ root' ∈ roots, ∀ path path' : List ι, path.length ≤ depth →
    path'.length ≤ depth → ∀ table, descend format memory root path = some table →
      descend format memory root' path' = some table → root = root' ∧ path = path'

end Walk

variable {format : Format ν W} {memory memory' : Memory ν ι W} {roots : Set ν} {depth : Nat}
  {root root' table fresh : ν} {path path' : List ι} {index index' : ι} {word : W}

@[simp] theorem descend_nil : descend format memory root ([] : List ι) = some root := rfl

/-- A longer path goes on from where the shorter one ends. -/
theorem descend_concat : descend format memory root (path ++ [index]) =
    (descend format memory root path).bind fun table =>
      if format.present (memory table index) then some (format.child (memory table index))
      else none := by
  induction path generalizing root with
  | nil => rfl
  | cons first rest ih =>
    rw [List.cons_append, descend, descend]
    by_cases present : format.present (memory root first) = true
    · rw [if_pos present, if_pos present, ih]
    · rw [if_neg present, if_neg present]
      rfl

/-- A walk sees only the slots on its way. -/
theorem descend_congr
    (same : ∀ (before : List ι) (index : ι) (after : List ι) (table : ν),
      path = before ++ index :: after → descend format memory root before = some table →
        memory' table index = memory table index) :
    descend format memory' root path = descend format memory root path := by
  induction path generalizing root with
  | nil => rfl
  | cons first rest ih =>
    have here : memory' root first = memory root first := same [] first rest root rfl rfl
    rw [descend, descend, here]
    by_cases present : format.present (memory root first) = true
    · rw [if_pos present, if_pos present]
      apply ih
      intro before index after table split reached
      refine same (first :: before) index after table (by rw [split]; rfl) ?_
      rw [descend, if_pos present, reached]
    · rw [if_neg present, if_neg present]

/-- A table at the end of a path is one of the tables. -/
theorem mem_tables (inRoots : root ∈ roots) (short : path.length ≤ depth)
    (reached : descend format memory root path = some table) :
    table ∈ Tables format memory roots depth := ⟨root, inRoots, path, short, reached⟩

/-- All walks from the roots end where they do in another memory. -/
def SameWalks (format : Format ν W) (memory memory' : Memory ν ι W) (roots : Set ν) (depth : Nat) :
    Prop :=
  ∀ root ∈ roots, ∀ path : List ι, path.length ≤ depth →
    descend format memory' root path = descend format memory root path

/-- The same walks reach the same tables. -/
theorem SameWalks.tables (walks : SameWalks format memory memory' roots depth) :
    Tables format memory' roots depth = Tables format memory roots depth := by
  ext table
  refine exists_congr fun root => and_congr_right fun inRoots => exists_congr fun path => ?_
  refine and_congr_right fun short => ?_
  rw [walks root inRoots path short]

/-- The same walks form a forest. -/
theorem SameWalks.forest (walks : SameWalks format memory memory' roots depth)
    (forest : Forest format memory roots depth) : Forest format memory' roots depth := by
  intro root inRoots root' inRoots' path path' short short' table reached reached'
  rw [walks root inRoots path short] at reached
  rw [walks root' inRoots' path' short'] at reached'
  exact forest root inRoots root' inRoots' path path' short short' table reached reached'

section Outside

variable (same : ∀ table ∈ Tables format memory roots depth, memory' table = memory table)

include same

/-- Words outside the tables do not matter to a walk. -/
theorem sameWalks_outside : SameWalks format memory memory' roots depth := by
  intro root inRoots path short
  apply descend_congr
  intro before index after table split reached
  have shorter : before.length ≤ depth := by
    rw [split, List.length_append] at short
    omega
  rw [same table (mem_tables inRoots shorter reached)]

/-- Words outside the tables do not matter to a lookup. -/
theorem lookup_outside (inRoots : root ∈ roots) (short : path.length ≤ depth) :
    lookup format memory' root path index = lookup format memory root path index := by
  unfold lookup
  rw [sameWalks_outside same root inRoots path short]
  cases reached : descend format memory root path with
  | none => rfl
  | some table => rw [map_some, map_some, same table (mem_tables inRoots short reached)]

end Outside

section Root

variable (blank : ∀ slot, memory fresh slot = format.empty)

include blank

/-- Below a blank table there is nothing. -/
theorem descend_blank :
    descend format memory fresh path = if path = [] then some fresh else none := by
  cases path with
  | nil => rfl
  | cons first rest => rw [descend, blank, format.empty_absent]; rfl

omit blank in
/-- A blank table outside the forest may become another root. -/
theorem Forest.insert (forest : Forest format memory roots depth)
    (isFresh : fresh ∉ Tables format memory roots depth)
    (blank : ∀ slot, memory fresh slot = format.empty) :
    Forest format memory (Insert.insert fresh roots) depth := by
  -- The only table below the new root is the new root.
  have onlyRoot : ∀ path table, descend format memory fresh path = some table →
      path = ([] : List ι) ∧ table = fresh := by
    intro path table reached
    rw [descend_blank blank] at reached
    split at reached
    · rename_i empty
      cases reached
      exact ⟨empty, rfl⟩
    · cases reached
  rintro first (rfl | inFirst) second (rfl | inSecond) path₁ path₂ short₁ short₂ other found₁ found₂
  · exact ⟨rfl, (onlyRoot _ _ found₁).1.trans (onlyRoot _ _ found₂).1.symm⟩
  · rw [(onlyRoot _ _ found₁).2] at found₂
    exact absurd (mem_tables inSecond short₂ found₂) isFresh
  · rw [(onlyRoot _ _ found₂).2] at found₁
    exact absurd (mem_tables inFirst short₁ found₁) isFresh
  · exact forest first inFirst second inSecond path₁ path₂ short₁ short₂ other found₁ found₂

/-- The tables below the roots and a blank one are the tables before and the blank one. -/
theorem tables_insert :
    Tables format memory (Insert.insert fresh roots) depth =
      Insert.insert fresh (Tables format memory roots depth) := by
  ext other
  constructor
  · rintro ⟨root, rfl | inRoots, path, short, reached⟩
    · rw [descend_blank blank] at reached
      split at reached
      · cases reached
        exact .inl rfl
      · cases reached
    · exact .inr ⟨root, inRoots, path, short, reached⟩
  · rintro (rfl | ⟨root, inRoots, path, short, reached⟩)
    · exact ⟨other, .inl rfl, [], Nat.zero_le _, rfl⟩
    · exact ⟨root, .inr inRoots, path, short, reached⟩

/-- A blank root maps everything to the unused word. -/
theorem lookup_blank : lookup format memory fresh path index = format.empty := by
  unfold lookup
  rw [descend_blank blank]
  split
  · rw [map_some, blank]
    rfl
  · rfl

end Root

variable [DecidableEq ν] [DecidableEq ι]

/-- Writing one slot of one table. -/
def write (memory : Memory ν ι W) (table : ν) (index : ι) (word : W) : Memory ν ι W :=
  Function.update memory table (Function.update (memory table) index word)

@[simp] theorem write_self : write memory table index word table index = word := by
  simp [write]

theorem write_of_ne {other : ν} {otherIndex : ι} (apart : ¬ (other = table ∧ otherIndex = index)) :
    write memory table index word other otherIndex = memory other otherIndex := by
  unfold write
  by_cases same : other = table
  · subst same
    have otherSlot : otherIndex ≠ index := fun sameIndex => apart ⟨rfl, sameIndex⟩
    rw [Function.update_self, Function.update_of_ne otherSlot]
  · rw [Function.update_of_ne same]

/-- A walk that reaches its end does not see a write to a slot that leads nowhere. -/
theorem descend_write_absent {last : ν} (reached : descend format memory root path = some last)
    (absent : format.present (memory table index) = false) :
    descend format (write memory table index word) root path = some last := by
  induction path generalizing root with
  | nil => exact reached
  | cons first rest ih =>
    by_cases present : format.present (memory root first) = true
    · have apart : ¬ (root = table ∧ first = index) := by
        rintro ⟨rfl, rfl⟩
        rw [present] at absent
        cases absent
      rw [descend, if_pos present] at reached
      rw [descend, write_of_ne apart, if_pos present]
      exact ih reached
    · rw [descend, if_neg present] at reached
      cases reached

section Leaf

variable (forest : Forest format memory roots depth) (inRoots : root ∈ roots)
  (full : path.length = depth) (reached : descend format memory root path = some table)

include forest inRoots full reached

/-- Writing a slot of the last level does not matter to a walk. -/
theorem sameWalks_write_leaf (index : ι) (word : W) :
    SameWalks format memory (write memory table index word) roots depth := by
  intro root' inRoots' path' short
  apply descend_congr
  intro before other after visited split reached'
  apply write_of_ne
  rintro ⟨rfl, -⟩
  -- The table would be reached along a path that is too short.
  have lengths : before.length < depth := by
    rw [split, List.length_append, List.length_cons] at short
    omega
  have same := (forest root inRoots root' inRoots' path before (by omega) (by omega) visited
    reached reached').2
  rw [same] at full
  omega

/-- Writing a slot of the last level changes the map at that place alone. -/
theorem lookup_write_leaf [DecidableEq (List ι)] (word : W) (inRoots' : root' ∈ roots)
    (full' : path'.length = depth) :
    lookup format (write memory table index word) root' path' index' =
      if root' = root ∧ path' = path ∧ index' = index then word
      else lookup format memory root' path' index' := by
  unfold lookup
  rw [sameWalks_write_leaf forest inRoots full reached index word root' inRoots' path' (by omega)]
  by_cases here : root' = root ∧ path' = path ∧ index' = index
  · obtain ⟨rfl, rfl, rfl⟩ := here
    rw [if_pos ⟨rfl, rfl, rfl⟩, reached, map_some, write_self]
    rfl
  · rw [if_neg here]
    cases found : descend format memory root' path' with
    | none => rfl
    | some other =>
      have apart : ¬ (other = table ∧ index' = index) := by
        rintro ⟨rfl, sameIndex⟩
        have same := forest root' inRoots' root inRoots path' path (by omega) (by omega) other
          found reached
        exact here ⟨same.1, same.2, sameIndex⟩
      rw [map_some, map_some, write_of_ne apart]

end Leaf

/-- A fresh table is to be linked from an unused slot above the last level. -/
structure Attaches (format : Format ν W) (memory : Memory ν ι W) (roots : Set ν) (depth : Nat)
    (root : ν) (path : List ι) (table : ν) (index : ι) (fresh : ν) (word : W) : Prop where
  forest : Forest format memory roots depth
  inRoots : root ∈ roots
  inner : path.length < depth
  reached : descend format memory root path = some table
  absent : format.present (memory table index) = false
  isFresh : fresh ∉ Tables format memory roots depth
  blank : ∀ slot, memory fresh slot = format.empty
  links : format.present word = true
  leads : format.child word = fresh

namespace Attaches

variable (attaches : Attaches format memory roots depth root path table index fresh word)

include attaches

omit [DecidableEq ν] [DecidableEq ι] in
private theorem isTable : table ∈ Tables format memory roots depth :=
  mem_tables attaches.inRoots (Nat.le_of_lt attaches.inner) attaches.reached

/-- After a new table has been attached, a walk ends where it did before or at the new table. -/
theorem descend (inRoots' : root' ∈ roots) (short : path'.length ≤ depth) :
    descend format (write memory table index word) root' path' =
      if root' = root ∧ path' = path ++ [index] then some fresh
      else RadixTable.descend format memory root' path' := by
  have isTable := attaches.isTable
  obtain ⟨forest, inRoots, inner, reached, absent, isFresh, blank, links, leads⟩ := attaches
  -- The walk is followed slot by slot, and only the slot of the new table has changed.
  induction path' using List.reverseRecOn with
  | nil => simp
  | append_singleton before last ih =>
    have shorter : before.length < depth := by
      rw [List.length_append, List.length_singleton] at short
      omega
    rw [descend_concat, descend_concat, ih (Nat.le_of_lt shorter)]
    by_cases beyond : root' = root ∧ before = path ++ [index]
    · -- The slots of the new table are all unused.
      obtain ⟨rfl, rfl⟩ := beyond
      have other : ¬ (fresh = table ∧ last = index) := fun same => isFresh (same.1 ▸ isTable)
      have longer : ¬ (root' = root' ∧ path ++ [index] ++ [last] = path ++ [index]) := by simp
      rw [if_pos ⟨rfl, rfl⟩, if_neg longer, bind_some, write_of_ne other, blank,
        format.empty_absent, descend_concat, reached, bind_some, absent]
      rfl
    · rw [if_neg beyond]
      cases found : RadixTable.descend format memory root' before with
      | none =>
        have elsewhere : ¬ (root' = root ∧ before ++ [last] = path ++ [index]) := by
          rintro ⟨rfl, same⟩
          rw [(List.append_inj' same rfl).1, reached] at found
          cases found
        rw [if_neg elsewhere]
        rfl
      | some other =>
        rw [bind_some, bind_some]
        by_cases here : other = table ∧ last = index
        · obtain ⟨rfl, rfl⟩ := here
          obtain ⟨rfl, rfl⟩ := forest root' inRoots' root inRoots before path
            (Nat.le_of_lt shorter) (Nat.le_of_lt inner) other found reached
          rw [write_self, if_pos links, leads, if_pos ⟨rfl, rfl⟩]
        · have elsewhere : ¬ (root' = root ∧ before ++ [last] = path ++ [index]) := by
            rintro ⟨rfl, same⟩
            obtain ⟨rfl, lastSame⟩ := List.append_inj' same rfl
            cases lastSame
            cases found.symm.trans reached
            exact here ⟨rfl, rfl⟩
          rw [if_neg elsewhere, write_of_ne here]

/-- Attaching a table adds that table and no other. -/
theorem tables :
    Tables format (write memory table index word) roots depth =
      insert fresh (Tables format memory roots depth) := by
  ext other
  constructor
  · rintro ⟨root', inRoots', path', short, found⟩
    rw [attaches.descend inRoots' short] at found
    split at found
    · cases found
      exact .inl rfl
    · exact .inr ⟨root', inRoots', path', short, found⟩
  · rintro (rfl | ⟨root', inRoots', path', short, found⟩)
    · have short : (path ++ [index]).length ≤ depth := by
        rw [List.length_append, List.length_singleton]
        exact attaches.inner
      refine ⟨root, attaches.inRoots, path ++ [index], short, ?_⟩
      rw [attaches.descend attaches.inRoots short, if_pos ⟨rfl, rfl⟩]
    · refine ⟨root', inRoots', path', short, ?_⟩
      have old : ¬ (root' = root ∧ path' = path ++ [index]) := by
        rintro ⟨rfl, rfl⟩
        rw [descend_concat, attaches.reached, bind_some, attaches.absent] at found
        cases found
      rwa [attaches.descend inRoots' short, if_neg old]

/-- Attaching a fresh table keeps the forest. -/
theorem keeps_forest : Forest format (write memory table index word) roots depth := by
  intro first inFirst second inSecond path₁ path₂ short₁ short₂ other found₁ found₂
  rw [attaches.descend inFirst short₁] at found₁
  rw [attaches.descend inSecond short₂] at found₂
  by_cases new₁ : first = root ∧ path₁ = path ++ [index]
  · by_cases new₂ : second = root ∧ path₂ = path ++ [index]
    · exact ⟨new₁.1.trans new₂.1.symm, new₁.2.trans new₂.2.symm⟩
    · -- The new table was not a table before.
      rw [if_pos new₁] at found₁
      rw [if_neg new₂] at found₂
      cases found₁
      exact absurd (mem_tables inSecond short₂ found₂) attaches.isFresh
  · rw [if_neg new₁] at found₁
    by_cases new₂ : second = root ∧ path₂ = path ++ [index]
    · rw [if_pos new₂] at found₂
      cases found₂
      exact absurd (mem_tables inFirst short₁ found₁) attaches.isFresh
    · rw [if_neg new₂] at found₂
      exact attaches.forest first inFirst second inSecond path₁ path₂ short₁ short₂ other found₁
        found₂

/-- Attaching a fresh table does not change the map. -/
theorem lookup (inRoots' : root' ∈ roots) (full' : path'.length = depth) :
    lookup format (write memory table index word) root' path' index' =
      RadixTable.lookup format memory root' path' index' := by
  unfold RadixTable.lookup
  rw [attaches.descend inRoots' (Nat.le_of_eq full')]
  by_cases new : root' = root ∧ path' = path ++ [index]
  · -- The path ended in nothing before, and now ends in an unused slot.
    obtain ⟨rfl, rfl⟩ := new
    have other : ¬ (fresh = table ∧ index' = index) :=
      fun same => attaches.isFresh (same.1 ▸ attaches.isTable)
    rw [if_pos ⟨rfl, rfl⟩, descend_concat, attaches.reached, bind_some, attaches.absent,
      map_some, write_of_ne other, attaches.blank]
    rfl
  · rw [if_neg new]
    cases found : RadixTable.descend format memory root' path' with
    | none => rfl
    | some other =>
      have apart : ¬ (other = table ∧ index' = index) := by
        rintro ⟨rfl, -⟩
        have inner := attaches.inner
        have same := (attaches.forest root' inRoots' root attaches.inRoots path' path
          (Nat.le_of_eq full') (Nat.le_of_lt inner) other found attaches.reached).2
        rw [same] at full'
        omega
      rw [map_some, map_some, write_of_ne apart]

end Attaches

end RadixTable
