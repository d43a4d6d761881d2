import Mathlib.Data.List.Nodup
import Mathlib.Data.List.Pairwise
import Mathlib.Data.List.Perm.Basic
import Mathlib.Logic.Function.Basic

/-! Singly linked lists held as cells that name the next cell, alone and in families. -/

namespace LinkedList

open Function List

variable {ι ν : Type*}

/-- The names met by following links from a head to the end. -/
def Chain (cell : ι → Option ν) (next : ν → Option ι) : Option ι → List ι → Prop
  | none, [] => True
  | some head, id :: rest =>
    head = id ∧ ∃ held, cell id = some held ∧ Chain cell next (next held) rest
  | _, _ => False

variable {cell cell' : ι → Option ν} {next : ν → Option ι} {head : Option ι} {id : ι}
  {ids rest : List ι} {held : ν}

@[simp] theorem chain_nil : Chain cell next head [] ↔ head = none := by
  cases head <;> simp [Chain]

theorem chain_cons : Chain cell next head (id :: rest) ↔
    head = some id ∧ ∃ held, cell id = some held ∧ Chain cell next (next held) rest := by
  cases head <;> simp [Chain]

/-- A chain survives every change that leaves the links of its own cells alone. -/
theorem Chain.congr (chain : Chain cell next head ids)
    (same : ∀ id ∈ ids, (cell' id).map next = (cell id).map next) : Chain cell' next head ids := by
  induction ids generalizing head with
  | nil => exact chain_nil.mpr (chain_nil.mp chain)
  | cons id rest ih =>
    obtain ⟨rfl, held, found, below⟩ := chain_cons.mp chain
    have link := same id (by simp)
    rw [found, Option.map_some, Option.map_eq_some_iff] at link
    obtain ⟨held', found', link⟩ := link
    refine chain_cons.mpr ⟨rfl, held', found', ?_⟩
    rw [link]
    exact ih below fun other member => same other (by simp [member])

private theorem Chain.unlink [DecidableEq ι] {before after : List ι}
    (chain : Chain cell next head (before ++ id :: after)) (found : cell id = some held)
    (nodup : (before ++ id :: after).Nodup)
    (same : ∀ other ∈ before ++ after, (cell' other).map next =
      if before.getLast? = some other then some (next held) else (cell other).map next) :
    Chain cell' next (if before = [] then next held else head) (before ++ after) := by
  -- The links up to the removed cell are followed one by one, and the last of them is redirected.
  induction before generalizing head with
  | nil =>
    obtain ⟨-, held', found', below⟩ := chain_cons.mp chain
    cases found.symm.trans found'
    exact below.congr same
  | cons first rest ih =>
    obtain ⟨rfl, start, foundStart, below⟩ := chain_cons.mp chain
    obtain ⟨fresh, nodup⟩ := nodup_cons.mp nodup
    have link := same first (by simp)
    cases rest with
    | nil =>
      rw [List.getLast?_singleton, if_pos rfl, Option.map_eq_some_iff] at link
      obtain ⟨start', foundStart', link⟩ := link
      refine chain_cons.mpr ⟨rfl, start', foundStart', ?_⟩
      rw [link]
      obtain ⟨-, held', found', after'⟩ := chain_cons.mp below
      cases found.symm.trans found'
      refine after'.congr fun other member => ?_
      have apart : ¬ some first = some other := by
        rintro ⟨⟩
        exact fresh (by simp [member])
      have kept := same other (by simp [member])
      rwa [List.getLast?_singleton, if_neg apart] at kept
    | cons second rest =>
      have last : (first :: second :: rest).getLast? = (second :: rest).getLast? := by
        rw [List.getLast?_cons_cons]
      have apart : ¬ (second :: rest).getLast? = some first := by
        intro isLast
        exact fresh (mem_append_left _ (mem_of_getLast? isLast))
      rw [last, if_neg apart, foundStart, Option.map_some, Option.map_eq_some_iff] at link
      obtain ⟨start', foundStart', link⟩ := link
      refine chain_cons.mpr ⟨rfl, start', foundStart', ?_⟩
      rw [link]
      have further := ih below nodup fun other member => by
        have kept := same other (by simp only [cons_append, mem_cons] at member ⊢; grind)
        rwa [last] at kept
      rwa [if_neg (by simp)] at further

section Family

variable {κ : Type*} [DecidableEq κ] {keys : List κ} {lists : κ → List ι} {key : κ}

/-- Replacing one member of a family by a list with one more element adds it to the whole. -/
theorem flatMap_update_perm {longer : List ι} (nodup : keys.Nodup) (member : key ∈ keys)
    (grown : longer.Perm (id :: lists key)) :
    (keys.flatMap (update lists key longer)).Perm (id :: keys.flatMap lists) := by
  induction keys with
  | nil => simp at member
  | cons first rest ih =>
    obtain ⟨fresh, nodup⟩ := nodup_cons.mp nodup
    simp only [flatMap_cons]
    by_cases same : first = key
    · subst same
      -- The rest of the family does not change.
      have others : rest.flatMap (update lists first longer) = rest.flatMap lists := by
        refine flatMap_congr fun other later => ?_
        have apart : other ≠ first := fun same => fresh (same ▸ later)
        exact update_of_ne apart _ _
      rw [update_self, others]
      exact grown.append_right _
    · have later : key ∈ rest := by
        rcases mem_cons.mp member with here | later
        · exact absurd here.symm same
        · exact later
      rw [update_of_ne same]
      exact ((ih nodup later).append_left _).trans perm_middle

/-- Replacing one member of a family by a list with one element less takes it from the whole. -/
theorem flatMap_perm_update {shorter : List ι} (nodup : keys.Nodup) (member : key ∈ keys)
    (shrunk : (lists key).Perm (id :: shorter)) :
    (keys.flatMap lists).Perm (id :: keys.flatMap (update lists key shorter)) := by
  -- The longer family is the shorter one with the element put back.
  have grown : (lists key).Perm (id :: update lists key shorter key) := by
    rwa [update_self]
  have whole := flatMap_update_perm nodup member grown
  rwa [update_idem, update_eq_self] at whole

variable (cell next) in
/-- Heads that start chains which share no cell. -/
structure Family (heads : κ → Option ι) (keys : List κ) (lists : κ → List ι) : Prop where
  chain : ∀ key ∈ keys, Chain cell next (heads key) (lists key)
  distinct : (keys.flatMap lists).Nodup

variable {heads : κ → Option ι}

variable (family : Family cell next heads keys lists)

include family

private theorem Family.key_unique {key' : κ} (here : key ∈ keys) (there : key' ∈ keys)
    (inHere : id ∈ lists key) (inThere : id ∈ lists key') : key = key' := by
  by_contra apart
  obtain ⟨-, pairwise⟩ := nodup_flatMap.mp family.distinct
  have symm : Std.Symm (Function.onFun List.Disjoint lists) :=
    ⟨fun _ _ disjoint _ inFirst inSecond => disjoint inSecond inFirst⟩
  exact pairwise.forall here there apart inHere inThere

/-- A new cell in front of one chain keeps the family. -/
theorem Family.push (nodup : keys.Nodup) (member : key ∈ keys) (fresh : id ∉ keys.flatMap lists)
    (found : cell' id = some held) (link : next held = heads key)
    (same : ∀ other ∈ keys.flatMap lists, (cell' other).map next = (cell other).map next) :
    Family cell' next (update heads key (some id)) keys
      (update lists key (id :: lists key)) where
  chain := by
    intro other otherKey
    have kept : Chain cell' next (heads other) (lists other) :=
      (family.chain other otherKey).congr fun id' inside =>
        same id' (mem_flatMap.mpr ⟨other, otherKey, inside⟩)
    by_cases here : other = key
    · subst here
      rw [update_self, update_self]
      refine chain_cons.mpr ⟨rfl, held, found, ?_⟩
      rwa [link]
    · rwa [update_of_ne here, update_of_ne here]
  distinct := by
    rw [(flatMap_update_perm nodup member (List.Perm.refl _)).nodup_iff]
    exact nodup_cons.mpr ⟨fresh, family.distinct⟩

/-- Unlinking a cell from its chain keeps the family. -/
theorem Family.remove [DecidableEq ι] {before after : List ι}
    (nodup : keys.Nodup) (member : key ∈ keys) (split : lists key = before ++ id :: after)
    (found : cell id = some held)
    (same : ∀ other ∈ keys.flatMap lists, (cell' other).map next =
      if before.getLast? = some other then some (next held) else (cell other).map next) :
    Family cell' next
      (update heads key (if before = [] then next held else heads key)) keys
      (update lists key (before ++ after)) where
  chain := by
    intro other otherKey
    by_cases here : other = key
    · subst here
      rw [update_self, update_self]
      have chain := family.chain other otherKey
      have distinct := (nodup_flatMap.mp family.distinct).1 other otherKey
      rw [split] at chain distinct
      refine chain.unlink found distinct fun other' inside => ?_
      refine same other' (mem_flatMap.mpr ⟨other, otherKey, ?_⟩)
      rw [split]
      simp only [mem_append, mem_cons] at inside ⊢
      rcases inside with inside | inside
      · exact .inl inside
      · exact .inr (.inr inside)
    · rw [update_of_ne here, update_of_ne here]
      refine (family.chain other otherKey).congr fun other' inside => ?_
      -- The redirected cell belongs to another chain.
      have apart : ¬ before.getLast? = some other' := by
        intro isLast
        have inKey : other' ∈ lists key := by
          rw [split]
          exact mem_append_left _ (mem_of_getLast? isLast)
        exact here (family.key_unique otherKey member inside inKey)
      rw [same other' (mem_flatMap.mpr ⟨other, otherKey, inside⟩), if_neg apart]
  distinct := by
    have shrunk : (lists key).Perm (id :: (before ++ after)) := by
      rw [split]
      exact perm_middle
    have whole := (flatMap_perm_update nodup member shrunk).nodup_iff.mp family.distinct
    exact (nodup_cons.mp whole).2

end Family

end LinkedList
