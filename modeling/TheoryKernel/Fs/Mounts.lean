import Mathlib.Data.List.Induction
import TheoryKernel.Fs.Path

/-! Which mount a path is on. -/

namespace TheoryKernel.Fs

open List

/-- The number of file systems that can be mounted. -/
def maxMounts : Nat := 16

/-- Mounting a file system, if there is room in the table; a mount keeps 255 bytes of its path. -/
def register (mounts : List Mount) (path : Bytes) (fs : TmpFs) : Option (List Mount) :=
  if maxMounts ≤ mounts.length then none else some (mounts ++ [⟨path.take 255, fs⟩])

/-- The table after file systems were mounted one after another, as far as there is room. -/
def registered (points : List (Bytes × TmpFs)) : List Mount :=
  points.foldl (fun mounts point => (register mounts point.1 point.2).getD mounts) []

/-- A path is that of a mount, or goes on with a slash right behind it. -/
abbrev OnMount (mount path : Bytes) : Prop := path = mount ∨ mount ++ [slash] <+: path

/-- The number and the path of the last one of those mounts that have the longest path. -/
def Longest (mounts : List Bytes) (path : Bytes) (id : Nat) (mount : Bytes) : Prop :=
  (mount, id) ∈ mounts.zipIdx ∧ OnMount mount path ∧
    ∀ other otherId, (other, otherId) ∈ mounts.zipIdx → OnMount other path →
      other.length < mount.length ∨ other.length = mount.length ∧ otherId ≤ id

variable {path : Bytes} {mounts : List Mount} {last : Mount}

theorem onMount_iff {mount : Bytes} : OnMount mount path ↔ mount.isPrefixOf path = true ∧
    (path[mount.length]? = some slash ∨ path[mount.length]? = none) := by
  rw [List.isPrefixOf_iff_prefix]
  constructor
  · rintro (rfl | ⟨rest, rfl⟩) <;> simp
  · rintro ⟨⟨rest, rfl⟩, next⟩
    -- The path goes on with nothing, or with the byte that was looked at.
    cases rest <;> simp_all [OnMount]

theorem findMountForPath_append (proper : last.path ≠ []) :
    findMountForPath (mounts ++ [last]) path =
      if OnMount last.path path ∧ (findMountForPath mounts path).2 ≤ last.path.length then
        (BitVec.ofNat 32 mounts.length, last.path.length)
      else findMountForPath mounts path := by
  simp only [onMount_iff, findMountForPath, zipIdx_append, foldl_append]
  simp [betterMount, proper]
  grind

theorem registered_eq (points : List (Bytes × TmpFs)) : registered points =
    (points.take maxMounts).map fun point => ⟨point.1.take 255, point.2⟩ := by
  induction points using List.reverseRecOn with
  | nil => rfl
  | append_singleton points point ih =>
    rw [registered, foldl_append, foldl_cons, foldl_nil, ← registered, ih, register,
      length_map, length_take]
    split
    · rw [Option.getD_none, take_append_of_le_length (by omega)]
    · rename_i room
      have all : (points ++ [point]).take maxMounts = points ++ [point] :=
        take_of_length_le (by simp; omega)
      rw [Option.getD_some, all, take_of_length_le (by omega), map_append]
      rfl

/--
The lookup finds the mount with the longest path that leads to a given path.

The root mount is found if there is no other one, since every absolute path is on it.
-/
theorem mount_lookup_longest (root : TmpFs) (points : List (Bytes × TmpFs)) (path : Bytes)
    (valid : ∀ point ∈ points, point.1 ≠ [] ∧ point.1.length ≤ 255)
    (absolute : path.head? = some slash) :
    ∃ id mount, Longest (([] :: points.map Prod.fst).take maxMounts) path id mount ∧
      findMountForPath (registered (([], root) :: points)) path =
        (BitVec.ofNat 32 id, mount.length) := by
  have kept : registered (([], root) :: points) =
      ⟨[], root⟩ :: (points.take 15).map fun point => ⟨point.1, point.2⟩ := by
    rw [registered_eq, maxMounts, take_succ_cons, map_cons]
    congr 1
    refine map_congr_left fun point member => ?_
    rw [take_of_length_le (valid point (mem_of_mem_take member)).2]
  have proper : ∀ mount ∈ (points.take 15).map fun point => (⟨point.1, point.2⟩ : Mount),
      mount.path ≠ [] := by
    simp only [forall_mem_map]
    exact fun point member => (valid point (mem_of_mem_take member)).1
  have paths : ([] :: points.map Prod.fst).take maxMounts =
      (registered (([], root) :: points)).map Mount.path := by
    simp [kept, maxMounts, map_take, Function.comp_def]
  rw [paths, kept]
  generalize (points.take 15).map (fun point => (⟨point.1, point.2⟩ : Mount)) = rest at proper
  -- The mounts are looked at in the order of their registration, the root mount first.
  induction rest using List.reverseRecOn with
  | nil =>
    refine ⟨0, [], ⟨by simp, ?_, by simp⟩, by simp [findMountForPath, betterMount, absolute]⟩
    cases path with
    | nil => cases absolute
    | cons byte path => simpa [OnMount] using absolute.symm
  | append_singleton rest last ih =>
    obtain ⟨id, mount, ⟨here, on, best⟩, found⟩ := ih fun mount member =>
      proper mount (mem_append_left _ member)
    rw [← cons_append]
    generalize ⟨[], root⟩ :: rest = mounts at here best found
    -- A mount of the longer table is one from before, with a smaller number, or the last one.
    have cases : ∀ other otherId,
        (other, otherId) ∈ ((mounts ++ [last]).map Mount.path).zipIdx ↔
          (other, otherId) ∈ (mounts.map Mount.path).zipIdx ∨
            other = last.path ∧ otherId = mounts.length := by
      simp [zipIdx_append]
    have small : ∀ other otherId, (other, otherId) ∈ (mounts.map Mount.path).zipIdx →
        otherId < mounts.length := by
      intro other otherId member
      simpa using (mem_zipIdx member).2.1
    rw [findMountForPath_append (proper last (by simp)), found]
    split
    · refine ⟨_, _, ⟨(cases _ _).mpr (.inr ⟨rfl, rfl⟩), ?_⟩, rfl⟩
      grind
    · refine ⟨id, mount, ⟨(cases _ _).mpr (.inl here), on, ?_⟩, rfl⟩
      grind

/-- A mount that lies on another one. -/
def nested : List (Bytes × TmpFs) :=
  [([0x2F, 0x61], .new 1), ([0x2F, 0x61, 0x2F, 0x62], .new 2)]

theorem mount_lookup_nested : ∃ id mount,
    Longest (([] :: nested.map Prod.fst).take maxMounts) [0x2F, 0x61, 0x2F, 0x62] id mount ∧
      findMountForPath (registered (([], .new 0) :: nested)) [0x2F, 0x61, 0x2F, 0x62] =
        (BitVec.ofNat 32 id, mount.length) :=
  mount_lookup_longest _ nested _ (by simp [nested]) rfl

end TheoryKernel.Fs
