import TheoryKernel.Syscall.Tables

/-! Copies through user pointers touch user space alone, and strings end at their first NUL. -/

namespace TheoryKernel.Syscall

open Mm (isUserAddress userAddrMin userAddrMax)

/-- The bytes behind user pointers, with the addresses at which the kernel has touched them. -/
structure UserBytes where
  bytes : Nat → BitVec 8
  touched : List Nat

/-- The addresses behind a pointer, which wrap around at the end of the address space. -/
def span (addr len : Nat) : List Nat := (List.range len).map (wrapAdd addr)

namespace UserBytes

/-- The bytes behind a pointer. -/
def load (user : UserBytes) (addr len : Nat) : Bytes × UserBytes :=
  ((span addr len).map user.bytes, { user with touched := user.touched ++ span addr len })

/-- Putting bytes behind a pointer. -/
def store (user : UserBytes) (addr : Nat) (src : Bytes) : UserBytes where
  bytes := ((span addr src.length).zip src).foldl
    (fun bytes entry => Function.update bytes entry.1 entry.2) user.bytes
  touched := user.touched ++ span addr src.length

/-- The string at an address has its first NUL at an index and lies in user space up to there. -/
def EndsAt (user : UserBytes) (addr index : Nat) : Prop :=
  (∀ before < index, user.bytes (addr + before) ≠ 0) ∧ user.bytes (addr + index) = 0 ∧
    ∀ upTo ≤ index, isUserAddress (addr + upTo) = true

end UserBytes

/-- Filling a buffer from user space. -/
def copyFromUser (dst : Bytes) (userSrc : Nat) (user : UserBytes) :
    Except Errno Nat × Bytes × UserBytes :=
  if accessOk userSrc dst.length then (.ok dst.length, user.load userSrc dst.length)
  else (.error .efault, dst, user)

/-- Handing bytes out to user space. -/
def copyToUser (userDst : Nat) (src : Bytes) (user : UserBytes) : Except Errno Nat × UserBytes :=
  if accessOk userDst src.length then (.ok src.length, user.store userDst src)
  else (.error .efault, user)

/-- Taking in an object of a size from user space. -/
def copyFromUserObj (size userSrc : Nat) (user : UserBytes) : Except Errno Bytes × UserBytes :=
  if accessOk userSrc size then
    let (val, user) := user.load userSrc size
    (.ok val, user)
  else (.error .efault, user)

/-- Handing an object out to user space. -/
def copyToUserObj (userDst : Nat) (val : Bytes) (user : UserBytes) :
    Except Errno Unit × UserBytes :=
  if accessOk userDst val.length then (.ok (), user.store userDst val)
  else (.error .efault, user)

/-- The rounds of the loop over a string, from an index on. -/
def strLoop (userSrc : Nat) : Nat → Nat → Bytes → UserBytes → Except Errno Nat × Bytes × UserBytes
  | 0, _, buf, user => (.error .einval, buf, user)
  | rounds + 1, i, buf, user =>
    if accessOk (wrapAdd userSrc i) 1 then
      let byte := user.bytes (wrapAdd userSrc i)
      let user := { user with touched := user.touched ++ [wrapAdd userSrc i] }
      if byte = 0 then (.ok i, buf.set i byte, user)
      else strLoop userSrc rounds (i + 1) (buf.set i byte) user
    else (.error .efault, buf, user)

/-- Taking in a string from user space. -/
def strFromUser (buf : Bytes) (userSrc maxLen : Nat) (user : UserBytes) :
    Except Errno Nat × Bytes × UserBytes :=
  if maxLen = 0 ∨ buf = [] then (.error .einval, buf, user)
  else if accessOk userSrc 1 then strLoop userSrc (min maxLen buf.length) 0 buf user
  else (.error .efault, buf, user)

/-- What is touched anew lies in user space and behind the pointer, without wrapping around. -/
def Confined (addr len : Nat) (user after : UserBytes) : Prop :=
  ∀ touched ∈ after.touched, touched ∈ user.touched ∨
    isUserAddress touched = true ∧ ∃ index < len, touched = addr + index

theorem isUserAddress_iff {addr : Nat} :
    isUserAddress addr = true ↔ userAddrMin ≤ addr ∧ addr ≤ userAddrMax := by
  rw [isUserAddress, Bool.and_eq_true, decide_eq_true_eq, decide_eq_true_eq]

theorem accessOk_one (addr : Nat) : accessOk addr 1 = isUserAddress addr :=
  Bool.eq_iff_iff.mpr ((accessOk_iff Nat.one_ne_zero).trans isUserAddress_iff.symm)

theorem confined_checked {addr len : Nat} {user : UserBytes} {copied refused : α}
    (left : α → UserBytes) (touches : (left copied).touched = user.touched ++ span addr len)
    (keeps : left refused = user) :
    Confined addr len user (left (if accessOk addr len then copied else refused)) := by
  intro address member
  by_cases access : accessOk addr len = true
  case neg =>
    rw [if_neg access, keeps] at member
    exact .inl member
  rw [if_pos access, touches, List.mem_append] at member
  refine member.imp_right fun inside => ?_
  obtain ⟨index, small, rfl⟩ := List.mem_map.mp inside
  rw [List.mem_range] at small
  -- The last address of the area is one of user space, so no sum before it wraps.
  have area := (accessOk_iff (Nat.ne_zero_of_lt small)).mp access
  have fits : addr + index ≤ userAddrMax := by omega
  rw [wrapAdd_eq (Nat.lt_of_le_of_lt fits (by decide))]
  exact ⟨isUserAddress_iff.mpr ⟨by omega, fits⟩, index, small, rfl⟩

/-- What the loop over a string has done when it ends. -/
structure StrEnds (addr limit : Nat) (user : UserBytes)
    (outcome : Except Errno Nat × Bytes × UserBytes) : Prop where
  ends : ∀ n, outcome.1 = .ok n ↔ n < limit ∧ user.EndsAt addr n
  holds : ∀ n, outcome.1 = .ok n → ∀ k ≤ n, outcome.2.1[k]? = some (user.bytes (addr + k))
  confined : Confined addr limit user outcome.2.2

theorem StrEnds.failed {addr limit : Nat} {user after : UserBytes} {errno : Errno}
    {buf : Bytes} (confined : Confined addr limit user after)
    (never : ∀ n < limit, ¬user.EndsAt addr n) :
    StrEnds addr limit user (.error errno, buf, after) where
  ends n := ⟨nofun, fun found => (never n found.1 found.2).elim⟩
  holds _ := nofun
  confined := confined

/-- The bytes before an index have been copied, lie in user space and hold no NUL. -/
def Copied (addr : Nat) (user : UserBytes) (i : Nat) (buf : Bytes) : Prop :=
  ∀ k < i, user.bytes (addr + k) ≠ 0 ∧ isUserAddress (addr + k) = true ∧
    buf[k]? = some (user.bytes (addr + k))

theorem Copied.le {addr i n : Nat} {user : UserBytes} {buf : Bytes}
    (copied : Copied addr user i buf) (ends : user.EndsAt addr n) : i ≤ n :=
  Nat.not_lt.mp fun before => (copied n before).1 ends.2.1

theorem strLoop_ends {addr limit : Nat} {user : UserBytes} (rounds i : Nat) {buf : Bytes}
    {now : UserBytes} (total : i + rounds = limit) (room : limit ≤ buf.length)
    (same : now.bytes = user.bytes) (small : addr + i < 2 ^ 64) (copied : Copied addr user i buf)
    (confined : Confined addr limit user now) :
    StrEnds addr limit user (strLoop addr rounds i buf now) := by
  induction rounds generalizing i buf now with
  | zero => exact .failed confined fun n below ends => absurd (copied.le ends) (by omega)
  | succ rounds ih =>
    rw [strLoop, wrapAdd_eq small, same, accessOk_one]
    by_cases inside : isUserAddress (addr + i) = true
    · rw [if_pos inside]
      have touches : Confined addr limit user
          { bytes := user.bytes, touched := now.touched ++ [addr + i] } := by
        intro touched member
        rcases List.mem_append.mp member with old | new
        · exact confined touched old
        · rw [List.mem_singleton.mp new]
          exact .inr ⟨inside, i, by omega, rfl⟩
      have stored : ∀ k ≤ i,
          (buf.set i (user.bytes (addr + i)))[k]? = some (user.bytes (addr + k)) := by
        intro k upTo
        rcases Nat.lt_or_eq_of_le upTo with before | rfl
        · rw [List.getElem?_set_ne (Nat.ne_of_gt before), (copied k before).2.2]
        · exact List.getElem?_set_self (by omega)
      by_cases nul : user.bytes (addr + i) = 0
      · -- The string ends here and nowhere else.
        rw [if_pos nul]
        refine ⟨fun n => ⟨?_, fun ⟨_, ends⟩ => ?_⟩, ?_, touches⟩
        · rintro ⟨⟩
          refine ⟨by omega, fun k before => (copied k before).1, nul, fun k upTo => ?_⟩
          rcases Nat.lt_or_eq_of_le upTo with before | rfl
          · exact (copied k before).2.1
          · exact inside
        · have last : n ≤ i := Nat.not_lt.mp fun beyond => ends.1 i beyond nul
          rw [Nat.le_antisymm (copied.le ends) last]
        · rintro n ⟨⟩
          exact stored
      · rw [if_neg nul]
        have fits := Nat.lt_of_le_of_lt (isUserAddress_iff.mp inside).2
          (show userAddrMax < 2 ^ 64 - 1 by decide)
        refine ih (i + 1) (by omega) (by simpa using room) rfl (by omega) (fun k below => ?_) touches
        rcases Nat.lt_or_eq_of_le (Nat.le_of_lt_succ below) with before | rfl
        · exact ⟨(copied k before).1, (copied k before).2.1, stored k (Nat.le_of_lt before)⟩
        · exact ⟨nul, inside, stored k (Nat.le_refl k)⟩
    · rw [if_neg inside]
      exact .failed confined fun n _ ends => inside (ends.2.2 i (copied.le ends))

theorem strFromUser_ends (buf : Bytes) (userSrc maxLen : Nat) (user : UserBytes) :
    StrEnds userSrc (min maxLen buf.length) user (strFromUser buf userSrc maxLen user) := by
  rw [strFromUser, accessOk_one]
  split
  · rename_i empty
    refine .failed (fun _ => .inl) fun n below => ?_
    rcases empty with rfl | rfl <;> simp at below
  · split
    · rename_i inside
      have small := Nat.lt_of_le_of_lt (isUserAddress_iff.mp inside).2
        (show userAddrMax < 2 ^ 64 by decide)
      exact strLoop_ends _ 0 (Nat.zero_add _) (Nat.min_le_right _ _) rfl small nofun fun _ => .inl
    · rename_i outside
      exact .failed (fun _ => .inl) fun n _ ends => outside (ends.2.2 0 (Nat.zero_le _))

/-- User pointers are confined to user space, and a string is taken in up to its first NUL. -/
theorem user_pointers_confined (user : UserBytes) (userAddr : Nat) :
    (∀ dst : Bytes, Confined userAddr dst.length user (copyFromUser dst userAddr user).2.2) ∧
    (∀ src : Bytes, Confined userAddr src.length user (copyToUser userAddr src user).2) ∧
    (∀ size, Confined userAddr size user (copyFromUserObj size userAddr user).2) ∧
    (∀ val : Bytes, Confined userAddr val.length user (copyToUserObj userAddr val user).2) ∧
    ∀ (buf : Bytes) (maxLen : Nat), ∃ answer filled after,
      strFromUser buf userAddr maxLen user = (answer, filled, after) ∧
      Confined userAddr (min maxLen buf.length) user after ∧
      ∀ n, (answer = .ok n ↔ n < min maxLen buf.length ∧ user.EndsAt userAddr n) ∧
        (answer = .ok n → ∀ k ≤ n, filled[k]? = some (user.bytes (userAddr + k))) := by
  refine ⟨fun _ => confined_checked (Prod.snd ∘ Prod.snd) rfl rfl,
    fun _ => confined_checked Prod.snd rfl rfl, fun _ => confined_checked Prod.snd rfl rfl,
    fun _ => confined_checked Prod.snd rfl rfl, fun buf maxLen => ?_⟩
  have outcome := strFromUser_ends buf userAddr maxLen user
  exact ⟨_, _, _, rfl, outcome.confined, fun n => ⟨outcome.ends n, outcome.holds n⟩⟩

end TheoryKernel.Syscall
