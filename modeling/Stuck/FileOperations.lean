import Stuck.IoPool
import Stuck.UringLedger
import Mathlib.Order.Basic

/-! The file operations of src/fs/mod.rs on both of their ways to the kernel: an entry of the ring
(src/io/poller/uring.rs) and a system call of a pool thread (src/io/poller/pool.rs). -/
namespace FileOperations

open Uring (Operation Session Request Sqe Entry Completion Answer asU32 asU64 atFdcwd)
open IoPool (Syscall Os process asI32 eintr repeats)

/-- `OpenOptions`. -/
structure OpenOptions where
  read : Bool
  write : Bool
  append : Bool
  truncate : Bool
  create : Bool
  createNew : Bool
  mode : ℕ
  deriving DecidableEq, Repr

def oRdonly : ℕ := 0
def oWronly : ℕ := 1
def oRdwr : ℕ := 2
def oCreat : ℕ := 64
def oExcl : ℕ := 128
def oTrunc : ℕ := 512
def oAppend : ℕ := 1024

/-- The `match` of `OpenOptions::flags`. -/
def OpenOptions.access (o : OpenOptions) : ℕ :=
  match o.read, o.write, o.append with
  | true, true, false => oRdwr
  | true, false, false => oRdonly
  | false, true, false => oWronly
  | true, _, true => oRdwr ||| oAppend
  | false, _, true => oWronly ||| oAppend
  | false, false, false => 0

/-- `OpenOptions::flags`. -/
def OpenOptions.flags (o : OpenOptions) : ℕ :=
  o.access ||| (if o.truncate then oTrunc else 0) ||| (if o.create then oCreat else 0) |||
    (if o.createNew then oCreat ||| oExcl else 0)

/-- `i32::MAX as usize`. -/
def i32Max : ℕ := 2147483647

def u32Max : ℕ := 4294967295
def u64Max : ℕ := 18446744073709551615
def isizeMin : ℤ := -9223372036854775808
def isizeMax : ℤ := 9223372036854775807

/-- A call of `File` that both ways can serve, with the length of the caller's buffer. -/
inductive FileCall where
  | open (path : ℕ) (options : OpenOptions)
  | read (fd : ℤ) (buf len : ℕ)
  | write (fd : ℤ) (buf len : ℕ)
  | sync (fd : ℤ) (onlyData : Bool)
  deriving DecidableEq, Repr

/-- The operation that the call asks `poller::request` for. -/
def FileCall.operation : FileCall → Operation
  | .open path options => .open path options.flags options.mode
  | .read fd buf len => .read fd buf (min len i32Max) (-1)
  | .write fd buf len => .write fd buf (min len i32Max) (-1)
  | .sync fd onlyData => .fsync fd onlyData

/-- What the kernel is asked to do; `position` is none where it is the file's own. -/
inductive Call where
  | openAt (dirfd : ℤ) (path : ℕ) (flags : ℤ) (mode : ℕ)
  | read (fd : ℤ) (buf len : ℕ) (position : Option ℤ)
  | write (fd : ℤ) (buf len : ℕ) (position : Option ℤ)
  | sync (fd : ℤ) (onlyData : Bool)
  | truncate (fd : ℤ) (size : ℕ)
  deriving DecidableEq, Repr

/-- The offset of an entry is an `off_t`, but for the largest `u64`. -/
def entryPosition (offset : ℕ) : Option ℤ :=
  if offset = u64Max then none else some (BitVec.ofNat 64 offset).toInt

/-- What the kernel does for an entry. -/
def entryCall : Sqe → Option Call
  | .openAt dirfd path flags mode => some (.openAt dirfd path flags mode)
  | .read fd buf len offset => some (.read fd buf len (entryPosition offset))
  | .write fd buf len offset => some (.write fd buf len (entryPosition offset))
  | .fsync fd flags => some (.sync fd (flags &&& Uring.fsyncDatasync ≠ 0))
  | .statx _ _ _ _ _ | .asyncCancel _ => none

/-- `read` or `pread`, `write` or `pwrite`. -/
def position (offset : ℤ) : Option ℤ := if offset = -1 then none else some offset

/-- The system call that `process` makes. -/
def poolCall : Operation → Option Call
  | .open path flags mode => some (.openAt atFdcwd path flags mode)
  | .read fd buf len offset => some (.read fd buf len (position offset))
  | .write fd buf len offset => some (.write fd buf len (position offset))
  | .fsync fd onlyData => some (.sync fd onlyData)
  | .truncate fd size => some (.truncate fd size)
  | .stat _ _ _ | .cancel _ => none

/-- What the kernel gives back: an error number, or as much as the call can have done. -/
def Call.Returns : Call → Syscall → Prop
  | .openAt _ _ _ _, k => k.rc < 0 ∧ 0 < k.errno ∨ 0 ≤ k.rc ∧ k.rc ≤ i32Max
  | .read _ _ len _, k | .write _ _ len _, k => k.rc < 0 ∧ 0 < k.errno ∨ 0 ≤ k.rc ∧ k.rc ≤ len
  | .sync _ _, k | .truncate _ _, k => k.rc < 0 ∧ 0 < k.errno ∨ k.rc = 0

/-- The `res` of a completion. -/
def completionResult (k : Syscall) : ℤ := if k.rc < 0 then -k.errno else k.rc

/-- `len` is a `usize` and `offset` an `isize`. -/
def Typed : Operation → Prop
  | .read _ _ len offset | .write _ _ len offset =>
    len ≤ u64Max ∧ isizeMin ≤ offset ∧ offset ≤ isizeMax
  | _ => True

def FitsEntry : Operation → Prop
  | .read _ _ len _ | .write _ _ len _ => len ≤ u32Max
  | _ => True

theorem asU32_eq_iff {len : ℕ} : asU32 len = len ↔ len ≤ u32Max := by
  unfold asU32 u32Max
  rw [BitVec.toNat_ofNat]
  omega

/-- Going through the `u64` of an entry keeps every offset, and its largest is `-1`. -/
theorem entryPosition_asU64 {offset : ℤ} (hl : isizeMin ≤ offset) (hu : offset ≤ isizeMax) :
    entryPosition (asU64 offset) = position offset := by
  unfold isizeMin at hl
  unfold isizeMax at hu
  have hval : asU64 offset = if 0 ≤ offset then offset else offset + 18446744073709551616 := by
    rw [asU64, BitVec.toNat_ofInt]
    split <;> omega
  have hback : (BitVec.ofNat 64 (asU64 offset)).toInt = offset := by
    rw [asU64, BitVec.ofNat_toNat, BitVec.setWidth_eq, BitVec.toInt_ofInt]
    exact Int.bmod_eq_of_le (by omega) (by omega)
  unfold entryPosition position u64Max
  rw [hback]
  refine if_congr ⟨fun h => ?_, fun h => ?_⟩ rfl rfl <;> split at hval <;> omega

/-- The ring does what the pool would do, but for a length that does not fit into the entry. -/
theorem entryCall_eq_iff {request : Request} {entry : Entry} (ht : Typed request.operation)
    (he : request.uringEntry = some entry) {call : Call}
    (hc : poolCall request.operation = some call) :
    entryCall entry.sqe = some call ↔ FitsEntry request.operation := by
  obtain ⟨result, operation⟩ := request
  cases operation with
  | read fd buf len offset =>
    cases he
    cases hc
    simp only [entryCall, entryPosition_asU64 ht.2.1 ht.2.2, FitsEntry, ← asU32_eq_iff]
    simp
  | write fd buf len offset =>
    cases he
    cases hc
    simp only [entryCall, entryPosition_asU64 ht.2.1 ht.2.2, FitsEntry, ← asU32_eq_iff]
    simp
  | «open» path flags mode =>
    cases he
    cases hc
    exact iff_of_true rfl trivial
  | fsync fd onlyData =>
    cases he
    cases hc
    refine iff_of_true ?_ trivial
    cases onlyData <;> rfl
  | truncate => cases he
  | stat | cancel => cases hc

theorem asI32_eq {x : ℤ} (hl : 0 ≤ x) (hu : x ≤ i32Max) : asI32 x = x := by
  rw [asI32, BitVec.toInt_ofInt]
  unfold i32Max at hu
  exact Int.bmod_eq_of_le (by omega) (by omega)

/-- The two answers to the same outcome. -/
theorem answer_eq {k : Syscall} (entry : Entry)
    (hk : k.rc < 0 ∧ 0 < k.errno ∨ 0 ≤ k.rc ∧ k.rc ≤ i32Max) :
    Completion.answer ⟨entry, completionResult k⟩ = k.result := by
  unfold Completion.answer Syscall.result completionResult
  rcases hk with ⟨hrc, herr⟩ | ⟨hrc, hmax⟩
  · have hneg : -k.errno < 0 := by omega
    rw [if_pos hrc, if_pos hrc, if_pos hneg, Int.neg_neg]
  · have hn : ¬ k.rc < 0 := by omega
    rw [if_neg hn, if_neg hn, if_neg hn, asI32_eq hrc hmax]

theorem answer_done {k : Syscall} (entry : Entry) (hk : k.rc < 0 ∧ 0 < k.errno ∨ k.rc = 0) :
    Completion.answer ⟨entry, completionResult k⟩ = k.done := by
  rw [answer_eq entry (hk.imp_right fun h0 => ⟨Int.le_of_eq h0.symm, by rw [h0]; decide⟩),
    Syscall.done]
  unfold Syscall.result
  rcases hk with ⟨hrc, _⟩ | h0
  · rw [if_pos hrc]
    rfl
  · rw [h0]
    rfl

/-- A transfer counts at most what it was asked for. -/
theorem result_bounded {k : Syscall} {len : ℕ}
    (hk : k.rc < 0 ∧ 0 < k.errno ∨ 0 ≤ k.rc ∧ k.rc ≤ (min len i32Max : ℕ)) :
    (k.rc < 0 ∧ 0 < k.errno ∨ 0 ≤ k.rc ∧ k.rc ≤ i32Max) ∧
      ∀ n, k.result = .ok n → 0 ≤ n ∧ n ≤ len ∧ n = k.rc := by
  have hl : min len i32Max ≤ len := Nat.min_le_left _ _
  have hm : min len i32Max ≤ i32Max := Nat.min_le_right _ _
  refine ⟨hk.imp_right fun h => ⟨h.1, by omega⟩, fun n hn => ?_⟩
  unfold Syscall.result at hn
  rcases hk with ⟨hrc, _⟩ | ⟨hrc, hmax⟩
  · rw [if_pos hrc] at hn
    cases hn
  · rw [if_neg (by omega), asI32_eq hrc (by omega)] at hn
    cases hn
    exact ⟨hrc, by omega, rfl⟩

theorem operation_typed (c : FileCall) : Typed c.operation ∧ FitsEntry c.operation := by
  cases c with
  | «open» | sync => exact ⟨trivial, trivial⟩
  | read fd buf len | write fd buf len =>
    have hle : min len i32Max ≤ i32Max := Nat.min_le_right _ _
    exact ⟨⟨hle.trans (by decide), by decide, by decide⟩, hle.trans (by decide)⟩

/-- The ring brings back the interruption that makes a pool thread call again. -/
theorem answer_interrupted {operation : Operation} {k : Syscall} (entry : Entry)
    (h : repeats operation k = true) :
    Completion.answer ⟨entry, completionResult k⟩ = .error eintr := by
  have hk : k.rc < 0 ∧ k.errno = eintr := by
    unfold repeats at h
    cases operation with
    | fsync | truncate => simpa using h
    | «open» | read | write | stat | cancel => cases h
  have herr : 0 < k.errno := by
    rw [hk.2]
    decide
  rw [answer_eq entry (Or.inl ⟨hk.1, herr⟩), Syscall.result, if_pos hk.1, hk.2]

/-- Whatever a file is asked to do, the ring and a pool thread ask the kernel for the same thing and
bring back the same answer to the same outcome, which never counts more than the caller's buffer.
Only the interruption of a sync is brought back by the ring alone, while a pool thread calls
again. -/
theorem file_paths_agree (c : FileCall) (waker : Session) :
    ∃ entry call, (⟨waker, c.operation⟩ : Request).uringEntry = some entry ∧
      entryCall entry.sqe = some call ∧ poolCall c.operation = some call ∧
      ∀ k, call.Returns k →
        (repeats c.operation k = true →
          Completion.answer ⟨entry, completionResult k⟩ = .error eintr) ∧
        (repeats c.operation k = false → ∃ answer, process .unix c.operation k = some answer ∧
          Completion.answer ⟨entry, completionResult k⟩ = answer ∧
          ∀ fd buf len, c = .read fd buf len ∨ c = .write fd buf len → ∀ n, answer = .ok n →
            0 ≤ n ∧ n ≤ len ∧ n = k.rc) := by
  have ht := operation_typed c
  have hentry : ∃ entry, (⟨waker, c.operation⟩ : Request).uringEntry = some entry :=
    Uring.uringEntry_isSome (by cases c <;> exact Uring.OpCode.noConfusion)
  have hcall : ∃ call, poolCall c.operation = some call := by
    cases c <;> exact ⟨_, rfl⟩
  obtain ⟨entry, he⟩ := hentry
  obtain ⟨call, hc⟩ := hcall
  refine ⟨entry, call, he, (entryCall_eq_iff ht.1 he hc).mpr ht.2, hc, fun k hk => ?_⟩
  refine ⟨answer_interrupted entry, fun _ => ?_⟩
  cases c with
  | «open» path options =>
    cases hc
    exact ⟨k.result, rfl, answer_eq entry hk, fun fd buf len h => by simp at h⟩
  | sync fd onlyData =>
    cases hc
    exact ⟨k.done, rfl, answer_done entry hk, fun fd buf len h => by simp at h⟩
  | read fd buf len =>
    cases hc
    obtain ⟨hresult, hcount⟩ := result_bounded hk
    refine ⟨k.result, rfl, answer_eq entry hresult, fun fd' buf' len' h n hn => ?_⟩
    rcases h with h | h <;> cases h
    exact hcount n hn
  | write fd buf len =>
    cases hc
    obtain ⟨hresult, hcount⟩ := result_bounded hk
    refine ⟨k.result, rfl, answer_eq entry hresult, fun fd' buf' len' h n hn => ?_⟩
    rcases h with h | h <;> cases h
    exact hcount n hn

end FileOperations
