import Mathlib

/-! Values shared by the kernel components: process ids, sets of CPUs, error codes and the
arithmetic of `int` and `unsigned int` that the counters rely on. -/
namespace UnixSystems

/-- The `pid_t` of a process that can make a system call: a positive `int`. -/
structure Pid where
  val : ℕ
  pos : 0 < val
  lt : val < 2 ^ 31
deriving DecidableEq

namespace Pid

def nth (n : UInt8) : Pid :=
  ⟨n.toNat + 1, Nat.succ_pos _, by have := n.toNat_lt; omega⟩

theorem val_injective : Function.Injective Pid.val := by
  rintro ⟨m, _, _⟩ ⟨n, _, _⟩ same
  simpa using same

theorem length_lt_of_nodup (l : List Pid) (distinct : l.Nodup) : l.length < 2 ^ 31 := by
  have values : (l.map Pid.val).Nodup := distinct.map val_injective
  have within : (l.map Pid.val).toFinset ⊆ Finset.Ico 1 (2 ^ 31) := by
    intro n member
    obtain ⟨p, _, rfl⟩ := List.mem_map.mp (List.mem_toFinset.mp member)
    exact Finset.mem_Ico.mpr ⟨p.pos, p.lt⟩
  have bound := Finset.card_le_card within
  rw [List.toFinset_card_of_nodup values, List.length_map, Nat.card_Ico] at bound
  omega

end Pid

/-- A `struct cpumask`, as `for_each_cpu` goes through it. `cpumask_check` takes an `unsigned int`,
so that a test of CPU -1 reads a bit far behind the mask; `beyond n` is what it finds for CPU
`-(n + 1)`. -/
structure Cpumask where
  cpus : List ℕ
  increasing : cpus.Pairwise (· < ·)
  beyond : ℕ → Bool

namespace Cpumask

def test (mask : Cpumask) : ℤ → Bool
  | .ofNat cpu => cpu ∈ mask.cpus
  | .negSucc n => mask.beyond n

def weight (mask : Cpumask) : ℕ := mask.cpus.length

/-- `cpumask_any`, which is `cpumask_first`. -/
def any (mask : Cpumask) (nrCpuIds : ℕ) : ℕ := mask.cpus.headD nrCpuIds

def interval (start count : ℕ) : Cpumask where
  cpus := List.range' start count
  increasing := List.pairwise_lt_range'
  beyond := fun _ => false

@[simp] theorem test_natCast (mask : Cpumask) (cpu : ℕ) : mask.test cpu = decide (cpu ∈ mask.cpus) :=
  rfl

end Cpumask

namespace Errno

def eperm : Int := 1
def eagain : Int := 11
def enomem : Int := 12
def eacces : Int := 13
def efault : Int := 14
def ebusy : Int := 16
def einval : Int := 22
def enospc : Int := 28
def erestartsys : Int := 512

end Errno

theorem Int32.toInt_add_one {x : Int32} (room : x.toInt < 2 ^ 31 - 1) :
    (x + 1).toInt = x.toInt + 1 := by
  have low := x.le_toInt
  rw [Int32.toInt_add, Int32.toInt_one]
  exact Int.bmod_eq_of_le (by omega) (by omega)

theorem Int32.toInt_sub_one {x : Int32} (room : -2 ^ 31 < x.toInt) :
    (x - 1).toInt = x.toInt - 1 := by
  have high := x.toInt_lt
  rw [Int32.toInt_sub, Int32.toInt_one]
  exact Int.bmod_eq_of_le (by omega) (by omega)

theorem Int32.toNat_toUInt32_of_nonneg {x : Int32} (nonneg : 0 ≤ x.toInt) :
    (x.toUInt32.toNat : Int) = x.toInt := by
  have sign : 0 ≤ x := Int32.le_iff_toInt_le.mpr (by simpa using nonneg)
  rw [Int32.toNat_toUInt32_of_le sign, Int32.toNatClampNeg]
  exact Int.toNat_of_nonneg nonneg

theorem UInt32.toNat_sub_one_add_one {x : UInt32} (nonzero : x ≠ 0) : (x - 1).toNat + 1 = x.toNat := by
  have pos : x.toNat ≠ 0 := fun zero => nonzero (UInt32.toNat_inj.mp zero)
  have least : 1 ≤ x := UInt32.le_iff_toNat_le.mpr (Nat.one_le_iff_ne_zero.mpr pos)
  rw [UInt32.toNat_sub_of_le x 1 least, UInt32.toNat_one]
  omega

theorem UInt32.toNat_mul_ofNat (x : UInt32) (n : ℕ) :
    (x * UInt32.ofNat n).toNat = x.toNat * n % 2 ^ 32 := by
  rw [UInt32.toNat_mul, UInt32.toNat_ofNat', Nat.mul_mod_mod]

theorem UInt32.toNat_mul_ofNat_eq_iff (x : UInt32) (n : ℕ) :
    (x * UInt32.ofNat n).toNat = x.toNat * n ↔ x.toNat * n < 2 ^ 32 := by
  rw [UInt32.toNat_mul_ofNat]
  exact Nat.mod_eq_iff_lt (by decide)

end UnixSystems
