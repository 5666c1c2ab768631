import Mathlib.Data.List.Induction
import Mathlib.Tactic.Ring

namespace SimpleP2P.Library.BigEndian

def bytesOf : Nat → Nat → List UInt8
  | 0, _ => []
  | k + 1, n => bytesOf k (n / 256) ++ [UInt8.ofNat n]

def valueOf (bytes : List UInt8) : Nat :=
  bytes.foldl (fun n b => 256 * n + b.toNat) 0

@[simp] theorem bytesOf_length (k n : Nat) : (bytesOf k n).length = k := by
  induction k generalizing n with
  | zero => rfl
  | succ k ih => simp [bytesOf, ih]

@[simp] theorem valueOf_nil : valueOf [] = 0 := rfl

@[simp] theorem valueOf_concat (bytes : List UInt8) (b : UInt8) :
    valueOf (bytes ++ [b]) = 256 * valueOf bytes + b.toNat := by
  simp [valueOf]

theorem valueOf_lt (bytes : List UInt8) : valueOf bytes < 256 ^ bytes.length := by
  induction bytes using List.reverseRecOn with
  | nil => simp
  | append_singleton bytes b ih =>
      have digit := b.toNat_lt
      rw [valueOf_concat, List.length_append, List.length_singleton, pow_succ]
      omega

theorem valueOf_bytesOf (k n : Nat) : valueOf (bytesOf k n) = n % 256 ^ k := by
  induction k generalizing n with
  | zero => simp [bytesOf, Nat.mod_one]
  | succ k ih =>
      have digit : n % 2 ^ 8 = n % 256 := rfl
      rw [bytesOf, valueOf_concat, ih, UInt8.toNat_ofNat', digit, pow_succ', Nat.mod_mul]
      ring

theorem bytesOf_valueOf (bytes : List UInt8) : bytesOf bytes.length (valueOf bytes) = bytes := by
  induction bytes using List.reverseRecOn with
  | nil => rfl
  | append_singleton bytes b ih =>
      have digit := b.toNat_lt
      have high : (256 * valueOf bytes + b.toNat) / 256 = valueOf bytes := by omega
      have low : UInt8.ofNat (256 * valueOf bytes + b.toNat) = b := by
        apply UInt8.toNat_inj.mp
        rw [UInt8.toNat_ofNat']
        omega
      rw [valueOf_concat, List.length_append, List.length_singleton, bytesOf, high, low, ih]

end SimpleP2P.Library.BigEndian
