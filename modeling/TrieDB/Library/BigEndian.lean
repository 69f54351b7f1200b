import Mathlib.Algebra.Group.Nat.Defs
import Mathlib.Tactic.Common

/-!
Fixed-width unsigned integers as big-endian bytes: `encode w v` is the low `w`
bytes of `v`, most significant first, and `decode` reads any string of bytes
back as the number it denotes.
-/
namespace BigEndian

def encode : Nat → Nat → List UInt8
  | 0, _ => []
  | w + 1, v => encode w (v / 256) ++ [(v % 256).toUInt8]

def decode (bs : List UInt8) : Nat := bs.foldl (fun acc b => acc * 256 + b.toNat) 0

@[simp] theorem length_encode (w v : Nat) : (encode w v).length = w := by
  induction w generalizing v with
  | zero => rfl
  | succ w ih => simp [encode, ih]

@[simp] theorem decode_nil : decode [] = 0 := rfl

theorem decode_append_singleton (bs : List UInt8) (b : UInt8) :
    decode (bs ++ [b]) = decode bs * 256 + b.toNat := by
  simp [decode, List.foldl_append]

theorem decode_encode (w v : Nat) : decode (encode w v) = v % 256 ^ w := by
  induction w generalizing v with
  | zero => simp [encode, Nat.mod_one]
  | succ w ih =>
    have low : ((v % 256).toUInt8).toNat = v % 256 := by
      simp only [Nat.toUInt8, UInt8.toNat_ofNat']
      omega
    rw [encode, decode_append_singleton, ih, low, Nat.pow_succ', Nat.mod_mul, Nat.mul_comm,
      Nat.add_comm]

end BigEndian
