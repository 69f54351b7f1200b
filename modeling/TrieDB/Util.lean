import Mathlib.Data.List.TakeWhile
import Mathlib.Data.Nat.Digits.Defs
import Mathlib.Tactic.Ring

/-!
`util.c`, and the C strings the rest of the program passes around. A `CStr`
is the bytes of a NUL-terminated string before its terminator, so it holds no
NUL. `int` is `Int32`: a signed overflow is undefined in C, and the model takes
the two's-complement wrap the compiled code performs.
-/
namespace TrieDB

/-- A `char *` string: the bytes before its terminating NUL. -/
structure CStr where
  bytes : List UInt8
  nul_free : 0 ∉ bytes
  deriving DecidableEq

namespace CStr

/-- `strlen`. -/
def length (s : CStr) : Nat := s.bytes.length

def ofBytes (bs : List UInt8) : CStr where
  bytes := bs.takeWhile (· ≠ 0)
  nul_free := by
    intro mem
    simpa using List.mem_takeWhile_imp mem

def empty : CStr := ⟨[], by simp⟩

theorem ofBytes_of_nul_free {bs : List UInt8} (h : 0 ∉ bs) : (ofBytes bs).bytes = bs := by
  simp only [ofBytes]
  rw [List.takeWhile_eq_self_iff]
  intro b mem
  have ne : b ≠ 0 := fun same => h (same ▸ mem)
  simpa using ne

@[simp] theorem ofBytes_bytes (s : CStr) : ofBytes s.bytes = s := by
  cases s with
  | mk bytes nul_free =>
    have same := ofBytes_of_nul_free nul_free
    simp only [ofBytes, mk.injEq] at same ⊢
    exact same

end CStr

/-- `isdigit` on a `char`: a byte from `'0'` to `'9'`. -/
def isDigit (c : UInt8) : Bool := 48 ≤ c && c ≤ 57

/-- `is_integer`: every byte is a digit, which the empty string satisfies. -/
def isInteger (s : CStr) : Bool := s.bytes.all isDigit

/-- `parse_int`: the leading digits, accumulated as `n = n * 10 + (c - '0')`. -/
def parseInt (s : CStr) : Int32 :=
  (s.bytes.takeWhile isDigit).foldl (fun n c => n * 10 + Int32.ofNat (c.toNat - 48)) 0

/-- `number_len`: one more than the number of decimal digits of a nonzero
`size_t`, and 1 for zero. -/
def numberLen (number : UInt64) : Nat :=
  go number.toNat 64 1
where
  /-- The loop `while (number) { len++; number /= 10; }`; 64 rounds exceed the
  20 digits of any `size_t`. -/
  go (number fuel len : Nat) : Nat :=
    match fuel with
    | 0 => len
    | fuel + 1 => if number = 0 then len else go (number / 10) fuel (len + 1)

/-- The decimal digits of a natural number, as `printf` writes them. -/
def decimalDigits (m : Nat) : List UInt8 := (Nat.toDigits 10 m).map fun c => c.toNat.toUInt8

theorem digit_of_mem_decimalDigits {m : Nat} {c : UInt8} (mem : c ∈ decimalDigits m) :
    48 ≤ c.toNat ∧ c.toNat ≤ 57 := by
  simp only [decimalDigits, List.mem_map] at mem
  obtain ⟨ch, mem, rfl⟩ := mem
  have digit := Nat.isDigit_of_mem_toDigits (by decide) (by decide) mem
  simp only [Char.isDigit, Bool.and_eq_true, decide_eq_true_eq] at digit
  have low : 48 ≤ ch.toNat := digit.1
  have high : ch.toNat ≤ 57 := digit.2
  have byte : ch.toNat.toUInt8.toNat = ch.toNat := by
    simp only [Nat.toUInt8, UInt8.toNat_ofNat']
    omega
  omega

theorem decimalDigits_nul_free (m : Nat) : 0 ∉ decimalDigits m := by
  intro mem
  have := digit_of_mem_decimalDigits mem
  simp at this

theorem isDigit_of_mem_decimalDigits {m : Nat} {c : UInt8} (mem : c ∈ decimalDigits m) :
    isDigit c = true := by
  have digit := digit_of_mem_decimalDigits mem
  simp only [isDigit, Bool.and_eq_true, decide_eq_true_eq, UInt8.le_iff_toNat_le]
  exact ⟨digit.1, digit.2⟩

theorem decimalDigits_of_lt_ten {m : Nat} (small : m < 10) :
    decimalDigits m = [(48 + m).toUInt8] := by
  simp [decimalDigits, Nat.toDigits_of_lt_base small, Nat.toNat_digitChar_of_lt_ten small]

theorem decimalDigits_of_ten_le {m : Nat} (large : 10 ≤ m) :
    decimalDigits m = decimalDigits (m / 10) ++ decimalDigits (m % 10) := by
  have split := Nat.toDigits_append_toDigits (b := 10) (n := m / 10) (d := m % 10)
    (by decide) (by omega) (Nat.mod_lt m (by decide))
  rw [Nat.div_add_mod] at split
  simp only [decimalDigits, ← split, List.map_append]

theorem length_decimalDigits_le {m e : Nat} (pos : 0 < e) (small : m < 10 ^ e) :
    (decimalDigits m).length ≤ e := by
  simpa [decimalDigits] using Nat.toDigits_length 10 m e pos small

theorem foldl_decimalDigits (m acc : Nat) :
    (decimalDigits m).foldl (fun n c => n * 10 + (c.toNat - 48)) acc =
      acc * 10 ^ (decimalDigits m).length + m := by
  induction m using Nat.strong_induction_on generalizing acc with
  | _ m ih =>
    by_cases small : m < 10
    · simp only [decimalDigits_of_lt_ten small, List.foldl_cons, List.foldl_nil,
        List.length_singleton, Nat.pow_one, Nat.toUInt8, UInt8.toNat_ofNat']
      omega
    · have last := decimalDigits_of_lt_ten (Nat.mod_lt m (show 10 > 0 by decide))
      rw [decimalDigits_of_ten_le (by omega), List.foldl_append, ih (m / 10) (by omega),
        ih (m % 10) (by omega), last, List.length_append, List.length_singleton, Nat.pow_succ]
      have split := Nat.div_add_mod m 10
      calc (acc * (10 ^ (decimalDigits (m / 10)).length) + m / 10) * 10 ^ 1 + m % 10
          = acc * (10 ^ (decimalDigits (m / 10)).length * 10) + (10 * (m / 10) + m % 10) := by
            ring
        _ = acc * (10 ^ (decimalDigits (m / 10)).length * 10) + m := by rw [split]

/-- `sprintf(buf, "%d", n)`. -/
def formatInt (n : Int32) : CStr :=
  if n.toInt < 0 then
    ⟨45 :: decimalDigits n.toInt.natAbs, by simpa using decimalDigits_nul_free _⟩
  else ⟨decimalDigits n.toInt.toNat, decimalDigits_nul_free _⟩

/-- `sprintf` of an integer by `%d` or `%ld`: a minus sign, then the decimal
digits of its magnitude. -/
def printDecimal (n : Int) : List UInt8 :=
  if n < 0 then 45 :: decimalDigits n.natAbs else decimalDigits n.toNat

theorem printDecimal_ofNat (m : Nat) : printDecimal m = decimalDigits m := by
  simp [printDecimal]

/-- `tmalloc(size)`: the bytes the block it returns can hold; the allocation
itself is taken to succeed. `assert(size > 0)` stops the server on 0, and a
`size + sizeof(size_t)` that wraps below 8 leaves no room for the size stored
in front of the block, a write out of bounds. -/
def tmalloc (size : UInt64) : Option Nat :=
  if size = 0 then none else if size + 8 < 8 then none else some size.toNat

theorem toNat_toUInt64_of_lt {n : Nat} (small : n < 2 ^ 64) : n.toUInt64.toNat = n := by
  simp only [Nat.toUInt64, UInt64.toNat_ofNat']
  omega

theorem tmalloc_of_lt {size : Nat} (pos : 0 < size) (small : size + 8 < 2 ^ 64) :
    tmalloc size.toUInt64 = some size := by
  have conv := toNat_toUInt64_of_lt (show size < 2 ^ 64 by omega)
  have ne : size.toUInt64 ≠ 0 := by
    intro zero
    rw [zero] at conv
    simp at conv
    omega
  have room : ¬ size.toUInt64 + 8 < 8 := by
    rw [UInt64.lt_iff_toNat_lt, UInt64.toNat_add, conv]
    simp only [UInt64.reduceToNat]
    omega
  simp [tmalloc, ne, room, conv]

theorem tmalloc_add_one {x : UInt64} (small : x.toNat + 9 < 2 ^ 64) :
    tmalloc (x + 1) = some (x.toNat + 1) := by
  have conv : x + 1 = (x.toNat + 1).toUInt64 := by
    apply UInt64.toNat_inj.mp
    rw [toNat_toUInt64_of_lt (by omega), UInt64.toNat_add]
    simp only [UInt64.reduceToNat]
    omega
  rw [conv]
  exact tmalloc_of_lt (by omega) (by omega)

/-- `update_integer_string`: the string of `parse_int(str) + num`. The buffer
`tmp` has `number_len(n) + 1` bytes, with `n` converted to `size_t`. -/
def updateIntegerString (str : CStr) (num : Int32) : CStr :=
  formatInt (parseInt str + num)

end TrieDB
