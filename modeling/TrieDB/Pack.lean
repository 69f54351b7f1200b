import TrieDB.Library.BigEndian
import TrieDB.Util

/-!
`pack.c`: the fixed-width integers of the wire format, big-endian, and the
`bstring`s replies are built in. A `bstring` is the bytes of its allocation, so
`bstring_len`, which reads the size `tmalloc` stored in front of it, is the
length of the list. `unpack` is an interpreter of its format string: digits
build up the length of the next string, letters read the integers of the
table in front of it.
-/
namespace TrieDB

abbrev Bstring := List UInt8

def bstringLen (s : Bstring) : Nat := s.length

def bstringNew (init : CStr) : Bstring := init.bytes

-- `packi16`, `packi32`, `packi64` store `val >> 8k` into successive bytes,
-- which keeps the low byte of each shift.
def packi16 (val : Nat) : List UInt8 := [(val / 2 ^ 8).toUInt8, val.toUInt8]

def packi32 (val : Nat) : List UInt8 :=
  [(val / 2 ^ 24).toUInt8, (val / 2 ^ 16).toUInt8, (val / 2 ^ 8).toUInt8, val.toUInt8]

def packi64 (val : Nat) : List UInt8 :=
  [(val / 2 ^ 56).toUInt8, (val / 2 ^ 48).toUInt8, (val / 2 ^ 40).toUInt8,
    (val / 2 ^ 32).toUInt8, (val / 2 ^ 24).toUInt8, (val / 2 ^ 16).toUInt8,
    (val / 2 ^ 8).toUInt8, val.toUInt8]

/-- `unpacku16` and `unpacku32`: the bytes read as one unsigned number. -/
def unpacku (bytes : List UInt8) : Nat := BigEndian.decode bytes

/-- `unpacki32`: the four bytes as a 32-bit two's-complement number. -/
def unpacki32 (bytes : List UInt8) : Int32 := Int32.ofNat (BigEndian.decode bytes)

/-- `n` bytes of the IO buffer from `off` on; reading past it is undefined. -/
def readBytes (raw : List UInt8) (off n : Nat) : Option (List UInt8) :=
  if off + n ≤ raw.length then some ((raw.drop off).take n) else none

theorem readBytes_append (bytes rest : List UInt8) :
    readBytes (bytes ++ rest) 0 bytes.length = some bytes := by
  simp [readBytes]

theorem nat_toUInt8_eq (n : Nat) : n.toUInt8 = (n % 256).toUInt8 := by
  apply UInt8.toNat_inj.mp
  simp only [Nat.toUInt8, UInt8.toNat_ofNat']
  omega

-- The encoding unfolds to repeated divisions by 256, each byte reduced mod 256;
-- the shifts of the definitions then agree with it by evaluating `2 ^ 8k`.
theorem packi16_eq_encode (val : Nat) : packi16 val = BigEndian.encode 2 val := by
  simp only [BigEndian.encode, List.nil_append, List.cons_append, ← nat_toUInt8_eq]
  rfl

theorem packi32_eq_encode (val : Nat) : packi32 val = BigEndian.encode 4 val := by
  simp only [BigEndian.encode, List.nil_append, List.cons_append, Nat.div_div_eq_div_mul,
    ← nat_toUInt8_eq]
  rfl

theorem packi64_eq_encode (val : Nat) : packi64 val = BigEndian.encode 8 val := by
  simp only [BigEndian.encode, List.nil_append, List.cons_append, Nat.div_div_eq_div_mul,
    ← nat_toUInt8_eq]
  rfl

theorem unpacku_packi16 (val : Nat) : unpacku (packi16 val) = val % 2 ^ 16 :=
  calc unpacku (packi16 val) = val % 256 ^ 2 := by
        rw [unpacku, packi16_eq_encode, BigEndian.decode_encode]
    _ = val % 2 ^ 16 := rfl

section Unpack

/-- What `unpack` stores through one of its arguments: a number, or the
`maxstrlen` bytes an `s` copies, in front of the terminator it writes. -/
inductive Unpacked where
  | num (v : Int)
  | str (bytes : List UInt8)
  deriving DecidableEq, Repr

/-- The re-signing of `unpacki16`, `unpacki32`, `unpacki64` and of `b`: a
pattern above the largest positive value of `bits` bits is `-1 - (max - v)`. -/
def toSigned (bits v : Nat) : Int := if v ≤ 2 ^ (bits - 1) - 1 then v else v - 2 ^ bits

/-- The integer codes of `unpack`: the bytes each reads, and whether it re-signs. -/
def intCode : UInt8 → Option (Nat × Bool)
  | 98 => some (1, true)     -- b
  | 66 => some (1, false)    -- B
  | 104 => some (2, true)    -- h
  | 72 => some (2, false)    -- H
  | 105 => some (4, true)    -- i
  | 73 => some (4, false)    -- I
  | 113 => some (8, true)    -- q
  | 81 => some (8, false)    -- Q
  | _ => none

/-- `unpack(buf, format, ...)`: the values it stores, in order. A digit adds to
`maxstrlen`, an `unsigned int`, and any other character sets it back to 0 once
handled; `s` copies `maxstrlen` bytes. Reading past the buffer is undefined. -/
def unpack (buf format : List UInt8) : Option (List Unpacked) := go format buf 0
where
  go : List UInt8 → List UInt8 → Nat → Option (List Unpacked)
    | [], _, _ => some []
    | f :: format, buf, maxstrlen =>
      if isDigit f then go format buf ((maxstrlen * 10 + (f.toNat - 48)) % 2 ^ 32)
      else match intCode f with
        | some (width, signed) => do
          let v := BigEndian.decode (← readBytes buf 0 width)
          let rest ← go format (buf.drop width) 0
          pure (.num (if signed then toSigned (8 * width) v else v) :: rest)
        | none =>
          if f = 115 then do
            let bytes ← readBytes buf 0 maxstrlen
            let rest ← go format (buf.drop maxstrlen) 0
            pure (.str bytes :: rest)
          else go format buf 0

theorem unpack_go_digits (ds : List UInt8) (digits : ∀ c ∈ ds, isDigit c = true)
    (format buf : List UInt8) (maxstrlen : Nat) :
    unpack.go (ds ++ format) buf maxstrlen =
      unpack.go format buf (ds.foldl (fun n c => (n * 10 + (c.toNat - 48)) % 2 ^ 32) maxstrlen) := by
  induction ds generalizing maxstrlen with
  | nil => rfl
  | cons d ds ih =>
    have digit : isDigit d = true := digits d (by simp)
    simp only [List.cons_append, unpack.go, digit, if_true, List.foldl_cons]
    exact ih (fun c mem => digits c (by simp [mem])) _

theorem foldl_digits_mod (ds : List UInt8) (acc : Nat) :
    ds.foldl (fun n c => (n * 10 + (c.toNat - 48)) % 2 ^ 32) (acc % 2 ^ 32) =
      ds.foldl (fun n c => n * 10 + (c.toNat - 48)) acc % 2 ^ 32 := by
  induction ds generalizing acc with
  | nil => rfl
  | cons d ds ih =>
    have step : (acc % 2 ^ 32 * 10 + (d.toNat - 48)) % 2 ^ 32 =
        (acc * 10 + (d.toNat - 48)) % 2 ^ 32 := by
      rw [Nat.add_mod, Nat.mul_mod, Nat.mod_mod, ← Nat.mul_mod, ← Nat.add_mod]
    simp only [List.foldl_cons, step]
    exact ih _

theorem unpack_go_decimalDigits (m : Nat) (format buf : List UInt8) :
    unpack.go (decimalDigits m ++ format) buf 0 = unpack.go format buf (m % 2 ^ 32) := by
  rw [unpack_go_digits _ (fun _ mem => isDigit_of_mem_decimalDigits mem)]
  have wrap := foldl_digits_mod (decimalDigits m) 0
  rw [foldl_decimalDigits, Nat.zero_mod] at wrap
  rw [wrap]
  simp

theorem unpack_go_int {f : UInt8} {width : Nat} {signed : Bool} (notDigit : isDigit f = false)
    (code : intCode f = some (width, signed)) (bytes rest format : List UInt8) (maxstrlen : Nat)
    (len : bytes.length = width) :
    unpack.go (f :: format) (bytes ++ rest) maxstrlen =
      (unpack.go format rest 0).map (.num (if signed then toSigned (8 * width)
        (BigEndian.decode bytes) else BigEndian.decode bytes) :: ·) := by
  subst len
  simp only [unpack.go, notDigit, code, readBytes_append, List.drop_left]
  cases unpack.go format rest 0 <;> rfl

theorem unpack_go_str (bytes rest format : List UInt8) :
    unpack.go (115 :: format) (bytes ++ rest) bytes.length =
      (unpack.go format rest 0).map (.str bytes :: ·) := by
  simp only [unpack.go, show isDigit 115 = false by decide, show intCode 115 = none by decide,
    readBytes_append, List.drop_left]
  cases unpack.go format rest 0 <;> rfl

theorem toSigned_toUInt32 (x : Int32) : toSigned 32 x.toUInt32.toNat = x.toInt := by
  have cond := BitVec.toInt_eq_toNat_cond x.toBitVec
  have below : x.toBitVec.toNat < 2 ^ 32 := x.toBitVec.isLt
  have bits : x.toUInt32.toNat = x.toBitVec.toNat := rfl
  have half : (2 : Nat) ^ (32 - 1) - 1 = 2147483647 := rfl
  have full : (2 : Nat) ^ 32 = 4294967296 := rfl
  rw [full] at cond below
  simp only [toSigned, half, Int32.toInt, bits, cond]
  split_ifs <;> first | rfl | omega

end Unpack

section Pack

/-- An argument `pack` takes with `va_arg`: an integer, as passed, or a `char *`. -/
inductive PackArg where
  | num (v : Int)
  | str (s : CStr)

/-- What `pack` stores for an integer code of `width` bytes: the byte for `b`
and `B`, otherwise `packi16`, `packi32` or `packi64` of the value converted to
their unsigned parameter. -/
def packInt (width : Nat) (v : Int) : List UInt8 :=
  match width with
  | 1 => [(v % 2 ^ 8).toNat.toUInt8]
  | 2 => packi16 (v % 2 ^ 16).toNat
  | 4 => packi32 (v % 2 ^ 32).toNat
  | _ => packi64 (v % 2 ^ 64).toNat

/-- `pack(buf, format, ...)`: the bytes it stores, each integer code with the
width `unpack` reads it with. `s` stores the first `len = strlen(s)` bytes of
the string, with `len` an `unsigned int`, and no length; any other character, a
digit too, is passed over. A code whose argument is missing or of the other
kind reads `va_arg` wrongly. -/
def pack : List UInt8 → List PackArg → Option (List UInt8)
  | [], _ => some []
  | f :: format, args =>
    match intCode f, args with
    | some (width, _), .num v :: args => (pack format args).map (packInt width v ++ ·)
    | some _, _ => none
    | none, args =>
      if f = 115 then
        match args with
        | .str s :: args => (pack format args).map (s.bytes.take (s.length % 2 ^ 32) ++ ·)
        | _ => none
      else pack format args

theorem width_of_intCode {c : UInt8} {width : Nat} {signed : Bool}
    (code : intCode c = some (width, signed)) : width = 1 ∨ width = 2 ∨ width = 4 ∨ width = 8 := by
  unfold intCode at code
  split at code <;> simp_all

theorem isDigit_of_intCode {c : UInt8} {code : Nat × Bool} (found : intCode c = some code) :
    isDigit c = false := by
  unfold intCode at found
  split at found <;> first | decide | simp at found

theorem packInt_eq_encode {width : Nat} (sized : width = 1 ∨ width = 2 ∨ width = 4 ∨ width = 8)
    (v : Int) : packInt width v = BigEndian.encode width (v % 2 ^ (8 * width)).toNat := by
  rcases sized with rfl | rfl | rfl | rfl
  · have low : (v % 256).toNat % 256 = (v % 256).toNat := by omega
    simp [packInt, BigEndian.encode, low]
  · exact packi16_eq_encode _
  · exact packi32_eq_encode _
  · exact packi64_eq_encode _

def InCodeRange (width : Nat) (signed : Bool) (v : Int) : Prop :=
  if signed then -2 ^ (8 * width - 1) ≤ v ∧ v < 2 ^ (8 * width - 1) else 0 ≤ v ∧ v < 2 ^ (8 * width)

theorem toNat_emod_of_range {bits : Nat} {v : Int} (low : 0 ≤ v) (high : v < 2 ^ bits) :
    (((v % 2 ^ bits).toNat : Nat) : Int) = v := by
  rw [Int.emod_eq_of_lt low high, Int.toNat_of_nonneg low]

theorem toSigned_emod_of_range {bits : Nat} (pos : 0 < bits) {v : Int}
    (low : -2 ^ (bits - 1) ≤ v) (high : v < 2 ^ (bits - 1)) :
    toSigned bits (v % 2 ^ bits).toNat = v := by
  have double : (2 : Int) ^ bits = 2 * 2 ^ (bits - 1) := calc
    (2 : Int) ^ bits = 2 ^ (bits - 1 + 1) := by rw [Nat.sub_add_cancel pos]
    _ = 2 * 2 ^ (bits - 1) := pow_succ' 2 (bits - 1)
  have half : (((2 ^ (bits - 1) : Nat) : Int)) = 2 ^ (bits - 1) := Nat.cast_pow 2 (bits - 1)
  have whole : (((2 ^ bits : Nat) : Int)) = 2 ^ bits := Nat.cast_pow 2 bits
  have positive : (0 : Int) < 2 ^ (bits - 1) := pow_pos (by decide) _
  unfold toSigned
  by_cases nonneg : 0 ≤ v
  · rw [Int.emod_eq_of_lt nonneg (by omega), if_pos (by omega)]
    omega
  · rw [← Int.add_emod_right v (2 ^ bits), Int.emod_eq_of_lt (by omega) (by omega), if_neg (by omega)]
    omega

theorem unpack_packInt {width : Nat} (sized : width = 1 ∨ width = 2 ∨ width = 4 ∨ width = 8)
    (signed : Bool) {v : Int} (range : InCodeRange width signed v) :
    ((if signed then toSigned (8 * width) (BigEndian.decode (packInt width v))
      else BigEndian.decode (packInt width v)) : Int) = v := by
  have bytes : (256 : Nat) ^ width = 2 ^ (8 * width) := calc
    (256 : Nat) ^ width = (2 ^ 8) ^ width := rfl
    _ = 2 ^ (8 * width) := (Nat.pow_mul 2 8 width).symm
  have positive : (0 : Int) < 2 ^ (8 * width) := pow_pos (by decide) _
  have fits : (v % 2 ^ (8 * width)).toNat < 2 ^ (8 * width) := by
    have below := Int.emod_lt_of_pos v positive
    have whole : (((2 ^ (8 * width) : Nat) : Int)) = 2 ^ (8 * width) := Nat.cast_pow 2 (8 * width)
    omega
  rw [packInt_eq_encode sized, BigEndian.decode_encode, bytes, Nat.mod_eq_of_lt fits]
  unfold InCodeRange at range
  cases signed with
  | false => exact toNat_emod_of_range range.1 range.2
  | true => exact toSigned_emod_of_range (by omega) range.1 range.2

/-- One field of a call of `pack`: an integer code and its argument, or `s` and
its string. -/
inductive PackField where
  | int (code : UInt8) (v : Int)
  | str (s : CStr)

namespace PackField

def code : PackField → UInt8
  | int c _ => c
  | str _ => 115

def arg : PackField → PackArg
  | int _ v => .num v
  | str s => .str s

/-- The format `unpack` reads the field back with: `s` behind the decimal
length of its string. -/
def unpackFormat : PackField → List UInt8
  | int c _ => [c]
  | str s => decimalDigits s.length ++ [115]

def unpacked : PackField → Unpacked
  | int _ v => .num v
  | str s => .str s.bytes

/-- An integer code with a value in its range, or a string whose length an
`unsigned int` holds. -/
def Readable : PackField → Prop
  | int c v => ∃ width signed, intCode c = some (width, signed) ∧ InCodeRange width signed v
  | str s => s.length < 2 ^ 32

end PackField

theorem length_packInt {width : Nat} (sized : width = 1 ∨ width = 2 ∨ width = 4 ∨ width = 8)
    (v : Int) : (packInt width v).length = width := by
  rw [packInt_eq_encode sized, BigEndian.length_encode]

theorem unpack_go_pack (rest : List UInt8) :
    ∀ (fields : List PackField), (∀ x ∈ fields, x.Readable) →
      ∃ bytes, pack (fields.map PackField.code) (fields.map PackField.arg) = some bytes ∧
        unpack.go (fields.flatMap PackField.unpackFormat) (bytes ++ rest) 0 =
          some (fields.map PackField.unpacked)
  | [], _ => ⟨[], rfl, rfl⟩
  | .int c v :: fields, readable => by
    obtain ⟨width, signed, code, range⟩ := readable (.int c v) (by simp)
    obtain ⟨bytes, packed, back⟩ := unpack_go_pack rest fields (fun x mem => readable x (by simp [mem]))
    have sized := width_of_intCode code
    refine ⟨packInt width v ++ bytes, by simp [pack, PackField.code, PackField.arg, code, packed], ?_⟩
    simp only [List.map_cons, List.flatMap_cons, PackField.unpackFormat, List.singleton_append,
      List.append_assoc]
    rw [unpack_go_int (isDigit_of_intCode code) code _ _ _ 0 (length_packInt sized v), back,
      unpack_packInt sized signed range]
    rfl
  | .str s :: fields, readable => by
    have short : s.length < 2 ^ 32 := readable (.str s) (by simp)
    obtain ⟨bytes, packed, back⟩ := unpack_go_pack rest fields (fun x mem => readable x (by simp [mem]))
    have whole : s.bytes.take (s.length % 2 ^ 32) = s.bytes := by
      rw [Nat.mod_eq_of_lt short]
      exact List.take_length
    have notInt : intCode 115 = none := by decide
    refine ⟨s.bytes ++ bytes, ?_, ?_⟩
    · simp only [pack, List.map_cons, PackField.code, PackField.arg, notInt, ↓reduceIte, packed, whole,
        Option.map_some]
    simp only [List.map_cons, List.flatMap_cons, PackField.unpackFormat, List.append_assoc,
      List.singleton_append]
    rw [unpack_go_decimalDigits, Nat.mod_eq_of_lt short]
    rw [show s.length = s.bytes.length from rfl, unpack_go_str, back]
    rfl

/-- `unpack` reads back the arguments `pack` was given, each `s` behind the
decimal length of its string, when every integer lies in its code's range and
every string is shorter than `2 ^ 32` bytes. -/
theorem unpack_pack (fields : List PackField) (readable : ∀ x ∈ fields, x.Readable)
    (rest : List UInt8) :
    ∃ bytes, pack (fields.map PackField.code) (fields.map PackField.arg) = some bytes ∧
      unpack (bytes ++ rest) (fields.flatMap PackField.unpackFormat) =
        some (fields.map PackField.unpacked) :=
  unpack_go_pack rest fields readable

theorem unpack_pack_iSB :
    (∀ x ∈ [PackField.int 105 (-5), .str ⟨[97, 98], by decide⟩, .int 66 200], x.Readable) ∧
      ∃ bytes, pack ([PackField.int 105 (-5), .str ⟨[97, 98], by decide⟩, .int 66 200].map
          PackField.code) ([PackField.int 105 (-5), .str ⟨[97, 98], by decide⟩, .int 66 200].map
          PackField.arg) = some bytes ∧
        unpack (bytes ++ [])
            ([PackField.int 105 (-5), .str ⟨[97, 98], by decide⟩, .int 66 200].flatMap
              PackField.unpackFormat) =
          some ([PackField.int 105 (-5), .str ⟨[97, 98], by decide⟩, .int 66 200].map
            PackField.unpacked) := by
  have readable : ∀ x ∈ [PackField.int 105 (-5), .str ⟨[97, 98], by decide⟩, .int 66 200],
      x.Readable := by
    intro x mem
    simp only [List.mem_cons, List.not_mem_nil, or_false] at mem
    rcases mem with rfl | rfl | rfl
    · exact ⟨4, true, rfl, by simp [InCodeRange]⟩
    · exact (by decide : 2 < 2 ^ 32)
    · exact ⟨1, false, rfl, by simp [InCodeRange]⟩
  exact ⟨readable, unpack_pack _ readable []⟩

theorem pack_str_of_wrapped {s : CStr} (wrapped : s.length % 2 ^ 32 = 0) :
    pack ([PackField.str s].map PackField.code) ([PackField.str s].map PackField.arg) = some [] := by
  have notInt : intCode 115 = none := by decide
  simp only [pack, List.map_cons, List.map_nil, PackField.code, PackField.arg, notInt, ↓reduceIte, wrapped,
    List.take_zero, List.append_nil, Option.map_some]

theorem unpack_str_of_wrapped {s : CStr} (wrapped : s.length % 2 ^ 32 = 0) (buf : List UInt8) :
    unpack buf ([PackField.str s].flatMap PackField.unpackFormat) = some [.str []] := by
  simp only [List.flatMap_cons, List.flatMap_nil, List.append_nil, PackField.unpackFormat, unpack]
  rw [unpack_go_decimalDigits, wrapped, ← List.nil_append buf]
  exact unpack_go_str [] _ []

theorem replicate_nul_free (n : Nat) : (0 : UInt8) ∉ List.replicate n 97 := by
  intro mem
  have same := List.eq_of_mem_replicate mem
  exact absurd same (by decide)

theorem length_replicate_mod_self (n : Nat) :
    (⟨List.replicate n 97, replicate_nul_free n⟩ : CStr).length % n = 0 := by
  rw [CStr.length, List.length_replicate, Nat.mod_self]

/-- A string of `2 ^ 32` bytes: `strlen` of it wraps to 0 in the `unsigned int`
`len` of `pack`, which stores nothing, and `unpack` accumulates the length in
an `unsigned int` too, so it reads back the empty string. -/
theorem unpack_pack_drops_long_string :
    pack ([PackField.str ⟨List.replicate (2 ^ 32) 97, replicate_nul_free (2 ^ 32)⟩].map PackField.code)
        ([PackField.str ⟨List.replicate (2 ^ 32) 97, replicate_nul_free (2 ^ 32)⟩].map PackField.arg) =
      some [] ∧
    unpack []
        ([PackField.str ⟨List.replicate (2 ^ 32) 97, replicate_nul_free (2 ^ 32)⟩].flatMap
          PackField.unpackFormat) =
      some [.str []] :=
  ⟨pack_str_of_wrapped (length_replicate_mod_self _), unpack_str_of_wrapped (length_replicate_mod_self _) []⟩

end Pack

end TrieDB
