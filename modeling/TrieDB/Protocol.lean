import Mathlib.Tactic.Ring
import TrieDB.Pack

/-!
`protocol.c` and `protocol.h`: the header byte, the remaining length of a
frame, the requests the IO threads decode and the replies the workers build.
A frame is a header byte, the remaining length `L` in the 1 to 4 bytes
`encode_length` writes, and `L` bytes.
-/
namespace TrieDB

/-- `enum opcode`, the high four bits of a header byte. -/
inductive Opcode where
  | ack | put | get | del | ttl | inc | dec | cnt
  | use | keys | ping | quit | db | info | flush | join
  deriving DecidableEq, Repr

def Opcode.toNat : Opcode → Nat
  | ack => 0 | put => 1 | get => 2 | del => 3 | ttl => 4 | inc => 5 | dec => 6 | cnt => 7
  | use => 8 | keys => 9 | ping => 10 | quit => 11 | db => 12 | info => 13 | flush => 14
  | join => 15

/-- `header.bits.opcode`, bits 4 to 7 of the byte. -/
def headerOpcode (byte : UInt8) : Nat := byte.toNat / 16

/-- `header.bits.prefix`, bit 3 of the byte. -/
def headerPrefix (byte : UInt8) : Bool := byte.toNat / 8 % 2 = 1

def OK : UInt8 := 0
def NOK : UInt8 := 1

def maxLenBytes : Nat := 4

def intMax : Nat := 2 ^ 31 - 1

/-- `encode_length`: the bytes it writes. Each round stores seven bits, with bit 7
set while more follow, and stops after `MAX_LEN_BYTES` rounds. -/
def encodeLength (len : Nat) : List UInt8 := go maxLenBytes len
where
  go : Nat → Nat → List UInt8
    | 0, _ => []
    | fuel + 1, len =>
      -- `d |= 0x80` on a digit below 128 adds 128
      if len / 128 > 0 then (len % 128 + 128).toUInt8 :: go fuel (len / 128)
      else [(len % 128).toUInt8]

/-- `decode_length` on the bytes from `*buf` on: the value and `*pos`. A byte
continues the length when `(c & 128) != 0`, bit 7. `multiplier` is an `int`, so
the fifth round, whose `multiplier *= 128` passes `INT_MAX`, is undefined; so
is a read past the buffer. -/
def decodeLength (buf : List UInt8) : Option (Nat × Nat) := go buf 1 0 0
where
  go : List UInt8 → Nat → Nat → Nat → Option (Nat × Nat)
    | [], _, _, _ => none
    | c :: rest, multiplier, value, pos =>
      let term := c.toNat % 128 * multiplier
      if term > intMax ∨ multiplier * 128 > intMax then none
      else if 128 ≤ c.toNat then go rest (multiplier * 128) (value + term) (pos + 1)
      else some (value + term, pos + 1)

def frame (h : UInt8) (body : List UInt8) : List UInt8 := h :: encodeLength body.length ++ body

section Length

theorem encodeLength_go_ne_nil (fuel len : Nat) (pos : 0 < fuel) :
    encodeLength.go (fuel) len ≠ [] := by
  cases fuel with
  | zero => contradiction
  | succ fuel =>
    simp only [encodeLength.go]
    split_ifs <;> simp

theorem toNat_toUInt8_of_lt {n : Nat} (small : n < 256) : n.toUInt8.toNat = n := by
  simp only [Nat.toUInt8, UInt8.toNat_ofNat']
  omega

theorem decodeLength_go_encodeLength_go :
    ∀ (fuel len multiplier value pos : Nat) (rest : List UInt8), 0 < fuel →
      len < 128 ^ fuel → multiplier * 128 ^ fuel ≤ 2 ^ 28 →
      decodeLength.go (encodeLength.go fuel len ++ rest) multiplier value pos =
        some (value + len * multiplier, pos + (encodeLength.go fuel len).length) := by
  intro fuel
  induction fuel with
  | zero => intro _ _ _ _ _ pos; contradiction
  | succ fuel ih =>
    intro len multiplier value pos rest _ small room
    have room₁ : multiplier * 128 ≤ 2 ^ 28 := by
      calc multiplier * 128 ≤ multiplier * 128 ^ (fuel + 1) :=
            Nat.mul_le_mul_left _ (Nat.le_self_pow (by omega) 128)
        _ ≤ 2 ^ 28 := room
    by_cases more : len / 128 > 0
    · have fuelPos : 0 < fuel := by
        rcases Nat.eq_zero_or_pos fuel with zero | pos
        · subst zero; omega
        · exact pos
      have digit : (len % 128 + 128).toUInt8.toNat = len % 128 + 128 :=
        toNat_toUInt8_of_lt (by omega)
      have small' : len / 128 < 128 ^ fuel := by
        rw [Nat.pow_succ] at small
        exact Nat.div_lt_of_lt_mul (by rw [Nat.mul_comm]; exact small)
      have room' : multiplier * 128 * 128 ^ fuel ≤ 2 ^ 28 := by
        rw [Nat.mul_assoc, ← Nat.pow_succ']
        exact room
      have term : (len % 128 + 128) % 128 * multiplier ≤ intMax := by
        have : (len % 128 + 128) % 128 = len % 128 := by omega
        rw [this]
        unfold intMax
        have := Nat.mul_le_mul_right multiplier (show len % 128 ≤ 128 by omega)
        omega
      simp only [encodeLength.go, more, if_true, List.cons_append, decodeLength.go]
      rw [digit, if_neg (by unfold intMax at term ⊢; omega), if_pos (by omega),
        ih (len / 128) (multiplier * 128) _ _ rest fuelPos small' room']
      simp only [List.length_cons, Option.some.injEq, Prod.mk.injEq]
      constructor
      · have split := Nat.div_add_mod len 128
        have : (len % 128 + 128) % 128 = len % 128 := by omega
        rw [this]
        calc value + len % 128 * multiplier + len / 128 * (multiplier * 128)
            = value + (128 * (len / 128) + len % 128) * multiplier := by ring
          _ = value + len * multiplier := by rw [split]
      · omega
    · have last : len < 128 := by omega
      have lastMod : len % 128 = len := Nat.mod_eq_of_lt last
      have digit : (len % 128).toUInt8.toNat = len := by
        rw [lastMod]
        exact toNat_toUInt8_of_lt (by omega)
      have term : len * multiplier ≤ intMax := by
        unfold intMax
        have := Nat.mul_le_mul_right multiplier (show len ≤ 128 by omega)
        omega
      simp only [encodeLength.go, more, if_false, List.cons_append, List.nil_append,
        decodeLength.go]
      rw [digit, lastMod, if_neg (by unfold intMax at term ⊢; omega), if_neg (by omega)]
      simp

theorem length_encodeLength_go_le : ∀ fuel len : Nat, (encodeLength.go fuel len).length ≤ fuel := by
  intro fuel
  induction fuel with
  | zero => intro len; simp [encodeLength.go]
  | succ fuel ih =>
    intro len
    simp only [encodeLength.go]
    split_ifs
    · simpa using ih (len / 128)
    · simp

theorem decodeLength_encodeLength_of_lt {len : Nat} (fits : len < 128 ^ maxLenBytes) (rest : List UInt8) :
    decodeLength (encodeLength len ++ rest) = some (len, (encodeLength len).length) := by
  have run := decodeLength_go_encodeLength_go maxLenBytes len 1 0 0 rest (by decide) fits (by decide)
  simpa [decodeLength, encodeLength] using run

theorem length_encodeLength_pos (len : Nat) : 0 < (encodeLength len).length :=
  List.length_pos_iff.mpr (encodeLength_go_ne_nil maxLenBytes len (by decide))

theorem length_encodeLength_le (len : Nat) : (encodeLength len).length ≤ 4 :=
  length_encodeLength_go_le maxLenBytes len

/-- `decode_length` reads back every length below `2^28` that `encode_length`
wrote, whatever follows it, with `*pos` the one to four bytes it took. -/
theorem decodeLength_encodeLength (len : Nat) (rest : List UInt8) (small : len < 2 ^ 28) :
    decodeLength (encodeLength len ++ rest) = some (len, (encodeLength len).length) ∧
      0 < (encodeLength len).length ∧ (encodeLength len).length ≤ 4 :=
  ⟨decodeLength_encodeLength_of_lt (by simpa [maxLenBytes] using small) rest, length_encodeLength_pos len,
    length_encodeLength_le len⟩

theorem decodeLength_encodeLength_300 :
    300 < 2 ^ 28 ∧ (decodeLength (encodeLength 300 ++ [7]) = some (300, (encodeLength 300).length) ∧
      0 < (encodeLength 300).length ∧ (encodeLength 300).length ≤ 4) :=
  ⟨by decide, decodeLength_encodeLength 300 [7] (by decide)⟩

theorem encodeLength_of_lt_128 {len : Nat} (small : len < 128) :
    encodeLength len = [len.toUInt8] := by
  have less : ¬ len / 128 > 0 := by omega
  simp [encodeLength, maxLenBytes, encodeLength.go, less, Nat.mod_eq_of_lt small]

theorem length_encodeLength_go_least :
    ∀ fuel len : Nat, 0 < fuel → len < 128 ^ fuel →
      len < 128 ^ (encodeLength.go fuel len).length ∧
        ∀ j, 0 < j → len < 128 ^ j → (encodeLength.go fuel len).length ≤ j := by
  intro fuel
  induction fuel with
  | zero => intro _ pos; contradiction
  | succ fuel ih =>
    intro len _ small
    by_cases more : len / 128 > 0
    · have fuelPos : 0 < fuel := by
        rcases Nat.eq_zero_or_pos fuel with zero | pos
        · subst zero; omega
        · exact pos
      have small' : len / 128 < 128 ^ fuel := by
        rw [Nat.pow_succ] at small
        exact Nat.div_lt_of_lt_mul (by rw [Nat.mul_comm]; exact small)
      obtain ⟨below, least⟩ := ih (len / 128) fuelPos small'
      simp only [encodeLength.go, more, if_true, List.length_cons]
      constructor
      · rw [Nat.pow_succ]
        omega
      · intro j _ fits
        have two : 2 ≤ j := by
          rcases j with _ | _ | j
          · contradiction
          · omega
          · omega
        have fits' : len / 128 < 128 ^ (j - 1) := by
          have split : 128 ^ j = 128 ^ (j - 1) * 128 := by
            rw [← Nat.pow_succ]
            congr 1
            omega
          rw [split] at fits
          exact Nat.div_lt_of_lt_mul (by rw [Nat.mul_comm]; exact fits)
        have := least (j - 1) (by omega) fits'
        omega
    · simp only [encodeLength.go, more, if_false, List.length_singleton, Nat.pow_one]
      constructor
      · omega
      · intro j pos _
        exact pos

theorem encodeLength_go_top_bits :
    ∀ fuel len : Nat, len < 128 ^ fuel →
      (∀ b ∈ (encodeLength.go fuel len).dropLast, 128 ≤ b.toNat) ∧
        ∀ b ∈ (encodeLength.go fuel len).getLast?, b.toNat < 128 := by
  intro fuel
  induction fuel with
  | zero => intro len _; simp [encodeLength.go]
  | succ fuel ih =>
    intro len small
    by_cases more : len / 128 > 0
    · have small' : len / 128 < 128 ^ fuel := by
        rw [Nat.pow_succ] at small
        exact Nat.div_lt_of_lt_mul (by rw [Nat.mul_comm]; exact small)
      have tail := encodeLength_go_ne_nil fuel (len / 128) (by
        rcases Nat.eq_zero_or_pos fuel with zero | pos
        · subst zero; simp at small'; omega
        · exact pos)
      have digit : (len % 128 + 128).toUInt8.toNat = len % 128 + 128 :=
        toNat_toUInt8_of_lt (by omega)
      obtain ⟨continued, last⟩ := ih (len / 128) small'
      simp only [encodeLength.go, more, if_true, List.dropLast_cons_of_ne_nil tail,
        List.getLast?_cons, List.getLast?_eq_some_getLast tail, Option.getD_some]
      refine ⟨?_, ?_⟩
      · intro b mem
        rcases List.mem_cons.mp mem with first | rest
        · rw [first, digit]
          omega
        · exact continued b rest
      · intro b mem
        exact last b (by simpa [List.getLast?_eq_some_getLast tail] using mem)
    · have digit : (len % 128).toUInt8.toNat < 128 := by
        rw [toNat_toUInt8_of_lt (by omega)]
        omega
      simp only [encodeLength.go, more, if_false, List.dropLast_singleton, List.getLast?_singleton]
      refine ⟨by simp, ?_⟩
      intro b mem
      rw [Option.mem_some_iff] at mem
      rw [← mem]
      exact digit

/-- `encode_length` of a length below `128^4` writes the least `k ≥ 1` bytes with
`len < 128^k`, bit 7 set on all but the last, and `decode_length` reads the
length and `*pos = k` back from them, whatever follows. -/
theorem encodeLength_decodeLength_roundtrip (len : Nat) (small : len < 128 ^ 4)
    (rest : List UInt8) :
    (0 < (encodeLength len).length ∧ len < 128 ^ (encodeLength len).length ∧
        ∀ j, 0 < j → len < 128 ^ j → (encodeLength len).length ≤ j) ∧
      (∀ b ∈ (encodeLength len).dropLast, 128 ≤ b.toNat) ∧
      (∀ b ∈ (encodeLength len).getLast?, b.toNat < 128) ∧
      decodeLength (encodeLength len ++ rest) = some (len, (encodeLength len).length) := by
  have fits : len < 128 ^ maxLenBytes := small
  obtain ⟨below, least⟩ := length_encodeLength_go_least maxLenBytes len (by decide) fits
  obtain ⟨continued, last⟩ := encodeLength_go_top_bits maxLenBytes len fits
  exact ⟨⟨length_encodeLength_pos len, below, least⟩, continued, last, decodeLength_encodeLength_of_lt fits rest⟩

theorem encodeLength_decodeLength_roundtrip_16384 :
    16384 < 128 ^ 4 ∧ decodeLength (encodeLength 16384 ++ [7]) = some (16384, 3) :=
  ⟨by decide, (encodeLength_decodeLength_roundtrip 16384 (by decide) [7]).2.2.2⟩

/-- Four bytes with bit 7 set carry `decode_length` into a fifth round, past the
four bytes `MAX_LEN_BYTES` allows, where `multiplier *= 128` takes the `int`
multiplier past `INT_MAX`. -/
theorem decodeLength_fifth_round_overflows :
    decodeLength [128, 128, 128, 128, 1] = decodeLength.go [1] (128 ^ 4) 0 4 ∧
      128 ^ 4 * 128 > intMax ∧ decodeLength [128, 128, 128, 128, 1] = none := by
  refine ⟨by decide, by decide, by decide⟩

theorem decodeLength_round_in_range {r : Nat} (early : r ≤ 3) (c : UInt8) :
    ¬ (c.toNat % 128 * 128 ^ r > intMax ∨ 128 ^ r * 128 > intMax) := by
  have pow : 128 ^ r ≤ 2097152 :=
    calc 128 ^ r ≤ 128 ^ 3 := Nat.pow_le_pow_right (by decide) early
      _ = 2097152 := rfl
  have digit : c.toNat % 128 ≤ 127 := by omega
  have term := Nat.mul_le_mul digit pow
  have max : intMax = 2147483647 := rfl
  omega

theorem decodeLength_round_out_of_range {r : Nat} (late : 4 ≤ r) : 128 ^ r * 128 > intMax := by
  have pow : 268435456 ≤ 128 ^ r :=
    calc 268435456 = 128 ^ 4 := rfl
      _ ≤ 128 ^ r := Nat.pow_le_pow_right (by decide) late
  have max : intMax = 2147483647 := rfl
  omega

theorem decodeLength_go_stop :
    ∀ (cont : List UInt8) (r value pos : Nat) (last : UInt8) (rest : List UInt8),
      r + cont.length < 4 → (∀ c ∈ cont, 128 ≤ c.toNat) → last.toNat < 128 →
        decodeLength.go (cont ++ last :: rest) (128 ^ r) value pos =
          some (value + 128 ^ r * Nat.ofDigits 128 ((cont ++ [last]).map fun c => c.toNat % 128),
            pos + cont.length + 1) := by
  intro cont
  induction cont with
  | nil =>
    intro r value pos last rest early _ stop
    rw [List.nil_append, decodeLength.go, if_neg (decodeLength_round_in_range (by simp at early; omega) last),
      if_neg (by omega)]
    simp [Nat.ofDigits_singleton, Nat.mul_comm]
  | cons c cont ih =>
    intro r value pos last rest early cont₁ stop
    have top : 128 ≤ c.toNat := cont₁ c List.mem_cons_self
    simp only [List.length_cons] at early
    rw [List.cons_append, decodeLength.go, if_neg (decodeLength_round_in_range (by omega) c),
      if_pos top, ← Nat.pow_succ,
      ih (r + 1) _ _ last rest (by omega) (fun c' mem => cont₁ c' (List.mem_cons_of_mem c mem)) stop]
    simp only [List.cons_append, List.map_cons, Nat.ofDigits_cons, List.length_cons, Option.some.injEq,
      Prod.mk.injEq]
    constructor
    · rw [Nat.pow_succ]
      ring
    · omega

theorem decodeLength_go_some_split :
    ∀ (buf : List UInt8) (r value pos : Nat) (result : Nat × Nat),
      decodeLength.go buf (128 ^ r) value pos = some result →
        ∃ cont last rest, buf = cont ++ last :: rest ∧ r + cont.length < 4 ∧
          (∀ c ∈ cont, 128 ≤ c.toNat) ∧ last.toNat < 128 := by
  intro buf
  induction buf with
  | nil => intro r value pos result done; cases done
  | cons c buf ih =>
    intro r value pos result done
    rw [decodeLength.go] at done
    split_ifs at done with overflow top
    · rw [← Nat.pow_succ] at done
      obtain ⟨cont, last, rest, rfl, early, cont₁, stop⟩ := ih (r + 1) _ _ result done
      refine ⟨c :: cont, last, rest, rfl, by simp only [List.length_cons]; omega, ?_, stop⟩
      intro c' mem
      rcases List.mem_cons.mp mem with rfl | mem
      · exact top
      · exact cont₁ c' mem
    · have early : r < 4 := by
        by_contra late
        exact overflow (.inr (decodeLength_round_out_of_range (by omega)))
      exact ⟨[], c, buf, rfl, by simpa using early, by simp, by omega⟩

/-- `decode_length` is defined exactly on the inputs where one of the first
four bytes has its top bit clear. It then reads the bytes up to the first such
one, at most four, and returns their base-128 value, least significant group
first; on any other input its fifth round overflows `int`, or it reads past the
buffer. -/
theorem decodeLength_eq_some_iff (buf : List UInt8) (value k : Nat) :
    decodeLength buf = some (value, k) ↔
      ∃ cont last rest, buf = cont ++ last :: rest ∧ cont.length < 4 ∧ (∀ c ∈ cont, 128 ≤ c.toNat) ∧
        last.toNat < 128 ∧ k = cont.length + 1 ∧
        value = Nat.ofDigits 128 ((cont ++ [last]).map fun c => c.toNat % 128) := by
  have start : decodeLength buf = decodeLength.go buf (128 ^ 0) 0 0 := rfl
  constructor
  · intro done
    obtain ⟨cont, last, rest, rfl, early, cont₁, stop⟩ :=
      decodeLength_go_some_split buf 0 0 0 _ (start ▸ done)
    rw [start, decodeLength_go_stop cont 0 0 0 last rest early cont₁ stop] at done
    simp only [Option.some.injEq, Prod.mk.injEq] at done
    refine ⟨cont, last, rest, rfl, by simpa using early, cont₁, stop, by omega, ?_⟩
    rw [← done.1]
    simp
  · rintro ⟨cont, last, rest, rfl, early, cont₁, stop, rfl, rfl⟩
    rw [start, decodeLength_go_stop cont 0 0 0 last rest (by simpa using early) cont₁ stop]
    simp

end Length

/-- `union triedb_request`, in the member its unpack function fills; no unpack
function fills `struct ttl`. -/
inductive Request where
  | put (header : UInt8) (ttl : Int32) (key val : CStr)
  | get (header : UInt8) (key : CStr)
  | ttl (header : UInt8) (ttl : Int32) (key : CStr)
  | ack (header : UInt8) (rc : UInt8)

/-- `header`, the member every request starts with. -/
def Request.header : Request → UInt8
  | .put header .. | .get header _ | .ttl header .. | .ack header _ => header

/-- `struct put`: `keylen` is an `unsigned short`. -/
structure PutPacket where
  header : UInt8
  ttl : Int32
  keylen : Nat
  key : CStr
  val : CStr
  deriving DecidableEq

/-- `unpack_triedb_put`. `"iH"` stores a `long` and an `unsigned int` through
the `int` and `unsigned short` fields, which keep the low bits. `pkt_len` is a
`size_t`, which `%ld` prints as a `long`; the format has at most 28 bytes, in
room for 32. Each `s` writes its bytes and a terminator into the block
`tmalloc` gave it. -/
def unpackPut (raw : List UInt8) (hdr : UInt8) (len : Nat) : Option PutPacket := do
  match ← unpack raw [105, 72] with
  | [.num ttl, .num stored] =>
    let keylen : Nat := stored.toNat % 2 ^ 16
    let pktLen : UInt64 := len.toUInt64 - (4 + 2 + keylen.toUInt64)
    let fmt := printDecimal keylen ++ [115] ++ printDecimal (toSigned 64 pktLen.toNat) ++ [115]
    let keyRoom ← tmalloc (keylen.toUInt64 + 1)
    let valRoom ← tmalloc (pktLen + 1)
    match ← unpack (raw.drop 6) fmt with
    | [.str key, .str val] =>
      if key.length + 1 ≤ keyRoom ∧ val.length + 1 ≤ valRoom then
        pure ⟨hdr, Int32.ofInt ttl, keylen, CStr.ofBytes key, CStr.ofBytes val⟩
      else none
    | _ => none
  | _ => none

def unpackTriedbPut (raw : List UInt8) (hdr : UInt8) (len : Nat) : Option Request :=
  (unpackPut raw hdr len).map fun put => .put put.header put.ttl put.key put.val

/-- `unpack_triedb_get`: all `len` bytes are the key. `fmt` has room for 10
bytes, `%ld` of `len`, `s` and the terminator; a longer one overflows it. -/
def unpackTriedbGet (raw : List UInt8) (hdr : UInt8) (len : Nat) : Option Request := do
  let keyRoom ← tmalloc (len.toUInt64 + 1)
  let fmt := printDecimal (toSigned 64 (len % 2 ^ 64)) ++ [115]
  if fmt.length + 1 > 10 then none
  else match ← unpack raw fmt with
    | [.str key] => if key.length + 1 ≤ keyRoom then pure (.get hdr (CStr.ofBytes key)) else none
    | _ => none

/-- `unpack_triedb_ack`, and `unpack_triedb_join` with the same layout: `"BB"`. -/
def unpackTriedbAck (raw : List UInt8) (hdr : UInt8) (_len : Nat) : Option Request := do
  let bytes ← readBytes raw 0 2
  let rc ← bytes[1]?
  pure (.ack hdr rc)

/-- `unpack_handlers`, indexed by opcode; `none` is a NULL entry. -/
def unpackHandlers : List (Option (List UInt8 → UInt8 → Nat → Option Request)) :=
  [none, some unpackTriedbPut, some unpackTriedbGet, some unpackTriedbGet,
    none, none, none, none, none, none, none, none, none,
    some unpackTriedbAck, some unpackTriedbAck, some unpackTriedbAck]

/-- `unpack_triedb_request`: a call through a NULL entry is undefined. -/
def unpackTriedbRequest (raw : List UInt8) (opcode : UInt8) (len : Nat) : Option Request :=
  match unpackHandlers[headerOpcode opcode]? with
  | some (some handler) => handler raw opcode len
  | _ => none

/-- `struct tuple`: `keylen` is an `unsigned short`. -/
structure Tuple where
  ttl : Int32
  keylen : Nat
  key : CStr
  val : CStr

/-- `struct get_response`, in the member its prefix bit selects; `tuplesLen` is
the `unsigned short` copy of the vector's size. -/
inductive GetResponse where
  | val (header : UInt8) (t : Tuple)
  | tuples (header : UInt8) (tuplesLen : Nat) (ts : List Tuple)

def packAck (byte rc : UInt8) : Bstring := [byte, 1, rc]

def packCnt (byte : UInt8) (val : Nat) : Bstring := [byte, 8] ++ packi64 val

/-- The fields of `struct config` that `pack_info` reads. -/
structure Config where
  version : CStr
  mode : Int32
  loglevel : UInt8
  socketFamily : Int32
  logpath : CStr
  hostname : CStr
  port : CStr
  maxMemory : UInt64
  memReclaimTime : UInt64
  maxRequestSize : UInt64
  tcpBacklog : Int32

/-- The fields of `struct informations` that `pack_info` reads. -/
structure Informations where
  nclients : UInt32
  nconnections : UInt32
  startTime : UInt64
  uptime : UInt64
  nrequests : UInt32
  bytesRecv : UInt64
  bytesSent : UInt64
  nkeys : UInt64

/-- `"Bs"` of `pack`: the length of a string in a byte, then its bytes. -/
def packString (s : CStr) : List UInt8 := s.length.toUInt8 :: s.bytes

/-- `pack_info`: `"BIIQQIQQQBBBQQQiBsBsBsBs"` from the header `0xd0`, in the
`size + 1` bytes it allocates, which is what it writes. -/
def packInfo (conf : Config) (infos : Informations) : Bstring :=
  0xd0 :: packi32 infos.nclients.toNat ++ packi32 infos.nconnections.toNat ++
    packi64 infos.startTime.toNat ++ packi64 infos.uptime.toNat ++ packi32 infos.nrequests.toNat ++
    packi64 infos.bytesRecv.toNat ++ packi64 infos.bytesSent.toNat ++ packi64 infos.nkeys.toNat ++
    [conf.mode.toUInt32.toUInt8, conf.loglevel, conf.socketFamily.toUInt32.toUInt8] ++
    packi64 conf.maxMemory.toNat ++ packi64 conf.memReclaimTime.toNat ++
    packi64 conf.maxRequestSize.toNat ++ packi32 conf.tcpBacklog.toUInt32.toNat ++
    packString conf.version ++ packString conf.logpath ++ packString conf.hostname ++
    packString conf.port

/-- The bytes `pack_response_get` counts for one tuple of a prefix response. -/
def tupleLength (t : Tuple) : Nat := t.keylen + t.val.length + 4 + 2 * 2

/-- `"iHsHs"` of one tuple: the TTL, the key length, the key, the value's
length and the value. -/
def packTuple (t : Tuple) : List UInt8 :=
  packi32 t.ttl.toUInt32.toNat ++ packi16 t.keylen ++ t.key.bytes ++ packi16 t.val.length ++
    t.val.bytes

/-- `pack_response_get`. The reply is allocated with `length + 2` bytes, room for
a one-byte remaining length; writing past it is undefined. -/
def packResponseGet : GetResponse → Option Bstring
  | .val header t =>
    let length := t.keylen + t.val.length + 4 + 2
    let raw := header :: encodeLength length ++ packi32 t.ttl.toUInt32.toNat ++
      packi16 t.keylen ++ t.key.bytes ++ t.val.bytes
    if raw.length ≤ length + 2 then some raw else none
  | .tuples header tuplesLen ts =>
    let ts := ts.take tuplesLen
    let length := 2 + (ts.map tupleLength).sum
    let raw := header :: encodeLength length ++ packi16 tuplesLen ++ (ts.map packTuple).flatten
    if raw.length ≤ length + 2 then some raw else none

end TrieDB
