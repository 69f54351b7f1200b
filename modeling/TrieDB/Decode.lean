import TrieDB.Protocol

/-!
The requests the IO threads decode. `unpack_triedb_put` and `unpack_triedb_get`
read their fields through `unpack` and a format they print with `sprintf`, so a
length reaches the copy only through its decimal digits and the `unsigned int`
that `unpack` builds from them.
-/
namespace TrieDB

section Put

theorem unpack_ttl_keylen (x n : Nat) (rest : List UInt8) :
    unpack (packi32 x ++ packi16 n ++ rest) [105, 72] =
      some [.num (toSigned 32 (x % 2 ^ 32)), .num ((n % 2 ^ 16 : Nat) : Int)] := by
  have ttl : BigEndian.decode (packi32 x) = x % 2 ^ 32 :=
    calc _ = x % 256 ^ 4 := by rw [packi32_eq_encode, BigEndian.decode_encode]
      _ = x % 2 ^ 32 := rfl
  have keylen : BigEndian.decode (packi16 n) = n % 2 ^ 16 := unpacku_packi16 n
  have codeI : intCode 105 = some (4, true) := rfl
  have codeH : intCode 72 = some (2, false) := rfl
  rw [unpack, List.append_assoc, unpack_go_int (by decide) codeI _ _ _ _ (by simp [packi32]),
    unpack_go_int (by decide) codeH _ _ _ _ (by simp [packi16])]
  simp [unpack.go, ttl, keylen]

theorem unpack_key_value (key value rest : List UInt8) (keyShort : key.length < 2 ^ 32)
    (valueShort : value.length < 2 ^ 32) :
    unpack (key ++ value ++ rest)
        (printDecimal key.length ++ [115] ++ printDecimal value.length ++ [115]) =
      some [.str key, .str value] := by
  have keyLen : key.length % 2 ^ 32 = key.length := Nat.mod_eq_of_lt keyShort
  have valueLen : value.length % 2 ^ 32 = value.length := Nat.mod_eq_of_lt valueShort
  simp only [unpack, printDecimal_ofNat, List.append_assoc, List.cons_append, List.nil_append,
    unpack_go_decimalDigits, keyLen, unpack_go_str]
  rw [valueLen, unpack_go_str]
  rfl

theorem pktLen_of_packed (n m : Nat) (small : 6 + n + m < 2 ^ 64) :
    ((6 + n + m).toUInt64 - (4 + 2 + n.toUInt64)).toNat = m := by
  have whole := toNat_toUInt64_of_lt small
  have key := toNat_toUInt64_of_lt (show n < 2 ^ 64 by omega)
  have le : 4 + 2 + n.toUInt64 ≤ (6 + n + m).toUInt64 := by
    rw [UInt64.le_iff_toNat_le, whole, UInt64.toNat_add, key]
    simp only [UInt64.reduceToNat, UInt64.reduceAdd]
    omega
  rw [UInt64.toNat_sub_of_le _ _ le, whole, UInt64.toNat_add, key]
  simp only [UInt64.reduceToNat, UInt64.reduceAdd]
  omega

theorem unpackPut_of_packed (t : Int32) (key value : CStr) (hdr : UInt8) (rest : List UInt8)
    (keyShort : key.length < 2 ^ 16) (valueShort : value.length < 2 ^ 32) :
    unpackPut (packi32 t.toUInt32.toNat ++ packi16 key.length ++ key.bytes ++ value.bytes ++ rest)
      hdr (6 + key.length + value.length) = some ⟨hdr, t, key.length, key, value⟩ := by
  have fields := unpack_ttl_keylen t.toUInt32.toNat key.length (key.bytes ++ value.bytes ++ rest)
  have below : t.toUInt32.toNat < 2 ^ 32 := t.toUInt32.toNat_lt
  have ttl : Int32.ofInt (toSigned 32 t.toUInt32.toNat) = t := by
    rw [toSigned_toUInt32, Int32.ofInt_toInt]
  have keylen : ((key.length % 2 ^ 16 : Nat) : Int).toNat % 2 ^ 16 = key.length := by
    rw [Int.toNat_natCast, Nat.mod_mod, Nat.mod_eq_of_lt keyShort]
  have pktLen := pktLen_of_packed key.length value.length (by omega)
  have signed : toSigned 64 value.length = value.length := by
    have half : (2 : Nat) ^ (64 - 1) - 1 = 9223372036854775807 := rfl
    simp only [toSigned, half]
    rw [if_pos (by omega)]
  have keyRoom : tmalloc (key.length.toUInt64 + 1) = some (key.length + 1) := by
    have conv := toNat_toUInt64_of_lt (show key.length < 2 ^ 64 by omega)
    rw [tmalloc_add_one (by omega), conv]
  have valRoom : tmalloc ((6 + key.length + value.length).toUInt64 -
      (4 + 2 + key.length.toUInt64) + 1) = some (value.length + 1) := by
    rw [tmalloc_add_one (by omega), pktLen]
  have keyFits : key.bytes.length < 2 ^ 32 := by
    simp only [CStr.length] at keyShort
    omega
  have body : unpack (key.bytes ++ (value.bytes ++ rest))
      (printDecimal key.length ++ [115] ++ printDecimal value.length ++ [115]) =
        some [.str key.bytes, .str value.bytes] := by
    rw [← List.append_assoc]
    exact unpack_key_value key.bytes value.bytes rest keyFits valueShort
  have drop : (packi32 t.toUInt32.toNat ++ packi16 key.length ++ key.bytes ++ value.bytes ++
      rest).drop 6 = key.bytes ++ value.bytes ++ rest := by
    simp [packi32, packi16]
  simp only [List.append_assoc, Nat.mod_eq_of_lt below] at fields drop
  rw [unpackPut, List.append_assoc, List.append_assoc, List.append_assoc, fields]
  simp only [Option.bind_eq_bind, Option.bind_some, keylen, pktLen, signed, keyRoom, valRoom]
  rw [drop, body]
  simp [ttl, CStr.length]

end Put

section Get

theorem unpack_key (key rest : List UInt8) (short : key.length < 2 ^ 32) :
    unpack (key ++ rest) (printDecimal key.length ++ [115]) = some [.str key] := by
  have keyLen : key.length % 2 ^ 32 = key.length := Nat.mod_eq_of_lt short
  simp only [unpack, printDecimal_ofNat, unpack_go_decimalDigits, keyLen, unpack_go_str]
  rfl

theorem unpackTriedbGet_of_packed (key : CStr) (hdr : UInt8) (rest : List UInt8)
    (short : key.length < 10 ^ 8) :
    unpackTriedbGet (key.bytes ++ rest) hdr key.length = some (.get hdr key) := by
  have keyRoom : tmalloc (key.length.toUInt64 + 1) = some (key.length + 1) := by
    have conv := toNat_toUInt64_of_lt (show key.length < 2 ^ 64 by omega)
    rw [tmalloc_add_one (by omega), conv]
  have wide : key.length % 2 ^ 64 = key.length := Nat.mod_eq_of_lt (by omega)
  have signed : toSigned 64 key.length = key.length := by
    have half : (2 : Nat) ^ (64 - 1) - 1 = 9223372036854775807 := rfl
    simp only [toSigned, half]
    rw [if_pos (by omega)]
  have digits : (decimalDigits key.length).length ≤ 8 := length_decimalDigits_le (by decide) short
  have fits : ¬ (printDecimal (toSigned 64 (key.length % 2 ^ 64)) ++ [115]).length + 1 > 10 := by
    rw [wide, signed, printDecimal_ofNat, List.length_append, List.length_singleton]
    omega
  have keyFits : key.bytes.length < 2 ^ 32 := by
    simp only [CStr.length] at short
    omega
  have body : unpack (key.bytes ++ rest) (printDecimal key.length ++ [115]) = some [.str key.bytes] :=
    unpack_key key.bytes rest keyFits
  simp only [unpackTriedbGet, Option.bind_eq_bind, keyRoom, Option.bind_some]
  rw [if_neg fits, wide, signed, body]
  simp [CStr.length]

theorem unpackTriedbGet_of_wide_fmt (raw : List UInt8) (hdr : UInt8) (len : Nat)
    (wide : (printDecimal (toSigned 64 (len % 2 ^ 64)) ++ [115]).length + 1 > 10) :
    unpackTriedbGet raw hdr len = none := by
  simp only [unpackTriedbGet, Option.bind_eq_bind]
  cases tmalloc (len.toUInt64 + 1) with
  | none => rfl
  | some keyRoom => simp only [Option.bind_some, if_pos wide]

end Get

theorem unpackTriedbRequest_put_of_packed (t : Int32) (key value : CStr) (hdr : UInt8) (rest : List UInt8)
    (isPut : headerOpcode hdr = Opcode.put.toNat) (keyShort : key.length < 2 ^ 16)
    (valueShort : value.length < 2 ^ 32) :
    unpackTriedbRequest (packi32 t.toUInt32.toNat ++ packi16 key.length ++ key.bytes ++ value.bytes ++ rest)
      hdr (6 + key.length + value.length) = some (.put hdr t key value) := by
  have put := unpackPut_of_packed t key value hdr rest keyShort valueShort
  have handler : unpackHandlers[Opcode.put.toNat]? = some (some unpackTriedbPut) := rfl
  rw [unpackTriedbRequest, isPut, handler]
  simp only [unpackTriedbPut, put, Option.map_some]

theorem unpackTriedbRequest_get_of_packed (key : CStr) (hdr : UInt8) (rest : List UInt8)
    (isGetDel : headerOpcode hdr = Opcode.get.toNat ∨ headerOpcode hdr = Opcode.del.toNat)
    (short : key.length < 10 ^ 8) :
    unpackTriedbRequest (key.bytes ++ rest) hdr key.length = some (.get hdr key) := by
  have get := unpackTriedbGet_of_packed key hdr rest short
  rcases isGetDel with isGet | isDel
  · have handler : unpackHandlers[Opcode.get.toNat]? = some (some unpackTriedbGet) := rfl
    rw [unpackTriedbRequest, isGet, handler]
    exact get
  · have handler : unpackHandlers[Opcode.del.toNat]? = some (some unpackTriedbGet) := rfl
    rw [unpackTriedbRequest, isDel, handler]
    exact get

/-- A GET of a key of `10^8` bytes: `"%lds"` of its length is ten bytes and its
terminator the eleventh, past the end of `fmt`. -/
theorem unpackTriedbRequest_get_overflows_fmt :
    unpackTriedbRequest (List.replicate (10 ^ 8) 97) 0x20 (10 ^ 8) = none := by
  have handler : unpackHandlers[headerOpcode 0x20]? = some (some unpackTriedbGet) := rfl
  rw [unpackTriedbRequest, handler]
  exact unpackTriedbGet_of_wide_fmt _ _ _ (by decide)

/-- A PUT whose remaining length, 6, leaves no room for the two key bytes its
header announces: `pkt_len` wraps to `2^64 - 2`, `%ld` prints it as `-2` into
`"2s-2s"`, and `tmalloc(pkt_len + 1)` stores its size word past the 7 bytes
`malloc(2^64 - 1 + 8)` returns. -/
theorem unpackPut_short_len_wraps (stale : List UInt8) :
    unpack ([0, 0, 0, 5, 0, 2] ++ stale) [105, 72] = some [.num 5, .num 2] ∧
      (6 : Nat).toUInt64 - (4 + 2 + (2 : Nat).toUInt64) = 18446744073709551614 ∧
      printDecimal 2 ++ [115] ++ printDecimal (toSigned 64 18446744073709551614) ++ [115] =
        [50, 115, 45, 50, 115] ∧
      tmalloc (18446744073709551614 + 1) = none ∧
      unpackPut ([0, 0, 0, 5, 0, 2] ++ stale) 0x10 6 = none := by
  have fields : unpack ([0, 0, 0, 5, 0, 2] ++ stale) [105, 72] = some [.num 5, .num 2] :=
    unpack_ttl_keylen 5 2 stale
  refine ⟨fields, by decide, by decide, by decide, ?_⟩
  rw [unpackPut, fields]
  rfl

end TrieDB
