import TrieDB.Util
import TrieDB.Library.Run

/-!
`hashtable.c`: open addressing over `table_size` slots, probed linearly for at
most `MAX_CHAIN_LENGTH` slots from the key's hash. A slot is `none` while it is
not taken; `hashtable_del` only clears `taken`, so a slot keeps no trace of a
deleted key. Keys are compared with `STREQ`, `strncasecmp` over the length of
one of the two keys: the stored key's in `hashtable_hash`, the looked-up key's
in `hashtable_get` and `hashtable_del`. `tcalloc` is assumed to succeed.
-/
namespace TrieDB

def crc32Tab : List UInt64 := [
    0x00000000, 0x77073096, 0xee0e612c, 0x990951ba, 0x076dc419, 0x706af48f,
    0xe963a535, 0x9e6495a3, 0x0edb8832, 0x79dcb8a4, 0xe0d5e91e, 0x97d2d988,
    0x09b64c2b, 0x7eb17cbd, 0xe7b82d07, 0x90bf1d91, 0x1db71064, 0x6ab020f2,
    0xf3b97148, 0x84be41de, 0x1adad47d, 0x6ddde4eb, 0xf4d4b551, 0x83d385c7,
    0x136c9856, 0x646ba8c0, 0xfd62f97a, 0x8a65c9ec, 0x14015c4f, 0x63066cd9,
    0xfa0f3d63, 0x8d080df5, 0x3b6e20c8, 0x4c69105e, 0xd56041e4, 0xa2677172,
    0x3c03e4d1, 0x4b04d447, 0xd20d85fd, 0xa50ab56b, 0x35b5a8fa, 0x42b2986c,
    0xdbbbc9d6, 0xacbcf940, 0x32d86ce3, 0x45df5c75, 0xdcd60dcf, 0xabd13d59,
    0x26d930ac, 0x51de003a, 0xc8d75180, 0xbfd06116, 0x21b4f4b5, 0x56b3c423,
    0xcfba9599, 0xb8bda50f, 0x2802b89e, 0x5f058808, 0xc60cd9b2, 0xb10be924,
    0x2f6f7c87, 0x58684c11, 0xc1611dab, 0xb6662d3d, 0x76dc4190, 0x01db7106,
    0x98d220bc, 0xefd5102a, 0x71b18589, 0x06b6b51f, 0x9fbfe4a5, 0xe8b8d433,
    0x7807c9a2, 0x0f00f934, 0x9609a88e, 0xe10e9818, 0x7f6a0dbb, 0x086d3d2d,
    0x91646c97, 0xe6635c01, 0x6b6b51f4, 0x1c6c6162, 0x856530d8, 0xf262004e,
    0x6c0695ed, 0x1b01a57b, 0x8208f4c1, 0xf50fc457, 0x65b0d9c6, 0x12b7e950,
    0x8bbeb8ea, 0xfcb9887c, 0x62dd1ddf, 0x15da2d49, 0x8cd37cf3, 0xfbd44c65,
    0x4db26158, 0x3ab551ce, 0xa3bc0074, 0xd4bb30e2, 0x4adfa541, 0x3dd895d7,
    0xa4d1c46d, 0xd3d6f4fb, 0x4369e96a, 0x346ed9fc, 0xad678846, 0xda60b8d0,
    0x44042d73, 0x33031de5, 0xaa0a4c5f, 0xdd0d7cc9, 0x5005713c, 0x270241aa,
    0xbe0b1010, 0xc90c2086, 0x5768b525, 0x206f85b3, 0xb966d409, 0xce61e49f,
    0x5edef90e, 0x29d9c998, 0xb0d09822, 0xc7d7a8b4, 0x59b33d17, 0x2eb40d81,
    0xb7bd5c3b, 0xc0ba6cad, 0xedb88320, 0x9abfb3b6, 0x03b6e20c, 0x74b1d29a,
    0xead54739, 0x9dd277af, 0x04db2615, 0x73dc1683, 0xe3630b12, 0x94643b84,
    0x0d6d6a3e, 0x7a6a5aa8, 0xe40ecf0b, 0x9309ff9d, 0x0a00ae27, 0x7d079eb1,
    0xf00f9344, 0x8708a3d2, 0x1e01f268, 0x6906c2fe, 0xf762575d, 0x806567cb,
    0x196c3671, 0x6e6b06e7, 0xfed41b76, 0x89d32be0, 0x10da7a5a, 0x67dd4acc,
    0xf9b9df6f, 0x8ebeeff9, 0x17b7be43, 0x60b08ed5, 0xd6d6a3e8, 0xa1d1937e,
    0x38d8c2c4, 0x4fdff252, 0xd1bb67f1, 0xa6bc5767, 0x3fb506dd, 0x48b2364b,
    0xd80d2bda, 0xaf0a1b4c, 0x36034af6, 0x41047a60, 0xdf60efc3, 0xa867df55,
    0x316e8eef, 0x4669be79, 0xcb61b38c, 0xbc66831a, 0x256fd2a0, 0x5268e236,
    0xcc0c7795, 0xbb0b4703, 0x220216b9, 0x5505262f, 0xc5ba3bbe, 0xb2bd0b28,
    0x2bb45a92, 0x5cb36a04, 0xc2d7ffa7, 0xb5d0cf31, 0x2cd99e8b, 0x5bdeae1d,
    0x9b64c2b0, 0xec63f226, 0x756aa39c, 0x026d930a, 0x9c0906a9, 0xeb0e363f,
    0x72076785, 0x05005713, 0x95bf4a82, 0xe2b87a14, 0x7bb12bae, 0x0cb61b38,
    0x92d28e9b, 0xe5d5be0d, 0x7cdcefb7, 0x0bdbdf21, 0x86d3d2d4, 0xf1d4e242,
    0x68ddb3f8, 0x1fda836e, 0x81be16cd, 0xf6b9265b, 0x6fb077e1, 0x18b74777,
    0x88085ae6, 0xff0f6a70, 0x66063bca, 0x11010b5c, 0x8f659eff, 0xf862ae69,
    0x616bffd3, 0x166ccf45, 0xa00ae278, 0xd70dd2ee, 0x4e048354, 0x3903b3c2,
    0xa7672661, 0xd06016f7, 0x4969474d, 0x3e6e77db, 0xaed16a4a, 0xd9d65adc,
    0x40df0b66, 0x37d83bf0, 0xa9bcae53, 0xdebb9ec5, 0x47b2cf7f, 0x30b5ffe9,
    0xbdbdf21c, 0xcabac28a, 0x53b39330, 0x24b4a3a6, 0xbad03605, 0xcdd70693,
    0x54de5729, 0x23d967bf, 0xb3667a2e, 0xc4614ab8, 0x5d681b02, 0x2a6f2b94,
    0xb40bbe37, 0xc30c8ea1, 0x5a05df1b, 0x2d02ef8d
  ]

/-- `crc32`: the table-driven CRC of the polynomial `0xedb88320`, from 0 and
without a final inversion. -/
def crc32 (s : List UInt8) : UInt64 :=
  s.foldl (fun crc b => crc32Tab.getD ((crc ^^^ b.toUInt64) &&& 0xff).toNat 0 ^^^ (crc >>> 8)) 0

def INITIAL_SIZE : Nat := 4
def MAX_CHAIN_LENGTH : Nat := 8
def KNUTH_PRIME : UInt64 := 2654435761

/-- `tolower` in the C locale. -/
def toLower (c : UInt8) : UInt8 := if 65 ≤ c ∧ c ≤ 90 then c + 32 else c

/-- `strncasecmp(s1, s2, len) == 0`: the first `len` bytes agree up to case,
where a string that ends first differs from one that goes on. -/
def strncaseEq : List UInt8 → List UInt8 → Nat → Bool
  | _, _, 0 => true
  | [], [], _ + 1 => true
  | c₁ :: s₁, c₂ :: s₂, len + 1 => toLower c₁ == toLower c₂ && strncaseEq s₁ s₂ len
  | _, _, _ + 1 => false

/-- `STREQ(s1, s2, len)`. -/
def streq (s₁ s₂ : CStr) (len : Nat) : Bool := strncaseEq s₁.bytes s₂.bytes len

/-- `HashTable`: its slots, `table_size` of them, and `size`. -/
structure HashTable (α : Type) where
  entries : List (Option (CStr × α))
  size : Nat

variable {α : Type}

def HashTable.tableSize (table : HashTable α) : Nat := table.entries.length

def hashtableNew : HashTable α := ⟨List.replicate INITIAL_SIZE none, 0⟩

def hashtableSize (table : HashTable α) : Nat := table.size

/-- `hashtable_hash_int`: Jenkins' 32-bit mix and Knuth's multiplicative step,
on a `uint64_t`, then the slot. -/
def hashtableHashInt (table : HashTable α) (keystr : CStr) : Nat :=
  let key := crc32 keystr.bytes
  let key := key + (key <<< 12)
  let key := key ^^^ (key >>> 22)
  let key := key + (key <<< 4)
  let key := key ^^^ (key >>> 9)
  let key := key + (key <<< 10)
  let key := key ^^^ (key >>> 2)
  let key := key + (key <<< 7)
  let key := key ^^^ (key >>> 12)
  let key := (key >>> 3) * KNUTH_PRIME
  key.toNat % table.tableSize

/-- Jenkins' 32-bit mix and Knuth's multiplicative step on a `uint64_t`, as
`hashtable_hash_int` computes them, and `hash` of `cluster.c` with its `KPRIME`
of the same value. -/
def hashMix (key : UInt64) : UInt64 :=
  let key := key + (key <<< 12)
  let key := key ^^^ (key >>> 22)
  let key := key + (key <<< 4)
  let key := key ^^^ (key >>> 9)
  let key := key + (key <<< 10)
  let key := key ^^^ (key >>> 2)
  let key := key + (key <<< 7)
  let key := key ^^^ (key >>> 12)
  (key >>> 3) * KNUTH_PRIME

theorem hashtableHashInt_eq_hashMix {α : Type} (table : HashTable α) (keystr : CStr) :
    hashtableHashInt table keystr = (hashMix (crc32 keystr.bytes)).toNat % table.tableSize := rfl

/-- The probe loop of `hashtable_hash`: the first slot not taken, or taken by a
key that `key` matches over the stored key's length. -/
def hashProbe (table : HashTable α) (key : CStr) : Nat → Nat → Option Nat
  | 0, _ => none
  | i + 1, curr =>
    match table.entries[curr]? with
    | some none => some curr
    | some (some (k, _)) =>
      if streq k key k.length then some curr
      else hashProbe table key i ((curr + 1) % table.tableSize)
    | none => none

/-- `hashtable_hash`: `none` is `-HASHTABLE_FULL`. -/
def hashtableHash (table : HashTable α) (key : CStr) : Option Nat :=
  if table.size ≥ table.tableSize / 2 then none
  else hashProbe table key MAX_CHAIN_LENGTH (hashtableHashInt table key)

/-- The probe loop shared by `hashtable_get`, `hashtable_get_entry` and
`hashtable_del`: the first taken slot whose key matches `key` over `key`'s
length. Slots not taken are passed over. -/
def lookupProbe (table : HashTable α) (key : CStr) : Nat → Nat → Option Nat
  | 0, _ => none
  | i + 1, curr =>
    match table.entries[curr]? with
    | some (some (k, _)) =>
      if streq k key key.length then some curr
      else lookupProbe table key i ((curr + 1) % table.tableSize)
    | _ => lookupProbe table key i ((curr + 1) % table.tableSize)

def hashtableLookup (table : HashTable α) (key : CStr) : Option Nat :=
  lookupProbe table key MAX_CHAIN_LENGTH (hashtableHashInt table key)

/-- The stores of `hashtable_put` at `index`, and `size++` when it was free. -/
def setEntry (table : HashTable α) (index : Nat) (key : CStr) (val : α) : HashTable α :=
  { entries := table.entries.set index (some (key, val))
    size := match table.entries[index]? with
      | some none => table.size + 1
      | _ => table.size }

/-- Rounds of `hashtable_rehash` a `hashtable_put` may need; the table doubles
at each, so a `size_t` table would wrap long before. -/
def maxRehash : Nat := 64

/-- `hashtable_put`, through the `hashtable_rehash` it calls while the table is
full. -/
def hashtablePut (table : HashTable α) (key : CStr) (val : α) : Option (HashTable α) :=
  go maxRehash table key val
where
  go : Nat → HashTable α → CStr → α → Option (HashTable α)
    | 0, _, _, _ => none
    | fuel + 1, table, key, val =>
      match hashtableHash table key with
      | some index => some (setEntry table index key val)
      | none => do
        -- `hashtable_rehash`: twice the slots, and every taken entry put again
        let fresh : HashTable α := ⟨List.replicate (2 * table.tableSize) none, 0⟩
        let table ← OpRun.run
          (fun t e => match e with
            | some (k, v) => go fuel t k v
            | none => some t) fresh table.entries
        go fuel table key val

/-- `hashtable_get`: `none` is NULL. -/
def hashtableGet (table : HashTable α) (key : CStr) : Option α :=
  (hashtableLookup table key).bind fun index =>
    (table.entries[index]?).bind fun e => e.map Prod.snd

/-- `hashtable_del`: the table afterwards and whether it returned `HASHTABLE_OK`. -/
def hashtableDel (table : HashTable α) (key : CStr) : HashTable α × Bool :=
  match hashtableLookup table key with
  | some index => ({ entries := table.entries.set index none, size := table.size - 1 }, true)
  | none => (table, false)

/-- `"ab"` is stored; `hashtable_get("a")` compares over one byte and finds it. -/
theorem hashtableGet_finds_longer_key :
    ∃ table, hashtablePut (hashtableNew : HashTable Nat) ⟨[97, 98], by decide⟩ 1 = some table ∧
      hashtableGet table ⟨[97], by decide⟩ = some 1 :=
  ⟨_, rfl, rfl⟩

section Size

def takenCount (table : HashTable α) : Nat := table.entries.countP Option.isSome

theorem countP_set_add {β : Type} (p : β → Bool) (x : β) :
    ∀ (l : List β) (i : Nat) (y : β), l[i]? = some y →
      (l.set i x).countP p + (if p y then 1 else 0) = l.countP p + (if p x then 1 else 0) := by
  intro l
  induction l with
  | nil => intro i y found; simp at found
  | cons b l ih =>
    intro i y found
    cases i with
    | zero =>
      simp only [List.getElem?_cons_zero, Option.some.injEq] at found
      subst found
      simp only [List.set_cons_zero, List.countP_cons]
      omega
    | succ i =>
      simp only [List.getElem?_cons_succ] at found
      have inner := ih i y found
      simp only [List.set_cons_succ, List.countP_cons]
      omega

theorem hashProbe_found (table : HashTable α) (key : CStr) :
    ∀ (i curr index : Nat), hashProbe table key i curr = some index →
      ∃ e, table.entries[index]? = some e := by
  intro i
  induction i with
  | zero => intro curr index probe; cases probe
  | succ i ih =>
    intro curr index probe
    unfold hashProbe at probe
    split at probe
    · cases probe
      exact ⟨none, by assumption⟩
    · split_ifs at probe
      · cases probe
        exact ⟨_, by assumption⟩
      · exact ih _ _ probe
    · cases probe

theorem lookupProbe_taken (table : HashTable α) (key : CStr) :
    ∀ (i curr index : Nat), lookupProbe table key i curr = some index →
      ∃ kv, table.entries[index]? = some (some kv) := by
  intro i
  induction i with
  | zero => intro curr index probe; cases probe
  | succ i ih =>
    intro curr index probe
    unfold lookupProbe at probe
    split at probe
    · split_ifs at probe
      · cases probe
        exact ⟨_, by assumption⟩
      · exact ih _ _ probe
    · exact ih _ _ probe

theorem takenCount_setEntry (table : HashTable α) {index : Nat} {e : Option (CStr × α)}
    (found : table.entries[index]? = some e) (key : CStr) (val : α)
    (counted : table.size = takenCount table) :
    (setEntry table index key val).size = takenCount (setEntry table index key val) := by
  have trade := countP_set_add Option.isSome (some (key, val)) table.entries index e found
  simp only [setEntry, takenCount, found] at trade counted ⊢
  cases e <;> simp at trade ⊢ <;> omega

theorem hashtablePut_go_counted :
    ∀ (fuel : Nat) (table table' : HashTable α) (key : CStr) (val : α),
      table.size = takenCount table → hashtablePut.go fuel table key val = some table' →
      table'.size = takenCount table' := by
  intro fuel
  induction fuel with
  | zero => intro table table' key val _ put; cases put
  | succ fuel ih =>
    intro table table' key val counted put
    simp only [hashtablePut.go] at put
    split at put
    · rename_i index hash
      cases put
      obtain ⟨e, found⟩ := hashProbe_found table key _ _ index (by
        unfold hashtableHash at hash
        split_ifs at hash
        exact hash)
      exact takenCount_setEntry table found key val counted
    · obtain ⟨rehashed, run, rest⟩ := Option.bind_eq_some_iff.mp put
      have fresh : (⟨List.replicate (2 * table.tableSize) none, 0⟩ : HashTable α).size =
          takenCount (⟨List.replicate (2 * table.tableSize) none, 0⟩ : HashTable α) := by
        simp [takenCount, List.countP_replicate]
      have again := @OpRun.run_preserves _ _ _ (fun t : HashTable α => t.size = takenCount t)
        (fun t e t' inv step => by
          cases e with
          | none => cases step; exact inv
          | some kv => exact ih t t' kv.1 kv.2 inv step)
        table.entries _ rehashed fresh run
      exact ih rehashed table' key val again rest

theorem hashtableDel_counted (table : HashTable α) (key : CStr)
    (counted : table.size = takenCount table) :
    (hashtableDel table key).1.size = takenCount (hashtableDel table key).1 := by
  unfold hashtableDel
  split
  · rename_i index lookup
    obtain ⟨kv, found⟩ := lookupProbe_taken table key _ _ index lookup
    have trade := countP_set_add Option.isSome none table.entries index (some kv) found
    simp only [takenCount] at trade counted ⊢
    simp at trade
    omega
  · exact counted

inductive HashOp (α : Type) where
  | put (key : CStr) (val : α)
  | del (key : CStr)

def hashStep (table : HashTable α) : HashOp α → Option (HashTable α)
  | .put key val => hashtablePut table key val
  | .del key => some (hashtableDel table key).1

/-- After every run of puts and deletes from `hashtable_new`, `hashtable_size`
is the number of taken slots. -/
theorem hashtableSize_eq_takenCount (ops : List (HashOp α)) (table : HashTable α)
    (run : OpRun.run hashStep hashtableNew ops = some table) :
    hashtableSize table = takenCount table := by
  apply @OpRun.run_preserves _ _ _ (fun t : HashTable α => t.size = takenCount t) _ ops _ _
    (by simp [hashtableNew, takenCount, List.countP_replicate]) run
  intro t op t' inv step
  cases op with
  | put key val => exact hashtablePut_go_counted maxRehash t t' key val inv step
  | del key =>
    cases step
    exact hashtableDel_counted t key inv

theorem hashtableSize_eq_takenCount_of_puts :
    ∃ table, OpRun.run hashStep (hashtableNew : HashTable Nat)
        [.put ⟨[97], by decide⟩ 1, .put ⟨[65], by decide⟩ 2] = some table ∧
      hashtableSize table = takenCount table :=
  ⟨_, rfl, hashtableSize_eq_takenCount [.put ⟨[97], by decide⟩ 1, .put ⟨[65], by decide⟩ 2] _ rfl⟩

end Size

end TrieDB
