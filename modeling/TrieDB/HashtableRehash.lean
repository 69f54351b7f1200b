import Mathlib.Data.List.Rotate
import Mathlib.Data.Nat.ModEq
import TrieDB.Hashtable

/-!
`hashtable_put` on keys with one CRC32. `hashtable_hash_int` sends such keys to
the same slot of every table, so linear probing lays them out in a window of
consecutive slots from there, and `hashtable_rehash` lays them out again in
the same window of the doubled table. Once eight of them are stored the window
is full at every size, and a ninth is never placed: the loop of
`hashtable_put` rehashes without end.
-/
namespace TrieDB

variable {α : Type}

/-- Keys with one CRC32, none of which `STREQ` matches with another over its
own length. -/
structure Colliding (crc : UInt64) (keys : List CStr) : Prop where
  same_crc : ∀ k ∈ keys, crc32 k.bytes = crc
  apart : ∀ k₁ ∈ keys, ∀ k₂ ∈ keys, k₁ ≠ k₂ → streq k₁ k₂ k₁.length = false

def window (size start : Nat) (placed : List (CStr × α)) : List (Option (CStr × α)) :=
  (placed.map some ++ List.replicate (size - placed.length) none).rotate (size - start)

section Window
variable {size start : Nat} {placed : List (CStr × α)}

theorem length_window (fits : placed.length ≤ size) : (window size start placed).length = size := by
  simp [window]
  omega

@[simp] theorem window_nil (size start : Nat) : window size start ([] : List (CStr × α)) = List.replicate size none := by
  simp [window, List.rotate_replicate]

theorem getElem?_window (fits : placed.length ≤ size) (inside : start < size) {c : Nat} (within : c < size) :
    (window size start placed)[(start + c) % size]? = some placed[c]? := by
  have length : (placed.map some ++ List.replicate (size - placed.length) none).length = size := by
    simp; omega
  rw [window, List.getElem?_rotate (by rw [length]; exact Nat.mod_lt _ (by omega)),
    length, Nat.mod_add_mod, show start + c + (size - start) = c + size by omega, Nat.add_mod_right,
    Nat.mod_eq_of_lt within]
  by_cases stored : c < placed.length
  · rw [List.getElem?_append_left (by simpa using stored)]
    simp [stored]
  · rw [List.getElem?_append_right (by simp; omega), List.getElem?_eq_none (Nat.le_of_not_lt stored),
      List.length_map, List.getElem?_replicate, if_pos (by omega)]

theorem mod_add_inj {c d : Nat} (hc : c < size) (hd : d < size) (same : (start + c) % size = (start + d) % size) :
    c = d := by
  have := Nat.ModEq.add_left_cancel' start same
  rwa [Nat.ModEq, Nat.mod_eq_of_lt hc, Nat.mod_eq_of_lt hd] at this

theorem set_window (fits : placed.length < size) (inside : start < size) (kv : CStr × α) :
    (window size start placed).set ((start + placed.length) % size) (some kv) =
      window size start (placed ++ [kv]) := by
  apply List.ext_getElem?
  intro m
  by_cases outside : size ≤ m
  · rw [List.getElem?_eq_none (by rw [List.length_set, length_window fits.le]; exact outside),
      List.getElem?_eq_none (by rw [length_window (by simp; omega)]; exact outside)]
  obtain ⟨c, within, rfl⟩ : ∃ c, c < size ∧ (start + c) % size = m := by
    refine ⟨(m + (size - start)) % size, Nat.mod_lt _ (by omega), ?_⟩
    rw [Nat.add_mod_mod, show start + (m + (size - start)) = m + size by omega, Nat.add_mod_right,
      Nat.mod_eq_of_lt (by omega)]
  rw [List.getElem?_set, getElem?_window fits.le inside within,
    getElem?_window (by simp; omega) inside within, length_window fits.le]
  by_cases last : c = placed.length
  · subst last
    simp [Nat.mod_lt _ (by omega : 0 < size)]
  · have other : (start + placed.length) % size ≠ (start + c) % size :=
      fun same => last (mod_add_inj fits within same).symm
    rw [if_neg other]
    by_cases stored : c < placed.length
    · simp [List.getElem?_append_left stored]
    · simp [List.getElem?_eq_none (Nat.le_of_not_lt stored),
        List.getElem?_eq_none (show (placed ++ [kv]).length ≤ c by simp; omega)]

theorem filterMap_window (size start : Nat) (placed : List (CStr × α)) :
    ((window size start placed).filterMap id).Perm placed := by
  have rotated := (List.rotate_perm (placed.map some ++ List.replicate (size - placed.length) none)
    (size - start)).filterMap id
  simpa [window, List.filterMap_append] using rotated

end Window

structure Windowed (table : HashTable α) (crc : UInt64) (placed : List (CStr × α)) : Prop where
  entries : table.entries = window table.tableSize ((hashMix crc).toNat % table.tableSize) placed
  size : table.size = placed.length

@[simp] theorem tableSize_setEntry (table : HashTable α) (index : Nat) (key : CStr) (val : α) :
    (setEntry table index key val).tableSize = table.tableSize := by
  simp [setEntry, HashTable.tableSize]

section Probe
variable {table : HashTable α} {crc : UInt64} {placed : List (CStr × α)} {key : CStr}

theorem Windowed.entry (windowed : Windowed table crc placed) (fits : placed.length < table.tableSize)
    {c : Nat} (within : c < table.tableSize) :
    table.entries[((hashMix crc).toNat % table.tableSize + c) % table.tableSize]? = some placed[c]? := by
  rw [windowed.entries]
  exact getElem?_window fits.le (Nat.mod_lt _ (by omega)) within

theorem hashProbe_window (windowed : Windowed table crc placed) (fits : placed.length < table.tableSize)
    (apart : ∀ kv ∈ placed, streq kv.1 key kv.1.length = false) :
    ∀ fuel c, c ≤ placed.length →
      hashProbe table key fuel (((hashMix crc).toNat % table.tableSize + c) % table.tableSize) =
        if placed.length - c < fuel then
          some (((hashMix crc).toNat % table.tableSize + placed.length) % table.tableSize)
        else none := by
  intro fuel
  induction fuel with
  | zero => intro c _; simp [hashProbe]
  | succ fuel ih =>
    intro c before
    have entry := windowed.entry fits (show c < table.tableSize by omega)
    obtain rfl | stored := Nat.eq_or_lt_of_le before
    · rw [List.getElem?_eq_none (le_refl _)] at entry
      simp only [hashProbe, entry]
      rw [if_pos (by omega)]
    · have skip := apart placed[c] (List.getElem_mem stored)
      have same : placed.length - (c + 1) < fuel ↔ placed.length - c < fuel + 1 := by omega
      simp only [hashProbe, entry, List.getElem?_eq_getElem stored, skip, Bool.false_eq_true, if_false]
      rw [Nat.mod_add_mod, Nat.add_assoc, ih (c + 1) stored]
      simp only [same]

theorem hashtableHash_window {keys : List CStr} (family : Colliding crc keys) (mem : key ∈ keys)
    (windowed : Windowed table crc placed) (fits : placed.length < table.tableSize)
    (fresh : ∀ kv ∈ placed, kv.1 ∈ keys ∧ kv.1 ≠ key) :
    hashtableHash table key =
      if table.tableSize / 2 ≤ placed.length ∨ MAX_CHAIN_LENGTH ≤ placed.length then none
      else some (((hashMix crc).toNat % table.tableSize + placed.length) % table.tableSize) := by
  have apart : ∀ kv ∈ placed, streq kv.1 key kv.1.length = false := fun kv stored =>
    family.apart kv.1 (fresh kv stored).1 key mem (fresh kv stored).2
  have start : hashtableHashInt table key =
      ((hashMix crc).toNat % table.tableSize + 0) % table.tableSize := by
    rw [hashtableHashInt_eq_hashMix, family.same_crc key mem, Nat.add_zero, Nat.mod_mod]
  rw [hashtableHash, windowed.size, start, hashProbe_window windowed fits apart _ 0 (Nat.zero_le _),
    Nat.sub_zero]
  by_cases half : table.tableSize / 2 ≤ placed.length
  · rw [if_pos half, if_pos (.inl half)]
  · rw [if_neg half]
    by_cases long : MAX_CHAIN_LENGTH ≤ placed.length
    · rw [if_neg (by omega), if_pos (.inr long)]
    · rw [if_pos (by omega), if_neg (by omega)]

theorem Windowed.setEntry (windowed : Windowed table crc placed) (fits : placed.length < table.tableSize)
    (key : CStr) (val : α) :
    Windowed (setEntry table (((hashMix crc).toNat % table.tableSize + placed.length) % table.tableSize) key val)
      crc (placed ++ [(key, val)]) where
  entries := by
    rw [tableSize_setEntry, TrieDB.setEntry, windowed.entries]
    exact set_window fits (Nat.mod_lt _ (by omega)) (key, val)
  size := by
    have free := windowed.entry fits fits
    rw [List.getElem?_eq_none (le_refl _)] at free
    simp only [TrieDB.setEntry, free, windowed.size, List.length_append, List.length_singleton]

end Probe

/-- One entry of the loop of `hashtable_rehash`: a taken slot is put again into
the new table, a free one is passed over. -/
def rehashStep (fuel : Nat) (t : HashTable α) : Option (CStr × α) → Option (HashTable α)
  | some (k, v) => hashtablePut.go fuel t k v
  | none => some t

section Rehash
variable {table : HashTable α} {key : CStr} {val : α} {fuel : Nat}

theorem go_of_hash {index : Nat} (hash : hashtableHash table key = some index) :
    hashtablePut.go (fuel + 1) table key val = some (setEntry table index key val) := by
  simp [hashtablePut.go, hash]

theorem go_of_full (full : hashtableHash table key = none) :
    hashtablePut.go (fuel + 1) table key val =
      (OpRun.run (rehashStep fuel) ⟨List.replicate (2 * table.tableSize) none, 0⟩ table.entries).bind
        (hashtablePut.go fuel · key val) := by
  simp only [hashtablePut.go, full]
  rfl

theorem run_rehashStep_window {crc : UInt64} {keys : List CStr} (family : Colliding crc keys) :
    ∀ (entries : List (Option (CStr × α))) (t t' : HashTable α) (placed : List (CStr × α)),
      Windowed t crc placed → 2 * MAX_CHAIN_LENGTH ≤ t.tableSize →
      (∀ kv ∈ placed ++ entries.filterMap id, kv.1 ∈ keys) →
      ((placed ++ entries.filterMap id).map Prod.fst).Nodup →
      (placed ++ entries.filterMap id).length ≤ MAX_CHAIN_LENGTH →
      OpRun.run (rehashStep fuel) t entries = some t' →
      Windowed t' crc (placed ++ entries.filterMap id) ∧ t'.tableSize = t.tableSize := by
  intro entries
  induction entries with
  | nil =>
    intro t t' placed windowed _ _ _ _ done
    cases done
    simpa using windowed
  | cons e entries ih =>
    intro t t' placed windowed roomy family_keys distinct short done
    obtain ⟨t₁, step, rest⟩ := Option.bind_eq_some_iff.mp done
    cases e with
    | none =>
      cases step
      simpa using ih t t' placed windowed roomy (by simpa using family_keys) (by simpa using distinct)
        (by simpa using short) rest
    | some kv =>
      obtain ⟨k, v⟩ := kv
      have taken : placed ++ (some (k, v) :: entries).filterMap id =
          (placed ++ [(k, v)]) ++ entries.filterMap id := by simp
      rw [taken] at family_keys distinct short ⊢
      have fits : placed.length < t.tableSize := by simp [MAX_CHAIN_LENGTH] at short roomy; omega
      have fresh : ∀ kv ∈ placed, kv.1 ∈ keys ∧ kv.1 ≠ k := by
        intro kv stored
        refine ⟨family_keys kv (by simp [stored]), fun same => ?_⟩
        have front : (placed.map Prod.fst ++ [k]).Nodup := by
          simp only [List.map_append, List.map_cons, List.map_nil] at distinct
          exact distinct.of_append_left
        exact (List.nodup_append.mp front).2.2 _ (List.mem_map_of_mem stored) _ (List.mem_singleton_self k) same
      have hash := hashtableHash_window family (family_keys (k, v) (by simp)) windowed fits fresh
      rw [if_neg (by simp [MAX_CHAIN_LENGTH] at short roomy ⊢; omega)] at hash
      cases fuel with
      | zero => cases step
      | succ fuel =>
        rw [rehashStep, go_of_hash hash] at step
        cases step
        have next := ih _ t' _ (windowed.setEntry fits k v) (by simpa using roomy) family_keys distinct short rest
        simpa using next

theorem go_of_full_window {crc : UInt64} {keys : List CStr} (family : Colliding crc keys) (mem : key ∈ keys) :
    ∀ fuel (table : HashTable α) (placed : List (CStr × α)), Windowed table crc placed →
      placed.length = MAX_CHAIN_LENGTH → MAX_CHAIN_LENGTH < table.tableSize →
      (∀ kv ∈ placed, kv.1 ∈ keys ∧ kv.1 ≠ key) → (placed.map Prod.fst).Nodup →
      hashtablePut.go fuel table key val = none := by
  intro fuel
  induction fuel with
  | zero => intro _ _ _ _ _ _ _; rfl
  | succ fuel ih =>
    intro table placed windowed full roomy fresh distinct
    have hash := hashtableHash_window family mem windowed (by omega) fresh
    rw [if_pos (.inr full.ge)] at hash
    rw [go_of_full hash]
    cases rehash : OpRun.run (rehashStep fuel) ⟨List.replicate (2 * table.tableSize) none, 0⟩ table.entries with
    | none => rfl
    | some t' =>
      have moved : (table.entries.filterMap id).Perm placed := by
        rw [windowed.entries]
        exact filterMap_window _ _ _
      have moved_fresh : ∀ kv ∈ ([] : List (CStr × α)) ++ table.entries.filterMap id, kv.1 ∈ keys ∧ kv.1 ≠ key :=
        fun kv taken => fresh kv (moved.subset (by simpa using taken))
      have moved_distinct : (([] ++ table.entries.filterMap id).map Prod.fst).Nodup := by
        simpa using (moved.map Prod.fst).nodup_iff.mpr distinct
      have moved_length : ([] ++ table.entries.filterMap id).length = MAX_CHAIN_LENGTH := by
        rw [List.nil_append, moved.length_eq, full]
      have start : Windowed (⟨List.replicate (2 * table.tableSize) none, 0⟩ : HashTable α) crc [] :=
        ⟨by simp [HashTable.tableSize], rfl⟩
      obtain ⟨windowed', sized⟩ := run_rehashStep_window family table.entries _ t' [] start
        (by simp [HashTable.tableSize, MAX_CHAIN_LENGTH] at roomy ⊢; omega)
        (fun kv taken => (moved_fresh kv taken).1) moved_distinct moved_length.le rehash
      have doubled : MAX_CHAIN_LENGTH < t'.tableSize := by
        simp [HashTable.tableSize] at sized roomy ⊢
        omega
      simpa using ih t' _ windowed' moved_length doubled moved_fresh moved_distinct

end Rehash

def collidingKeys : List CStr :=
  [CStr.ofBytes [107, 97, 162, 227, 215, 140], CStr.ofBytes [107, 98, 24, 178, 222, 21],
   CStr.ofBytes [107, 99, 142, 130, 217, 98], CStr.ofBytes [107, 100, 45, 23, 189, 252],
   CStr.ofBytes [107, 101, 187, 39, 186, 139], CStr.ofBytes [107, 102, 1, 118, 179, 18],
   CStr.ofBytes [107, 103, 151, 70, 180, 101], CStr.ofBytes [107, 104, 6, 91, 11, 245]]

def ninthKey : CStr := CStr.ofBytes [107, 105, 144, 107, 12, 130]

theorem collidingKeys_colliding :
    Colliding (crc32 [107, 97, 162, 227, 215, 140]) (ninthKey :: collidingKeys) :=
  ⟨by decide, by decide⟩

/-- Eight puts of the colliding keys from `hashtable_new` reach a table in which
`hashtable_put` of the ninth key never returns: no number of rehashes ends the
loop on -HASHTABLE_FULL. -/
theorem hashtablePut_rehashes_forever :
    ∃ table, OpRun.run hashStep hashtableNew (collidingKeys.zipIdx.map fun (key, val) => .put key val) =
        some table ∧
      ∀ fuel, hashtablePut.go fuel table ninthKey 8 = none :=
  ⟨_, rfl, fun fuel => go_of_full_window collidingKeys_colliding List.mem_cons_self fuel _
    collidingKeys.zipIdx ⟨by decide, by decide⟩ rfl (by decide) (by decide) (by decide)⟩

end TrieDB
