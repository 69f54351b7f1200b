import TrieDB.HashtableRehash

/-!
What `hashtable_get` finds after any sequence of `hashtable_put` and
`hashtable_del`. Every taken slot holds a key at most `MAX_CHAIN_LENGTH - 1`
slots past its hash, wrapping around: a put stores at the slot where the probe
of `hashtable_hash` stopped, a rehash places every key of the old table the
same way in the doubled one, and a delete only frees a slot. The probe of
`hashtable_get` visits the same slots and passes over the free ones, so it
never misses a key the table holds. It answers the value of the first key, in
probe order, that the looked-up key matches over its own length.
-/
namespace TrieDB

variable {α : Type}

/-- Every taken slot holds a key within `MAX_CHAIN_LENGTH` probes of its hash. -/
def Probed (table : HashTable α) : Prop :=
  ∀ i kv, table.entries[i]? = some (some kv) →
    ∃ d < MAX_CHAIN_LENGTH, (hashtableHashInt table kv.1 + d) % table.tableSize = i

theorem strncaseEq_self : ∀ s : List UInt8, strncaseEq s s s.length = true
  | [] => rfl
  | c :: s => by simp [strncaseEq, strncaseEq_self s]

theorem hashtableHashInt_of_tableSize {table table' : HashTable α} (same : table'.tableSize = table.tableSize)
    (key : CStr) : hashtableHashInt table' key = hashtableHashInt table key := by
  simp only [hashtableHashInt_eq_hashMix, same]

section Probe
variable {table : HashTable α} {key : CStr}

theorem hashProbe_within : ∀ fuel curr index, hashProbe table key fuel curr = some index →
    ∃ d < fuel, (curr + d) % table.tableSize = index := by
  intro fuel
  induction fuel with
  | zero => intro curr index probe; cases probe
  | succ fuel ih =>
    intro curr index probe
    unfold hashProbe at probe
    split at probe
    · next free =>
      cases probe
      exact ⟨0, by omega, Nat.mod_eq_of_lt (List.getElem?_eq_some_iff.mp free).1⟩
    · next taken =>
      split_ifs at probe
      · cases probe
        exact ⟨0, by omega, Nat.mod_eq_of_lt (List.getElem?_eq_some_iff.mp taken).1⟩
      · obtain ⟨d, below, reach⟩ := ih _ _ probe
        refine ⟨d + 1, by omega, ?_⟩
        rw [← reach, Nat.mod_add_mod, Nat.add_right_comm, Nat.add_assoc]
    · cases probe

theorem lookupProbe_reaches : ∀ fuel curr d, d < fuel → curr < table.tableSize → ∀ kv,
    table.entries[(curr + d) % table.tableSize]? = some (some kv) → streq kv.1 key key.length = true →
    ∃ index kv', lookupProbe table key fuel curr = some index ∧ table.entries[index]? = some (some kv') ∧
      streq kv'.1 key key.length = true := by
  intro fuel
  induction fuel with
  | zero => intro curr d below; omega
  | succ fuel ih =>
    intro curr d below inside kv slot hit₀
    have here : ∀ kv₀, table.entries[curr]? = some (some kv₀) → streq kv₀.1 key key.length = true →
        ∃ index kv', lookupProbe table key (fuel + 1) curr = some index ∧
          table.entries[index]? = some (some kv') ∧ streq kv'.1 key key.length = true :=
      fun kv₀ taken hit => ⟨curr, kv₀, by simp [lookupProbe, taken, hit], taken, hit⟩
    have onward : 0 < d → ∃ index kv', lookupProbe table key fuel ((curr + 1) % table.tableSize) = some index ∧
        table.entries[index]? = some (some kv') ∧ streq kv'.1 key key.length = true := by
      intro pos
      refine ih _ (d - 1) (by omega) (Nat.mod_lt _ (by omega)) kv ?_ hit₀
      rwa [Nat.mod_add_mod, show curr + 1 + (d - 1) = curr + d by omega]
    rcases taken : table.entries[curr]? with _ | _ | ⟨k, v⟩
    · exact absurd taken (by rw [List.getElem?_eq_getElem inside]; simp)
    · obtain ⟨index, kv', lookup, found, hit⟩ := onward (Nat.pos_of_ne_zero fun zero => by
        rw [zero, Nat.add_zero, Nat.mod_eq_of_lt inside, taken] at slot
        cases slot)
      exact ⟨index, kv', by simp [lookupProbe, taken, lookup], found, hit⟩
    · by_cases hit : streq k key key.length = true
      · exact here (k, v) taken hit
      · obtain ⟨index, kv', lookup, found, hit'⟩ := onward (Nat.pos_of_ne_zero fun zero => by
          rw [zero, Nat.add_zero, Nat.mod_eq_of_lt inside, taken] at slot
          cases slot
          exact hit hit₀)
        exact ⟨index, kv', by simp [lookupProbe, taken, hit, lookup], found, hit'⟩

end Probe

section Invariant
variable {table : HashTable α}

theorem Probed.setEntry (probed : Probed table) {index : Nat} {key : CStr}
    (reach : ∃ d < MAX_CHAIN_LENGTH, (hashtableHashInt table key + d) % table.tableSize = index) (val : α) :
    Probed (setEntry table index key val) := by
  intro i kv found
  rw [hashtableHashInt_of_tableSize (tableSize_setEntry table index key val), tableSize_setEntry]
  simp only [TrieDB.setEntry, List.getElem?_set] at found
  split_ifs at found with here
  · cases found
    exact here ▸ reach
  · exact probed i kv found

theorem Probed.hashtableDel (probed : Probed table) (key : CStr) : Probed (hashtableDel table key).1 := by
  unfold TrieDB.hashtableDel
  split
  · next index lookup =>
    intro i kv found
    have same : HashTable.tableSize ⟨table.entries.set index none, table.size - 1⟩ = table.tableSize := by
      simp [HashTable.tableSize]
    rw [hashtableHashInt_of_tableSize same, same]
    simp only [List.getElem?_set] at found
    split_ifs at found with here
    · cases found
    · exact probed i kv found
  · exact probed

theorem probed_replicate (size n : Nat) : Probed (⟨List.replicate size none, n⟩ : HashTable α) := by
  intro i kv found
  simp only [List.getElem?_replicate] at found
  split_ifs at found
  cases found

theorem hashtablePut_go_probed :
    ∀ (fuel : Nat) (table table' : HashTable α) (key : CStr) (val : α),
      Probed table → hashtablePut.go fuel table key val = some table' → Probed table' := by
  intro fuel
  induction fuel with
  | zero => intro table table' key val _ put; cases put
  | succ fuel ih =>
    intro table table' key val probed put
    simp only [hashtablePut.go] at put
    split at put
    · next index hash =>
      cases put
      unfold hashtableHash at hash
      split_ifs at hash
      exact probed.setEntry (hashProbe_within _ _ _ hash) val
    · obtain ⟨rehashed, run, rest⟩ := Option.bind_eq_some_iff.mp put
      have again := @OpRun.run_preserves _ _ _ (Probed (α := α))
        (fun t e t' inv step => by
          cases e with
          | none => cases step; exact inv
          | some kv => exact ih t t' kv.1 kv.2 inv step)
        table.entries _ rehashed (probed_replicate _ _) run
      exact ih rehashed table' key val again rest

theorem probed_of_run (ops : List (HashOp α)) {table : HashTable α}
    (run : OpRun.run hashStep hashtableNew ops = some table) : Probed table := by
  refine OpRun.run_preserves (fun t op t' probed step => ?_) ops _ _ (probed_replicate _ _) run
  cases op with
  | put key val => exact hashtablePut_go_probed maxRehash t t' key val probed step
  | del key =>
    cases step
    exact probed.hashtableDel key

end Invariant

section Values
variable {table table' : HashTable α}

theorem hashtableGet_mem {key : CStr} {val : α} (found : hashtableGet table key = some val) :
    ∃ k, some (k, val) ∈ table.entries := by
  obtain ⟨index, lookup, slot⟩ := Option.bind_eq_some_iff.mp found
  obtain ⟨kv, taken⟩ := lookupProbe_taken table key _ _ index lookup
  rw [taken, Option.bind_some, Option.map_some, Option.some.injEq] at slot
  subst slot
  exact ⟨kv.1, List.mem_of_getElem? taken⟩

theorem hashtablePut_go_values (P : α → Prop) :
    ∀ (fuel : Nat) (table table' : HashTable α) (key : CStr) (val : α),
      (∀ kv, some kv ∈ table.entries → P kv.2) → P val → hashtablePut.go fuel table key val = some table' →
      ∀ kv, some kv ∈ table'.entries → P kv.2 := by
  intro fuel
  induction fuel with
  | zero => intro table table' key val _ _ put; cases put
  | succ fuel ih =>
    intro table table' key val old new put
    simp only [hashtablePut.go] at put
    split at put
    · cases put
      intro kv mem
      rcases List.mem_or_eq_of_mem_set mem with before | stored
      · exact old kv before
      · cases stored
        exact new
    · obtain ⟨rehashed, run, rest⟩ := Option.bind_eq_some_iff.mp put
      have fresh : ∀ kv, some kv ∈ (⟨List.replicate (2 * table.tableSize) none, 0⟩ : HashTable α).entries →
          P kv.2 := fun kv mem => by
        simp at mem
      have again := @OpRun.run_preserves_of_forall _ _ _
        (fun t : HashTable α => ∀ kv, some kv ∈ t.entries → P kv.2) (fun e => ∀ kv, e = some kv → P kv.2)
        (fun t e t' allowed inv step => by
          cases e with
          | none => cases step; exact inv
          | some kv => exact ih t t' kv.1 kv.2 inv (allowed kv rfl) step)
        table.entries _ rehashed (fun e mem kv same => old kv (same ▸ mem)) fresh run
      exact ih rehashed table' key val again new rest

theorem hashtablePut_values (P : α → Prop) {key : CStr} {val : α} (old : ∀ kv, some kv ∈ table.entries → P kv.2)
    (new : P val) (put : hashtablePut table key val = some table') : ∀ kv, some kv ∈ table'.entries → P kv.2 :=
  hashtablePut_go_values P maxRehash table table' key val old new put

end Values

/-- After every run of puts and deletes from `hashtable_new`, `hashtable_get`
finds every key the table holds: it answers the value of a stored key that
the looked-up key matches over its own length, which is the key itself or one
it starts, up to case. -/
theorem hashtableGet_of_stored (ops : List (HashOp α)) {table : HashTable α}
    (run : OpRun.run hashStep hashtableNew ops = some table) {kv : CStr × α} (stored : some kv ∈ table.entries) :
    ∃ kv', hashtableGet table kv.1 = some kv'.2 ∧ some kv' ∈ table.entries ∧
      streq kv'.1 kv.1 kv.1.length = true := by
  obtain ⟨i, slot⟩ := List.mem_iff_getElem?.mp stored
  obtain ⟨d, below, reach⟩ := probed_of_run ops run i kv slot
  have inside : hashtableHashInt table kv.1 < table.tableSize :=
    Nat.mod_lt _ (Nat.zero_lt_of_lt (List.getElem?_eq_some_iff.mp slot).1)
  obtain ⟨index, kv', lookup, found, hit⟩ :=
    lookupProbe_reaches MAX_CHAIN_LENGTH _ d below inside kv (reach ▸ slot) (strncaseEq_self kv.1.bytes)
  refine ⟨kv', ?_, List.mem_of_getElem? found, hit⟩
  simp [hashtableGet, hashtableLookup, lookup, found]

theorem hashtableGet_of_stored_after_del :
    ∃ table, OpRun.run hashStep (hashtableNew : HashTable Nat)
        [.put ⟨[97], by decide⟩ 1, .put ⟨[98], by decide⟩ 2, .del ⟨[97], by decide⟩, .put ⟨[99], by decide⟩ 3] =
        some table ∧ some (⟨[98], by decide⟩, 2) ∈ table.entries ∧
      ∃ kv', hashtableGet table ⟨[98], by decide⟩ = some kv'.2 ∧ some kv' ∈ table.entries ∧
        streq kv'.1 ⟨[98], by decide⟩ (CStr.length ⟨[98], by decide⟩) = true :=
  ⟨_, rfl, by decide, @hashtableGet_of_stored _
    [.put ⟨[97], by decide⟩ 1, .put ⟨[98], by decide⟩ 2, .del ⟨[97], by decide⟩, .put ⟨[99], by decide⟩ 3]
    _ rfl (⟨[98], by decide⟩, 2) (by decide)⟩

end TrieDB
