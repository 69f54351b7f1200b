import TrieDB.Expiry
import TrieDB.Clients

/-!
What one run of `expire_keys` does, for every vector of entries that are the
bindings `ttl_handler` made them for. The loop deletes an expired entry at `i`
and goes on at `i + 1`, where `vector_delete` has moved the entry after it: it
looks at every other entry, steps over the ones between, and stops at the first
one it looks at that has time left. Each entry it deletes loses its binding and
its item, and the keyspace one key.

Neither `del_handler` nor `put_handler` looks at `expiring_keys`, so an entry
can outlive its binding: after a DEL it names a freed item, which the next
sweep reads, and after a second PUT it names the old item, whose deadline then
deletes the new value.
-/
namespace TrieDB

section Sweep
variable {α : Type} (expired : α → Bool)

def sweepKept : List α → List α
  | a :: b :: rest => if expired a then b :: sweepKept rest else a :: b :: rest
  | [a] => if expired a then [] else [a]
  | [] => []

def sweepRemoved : List α → List α
  | a :: _ :: rest => if expired a then a :: sweepRemoved rest else []
  | [a] => if expired a then [a] else []
  | [] => []

theorem sweepKept_of_live {a : α} {l : List α} (live : expired a = false) : sweepKept expired (a :: l) = a :: l := by
  cases l <;> simp [sweepKept, live]

theorem sweepRemoved_of_live {a : α} {l : List α} (live : expired a = false) : sweepRemoved expired (a :: l) = [] := by
  cases l <;> simp [sweepRemoved, live]

theorem expired_of_mem_sweepRemoved : ∀ {l : List α} {a : α}, a ∈ sweepRemoved expired l → expired a = true
  | a :: b :: rest, x, mem => by
    unfold sweepRemoved at mem
    split_ifs at mem with hit
    · rcases List.mem_cons.mp mem with rfl | mem
      · exact hit
      · exact expired_of_mem_sweepRemoved mem
    · cases mem
  | [a], x, mem => by
    unfold sweepRemoved at mem
    split_ifs at mem with hit
    · rw [List.mem_singleton.mp mem]
      exact hit
    · cases mem

end Sweep

section Congr
variable {α : Type} {f g : α → Bool}

theorem sweepKept_congr : ∀ {l : List α}, (∀ a ∈ l, f a = g a) → sweepKept f l = sweepKept g l
  | a :: b :: rest, agree => by
    have rest_agree : ∀ x ∈ rest, f x = g x := fun x mem => agree x (by simp [mem])
    simp only [sweepKept, agree a (by simp), sweepKept_congr rest_agree]
  | [a], agree => by simp only [sweepKept, agree a (by simp)]
  | [], _ => rfl

theorem sweepRemoved_congr : ∀ {l : List α}, (∀ a ∈ l, f a = g a) → sweepRemoved f l = sweepRemoved g l
  | a :: b :: rest, agree => by
    have rest_agree : ∀ x ∈ rest, f x = g x := fun x mem => agree x (by simp [mem])
    simp only [sweepRemoved, agree a (by simp), sweepRemoved_congr rest_agree]
  | [a], agree => by simp only [sweepRemoved, agree a (by simp)]
  | [], _ => rfl

end Congr

def ExpiringKey.Expired (items : SlotHeap DbItem) (now : Int) (ek : ExpiringKey) : Bool :=
  match items.load ek.item with
  | some item => decide (item.delta now ≤ 0)
  | none => false

theorem ExpiringKey.expired_of_load {items : SlotHeap DbItem} {now : Int} {ek : ExpiringKey} {item : DbItem}
    (load : items.load ek.item = some item) : ek.Expired items now = decide (item.delta now ≤ 0) := by
  simp [ExpiringKey.Expired, load]

/-- The items deleted entries release: `trie_delete` clears a binding, and
frees its item, only for a non-empty key. -/
def clearedItems (removed : List ExpiringKey) : List Nat :=
  (removed.filter fun ek => 0 < ek.key.length).map ExpiringKey.item

theorem clearedItems_append (r₁ r₂ : List ExpiringKey) :
    clearedItems (r₁ ++ r₂) = clearedItems r₁ ++ clearedItems r₂ := by
  simp [clearedItems]

theorem mem_clearedItems_singleton {ek : ExpiringKey} {a : Nat} :
    a ∈ clearedItems [ek] ↔ 0 < ek.key.length ∧ ek.item = a := by
  by_cases nonempty : 0 < ek.key.length <;> simp [clearedItems, nonempty, eq_comm]

theorem item_mem_of_mem_clearedItems {removed : List ExpiringKey} {a : Nat} (mem : a ∈ clearedItems removed) :
    a ∈ removed.map ExpiringKey.item := by
  obtain ⟨ek, kept, rfl⟩ := List.mem_map.mp mem
  exact List.mem_map_of_mem (List.mem_filter.mp kept).1

structure EntriesBound (s : Triedb) (eks : List ExpiringKey) : Prop where
  bound : ∀ ek ∈ eks, s.Holds ek.dataPtr ek.key.bytes ek.item
  distinct : (eks.map ExpiringKey.item).Nodup

theorem entriesBound_iff {s : Triedb} {eks : List ExpiringKey} :
    EntriesBound s eks ↔
      (∀ ek ∈ eks, ((s.database ek.dataPtr).bind fun db => trieNodeSearch db.data.root ek.key.bytes) =
        some ek.item) ∧ (eks.map ExpiringKey.item).Nodup := by
  simp only [Option.bind_eq_some_iff]
  exact ⟨fun entries => ⟨entries.bound, entries.distinct⟩, fun found => ⟨found.1, found.2⟩⟩

instance (s : Triedb) (eks : List ExpiringKey) : Decidable (EntriesBound s eks) :=
  decidable_of_iff _ entriesBound_iff.symm

namespace Triedb

theorem holds_iff_search {s : Triedb} {d : Nat} {k : List UInt8} {a : Nat} :
    s.Holds d k a ↔ ((s.database d).bind fun db => trieNodeSearch db.data.root k) = some a := by
  simp [Holds, Option.bind_eq_some_iff]

structure Removes (s s' : Triedb) (removed : List ExpiringKey) : Prop where
  holds : ∀ d k a, s'.Holds d k a ↔ s.Holds d k a ∧ a ∉ clearedItems removed
  load : ∀ b, s'.items.load b = if b ∈ clearedItems removed then none else s.items.load b
  keyspace : s'.keyspaceSize = s.keyspaceSize - removed.length.toUInt64
  same : s.SameDatabases s'

theorem Removes.refl (s : Triedb) : s.Removes s [] :=
  ⟨fun _ _ _ => by simp [clearedItems], fun _ => by simp [clearedItems], by simp, SameDatabases.refl s⟩

theorem Removes.trans {s₁ s₂ s₃ : Triedb} {r₁ r₂ : List ExpiringKey} (first : s₁.Removes s₂ r₁)
    (second : s₂.Removes s₃ r₂) : s₁.Removes s₃ (r₁ ++ r₂) := by
  refine ⟨fun d k a => ?_, fun b => ?_, ?_, first.same.trans second.same⟩
  · rw [second.holds, first.holds, clearedItems_append, List.mem_append, not_or, and_assoc]
  · rw [second.load, first.load, clearedItems_append]
    by_cases mem₁ : b ∈ clearedItems r₁ <;> by_cases mem₂ : b ∈ clearedItems r₂ <;> simp [mem₁, mem₂]
  · rw [second.keyspace, first.keyspace, List.length_append]
    simp only [Nat.toUInt64_eq, UInt64.ofNat_add]
    apply UInt64.toBitVec_inj.mp
    simp only [UInt64.toBitVec_sub, UInt64.toBitVec_add]
    exact BitVec.sub_sub _ _ _

end Triedb

section Round
variable {s s' : Triedb} {ek : ExpiringKey} {db : Database}

theorem deletedItem_eq_some_iff {trie : Trie Nat} {key : CStr} {a : Nat}
    (bound : trieNodeSearch trie.root key.bytes = some a) (b : Nat) :
    deletedItem trie key = some b ↔ 0 < key.length ∧ a = b := by
  unfold deletedItem
  split_ifs with nonempty <;> simp [nonempty, bound]

theorem live_of_deletedItem (owned : ItemsOwned s) (found : s.database ek.dataPtr = some db)
    (bound : trieNodeSearch db.data.root ek.key.bytes = some ek.item) (b : Nat)
    (cleared : deletedItem db.data ek.key = some b) : (s.items.load b).isSome := by
  obtain ⟨-, rfl⟩ := (deletedItem_eq_some_iff bound b).mp cleared
  exact owned.live _ _ _ ⟨db, found, bound⟩

theorem holds_trieDelete_iff (owned : ItemsOwned s) (found : s.database ek.dataPtr = some db)
    (bound : trieNodeSearch db.data.root ek.key.bytes = some ek.item) (d : Nat) (k : List UInt8) (a : Nat) :
    (if d = ek.dataPtr then trieNodeSearch (trieDelete db.data ek.key).1.root k = some a else s.Holds d k a) ↔
      s.Holds d k a ∧ ¬ (0 < ek.key.length ∧ ek.item = a) := by
  have tries := owned.tries _ _ found
  obtain ⟨-, map, -⟩ := trieDelete_spec db.data ek.key (Or.inr tries.1.madeWith) tries.1.wf
  have elsewhere : ∀ d k, s.Holds d k ek.item → d = ek.dataPtr ∧ k = ek.key.bytes := fun d k holds =>
    owned.unique _ _ _ _ _ holds ⟨db, found, bound⟩
  by_cases here : d = ek.dataPtr
  · subst here
    have holds_iff : s.Holds ek.dataPtr k a ↔ trieNodeSearch db.data.root k = some a := by
      simp [Triedb.Holds, found]
    rw [if_pos rfl, holds_iff, map]
    by_cases empty : ek.key.bytes = []
    · simp [empty, length_pos_iff]
    · rw [if_neg empty]
      by_cases atKey : k = ek.key.bytes
      · subst atKey
        simp [bound, (length_pos_iff ek.key).mpr empty]
      · rw [Function.update_of_ne atKey]
        refine ⟨fun held => ⟨held, fun cleared => atKey ?_⟩, And.left⟩
        exact (elsewhere _ _ (cleared.2 ▸ (holds_iff.mpr held))).2
  · rw [if_neg here]
    exact ⟨fun held => ⟨held, fun cleared => here (elsewhere _ _ (cleared.2 ▸ held)).1⟩, And.left⟩

theorem removes_of_trieDeleteItem (owned : ItemsOwned s) (found : s.database ek.dataPtr = some db)
    (bound : trieNodeSearch db.data.root ek.key.bytes = some ek.item) {items : SlotHeap DbItem} {ret : Bool}
    (removed : trieDeleteItem s.items db.data ek.key = some ((trieDelete db.data ek.key).1, items, ret))
    (same : s'.databases = s.databases.set ek.dataPtr { db with data := (trieDelete db.data ek.key).1 })
    (heap : s'.items = items) (dbs : s'.dbs = s.dbs) (keyspace : s'.keyspaceSize = s.keyspaceSize - 1) :
    s.Removes s' [ek] := by
  obtain ⟨items', removed', load⟩ := trieDeleteItem_of_live (live_of_deletedItem owned found bound)
  have heap' : s'.items = items' := by
    rw [removed'] at removed
    simp only [Option.some.injEq, Prod.mk.injEq] at removed
    rw [heap, removed.2.1]
  refine ⟨fun d k a => ?_, fun b => ?_, ?_, Triedb.sameDatabases_of_set same dbs⟩
  · rw [ItemsOwned.holds_of_set found same, holds_trieDelete_iff owned found bound, mem_clearedItems_singleton]
  · simp only [heap', load, deletedItem_eq_some_iff bound, mem_clearedItems_singleton]
  · rw [keyspace]
    rfl

end Round

section Loop
variable {now : Int} {s : Triedb} {i : Nat}

theorem expireKeysLoop_of_size_le (fuel : Nat) (past : s.expiringKeys.size ≤ i) :
    expireKeysLoop now fuel s i = some s := by
  cases fuel <;> simp [expireKeysLoop, Nat.not_lt.mpr past]

theorem expireKeysLoop_of_live {fuel : Nat} {ek : ExpiringKey} (get : s.expiringKeys.items[i]? = some ek)
    (live : ek.Expired s.items now = false) (held : (s.items.load ek.item).isSome) :
    expireKeysLoop now (fuel + 1) s i = some s := by
  have inside : i < s.expiringKeys.size := (List.getElem?_eq_some_iff.mp get).1
  obtain ⟨item, load⟩ := Option.isSome_iff_exists.mp held
  rw [ExpiringKey.expired_of_load load, decide_eq_false_iff_not, not_le] at live
  simp [expireKeysLoop, inside, vectorGet, get, load, live]

theorem expireKeysLoop_of_expired {fuel : Nat} {ek : ExpiringKey} {db : Database} {t : Trie Nat}
    {items : SlotHeap DbItem} {ret : Bool} (get : s.expiringKeys.items[i]? = some ek)
    (hit : ek.Expired s.items now = true) (found : s.database ek.dataPtr = some db)
    (removed : trieDeleteItem s.items db.data ek.key = some (t, items, ret)) :
    expireKeysLoop now (fuel + 1) s i =
      expireKeysLoop now fuel
        { s.setDatabase ek.dataPtr { db with data := t } with
          items
          expiringKeys := vectorDelete s.expiringKeys i
          keyspaceSize := s.keyspaceSize - 1 } (i + 1) := by
  have inside : i < s.expiringKeys.size := (List.getElem?_eq_some_iff.mp get).1
  cases load : s.items.load ek.item with
  | none => simp [ExpiringKey.Expired, load] at hit
  | some item =>
    rw [ExpiringKey.expired_of_load load, decide_eq_true_eq] at hit
    simp [expireKeysLoop, inside, vectorGet, get, load, not_lt.mpr hit, found, removed]

end Loop

namespace EntriesBound
variable {s s' : Triedb}

theorem of_removes {removed rest : List ExpiringKey} (entries : EntriesBound s (removed ++ rest))
    (removes : s.Removes s' removed) :
    EntriesBound s' rest ∧ ∀ ek ∈ rest, s'.items.load ek.item = s.items.load ek.item := by
  have distinct := entries.distinct
  rw [List.map_append, List.nodup_append] at distinct
  have kept : ∀ ek ∈ rest, ek.item ∉ clearedItems removed := fun ek mem cleared =>
    distinct.2.2 _ (item_mem_of_mem_clearedItems cleared) _ (List.mem_map_of_mem mem) rfl
  refine ⟨⟨fun ek mem => ?_, distinct.2.1⟩, fun ek mem => ?_⟩
  · exact (removes.holds _ _ _).mpr ⟨entries.bound ek (List.mem_append_right _ mem), kept ek mem⟩
  · rw [removes.load, if_neg (kept ek mem)]

theorem tail {a : ExpiringKey} {rest : List ExpiringKey} (entries : EntriesBound s (a :: rest)) :
    EntriesBound s rest :=
  ⟨fun ek mem => entries.bound ek (List.mem_cons_of_mem a mem), (List.nodup_cons.mp entries.distinct).2⟩

end EntriesBound

section Loop
variable {now : Int}

theorem expireKeysLoop_round {s : Triedb} {pre rest : List ExpiringKey} {a : ExpiringKey} (owned : ItemsOwned s)
    (entries : EntriesBound s (a :: rest)) (items : s.expiringKeys.items = pre ++ a :: rest)
    (hit : a.Expired s.items now = true) (fuel : Nat) :
    ∃ s₁, expireKeysLoop now (fuel + 1) s pre.length = expireKeysLoop now fuel s₁ (pre.length + 1) ∧
      s₁.expiringKeys.items = pre ++ rest ∧ ItemsOwned s₁ ∧ EntriesBound s₁ rest ∧ s.Removes s₁ [a] ∧
      ∀ ek ∈ rest, ek.Expired s₁.items now = ek.Expired s.items now := by
  obtain ⟨db, found, bound⟩ := entries.bound a (List.mem_cons_self ..)
  obtain ⟨items₁, removed, -⟩ := trieDeleteItem_of_live (live_of_deletedItem owned found bound)
  have get : s.expiringKeys.items[pre.length]? = some a := by simp [items]
  have inside : pre.length < s.expiringKeys.size := (List.getElem?_eq_some_iff.mp get).1
  refine ⟨_, expireKeysLoop_of_expired get hit found removed, ?_⟩
  have deleted : (vectorDelete s.expiringKeys pre.length).items = pre ++ rest := by
    rw [vectorDelete_items _ _ inside, items, List.eraseIdx_append_of_length_le (le_refl _), Nat.sub_self,
      List.eraseIdx_cons_zero]
  have removes : s.Removes { s.setDatabase a.dataPtr { db with data := (trieDelete db.data a.key).1 } with
      items := items₁, expiringKeys := vectorDelete s.expiringKeys pre.length,
      keyspaceSize := s.keyspaceSize - 1 } [a] :=
    removes_of_trieDeleteItem owned found bound removed rfl rfl rfl rfl
  obtain ⟨entries₁, load₁⟩ := EntriesBound.of_removes (entries : EntriesBound s ([a] ++ rest)) removes
  exact ⟨deleted, owned.of_trieDeleteItem found removed rfl rfl, entries₁, removes, fun ek mem => by
    simp only [ExpiringKey.Expired, load₁ ek mem]⟩

theorem expireKeysLoop_sweep :
    ∀ (L pre : List ExpiringKey) {fuel : Nat} {s : Triedb}, ItemsOwned s → EntriesBound s L →
      s.expiringKeys.items = pre ++ L → L.length ≤ fuel →
      ∃ s', expireKeysLoop now fuel s pre.length = some s' ∧
        s'.expiringKeys.items = pre ++ sweepKept (ExpiringKey.Expired s.items now) L ∧
        s.Removes s' (sweepRemoved (ExpiringKey.Expired s.items now) L)
  | [], pre, fuel, s, _, _, items, _ => by
    refine ⟨s, expireKeysLoop_of_size_le fuel (by simp [Vector.size, items]), by simp [items, sweepKept], ?_⟩
    exact Triedb.Removes.refl s
  | _ :: _, _, 0, _, _, _, _, short => absurd short (by simp)
  | a :: rest, pre, fuel + 1, s, owned, entries, items, long => by
    have get : s.expiringKeys.items[pre.length]? = some a := by simp [items]
    cases hit : a.Expired s.items now
    · have held := owned.live _ _ _ (entries.bound a (List.mem_cons_self ..))
      refine ⟨s, expireKeysLoop_of_live get hit held, ?_, ?_⟩
      · rw [sweepKept_of_live _ hit, items]
      · rw [sweepRemoved_of_live _ hit]
        exact Triedb.Removes.refl s
    · obtain ⟨s₁, round, items₁, owned₁, entries₁, removes, agree⟩ :=
        expireKeysLoop_round owned entries items hit fuel
      rw [round]
      cases rest with
      | nil =>
        refine ⟨s₁, expireKeysLoop_of_size_le fuel (by simp [Vector.size, items₁]), ?_, ?_⟩
        · simp [items₁, sweepKept, hit]
        · simpa [sweepRemoved, hit] using removes
      | cons b rest =>
        have items₂ : s₁.expiringKeys.items = (pre ++ [b]) ++ rest := by simp [items₁]
        have agree' : ∀ ek ∈ rest, ek.Expired s₁.items now = ek.Expired s.items now :=
          fun ek mem => agree ek (List.mem_cons_of_mem b mem)
        have short : rest.length ≤ fuel := by
          simp only [List.length_cons] at long
          omega
        obtain ⟨s', swept, kept, removes'⟩ :=
          expireKeysLoop_sweep rest (pre ++ [b]) owned₁ entries₁.tail items₂ short
        rw [List.length_append, List.length_singleton] at swept
        refine ⟨s', swept, ?_, ?_⟩
        · simp [kept, sweepKept, hit, sweepKept_congr agree']
        · simpa [sweepRemoved, hit, sweepRemoved_congr agree'] using removes.trans removes'

/-- `expire_keys` over entries that are bindings of the instance: the vector
keeps what `sweepKept` keeps, and the instance loses the bindings, the items
and the keyspace count of the entries `sweepRemoved` deletes, none of which had
time left. -/
theorem expireKeys_sweep {s : Triedb} (owned : ItemsOwned s) (entries : EntriesBound s s.expiringKeys.items)
    (now : Int) :
    ∃ s', expireKeys s now = some s' ∧
      s'.expiringKeys.items = sweepKept (ExpiringKey.Expired s.items now) s.expiringKeys.items ∧
      s.Removes s' (sweepRemoved (ExpiringKey.Expired s.items now) s.expiringKeys.items) ∧
      ∀ ek ∈ sweepRemoved (ExpiringKey.Expired s.items now) s.expiringKeys.items,
        ek.Expired s.items now = true := by
  suffices swept : ∃ s', expireKeys s now = some s' ∧
      s'.expiringKeys.items = sweepKept (ExpiringKey.Expired s.items now) s.expiringKeys.items ∧
      s.Removes s' (sweepRemoved (ExpiringKey.Expired s.items now) s.expiringKeys.items) by
    obtain ⟨s', done, kept, removes⟩ := swept
    exact ⟨s', done, kept, removes, fun ek mem => expired_of_mem_sweepRemoved _ mem⟩
  unfold expireKeys
  split_ifs with empty
  · have none : s.expiringKeys.items = [] := List.eq_nil_of_length_eq_zero empty
    exact ⟨s, rfl, by simp [none, sweepKept], by simpa [none, sweepRemoved] using Triedb.Removes.refl s⟩
  · exact expireKeysLoop_sweep s.expiringKeys.items [] owned entries rfl le_rfl

theorem expireKeys_sweep_ttl_zero :
    ∃ srv, (startState.bind fun s =>
        OpRun.run (serverStep ⟨CStr.empty, 0, 0, 0, CStr.empty, CStr.empty, CStr.empty, 0, 0, 0, 0⟩
          ⟨0, 0, 0, 0, 0, 0, 0, 0⟩) s
          [.accept, .request 0 0 0 (.put 0x10 (-1) (CStr.ofBytes [97]) (CStr.ofBytes [49])),
            .request 0 0 0 (.put 0x10 (-1) (CStr.ofBytes [98]) (CStr.ofBytes [50])),
            .request 0 0 0 (.ttl 0x40 0 (CStr.ofBytes [97])),
            .request 0 0 0 (.ttl 0x40 0 (CStr.ofBytes [98]))]) = some srv ∧
      ItemsOwned srv.triedb ∧ EntriesBound srv.triedb srv.triedb.expiringKeys.items ∧
      ∃ s', expireKeys srv.triedb 1 = some s' ∧
        s'.expiringKeys.items = sweepKept (ExpiringKey.Expired srv.triedb.items 1) srv.triedb.expiringKeys.items ∧
        srv.triedb.Removes s' (sweepRemoved (ExpiringKey.Expired srv.triedb.items 1) srv.triedb.expiringKeys.items) ∧
        ∀ ek ∈ sweepRemoved (ExpiringKey.Expired srv.triedb.items 1) srv.triedb.expiringKeys.items,
          ek.Expired srv.triedb.items 1 = true := by
  obtain ⟨srv, ran, entries⟩ : ∃ srv, (startState.bind fun s =>
      OpRun.run (serverStep ⟨CStr.empty, 0, 0, 0, CStr.empty, CStr.empty, CStr.empty, 0, 0, 0, 0⟩
        ⟨0, 0, 0, 0, 0, 0, 0, 0⟩) s
        [.accept, .request 0 0 0 (.put 0x10 (-1) (CStr.ofBytes [97]) (CStr.ofBytes [49])),
          .request 0 0 0 (.put 0x10 (-1) (CStr.ofBytes [98]) (CStr.ofBytes [50])),
          .request 0 0 0 (.ttl 0x40 0 (CStr.ofBytes [97])),
          .request 0 0 0 (.ttl 0x40 0 (CStr.ofBytes [98]))]) = some srv ∧
      EntriesBound srv.triedb srv.triedb.expiringKeys.items := ⟨_, rfl, by decide⟩
  have owned := itemsOwned_of_run _ ran
  exact ⟨srv, ran, owned, entries, expireKeys_sweep owned entries 1⟩

end Loop

section Stale
variable {s s' : Triedb} {ek : ExpiringKey} {rest : List ExpiringKey}

theorem expireKeys_of_released_head (items : s.expiringKeys.items = ek :: rest)
    (released : s.items.load ek.item = none) (now : Int) : expireKeys s now = none := by
  have size : s.expiringKeys.size = rest.length + 1 := by simp [Vector.size, items]
  simp [expireKeys, size, expireKeysLoop, vectorGet, items, released]

/-- `del_handler` never looks at `expiring_keys`. A plain DEL of the key of
the first entry succeeds and frees the entry's item through
`trie_node_destructor`, and the entry stays: the next `expire_keys`, at any
time, reads the freed `db_item`. -/
theorem expireKeys_after_del_reads_freed_item {c : Client} {header : UInt8} {reply : Bstring}
    (owned : ItemsOwned s) (bound : s.Holds ek.dataPtr ek.key.bytes ek.item)
    (items : s.expiringKeys.items = ek :: rest) (client : c.db = ek.dataPtr)
    (plain : headerPrefix header = false) (nonempty : 0 < ek.key.length)
    (del : delHandler s c header ek.key = some (s', reply)) (now : Int) :
    reply = ackReplies OK ∧ s'.expiringKeys = s.expiringKeys ∧ expireKeys s' now = none := by
  obtain ⟨db, found, search⟩ := bound
  have tries := owned.tries _ _ found
  obtain ⟨items', removed, loads⟩ := trieDeleteItem_of_live (live_of_deletedItem owned found search)
  have removal : databaseRemove s.items db ek.key =
      some ({ db with data := (trieDelete db.data ek.key).1 }, items', (trieDelete db.data ek.key).2) := by
    simp [databaseRemove, removed]
  have reported : (trieDelete db.data ek.key).2 = true := by
    simp [trieDelete_snd_of_made tries.1.madeWith, nonempty, search]
  rw [delHandler_of_plain plain (client ▸ found) removal, reported, if_pos rfl, if_pos rfl] at del
  cases del
  have freed : items'.load ek.item = none := by
    rw [loads, if_pos ((deletedItem_eq_some_iff search ek.item).mpr ⟨nonempty, rfl⟩)]
  exact ⟨rfl, rfl, expireKeys_of_released_head (by exact items) freed now⟩

/-- `put_handler` on a bound key binds it to a new item and leaves the old one
allocated, and the key's entry in `expiring_keys` still names the old one.
Once the old deadline has passed, the sweep deletes the key, whatever the TTL
of the new PUT: a value put again without a TTL is lost. -/
theorem expireKeys_deletes_key_put_again {c : Client} {header : UInt8} {ttl : Int32} {val : CStr}
    {reply : Bstring} {now₀ now : Int} (owned : ItemsOwned s) (bound : s.Holds ek.dataPtr ek.key.bytes ek.item)
    (items : s.expiringKeys.items = [ek]) (client : c.db = ek.dataPtr) (plain : headerPrefix header = false)
    (nonempty : 0 < ek.key.length) (hit : ek.Expired s.items now = true)
    (put : putHandler s c now₀ header ttl ek.key val = some (s', reply)) :
    ∃ s'', expireKeys s' now = some s'' ∧ s''.expiringKeys.items = [] ∧
      ∀ a, ¬ s''.Holds ek.dataPtr ek.key.bytes a := by
  obtain ⟨db, found, search⟩ := bound
  have tries := owned.tries _ _ found
  obtain ⟨trie, ins, stored⟩ := putHandler_of_plain plain (client ▸ found) tries.1.wf now₀ ttl ek.key val
  obtain ⟨trie', ins', made, wf, map, -⟩ := trieInsert_spec db.data ek.key s.items.slots.length tries.1.wf
  cases ins.symm.trans ins'
  obtain ⟨s₁, stored₁, items₁, database₁, expiring₁⟩ : ∃ s₁,
      putHandler s c now₀ header ttl ek.key val = some (s₁, ackReplies OK) ∧
      s₁.items = (s.items.alloc ⟨ttl.toInt16, val, now₀, now₀⟩).2 ∧
      s₁.database ek.dataPtr = some { db with data := trie } ∧ s₁.expiringKeys = s.expiringKeys :=
    ⟨_, stored, rfl, by rw [← client]; exact database_setDatabase_self (client ▸ found) _, rfl⟩
  obtain ⟨rfl, -⟩ : s' = s₁ ∧ reply = ackReplies OK := by simpa using put.symm.trans stored₁
  have fresh : trieNodeSearch trie.root ek.key.bytes = some s.items.slots.length := by
    rw [map, Function.update_self]
  have below : ek.item < s.items.slots.length := by
    obtain ⟨item, loaded⟩ := Option.isSome_iff_exists.mp (owned.live _ _ _ ⟨db, found, search⟩)
    exact SlotHeap.lt_of_load loaded
  have old : s'.items.load ek.item = s.items.load ek.item := by
    rw [items₁, SlotHeap.load_alloc, if_neg (Nat.ne_of_lt below)]
  have hit' : ek.Expired s'.items now = true := by
    rw [← hit]
    simp only [ExpiringKey.Expired, old]
  have live : ∀ b, deletedItem trie ek.key = some b → (s'.items.load b).isSome := fun b cleared => by
    obtain ⟨-, rfl⟩ := (deletedItem_eq_some_iff fresh b).mp cleared
    rw [items₁, SlotHeap.load_alloc, if_pos rfl]
    rfl
  obtain ⟨items', removed, -⟩ := trieDeleteItem_of_live live
  have size : s'.expiringKeys.size = 1 := by simp [Vector.size, expiring₁, items]
  have get : s'.expiringKeys.items[0]? = some ek := by simp [expiring₁, items]
  have deleted : (vectorDelete s'.expiringKeys (0 : Nat)).items = [] := by
    rw [vectorDelete_items _ _ (by omega), expiring₁, items]
    rfl
  obtain ⟨-, unbound, -⟩ := trieDelete_spec trie ek.key (Or.inr (made.trans tries.1.madeWith)) wf
  obtain ⟨s'', swept, kept, database₂⟩ : ∃ s'', expireKeys s' now = some s'' ∧ s''.expiringKeys.items = [] ∧
      s''.database ek.dataPtr = some { db with data := (trieDelete trie ek.key).1 } :=
    ⟨_, by
      rw [expireKeys, if_neg (by omega), size, expireKeysLoop_of_expired get hit' database₁ removed]
      exact expireKeysLoop_of_size_le 0 (by simp only [Vector.size]; rw [deleted]; simp),
      by exact deleted, by exact database_setDatabase_self database₁ _⟩
  refine ⟨s'', swept, kept, fun a held => ?_⟩
  obtain ⟨db', here, held⟩ := held
  rw [database₂, Option.some.injEq] at here
  subst here
  rw [unbound, if_neg (by simpa [length_pos_iff] using nonempty), Function.update_self] at held
  cases held

theorem expireKeys_deletes_key_put_again_ttl_five :
    ∃ srv, (startState.bind fun s =>
        OpRun.run (serverStep ⟨CStr.empty, 0, 0, 0, CStr.empty, CStr.empty, CStr.empty, 0, 0, 0, 0⟩
          ⟨0, 0, 0, 0, 0, 0, 0, 0⟩) s
          [.accept, .request 0 0 0 (.put 0x10 (-1) (CStr.ofBytes [97]) (CStr.ofBytes [49])),
            .request 0 0 0 (.ttl 0x40 5 (CStr.ofBytes [97]))]) = some srv ∧
      ItemsOwned srv.triedb ∧ srv.triedb.Holds 0 [97] 0 ∧
      srv.triedb.expiringKeys.items = [⟨0, 0, CStr.ofBytes [97]⟩] ∧
      ExpiringKey.Expired srv.triedb.items 10 ⟨0, 0, CStr.ofBytes [97]⟩ = true ∧
      ∃ s' reply, putHandler srv.triedb ⟨0⟩ 1 0x10 (-1) (CStr.ofBytes [97]) (CStr.ofBytes [50]) = some (s', reply) ∧
        ∃ s'', expireKeys s' 10 = some s'' ∧ s''.expiringKeys.items = [] ∧ ∀ a, ¬ s''.Holds 0 [97] a := by
  obtain ⟨srv, ran, bound, items, hit, s', reply, put⟩ : ∃ srv, (startState.bind fun s =>
      OpRun.run (serverStep ⟨CStr.empty, 0, 0, 0, CStr.empty, CStr.empty, CStr.empty, 0, 0, 0, 0⟩
        ⟨0, 0, 0, 0, 0, 0, 0, 0⟩) s
        [.accept, .request 0 0 0 (.put 0x10 (-1) (CStr.ofBytes [97]) (CStr.ofBytes [49])),
          .request 0 0 0 (.ttl 0x40 5 (CStr.ofBytes [97]))]) = some srv ∧
      srv.triedb.Holds 0 [97] 0 ∧ srv.triedb.expiringKeys.items = [⟨0, 0, CStr.ofBytes [97]⟩] ∧
      ExpiringKey.Expired srv.triedb.items 10 ⟨0, 0, CStr.ofBytes [97]⟩ = true ∧
      ∃ s' reply, putHandler srv.triedb ⟨0⟩ 1 0x10 (-1) (CStr.ofBytes [97]) (CStr.ofBytes [50]) = some (s', reply) :=
    ⟨_, rfl, Triedb.holds_iff_search.mpr rfl, rfl, rfl, _, _, rfl⟩
  have owned := itemsOwned_of_run _ ran
  exact ⟨srv, ran, owned, bound, items, hit, s', reply, put,
    expireKeys_deletes_key_put_again owned bound items rfl (by decide) (by decide) hit put⟩

theorem expireKeys_after_del_reads_freed_item_ttl :
    ∃ srv, (startState.bind fun s =>
        OpRun.run (serverStep ⟨CStr.empty, 0, 0, 0, CStr.empty, CStr.empty, CStr.empty, 0, 0, 0, 0⟩
          ⟨0, 0, 0, 0, 0, 0, 0, 0⟩) s
          [.accept, .request 0 0 0 (.put 0x10 (-1) (CStr.ofBytes [97]) (CStr.ofBytes [49])),
            .request 0 0 0 (.ttl 0x40 5 (CStr.ofBytes [97]))]) = some srv ∧
      ItemsOwned srv.triedb ∧ srv.triedb.Holds 0 [97] 0 ∧
      srv.triedb.expiringKeys.items = [⟨0, 0, CStr.ofBytes [97]⟩] ∧
      ∃ s' reply, delHandler srv.triedb ⟨0⟩ 0x30 (CStr.ofBytes [97]) = some (s', reply) ∧
        reply = ackReplies OK ∧ s'.expiringKeys = srv.triedb.expiringKeys ∧ expireKeys s' 7 = none := by
  obtain ⟨srv, ran, bound, items, s', reply, del⟩ : ∃ srv, (startState.bind fun s =>
      OpRun.run (serverStep ⟨CStr.empty, 0, 0, 0, CStr.empty, CStr.empty, CStr.empty, 0, 0, 0, 0⟩
        ⟨0, 0, 0, 0, 0, 0, 0, 0⟩) s
        [.accept, .request 0 0 0 (.put 0x10 (-1) (CStr.ofBytes [97]) (CStr.ofBytes [49])),
          .request 0 0 0 (.ttl 0x40 5 (CStr.ofBytes [97]))]) = some srv ∧
      srv.triedb.Holds 0 [97] 0 ∧ srv.triedb.expiringKeys.items = [⟨0, 0, CStr.ofBytes [97]⟩] ∧
      ∃ s' reply, delHandler srv.triedb ⟨0⟩ 0x30 (CStr.ofBytes [97]) = some (s', reply) :=
    ⟨_, rfl, Triedb.holds_iff_search.mpr rfl, rfl, _, _, rfl⟩
  have owned := itemsOwned_of_run _ ran
  exact ⟨srv, ran, owned, bound, items, s', reply, del,
    expireKeys_after_del_reads_freed_item owned bound items rfl (by decide) (by decide) del 7⟩

end Stale

end TrieDB
