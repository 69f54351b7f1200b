import TrieDB.Store
import TrieDB.PrefixUpdate
import TrieDB.TriePrefix
import TrieDB.Replies

/-!
The items of the databases over every run of the server. The tries hold item
addresses into the one heap of `db_item`s; in every state the server reaches,
each address a trie holds is held at one key of one database only, and is
live. Insertions bind a new item, removals release exactly the items of the
keys they unbind, and the other handlers rewrite items in place. The prefix
updates of every reachable state therefore meet the conditions under which
they touch exactly the subtree of their prefix.
-/
namespace TrieDB

section TrieItems
variable {δ : Type} {n : TrieNode δ}

theorem exists_search_of_mem_trieNodeItems (keyed : NodeKeyed n) {a : δ}
    (mem : a ∈ trieNodeItems n) : ∃ k, trieNodeSearch n k = some a := by
  obtain ⟨e, entry, rfl⟩ := List.mem_map.mp ((trieNodeItems_perm n).subset mem)
  exact ⟨e.1, trieNodeEntries_bound n keyed e.1 e.2 entry⟩

theorem nodup_trieNodeItems (keyed : NodeKeyed n)
    (unique : ∀ k k' a, trieNodeSearch n k = some a → trieNodeSearch n k' = some a → k = k') :
    (trieNodeItems n).Nodup := by
  rw [(trieNodeItems_perm n).nodup_iff]
  refine List.Nodup.map_on ?_ (List.Nodup.of_map Prod.fst (trieNodeEntries_nodup n keyed))
  intro x xMem y yMem same
  have xBound := trieNodeEntries_bound n keyed x.1 x.2 xMem
  have yBound := trieNodeEntries_bound n keyed y.1 y.2 yMem
  rw [same] at xBound
  exact Prod.ext (unique _ _ _ xBound yBound) same

theorem exists_search_of_mem_prefixDeletedItems {trie : Trie Nat} (keyed : NodeKeyed trie.root)
    {pfx : CStr} {a : Nat} (mem : a ∈ prefixDeletedItems trie pfx) :
    ∃ k, (pfx.bytes <+: k ∧ k ≠ []) ∧ trieNodeSearch trie.root k = some a := by
  unfold prefixDeletedItems at mem
  split at mem
  · cases mem
  · next cursor found =>
    have keyedCursor := (keyed_of_find _ _ _ keyed found).1
    have shift : ∀ q, trieNodeSearch trie.root (pfx.bytes ++ q) = trieNodeSearch cursor q :=
      fun q => by
        rw [← below_trieNodeSearch found]
        rfl
    obtain ⟨chr, children, data⟩ := cursor
    rcases List.mem_append.mp mem with below | own
    · obtain ⟨e, entry, rfl⟩ := List.mem_map.mp ((childrenItems_perm children).subset below)
      obtain ⟨c, q, same, -⟩ := head_of_mem_childrenEntries (List.mem_map.mpr ⟨e, entry, rfl⟩)
      have bound := trieNodeEntries_bound _ keyedCursor e.1 e.2 (List.mem_append_right _ entry)
      exact ⟨pfx.bytes ++ e.1, ⟨⟨e.1, rfl⟩, by simp [same]⟩, by rw [shift]; exact bound⟩
    · -- the node's own item, which the closing `trie_delete` releases
      split_ifs at own with nonempty
      · have atPrefix := shift []
        rw [List.append_nil] at atPrefix
        refine ⟨pfx.bytes, ⟨List.prefix_refl _, (length_pos_iff pfx).mp nonempty⟩, ?_⟩
        rw [atPrefix]
        simpa [trieNodeSearch] using own
      · cases own

end TrieItems

def Triedb.Holds (s : Triedb) (d : Nat) (k : List UInt8) (a : Nat) : Prop :=
  ∃ db, s.database d = some db ∧ trieNodeSearch db.data.root k = some a

structure ItemsOwned (s : Triedb) : Prop where
  tries : ∀ d db, s.database d = some db →
    TrieInv (some trieNodeDestructor) db.data ∧ NodeKeyed db.data.root
  unique : ∀ d k d' k' a, s.Holds d k a → s.Holds d' k' a → d = d' ∧ k = k'
  live : ∀ d k a, s.Holds d k a → (s.items.load a).isSome

namespace ItemsOwned
variable {s s' : Triedb}

theorem distinct_live (owned : ItemsOwned s) {d : Nat} {db : Database}
    (found : s.database d = some db) :
    (trieNodeItems db.data.root).Nodup ∧ ∀ a ∈ trieNodeItems db.data.root, (s.items.load a).isSome := by
  have keyed := (owned.tries d db found).2
  refine ⟨nodup_trieNodeItems keyed fun k k' a bound bound' =>
    (owned.unique d k d k' a ⟨db, found, bound⟩ ⟨db, found, bound'⟩).2, fun a mem => ?_⟩
  obtain ⟨k, bound⟩ := exists_search_of_mem_trieNodeItems keyed mem
  exact owned.live d k a ⟨db, found, bound⟩

theorem of_items (owned : ItemsOwned s) (same : s'.databases = s.databases)
    (keep : ∀ b, (s'.items.load b).isSome = (s.items.load b).isSome) : ItemsOwned s' := by
  have database : ∀ d, s'.database d = s.database d := fun d => by
    simp only [Triedb.database, same]
  have holds : ∀ d k a, s'.Holds d k a ↔ s.Holds d k a := fun d k a => by
    simp only [Triedb.Holds, database]
  exact ⟨fun d db found => owned.tries d db ((database d).symm.trans found),
    fun d k d' k' a h h' => owned.unique d k d' k' a ((holds d k a).mp h) ((holds d' k' a).mp h'),
    fun d k a h => (keep a).trans (owned.live d k a ((holds d k a).mp h))⟩

section Replace
variable {d : Nat} {db : Database} {t : Trie Nat} (found : s.database d = some db)
  (same : s'.databases = s.databases.set d { db with data := t })
include found same

theorem database_of_set (d' : Nat) :
    s'.database d' = if d' = d then some { db with data := t } else s.database d' := by
  obtain ⟨inside, -⟩ := List.getElem?_eq_some_iff.mp found
  simp only [Triedb.database, same, List.getElem?_set]
  by_cases here : d' = d
  · subst here
    simp [inside]
  · simp [here, Ne.symm here]

theorem holds_of_set (d' : Nat) (k : List UInt8) (a : Nat) :
    s'.Holds d' k a ↔ if d' = d then trieNodeSearch t.root k = some a else s.Holds d' k a := by
  simp only [Triedb.Holds, database_of_set found same d']
  split_ifs <;> simp

theorem of_removal (owned : ItemsOwned s)
    (tries : TrieInv (some trieNodeDestructor) t ∧ NodeKeyed t.root)
    (fewer : ∀ k a, trieNodeSearch t.root k = some a → trieNodeSearch db.data.root k = some a)
    (freed : ∀ b, (s.items.load b).isSome → (s'.items.load b).isSome = false →
      ∃ k, trieNodeSearch db.data.root k = some b ∧ trieNodeSearch t.root k = none) :
    ItemsOwned s' := by
  have old : ∀ d' k a, s'.Holds d' k a → s.Holds d' k a := by
    intro d' k a h
    rw [holds_of_set found same] at h
    split_ifs at h with here
    · exact here ▸ ⟨db, found, fewer k a h⟩
    · exact h
  refine ⟨fun d' db' found' => ?_, fun d₁ k₁ d₂ k₂ a h₁ h₂ => owned.unique d₁ k₁ d₂ k₂ a
    (old d₁ k₁ a h₁) (old d₂ k₂ a h₂), fun d' k a h => ?_⟩
  · rw [database_of_set found same] at found'
    split_ifs at found' with here
    · cases found'
      exact tries
    · exact owned.tries d' db' found'
  · by_contra dead
    rw [Bool.not_eq_true] at dead
    obtain ⟨k₀, bound₀, dropped⟩ := freed a (owned.live d' k a (old d' k a h)) dead
    obtain ⟨rfl, rfl⟩ := owned.unique d k₀ d' k a ⟨db, found, bound₀⟩ (old d' k a h)
    rw [holds_of_set found same, if_pos rfl, dropped] at h
    cases h

theorem of_insertion (owned : ItemsOwned s)
    (tries : TrieInv (some trieNodeDestructor) t ∧ NodeKeyed t.root) {key : List UInt8} {a : Nat}
    (bind : trieNodeSearch t.root = Function.update (trieNodeSearch db.data.root) key (some a))
    (fresh : s.items.load a = none)
    (grown : ∀ b, (s.items.load b).isSome → (s'.items.load b).isSome)
    (new : (s'.items.load a).isSome) : ItemsOwned s' := by
  have cases' : ∀ d' k b, s'.Holds d' k b → (d' = d ∧ k = key ∧ b = a) ∨ (s.Holds d' k b ∧ b ≠ a) := by
    intro d' k b h
    rw [holds_of_set found same] at h
    have notA : ∀ d'' k'', s.Holds d'' k'' b → b ≠ a := by
      rintro d'' k'' h'' rfl
      have := owned.live d'' k'' b h''
      rw [fresh] at this
      cases this
    split_ifs at h with here
    · rw [bind] at h
      by_cases atKey : k = key
      · subst atKey
        simp only [Function.update_self, Option.some.injEq] at h
        exact .inl ⟨here, rfl, h.symm⟩
      · rw [Function.update_of_ne atKey] at h
        exact .inr ⟨here ▸ ⟨db, found, h⟩, notA d k ⟨db, found, h⟩⟩
    · exact .inr ⟨h, notA d' k h⟩
  refine ⟨fun d' db' found' => ?_, fun d₁ k₁ d₂ k₂ b h₁ h₂ => ?_, fun d' k b h => ?_⟩
  · rw [database_of_set found same] at found'
    split_ifs at found' with here
    · cases found'
      exact tries
    · exact owned.tries d' db' found'
  · rcases cases' d₁ k₁ b h₁ with ⟨here₁, key₁, item₁⟩ | ⟨old₁, ne₁⟩ <;>
      rcases cases' d₂ k₂ b h₂ with ⟨here₂, key₂, item₂⟩ | ⟨old₂, ne₂⟩
    · exact ⟨here₁.trans here₂.symm, key₁.trans key₂.symm⟩
    · exact absurd item₁ ne₂
    · exact absurd item₂ ne₁
    · exact owned.unique d₁ k₁ d₂ k₂ b old₁ old₂
  · rcases cases' d' k b h with ⟨-, -, rfl⟩ | ⟨old, -⟩
    · exact new
    · exact grown b (owned.live d' k b old)

end Replace

theorem of_append_empty (owned : ItemsOwned s) (key : CStr)
    (same : s'.databases = s.databases ++ [databaseInit key (some trieNodeDestructor)])
    (items : s'.items = s.items) : ItemsOwned s' := by
  have database : ∀ d, s'.database d =
      if d < s.databases.length then s.database d
      else if d = s.databases.length then some (databaseInit key (some trieNodeDestructor)) else none := by
    intro d
    simp only [Triedb.database, same]
    split_ifs with inside atEnd
    · exact List.getElem?_append_left inside
    · subst atEnd
      simp
    · exact List.getElem?_eq_none (by simp; omega)
  have old : ∀ d k a, s'.Holds d k a → s.Holds d k a := by
    rintro d k a ⟨db, found, bound⟩
    rw [database] at found
    split_ifs at found with inside atEnd
    · exact ⟨db, found, bound⟩
    · cases found
      simp [databaseInit, trieNew, trieNodeSearch_trieCreateNode] at bound
  refine ⟨fun d db found => ?_, fun d₁ k₁ d₂ k₂ a h₁ h₂ => owned.unique d₁ k₁ d₂ k₂ a
    (old d₁ k₁ a h₁) (old d₂ k₂ a h₂), fun d k a h => items ▸ owned.live d k a (old d k a h)⟩
  rw [database] at found
  split_ifs at found with inside atEnd
  · exact owned.tries d db found
  · cases found
    exact ⟨trieInv_trieNew _, nodeKeyed_trieCreateNode 0⟩

end ItemsOwned

theorem tries_of_trieStep {t t' : Trie Nat} {op : TrieOp Nat}
    (tries : TrieInv (some trieNodeDestructor) t ∧ NodeKeyed t.root) (step : trieStep t op = some t') :
    TrieInv (some trieNodeDestructor) t' ∧ NodeKeyed t'.root :=
  ⟨trieInv_of_trieStep (Or.inr rfl) tries.1 step, nodeKeyed_trieStep tries.1.wf tries.2 step⟩

theorem trieDeleteItem_eq_some {items items' : SlotHeap DbItem} {trie t : Trie Nat} {key : CStr}
    {ret : Bool} (removed : trieDeleteItem items trie key = some (t, items', ret)) :
    t = (trieDelete trie key).1 ∧
      ∀ b, (items.load b).isSome → (items'.load b).isSome = false → deletedItem trie key = some b := by
  unfold trieDeleteItem at removed
  rcases pair : trieDelete trie key with ⟨trie', ret'⟩
  rw [pair] at removed
  dsimp only at removed
  cases released : deletedItem trie key with
  | some item =>
    rw [released] at removed
    obtain ⟨items₁, freed, same⟩ := Option.map_eq_some_iff.mp removed
    simp only [Prod.mk.injEq] at same
    obtain ⟨rfl, rfl, -⟩ := same
    refine ⟨rfl, fun b live dead => ?_⟩
    rw [SlotHeap.load_free freed] at dead
    split_ifs at dead with atItem
    · rw [atItem]
    · rw [live] at dead
      cases dead
  | none =>
    rw [released] at removed
    simp only [Option.some.injEq, Prod.mk.injEq] at removed
    obtain ⟨rfl, rfl, -⟩ := removed
    refine ⟨rfl, fun b live dead => ?_⟩
    rw [live] at dead
    cases dead

theorem integerUpdate_isSome_load {num : Int32} {items items' : SlotHeap DbItem} {db : Database}
    {key : CStr} {now : Int} (done : integerUpdate num items db key now = some items') (b : Nat) :
    (items'.load b).isSome = (items.load b).isSome := by
  simp only [integerUpdate, Option.bind_eq_bind, Option.pure_def] at done
  obtain ⟨searched, -, done⟩ := Option.bind_eq_some_iff.mp done
  split at done
  · obtain ⟨item, -, done⟩ := Option.bind_eq_some_iff.mp done
    split_ifs at done
    · exact (SlotHeap.ModifiedOn.of_modify done).isSome_load b
    · cases done
      rfl
  · cases done
    rfl

namespace ItemsOwned
variable {s s' : Triedb}

theorem of_trieDeleteItem (owned : ItemsOwned s) {d : Nat} {db : Database}
    (found : s.database d = some db) {key : CStr} {t : Trie Nat} {items : SlotHeap DbItem} {ret : Bool}
    (removed : trieDeleteItem s.items db.data key = some (t, items, ret))
    (same : s'.databases = s.databases.set d { db with data := t }) (heap : s'.items = items) :
    ItemsOwned s' := by
  have tries := owned.tries d db found
  obtain ⟨-, map, -⟩ := trieDelete_spec db.data key (Or.inr tries.1.madeWith) tries.1.wf
  obtain ⟨rfl, released⟩ := trieDeleteItem_eq_some removed
  have step : trieStep db.data (.delete key) = some (trieDelete db.data key).1 := rfl
  refine owned.of_removal found same (tries_of_trieStep tries step) (fun k a bound => ?_)
    (fun b live dead => ?_)
  · rw [map] at bound
    split_ifs at bound
    · exact bound
    · by_cases atKey : k = key.bytes
      · subst atKey
        simp at bound
      · rwa [Function.update_of_ne atKey] at bound
  · have item := released b live (heap ▸ dead)
    unfold deletedItem at item
    split_ifs at item with nonempty
    refine ⟨key.bytes, item, ?_⟩
    rw [map, if_neg ((length_pos_iff key).mp nonempty), Function.update_self]

theorem of_getExpire (owned : ItemsOwned s) {c : Client} {key : CStr} {item : Nat}
    (done : getExpire s c key item = some s') : ItemsOwned s' := by
  simp only [getExpire, Option.bind_eq_bind, Option.pure_def] at done
  obtain ⟨db, found, done⟩ := Option.bind_eq_some_iff.mp done
  obtain ⟨⟨db', items, ret⟩, removed, done⟩ := Option.bind_eq_some_iff.mp done
  cases done
  obtain ⟨⟨t, items', ret'⟩, deleted, same⟩ := Option.map_eq_some_iff.mp removed
  cases same
  exact owned.of_trieDeleteItem found deleted rfl rfl

theorem of_databasePrefixRemove (owned : ItemsOwned s) {d : Nat} {db : Database}
    (found : s.database d = some db) {pfx : CStr} {db' : Database} {items : SlotHeap DbItem}
    (removed : databasePrefixRemove s.items db pfx = some (db', items))
    (same : s'.databases = s.databases.set d db') (heap : s'.items = items) : ItemsOwned s' := by
  have tries := owned.tries d db found
  obtain ⟨items', freedAll, built⟩ := Option.map_eq_some_iff.mp removed
  simp only [Prod.mk.injEq] at built
  obtain ⟨rfl, rfl⟩ := built
  obtain ⟨-, map⟩ := triePrefixDelete_spec db.data pfx (Or.inr tries.1.madeWith) tries.1.wf
  have step : trieStep db.data (.prefixDelete pfx) = some (triePrefixDelete db.data pfx) := rfl
  refine owned.of_removal found same (tries_of_trieStep tries step) (fun k a bound => ?_)
    (fun b live dead => ?_)
  · rw [map] at bound
    dsimp only at bound
    split_ifs at bound
    exact bound
  · rw [heap, SlotHeap.load_freeAll freedAll] at dead
    split_ifs at dead with mem
    · obtain ⟨k, below, bound⟩ := exists_search_of_mem_prefixDeletedItems tries.2 mem
      refine ⟨k, bound, ?_⟩
      rw [map]
      exact if_pos below
    · rw [live] at dead
      cases dead

end ItemsOwned

namespace ItemsOwned
variable {s s' : Triedb} {c : Client} {now later : Int} {header : UInt8} {key : CStr} {reply : Bstring}

-- The loop of a prefix GET and the expiry sweep remove one key per round.
theorem of_getPrefixExpire :
    ∀ (fuel : Nat) {s s' : Triedb} {v v' : Vector (KvObj Nat)} {i : Nat}, ItemsOwned s →
      getPrefixExpire c key now fuel s v i = some (s', v') → ItemsOwned s'
  | 0, _, _, _, _, _, owned, done => by
    unfold getPrefixExpire at done
    split_ifs at done
    cases done
    exact owned
  | fuel + 1, _, _, _, _, _, owned, done => by
    unfold getPrefixExpire at done
    split_ifs at done
    · simp only [Option.bind_eq_bind] at done
      obtain ⟨cur, -, done⟩ := Option.bind_eq_some_iff.mp done
      obtain ⟨item, -, done⟩ := Option.bind_eq_some_iff.mp done
      split_ifs at done
      · obtain ⟨s₁, expired, done⟩ := Option.bind_eq_some_iff.mp done
        exact of_getPrefixExpire fuel (owned.of_getExpire expired) done
      · exact of_getPrefixExpire fuel owned done
    · cases done
      exact owned

theorem of_expireKeysLoop :
    ∀ (fuel : Nat) {s s' : Triedb} {i : Nat}, ItemsOwned s → expireKeysLoop now fuel s i = some s' →
      ItemsOwned s'
  | 0, _, _, _, owned, done => by
    unfold expireKeysLoop at done
    split_ifs at done
    cases done
    exact owned
  | fuel + 1, _, _, _, owned, done => by
    unfold expireKeysLoop at done
    split_ifs at done
    · simp only [Option.bind_eq_bind] at done
      obtain ⟨ek, -, done⟩ := Option.bind_eq_some_iff.mp done
      obtain ⟨item, -, done⟩ := Option.bind_eq_some_iff.mp done
      split_ifs at done
      · cases done
        exact owned
      · obtain ⟨db, found, done⟩ := Option.bind_eq_some_iff.mp done
        obtain ⟨⟨t, items, ret⟩, removed, done⟩ := Option.bind_eq_some_iff.mp done
        exact of_expireKeysLoop fuel (owned.of_trieDeleteItem found removed rfl rfl) done
    · cases done
      exact owned

theorem of_putHandler (owned : ItemsOwned s) {ttl : Int32} {val : CStr}
    (done : putHandler s c now header ttl key val = some (s', reply)) : ItemsOwned s' := by
  simp only [putHandler, Option.bind_eq_bind, Option.pure_def] at done
  obtain ⟨db, found, done⟩ := Option.bind_eq_some_iff.mp done
  split_ifs at done
  · obtain ⟨items, set, done⟩ := Option.bind_eq_some_iff.mp done
    cases done
    exact owned.of_items rfl (databasePrefixMod_isSome_load _ _ set)
  · obtain ⟨⟨db', items⟩, inserted, done⟩ := Option.bind_eq_some_iff.mp done
    cases done
    have tries := owned.tries _ db found
    obtain ⟨t, ins, -, -, map, -⟩ := trieInsert_spec db.data key s.items.slots.length tries.1.wf
    have built : databaseInsert s.items db key val ttl.toInt16 now =
        some ({ db with data := t }, (s.items.alloc ⟨ttl.toInt16, val, now, now⟩).2) := by
      simp [databaseInsert, SlotHeap.alloc, ins]
    rw [built] at inserted
    cases inserted
    have step : trieStep db.data (.insert key s.items.slots.length) = some t := ins
    refine owned.of_insertion found rfl (tries_of_trieStep tries step) map
      (SlotHeap.load_length s.items) (fun b live => ?_) (by simp [SlotHeap.load_alloc])
    rw [SlotHeap.load_alloc]
    split_ifs with fresh
    · rfl
    · exact live

theorem of_getHandler (owned : ItemsOwned s) (done : getHandler s c now later header key = some (s', reply)) :
    ItemsOwned s' := by
  simp only [getHandler, Option.bind_eq_bind, Option.pure_def] at done
  obtain ⟨db, -, done⟩ := Option.bind_eq_some_iff.mp done
  split_ifs at done
  · obtain ⟨searched, -, done⟩ := Option.bind_eq_some_iff.mp done
    split at done
    · obtain ⟨item, -, done⟩ := Option.bind_eq_some_iff.mp done
      split_ifs at done
      · obtain ⟨s₁, expired, done⟩ := Option.bind_eq_some_iff.mp done
        cases done
        exact owned.of_getExpire expired
      · obtain ⟨packed, -, done⟩ := Option.bind_eq_some_iff.mp done
        cases done
        exact owned
    · cases done
      exact owned
  · obtain ⟨v, -, done⟩ := Option.bind_eq_some_iff.mp done
    obtain ⟨v, -, done⟩ := Option.bind_eq_some_iff.mp done
    obtain ⟨⟨s₁, v₁⟩, swept, done⟩ := Option.bind_eq_some_iff.mp done
    obtain ⟨tuples, -, done⟩ := Option.bind_eq_some_iff.mp done
    obtain ⟨packed, -, done⟩ := Option.bind_eq_some_iff.mp done
    cases done
    exact of_getPrefixExpire _ owned swept

theorem of_delHandler (owned : ItemsOwned s) (done : delHandler s c header key = some (s', reply)) :
    ItemsOwned s' := by
  simp only [delHandler, Option.bind_eq_bind, Option.pure_def] at done
  obtain ⟨db, found, done⟩ := Option.bind_eq_some_iff.mp done
  split_ifs at done
  · obtain ⟨⟨db', items⟩, removed, done⟩ := Option.bind_eq_some_iff.mp done
    cases done
    exact owned.of_databasePrefixRemove found removed rfl rfl
  · obtain ⟨⟨db', items, found'⟩, removed, done⟩ := Option.bind_eq_some_iff.mp done
    obtain ⟨⟨t, items', ret⟩, deleted, same⟩ := Option.map_eq_some_iff.mp removed
    cases same
    split_ifs at done <;> cases done
    · exact owned.of_trieDeleteItem found deleted rfl rfl
    · exact owned.of_trieDeleteItem found deleted rfl rfl

theorem of_ttlHandler (owned : ItemsOwned s) {ttl : Int32}
    (done : ttlHandler s c now key ttl = some (s', reply)) : ItemsOwned s' := by
  simp only [ttlHandler, Option.bind_eq_bind, Option.pure_def] at done
  obtain ⟨db, -, done⟩ := Option.bind_eq_some_iff.mp done
  split at done
  · obtain ⟨item, -, done⟩ := Option.bind_eq_some_iff.mp done
    obtain ⟨items, modified, done⟩ := Option.bind_eq_some_iff.mp done
    obtain ⟨eks, -, done⟩ := Option.bind_eq_some_iff.mp done
    cases done
    exact owned.of_items rfl (SlotHeap.ModifiedOn.of_modify modified).isSome_load
  · cases done
    exact owned

theorem of_integerHandler (owned : ItemsOwned s) {num : Int32}
    {prefixMod : SlotHeap DbItem → Database → CStr → Int → Option (SlotHeap DbItem)}
    (keeps : ∀ items db pfx now items', prefixMod items db pfx now = some items' →
      ∀ b, (items'.load b).isSome = (items.load b).isSome)
    (done : integerHandler num prefixMod s c now header key = some (s', reply)) : ItemsOwned s' := by
  simp only [integerHandler, Option.bind_eq_bind, Option.pure_def] at done
  obtain ⟨db, -, done⟩ := Option.bind_eq_some_iff.mp done
  split_ifs at done
  · obtain ⟨items, updated, done⟩ := Option.bind_eq_some_iff.mp done
    cases done
    exact owned.of_items rfl (keeps _ _ _ _ _ updated)
  · obtain ⟨items, updated, done⟩ := Option.bind_eq_some_iff.mp done
    cases done
    exact owned.of_items rfl (integerUpdate_isSome_load updated)

theorem of_useHandler (owned : ItemsOwned s) {c' : Client}
    (done : useHandler s key = some (s', c', reply)) : ItemsOwned s' := by
  unfold useHandler at done
  split at done
  · cases done
    exact owned
  · obtain ⟨dbs, -, done⟩ := Option.bind_eq_some_iff.mp done
    cases done
    exact owned.of_append_empty key rfl rfl

end ItemsOwned

section Runs
variable {conf : Config} {infos : Informations}

theorem eq_of_reply_only {s s' : Triedb} {c c' : Client} {r : Option Bstring} {reply : Bstring}
    (done : r.map (fun reply => (s, c, reply)) = some (s', c', reply)) : s' = s := by
  obtain ⟨_, -, same⟩ := Option.map_eq_some_iff.mp done
  cases same
  rfl

theorem ItemsOwned.of_handle {s s' : Triedb} {c c' : Client} {now later : Int} {req : Request}
    {reply : Bstring} (owned : ItemsOwned s) (done : handle conf infos s c now later req = some (s', c', reply)) :
    ItemsOwned s' := by
  have prefixKeeps : ∀ (inc : Bool) items db pfx now items',
      databasePrefixMod true (integerMod inc now) items db pfx = some items' →
        ∀ b, (SlotHeap.load items' b).isSome = (SlotHeap.load items b).isSome :=
    fun inc _ _ _ now _ done => databasePrefixMod_isSome_load true (integerMod inc now) done
  unfold handle at done
  split at done
  next => exact owned.of_putHandler (withClient_eq_some done)
  next => exact owned.of_getHandler (withClient_eq_some done)
  next => exact owned.of_delHandler (withClient_eq_some done)
  next => exact owned.of_ttlHandler (withClient_eq_some done)
  next => exact owned.of_integerHandler (prefixKeeps true) (withClient_eq_some done)
  next => exact owned.of_integerHandler (prefixKeeps false) (withClient_eq_some done)
  next => exact eq_of_reply_only done ▸ owned
  next => exact owned.of_useHandler done
  next => exact eq_of_reply_only done ▸ owned
  next =>
    cases done
    exact owned
  next => exact eq_of_reply_only done ▸ owned
  next =>
    cases done
    exact owned
  next => cases done

theorem ItemsOwned.of_serverStep {srv srv' : Server} {w : WorkerStep} (owned : ItemsOwned srv.triedb)
    (step : serverStep conf infos srv w = some srv') : ItemsOwned srv'.triedb := by
  cases w with
  | accept =>
    obtain ⟨_, -, done⟩ := Option.bind_eq_some_iff.mp step
    cases done
    exact owned
  | request i now later req =>
    obtain ⟨c, -, done⟩ := Option.bind_eq_some_iff.mp step
    obtain ⟨⟨triedb, c', reply⟩, handled, done⟩ := Option.bind_eq_some_iff.mp done
    cases done
    exact owned.of_handle handled
  | expire now =>
    obtain ⟨triedb, expired, done⟩ := Option.bind_eq_some_iff.mp step
    cases done
    unfold expireKeys at expired
    split_ifs at expired
    · cases expired
      exact owned
    · exact ItemsOwned.of_expireKeysLoop _ owned expired

theorem itemsOwned_of_no_databases {s : Triedb} (empty : s.databases = []) : ItemsOwned s := by
  have database : ∀ d, s.database d = none := fun d => by simp [Triedb.database, empty]
  have unheld : ∀ d k a, ¬s.Holds d k a := by
    rintro d k a ⟨db, found, _⟩
    simp [database] at found
  refine ⟨fun d db found => ?_, fun d k d' k' a held _ => absurd held (unheld d k a),
    fun d k a held => absurd held (unheld d k a)⟩
  simp [database] at found

theorem itemsOwned_startServer {s : Triedb} (started : startServer = some s) : ItemsOwned s := by
  simp only [startServer, Option.bind_eq_bind, Option.pure_def] at started
  obtain ⟨dbs, -, same⟩ := Option.bind_eq_some_iff.mp started
  cases same
  exact (itemsOwned_of_no_databases (s := ⟨SlotHeap.empty, [], vectorNew, dbs, 0⟩) rfl).of_append_empty
    db0 rfl rfl

theorem itemsOwned_of_run (ops : List WorkerStep) {srv : Server}
    (ran : (startState.bind fun s => OpRun.run (serverStep conf infos) s ops) = some srv) :
    ItemsOwned srv.triedb := by
  obtain ⟨start, started, rest⟩ := Option.bind_eq_some_iff.mp ran
  obtain ⟨triedb, started', rfl⟩ := Option.map_eq_some_iff.mp started
  exact OpRun.run_preserves (fun _ _ _ (owned : ItemsOwned _) step => owned.of_serverStep step) ops _ srv
    (itemsOwned_startServer started') rest

end Runs

/-- In every state the server reaches, each of the prefix updates of `db.c` on
any of its databases succeeds, applies its rule once to the item of every key
the prefix starts, and leaves every other item as it was. -/
theorem run_prefixUpdate_touches_subtree (conf : Config) (infos : Informations) (ops : List WorkerStep)
    {srv : Server} (ran : (startState.bind fun s => OpRun.run (serverStep conf infos) s ops) = some srv)
    {d : Nat} {db : Database} (found : srv.triedb.database d = some db) (op : PrefixUpdate) (pfx : CStr)
    (now : Int) :
    ∃ items', op.run srv.triedb.items db pfx now = some items' ∧
      ∀ k, (trieNodeSearch db.data.root k).bind items'.load =
        if pfx.bytes <+: k then
          ((trieNodeSearch db.data.root k).bind srv.triedb.items.load).map (op.rule now)
        else (trieNodeSearch db.data.root k).bind srv.triedb.items.load := by
  obtain ⟨distinct, live⟩ := (itemsOwned_of_run ops ran).distinct_live found
  obtain ⟨nodeFirst, walk⟩ := op.run_eq_databasePrefixMod srv.triedb.items db pfx now
  rw [walk]
  exact databasePrefixMod_spec nodeFirst (op.rule now) srv.triedb.items db pfx distinct live

theorem run_prefixUpdate_touches_subtree_inc :
    ∃ srv, (startState.bind fun s =>
        OpRun.run (serverStep ⟨CStr.empty, 0, 0, 0, CStr.empty, CStr.empty, CStr.empty, 0, 0, 0, 0⟩
          ⟨0, 0, 0, 0, 0, 0, 0, 0⟩) s
          [.accept, .request 0 0 0 (.put 0x10 (-1) (CStr.ofBytes [97]) (CStr.ofBytes [49]))]) = some srv ∧
      srv.triedb.database 0 = some ⟨db0, ⟨some trieNodeDestructor,
        ⟨0, .node 97 1 .nil .nil ⟨97, .nil, some 0⟩, none⟩, 1⟩⟩ ∧
      ∃ items', PrefixUpdate.inc.run srv.triedb.items ⟨db0, ⟨some trieNodeDestructor,
          ⟨0, .node 97 1 .nil .nil ⟨97, .nil, some 0⟩, none⟩, 1⟩⟩ CStr.empty 0 = some items' ∧
        ∀ k, (trieNodeSearch ⟨0, .node 97 1 .nil .nil ⟨97, .nil, some 0⟩, none⟩ k).bind items'.load =
          if CStr.empty.bytes <+: k then
            ((trieNodeSearch ⟨0, .node 97 1 .nil .nil ⟨97, .nil, some 0⟩, none⟩ k).bind
              srv.triedb.items.load).map (PrefixUpdate.inc.rule 0)
          else (trieNodeSearch ⟨0, .node 97 1 .nil .nil ⟨97, .nil, some 0⟩, none⟩ k).bind
            srv.triedb.items.load := by
  refine ⟨_, rfl, rfl, ?_⟩
  exact @run_prefixUpdate_touches_subtree
    ⟨CStr.empty, 0, 0, 0, CStr.empty, CStr.empty, CStr.empty, 0, 0, 0, 0⟩ ⟨0, 0, 0, 0, 0, 0, 0, 0⟩
    [.accept, .request 0 0 0 (.put 0x10 (-1) (CStr.ofBytes [97]) (CStr.ofBytes [49]))] _ rfl 0 _ rfl .inc
    CStr.empty 0

end TrieDB
