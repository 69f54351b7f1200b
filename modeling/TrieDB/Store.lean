import TrieDB.Server
import TrieDB.TrieSize

/-!
What PUT, DEL, INC and DEC do to the databases, to `keyspace_size` and to
`expiring_keys`. A plain PUT always adds one to `keyspace_size`, also when it
overwrites a key, and never touches `expiring_keys`, whatever its TTL. A
plain DEL answers OK exactly when it removes a key, and INC and DEC answer OK
on every path.
-/
namespace TrieDB

def boundKeys (s : Triedb) : Nat := (s.databases.map fun db => trieNodeCount db.data.root).sum

theorem sum_set_add (l : List Nat) {i : Nat} (inside : i < l.length) (x : Nat) :
    (l.set i x).sum + l[i] = l.sum + x := by
  induction l generalizing i with
  | nil => simp at inside
  | cons y l ih =>
    cases i with
    | zero => simp only [List.set_cons_zero, List.sum_cons, List.getElem_cons_zero]; omega
    | succ i =>
      have rest := ih (i := i) (by simpa using inside)
      simp only [List.set_cons_succ, List.sum_cons, List.getElem_cons_succ]
      omega

theorem boundKeys_setDatabase {s : Triedb} {d : Nat} {db : Database} (hdb : s.database d = some db)
    (db' : Database) :
    boundKeys (s.setDatabase d db') + trieNodeCount db.data.root =
      boundKeys s + trieNodeCount db'.data.root := by
  obtain ⟨inside, at_d⟩ := List.getElem?_eq_some_iff.mp hdb
  have trade := sum_set_add (s.databases.map fun db => trieNodeCount db.data.root)
    (by simpa using inside) (trieNodeCount db'.data.root)
  simpa [boundKeys, Triedb.setDatabase, List.map_set, at_d] using trade

@[simp] theorem database_setDatabase_self {s : Triedb} {d : Nat} {db : Database}
    (hdb : s.database d = some db) (db' : Database) : (s.setDatabase d db').database d = some db' := by
  obtain ⟨inside, -⟩ := List.getElem?_eq_some_iff.mp hdb
  simp [Triedb.database, Triedb.setDatabase, inside]

section Put
variable {s : Triedb} {c : Client} {header : UInt8} {db : Database}
  (plain : headerPrefix header = false) (hdb : s.database c.db = some db)
  (wf : TrieWF db.data.root)
include plain hdb wf

theorem putHandler_of_plain (now : Int) (ttl : Int32) (key val : CStr) :
    ∃ trie, trieInsert db.data key s.items.slots.length = some trie ∧
      putHandler s c now header ttl key val =
        some ({ s.setDatabase c.db { db with data := trie } with
          items := (s.items.alloc ⟨ttl.toInt16, val, now, now⟩).2
          keyspaceSize := s.keyspaceSize + 1 }, ackReplies OK) := by
  obtain ⟨trie, ins, -⟩ := trieInsert_spec db.data key s.items.slots.length wf
  exact ⟨trie, ins, by simp [putHandler, hdb, plain, databaseInsert, ins, SlotHeap.alloc]⟩

/-- A plain PUT binds `key` to a new item holding the value and the TTL
truncated to a `short`, created now, and leaves `expiring_keys` alone. It adds
one to `keyspace_size` in every case, while the bound keys grow by one only
when `key` was not bound. -/
theorem putHandler_plain_spec (now : Int) (ttl : Int32) (key val : CStr) :
    ∃ s' db', putHandler s c now header ttl key val = some (s', ackReplies OK) ∧
      s'.database c.db = some db' ∧
      trieNodeSearch db'.data.root =
        Function.update (trieNodeSearch db.data.root) key.bytes (some s.items.slots.length) ∧
      s'.items.load s.items.slots.length = some ⟨ttl.toInt16, val, now, now⟩ ∧
      s'.expiringKeys = s.expiringKeys ∧
      s'.keyspaceSize = s.keyspaceSize + 1 ∧
      boundKeys s' =
        if trieNodeSearch db.data.root key.bytes = none then boundKeys s + 1 else boundKeys s := by
  obtain ⟨trie, ins, put⟩ := putHandler_of_plain plain hdb wf now ttl key val
  obtain ⟨trie', ins', -, -, map, size⟩ := trieInsert_spec db.data key s.items.slots.length wf
  cases ins.symm.trans ins'
  have count := trieInsert_count wf ins
  have keys := boundKeys_setDatabase hdb { db with data := trie }
  refine ⟨_, _, put, database_setDatabase_self hdb _, map, by simp [SlotHeap.load_alloc], rfl, rfl, ?_⟩
  simp only [Triedb.setDatabase] at keys ⊢
  split_ifs at size ⊢ <;> simp only [boundKeys] at keys ⊢ <;> omega

end Put

theorem putHandler_plain_spec_fresh :
    ∃ s', putHandler ⟨SlotHeap.empty, [databaseInit db0 (some trieNodeDestructor)], vectorNew,
        hashtableNew, 0⟩ ⟨0⟩ 0 0x10 5 ⟨[97], by decide⟩ ⟨[49], by decide⟩ = some (s', ackReplies OK) ∧
      s'.keyspaceSize = 1 ∧ boundKeys s' = 1 := by
  obtain ⟨s', -, put, -, -, -, -, counter, keys⟩ := putHandler_plain_spec
    (show headerPrefix 0x10 = false by decide)
    (show Triedb.database ⟨SlotHeap.empty, [databaseInit db0 (some trieNodeDestructor)], vectorNew,
        hashtableNew, 0⟩ 0 = some (databaseInit db0 (some trieNodeDestructor)) from rfl)
    (trieWF_trieCreateNode 0) 0 5 ⟨[97], by decide⟩ ⟨[49], by decide⟩
  exact ⟨s', put, counter, keys⟩

/-- The same key put twice from the fresh server: `keyspace_size` is 2 while
one key is bound. -/
theorem putHandler_overwrite_counts_twice (conf : Config) (infos : Informations) :
    ∃ srv, (startState.bind fun srv => OpRun.run (serverStep conf infos) srv
        [.accept, .request 0 0 0 (.put 0x10 (-1) ⟨[97], by decide⟩ ⟨[49], by decide⟩),
          .request 0 0 0 (.put 0x10 (-1) ⟨[97], by decide⟩ ⟨[50], by decide⟩)]) = some srv ∧
      srv.triedb.keyspaceSize = 2 ∧ boundKeys srv.triedb = 1 :=
  ⟨_, rfl, rfl, rfl⟩

/-- A key put with TTL 5 from the fresh server: its item has TTL 5 and
`expiring_keys` stays empty. -/
theorem putHandler_ttl_not_indexed (conf : Config) (infos : Informations) :
    ∃ srv, (startState.bind fun srv => OpRun.run (serverStep conf infos) srv
        [.accept, .request 0 0 0 (.put 0x10 5 ⟨[97], by decide⟩ ⟨[49], by decide⟩)]) = some srv ∧
      ((srv.triedb.database 0).bind fun db =>
        (trieNodeSearch db.data.root [97]).bind srv.triedb.items.load) =
          some ⟨5, ⟨[49], by decide⟩, 0, 0⟩ ∧
      srv.triedb.expiringKeys.size = 0 :=
  ⟨_, rfl, rfl, rfl⟩

section Del
variable {s : Triedb} {c : Client} {header : UInt8} {db : Database}
  (plain : headerPrefix header = false) (hdb : s.database c.db = some db)
  (made : db.data.destructor = some trieNodeDestructor)
include plain hdb made

omit made in
theorem delHandler_of_plain {key : CStr} {db' : Database} {items' : SlotHeap DbItem} {found : Bool}
    (removed : databaseRemove s.items db key = some (db', items', found)) :
    delHandler s c header key =
      some ({ s.setDatabase c.db db' with
        items := items'
        keyspaceSize := if found then s.keyspaceSize - 1 else s.keyspaceSize },
        if found then ackReplies OK else ackReplies NOK) := by
  cases found <;> simp [delHandler, hdb, plain, removed, Triedb.setDatabase]

/-- A plain DEL answers OK, and takes one off `keyspace_size`, exactly when it
removes a bound key; the empty key, which `trie_delete` refuses, gets NOK. -/
theorem delHandler_plain_spec (key : CStr)
    (live : ∀ a, trieNodeSearch db.data.root key.bytes = some a → (s.items.load a).isSome) :
    ∃ s', delHandler s c header key =
        some (s', if key.length > 0 ∧ (trieNodeSearch db.data.root key.bytes).isSome
          then ackReplies OK else ackReplies NOK) ∧
      s'.database c.db = some { db with data := (trieDelete db.data key).1 } ∧
      s'.keyspaceSize = if key.length > 0 ∧ (trieNodeSearch db.data.root key.bytes).isSome
        then s.keyspaceSize - 1 else s.keyspaceSize := by
  have released : ∀ a, deletedItem db.data key = some a → (s.items.load a).isSome := by
    intro a item
    unfold deletedItem at item
    split_ifs at item
    exact live a item
  obtain ⟨items', removed, -⟩ := trieDeleteItem_of_live released
  have removal : databaseRemove s.items db key =
      some ({ db with data := (trieDelete db.data key).1 }, items', (trieDelete db.data key).2) := by
    simp [databaseRemove, removed]
  have found : (trieDelete db.data key).2 = true ↔
      key.length > 0 ∧ (trieNodeSearch db.data.root key.bytes).isSome := by
    simp [trieDelete_snd_of_made made key]
  refine ⟨{ s.setDatabase c.db { db with data := (trieDelete db.data key).1 } with
      items := items'
      keyspaceSize := if key.length > 0 ∧ (trieNodeSearch db.data.root key.bytes).isSome
        then s.keyspaceSize - 1 else s.keyspaceSize }, ?_,
    database_setDatabase_self hdb _, rfl⟩
  rw [delHandler_of_plain plain hdb removal]
  simp only [found]

end Del

theorem delHandler_plain_spec_bound :
    ∃ s', delHandler ⟨⟨[some ⟨5, ⟨[49], by decide⟩, 0, 0⟩]⟩,
        [⟨db0, ⟨some trieNodeDestructor, ⟨0, .node 97 1 .nil .nil ⟨97, .nil, some 0⟩, none⟩, 1⟩⟩],
        vectorNew, hashtableNew, 1⟩ ⟨0⟩ 0x30 ⟨[97], by decide⟩ = some (s', ackReplies OK) ∧
      s'.keyspaceSize = 0 := by
  obtain ⟨s', del, -, counter⟩ := delHandler_plain_spec (show headerPrefix 0x30 = false by decide)
    (show Triedb.database ⟨⟨[some ⟨5, ⟨[49], by decide⟩, 0, 0⟩]⟩,
        [⟨db0, ⟨some trieNodeDestructor, ⟨0, .node 97 1 .nil .nil ⟨97, .nil, some 0⟩, none⟩, 1⟩⟩],
        vectorNew, hashtableNew, 1⟩ 0 = some _ from rfl) rfl ⟨[97], by decide⟩
    (fun a bound => by
      cases (show trieNodeSearch _ [97] = some 0 from rfl).symm.trans bound
      rfl)
  exact ⟨s', del, counter⟩

end TrieDB
