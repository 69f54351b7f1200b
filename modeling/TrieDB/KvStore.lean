import TrieDB.Ownership
import TrieDB.Get
import TrieDB.Store
import TrieDB.IntegerUpdate

/-!
The server against the key-value store it implements. On the requests that
set no TTL and name no prefix, the tries, the heap of items and the index of
databases are one map from keys to values: every run of the server, with any
number of clients connecting and issuing such requests in any order and the
expiry timer firing in between, sends the replies the map sends and ends
holding the map's values. The refinement rests on the ownership invariant of
the items: a PUT allocates past every live item, and a DEL frees the item of
its own key only.
-/
namespace TrieDB

/-- The abstract server: how many clients are connected, the value of each
key, and the replies sent so far. -/
structure KvStore where
  clients : Nat
  store : List UInt8 → Option CStr
  replies : List Bstring

def kvStart : KvStore := ⟨0, fun _ => none, []⟩

def kvGetReply (store : List UInt8 → Option CStr) (header : UInt8) (key : CStr) : Option Bstring :=
  match store key.bytes with
  | some val => packResponse (.val header ⟨-1, key.length % 2 ^ 16, key, val⟩) (headerOpcode header)
  | none => some (ackReplies NOK)

def kvUpdateBelow (pfx : List UInt8) (f : CStr → CStr) (store : List UInt8 → Option CStr) :
    List UInt8 → Option CStr :=
  fun k => if pfx <+: k then (store k).map f else store k

def kvRemoveBelow (pfx : List UInt8) (store : List UInt8 → Option CStr) : List UInt8 → Option CStr :=
  fun k => if pfx <+: k ∧ k ≠ [] then none else store k

def kvIntegerValue (inc : Bool) (v : CStr) : CStr :=
  if isInteger v then updateIntegerString v (unitStep inc) else v

def kvInteger (inc : Bool) (header : UInt8) (key : CStr) (store : List UInt8 → Option CStr) :
    List UInt8 → Option CStr :=
  if headerPrefix header then kvUpdateBelow key.bytes (kvIntegerValue inc) store
  else fun k => if k = key.bytes then (store k).map (kvIntegerValue inc) else store k

/-- A request on the map, dispatched on the opcode as `handlers[]` is; `none`
outside the requests the map covers. DEL leaves the empty key bound, since
`trie_delete` refuses it, and a prefix PUT only rewrites keys already bound. -/
def kvRequest (conf : Config) (infos : Informations) (store : List UInt8 → Option CStr) (req : Request) :
    Option ((List UInt8 → Option CStr) × Bstring) :=
  match headerOpcode req.header, req with
  | 1, .put header ttl key val =>
    if ttl.toInt16 = -1 then
      some (if headerPrefix header then kvUpdateBelow key.bytes (fun _ => val) store
        else Function.update store key.bytes (some val), ackReplies OK)
    else none
  | 2, .get header key =>
    if headerPrefix header then none else (kvGetReply store header key).map (store, ·)
  | 3, .get header key =>
    if headerPrefix header then some (kvRemoveBelow key.bytes store, ackReplies OK)
    else if key.length > 0 ∧ (store key.bytes).isSome then
      some (Function.update store key.bytes none, ackReplies OK)
    else some (store, ackReplies NOK)
  | 5, .get header key => some (kvInteger true header key store, ackReplies OK)
  | 6, .get header key => some (kvInteger false header key store, ackReplies OK)
  | 10, _ => some (store, ackReplies OK)
  | 12, _ => some (store, bstringNew db0)
  | 13, _ => some (store, packInfo conf infos)
  | _, _ => none

def kvStep (conf : Config) (infos : Informations) (kv : KvStore) : WorkerStep → Option KvStore
  | .accept => some { kv with clients := kv.clients + 1 }
  | .request i _ _ req =>
    if i < kv.clients then
      (kvRequest conf infos kv.store req).map fun r => { kv with store := r.1, replies := kv.replies ++ [r.2] }
    else none
  | .expire _ => some kv

def Triedb.boundItem (s : Triedb) (d : Nat) (k : List UInt8) : Option DbItem :=
  (s.database d).bind fun db => (trieNodeSearch db.data.root k).bind s.items.load

structure StoreRefines (s : Triedb) (store : List UInt8 → Option CStr) : Prop where
  owned : ItemsOwned s
  named : ∃ db, s.database 0 = some db ∧ db.name = db0
  dbs : hashtableGet s.dbs db0 = some 0
  noExpiring : s.expiringKeys.size = 0
  noTtl : ∀ k item, s.boundItem 0 k = some item → item.ttl = -1
  values : ∀ k, (s.boundItem 0 k).map DbItem.data = store k

structure KvRefines (srv : Server) (kv : KvStore) : Prop where
  triedb : StoreRefines srv.triedb kv.store
  clients : srv.clients = List.replicate kv.clients ⟨0⟩
  replies : srv.replies = kv.replies

section Handlers
variable {s : Triedb} {store : List UInt8 → Option CStr} {db : Database} {header : UInt8}

theorem boundItem_of_database (hdb : s.database 0 = some db) (k : List UInt8) :
    s.boundItem 0 k = (trieNodeSearch db.data.root k).bind s.items.load := by
  simp [Triedb.boundItem, hdb]

theorem boundItem_of_empty (empty : s.items = SlotHeap.empty) (d : Nat) (k : List UInt8) :
    s.boundItem d k = none := by
  unfold Triedb.boundItem
  rw [empty]
  cases s.database d with
  | none => rfl
  | some db =>
    rw [Option.bind_some]
    cases trieNodeSearch db.data.root k <;> rfl

theorem StoreRefines.isSome_store (r : StoreRefines s store) (hdb : s.database 0 = some db)
    (k : List UInt8) : (store k).isSome = (trieNodeSearch db.data.root k).isSome := by
  rw [← r.values k, boundItem_of_database hdb, Option.isSome_map]
  cases bound : trieNodeSearch db.data.root k with
  | none => rfl
  | some a => exact r.owned.live 0 k a ⟨db, hdb, bound⟩

theorem StoreRefines.search_of_bound (r : StoreRefines s store) (hdb : s.database 0 = some db)
    {key : CStr} {a : Nat} (bound : trieNodeSearch db.data.root key.bytes = some a) :
    ∃ item, s.items.load a = some item ∧ item.ttl = -1 ∧ store key.bytes = some item.data ∧
      ∀ now, databaseSearch s.items db key now = some (true, some a) := by
  obtain ⟨item, loaded⟩ := Option.isSome_iff_exists.mp (r.owned.live 0 key.bytes a ⟨db, hdb, bound⟩)
  have held : s.boundItem 0 key.bytes = some item := by
    rw [boundItem_of_database hdb, bound, Option.bind_some, loaded]
  have noTtl := r.noTtl key.bytes item held
  have unexpired : item.ttl.toInt = -1 := by rw [noTtl]; decide
  refine ⟨item, loaded, noTtl, by rw [← r.values, held, Option.map_some], fun now => ?_⟩
  rw [databaseSearch_of_bound bound loaded now]
  simp [unexpired]

theorem StoreRefines.of_boundItem {s' : Triedb} {store' : List UInt8 → Option CStr} (r : StoreRefines s store)
    (owned : ItemsOwned s') (named : ∃ db, s'.database 0 = some db ∧ db.name = db0)
    (dbs : s'.dbs = s.dbs) (expiring : s'.expiringKeys = s.expiringKeys)
    (P : List UInt8 → Prop) [DecidablePred P] (new : List UInt8 → Option DbItem)
    (bound : ∀ k, s'.boundItem 0 k = if P k then new k else s.boundItem 0 k)
    (newTtl : ∀ k item, P k → new k = some item → item.ttl = -1)
    (newValues : ∀ k, P k → (new k).map DbItem.data = store' k)
    (oldValues : ∀ k, ¬ P k → store k = store' k) :
    StoreRefines s' store' := by
  refine ⟨owned, named, dbs ▸ r.dbs, expiring ▸ r.noExpiring, fun k item found => ?_, fun k => ?_⟩
  · rw [bound] at found
    split_ifs at found with here
    · exact newTtl k item here found
    · exact r.noTtl k item found
  · rw [bound]
    split_ifs with here
    · exact newValues k here
    · rw [r.values k, oldValues k here]

theorem StoreRefines.rewrite (r : StoreRefines s store) (hdb : s.database 0 = some db)
    {items' : SlotHeap DbItem} (P : List UInt8 → Prop) [DecidablePred P] {f : DbItem → DbItem}
    {g : CStr → CStr} (keepsTtl : ∀ item, item.ttl = -1 → (f item).ttl = -1)
    (data : ∀ item, (f item).data = g item.data)
    (keep : ∀ b, (items'.load b).isSome = (s.items.load b).isSome)
    (rewritten : ∀ k, (trieNodeSearch db.data.root k).bind items'.load =
      if P k then ((trieNodeSearch db.data.root k).bind s.items.load).map f
      else (trieNodeSearch db.data.root k).bind s.items.load) :
    StoreRefines { s with items := items' } (fun k => if P k then (store k).map g else store k) := by
  have bound : ∀ k, Triedb.boundItem { s with items := items' } 0 k =
      if P k then (s.boundItem 0 k).map f else s.boundItem 0 k := by
    intro k
    rw [boundItem_of_database (s := { s with items := items' }) hdb, boundItem_of_database hdb]
    exact rewritten k
  refine r.of_boundItem (r.owned.of_items rfl keep) r.named rfl rfl P _ bound (fun k item _ found => ?_)
    (fun k here => ?_) (fun k here => ?_)
  · obtain ⟨old, held, rfl⟩ := Option.map_eq_some_iff.mp found
    exact keepsTtl old (r.noTtl k old held)
  · rw [if_pos here, ← r.values k, Option.map_map, Option.map_map]
    congr 1
    funext item
    exact data item
  · rw [if_neg here]

theorem databasePrefixMod_refines (r : StoreRefines s store) (hdb : s.database 0 = some db)
    (nodeFirst : Bool) {f : DbItem → DbItem} {g : CStr → CStr}
    (keepsTtl : ∀ item, item.ttl = -1 → (f item).ttl = -1) (data : ∀ item, (f item).data = g item.data)
    (key : CStr) :
    ∃ items', databasePrefixMod nodeFirst f s.items db key = some items' ∧
      StoreRefines { s with items := items' } (kvUpdateBelow key.bytes g store) := by
  obtain ⟨distinct, live⟩ := r.owned.distinct_live hdb
  obtain ⟨items', done, rewritten⟩ := databasePrefixMod_spec nodeFirst f s.items db key distinct live
  exact ⟨items', done, r.rewrite hdb (key.bytes <+: ·) keepsTtl data
    (databasePrefixMod_isSome_load nodeFirst f done) rewritten⟩

theorem integerUpdate_refines (r : StoreRefines s store) (hdb : s.database 0 = some db) (inc : Bool)
    (now : Int) (key : CStr) :
    ∃ items', integerUpdate (unitStep inc) s.items db key now = some items' ∧
      StoreRefines { s with items := items' }
        (fun k => if k = key.bytes then (store k).map (kvIntegerValue inc) else store k) := by
  let f : DbItem → DbItem := fun item =>
    if isInteger item.data then { item with data := updateIntegerString item.data (unitStep inc) } else item
  have keepsTtl : ∀ item, item.ttl = -1 → (f item).ttl = -1 := fun item noTtl => by
    simp only [f]
    split_ifs <;> exact noTtl
  have data : ∀ item, (f item).data = kvIntegerValue inc item.data := fun item => by
    simp only [f, kvIntegerValue]
    split_ifs <;> rfl
  obtain ⟨items', done, loads⟩ : ∃ items', integerUpdate (unitStep inc) s.items db key now = some items' ∧
      ∀ b, items'.load b =
        if trieNodeSearch db.data.root key.bytes = some b then (s.items.load b).map f else s.items.load b := by
    cases bound : trieNodeSearch db.data.root key.bytes with
    | none => exact ⟨s.items, by simp [integerUpdate, databaseSearch_of_unbound bound], fun b => by simp⟩
    | some a =>
      obtain ⟨item, loaded, -, -, found⟩ := r.search_of_bound hdb bound
      by_cases integer : isInteger item.data
      · obtain ⟨items', modified⟩ := SlotHeap.modify_isSome
          (fun item => { item with data := updateIntegerString item.data (unitStep inc) })
          (show (s.items.load a).isSome by rw [loaded]; rfl)
        refine ⟨items', by simp [integerUpdate, found, loaded, integer, modified], fun b => ?_⟩
        rw [SlotHeap.load_modify modified]
        by_cases here : b = a
        · subst here
          simp [loaded, f, integer]
        · simp [here, Ne.symm here]
      · refine ⟨s.items, by simp [integerUpdate, found, loaded, integer], fun b => ?_⟩
        by_cases here : b = a
        · subst here
          simp [loaded, f, integer]
        · simp [Ne.symm here]
  refine ⟨items', done, r.rewrite hdb (· = key.bytes) keepsTtl data (fun b => ?_) (fun k => ?_)⟩
  · rw [loads]
    split_ifs <;> simp
  · cases bound : trieNodeSearch db.data.root k with
    | none => simp
    | some b =>
      simp only [Option.bind_some, loads b]
      by_cases atKey : k = key.bytes
      · subst atKey
        simp [bound]
      · rw [if_neg atKey, if_neg]
        intro held
        exact atKey (r.owned.unique 0 k 0 key.bytes b ⟨db, hdb, bound⟩ ⟨db, hdb, held⟩).2

theorem putHandler_refines (r : StoreRefines s store) (plain : headerPrefix header = false)
    {ttl : Int32} (noTtl : ttl.toInt16 = -1) (now : Int) (key val : CStr) :
    ∃ s', putHandler s ⟨0⟩ now header ttl key val = some (s', ackReplies OK) ∧
      StoreRefines s' (Function.update store key.bytes (some val)) := by
  obtain ⟨db, hdb, named⟩ := r.named
  have tries := r.owned.tries 0 db hdb
  obtain ⟨trie, ins, put⟩ := putHandler_of_plain (c := ⟨0⟩) plain hdb tries.1.wf now ttl key val
  obtain ⟨trie', ins', -, -, map, -⟩ := trieInsert_spec db.data key s.items.slots.length tries.1.wf
  cases ins.symm.trans ins'
  obtain ⟨s', put, items, database, dbs, expiring⟩ : ∃ s',
      putHandler s ⟨0⟩ now header ttl key val = some (s', ackReplies OK) ∧
      s'.items = (s.items.alloc ⟨ttl.toInt16, val, now, now⟩).2 ∧
      s'.database 0 = some { db with data := trie } ∧ s'.dbs = s.dbs ∧ s'.expiringKeys = s.expiringKeys :=
    ⟨_, put, rfl, database_setDatabase_self hdb _, rfl, rfl⟩
  have bound : ∀ k, s'.boundItem 0 k =
      if k = key.bytes then some ⟨ttl.toInt16, val, now, now⟩ else s.boundItem 0 k := by
    intro k
    rw [boundItem_of_database database, boundItem_of_database hdb, items]
    dsimp only
    rw [map]
    by_cases atKey : k = key.bytes
    · simp [atKey, SlotHeap.load_alloc]
    · rw [Function.update_of_ne atKey, if_neg atKey]
      cases old : trieNodeSearch db.data.root k with
      | none => rfl
      | some a =>
        have live := r.owned.live 0 k a ⟨db, hdb, old⟩
        obtain ⟨item, loaded⟩ := Option.isSome_iff_exists.mp live
        have below := SlotHeap.lt_of_load loaded
        simp only [Option.bind_some, SlotHeap.load_alloc, if_neg (Nat.ne_of_lt below)]
  refine ⟨s', put, r.of_boundItem (r.owned.of_putHandler put) ⟨_, database, named⟩ dbs expiring
    (· = key.bytes) (fun _ => some ⟨ttl.toInt16, val, now, now⟩) bound (fun k item _ found => ?_)
    (fun k atKey => ?_) (fun k atKey => ?_)⟩
  · cases found
    exact noTtl
  · simp [atKey]
  · exact (Function.update_of_ne atKey _ _).symm

theorem putHandler_prefix_refines (r : StoreRefines s store) (pfx : headerPrefix header = true)
    {ttl : Int32} (noTtl : ttl.toInt16 = -1) (now : Int) (key val : CStr) :
    ∃ s', putHandler s ⟨0⟩ now header ttl key val = some (s', ackReplies OK) ∧
      StoreRefines s' (kvUpdateBelow key.bytes (fun _ => val) store) := by
  obtain ⟨db, hdb, -⟩ := r.named
  obtain ⟨items', done, r'⟩ := databasePrefixMod_refines r hdb false
    (f := fun item => { item with data := val, ttl := ttl.toInt16, lstime := now }) (g := fun _ => val)
    (fun _ _ => noTtl) (fun _ => rfl) key
  exact ⟨_, by simp [putHandler, hdb, pfx, databasePrefixSet, done], r'⟩

theorem getHandler_refines (r : StoreRefines s store) (plain : headerPrefix header = false) (now later : Int)
    (key : CStr) :
    getHandler s ⟨0⟩ now later header key = (kvGetReply store header key).map (s, ·) := by
  obtain ⟨db, hdb, -⟩ := r.named
  have values := r.values key.bytes
  rw [boundItem_of_database hdb] at values
  cases bound : trieNodeSearch db.data.root key.bytes with
  | none =>
    rw [bound] at values
    rw [kvGetReply, ← values, getHandler_of_unbound (c := ⟨0⟩) plain hdb bound]
    rfl
  | some a =>
    obtain ⟨item, loaded⟩ := Option.isSome_iff_exists.mp (r.owned.live 0 key.bytes a ⟨db, hdb, bound⟩)
    have noTtl : item.ttl = -1 :=
      r.noTtl key.bytes item (by rw [boundItem_of_database hdb, bound, Option.bind_some, loaded])
    have unexpired : item.ttl.toInt = -1 := by rw [noTtl]; decide
    have found : databaseSearch s.items db key now = some (true, some a) := by
      rw [databaseSearch_of_bound bound loaded now]
      simp [unexpired]
    rw [bound, Option.bind_some, loaded] at values
    rw [kvGetReply, ← values, getHandler_of_found (c := ⟨0⟩) plain hdb found loaded, if_neg (by omega)]
    simp only [Option.map_some, noTtl]
    rfl

theorem delHandler_refines (r : StoreRefines s store) (plain : headerPrefix header = false) (key : CStr) :
    ∃ s', delHandler s ⟨0⟩ header key =
        some (s', if key.length > 0 ∧ (store key.bytes).isSome then ackReplies OK else ackReplies NOK) ∧
      StoreRefines s' (if key.length > 0 ∧ (store key.bytes).isSome then
        Function.update store key.bytes none else store) := by
  obtain ⟨db, hdb, named⟩ := r.named
  have tries := r.owned.tries 0 db hdb
  have released : ∀ a, deletedItem db.data key = some a → (s.items.load a).isSome := by
    intro a item
    unfold deletedItem at item
    split_ifs at item
    exact r.owned.live 0 key.bytes a ⟨db, hdb, item⟩
  obtain ⟨items', removed, loads⟩ := trieDeleteItem_of_live released
  have removal : databaseRemove s.items db key =
      some ({ db with data := (trieDelete db.data key).1 }, items', (trieDelete db.data key).2) := by
    simp [databaseRemove, removed]
  obtain ⟨s', del, items, database, dbs, expiring⟩ : ∃ s', delHandler s ⟨0⟩ header key =
        some (s', if (trieDelete db.data key).2 then ackReplies OK else ackReplies NOK) ∧
      s'.items = items' ∧ s'.database 0 = some { db with data := (trieDelete db.data key).1 } ∧
      s'.dbs = s.dbs ∧ s'.expiringKeys = s.expiringKeys :=
    ⟨_, delHandler_of_plain (c := ⟨0⟩) plain hdb removal, rfl, database_setDatabase_self hdb _, rfl, rfl⟩
  have reply : (trieDelete db.data key).2 = decide (key.length > 0 ∧ (store key.bytes).isSome) := by
    rw [trieDelete_snd_of_made tries.1.madeWith key, r.isSome_store hdb]
    simp
  obtain ⟨-, map, -⟩ := trieDelete_spec db.data key (Or.inr tries.1.madeWith) tries.1.wf
  have bound : ∀ k, s'.boundItem 0 k = if key.length > 0 ∧ k = key.bytes then none else s.boundItem 0 k := by
    intro k
    rw [boundItem_of_database database, boundItem_of_database hdb, items]
    dsimp only
    rw [map]
    by_cases atKey : key.length > 0 ∧ k = key.bytes
    · obtain ⟨nonempty, rfl⟩ := atKey
      simp [(length_pos_iff key).mp nonempty, nonempty]
    · rw [if_neg atKey]
      have same : (if key.bytes = [] then trieNodeSearch db.data.root
          else Function.update (trieNodeSearch db.data.root) key.bytes none) k =
          trieNodeSearch db.data.root k := by
        split_ifs with empty
        · rfl
        · exact Function.update_of_ne (fun h => atKey ⟨(length_pos_iff key).mpr empty, h⟩) _ _
      rw [same]
      cases old : trieNodeSearch db.data.root k with
      | none => rfl
      | some a =>
        simp only [Option.bind_some, loads a]
        rw [if_neg]
        intro freed
        unfold deletedItem at freed
        split_ifs at freed with nonempty
        obtain ⟨-, rfl⟩ := r.owned.unique 0 key.bytes 0 k a ⟨db, hdb, freed⟩ ⟨db, hdb, old⟩
        exact atKey ⟨nonempty, rfl⟩
  refine ⟨s', ?_, r.of_boundItem (r.owned.of_delHandler del) ⟨_, database, named⟩ dbs expiring
    (fun k => key.length > 0 ∧ k = key.bytes) (fun _ => none) bound (fun _ _ _ found => by cases found)
    (fun k atKey => ?_) (fun k atKey => ?_)⟩
  · rw [del, reply]
    simp only [decide_eq_true_eq]
  · obtain ⟨nonempty, rfl⟩ := atKey
    rw [Option.map_none]
    split_ifs with held
    · rw [Function.update_self]
    · simp only [nonempty, true_and, Bool.not_eq_true, Option.isSome_eq_false_iff,
        Option.isNone_iff_eq_none] at held
      rw [held]
  · split_ifs with held
    · exact (Function.update_of_ne (fun h => atKey ⟨held.1, h⟩) _ _).symm
    · rfl

theorem delHandler_prefix_refines (r : StoreRefines s store) (pfx : headerPrefix header = true) (key : CStr) :
    ∃ s', delHandler s ⟨0⟩ header key = some (s', ackReplies OK) ∧
      StoreRefines s' (kvRemoveBelow key.bytes store) := by
  obtain ⟨db, hdb, named⟩ := r.named
  have tries := r.owned.tries 0 db hdb
  obtain ⟨distinct, -⟩ := r.owned.distinct_live hdb
  have released : (prefixDeletedItems db.data key).Nodup := by
    unfold prefixDeletedItems
    split
    · exact List.nodup_nil
    · next cursor found =>
      have below := trieNodeItems_nodup_of_find distinct found
      obtain ⟨chr, children, data⟩ := cursor
      refine below.sublist (List.Sublist.append_left ?_ _)
      split_ifs
      · exact List.Sublist.refl _
      · exact List.nil_sublist _
  have live : ∀ a ∈ prefixDeletedItems db.data key, (s.items.load a).isSome := fun a mem => by
    obtain ⟨k, -, bound⟩ := exists_search_of_mem_prefixDeletedItems tries.2 mem
    exact r.owned.live 0 k a ⟨db, hdb, bound⟩
  obtain ⟨items', removed, loads⟩ := databasePrefixRemove_spec released live
  obtain ⟨s', del, items, database, dbs, expiring⟩ : ∃ s',
      delHandler s ⟨0⟩ header key = some (s', ackReplies OK) ∧ s'.items = items' ∧
      s'.database 0 = some { db with data := triePrefixDelete db.data key } ∧ s'.dbs = s.dbs ∧
      s'.expiringKeys = s.expiringKeys :=
    ⟨{ s.setDatabase 0 { db with data := triePrefixDelete db.data key } with
        items := items'
        keyspaceSize := s.keyspaceSize - ((databaseSize db).toUInt64 -
          (databaseSize { db with data := triePrefixDelete db.data key }).toUInt64) },
      by simp [delHandler, hdb, pfx, removed], rfl, database_setDatabase_self hdb _, rfl, rfl⟩
  obtain ⟨-, map⟩ := triePrefixDelete_spec db.data key (Or.inr tries.1.madeWith) tries.1.wf
  have bound : ∀ k, s'.boundItem 0 k = if key.bytes <+: k ∧ k ≠ [] then none else s.boundItem 0 k := by
    intro k
    rw [boundItem_of_database database, boundItem_of_database hdb, items]
    dsimp only
    rw [map]
    dsimp only
    split_ifs with below
    · rfl
    · cases old : trieNodeSearch db.data.root k with
      | none => rfl
      | some a =>
        simp only [Option.bind_some, loads a]
        rw [if_neg]
        intro mem
        obtain ⟨k', below', held⟩ := exists_search_of_mem_prefixDeletedItems tries.2 mem
        obtain ⟨-, rfl⟩ := r.owned.unique 0 k' 0 k a ⟨db, hdb, held⟩ ⟨db, hdb, old⟩
        exact below below'
  refine ⟨s', del, r.of_boundItem (r.owned.of_delHandler del) ⟨_, database, named⟩ dbs expiring
    (fun k => key.bytes <+: k ∧ k ≠ []) (fun _ => none) bound (fun _ _ _ found => by cases found)
    (fun k below => ?_) (fun k below => ?_)⟩
  · rw [kvRemoveBelow, if_pos below, Option.map_none]
  · rw [kvRemoveBelow, if_neg below]

theorem integerHandler_refines (r : StoreRefines s store) (inc : Bool) (now : Int) (header : UInt8)
    (key : CStr) :
    ∃ s', integerHandler (unitStep inc)
        (fun items db pfx now => databasePrefixMod true (integerMod inc now) items db pfx) s ⟨0⟩ now header key =
        some (s', ackReplies OK) ∧ StoreRefines s' (kvInteger inc header key store) := by
  obtain ⟨db, hdb, -⟩ := r.named
  by_cases pfx : headerPrefix header
  · have keepsTtl : ∀ item : DbItem, item.ttl = -1 → (integerMod inc now item).ttl = -1 := by
      intro item noTtl
      unfold integerMod
      split_ifs <;> exact noTtl
    have data : ∀ item : DbItem, (integerMod inc now item).data = kvIntegerValue inc item.data := by
      intro item
      by_cases integer : isInteger item.data
      · rw [integerMod_data integer, kvIntegerValue, if_pos integer]
      · simp [integerMod, kvIntegerValue, integer]
    obtain ⟨items', done, r'⟩ := databasePrefixMod_refines r hdb true keepsTtl data key
    refine ⟨{ s with items := items' }, by simp [integerHandler, hdb, pfx, done], ?_⟩
    rw [kvInteger, if_pos pfx]
    exact r'
  · obtain ⟨items', done, r'⟩ := integerUpdate_refines r hdb inc now key
    refine ⟨{ s with items := items' }, by simp [integerHandler, hdb, pfx, done], ?_⟩
    rw [kvInteger, if_neg pfx]
    exact r'

theorem handle_refines (conf : Config) (infos : Informations) (r : StoreRefines s store) (now later : Int)
    {req : Request} {store' : List UInt8 → Option CStr} {reply : Bstring}
    (spec : kvRequest conf infos store req = some (store', reply)) :
    ∃ s', handle conf infos s ⟨0⟩ now later req = some (s', ⟨0⟩, reply) ∧ StoreRefines s' store' := by
  unfold kvRequest at spec
  split at spec
  next header ttl key val opcode =>
    rw [Request.header] at opcode
    split_ifs at spec with noTtl pfx <;> cases spec
    · obtain ⟨s', put, r'⟩ := putHandler_prefix_refines r pfx noTtl now key val
      exact ⟨s', by simp only [handle, Request.header, opcode, withClient, put, Option.map_some], r'⟩
    · obtain ⟨s', put, r'⟩ := putHandler_refines r (Bool.eq_false_iff.mpr pfx) noTtl now key val
      exact ⟨s', by simp only [handle, Request.header, opcode, withClient, put, Option.map_some], r'⟩
  next header key opcode =>
    rw [Request.header] at opcode
    split_ifs at spec with pfx
    obtain ⟨answer, replied, same⟩ := Option.map_eq_some_iff.mp spec
    cases same
    refine ⟨s, ?_, r⟩
    simp only [handle, Request.header, opcode, withClient, getHandler_refines r (Bool.eq_false_iff.mpr pfx),
      replied, Option.map_some]
  next header key opcode =>
    rw [Request.header] at opcode
    by_cases pfx : headerPrefix header
    · rw [if_pos pfx] at spec
      cases spec
      obtain ⟨s', del, r'⟩ := delHandler_prefix_refines r pfx key
      exact ⟨s', by simp only [handle, Request.header, opcode, withClient, del, Option.map_some], r'⟩
    obtain ⟨s', del, r'⟩ := delHandler_refines r (Bool.eq_false_iff.mpr pfx) key
    have handled : handle conf infos s ⟨0⟩ now later (.get header key) = some (s', ⟨0⟩,
        if key.length > 0 ∧ (store key.bytes).isSome then ackReplies OK else ackReplies NOK) := by
      simp only [handle, Request.header, opcode, withClient, del, Option.map_some]
    rw [if_neg pfx] at spec
    split_ifs at spec handled r' <;> cases spec <;> exact ⟨s', handled, r'⟩
  next header key opcode =>
    rw [Request.header] at opcode
    cases spec
    obtain ⟨s', done, r'⟩ := integerHandler_refines r true now header key
    have inc : incHandler s ⟨0⟩ now header key = some (s', ackReplies OK) := done
    exact ⟨s', by simp only [handle, Request.header, opcode, withClient, inc, Option.map_some], r'⟩
  next header key opcode =>
    rw [Request.header] at opcode
    cases spec
    obtain ⟨s', done, r'⟩ := integerHandler_refines r false now header key
    have dec : decHandler s ⟨0⟩ now header key = some (s', ackReplies OK) := done
    exact ⟨s', by simp only [handle, Request.header, opcode, withClient, dec, Option.map_some], r'⟩
  next req opcode =>
    cases spec
    exact ⟨s, by simp only [handle, opcode], r⟩
  next req opcode =>
    cases spec
    obtain ⟨db, hdb, named⟩ := r.named
    refine ⟨s, ?_, r⟩
    simp only [handle, opcode, dbHandler, hdb, named, Option.map_some]
  next req opcode =>
    cases spec
    exact ⟨s, by simp only [handle, opcode], r⟩
  next => cases spec

end Handlers

section Runs
variable (conf : Config) (infos : Informations)

theorem serverStep_refines : OpRun.Refines (serverStep conf infos) (kvStep conf infos) KvRefines := by
  intro srv kv o kv' rel spec
  cases o with
  | accept =>
    cases spec
    refine ⟨{ srv with clients := srv.clients ++ [⟨0⟩] }, by simp [serverStep, rel.triedb.dbs], rel.triedb,
      ?_, rel.replies⟩
    rw [rel.clients, List.replicate_succ']
  | request i now later req =>
    simp only [kvStep] at spec
    split_ifs at spec with connected
    obtain ⟨⟨store', reply⟩, answered, rfl⟩ := Option.map_eq_some_iff.mp spec
    obtain ⟨s', handled, r'⟩ := handle_refines conf infos rel.triedb now later answered
    have client : srv.clients[i]? = some ⟨0⟩ := by
      rw [rel.clients]
      simp [connected]
    refine ⟨⟨s', srv.clients.set i ⟨0⟩, srv.replies ++ [reply]⟩, by simp [serverStep, client, handled], r',
      ?_, ?_⟩
    · rw [rel.clients, List.set_replicate_self]
    · rw [rel.replies]
  | expire now =>
    cases spec
    exact ⟨srv, by simp [serverStep, expireKeys, rel.triedb.noExpiring], rel⟩

theorem kvRefines_startState : ∃ srv, startState = some srv ∧ KvRefines srv kvStart := by
  refine ⟨_, rfl, ⟨itemsOwned_startServer rfl, ⟨_, rfl, rfl⟩, rfl, rfl, fun k item found => ?_, fun k => ?_⟩,
    rfl, rfl⟩
  · rw [boundItem_of_empty rfl] at found
    cases found
  · rw [boundItem_of_empty rfl]
    rfl

end Runs

example : (OpRun.run (kvStep ⟨CStr.empty, 0, 0, 0, CStr.empty, CStr.empty, CStr.empty, 0, 0, 0, 0⟩
        ⟨0, 0, 0, 0, 0, 0, 0, 0⟩) kvStart
        [.accept, .accept, .request 1 0 0 (.put 0x10 (-1) ⟨[97], by decide⟩ ⟨[49], by decide⟩),
          .request 0 1 1 (.put 0x10 (-1) ⟨[97], by decide⟩ ⟨[50], by decide⟩), .request 0 2 2 (.get 0x20 ⟨[97], by decide⟩), .expire 3,
          .request 0 4 4 (.get 0x38 CStr.empty), .request 1 5 5 (.get 0x20 ⟨[97], by decide⟩)]).map KvStore.replies =
      some [ackReplies OK, ackReplies OK, [0x20, 8, 255, 255, 255, 255, 0, 1, 97, 50], ackReplies OK,
        ackReplies NOK] := by
  decide

end TrieDB
