import TrieDB.Library.SlotHeap
import TrieDB.TrieMap

/-!
`db.c`: a database is a name and a trie whose data are `db_item`s. The items
live in one heap shared by every database, and a trie's data are their
addresses, so that an `expiring_key` of `server.c` can point at the item a trie
holds. `time(NULL)` is the argument `now`, read once per call.
-/
namespace TrieDB

/-- `struct db_item`: `ttl` is a `short`, the times are `time_t`. -/
structure DbItem where
  ttl : Int16
  data : CStr
  ctime : Int
  lstime : Int
  deriving DecidableEq

/-- `(item->ctime + item->ttl) - now`, the delta `get_handler`, `compare_ttl`
and `expire_keys` compute. -/
def DbItem.delta (item : DbItem) (now : Int) : Int := item.ctime + item.ttl.toInt - now

structure Database where
  name : CStr
  data : Trie Nat

def databaseInit (name : CStr) (destructor : Option (TrieDestructor Nat)) : Database :=
  ⟨name, trieNew destructor⟩

def databaseSize (db : Database) : Nat := db.data.size

/-- `database_insert`: a new item, created and last seen now, bound to `key`. -/
def databaseInsert (items : SlotHeap DbItem) (db : Database) (key data : CStr) (ttl : Int16)
    (now : Int) : Option (Database × SlotHeap DbItem) :=
  let (item, items) := items.alloc ⟨ttl, data, now, now⟩
  (trieInsert db.data key item).map fun trie => ({ db with data := trie }, items)

/-- `database_search`: whether `key` is bound to an item not yet expired, and
`*ret`. An item with `ttl > -1` expires `ttl` seconds after `ctime`. -/
def databaseSearch (items : SlotHeap DbItem) (db : Database) (key : CStr) (now : Int) :
    Option (Bool × Option Nat) :=
  match trieFind db.data key with
  | (true, some item) => do
    let dbItem ← items.load item
    let found := !(dbItem.ttl.toInt > -1 && dbItem.ttl.toInt ≤ now - dbItem.ctime)
    pure (found, if found then some item else none)
  | _ => pure (false, none)

/-- The item `trie_delete(trie, key)` releases: the data of the node it
clears, which both destructors the program uses free. -/
def deletedItem (trie : Trie Nat) (key : CStr) : Option Nat :=
  if key.length > 0 then trieNodeSearch trie.root key.bytes else none

/-- `trie_delete` on a database's trie, with the release of the item. -/
def trieDeleteItem (items : SlotHeap DbItem) (trie : Trie Nat) (key : CStr) :
    Option (Trie Nat × SlotHeap DbItem × Bool) :=
  let (trie', ret) := trieDelete trie key
  match deletedItem trie key with
  | some item => (items.free item).map fun items => (trie', items, ret)
  | none => some (trie', items, ret)

def databaseRemove (items : SlotHeap DbItem) (db : Database) (key : CStr) :
    Option (Database × SlotHeap DbItem × Bool) :=
  (trieDeleteItem items db.data key).map fun (trie, items, ret) => ({ db with data := trie }, items, ret)

variable {δ : Type}

mutual
/-- The data of a children tree, in the order `children_destroy` visits it. -/
def childrenItems : BstNode (TrieNode δ) → List δ
  | .nil => []
  | .node _ _ left right data => trieNodeItems data ++ childrenItems left ++ childrenItems right

/-- The data of a subtree, in the order `trie_node_destroy` releases it. -/
def trieNodeItems : TrieNode δ → List δ
  | ⟨_, children, data⟩ => childrenItems children ++ data.toList
end

/-- The items `trie_prefix_delete(trie, prefix)` releases: every one below the
node of `prefix`, and its own through `trie_delete` unless `prefix` is empty. -/
def prefixDeletedItems (trie : Trie Nat) (pfx : CStr) : List Nat :=
  match trieNodeFind trie.root pfx.bytes with
  | none => []
  | some cursor => childrenItems cursor.children ++ if pfx.length > 0 then cursor.data.toList else []

def databasePrefixRemove (items : SlotHeap DbItem) (db : Database) (pfx : CStr) :
    Option (Database × SlotHeap DbItem) :=
  (items.freeAll (prefixDeletedItems db.data pfx)).map fun items =>
    ({ db with data := triePrefixDelete db.data pfx }, items)

def databasePrefixCount (db : Database) (pfx : CStr) : Nat := triePrefixCount db.data pfx

def databasePrefixSearch (db : Database) (pfx : CStr) : Option (Option (Vector (KvObj Nat))) :=
  triePrefixFind db.data pfx

def itemMod (f : DbItem → DbItem) (items : SlotHeap DbItem) : Option Nat → Option (SlotHeap DbItem)
  | some item => items.modify item f
  | none => some items

mutual
/-- `bst_node_prefix_set`, `bst_node_prefix_ttl` and `bst_node_integer_mod`:
the left subtree, the right one, then the node's trie. -/
def bstNodeItemsMod (nodeFirst : Bool) (f : DbItem → DbItem) :
    BstNode (TrieNode Nat) → SlotHeap DbItem → Option (SlotHeap DbItem)
  | .nil, items => some items
  | .node _ _ left right data, items => do
    let items ← bstNodeItemsMod nodeFirst f left items
    let items ← bstNodeItemsMod nodeFirst f right items
    trieNodeItemsMod nodeFirst f data items

/-- `trie_node_prefix_set` and `trie_node_prefix_ttl` visit the children
before the node; `trie_node_integer_mod` visits the node first. -/
def trieNodeItemsMod (nodeFirst : Bool) (f : DbItem → DbItem) :
    TrieNode Nat → SlotHeap DbItem → Option (SlotHeap DbItem)
  | ⟨_, children, data⟩, items =>
    if nodeFirst then do
      let items ← itemMod f items data
      bstNodeItemsMod nodeFirst f children items
    else do
      let items ← bstNodeItemsMod nodeFirst f children items
      itemMod f items data
end

def databasePrefixMod (nodeFirst : Bool) (f : DbItem → DbItem) (items : SlotHeap DbItem)
    (db : Database) (pfx : CStr) : Option (SlotHeap DbItem) :=
  match trieNodeFind db.data.root pfx.bytes with
  | none => some items
  | some node => trieNodeItemsMod nodeFirst f node items

/-- `database_prefix_set`: a copy of `val`, the TTL and the last-seen time. -/
def databasePrefixSet (items : SlotHeap DbItem) (db : Database) (pfx val : CStr) (ttl : Int16)
    (now : Int) : Option (SlotHeap DbItem) :=
  databasePrefixMod false (fun item => { item with data := val, ttl, lstime := now }) items db pfx

/-- `database_prefix_ttl`: the TTL and the last-seen time. -/
def databasePrefixTtl (items : SlotHeap DbItem) (db : Database) (pfx : CStr) (ttl : Int16)
    (now : Int) : Option (SlotHeap DbItem) :=
  databasePrefixMod false (fun item => { item with ttl, lstime := now }) items db pfx

/-- `trie_node_integer_mod` on one item: an integer value `n` becomes
`sprintf("%d", n + 1)`, or `n - 1`, and the item is seen now. -/
def integerMod (inc : Bool) (now : Int) (item : DbItem) : DbItem :=
  if isInteger item.data then
    { item with data := formatInt (if inc then parseInt item.data + 1 else parseInt item.data - 1),
                lstime := now }
  else item

def databasePrefixInc (items : SlotHeap DbItem) (db : Database) (pfx : CStr) (now : Int) :
    Option (SlotHeap DbItem) :=
  databasePrefixMod true (integerMod true now) items db pfx

def databasePrefixDec (items : SlotHeap DbItem) (db : Database) (pfx : CStr) (now : Int) :
    Option (SlotHeap DbItem) :=
  databasePrefixMod true (integerMod false now) items db pfx

section Search
variable {items : SlotHeap DbItem} {db : Database} {key : CStr}

theorem databaseSearch_of_bound {a : Nat} {item : DbItem}
    (bound : trieNodeSearch db.data.root key.bytes = some a) (live : items.load a = some item)
    (now : Int) :
    databaseSearch items db key now =
      some (!(item.ttl.toInt > -1 && item.ttl.toInt ≤ now - item.ctime),
        if !(item.ttl.toInt > -1 && item.ttl.toInt ≤ now - item.ctime) then some a else none) := by
  simp [databaseSearch, trieFind, bound, live]

theorem databaseSearch_of_unbound (unbound : trieNodeSearch db.data.root key.bytes = none)
    (now : Int) : databaseSearch items db key now = some (false, none) := by
  simp [databaseSearch, trieFind, unbound]

end Search

section Remove
variable {items : SlotHeap DbItem} {trie : Trie Nat}

theorem trieDelete_snd_of_made (made : trie.destructor = some trieNodeDestructor) (key : CStr) :
    (trieDelete trie key).2 = (decide (key.length > 0) && (trieNodeSearch trie.root key.bytes).isSome) := by
  unfold trieDelete
  split_ifs with nonempty
  · cases found : trieNodeFind trie.root key.bytes with
    | none => simp [trieNodeSearch, found]
    | some retnode => simp [trieDeleteHere, made, trieNodeDestructor, trieNodeSearch, found, nonempty]
  · simp [nonempty]

theorem trieDeleteItem_of_live {key : CStr} (live : ∀ a, deletedItem trie key = some a → (items.load a).isSome) :
    ∃ items', trieDeleteItem items trie key = some ((trieDelete trie key).1, items', (trieDelete trie key).2) ∧
      ∀ b, items'.load b = if deletedItem trie key = some b then none else items.load b := by
  cases released : deletedItem trie key with
  | none => exact ⟨items, by simp [trieDeleteItem, released], by simp⟩
  | some a =>
    have freed : items.free a = some ⟨items.slots.set a none⟩ :=
      SlotHeap.free_eq_some.mpr ⟨live a released, rfl⟩
    refine ⟨⟨items.slots.set a none⟩, by simp [trieDeleteItem, released, freed], fun b => ?_⟩
    rw [SlotHeap.load_free freed b]
    by_cases same : b = a
    · simp [same]
    · simp [same, Ne.symm same]

end Remove

section PrefixRemove
variable {items : SlotHeap DbItem} {db : Database} {pfx : CStr}

theorem databasePrefixRemove_spec (distinct : (prefixDeletedItems db.data pfx).Nodup)
    (live : ∀ a ∈ prefixDeletedItems db.data pfx, (items.load a).isSome) :
    ∃ items', databasePrefixRemove items db pfx =
        some ({ db with data := triePrefixDelete db.data pfx }, items') ∧
      ∀ b, items'.load b = if b ∈ prefixDeletedItems db.data pfx then none else items.load b := by
  obtain ⟨items', freed⟩ := Option.isSome_iff_exists.mp
    ((SlotHeap.freeAll_isSome_iff items _).mpr ⟨distinct, live⟩)
  exact ⟨items', by simp [databasePrefixRemove, freed], SlotHeap.load_freeAll freed⟩

end PrefixRemove

end TrieDB
