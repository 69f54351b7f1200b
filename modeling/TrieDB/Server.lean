import TrieDB.Db
import TrieDB.Hashtable
import TrieDB.Network

/-!
`server.c`, on the worker side: the global `triedb` instance, the command
handlers, the expiry sweep and the dispatch through `handlers[opcode]`.
The databases are the objects `dbs` points to, by position, and a client or an
`expiring_key` names one by its position. A handler's reply is the `bstring`
`io_worker` sends. Each handler reads the clock once, as `now`. A handler that
reads a released item, dereferences NULL or sends a reply it never set gives
`none`.
-/
namespace TrieDB

/-- `struct expiring_key`: `dataPtr` is the database whose trie `data_ptr`
points to. -/
structure ExpiringKey where
  dataPtr : Nat
  item : Nat
  key : CStr
  deriving DecidableEq

/-- `struct triedb`, with the heap of `db_item`s and the databases. The
clients table and the cluster are left out. -/
structure Triedb where
  items : SlotHeap DbItem
  databases : List Database
  expiringKeys : Vector ExpiringKey
  dbs : HashTable Nat
  keyspaceSize : UInt64

/-- `struct client`: the database it selected. -/
structure Client where
  db : Nat
  deriving DecidableEq

namespace Triedb

def database (s : Triedb) (d : Nat) : Option Database := s.databases[d]?

def setDatabase (s : Triedb) (d : Nat) (db : Database) : Triedb :=
  { s with databases := s.databases.set d db }

end Triedb

/-- `ack_replies[rc]`, as `start_server` fills them with `pack_ack(ACK, rc)`. -/
def ackReplies (rc : UInt8) : Bstring := packAck Opcode.ack.toNat.toUInt8 rc

def db0 : CStr := ⟨[100, 98, 48], by decide⟩

/-- `start_server`: the default database `db0` at position 0, in `dbs`. -/
def startServer : Option Triedb := do
  let dbs ← hashtablePut hashtableNew db0 0
  pure ⟨SlotHeap.empty, [databaseInit db0 (some trieNodeDestructor)], vectorNew, dbs, 0⟩

/-- `pack_response(res, type)` on a GET response: `pack_handlers[GET]` is
`pack_response_get`, and `pack_handlers[KEYS]` is NULL. -/
def packResponse (res : GetResponse) (type : Nat) : Option Bstring :=
  if type = Opcode.get.toNat then packResponseGet res else none

/-- `get_response` on the vector of a prefix search: a tuple for each
`kv_obj`, with the TTL and the value of its item. -/
def prefixTuples (items : SlotHeap DbItem) (v : Vector (KvObj Nat)) : Option (List Tuple) :=
  v.items.mapM fun kv =>
    (items.load kv.data).map fun item => ⟨item.ttl.toInt32, kv.key.length % 2 ^ 16, kv.key, item.data⟩

/-- The linear search of `get_handler` for the entry of `item`, deleted once
found. -/
def removeExpiringKey (eks : Vector ExpiringKey) (item : Nat) : Vector ExpiringKey :=
  match eks.items.findIdx? (fun ek => ek.item == item) with
  | some i => vectorDelete eks i
  | none => eks

/-- What both branches of `get_handler` do for an expired `item`:
`database_remove` of the request's key, the entry of `item` out of
`expiring_keys`, and one off `keyspace_size`. -/
def getExpire (s : Triedb) (c : Client) (key : CStr) (item : Nat) : Option Triedb := do
  let db ← s.database c.db
  let (db, items, _) ← databaseRemove s.items db key
  pure { s.setDatabase c.db db with
    items
    expiringKeys := removeExpiringKey s.expiringKeys item
    keyspaceSize := s.keyspaceSize - 1 }

/-- The loop `for (int i = 0; i < vector_size(v); ++i)` of a prefix GET: an
expired entry is removed through `getExpire` with the request's key, and
deleted from `v`, after which `++i` passes over the entry that took its place.
`i` grows and `v` never does, so `vector_size(v)` rounds of `fuel` suffice. -/
def getPrefixExpire (c : Client) (key : CStr) (now : Int) :
    Nat → Triedb → Vector (KvObj Nat) → Nat → Option (Triedb × Vector (KvObj Nat))
  | 0, s, v, i => if i < v.size then none else some (s, v)
  | fuel + 1, s, v, i =>
    if i < v.size then do
      let cur ← vectorGet v i
      let item ← s.items.load cur.data
      if item.ttl.toInt ≠ -1 ∧ item.delta now ≤ 0 then
        let s ← getExpire s c key cur.data
        getPrefixExpire c key now fuel s (vectorDelete v i) (i + 1)
      else getPrefixExpire c key now fuel s v (i + 1)
    else some (s, v)

/-- `put_handler`. The TTL is converted to the `short` of `db_item`. -/
def putHandler (s : Triedb) (c : Client) (now : Int) (header : UInt8) (ttl : Int32) (key val : CStr) :
    Option (Triedb × Bstring) := do
  let db ← s.database c.db
  if headerPrefix header then
    let items ← databasePrefixSet s.items db key val ttl.toInt16 now
    pure ({ s with items }, ackReplies OK)
  else
    let (db, items) ← databaseInsert s.items db key val ttl.toInt16 now
    pure ({ s.setDatabase c.db db with items, keyspaceSize := s.keyspaceSize + 1 }, ackReplies OK)

/-- `get_handler`, with the values of the `time(NULL)` calls it makes in
order: a plain GET reads `now` in `database_search` and, for a key with a TTL,
`later` for the lazy removal; a prefix GET reads `now` once, after
`database_prefix_search`. -/
def getHandler (s : Triedb) (c : Client) (now later : Int) (header : UInt8) (key : CStr) :
    Option (Triedb × Bstring) := do
  let db ← s.database c.db
  if !headerPrefix header then
    match ← databaseSearch s.items db key now with
    | (true, some val) =>
      let item ← s.items.load val
      if item.ttl.toInt ≠ -1 ∧ item.delta later ≤ 0 then
        let s ← getExpire s c key val
        pure (s, ackReplies NOK)
      else
        let t : Tuple := ⟨item.ttl.toInt32, key.length % 2 ^ 16, key, item.data⟩
        let reply ← packResponse (.val header t) (headerOpcode header)
        pure (s, reply)
    | _ => pure (s, ackReplies NOK)
  else
    -- the loop reads `vector_size(v)` before the NULL test of a missing path
    let v ← (← databasePrefixSearch db key)
    let (s, v) ← getPrefixExpire c key now v.size s v 0
    let tuples ← prefixTuples s.items v
    let reply ← packResponse (.tuples header (v.size % 2 ^ 16) tuples) (headerOpcode header)
    pure (s, reply)

/-- `del_handler`. A prefix DEL takes off the `size_t` difference of the
database's size. -/
def delHandler (s : Triedb) (c : Client) (header : UInt8) (key : CStr) : Option (Triedb × Bstring) := do
  let db ← s.database c.db
  if headerPrefix header then
    let currsize := databaseSize db
    let (db, items) ← databasePrefixRemove s.items db key
    pure ({ s.setDatabase c.db db with
      items
      keyspaceSize := s.keyspaceSize - (currsize.toUInt64 - (databaseSize db).toUInt64) },
      ackReplies OK)
  else
    let (db, items, found) ← databaseRemove s.items db key
    let s := { s.setDatabase c.db db with items }
    if found then pure ({ s with keyspaceSize := s.keyspaceSize - 1 }, ackReplies OK)
    else pure (s, ackReplies NOK)

def compareTtl (items : SlotHeap DbItem) (now : Int) (arg1 arg2 : ExpiringKey) : Bool :=
  match items.load arg1.item, items.load arg2.item with
  | some n1, some n2 => n1.delta now ≤ n2.delta now
  -- not reached: `sortExpiringKeys` has checked every item
  | _, _ => false

/-- `vector_qsort(triedb.expiring_keys, compare_ttl, ...)`. With two entries
or more the first partition reads the item of every entry, which is undefined
for a released one. -/
def sortExpiringKeys (items : SlotHeap DbItem) (now : Int) (eks : Vector ExpiringKey) :
    Option (Vector ExpiringKey) :=
  if eks.size ≥ 2 ∧ eks.items.any (fun ek => (items.load ek.item).isNone) then none
  else vectorQsort eks (compareTtl items now)

/-- `ttl_handler`: the new TTL counts from now, and a key without a TTL so far
gets an entry in `expiring_keys`. -/
def ttlHandler (s : Triedb) (c : Client) (now : Int) (key : CStr) (ttl : Int32) :
    Option (Triedb × Bstring) := do
  let db ← s.database c.db
  match trieFind db.data key with
  | (true, some val) =>
    let item ← s.items.load val
    let hasTtl := !(item.ttl.toInt < 0)
    let items ← s.items.modify val fun item => { item with ttl := ttl.toInt16, ctime := now, lstime := now }
    let eks := if !hasTtl then vectorAppend s.expiringKeys ⟨c.db, val, key⟩ else s.expiringKeys
    let eks ← sortExpiringKeys items now eks
    pure ({ s with items, expiringKeys := eks }, ackReplies OK)
  | _ => pure (s, ackReplies NOK)

/-- The plain branch of `inc_handler` and `dec_handler`: `database_search`,
then `update_integer_string` on a value that is an integer. -/
def integerUpdate (num : Int32) (items : SlotHeap DbItem) (db : Database) (key : CStr) (now : Int) :
    Option (SlotHeap DbItem) := do
  match ← databaseSearch items db key now with
  | (true, some val) =>
    let item ← items.load val
    if isInteger item.data then
      items.modify val fun item => { item with data := updateIntegerString item.data num }
    else pure items
  | _ => pure items

/-- `inc_handler` and `dec_handler`, with the step `num` of
`update_integer_string` and the prefix update. Both branches of a missing key
or a value that is not an integer set NOK, and every path then sets OK. -/
def integerHandler (num : Int32)
    (prefixMod : SlotHeap DbItem → Database → CStr → Int → Option (SlotHeap DbItem))
    (s : Triedb) (c : Client) (now : Int) (header : UInt8) (key : CStr) : Option (Triedb × Bstring) := do
  let db ← s.database c.db
  let items ← if headerPrefix header then prefixMod s.items db key now
    else integerUpdate num s.items db key now
  pure ({ s with items }, ackReplies OK)

def incHandler (s : Triedb) (c : Client) (now : Int) (header : UInt8) (key : CStr) :
    Option (Triedb × Bstring) :=
  integerHandler 1 databasePrefixInc s c now header key

def decHandler (s : Triedb) (c : Client) (now : Int) (header : UInt8) (key : CStr) :
    Option (Triedb × Bstring) :=
  integerHandler (-1) databasePrefixDec s c now header key

/-- `cnt_handler`: `packet->count.key` is never NULL, so the count is always
the prefix count. -/
def cntHandler (s : Triedb) (c : Client) (key : CStr) : Option Bstring := do
  let db ← s.database c.db
  pure (packCnt Opcode.cnt.toNat.toUInt8 (databasePrefixCount db key))

/-- `use_handler`: the database `dbs` finds for the name, or a new one. -/
def useHandler (s : Triedb) (key : CStr) : Option (Triedb × Client × Bstring) :=
  match hashtableGet s.dbs key with
  | some database => some (s, ⟨database⟩, ackReplies OK)
  | none => do
    let database := s.databases.length
    let dbs ← hashtablePut s.dbs key database
    pure ({ s with databases := s.databases ++ [databaseInit key (some trieNodeDestructor)], dbs },
      ⟨database⟩, ackReplies OK)

/-- `keys_handler`: `pack_response` calls the NULL `pack_handlers[KEYS]`
whenever the search finds a path. -/
def keysHandler (s : Triedb) (c : Client) (key : CStr) : Option Bstring := do
  let db ← s.database c.db
  match ← databasePrefixSearch db key with
  | none => pure (ackReplies NOK)
  | some _ => none

/-- `db_handler`: the name of the client's database. -/
def dbHandler (s : Triedb) (c : Client) : Option Bstring :=
  (s.database c.db).map fun db => bstringNew db.name

def withClient (c : Client) : Option (Triedb × Bstring) → Option (Triedb × Client × Bstring) :=
  Option.map fun r => (r.1, c, r.2)

/-- The worker's `handlers[event->payload->header.bits.opcode](event)`, on
the member of the request each handler reads. `quit_handler` and
`flush_handler` leave `event->reply` unset, and the table has no entry 15.
`now` and `later` are the clock values the handler reads, in order; only a
plain GET reads a second one. -/
def handle (conf : Config) (infos : Informations) (s : Triedb) (c : Client) (now later : Int)
    (req : Request) : Option (Triedb × Client × Bstring) :=
  match headerOpcode req.header, req with
  | 1, .put header ttl key val => withClient c (putHandler s c now header ttl key val)
  | 2, .get header key => withClient c (getHandler s c now later header key)
  | 3, .get header key => withClient c (delHandler s c header key)
  | 4, .ttl _ ttl key => withClient c (ttlHandler s c now key ttl)
  | 5, .get header key => withClient c (incHandler s c now header key)
  | 6, .get header key => withClient c (decHandler s c now header key)
  | 7, .get _ key => (cntHandler s c key).map fun reply => (s, c, reply)
  | 8, .get _ key => useHandler s key
  | 9, .get _ key => (keysHandler s c key).map fun reply => (s, c, reply)
  | 10, _ => some (s, c, ackReplies OK)
  | 12, _ => (dbHandler s c).map fun reply => (s, c, reply)
  | 13, _ => some (s, c, packInfo conf infos)
  | _, _ => none

/-- The loop of `expire_keys` from entry `i`: it stops at the first entry
whose item has time left, and otherwise deletes the entry's key from its trie
and the entry, after which `++i` passes over the next one. -/
def expireKeysLoop (now : Int) : Nat → Triedb → Nat → Option Triedb
  | 0, s, i => if i < s.expiringKeys.size then none else some s
  | fuel + 1, s, i =>
    if i < s.expiringKeys.size then do
      let ek ← vectorGet s.expiringKeys i
      let item ← s.items.load ek.item
      if item.delta now > 0 then some s
      else
        let db ← s.database ek.dataPtr
        let (trie, items, _) ← trieDeleteItem s.items db.data ek.key
        expireKeysLoop now fuel
          { s.setDatabase ek.dataPtr { db with data := trie } with
            items
            expiringKeys := vectorDelete s.expiringKeys i
            keyspaceSize := s.keyspaceSize - 1 } (i + 1)
    else some s

def expireKeys (s : Triedb) (now : Int) : Option Triedb :=
  if s.expiringKeys.size = 0 then some s else expireKeysLoop now s.expiringKeys.size s 0

/-- The state of the server: the instance, the connected clients and the
replies sent so far, oldest first. -/
structure Server where
  triedb : Triedb
  clients : List Client
  replies : List Bstring

/-- What happens next: a client connects, a worker handles a request of the
client at `client`, reading the clock values `now` and then `later`, or the
expiry timer fires. -/
inductive WorkerStep where
  | accept
  | request (client : Nat) (now later : Int) (req : Request)
  | expire (now : Int)

/-- A step `read_data` can lead to: its request is one `unpack_triedb_request`
decodes. -/
def WorkerStep.Delivered : WorkerStep → Prop
  | .request _ _ _ req => req.Delivered
  | _ => True

/-- One step, from the request on: the step does not run `read_data`, so it
also takes requests that `unpack_triedb_request` never produces, such as the
INC, DEC, TTL or USE whose `unpack_handlers` entry is NULL. A run of it covers
the runs of the server where every step is `Delivered`. A new client starts on
`hashtable_get(triedb.dbs, "db0")`. -/
def serverStep (conf : Config) (infos : Informations) (srv : Server) : WorkerStep → Option Server
  | .accept => do
    let db ← hashtableGet srv.triedb.dbs db0
    pure { srv with clients := srv.clients ++ [⟨db⟩] }
  | .request i now later req => do
    let c ← srv.clients[i]?
    let (triedb, c, reply) ← handle conf infos srv.triedb c now later req
    pure ⟨triedb, srv.clients.set i c, srv.replies ++ [reply]⟩
  | .expire now => do
    let triedb ← expireKeys srv.triedb now
    pure { srv with triedb }

/-- The server `start_server` starts, before any client. -/
def startState : Option Server := startServer.map fun triedb => ⟨triedb, [], []⟩

end TrieDB
