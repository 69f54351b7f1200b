import TrieDB.Bst
import TrieDB.Util
import TrieDB.Vector

/-!
`trie.c`: the trie under every database. A node holds its character, its
children in a `bst_node` tree keyed by the next character, and a data pointer;
a `Trie` adds the root, the count of bound keys and the destructor it was made
with. A write into a node reached by a walk becomes a copy of the walk's path.
The destroy functions release the nodes they visit, which the model drops with
the subtree; what remains of them is their effect on `size`.
-/
namespace TrieDB

/-- `struct trie_node`, with `data = none` for NULL. -/
structure TrieNode (δ : Type) where
  chr : UInt8
  children : BstNode (TrieNode δ)
  data : Option δ

/-- A `trie_destructor` as it acts on the node it is given: from the node's
data and `dataonly`, the data it leaves in the node and what it returns. -/
def TrieDestructor (δ : Type) := Option δ → Bool → Option δ × Bool

/-- `Trie`. `size` is a `size_t`, which never has to wrap: nodes are counted. -/
structure Trie (δ : Type) where
  destructor : Option (TrieDestructor δ)
  root : TrieNode δ
  size : Nat

structure KvObj (δ : Type) where
  key : CStr
  data : δ

variable {δ : Type}

/-- `trie_node_destructor` of `server.c`, the destructor of every database's
trie: it releases the node's `db_item`, clears `data` and returns whether there
was one, and with `dataonly == false` releases the node as well. -/
def trieNodeDestructor : TrieDestructor δ := fun data _ => (none, data.isSome)

def trieCreateNode (c : UInt8) : TrieNode δ := ⟨c, .nil, none⟩

/-- `trie_new`, through `trie_init`: the root is the node of `'\0'`. -/
def trieNew (destructor : Option (TrieDestructor δ)) : Trie δ := ⟨destructor, trieCreateNode 0, 0⟩

def trieSize (trie : Trie δ) : Nat := trie.size

def trieIsFreeNode (node : TrieNode δ) : Bool := node.children.isNil

/-- `bst_search(node->children, c)` followed by `child->data`: the node under `c`. -/
def trieChild (node : TrieNode δ) (c : UInt8) : Option (TrieNode δ) := bstFind node.children c

def trieNodeFind (node : TrieNode δ) : List UInt8 → Option (TrieNode δ)
  | [] => some node
  | c :: cs =>
    match trieChild node c with
    | some child => trieNodeFind child cs
    | none => none

/-- A write through the pointer `trie_node_find(node, path)` returns: `f` applied
to the node at `path`, and every node above it rebuilt. A missing node leaves the
tree as it is. -/
def trieNodeWrite (f : TrieNode δ → TrieNode δ) (node : TrieNode δ) : List UInt8 → TrieNode δ
  | [] => f node
  | c :: cs =>
    match trieChild node c with
    | some child => { node with children := bstWrite node.children c (trieNodeWrite f child cs) }
    | none => node

/-- `trie_node_search`: the data at the end of `key`'s path. -/
def trieNodeSearch (root : TrieNode δ) (key : List UInt8) : Option δ :=
  (trieNodeFind root key).bind (·.data)

/-- `trie_find`: its result and `*ret`. -/
def trieFind (trie : Trie δ) (key : CStr) : Bool × Option δ :=
  let ret := trieNodeSearch trie.root key.bytes
  (ret.isSome, ret)

/-- `trie_node_insert` from `cursor` along `key`, with `*size`. A missing child
is created, inserted into the children and then filled; the model fills it
first, which `bst_insert`, reading only its key, does not see. -/
def trieNodeInsert (cursor : TrieNode δ) (key : List UInt8) (data : δ) (size : Nat) :
    Option (TrieNode δ × Nat) :=
  match key with
  | [] => some ({ cursor with data := some data }, if cursor.data.isNone then size + 1 else size)
  | c :: cs =>
    match trieChild cursor c with
    | some tmp => do
      let (child, size) ← trieNodeInsert tmp cs data size
      pure ({ cursor with children := bstWrite cursor.children c child }, size)
    | none => do
      let (child, size) ← trieNodeInsert (trieCreateNode c) cs data size
      let children ← bstInsert cursor.children c child
      pure ({ cursor with children := children }, size)

/-- `trie_insert`. It returns `data` itself, which no caller reads. -/
def trieInsert (trie : Trie δ) (key : CStr) (data : δ) : Option (Trie δ) :=
  (trieNodeInsert trie.root key.bytes data trie.size).map fun (root, size) =>
    { trie with root, size }

/-- What `trie_delete` does at the node its walk reaches: the data left in the
node, the value returned, and whether `size` drops. -/
def trieDeleteHere (destructor : Option (TrieDestructor δ)) (retnode : TrieNode δ) :
    Option δ × Bool × Bool :=
  match destructor with
  | some d =>
    let (data, ret) := d retnode.data true
    (data, ret, ret)
  | none =>
    match retnode.data with
    | some _ => (none, true, true)
    | none => (none, true, false)

/-- `trie_delete`. Its walk is the loop of `trie_node_find`, and the empty key
is refused by the test `strlen(key) > 0`. -/
def trieDelete (trie : Trie δ) (key : CStr) : Trie δ × Bool :=
  if key.length > 0 then
    match trieNodeFind trie.root key.bytes with
    | none => (trie, false)
    | some retnode =>
      let (data, ret, dec) := trieDeleteHere trie.destructor retnode
      ({ trie with
          root := trieNodeWrite (fun n => { n with data }) trie.root key.bytes
          size := if dec then trie.size - 1 else trie.size }, ret)
  else (trie, false)

mutual
/-- `children_destroy`, on `*len`. -/
def childrenDestroy (destructor : Option (TrieDestructor δ)) :
    BstNode (TrieNode δ) → Nat → Nat
  | .nil, len => len
  | .node _ _ left right data, len =>
    let len := trieNodeDestroy destructor data len
    let len := childrenDestroy destructor left len
    childrenDestroy destructor right len

/-- `trie_node_destroy`, on `*size`. A destructor releases the node with
`destructor(node, false)` and leaves `size` alone; without one, a node with
data takes one off `size` while it is positive. -/
def trieNodeDestroy (destructor : Option (TrieDestructor δ)) : TrieNode δ → Nat → Nat
  | ⟨_, children, data⟩, size =>
    let size := childrenDestroy destructor children size
    match destructor with
    | some _ => size
    | none => if data.isSome ∧ size > 0 then size - 1 else size
end

def triePrefixDelete (trie : Trie δ) (key : CStr) : Trie δ :=
  match trieNodeFind trie.root key.bytes with
  | none => trie
  | some cursor =>
    if trieIsFreeNode cursor then (trieDelete trie key).1
    else
      let size := childrenDestroy trie.destructor cursor.children trie.size
      let root := trieNodeWrite (fun n => { n with children := .nil }) trie.root key.bytes
      (trieDelete { trie with root, size } key).1

mutual
def trieChildrenCount : BstNode (TrieNode δ) → Nat
  | .nil => 0
  | .node _ _ left right data => trieNodeCount data + trieChildrenCount left + trieChildrenCount right

def trieNodeCount : TrieNode δ → Nat
  | ⟨_, children, data⟩ => if data.isSome then 1 + trieChildrenCount children
    else trieChildrenCount children
end

def triePrefixCount (trie : Trie δ) (key : CStr) : Nat :=
  match trieNodeFind trie.root key.bytes with
  | none => 0
  | some node => trieNodeCount node

/-- `str[i] = b` on the buffer of `trie_prefix_find`, whose `malloc_size` is its
length. `str[-1]` is the top byte of the size `tmalloc` stores in front of the
buffer, which is 0 and stays so for a 0; any other write outside is undefined. -/
def storeByte (str : List UInt8) (i : Int) (b : UInt8) : Option (List UInt8) :=
  if i = -1 then (if b = 0 then some str else none)
  else if 0 ≤ i ∧ i < str.length then some (str.set i.toNat b)
  else none

mutual
/-- `trie_node_prefix_find(node, str, level, keys)`: the buffer and the keys
after it. When `level` reaches `malloc_size(str)` the callee's `trealloc` may move
the buffer its callers still hold, which the model takes as undefined. -/
def trieNodePrefixFind : TrieNode δ → List UInt8 → Int → Vector (KvObj δ) →
    Option (List UInt8 × Vector (KvObj δ))
  | ⟨chr, children, data⟩, str, level, keys =>
    if level = str.length then none
    else do
      let str ← storeByte str level chr
      let (str, keys) ← match data with
        | some d => do
          let str ← storeByte str (level + 1) 0
          pure (str, vectorAppend keys ⟨CStr.ofBytes str, d⟩)
        | none => pure (str, keys)
      if children.isNil then pure (str, keys)
      else childrenPrefixFind children str (level + 1) keys

/-- `children_prefix_find`: the node's trie, then its left and right subtrees. -/
def childrenPrefixFind : BstNode (TrieNode δ) → List UInt8 → Int → Vector (KvObj δ) →
    Option (List UInt8 × Vector (KvObj δ))
  | .nil, _, _, _ => none
  | .node _ _ left right data, str, level, keys => do
    let (str, keys) ← trieNodePrefixFind data str level keys
    let (str, keys) ← if left.isNil then pure (str, keys)
      else childrenPrefixFind left str level keys
    if right.isNil then pure (str, keys) else childrenPrefixFind right str level keys
end

/-- `trie_prefix_find`: `some none` is the NULL of a missing path. The key is
copied into a 32-byte buffer, past which `memcpy` and `str[plen] = '\0'` write
for a key of 32 bytes or more. -/
def triePrefixFind (trie : Trie δ) (key : CStr) : Option (Option (Vector (KvObj δ))) :=
  match trieNodeFind trie.root key.bytes with
  | none => some none
  | some node =>
    if key.length < 32 then
      let str := key.bytes ++ List.replicate (32 - key.length) 0
      (trieNodePrefixFind node str (key.length - 1 : Int) vectorNew).map fun (_, keys) => some keys
    else none

end TrieDB
