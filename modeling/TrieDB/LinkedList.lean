import TrieDB.ListMergeSort
import TrieDB.Library.Run

/-!
`list.c`: a `List` keeps `head`, `tail` and `len` beside the chain of its
nodes, and each operation updates the three by hand. `list_push` and
`list_push_back` keep them in step with the chain from `head`, and so does
`list_merge_sort` for `head` and `len`. `list_remove_node` drops the head that
`list_remove_single_node` returns, `list_remove` never moves `tail`, and the
sort relinks the nodes without it.
-/
namespace TrieDB
open SlotHeap

variable {α β : Type}

/-- `List`, with the heap its nodes live in. -/
structure LinkedList (α : Type) where
  nodes : SlotHeap (Cell α)
  head : Option Nat
  tail : Option Nat
  len : Nat

def listNew : LinkedList α := ⟨SlotHeap.empty, none, none, 0⟩

def listPush (l : LinkedList α) (val : α) : LinkedList α :=
  if l.len = 0 then
    let (node, nodes) := l.nodes.alloc ⟨val, none⟩
    { l with nodes, head := some node, tail := some node, len := l.len + 1 }
  else
    let (node, nodes) := l.nodes.alloc ⟨val, l.head⟩
    { l with nodes, head := some node, len := l.len + 1 }

/-- `list_push_back`: `l->tail->next = new_node` once the list is not empty. -/
def listPushBack (l : LinkedList α) (val : α) : Option (LinkedList α) :=
  let (node, nodes) := l.nodes.alloc ⟨val, none⟩
  if l.len = 0 then some { l with nodes, head := some node, tail := some node, len := l.len + 1 }
  else do
    let tail ← l.tail
    let nodes ← nodes.setNext tail (some node)
    some { l with nodes, tail := some node, len := l.len + 1 }

/-- `list_node_remove`: frees the first node that `cmp` matches, and returns the
new head of the nodes from `head` on and the number of nodes removed. -/
def listNodeRemove (cmp : α → β → Int) (node : β) :
    Nat → SlotHeap (Cell α) → Option Nat → Option (SlotHeap (Cell α) × Option Nat × Nat)
  | 0, _, _ => none
  | _ + 1, nodes, none => some (nodes, none, 0)
  | fuel + 1, nodes, some head => do
    let cell ← nodes.load head
    if cmp cell.data node = 0 then do
      let nodes ← nodes.free head
      some (nodes, cell.next, 1)
    else do
      let (nodes, next, counter) ← listNodeRemove cmp node fuel nodes cell.next
      let nodes ← nodes.setNext head next
      some (nodes, some head, counter)

def listRemove (l : LinkedList α) (node : β) (cmp : α → β → Int) : Option (LinkedList α) := do
  let (nodes, head, counter) ← listNodeRemove cmp node (l.nodes.slots.length + 1) l.nodes l.head
  some { l with nodes, head, len := l.len - counter }

/-- `list_remove_single_node`: unlinks the first node that `cmp` matches, and
returns the new head of the nodes from `head` on, with the node in `ret`. -/
def listRemoveSingleNode (cmp : α → β → Int) (data : β) :
    Nat → SlotHeap (Cell α) → Option Nat → Option Nat →
      Option (SlotHeap (Cell α) × Option Nat × Option Nat)
  | 0, _, _, _ => none
  | _ + 1, nodes, none, ret => some (nodes, none, ret)
  | fuel + 1, nodes, some head, ret => do
    let cell ← nodes.load head
    if cmp cell.data data = 0 && ret.isNone then some (nodes, cell.next, some head)
    else do
      let (nodes, next, ret) ← listRemoveSingleNode cmp data fuel nodes cell.next ret
      let nodes ← nodes.setNext head next
      some (nodes, some head, ret)

/-- `list_remove_node`: the head that `list_remove_single_node` returns is
dropped, so `list->head` stays where it was. -/
def listRemoveNode (l : LinkedList α) (data : β) (cmp : α → β → Int) :
    Option (LinkedList α × Option Nat) :=
  if l.len = 0 then some (l, none)
  else do
    let (nodes, _, node) ← listRemoveSingleNode cmp data (l.nodes.slots.length + 1) l.nodes l.head none
    match node with
    | none => some ({ l with nodes }, none)
    | some node => do
      let nodes ← nodes.setNext node none
      some ({ l with nodes, len := l.len - 1 }, some node)

/-- The operations on a `List`; `sort` is `head = list_merge_sort(head, cmp)`,
as `insert_node` of `cluster.c` does it. -/
inductive ListOp (α β : Type)
  | push (val : α)
  | pushBack (val : α)
  | remove (node : β)
  | removeNode (data : β)
  | sort

def linkedListStep (cmp : α → β → Int) (order : α → α → Int) (l : LinkedList α) :
    ListOp α β → Option (LinkedList α)
  | .push val => some (listPush l val)
  | .pushBack val => listPushBack l val
  | .remove node => listRemove l node cmp
  | .removeNode data => (listRemoveNode l data cmp).map Prod.fst
  | .sort => (listMergeSort order l.nodes l.head).map fun (nodes, head) => { l with nodes, head }

/-- The sequence the operations describe: a push prepends, a push back appends,
a removal deletes the first match, and the sort is a merge sort. -/
def listModel (cmp : α → β → Int) (order : α → α → Int) (xs : List α) : ListOp α β → List α
  | .push val => val :: xs
  | .pushBack val => xs ++ [val]
  | .remove node => xs.eraseP (cmp · node = 0)
  | .removeNode data => xs.eraseP (cmp · data = 0)
  | .sort => halvingSort (fun a b => decide (order a b ≤ 0)) xs

def ChainRep (l : LinkedList α) (xs : List α) : Prop :=
  ∃ cells, Chain l.nodes l.head cells ∧ cells.map Prod.snd = xs ∧ cells.length = l.len

def ListRep (l : LinkedList α) (xs : List α) : Prop :=
  ∃ cells, Chain l.nodes l.head cells ∧ cells.map Prod.snd = xs ∧ cells.length = l.len ∧
    l.tail = cells.getLast?.map Prod.fst

theorem ListRep.chainRep {l : LinkedList α} {xs : List α} (rep : ListRep l xs) : ChainRep l xs :=
  let ⟨cells, chain, data, len, _⟩ := rep
  ⟨cells, chain, data, len⟩

theorem listRep_new : ListRep (listNew : LinkedList α) [] :=
  ⟨[], .nil none, rfl, rfl, rfl⟩

section Push
variable {l : LinkedList α} {cells : List (Nat × α)}

theorem listPush_chain (chain : Chain l.nodes l.head cells) (len : cells.length = l.len) (val : α) :
    Chain (listPush l val).nodes (listPush l val).head ((l.nodes.slots.length, val) :: cells) := by
  unfold listPush
  split_ifs with empty
  · have : cells = [] := List.eq_nil_of_length_eq_zero (len.trans empty)
    subst this
    exact .cons (load_alloc_self _ _) (.nil none)
  · exact .cons (load_alloc_self _ _) (chain.frame_alloc _)

@[simp] theorem listPush_len (l : LinkedList α) (val : α) : (listPush l val).len = l.len + 1 := by
  unfold listPush
  split_ifs <;> rfl

theorem listPush_rep {xs : List α} (rep : ListRep l xs) (val : α) : ListRep (listPush l val) (val :: xs) := by
  obtain ⟨cells, chain, data, len, tail⟩ := rep
  refine ⟨_, listPush_chain chain len val, by simp [data], by simp [len], ?_⟩
  unfold listPush
  split_ifs with empty
  · simp [List.eq_nil_of_length_eq_zero (len.trans empty)]
  · have nonempty : cells ≠ [] := List.ne_nil_of_length_pos (by omega)
    simp [tail, List.getLast?_cons, List.getLast?_eq_some_getLast nonempty]

theorem listPush_chainRep {xs : List α} (rep : ChainRep l xs) (val : α) :
    ChainRep (listPush l val) (val :: xs) := by
  obtain ⟨cells, chain, data, len⟩ := rep
  exact ⟨_, listPush_chain chain len val, by simp [data], by simp [len]⟩

theorem listPushBack_rep {xs : List α} (rep : ListRep l xs) (val : α) :
    ∃ l', listPushBack l val = some l' ∧ ListRep l' (xs ++ [val]) := by
  obtain ⟨cells, chain, data, len, tail⟩ := rep
  by_cases empty : l.len = 0
  · have : cells = [] := List.eq_nil_of_length_eq_zero (len.trans empty)
    subst this
    refine ⟨{ l with
        nodes := (l.nodes.alloc ⟨val, none⟩).2, head := some l.nodes.slots.length,
        tail := some l.nodes.slots.length, len := l.len + 1 },
      by simp [listPushBack, empty], ⟨[(l.nodes.slots.length, val)], ?_, ?_, ?_, rfl⟩⟩
    · exact .cons (load_alloc_self _ _) (.nil none)
    · simpa using data
    · simp [empty]
  · obtain ⟨init, ⟨t, d⟩, rfl⟩ := (List.eq_nil_or_concat' cells).resolve_left
      (List.ne_nil_of_length_pos (by omega))
    have fresh : t ∉ init.map Prod.fst := apart_of_nodup chain.nodup (t, d) (List.mem_singleton_self _)
    obtain ⟨_, loaded⟩ := chain.load_of_mem (List.mem_append_right _ (List.mem_singleton_self (t, d)))
    have moved := chain.frame_alloc ⟨val, none⟩
    obtain ⟨nodes, linked⟩ := moved.setNext_last (some l.nodes.slots.length)
    have new_node : nodes.load l.nodes.slots.length = some ⟨val, none⟩ := by
      rw [load_setNext linked, if_neg (Nat.ne_of_gt (lt_of_load loaded)), load_alloc, if_pos rfl]
    refine ⟨{ l with nodes, tail := some l.nodes.slots.length, len := l.len + 1 },
      by simp [listPushBack, empty, tail, linked],
      ⟨init ++ [(t, d), (l.nodes.slots.length, val)], ?_, by simp [← data], by simp [← len], by simp⟩⟩
    have := (moved.relink_last fresh linked).append (.cons new_node (.nil none))
    simpa [Chain] using this

end Push

theorem sort_chainRep (cmp : α → β → Int) (order : α → α → Int) {l : LinkedList α} {xs : List α}
    (rep : ChainRep l xs) :
    ∃ l', linkedListStep cmp order l .sort = some l' ∧
      ChainRep l' (halvingSort (fun a b => decide (order a b ≤ 0)) xs) ∧ l'.tail = l.tail := by
  obtain ⟨cells, chain, data, len⟩ := rep
  obtain ⟨nodes, head, run, sorted, -⟩ := listMergeSort_spec order chain
  refine ⟨{ l with nodes, head }, by simp [linkedListStep, run], ⟨_, sorted, ?_, ?_⟩, rfl⟩
  · rw [map_snd_halvingSort_cellLe, data]
  · rw [(halvingSort_perm _ cells).length_eq, len]

def ListOp.pushes : ListOp α β → Bool
  | .push _ | .pushBack _ => true
  | _ => false

/-- Every run of `list_push` and `list_push_back` from `list_new` succeeds and
keeps `head`, `tail` and `len` in step with the list it builds. -/
theorem listRep_run_pushes (cmp : α → β → Int) (order : α → α → Int) (ops : List (ListOp α β))
    (pushes : ∀ o ∈ ops, o.pushes = true) :
    ∃ l, OpRun.run (linkedListStep cmp order) listNew ops = some l ∧
      ListRep l (ops.foldl (listModel cmp order) []) := by
  refine OpRun.run_simulates_rel_of_forall (fun l xs o push rep => ?_) ops listNew [] pushes listRep_new
  cases o with
  | push val => exact ⟨_, rfl, listPush_rep rep val⟩
  | pushBack val => exact listPushBack_rep rep val
  | remove _ | removeNode _ | sort => simp [ListOp.pushes] at push

theorem listRep_run_pushes_12 :
    (∀ o ∈ ([.push 1, .pushBack 2] : List (ListOp Nat Nat)), o.pushes = true) ∧
      ∃ l, OpRun.run (linkedListStep (fun a b : Nat => (a : Int) - b) (fun a b => (a : Int) - b)) listNew
          [.push 1, .pushBack 2] = some l ∧
        ListRep l (([.push 1, .pushBack 2] : List (ListOp Nat Nat)).foldl
          (listModel (fun a b : Nat => (a : Int) - b) (fun a b => (a : Int) - b)) []) :=
  ⟨by decide, listRep_run_pushes _ _ [.push 1, .pushBack 2] (by decide)⟩

/-- `list_push` and the sort of `insert_node` keep `head` and `len` in step. -/
theorem chainRep_run_push_sort (cmp : α → β → Int) (order : α → α → Int) (ops : List (ListOp α β))
    (allowed : ∀ o ∈ ops, o matches .push _ | .sort) {l : LinkedList α} {xs : List α} (rep : ChainRep l xs) :
    ∃ l', OpRun.run (linkedListStep cmp order) l ops = some l' ∧ ChainRep l' (ops.foldl (listModel cmp order) xs) := by
  refine OpRun.run_simulates_rel_of_forall (fun l xs o allowed rep => ?_) ops l xs allowed rep
  cases o with
  | push val => exact ⟨_, rfl, listPush_chainRep rep val⟩
  | sort =>
    obtain ⟨l', step, rep', -⟩ := sort_chainRep cmp order rep
    exact ⟨l', step, rep'⟩
  | pushBack _ | remove _ | removeNode _ => simp at allowed

theorem chainRep_run_push_sort_21 :
    (∀ o ∈ ([.push 2, .push 1, .sort] : List (ListOp Nat Nat)), o matches .push _ | .sort) ∧
      ChainRep (listNew : LinkedList Nat) [] ∧
      ∃ l', OpRun.run (linkedListStep (fun a b : Nat => (a : Int) - b) (fun a b => (a : Int) - b)) listNew
          [.push 2, .push 1, .sort] = some l' ∧
        ChainRep l' (([.push 2, .push 1, .sort] : List (ListOp Nat Nat)).foldl
          (listModel (fun a b : Nat => (a : Int) - b) (fun a b => (a : Int) - b)) []) :=
  ⟨by decide, listRep_new.chainRep,
    chainRep_run_push_sort _ _ [.push 2, .push 1, .sort] (by decide) listRep_new.chainRep⟩

/-- The difference of two naturals, as a `cmp` that is `0` on equal values. -/
def natCmp (a b : Nat) : Int := (a : Int) - b

/-- Removing the only node with `list_remove_node` leaves `len` at 0 and
`head` and `tail` at the removed node; removing the last node with
`list_remove` leaves `tail` at a released node, so the next `list_push_back`
writes to it; and after the sort of a list `[2, 1]`, `tail` still points to
the node of 1, now the first, so `list_push_back(3)` cuts the node of 2 out. -/
theorem listOps_break_listRep :
    (∃ l, OpRun.run (linkedListStep natCmp natCmp) listNew [.push 1, .removeNode 1] = some l ∧
      l.len = 0 ∧ Chain l.nodes l.head [(0, 1)] ∧ l.tail = some 0 ∧
      ¬ListRep l ([.push 1, .removeNode 1].foldl (listModel natCmp natCmp) [])) ∧
    (∃ l, OpRun.run (linkedListStep natCmp natCmp) listNew [.pushBack 1, .pushBack 2, .remove 2] = some l ∧
      Chain l.nodes l.head [(0, 1)] ∧ l.tail = some 1 ∧ l.nodes.load 1 = none) ∧
    OpRun.run (linkedListStep natCmp natCmp) listNew [.pushBack 1, .pushBack 2, .remove 2, .pushBack 3] = none ∧
    (∃ l, OpRun.run (linkedListStep natCmp natCmp) listNew [.pushBack 2, .pushBack 1, .sort, .pushBack 3] = some l ∧
      l.len = 3 ∧ Chain l.nodes l.head [(1, 1), (2, 3)]) := by
  refine ⟨⟨_, rfl, rfl, .cons rfl (.nil none), rfl, ?_⟩, ⟨_, rfl, .cons rfl (.nil none), rfl, rfl⟩, rfl,
    ⟨_, rfl, rfl, .cons rfl (.cons rfl (.nil none))⟩⟩
  rintro ⟨cells, chain, data, -, -⟩
  have : cells = [] := List.map_eq_nil_iff.mp data
  subst this
  cases chain

end TrieDB
