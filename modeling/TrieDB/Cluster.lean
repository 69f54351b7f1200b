import TrieDB.Hashtable
import TrieDB.LinkedList

/-!
`cluster.c`: the consistent-hash ring. Each node of a cluster sits at an
`upper_bound`, the hash of its address and port, and each of its virtual nodes
at the hash of the address with a replica number in front. `insert_node`
pushes a node and merge sorts the list by `upper_bound`, so the ring is sorted
after every insertion; `cluster_get_node` then scans for the first node at or
above a hash, and wraps around to the first node of the ring past the last.
-/
namespace TrieDB
open SlotHeap

def RING_SIZE : Nat := 4096
/-- `INET_ADDRSTRLEN`. -/
def INET_ADDRSTRLEN : Nat := 16

/-- `struct cluster_node`. -/
structure ClusterNode where
  self : Bool
  vnode : Bool
  fd : Int32
  upperBound : UInt16
  host : CStr
  port : CStr
  deriving DecidableEq

/-- `struct cluster`; `replicas` is the number of virtual nodes of each node. -/
structure Cluster where
  size : Nat
  replicas : Nat
  nodes : LinkedList ClusterNode

/-- `hash`: the ring point of a string. -/
def hash (keystr : CStr) : UInt16 := (hashMix (crc32 keystr.bytes) % RING_SIZE.toUInt64).toUInt16

/-- `strcat` of two strings that fit their buffer. -/
def strcat (s t : CStr) : CStr := CStr.ofBytes (s.bytes ++ t.bytes)

def compareUpperBound (arg1 arg2 : ClusterNode) : Int :=
  if arg1.upperBound = arg2.upperBound then 0
  else if arg1.upperBound < arg2.upperBound then -1 else 1

/-- `insert_node`: `list_push`, then `head = list_merge_sort(head, ...)`. -/
def insertNode (cluster : Cluster) (cnode : ClusterNode) (vnode : Bool) : Option Cluster := do
  let cnode := { cnode with vnode }
  let nodes := listPush cluster.nodes cnode
  let (heap, head) ← listMergeSort compareUpperBound nodes.nodes nodes.head
  some { cluster with
    nodes := { nodes with nodes := heap, head }, size := if vnode then cluster.size else cluster.size + 1 }

/-- The loop `while (replicas--)` of `cluster_add_new_node`: the virtual node
of number `replicas` hashes `replicas` written before the address. Writing past
`prefix[20]` or `fulladdr[30]` is undefined. -/
def addReplicas (fd : Int32) (addr port : CStr) (self : Bool) : Nat → Cluster → Option Cluster
  | 0, cluster => some cluster
  | replicas + 1, cluster => do
    let vaddr := CStr.ofBytes (decimalDigits replicas ++ addr.bytes)
    if 20 ≤ vaddr.length ∨ 30 ≤ vaddr.length + port.length then none
    else
      let upperBound := hash (strcat vaddr port) % RING_SIZE.toUInt16
      let cluster ← insertNode cluster ⟨self, true, fd, upperBound, addr, port⟩ true
      addReplicas fd addr port self replicas cluster

/-- `cluster_add_new_node`, with `tmalloc` assumed to succeed. Writing past
`fulladdr[30]`, `host[INET_ADDRSTRLEN + 1]` or `port[6]` is undefined. -/
def clusterAddNewNode (cluster : Cluster) (fd : Int32) (addr port : CStr) (self : Bool) :
    Option Cluster :=
  if 30 ≤ addr.length + port.length ∨ INET_ADDRSTRLEN + 1 ≤ addr.length ∨ 6 ≤ port.length then none
  else do
    let upperBound := hash (strcat addr port) % RING_SIZE.toUInt16
    let cluster ← insertNode cluster ⟨self, false, fd, upperBound, addr, port⟩ false
    addReplicas fd addr port self cluster.replicas cluster

/-- The scan of `cluster_get_node`: on while the next node is below the hash. -/
def getNodeLoop (nodes : SlotHeap (Cell ClusterNode)) (hashValue : UInt16) : Nat → Nat → Option Nat
  | 0, _ => none
  | fuel + 1, cur => do
    let node ← nodes.load cur
    match node.next with
    | none => some cur
    | some next => do
      let nextNode ← nodes.load next
      if nextNode.data.upperBound < hashValue then getNodeLoop nodes hashValue fuel next
      else some cur

/-- `cluster_get_node`. -/
def clusterGetNode (cluster : Cluster) (hashValue : UInt16) : Option ClusterNode := do
  let nodes := cluster.nodes.nodes
  let head ← cluster.nodes.head
  let headNode ← nodes.load head
  if cluster.nodes.len = 1 then some headNode.data
  else
    let cur ← getNodeLoop nodes hashValue (nodes.slots.length + 1) head
    let node ← nodes.load cur
    if node.next.isNone ∧ node.data.upperBound < hashValue then some headNode.data
    else if hashValue > node.data.upperBound then do
      let next ← node.next
      let nextNode ← nodes.load next
      some nextNode.data
    else some node.data

/-- The operations of a run: the arguments of one `cluster_add_new_node` call. -/
structure ClusterOp where
  fd : Int32
  addr : CStr
  port : CStr
  self : Bool

def clusterStep (cluster : Cluster) (op : ClusterOp) : Option Cluster :=
  clusterAddNewNode cluster op.fd op.addr op.port op.self

theorem compareUpperBound_nonpos_iff (arg1 arg2 : ClusterNode) :
    compareUpperBound arg1 arg2 ≤ 0 ↔ arg1.upperBound ≤ arg2.upperBound := by
  unfold compareUpperBound
  split_ifs with same below
  · simp [same]
  · simp [UInt16.le_of_lt below]
  · simp only [Int.reduceLE, false_iff]
    rw [UInt16.le_iff_toNat_le]
    rw [UInt16.lt_iff_toNat_lt] at below
    rw [← UInt16.toNat_inj] at same
    omega

theorem cellLe_compareUpperBound (x y : Nat × ClusterNode) :
    cellLe compareUpperBound x y = decide (x.2.upperBound ≤ y.2.upperBound) := by
  simp [cellLe, compareUpperBound_nonpos_iff]

theorem halvingSort_compareUpperBound_sorted (cells : List (Nat × ClusterNode)) :
    (halvingSort (cellLe compareUpperBound) cells).Pairwise fun x y => x.2.upperBound ≤ y.2.upperBound := by
  have sorted := pairwise_halvingSort (cellLe compareUpperBound)
    (fun a b c ab bc => by
      simp only [cellLe_compareUpperBound, decide_eq_true_eq] at ab bc ⊢
      exact UInt16.le_trans ab bc)
    (fun a b => by simpa [cellLe_compareUpperBound] using UInt16.le_total a.2.upperBound b.2.upperBound)
    cells
  exact sorted.imp fun le => by simpa [cellLe_compareUpperBound] using le

structure RingRep (cluster : Cluster) (cells : List (Nat × ClusterNode)) : Prop where
  chain : Chain cluster.nodes.nodes cluster.nodes.head cells
  len : cells.length = cluster.nodes.len
  sorted : cells.Pairwise fun x y => x.2.upperBound ≤ y.2.upperBound

theorem insertNode_ringRep {cluster : Cluster} {cells : List (Nat × ClusterNode)}
    (rep : RingRep cluster cells) (cnode : ClusterNode) (vnode : Bool) :
    ∃ cluster', insertNode cluster cnode vnode = some cluster' ∧ cluster'.replicas = cluster.replicas ∧
      ∃ cells', RingRep cluster' cells' := by
  have pushed := listPush_chain rep.chain rep.len { cnode with vnode }
  obtain ⟨heap, head, run, sorted, -⟩ := listMergeSort_spec compareUpperBound pushed
  refine ⟨{ cluster with
      nodes := { listPush cluster.nodes { cnode with vnode } with nodes := heap, head },
      size := if vnode then cluster.size else cluster.size + 1 },
    by simp [insertNode, run], rfl, _, ⟨sorted, ?_, halvingSort_compareUpperBound_sorted _⟩⟩
  rw [(halvingSort_perm _ _).length_eq]
  simp [rep.len]

theorem ringRep_of_insertNode {cluster cluster' : Cluster} {cells : List (Nat × ClusterNode)}
    (rep : RingRep cluster cells) {cnode : ClusterNode} {vnode : Bool}
    (inserted : insertNode cluster cnode vnode = some cluster') :
    cluster'.replicas = cluster.replicas ∧ ∃ cells', RingRep cluster' cells' := by
  obtain ⟨_, done, replicas, rep'⟩ := insertNode_ringRep rep cnode vnode
  rw [inserted, Option.some.injEq] at done
  subst done
  exact ⟨replicas, rep'⟩

theorem ringRep_of_addReplicas (fd : Int32) (addr port : CStr) (self : Bool) :
    ∀ replicas (cluster cluster' : Cluster) (cells : List (Nat × ClusterNode)), RingRep cluster cells →
      addReplicas fd addr port self replicas cluster = some cluster' →
      cluster'.replicas = cluster.replicas ∧ ∃ cells', RingRep cluster' cells'
  | 0, cluster, cluster', cells, rep, added => by
    cases added
    exact ⟨rfl, cells, rep⟩
  | replicas + 1, cluster, cluster', cells, rep, added => by
    simp only [addReplicas] at added
    split_ifs at added
    obtain ⟨inserted, insert, rest⟩ := Option.bind_eq_some_iff.mp added
    obtain ⟨same, cells₁, rep₁⟩ := ringRep_of_insertNode rep insert
    obtain ⟨same', rep'⟩ := ringRep_of_addReplicas fd addr port self replicas inserted cluster' cells₁ rep₁ rest
    exact ⟨same'.trans same, rep'⟩

theorem ringRep_of_clusterAddNewNode {cluster cluster' : Cluster} {cells : List (Nat × ClusterNode)}
    (rep : RingRep cluster cells) {fd : Int32} {addr port : CStr} {self : Bool}
    (added : clusterAddNewNode cluster fd addr port self = some cluster') :
    ∃ cells', RingRep cluster' cells' := by
  simp only [clusterAddNewNode] at added
  split_ifs at added
  obtain ⟨inserted, insert, rest⟩ := Option.bind_eq_some_iff.mp added
  obtain ⟨-, cells₁, rep₁⟩ := ringRep_of_insertNode rep insert
  exact (ringRep_of_addReplicas fd addr port self _ inserted cluster' cells₁ rep₁ rest).2

theorem ringRep_of_run (replicas : Nat) (ops : List ClusterOp) {cluster : Cluster}
    (built : OpRun.run clusterStep ⟨0, replicas, listNew⟩ ops = some cluster) :
    ∃ cells, RingRep cluster cells :=
  have keep : ∀ cluster op cluster', (∃ cells, RingRep cluster cells) →
      clusterStep cluster op = some cluster' → ∃ cells, RingRep cluster' cells :=
    fun _ _ _ ⟨_, rep⟩ step => ringRep_of_clusterAddNewNode rep step
  OpRun.run_preserves keep ops ⟨0, replicas, listNew⟩ cluster ⟨[], ⟨.nil none, rfl, List.Pairwise.nil⟩⟩ built

def RingSuccessor (ring : List ClusterNode) (hashValue : UInt16) (node : ClusterNode) : Prop :=
  node ∈ ring ∧
    ((∃ n ∈ ring, hashValue ≤ n.upperBound) →
      hashValue ≤ node.upperBound ∧ ∀ n ∈ ring, hashValue ≤ n.upperBound → node.upperBound ≤ n.upperBound) ∧
    ((∀ n ∈ ring, n.upperBound < hashValue) → ∀ n ∈ ring, node.upperBound ≤ n.upperBound)

instance (ring : List ClusterNode) (hashValue : UInt16) (node : ClusterNode) :
    Decidable (RingSuccessor ring hashValue node) :=
  inferInstanceAs (Decidable (_ ∧ _ ∧ _))

section Successor
variable {cells : List (Nat × ClusterNode)} {hashValue : UInt16}

theorem upperBound_mono (sorted : cells.Pairwise fun x y => x.2.upperBound ≤ y.2.upperBound)
    {i j : Nat} (hi : i < cells.length) (hj : j < cells.length) (le : i ≤ j) :
    cells[i].2.upperBound ≤ cells[j].2.upperBound := by
  rcases Nat.lt_or_eq_of_le le with lt | rfl
  · exact List.pairwise_iff_getElem.mp sorted i j hi hj lt
  · exact UInt16.le_refl _

theorem ringSuccessor_of_first (sorted : cells.Pairwise fun x y => x.2.upperBound ≤ y.2.upperBound)
    {k : Nat} (hk : k < cells.length) (below : ∀ j (hj : j < cells.length), j < k → cells[j].2.upperBound < hashValue)
    (above : hashValue ≤ cells[k].2.upperBound) : RingSuccessor (cells.map Prod.snd) hashValue cells[k].2 := by
  refine ⟨List.mem_map_of_mem (List.getElem_mem hk), fun _ => ⟨above, fun n mem at_least => ?_⟩, fun all => ?_⟩
  · obtain ⟨j, hj, rfl⟩ := List.mem_iff_getElem.mp mem
    simp only [List.getElem_map] at at_least ⊢
    rcases Nat.lt_or_ge j k with before | after
    · exact absurd at_least (UInt16.not_le.mpr (below j (by simpa using hj) before))
    · exact upperBound_mono sorted hk (by simpa using hj) after
  · exact absurd above (UInt16.not_le.mpr (all _ (List.mem_map_of_mem (List.getElem_mem hk))))

theorem ringSuccessor_of_wrap (sorted : cells.Pairwise fun x y => x.2.upperBound ≤ y.2.upperBound)
    (nonempty : 0 < cells.length) (all : ∀ j (hj : j < cells.length), cells[j].2.upperBound < hashValue) :
    RingSuccessor (cells.map Prod.snd) hashValue cells[0].2 := by
  refine ⟨List.mem_map_of_mem (List.getElem_mem nonempty), fun ⟨n, mem, at_least⟩ => ?_, fun _ n mem => ?_⟩
  · obtain ⟨j, hj, rfl⟩ := List.mem_iff_getElem.mp mem
    simp only [List.getElem_map] at at_least
    exact absurd at_least (UInt16.not_le.mpr (all j (by simpa using hj)))
  · obtain ⟨j, hj, rfl⟩ := List.mem_iff_getElem.mp mem
    simpa using upperBound_mono sorted nonempty (by simpa using hj) (Nat.zero_le j)

theorem getNodeLoop_spec {nodes : SlotHeap (Cell ClusterNode)} {head : Option Nat}
    (chain : Chain nodes head cells) (hashValue : UInt16) :
    ∀ fuel i (inside : i < cells.length), cells.length - i ≤ fuel →
      (∀ j (hj : j < cells.length), 0 < j → j ≤ i → cells[j].2.upperBound < hashValue) →
      ∃ k, ∃ hk : k < cells.length, i ≤ k ∧ getNodeLoop nodes hashValue fuel cells[i].1 = some cells[k].1 ∧
        (∀ j (hj : j < cells.length), 0 < j → j ≤ k → cells[j].2.upperBound < hashValue) ∧
        ∀ next : k + 1 < cells.length, hashValue ≤ cells[k + 1].2.upperBound
  | 0, _, _, enough, _ => by omega
  | fuel + 1, i, inside, enough, below => by
    obtain ⟨-, loaded⟩ := chain.load_at inside
    by_cases last : i + 1 = cells.length
    · have ended : addrAt cells none (i + 1) = none := addrAt_of_length_le (by omega) none
      exact ⟨i, inside, le_rfl, by simp [getNodeLoop, loaded, ended], below, fun next => absurd next (by omega)⟩
    · have more : i + 1 < cells.length := by omega
      obtain ⟨next_at, next_loaded⟩ := chain.load_at more
      by_cases lower : cells[i + 1].2.upperBound < hashValue
      · have below' : ∀ j (hj : j < cells.length), 0 < j → j ≤ i + 1 → cells[j].2.upperBound < hashValue := by
          intro j hj pos le
          rcases Nat.lt_or_eq_of_le le with before | rfl
          · exact below j hj pos (by omega)
          · exact lower
        obtain ⟨k, hk, le, run, below'', stop⟩ :=
          getNodeLoop_spec chain hashValue fuel (i + 1) more (by omega) below'
        exact ⟨k, hk, by omega, by simp [getNodeLoop, loaded, next_at, next_loaded, lower, run], below'', stop⟩
      · exact ⟨i, inside, le_rfl, by simp [getNodeLoop, loaded, next_at, next_loaded, lower], below,
          fun _ => UInt16.not_lt.mp lower⟩

theorem clusterGetNode_spec {cluster : Cluster} (rep : RingRep cluster cells)
    (nonempty : 0 < cluster.nodes.len) (hashValue : UInt16) :
    ∃ node, clusterGetNode cluster hashValue = some node ∧ RingSuccessor (cells.map Prod.snd) hashValue node := by
  have size : 0 < cells.length := rep.len ▸ nonempty
  obtain ⟨head_at, head_loaded⟩ := rep.chain.load_at size
  have start : cluster.nodes.head = some cells[0].1 := rep.chain.start_eq.trans head_at
  by_cases single : cluster.nodes.len = 1
  · have one : cells.length = 1 := rep.len.trans single
    have only : ∀ j (hj : j < cells.length), j = 0 := fun j hj => by omega
    refine ⟨cells[0].2, by simp [clusterGetNode, start, head_loaded, single], ?_⟩
    by_cases above : hashValue ≤ cells[0].2.upperBound
    · exact ringSuccessor_of_first rep.sorted size (fun j hj before => absurd before (by omega)) above
    · exact ringSuccessor_of_wrap rep.sorted size fun j hj => by
        rw [show cells[j] = cells[0] by simp [only j hj]]
        exact UInt16.not_le.mp above
  obtain ⟨k, hk, -, run, passed, stop⟩ := getNodeLoop_spec rep.chain hashValue
    (cluster.nodes.nodes.slots.length + 1) 0 size (by have := rep.chain.length_le; omega)
    (fun j _ pos le => absurd le (by omega))
  obtain ⟨-, k_loaded⟩ := rep.chain.load_at hk
  have front : ∀ j (hj : j < cells.length), j ≤ k → cells[k].2.upperBound < hashValue →
      cells[j].2.upperBound < hashValue := fun j hj le below => by
    rcases Nat.eq_zero_or_pos j with rfl | pos
    · exact UInt16.lt_of_le_of_lt (upperBound_mono rep.sorted size hk (Nat.zero_le k)) below
    · exact passed j hj pos le
  by_cases ended : addrAt cells none (k + 1) = none ∧ cells[k].2.upperBound < hashValue
  · have last : k + 1 = cells.length := by
      by_contra more
      have : addrAt cells none (k + 1) = some cells[k + 1].1 := (rep.chain.load_at (by omega)).1
      simp [this] at ended
    refine ⟨cells[0].2, by simp [clusterGetNode, start, head_loaded, single, run, k_loaded, ended], ?_⟩
    exact ringSuccessor_of_wrap rep.sorted size fun j hj => front j hj (by omega) ended.2
  by_cases beyond : hashValue > cells[k].2.upperBound
  · have more : k + 1 < cells.length := by
      by_contra last
      exact ended ⟨addrAt_of_length_le (by omega) none, beyond⟩
    obtain ⟨next_at, next_loaded⟩ := rep.chain.load_at more
    refine ⟨cells[k + 1].2, ?_, ringSuccessor_of_first rep.sorted more
      (fun j hj before => front j hj (by omega) beyond) (stop more)⟩
    simp [clusterGetNode, start, head_loaded, single, run, k_loaded, next_at, next_loaded, beyond]
  · have at_head : k = 0 := by
      by_contra moved
      exact beyond (passed k hk (by omega) le_rfl)
    subst at_head
    refine ⟨cells[0].2, ?_, ringSuccessor_of_first rep.sorted size (fun j _ before => absurd before (by omega))
      (UInt16.not_lt.mp beyond)⟩
    simp [clusterGetNode, start, head_loaded, single, run, beyond]

end Successor

theorem clusterGetNode_successor (replicas : Nat) (ops : List ClusterOp) (cluster : Cluster)
    (built : OpRun.run clusterStep ⟨0, replicas, listNew⟩ ops = some cluster)
    (nonempty : 0 < cluster.nodes.len) (hashValue : UInt16) :
    ∃ cells, Chain cluster.nodes.nodes cluster.nodes.head cells ∧ cells.length = cluster.nodes.len ∧
      ∃ node, clusterGetNode cluster hashValue = some node ∧ RingSuccessor (cells.map Prod.snd) hashValue node := by
  obtain ⟨cells, rep⟩ := ringRep_of_run replicas ops built
  obtain ⟨node, found, successor⟩ := clusterGetNode_spec rep nonempty hashValue
  exact ⟨cells, rep.chain, rep.len, node, found, successor⟩

theorem clusterGetNode_successor_a1 :
    ∃ cluster, OpRun.run clusterStep ⟨0, 1, listNew⟩ [⟨3, CStr.ofBytes [97], CStr.ofBytes [49], true⟩] =
        some cluster ∧ 0 < cluster.nodes.len ∧
      ∃ cells, Chain cluster.nodes.nodes cluster.nodes.head cells ∧ cells.length = cluster.nodes.len ∧
        ∃ node, clusterGetNode cluster 100 = some node ∧ RingSuccessor (cells.map Prod.snd) 100 node :=
  ⟨_, rfl, by decide,
    clusterGetNode_successor 1 [⟨3, CStr.ofBytes [97], CStr.ofBytes [49], true⟩] _ rfl (by decide) 100⟩

end TrieDB
