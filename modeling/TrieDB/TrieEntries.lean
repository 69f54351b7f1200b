import TrieDB.TrieMap
import TrieDB.BstOrder
import Mathlib.Data.List.Nodup

/-!
The bound keys of a trie as a list, in the order `trie_prefix_find` reports
them: a node's own data first, then for each node of its children tree that
child's keys, then the keys of the left and the right subtree. Every run of the
trie operations keeps its children trees search trees, each node filed under its
child's character, which a key's byte never makes NUL; on such a trie the list
holds every bound key once, and has as many entries as `trie_node_count` counts.
-/
namespace TrieDB
open BstNode

variable {δ : Type}

mutual
def childrenEntries : BstNode (TrieNode δ) → List (List UInt8 × δ)
  | .nil => []
  | .node c _ left right child =>
    (trieNodeEntries child).map (fun e => (c :: e.1, e.2)) ++ childrenEntries left ++
      childrenEntries right

def trieNodeEntries : TrieNode δ → List (List UInt8 × δ)
  | ⟨_, children, data⟩ => data.toList.map (fun d => ([], d)) ++ childrenEntries children
end

mutual
def ChildrenKeyed : BstNode (TrieNode δ) → Prop
  | .nil => True
  | .node c _ left right child =>
    child.chr = c ∧ c ≠ 0 ∧ NodeKeyed child ∧ ChildrenKeyed left ∧ ChildrenKeyed right

def NodeKeyed : TrieNode δ → Prop
  | ⟨_, children, _⟩ => Ordered children ∧ ChildrenKeyed children
end

mutual
def childrenHeight : BstNode (TrieNode δ) → Nat
  | .nil => 0
  | .node _ _ left right child =>
    max (trieNodeHeight child + 1) (max (childrenHeight left) (childrenHeight right))

def trieNodeHeight : TrieNode δ → Nat
  | ⟨_, children, _⟩ => childrenHeight children
end

section Entries

mutual
theorem trieChildrenCount_eq_length :
    ∀ t : BstNode (TrieNode δ), trieChildrenCount t = (childrenEntries t).length
  | .nil => rfl
  | .node _ _ left right child => by
    rw [trieChildrenCount, childrenEntries, List.length_append, List.length_append,
      List.length_map, trieNodeCount_eq_length child, trieChildrenCount_eq_length left,
      trieChildrenCount_eq_length right]

theorem trieNodeCount_eq_length : ∀ n : TrieNode δ, trieNodeCount n = (trieNodeEntries n).length
  | ⟨_, children, data⟩ => by
    cases data with
    | none => simp [trieNodeCount, trieNodeEntries, trieChildrenCount_eq_length children]
    | some d =>
      simp only [trieNodeCount, trieNodeEntries, Option.isSome_some, if_true, Option.toList_some,
        List.map_cons, List.map_nil, List.singleton_append, List.length_cons,
        trieChildrenCount_eq_length children]
      omega
end

theorem mem_childrenEntries {t : BstNode (TrieNode δ)} {c : UInt8} {child : TrieNode δ}
    (mem : (c, child) ∈ t.inorder) {e : List UInt8 × δ} (entry : e ∈ trieNodeEntries child) :
    (c :: e.1, e.2) ∈ childrenEntries t := by
  induction t with
  | nil => cases mem
  | node c' h left right child' ihl ihr =>
    simp only [BstNode.inorder, List.mem_append, List.mem_cons, Prod.mk.injEq] at mem
    simp only [childrenEntries, List.mem_append, List.mem_map]
    rcases mem with left | ⟨rfl, rfl⟩ | right
    · exact .inl (.inr (ihl left))
    · exact .inl (.inl ⟨e, entry, rfl⟩)
    · exact .inr (ihr right)

theorem mem_trieNodeEntries_of_search :
    ∀ (k : List UInt8) (n : TrieNode δ) (d : δ), trieNodeSearch n k = some d →
      (k, d) ∈ trieNodeEntries n := by
  intro k
  induction k with
  | nil =>
    intro n d found
    obtain ⟨chr, children, data⟩ := n
    simp only [trieNodeSearch_nil] at found
    subst found
    simp [trieNodeEntries]
  | cons c k ih =>
    intro n d found
    rw [trieNodeSearch_cons] at found
    obtain ⟨child, hchild, rest⟩ := Option.bind_eq_some_iff.mp found
    obtain ⟨chr, children, data⟩ := n
    have entry := mem_childrenEntries (mem_inorder_of_bstFind hchild) (ih child d rest)
    simp only [trieNodeEntries, List.mem_append]
    exact .inr entry

mutual
theorem childrenEntries_bound :
    ∀ t : BstNode (TrieNode δ), ChildrenKeyed t → ∀ k d, (k, d) ∈ childrenEntries t →
      ∃ c k' child, k = c :: k' ∧ (c, child) ∈ t.inorder ∧ trieNodeSearch child k' = some d
  | .nil, _, _, _, mem => by cases mem
  | .node c _ left right child, keyed, k, d, mem => by
    obtain ⟨-, -, keyedChild, keyedL, keyedR⟩ := keyed
    simp only [childrenEntries, List.mem_append, List.mem_map] at mem
    rcases mem with (⟨e, entry, same⟩ | inLeft) | inRight
    · cases same
      exact ⟨c, e.1, child, rfl, by simp [BstNode.inorder],
        trieNodeEntries_bound child keyedChild e.1 e.2 entry⟩
    · obtain ⟨c', k', child', rfl, mem, found⟩ := childrenEntries_bound left keyedL k d inLeft
      exact ⟨c', k', child', rfl, by simp [BstNode.inorder, mem], found⟩
    · obtain ⟨c', k', child', rfl, mem, found⟩ := childrenEntries_bound right keyedR k d inRight
      exact ⟨c', k', child', rfl, by simp [BstNode.inorder, mem], found⟩

theorem trieNodeEntries_bound :
    ∀ n : TrieNode δ, NodeKeyed n → ∀ k d, (k, d) ∈ trieNodeEntries n → trieNodeSearch n k = some d
  | ⟨chr, children, data⟩, ⟨ordered, keyed⟩, k, d, mem => by
    simp only [trieNodeEntries, List.mem_append, List.mem_map, Option.mem_toList,
      Prod.mk.injEq] at mem
    rcases mem with ⟨d', own, rfl, rfl⟩ | inChildren
    · exact own
    · obtain ⟨c, k', child, rfl, mem, found⟩ := childrenEntries_bound children keyed k d inChildren
      rw [trieNodeSearch_cons, trieChild, bstFind_of_mem_inorder ordered mem]
      exact found
end

theorem mem_trieNodeEntries_iff {n : TrieNode δ} (keyed : NodeKeyed n) (k : List UInt8) (d : δ) :
    (k, d) ∈ trieNodeEntries n ↔ trieNodeSearch n k = some d :=
  ⟨trieNodeEntries_bound n keyed k d, mem_trieNodeEntries_of_search k n d⟩

theorem head_of_mem_childrenEntries {t : BstNode (TrieNode δ)} {k : List UInt8}
    (mem : k ∈ (childrenEntries t).map Prod.fst) : ∃ c k', k = c :: k' ∧ c ∈ t.keys := by
  induction t with
  | nil => simp [childrenEntries] at mem
  | node c h left right child ihl ihr =>
    simp only [childrenEntries, List.map_append, List.map_map, List.mem_append, List.mem_map,
      Function.comp_apply] at mem
    rcases mem with (⟨e, -, rfl⟩ | inLeft) | inRight
    · exact ⟨c, e.1, rfl, by simp⟩
    · obtain ⟨c', k', rfl, mem⟩ := ihl (List.mem_map.mpr inLeft)
      exact ⟨c', k', rfl, by simp [mem]⟩
    · obtain ⟨c', k', rfl, mem⟩ := ihr (List.mem_map.mpr inRight)
      exact ⟨c', k', rfl, by simp [mem]⟩

mutual
theorem childrenEntries_nodup :
    ∀ t : BstNode (TrieNode δ), Ordered t → ChildrenKeyed t → ((childrenEntries t).map Prod.fst).Nodup
  | .nil, _, _ => List.nodup_nil
  | .node c _ left right child, ⟨below, above, orderedL, orderedR⟩,
      ⟨_, _, keyedChild, keyedL, keyedR⟩ => by
    have own : (((trieNodeEntries child).map fun e => (c :: e.1, e.2)).map Prod.fst).Nodup := by
      rw [List.map_map]
      have nodup := List.Nodup.map (List.cons_injective (a := c))
        (trieNodeEntries_nodup child keyedChild)
      rw [List.map_map] at nodup
      exact nodup
    have ownHead : ∀ k ∈ ((trieNodeEntries child).map fun e => (c :: e.1, e.2)).map Prod.fst,
        ∃ k', k = c :: k' := by
      intro k mem
      simp only [List.map_map, List.mem_map, Function.comp_apply] at mem
      obtain ⟨e, -, rfl⟩ := mem
      exact ⟨e.1, rfl⟩
    rw [childrenEntries, List.map_append, List.map_append, List.nodup_append, List.nodup_append]
    refine ⟨⟨own, childrenEntries_nodup left orderedL keyedL, ?_⟩,
      childrenEntries_nodup right orderedR keyedR, ?_⟩
    · intro a ownMem b leftMem same
      obtain ⟨k', rfl⟩ := ownHead a ownMem
      obtain ⟨c', k'', rfl, key⟩ := head_of_mem_childrenEntries leftMem
      cases same
      exact UInt8.lt_irrefl c (below c key)
    · intro a mem b rightMem same
      obtain ⟨c', k'', rfl, key⟩ := head_of_mem_childrenEntries rightMem
      have high := above c' key
      rw [List.mem_append] at mem
      rcases mem with ownMem | leftMem
      · obtain ⟨k', same'⟩ := ownHead a ownMem
        rw [same'] at same
        cases same
        exact UInt8.lt_irrefl c high
      · obtain ⟨c₀, k₀, rfl, key₀⟩ := head_of_mem_childrenEntries leftMem
        obtain ⟨heads, -⟩ := List.cons.inj same
        subst heads
        exact UInt8.lt_irrefl c₀ (UInt8.lt_trans (below c₀ key₀) high)

theorem trieNodeEntries_nodup :
    ∀ n : TrieNode δ, NodeKeyed n → ((trieNodeEntries n).map Prod.fst).Nodup
  | ⟨_, children, data⟩, ⟨ordered, keyed⟩ => by
    have rest := childrenEntries_nodup children ordered keyed
    cases data with
    | none => simpa [trieNodeEntries] using rest
    | some d =>
      simp only [trieNodeEntries, Option.toList_some, List.map_cons, List.map_nil,
        List.singleton_append, List.map_cons, List.nodup_cons]
      refine ⟨fun mem => ?_, rest⟩
      obtain ⟨c, k', same, -⟩ := head_of_mem_childrenEntries mem
      cases same
end

end Entries

section Keyed

theorem nodeKeyed_iff (n : TrieNode δ) :
    NodeKeyed n ↔ Ordered n.children ∧ ChildrenKeyed n.children := by
  obtain ⟨chr, children, data⟩ := n
  rfl

theorem nodeKeyed_trieCreateNode (c : UInt8) : NodeKeyed (trieCreateNode c : TrieNode δ) :=
  ⟨trivial, trivial⟩

theorem nodeKeyed_setData {n : TrieNode δ} (keyed : NodeKeyed n) (x : Option δ) :
    NodeKeyed { n with data := x } := by
  rw [nodeKeyed_iff] at keyed ⊢
  exact keyed

theorem nodeKeyed_clearChildren (n : TrieNode δ) : NodeKeyed { n with children := .nil } := by
  rw [nodeKeyed_iff]
  exact ⟨trivial, trivial⟩

theorem keyed_of_bstFind {t : BstNode (TrieNode δ)} (keyed : ChildrenKeyed t) {c : UInt8}
    {child : TrieNode δ} (found : bstFind t c = some child) :
    child.chr = c ∧ c ≠ 0 ∧ NodeKeyed child := by
  induction t with
  | nil => cases found
  | node c' h left right child' ihl ihr =>
    obtain ⟨chr, nonzero, keyedChild, keyedL, keyedR⟩ := keyed
    rw [bstFind_node] at found
    split_ifs at found with same
    · cases found
      subst same
      exact ⟨chr, nonzero, keyedChild⟩
    · exact ihl keyedL found
    · exact ihr keyedR found

theorem childrenKeyed_bstWrite {t : BstNode (TrieNode δ)} (keyed : ChildrenKeyed t) {c : UInt8}
    {x : TrieNode δ} (chr : x.chr = c) (keyedX : NodeKeyed x) : ChildrenKeyed (bstWrite t c x) := by
  induction t with
  | nil => trivial
  | node c' h left right child ihl ihr =>
    obtain ⟨chr', nonzero, keyedChild, keyedL, keyedR⟩ := keyed
    simp only [bstWrite]
    split_ifs with same
    · subst same
      exact ⟨chr, nonzero, keyedX, keyedL, keyedR⟩
    · exact ⟨chr', nonzero, keyedChild, ihl keyedL, keyedR⟩
    · exact ⟨chr', nonzero, keyedChild, keyedL, ihr keyedR⟩

theorem childrenKeyed_leafInsert {t : BstNode (TrieNode δ)} (keyed : ChildrenKeyed t) {c : UInt8}
    {x : TrieNode δ} (chr : x.chr = c) (nonzero : c ≠ 0) (keyedX : NodeKeyed x) :
    ChildrenKeyed (leafInsert t c x) := by
  induction t with
  | nil => exact ⟨chr, nonzero, keyedX, trivial, trivial⟩
  | node c' h left right child ihl ihr =>
    obtain ⟨chr', nonzero', keyedChild, keyedL, keyedR⟩ := keyed
    simp only [leafInsert]
    split_ifs
    · exact ⟨chr', nonzero', keyedChild, ihl keyedL, keyedR⟩
    · exact ⟨chr', nonzero', keyedChild, keyedL, ihr keyedR⟩
    · exact ⟨chr', nonzero', keyedChild, keyedL, keyedR⟩

theorem nodeKeyed_trieNodeWrite (f : TrieNode δ → TrieNode δ)
    (keeps : ∀ m, NodeKeyed m → NodeKeyed (f m)) (chr : ∀ m, (f m).chr = m.chr) :
    ∀ (p : List UInt8) (n : TrieNode δ), NodeKeyed n →
      NodeKeyed (trieNodeWrite f n p) ∧ (trieNodeWrite f n p).chr = n.chr := by
  intro p
  induction p with
  | nil => intro n keyed; exact ⟨keeps n keyed, chr n⟩
  | cons c p ih =>
    intro n keyed
    cases hchild : trieChild n c with
    | none => simp [trieNodeWrite, hchild, keyed]
    | some child =>
      rw [nodeKeyed_iff] at keyed
      obtain ⟨childChr, -, keyedChild⟩ := keyed_of_bstFind keyed.2 hchild
      obtain ⟨keyed', chr'⟩ := ih child keyedChild
      have written : trieNodeWrite f n (c :: p) =
          { n with children := bstWrite n.children c (trieNodeWrite f child p) } := by
        simp [trieNodeWrite, hchild]
      rw [written]
      refine ⟨?_, rfl⟩
      rw [nodeKeyed_iff]
      exact ⟨ordered_bstWrite keyed.1 c _, childrenKeyed_bstWrite keyed.2 (chr'.trans childChr) keyed'⟩

theorem nodeKeyed_trieNodeInsert (data : δ) :
    ∀ (key : List UInt8) (cursor cursor' : TrieNode δ) (size size' : Nat), 0 ∉ key →
      TrieWF cursor → NodeKeyed cursor → trieNodeInsert cursor key data size = some (cursor', size') →
        NodeKeyed cursor' ∧ cursor'.chr = cursor.chr := by
  intro key
  induction key with
  | nil =>
    intro cursor cursor' size size' _ _ keyed run
    simp only [trieNodeInsert, Option.some.injEq, Prod.mk.injEq] at run
    obtain ⟨rfl, -⟩ := run
    exact ⟨nodeKeyed_setData keyed _, rfl⟩
  | cons c cs ih =>
    intro cursor cursor' size size' nul wf keyed run
    have nonzero : c ≠ 0 := fun zero => nul (zero ▸ List.mem_cons_self)
    have nul' : 0 ∉ cs := fun mem => nul (List.mem_cons_of_mem c mem)
    rw [nodeKeyed_iff] at keyed
    cases hchild : trieChild cursor c with
    | some tmp =>
      simp only [trieNodeInsert, hchild, Option.bind_eq_bind, Option.bind_eq_some_iff,
        Option.pure_def, Option.some.injEq, Prod.mk.injEq] at run
      obtain ⟨⟨child, s⟩, inner, rfl, -⟩ := run
      obtain ⟨tmpChr, -, keyedTmp⟩ := keyed_of_bstFind keyed.2 hchild
      obtain ⟨keyedChild, childChr⟩ := ih tmp child size s nul' (wf.child hchild) keyedTmp inner
      refine ⟨?_, rfl⟩
      rw [nodeKeyed_iff]
      exact ⟨ordered_bstWrite keyed.1 c child,
        childrenKeyed_bstWrite keyed.2 (childChr.trans tmpChr) keyedChild⟩
    | none =>
      simp only [trieNodeInsert, hchild, Option.bind_eq_bind, Option.bind_eq_some_iff,
        bstInsert_of_heightsOne wf.children, Option.pure_def, Option.some.injEq, Prod.mk.injEq,
        exists_eq_left'] at run
      obtain ⟨⟨child, s⟩, inner, rfl, -⟩ := run
      obtain ⟨keyedChild, childChr⟩ := ih (trieCreateNode c) child size s nul'
        (trieWF_trieCreateNode c) (nodeKeyed_trieCreateNode c) inner
      refine ⟨?_, rfl⟩
      rw [nodeKeyed_iff]
      exact ⟨ordered_leafInsert keyed.1 c child,
        childrenKeyed_leafInsert keyed.2 childChr nonzero keyedChild⟩

theorem keyed_of_find :
    ∀ (p : List UInt8) (n m : TrieNode δ), NodeKeyed n → trieNodeFind n p = some m →
      NodeKeyed m ∧ ∀ c ∈ p.getLast?, m.chr = c := by
  intro p
  induction p with
  | nil => intro n m keyed found; cases found; exact ⟨keyed, by simp⟩
  | cons c p ih =>
    intro n m keyed found
    rw [trieNodeFind_cons] at found
    obtain ⟨child, hchild, rest⟩ := Option.bind_eq_some_iff.mp found
    rw [nodeKeyed_iff] at keyed
    obtain ⟨childChr, -, keyedChild⟩ := keyed_of_bstFind keyed.2 hchild
    obtain ⟨keyedM, chrM⟩ := ih child m keyedChild rest
    refine ⟨keyedM, fun c' last => ?_⟩
    cases p with
    | nil =>
      cases rest
      simp only [List.getLast?_singleton, Option.mem_some_iff] at last
      rw [← last, childChr]
    | cons c₀ p => exact chrM c' (by simpa using last)

theorem nodeKeyed_trieDelete {trie : Trie δ} (keyed : NodeKeyed trie.root) (key : CStr) :
    NodeKeyed (trieDelete trie key).1.root := by
  unfold trieDelete
  split_ifs
  · cases trieNodeFind trie.root key.bytes with
    | none => exact keyed
    | some retnode =>
      exact (nodeKeyed_trieNodeWrite _ (fun m keyed => nodeKeyed_setData keyed _) (fun _ => rfl)
        key.bytes trie.root keyed).1
  · exact keyed

theorem nodeKeyed_triePrefixDelete {trie : Trie δ} (keyed : NodeKeyed trie.root) (key : CStr) :
    NodeKeyed (triePrefixDelete trie key).root := by
  unfold triePrefixDelete
  split
  · exact keyed
  · split_ifs
    · exact nodeKeyed_trieDelete keyed key
    · apply nodeKeyed_trieDelete
      exact (nodeKeyed_trieNodeWrite _ (fun m _ => nodeKeyed_clearChildren m) (fun _ => rfl)
        key.bytes trie.root keyed).1

theorem nodeKeyed_trieStep {trie trie' : Trie δ} {op : TrieOp δ} (wf : TrieWF trie.root)
    (keyed : NodeKeyed trie.root) (step : trieStep trie op = some trie') : NodeKeyed trie'.root := by
  cases op with
  | insert key data =>
    simp only [trieStep, trieInsert, Option.map_eq_some_iff] at step
    obtain ⟨⟨root, size⟩, run, rfl⟩ := step
    exact (nodeKeyed_trieNodeInsert data key.bytes trie.root root trie.size size key.nul_free wf
      keyed run).1
  | delete key =>
    cases step
    exact nodeKeyed_trieDelete keyed key
  | prefixDelete key =>
    cases step
    exact nodeKeyed_triePrefixDelete keyed key

end Keyed

section Height

theorem trieNodeHeight_eq (n : TrieNode δ) : trieNodeHeight n = childrenHeight n.children := by
  obtain ⟨chr, children, data⟩ := n
  rfl

theorem height_lt_of_bstFind {t : BstNode (TrieNode δ)} {c : UInt8} {child : TrieNode δ}
    (found : bstFind t c = some child) : trieNodeHeight child + 1 ≤ childrenHeight t := by
  induction t with
  | nil => cases found
  | node c' h left right child' ihl ihr =>
    rw [bstFind_node] at found
    simp only [childrenHeight]
    split_ifs at found
    · cases found
      omega
    · have := ihl found
      omega
    · have := ihr found
      omega

theorem childrenHeight_bstWrite (t : BstNode (TrieNode δ)) (c : UInt8) (x : TrieNode δ) :
    childrenHeight (bstWrite t c x) ≤ max (childrenHeight t) (trieNodeHeight x + 1) := by
  induction t with
  | nil => simp [bstWrite, childrenHeight]
  | node c' h left right child ihl ihr =>
    simp only [bstWrite]
    split_ifs <;> simp only [childrenHeight] <;> omega

theorem childrenHeight_leafInsert (t : BstNode (TrieNode δ)) (c : UInt8) (x : TrieNode δ) :
    childrenHeight (leafInsert t c x) ≤ max (childrenHeight t) (trieNodeHeight x + 1) := by
  induction t with
  | nil => simp [leafInsert, bstNew, childrenHeight]
  | node c' h left right child ihl ihr =>
    simp only [leafInsert]
    split_ifs <;> simp only [childrenHeight] <;> omega

theorem trieNodeHeight_of_find :
    ∀ (p : List UInt8) (n m : TrieNode δ), trieNodeFind n p = some m →
      trieNodeHeight m + p.length ≤ trieNodeHeight n := by
  intro p
  induction p with
  | nil => intro n m found; cases found; simp
  | cons c p ih =>
    intro n m found
    rw [trieNodeFind_cons] at found
    obtain ⟨child, hchild, rest⟩ := Option.bind_eq_some_iff.mp found
    have below := height_lt_of_bstFind (hchild : bstFind n.children c = some child)
    have inner := ih child m rest
    rw [trieNodeHeight_eq n, List.length_cons]
    omega

theorem trieNodeHeight_trieNodeWrite (f : TrieNode δ → TrieNode δ)
    (lower : ∀ m, trieNodeHeight (f m) ≤ trieNodeHeight m) :
    ∀ (p : List UInt8) (n : TrieNode δ), trieNodeHeight (trieNodeWrite f n p) ≤ trieNodeHeight n := by
  intro p
  induction p with
  | nil => exact lower
  | cons c p ih =>
    intro n
    cases hchild : trieChild n c with
    | none => simp [trieNodeWrite, hchild]
    | some child =>
      have written : trieNodeWrite f n (c :: p) =
          { n with children := bstWrite n.children c (trieNodeWrite f child p) } := by
        simp [trieNodeWrite, hchild]
      have below := height_lt_of_bstFind (hchild : bstFind n.children c = some child)
      have write := childrenHeight_bstWrite n.children c (trieNodeWrite f child p)
      have inner := ih child
      rw [written]
      show childrenHeight (bstWrite n.children c (trieNodeWrite f child p)) ≤ trieNodeHeight n
      rw [trieNodeHeight_eq n]
      omega

theorem trieNodeHeight_trieNodeInsert (data : δ) :
    ∀ (key : List UInt8) (cursor cursor' : TrieNode δ) (size size' : Nat), TrieWF cursor →
      trieNodeInsert cursor key data size = some (cursor', size') →
        trieNodeHeight cursor' ≤ max (trieNodeHeight cursor) key.length := by
  intro key
  induction key with
  | nil =>
    intro cursor cursor' size size' _ run
    simp only [trieNodeInsert, Option.some.injEq, Prod.mk.injEq] at run
    obtain ⟨rfl, -⟩ := run
    simp [trieNodeHeight_eq]
  | cons c cs ih =>
    intro cursor cursor' size size' wf run
    cases hchild : trieChild cursor c with
    | some tmp =>
      simp only [trieNodeInsert, hchild, Option.bind_eq_bind, Option.bind_eq_some_iff,
        Option.pure_def, Option.some.injEq, Prod.mk.injEq] at run
      obtain ⟨⟨child, s⟩, inner, rfl, -⟩ := run
      have below := height_lt_of_bstFind (hchild : bstFind cursor.children c = some tmp)
      have write := childrenHeight_bstWrite cursor.children c child
      have grown := ih tmp child size s (wf.child hchild) inner
      show childrenHeight (bstWrite cursor.children c child) ≤
        max (trieNodeHeight cursor) (cs.length + 1)
      rw [trieNodeHeight_eq cursor]
      omega
    | none =>
      simp only [trieNodeInsert, hchild, Option.bind_eq_bind, Option.bind_eq_some_iff,
        bstInsert_of_heightsOne wf.children, Option.pure_def, Option.some.injEq, Prod.mk.injEq,
        exists_eq_left'] at run
      obtain ⟨⟨child, s⟩, inner, rfl, -⟩ := run
      have insert := childrenHeight_leafInsert cursor.children c child
      have grown := ih (trieCreateNode c) child size s (trieWF_trieCreateNode c) inner
      have fresh : trieNodeHeight (trieCreateNode c : TrieNode δ) = 0 := rfl
      show childrenHeight (leafInsert cursor.children c child) ≤
        max (trieNodeHeight cursor) (cs.length + 1)
      rw [trieNodeHeight_eq cursor]
      omega

theorem trieNodeHeight_trieDelete (trie : Trie δ) (key : CStr) :
    trieNodeHeight (trieDelete trie key).1.root ≤ trieNodeHeight trie.root := by
  unfold trieDelete
  split_ifs
  · cases trieNodeFind trie.root key.bytes with
    | none => exact le_refl _
    | some retnode =>
      exact trieNodeHeight_trieNodeWrite _ (fun m => by simp [trieNodeHeight_eq]) key.bytes trie.root
  · exact le_refl _

theorem trieNodeHeight_triePrefixDelete (trie : Trie δ) (key : CStr) :
    trieNodeHeight (triePrefixDelete trie key).root ≤ trieNodeHeight trie.root := by
  unfold triePrefixDelete
  split
  · exact le_refl _
  · split_ifs
    · exact trieNodeHeight_trieDelete trie key
    · have cleared := trieNodeHeight_trieNodeWrite (fun n => { n with children := .nil })
        (fun m => by simp [trieNodeHeight_eq, childrenHeight]) key.bytes trie.root
      exact le_trans (trieNodeHeight_trieDelete _ key) cleared

theorem trieNodeHeight_trieStep {trie trie' : Trie δ} {op : TrieOp δ} (wf : TrieWF trie.root)
    (step : trieStep trie op = some trie') {bound : Nat} (below : trieNodeHeight trie.root ≤ bound)
    (short : ∀ key data, op = .insert key data → key.length ≤ bound) :
    trieNodeHeight trie'.root ≤ bound := by
  cases op with
  | insert key data =>
    simp only [trieStep, trieInsert, Option.map_eq_some_iff] at step
    obtain ⟨⟨root, size⟩, run, rfl⟩ := step
    have grown := trieNodeHeight_trieNodeInsert data key.bytes trie.root root trie.size size wf run
    have fits := short key data rfl
    simp only [CStr.length] at fits
    exact le_trans grown (max_le below fits)
  | delete key =>
    cases step
    exact le_trans (trieNodeHeight_trieDelete trie key) below
  | prefixDelete key =>
    cases step
    exact le_trans (trieNodeHeight_triePrefixDelete trie key) below

end Height

end TrieDB
