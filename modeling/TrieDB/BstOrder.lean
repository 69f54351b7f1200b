import TrieDB.Bst
import TrieDB.Library.Run

/-!
What a run of `bst_insert` calls from NULL leaves in the tree. Every height
field stays 1, so each call is a leaf insertion; leaf insertion keeps the
search-tree order, binds a free key and leaves a bound one alone, so the tree
keeps each key's first data. Nothing keeps its shape: the tree is as deep as
the order of the insertions makes it.
-/
namespace TrieDB
open BstNode
variable {α : Type}

def BstNode.inorder : BstNode α → List (UInt8 × α)
  | nil => []
  | node k _ l r d => l.inorder ++ (k, d) :: r.inorder

def BstNode.keys (t : BstNode α) : List UInt8 := t.inorder.map Prod.fst

def Ordered : BstNode α → Prop
  | nil => True
  | node k _ l r _ => (∀ x ∈ l.keys, x < k) ∧ (∀ x ∈ r.keys, k < x) ∧ Ordered l ∧ Ordered r

def BstNode.depth : BstNode α → Nat
  | nil => 0
  | node _ _ l r _ => max l.depth r.depth + 1

/-- One call `bst_insert(t, key, data)` of a run. -/
def bstInsertStep (t : BstNode α) (kd : UInt8 × α) : Option (BstNode α) := bstInsert t kd.1 kd.2

def leafInsertStep (t : BstNode α) (kd : UInt8 × α) : BstNode α := leafInsert t kd.1 kd.2

section Keys

@[simp] theorem keys_nil : (nil : BstNode α).keys = [] := rfl

@[simp] theorem keys_node (k : UInt8) (h : Int) (l r : BstNode α) (d : α) :
    (node k h l r d).keys = l.keys ++ k :: r.keys := by
  simp [BstNode.keys, BstNode.inorder]

theorem eq_of_not_lt_not_gt {a b : UInt8} (notLt : ¬ a < b) (notGt : ¬ a > b) : a = b :=
  UInt8.le_antisymm (UInt8.not_lt.mp notGt) (UInt8.not_lt.mp notLt)

theorem mem_keys_leafInsert (t : BstNode α) (k x : UInt8) (d : α) :
    x ∈ (leafInsert t k d).keys ↔ x = k ∨ x ∈ t.keys := by
  induction t with
  | nil => simp [leafInsert, bstNew]
  | node k' h l r dd ihl ihr =>
    simp only [leafInsert]
    split_ifs with lt gt
    · simp only [keys_node, List.mem_append, ihl, List.mem_cons, or_assoc]
    · simp only [keys_node, List.mem_append, ihr, List.mem_cons, or_left_comm]
    · have same := eq_of_not_lt_not_gt lt gt
      subst same
      simp only [keys_node, List.mem_append, List.mem_cons]
      constructor
      · exact .inr
      · rintro (rfl | mem)
        · exact .inr (.inl rfl)
        · exact mem

theorem ordered_leafInsert {t : BstNode α} (ordered : Ordered t) (k : UInt8) (d : α) :
    Ordered (leafInsert t k d) := by
  induction t with
  | nil => simp [leafInsert, bstNew, Ordered]
  | node k' h l r dd ihl ihr =>
    obtain ⟨below, above, orderedL, orderedR⟩ := ordered
    simp only [leafInsert]
    split_ifs with lt gt
    · refine ⟨?_, above, ihl orderedL, orderedR⟩
      intro x mem
      rcases (mem_keys_leafInsert l k x d).mp mem with rfl | old
      · exact lt
      · exact below x old
    · refine ⟨below, ?_, orderedL, ihr orderedR⟩
      intro x mem
      rcases (mem_keys_leafInsert r k x d).mp mem with rfl | old
      · exact gt
      · exact above x old
    · exact ⟨below, above, orderedL, orderedR⟩

@[simp] theorem keys_bstWrite (t : BstNode α) (k : UInt8) (x : α) : (bstWrite t k x).keys = t.keys := by
  induction t with
  | nil => rfl
  | node k' h l r d ihl ihr =>
    simp only [bstWrite]
    split_ifs <;> simp [ihl, ihr]

theorem ordered_bstWrite {t : BstNode α} (ordered : Ordered t) (k : UInt8) (x : α) :
    Ordered (bstWrite t k x) := by
  induction t with
  | nil => trivial
  | node k' h l r d ihl ihr =>
    obtain ⟨below, above, orderedL, orderedR⟩ := ordered
    simp only [bstWrite]
    split_ifs
    · exact ⟨below, above, orderedL, orderedR⟩
    · exact ⟨by simpa using below, above, ihl orderedL, orderedR⟩
    · exact ⟨below, by simpa using above, orderedL, ihr orderedR⟩

theorem keys_sorted {t : BstNode α} (ordered : Ordered t) : t.keys.Pairwise (· < ·) := by
  induction t with
  | nil => simp
  | node k h l r d ihl ihr =>
    obtain ⟨below, above, orderedL, orderedR⟩ := ordered
    rw [keys_node, List.pairwise_append, List.pairwise_cons]
    refine ⟨ihl orderedL, ⟨above, ihr orderedR⟩, ?_⟩
    intro a amem b bmem
    rcases List.mem_cons.mp bmem with rfl | bmem
    · exact below a amem
    · exact UInt8.lt_trans (below a amem) (above b bmem)

end Keys

section Search

theorem key_of_bstSearch {t n : BstNode α} {k : UInt8} (found : bstSearch t k = some n) :
    n.key? = some k := by
  induction t with
  | nil => cases found
  | node k' h l r d ihl ihr =>
    simp only [bstSearch] at found
    split_ifs at found with same lt
    · cases found
      simp [key?, same]
    · exact ihl found
    · exact ihr found

theorem bstFind_eq_none_iff (t : BstNode α) (k : UInt8) :
    bstFind t k = none ↔ bstSearch t k = none := by
  unfold bstFind
  cases found : bstSearch t k with
  | none => simp
  | some n =>
    have keyed := key_of_bstSearch found
    cases n with
    | nil => simp [key?] at keyed
    | node _ _ _ _ _ => simp [data?]

theorem mem_inorder_of_bstFind {t : BstNode α} {k : UInt8} {x : α} (found : bstFind t k = some x) :
    (k, x) ∈ t.inorder := by
  induction t with
  | nil => cases found
  | node k' h l r d ihl ihr =>
    rw [bstFind_node] at found
    split_ifs at found with same lt
    · cases found
      simp [BstNode.inorder, same]
    · simp [BstNode.inorder, ihl found]
    · simp [BstNode.inorder, ihr found]

theorem bstFind_of_mem_inorder {t : BstNode α} (ordered : Ordered t) {k : UInt8} {x : α}
    (mem : (k, x) ∈ t.inorder) : bstFind t k = some x := by
  induction t with
  | nil => cases mem
  | node k' h l r d ihl ihr =>
    obtain ⟨below, above, orderedL, orderedR⟩ := ordered
    have key : ∀ {t : BstNode α}, (k, x) ∈ t.inorder → k ∈ t.keys := fun mem =>
      List.mem_map.mpr ⟨(k, x), mem, rfl⟩
    rw [bstFind_node]
    simp only [BstNode.inorder, List.mem_append, List.mem_cons, Prod.mk.injEq] at mem
    rcases mem with left | ⟨rfl, rfl⟩ | right
    · have lt := below k (key left)
      have ne : k ≠ k' := by
        rintro rfl
        exact UInt8.lt_irrefl k lt
      rw [if_neg ne, if_pos lt]
      exact ihl orderedL left
    · simp
    · have gt := above k (key right)
      have ne : k ≠ k' := by
        rintro rfl
        exact UInt8.lt_irrefl k gt
      rw [if_neg ne, if_neg (fun lt => UInt8.lt_irrefl k (UInt8.lt_trans lt gt))]
      exact ihr orderedR right

end Search

section Runs

theorem keeps_bstInsertStep :
    OpRun.Keeps (bstInsertStep (α := α)) fun t => HeightsOne t ∧ Ordered t := by
  intro t kd inv
  refine ⟨leafInsertStep t kd, bstInsert_of_heightsOne inv.1 kd.1 kd.2, ?_, ?_⟩
  · exact heightsOne_leafInsert inv.1 kd.1 kd.2
  · exact ordered_leafInsert inv.2 kd.1 kd.2

theorem commutes_bstInsertStep :
    OpRun.Commutes (bstInsertStep (α := α)) (fun t => HeightsOne t ∧ Ordered t) id
      leafInsertStep := by
  intro t kd t' inv step
  rw [bstInsertStep, bstInsert_of_heightsOne inv.1] at step
  cases step
  rfl

theorem mem_keys_foldl (kvs : List (UInt8 × α)) (t : BstNode α) (x : UInt8) :
    x ∈ (kvs.foldl leafInsertStep t).keys ↔ x ∈ t.keys ∨ x ∈ kvs.map Prod.fst := by
  induction kvs generalizing t with
  | nil => simp
  | cons kd kvs ih =>
    rw [List.foldl_cons, ih, leafInsertStep, mem_keys_leafInsert]
    simp only [List.map_cons, List.mem_cons, or_assoc, or_left_comm]

theorem bstFind_foldl (kvs : List (UInt8 × α)) (t : BstNode α) (key : UInt8) :
    bstFind (kvs.foldl leafInsertStep t) key =
      (bstFind t key).or ((kvs.find? (·.1 = key)).map Prod.snd) := by
  induction kvs generalizing t with
  | nil => simp
  | cons kd kvs ih =>
    rw [List.foldl_cons, ih, leafInsertStep, bstFind_leafInsert]
    by_cases same : kd.1 = key
    · subst same
      cases bound : bstFind t kd.1 <;> simp
    · have notSame : key ≠ kd.1 := fun h => same h.symm
      simp [notSame, same]

end Runs

/-- A run of `bst_insert` from NULL builds a search tree whose keys are the
inserted ones, each with the data of its first insertion; `bst_search` returns
the node of an inserted key and NULL for any other. -/
theorem bstInsert_run_spec (kvs : List (UInt8 × α)) :
    ∃ t, OpRun.run bstInsertStep nil kvs = some t ∧
      t.keys.Pairwise (· < ·) ∧
      (∀ k, k ∈ t.keys ↔ k ∈ kvs.map Prod.fst) ∧
      (∀ k, bstFind t k = (kvs.find? (·.1 = k)).map Prod.snd) ∧
      ∀ k, (k ∈ kvs.map Prod.fst → ∃ n, bstSearch t k = some n ∧ n.key? = some k) ∧
        (k ∉ kvs.map Prod.fst → bstSearch t k = none) := by
  obtain ⟨t, run, ⟨_, ordered⟩, image⟩ :=
    OpRun.run_simulates keeps_bstInsertStep commutes_bstInsertStep kvs nil ⟨trivial, trivial⟩
  simp only [id] at image
  have data : ∀ k, bstFind t k = (kvs.find? (·.1 = k)).map Prod.snd := fun k => by
    rw [image, bstFind_foldl]
    simp
  have bound : ∀ k, bstFind t k = none ↔ k ∉ kvs.map Prod.fst := fun k => by
    rw [data, Option.map_eq_none_iff, List.find?_eq_none]
    simp only [List.mem_map, decide_eq_true_eq, not_exists, not_and]
  refine ⟨t, run, keys_sorted ordered, fun k => ?_, data, fun k => ⟨fun inserted => ?_, ?_⟩⟩
  · rw [image, mem_keys_foldl]
    simp
  · cases found : bstSearch t k with
    | none =>
      rw [← bstFind_eq_none_iff, bound] at found
      contradiction
    | some n => exact ⟨n, rfl, key_of_bstSearch found⟩
  · intro missing
    rw [← bstFind_eq_none_iff, bound]
    exact missing

/-- Inserting 1, 2 and 3 builds a chain: the root's height field is 1 while the
tree under it is 3 deep, over subtrees 0 and 2 deep. -/
theorem bstInsert_ascending_chain :
    OpRun.run bstInsertStep nil [((1 : UInt8), (0 : Nat)), (2, 0), (3, 0)] =
        some (node 1 1 nil (node 2 1 nil (node 3 1 nil nil 0) 0) 0) ∧
      (node 1 1 nil (node 2 1 nil (node 3 1 nil nil 0) 0) 0 : BstNode Nat).height = 1 ∧
      (node 1 1 nil (node 2 1 nil (node 3 1 nil nil 0) 0) 0 : BstNode Nat).depth = 3 ∧
      (nil : BstNode Nat).depth = 0 ∧
      (node 2 1 nil (node 3 1 nil nil 0) 0 : BstNode Nat).depth = 2 := by
  refine ⟨by decide, rfl, rfl, rfl, rfl⟩

end TrieDB
