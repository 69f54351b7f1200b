import TrieDB.TrieMap

/-!
The counter `size` of a trie against `trie_node_count(root)`, the number of
nodes that hold data. Insertion and deletion move both by the same amount with
either destructor. Prefix deletion releases the nodes below the prefix through
`trie_node_destroy`, which takes them off the counter only when the trie has no
destructor: with `trie_node_destructor`, the counter keeps every key that was
bound strictly below the prefix.
-/
namespace TrieDB
open BstNode

variable {δ : Type}

section Count

def dataCount (data : Option δ) : Nat := if data.isSome then 1 else 0

@[simp] theorem dataCount_none : dataCount (none : Option δ) = 0 := rfl
@[simp] theorem dataCount_some (d : δ) : dataCount (some d) = 1 := rfl

theorem trieChildrenCount_eq_sum (t : BstNode (TrieNode δ)) :
    trieChildrenCount t = t.sum trieNodeCount := by
  induction t with
  | nil => rfl
  | node k h l r d ihl ihr => simp [trieChildrenCount, BstNode.sum, ihl, ihr]

theorem trieNodeCount_eq (n : TrieNode δ) :
    trieNodeCount n = dataCount n.data + trieChildrenCount n.children := by
  obtain ⟨chr, children, data⟩ := n
  cases data <;> simp [trieNodeCount, dataCount]

@[simp] theorem trieNodeCount_trieCreateNode (c : UInt8) :
    trieNodeCount (trieCreateNode c : TrieNode δ) = 0 := rfl

theorem trieNodeCount_trieNodeWrite (f : TrieNode δ → TrieNode δ) :
    ∀ (p : List UInt8) (n m : TrieNode δ), trieNodeFind n p = some m →
      trieNodeCount (trieNodeWrite f n p) + trieNodeCount m = trieNodeCount n + trieNodeCount (f m) := by
  intro p
  induction p with
  | nil =>
    intro n m found
    cases found
    exact Nat.add_comm _ _
  | cons c p ih =>
    intro n m found
    rw [trieNodeFind_cons] at found
    obtain ⟨child, hchild, rest⟩ := Option.bind_eq_some_iff.mp found
    have written : trieNodeWrite f n (c :: p) =
        { n with children := bstWrite n.children c (trieNodeWrite f child p) } := by
      simp [trieNodeWrite, hchild]
    have inner := ih child m rest
    have swap := sum_bstWrite trieNodeCount (hchild : bstFind n.children c = some child)
      (trieNodeWrite f child p)
    rw [written, trieNodeCount_eq, trieNodeCount_eq n]
    simp only [trieChildrenCount_eq_sum]
    omega

theorem trieNodeCount_le_of_find {n m : TrieNode δ} {p : List UInt8}
    (found : trieNodeFind n p = some m) : trieNodeCount m ≤ trieNodeCount n := by
  have trade := trieNodeCount_trieNodeWrite (fun _ => trieCreateNode 0) p n m found
  rw [trieNodeCount_trieCreateNode] at trade
  omega

end Count

section Destroy

mutual
theorem childrenDestroy_none :
    ∀ (t : BstNode (TrieNode δ)) (len : Nat), childrenDestroy none t len = len - trieChildrenCount t
  | .nil, len => rfl
  | .node _ _ left right data, len => by
    rw [childrenDestroy, childrenDestroy_none right, childrenDestroy_none left,
      trieNodeDestroy_none data, trieChildrenCount]
    omega

theorem trieNodeDestroy_none :
    ∀ (n : TrieNode δ) (size : Nat), trieNodeDestroy none n size = size - trieNodeCount n
  | ⟨_, children, data⟩, size => by
    rw [trieNodeDestroy, childrenDestroy_none children, trieNodeCount]
    cases data with
    | none => simp
    | some _ =>
      simp only [Option.isSome_some, true_and, if_true]
      split_ifs <;> omega
end

mutual
theorem childrenDestroy_some (d : TrieDestructor δ) :
    ∀ (t : BstNode (TrieNode δ)) (len : Nat), childrenDestroy (some d) t len = len
  | .nil, len => rfl
  | .node _ _ left right data, len => by
    rw [childrenDestroy, trieNodeDestroy_some d data, childrenDestroy_some d left,
      childrenDestroy_some d right]

theorem trieNodeDestroy_some (d : TrieDestructor δ) :
    ∀ (n : TrieNode δ) (size : Nat), trieNodeDestroy (some d) n size = size
  | ⟨_, children, _⟩, size => by
    rw [trieNodeDestroy, childrenDestroy_some d children]
end

end Destroy

section Steps

theorem trieNodeInsert_count (data : δ) :
    ∀ (key : List UInt8) (cursor : TrieNode δ) (size : Nat) (cursor' : TrieNode δ) (size' : Nat),
      TrieWF cursor → trieNodeInsert cursor key data size = some (cursor', size') →
      trieNodeCount cursor' + size = trieNodeCount cursor + size' := by
  intro key
  induction key with
  | nil =>
    intro cursor size cursor' size' _ run
    simp only [trieNodeInsert, Option.some.injEq, Prod.mk.injEq] at run
    obtain ⟨rfl, rfl⟩ := run
    rw [trieNodeCount_eq, trieNodeCount_eq cursor]
    cases cursor.data with
    | none => simp; omega
    | some _ => simp
  | cons c cs ih =>
    intro cursor size cursor' size' wf run
    cases hchild : trieChild cursor c with
    | some tmp =>
      simp only [trieNodeInsert, hchild, Option.bind_eq_bind, Option.bind_eq_some_iff,
        Option.pure_def, Option.some.injEq] at run
      obtain ⟨⟨child, size₁⟩, inner, same⟩ := run
      cases same
      have grown := ih tmp size child size₁ (wf.child hchild) inner
      have swap := sum_bstWrite trieNodeCount (hchild : bstFind cursor.children c = some tmp) child
      rw [trieNodeCount_eq, trieNodeCount_eq cursor]
      simp only [trieChildrenCount_eq_sum]
      omega
    | none =>
      simp only [trieNodeInsert, hchild, bstInsert_of_heightsOne wf.children, Option.bind_eq_bind,
        Option.bind_eq_some_iff, Option.bind_some, Option.pure_def, Option.some.injEq] at run
      obtain ⟨⟨child, size₁⟩, inner, same⟩ := run
      cases same
      have grown := ih (trieCreateNode c) size child size₁ (trieWF_trieCreateNode c) inner
      have added := sum_leafInsert trieNodeCount (hchild : bstFind cursor.children c = none) child
      rw [trieNodeCount_trieCreateNode] at grown
      rw [trieNodeCount_eq, trieNodeCount_eq cursor]
      simp only [trieChildrenCount_eq_sum]
      omega

theorem trieDelete_count (trie : Trie δ) (key : CStr) (used : UsedDestructor trie.destructor)
    (bounded : trieNodeCount trie.root ≤ trie.size) :
    (trieDelete trie key).1.size + trieNodeCount trie.root =
      trie.size + trieNodeCount (trieDelete trie key).1.root := by
  by_cases empty : key.bytes = []
  · rw [trieDelete_of_unfound (Or.inl empty)]
  · cases found : trieNodeFind trie.root key.bytes with
    | none => rw [trieDelete_of_unfound (Or.inr found)]
    | some retnode =>
      have trade := trieNodeCount_trieNodeWrite (fun n => { n with data := none }) _ _ _ found
      have within := trieNodeCount_le_of_find found
      rw [trieNodeCount_eq retnode, trieNodeCount_eq { retnode with data := none }] at trade
      rw [trieNodeCount_eq retnode] at within
      rw [trieDelete_of_found used empty found]
      cases hdata : retnode.data <;> simp [hdata] at trade within ⊢ <;> omega

theorem trieInsert_count {trie trie' : Trie δ} {key : CStr} {data : δ} (wf : TrieWF trie.root)
    (run : trieInsert trie key data = some trie') :
    trieNodeCount trie'.root + trie.size = trieNodeCount trie.root + trie'.size := by
  simp only [trieInsert, Option.map_eq_some_iff] at run
  obtain ⟨⟨root, size⟩, inserted, rfl⟩ := run
  exact trieNodeInsert_count data key.bytes trie.root trie.size root size wf inserted

theorem trieNodeCount_clearChildren {root cursor : TrieNode δ} {key : List UInt8}
    (found : trieNodeFind root key = some cursor) :
    trieNodeCount (trieNodeWrite (fun n => { n with children := .nil }) root key) +
      trieChildrenCount cursor.children = trieNodeCount root := by
  have trade := trieNodeCount_trieNodeWrite (fun n => { n with children := .nil }) _ _ _ found
  rw [trieNodeCount_eq cursor, trieNodeCount_eq { cursor with children := .nil }] at trade
  simp only [trieChildrenCount] at trade
  omega

theorem triePrefixDelete_count_null (trie : Trie δ) (key : CStr) (null : trie.destructor = none)
    (bounded : trieNodeCount trie.root ≤ trie.size) :
    (triePrefixDelete trie key).size + trieNodeCount trie.root =
      trie.size + trieNodeCount (triePrefixDelete trie key).root := by
  have used : UsedDestructor trie.destructor := Or.inl null
  cases found : trieNodeFind trie.root key.bytes with
  | none => simp [triePrefixDelete, found]
  | some cursor =>
    by_cases free : trieIsFreeNode cursor
    · have deleted := trieDelete_count trie key used bounded
      simp only [triePrefixDelete, found, free, if_true]
      omega
    · have cleared := trieNodeCount_clearChildren found
      have deleted := trieDelete_count
        { trie with
            root := trieNodeWrite (fun n => { n with children := .nil }) trie.root key.bytes
            size := childrenDestroy trie.destructor cursor.children trie.size }
        key used (by simp only [null, childrenDestroy_none]; omega)
      simp only [null, childrenDestroy_none] at deleted
      simp only [triePrefixDelete, found, free, Bool.false_eq_true, if_false, null,
        childrenDestroy_none]
      omega

theorem triePrefixDelete_count_destructor (trie : Trie δ) (key : CStr) {cursor : TrieNode δ}
    (made : trie.destructor = some trieNodeDestructor)
    (bounded : trieNodeCount trie.root ≤ trie.size)
    (found : trieNodeFind trie.root key.bytes = some cursor) :
    (triePrefixDelete trie key).size + trieNodeCount trie.root =
      trie.size + trieNodeCount (triePrefixDelete trie key).root + trieChildrenCount cursor.children := by
  have used : UsedDestructor trie.destructor := Or.inr made
  by_cases free : trieIsFreeNode cursor
  · have leaf : cursor.children = .nil := by simpa [trieIsFreeNode] using free
    have deleted := trieDelete_count trie key used bounded
    simp only [triePrefixDelete, found, free, if_true, leaf, trieChildrenCount]
    omega
  · have cleared := trieNodeCount_clearChildren found
    have deleted := trieDelete_count
      { trie with
          root := trieNodeWrite (fun n => { n with children := .nil }) trie.root key.bytes
          size := childrenDestroy trie.destructor cursor.children trie.size }
      key used (by simp only [made, childrenDestroy_some]; omega)
    simp only [made, childrenDestroy_some] at deleted
    simp only [triePrefixDelete, found, free, Bool.false_eq_true, if_false, made,
      childrenDestroy_some]
    omega

end Steps

section Runs

/-- How `size` stands to the count along runs: equal to it without a
destructor, and never below it with `trie_node_destructor`. -/
def SizeInv (destructor : Option (TrieDestructor δ)) (trie : Trie δ) : Prop :=
  TrieInv destructor trie ∧
    if destructor.isNone then trie.size = trieNodeCount trie.root
    else trieNodeCount trie.root ≤ trie.size

theorem sizeInv_trieNew (destructor : Option (TrieDestructor δ)) :
    SizeInv destructor (trieNew destructor) := by
  refine ⟨trieInv_trieNew destructor, ?_⟩
  split_ifs <;> rfl

theorem trieStep_keeps_sizeInv {destructor : Option (TrieDestructor δ)}
    (used : UsedDestructor destructor) : OpRun.Keeps trieStep (SizeInv destructor) := by
  intro trie op ⟨inv, sized⟩
  have used' : UsedDestructor trie.destructor := inv.madeWith ▸ used
  have bounded : trieNodeCount trie.root ≤ trie.size := by
    split_ifs at sized <;> omega
  obtain ⟨trie', step, inv'⟩ := trieStep_keeps used trie op inv
  refine ⟨trie', step, inv', ?_⟩
  -- each operation moves `size` and the count alike, but a prefix delete
  -- with the destructor, which moves the count further
  have moved : trie'.size + trieNodeCount trie.root ≥ trie.size + trieNodeCount trie'.root ∧
      (destructor.isNone → trie'.size + trieNodeCount trie.root = trie.size + trieNodeCount trie'.root) := by
    cases op with
    | insert key data =>
      have grown := trieInsert_count inv.wf step
      omega
    | delete key =>
      cases step
      have deleted := trieDelete_count trie key used' bounded
      omega
    | prefixDelete key =>
      cases step
      rcases used with null | made
      · have deleted := triePrefixDelete_count_null trie key (inv.madeWith.trans null) bounded
        omega
      · cases found : trieNodeFind trie.root key.bytes with
        | none => simp [triePrefixDelete, found, made]
        | some cursor =>
          have deleted := triePrefixDelete_count_destructor trie key (inv.madeWith.trans made)
            bounded found
          simp only [made, Option.isNone_some, Bool.false_eq_true, false_implies, and_true]
          omega
  split_ifs at sized ⊢ with null
  · have exact := moved.2 null
    omega
  · omega

/-- Without a destructor, `trie_size` is `trie_node_count(root)` after every
run of inserts, deletes and prefix deletes. -/
theorem trieSize_eq_trieNodeCount (ops : List (TrieOp δ)) :
    ∃ trie, OpRun.run trieStep (trieNew none) ops = some trie ∧
      trieSize trie = trieNodeCount trie.root := by
  obtain ⟨trie, run, -, sized⟩ :=
    OpRun.run_keeps (trieStep_keeps_sizeInv (Or.inl rfl)) ops _ (sizeInv_trieNew none)
  exact ⟨trie, run, by simpa [trieSize] using sized⟩

/-- With `trie_node_destructor`, `trie_size` never falls below
`trie_node_count(root)`. -/
theorem trieNodeCount_le_trieSize (ops : List (TrieOp δ)) :
    ∃ trie, OpRun.run trieStep (trieNew (some trieNodeDestructor)) ops = some trie ∧
      trieNodeCount trie.root ≤ trieSize trie := by
  obtain ⟨trie, run, -, sized⟩ :=
    OpRun.run_keeps (trieStep_keeps_sizeInv (Or.inr rfl)) ops _ (sizeInv_trieNew _)
  exact ⟨trie, run, by simpa [trieSize] using sized⟩

/-- With `trie_node_destructor`, deleting the prefix `"a"` of the keys `"a"`
and `"ab"` leaves `size` at 1 with no key bound. -/
theorem triePrefixDelete_size_stale :
    ∃ trie, OpRun.run trieStep (trieNew (some trieNodeDestructor))
        [TrieOp.insert ⟨[97], by decide⟩ (1 : Nat), .insert ⟨[97, 98], by decide⟩ 2,
          .prefixDelete ⟨[97], by decide⟩] = some trie ∧
      trieSize trie = 1 ∧ trieNodeCount trie.root = 0 :=
  ⟨_, rfl, rfl, rfl⟩

end Runs

end TrieDB
