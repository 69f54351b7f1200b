import Mathlib.Order.Basic
import Mathlib.Tactic.Common

/-!
`bst.c`: the AVL tree of `bst_node`s that keeps the children of a trie node,
keyed by `unsigned char`. `HEIGHT`, `BALANCE` and `MAX` are macros; every use
of them below is its expansion under C precedence. A dereference of NULL ends
the call with `none`.

The heights the expansions compute are never more than 1, so no rotation is
ever taken: on every tree `bst_insert` builds it is insertion at a leaf.
-/
namespace TrieDB

/-- `struct bst_node`, with `nil` the NULL pointer. -/
inductive BstNode (α : Type) where
  | nil : BstNode α
  | node (key : UInt8) (height : Int) (left right : BstNode α) (data : α) : BstNode α
  deriving Repr, DecidableEq

namespace BstNode
variable {α : Type}

/-- `HEIGHT(n)`, that is `!n ? 0 : n->height`. -/
def height : BstNode α → Int
  | nil => 0
  | node _ h _ _ _ => h

/-- `n->key`. -/
def key? : BstNode α → Option UInt8
  | nil => none
  | node k _ _ _ _ => some k

/-- `!n`. -/
def isNil : BstNode α → Bool
  | nil => true
  | node _ _ _ _ _ => false

/-- `n->data`. -/
def data? : BstNode α → Option α
  | nil => none
  | node _ _ _ _ d => some d

@[simp] theorem isNil_iff (t : BstNode α) : t.isNil = true ↔ t = nil := by
  cases t <;> simp [isNil]

@[simp] theorem height_nil : (nil : BstNode α).height = 0 := rfl
@[simp] theorem height_node (k : UInt8) (h : Int) (l r : BstNode α) (d : α) :
    (node k h l r d).height = h := rfl

end BstNode

open BstNode

variable {α : Type}

theorem uint8_gt_of_not_lt {a b : UInt8} (notLt : ¬ a < b) (ne : a ≠ b) : a > b := by
  have ne' : a.toNat ≠ b.toNat := fun same => ne (UInt8.toNat_inj.mp same)
  simp only [gt_iff_lt, UInt8.lt_iff_toNat_lt] at *
  omega

def bstNew (key : UInt8) (data : α) : BstNode α := node key 1 nil nil data

/-- `1 + MAX((HEIGHT(l)), (HEIGHT(r)))` in `bst_insert`: the `+` binds to the
left operand of `MAX`'s `>`, so the sum is compared and not returned. -/
def onePlusMaxHeight (l r : BstNode α) : Int :=
  if 1 + l.height > r.height then l.height else r.height

/-- `MAX(HEIGHT(l), HEIGHT(r)) + 1` in the rotations. Unparenthesised, it reads
`!l ? 0 : (l->height > !r) ? 0 : r->height ? HEIGHT(l) : HEIGHT(r) + 1`, and
the test `r->height` dereferences `r` even when it is NULL. -/
def maxHeightPlusOne (l r : BstNode α) : Option Int :=
  match l with
  | nil => some 0
  | node _ lh _ _ _ =>
    if lh > (if r.isNil then 1 else 0) then some 0
    else match r with
      | nil => none
      | node _ rh _ _ _ => if rh ≠ 0 then some lh else some (rh + 1)

def bstRotateRight : BstNode α → Option (BstNode α)
  | nil => none
  | node yk _ yl yr yd =>
    match yl with
    | nil => none
    | node xk _ xl t2 xd => do
      let yh ← maxHeightPlusOne t2 yr
      let y := node yk yh t2 yr yd
      let xh ← maxHeightPlusOne xl y
      pure (node xk xh xl y xd)

/-- `bst_rotate_left(x)`. It takes `y = x->left`, as the right rotation does. -/
def bstRotateLeft : BstNode α → Option (BstNode α)
  | nil => none
  | node xk _ xl xr xd =>
    match xl with
    | nil => none
    | node yk _ yl t2 yd => do
      let xh ← maxHeightPlusOne t2 xr
      let x := node xk xh t2 xr xd
      let yh ← maxHeightPlusOne yl x
      pure (node yk yh yl x yd)

/-- What `bst_insert` does after storing the new subtree and its height:
`BALANCE(node)` and the four rotation tests. A test `balance > 1 && key <
node->left->key` dereferences the child only once the balance test holds,
and since `balance > 1` and `balance < -1` exclude each other, the first and
third tests, and the second and fourth, read the same child. -/
def bstRebalance (key : UInt8) : BstNode α → Option (BstNode α)
  | nil => none
  | node k h l r d =>
    let balance := l.height - r.height
    if balance > 1 then do
      let lk ← l.key?
      if key < lk then bstRotateRight (node k h l r d)
      else if key > lk then do
        let l' ← bstRotateLeft l
        bstRotateRight (node k h l' r d)
      else pure (node k h l r d)
    else if balance < -1 then do
      let rk ← r.key?
      if key > rk then bstRotateLeft (node k h l r d)
      else if key < rk then do
        let r' ← bstRotateRight r
        bstRotateLeft (node k h l r' d)
      else pure (node k h l r d)
    else pure (node k h l r d)

def bstInsert : BstNode α → UInt8 → α → Option (BstNode α)
  | nil, key, data => some (bstNew key data)
  | node k h l r d, key, data =>
    if key < k then do
      let l' ← bstInsert l key data
      bstRebalance key (node k (onePlusMaxHeight l' r) l' r d)
    else if key > k then do
      let r' ← bstInsert r key data
      bstRebalance key (node k (onePlusMaxHeight l r') l r' d)
    else some (node k h l r d)

/-- `bst_min(node)`: the leftmost node below `node`; `curr->left` on a NULL
`node` is undefined. -/
def bstMin : BstNode α → Option (BstNode α)
  | nil => none
  | node k h l r d => if l.isNil then some (node k h l r d) else bstMin l

/-- A rotation test of `bst_delete`, `balance > 1 && BALANCE(n) >= 0` and its
three siblings. Expanded it reads `(guard && !n) ? 0 : (HEIGHT(n->left)) -
(HEIGHT(n->right)) >= 0`: the `?:` takes the whole `&&` as its test, so the
comparison is made whatever the balance, through `n`, even when it is NULL. -/
def deleteTest (guard : Bool) (n : BstNode α) (test : Int → Bool) : Option Bool :=
  if guard && n.isNil then some false
  else match n with
    | nil => none
    | node _ _ l r _ => some (test (l.height - r.height))

/-- Steps 2 and 3 of `bst_delete` on the node it keeps: the height, the
balance, and the four rotation tests in the order of the source. -/
def bstDeleteRebalance : BstNode α → Option (BstNode α)
  | nil => some nil
  | node k _ l r d => do
    let h := onePlusMaxHeight l r
    let balance := l.height - r.height
    if ← deleteTest (balance > 1) l (· ≥ 0) then bstRotateRight (node k h l r d)
    else if ← deleteTest (balance > 1) l (· < 0) then do
      let l' ← bstRotateLeft l
      bstRotateRight (node k h l' r d)
    else if ← deleteTest (balance < -1) r (· ≤ 0) then bstRotateLeft (node k h l r d)
    else if ← deleteTest (balance < -1) r (· > 0) then do
      let r' ← bstRotateRight r
      bstRotateLeft (node k h l r' d)
    else pure (node k h l r d)

/-- `bst_delete`. The descent is two `if`s, the second with the `else` that
removes the node, so after a descent to the left the node itself is removed
too. A node with at most one child becomes that child (`*node = *tmp`); one
with two takes the key of the least node on its right, and keeps its own data. -/
def bstDelete : BstNode α → UInt8 → Option (BstNode α)
  | nil, _ => some nil
  | node k h l r d, key => do
    let l ← if key < k then bstDelete l key else pure l
    let t ← if key > k then do
        let r ← bstDelete r key
        pure (node k h l r d)
      else if l.isNil || r.isNil then pure (if l.isNil then r else l)
      else do
        let m ← bstMin r
        let mk ← m.key?
        let r ← bstDelete r mk
        pure (node mk h l r d)
    bstDeleteRebalance t

/-- `bst_search`: the node holding `key`, as the pointer to it. -/
def bstSearch : BstNode α → UInt8 → Option (BstNode α)
  | nil, _ => none
  | node k h l r d, key =>
    if key = k then some (node k h l r d)
    else if key < k then bstSearch l key
    else bstSearch r key

/-- `child->data` of the node `bst_search` returns. -/
def bstFind (t : BstNode α) (key : UInt8) : Option α := (bstSearch t key).bind data?

/-- A write through the pointer `bst_search(t, key)` returns to the data it
points at: the tree with that node's data replaced. -/
def bstWrite : BstNode α → UInt8 → α → BstNode α
  | nil, _, _ => nil
  | node k h l r d, key, x =>
    if key = k then node k h l r x
    else if key < k then node k h (bstWrite l key x) r d
    else node k h l (bstWrite r key x) d

def leafInsert : BstNode α → UInt8 → α → BstNode α
  | nil, key, data => bstNew key data
  | node k h l r d, key, data =>
    if key < k then node k h (leafInsert l key data) r d
    else if key > k then node k h l (leafInsert r key data) d
    else node k h l r d

/-- Every height field is 1: the heights the macros compute for the trees
`bst_insert` builds. -/
def HeightsOne : BstNode α → Prop
  | nil => True
  | node _ h l r _ => h = 1 ∧ HeightsOne l ∧ HeightsOne r

section Find

@[simp] theorem bstFind_nil (key : UInt8) : bstFind (nil : BstNode α) key = none := rfl

theorem bstFind_node (k key : UInt8) (h : Int) (l r : BstNode α) (d : α) :
    bstFind (node k h l r d) key =
      if key = k then some d else if key < k then bstFind l key else bstFind r key := by
  by_cases same : key = k
  · simp [bstFind, bstSearch, same, data?]
  · by_cases lt : key < k <;> simp [bstFind, bstSearch, same, lt]

theorem bstFind_bstNew (k key : UInt8) (d : α) :
    bstFind (bstNew k d) key = if key = k then some d else none := by
  simp [bstNew, bstFind_node]

theorem bstFind_bstWrite (t : BstNode α) (k key : UInt8) (x : α) :
    bstFind (bstWrite t k x) key = if key = k then (bstFind t k).map (fun _ => x)
      else bstFind t key := by
  induction t with
  | nil => simp [bstWrite]
  | node k' h l r d ihl ihr =>
    by_cases hk : k = k'
    · subst k'
      by_cases same : key = k <;> simp [bstWrite, bstFind_node, same]
    · by_cases lt : k < k'
      · simp only [bstWrite, hk, lt, if_false, if_true, bstFind_node, ihl]
        by_cases same : key = k
        · subst key; simp [hk, lt]
        · simp [same]
      · simp only [bstWrite, hk, lt, if_false, bstFind_node, ihr]
        by_cases same : key = k
        · subst key; simp [hk, lt]
        · simp [same]

theorem bstFind_leafInsert (t : BstNode α) (k key : UInt8) (d : α) :
    bstFind (leafInsert t k d) key =
      if key = k ∧ bstFind t k = none then some d else bstFind t key := by
  induction t with
  | nil => by_cases same : key = k <;> simp [leafInsert, bstFind_bstNew, same]
  | node k' h l r dd ihl ihr =>
    by_cases hk : k = k'
    · subst k'
      by_cases same : key = k <;> simp [leafInsert, bstFind_node, same]
    · by_cases lt : k < k'
      · simp only [leafInsert, lt, if_true, bstFind_node, ihl]
        by_cases same : key = k
        · subst key; simp [hk, lt]
        · simp [same]
      · have gt : k > k' := uint8_gt_of_not_lt lt hk
        simp only [leafInsert, lt, gt, if_false, if_true, bstFind_node, ihr]
        by_cases same : key = k
        · subst key; simp [hk, lt]
        · simp [same]

end Find

section Heights

theorem height_of_heightsOne {t : BstNode α} (ht : HeightsOne t) :
    0 ≤ t.height ∧ t.height ≤ 1 := by
  cases t with
  | nil => simp
  | node k h l r d => simp [HeightsOne] at ht; simp [ht.1]

theorem height_eq_one {t : BstNode α} (ht : HeightsOne t) (present : t ≠ nil) : t.height = 1 := by
  cases t with
  | nil => contradiction
  | node k h l r d => exact ht.1

theorem heightsOne_bstNew (k : UInt8) (d : α) : HeightsOne (bstNew k d) := by
  simp [bstNew, HeightsOne]

theorem leafInsert_ne_nil (t : BstNode α) (k : UInt8) (d : α) : leafInsert t k d ≠ nil := by
  cases t with
  | nil => simp [leafInsert, bstNew]
  | node k' h l r dd =>
    simp only [leafInsert]
    split_ifs <;> simp

theorem onePlusMaxHeight_of_heightsOne {l r : BstNode α} (hl : HeightsOne l) (hr : HeightsOne r)
    (present : l ≠ nil ∨ r ≠ nil) : onePlusMaxHeight l r = 1 := by
  have bl := height_of_heightsOne hl
  have br := height_of_heightsOne hr
  unfold onePlusMaxHeight
  rcases present with pl | pr
  · have one := height_eq_one hl pl
    split_ifs <;> omega
  · have one := height_eq_one hr pr
    split_ifs <;> omega

theorem bstRebalance_of_balanced (key k : UInt8) (h : Int) (l r : BstNode α) (d : α)
    (low : -1 ≤ l.height - r.height) (high : l.height - r.height ≤ 1) :
    bstRebalance key (node k h l r d) = some (node k h l r d) := by
  have notGt : ¬ l.height - r.height > 1 := by omega
  have notLt : ¬ l.height - r.height < -1 := by omega
  simp only [bstRebalance, notGt, notLt, if_false]
  rfl

theorem heightsOne_leafInsert {t : BstNode α} (ht : HeightsOne t) (k : UInt8) (d : α) :
    HeightsOne (leafInsert t k d) := by
  induction t with
  | nil => exact heightsOne_bstNew k d
  | node k' h l r dd ihl ihr =>
    obtain ⟨one, hl, hr⟩ := ht
    simp only [leafInsert]
    split_ifs
    · exact ⟨one, ihl hl, hr⟩
    · exact ⟨one, hl, ihr hr⟩
    · exact ⟨one, hl, hr⟩

theorem bstInsert_of_heightsOne {t : BstNode α} (ht : HeightsOne t) (k : UInt8) (d : α) :
    bstInsert t k d = some (leafInsert t k d) := by
  induction t with
  | nil => rfl
  | node k' h l r dd ihl ihr =>
    obtain ⟨one, hl, hr⟩ := ht
    subst one
    by_cases lt : k < k'
    · have hl' := heightsOne_leafInsert hl k d
      have top : onePlusMaxHeight (leafInsert l k d) r = 1 :=
        onePlusMaxHeight_of_heightsOne hl' hr (Or.inl (leafInsert_ne_nil l k d))
      have lOne := height_eq_one hl' (leafInsert_ne_nil l k d)
      have rBound := height_of_heightsOne hr
      simp only [bstInsert, lt, if_true, ihl hl, Option.bind_eq_bind, Option.bind_some, top,
        leafInsert]
      apply bstRebalance_of_balanced <;> omega
    · by_cases gt : k > k'
      · have hr' := heightsOne_leafInsert hr k d
        have top : onePlusMaxHeight l (leafInsert r k d) = 1 :=
          onePlusMaxHeight_of_heightsOne hl hr' (Or.inr (leafInsert_ne_nil r k d))
        have lBound := height_of_heightsOne hl
        have rOne := height_eq_one hr' (leafInsert_ne_nil r k d)
        simp only [bstInsert, lt, gt, if_true, if_false, ihr hr, Option.bind_eq_bind,
          Option.bind_some, top, leafInsert]
        apply bstRebalance_of_balanced <;> omega
      · simp [bstInsert, leafInsert, lt, gt]

theorem heightsOne_bstWrite {t : BstNode α} (ht : HeightsOne t) (k : UInt8) (x : α) :
    HeightsOne (bstWrite t k x) := by
  induction t with
  | nil => trivial
  | node k' h l r d ihl ihr =>
    obtain ⟨one, hl, hr⟩ := ht
    simp only [bstWrite]
    split_ifs
    · exact ⟨one, hl, hr⟩
    · exact ⟨one, ihl hl, hr⟩
    · exact ⟨one, hl, ihr hr⟩

end Heights

section Sum

/-- The total of a weight over the data of a tree, left to right from the
root as the counting walks of `trie.c` add it up. -/
def BstNode.sum (w : α → Nat) : BstNode α → Nat
  | nil => 0
  | node _ _ l r d => w d + l.sum w + r.sum w

variable (w : α → Nat)

theorem sum_bstWrite {t : BstNode α} {k : UInt8} {old : α} (found : bstFind t k = some old)
    (x : α) : (bstWrite t k x).sum w + w old = t.sum w + w x := by
  induction t with
  | nil => cases found
  | node k' h l r d ihl ihr =>
    rw [bstFind_node] at found
    by_cases same : k = k'
    · subst k'
      simp only [if_true] at found
      cases found
      simp only [bstWrite, if_true, BstNode.sum]
      omega
    · by_cases lt : k < k'
      · simp only [same, lt, if_true, if_false] at found
        have ih := ihl found
        simp only [bstWrite, same, lt, if_true, if_false, BstNode.sum]
        omega
      · simp only [same, lt, if_false] at found
        have ih := ihr found
        simp only [bstWrite, same, lt, if_false, BstNode.sum]
        omega

theorem sum_leafInsert {t : BstNode α} {k : UInt8} (missing : bstFind t k = none) (d : α) :
    (leafInsert t k d).sum w = t.sum w + w d := by
  induction t with
  | nil => simp [leafInsert, bstNew, BstNode.sum]
  | node k' h l r dd ihl ihr =>
    rw [bstFind_node] at missing
    have same : k ≠ k' := fun same => by simp [same] at missing
    by_cases lt : k < k'
    · simp only [same, lt, if_true, if_false] at missing
      have ih := ihl missing
      simp only [leafInsert, lt, if_true, BstNode.sum]
      omega
    · have gt : k > k' := uint8_gt_of_not_lt lt same
      simp only [same, lt, if_false] at missing
      have ih := ihr missing
      simp only [leafInsert, lt, gt, if_true, if_false, BstNode.sum]
      omega

end Sum

section Delete

/-- `bst_delete` on trees `bst_insert` built: deleting an absent key below the
one key of a tree removes that key, deleting one above it dereferences NULL,
and deleting the root of `{a, b, c}` leaves `c` with the data of `b`. -/
theorem bstDelete_breaks_keys_and_data :
    (bstInsert (nil : BstNode Nat) 98 1).bind (bstDelete · 97) = some nil ∧
      (bstInsert (nil : BstNode Nat) 97 1).bind (bstDelete · 98) = none ∧
      (do
        let t ← bstInsert (nil : BstNode Nat) 98 2
        let t ← bstInsert t 97 1
        let t ← bstInsert t 99 3
        let t ← bstDelete t 98
        pure (bstFind t 97, bstFind t 98, bstFind t 99)) = some (some 1, none, some 2) := by
  decide

end Delete

end TrieDB
