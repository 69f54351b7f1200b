import Mathlib.Data.List.Basic
import Mathlib.Tactic.Common

/-!
`vector.c`: a growable array of `void *`. The model keeps the first `size`
slots as a list and `maxsize` beside it. `trealloc` is assumed to succeed, so a
resize only sets `maxsize`. `swap` exchanges the blocks two items point to,
which for items with blocks of their own is exchanging the items.
-/
namespace TrieDB

/-- `Vector`: `items` are the slots below `size`. -/
structure Vector (α : Type) where
  items : List α
  maxsize : Nat
  deriving Repr, DecidableEq

namespace Vector
variable {α : Type}

/-- `VECTOR_INITIAL_CAPACITY`. -/
def initialCapacity : Nat := 4

/-- `vector_size`. -/
def size (v : Vector α) : Nat := v.items.length

end Vector

variable {α : Type}

def vectorNew : Vector α := ⟨[], Vector.initialCapacity⟩

def vectorResize (v : Vector α) (newsize : Nat) : Vector α := { v with maxsize := newsize }

def vectorAppend (v : Vector α) (item : α) : Vector α :=
  let v := if v.maxsize = v.size then vectorResize v (v.maxsize * 2) else v
  { v with items := v.items ++ [item] }

/-- `vector_set`: ignored outside `[0, size)`. -/
def vectorSet (v : Vector α) (index : Int) (item : α) : Vector α :=
  if 0 ≤ index ∧ index < v.size then { v with items := v.items.set index.toNat item } else v

/-- `vector_get`: a read outside the slots is undefined, and gives `none`. -/
def vectorGet (v : Vector α) (index : Int) : Option α :=
  if 0 ≤ index then v.items[index.toNat]? else none

/-- `vector_delete`: shift the later slots down, and halve the allocation once
`size` falls to a quarter of it. -/
def vectorDelete (v : Vector α) (index : Int) : Vector α :=
  if index < 0 ∨ index ≥ v.size then v
  else
    let v := { v with items := v.items.eraseIdx index.toNat }
    if v.size > 0 ∧ v.size = v.maxsize / 4 then vectorResize v (v.maxsize / 2) else v

/-- `quicksort(v, left, right, cmp, ptrlen)`, Lomuto's partition with the item
at `right` as pivot. Each `fuel` unit is one level of recursion; running out
stands for a recursion that does not end. -/
def quicksort (cmp : α → α → Bool) : Nat → List α → Int → Int → Option (List α)
  | 0, _, _, _ => none
  | fuel + 1, items, left, right =>
    if left ≥ right then some items
    else do
      let pivot ← items[right.toNat]?
      let (items, count) := partition cmp pivot items left.toNat right.toNat
      let items ← quicksort cmp fuel items left (count - 2)
      quicksort cmp fuel items count right
where
  /-- The loop `for (i = left; i <= right; ++i)`: an item with `cmp(item,
  pivot)` is swapped to `count`, which then advances. `pivot` points at the
  block at `right`, which no round before the last one swaps. -/
  partition (cmp : α → α → Bool) (pivot : α) (items : List α) (left right : Nat) :
      List α × Int :=
    (List.range' left (right + 1 - left)).foldl
      (fun (acc : List α × Int) i =>
        let (items, count) := acc
        match items[i]? with
        | some item =>
          if cmp item pivot then
            match items[count.toNat]? with
            | some other => ((items.set count.toNat item).set i other, count + 1)
            | none => (items, count + 1)
          else (items, count)
        | none => (items, count))
      (items, left)

/-- `vector_qsort`, with one level of recursion per item and one more. -/
def vectorQsort (v : Vector α) (cmp : α → α → Bool) : Option (Vector α) :=
  if v.size < 2 then some v
  else (quicksort cmp (v.size + 1) v.items 0 (v.size - 1)).map fun items => { v with items }

@[simp] theorem size_vectorNew : (vectorNew : Vector α).size = 0 := rfl

@[simp] theorem items_vectorAppend (v : Vector α) (item : α) :
    (vectorAppend v item).items = v.items ++ [item] := by
  unfold vectorAppend
  split_ifs <;> rfl

theorem vectorDelete_items (v : Vector α) (index : Nat) (inside : index < v.size) :
    (vectorDelete v index).items = v.items.eraseIdx index := by
  have notOut : ¬ ((index : Int) < 0 ∨ (index : Int) ≥ v.size) := by omega
  unfold vectorDelete
  simp only [notOut, if_false, Int.toNat_natCast]
  split_ifs <;> rfl

section Slots
variable {β : Type}

-- A store into a slot of an array, as the models of `trie.c` and `vector.c` write it.
theorem set_eq_take_cons_drop {l : List β} {i : Nat} (inside : i < l.length) (b : β) :
    l.set i b = l.take i ++ b :: l.drop (i + 1) := by
  rw [List.set_eq_take_append_cons_drop, if_pos inside]

theorem take_succ_set {l : List β} {i : Nat} (inside : i < l.length) (b : β) :
    (l.set i b).take (i + 1) = l.take i ++ [b] := by
  have short : (l.take i).length = i := List.length_take_of_le (by omega)
  rw [set_eq_take_cons_drop inside, List.take_append, short, List.take_of_length_le (by omega),
    Nat.add_sub_cancel_left]
  rfl

end Slots

end TrieDB
