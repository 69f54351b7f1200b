import Mathlib.Data.List.InsertIdx
import TrieDB.Pack
import TrieDB.Vector
import TrieDB.Library.Run

/-!
`vector.c` at the level of its allocation: the slots of the block `items`
points to, NULL as `none`, and the `size_t` fields `maxsize` and `size`. A
store or a read outside the block is undefined and ends the operation with
`none`. `trealloc` is taken to succeed and to keep the slots below the new
size; the slots it adds hold what the allocator leaves there, taken as NULL
since nothing reads them before a store. `vector_resize` takes an `int`, so
the doubling of a full vector of `2 ^ 30` slots passes it `INT_MIN`.
-/
namespace TrieDB

/-- `Vector` as `vector.c` lays it out: the slots of the block `items`, then
`maxsize` and `size`. -/
structure VectorMem (α : Type) where
  slots : List (Option α)
  maxsize : Nat
  size : Nat

variable {α : Type}

def vectorMemNew : VectorMem α :=
  ⟨List.replicate Vector.initialCapacity none, Vector.initialCapacity, 0⟩

/-- `vector_resize(v, newsize)`: `trealloc` of `sizeof(void *) * newsize`
bytes, the `int` converted to `size_t` and the product taken there, a block of
the slots that many bytes hold, and `maxsize = newsize` in `size_t` again. -/
def vectorMemResize (v : VectorMem α) (newsize : Int) : Option (VectorMem α) := do
  let bytes ← tmalloc (8 * (newsize % 2 ^ 64).toNat).toUInt64
  pure ⟨v.slots.take (bytes / 8) ++ List.replicate (bytes / 8 - v.slots.length) none,
    (newsize % 2 ^ 64).toNat, v.size⟩

def storeSlot (slots : List (Option α)) (i : Nat) (x : Option α) : Option (List (Option α)) :=
  if i < slots.length then some (slots.set i x) else none

/-- `vector_append`: a full vector is first resized to `maxsize * 2`, computed
in `size_t` and passed as the `int` of `vector_resize`. -/
def vectorMemAppend (v : VectorMem α) (item : α) : Option (VectorMem α) := do
  let v ← if v.maxsize = v.size then vectorMemResize v (toSigned 32 (v.maxsize * 2 % 2 ^ 32)) else pure v
  let slots ← storeSlot v.slots v.size (some item)
  pure { v with slots, size := v.size + 1 }

def vectorMemSet (v : VectorMem α) (index : Int) (item : α) : Option (VectorMem α) :=
  if 0 ≤ index ∧ index < v.size then do
    let slots ← storeSlot v.slots index.toNat (some item)
    pure { v with slots }
  else some v

/-- The loop of `vector_delete` from `i` on, for `n` rounds: `items[i] =
items[i + 1]; items[i + 1] = NULL`. -/
def shiftDown : List (Option α) → Nat → Nat → Option (List (Option α))
  | slots, _, 0 => some slots
  | slots, i, n + 1 => do
    let next ← slots[i + 1]?
    let slots ← storeSlot slots i next
    let slots ← storeSlot slots (i + 1) none
    shiftDown slots (i + 1) n

def vectorMemDelete (v : VectorMem α) (index : Int) : Option (VectorMem α) :=
  if index < 0 ∨ index ≥ v.size then some v
  else do
    let slots ← storeSlot v.slots index.toNat none
    let slots ← shiftDown slots index.toNat (v.size - 1 - index.toNat)
    let v : VectorMem α := { v with slots, size := v.size - 1 }
    if v.size > 0 ∧ v.size = v.maxsize / 4 then vectorMemResize v (toSigned 32 (v.maxsize / 2 % 2 ^ 32))
    else pure v

/-- The calls of `vector.c` that change a vector. -/
inductive VectorOp (α : Type) where
  | append (item : α)
  | set (index : Int) (item : α)
  | delete (index : Int)

def VectorOp.isAppend : VectorOp α → Bool
  | .append _ => true
  | _ => false

def vectorMemStep (v : VectorMem α) : VectorOp α → Option (VectorMem α)
  | .append item => vectorMemAppend v item
  | .set index item => vectorMemSet v index item
  | .delete index => vectorMemDelete v index

/-- The same calls on the model of `vector.c` the rest of the development uses. -/
def vectorStep (w : Vector α) : VectorOp α → Vector α
  | .append item => vectorAppend w item
  | .set index item => vectorSet w index item
  | .delete index => vectorDelete w index

/-- What a vector is for: a list, extended at the end, written at an index
inside it, or shortened by the element at an index inside it. -/
def listStep (l : List α) : VectorOp α → List α
  | .append item => l ++ [item]
  | .set index item => if 0 ≤ index ∧ index < l.length then l.set index.toNat item else l
  | .delete index => if 0 ≤ index ∧ index < l.length then l.eraseIdx index.toNat else l

/-- The slots of `v` hold the items of `w` below `size`; the block has
`maxsize` slots, the `maxsize` of `w`, at least one and at least `size`; and
`maxsize` is below `2 ^ 31`, so the `int` of `vector_resize` keeps its half. -/
structure VectorRefines (v : VectorMem α) (w : Vector α) : Prop where
  items : v.slots.take v.size = w.items.map some
  maxsize : v.maxsize = w.maxsize
  slots : v.slots.length = v.maxsize
  size_le : v.size ≤ v.maxsize
  pos : 1 ≤ v.maxsize
  small : v.maxsize < 2 ^ 31

section Slots

theorem toSigned_of_lt_two_pow_31 {m : Nat} (small : m < 2 ^ 31) : toSigned 32 (m % 2 ^ 32) = m := by
  have half : (2 : Nat) ^ (32 - 1) - 1 = 2147483647 := rfl
  rw [Nat.mod_eq_of_lt (by omega), toSigned, half, if_pos (by omega)]

theorem vectorMemResize_of_lt (v : VectorMem α) {n : Nat} (pos : 1 ≤ n) (small : n < 2 ^ 31) :
    vectorMemResize v n = some ⟨v.slots.take n ++ List.replicate (n - v.slots.length) none, n, v.size⟩ := by
  have wide : ((n : Int) % 2 ^ 64).toNat = n := by
    rw [Int.emod_eq_of_lt (by omega) (by omega), Int.toNat_natCast]
  have bytes : tmalloc (8 * n).toUInt64 = some (8 * n) := tmalloc_of_lt (by omega) (by omega)
  simp only [vectorMemResize, wide, bytes, Option.bind_eq_bind, Option.bind_some,
    Nat.mul_div_cancel_left n (show 0 < 8 by decide)]
  rfl

theorem length_resized (slots : List (Option α)) (n : Nat) :
    (slots.take n ++ List.replicate (n - slots.length) none).length = n := by
  simp only [List.length_append, List.length_take, List.length_replicate]
  omega

theorem take_resized {slots : List (Option α)} {n k : Nat} (le : k ≤ n) (inside : k ≤ slots.length) :
    (slots.take n ++ List.replicate (n - slots.length) none).take k = slots.take k := by
  have kept : k ≤ (slots.take n).length := by
    rw [List.length_take]
    omega
  rw [List.take_append_of_le_length kept, List.take_take, Nat.min_eq_left le]

theorem storeSlot_of_lt {slots : List (Option α)} {i : Nat} (inside : i < slots.length)
    (x : Option α) : storeSlot slots i x = some (slots.set i x) := by
  simp [storeSlot, inside]

theorem shiftDown_spec : ∀ (n : Nat) (pre rest : List (Option α)), n ≤ rest.length →
    shiftDown (pre ++ none :: rest) pre.length n = some (pre ++ rest.take n ++ none :: rest.drop n)
  | 0, pre, rest, _ => by simp [shiftDown]
  | n + 1, pre, x :: rest, inside => by
    have inside' : n ≤ rest.length := by simpa using inside
    have round : ((pre ++ none :: x :: rest).set pre.length x).set (pre.length + 1) none =
        (pre ++ [x]) ++ none :: rest := by
      simp
    have next : (pre ++ none :: x :: rest)[pre.length + 1]? = some x := by simp
    have later := shiftDown_spec n (pre ++ [x]) rest inside'
    rw [List.length_append, List.length_singleton] at later
    simp only [shiftDown, next, Option.bind_eq_bind, Option.bind_some,
      storeSlot_of_lt (show pre.length < (pre ++ none :: x :: rest).length by simp),
      storeSlot_of_lt (show pre.length + 1 < ((pre ++ none :: x :: rest).set pre.length x).length by simp),
      round, later]
    simp

end Slots

section Refines
variable {v : VectorMem α} {w : Vector α}

theorem VectorRefines.size_eq (r : VectorRefines v w) : v.size = w.size := by
  have same := congrArg List.length r.items
  rw [List.length_take, r.slots, Nat.min_eq_left r.size_le, List.length_map] at same
  exact same

theorem vectorRefines_new : VectorRefines (vectorMemNew : VectorMem α) vectorNew :=
  ⟨rfl, rfl, by simp [vectorMemNew], by simp [vectorMemNew], by simp [vectorMemNew, Vector.initialCapacity],
    by simp [vectorMemNew, Vector.initialCapacity]⟩

theorem VectorRefines.resize (r : VectorRefines v w) {n : Nat} (le : v.size ≤ n) (pos : 1 ≤ n)
    (small : n < 2 ^ 31) :
    VectorRefines ⟨v.slots.take n ++ List.replicate (n - v.slots.length) none, n, v.size⟩
      (vectorResize w n) where
  items := by
    rw [take_resized le (r.slots ▸ r.size_le), r.items]
    rfl
  maxsize := rfl
  slots := length_resized v.slots n
  size_le := le
  pos := pos
  small := small

theorem VectorRefines.store (r : VectorRefines v w) (inside : v.size < v.maxsize) (item : α) :
    VectorRefines ⟨v.slots.set v.size (some item), v.maxsize, v.size + 1⟩
      { w with items := w.items ++ [item] } where
  items := by rw [take_succ_set (r.slots ▸ inside), r.items, List.map_append]; rfl
  maxsize := r.maxsize
  slots := by rw [List.length_set]; exact r.slots
  size_le := inside
  pos := r.pos
  small := r.small

theorem vectorMemAppend_refines (r : VectorRefines v w) (room : w.size < 2 ^ 30) (item : α) :
    ∃ v', vectorMemAppend v item = some v' ∧ VectorRefines v' (vectorAppend w item) := by
  have sameSize := r.size_eq
  have pos := r.pos
  by_cases full : v.maxsize = v.size
  · -- `vector_resize(v, v->maxsize * 2)` first
    have fullW : w.maxsize = w.size := by rw [← r.maxsize, ← sameSize, full]
    have doubled : v.maxsize * 2 < 2 ^ 31 := by omega
    have resized := r.resize (show v.size ≤ v.maxsize * 2 by omega) (by omega) doubled
    have inside : v.size < v.maxsize * 2 := by omega
    have appended : vectorAppend w item = { vectorResize w (v.maxsize * 2) with
        items := (vectorResize w (v.maxsize * 2)).items ++ [item] } := by
      rw [r.maxsize]
      simp [vectorAppend, fullW]
    refine ⟨_, ?_, appended ▸ resized.store inside item⟩
    rw [vectorMemAppend, if_pos full, toSigned_of_lt_two_pow_31 doubled, vectorMemResize_of_lt v (by omega) doubled]
    simp only [Option.bind_eq_bind, Option.bind_some, Option.pure_def,
      storeSlot_of_lt (show v.size < (v.slots.take (v.maxsize * 2) ++
        List.replicate (v.maxsize * 2 - v.slots.length) none).length by rw [length_resized]; exact inside)]
  · have notFullW : ¬ w.maxsize = w.size := by rw [← r.maxsize, ← sameSize]; exact full
    have inside : v.size < v.maxsize := by have := r.size_le; omega
    have appended : vectorAppend w item = { w with items := w.items ++ [item] } := by
      simp [vectorAppend, notFullW]
    refine ⟨_, ?_, appended ▸ r.store inside item⟩
    rw [vectorMemAppend, if_neg full]
    simp only [storeSlot_of_lt (r.slots ▸ inside), Option.bind_eq_bind, Option.pure_def, Option.bind_some]

theorem vectorMemSet_refines (r : VectorRefines v w) (index : Int) (item : α) :
    ∃ v', vectorMemSet v index item = some v' ∧ VectorRefines v' (vectorSet w index item) := by
  have sameSize := r.size_eq
  by_cases inRange : 0 ≤ index ∧ index < v.size
  · have inside : index.toNat < v.slots.length := by have := r.size_le; have := r.slots; omega
    have inRangeW : 0 ≤ index ∧ index < w.size := by rw [← sameSize]; exact inRange
    refine ⟨{ v with slots := v.slots.set index.toNat (some item) }, ?_, ?_, ?_, ?_, ?_, ?_, ?_⟩
    · simp [vectorMemSet, inRange, storeSlot_of_lt inside]
    · simp only [vectorSet, if_pos inRangeW, List.take_set, r.items, List.map_set]
    · simpa [vectorSet, inRangeW] using r.maxsize
    · simpa using r.slots
    · exact r.size_le
    · exact r.pos
    · exact r.small
  · have outW : ¬ (0 ≤ index ∧ index < w.size) := by rw [← sameSize]; exact inRange
    refine ⟨v, by simp [vectorMemSet, inRange], ?_⟩
    simpa [vectorSet, outW] using r

theorem vectorMemDelete_shifted {index : Int} (inRange : 0 ≤ index ∧ index < v.size)
    (fits : v.size ≤ v.slots.length) :
    ∃ cleared, storeSlot v.slots index.toNat none = some cleared ∧
      shiftDown cleared index.toNat (v.size - 1 - index.toNat) =
        some (v.slots.take index.toNat ++ (v.slots.drop (index.toNat + 1)).take
          (v.size - 1 - index.toNat) ++ none :: (v.slots.drop (index.toNat + 1)).drop
          (v.size - 1 - index.toNat)) := by
  have inside : index.toNat < v.slots.length := by omega
  have cleared : v.slots.set index.toNat none =
      v.slots.take index.toNat ++ none :: v.slots.drop (index.toNat + 1) := by
    rw [List.set_eq_take_append_cons_drop, if_pos inside]
  have prefixLength : (v.slots.take index.toNat).length = index.toNat := by
    rw [List.length_take]
    omega
  have rounds : v.size - 1 - index.toNat ≤ (v.slots.drop (index.toNat + 1)).length := by
    rw [List.length_drop]
    omega
  have moved := shiftDown_spec _ (v.slots.take index.toNat) (v.slots.drop (index.toNat + 1)) rounds
  rw [prefixLength] at moved
  exact ⟨_, storeSlot_of_lt inside none, cleared ▸ moved⟩

theorem length_shifted {slots : List (Option α)} {i m : Nat} (inside : i + m < slots.length) :
    (slots.take i ++ (slots.drop (i + 1)).take m ++ none :: (slots.drop (i + 1)).drop m).length =
      slots.length := by
  simp only [List.length_append, List.length_cons, List.length_take, List.length_drop]
  omega

theorem take_shifted (r : VectorRefines v w) {i : Nat} (inside : i < v.size) :
    (v.slots.take i ++ (v.slots.drop (i + 1)).take (v.size - 1 - i) ++
        none :: (v.slots.drop (i + 1)).drop (v.size - 1 - i)).take (v.size - 1) =
      (w.items.eraseIdx i).map some := by
  have below := r.size_le
  have fits := r.slots
  have front : (v.slots.take i ++ (v.slots.drop (i + 1)).take (v.size - 1 - i)).length =
      v.size - 1 := by
    simp only [List.length_append, List.length_take, List.length_drop]
    omega
  rw [List.take_left' front, ← List.eraseIdx_map, ← r.items, List.eraseIdx_eq_take_drop_succ,
    List.take_take, Nat.min_eq_left (by omega), List.drop_take,
    show v.size - (i + 1) = v.size - 1 - i by omega]

theorem vectorMemDelete_refines (r : VectorRefines v w) (index : Int) :
    ∃ v', vectorMemDelete v index = some v' ∧ VectorRefines v' (vectorDelete w index) := by
  have sameSize := r.size_eq
  by_cases out : index < 0 ∨ index ≥ v.size
  · have outW : index < 0 ∨ index ≥ w.size := by rw [← sameSize]; exact out
    refine ⟨v, by simp [vectorMemDelete, out], ?_⟩
    simpa [vectorDelete, outW] using r
  · have inRange : 0 ≤ index ∧ index < v.size := by omega
    have outW : ¬ (index < 0 ∨ index ≥ w.size) := by rw [← sameSize]; exact out
    have below := r.size_le
    have fits := r.slots
    have len := length_shifted
      (show index.toNat + (v.size - 1 - index.toNat) < v.slots.length by omega)
    have erased : (w.items.eraseIdx index.toNat).length = v.size - 1 := by
      rw [List.length_eraseIdx, if_pos (by rw [← Vector.size, ← sameSize]; omega), ← Vector.size,
        ← sameSize]
    have maxsize := r.maxsize
    have shortened : VectorRefines
        ⟨v.slots.take index.toNat ++ (v.slots.drop (index.toNat + 1)).take (v.size - 1 - index.toNat) ++
          none :: (v.slots.drop (index.toNat + 1)).drop (v.size - 1 - index.toNat), w.maxsize, v.size - 1⟩
        { w with items := w.items.eraseIdx index.toNat } :=
      ⟨take_shifted r (by omega), rfl, by rw [len, fits, maxsize], by dsimp only; omega, maxsize ▸ r.pos,
        maxsize ▸ r.small⟩
    obtain ⟨cleared, store, shift⟩ := vectorMemDelete_shifted inRange (fits ▸ below)
    rw [vectorMemDelete, if_neg out, vectorDelete, if_neg outW]
    simp only [store, shift, Option.bind_eq_bind, Option.bind_some, Vector.size, erased, maxsize]
    split_ifs with halve
    · -- `vector_resize(v, v->maxsize / 2)`, with `maxsize` at least 4
      have small : w.maxsize / 2 < 2 ^ 31 := by have := r.small; omega
      rw [toSigned_of_lt_two_pow_31 small, vectorMemResize_of_lt _ (by omega) small]
      exact ⟨_, rfl, shortened.resize (by dsimp only; omega) (by omega) small⟩
    · exact ⟨_, rfl, shortened⟩

end Refines

section Runs

theorem vectorMemStep_refines {v : VectorMem α} {w : Vector α} (r : VectorRefines v w) (op : VectorOp α)
    (room : op.isAppend = true → w.size < 2 ^ 30) :
    ∃ v', vectorMemStep v op = some v' ∧ VectorRefines v' (vectorStep w op) := by
  cases op with
  | append item => exact vectorMemAppend_refines r (room rfl) item
  | set index item => exact vectorMemSet_refines r index item
  | delete index => exact vectorMemDelete_refines r index

theorem items_vectorStep (w : Vector α) (op : VectorOp α) :
    (vectorStep w op).items = listStep w.items op := by
  cases op with
  | append item => exact items_vectorAppend w item
  | set index item =>
    have sized : w.size = w.items.length := rfl
    simp only [vectorStep, vectorSet, listStep]
    split_ifs <;> first | rfl | omega
  | delete index =>
    have sized : w.size = w.items.length := rfl
    simp only [vectorStep, vectorDelete, listStep]
    split_ifs <;> first | rfl | omega

theorem items_foldl_vectorStep (ops : List (VectorOp α)) (w : Vector α) :
    (ops.foldl vectorStep w).items = ops.foldl listStep w.items := by
  induction ops generalizing w with
  | nil => rfl
  | cons op ops ih => rw [List.foldl_cons, ih, items_vectorStep, List.foldl_cons]

theorem run_vectorMemStep_refines : ∀ (ops : List (VectorOp α)) (v : VectorMem α) (w : Vector α),
    VectorRefines v w →
      (∀ i (h : i < ops.length), ops[i].isAppend = true → ((ops.take i).foldl vectorStep w).size < 2 ^ 30) →
      ∃ v', OpRun.run vectorMemStep v ops = some v' ∧ VectorRefines v' (ops.foldl vectorStep w)
  | [], v, _, r, _ => ⟨v, rfl, r⟩
  | op :: ops, v, w, r, short => by
    obtain ⟨v₁, step, r₁⟩ := vectorMemStep_refines r op (short 0 (Nat.zero_lt_succ _))
    obtain ⟨v', rest, r'⟩ := run_vectorMemStep_refines ops v₁ (vectorStep w op) r₁
      fun i inside appended => short (i + 1) (Nat.succ_lt_succ inside) appended
    exact ⟨v', by simp [step, rest], r'⟩

/-- Every run of appends, sets and deletes from `vector_new` with at most
`2 ^ 30` appends stays inside the block, and its first `size` slots hold the
list the same calls build: `size` never exceeds `maxsize`, the number of slots
of the block, which stays at least 1. The slots refine the list-level model of
`vector.c` on the way. -/
theorem vectorMem_refines_list (ops : List (VectorOp α))
    (short : ∀ i (h : i < ops.length), ops[i].isAppend = true → ((ops.take i).foldl listStep []).length < 2 ^ 30) :
    ∃ v, OpRun.run vectorMemStep vectorMemNew ops = some v ∧
      v.slots.take v.size = (ops.foldl listStep []).map some ∧
      v.size ≤ v.maxsize ∧ v.slots.length = v.maxsize ∧ 1 ≤ v.maxsize ∧
      VectorRefines v (ops.foldl vectorStep vectorNew) := by
  have shortVector : ∀ i (h : i < ops.length), ops[i].isAppend = true →
      ((ops.take i).foldl vectorStep vectorNew).size < 2 ^ 30 := by
    intro i inside appended
    show ((ops.take i).foldl vectorStep vectorNew).items.length < 2 ^ 30
    rw [items_foldl_vectorStep]
    exact short i inside appended
  obtain ⟨v, run, r⟩ := run_vectorMemStep_refines ops _ _ vectorRefines_new shortVector
  refine ⟨v, run, ?_, r.size_le, r.slots, r.pos, r⟩
  rw [r.items, items_foldl_vectorStep]
  rfl

theorem vectorMem_refines_list_appends :
    (∀ i (h : i < [VectorOp.append (1 : Nat), .append 2, .delete 0].length),
        [VectorOp.append (1 : Nat), .append 2, .delete 0][i].isAppend = true →
          (([VectorOp.append (1 : Nat), .append 2, .delete 0].take i).foldl listStep []).length < 2 ^ 30) ∧
      ∃ v, OpRun.run vectorMemStep vectorMemNew [VectorOp.append (1 : Nat), .append 2, .delete 0] = some v ∧
        v.slots.take v.size = ([VectorOp.append (1 : Nat), .append 2, .delete 0].foldl listStep []).map some ∧
        v.size ≤ v.maxsize ∧ v.slots.length = v.maxsize ∧ 1 ≤ v.maxsize ∧
        VectorRefines v ([VectorOp.append (1 : Nat), .append 2, .delete 0].foldl vectorStep vectorNew) :=
  ⟨by decide, vectorMem_refines_list _ (by decide)⟩

end Runs

section Overflow

theorem foldl_listStep_appends (a : α) : ∀ (k : Nat) (l : List α),
    (List.replicate k (VectorOp.append a)).foldl listStep l = l ++ List.replicate k a
  | 0, l => by simp
  | k + 1, l => by
    rw [List.replicate_succ, List.foldl_cons, foldl_listStep_appends a k, List.replicate_succ]
    simp [listStep]

theorem foldl_appends_of_room (a : α) : ∀ (k : Nat) (w : Vector α), w.size + k ≤ w.maxsize →
    (List.replicate k (VectorOp.append a)).foldl vectorStep w = { w with items := w.items ++ List.replicate k a }
  | 0, w, _ => by simp
  | k + 1, w, room => by
    have notFull : ¬ w.maxsize = w.size := by omega
    have step : vectorStep w (.append a) = { w with items := w.items ++ [a] } := by
      simp [vectorStep, vectorAppend, notFull]
    have room' : ({ w with items := w.items ++ [a] } : Vector α).size + k ≤ w.maxsize := by
      simp only [Vector.size, List.length_append, List.length_singleton] at room ⊢
      omega
    rw [List.replicate_succ, List.foldl_cons, step, foldl_appends_of_room a k _ room']
    simp [List.replicate_succ]

theorem foldl_appends_of_full (a : α) (w : Vector α) (full : w.size = w.maxsize) (pos : 1 ≤ w.maxsize) :
    (List.replicate w.maxsize (VectorOp.append a)).foldl vectorStep w =
      ⟨w.items ++ List.replicate w.maxsize a, 2 * w.maxsize⟩ := by
  obtain ⟨m, split⟩ : ∃ m, w.maxsize = m + 1 := ⟨w.maxsize - 1, by omega⟩
  have doubled : vectorStep w (.append a) = ⟨w.items ++ [a], 2 * w.maxsize⟩ := by
    simp only [vectorStep, vectorAppend, vectorResize, full, if_true]
    congr 1
    omega
  have room : (⟨w.items ++ [a], 2 * w.maxsize⟩ : Vector α).size + m ≤ 2 * w.maxsize := by
    simp only [Vector.size, List.length_append, List.length_singleton] at full ⊢
    omega
  rw [split, List.replicate_succ, List.foldl_cons, ← split, doubled, foldl_appends_of_room a m _ room]
  simp [split, List.replicate_succ]

theorem foldl_appends_vectorNew (a : α) : ∀ k : Nat,
    (List.replicate (4 * 2 ^ k) (VectorOp.append a)).foldl vectorStep vectorNew =
      ⟨List.replicate (4 * 2 ^ k) a, 4 * 2 ^ k⟩
  | 0 => by
    rw [foldl_appends_of_room a _ _ (by simp [vectorNew, Vector.initialCapacity, Vector.size])]
    rfl
  | k + 1 => by
    have twice : 4 * 2 ^ (k + 1) = 4 * 2 ^ k + 4 * 2 ^ k := by rw [Nat.pow_succ]; omega
    have filled := foldl_appends_vectorNew a k
    have full := foldl_appends_of_full a ⟨List.replicate (4 * 2 ^ k) a, 4 * 2 ^ k⟩
      (by simp [Vector.size]) (by dsimp only; have := Nat.two_pow_pos k; omega)
    rw [twice, List.replicate_add, List.foldl_append, filled, full, List.replicate_add]
    dsimp only
    congr 1
    omega

theorem vectorMemResize_of_tmalloc {v : VectorMem α} {n : Int} {bytes : Nat}
    (allocated : tmalloc (8 * (n % 2 ^ 64).toNat).toUInt64 = some bytes) :
    vectorMemResize v n =
      some ⟨v.slots.take (bytes / 8) ++ List.replicate (bytes / 8 - v.slots.length) none, (n % 2 ^ 64).toNat,
        v.size⟩ := by
  simp only [vectorMemResize, allocated, Option.bind_eq_bind, Option.bind_some]
  rfl

theorem run_appends_of_room (a : α) : ∀ (k : Nat) (v : VectorMem α), v.size + k ≤ v.slots.length →
    v.slots.length < v.maxsize →
      ∃ slots, OpRun.run vectorMemStep v (List.replicate k (.append a)) = some ⟨slots, v.maxsize, v.size + k⟩ ∧
        slots.length = v.slots.length
  | 0, v, _, _ => ⟨v.slots, rfl, rfl⟩
  | k + 1, v, room, past => by
    have notFull : ¬ v.maxsize = v.size := by omega
    have inside : v.size < v.slots.length := by omega
    have step : vectorMemStep v (.append a) = some ⟨v.slots.set v.size (some a), v.maxsize, v.size + 1⟩ := by
      simp only [vectorMemStep, vectorMemAppend, if_neg notFull, storeSlot_of_lt inside, Option.pure_def,
        Option.bind_eq_bind, Option.bind_some]
    obtain ⟨slots, rest, length⟩ := run_appends_of_room a k ⟨v.slots.set v.size (some a), v.maxsize, v.size + 1⟩
      (by simp only [List.length_set]; omega) (by simp only [List.length_set]; exact past)
    dsimp only at rest length
    refine ⟨slots, ?_, by rw [length, List.length_set]⟩
    have sum : v.size + 1 + k = v.size + (k + 1) := by omega
    rw [List.replicate_succ, OpRun.run_cons, step, Option.bind_some, rest, sum]

theorem vectorMemAppend_past_block {v : VectorMem α} (fullBlock : v.size = v.slots.length)
    (past : v.slots.length < v.maxsize) (a : α) : vectorMemAppend v a = none := by
  have notFull : ¬ v.maxsize = v.size := by omega
  rw [vectorMemAppend, if_neg notFull]
  simp [storeSlot, fullBlock]

theorem run_appends_past_block (a : α) (v : VectorMem α) (fits : v.size ≤ v.slots.length)
    (past : v.slots.length < v.maxsize) :
    OpRun.run vectorMemStep v (List.replicate (v.slots.length - v.size + 1) (.append a)) = none := by
  obtain ⟨slots, run, length⟩ := run_appends_of_room a (v.slots.length - v.size) v (by omega) past
  have full : v.size + (v.slots.length - v.size) = slots.length := by omega
  have stuck : vectorMemAppend ⟨slots, v.maxsize, v.size + (v.slots.length - v.size)⟩ a = none :=
    vectorMemAppend_past_block full (by dsimp only; omega) a
  rw [List.replicate_succ', OpRun.run_append, run, Option.bind_some, OpRun.run_cons]
  simp only [vectorMemStep, stuck, Option.bind_none]

theorem run_appends_vectorMemNew_full (a : α) :
    ∃ v, OpRun.run vectorMemStep vectorMemNew (List.replicate (2 ^ 30) (VectorOp.append a)) = some v ∧
      v.size = 2 ^ 30 ∧ v.maxsize = 2 ^ 30 ∧ v.slots.length = 2 ^ 30 := by
  -- no `simp` here: it would spell out the lists of `2 ^ 30` items
  have short : ∀ i (h : i < (List.replicate (2 ^ 30) (VectorOp.append a)).length),
      (List.replicate (2 ^ 30) (VectorOp.append a))[i].isAppend = true →
        (((List.replicate (2 ^ 30) (VectorOp.append a)).take i).foldl vectorStep vectorNew).size < 2 ^ 30 := by
    intro i inside _
    rw [List.length_replicate] at inside
    show (((List.replicate (2 ^ 30) (VectorOp.append a)).take i).foldl vectorStep vectorNew).items.length < 2 ^ 30
    rw [items_foldl_vectorStep, List.take_replicate, Nat.min_eq_left inside.le, foldl_listStep_appends,
      List.length_append, List.length_replicate]
    show 0 + i < 2 ^ 30
    omega
  obtain ⟨v, run, r⟩ := run_vectorMemStep_refines _ _ _ vectorRefines_new short
  have filled : (List.replicate (2 ^ 30) (VectorOp.append a)).foldl vectorStep vectorNew =
      ⟨List.replicate (2 ^ 30) a, 2 ^ 30⟩ := by
    rw [show (2 : Nat) ^ 30 = 4 * 2 ^ 28 by decide]
    exact foldl_appends_vectorNew a 28
  rw [filled] at r
  exact ⟨v, run, r.size_eq.trans (List.length_replicate ..), r.maxsize, r.slots.trans r.maxsize⟩

theorem vectorMemAppend_at_int_min {v : VectorMem α} (size : v.size = 2 ^ 30) (maxsize : v.maxsize = 2 ^ 30)
    (a : α) :
    ∃ slots, vectorMemAppend v a = some ⟨slots, 2 ^ 64 - 2 ^ 31, v.size + 1⟩ ∧
      slots.length = 2 ^ 61 - 2 ^ 31 := by
  have intMin : toSigned 32 (v.maxsize * 2 % 2 ^ 32) = -2 ^ 31 := by rw [maxsize]; decide
  have allocated : tmalloc (8 * ((-2 ^ 31 : Int) % 2 ^ 64).toNat).toUInt64 = some (2 ^ 64 - 2 ^ 34) := by
    decide
  have wrapped : ((-2 ^ 31 : Int) % 2 ^ 64).toNat = 2 ^ 64 - 2 ^ 31 := by decide
  have slotCount : (2 ^ 64 - 2 ^ 34) / 8 = 2 ^ 61 - 2 ^ 31 := by decide
  have inside : v.size < (v.slots.take (2 ^ 61 - 2 ^ 31) ++
      List.replicate (2 ^ 61 - 2 ^ 31 - v.slots.length) none).length := by
    rw [length_resized, size]
    decide
  refine ⟨(v.slots.take (2 ^ 61 - 2 ^ 31) ++ List.replicate (2 ^ 61 - 2 ^ 31 - v.slots.length) none).set
    v.size (some a), ?_, by rw [List.length_set, length_resized]⟩
  rw [vectorMemAppend, if_pos (maxsize.trans size.symm), intMin, vectorMemResize_of_tmalloc allocated,
    wrapped, slotCount]
  simp only [Option.bind_eq_bind, Option.pure_def, Option.bind_some, storeSlot_of_lt inside]

/-- `2 ^ 61 - 2 ^ 31 + 1` appends from `vector_new`. The append to the full
vector of `2 ^ 30` slots passes `INT_MIN` to `vector_resize`: the block gets
`8 * (2 ^ 64 - 2 ^ 31)` bytes taken mod `2 ^ 64`, which is `2 ^ 61 - 2 ^ 31`
slots, and `maxsize` becomes `2 ^ 64 - 2 ^ 31`. The vector then never counts
itself full, and the append after the block is full stores past its end. -/
theorem vectorMem_appends_overflow :
    (∃ v, OpRun.run vectorMemStep vectorMemNew (List.replicate (2 ^ 30 + 1) (VectorOp.append (0 : Nat))) =
        some v ∧ v.size = 2 ^ 30 + 1 ∧ v.maxsize = 2 ^ 64 - 2 ^ 31 ∧ v.slots.length = 2 ^ 61 - 2 ^ 31) ∧
      OpRun.run vectorMemStep vectorMemNew (List.replicate (2 ^ 61 - 2 ^ 31 + 1) (VectorOp.append (0 : Nat))) =
        none := by
  obtain ⟨v₁, run₁, size₁, maxsize₁, -⟩ := run_appends_vectorMemNew_full (0 : Nat)
  obtain ⟨slots₂, grown, length₂⟩ := vectorMemAppend_at_int_min size₁ maxsize₁ 0
  have run₂ : OpRun.run vectorMemStep vectorMemNew (List.replicate (2 ^ 30 + 1) (VectorOp.append (0 : Nat))) =
      some ⟨slots₂, 2 ^ 64 - 2 ^ 31, v₁.size + 1⟩ := by
    rw [List.replicate_add, OpRun.run_append, run₁, Option.bind_some, List.replicate_one, OpRun.run_cons]
    simp only [vectorMemStep, grown, Option.bind_some, OpRun.run_nil]
  refine ⟨⟨_, run₂, by rw [size₁], rfl, length₂⟩, ?_⟩
  have overrun := run_appends_past_block (0 : Nat) ⟨slots₂, 2 ^ 64 - 2 ^ 31, v₁.size + 1⟩
    (by dsimp only; rw [length₂, size₁]; decide) (by dsimp only; rw [length₂]; decide)
  have count : slots₂.length - (v₁.size + 1) + 1 = 2 ^ 61 - 2 ^ 31 - (2 ^ 30 + 1) + 1 := by
    rw [length₂, size₁]
  have split : 2 ^ 61 - 2 ^ 31 + 1 = 2 ^ 30 + 1 + (2 ^ 61 - 2 ^ 31 - (2 ^ 30 + 1) + 1) := by decide
  dsimp only at overrun
  rw [count] at overrun
  rw [split, List.replicate_add, OpRun.run_append, run₂, Option.bind_some, overrun]

end Overflow

end TrieDB
